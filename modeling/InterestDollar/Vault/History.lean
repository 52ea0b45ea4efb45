import InterestDollar.Token.Rebase
import InterestDollar.Vault.Admin
import Mathlib.Logic.Relation

/-!
# Runs of the system

The calls accounts can make of the vault and of its token, and the changes the
rest of the world makes on its own, as the steps of one transition system. What a
call of the vault can do is a sequence of three kinds of small step: the world
changes, the vault calls its token, the vault rebases. An invariant that the
small steps keep is kept by every function of the vault, and none of them touches
the vault's own storage.

From there, the records of a system tell its history truthfully: the ledger is
reached by the recorded calls, and so is the ledger before each recorded rebase.
-/

namespace InterestDollar

open Checked Transition

/-- The calls an account can make, and a change of the world. -/
inductive Action (ω : Type)
  | ousd (call : Ledger.Call)
  | mint (asset : Address) (amount minimumOusdAmount : ℕ)
  | mintMultiple (assets : List Address) (amounts : List ℕ) (minimumOusdAmount : ℕ)
  | redeem (amount minimumUnitAmount : ℕ)
  | redeemAll (minimumUnitAmount : ℕ)
  | allocate
  | rebase
  | configure (setting : System.Setting)
  | setVaultBuffer (vaultBuffer : ℕ)
  | setTrusteeFeeBps (basis : ℕ)
  | pauseRebase
  | pauseCapital
  | unpauseCapital
  | transferGovernance (newGovernor : Address)
  | claimGovernance
  | supportAsset (asset : Address)
  | approveStrategy (strategy : Address)
  | setAssetDefaultStrategy (asset strategy : Address)
  | removeStrategy (strategy : Address)
  | reallocate (strategyFrom strategyTo : Address) (assets : List Address) (amounts : List ℕ)
  | withdrawAllFromStrategy (strategy : Address)
  | withdrawAllFromStrategies
  | harvest
  | harvestStrategy (strategy : Address)
  | transferToken (asset : Address) (amount : ℕ)
  | environment (world : ω)

namespace System

variable {ω : Type}

/-- The function of the source that stores a setting. -/
def execSetting (s : System ω) (sender : Address) : Setting → Except Revert (System ω)
  | .priceProvider address => s.setPriceProvider sender address
  | .redeemFeeBps bps => s.setRedeemFeeBps sender bps
  | .autoAllocateThreshold threshold => s.setAutoAllocateThreshold sender threshold
  | .rebaseThreshold threshold => s.setRebaseThreshold sender threshold
  | .uniswapAddr address => s.setUniswapAddr sender address
  | .celoGoldAddr address => s.setCeloGoldAddr sender address
  | .strategistAddr address => s.setStrategistAddr sender address
  | .maxSupplyDiff diff => s.setMaxSupplyDiff sender diff
  | .trusteeAddress address => s.setTrusteeAddress sender address
  | .rebaseUnpaused => s.unpauseRebase sender

/-- One call by an account, or one change of the world. -/
def exec (W : World ω) (s : System ω) (step : Address × Action ω) : Except Revert (System ω) :=
  let (sender, action) := step
  match action with
  | .ousd call => s.callOusd W sender call
  | .mint asset amount minimum => s.mint W sender asset amount minimum
  | .mintMultiple assets amounts minimum => s.mintMultiple W sender assets amounts minimum
  | .redeem amount minimum => s.redeem W sender amount minimum
  | .redeemAll minimum => s.redeemAll W sender minimum
  | .allocate => s.allocate W
  | .rebase => s.rebase W
  | .configure setting => s.execSetting sender setting
  | .setVaultBuffer vaultBuffer => s.setVaultBuffer sender vaultBuffer
  | .setTrusteeFeeBps basis => s.setTrusteeFeeBps sender basis
  | .pauseRebase => s.pauseRebase sender
  | .pauseCapital => s.pauseCapital sender
  | .unpauseCapital => s.unpauseCapital sender
  | .transferGovernance newGovernor => s.transferGovernance sender newGovernor
  | .claimGovernance => s.claimGovernance sender
  | .supportAsset asset => s.supportAsset W sender asset
  | .approveStrategy strategy => s.approveStrategy sender strategy
  | .setAssetDefaultStrategy asset strategy => s.setAssetDefaultStrategy W sender asset strategy
  | .removeStrategy strategy => s.removeStrategy W sender strategy
  | .reallocate strategyFrom strategyTo assets amounts =>
      s.reallocate W sender strategyFrom strategyTo assets amounts
  | .withdrawAllFromStrategy strategy => s.withdrawAllFromStrategy W sender strategy
  | .withdrawAllFromStrategies => s.withdrawAllFromStrategies W sender
  | .harvest => s.harvestAll W sender
  | .harvestStrategy strategy => s.harvestStrategy W sender strategy
  | .transferToken asset amount => s.transferToken W sender asset amount
  | .environment world => .ok (s.setWorld world)

/-- The vault's address belongs to the vault: no account calls from it. -/
def execFrom (W : World ω) (s : System ω) (step : Address × Action ω) :
    Except Revert (System ω) := do
  require (step.1 ≠ s.vault.self) "Not an account"
  s.exec W step

/-- Runs of the system from a fresh `initialize` of both contracts. -/
def Reached (W : World ω) (self governor priceProvider : Address) (world : ω) :
    List (System ω × (Address × Action ω)) → System ω → Prop :=
  Run (fun s step s' => s.execFrom W step = .ok s')
    (initialized self governor priceProvider world)

/-! ## Calls that only change the world -/

/-- Two systems that differ at most in the rest of the world. -/
def WorldOnly (s s' : System ω) : Prop := ∃ w, s' = s.setWorld w

variable {W : World ω} {s s' : System ω}

theorem WorldOnly.refl (s : System ω) : WorldOnly s s := ⟨s.world, rfl⟩

theorem worldOnly_setWorld (s : System ω) (w : ω) : WorldOnly s (s.setWorld w) := ⟨w, rfl⟩

theorem WorldOnly.trans {s'' : System ω} (h : WorldOnly s s') (h' : WorldOnly s' s'') :
    WorldOnly s s'' := by
  obtain ⟨w, rfl⟩ := h
  obtain ⟨w', rfl⟩ := h'
  exact ⟨w', rfl⟩

theorem WorldOnly.vault (h : WorldOnly s s') : s'.vault = s.vault := by
  obtain ⟨w, rfl⟩ := h
  rfl

theorem WorldOnly.ousd (h : WorldOnly s s') : s'.ousd = s.ousd := by
  obtain ⟨w, rfl⟩ := h
  rfl

/-- Going on from a system that differs only in the world. -/
theorem WorldOnly.ensures {s₀ : System ω} (h : WorldOnly s₀ s) {x : Except Revert (System ω)}
    (hx : Ensures x (WorldOnly s)) : Ensures x (WorldOnly s₀) :=
  fun a ha => h.trans (hx a ha)

theorem foldlM_worldOnly {γ : Type*} {f : System ω → γ → Except Revert (System ω)}
    (hf : ∀ s x, Ensures (f s x) (WorldOnly s)) (s : System ω) (l : List γ) :
    Ensures (l.foldlM f s) (WorldOnly s) :=
  ensures_foldlM (fun a x ha => ha.ensures (hf a x)) (.refl s) l

theorem swapRewards_worldOnly (s : System ω) (token : Address) (amount : ℕ) :
    Ensures (s.swapRewards W token amount) (WorldOnly s) := by
  refine ensures_of_bind fun _ _ => ensures_of_bind fun _ _ => ?_
  cases s.vault.allAssets with
  | nil => exact ensures_error
  | cons asset rest =>
      refine ensures_of_bind fun _ _ => ensures_of_bind fun w _ => ?_
      exact ensures_pure (worldOnly_setWorld s w)

theorem harvestFrom_worldOnly (s : System ω) (strategy : Address) :
    Ensures (s.harvestFrom W strategy) (WorldOnly s) := by
  refine ensures_of_bind fun _ _ => ?_
  refine ensures_ite (fun _ => ?_) fun _ => ensures_pure (.refl s)
  refine ensures_of_bind fun w _ => ?_
  have hcollect : WorldOnly s (s.setWorld w) := worldOnly_setWorld s w
  refine ensures_ite (fun _ => ?_) fun _ => ensures_pure hcollect
  refine ensures_of_bind fun _ _ => ?_
  refine ensures_ite (fun _ => ?_) fun _ => ensures_pure hcollect
  exact hcollect.ensures (swapRewards_worldOnly _ _ _)

theorem harvestStrategy_worldOnly (s : System ω) (sender strategy : Address) :
    Ensures (s.harvestStrategy W sender strategy) (WorldOnly s) :=
  ensures_of_bind fun _ _ => harvestFrom_worldOnly s strategy

theorem allocateAsset_worldOnly (modifier : ℕ) (s : System ω) (asset : Address) :
    Ensures (s.allocateAsset W modifier asset) (WorldOnly s) := by
  refine ensures_of_bind fun _ _ => ?_
  refine ensures_ite (fun _ => ensures_pure (.refl s)) fun _ => ?_
  refine ensures_of_bind fun _ _ => ?_
  refine ensures_ite (fun _ => ?_) fun _ => ensures_pure (.refl s)
  refine ensures_of_bind fun _ _ => ensures_of_bind fun w _ => ?_
  exact ensures_pure (worldOnly_setWorld s w)

theorem harvestIfDue_worldOnly (s : System ω) (strategy : Address) :
    Ensures (s.harvestIfDue W strategy) (WorldOnly s) := by
  refine ensures_of_bind fun _ _ => ?_
  refine ensures_ite (fun _ => ?_) fun _ => ensures_pure (.refl s)
  refine ensures_of_bind fun _ _ => ?_
  refine ensures_ite (fun _ => harvestStrategy_worldOnly s _ _) fun _ => ?_
  refine ensures_of_bind fun _ _ => ?_
  exact ensures_ite (fun _ => harvestStrategy_worldOnly s _ _) fun _ => ensures_pure (.refl s)

theorem allocateFunds_worldOnly (s : System ω) :
    Ensures (s.allocateFunds W) (WorldOnly s) := by
  refine ensures_of_bind fun _ _ => ?_
  refine ensures_ite (fun _ => ensures_pure (.refl s)) fun _ => ?_
  refine ensures_of_bind fun _ _ => ensures_of_bind fun _ _ => ensures_of_bind fun _ _ => ?_
  refine ensures_ite (fun _ => ensures_pure (.refl s)) fun _ => ?_
  refine ensures_bind (foldlM_worldOnly (allocateAsset_worldOnly _) s _) fun t ht => ?_
  exact ht.ensures (foldlM_worldOnly harvestIfDue_worldOnly t _)

theorem allocate_worldOnly (s : System ω) : Ensures (s.allocate W) (WorldOnly s) :=
  ensures_of_bind fun _ _ => allocateFunds_worldOnly s

theorem allocateAfterMint_worldOnly (s : System ω) (units : ℕ) :
    Ensures (s.allocateAfterMint W units) (WorldOnly s) :=
  ensures_ite (fun _ => allocateFunds_worldOnly s) fun _ => ensures_pure (.refl s)

theorem takeDeposit_worldOnly (sender : Address) (s : System ω) (asset : Address)
    (amount : ℕ) : Ensures (s.takeDeposit W sender asset amount) (WorldOnly s) :=
  ensures_of_bind fun w _ => ensures_pure (worldOnly_setWorld s w)

theorem payOutput_worldOnly (recipient : Address) (s : System ω) (asset : Address)
    (output : ℕ) : Ensures (s.payOutput W recipient asset output) (WorldOnly s) := by
  refine ensures_ite (fun _ => ensures_pure (.refl s)) fun _ => ?_
  refine ensures_of_bind fun _ _ => ?_
  refine ensures_ite (fun _ => ?_) fun _ => ensures_ite (fun _ => ?_) fun _ => ensures_error
  · exact ensures_of_bind fun w _ => ensures_pure (worldOnly_setWorld s w)
  · exact ensures_of_bind fun w _ => ensures_pure (worldOnly_setWorld s w)

theorem payOutputs_worldOnly (recipient : Address) (s : System ω) (outputs : List ℕ) :
    Ensures (s.payOutputs W recipient outputs) (WorldOnly s) := by
  unfold payOutputs
  refine foldlM_worldOnly ?_ s _
  exact fun s entry => payOutput_worldOnly recipient s entry.1 entry.2

theorem moveAsset_worldOnly (strategyFrom strategyTo : Address) (s : System ω)
    (entry : Address × ℕ) :
    Ensures (s.moveAsset W strategyFrom strategyTo entry) (WorldOnly s) := by
  refine ensures_of_bind fun _ _ => ensures_of_bind fun _ _ => ensures_of_bind fun w _ => ?_
  exact ensures_pure (worldOnly_setWorld s w)

theorem reallocate_worldOnly (s : System ω) (sender strategyFrom strategyTo : Address)
    (assets : List Address) (amounts : List ℕ) :
    Ensures (s.reallocate W sender strategyFrom strategyTo assets amounts) (WorldOnly s) := by
  refine ensures_of_bind fun _ _ => ensures_of_bind fun _ _ => ensures_of_bind fun _ _ => ?_
  refine ensures_of_bind fun _ _ => ?_
  refine ensures_bind (foldlM_worldOnly (moveAsset_worldOnly _ _) s _) fun t ht => ?_
  exact ensures_of_bind fun w _ => ensures_pure (ht.trans (worldOnly_setWorld t w))

theorem recallAssets_worldOnly (s : System ω) (strategy : Address) :
    Ensures (s.recallAssets W strategy) (WorldOnly s) :=
  ensures_of_bind fun w _ => ensures_pure (worldOnly_setWorld s w)

/-! ## Small steps -/

/-- The small steps of the vault's functions. -/
inductive Micro (W : World ω) : System ω → System ω → Prop
  | world {s s' : System ω} : WorldOnly s s' → Micro W s s'
  | ousd {s s' : System ω} {call : Ledger.Call} :
      s.callOusd W s.vault.self call = .ok s' → Micro W s s'
  | rebase {s s' : System ω} : s.rebaseSupply W = .ok s' → Micro W s s'

/-- Sequences of small steps. -/
def Small (W : World ω) : System ω → System ω → Prop := Relation.ReflTransGen (Micro W)

theorem small_of_worldOnly {x : Except Revert (System ω)} (h : Ensures x (WorldOnly s)) :
    Ensures x (Small W s) :=
  fun a ha => .single (.world (h a ha))

theorem callOusd_small (call : Ledger.Call) :
    Ensures (s.callOusd W s.vault.self call) (Small W s) :=
  fun _ h => .single (.ousd h)

theorem rebaseSupply_small (s : System ω) : Ensures (s.rebaseSupply W) (Small W s) :=
  fun _ h => .single (.rebase h)

/-- Going on from a system already reached by small steps. -/
theorem Small.ensures {s₀ : System ω} (h : Small W s₀ s) {x : Except Revert (System ω)}
    (hx : Ensures x (Small W s)) : Ensures x (Small W s₀) :=
  fun a ha => Relation.ReflTransGen.trans h (hx a ha)

theorem rebaseBeforeMint_small (s : System ω) (units : ℕ) :
    Ensures (s.rebaseBeforeMint W units) (Small W s) :=
  ensures_ite (fun _ => rebaseSupply_small s) fun _ => ensures_pure .refl

theorem rebaseForRedeem_small (s : System ω) (amount : ℕ) :
    Ensures (s.rebaseForRedeem W amount) (Small W s) :=
  ensures_ite (fun _ => rebaseSupply_small s) fun _ => ensures_pure .refl

theorem mint_small (s : System ω) (sender asset : Address) (amount minimum : ℕ) :
    Ensures (s.mint W sender asset amount minimum) (Small W s) := by
  refine ensures_of_bind fun _ _ => ensures_of_bind fun _ _ => ensures_of_bind fun _ _ => ?_
  refine ensures_of_bind fun _ _ => ensures_of_bind fun _ _ => ensures_of_bind fun _ _ => ?_
  refine ensures_of_bind fun _ _ => ensures_of_bind fun _ _ => ?_
  refine ensures_bind (rebaseBeforeMint_small s _) fun t ht => ?_
  refine ensures_bind (ht.ensures (callOusd_small _)) fun t ht => ?_
  refine ensures_bind (ht.ensures (small_of_worldOnly (takeDeposit_worldOnly _ t _ _))) ?_
  intro t ht
  exact ht.ensures (small_of_worldOnly (allocateAfterMint_worldOnly t _))

theorem mintMultiple_small (s : System ω) (sender : Address) (assets : List Address)
    (amounts : List ℕ) (minimum : ℕ) :
    Ensures (s.mintMultiple W sender assets amounts minimum) (Small W s) := by
  refine ensures_of_bind fun _ _ => ensures_of_bind fun _ _ => ensures_of_bind fun _ _ => ?_
  refine ensures_of_bind fun _ _ => ensures_of_bind fun _ _ => ?_
  refine ensures_bind (rebaseBeforeMint_small s _) fun t ht => ?_
  refine ensures_bind (ht.ensures (callOusd_small _)) fun t ht => ?_
  have hdeposits := foldlM_worldOnly
    (fun t (entry : Address × ℕ) => takeDeposit_worldOnly (W := W) sender t entry.1 entry.2) t
      (assets.zip amounts)
  refine ensures_bind (ht.ensures (small_of_worldOnly hdeposits)) fun t ht => ?_
  exact ht.ensures (small_of_worldOnly (allocateAfterMint_worldOnly t _))

theorem redeemAmount_small (s : System ω) (sender : Address) (amount minimum : ℕ) :
    Ensures (s.redeemAmount W sender amount minimum) (Small W s) := by
  refine ensures_of_bind fun _ _ => ensures_of_bind fun _ _ => ensures_of_bind fun _ _ => ?_
  refine ensures_of_bind fun outputs _ => ?_
  have hpay : Ensures (s.payOutputs W sender outputs) (Small W s) :=
    small_of_worldOnly (payOutputs_worldOnly sender s outputs)
  refine ensures_bind hpay fun t ht => ?_
  refine ensures_of_bind fun _ _ => ?_
  refine ensures_bind (ht.ensures (callOusd_small _)) fun t ht => ?_
  exact ht.ensures (rebaseForRedeem_small t _)

theorem redeem_small (s : System ω) (sender : Address) (amount minimum : ℕ) :
    Ensures (s.redeem W sender amount minimum) (Small W s) := by
  refine ensures_of_bind fun _ _ => ?_
  refine ensures_bind (rebaseForRedeem_small s _) fun t ht => ?_
  exact ht.ensures (redeemAmount_small t _ _ _)

theorem redeemAll_small (s : System ω) (sender : Address) (minimum : ℕ) :
    Ensures (s.redeemAll W sender minimum) (Small W s) := by
  refine ensures_of_bind fun _ _ => ensures_of_bind fun _ _ => ?_
  refine ensures_bind (rebaseForRedeem_small s _) fun t ht => ?_
  exact ensures_of_bind fun _ _ => ht.ensures (redeemAmount_small t _ _ _)

/-! ## What small steps keep -/

theorem callOusd_eq_ok {sender : Address} {call : Ledger.Call} :
    s.callOusd W sender call = .ok s' ↔
      ∃ ousd, s.ousd.exec (⟨sender, W.isContract s.world⟩, call) = .ok ousd ∧
        s' = { s with
          ousd := ousd
          ousdCalls := (s.ousd, ⟨sender, W.isContract s.world⟩, call) :: s.ousdCalls } := by
  simp only [callOusd, bind_eq_ok, pure_eq_ok]
  exact exists_congr fun _ => and_congr_right fun _ => eq_comm

/-- The fee part of a rebase is nothing, or a mint made where there is yield. -/
theorem collectFee_eq_ok {vaultValue ousdSupply : ℕ}
    (h : s.collectFee W vaultValue ousdSupply = .ok s') :
    s' = s ∨ ousdSupply < vaultValue ∧
      ∃ fee, s.callOusd W s.vault.self (.mint s.vault.trusteeAddress fee) = .ok s' := by
  unfold collectFee at h
  split_ifs at h with hyield
  · simp only [bind_eq_ok, require_eq_ok] at h
    obtain ⟨_, _, _, _, fee, _, _, _, h⟩ := h
    split_ifs at h
    · exact .inr ⟨hyield.2, fee, h⟩
    · exact .inl (pure_eq_ok.mp h).symm
  · exact .inl (pure_eq_ok.mp h).symm

theorem ratchetSupply_eq_ok {vaultValue : ℕ} (h : s.ratchetSupply W vaultValue = .ok s') :
    s' = s ∨ s.ousd.totalSupply < vaultValue ∧
      s.callOusd W s.vault.self (.changeSupply vaultValue) = .ok s' := by
  unfold ratchetSupply at h
  split_ifs at h with hlt
  · exact .inr ⟨hlt, h⟩
  · exact .inl (pure_eq_ok.mp h).symm

/-- A rebase is nothing where there is no supply, and else a fee, a ratchet and
its record. -/
theorem rebaseSupply_eq_ok :
    s.rebaseSupply W = .ok s' ↔
      s.vault.rebasePaused = false ∧
        (s.ousd.totalSupply = 0 ∧ s' = s ∨
          s.ousd.totalSupply ≠ 0 ∧ ∃ vaultValue, s.totalValue W = .ok vaultValue ∧
            ∃ s₁, s.collectFee W vaultValue s.ousd.totalSupply = .ok s₁ ∧
              ∃ s₂, s₁.ratchetSupply W vaultValue = .ok s₂ ∧
                s' = s₂.recordRebase s.ousd vaultValue) := by
  simp only [rebaseSupply, whenNotRebasePaused, bind_eq_ok, require_eq_ok, exists_and_left,
    exists_const]
  refine and_congr_right fun _ => ?_
  by_cases hzero : s.ousd.totalSupply = 0
  · simp only [hzero, if_true, pure_eq_ok, true_and, ne_eq, not_true_eq_false, false_and, or_false]
    exact eq_comm
  · simp only [hzero, if_false, bind_eq_ok, pure_eq_ok, false_and, false_or, ne_eq,
      not_false_eq_true, true_and]
    refine exists_congr fun _ => and_congr_right fun _ => exists_congr fun _ => ?_
    refine and_congr_right fun _ => exists_congr fun _ => and_congr_right fun _ => eq_comm

theorem callOusd_vault {sender : Address} {call : Ledger.Call}
    (h : s.callOusd W sender call = .ok s') : s'.vault = s.vault := by
  obtain ⟨_, _, rfl⟩ := callOusd_eq_ok.mp h
  rfl

theorem collectFee_vault {vaultValue ousdSupply : ℕ}
    (h : s.collectFee W vaultValue ousdSupply = .ok s') : s'.vault = s.vault := by
  rcases collectFee_eq_ok h with rfl | ⟨-, _, hmint⟩
  · rfl
  · exact callOusd_vault hmint

theorem ratchetSupply_vault {vaultValue : ℕ} (h : s.ratchetSupply W vaultValue = .ok s') :
    s'.vault = s.vault := by
  rcases ratchetSupply_eq_ok h with rfl | ⟨-, hchange⟩
  · rfl
  · exact callOusd_vault hchange

theorem rebaseSupply_vault (h : s.rebaseSupply W = .ok s') : s'.vault = s.vault := by
  obtain ⟨-, ⟨-, rfl⟩ | ⟨-, _, -, s₁, hfee, s₂, hratchet, rfl⟩⟩ := rebaseSupply_eq_ok.mp h
  · rfl
  · exact (ratchetSupply_vault hratchet).trans (collectFee_vault hfee)

theorem callOusd_world {sender : Address} {call : Ledger.Call}
    (h : s.callOusd W sender call = .ok s') : s'.world = s.world := by
  obtain ⟨_, _, rfl⟩ := callOusd_eq_ok.mp h
  rfl

/-- A rebase calls nothing but the token. -/
theorem rebaseSupply_world (h : s.rebaseSupply W = .ok s') : s'.world = s.world := by
  obtain ⟨-, ⟨-, rfl⟩ | ⟨-, _, -, s₁, hfee, s₂, hratchet, rfl⟩⟩ := rebaseSupply_eq_ok.mp h
  · rfl
  · have hfee : s₁.world = s.world := by
      rcases collectFee_eq_ok hfee with rfl | ⟨-, _, hmint⟩
      · rfl
      · exact callOusd_world hmint
    rcases ratchetSupply_eq_ok hratchet with rfl | ⟨-, hchange⟩
    · exact hfee
    · exact (callOusd_world hchange).trans hfee

theorem rebaseBeforeMint_world {units : ℕ} (h : s.rebaseBeforeMint W units = .ok s') :
    s'.world = s.world := by
  unfold rebaseBeforeMint at h
  split_ifs at h
  · exact rebaseSupply_world h
  · rw [pure_eq_ok.mp h]

theorem rebaseForRedeem_world {amount : ℕ} (h : s.rebaseForRedeem W amount = .ok s') :
    s'.world = s.world := by
  unfold rebaseForRedeem at h
  split_ifs at h
  · exact rebaseSupply_world h
  · rw [pure_eq_ok.mp h]

/-- No small step touches the vault's own storage. -/
theorem Small.vault (h : Small W s s') : s'.vault = s.vault := by
  induction h with
  | refl => rfl
  | tail _ hstep ih =>
      cases hstep with
      | world hworld => exact hworld.vault.trans ih
      | ousd hcall => exact (callOusd_vault hcall).trans ih
      | rebase hrebase => exact (rebaseSupply_vault hrebase).trans ih

/-! ## The records are true -/

/-- The ledger is reached by the recorded calls, the last one first, and every recorded rebase was
made on the ledger that the earlier ones of them reach. -/
structure Recorded (s : System ω) : Prop where
  ledger : Ledger.Reached s.vault.self s.ousdCalls s.ousd
  rebases : ∀ r ∈ s.rebases, r.before.Rebased r.vaultValue r.after ∧
    ∃ trace, Ledger.Reached s.vault.self trace r.before ∧ trace <:+ s.ousdCalls

theorem Recorded.callOusd {sender : Address} {call : Ledger.Call} (h : Recorded s)
    (hs : s.callOusd W sender call = .ok s') : Recorded s' := by
  obtain ⟨_, hexec, rfl⟩ := callOusd_eq_ok.mp hs
  refine ⟨h.ledger.cons hexec, fun r hr => ?_⟩
  obtain ⟨hmade, trace, hreached, hsub⟩ := h.rebases r hr
  exact ⟨hmade, trace, hreached, hsub.trans (List.suffix_cons ..)⟩

theorem Recorded.setWorld (h : Recorded s) (w : ω) : Recorded (s.setWorld w) :=
  ⟨h.ledger, h.rebases⟩

theorem Recorded.collectFee {vaultValue ousdSupply : ℕ} (h : Recorded s)
    (hs : s.collectFee W vaultValue ousdSupply = .ok s') : Recorded s' := by
  rcases collectFee_eq_ok hs with rfl | ⟨-, _, hmint⟩
  · exact h
  · exact h.callOusd hmint

theorem Recorded.ratchetSupply {vaultValue : ℕ} (h : Recorded s)
    (hs : s.ratchetSupply W vaultValue = .ok s') : Recorded s' := by
  rcases ratchetSupply_eq_ok hs with rfl | ⟨-, hchange⟩
  · exact h
  · exact h.callOusd hchange

/-- The recorded calls only grow. -/
theorem callOusd_calls {sender : Address} {call : Ledger.Call}
    (h : s.callOusd W sender call = .ok s') : s.ousdCalls <:+ s'.ousdCalls := by
  obtain ⟨_, _, rfl⟩ := callOusd_eq_ok.mp h
  exact List.suffix_cons ..

theorem collectFee_calls {vaultValue ousdSupply : ℕ}
    (h : s.collectFee W vaultValue ousdSupply = .ok s') : s.ousdCalls <:+ s'.ousdCalls := by
  rcases collectFee_eq_ok h with rfl | ⟨-, _, hmint⟩
  · exact List.suffix_refl _
  · exact callOusd_calls hmint

theorem ratchetSupply_calls {vaultValue : ℕ} (h : s.ratchetSupply W vaultValue = .ok s') :
    s.ousdCalls <:+ s'.ousdCalls := by
  rcases ratchetSupply_eq_ok h with rfl | ⟨-, hchange⟩
  · exact List.suffix_refl _
  · exact callOusd_calls hchange

/-- What the fee and the ratchet of a rebase make of the ledger. -/
theorem rebased_of_steps {s₁ s₂ : System ω} {vaultValue : ℕ}
    (hfee : s.collectFee W vaultValue s.ousd.totalSupply = .ok s₁)
    (hratchet : s₁.ratchetSupply W vaultValue = .ok s₂) :
    s.ousd.Rebased vaultValue s₂.ousd := by
  refine ⟨s₁.ousd, ?_, ?_⟩
  · rcases collectFee_eq_ok hfee with rfl | ⟨hlt, fee, hmint⟩
    · exact .inl rfl
    · obtain ⟨_, hexec, rfl⟩ := callOusd_eq_ok.mp hmint
      exact .inr ⟨hlt, _, _, fee, hexec⟩
  · rcases ratchetSupply_eq_ok hratchet with rfl | ⟨hlt, hchange⟩
    · exact .inl rfl
    · obtain ⟨_, hexec, rfl⟩ := callOusd_eq_ok.mp hchange
      exact .inr ⟨hlt, _, hexec⟩

theorem Recorded.rebaseSupply (h : Recorded s) (hs : s.rebaseSupply W = .ok s') :
    Recorded s' := by
  obtain ⟨-, ⟨-, rfl⟩ | ⟨-, vaultValue, -, s₁, hfee, s₂, hratchet, rfl⟩⟩ :=
    rebaseSupply_eq_ok.mp hs
  · exact h
  · have hrecorded := (h.collectFee hfee).ratchetSupply hratchet
    have hself : s₂.vault.self = s.vault.self :=
      congrArg Vault.self ((ratchetSupply_vault hratchet).trans (collectFee_vault hfee))
    refine ⟨hrecorded.ledger, fun r hr => ?_⟩
    rcases List.mem_cons.mp hr with rfl | hr
    · have hearlier : s.ousdCalls <:+ s₂.ousdCalls :=
        (collectFee_calls hfee).trans (ratchetSupply_calls hratchet)
      refine ⟨rebased_of_steps hfee hratchet, s.ousdCalls, ?_, hearlier⟩
      exact hself ▸ h.ledger
    · exact hrecorded.rebases r hr

theorem Recorded.small (h : Recorded s) (hs : Small W s s') : Recorded s' := by
  induction hs with
  | refl => exact h
  | tail _ hstep ih =>
      cases hstep with
      | world hworld =>
          obtain ⟨w, rfl⟩ := hworld
          exact ih.setWorld w
      | ousd hcall => exact ih.callOusd hcall
      | rebase hrebase => exact ih.rebaseSupply hrebase

end System

end InterestDollar
