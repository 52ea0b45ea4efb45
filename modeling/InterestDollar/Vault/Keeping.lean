import InterestDollar.Vault.Deposits

/-!
# What the world keeps

Whatever each call that the vault makes keeps true of the world, every function of the vault
keeps. Only the world itself can change it, on its own.
-/

namespace InterestDollar

open Checked Transition

/-- What is true of the world stays true of it, whatever the vault calls. -/
structure World.Keeps {ω : Type} (W : World ω) (Good : ω → Prop) : Prop where
  safeTransfer (w : ω) (caller token recipient : Address) (amount : ℕ) :
    Good w → Ensures (W.safeTransfer w caller token recipient amount) Good
  safeTransferFrom (w : ω) (caller token owner recipient : Address) (amount : ℕ) :
    Good w → Ensures (W.safeTransferFrom w caller token owner recipient amount) Good
  safeApprove (w : ω) (caller token spender : Address) (amount : ℕ) :
    Good w → Ensures (W.safeApprove w caller token spender amount) Good
  deposit (w : ω) (caller strategy asset : Address) (amount : ℕ) :
    Good w → Ensures (W.deposit w caller strategy asset amount) Good
  depositAll (w : ω) (caller strategy : Address) :
    Good w → Ensures (W.depositAll w caller strategy) Good
  withdraw (w : ω) (caller strategy recipient asset : Address) (amount : ℕ) :
    Good w → Ensures (W.withdraw w caller strategy recipient asset amount) Good
  withdrawAll (w : ω) (caller strategy : Address) :
    Good w → Ensures (W.withdrawAll w caller strategy) Good
  collectRewardToken (w : ω) (caller strategy : Address) :
    Good w → Ensures (W.collectRewardToken w caller strategy) Good
  swapExactTokensForTokens (w : ω) (caller router : Address) (amountIn amountOutMin : ℕ)
    (path : List Address) (recipient : Address) (deadline : ℕ) :
    Good w → Ensures (W.swapExactTokensForTokens w caller router amountIn amountOutMin path
      recipient deadline) Good

namespace System

variable {ω : Type} {W : World ω} {Good : ω → Prop}

/-- It is true of the world around the vault. -/
def Around (Good : ω → Prop) (s : System ω) : Prop := Good s.world

theorem foldlM_keeps {γ : Type*} {f : System ω → γ → Except Revert (System ω)}
    (hf : ∀ s x, s.Around Good → Ensures (f s x) (Around Good)) {s : System ω}
    (h : s.Around Good) (l : List γ) : Ensures (l.foldlM f s) (Around Good) :=
  ensures_foldlM hf h l

variable (hW : W.Keeps Good) (s : System ω) (h : s.Around Good)

include hW h

theorem swapRewards_keeps (token : Address) (amount : ℕ) :
    Ensures (s.swapRewards W token amount) (Around Good) := by
  refine ensures_bind (hW.safeApprove _ _ _ _ _ h) fun w hw => ?_
  refine ensures_bind (hW.safeApprove _ _ _ _ _ hw) fun w' hw' => ?_
  cases s.vault.allAssets with
  | nil => exact ensures_error
  | cons asset rest =>
      refine ensures_of_bind fun _ _ => ?_
      refine ensures_bind (hW.swapExactTokensForTokens _ _ _ _ _ _ _ _ hw') fun w'' hw'' => ?_
      exact ensures_pure hw''

theorem harvestFrom_keeps (strategy : Address) :
    Ensures (s.harvestFrom W strategy) (Around Good) := by
  refine ensures_of_bind fun _ _ => ensures_ite (fun _ => ?_) fun _ => ensures_pure h
  refine ensures_bind (hW.collectRewardToken _ _ _ h) fun w hw => ?_
  refine ensures_ite (fun _ => ?_) fun _ => ensures_pure hw
  refine ensures_of_bind fun _ _ => ensures_ite (fun _ => ?_) fun _ => ensures_pure hw
  exact swapRewards_keeps hW (s.setWorld w) hw _ _

theorem harvestStrategy_keeps (sender strategy : Address) :
    Ensures (s.harvestStrategy W sender strategy) (Around Good) :=
  ensures_of_bind fun _ _ => harvestFrom_keeps hW s h strategy

theorem harvestIfDue_keeps (strategy : Address) :
    Ensures (s.harvestIfDue W strategy) (Around Good) := by
  refine ensures_of_bind fun _ _ => ensures_ite (fun _ => ?_) fun _ => ensures_pure h
  refine ensures_of_bind fun _ _ => ensures_ite (fun _ => harvestStrategy_keeps hW s h _ _) ?_
  intro _
  refine ensures_of_bind fun _ _ => ?_
  exact ensures_ite (fun _ => harvestStrategy_keeps hW s h _ _) fun _ => ensures_pure h

theorem allocateAsset_keeps (modifier : ℕ) (asset : Address) :
    Ensures (s.allocateAsset W modifier asset) (Around Good) := by
  refine ensures_of_bind fun _ _ => ensures_ite (fun _ => ensures_pure h) fun _ => ?_
  refine ensures_of_bind fun _ _ => ensures_ite (fun _ => ?_) fun _ => ensures_pure h
  refine ensures_bind (hW.safeTransfer _ _ _ _ _ h) fun w hw => ?_
  exact ensures_bind (hW.deposit _ _ _ _ _ hw) fun w' hw' => ensures_pure hw'

theorem allocateFunds_keeps : Ensures (s.allocateFunds W) (Around Good) := by
  refine ensures_of_bind fun _ _ => ensures_ite (fun _ => ensures_pure h) fun _ => ?_
  refine ensures_of_bind fun _ _ => ensures_of_bind fun _ _ => ensures_of_bind fun _ _ => ?_
  refine ensures_ite (fun _ => ensures_pure h) fun _ => ?_
  refine ensures_bind (foldlM_keeps (fun u asset hu => allocateAsset_keeps hW u hu _ asset) h _) ?_
  exact fun t ht => foldlM_keeps (fun u strategy hu => harvestIfDue_keeps hW u hu strategy) ht _

theorem allocateAfterMint_keeps (units : ℕ) :
    Ensures (s.allocateAfterMint W units) (Around Good) :=
  ensures_ite (fun _ => allocateFunds_keeps hW s h) fun _ => ensures_pure h

theorem takeDeposit_keeps (sender asset : Address) (amount : ℕ) :
    Ensures (s.takeDeposit W sender asset amount) (Around Good) :=
  ensures_bind (hW.safeTransferFrom _ _ _ _ _ _ h) fun _ hw => ensures_pure hw

theorem payOutput_keeps (recipient asset : Address) (output : ℕ) :
    Ensures (s.payOutput W recipient asset output) (Around Good) := by
  refine ensures_ite (fun _ => ensures_pure h) fun _ => ensures_of_bind fun _ _ => ?_
  refine ensures_ite (fun _ => ?_) fun _ => ensures_ite (fun _ => ?_) fun _ => ensures_error
  · exact ensures_bind (hW.safeTransfer _ _ _ _ _ h) fun _ hw => ensures_pure hw
  · exact ensures_bind (hW.withdraw _ _ _ _ _ _ h) fun _ hw => ensures_pure hw

theorem payOutputs_keeps (recipient : Address) (outputs : List ℕ) :
    Ensures (s.payOutputs W recipient outputs) (Around Good) :=
  foldlM_keeps (fun u e hu => payOutput_keeps hW u hu recipient e.1 e.2) h _

theorem recallAssets_keeps (strategy : Address) :
    Ensures (s.recallAssets W strategy) (Around Good) :=
  ensures_bind (hW.withdrawAll _ _ _ h) fun _ hw => ensures_pure hw

theorem removeStrategy_keeps (sender strategy : Address) :
    Ensures (s.removeStrategy W sender strategy) (Around Good) := by
  refine ensures_of_bind fun _ _ => ensures_of_bind fun _ _ => ?_
  refine ensures_bind (P := Around Good) ?_ fun u hu => ensures_pure hu
  refine ensures_ite (fun _ => ?_) fun _ => ensures_pure h
  refine ensures_bind (hW.withdrawAll _ _ _ h) fun w hw => ?_
  refine harvestFrom_keeps hW (System.setWorld _ w) ?_ strategy
  exact hw

theorem moveAsset_keeps (strategyFrom strategyTo : Address) (entry : Address × ℕ) :
    Ensures (s.moveAsset W strategyFrom strategyTo entry) (Around Good) := by
  refine ensures_of_bind fun _ _ => ensures_of_bind fun _ _ => ?_
  exact ensures_bind (hW.withdraw _ _ _ _ _ _ h) fun _ hw => ensures_pure hw

theorem reallocate_keeps (sender strategyFrom strategyTo : Address) (assets : List Address)
    (amounts : List ℕ) :
    Ensures (s.reallocate W sender strategyFrom strategyTo assets amounts) (Around Good) := by
  refine ensures_of_bind fun _ _ => ensures_of_bind fun _ _ => ensures_of_bind fun _ _ => ?_
  refine ensures_of_bind fun _ _ => ?_
  refine ensures_bind (foldlM_keeps (fun u e hu => moveAsset_keeps hW u hu _ _ e) h _) ?_
  exact fun t ht => ensures_bind (hW.depositAll _ _ _ ht) fun _ hw => ensures_pure hw

theorem transferToken_keeps (sender asset : Address) (amount : ℕ) :
    Ensures (s.transferToken W sender asset amount) (Around Good) := by
  refine ensures_of_bind fun _ _ => ensures_of_bind fun _ _ => ensures_ite (fun _ => ?_) fun _ => ?_
  · intro t ht
    rw [Around, callOusd_world ht]
    exact h
  · exact ensures_bind (hW.safeTransfer _ _ _ _ _ h) fun _ hw => ensures_pure hw

theorem settleMint_keeps (sender : Address) (deposits : List (Address × ℕ)) (minimum : ℕ)
    (terms : ℕ × ℕ) : Ensures (s.settleMint W sender deposits minimum terms) (Around Good) := by
  refine ensures_of_bind fun _ _ => ensures_of_bind fun u hu => ensures_of_bind fun t ht => ?_
  have hbefore : t.Around Good := by
    rw [Around, callOusd_world ht, rebaseBeforeMint_world hu]
    exact h
  refine ensures_bind (foldlM_keeps (fun u e hu => takeDeposit_keeps hW u hu sender e.1 e.2)
    hbefore _) fun x hx => ?_
  exact allocateAfterMint_keeps hW x hx _

theorem redeemAmount_keeps (sender : Address) (amount minimum : ℕ) :
    Ensures (s.redeemAmount W sender amount minimum) (Around Good) := by
  refine ensures_of_bind fun _ _ => ensures_of_bind fun _ _ => ensures_of_bind fun _ _ => ?_
  refine ensures_of_bind fun _ _ => ensures_bind (payOutputs_keeps hW s h sender _) fun u hu => ?_
  refine ensures_of_bind fun _ _ => ensures_of_bind fun t ht => fun x hx => ?_
  rw [Around, rebaseForRedeem_world hx, callOusd_world ht]
  exact hu

theorem redeemRebased_keeps (sender : Address) (asked amount minimum : ℕ) {u : System ω}
    (hu : s.rebaseForRedeem W asked = .ok u) :
    Ensures (u.redeemAmount W sender amount minimum) (Around Good) := by
  refine redeemAmount_keeps hW u ?_ sender amount minimum
  rw [Around, rebaseForRedeem_world hu]
  exact h

/-- Every call of the vault and its token keeps it. -/
theorem exec_keeps {sender : Address} {action : Action ω}
    (hinside : ∀ world, action ≠ .environment world) :
    Ensures (s.exec W (sender, action)) (Around Good) := by
  cases action with
  | ousd call =>
      intro t ht
      rw [Around, callOusd_world ht]
      exact h
  | mint asset amount minimum =>
      rw [show s.exec W (sender, .mint asset amount minimum) = _ from mint_eq amount minimum]
      refine ensures_of_bind fun _ _ => ensures_of_bind fun _ _ => ensures_of_bind fun _ _ => ?_
      exact ensures_of_bind fun terms _ => settleMint_keeps hW s h sender _ minimum terms
  | mintMultiple assets amounts minimum =>
      refine ensures_of_bind fun _ _ => ensures_of_bind fun _ _ => ensures_of_bind fun _ _ => ?_
      exact ensures_of_bind fun terms _ => settleMint_keeps hW s h sender _ minimum terms
  | redeem amount minimum =>
      refine ensures_of_bind fun _ _ => ensures_of_bind fun u hu => ?_
      exact redeemRebased_keeps hW s h sender _ _ _ hu
  | redeemAll minimum =>
      refine ensures_of_bind fun _ _ => ensures_of_bind fun _ _ => ensures_of_bind fun u hu => ?_
      exact ensures_of_bind fun _ _ => redeemRebased_keeps hW s h sender _ _ _ hu
  | allocate => exact ensures_of_bind fun _ _ => allocateFunds_keeps hW s h
  | rebase =>
      refine ensures_of_bind fun _ _ => fun t ht => ?_
      rw [Around, rebaseSupply_world ht]
      exact h
  | configure setting =>
      cases setting <;> exact ensures_of_bind fun _ _ => ensures_pure h
  | setVaultBuffer | setTrusteeFeeBps | claimGovernance =>
      exact ensures_of_bind fun _ _ => ensures_of_bind fun _ _ => ensures_pure h
  | pauseRebase | pauseCapital | unpauseCapital | transferGovernance =>
      exact ensures_of_bind fun _ _ => ensures_pure h
  | supportAsset asset =>
      refine ensures_of_bind fun _ _ => ensures_of_bind fun _ _ => ?_
      exact ensures_of_bind fun _ _ => ensures_pure h
  | approveStrategy strategy =>
      exact ensures_of_bind fun _ _ => ensures_of_bind fun _ _ => ensures_pure h
  | setAssetDefaultStrategy asset strategy =>
      refine ensures_of_bind fun _ _ => ensures_of_bind fun _ _ => ensures_of_bind fun _ _ => ?_
      exact ensures_of_bind fun _ _ => ensures_of_bind fun _ _ => ensures_pure h
  | removeStrategy strategy => exact removeStrategy_keeps hW s h sender strategy
  | reallocate strategyFrom strategyTo assets amounts =>
      exact reallocate_keeps hW s h sender strategyFrom strategyTo assets amounts
  | withdrawAllFromStrategy strategy =>
      exact ensures_of_bind fun _ _ => ensures_of_bind fun _ _ => recallAssets_keeps hW s h strategy
  | withdrawAllFromStrategies =>
      refine ensures_of_bind fun _ _ => ?_
      exact foldlM_keeps (fun u strategy hu => recallAssets_keeps hW u hu strategy) h _
  | harvest =>
      refine ensures_of_bind fun _ _ => ?_
      exact foldlM_keeps (fun u strategy hu => harvestFrom_keeps hW u hu strategy) h _
  | harvestStrategy strategy => exact harvestStrategy_keeps hW s h sender strategy
  | transferToken asset amount => exact transferToken_keeps hW s h sender asset amount
  | environment world => exact absurd rfl (hinside world)

end System

end InterestDollar
