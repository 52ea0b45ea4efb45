import InterestDollar.Vault.Deposits
import InterestDollar.Vault.RoundTrip
import InterestDollar.Vault.Valuation
import Mathlib.Algebra.BigOperators.Option
import Mathlib.Algebra.Order.BigOperators.Group.Finset
import Mathlib.Algebra.Order.Field.Rat
import Mathlib.Data.Rat.Cast.Order

/-!
# The reserves

What the vault and its strategies have of every supported asset, at the price of the oracle and
without any rounding. Every function that moves assets moves the reserves by what it was given
or paid out and by nothing else, as long as the tokens and the strategies do what they are asked
for (`Custody`).
-/

namespace InterestDollar

open Checked Transition

namespace System

variable {ω : Type}

/-- What a holder has of an asset: the vault itself, or a strategy, if it supports the asset. -/
def heldBy (W : World ω) (v : Vault) (w : ω) : Option Address → Address → ℕ
  | none, asset => amountOf (W.balanceOf w asset v.self)
  | some strategy, asset => amountOf (do
      let supported ← W.supportsAsset w strategy asset
      if supported then W.checkBalance w strategy asset else return 0)

/-- The vault and its strategies. -/
def holders (v : Vault) : Finset (Option Address) := v.allStrategies.toFinset.insertNone

/-- What a unit of an asset is worth at the oracle's price. -/
def unitWorth (W : World ω) (v : Vault) (w : ω) (asset : Address) : ℚ :=
  amountOf (W.price w v.priceProvider asset) / 10 ^ amountOf (W.decimals w asset)

/-- What all holders have of all supported assets is worth. -/
def reserves (W : World ω) (v : Vault) (w : ω) : ℚ :=
  ∑ asset ∈ v.allAssets.toFinset, ∑ holder ∈ holders v,
    heldBy W v w holder asset * unitWorth W v w asset

/-- Prices, decimals and what the strategies support are the same, and who was trusted still
is. -/
structure SameQuotes (W : World ω) (v : Vault) (Trusted : ω → Prop) (w w' : ω) : Prop where
  price : ∀ asset, W.price w' v.priceProvider asset = W.price w v.priceProvider asset
  decimals : ∀ asset, W.decimals w' asset = W.decimals w asset
  supports : ∀ strategy ∈ v.allStrategies, ∀ asset,
    W.supportsAsset w' strategy asset = W.supportsAsset w strategy asset
  trusted : Trusted w → Trusted w'

/-- What each holder has of each asset has changed by at least so much, at the same prices. -/
structure Settled (W : World ω) (v : Vault) (Trusted : ω → Prop)
    (change : Option Address → Address → ℤ) (w w' : ω) : Prop where
  quotes : SameQuotes W v Trusted w w'
  held : ∀ holder ∈ holders v, ∀ asset ∈ v.allAssets,
    (heldBy W v w holder asset : ℤ) + change holder asset ≤ heldBy W v w' holder asset

/-- An amount of an asset, more for one holder. -/
def more (holder : Option Address) (asset : Address) (amount : ℤ) :
    Option Address → Address → ℤ :=
  Pi.single holder (Pi.single asset amount)

/-- All that a strategy has goes to the vault. -/
def recalled (W : World ω) (v : Vault) (w : ω) (strategy : Address) :
    Option Address → Address → ℤ :=
  Pi.single none (fun asset => (heldBy W v w (some strategy) asset : ℤ)) -
    Pi.single (some strategy) fun asset => (heldBy W v w (some strategy) asset : ℤ)

/-- A withdrawal of a reallocation, which asks the new strategy first. -/
def withdrawTo (W : World ω) (self strategyFrom strategyTo : Address) (w : ω)
    (entry : Address × ℕ) : Except Revert ω := do
  let supported ← W.supportsAsset w strategyTo entry.1
  require (supported = true) "Asset unsupported"
  W.withdraw w self strategyFrom strategyTo entry.1 entry.2

/-- Standard tokens and strategies that do what they are asked for, wherever the world can be
trusted. A transfer moves its amount, what a strategy is sent and told to deposit is counted
there, what is withdrawn from it is not counted there any longer and goes where it is sent, and
nothing else of what is counted is touched. Rewards are paid in tokens that are not counted, and
selling them takes nothing that is. -/
structure Custody (W : World ω) (v : Vault) (Trusted : ω → Prop) : Prop where
  pulls {w w' : ω} {asset owner : Address} {amount : ℕ} :
    Trusted w → asset ∈ v.allAssets → owner ≠ v.self → owner ∉ v.allStrategies →
      W.safeTransferFrom w v.self asset owner v.self amount = .ok w' →
        Settled W v Trusted (more none asset amount) w w'
  pays {w w' : ω} {asset recipient : Address} {amount : ℕ} :
    Trusted w → W.safeTransfer w v.self asset recipient amount = .ok w' →
      Settled W v Trusted (more none asset (-amount)) w w'
  invests {w w₁ w₂ : ω} {asset strategy : Address} {amount : ℕ} :
    Trusted w → asset ∈ v.allAssets → strategy ∈ v.allStrategies →
      W.supportsAsset w strategy asset = .ok true →
        W.safeTransfer w v.self asset strategy amount = .ok w₁ →
          W.deposit w₁ v.self strategy asset amount = .ok w₂ →
            Settled W v Trusted
              (more none asset (-amount) + more (some strategy) asset amount) w w₂
  withdraws {w w' : ω} {asset strategy recipient : Address} {amount : ℕ} :
    Trusted w → strategy ∈ v.allStrategies →
      W.withdraw w v.self strategy recipient asset amount = .ok w' →
        Settled W v Trusted (more (some strategy) asset (-amount)) w w'
  reallocates {w w₁ w₂ : ω} {strategyFrom strategyTo : Address} {moves : List (Address × ℕ)} :
    Trusted w → strategyFrom ∈ v.allStrategies → strategyTo ∈ v.allStrategies →
      moves.foldlM (withdrawTo W v.self strategyFrom strategyTo) w = .ok w₁ →
        W.depositAll w₁ v.self strategyTo = .ok w₂ →
          Settled W v Trusted (moves.map fun e =>
            more (some strategyFrom) e.1 (-e.2) + more (some strategyTo) e.1 e.2).sum w w₂
  recalls {w w' : ω} {strategy : Address} :
    Trusted w → strategy ∈ v.allStrategies → W.withdrawAll w v.self strategy = .ok w' →
      Settled W v Trusted (recalled W v w strategy) w w'
  collects {w w' : ω} {strategy token : Address} :
    Trusted w → strategy ∈ v.allStrategies → W.rewardTokenAddress w strategy = .ok token →
      W.collectRewardToken w v.self strategy = .ok w' →
        token ∉ v.allAssets ∧ Settled W v Trusted 0 w w'
  approves {w w' : ω} {token spender : Address} {amount : ℕ} :
    Trusted w → W.safeApprove w v.self token spender amount = .ok w' → Settled W v Trusted 0 w w'
  swaps {w w' : ω} {router token : Address} {amountIn amountOutMin deadline : ℕ}
      {path : List Address} :
    Trusted w → token ∉ v.allAssets →
      W.swapExactTokensForTokens w v.self router amountIn amountOutMin (token :: path) v.self
        deadline = .ok w' → Settled W v Trusted 0 w w'

/-- At the same prices the reserves have changed by at least so much. -/
structure Brings (W : World ω) (v : Vault) (Trusted : ω → Prop) (worth : ℚ) (w w' : ω) :
    Prop where
  quotes : SameQuotes W v Trusted w w'
  reserves : reserves W v w + worth ≤ reserves W v w'

variable {W : World ω} {v : Vault} {Trusted : ω → Prop} {w w' w'' : ω}

theorem more_apply (holder other : Option Address) (asset account : Address) (amount : ℤ) :
    more holder asset amount other account =
      if other = holder ∧ account = asset then amount else 0 := by
  by_cases hholder : other = holder
  · subst hholder
    simp [more, Pi.single_apply]
  · simp [more, hholder]

theorem SameQuotes.refl (w : ω) : SameQuotes W v Trusted w w :=
  ⟨fun _ => rfl, fun _ => rfl, fun _ _ _ => rfl, id⟩

theorem SameQuotes.trans (h : SameQuotes W v Trusted w w') (h' : SameQuotes W v Trusted w' w'') :
    SameQuotes W v Trusted w w'' where
  price := fun asset => (h'.price asset).trans (h.price asset)
  decimals := fun asset => (h'.decimals asset).trans (h.decimals asset)
  supports := fun strategy hmem asset =>
    (h'.supports strategy hmem asset).trans (h.supports strategy hmem asset)
  trusted := h'.trusted ∘ h.trusted

theorem SameQuotes.unitWorth_eq (h : SameQuotes W v Trusted w w') (asset : Address) :
    unitWorth W v w' asset = unitWorth W v w asset := by
  simp [unitWorth, h.price, h.decimals]

theorem unitWorth_nonneg (asset : Address) : 0 ≤ unitWorth W v w asset := by
  exact div_nonneg (Nat.cast_nonneg _) (pow_nonneg (by norm_num) _)

theorem Brings.refl (w : ω) : Brings W v Trusted 0 w w := ⟨.refl w, by simp⟩

theorem Brings.trans {worth worth' : ℚ} (h : Brings W v Trusted worth w w')
    (h' : Brings W v Trusted worth' w' w'') : Brings W v Trusted (worth + worth') w w'' where
  quotes := h.quotes.trans h'.quotes
  reserves := by
    have hfirst := h.reserves
    have hlast := h'.reserves
    linarith

/-- The changes of the holders add up to the change of the reserves. -/
theorem Settled.brings {change : Option Address → Address → ℤ}
    (h : Settled W v Trusted change w w') :
    Brings W v Trusted (∑ asset ∈ v.allAssets.toFinset, ∑ holder ∈ holders v,
      change holder asset * unitWorth W v w asset) w w' where
  quotes := h.quotes
  reserves := by
    simp only [System.reserves, ← Finset.sum_add_distrib, h.quotes.unitWorth_eq]
    refine Finset.sum_le_sum fun asset hasset => Finset.sum_le_sum fun holder hholder => ?_
    have hheld : ((heldBy W v w holder asset + change holder asset : ℤ) : ℚ) ≤
        (heldBy W v w' holder asset : ℤ) :=
      Int.cast_le.mpr (h.held holder hholder asset (List.mem_toFinset.mp hasset))
    push_cast at hheld
    rw [← add_mul]
    exact mul_le_mul_of_nonneg_right hheld (unitWorth_nonneg asset)

theorem Settled.refl (w : ω) : Settled W v Trusted 0 w w :=
  ⟨.refl w, by simp⟩

theorem Settled.trans {change change' : Option Address → Address → ℤ}
    (h : Settled W v Trusted change w w') (h' : Settled W v Trusted change' w' w'') :
    Settled W v Trusted (change + change') w w'' where
  quotes := h.quotes.trans h'.quotes
  held := by
    intro holder hholder asset hasset
    have hfirst := h.held holder hholder asset hasset
    have hlast := h'.held holder hholder asset hasset
    simp only [Pi.add_apply]
    linarith

theorem Settled.trans_zero (h : Settled W v Trusted 0 w w') (h' : Settled W v Trusted 0 w' w'') :
    Settled W v Trusted 0 w w'' := by
  simpa using h.trans h'

theorem Settled.brings_zero (h : Settled W v Trusted 0 w w') : Brings W v Trusted 0 w w' := by
  simpa using h.brings

theorem sum_single {holder : Option Address} (hholder : holder ∈ holders v)
    (amounts : Address → ℤ) (worth : Address → ℚ) :
    ∑ a ∈ v.allAssets.toFinset, ∑ h ∈ holders v,
      ((Pi.single holder amounts : Option Address → Address → ℤ) h a) * worth a =
        ∑ a ∈ v.allAssets.toFinset, amounts a * worth a := by
  refine Finset.sum_congr rfl fun a _ => ?_
  rw [Finset.sum_eq_single_of_mem holder hholder]
  · simp
  · intro h _ hne
    simp [hne]

theorem sum_more {holder : Option Address} {asset : Address} (hholder : holder ∈ holders v)
    (amount : ℤ) (worth : Address → ℚ) :
    ∑ a ∈ v.allAssets.toFinset, ∑ h ∈ holders v, more holder asset amount h a * worth a =
      if asset ∈ v.allAssets then amount * worth asset else 0 := by
  rw [show more holder asset amount = Pi.single holder (Pi.single asset amount) from rfl,
    sum_single hholder]
  simp [Pi.single_apply, Finset.sum_ite_eq', ite_mul]

theorem Settled.brings_more {holder : Option Address} {asset : Address} {amount : ℤ}
    (hholder : holder ∈ holders v) (hasset : asset ∈ v.allAssets)
    (h : Settled W v Trusted (more holder asset amount) w w') :
    Brings W v Trusted (amount * unitWorth W v w asset) w w' := by
  have hsum : _ = if asset ∈ v.allAssets then _ else _ :=
    sum_more hholder amount (unitWorth W v w)
  rw [if_pos hasset] at hsum
  rw [← hsum]
  exact h.brings

theorem none_mem_holders : none ∈ holders v := Finset.none_mem_insertNone

theorem some_mem_holders {strategy : Address} (h : strategy ∈ v.allStrategies) :
    some strategy ∈ holders v := by
  simpa [holders] using h

/-- A loop of calls, each of which brings something at the prices of the start. -/
theorem foldlM_brings {γ : Type*} {f : System ω → γ → Except Revert (System ω)} {worth : γ → ℚ}
    {l : List γ} {w₀ : ω} {s t : System ω} (hvault : s.vault = v)
    (hquotes : SameQuotes W v Trusted w₀ s.world)
    (hstep : ∀ s x t, x ∈ l → s.vault = v → SameQuotes W v Trusted w₀ s.world → f s x = .ok t →
      t.vault = v ∧ Brings W v Trusted (worth x) s.world t.world)
    (h : l.foldlM f s = .ok t) : Brings W v Trusted (l.map worth).sum s.world t.world := by
  induction l generalizing s with
  | nil =>
      cases pure_eq_ok.mp h
      exact .refl _
  | cons x l ih =>
      rw [List.foldlM_cons] at h
      obtain ⟨u, hu, h⟩ := bind_eq_ok.mp h
      obtain ⟨hnext, hfirst⟩ := hstep s x u List.mem_cons_self hvault hquotes hu
      have hlast := ih hnext (hquotes.trans hfirst.quotes)
        (fun s y t hy => hstep s y t (List.mem_cons_of_mem _ hy)) h
      rw [List.map_cons, List.sum_cons]
      exact hfirst.trans hlast

theorem foldlM_brings_zero {γ : Type*} {f : System ω → γ → Except Revert (System ω)}
    {l : List γ} {w₀ : ω} {s t : System ω} (hvault : s.vault = v)
    (hquotes : SameQuotes W v Trusted w₀ s.world)
    (hstep : ∀ s x t, x ∈ l → s.vault = v → SameQuotes W v Trusted w₀ s.world → f s x = .ok t →
      t.vault = v ∧ Brings W v Trusted 0 s.world t.world)
    (h : l.foldlM f s = .ok t) : Brings W v Trusted 0 s.world t.world := by
  simpa using foldlM_brings hvault hquotes hstep h

@[simp] theorem setWorld_world (s : System ω) (w : ω) : (s.setWorld w).world = w := rfl

/-! ## The functions that move assets -/

section Functions

variable {s t : System ω}

theorem Brings.at_start {w₀ : ω} {amount : ℚ} {asset : Address}
    (hquotes : SameQuotes W v Trusted w₀ w)
    (h : Brings W v Trusted (amount * unitWorth W v w asset) w w') :
    Brings W v Trusted (amount * unitWorth W v w₀ asset) w w' := by
  rwa [hquotes.unitWorth_eq] at h

theorem takeDeposit_brings (hW : Custody W s.vault Trusted) (hworld : Trusted s.world)
    {sender asset : Address} {amount : ℕ} (hself : sender ≠ s.vault.self)
    (hsender : sender ∉ s.vault.allStrategies) (hasset : asset ∈ s.vault.allAssets)
    (h : s.takeDeposit W sender asset amount = .ok t) :
    Brings W s.vault Trusted (amount * unitWorth W s.vault s.world asset) s.world t.world := by
  obtain ⟨w, hw, h⟩ := bind_eq_ok.mp h
  cases pure_eq_ok.mp h
  simpa using (hW.pulls hworld hasset hself hsender hw).brings_more none_mem_holders hasset

theorem takeDeposits_brings (hW : Custody W s.vault Trusted) (hworld : Trusted s.world)
    {sender : Address} {deposits : List (Address × ℕ)} (hself : sender ≠ s.vault.self)
    (hsender : sender ∉ s.vault.allStrategies)
    (hassets : ∀ e ∈ deposits, e.1 ∈ s.vault.allAssets)
    (h : deposits.foldlM (fun s (asset, amount) => s.takeDeposit W sender asset amount) s =
      .ok t) :
    Brings W s.vault Trusted
      (deposits.map fun e => e.2 * unitWorth W s.vault s.world e.1).sum s.world t.world := by
  refine foldlM_brings rfl (.refl _) (fun u e t hmem hvault hquotes ht => ?_) h
  have hnext := (takeDeposit_worldOnly sender u e.1 e.2 t ht).vault
  have hstill := hquotes.trusted hworld
  rw [← hvault] at hW hself hsender hassets hquotes ⊢
  exact ⟨hnext, (takeDeposit_brings hW hstill hself hsender (hassets e hmem) ht).at_start hquotes⟩

/-- The default strategies are approved, and support the assets they are for. -/
def DefaultsServe (W : World ω) (s : System ω) : Prop :=
  ∀ asset ∈ s.vault.allAssets, s.vault.assetDefaultStrategies asset ≠ 0 →
    s.vault.assetDefaultStrategies asset ∈ s.vault.allStrategies ∧
      W.supportsAsset s.world (s.vault.assetDefaultStrategies asset) asset = .ok true

theorem DefaultsServe.of_quotes (h : DefaultsServe W s) (hvault : t.vault = s.vault)
    (hquotes : SameQuotes W s.vault Trusted s.world t.world) : DefaultsServe W t := by
  intro asset hmem hne
  rw [hvault] at hmem hne ⊢
  obtain ⟨happroved, hsupports⟩ := h asset hmem hne
  exact ⟨happroved, (hquotes.supports _ happroved asset).trans hsupports⟩

/-- Moving an asset to its strategy brings nothing and costs nothing. -/
theorem allocateAsset_brings (hW : Custody W s.vault Trusted) (hworld : Trusted s.world)
    (hdefaults : DefaultsServe W s) {modifier : ℕ} {asset : Address}
    (hasset : asset ∈ s.vault.allAssets) (h : s.allocateAsset W modifier asset = .ok t) :
    Brings W s.vault Trusted 0 s.world t.world := by
  obtain ⟨balance, -, h⟩ := bind_eq_ok.mp h
  split_ifs at h with hzero
  · cases pure_eq_ok.mp h
    exact .refl _
  obtain ⟨amount, -, h⟩ := bind_eq_ok.mp h
  dsimp only at h
  split_ifs at h with hmoves
  swap
  · cases pure_eq_ok.mp h
    exact .refl _
  obtain ⟨w, hw, h⟩ := bind_eq_ok.mp h
  obtain ⟨w', hw', h⟩ := bind_eq_ok.mp h
  cases pure_eq_ok.mp h
  obtain ⟨happroved, hsupports⟩ := hdefaults asset hasset hmoves.1
  have hbrings := (hW.invests hworld hasset happroved hsupports hw hw').brings
  have hnone : (∑ a ∈ s.vault.allAssets.toFinset, ∑ holder ∈ holders s.vault,
      (((more none asset (-(amount : ℤ)) +
        more (some (s.vault.assetDefaultStrategies asset)) asset amount) holder a : ℤ) : ℚ) *
          unitWorth W s.vault s.world a) = 0 := by
    simp only [Pi.add_apply, Int.cast_add, add_mul, Finset.sum_add_distrib]
    rw [sum_more none_mem_holders, sum_more (some_mem_holders happroved)]
    simp [hasset]
  rwa [hnone] at hbrings

theorem swapRewards_settled (hW : Custody W v Trusted) (hworld : Trusted s.world)
    (hself : s.vault.self = v.self) {token : Address} {amount : ℕ} (htoken : token ∉ v.allAssets)
    (h : s.swapRewards W token amount = .ok t) : Settled W v Trusted 0 s.world t.world := by
  obtain ⟨w, hw, h⟩ := bind_eq_ok.mp h
  obtain ⟨w', hw', h⟩ := bind_eq_ok.mp h
  rw [hself] at hw hw' h
  have hfirst := hW.approves hworld hw
  have hsecond := hW.approves (hfirst.quotes.trusted hworld) hw'
  have hstill := hsecond.quotes.trusted (hfirst.quotes.trusted hworld)
  cases hassets : s.vault.allAssets with
  | nil =>
      rw [hassets] at h
      cases h
  | cons asset rest =>
      rw [hassets] at h
      obtain ⟨deadline, -, h⟩ := bind_eq_ok.mp h
      obtain ⟨w'', hw'', h⟩ := bind_eq_ok.mp h
      cases pure_eq_ok.mp h
      exact (hfirst.trans_zero hsecond).trans_zero (hW.swaps hstill htoken hw'')

/-- A harvest takes nothing that is counted. The strategy may be off the list by then. -/
theorem harvestFrom_settled (hW : Custody W v Trusted) (hworld : Trusted s.world)
    (hself : s.vault.self = v.self) {strategy : Address} (hstrategy : strategy ∈ v.allStrategies)
    (h : s.harvestFrom W strategy = .ok t) : Settled W v Trusted 0 s.world t.world := by
  obtain ⟨token, htoken, h⟩ := bind_eq_ok.mp h
  split_ifs at h with hrewards
  swap
  · cases pure_eq_ok.mp h
    exact .refl _
  obtain ⟨w, hw, h⟩ := bind_eq_ok.mp h
  rw [hself] at hw
  obtain ⟨hother, hcollect⟩ := hW.collects hworld hstrategy htoken hw
  have hstill := hcollect.quotes.trusted hworld
  dsimp only [setWorld] at h
  split_ifs at h with hrouter
  swap
  · cases pure_eq_ok.mp h
    exact hcollect
  obtain ⟨amount, -, h⟩ := bind_eq_ok.mp h
  split_ifs at h with hpos
  · have hswap := swapRewards_settled (s := s.setWorld w) hW hstill hself hother h
    exact hcollect.trans_zero hswap
  · cases pure_eq_ok.mp h
    exact hcollect

theorem harvestStrategy_brings (hW : Custody W s.vault Trusted) (hworld : Trusted s.world)
    {sender strategy : Address} (hstrategy : strategy ∈ s.vault.allStrategies)
    (h : s.harvestStrategy W sender strategy = .ok t) :
    Brings W s.vault Trusted 0 s.world t.world := by
  obtain ⟨_, -, h⟩ := bind_eq_ok.mp h
  exact (harvestFrom_settled hW hworld rfl hstrategy h).brings_zero

theorem harvestIfDue_brings (hW : Custody W s.vault Trusted) (hworld : Trusted s.world)
    {strategy : Address} (hstrategy : strategy ∈ s.vault.allStrategies)
    (h : s.harvestIfDue W strategy = .ok t) : Brings W s.vault Trusted 0 s.world t.world := by
  obtain ⟨token, -, h⟩ := bind_eq_ok.mp h
  split_ifs at h with hrewards
  swap
  · cases pure_eq_ok.mp h
    exact .refl _
  obtain ⟨threshold, -, h⟩ := bind_eq_ok.mp h
  split_ifs at h with hzero
  · exact harvestStrategy_brings hW hworld hstrategy h
  obtain ⟨amount, -, h⟩ := bind_eq_ok.mp h
  split_ifs at h with hdue
  · exact harvestStrategy_brings hW hworld hstrategy h
  · cases pure_eq_ok.mp h
    exact .refl _

theorem harvestAll_brings (hW : Custody W s.vault Trusted) (hworld : Trusted s.world)
    {sender : Address} (h : s.harvestAll W sender = .ok t) :
    Brings W s.vault Trusted 0 s.world t.world := by
  obtain ⟨_, -, h⟩ := bind_eq_ok.mp h
  refine foldlM_brings_zero rfl (.refl s.world) (fun u strategy t hmem hvault hquotes ht => ?_) h
  have hnext := (harvestFrom_worldOnly u strategy t ht).vault
  have hself : u.vault.self = s.vault.self := congrArg Vault.self hvault
  have hsettled := harvestFrom_settled hW (hquotes.trusted hworld) hself hmem ht
  exact ⟨hnext.trans hvault, hsettled.brings_zero⟩

/-- An allocation moves what there is from one holder to another. -/
theorem allocateFunds_brings (hW : Custody W s.vault Trusted) (hworld : Trusted s.world)
    (hdefaults : DefaultsServe W s) (h : s.allocateFunds W = .ok t) :
    Brings W s.vault Trusted 0 s.world t.world := by
  obtain ⟨vaultValue, -, h⟩ := bind_eq_ok.mp h
  split_ifs at h with hempty
  · cases pure_eq_ok.mp h
    exact .refl _
  obtain ⟨strategiesValue, -, h⟩ := bind_eq_ok.mp h
  obtain ⟨totalValue, -, h⟩ := bind_eq_ok.mp h
  obtain ⟨modifier, -, h⟩ := bind_eq_ok.mp h
  split_ifs at h with hbuffer
  · cases pure_eq_ok.mp h
    exact .refl _
  obtain ⟨u, hu, h⟩ := bind_eq_ok.mp h
  have hmoved : Brings W s.vault Trusted 0 s.world u.world := by
    refine foldlM_brings_zero rfl (.refl s.world) (fun x asset y hmem hvault hquotes hy => ?_) hu
    have hnext := (allocateAsset_worldOnly modifier x asset y hy).vault
    have hserve := hdefaults.of_quotes hvault hquotes
    have hstill := hquotes.trusted hworld
    rw [← hvault] at hW hmem ⊢
    exact ⟨hnext, allocateAsset_brings hW hstill hserve hmem hy⟩
  have hharvested : Brings W s.vault Trusted 0 u.world t.world := by
    have hvault := (foldlM_worldOnly (allocateAsset_worldOnly modifier) s _ u hu).vault
    refine foldlM_brings_zero hvault hmoved.quotes
      (fun x strategy y hmem hvault hquotes hy => ?_) h
    have hnext := (harvestIfDue_worldOnly x strategy y hy).vault
    have hstill := hquotes.trusted hworld
    rw [(foldlM_worldOnly (allocateAsset_worldOnly modifier) s _ u hu).vault] at hmem
    rw [← hvault] at hW hmem ⊢
    exact ⟨hnext, harvestIfDue_brings hW hstill hmem hy⟩
  simpa using hmoved.trans hharvested

theorem allocateAfterMint_brings (hW : Custody W s.vault Trusted) (hworld : Trusted s.world)
    (hdefaults : DefaultsServe W s) {units : ℕ} (h : s.allocateAfterMint W units = .ok t) :
    Brings W s.vault Trusted 0 s.world t.world := by
  unfold allocateAfterMint at h
  split_ifs at h with hdue
  · exact allocateFunds_brings hW hworld hdefaults h
  · cases pure_eq_ok.mp h
    exact .refl _

/-- An output takes what it is worth, whoever it is paid by. -/
theorem payOutput_brings (hW : Custody W s.vault Trusted) (hworld : Trusted s.world)
    (hdefaults : DefaultsServe W s) {recipient asset : Address} {output : ℕ}
    (hasset : asset ∈ s.vault.allAssets)
    (h : s.payOutput W recipient asset output = .ok t) :
    Brings W s.vault Trusted (-output * unitWorth W s.vault s.world asset) s.world t.world := by
  unfold payOutput at h
  split_ifs at h with hzero
  · cases pure_eq_ok.mp h
    simpa [hzero] using Brings.refl s.world
  obtain ⟨balance, -, h⟩ := bind_eq_ok.mp h
  dsimp only at h
  split_ifs at h with hcovered hstrategy
  · obtain ⟨w, hw, h⟩ := bind_eq_ok.mp h
    cases pure_eq_ok.mp h
    simpa using (hW.pays hworld hw).brings_more none_mem_holders hasset
  · obtain ⟨w, hw, h⟩ := bind_eq_ok.mp h
    cases pure_eq_ok.mp h
    obtain ⟨happroved, -⟩ := hdefaults asset hasset hstrategy
    simpa using
      (hW.withdraws hworld happroved hw).brings_more (some_mem_holders happroved) hasset

theorem payOutputs_brings (hW : Custody W s.vault Trusted) (hworld : Trusted s.world)
    (hdefaults : DefaultsServe W s) {recipient : Address} {outputs : List ℕ}
    (h : s.payOutputs W recipient outputs = .ok t) :
    Brings W s.vault Trusted ((s.vault.allAssets.zip outputs).map fun e =>
      -e.2 * unitWorth W s.vault s.world e.1).sum s.world t.world := by
  refine foldlM_brings rfl (.refl s.world) (fun x e y hmem hvault hquotes hy => ?_) h
  have hnext := (payOutput_worldOnly recipient x e.1 e.2 y hy).vault
  have hasset := (List.of_mem_zip hmem).1
  have hserve := hdefaults.of_quotes hvault hquotes
  have hstill := hquotes.trusted hworld
  rw [← hvault] at hW hasset hquotes ⊢
  exact ⟨hnext, (payOutput_brings hW hstill hserve hasset hy).at_start hquotes⟩

/-- A token that is not supported can leave without a change of the reserves. -/
theorem pays_unsupported (hW : Custody W v Trusted) (hworld : Trusted w) {asset recipient : Address}
    {amount : ℕ} (hasset : asset ∉ v.allAssets)
    (h : W.safeTransfer w v.self asset recipient amount = .ok w') :
    Brings W v Trusted 0 w w' := by
  have hbrings := (hW.pays hworld h).brings
  rwa [sum_more none_mem_holders, if_neg hasset] at hbrings

/-! ## The moves between the strategies -/

theorem recallAssets_brings (hW : Custody W s.vault Trusted) (hworld : Trusted s.world)
    {strategy : Address} (hstrategy : strategy ∈ s.vault.allStrategies)
    (h : s.recallAssets W strategy = .ok t) : Brings W s.vault Trusted 0 s.world t.world := by
  obtain ⟨w, hw, h⟩ := bind_eq_ok.mp h
  cases pure_eq_ok.mp h
  have hbrings := (hW.recalls hworld hstrategy hw).brings
  simp only [recalled, Pi.sub_apply, Int.cast_sub, sub_mul, Finset.sum_sub_distrib] at hbrings
  rwa [sum_single none_mem_holders, sum_single (some_mem_holders hstrategy), sub_self] at hbrings

theorem withdrawAllFromStrategies_brings (hW : Custody W s.vault Trusted)
    (hworld : Trusted s.world) {sender : Address}
    (h : s.withdrawAllFromStrategies W sender = .ok t) :
    Brings W s.vault Trusted 0 s.world t.world := by
  obtain ⟨_, -, h⟩ := bind_eq_ok.mp h
  refine foldlM_brings_zero rfl (.refl s.world) (fun u strategy t hmem hvault hquotes ht => ?_) h
  have hnext := (recallAssets_worldOnly u strategy t ht).vault
  have hstill := hquotes.trusted hworld
  rw [← hvault] at hW hmem ⊢
  exact ⟨hnext, recallAssets_brings hW hstill hmem ht⟩

/-- The withdrawals of a reallocation only move the world. -/
theorem foldlM_moveAsset {strategyFrom strategyTo : Address} {moves : List (Address × ℕ)}
    (h : moves.foldlM (moveAsset W strategyFrom strategyTo) s = .ok t) :
    ∃ w, moves.foldlM (withdrawTo W s.vault.self strategyFrom strategyTo) s.world = .ok w ∧
      t = s.setWorld w := by
  induction moves generalizing s with
  | nil =>
      cases pure_eq_ok.mp h
      exact ⟨_, rfl, rfl⟩
  | cons e moves ih =>
      rw [List.foldlM_cons] at h
      obtain ⟨u, hu, h⟩ := bind_eq_ok.mp h
      obtain ⟨supported, hsupported, hu⟩ := bind_eq_ok.mp hu
      obtain ⟨_, hrequire, hu⟩ := bind_eq_ok.mp hu
      obtain ⟨w, hw, hu⟩ := bind_eq_ok.mp hu
      cases pure_eq_ok.mp hu
      obtain ⟨w', hw', rfl⟩ := ih h
      refine ⟨w', ?_, rfl⟩
      rw [List.foldlM_cons]
      refine bind_eq_ok.mpr ⟨w, ?_, hw'⟩
      exact bind_eq_ok.mpr ⟨supported, hsupported, bind_eq_ok.mpr ⟨(), hrequire, hw⟩⟩

theorem sum_moves {strategyFrom strategyTo : Address}
    (hfrom : strategyFrom ∈ v.allStrategies) (hto : strategyTo ∈ v.allStrategies)
    (moves : List (Address × ℕ)) (worth : Address → ℚ) :
    ∑ a ∈ v.allAssets.toFinset, ∑ h ∈ holders v, ((moves.map fun e =>
      more (some strategyFrom) e.1 (-e.2) + more (some strategyTo) e.1 e.2).sum h a : ℤ) *
        worth a = 0 := by
  induction moves with
  | nil => simp
  | cons e moves ih =>
      simp only [List.map_cons, List.sum_cons, Pi.add_apply, Int.cast_add, add_mul,
        Finset.sum_add_distrib, ih, sum_more (some_mem_holders hfrom),
        sum_more (some_mem_holders hto)]
      split_ifs <;> simp

theorem reallocate_brings (hr : s.vault.Registered) (hW : Custody W s.vault Trusted)
    (hworld : Trusted s.world) {sender strategyFrom strategyTo : Address}
    {assets : List Address} {amounts : List ℕ}
    (h : s.reallocate W sender strategyFrom strategyTo assets amounts = .ok t) :
    Brings W s.vault Trusted 0 s.world t.world := by
  obtain ⟨_, -, h⟩ := bind_eq_ok.mp h
  obtain ⟨_, hfrom, h⟩ := bind_eq_ok.mp h
  obtain ⟨_, hto, h⟩ := bind_eq_ok.mp h
  obtain ⟨_, -, h⟩ := bind_eq_ok.mp h
  obtain ⟨u, hu, h⟩ := bind_eq_ok.mp h
  obtain ⟨w, hw, h⟩ := bind_eq_ok.mp h
  cases pure_eq_ok.mp h
  obtain ⟨w₁, hw₁, rfl⟩ := foldlM_moveAsset hu
  have hfrom := (hr.strategies _).mp (require_eq_ok.mp hfrom)
  have hto := (hr.strategies _).mp (require_eq_ok.mp hto)
  have hbrings := (hW.reallocates hworld hfrom hto hw₁ hw).brings
  rwa [sum_moves hfrom hto] at hbrings

theorem heldBy_congr {v' : Vault} (hself : v'.self = v.self) : heldBy W v' = heldBy W v := by
  funext w holder asset
  cases holder with
  | none => simp [heldBy, hself]
  | some strategy => rfl

/-- A vault with fewer strategies sees the same changes. -/
theorem Settled.restrict {change : Option Address → Address → ℤ} {v' : Vault}
    (h : Settled W v Trusted change w w') (hself : v'.self = v.self)
    (hassets : v'.allAssets = v.allAssets) (hprice : v'.priceProvider = v.priceProvider)
    (hstrategies : v'.allStrategies ⊆ v.allStrategies) : Settled W v' Trusted change w w' := by
  have hheld : heldBy W v' = heldBy W v := heldBy_congr hself
  refine ⟨⟨?_, h.quotes.decimals, ?_, h.quotes.trusted⟩, fun holder hholder asset hasset => ?_⟩
  · simpa [hprice] using h.quotes.price
  · exact fun strategy hmem => h.quotes.supports strategy (hstrategies hmem)
  · rw [hheld]
    refine h.held holder ?_ asset (hassets ▸ hasset)
    cases holder with
    | none => exact none_mem_holders
    | some strategy =>
        have hmem : strategy ∈ v'.allStrategies := by simpa [holders] using hholder
        exact some_mem_holders (hstrategies hmem)

section Fewer

variable {v' : Vault} {strategy : Address}

/-- The reserves without one of the strategies. -/
theorem reserves_erase (hself : v'.self = v.self) (hassets : v'.allAssets = v.allAssets)
    (hprice : v'.priceProvider = v.priceProvider) (hmem : strategy ∈ v.allStrategies)
    (hrest : ∀ x, x ∈ v'.allStrategies ↔ x ≠ strategy ∧ x ∈ v.allStrategies) (w : ω) :
    reserves W v w = reserves W v' w +
      ∑ a ∈ v'.allAssets.toFinset, heldBy W v w (some strategy) a * unitWorth W v' w a := by
  have hheld : heldBy W v' = heldBy W v := heldBy_congr hself
  have hholders : holders v = insert (some strategy) (holders v') := by
    ext holder
    cases holder with
    | none => simp [holders]
    | some x => by_cases hx : x = strategy <;> simp [holders, hrest, hx, hmem]
  have hnew : some strategy ∉ holders v' := by simp [holders, hrest]
  simp only [reserves, hholders, Finset.sum_insert hnew, Finset.sum_add_distrib, hheld, hassets,
    unitWorth, hprice]
  exact add_comm _ _

/-- What a strategy had is with the vault, and the others have what they had. -/
theorem Settled.recalled_reserves (hself : v'.self = v.self)
    (hassets : v'.allAssets = v.allAssets) (hprice : v'.priceProvider = v.priceProvider)
    (hmem : strategy ∈ v.allStrategies)
    (hrest : ∀ x, x ∈ v'.allStrategies ↔ x ≠ strategy ∧ x ∈ v.allStrategies)
    (h : Settled W v Trusted (recalled W v w strategy) w w') :
    reserves W v w ≤ reserves W v' w' := by
  have hsub : v'.allStrategies ⊆ v.allStrategies := fun x hx => ((hrest x).mp hx).2
  have hgained := (h.restrict hself hassets hprice hsub).brings.reserves
  have hstrategy : some strategy ∉ holders v' := by simp [holders, hrest]
  have hsum : ∀ a, ∑ holder ∈ holders v',
      (recalled W v w strategy holder a * unitWorth W v' w a : ℚ) =
        heldBy W v w (some strategy) a * unitWorth W v' w a := by
    intro a
    rw [Finset.sum_eq_single_of_mem none none_mem_holders]
    · simp [recalled]
    · intro holder hholder hne
      have hother : holder ≠ some strategy := fun heq => hstrategy (heq ▸ hholder)
      simp [recalled, hne, hother]
  rw [Finset.sum_congr rfl fun a _ => hsum a] at hgained
  rw [reserves_erase hself hassets hprice hmem hrest w]
  exact hgained

end Fewer

/-- What a strategy has is with the vault before the strategy is off the list for good. -/
theorem removeStrategy_reserves (hr : s.vault.Registered) (hW : Custody W s.vault Trusted)
    (hworld : Trusted s.world) {sender strategy : Address}
    (h : s.removeStrategy W sender strategy = .ok t) :
    reserves W s.vault s.world ≤ reserves W t.vault t.world := by
  obtain ⟨_, -, h⟩ := bind_eq_ok.mp h
  obtain ⟨_, happroved, h⟩ := bind_eq_ok.mp h
  obtain ⟨u, hu, h⟩ := bind_eq_ok.mp h
  cases pure_eq_ok.mp h
  have hmem := (hr.strategies _).mp (require_eq_ok.mp happroved)
  rw [delistStrategy, if_pos hmem] at hu
  obtain ⟨w, hw, hu⟩ := bind_eq_ok.mp hu
  have hvault := (harvestFrom_worldOnly _ strategy u hu).vault
  have hrest : ∀ x, x ∈ u.vault.allStrategies ↔ x ≠ strategy ∧ x ∈ s.vault.allStrategies := by
    rw [hvault]
    exact fun x => Listing.mem_swapRemove hmem hr.nodupStrategies
  have hself : u.vault.self = s.vault.self := by rw [hvault]; rfl
  have hassets : u.vault.allAssets = s.vault.allAssets := by rw [hvault]; rfl
  have hprice : u.vault.priceProvider = s.vault.priceProvider := by rw [hvault]; rfl
  -- the vault gets what the strategy had, and the harvest takes nothing
  have hrecalled := hW.recalls hworld hmem hw
  have hharvested : Settled W s.vault Trusted 0 w u.world := by
    refine harvestFrom_settled hW ?_ ?_ hmem hu
    · exact hrecalled.quotes.trusted hworld
    · rfl
  have hkept := (hharvested.restrict hself hassets hprice
    fun x hx => ((hrest x).mp hx).2).brings_zero.reserves
  calc reserves W s.vault s.world
      ≤ reserves W u.vault w := hrecalled.recalled_reserves hself hassets hprice hmem hrest
    _ ≤ reserves W u.vault u.world := by simpa using hkept

end Functions

end System

end InterestDollar
