import InterestDollar.FixedPoint.Portion
import InterestDollar.Vault.Counting
import InterestDollar.Vault.Outputs
import Mathlib.Algebra.Order.BigOperators.Group.List

/-!
# Minting against the backing

A mint issues the value of each deposit, rounded down, and the vault counts the value of
what it holds of each asset, rounded down once. Deposits of one asset are worth no more
apart than together with what was there, so a mint that neither rebases nor allocates
raises the total value by at least what it issues.
-/

namespace InterestDollar

open Checked Transition

/-- One element of a list gains an amount and no other one loses: the sum gains it. -/
theorem sum_map_add_le {α : Type} {f g : α → ℕ} {gain : ℕ} {a : α} {l : List α}
    (hmem : a ∈ l) (hle : ∀ y ∈ l, f y ≤ g y) (hgain : f a + gain ≤ g a) :
    (l.map f).sum + gain ≤ (l.map g).sum := by
  induction l with
  | nil => cases hmem
  | cons y l ih =>
      obtain ⟨hy, hrest⟩ := List.forall_mem_cons.mp hle
      simp only [List.map_cons, List.sum_cons]
      rcases List.mem_cons.mp hmem with rfl | hmem
      · have htail : (l.map f).sum ≤ (l.map g).sum := List.sum_le_sum hrest
        omega
      · have htail := ih hmem hrest
        omega

namespace System

variable {ω : Type} {W : World ω} {s s' t : System ω}

/-- What an amount of an asset is worth at the oracle's price. -/
def worthOf (W : World ω) (s : System ω) (asset : Address) (amount : ℕ) : ℕ :=
  FixedPoint.shares (10 ^ amountOf (W.decimals s.world asset))
    (amountOf (W.price s.world s.vault.priceProvider asset)) amount

/-- What the vault holds of an asset is worth. -/
def worthInVault (W : World ω) (s : System ω) (asset : Address) : ℕ :=
  s.worthOf W asset (amountOf (W.balanceOf s.world asset s.vault.self))

theorem getDecimals_eq_ok {w : ω} {asset : Address} {decimals : ℕ}
    (h : getDecimals W w asset = .ok decimals) : W.decimals w asset = .ok decimals := by
  obtain ⟨d, hd, h⟩ := bind_eq_ok.mp h
  obtain ⟨_, -, h⟩ := bind_eq_ok.mp h
  cases pure_eq_ok.mp h
  exact hd

theorem worthOf_eq {asset : Address} {amount decimals price : ℕ}
    (hdecimals : getDecimals W s.world asset = .ok decimals)
    (hprice : W.price s.world s.vault.priceProvider asset = .ok price) :
    s.worthOf W asset amount = amount * price / 10 ^ decimals := by
  rw [worthOf, amountOf_eq hprice, amountOf_eq (getDecimals_eq_ok hdecimals), FixedPoint.shares]

/-- The price and the decimals are all that the worth depends on. -/
theorem worthOf_congr {t : System ω} {asset : Address}
    (hquotes : W.price t.world t.vault.priceProvider asset =
        W.price s.world s.vault.priceProvider asset ∧
      W.decimals t.world asset = W.decimals s.world asset) (amount : ℕ) :
    t.worthOf W asset amount = s.worthOf W asset amount := by
  rw [worthOf, worthOf, hquotes.1, hquotes.2]

theorem assetValueFromOracle_eq_ok {asset : Address} {amount value : ℕ}
    (h : s.assetValueFromOracle W asset amount = .ok value) :
    value = s.worthOf W asset amount := by
  obtain ⟨decimals, hdecimals, h⟩ := bind_eq_ok.mp h
  obtain ⟨price, hprice, h⟩ := bind_eq_ok.mp h
  rw [worthOf_eq hdecimals hprice]
  exact (StableMath.mulTruncateScale_eq_ok.mp h).2.2

theorem valueInVault_eq_ok {asset : Address} {value : ℕ}
    (h : s.valueInVault W asset = .ok value) :
    Succeeds (W.balanceOf s.world asset s.vault.self) ∧ value = s.worthInVault W asset := by
  obtain ⟨balance, hbalance, h⟩ := bind_eq_ok.mp h
  refine ⟨succeeds_iff.mpr ⟨balance, hbalance⟩, ?_⟩
  rw [worthInVault, amountOf_eq hbalance]
  exact assetValueFromOracle_eq_ok h

/-! ## Deposits -/

/-- Fixed prices and standard tokens: a deposit of a supported asset by another account
adds exactly its amount to what the vault holds of it, changes no other asset of the vault,
no price and no decimals, and leaves what the strategies report as it is or higher. A
strategy that deposited its own funds would be the exception, and none does. -/
structure StandardDeposits (W : World ω) (v : Vault) : Prop where
  balance {w w' : ω} {asset owner : Address} {amount balance : ℕ} :
    v.assets asset = true → owner ≠ v.self →
      W.safeTransferFrom w v.self asset owner v.self amount = .ok w' →
        W.balanceOf w asset v.self = .ok balance →
          W.balanceOf w' asset v.self = .ok (balance + amount)
  others {w w' : ω} {asset owner other : Address} {amount : ℕ} :
    v.assets asset = true → owner ≠ v.self →
      W.safeTransferFrom w v.self asset owner v.self amount = .ok w' → other ≠ asset →
        W.balanceOf w' other v.self = W.balanceOf w other v.self
  quotes {w w' : ω} {asset owner : Address} {amount : ℕ} (other : Address) :
    v.assets asset = true → W.safeTransferFrom w v.self asset owner v.self amount = .ok w' →
      W.price w' v.priceProvider other = W.price w v.priceProvider other ∧
        W.decimals w' other = W.decimals w other
  strategies {w w' : ω} {asset owner strategy : Address} {amount : ℕ} (other : Address) :
    v.assets asset = true → W.safeTransferFrom w v.self asset owner v.self amount = .ok w' →
      strategy ≠ owner →
        W.supportsAsset w' strategy other = W.supportsAsset w strategy other ∧
          ∀ held, W.checkBalance w strategy other = .ok held →
            Returns (W.checkBalance w' strategy other) fun held' => held ≤ held'

/-- A state after deposits: the same storage, prices and decimals, and no less in the
strategies. -/
structure AfterDeposits (W : World ω) (s t : System ω) : Prop where
  vault : t.vault = s.vault
  ousd : t.ousd = s.ousd
  quotes : ∀ asset, W.price t.world t.vault.priceProvider asset =
      W.price s.world s.vault.priceProvider asset ∧
    W.decimals t.world asset = W.decimals s.world asset
  strategies : ∀ strategy ∈ s.vault.allStrategies, ∀ asset,
    W.supportsAsset t.world strategy asset = W.supportsAsset s.world strategy asset ∧
      ∀ held, W.checkBalance s.world strategy asset = .ok held →
        Returns (W.checkBalance t.world strategy asset) fun held' => held ≤ held'

theorem AfterDeposits.refl (s : System ω) : AfterDeposits W s s :=
  ⟨rfl, rfl, fun _ => ⟨rfl, rfl⟩, fun _ _ _ => ⟨rfl, fun held hheld => ⟨held, hheld, le_rfl⟩⟩⟩

theorem AfterDeposits.trans (h : AfterDeposits W s t) (h' : AfterDeposits W t s') :
    AfterDeposits W s s' where
  vault := h'.vault.trans h.vault
  ousd := h'.ousd.trans h.ousd
  quotes := fun asset =>
    ⟨(h'.quotes asset).1.trans (h.quotes asset).1, (h'.quotes asset).2.trans (h.quotes asset).2⟩
  strategies := fun strategy hmem asset => by
    obtain ⟨hsupports, hheld⟩ := h.strategies strategy hmem asset
    obtain ⟨hsupports', hheld'⟩ := h'.strategies strategy (h.vault ▸ hmem) asset
    refine ⟨hsupports'.trans hsupports, fun held hread => ?_⟩
    obtain ⟨middle, hmiddle, hle⟩ := hheld held hread
    obtain ⟨last, hlast, hle'⟩ := hheld' middle hmiddle
    exact ⟨last, hlast, hle.trans hle'⟩

theorem AfterDeposits.worthOf_eq (h : AfterDeposits W s t) (asset : Address) (amount : ℕ) :
    t.worthOf W asset amount = s.worthOf W asset amount :=
  worthOf_congr (h.quotes asset) amount

/-- What a strategy's holding of an asset is worth does not fall. -/
theorem AfterDeposits.valueInStrategy_le (h : AfterDeposits W s t) {strategy asset : Address}
    {value value' : ℕ} (hmem : strategy ∈ s.vault.allStrategies)
    (hs : s.valueInStrategy W strategy asset = .ok value)
    (ht : t.valueInStrategy W strategy asset = .ok value') : value ≤ value' := by
  obtain ⟨hsupports, hheld⟩ := h.strategies strategy hmem asset
  obtain ⟨supported, hsupported, hs⟩ := bind_eq_ok.mp hs
  obtain ⟨supported', hsupported', ht⟩ := bind_eq_ok.mp ht
  cases hsupported'.symm.trans (hsupports.trans hsupported)
  cases supported with
  | false =>
      cases pure_eq_ok.mp hs
      exact Nat.zero_le _
  | true =>
      obtain ⟨held, hread, hs⟩ := bind_eq_ok.mp hs
      obtain ⟨held', hread', ht⟩ := bind_eq_ok.mp ht
      have hle : held ≤ held' := (hheld held hread).of_eq_ok hread'
      rw [assetValueFromOracle_eq_ok hs, assetValueFromOracle_eq_ok ht, h.worthOf_eq]
      exact FixedPoint.shares_mono hle

/-- The strategies as a whole are worth no less. -/
theorem AfterDeposits.totalValueInStrategies_le (h : AfterDeposits W s t) {value value' : ℕ}
    (hs : s.totalValueInStrategies W = .ok value)
    (ht : t.totalValueInStrategies W = .ok value') : value ≤ value' := by
  obtain ⟨hreads, rfl⟩ := totalValueInStrategies_eq_ok hs
  obtain ⟨hreads', rfl⟩ := totalValueInStrategies_eq_ok ht
  simp only [h.vault] at hreads' ⊢
  refine List.sum_le_sum fun strategy hstrategy => List.sum_le_sum fun asset hasset => ?_
  exact h.valueInStrategy_le hstrategy (hreads strategy hstrategy asset hasset)
    (hreads' strategy hstrategy asset hasset)

/-- The reads of the vault's own balances. -/
def ReadsBalances (W : World ω) (s : System ω) : Prop :=
  ∀ asset ∈ s.vault.allAssets, Succeeds (W.balanceOf s.world asset s.vault.self)

/-- What the vault's own holdings are worth. -/
def vaultWorth (W : World ω) (s : System ω) : ℕ :=
  (s.vault.allAssets.map (s.worthInVault W)).sum

theorem totalValueInVault_eq_worth {value : ℕ} (h : s.totalValueInVault W = .ok value) :
    s.ReadsBalances W ∧ value = s.vaultWorth W := by
  obtain ⟨hreads, rfl⟩ := totalValueInVault_eq_ok h
  refine ⟨fun asset hmem => (valueInVault_eq_ok (hreads asset hmem)).1, ?_⟩
  exact congrArg List.sum (List.map_congr_left fun asset hmem =>
    (valueInVault_eq_ok (hreads asset hmem)).2)

/-- A deposit raises the worth of the vault by at least what the deposit is worth. -/
theorem takeDeposit_worth_le {sender asset : Address} {amount : ℕ} (hr : s.vault.Registered)
    (hW : StandardDeposits W s.vault) (hself : sender ≠ s.vault.self)
    (hstrategy : sender ∉ s.vault.allStrategies) (hasset : s.vault.assets asset = true)
    (hreads : s.ReadsBalances W) (h : s.takeDeposit W sender asset amount = .ok t) :
    AfterDeposits W s t ∧ t.ReadsBalances W ∧
      s.vaultWorth W + s.worthOf W asset amount ≤ t.vaultWorth W := by
  obtain ⟨w, hw, h⟩ := bind_eq_ok.mp h
  cases pure_eq_ok.mp h
  have hafter : AfterDeposits W s (s.setWorld w) :=
    ⟨rfl, rfl, fun other => hW.quotes other hasset hw, fun strategy hmem other =>
      hW.strategies other hasset hw fun heq => hstrategy (heq ▸ hmem)⟩
  have hbalance : ∀ other ∈ s.vault.allAssets, ∀ balance,
      W.balanceOf s.world other s.vault.self = .ok balance →
        W.balanceOf w other s.vault.self =
          .ok (balance + if other = asset then amount else 0) := by
    intro other _ balance hbalance
    split_ifs with heq
    · subst heq
      exact hW.balance hasset hself hw hbalance
    · rw [hW.others hasset hself hw heq, hbalance, Nat.add_zero]
  refine ⟨hafter, fun other hmem => ?_, ?_⟩
  · obtain ⟨balance, hread⟩ := succeeds_iff.mp (hreads other hmem)
    exact succeeds_iff.mpr ⟨_, hbalance other hmem balance hread⟩
  have hworth : ∀ other ∈ s.vault.allAssets, ∀ balance,
      W.balanceOf s.world other s.vault.self = .ok balance →
        s.worthInVault W other = s.worthOf W other balance ∧
          (s.setWorld w).worthInVault W other =
            s.worthOf W other (balance + if other = asset then amount else 0) := by
    intro other hmem balance hread
    refine ⟨by rw [worthInVault, amountOf_eq hread], ?_⟩
    rw [worthInVault, hafter.worthOf_eq]
    exact congrArg _ (amountOf_eq (hbalance other hmem balance hread))
  refine sum_map_add_le ((hr.assets asset).mp hasset) (fun other hmem => ?_) ?_
  · obtain ⟨balance, hread⟩ := succeeds_iff.mp (hreads other hmem)
    obtain ⟨hbefore, hnow⟩ := hworth other hmem balance hread
    rw [hbefore, hnow]
    exact FixedPoint.shares_mono (Nat.le_add_right _ _)
  · have hmem := (hr.assets asset).mp hasset
    obtain ⟨balance, hread⟩ := succeeds_iff.mp (hreads asset hmem)
    obtain ⟨hbefore, hnow⟩ := hworth asset hmem balance hread
    rw [hbefore, hnow, if_pos rfl]
    exact FixedPoint.shares_add_le balance amount

/-- The deposits of a list, one after the other. -/
theorem takeDeposits_worth_le {sender : Address} {deposits : List (Address × ℕ)}
    (hr : s.vault.Registered) (hW : StandardDeposits W s.vault) (hself : sender ≠ s.vault.self)
    (hstrategy : sender ∉ s.vault.allStrategies)
    (hassets : ∀ e ∈ deposits, s.vault.assets e.1 = true) (hreads : s.ReadsBalances W)
    (h : deposits.foldlM (fun s (asset, amount) => s.takeDeposit W sender asset amount) s =
      .ok t) :
    AfterDeposits W s t ∧
      s.vaultWorth W + (deposits.map fun e => s.worthOf W e.1 e.2).sum ≤ t.vaultWorth W := by
  induction deposits generalizing s with
  | nil =>
      cases pure_eq_ok.mp h
      exact ⟨.refl _, le_rfl⟩
  | cons e deposits ih =>
      rw [List.foldlM_cons] at h
      obtain ⟨u, hu, h⟩ := bind_eq_ok.mp h
      obtain ⟨hasset, hassets⟩ := List.forall_mem_cons.mp hassets
      obtain ⟨hafter, hreads', hle⟩ :=
        takeDeposit_worth_le hr hW hself hstrategy hasset hreads hu
      have hvault := hafter.vault
      obtain ⟨hafter', hle'⟩ := ih (hvault ▸ hr) (hvault ▸ hW) (hvault ▸ hself)
        (hvault ▸ hstrategy) (hvault ▸ hassets) hreads' h
      refine ⟨hafter.trans hafter', ?_⟩
      simp only [hafter.worthOf_eq] at hle'
      rw [List.map_cons, List.sum_cons]
      omega

/-! ## What is issued -/

/-- What `mint` makes of a deposit: the units it holds against the thresholds, and the value
it issues. -/
def depositTerms (W : World ω) (s : System ω) (asset : Address) (amount : ℕ) :
    Except Revert (ℕ × ℕ) := do
  let price ← W.price s.world s.vault.priceProvider asset
  let assetDecimals ← getDecimals W s.world asset
  let unitAdjustedDeposit ← StableMath.scaleBy amount (18 - (assetDecimals : ℤ))
  let priceAdjustedDeposit ← StableMath.mulTruncateScale amount price (10 ^ assetDecimals)
  return (unitAdjustedDeposit, priceAdjustedDeposit)

/-- The inner step of `mintMultiple`: adds a deposit to the totals at the price of an asset. -/
def addAtPrice (W : World ω) (s : System ω) (deposit : Address × ℕ) (totals : ℕ × ℕ)
    (asset : Address) (price : ℕ) : Except Revert (ℕ × ℕ) := do
  let assetDecimals ← getDecimals W s.world asset
  let scaled ← StableMath.scaleBy deposit.2 (18 - (assetDecimals : ℤ))
  let unitAdjustedTotal ← SafeMath.add totals.1 scaled
  let value ← StableMath.mulTruncateScale deposit.2 price (10 ^ assetDecimals)
  let priceAdjustedTotal ← SafeMath.add totals.2 value
  return (unitAdjustedTotal, priceAdjustedTotal)

theorem depositTerms_eq_worth {asset : Address} {amount : ℕ} {terms : ℕ × ℕ}
    (h : s.depositTerms W asset amount = .ok terms) : terms.2 = s.worthOf W asset amount := by
  obtain ⟨price, hprice, h⟩ := bind_eq_ok.mp h
  obtain ⟨decimals, hdecimals, h⟩ := bind_eq_ok.mp h
  obtain ⟨units, -, h⟩ := bind_eq_ok.mp h
  obtain ⟨value, hvalue, h⟩ := bind_eq_ok.mp h
  cases pure_eq_ok.mp h
  rw [worthOf_eq hdecimals hprice]
  exact (StableMath.mulTruncateScale_eq_ok.mp hvalue).2.2

/-- Adding a deposit at the price of its asset adds what `mint` makes of it. -/
theorem addAtPrice_eq_ok {deposit : Address × ℕ} {totals totals' : ℕ × ℕ} {price : ℕ}
    (hprice : W.price s.world s.vault.priceProvider deposit.1 = .ok price)
    (h : s.addAtPrice W deposit totals deposit.1 price = .ok totals') :
    ∃ terms, s.depositTerms W deposit.1 deposit.2 = .ok terms ∧
      totals' = (totals.1 + terms.1, totals.2 + terms.2) := by
  obtain ⟨decimals, hdecimals, h⟩ := bind_eq_ok.mp h
  obtain ⟨scaled, hscaled, h⟩ := bind_eq_ok.mp h
  obtain ⟨units, hunits, h⟩ := bind_eq_ok.mp h
  obtain ⟨value, hvalue, h⟩ := bind_eq_ok.mp h
  obtain ⟨total, htotal, h⟩ := bind_eq_ok.mp h
  cases pure_eq_ok.mp h
  obtain ⟨-, rfl⟩ := SafeMath.add_eq_ok.mp hunits
  obtain ⟨-, rfl⟩ := SafeMath.add_eq_ok.mp htotal
  refine ⟨(scaled, value), ?_, rfl⟩
  simp only [depositTerms, bind_eq_ok, pure_eq_ok]
  exact ⟨price, hprice, decimals, hdecimals, scaled, hscaled, value, hvalue, rfl⟩

/-- The loop over the assets adds a deposit once, at the price of its asset. -/
theorem foldlM_lookup_eq {deposit : Address × ℕ} {l : List Address} {prices : List ℕ}
    (totals : ℕ × ℕ) (hnodup : l.Nodup) (hmem : deposit.1 ∈ l)
    (hprices : List.Forall₂ (fun asset price =>
      W.price s.world s.vault.priceProvider asset = .ok price) l prices) :
    (l.zip prices).foldlM (fun totals (asset, price) =>
      if deposit.1 = asset then s.addAtPrice W deposit totals asset price else return totals)
      totals = (do
        let price ← W.price s.world s.vault.priceProvider deposit.1
        s.addAtPrice W deposit totals deposit.1 price) := by
  induction hprices with
  | nil => cases hmem
  | @cons asset price l prices hprice hprices ih =>
      obtain ⟨hnot, hnodup⟩ := List.nodup_cons.mp hnodup
      rw [List.zip_cons_cons, List.foldlM_cons]
      dsimp only
      by_cases heq : deposit.1 = asset
      · have hnone : ∀ e ∈ l.zip prices, deposit.1 ≠ e.1 := by
          rintro e he hsame
          rw [← heq, hsame] at hnot
          exact hnot (List.of_mem_zip he).1
        rw [if_pos heq, heq, hprice]
        refine (bind_congr fun totals => ?_).trans (bind_pure _)
        rw [← heq]
        exact foldlM_passes (fun e he totals => if_neg (hnone e he)) totals
      · rw [if_neg heq, pure_bind]
        exact ih hnodup ((List.mem_cons.mp hmem).resolve_left heq)

/-- A supported deposit is added once to the totals, at the price of its asset. -/
theorem addDeposit_eq {deposit : Address × ℕ} {prices : List ℕ} (totals : ℕ × ℕ)
    (hr : s.vault.Registered) (hprices : s.getAssetPrices W = .ok prices)
    (hasset : s.vault.assets deposit.1 = true) :
    s.addDeposit W prices totals deposit = (do
      require (0 < deposit.2) "Amount must be greater than 0"
      let price ← W.price s.world s.vault.priceProvider deposit.1
      s.addAtPrice W deposit totals deposit.1 price) := by
  have hlookup := foldlM_lookup_eq totals hr.nodupAssets ((hr.assets _).mp hasset)
    (mapM_eq_ok.mp hprices)
  rw [addDeposit, (require_eq_ok (u := ())).mpr hasset, ← hlookup]
  rfl

/-- The deposit loop adds up what `mint` makes of each deposit. -/
theorem foldlM_addDeposit_eq_ok {deposits : List (Address × ℕ)} {prices : List ℕ}
    {totals totals' : ℕ × ℕ} (hr : s.vault.Registered)
    (hprices : s.getAssetPrices W = .ok prices)
    (h : deposits.foldlM (s.addDeposit W prices) totals = .ok totals') :
    (∀ e ∈ deposits, s.vault.assets e.1 = true) ∧ ∃ terms : List (ℕ × ℕ),
      List.Forall₂ (fun e term => s.depositTerms W e.1 e.2 = .ok term) deposits terms ∧
        totals' = (totals.1 + (terms.map Prod.fst).sum, totals.2 + (terms.map Prod.snd).sum) := by
  induction deposits generalizing totals with
  | nil =>
      cases pure_eq_ok.mp h
      exact ⟨(fun _ hmem => nomatch hmem), [], .nil, rfl⟩
  | cons e deposits ih =>
      rw [List.foldlM_cons] at h
      obtain ⟨middle, hmiddle, h⟩ := bind_eq_ok.mp h
      obtain ⟨hassets, terms, hterms, rfl⟩ := ih h
      obtain ⟨_, hasset, -⟩ := bind_eq_ok.mp hmiddle
      have hasset := require_eq_ok.mp hasset
      rw [addDeposit_eq totals hr hprices hasset] at hmiddle
      obtain ⟨_, -, hmiddle⟩ := bind_eq_ok.mp hmiddle
      obtain ⟨price, hprice, hmiddle⟩ := bind_eq_ok.mp hmiddle
      obtain ⟨term, hterm, rfl⟩ := addAtPrice_eq_ok hprice hmiddle
      refine ⟨List.forall_mem_cons.mpr ⟨hasset, hassets⟩, term :: terms, .cons hterm hterms, ?_⟩
      simp only [List.map_cons, List.sum_cons, Nat.add_assoc]

/-- The values of the deposits of a list are what they are worth. -/
theorem terms_eq_worth {deposits : List (Address × ℕ)} {terms : List (ℕ × ℕ)}
    (h : List.Forall₂ (fun e term => s.depositTerms W e.1 e.2 = .ok term) deposits terms) :
    terms.map Prod.snd = deposits.map fun e => s.worthOf W e.1 e.2 := by
  induction h with
  | nil => rfl
  | cons hterm _ ih => rw [List.map_cons, List.map_cons, depositTerms_eq_worth hterm, ih]

/-! ## Minting -/

/-- A deposit of this many units makes the vault neither rebase nor allocate. -/
def Quiet (s : System ω) (units : ℕ) : Prop :=
  ¬ (s.vault.rebaseThreshold ≤ units ∧ s.vault.rebasePaused = false) ∧
    ¬ s.vault.autoAllocateThreshold ≤ units

instance (s : System ω) (units : ℕ) : Decidable (s.Quiet units) :=
  inferInstanceAs (Decidable (_ ∧ _))

/-- The units of a deposit, which `mint` holds against the thresholds. -/
def mintUnits (W : World ω) (s : System ω) (asset : Address) (amount : ℕ) : Except Revert ℕ := do
  let assetDecimals ← getDecimals W s.world asset
  StableMath.scaleBy amount (18 - (assetDecimals : ℤ))

/-- The units of several deposits, which `mintMultiple` holds against the thresholds. -/
def mintMultipleUnits (W : World ω) (s : System ω) (assets : List Address) (amounts : List ℕ) :
    Except Revert ℕ := do
  let assetPrices ← s.getAssetPrices W
  let totals ← (assets.zip amounts).foldlM (s.addDeposit W assetPrices) (0, 0)
  return totals.1

theorem rebaseBeforeMint_quiet {units : ℕ} (hquiet : s.Quiet units)
    (h : s.rebaseBeforeMint W units = .ok t) : t = s := by
  unfold rebaseBeforeMint at h
  rw [if_neg hquiet.1] at h
  exact (pure_eq_ok.mp h).symm

theorem allocateAfterMint_quiet {units : ℕ} (hquiet : s.Quiet units)
    (h : s.allocateAfterMint W units = .ok t) : t = s := by
  unfold allocateAfterMint at h
  rw [if_neg hquiet.2] at h
  exact (pure_eq_ok.mp h).symm

/-- What a quiet mint amounts to: the issue, and then the deposits. -/
structure Issues (W : World ω) (s : System ω) (sender : Address) (deposits : List (Address × ℕ))
    (s' : System ω) : Prop where
  supported : ∀ e ∈ deposits, s.vault.assets e.1 = true
  steps : ∃ u, s.callOusd W s.vault.self
      (.mint sender (deposits.map fun e => s.worthOf W e.1 e.2).sum) = .ok u ∧
    deposits.foldlM (fun s (asset, amount) => s.takeDeposit W sender asset amount) u = .ok s'

theorem mint_issues {sender asset : Address} {amount minimum : ℕ}
    (hquiet : Ensures (s.mintUnits W asset amount) s.Quiet)
    (h : s.mint W sender asset amount minimum = .ok s') :
    Issues W s sender [(asset, amount)] s' := by
  obtain ⟨_, -, h⟩ := bind_eq_ok.mp h
  obtain ⟨_, hasset, h⟩ := bind_eq_ok.mp h
  obtain ⟨_, -, h⟩ := bind_eq_ok.mp h
  obtain ⟨price, hprice, h⟩ := bind_eq_ok.mp h
  obtain ⟨decimals, hdecimals, h⟩ := bind_eq_ok.mp h
  obtain ⟨units, hunits, h⟩ := bind_eq_ok.mp h
  obtain ⟨deposit, hdeposit, h⟩ := bind_eq_ok.mp h
  have hunits : s.Quiet units := hquiet units (bind_eq_ok.mpr ⟨decimals, hdecimals, hunits⟩)
  obtain ⟨_, -, h⟩ := bind_eq_ok.mp h
  obtain ⟨t, ht, h⟩ := bind_eq_ok.mp h
  rw [rebaseBeforeMint_quiet hunits ht] at h
  obtain ⟨u, hu, h⟩ := bind_eq_ok.mp h
  obtain ⟨x, hx, h⟩ := bind_eq_ok.mp h
  have hvault : x.vault = s.vault :=
    (takeDeposit_worldOnly sender u asset amount x hx).vault.trans (callOusd_vault hu)
  have hafter : x.Quiet units := by
    rw [Quiet, hvault]
    exact hunits
  rw [allocateAfterMint_quiet hafter h]
  have hworth : deposit = s.worthOf W asset amount := by
    rw [worthOf_eq hdecimals hprice]
    exact (StableMath.mulTruncateScale_eq_ok.mp hdeposit).2.2
  refine ⟨List.forall_mem_singleton.mpr (require_eq_ok.mp hasset), u, ?_, ?_⟩
  · simpa [← hworth] using hu
  · rw [List.foldlM_cons]
    exact bind_eq_ok.mpr ⟨x, hx, rfl⟩

theorem foldlM_takeDeposit_vault {sender : Address} (deposits : List (Address × ℕ))
    (h : deposits.foldlM (fun s (asset, amount) => s.takeDeposit W sender asset amount) s =
      .ok t) : t.vault = s.vault :=
  (foldlM_worldOnly (fun s e => takeDeposit_worldOnly sender s e.1 e.2) s deposits t h).vault

theorem mintMultiple_issues {sender : Address} {assets : List Address} {amounts : List ℕ}
    {minimum : ℕ} (hr : s.vault.Registered)
    (hquiet : Ensures (s.mintMultipleUnits W assets amounts) s.Quiet)
    (h : s.mintMultiple W sender assets amounts minimum = .ok s') :
    Issues W s sender (assets.zip amounts) s' := by
  obtain ⟨_, -, h⟩ := bind_eq_ok.mp h
  obtain ⟨_, -, h⟩ := bind_eq_ok.mp h
  obtain ⟨prices, hprices, h⟩ := bind_eq_ok.mp h
  obtain ⟨totals, htotals, h⟩ := bind_eq_ok.mp h
  obtain ⟨_, -, h⟩ := bind_eq_ok.mp h
  obtain ⟨t, ht, h⟩ := bind_eq_ok.mp h
  have hunits : s.Quiet totals.1 := hquiet _
    (bind_eq_ok.mpr ⟨prices, hprices, bind_eq_ok.mpr ⟨totals, htotals, rfl⟩⟩)
  rw [rebaseBeforeMint_quiet hunits ht] at h
  obtain ⟨u, hu, h⟩ := bind_eq_ok.mp h
  obtain ⟨x, hx, h⟩ := bind_eq_ok.mp h
  have hafter : x.Quiet totals.1 := by
    rw [Quiet, foldlM_takeDeposit_vault _ hx, callOusd_vault hu]
    exact hunits
  rw [allocateAfterMint_quiet hafter h]
  obtain ⟨hassets, terms, hterms, rfl⟩ := foldlM_addDeposit_eq_ok hr hprices htotals
  refine ⟨hassets, u, ?_, hx⟩
  rw [← terms_eq_worth hterms, ← Nat.zero_add (terms.map Prod.snd).sum]
  exact hu

/-- A mint of the token raises its supply by what is issued, and changes nothing else. -/
theorem callOusd_mint_eq_ok {account : Address} {amount : ℕ}
    (h : s.callOusd W s.vault.self (.mint account amount) = .ok t) :
    ∃ ousd calls, t = { s with ousd := ousd, ousdCalls := calls } ∧
      ousd.totalSupply = s.ousd.totalSupply + amount := by
  obtain ⟨ousd, hexec, rfl⟩ := callOusd_eq_ok.mp h
  obtain ⟨-, -, -, rfl⟩ := Ledger.mintTo_eq_ok.mp (Ledger.mint_eq_ok.mp hexec).2
  exact ⟨_, _, rfl, congrArg (· + amount) Ledger.migrate_totalSupply⟩

/-- The value of the vault rises by at least what it issues. -/
theorem Issues.backed {sender : Address} {deposits : List (Address × ℕ)} {value value' : ℕ}
    (h : Issues W s sender deposits s') (hr : s.vault.Registered)
    (hW : StandardDeposits W s.vault) (hself : sender ≠ s.vault.self)
    (hstrategy : sender ∉ s.vault.allStrategies) (hs : s.totalValue W = .ok value)
    (hs' : s'.totalValue W = .ok value') :
    value + s'.ousd.totalSupply ≤ value' + s.ousd.totalSupply := by
  obtain ⟨hassets, u, hu, hdeposits⟩ := h
  obtain ⟨ousd, calls, rfl, hsupply⟩ := callOusd_mint_eq_ok hu
  obtain ⟨inVault, inStrategies, hin, hout, rfl⟩ := totalValue_eq_ok hs
  obtain ⟨inVault', inStrategies', hin', hout', rfl⟩ := totalValue_eq_ok hs'
  obtain ⟨hreads, rfl⟩ := totalValueInVault_eq_worth hin
  obtain ⟨-, rfl⟩ := totalValueInVault_eq_worth hin'
  obtain ⟨hafter, hle⟩ := takeDeposits_worth_le
    (s := { s with ousd := ousd, ousdCalls := calls }) hr hW hself hstrategy hassets hreads hdeposits
  have hworth : s.vaultWorth W + (deposits.map fun e => s.worthOf W e.1 e.2).sum ≤
      s'.vaultWorth W := hle
  have hstrategies : inStrategies ≤ inStrategies' := hafter.totalValueInStrategies_le hout hout'
  rw [hafter.ousd, hsupply]
  omega

variable {self governor priceProvider : Address} {world : ω}
  {trace : List (System ω × (Address × Action ω))}

/-- From every state a run reaches, a mint or a multiple mint that neither rebases nor
allocates, by an account other than the vault and its strategies, leaves at least as much
value over the supply as there was, at fixed prices and with standard tokens. -/
theorem mint_keeps_backing (h : Reached W self governor priceProvider world trace s)
    (hW : StandardDeposits W s.vault) {sender : Address} (hself : sender ≠ s.vault.self)
    (hstrategy : sender ∉ s.vault.allStrategies) {value value' : ℕ}
    (hs : s.totalValue W = .ok value) (hs' : s'.totalValue W = .ok value') :
    (∀ asset amount minimum, Ensures (s.mintUnits W asset amount) s.Quiet →
      s.mint W sender asset amount minimum = .ok s' →
      (value : ℤ) - s.ousd.totalSupply ≤ (value' : ℤ) - s'.ousd.totalSupply) ∧
    ∀ assets amounts minimum, Ensures (s.mintMultipleUnits W assets amounts) s.Quiet →
      s.mintMultiple W sender assets amounts minimum = .ok s' →
      (value : ℤ) - s.ousd.totalSupply ≤ (value' : ℤ) - s'.ousd.totalSupply := by
  have hr := h.sound.registered
  constructor
  · intro asset amount minimum hquiet hmint
    have hle := (mint_issues hquiet hmint).backed hr hW hself hstrategy hs hs'
    omega
  · intro assets amounts minimum hquiet hmint
    have hle := (mintMultiple_issues hr hquiet hmint).backed hr hW hself hstrategy hs hs'
    omega

/-- The tokens of a plain world are standard, and a deposit leaves the holdings of every
strategy but the depositor as they are or, if the vault is one, higher. -/
theorem standardDeposits_plainWorld (v : Vault) : StandardDeposits PlainWorld.calls v := by
  have hmoved : ∀ {w w' : PlainWorld} {asset owner : Address} {amount : ℕ},
      PlainWorld.calls.safeTransferFrom w v.self asset owner v.self amount = .ok w' →
        w' = (w.take asset owner amount).give asset v.self amount :=
    fun hw => (PlainWorld.move_eq_ok.mp hw).2
  constructor
  · intro w w' asset owner amount balance _ howner hw hbalance
    cases hmoved hw
    cases hbalance
    simp [PlainWorld.calls, PlainWorld.give, PlainWorld.take, howner.symm]
  · intro w w' asset owner other amount _ _ hw hne
    cases hmoved hw
    simp [PlainWorld.calls, PlainWorld.give, PlainWorld.take, hne]
  · intro w w' asset owner amount other _ hw
    cases hmoved hw
    exact ⟨rfl, rfl⟩
  · intro w w' asset owner strategy amount other _ hw hne
    cases hmoved hw
    refine ⟨rfl, fun held hheld => ⟨_, rfl, ?_⟩⟩
    cases hheld
    by_cases hother : other = asset
    · subst hother
      by_cases hself : strategy = v.self
      · simp [PlainWorld.give, PlainWorld.take, hself, (hself ▸ hne : v.self ≠ owner)]
      · simp [PlainWorld.give, PlainWorld.take, hself, hne]
    · simp [PlainWorld.give, PlainWorld.take, hother]

/-- Two assets at 1.20 dollars, one of them deposited twice: of 7, 3 and 4 units the values
8, 3 and 4 are issued, and the vault counts 13 and 3 for them. -/
theorem mint_keeps_backing_twice :
    ∃ trace s s', Reached PlainWorld.calls 9 8 7
        { ((PlainWorld.empty [] []).give 5 1 100).give 6 1 100 with
          prices := fun _ => 12 * 10 ^ 17 } trace s ∧
      s.mintMultiple PlainWorld.calls 1 [5, 6, 5] [7, 3, 4] 0 = .ok s' ∧
        s'.totalValue PlainWorld.calls = .ok 16 ∧ s'.ousd.totalSupply = 15 ∧
          (0 : ℤ) - s.ousd.totalSupply ≤ (16 : ℤ) - s'.ousd.totalSupply := by
  have hsteps : Returns
      (execTrace (execFrom PlainWorld.calls) []
        (initialized 9 8 7 { ((PlainWorld.empty [] []).give 5 1 100).give 6 1 100 with
          prices := fun _ => 12 * 10 ^ 17 })
        [(8, .supportAsset 5), (8, .supportAsset 6), (8, .unpauseCapital)])
      fun out => Returns (out.2.totalValue PlainWorld.calls) (· = 0) ∧
        out.2.vault.self = 9 ∧ out.2.vault.allStrategies = [] ∧
        Returns (out.2.mintMultipleUnits PlainWorld.calls [5, 6, 5] [7, 3, 4]) out.2.Quiet ∧
          Returns (out.2.mintMultiple PlainWorld.calls 1 [5, 6, 5] [7, 3, 4] 0) fun s' =>
            Returns (s'.totalValue PlainWorld.calls) (· = 16) ∧ s'.ousd.totalSupply = 15 := by
    decide
  obtain ⟨trace, s, hrun, ⟨_, hbefore, rfl⟩, hself, hnone, hquiet, s', hmint, ⟨_, hafter, rfl⟩,
    hsupply⟩ := reached_of_returns hsteps
  refine ⟨trace, s, s', hrun, hmint, hafter, hsupply, ?_⟩
  have hstrategy : (1 : Address) ∉ s.vault.allStrategies := by
    rw [show s.vault.allStrategies = [] from hnone]
    exact List.not_mem_nil
  have hsender : (1 : Address) ≠ s.vault.self := by
    rw [show s.vault.self = 9 from hself]
    decide
  exact (mint_keeps_backing hrun (standardDeposits_plainWorld _) hsender hstrategy hbefore
    hafter).2 _ _ 0 (fun _ hunits => hquiet.of_eq_ok hunits) hmint

end System

end InterestDollar
