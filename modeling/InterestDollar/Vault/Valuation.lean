import InterestDollar.Vault.Backing
import Mathlib.Algebra.BigOperators.Group.Multiset.Basic

/-!
# The two valuations of the vault

A redeem counts what is held of each asset, over the vault and all strategies, and a rebase
counts values, over the vault and then strategy by strategy. The first goes over the assets and
adds up coins, the second adds up values that are rounded down one by one. So they are about
the same holdings, and differ by the roundings alone.
-/

namespace InterestDollar

open Checked Transition FixedPoint

namespace System

variable {ω : Type} {W : World ω} {s : System ω}

theorem valueInStrategy_eq_worth {strategy asset : Address} {value balance : ℕ}
    (hvalue : s.valueInStrategy W strategy asset = .ok value)
    (hbalance : s.balanceInStrategy W strategy asset = .ok balance) :
    value = s.worthOf W asset balance := by
  obtain ⟨supported, hsupported, hvalue⟩ := bind_eq_ok.mp hvalue
  obtain ⟨supported', hsupported', hbalance⟩ := bind_eq_ok.mp hbalance
  cases hsupported.symm.trans hsupported'
  cases supported with
  | true =>
      obtain ⟨balance', hread, hvalue⟩ := bind_eq_ok.mp hvalue
      cases hread.symm.trans hbalance
      exact assetValueFromOracle_eq_ok hvalue
  | false =>
      cases pure_eq_ok.mp hvalue
      cases pure_eq_ok.mp hbalance
      simp [worthOf, shares]

/-- The value of an asset, in the vault and then strategy by strategy. -/
def assetValue (W : World ω) (s : System ω) (asset : Address) : ℕ :=
  amountOf (s.valueInVault W asset) +
    (s.vault.allStrategies.map fun strategy => amountOf (s.valueInStrategy W strategy asset)).sum

/-- The total value goes over the vault and the strategies and within each over the assets; it
is the same to go over the assets first. -/
theorem totalValue_eq_sum {value : ℕ} (h : s.totalValue W = .ok value) :
    value = (s.vault.allAssets.map (s.assetValue W)).sum := by
  obtain ⟨inVault, inStrategies, hvault, hinside, rfl⟩ := totalValue_eq_ok h
  obtain ⟨-, rfl⟩ := totalValueInVault_eq_ok hvault
  obtain ⟨-, rfl⟩ := totalValueInStrategies_eq_ok hinside
  have hexchange := Multiset.sum_map_sum_map (s.vault.allStrategies : Multiset Address)
    (s.vault.allAssets : Multiset Address)
    (f := fun strategy asset => amountOf (s.valueInStrategy W strategy asset))
  simp only [Multiset.map_coe, Multiset.sum_coe] at hexchange
  rw [hexchange, ← List.sum_map_add]
  rfl

/-- What is held of an asset is worth what the vault and the strategies have of it one by one,
or up to one more for each strategy. -/
theorem worthOf_checkBalance {asset : Address} {value held : ℕ} (hvalue : s.totalValue W = .ok value)
    (hmem : asset ∈ s.vault.allAssets) (hheld : s.checkBalance W asset = .ok held) :
    s.assetValue W asset ≤ s.worthOf W asset held ∧
      s.worthOf W asset held ≤ s.assetValue W asset + s.vault.allStrategies.length := by
  obtain ⟨inVault, inStrategies, hvault, hinside, rfl⟩ := totalValue_eq_ok hvalue
  have hown := (totalValueInVault_eq_ok hvault).1 asset hmem
  have hparts := fun strategy hstrategy =>
    (totalValueInStrategies_eq_ok hinside).1 strategy hstrategy asset hmem
  obtain ⟨own, hbalance, hreads, rfl⟩ := checkBalance_eq_ok hheld
  have hfirst : amountOf (s.valueInVault W asset) = s.worthOf W asset own := by
    rw [(valueInVault_eq_ok hown).2, worthInVault, amountOf_eq hbalance]
  have hrest : (s.vault.allStrategies.map fun strategy =>
        amountOf (s.valueInStrategy W strategy asset)) =
      (s.vault.allStrategies.map fun strategy =>
        amountOf (s.balanceInStrategy W strategy asset)).map (s.worthOf W asset) := by
    rw [List.map_map]
    exact List.map_congr_left fun strategy hstrategy =>
      valueInStrategy_eq_worth (hparts strategy hstrategy) (hreads strategy hstrategy)
  rw [assetValue, hfirst, hrest]
  constructor
  · exact shares_add_sum_le own _
  · have hunit : 0 < 10 ^ amountOf (W.decimals s.world asset) := Nat.pow_pos (by omega)
    have hle : s.worthOf W asset (own + (s.vault.allStrategies.map fun strategy =>
        amountOf (s.balanceInStrategy W strategy asset)).sum) ≤ _ :=
      shares_add_sum_le_add_length hunit own _
    rwa [List.length_map] at hle

/-- The holdings that a redeem counts, each at its price, are worth the value that a rebase
counts, or up to one more for each asset and strategy. -/
theorem valuations_agree {value : ℕ} {held price decimals : Address → ℕ}
    (hvalue : s.totalValue W = .ok value)
    (hreads : ∀ asset ∈ s.vault.allAssets, s.checkBalance W asset = .ok (held asset) ∧
      W.price s.world s.vault.priceProvider asset = .ok (price asset) ∧
        getDecimals W s.world asset = .ok (decimals asset)) :
    value ≤ (s.vault.allAssets.map fun asset =>
        held asset * price asset / 10 ^ decimals asset).sum ∧
      (s.vault.allAssets.map fun asset => held asset * price asset / 10 ^ decimals asset).sum ≤
        value + s.vault.allAssets.length * s.vault.allStrategies.length := by
  have hworth : ∀ asset ∈ s.vault.allAssets,
      held asset * price asset / 10 ^ decimals asset = s.worthOf W asset (held asset) :=
    fun asset hmem => (worthOf_eq (hreads asset hmem).2.2 (hreads asset hmem).2.1).symm
  have heach := fun asset hmem => worthOf_checkBalance hvalue hmem (hreads asset hmem).1
  rw [List.map_congr_left hworth, totalValue_eq_sum hvalue]
  constructor
  · exact List.sum_le_sum fun asset hmem => (heach asset hmem).1
  · calc (s.vault.allAssets.map fun asset => s.worthOf W asset (held asset)).sum
        ≤ (s.vault.allAssets.map fun asset =>
            s.assetValue W asset + s.vault.allStrategies.length).sum :=
          List.sum_le_sum fun asset hmem => (heach asset hmem).2
      _ = _ := by
          rw [List.sum_map_add, List.map_const', List.sum_replicate, smul_eq_mul]

/-- A coin of 1.50 dollars in the vault and one in each of two strategies: a value of 3 where
each is rounded down, and of 4 for the three coins together. -/
theorem valuations_agree_thrice :
    ∃ trace s, Reached PlainWorld.calls 9 8 7
        { (((PlainWorld.empty [] [5]).give 5 9 1).give 5 22 1).give 5 23 1 with
          prices := fun _ => 15 * 10 ^ 17 } trace s ∧
      s.totalValue PlainWorld.calls = .ok 3 ∧ s.checkBalance PlainWorld.calls 5 = .ok 3 ∧
        3 ≤ (s.vault.allAssets.map fun _ => 3 * (15 * 10 ^ 17) / 10 ^ 18).sum ∧
          (s.vault.allAssets.map fun _ => 3 * (15 * 10 ^ 17) / 10 ^ 18).sum ≤
            3 + s.vault.allAssets.length * s.vault.allStrategies.length := by
  have hsteps : Returns
      (execTrace (execFrom PlainWorld.calls) []
        (initialized 9 8 7
          { (((PlainWorld.empty [] [5]).give 5 9 1).give 5 22 1).give 5 23 1 with
            prices := fun _ => 15 * 10 ^ 17 })
        [(8, .supportAsset 5), (8, .approveStrategy 22), (8, .approveStrategy 23)])
      fun out => out.2.vault.allAssets = [5] ∧
        Returns (out.2.totalValue PlainWorld.calls) (· = 3) ∧
        Returns (out.2.checkBalance PlainWorld.calls 5) (· = 3) ∧
        Returns (PlainWorld.calls.price out.2.world out.2.vault.priceProvider 5)
          (· = 15 * 10 ^ 17) ∧
        Returns (getDecimals PlainWorld.calls out.2.world 5) (· = 18) := by decide
  obtain ⟨trace, s, hrun, hassets, ⟨_, hvalue, rfl⟩, ⟨_, hheld, rfl⟩, ⟨_, hprice, rfl⟩,
    ⟨_, hdecimals, rfl⟩⟩ := reached_of_returns hsteps
  refine ⟨trace, s, hrun, hvalue, hheld, ?_⟩
  refine @valuations_agree _ _ s 3 (fun _ => 3) (fun _ => 15 * 10 ^ 17) (fun _ => 18) hvalue
    fun asset hmem => ?_
  rw [show s.vault.allAssets = [5] from hassets, List.mem_singleton] at hmem
  subst hmem
  exact ⟨hheld, hprice, hdecimals⟩

end System

end InterestDollar
