import InterestDollar.Vault.Registry
import Mathlib.Algebra.BigOperators.Group.List.Basic

/-!
# What the vault counts

The loops of `totalValue` and `checkBalance` go over the lists of the registries and add
up what they read. The lists hold the supported assets and the approved strategies
without repetitions, so what the vault counts is a sum over exactly those: every asset
and every strategy once.
-/

namespace InterestDollar

open Checked Transition

/-- What a read returns, and zero where it fails. -/
def amountOf (x : Except Revert ℕ) : ℕ := x.toOption.getD 0

theorem amountOf_eq {x : Except Revert ℕ} {n : ℕ} (h : x = .ok n) : amountOf x = n := by
  subst h
  rfl

/-- A loop that adds what it reads of each element returns the sum of the reads. -/
theorem foldlM_eq_add_sum {α : Type} {f : ℕ → α → Except Revert ℕ} (read : α → Except Revert ℕ)
    (hf : ∀ total a total', f total a = .ok total' → ∃ n, read a = .ok n ∧ total' = total + n)
    {l : List α} {total total' : ℕ} (h : l.foldlM f total = .ok total') :
    (∀ a ∈ l, read a = .ok (amountOf (read a))) ∧
      total' = total + (l.map fun a => amountOf (read a)).sum := by
  induction l generalizing total with
  | nil => exact ⟨(fun _ hmem => nomatch hmem), (pure_eq_ok.mp h).symm⟩
  | cons a l ih =>
      rw [List.foldlM_cons] at h
      obtain ⟨next, hnext, h⟩ := bind_eq_ok.mp h
      obtain ⟨n, hread, rfl⟩ := hf total a next hnext
      obtain ⟨hreads, hsum⟩ := ih h
      refine ⟨List.forall_mem_cons.mpr ⟨by rw [amountOf_eq hread, hread], hreads⟩, ?_⟩
      rw [hsum, List.map_cons, List.sum_cons, amountOf_eq hread]
      omega

/-- The sum over a list that holds what a map marks, without repetitions. -/
theorem sum_map_eq_sum_marked {marked : Address → Bool} {l : List Address} (hnodup : l.Nodup)
    (h : ∀ a, marked a = true ↔ a ∈ l) (f : Address → ℕ) :
    (l.map f).sum = ∑ a with marked a = true, f a := by
  have hset : Finset.univ.filter (fun a => marked a = true) = l.toFinset := by
    ext a
    simp [h a]
  rw [hset, List.sum_toFinset f hnodup]

namespace System

variable {ω : Type} {W : World ω} {s s' : System ω}

/-- The value of what the vault itself holds of an asset. -/
def valueInVault (W : World ω) (s : System ω) (asset : Address) : Except Revert ℕ := do
  let balance ← W.balanceOf s.world asset s.vault.self
  s.assetValueFromOracle W asset balance

/-- The value of what a strategy has of an asset, if it supports the asset. -/
def valueInStrategy (W : World ω) (s : System ω) (strategy asset : Address) :
    Except Revert ℕ := do
  let supported ← W.supportsAsset s.world strategy asset
  if supported then do
    let balance ← W.checkBalance s.world strategy asset
    s.assetValueFromOracle W asset balance
  else return 0

/-- What a strategy has of an asset, if it supports the asset. -/
def balanceInStrategy (W : World ω) (s : System ω) (strategy asset : Address) :
    Except Revert ℕ := do
  let supported ← W.supportsAsset s.world strategy asset
  if supported then W.checkBalance s.world strategy asset else return 0

/-! ## The loops as sums -/

theorem addValue_eq_ok {asset : Address} {balance value value' : ℕ}
    (h : s.addValue W asset balance value = .ok value') :
    ∃ n, s.assetValueFromOracle W asset balance = .ok n ∧ value' = value + n := by
  obtain ⟨n, hn, h⟩ := bind_eq_ok.mp h
  refine ⟨n, hn, ?_⟩
  split_ifs at h with hpos
  · exact (SafeMath.add_eq_ok.mp h).2
  · have hzero := pure_eq_ok.mp h
    omega

theorem totalValueInVault_eq_ok {value : ℕ} (h : s.totalValueInVault W = .ok value) :
    (∀ asset ∈ s.vault.allAssets,
      s.valueInVault W asset = .ok (amountOf (s.valueInVault W asset))) ∧
      value = (s.vault.allAssets.map fun asset => amountOf (s.valueInVault W asset)).sum := by
  obtain ⟨hreads, hsum⟩ := foldlM_eq_add_sum (s.valueInVault W) (fun total asset total' hstep => by
    obtain ⟨balance, hbalance, hstep⟩ := bind_eq_ok.mp hstep
    obtain ⟨n, hn, rfl⟩ := addValue_eq_ok hstep
    exact ⟨n, bind_eq_ok.mpr ⟨balance, hbalance, hn⟩, rfl⟩) h
  exact ⟨hreads, hsum.trans (Nat.zero_add _)⟩

theorem totalValueInStrategy_eq_ok {strategy : Address} {value : ℕ}
    (h : s.totalValueInStrategy W strategy = .ok value) :
    (∀ asset ∈ s.vault.allAssets,
      s.valueInStrategy W strategy asset = .ok (amountOf (s.valueInStrategy W strategy asset))) ∧
      value =
        (s.vault.allAssets.map fun asset => amountOf (s.valueInStrategy W strategy asset)).sum := by
  obtain ⟨hreads, hsum⟩ := foldlM_eq_add_sum (s.valueInStrategy W strategy)
    (fun total asset total' hstep => by
      obtain ⟨supported, hsupported, hstep⟩ := bind_eq_ok.mp hstep
      cases supported with
      | true =>
          obtain ⟨balance, hbalance, hstep⟩ := bind_eq_ok.mp hstep
          obtain ⟨n, hn, rfl⟩ := addValue_eq_ok hstep
          have hread : s.valueInStrategy W strategy asset = .ok n :=
            bind_eq_ok.mpr ⟨true, hsupported, bind_eq_ok.mpr ⟨balance, hbalance, hn⟩⟩
          exact ⟨n, hread, rfl⟩
      | false =>
          have hsame := pure_eq_ok.mp hstep
          exact ⟨0, bind_eq_ok.mpr ⟨false, hsupported, rfl⟩, hsame.symm⟩) h
  exact ⟨hreads, hsum.trans (Nat.zero_add _)⟩

/-- The value of a strategy is a sum over the assets, and the total over the strategies is
a sum of such sums. -/
theorem totalValueInStrategies_eq_ok {value : ℕ} (h : s.totalValueInStrategies W = .ok value) :
    (∀ strategy ∈ s.vault.allStrategies, ∀ asset ∈ s.vault.allAssets,
      s.valueInStrategy W strategy asset = .ok (amountOf (s.valueInStrategy W strategy asset))) ∧
      value = (s.vault.allStrategies.map fun strategy =>
        (s.vault.allAssets.map fun asset =>
          amountOf (s.valueInStrategy W strategy asset)).sum).sum := by
  obtain ⟨hreads, hsum⟩ := foldlM_eq_add_sum (s.totalValueInStrategy W)
    (fun total strategy total' hstep => by
      obtain ⟨n, hn, hstep⟩ := bind_eq_ok.mp hstep
      exact ⟨n, hn, (SafeMath.add_eq_ok.mp hstep).2⟩) h
  have hassets := fun strategy hmem => totalValueInStrategy_eq_ok (hreads strategy hmem)
  refine ⟨fun strategy hmem => (hassets strategy hmem).1, ?_⟩
  rw [hsum, Nat.zero_add]
  exact congrArg List.sum (List.map_congr_left fun strategy hmem => (hassets strategy hmem).2)

theorem checkBalance_eq_ok {asset : Address} {balance : ℕ}
    (h : s.checkBalance W asset = .ok balance) :
    ∃ held, W.balanceOf s.world asset s.vault.self = .ok held ∧
      (∀ strategy ∈ s.vault.allStrategies,
        s.balanceInStrategy W strategy asset =
          .ok (amountOf (s.balanceInStrategy W strategy asset))) ∧
      balance = held + (s.vault.allStrategies.map fun strategy =>
        amountOf (s.balanceInStrategy W strategy asset)).sum := by
  obtain ⟨held, hheld, h⟩ := bind_eq_ok.mp h
  refine ⟨held, hheld, foldlM_eq_add_sum (fun x => s.balanceInStrategy W x asset) ?_ h⟩
  intro total strategy total' hstep
  obtain ⟨supported, hsupported, hstep⟩ := bind_eq_ok.mp hstep
  cases supported with
  | true =>
      obtain ⟨n, hn, hstep⟩ := bind_eq_ok.mp hstep
      exact ⟨n, bind_eq_ok.mpr ⟨true, hsupported, hn⟩, (SafeMath.add_eq_ok.mp hstep).2⟩
  | false => exact ⟨0, bind_eq_ok.mpr ⟨false, hsupported, rfl⟩, (pure_eq_ok.mp hstep).symm⟩

theorem totalValue_eq_ok {value : ℕ} (h : s.totalValue W = .ok value) :
    ∃ inVault inStrategies, s.totalValueInVault W = .ok inVault ∧
      s.totalValueInStrategies W = .ok inStrategies ∧ value = inVault + inStrategies := by
  obtain ⟨inVault, hvault, h⟩ := bind_eq_ok.mp h
  obtain ⟨inStrategies, hstrategies, h⟩ := bind_eq_ok.mp h
  exact ⟨inVault, inStrategies, hvault, hstrategies, (SafeMath.add_eq_ok.mp h).2⟩

/-! ## The registries in a run -/

/-- A strategy that is removed was approved. -/
theorem removeStrategy_approved {sender strategy : Address}
    (h : s.removeStrategy W sender strategy = .ok s') : s.vault.strategies strategy = true := by
  obtain ⟨_, -, h⟩ := bind_eq_ok.mp h
  obtain ⟨_, happroved, -⟩ := bind_eq_ok.mp h
  exact require_eq_ok.mp happroved

variable {self governor priceProvider : Address} {world : ω}
  {trace : List (System ω × (Address × Action ω))}

/-- In every state a run reaches, the lists hold exactly the supported assets and the
approved strategies, without repetitions, and removing a strategy takes exactly that one
off. So the total value is the sum of what the vault has of each supported asset and of
what each approved strategy has of it, and the balance of an asset is the sum over the
vault and each approved strategy. -/
theorem registry_counts_once (h : Reached W self governor priceProvider world trace s) :
    (s.vault.allAssets.Nodup ∧ s.vault.allStrategies.Nodup ∧
      (∀ asset, asset ∈ s.vault.allAssets ↔ s.vault.assets asset = true) ∧
      ∀ strategy, strategy ∈ s.vault.allStrategies ↔ s.vault.strategies strategy = true) ∧
    (∀ sender strategy s', s.removeStrategy W sender strategy = .ok s' →
      strategy ∈ s.vault.allStrategies ∧ s'.vault.allAssets = s.vault.allAssets ∧
        ∀ x, x ∈ s'.vault.allStrategies ↔ x ∈ s.vault.allStrategies ∧ x ≠ strategy) ∧
    (∀ value, s.totalValue W = .ok value →
      (∀ asset, s.vault.assets asset = true → Succeeds (s.valueInVault W asset) ∧
        ∀ strategy, s.vault.strategies strategy = true →
          Succeeds (s.valueInStrategy W strategy asset)) ∧
      value = (∑ asset with s.vault.assets asset = true, amountOf (s.valueInVault W asset)) +
        ∑ strategy with s.vault.strategies strategy = true,
          ∑ asset with s.vault.assets asset = true,
            amountOf (s.valueInStrategy W strategy asset)) ∧
    ∀ asset balance, s.checkBalance W asset = .ok balance →
      Succeeds (W.balanceOf s.world asset s.vault.self) ∧
      (∀ strategy, s.vault.strategies strategy = true →
        Succeeds (s.balanceInStrategy W strategy asset)) ∧
      balance = amountOf (W.balanceOf s.world asset s.vault.self) +
        ∑ strategy with s.vault.strategies strategy = true,
          amountOf (s.balanceInStrategy W strategy asset) := by
  have hr := h.sound.registered
  have hassets := fun f => sum_map_eq_sum_marked hr.nodupAssets hr.assets f
  have hstrategies := fun f => sum_map_eq_sum_marked hr.nodupStrategies hr.strategies f
  refine ⟨⟨hr.nodupAssets, hr.nodupStrategies, fun a => (hr.assets a).symm,
    fun x => (hr.strategies x).symm⟩, ?_, ?_, ?_⟩
  · intro sender strategy s' hs
    have hvault := (removeStrategy_eq_ok hs).vault
    refine ⟨(hr.strategies strategy).mp (removeStrategy_approved hs), by rw [hvault]; rfl, ?_⟩
    intro x
    rw [hvault, and_comm]
    exact hr.mem_dropStrategy
  · intro value hvalue
    obtain ⟨inVault, inStrategies, hvault, hinside, rfl⟩ := totalValue_eq_ok hvalue
    obtain ⟨hreads, rfl⟩ := totalValueInVault_eq_ok hvault
    obtain ⟨hinner, rfl⟩ := totalValueInStrategies_eq_ok hinside
    refine ⟨fun asset ha => ?_, ?_⟩
    · have hmem := (hr.assets asset).mp ha
      refine ⟨succeeds_iff.mpr ⟨_, hreads asset hmem⟩, fun strategy hx => ?_⟩
      exact succeeds_iff.mpr ⟨_, hinner strategy ((hr.strategies strategy).mp hx) asset hmem⟩
    · simp only [hassets, hstrategies]
  · intro asset balance hbalance
    obtain ⟨held, hheld, hreads, rfl⟩ := checkBalance_eq_ok hbalance
    refine ⟨succeeds_iff.mpr ⟨_, hheld⟩, fun strategy hx => ?_, ?_⟩
    · exact succeeds_iff.mpr ⟨_, hreads strategy ((hr.strategies strategy).mp hx)⟩
    · rw [amountOf_eq hheld, hstrategies]

/-- Three strategies, of which the first is removed and the last takes its place on the
list: the funds of the other two are still counted. -/
theorem registry_counts_once_removed :
    ∃ trace s, Reached PlainWorld.calls 9 8 7
        (((PlainWorld.empty [] [5]).give 5 22 10).give 5 23 4) trace s ∧
      s.vault.allStrategies = [23, 22] ∧ (∀ x, s.vault.strategies x = true ↔ x = 23 ∨ x = 22) ∧
        (∑ x with s.vault.strategies x = true,
          amountOf (s.balanceInStrategy PlainWorld.calls x 5)) = 14 := by
  have hsteps : Returns
      (execTrace (execFrom PlainWorld.calls) []
        (initialized 9 8 7 (((PlainWorld.empty [] [5]).give 5 22 10).give 5 23 4))
        [(8, .supportAsset 5), (8, .approveStrategy 21), (8, .approveStrategy 22),
          (8, .approveStrategy 23), (8, .removeStrategy 21)])
      fun out => out.2.vault.allStrategies = [23, 22] ∧
        Returns (out.2.checkBalance PlainWorld.calls 5) (· = 14) ∧
        amountOf (PlainWorld.calls.balanceOf out.2.world 5 out.2.vault.self) = 0 := by decide
  obtain ⟨trace, s, hrun, hlist, ⟨balance, hbalance, rfl⟩, hheld⟩ := reached_of_returns hsteps
  obtain ⟨⟨-, -, -, hiff⟩, -, -, hcounts⟩ := registry_counts_once hrun
  refine ⟨trace, s, hrun, hlist, fun x => ?_, ?_⟩
  · rw [← hiff x, hlist]
    simp
  · have hsum := (hcounts 5 14 hbalance).2.2
    have hnone : amountOf (PlainWorld.calls.balanceOf s.world 5 s.vault.self) = 0 := hheld
    rw [hnone, Nat.zero_add] at hsum
    exact hsum.symm

end System

end InterestDollar
