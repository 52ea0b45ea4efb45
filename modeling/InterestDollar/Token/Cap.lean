import InterestDollar.Token.Conservation

/-!
# The cap on the supply

A mint checks the supply against `MAX_SUPPLY`, and `changeSupply` clamps the supply it is
asked for. It then sets the rate, rounded down, and stores what the rebasing credits are
worth at that rate, which can be more than it was asked for. The supply stays within the cap
exactly where a whole rate lies between the two: at which the credits are worth at least
what was asked for, and at most what the cap leaves for them.
-/

namespace InterestDollar

open Checked FixedPoint Transition

namespace Ledger

variable {n : ℕ} {s s' : Ledger} {call : Msg × Call}

/-- A rebase to a supply can be made at a whole rate at which the supply is within the
cap. -/
def RateUnderCap (s : Ledger) (newTotalSupply : ℕ) : Prop :=
  RateBetween fullScale (min newTotalSupply maxSupply - s.nonRebasingSupply)
    (maxSupply - s.nonRebasingSupply) s.rebasingCredits

instance (s : Ledger) (newTotalSupply : ℕ) : Decidable (s.RateUnderCap newTotalSupply) :=
  inferInstanceAs (Decidable (RateBetween _ _ _ _))

/-- A call is no rebase, or asks for the supply there is, or there is a rate for it under the
cap. -/
def KeepsCap (s : Ledger) (call : Msg × Call) : Prop :=
  match call.2 with
  | .changeSupply newTotalSupply =>
      s.totalSupply = newTotalSupply ∨ s.RateUnderCap newTotalSupply
  | _ => True

instance (s : Ledger) (call : Msg × Call) : Decidable (s.KeepsCap call) :=
  match call with
  | (_, .changeSupply _) => inferInstanceAs (Decidable (_ ∨ _))
  | (_, .transfer _ _) | (_, .transferFrom _ _ _) | (_, .approve _ _)
  | (_, .increaseAllowance _ _) | (_, .decreaseAllowance _ _) | (_, .mint _ _) | (_, .burn _ _)
  | (_, .rebaseOptIn) | (_, .rebaseOptOut) => .isTrue trivial

theorem executeTransfer_totalSupply {isContract : Address → Bool} {fromAcc toAcc : Address}
    {v : ℕ} (hrate : 0 < s.rebasingCreditsPerToken)
    (hs : s.executeTransfer isContract fromAcc toAcc v = .ok s') :
    s'.totalSupply = s.totalSupply := by
  obtain ⟨-, -, -, rfl⟩ := (executeTransfer_eq_ok hrate).mp hs
  exact migrate_totalSupply.trans migrate_totalSupply

/-- A burn does not raise the supply. -/
theorem burn_totalSupply_le {msg : Msg} {account : Address} {amount : ℕ}
    (hs : s.burn msg account amount = .ok s') : s'.totalSupply ≤ s.totalSupply := by
  obtain ⟨-, hburn⟩ := burn_eq_ok.mp hs
  obtain ⟨-, ⟨-, rfl⟩ | ⟨-, -, -, rfl⟩⟩ := burnFrom_eq_ok.mp hburn
  · exact le_rfl
  · simp only [subSupply, dropDust_totalSupply, debit_totalSupply, migrate_totalSupply]
    exact Nat.sub_le _ _

/-- A mint ends below the cap. -/
theorem mint_totalSupply_lt {msg : Msg} {account : Address} {amount : ℕ}
    (hs : s.mint msg account amount = .ok s') : s'.totalSupply < maxSupply := by
  obtain ⟨-, hmint⟩ := mint_eq_ok.mp hs
  obtain ⟨-, -, hfits, rfl⟩ := mintTo_eq_ok.mp hmint
  exact hfits.supply

/-- A rebase within the cap ends within it exactly where there is a rate for it. -/
theorem changeSupply_cap_iff {msg : Msg} {newTotalSupply : ℕ} (hcap : s.totalSupply ≤ maxSupply)
    (hs : s.changeSupply msg newTotalSupply = .ok s') :
    s'.totalSupply ≤ maxSupply ↔ s.KeepsCap (msg, .changeSupply newTotalSupply) := by
  obtain ⟨-, -, ⟨heq, rfl⟩ | ⟨hne, hfits, rfl⟩⟩ := changeSupply_eq_ok.mp hs
  · exact iff_of_true hcap (.inl heq)
  · have hcovers : s.nonRebasingSupply ≤ maxSupply := hfits.covers.trans (min_le_right _ _)
    have hrate : s.RateUnderCap newTotalSupply ↔
        worth fullScale (s.rebasedRate newTotalSupply) s.rebasingCredits ≤
          maxSupply - s.nonRebasingSupply := (worth_at_rate_le_iff hfits.rate).symm
    simp only [KeepsCap, hne, false_or]
    rw [hrate, Nat.le_sub_iff_add_le hcovers]
    rfl

/-- One call of a token within its cap leaves it there exactly where the call keeps the
cap. -/
theorem exec_cap_iff (hc : Conserved n s) (hcap : s.totalSupply ≤ maxSupply)
    (hs : s.exec call = .ok s') : s'.totalSupply ≤ maxSupply ↔ s.KeepsCap call := by
  obtain ⟨msg, call⟩ := call
  cases call with
  | changeSupply newTotalSupply => exact changeSupply_cap_iff hcap hs
  | mint account amount => exact iff_of_true (mint_totalSupply_lt hs).le trivial
  | burn account amount => exact iff_of_true ((burn_totalSupply_le hs).trans hcap) trivial
  | transfer toAcc v =>
      obtain ⟨-, -, -, hmove⟩ := transfer_eq_ok.mp hs
      exact iff_of_true ((executeTransfer_totalSupply hc.rate_pos hmove).le.trans hcap) trivial
  | transferFrom fromAcc toAcc v =>
      obtain ⟨-, -, -, -, hmove⟩ := transferFrom_eq_ok.mp hs
      have hsame := executeTransfer_totalSupply (s := s.setAllowance _ _ _) hc.rate_pos hmove
      exact iff_of_true (hsame.le.trans hcap) trivial
  | approve spender value =>
      obtain rfl := approve_eq_ok.mp hs
      exact iff_of_true hcap trivial
  | increaseAllowance spender addedValue =>
      obtain ⟨-, rfl⟩ := increaseAllowance_eq_ok.mp hs
      exact iff_of_true hcap trivial
  | decreaseAllowance spender subtractedValue =>
      obtain rfl := decreaseAllowance_eq_ok.mp hs
      exact iff_of_true hcap trivial
  | rebaseOptIn =>
      obtain ⟨-, -, rfl⟩ := rebaseOptIn_eq_ok.mp hs
      exact iff_of_true (migrate_totalSupply.le.trans hcap) trivial
  | rebaseOptOut =>
      obtain ⟨-, -, rfl⟩ := rebaseOptOut_eq_ok.mp hs
      exact iff_of_true (migrate_totalSupply.le.trans hcap) trivial

/-- Throughout a run the supply is at most `MAX_SUPPLY` exactly where every rebase of the
run to another supply finds a whole rate under the cap. -/
theorem supply_capped_iff {vaultAddress : Address} {trace : List (Ledger × (Msg × Call))}
    (h : Reached vaultAddress trace s) :
    ((∀ e ∈ trace, e.1.totalSupply ≤ maxSupply) ∧ s.totalSupply ≤ maxSupply) ↔
      ∀ e ∈ trace, e.1.KeepsCap e.2 :=
  Run.forall_iff (fun s => ∃ n, Conserved n s) (fun s => s.totalSupply ≤ maxSupply) KeepsCap
    ⟨0, conserved_initialized vaultAddress⟩ (Nat.zero_le _)
    (fun _ _ _ ⟨_, hc⟩ hs => ⟨_, hc.exec hs⟩)
    (fun _ _ _ ⟨_, hc⟩ hcap hs => exec_cap_iff hc hcap hs) h

/-- A rebase from 2 to 3 tokens. -/
theorem supply_capped_small :
    ∃ trace s, Reached 9 trace s ∧ s.totalSupply = 3 ∧ s.totalSupply ≤ maxSupply := by
  have hcalls : Returns
      (execTrace exec [] (initialized 9)
        [(⟨9, fun _ => false⟩, .mint 1 2), (⟨9, fun _ => false⟩, .changeSupply 3)])
      fun out => out.2.totalSupply = 3 ∧ ∀ e ∈ out.1, e.1.KeepsCap e.2 := by decide
  obtain ⟨trace, s, hrun, hsupply, hkeeps⟩ := reached_of_returns hcalls
  exact ⟨trace, s, hrun, hsupply, ((supply_capped_iff hrun).mpr hkeeps).2⟩

/-- At 400 tokens, a rebase to the cap rounds the rate down to 1 credit for `10 ^ 18` tokens,
and the supply ends at `4 * 10 ^ 38`. -/
theorem supply_above_cap :
    ∃ trace s, Reached 9 trace s ∧ s.totalSupply = 4 * 10 ^ 38 ∧ maxSupply < s.totalSupply := by
  have hcalls : Returns
      (execTrace exec [] (initialized 9)
        [(⟨9, fun _ => false⟩, .mint 1 (400 * 10 ^ 18)),
          (⟨9, fun _ => false⟩, .changeSupply maxSupply)])
      fun out => out.2.totalSupply = 4 * 10 ^ 38 ∧ maxSupply < out.2.totalSupply := by decide
  obtain ⟨trace, s, hrun, hsupply, hcap⟩ := reached_of_returns hcalls
  exact ⟨trace, s, hrun, hsupply, hcap⟩

end Ledger

end InterestDollar
