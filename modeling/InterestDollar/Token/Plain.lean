import InterestDollar.Token.Burning
import InterestDollar.Transition.Approximation
import Mathlib.Algebra.BigOperators.Pi
import Mathlib.Algebra.Order.Group.Int
import Mathlib.Algebra.Order.BigOperators.Group.Finset

/-!
# The token against a ledger that does not round

Between two rebases the token is meant to be a plain ledger: an amount that is sent leaves one
account and arrives at the other, a mint adds to one account and to the supply, a burn takes
from both, and to opt in or out moves nothing. `Plain` is that ledger. The token follows it, with
the same supply, and every balance within the roundings of the calls the account takes part in,
each of them worth at most one credit.
-/

namespace InterestDollar

open Checked FixedPoint Transition

/-- What the accounts hold, and the supply. -/
structure Plain where
  balance : Address → ℤ
  supply : ℤ

namespace Plain

/-- What a call adds to each account. -/
def flow (call : Msg × Ledger.Call) : Address → ℤ :=
  match call.2 with
  | .transfer toAcc value => Pi.single toAcc (value : ℤ) - Pi.single call.1.sender (value : ℤ)
  | .transferFrom fromAcc toAcc value =>
      Pi.single toAcc (value : ℤ) - Pi.single fromAcc (value : ℤ)
  | .mint account amount => Pi.single account (amount : ℤ)
  | .burn account amount => -Pi.single account (amount : ℤ)
  | _ => 0

/-- What a call adds to the supply. -/
def issued (call : Msg × Ledger.Call) : ℤ :=
  match call.2 with
  | .mint _ amount => amount
  | .burn _ amount => -amount
  | _ => 0

/-- One call. A rebase is not for a plain ledger and leaves it alone. -/
def exec (p : Plain) (call : Msg × Ledger.Call) : Plain :=
  ⟨p.balance + flow call, p.supply + issued call⟩

/-- The steps of the plain ledger. -/
def Steps (p : Plain) (call : Msg × Ledger.Call) (p' : Plain) : Prop := p.exec call = p'

theorem sum_flow (call : Msg × Ledger.Call) : ∑ a, flow call a = issued call := by
  obtain ⟨msg, call⟩ := call
  cases call <;> simp [flow, issued]

/-- What the supply is above all the balances together. -/
def gap (p : Plain) : ℤ := p.supply - ∑ a, p.balance a

theorem Steps.gap_eq {p p' : Plain} {call : Msg × Ledger.Call} (h : p.Steps call p') :
    p'.gap = p.gap := by
  cases h
  simp [gap, exec, Finset.sum_add_distrib, sum_flow]

/-- Two ledgers of one supply have gaps as close as their balances. -/
theorem abs_gap_sub_le {p q : Plain} (hsupply : p.supply = q.supply) {error : Address → ℤ}
    (h : ∀ a, |p.balance a - q.balance a| ≤ error a) : |p.gap - q.gap| ≤ ∑ a, error a := by
  have hgaps : p.gap - q.gap = -∑ a, (p.balance a - q.balance a) := by
    rw [gap, gap, hsupply, Finset.sum_sub_distrib]
    ring
  rw [hgaps, abs_neg]
  exact (Finset.abs_sum_le_sum_abs _ _).trans (Finset.sum_le_sum fun a _ => h a)

end Plain

namespace Ledger

/-- A call of `changeSupply`. -/
def Call.Rebases : Call → Prop
  | .changeSupply _ => True
  | _ => False

/-- What a call can round off or add at an account: the worth of a credit, where the account
takes part in the call. -/
def rounding (s : Ledger) (call : Msg × Call) (a : Address) : ℕ :=
  match call.2 with
  | .transfer toAcc _ =>
      if call.1.sender ≠ toAcc ∧ (a = call.1.sender ∨ a = toAcc) then s.creditWorth a else 0
  | .transferFrom fromAcc toAcc _ =>
      if fromAcc ≠ toAcc ∧ (a = fromAcc ∨ a = toAcc) then s.creditWorth a else 0
  | .mint account _ => if a = account then s.creditWorth a else 0
  | .burn account _ => if a = account then s.creditWorth a else 0
  | .rebaseOptIn => if a = call.1.sender then fullScale ⌈/⌉ s.rebasingCreditsPerToken else 0
  | _ => 0

/-- What a ledger stands for without its credits. -/
def plain (s : Ledger) : Plain := ⟨fun a => s.balance a, s.totalSupply⟩

section Step

variable {s s' : Ledger} {isContract : Address → Bool} {msg : Msg} {call : Msg × Call}
  {a x fromAcc toAcc : Address} {v n : ℕ}

/-- A change of a balance is the flow up to an error. -/
def Drifts (s s' : Ledger) (x : Address) (flow : ℤ) (error : ℕ) : Prop :=
  |(s'.balance x : ℤ) - (s.balance x + flow)| ≤ error

theorem Drifts.of_eq (h : s'.balance x = s.balance x) : Drifts s s' x 0 v := by
  simp [Drifts, h]

theorem creditWorth_migrate : (s.migrate isContract a).creditWorth x = s.creditWorth x := by
  rw [creditWorth, creditWorth, migrate_creditsPerToken]

theorem TransferEffect.drifts (h : TransferEffect s fromAcc toAcc v s') (x : Address) :
    Drifts s s' x ((Pi.single toAcc (v : ℤ) - Pi.single fromAcc (v : ℤ) : Address → ℤ) x)
      (if fromAcc ≠ toAcc ∧ (x = fromAcc ∨ x = toAcc) then s.creditWorth x else 0) := by
  by_cases hself : fromAcc = toAcc
  · simpa [hself] using Drifts.of_eq (v := 0) (congrFun (h.toSelf hself) x)
  · by_cases hfrom : x = fromAcc
    · obtain ⟨hless, hmost⟩ := h.sent hself
      simp only [hfrom, hself, ne_eq, not_false_eq_true, true_or, and_self, if_true, Drifts,
        Pi.sub_apply, Pi.single_eq_same, Pi.single_eq_of_ne hself, abs_le]
      omega
    · by_cases hto : x = toAcc
      · obtain ⟨hleast, hmost⟩ := h.received hself
        have hne : toAcc ≠ fromAcc := Ne.symm hself
        simp only [hto, hself, ne_eq, not_false_eq_true, or_true, and_self, if_true, Drifts,
          Pi.sub_apply, Pi.single_eq_same, Pi.single_eq_of_ne hne, abs_le]
        omega
      · simpa [hfrom, hto] using Drifts.of_eq (v := 0) (h.others x hfrom hto)

/-- Crediting one account drifts by less than one of its credits. -/
theorem credit_drifts (hrate : 0 < s.rebasingCreditsPerToken) (x : Address) :
    Drifts s (s.credit a v) x ((Pi.single a (v : ℤ) : Address → ℤ) x)
      (if x = a then s.creditWorth x else 0) := by
  by_cases hx : x = a
  · subst hx
    have hleast := add_le_credit_balance (a := x) (v := v) hrate
    have hmost := credit_balance_le (a := x) (v := v) hrate
    simp only [Drifts, Pi.single_eq_same, if_true, abs_le]
    omega
  · simpa [hx] using Drifts.of_eq (v := 0) (credit_sameOff.balance_eq hx)

/-- One credit that is left over is worth at most a credit. -/
theorem debit_balance_le_burned (hrate : 0 < s.rebasingCreditsPerToken)
    (henough : s.creditsFor a v ≤ s.creditBalances a) :
    (s.debit a v).balance a ≤ (s.burned a v).balance a + s.creditWorth a := by
  have hpos : 0 < s.creditsPerToken a := creditsPerToken_pos hrate a
  rw [burned_balance_self henough, balance, debit_creditsPerToken, debit_creditBalances_self,
    leftOver]
  split_ifs with hone
  · have hsucc : worth fullScale (s.creditsPerToken a) (0 + 1) ≤ _ := worth_succ_le_ceil hpos 0
    rwa [hone, Nat.add_sub_cancel_left]
  · exact Nat.le_add_right _ _

/-- So does a burn, where the last credit goes with the others. -/
theorem burned_drifts (hrate : 0 < s.rebasingCreditsPerToken)
    (henough : s.creditsFor a v ≤ s.creditBalances a) (x : Address) :
    Drifts s (s.burned a v) x ((-Pi.single a (v : ℤ) : Address → ℤ) x)
      (if x = a then s.creditWorth x else 0) := by
  by_cases hx : x = a
  · subst hx
    have hlast := debit_balance_le_burned hrate henough
    have hleast := debit_balance_add_le hrate henough
    have hmost := balance_le_debit_add hrate henough
    have hdust : (s.burned x v).balance x ≤ (s.debit x v).balance x := burned_balance_le
    simp only [Drifts, Pi.neg_apply, Pi.single_eq_same, if_true, abs_le]
    omega
  · simpa [hx] using Drifts.of_eq (v := 0) (burned_sameOff.balance_eq hx)

theorem OptInEffect.drifts (h : OptInEffect s a s') (x : Address) :
    Drifts s s' x 0 (if x = a then fullScale ⌈/⌉ s.rebasingCreditsPerToken else 0) := by
  by_cases hx : x = a
  · subst hx
    have hmost := h.atMost
    have hleast := h.atLeast
    simp only [Drifts, if_true, abs_le]
    omega
  · simpa [hx] using Drifts.of_eq (v := 0) (h.others x hx)

theorem Drifts.of_migrate {flow : ℤ} (h : Drifts (s.migrate isContract a) s' x flow n) :
    Drifts s s' x flow n := by
  simpa [Drifts] using h

theorem mint_drifts (hrate : 0 < s.rebasingCreditsPerToken) (hs : s.mint msg a v = .ok s')
    (x : Address) :
    Drifts s s' x ((Pi.single a (v : ℤ) : Address → ℤ) x)
      (if x = a then s.creditWorth x else 0) := by
  have hrate' : 0 < (s.migrate msg.isContract a).rebasingCreditsPerToken := by
    simpa using hrate
  rw [mint_eq_credited hs, ← creditWorth_migrate]
  exact (credit_drifts hrate' x).of_migrate

theorem burn_drifts (hrate : 0 < s.rebasingCreditsPerToken) (hs : s.burn msg a v = .ok s')
    (x : Address) :
    Drifts s s' x ((-Pi.single a (v : ℤ) : Address → ℤ) x)
      (if x = a then s.creditWorth x else 0) := by
  by_cases hv : v = 0
  · subst hv
    rw [burn_zero hs]
    split_ifs <;> simp [Drifts]
  · have hrate' : 0 < (s.migrate msg.isContract a).rebasingCreditsPerToken := by
      simpa using hrate
    obtain ⟨hfits, rfl⟩ := burn_eq_burned hv hs
    rw [← creditWorth_migrate]
    exact (burned_drifts hrate' hfits.enough x).of_migrate

/-- A call that is no rebase moves every balance as the plain ledger does, up to its rounding. -/
theorem exec_drifts (hrate : 0 < s.rebasingCreditsPerToken) (hcall : ¬ call.2.Rebases)
    (hs : s.exec call = .ok s') (x : Address) :
    Drifts s s' x (Plain.flow call x) (s.rounding call x) := by
  obtain ⟨msg, call⟩ := call
  cases call with
  | transfer toAcc value =>
      obtain ⟨-, -, -, hmoved⟩ := transfer_eq_ok.mp hs
      exact (executeTransfer_effect hrate hmoved).drifts x
  | transferFrom fromAcc toAcc value =>
      obtain ⟨-, -, -, -, hmoved⟩ := transferFrom_eq_ok.mp hs
      have hrate' : 0 < (s.setAllowance fromAcc msg.sender
        (s.allowances fromAcc msg.sender - value)).rebasingCreditsPerToken := hrate
      exact (executeTransfer_effect hrate' hmoved).drifts x
  | approve spender value =>
      cases approve_eq_ok.mp hs
      exact .of_eq rfl
  | increaseAllowance spender value =>
      obtain ⟨-, rfl⟩ := increaseAllowance_eq_ok.mp hs
      exact .of_eq rfl
  | decreaseAllowance spender value =>
      cases decreaseAllowance_eq_ok.mp hs
      exact .of_eq rfl
  | mint account amount => exact mint_drifts hrate hs x
  | burn account amount => exact burn_drifts hrate hs x
  | rebaseOptIn => exact (rebaseOptIn_effect hrate hs).drifts x
  | rebaseOptOut =>
      obtain ⟨-, hfits, rfl⟩ := rebaseOptOut_eq_ok.mp hs
      refine .of_eq ?_
      rw [optOut_balance hfits.notFrozen, migrate_balance]
  | changeSupply newTotalSupply => exact absurd trivial hcall

/-- A call that is no rebase moves the supply as the plain ledger does. -/
theorem exec_issued (hrate : 0 < s.rebasingCreditsPerToken) (hcall : ¬ call.2.Rebases)
    (hs : s.exec call = .ok s') : (s'.totalSupply : ℤ) = s.totalSupply + Plain.issued call := by
  obtain ⟨msg, call⟩ := call
  cases call with
  | transfer toAcc value =>
      obtain ⟨-, -, -, hmoved⟩ := transfer_eq_ok.mp hs
      simp [Plain.issued, (executeTransfer_effect hrate hmoved).totalSupply]
  | transferFrom fromAcc toAcc value =>
      obtain ⟨-, -, -, -, hmoved⟩ := transferFrom_eq_ok.mp hs
      have hrate' : 0 < (s.setAllowance fromAcc msg.sender
        (s.allowances fromAcc msg.sender - value)).rebasingCreditsPerToken := hrate
      have hsame := (executeTransfer_effect hrate' hmoved).totalSupply
      simpa [Plain.issued, setAllowance] using hsame
  | approve spender value =>
      cases approve_eq_ok.mp hs
      simp [Plain.issued, setAllowance]
  | increaseAllowance spender value =>
      obtain ⟨-, rfl⟩ := increaseAllowance_eq_ok.mp hs
      simp [Plain.issued, setAllowance]
  | decreaseAllowance spender value =>
      cases decreaseAllowance_eq_ok.mp hs
      simp [Plain.issued, setAllowance]
  | mint account amount => simp [Plain.issued, mint_eq_credited hs, addSupply]
  | burn account amount =>
      by_cases hv : amount = 0
      · subst hv
        simp [Plain.issued, burn_zero hs]
      · obtain ⟨hfits, rfl⟩ := burn_eq_burned hv hs
        have hsupply := hfits.supply
        rw [migrate_totalSupply] at hsupply
        simp only [Plain.issued, burned_totalSupply, migrate_totalSupply]
        omega
  | rebaseOptIn => simp [Plain.issued, (rebaseOptIn_effect hrate hs).totalSupply]
  | rebaseOptOut =>
      obtain ⟨-, -, rfl⟩ := rebaseOptOut_eq_ok.mp hs
      simp [Plain.issued, optOut, freeze, setFrozenRate]
  | changeSupply newTotalSupply => exact absurd trivial hcall

end Step

/-! ## Runs -/

/-- The token at an error from a plain ledger. -/
structure Follows (error : Address → ℕ) (s : Ledger) (p : Plain) : Prop where
  conserved : ∃ n, Conserved n s
  supply : p.supply = s.totalSupply
  balance : ∀ a, |(s.balance a : ℤ) - p.balance a| ≤ error a

section Runs

variable {vaultAddress : Address} {earlier later : List (Ledger × (Msg × Call))} {s s' : Ledger}

theorem Follows.exec {error : Address → ℕ} {call : Msg × Call} {p : Plain}
    (h : Follows error s p) (hcall : ¬ call.2.Rebases) (hs : s.exec call = .ok s') :
    Follows (s.rounding call + error) s' (p.exec call) := by
  obtain ⟨n, hn⟩ := h.conserved
  refine ⟨⟨_, hn.exec hs⟩, ?_, fun a => ?_⟩
  · rw [exec_issued hn.rate_pos hcall hs, ← h.supply]
    rfl
  · have hdrift := exec_drifts hn.rate_pos hcall hs a
    have hbefore := h.balance a
    simp only [Drifts, Plain.exec, Pi.add_apply, abs_le] at hdrift hbefore ⊢
    push_cast
    omega

theorem Reached.follows (h : Reached vaultAddress earlier s) (hrun : s.RunFrom later s')
    (hcalls : ∀ e ∈ later, ¬ e.2.2.Rebases) :
    ∃ trace p, Run Plain.Steps s.plain trace p ∧ trace.map Prod.snd = later.map Prod.snd ∧
      Follows (later.map fun e => e.1.rounding e.2).sum s' p := by
  have h0 : Follows 0 s s.plain := ⟨⟨_, h.conserved⟩, rfl, by simp [plain]⟩
  exact Run.follows (fun _ call => ¬ call.2.Rebases) (fun e => e.1.rounding e.2) Follows
    (fun _ _ call _ p hclose hcall hs => ⟨p.exec call, rfl, hclose.exec hcall hs⟩) h0 hrun hcalls

theorem Follows.balance_le {p : Plain}
    (h : Follows (later.map fun e => e.1.rounding e.2).sum s' p) (a : Address) :
    |(s'.balance a : ℤ) - p.balance a| ≤
      ((later.map fun e => e.1.rounding e.2 a).sum : ℕ) := by
  simpa [Pi.list_sum_apply, List.map_map, Function.comp_def] using h.balance a

/-- A rebased ledger, then a transfer to a contract, a burn, and an opting in. -/
theorem exists_unrebased :
    ∃ earlier s later s', Reached 9 earlier s ∧ s.RunFrom later s' ∧ later.length = 3 ∧
      ∀ e ∈ later, ¬ e.2.2.Rebases := by
  have hcalls : Returns
      (execTrace exec [] (initialized 9)
        [(⟨9, fun _ => false⟩, .mint 1 4), (⟨9, fun _ => false⟩, .mint 2 2),
          (⟨9, fun _ => false⟩, .changeSupply 7)])
      fun out => Returns (execTrace exec [] out.2
        [(⟨1, fun a => a = 2⟩, .transfer 2 3), (⟨9, fun _ => false⟩, .burn 1 1),
          (⟨2, fun _ => false⟩, .rebaseOptIn)])
        fun out' => (out'.1.map fun e => e.2.2) =
          [.rebaseOptIn, .burn 1 1, .transfer 2 3] := by decide
  obtain ⟨earlier, s, hreached, ⟨later, s'⟩, hrest, hmade⟩ := reached_of_returns hcalls
  refine ⟨earlier, s, later, s', hreached, run_of_execTrace .nil hrest, ?_, fun e he => ?_⟩
  · simpa using congrArg List.length hmade
  · have hmem : e.2.2 ∈ [Call.rebaseOptIn, .burn 1 1, .transfer 2 3] :=
      hmade ▸ List.mem_map_of_mem he
    simp only [List.mem_cons, List.not_mem_nil, or_false] at hmem
    rcases hmem with heq | heq | heq <;> exact heq ▸ id

/-- Over any calls without a rebase, from any state a run reaches, the token follows the plain
ledger: the supply is the same, and a balance is off by at most the roundings of the calls that
its account takes part in. -/
theorem follows_plain (h : Reached vaultAddress earlier s) (hrun : s.RunFrom later s')
    (hcalls : ∀ e ∈ later, ¬ e.2.2.Rebases) :
    ∃ trace p, Run Plain.Steps s.plain trace p ∧ trace.map Prod.snd = later.map Prod.snd ∧
      p.supply = s'.totalSupply ∧ ∀ a, |(s'.balance a : ℤ) - p.balance a| ≤
        ((later.map fun e => e.1.rounding e.2 a).sum : ℕ) := by
  obtain ⟨trace, p, hplain, hlabels, hfollows⟩ := h.follows hrun hcalls
  exact ⟨trace, p, hplain, hlabels, hfollows.supply, hfollows.balance_le⟩

theorem follows_plain_rebased :
    ∃ earlier s later s', Reached 9 earlier s ∧ s.RunFrom later s' ∧ later.length = 3 ∧
      ∃ trace p, Run Plain.Steps s.plain trace p ∧ trace.map Prod.snd = later.map Prod.snd ∧
        p.supply = s'.totalSupply ∧ ∀ a, |(s'.balance a : ℤ) - p.balance a| ≤
          ((later.map fun e => e.1.rounding e.2 a).sum : ℕ) := by
  obtain ⟨earlier, s, later, s', hreached, hrun, hlength, hnone⟩ := exists_unrebased
  exact ⟨earlier, s, later, s', hreached, hrun, hlength, follows_plain hreached hrun hnone⟩

/-- What the balances fall short of the supply moves by no more than all that was rounded. -/
theorem unrebased_gap (h : Reached vaultAddress earlier s) (hrun : s.RunFrom later s')
    (hcalls : ∀ e ∈ later, ¬ e.2.2.Rebases) :
    |s'.plain.gap - s.plain.gap| ≤
      ∑ a, (((later.map fun e => e.1.rounding e.2 a).sum : ℕ) : ℤ) := by
  obtain ⟨trace, p, hplain, -, hfollows⟩ := h.follows hrun hcalls
  have hgap : p.gap = s.plain.gap :=
    hplain.invariant (fun p => p.gap = s.plain.gap) rfl fun _ _ _ hp hstep => hstep.gap_eq.trans hp
  rw [← hgap]
  exact Plain.abs_gap_sub_le hfollows.supply.symm hfollows.balance_le

theorem unrebased_gap_rebased :
    ∃ earlier s later s', Reached 9 earlier s ∧ s.RunFrom later s' ∧ later.length = 3 ∧
      |s'.plain.gap - s.plain.gap| ≤
        ∑ a, (((later.map fun e => e.1.rounding e.2 a).sum : ℕ) : ℤ) := by
  obtain ⟨earlier, s, later, s', hreached, hrun, hlength, hnone⟩ := exists_unrebased
  exact ⟨earlier, s, later, s', hreached, hrun, hlength, unrebased_gap hreached hrun hnone⟩

end Runs

end Ledger

end InterestDollar
