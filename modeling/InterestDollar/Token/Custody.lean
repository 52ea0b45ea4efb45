import InterestDollar.Token.Rebase

/-!
# Nobody else takes from an account

The balance of an account falls only in a call of its own, in a call of the vault, or in
a `transferFrom` that it allowed. A call of anybody else may credit the account or migrate
it, at the rate it already had, and it cannot raise an allowance the account gave.

`TakesNothing who s s'` is what such a call keeps: the balance of `who` does not fall and
no allowance of `who` rises.
-/

namespace InterestDollar

open Checked FixedPoint Transition

namespace Ledger

/-- From one ledger to the other the balance of an account does not fall, and none of
the allowances it gave rises. -/
structure TakesNothing (who : Address) (s s' : Ledger) : Prop where
  balance : s.balance who ≤ s'.balance who
  allowances : ∀ spender, s'.allowances who spender ≤ s.allowances who spender

section Moves

variable {s s' s'' : Ledger} {isContract : Address → Bool} {who a fromAcc toAcc : Address} {v : ℕ}

theorem TakesNothing.refl : TakesNothing who s s := ⟨le_rfl, fun _ => le_rfl⟩

theorem TakesNothing.trans (h : TakesNothing who s s') (h' : TakesNothing who s' s'') :
    TakesNothing who s s'' where
  balance := h.balance.trans h'.balance
  allowances := fun spender => (h'.allowances spender).trans (h.allowances spender)

theorem migrate_allowances : (s.migrate isContract a).allowances = s.allowances := by
  unfold migrate
  split_ifs <;> rfl

theorem migrate_takesNothing : TakesNothing who s (s.migrate isContract a) where
  balance := (congrFun migrate_balance who).ge
  allowances := fun spender => by rw [migrate_allowances]

theorem settle_takesNothing : TakesNothing who s (s.settle isContract fromAcc toAcc) :=
  migrate_takesNothing.trans migrate_takesNothing

theorem credit_takesNothing : TakesNothing who s (s.credit a v) :=
  ⟨credit_balance_ge, fun _ => le_rfl⟩

theorem debit_takesNothing_of_ne (h : who ≠ a) : TakesNothing who s (s.debit a v) :=
  ⟨(debit_sameOff.balance_eq h).ge, fun _ => le_rfl⟩

/-- A debit of nothing takes nothing, from anybody. -/
theorem debit_zero_takesNothing : TakesNothing who s (s.debit a 0) := by
  by_cases h : who = a
  · subst h
    refine ⟨?_, fun _ => le_rfl⟩
    have hcredits : (s.debit who 0).creditBalances who = s.creditBalances who := by
      rw [debit_creditBalances_self, creditsFor, shares, Nat.zero_mul, Nat.zero_div, Nat.sub_zero]
    rw [Ledger.balance, Ledger.balance, debit_creditsPerToken, hcredits]
  · exact debit_takesNothing_of_ne h

theorem setAllowance_takesNothing_of_ne {spender : Address} {value : ℕ} (h : who ≠ a) :
    TakesNothing who s (s.setAllowance a spender value) where
  balance := le_rfl
  allowances := fun b => by simp [setAllowance, Function.update_of_ne h]

/-- Using up an allowance does not raise it. -/
theorem setAllowance_takesNothing_of_le {spender : Address} {value : ℕ}
    (h : value ≤ s.allowances a spender) :
    TakesNothing who s (s.setAllowance a spender value) := by
  refine ⟨le_rfl, fun b => ?_⟩
  by_cases hwho : who = a
  · subst hwho
    by_cases hb : b = spender
    · subst hb
      simpa [setAllowance] using h
    · simp [setAllowance, Function.update_of_ne hb]
  · simp [setAllowance, Function.update_of_ne hwho]

theorem optIn_takesNothing_of_ne (h : who ≠ a) : TakesNothing who s (s.optIn a) :=
  ⟨(optIn_sameOff.balance_eq h).ge, fun _ => le_rfl⟩

theorem optOut_takesNothing (h : ¬ s.Frozen a) : TakesNothing who s (s.optOut a) :=
  ⟨(congrFun (freeze_balance h) who).ge, fun _ => le_rfl⟩

/-- A transfer takes nothing from an account that does not send it, and nothing from
anybody when its amount is 0. -/
theorem executeTransfer_takesNothing (hrate : 0 < s.rebasingCreditsPerToken)
    (h : who ≠ fromAcc ∨ v = 0) (hs : s.executeTransfer isContract fromAcc toAcc v = .ok s') :
    TakesNothing who s s' := by
  obtain ⟨-, -, -, rfl⟩ := (executeTransfer_eq_ok hrate).mp hs
  have hsettle : TakesNothing who s (s.settle isContract fromAcc toAcc) := settle_takesNothing
  have hcredit : TakesNothing who (s.settle isContract fromAcc toAcc)
      ((s.settle isContract fromAcc toAcc).credit toAcc v) := credit_takesNothing
  refine hsettle.trans (hcredit.trans ?_)
  rcases h with hne | rfl
  · exact debit_takesNothing_of_ne hne
  · exact debit_zero_takesNothing

end Moves

/-- A call by somebody else, who is not the vault and has no allowance, takes nothing. -/
theorem exec_takesNothing {s s' : Ledger} {who : Address} {msg : Msg} {call : Call}
    (hrate : 0 < s.rebasingCreditsPerToken) (hwho : msg.sender ≠ who)
    (hvault : msg.sender ≠ s.vaultAddress) (hallowed : s.allowances who msg.sender = 0)
    (hs : s.exec (msg, call) = .ok s') : TakesNothing who s s' := by
  cases call with
  | transfer toAcc v =>
      obtain ⟨-, -, -, hmove⟩ := transfer_eq_ok.mp hs
      exact executeTransfer_takesNothing hrate (.inl hwho.symm) hmove
  | transferFrom fromAcc toAcc v =>
      obtain ⟨-, -, -, hle, hmove⟩ := transferFrom_eq_ok.mp hs
      refine (setAllowance_takesNothing_of_le (Nat.sub_le _ _)).trans
        (executeTransfer_takesNothing hrate ?_ hmove)
      by_cases hfrom : who = fromAcc
      · subst hfrom
        exact .inr (Nat.le_zero.mp (hallowed ▸ hle))
      · exact .inl hfrom
  | approve spender value =>
      obtain rfl := approve_eq_ok.mp hs
      exact setAllowance_takesNothing_of_ne hwho.symm
  | increaseAllowance spender addedValue =>
      obtain ⟨-, rfl⟩ := increaseAllowance_eq_ok.mp hs
      exact setAllowance_takesNothing_of_ne hwho.symm
  | decreaseAllowance spender subtractedValue =>
      obtain rfl := decreaseAllowance_eq_ok.mp hs
      exact setAllowance_takesNothing_of_ne hwho.symm
  | mint a v => exact absurd (mint_eq_ok.mp hs).1.symm hvault
  | burn a v => exact absurd (burn_eq_ok.mp hs).1.symm hvault
  | rebaseOptIn =>
      obtain ⟨-, -, rfl⟩ := rebaseOptIn_eq_ok.mp hs
      exact migrate_takesNothing.trans (optIn_takesNothing_of_ne hwho.symm)
  | rebaseOptOut =>
      obtain ⟨-, hfits, rfl⟩ := rebaseOptOut_eq_ok.mp hs
      exact migrate_takesNothing.trans (optOut_takesNothing hfits.notFrozen)
  | changeSupply newTotalSupply => exact absurd (changeSupply_eq_ok.mp hs).1.symm hvault

/-- Over a run of calls by others, none of them the vault and none with an allowance when
the run starts, the balance of an account does not fall. -/
theorem others_take_nothing {vaultAddress who : Address}
    {trace later : List (Ledger × (Msg × Call))} {s s' : Ledger}
    (h : Reached vaultAddress trace s) (hrun : s.RunFrom later s')
    (hothers : ∀ e ∈ later, e.2.1.sender ≠ who ∧ e.2.1.sender ≠ vaultAddress ∧
      s.allowance who e.2.1.sender = 0) : s.balance who ≤ s'.balance who := by
  have hall := Run.invariant_of_forall
    (fun _ call => call.1.sender ≠ who ∧ call.1.sender ≠ vaultAddress ∧
      s.allowance who call.1.sender = 0)
    (fun t => (∃ n, Conserved n t) ∧ t.vaultAddress = vaultAddress ∧ TakesNothing who s t)
    ⟨⟨_, h.conserved⟩, h.vaultAddress, .refl⟩
    (fun t call t' hi hc ht => by
      obtain ⟨⟨n, hn⟩, hvault, htaken⟩ := hi
      obtain ⟨hwho, hsender, hallowed⟩ := hc
      have hnone : t.allowances who call.1.sender = 0 :=
        Nat.le_zero.mp ((htaken.allowances _).trans hallowed.le)
      refine ⟨⟨_, hn.exec ht⟩, (exec_vaultAddress hn.rate_pos ht).trans hvault, htaken.trans ?_⟩
      exact exec_takesNothing hn.rate_pos hwho (hvault ▸ hsender) hnone ht)
    hrun hothers
  exact hall.2.2.balance

/-- A contract that holds tokens is migrated and credited by another account: from 2 its
balance grows to 3. -/
theorem others_take_nothing_migrated :
    ∃ trace s later s', Reached 9 trace s ∧ s.RunFrom later s' ∧ s.balance 2 = 2 ∧
      s'.balance 2 = 3 ∧ s'.Frozen 2 ∧ s.balance 2 ≤ s'.balance 2 := by
  have hmints : Returns
      (execTrace exec [] (initialized 9)
        [(⟨9, fun _ => false⟩, .mint 1 2), (⟨9, fun _ => false⟩, .mint 2 2)])
      fun out => Returns
        (execTrace exec [] out.2
          [(⟨1, fun a => a = 2⟩, .transferFrom 2 1 0), (⟨1, fun a => a = 2⟩, .transfer 2 1)])
        fun out' => out.2.balance 2 = 2 ∧ out'.2.balance 2 = 3 ∧ out'.2.Frozen 2 ∧
          ∀ e ∈ out'.1, e.2.1.sender ≠ 2 ∧ e.2.1.sender ≠ 9 ∧
            out.2.allowance 2 e.2.1.sender = 0 := by decide
  obtain ⟨trace, s, hreached, ⟨later, s'⟩, hlater, hbefore, hafter, hfrozen, hothers⟩ :=
    reached_of_returns hmints
  have hrun : s.RunFrom later s' := run_of_execTrace .nil hlater
  exact ⟨trace, s, later, s', hreached, hrun, hbefore, hafter, hfrozen,
    others_take_nothing hreached hrun hothers⟩

end Ledger

end InterestDollar
