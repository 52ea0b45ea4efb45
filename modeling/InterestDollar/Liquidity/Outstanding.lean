import InterestDollar.Liquidity.Solvency

/-!
# What is owed in total

`totalOutstandingRewards` is meant to be what is owed when everyone pulls out. It computes the
LP tokens at the accumulator in force less the total debt, which covers what `pendingRewards`
says of the accounts, but only where blocks have passed since the last update and there are LP
tokens. Everywhere else it returns zero, while `pendingRewards` goes on with the stored
accumulator. So right after an update, before the start of a campaign and after everybody has
withdrawn it misses whatever was not claimed yet.
-/

namespace InterestDollar

open Checked FixedPoint Transition

namespace Liquidity

namespace State

variable {ρ ℓ : Type} {R : Token ρ} {L : Token ℓ} {s s' : State ρ ℓ}

/-! ## Accounts that made no call -/

theorem exec_userInfo_of_ne {step : Address × Action ρ ℓ} {user : Address} (hne : user ≠ step.1)
    (h : s.exec R L step = .ok s') : s'.userInfo user = s.userInfo user := by
  obtain ⟨sender, action⟩ := step
  cases action with
  | deposit amount =>
      obtain ⟨-, lpToken, -, rfl⟩ := deposit_eq_ok h
      exact Function.update_of_ne hne _ _
  | withdraw amount claim =>
      obtain ⟨-, -, pending, reward, lpToken, -, -, -, rfl⟩ := withdraw_eq_ok h
      exact Function.update_of_ne hne _ _
  | exit =>
      obtain ⟨-, -, pending, reward, lpToken, -, -, -, rfl⟩ := withdraw_eq_ok h
      exact Function.update_of_ne hne _ _
  | claim =>
      obtain ⟨pending, reward, -, -, rfl⟩ := claim_eq_ok h
      exact Function.update_of_ne hne _ _
  | _ => rw [(exec_quiet rfl h).userInfo]

/-- An account that made no call has no LP tokens and no debt. -/
theorem ReachedOpen.userInfo_of_absent {init : State ρ ℓ}
    {trace : List (State ρ ℓ × (Address × Action ρ ℓ))} (h : ReachedOpen R L init trace s)
    {user : Address} (habsent : ∀ e ∈ trace, user ≠ e.2.1) : s.userInfo user = ⟨0, 0⟩ := by
  refine Run.invariant_of_forall (fun _ step => user ≠ step.1)
    (fun s => s.userInfo user = ⟨0, 0⟩) ?_ (fun s step s' hs hne hstep => ?_) h.run habsent
  · rw [h.start.init_fresh.1]
  · rcases execOpen_eq_ok hstep with hstep | ⟨reward, lpToken, -, rfl⟩
    · exact (exec_userInfo_of_ne hne hstep).trans hs
    · exact hs

/-- The view goes through for such an account where it does for any other. -/
theorem pendingRewards_of_absent {user other : Address} (huser : s.userInfo user = ⟨0, 0⟩)
    (h : Succeeds (s.pendingRewards L other)) : s.pendingRewards L user = .ok 0 := by
  obtain ⟨pending, hpending⟩ := succeeds_iff.mp h
  obtain ⟨acc, hacc, -⟩ := bind_eq_ok.mp hpending
  refine bind_eq_ok.mpr ⟨acc, hacc, ?_⟩
  rw [huser]
  have hnone : StableMath.mulTruncate 0 acc = .ok 0 := by
    refine StableMath.mulTruncate_eq_ok.mpr ⟨?_, by simp [shares]⟩
    rw [Nat.zero_mul]
    exact Nat.two_pow_pos 256
  exact bind_eq_ok.mpr ⟨0, hnone, rfl⟩

/-! ## The view -/

/-- The view computes the LP tokens at the accumulator in force less the total debt where blocks
have passed since the last update and there are LP tokens, and returns zero elsewhere. -/
theorem totalOutstandingRewards_eq_ok {outstanding : ℕ}
    (h : s.totalOutstandingRewards L = .ok outstanding) :
    (s.pool.lastRewardBlock < s.blockNumber ∧ s.lpSupply L ≠ 0 ∧ (outstanding : ℤ) =
      shares fullScale (s.accInForce L) (s.lpSupply L) - s.totalRewardDebt) ∨
    (¬ (s.pool.lastRewardBlock < s.blockNumber ∧ s.lpSupply L ≠ 0) ∧ outstanding = 0) := by
  unfold totalOutstandingRewards at h
  split_ifs at h with hdue
  · obtain ⟨acc, hacc, h⟩ := bind_eq_ok.mp h
    obtain ⟨entitled, hentitled, h⟩ := bind_eq_ok.mp h
    obtain ⟨-, rfl⟩ := StableMath.mulTruncate_eq_ok.mp hentitled
    rw [accrued_eq_ok hacc, shares, Nat.mul_comm, ← shares] at h
    exact .inl ⟨hdue.1, hdue.2, (subDebt_eq_ok h).2⟩
  · cases h
    exact .inr ⟨hdue, rfl⟩

/-- Elsewhere the stored accumulator is in force. -/
theorem accInForce_of_not_due (h : ¬ (s.pool.lastRewardBlock < s.blockNumber ∧ s.lpSupply L ≠ 0)) :
    s.accInForce L = s.pool.accRewardPerShare := by
  refine accInForce_of_nothing_due ?_
  rcases not_and_or.mp h with hlast | hempty
  · exact .inl (blocksDue_eq_zero (.inl (not_lt.mp hlast)))
  · exact .inr (not_not.mp hempty)

/-- In every state a run reaches and in which the views go through, the total covers what is
pending for all accounts exactly where blocks have passed since the last update and there are
LP tokens, or where every account's debt is what it has earned up to the last update. -/
theorem outstanding_covers_iff (hL : L.Standard) {init : State ρ ℓ}
    {trace : List (State ρ ℓ × (Address × Action ρ ℓ))} (h : ReachedOpen R L init trace s)
    {outstanding : ℕ} {pending : Address → ℕ}
    (houtstanding : s.totalOutstandingRewards L = .ok outstanding)
    (hpending : ∀ user, s.pendingRewards L user = .ok (pending user)) :
    ∑ user, pending user ≤ outstanding ↔
      (s.pool.lastRewardBlock < s.blockNumber ∧ s.lpSupply L ≠ 0) ∨
        ∀ user, (s.userInfo user).rewardDebt =
          ((s.userInfo user).amount * s.pool.accRewardPerShare / fullScale : ℕ) := by
  have hvalue := fun user => (pendingRewards_eq_ok (hpending user)).2
  rcases totalOutstandingRewards_eq_ok houtstanding with ⟨hlast, hsupply, htotal⟩ | ⟨hdue, hzero⟩
  · refine iff_of_true ?_ (.inl ⟨hlast, hsupply⟩)
    have hsum := sum_pendingRewards_le (h.booked hL) fun user => (hvalue user).1
    have hread : ∀ user, (s.pendingRewards L user).toOption.getD 0 = pending user := by
      intro user
      rw [hpending user]
      rfl
    simp only [hread, ← htotal] at hsum
    exact_mod_cast hsum
  · -- the view is zero, so it covers nothing but zeros
    have hsettled : ∀ user, pending user = 0 ↔ (s.userInfo user).rewardDebt =
        ((s.userInfo user).amount * s.pool.accRewardPerShare / fullScale : ℕ) := by
      intro user
      have hdifference := (hvalue user).2
      rw [entitlement, accInForce_of_not_due hdue, shares] at hdifference
      omega
    rw [hzero, Nat.le_zero, Finset.sum_eq_zero_iff]
    simp only [Finset.mem_univ, true_implies, hsettled]
    exact (or_iff_right hdue).symm

/-- In a run of an account and a governor with nothing pending, the account has all of what is
pending. -/
theorem pendingRewards_of_callers {init : State ρ ℓ}
    {trace : List (State ρ ℓ × (Address × Action ρ ℓ))} (h : ReachedOpen R L init trace s)
    {account governor : Address} {owed : ℕ}
    (hcallers : ∀ e ∈ trace, e.2.1 = account ∨ e.2.1 = governor)
    (haccount : s.pendingRewards L account = .ok owed)
    (hgovernor : s.pendingRewards L governor = .ok 0) :
    (∀ user, s.pendingRewards L user = .ok (if user = account then owed else 0)) ∧
      (∑ user, if user = account then owed else 0) = owed := by
  refine ⟨fun user => ?_, by rw [Finset.sum_ite_eq', if_pos (Finset.mem_univ account)]⟩
  split_ifs with huser
  · rw [huser, haccount]
  by_cases heq : user = governor
  · rw [heq, hgovernor]
  · refine pendingRewards_of_absent (h.userInfo_of_absent fun e he hcaller => ?_)
      (succeeds_iff.mpr ⟨owed, haccount⟩)
    rcases hcallers e he with hsame | hsame
    · exact huser (hcaller.trans hsame)
    · exact heq (hcaller.trans hsame)

/-- In the middle of a campaign with one account the total is what is pending for it. -/
theorem outstanding_covers_running :
    ∃ init trace s, ReachedOpen PlainToken.calls PlainToken.calls init trace s ∧
      s.totalOutstandingRewards PlainToken.calls = .ok 2 ∧
      ∃ pending : Address → ℕ,
        (∀ user, s.pendingRewards PlainToken.calls user = .ok (pending user)) ∧
          pending 1 = 2 ∧ ∑ user, pending user ≤ 2 := by
  have hsteps : Returns
      ((deployed 9 8 (PlainToken.approved 9 1 6 0) (PlainToken.approved 9 1 0 1) 100).initialized
          8 >>=
        fun init => execTrace (execOpen PlainToken.calls PlainToken.calls) [] init
          [(8, .startCampaign 2 0 3), (1, .deposit 1), (1, .wait 1)])
      fun out => (∀ e ∈ out.1, e.2.1 ≠ e.1.self) ∧
        (∀ e ∈ out.1, e.2.1 = 1 ∨ e.2.1 = 8) ∧
        Returns (out.2.totalOutstandingRewards PlainToken.calls) (· = 2) ∧
        Returns (out.2.pendingRewards PlainToken.calls 1) (· = 2) ∧
        Returns (out.2.pendingRewards PlainToken.calls 8) (· = 0) ∧
        out.2.pool.lastRewardBlock < out.2.blockNumber ∧
        out.2.lpSupply PlainToken.calls ≠ 0 := by decide
  obtain ⟨init, trace, s, hrun, hcallers, ⟨_, htotal, rfl⟩, ⟨_, hone, rfl⟩, ⟨_, height, rfl⟩,
    hlast, hsupply⟩ := reachedOpen_of_returns hsteps
  obtain ⟨hpending, -⟩ := pendingRewards_of_callers hrun hcallers hone height
  refine ⟨init, trace, s, hrun, htotal, _, hpending, if_pos rfl, ?_⟩
  exact (outstanding_covers_iff PlainToken.standard hrun htotal hpending).mpr
    (.inl ⟨hlast, hsupply⟩)

/-- Right after an update of the pool the reward of its only account is pending, and the total
is zero. -/
theorem outstanding_misses_updated :
    ∃ init trace s, ReachedOpen PlainToken.calls PlainToken.calls init trace s ∧
      s.totalOutstandingRewards PlainToken.calls = .ok 0 ∧
      ∃ pending : Address → ℕ,
        (∀ user, s.pendingRewards PlainToken.calls user = .ok (pending user)) ∧
          ¬ ∑ user, pending user ≤ 0 := by
  have hsteps : Returns
      ((deployed 9 8 (PlainToken.approved 9 1 6 0) (PlainToken.approved 9 1 0 1) 100).initialized
          8 >>=
        fun init => execTrace (execOpen PlainToken.calls PlainToken.calls) [] init
          [(8, .startCampaign 2 0 3), (1, .deposit 1), (1, .wait 1), (1, .doUpdatePool)])
      fun out => (∀ e ∈ out.1, e.2.1 ≠ e.1.self) ∧
        (∀ e ∈ out.1, e.2.1 = 1 ∨ e.2.1 = 8) ∧
        Returns (out.2.totalOutstandingRewards PlainToken.calls) (· = 0) ∧
        Returns (out.2.pendingRewards PlainToken.calls 1) (· = 2) ∧
        Returns (out.2.pendingRewards PlainToken.calls 8) (· = 0) := by decide
  obtain ⟨init, trace, s, hrun, hcallers, ⟨_, htotal, rfl⟩, ⟨_, hone, rfl⟩, ⟨_, height, rfl⟩⟩ :=
    reachedOpen_of_returns hsteps
  obtain ⟨hpending, hsum⟩ := pendingRewards_of_callers hrun hcallers hone height
  refine ⟨init, trace, s, hrun, htotal, _, hpending, ?_⟩
  rw [hsum]
  decide

end State

end Liquidity

end InterestDollar
