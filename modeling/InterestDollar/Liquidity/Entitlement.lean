import InterestDollar.Liquidity.Runs

/-!
# Debts within the entitlements

The rewards of an account are its entitlement at the accumulator in force less its debt,
and the subtraction must not underflow: else nothing can be claimed. The accumulator only
grows, a claim sets the debt to the entitlement and a deposit adds no more to the debt than
to the entitlement. A withdrawal takes the rounded entitlement of the amount off the debt,
which can be a unit less than the entitlement falls by. The remainders say when.
-/

namespace InterestDollar

open Checked FixedPoint Transition

namespace Liquidity

namespace State

variable {ρ ℓ : Type} {R : Token ρ} {L : Token ℓ} {s s' : State ρ ℓ}

/-- No debt exceeds the entitlement. -/
def Covered (L : Token ℓ) (s : State ρ ℓ) : Prop :=
  ∀ user, (s.userInfo user).rewardDebt ≤ s.entitlement L user

/-- Nobody's debt exceeds the entitlement, and neither the view nor a claim made after an
update of the pool fails in the subtraction of the debt. -/
def NoneStuck (L : Token ℓ) (s : State ρ ℓ) : Prop :=
  ∀ user,
    (s.userInfo user).rewardDebt ≤
        ((s.userInfo user).amount * s.accInForce L / fullScale : ℕ) ∧
      Avoids (.subtractionOverflow .memory) (s.pendingRewards L user) ∧
      ∀ t, s.updatePool L = .ok t →
        Avoids (.subtractionOverflow .memory) (t.settledRewards user)

/-- What a withdrawal takes off the debt is what the entitlement falls by, or rewards are
left unclaimed that make up for the difference. -/
def WithdrawsInFull (L : Token ℓ) (s : State ρ ℓ) (step : Address × Action ρ ℓ) : Prop :=
  match step.2 with
  | .withdraw amount claim =>
      amount * s.accInForce L % fullScale ≤
          (s.userInfo step.1).amount * s.accInForce L % fullScale ∨
        claim = false ∧ (s.userInfo step.1).rewardDebt < s.entitlement L step.1
  | _ => True

instance (s : State ρ ℓ) (step : Address × Action ρ ℓ) : Decidable (s.WithdrawsInFull L step) :=
  match step with
  | (sender, .withdraw amount claim) =>
      inferInstanceAs (Decidable (amount * s.accInForce L % fullScale ≤
          (s.userInfo sender).amount * s.accInForce L % fullScale ∨
        claim = false ∧ (s.userInfo sender).rewardDebt < s.entitlement L sender))
  | (_, .startCampaign _ _ _) | (_, .stopCampaign) | (_, .deposit _) | (_, .exit) | (_, .claim)
  | (_, .doUpdatePool) | (_, .transferGovernance _) | (_, .claimGovernance) | (_, .wait _)
  | (_, .rewardMoves _) | (_, .lpMoves _) => instDecidableTrue

theorem accrued_avoids (h : s.pool.lastRewardBlock < s.blockNumber) :
    Avoids (.subtractionOverflow .memory) (s.accrued L) := by
  have hmultiplier : Avoids (.subtractionOverflow .memory)
      (s.getCampaignMultiplier s.blockNumber) := by
    refine avoids_ite (fun _ => avoids_ok) fun hended => SafeMath.sub_avoids fun _ => ?_
    split_ifs
    · exact h.le
    · exact not_lt.mp hended
  refine avoids_bind hmultiplier fun _ _ => avoids_bind SafeMath.mul_avoids fun _ _ => ?_
  exact avoids_bind StableMath.divPrecisely_avoids fun _ _ => SafeMath.add_avoids

/-- The subtraction of the debt is the only one that can underflow. -/
theorem Covered.noneStuck (h : s.Covered L) : s.NoneStuck L := by
  refine fun user => ⟨h user, ?_, fun t ht => ?_⟩
  · have hview : Avoids (.subtractionOverflow .memory)
        (if s.pool.lastRewardBlock < s.blockNumber then
          if s.lpSupply L ≠ 0 then s.accrued L else .ok s.pool.accRewardPerShare
        else .ok s.pool.accRewardPerShare) :=
      avoids_ite (fun hlast => avoids_ite (fun _ => accrued_avoids hlast) fun _ => avoids_ok)
        fun _ => avoids_ok
    refine avoids_bind hview fun acc hacc => ?_
    refine avoids_bind StableMath.mulTruncate_avoids fun entitled hentitled => ?_
    obtain ⟨-, rfl⟩ := StableMath.mulTruncate_eq_ok.mp hentitled
    rw [viewed_eq_accInForce hacc]
    exact subDebt_avoids (h user)
  · cases updatePool_eq_ok ht
    refine avoids_bind StableMath.mulTruncate_avoids fun entitled hentitled => ?_
    obtain ⟨-, rfl⟩ := StableMath.mulTruncate_eq_ok.mp hentitled
    exact subDebt_avoids (h user)

theorem noneStuck_iff_covered : s.NoneStuck L ↔ s.Covered L :=
  ⟨fun h user => (h user).1, Covered.noneStuck⟩

/-! ## The steps -/

theorem Covered.of_quiet (hs : s.Covered L) (h : Quiet L s s') : s'.Covered L := by
  intro user
  rw [entitlement, h.userInfo]
  exact (hs user).trans (Int.ofNat_le.mpr (shares_le_of_rate_le h.accInForce _))

/-- Setting one account leaves the others covered, and that one exactly where its new debt
is within its new entitlement. -/
theorem covered_iff_of_setUser {t : State ρ ℓ} {sender : Address} {amount : ℕ} {newDebt : ℤ}
    (hacc : t.accInForce L = s.accInForce L)
    (huser : t.userInfo = (s.setUser sender amount newDebt).userInfo) (hs : s.Covered L) :
    t.Covered L ↔
      (s.userInfo sender).rewardDebt + newDebt ≤ shares fullScale (s.accInForce L) amount := by
  constructor
  · intro h
    have hsender := h sender
    rw [entitlement, hacc, huser] at hsender
    simpa [setUser] using hsender
  · intro h user
    rw [entitlement, hacc, huser]
    by_cases heq : user = sender
    · subst heq
      simpa [setUser] using h
    · simpa [setUser, heq, entitlement] using hs user

/-- After an update of the pool the tokens may come and go. -/
theorem covered_updated_iff {sender : Address} {amount : ℕ} {newDebt : ℤ} (hs : s.Covered L)
    (reward : ρ) (lpToken : ℓ) :
    Covered L { (s.updated L).setUser sender amount newDebt with
      reward := reward
      lpToken := lpToken } ↔
      (s.userInfo sender).rewardDebt + newDebt ≤ shares fullScale (s.accInForce L) amount := by
  refine covered_iff_of_setUser ?_ rfl hs
  exact accInForce_of_nothing_due (.inl (updated_blocksDue L s))

/-- A claim changes the debt of one account only. -/
theorem covered_claimed_iff {sender : Address} {amount : ℕ} {newDebt : ℤ} (hs : s.Covered L)
    (reward : ρ) :
    Covered L { s.setUser sender amount newDebt with reward := reward } ↔
      (s.userInfo sender).rewardDebt + newDebt ≤ shares fullScale (s.accInForce L) amount :=
  covered_iff_of_setUser rfl rfl hs

theorem deposit_covered {sender : Address} {amount : ℕ} (hs : s.Covered L)
    (h : s.deposit L sender amount = .ok s') : s'.Covered L := by
  obtain ⟨-, lpToken, -, rfl⟩ := deposit_eq_ok h
  refine (covered_updated_iff hs s.reward lpToken).mpr ?_
  have hsum : _ ≤ shares fullScale (s.accInForce L) ((s.userInfo sender).amount + amount) :=
    shares_add_le (s.userInfo sender).amount amount
  have hdebt := hs sender
  unfold entitlement at hdebt
  omega

theorem claim_covered {sender : Address} (hs : s.Covered L) (h : s.claim R L sender = .ok s') :
    s'.Covered L := by
  obtain ⟨pending, reward, hpending, -, rfl⟩ := claim_eq_ok h
  obtain ⟨-, -, hvalue⟩ := pendingRewards_eq_ok hpending
  refine (covered_claimed_iff hs reward).mpr ?_
  unfold entitlement at hvalue
  omega

/-- A withdrawal leaves everybody covered exactly where it takes off in full. -/
theorem withdraw_covered_iff {sender : Address} {amount : ℕ} {claim : Bool} (hs : s.Covered L)
    (h : s.withdraw R L sender amount claim = .ok s') :
    s'.Covered L ↔ s.WithdrawsInFull L (sender, .withdraw amount claim) := by
  obtain ⟨hamount, -, pending, reward, lpToken, hpending, -, -, rfl⟩ := withdraw_eq_ok h
  have hfull : s.WithdrawsInFull L (sender, .withdraw amount claim) ↔
      shares fullScale (s.accInForce L) (s.userInfo sender).amount ≤
          shares fullScale (s.accInForce L) ((s.userInfo sender).amount - amount) +
            shares fullScale (s.accInForce L) amount ∨
        claim = false ∧ (s.userInfo sender).rewardDebt < s.entitlement L sender :=
    or_congr (shares_le_sub_add_iff fullScale_pos hamount).symm Iff.rfl
  rw [covered_updated_iff hs reward lpToken, hfull]
  have hdebt := hs sender
  have hsucc : shares fullScale (s.accInForce L) (s.userInfo sender).amount ≤ _ :=
    shares_le_sub_add_succ fullScale_pos hamount
  unfold entitlement at hdebt ⊢
  cases claim with
  | true =>
      obtain ⟨-, -, hvalue⟩ := settledRewards_updated_eq_ok hpending
      unfold entitlement at hvalue
      simp only [Bool.true_eq_false, false_and, or_false]
      omega
  | false =>
      cases hpending
      simp only [true_and]
      omega

theorem withdraw_all_inFull (s : State ρ ℓ) (sender : Address) :
    s.WithdrawsInFull L (sender, .withdraw (s.userInfo sender).amount true) :=
  .inl le_rfl

/-- One step of a contract in which everybody is covered leaves everybody covered exactly
where it is no withdrawal that takes off too little. -/
theorem exec_covered_iff {step : Address × Action ρ ℓ} (hs : s.Covered L)
    (h : s.exec R L step = .ok s') : s'.Covered L ↔ s.WithdrawsInFull L step := by
  obtain ⟨sender, action⟩ := step
  cases action with
  | withdraw amount claim => exact withdraw_covered_iff hs h
  | exit =>
      refine iff_of_true ((withdraw_covered_iff hs h).mpr ?_) trivial
      exact withdraw_all_inFull s sender
  | deposit amount => exact iff_of_true (deposit_covered hs h) trivial
  | claim => exact iff_of_true (claim_covered hs h) trivial
  | _ => exact iff_of_true (hs.of_quiet (exec_quiet rfl h)) trivial

theorem Reached.init_covered {init : State ρ ℓ}
    {trace : List (State ρ ℓ × (Address × Action ρ ℓ))} (h : Reached R L init trace s) :
    init.Covered L := by
  intro user
  rw [h.init_fresh.1]
  exact Int.natCast_nonneg _

/-- Throughout a run nobody's rewards are stuck exactly where every withdrawal of the run
takes off in full what the entitlement falls by, or leaves rewards unclaimed. -/
theorem none_stuck_iff {init : State ρ ℓ} {trace : List (State ρ ℓ × (Address × Action ρ ℓ))}
    (h : Reached R L init trace s) :
    ((∀ e ∈ trace, e.1.NoneStuck L) ∧ s.NoneStuck L) ↔
      ∀ e ∈ trace, e.1.WithdrawsInFull L e.2 := by
  simp only [noneStuck_iff_covered]
  exact Run.forall_iff (fun _ => True) (Covered L) (WithdrawsInFull L) trivial h.init_covered
    (fun _ _ _ _ _ => trivial) (fun _ _ _ _ hs hstep => exec_covered_iff hs hstep) h.run

/-- With half a reward for each of two LP tokens, one of them is withdrawn before the reward
is claimed, and the rest claims what is left. -/
theorem none_stuck_unclaimed :
    ∃ init trace s, Reached PlainToken.calls PlainToken.calls init trace s ∧
      s.userInfo 1 = ⟨1, 0⟩ ∧ s.accInForce PlainToken.calls = 5 * 10 ^ 17 ∧
      s.NoneStuck PlainToken.calls := by
  have hsteps : Returns
      ((deployed 9 8 (PlainToken.approved 9 1 1 0) (PlainToken.approved 9 1 0 2) 100).initialized
          8 >>=
        fun init => execTrace (exec PlainToken.calls PlainToken.calls) [] init
          [(8, .startCampaign 1 0 1), (1, .deposit 2), (1, .wait 1), (1, .withdraw 1 false)])
      fun out => (∀ e ∈ out.1, e.2.1 ≠ e.1.self) ∧ out.2.userInfo 1 = ⟨1, 0⟩ ∧
        out.2.accInForce PlainToken.calls = 5 * 10 ^ 17 ∧
        ∀ e ∈ out.1, e.1.WithdrawsInFull PlainToken.calls e.2 := by decide
  obtain ⟨init, trace, s, hrun, huser, hacc, hfull⟩ := reached_of_returns hsteps
  exact ⟨init, trace, s, hrun, huser, hacc, ((none_stuck_iff hrun).mpr hfull).2⟩

/-- The reward is claimed first. The withdrawal then takes nothing off the debt of 1, and
the LP token that is left is entitled to nothing: its owner can neither claim nor exit, and
can withdraw only without a claim. -/
theorem some_stuck :
    ∃ init trace s, Reached PlainToken.calls PlainToken.calls init trace s ∧
      s.userInfo 1 = ⟨1, 1⟩ ∧ s.accInForce PlainToken.calls = 5 * 10 ^ 17 ∧
      FailsWith (.subtractionOverflow .memory) (s.pendingRewards PlainToken.calls 1) ∧
      FailsWith (.subtractionOverflow .memory) (s.claim PlainToken.calls PlainToken.calls 1) ∧
      FailsWith (.subtractionOverflow .memory) (s.exit PlainToken.calls PlainToken.calls 1) ∧
      FailsWith (.subtractionOverflow .memory)
        (s.withdraw PlainToken.calls PlainToken.calls 1 1 true) := by
  have hsteps : Returns
      ((deployed 9 8 (PlainToken.approved 9 1 1 0) (PlainToken.approved 9 1 0 2) 100).initialized
          8 >>=
        fun init => execTrace (exec PlainToken.calls PlainToken.calls) [] init
          [(8, .startCampaign 1 0 1), (1, .deposit 2), (1, .wait 1), (1, .claim),
            (1, .withdraw 1 false)])
      fun out => (∀ e ∈ out.1, e.2.1 ≠ e.1.self) ∧ out.2.userInfo 1 = ⟨1, 1⟩ ∧
        out.2.accInForce PlainToken.calls = 5 * 10 ^ 17 ∧
        FailsWith (.subtractionOverflow .memory) (out.2.pendingRewards PlainToken.calls 1) ∧
        FailsWith (.subtractionOverflow .memory)
          (out.2.claim PlainToken.calls PlainToken.calls 1) ∧
        FailsWith (.subtractionOverflow .memory)
          (out.2.exit PlainToken.calls PlainToken.calls 1) ∧
        FailsWith (.subtractionOverflow .memory)
          (out.2.withdraw PlainToken.calls PlainToken.calls 1 1 true) := by decide
  obtain ⟨init, trace, s, hrun, huser, hacc, hview, hclaim, hexit, hwithdraw⟩ :=
    reached_of_returns hsteps
  exact ⟨init, trace, s, hrun, huser, hacc, hview, hclaim, hexit, hwithdraw⟩

end State

end Liquidity

end InterestDollar
