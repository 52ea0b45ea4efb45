import InterestDollar.Staking.Stakes
import InterestDollar.Totals.Update

/-!
# The books of the staking contract

Every function changes the books in one of three ways: it inserts one stake and raises
`totalOutstanding` by what the stake is owed, it settles the stakes of its caller and
lowers `totalOutstanding` by what they were paid, or it leaves both alone. So the arrays
stay in order and `totalOutstanding` is what the unpaid stakes of all accounts are owed.
-/

namespace InterestDollar

open Checked Totals Transition

namespace Staking

/-- What the stakes of an account are owed. -/
def owedFor (stakes : List Stake) : ℕ := (stakes.map Stake.owed).sum

theorem owedFor_eq (stakes : List Stake) :
    owedFor stakes = ((stakes.filter fun stake => !stake.paid).map Stake.expected).sum := by
  induction stakes with
  | nil => rfl
  | cons stake stakes ih =>
      cases hpaid : stake.paid with
      | true => simpa [owedFor, Stake.owed, hpaid] using ih
      | false => simpa [owedFor, Stake.owed, hpaid] using ih

/-- Settling the stakes of an account takes what they are paid off what they are owed. -/
theorem owedFor_settle_add (now : ℕ) (stakes : List Stake) :
    owedFor (stakes.map (Stake.settle now)) + (stakes.map (Stake.payout now)).sum =
      owedFor stakes := by
  induction stakes with
  | nil => rfl
  | cons stake stakes ih =>
      have hstake : (stake.settle now).owed + stake.payout now = stake.owed := owed_settle_add
      simp only [owedFor, List.map_cons, List.sum_cons] at ih ⊢
      omega

namespace State

variable {τ : Type} {T : Token τ} {keccak256 : List UInt8 → Bytes32} {s s' : State τ}

/-- What the stakes of all accounts are owed. -/
def liability (s : State τ) : ℕ := ∑ user, owedFor (s.userStakes user)

/-- The arrays are in order and the total is what the stakes are owed. -/
structure Kept (s : State τ) : Prop where
  stakes : ∀ user, StakesKept s.now (s.userStakes user)
  outstanding : s.totalOutstanding = s.liability

/-- One stake was inserted for an account, and no other stake changed. -/
def Inserts (s : State τ) (staker : Address) (newStake : Stake) (s' : State τ) : Prop :=
  (s'.userStakes staker).Perm (newStake :: s.userStakes staker) ∧
    ∀ user, user ≠ staker → s'.userStakes user = s.userStakes user

/-- What the stakes of one account are replaced by changes the liability by. -/
theorem liability_update (s : State τ) (user : Address) (stakes : List Stake) :
    (∑ x, owedFor (Function.update s.userStakes user stakes x)) + owedFor (s.userStakes user) =
      s.liability + owedFor stakes := by
  have hsum := sum_update_add (fun x => owedFor (s.userStakes x)) user (owedFor stakes)
  simp only [Function.apply_update fun _ => owedFor]
  exact hsum

theorem Kept.of_same (h : s.Kept) (hstakes : s'.userStakes = s.userStakes)
    (htotal : s'.totalOutstanding = s.totalOutstanding) (hnow : s.now ≤ s'.now) : s'.Kept where
  stakes := fun user => by
    rw [hstakes]
    exact (h.stakes user).mono hnow
  outstanding := by
    rw [htotal, h.outstanding, liability, liability, hstakes]

/-- A stake of an account that has room for it and for its type. -/
structure Admits (s : State τ) (staker : Address) (newStake : Stake) : Prop where
  ends : s.now ≤ newStake.ends
  unpaid : newStake.paid = false
  length : (s.userStakes staker).length < maxStakes
  type : newStake.stakeType ≠ userStakeType →
    ∀ stake ∈ s.userStakes staker, stake.stakeType ≠ newStake.stakeType

theorem Kept.withStake {staker : Address} {newStake : Stake} (h : s.Kept)
    (hadmits : s.Admits staker newStake) : (s.withStake staker newStake).Kept where
  stakes := fun user => by
    by_cases huser : user = staker
    · subst huser
      simp only [State.withStake, Function.update_self]
      exact (h.stakes user).insert hadmits.ends hadmits.unpaid hadmits.length hadmits.type
    · simp only [State.withStake, Function.update_of_ne huser]
      exact h.stakes user
  outstanding := by
    have hperm := (h.stakes staker).insertStake_perm hadmits.ends hadmits.unpaid
    have howed : owedFor (insertStake newStake (s.userStakes staker)) =
        newStake.expected + owedFor (s.userStakes staker) := by
      rw [owedFor, (hperm.map Stake.owed).sum_eq, List.map_cons, List.sum_cons]
      simp [owedFor, Stake.owed, hadmits.unpaid]
    have hsum := s.liability_update staker (insertStake newStake (s.userStakes staker))
    have htotal := h.outstanding
    simp only [State.withStake, liability]
    unfold liability at hsum htotal
    omega

theorem Kept.inserts {staker : Address} {newStake : Stake} (h : s.Kept)
    (hadmits : s.Admits staker newStake) :
    s.Inserts staker newStake (s.withStake staker newStake) := by
  refine ⟨?_, fun user huser => Function.update_of_ne huser _ _⟩
  simp only [State.withStake, Function.update_self]
  exact (h.stakes staker).insertStake_perm hadmits.ends hadmits.unpaid

/-- The loop of an exit settles the stakes of its caller, and what it pays them is part of
the total. -/
theorem Kept.payEnded_eq {user : Address} {stakes : List Stake} {totalWithdraw stakedAmount : ℕ}
    (h : s.Kept) (hpay : payEnded s.now (s.userStakes user).reverse 0 0 =
      .ok (stakes, totalWithdraw, stakedAmount)) :
    stakes.reverse = (s.userStakes user).map (Stake.settle s.now) ∧
      totalWithdraw = ((s.userStakes user).map (Stake.payout s.now)).sum ∧
      totalWithdraw ≤ s.totalOutstanding := by
  have hkept := h.stakes user
  obtain ⟨hstakes, htotal⟩ := payEnded_eq_ok (List.pairwise_reverse.mpr hkept.ordered)
    (List.pairwise_reverse.mpr hkept.paid_first) hpay
  dsimp only at hstakes htotal
  have hpaid : totalWithdraw = ((s.userStakes user).map (Stake.payout s.now)).sum := by
    rw [htotal, Nat.zero_add, List.map_reverse, List.sum_reverse]
  refine ⟨?_, hpaid, ?_⟩
  · rw [hstakes, List.map_reverse, List.reverse_reverse]
  · have hsettle := owedFor_settle_add s.now (s.userStakes user)
    have hpart : owedFor (s.userStakes user) ≤ s.liability :=
      Finset.single_le_sum (fun x _ => Nat.zero_le (owedFor (s.userStakes x)))
        (Finset.mem_univ user)
    have houtstanding := h.outstanding
    omega

theorem Kept.exit {sender : Address} (h : s.Kept) (hs : s.exit T sender = .ok s') : s'.Kept := by
  obtain ⟨stakes, totalWithdraw, stakedAmount, hpay, hle, token, -, rfl⟩ := exit_eq_ok hs
  obtain ⟨hstakes, hpaid, -⟩ := h.payEnded_eq hpay
  refine ⟨fun user => ?_, ?_⟩
  · by_cases huser : user = sender
    · subst huser
      simp only [Function.update_self]
      rw [hstakes]
      exact (h.stakes user).settle
    · simp only [Function.update_of_ne huser]
      exact h.stakes user
  · have hsum := s.liability_update sender stakes.reverse
    have hsettle := owedFor_settle_add s.now (s.userStakes sender)
    have houtstanding := h.outstanding
    rw [← hstakes, ← hpaid] at hsettle
    simp only [liability]
    unfold liability at hsum houtstanding
    omega

/-! ## Calls and runs -/

/-- A stake through a function is one the account's array admits. -/
theorem stakeWithChecks_admits {staker : Address} {amount duration : ℕ}
    (h : s.stakeWithChecks T staker amount duration = .ok s') :
    ∃ rate token, findDurationRate duration s.durations s.rates = .ok rate ∧
      s.Admits staker ⟨amount, s.now + duration, duration, rate, false, userStakeType⟩ ∧
      s' = { s.withStake staker
        ⟨amount, s.now + duration, duration, rate, false, userStakeType⟩ with token := token } := by
  obtain ⟨rate, hrate, hlength, token, -, rfl⟩ := stakeWithChecks_eq_ok h
  exact ⟨rate, token, hrate, ⟨Nat.le_add_right _ _, rfl, hlength, fun h => absurd rfl h⟩, rfl⟩

theorem airDroppedStake_admits {sender : Address} {index : ℕ} {stakeType : UInt8}
    {duration rate amount : ℕ} {merkleProof : List Bytes32}
    (h : s.airDroppedStake T keccak256 sender index stakeType duration rate amount merkleProof =
      .ok s') :
    s.Admits sender ⟨amount, s.now + duration, duration, rate, false, stakeType⟩ ∧
      s' = s.withStake sender ⟨amount, s.now + duration, duration, rate, false, stakeType⟩ := by
  obtain ⟨hclaimed, hlength, rfl⟩ := airDroppedStake_eq_ok h
  refine ⟨⟨Nat.le_add_right _ _, rfl, hlength, fun _ stake hmem hsame => ?_⟩, rfl⟩
  have hnone := List.any_eq_false.mp hclaimed stake hmem
  exact hnone (beq_iff_eq.mpr hsame)

theorem SettingsOnly.kept (h : SettingsOnly s s') (hs : s.Kept) : s'.Kept :=
  hs.of_same h.userStakes h.totalOutstanding h.now.ge

/-- Every step keeps the books. -/
theorem Kept.exec {step : Address × Action τ} (h : s.Kept)
    (hs : s.exec T keccak256 step = .ok s') : s'.Kept := by
  obtain ⟨sender, action⟩ := step
  cases action with
  | stake amount duration =>
      obtain ⟨rate, token, -, hadmits, rfl⟩ := stakeWithChecks_admits (stake_eq_ok hs)
      exact (h.withStake hadmits).of_same rfl rfl le_rfl
  | stakeWithSender staker amount duration =>
      obtain ⟨_, -, hs⟩ := bind_eq_ok.mp hs
      obtain ⟨rate, token, -, hadmits, rfl⟩ := stakeWithChecks_admits hs
      exact (h.withStake hadmits).of_same rfl rfl le_rfl
  | airDroppedStake index stakeType duration rate amount merkleProof =>
      obtain ⟨hadmits, rfl⟩ := airDroppedStake_admits hs
      exact h.withStake hadmits
  | exit => exact h.exit hs
  | setPaused | setDurationRates | setAirDropRoot | transferGovernance | claimGovernance =>
      exact (exec_settingsOnly rfl hs).kept h
  | wait seconds =>
      cases hs
      exact h.of_same rfl rfl (Nat.le_add_right _ _)
  | tokenMoves token =>
      obtain ⟨_, -, hs⟩ := bind_eq_ok.mp hs
      cases pure_eq_ok.mp hs
      exact h.of_same rfl rfl le_rfl

theorem Reached.kept {init : State τ} {trace : List (State τ × (Address × Action τ))}
    (h : Reached T keccak256 init trace s) : s.Kept := by
  refine Run.invariant Kept ?_ (fun _ _ _ hkept hstep => hkept.exec hstep) h.run
  obtain ⟨hstakes, howed⟩ := h.init_fresh
  constructor
  · intro user
    rw [hstakes]
    exact .nil init.now
  · rw [howed, liability, hstakes]
    exact (Finset.sum_eq_zero fun _ _ => rfl).symm

/-- In every state a run reaches, the stakes of every account are in the order of their
ends, at most 256, the paid ones have ended and come first, and there is at most one of
each type other than 0. A function that stakes adds the stake it is asked for, unpaid, and
leaves the stakes that were there. -/
theorem stakes_in_order {init : State τ} {trace : List (State τ × (Address × Action τ))}
    (h : Reached T keccak256 init trace s) :
    (∀ user, (s.userStakes user).Pairwise (fun a b => a.ends ≤ b.ends) ∧
      (s.userStakes user).length ≤ 256 ∧
      (∀ stake ∈ s.userStakes user, stake.paid = true → stake.ends < s.now) ∧
      (s.userStakes user).filter Stake.paid <+: s.userStakes user ∧
      ∀ t, t ≠ userStakeType →
        (s.userStakes user).countP (fun stake => decide (stake.stakeType = t)) ≤ 1) ∧
    (∀ sender amount duration s', s.stake T sender amount duration = .ok s' →
      ∃ rate, findDurationRate duration s.durations s.rates = .ok rate ∧
        s.Inserts sender ⟨amount, s.now + duration, duration, rate, false, userStakeType⟩ s') ∧
    (∀ sender staker amount duration s',
      s.stakeWithSender T sender staker amount duration = .ok s' →
      ∃ rate, findDurationRate duration s.durations s.rates = .ok rate ∧
        s.Inserts staker ⟨amount, s.now + duration, duration, rate, false, userStakeType⟩ s') ∧
    ∀ sender index stakeType duration rate amount merkleProof s',
      s.airDroppedStake T keccak256 sender index stakeType duration rate amount merkleProof =
        .ok s' →
      s.Inserts sender ⟨amount, s.now + duration, duration, rate, false, stakeType⟩ s' := by
  have hkept := h.kept
  refine ⟨fun user => ?_, ?_, ?_, ?_⟩
  · have hstakes := hkept.stakes user
    exact ⟨hstakes.ordered, hstakes.length_le, hstakes.paid_ended,
      Listing.filter_prefix_of_pairwise hstakes.paid_first, hstakes.types⟩
  · intro sender amount duration s' hs
    obtain ⟨rate, token, hrate, hadmits, rfl⟩ := stakeWithChecks_admits (stake_eq_ok hs)
    exact ⟨rate, hrate, hkept.inserts hadmits⟩
  · intro sender staker amount duration s' hs
    obtain ⟨_, -, hs⟩ := bind_eq_ok.mp hs
    obtain ⟨rate, token, hrate, hadmits, rfl⟩ := stakeWithChecks_admits hs
    exact ⟨rate, hrate, hkept.inserts hadmits⟩
  · intro sender index stakeType duration rate amount merkleProof s' hs
    obtain ⟨hadmits, rfl⟩ := airDroppedStake_admits hs
    exact hkept.inserts hadmits

/-- Two stakes of different durations, the shorter made second and paid first. -/
theorem stakes_in_order_paid :
    ∃ init trace s, Reached PlainToken.calls (fun _ => 0) init trace s ∧
      (s.userStakes 1).map Stake.paid = [true, false] ∧
      (s.userStakes 1).map Stake.amount = [40, 60] ∧
      (s.userStakes 1).filter Stake.paid <+: s.userStakes 1 := by
  have hsteps : Returns
      ((deployed 9 8 (PlainToken.approved 9 1 50 100) 1000).initialized 8 5 [90, 360]
        [10 ^ 17, 2 * 10 ^ 17] >>=
        fun init => execTrace (exec PlainToken.calls fun _ => 0) [] init
          [(1, .stake 60 360), (1, .stake 40 90), (1, .wait 91), (1, .exit)])
      fun out => (out.2.userStakes 1).map Stake.paid = [true, false] ∧
        (out.2.userStakes 1).map Stake.amount = [40, 60] := by decide
  obtain ⟨init, trace, s, hrun, hpaid, hamounts⟩ := reached_of_returns hsteps
  exact ⟨init, trace, s, hrun, hpaid, hamounts, ((stakes_in_order hrun).1 1).2.2.2.1⟩

/-- In every state a run reaches, `totalOutstanding` is what the unpaid stakes of all
accounts are owed, and what an exit would pay is part of it. -/
theorem outstanding_eq_owed {init : State τ} {trace : List (State τ × (Address × Action τ))}
    (h : Reached T keccak256 init trace s) :
    s.totalOutstanding = ∑ user, (((s.userStakes user).filter fun stake => !stake.paid).map
      fun stake => stake.amount + stake.amount * stake.rate / fullScale).sum ∧
    ∀ user stakes totalWithdraw stakedAmount,
      payEnded s.now (s.userStakes user).reverse 0 0 = .ok (stakes, totalWithdraw, stakedAmount) →
      totalWithdraw ≤ s.totalOutstanding := by
  have hkept := h.kept
  constructor
  · rw [hkept.outstanding, liability]
    exact Finset.sum_congr rfl fun user _ => owedFor_eq _
  · intro user stakes totalWithdraw stakedAmount hpay
    exact (hkept.payEnded_eq hpay).2.2

/-- Of two stakes of an account one was paid, and 72 are owed for the other. -/
theorem outstanding_eq_owed_rest :
    ∃ init trace s, Reached PlainToken.calls (fun _ => 0) init trace s ∧
      s.totalOutstanding = 72 ∧
      (∑ user, (((s.userStakes user).filter fun stake => !stake.paid).map
        fun stake => stake.amount + stake.amount * stake.rate / fullScale).sum) = 72 := by
  have hsteps : Returns
      ((deployed 9 8 (PlainToken.approved 9 1 50 100) 1000).initialized 8 5 [90, 360]
        [10 ^ 17, 2 * 10 ^ 17] >>=
        fun init => execTrace (exec PlainToken.calls fun _ => 0) [] init
          [(1, .stake 60 360), (1, .stake 40 90), (1, .wait 91), (1, .exit)])
      fun out => out.2.totalOutstanding = 72 := by decide
  obtain ⟨init, trace, s, hrun, htotal⟩ := reached_of_returns hsteps
  exact ⟨init, trace, s, hrun, htotal, (outstanding_eq_owed hrun).1.symm.trans htotal⟩

end State

end Staking

end InterestDollar
