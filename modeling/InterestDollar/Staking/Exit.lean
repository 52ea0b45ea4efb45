import InterestDollar.Staking.Bookkeeping

/-!
# What an exit pays

`exit` walks the stakes of its caller from the back and stops at the first ended one that
was paid already. In a run that is no early stop: every stake before that one was paid
too (`StakesKept.paid_first`), so the stakes an exit pays are all the stakes of its caller
that have ended and were not paid.
-/

namespace InterestDollar

open Checked Transition

namespace Staking

/-- The stake once an exit has paid it, if it was due. -/
def Stake.pay (now : ℕ) (stake : Stake) : Stake :=
  if stake.Due now then { stake with paid := true } else stake

/-- Settling a stake changes it only where it is due. -/
theorem settle_eq_pay (now : ℕ) (stake : Stake) : stake.settle now = stake.pay now := by
  unfold Stake.pay
  split_ifs with hdue
  · exact if_pos hdue.1
  · by_cases hend : stake.ends < now
    · have hpaid : stake.paid = true := by
        by_contra hunpaid
        exact hdue ⟨hend, Bool.not_eq_true _ ▸ hunpaid⟩
      exact settle_of_paid hpaid
    · exact settle_of_not_ended hend

theorem not_due_pay (now : ℕ) (stake : Stake) : ¬ (stake.pay now).Due now := by
  unfold Stake.pay
  split_ifs with hdue
  · intro hagain
    simp [Stake.Due] at hagain
  · exact hdue

/-- What an exit pays for the stakes of an account. -/
def dueTotal (now : ℕ) (stakes : List Stake) : ℕ :=
  ((stakes.filter fun stake => decide (stake.Due now)).map
    fun stake => stake.amount + stake.amount * stake.rate / fullScale).sum

theorem sum_payout_eq (now : ℕ) (stakes : List Stake) :
    (stakes.map (Stake.payout now)).sum = dueTotal now stakes := by
  induction stakes with
  | nil => rfl
  | cons stake stakes ih =>
      by_cases hdue : stake.Due now
      · simpa [dueTotal, Stake.payout, Stake.expected, hdue] using ih
      · simpa [dueTotal, Stake.payout, hdue] using ih

theorem totalExpected_avoids (stake : Stake) (reason : String) :
    Avoids (.require reason) (totalExpected stake) := by
  refine avoids_bind (avoids_bind ?_ fun _ _ => ?_) fun _ _ => ?_
  · exact fun h => nomatch (SafeMath.mul_eq_error.mp h).2
  · exact fun h => nomatch (SafeMath.div_eq_error.mp h).2
  · exact fun h => nomatch (SafeMath.add_eq_error.mp h).2

/-- The loop of `exit` has no check of its own that fails. -/
theorem payEnded_avoids (now : ℕ) (reason : String) (stakes : List Stake) (total staked : ℕ) :
    Avoids (.require reason) (payEnded now stakes total staked) := by
  have hadd : ∀ a b, Avoids (.require reason) (SafeMath.add a b) :=
    fun a b h => nomatch (SafeMath.add_eq_error.mp h).2
  induction stakes generalizing total staked with
  | nil => exact avoids_ok
  | cons stake rest ih =>
      unfold payEnded
      refine avoids_ite (fun _ => avoids_ok) fun _ => avoids_ite (fun _ => ?_) fun _ => ?_
      · refine avoids_bind (totalExpected_avoids stake reason) fun _ _ => ?_
        refine avoids_bind (hadd _ _) fun _ _ => avoids_bind (hadd _ _) fun _ _ => ?_
        exact avoids_bind (ih _ _) fun _ _ => avoids_pure
      · exact avoids_bind (ih _ _) fun _ _ => avoids_pure

namespace State

variable {τ : Type} {T : Token τ} {keccak256 : List UInt8 → Bytes32} {s : State τ}

/-- An exit that reverts with the text of its own check found nothing to pay, where the
token does not revert with that text. -/
theorem Kept.exit_locked {sender : Address} (h : s.Kept)
    (htoken : ∀ t caller recipient amount,
      Avoids (.require "All stakes in lock-up") (T.safeTransfer t caller recipient amount))
    (hs : s.exit T sender = .error (.require "All stakes in lock-up")) :
    dueTotal s.now (s.userStakes sender) = 0 := by
  rcases bind_eq_error.mp hs with hbad | ⟨_, -, hs⟩
  · simp at hbad
  rcases bind_eq_error.mp hs with hbad | ⟨⟨stakes, totalWithdraw, stakedAmount⟩, hpay, hs⟩
  · exact absurd hbad (payEnded_avoids _ _ _ _ _)
  rcases bind_eq_error.mp hs with hbad | ⟨_, -, hs⟩
  · obtain ⟨-, hpaid, -⟩ := h.payEnded_eq hpay
    rw [← sum_payout_eq, ← hpaid]
    exact Nat.eq_zero_of_not_pos (require_eq_error.mp hbad).1
  rcases bind_eq_error.mp hs with hbad | ⟨_, -, hs⟩
  · cases (SafeMath.sub_eq_error.mp hbad).2
  rcases bind_eq_error.mp hs with hbad | ⟨_, -, hs⟩
  · exact absurd hbad (htoken _ _ _ _)
  rcases bind_eq_error.mp hs with hbad | ⟨_, -, hs⟩
  · simp [requireLiquidity] at hbad
  · exact (pure_eq_error.mp hs).elim

/-- In every state a run reaches, an exit that succeeds marks as paid exactly the stakes of
its caller that have ended and were not paid, transfers to the caller what they are owed,
takes that off `totalOutstanding` and leaves everything else alone, so no stake of the
caller is due any more. It reverts because all stakes are locked up only where nothing is
owed for ended stakes. The text of that check is none the token reverts with. -/
theorem exit_complete {init : State τ} {trace : List (State τ × (Address × Action τ))}
    (htoken : ∀ t caller recipient amount,
      Avoids (.require "All stakes in lock-up") (T.safeTransfer t caller recipient amount))
    (h : Reached T keccak256 init trace s) (sender : Address) :
    (∀ s', s.exit T sender = .ok s' →
      T.safeTransfer s.token s.self sender (dueTotal s.now (s.userStakes sender)) =
        .ok s'.token ∧
      dueTotal s.now (s.userStakes sender) ≤ s.totalOutstanding ∧
      s' = { s with
        userStakes := Function.update s.userStakes sender
          ((s.userStakes sender).map fun stake =>
            if stake.ends < s.now ∧ stake.paid = false then { stake with paid := true } else stake)
        totalOutstanding := s.totalOutstanding - dueTotal s.now (s.userStakes sender)
        token := s'.token } ∧
      ∀ stake ∈ s'.userStakes sender, ¬ (stake.ends < s.now ∧ stake.paid = false)) ∧
    (s.exit T sender = .error (.require "All stakes in lock-up") →
      dueTotal s.now (s.userStakes sender) = 0) := by
  have hkept := h.kept
  refine ⟨fun s' hs => ?_, hkept.exit_locked htoken⟩
  obtain ⟨stakes, totalWithdraw, stakedAmount, hpay, hle, token, hsent, rfl⟩ := exit_eq_ok hs
  obtain ⟨hstakes, hpaid, -⟩ := hkept.payEnded_eq hpay
  rw [sum_payout_eq] at hpaid
  subst hpaid
  have hmarked : stakes.reverse = (s.userStakes sender).map (Stake.pay s.now) :=
    hstakes.trans (List.map_congr_left fun stake _ => settle_eq_pay s.now stake)
  refine ⟨hsent, hle, ?_, ?_⟩
  · rw [hmarked]
    rfl
  · intro stake hmem hdue
    simp only [Function.update_self, hmarked] at hmem
    obtain ⟨x, -, rfl⟩ := List.mem_map.mp hmem
    exact not_due_pay s.now x hdue

/-- Two stakes of different durations, of which the shorter has ended: the exit pays its 44
and leaves nothing that is due. -/
theorem exit_complete_shorter :
    ∃ init trace s s', Reached PlainToken.calls (fun _ => 0) init trace s ∧
      s.exit PlainToken.calls 1 = .ok s' ∧ s'.totalOutstanding = s.totalOutstanding - 44 ∧
      dueTotal s'.now (s'.userStakes 1) = 0 := by
  have hsteps : Returns
      ((deployed 9 8 (PlainToken.approved 9 1 50 100) 1000).initialized 8 5 [90, 360]
        [10 ^ 17, 2 * 10 ^ 17] >>=
        fun init => execTrace (exec PlainToken.calls fun _ => 0) [] init
          [(1, .stake 60 360), (1, .stake 40 90), (1, .wait 91)])
      fun out => dueTotal out.2.now (out.2.userStakes 1) = 44 ∧
        Succeeds (out.2.exit PlainToken.calls 1) := by decide
  obtain ⟨init, trace, s, hrun, hdue, hexit⟩ := reached_of_returns hsteps
  obtain ⟨s', hs⟩ := succeeds_iff.mp hexit
  have htoken : ∀ t caller recipient amount, Avoids (.require "All stakes in lock-up")
      (PlainToken.calls.safeTransfer t caller recipient amount) := fun t caller recipient amount =>
    avoids_bind (fun h => nomatch (SafeMath.sub_eq_error.mp h).2) fun _ _ => avoids_pure
  obtain ⟨-, -, hstate, hnone⟩ := (exit_complete htoken hrun 1).1 s' hs
  refine ⟨init, trace, s, s', hrun, hs, by rw [hstate, ← hdue], ?_⟩
  have hempty : (s'.userStakes 1).filter (fun stake => decide (stake.Due s'.now)) = [] :=
    List.filter_eq_nil_iff.mpr fun stake hmem hdue' => by
      rw [hstate] at hdue'
      exact hnone stake hmem (of_decide_eq_true hdue')
  simp [dueTotal, hempty]

end State

end Staking

end InterestDollar
