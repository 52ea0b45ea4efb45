import InterestDollar.Liquidity.Bookkeeping
import InterestDollar.Liquidity.Entitlement

/-!
# Solvency of the liquidity reward contract

A campaign starts only where the reward tokens cover it and all that is pending, taken
together: the LP tokens at the accumulator, less the total debt. `Funded` is this
inequality, with the campaign blocks that are still to come. Blocks that pass move rewards
from the blocks to come into the accumulator, and what is paid out goes into the debts.

Two functions can break it. A deposit rounds its debt down, and the LP tokens together may
then be entitled to a unit more. And `stopCampaign` sets the end to the current block also
when the campaign ended long before: the blocks since the last update then come back, though
nothing was put aside for them.
-/

namespace InterestDollar

open Checked FixedPoint Transition

namespace Liquidity

namespace State

variable {ρ ℓ : Type} {R : Token ρ} {L : Token ℓ} {s s' : State ρ ℓ}

/-- The rewards of the campaign blocks that were not given out yet. -/
def rewardsToCome (s : State ρ ℓ) : ℕ :=
  s.rewardPerBlock * (s.endBlock - s.pool.lastRewardBlock)

/-- The reward tokens in the contract cover what is to come and what is pending for the LP
tokens together. -/
def Funded (R : Token ρ) (L : Token ℓ) (s : State ρ ℓ) : Prop :=
  (s.rewardsToCome : ℤ) + shares fullScale s.pool.accRewardPerShare (s.lpSupply L) -
    s.totalRewardDebt ≤ R.balanceOf s.reward s.self

/-- A deposit whose debt is not rounded to a unit too little, a campaign that is not stopped
again after its end, and a withdrawal that takes off in full. -/
def SettlesInFull (L : Token ℓ) (s : State ρ ℓ) (step : Address × Action ρ ℓ) : Prop :=
  match step.2 with
  | .deposit amount =>
      s.lpSupply L * s.accInForce L % fullScale + amount * s.accInForce L % fullScale < fullScale
  | .stopCampaign =>
      s.endBlock ≤ s.pool.lastRewardBlock → s.pool.lastRewardBlock < s.blockNumber →
        s.rewardPerBlock = 0
  | .withdraw _ _ => s.WithdrawsInFull L step
  | _ => True

instance (s : State ρ ℓ) (step : Address × Action ρ ℓ) : Decidable (s.SettlesInFull L step) :=
  match step with
  | (_, .deposit _) => Nat.decLt _ _
  | (_, .stopCampaign) =>
      inferInstanceAs (Decidable (s.endBlock ≤ s.pool.lastRewardBlock →
        s.pool.lastRewardBlock < s.blockNumber → s.rewardPerBlock = 0))
  | (sender, .withdraw amount claim) =>
      inferInstanceAs (Decidable (s.WithdrawsInFull L (sender, .withdraw amount claim)))
  | (_, .startCampaign _ _ _) | (_, .exit) | (_, .claim) | (_, .doUpdatePool)
  | (_, .transferGovernance _) | (_, .claimGovernance) | (_, .wait _) | (_, .rewardMoves _)
  | (_, .lpMoves _) => instDecidableTrue

theorem SettlesInFull.withdrawsInFull {step : Address × Action ρ ℓ}
    (h : s.SettlesInFull L step) : s.WithdrawsInFull L step := by
  obtain ⟨sender, action⟩ := step
  cases action with
  | withdraw => exact h
  | _ => trivial

/-- An update moves the reward of the blocks that are due into the accumulator. -/
theorem Funded.updated (h : s.Funded R L) : (s.updated L).Funded R L := by
  have hblocks : (s.updated L).rewardsToCome + s.blocksDue * s.rewardPerBlock ≤
      s.rewardsToCome := by
    have hsplit : s.endBlock - (s.updated L).pool.lastRewardBlock + s.blocksDue ≤
        s.endBlock - s.pool.lastRewardBlock := by
      unfold State.updated blocksDue
      dsimp only
      split_ifs <;> omega
    calc (s.updated L).rewardsToCome + s.blocksDue * s.rewardPerBlock
        = s.rewardPerBlock *
            (s.endBlock - (s.updated L).pool.lastRewardBlock + s.blocksDue) := by
          rw [Nat.mul_add, Nat.mul_comm s.blocksDue]
          rfl
      _ ≤ s.rewardsToCome := Nat.mul_le_mul_left _ hsplit
  have hshares : shares fullScale (s.accInForce L) (s.lpSupply L) ≤
      shares fullScale s.pool.accRewardPerShare (s.lpSupply L) + s.blocksDue * s.rewardPerBlock :=
    shares_rate_add_worth_le fullScale_pos _ _
  have hbefore : (s.rewardsToCome : ℤ) +
      shares fullScale s.pool.accRewardPerShare (s.lpSupply L) - s.totalRewardDebt ≤
        R.balanceOf s.reward s.self := h
  have hafter : ((s.updated L).rewardsToCome : ℤ) +
      shares fullScale (s.accInForce L) (s.lpSupply L) - s.totalRewardDebt ≤
        R.balanceOf s.reward s.self := by omega
  exact hafter

theorem Funded.deposit (hL : L.Standard) {sender : Address} {amount : ℕ} (hs : s.Funded R L)
    (hcaller : sender ≠ s.self) (hfull : s.SettlesInFull L (sender, .deposit amount))
    (h : s.deposit L sender amount = .ok s') : s'.Funded R L := by
  obtain ⟨-, lpToken, hlp, rfl⟩ := deposit_eq_ok h
  have hupdated : ((s.updated L).rewardsToCome : ℤ) +
      shares fullScale (s.accInForce L) (s.lpSupply L) - s.totalRewardDebt ≤
        R.balanceOf s.reward s.self := hs.updated
  have hbalance : L.balanceOf lpToken s.self = s.lpSupply L + amount :=
    hL.balanceOf_pulled hcaller hlp
  have hshares := (shares_add_le_iff fullScale_pos (s.lpSupply L) amount).mpr hfull
  have hafter : ((s.updated L).rewardsToCome : ℤ) +
      shares fullScale (s.accInForce L) (L.balanceOf lpToken s.self) -
        (s.totalRewardDebt + shares fullScale (s.accInForce L) amount) ≤
          R.balanceOf s.reward s.self := by
    rw [hbalance]
    omega
  exact hafter

theorem Funded.withdraw (hR : R.Standard) (hL : L.Standard) {sender : Address} {amount : ℕ}
    {claim : Bool} (hs : s.Funded R L) (hcaller : sender ≠ s.self)
    (h : s.withdraw R L sender amount claim = .ok s') : s'.Funded R L := by
  obtain ⟨-, -, pending, reward, lpToken, -, hreward, hlp, rfl⟩ := withdraw_eq_ok h
  have hupdated : ((s.updated L).rewardsToCome : ℤ) +
      shares fullScale (s.accInForce L) (s.lpSupply L) - s.totalRewardDebt ≤
        R.balanceOf s.reward s.self := hs.updated
  have hpaid : R.balanceOf reward s.self + pending = R.balanceOf s.reward s.self :=
    hR.balanceOf_pushed hcaller hreward
  have hbalance : L.balanceOf lpToken s.self + amount = s.lpSupply L :=
    hL.balanceOf_pushed hcaller hlp
  have hshares : shares fullScale (s.accInForce L) (L.balanceOf lpToken s.self) +
      shares fullScale (s.accInForce L) amount ≤
        shares fullScale (s.accInForce L) (s.lpSupply L) := by
    rw [← hbalance]
    exact shares_add_le _ _
  have hafter : ((s.updated L).rewardsToCome : ℤ) +
      shares fullScale (s.accInForce L) (L.balanceOf lpToken s.self) -
        (s.totalRewardDebt + (-(shares fullScale (s.accInForce L) amount : ℤ) + pending)) ≤
          R.balanceOf reward s.self := by omega
  exact hafter

theorem Funded.claim (hR : R.Standard) {sender : Address} (hs : s.Funded R L)
    (hcaller : sender ≠ s.self) (h : s.claim R L sender = .ok s') : s'.Funded R L := by
  obtain ⟨pending, reward, -, hreward, rfl⟩ := claim_eq_ok h
  have hbefore : (s.rewardsToCome : ℤ) +
      shares fullScale s.pool.accRewardPerShare (s.lpSupply L) - s.totalRewardDebt ≤
        R.balanceOf s.reward s.self := hs
  have hpaid : R.balanceOf reward s.self + pending = R.balanceOf s.reward s.self :=
    hR.balanceOf_pushed hcaller hreward
  have hafter : (s.rewardsToCome : ℤ) +
      shares fullScale s.pool.accRewardPerShare (s.lpSupply L) - (s.totalRewardDebt + pending) ≤
        R.balanceOf reward s.self := by omega
  exact hafter

theorem Funded.stopCampaign {sender : Address} (hs : s.Funded R L)
    (hfull : s.SettlesInFull L (sender, .stopCampaign)) (h : s.stopCampaign L sender = .ok s') :
    s'.Funded R L := by
  cases stopCampaign_eq_ok h
  have hupdated : ((s.updated L).rewardsToCome : ℤ) +
      shares fullScale (s.accInForce L) (s.lpSupply L) - s.totalRewardDebt ≤
        R.balanceOf s.reward s.self := hs.updated
  have hnone : s.rewardPerBlock * (s.blockNumber - (s.updated L).pool.lastRewardBlock) = 0 := by
    unfold State.updated
    dsimp only
    split_ifs with hearly
    · rcases Nat.lt_or_ge s.pool.lastRewardBlock s.blockNumber with hlast | hlast
      · rw [hfull (by omega) hlast, Nat.zero_mul]
      · rw [Nat.sub_eq_zero_of_le hlast, Nat.mul_zero]
    · rw [Nat.sub_self, Nat.mul_zero]
  have hafter : ((s.rewardPerBlock * (s.blockNumber - (s.updated L).pool.lastRewardBlock) : ℕ) : ℤ) +
      shares fullScale (s.accInForce L) (s.lpSupply L) - s.totalRewardDebt ≤
        R.balanceOf s.reward s.self := by omega
  exact hafter

theorem Funded.startCampaign {sender : Address} {rewardPerBlock startBlock numBlocks : ℕ}
    (h : s.startCampaign R L sender rewardPerBlock startBlock numBlocks = .ok s') :
    s'.Funded R L := by
  obtain ⟨fromBlock, -, hcovered, rfl⟩ := startCampaign_eq_ok h
  have hafter : ((rewardPerBlock * (fromBlock + numBlocks - fromBlock) : ℕ) : ℤ) +
      shares fullScale (s.accInForce L) (s.lpSupply L) - s.totalRewardDebt ≤
        R.balanceOf s.reward s.self := by
    rw [Nat.add_sub_cancel_left]
    push_cast
    omega
  exact hafter

theorem Funded.of_aside (hs : s.Funded R L) (h : Aside R L s s') : s'.Funded R L := by
  have hgiven : (R.balanceOf s.reward s.self : ℤ) ≤ R.balanceOf s'.reward s'.self :=
    Int.ofNat_le.mpr h.rewardBalance
  unfold Funded rewardsToCome at hs ⊢
  rw [h.pool, h.endBlock, h.rewardPerBlock, h.lpSupply, h.totalRewardDebt]
  exact hs.trans hgiven

/-- A step that settles in full keeps the contract funded. -/
theorem Funded.exec (hR : R.Standard) (hL : L.Standard) {step : Address × Action ρ ℓ}
    (hs : s.Funded R L) (hcaller : step.1 ≠ s.self) (hfull : s.SettlesInFull L step)
    (h : s.exec R L step = .ok s') : s'.Funded R L := by
  obtain ⟨sender, action⟩ := step
  cases action with
  | startCampaign rewardPerBlock startBlock numBlocks => exact Funded.startCampaign h
  | stopCampaign => exact hs.stopCampaign hfull h
  | deposit amount => exact hs.deposit hL hcaller hfull h
  | exit => exact hs.withdraw hR hL hcaller h
  | withdraw amount claim => exact hs.withdraw hR hL hcaller h
  | claim => exact hs.claim hR hcaller h
  | doUpdatePool =>
      cases updatePool_eq_ok h
      exact hs.updated
  | _ => exact hs.of_aside (exec_aside rfl h)

theorem Reached.funded (hR : R.Standard) (hL : L.Standard) {init : State ρ ℓ}
    {trace : List (State ρ ℓ × (Address × Action ρ ℓ))} (h : Reached R L init trace s)
    (hfull : ∀ e ∈ trace, e.1.SettlesInFull L e.2) : s.Funded R L := by
  refine Run.invariant_of_forall (fun s step => step.1 ≠ s.self ∧ s.SettlesInFull L step)
    (Funded R L) ?_ (fun s step s' hs hC hstep => hs.exec hR hL hC.1 hC.2 hstep) h.run
    fun e he => ⟨h.callers e he, hfull e he⟩
  obtain ⟨-, hdebt, hacc, hrate⟩ := h.init_fresh
  simp [Funded, rewardsToCome, shares, hdebt, hacc, hrate]

/-- What the view returns for an account that is covered, and nothing where it reverts, is
within its entitlement less its debt. -/
theorem pendingRewards_le (h : s.Covered L) (user : Address) :
    (((s.pendingRewards L user).toOption.getD 0 : ℕ) : ℤ) ≤
      s.entitlement L user - (s.userInfo user).rewardDebt := by
  cases hpending : s.pendingRewards L user with
  | error e => exact Int.sub_nonneg.mpr (h user)
  | ok pending => exact (pendingRewards_eq_ok hpending).2.2.le

/-- What is pending for the accounts one by one is within what is pending for the LP tokens
together. -/
theorem sum_pendingRewards_le (hbooked : s.Booked L) (hcovered : s.Covered L) :
    ((∑ user, (s.pendingRewards L user).toOption.getD 0 : ℕ) : ℤ) ≤
      shares fullScale (s.accInForce L) (s.lpSupply L) - s.totalRewardDebt := by
  have heach : ((∑ user, (s.pendingRewards L user).toOption.getD 0 : ℕ) : ℤ) ≤
      ∑ user, ((s.entitlement L user : ℤ) - (s.userInfo user).rewardDebt) := by
    rw [Nat.cast_sum]
    exact Finset.sum_le_sum fun user _ => pendingRewards_le hcovered user
  have htogether : ∑ user, s.entitlement L user ≤
      shares fullScale (s.accInForce L) (s.lpSupply L) :=
    (sum_shares_le _ _).trans (shares_mono hbooked.amounts)
  rw [Finset.sum_sub_distrib, ← hbooked.debts, ← Nat.cast_sum] at heach
  omega

/-- In every state of a run whose steps all settle in full, the reward tokens of the contract
cover what is pending for all accounts and the rewards of the campaign blocks still to come. -/
theorem rewards_covered (hR : R.Standard) (hL : L.Standard) {init : State ρ ℓ}
    {trace : List (State ρ ℓ × (Address × Action ρ ℓ))} (h : Reached R L init trace s)
    (hfull : ∀ e ∈ trace, e.1.SettlesInFull L e.2) :
    (∑ user, (s.pendingRewards L user).toOption.getD 0) +
        s.rewardPerBlock * (s.endBlock - max s.blockNumber s.pool.lastRewardBlock) ≤
      R.balanceOf s.reward s.self := by
  have hcovered : s.Covered L := noneStuck_iff_covered.mp
    ((none_stuck_iff h).mpr fun e he => (hfull e he).withdrawsInFull).2
  have hpending := sum_pendingRewards_le (h.booked hL) hcovered
  have hfunded : ((s.updated L).rewardsToCome : ℤ) +
      shares fullScale (s.accInForce L) (s.lpSupply L) - s.totalRewardDebt ≤
        R.balanceOf s.reward s.self := (h.funded hR hL hfull).updated
  have hcome : s.rewardPerBlock * (s.endBlock - max s.blockNumber s.pool.lastRewardBlock) ≤
      (s.updated L).rewardsToCome := by
    refine Nat.mul_le_mul_left _ ?_
    unfold State.updated
    dsimp only
    split_ifs <;> omega
  omega

/-- Two accounts share a campaign of four blocks; one claims and withdraws half. -/
theorem rewards_covered_shared :
    ∃ init trace s, Reached PlainToken.calls PlainToken.calls init trace s ∧
      s.pendingRewards PlainToken.calls 1 = .ok 1 ∧ s.pendingRewards PlainToken.calls 2 = .ok 2 ∧
      (∑ user, (s.pendingRewards PlainToken.calls user).toOption.getD 0) +
        s.rewardPerBlock * (s.endBlock - max s.blockNumber s.pool.lastRewardBlock) ≤ 6 := by
  have hsteps : Returns
      ((deployed 9 8 (PlainToken.approved 9 1 10 0)
          (⟨fun a => if a = 1 ∨ a = 2 then 4 else 0, fun _ _ => 4⟩ : PlainToken) 100).initialized
          8 >>=
        fun init => execTrace (exec PlainToken.calls PlainToken.calls) [] init
          [(8, .startCampaign 2 0 4), (1, .deposit 4), (1, .wait 1), (2, .deposit 2),
            (2, .wait 2), (1, .claim), (1, .withdraw 2 false), (1, .wait 1)])
      fun out => (∀ e ∈ out.1, e.2.1 ≠ e.1.self) ∧
        Returns (out.2.pendingRewards PlainToken.calls 1) (· = 1) ∧
        Returns (out.2.pendingRewards PlainToken.calls 2) (· = 2) ∧
        out.2.reward.balances out.2.self = 6 ∧
        ∀ e ∈ out.1, e.1.SettlesInFull PlainToken.calls e.2 := by decide
  obtain ⟨init, trace, s, hrun, ⟨_, hfirst, rfl⟩, ⟨_, hsecond, rfl⟩, hbalance, hfull⟩ :=
    reached_of_returns hsteps
  have hcovered := rewards_covered PlainToken.standard PlainToken.standard hrun hfull
  exact ⟨init, trace, s, hrun, hfirst, hsecond, hcovered.trans_eq hbalance⟩

/-- A campaign of one block is over and its reward claimed. Three blocks later it is stopped
again: the three blocks come back, and their rewards are pending, with no token left to pay
them. -/
theorem rewards_not_covered :
    ∃ init trace s, Reached PlainToken.calls PlainToken.calls init trace s ∧
      s.pendingRewards PlainToken.calls 1 = .ok 3 ∧ s.reward.balances s.self = 0 ∧
      ¬ (∑ user, (s.pendingRewards PlainToken.calls user).toOption.getD 0) +
        s.rewardPerBlock * (s.endBlock - max s.blockNumber s.pool.lastRewardBlock) ≤
          PlainToken.calls.balanceOf s.reward s.self := by
  have hsteps : Returns
      ((deployed 9 8 (PlainToken.approved 9 1 1 0) (PlainToken.approved 9 1 0 1) 100).initialized
          8 >>=
        fun init => execTrace (exec PlainToken.calls PlainToken.calls) [] init
          [(8, .startCampaign 1 0 1), (1, .deposit 1), (1, .wait 1), (1, .doUpdatePool),
            (1, .claim), (1, .wait 3), (8, .stopCampaign)])
      fun out => (∀ e ∈ out.1, e.2.1 ≠ e.1.self) ∧
        Returns (out.2.pendingRewards PlainToken.calls 1) (· = 3) ∧
        out.2.reward.balances out.2.self = 0 := by decide
  obtain ⟨init, trace, s, hrun, ⟨_, hpending, rfl⟩, hbalance⟩ := reached_of_returns hsteps
  refine ⟨init, trace, s, hrun, hpending, hbalance, fun hle => ?_⟩
  have hone : ∀ f : Address → ℕ, f 1 ≤ ∑ user, f user := fun f =>
    Finset.single_le_sum (fun _ _ => Nat.zero_le _) (Finset.mem_univ 1)
  have hfirst := hone fun user => (s.pendingRewards PlainToken.calls user).toOption.getD 0
  rw [hpending] at hfirst
  have hzero : PlainToken.calls.balanceOf s.reward s.self = 0 := hbalance
  have hthree : (Except.ok 3 : Except Revert ℕ).toOption.getD 0 = 3 := rfl
  omega

end State

end Liquidity

end InterestDollar
