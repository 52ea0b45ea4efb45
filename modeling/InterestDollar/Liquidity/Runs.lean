import InterestDollar.FixedPoint.Portion
import InterestDollar.Liquidity.Contract
import InterestDollar.Transition.Run
import Mathlib.Algebra.Order.Ring.Int

/-!
# Runs of the liquidity reward contract

A run starts from an initialized contract. Its steps are the external functions, called by
any account but the contract itself, the passing of blocks, and what else happens to the two
tokens: the reward tokens of the contract only leave by its own transfers, and its LP tokens
come and go by deposits and withdrawals alone.

What every function does is said with the accumulator in force, `accInForce`: the stored
accumulator with the reward of the blocks that are due.
-/

namespace InterestDollar

open Checked FixedPoint Transition

namespace Liquidity

/-- The external functions, and what happens around the contract. -/
inductive Action (ρ ℓ : Type)
  | startCampaign (rewardPerBlock startBlock numBlocks : ℕ)
  | stopCampaign
  | deposit (amount : ℕ)
  | exit
  | withdraw (amount : ℕ) (claim : Bool)
  | claim
  | doUpdatePool
  | transferGovernance (newGovernor : Address)
  | claimGovernance
  | wait (blocks : ℕ)
  | rewardMoves (reward : ρ)
  | lpMoves (lpToken : ℓ)

theorem subDebt_eq_ok {amount p : ℕ} {debt : ℤ} (h : subDebt amount debt = .ok p) :
    debt ≤ amount ∧ (p : ℤ) = amount - debt := by
  unfold subDebt at h
  split_ifs at h with hneg
  · obtain ⟨-, rfl⟩ := SafeMath.add_eq_ok.mp h
    omega
  · obtain ⟨hle, rfl⟩ := SafeMath.sub_eq_ok.mp h
    omega

/-- A debt within the amount is taken off without an underflow. -/
theorem subDebt_avoids {amount : ℕ} {debt : ℤ} (h : debt ≤ amount) :
    Avoids (.subtractionOverflow .memory) (subDebt amount debt) :=
  avoids_ite (fun _ => SafeMath.add_avoids) fun _ =>
    SafeMath.sub_avoids fun _ => Int.toNat_le.mpr h

/-- The steps that are about none of the accounts, the pool and the campaign. -/
def Action.aside {ρ ℓ : Type} : Action ρ ℓ → Bool
  | .transferGovernance _ | .claimGovernance | .wait _ | .rewardMoves _ | .lpMoves _ => true
  | _ => false

/-- The functions that move the amount or the debt of an account. -/
def Action.setsUser {ρ ℓ : Type} : Action ρ ℓ → Bool
  | .deposit _ | .exit | .withdraw _ _ | .claim => true
  | _ => false

namespace State

variable {ρ ℓ : Type}

/-- One call by an account, or one change around the contract. -/
def exec (R : Token ρ) (L : Token ℓ) (s : State ρ ℓ) (step : Address × Action ρ ℓ) :
    Except Revert (State ρ ℓ) :=
  let (sender, action) := step
  match action with
  | .startCampaign rewardPerBlock startBlock numBlocks =>
      s.startCampaign R L sender rewardPerBlock startBlock numBlocks
  | .stopCampaign => s.stopCampaign L sender
  | .deposit amount => s.deposit L sender amount
  | .exit => s.exit R L sender
  | .withdraw amount claim => s.withdraw R L sender amount claim
  | .claim => s.claim R L sender
  | .doUpdatePool => s.doUpdatePool L
  | .transferGovernance newGovernor => s.transferGovernance sender newGovernor
  | .claimGovernance => s.claimGovernance sender
  | .wait blocks => .ok { s with blockNumber := s.blockNumber + blocks }
  | .rewardMoves reward => do
      require (R.balanceOf s.reward s.self ≤ R.balanceOf reward s.self) "Not the holder"
      return { s with reward := reward }
  | .lpMoves lpToken => do
      require (L.balanceOf lpToken s.self = L.balanceOf s.lpToken s.self) "Not the holder"
      return { s with lpToken := lpToken }

/-- Runs from an initialized contract: the state right after `initialize`, the trace and
the state reached. -/
structure Reached (R : Token ρ) (L : Token ℓ) (init : State ρ ℓ)
    (trace : List (State ρ ℓ × (Address × Action ρ ℓ))) (s : State ρ ℓ) : Prop where
  initialized : ∃ self governor reward lpToken blockNumber,
    (deployed self governor reward lpToken blockNumber).initialized governor = .ok init
  callers : ∀ e ∈ trace, e.2.1 ≠ e.1.self
  run : Run (fun s step s' => s.exec R L step = .ok s') init trace s

/-- The run of a list of steps, where all of them succeed. -/
theorem reached_of_returns {R : Token ρ} {L : Token ℓ} {self governor : Address} {reward : ρ}
    {lpToken : ℓ} {blockNumber : ℕ} {steps : List (Address × Action ρ ℓ)}
    {P : List (State ρ ℓ × (Address × Action ρ ℓ)) × State ρ ℓ → Prop}
    (h : Returns ((deployed self governor reward lpToken blockNumber).initialized governor >>=
        fun init => execTrace (exec R L) [] init steps)
      fun out => (∀ e ∈ out.1, e.2.1 ≠ e.1.self) ∧ P out) :
    ∃ init trace s, Reached R L init trace s ∧ P (trace, s) := by
  obtain ⟨⟨trace, s⟩, hout, hcallers, hP⟩ := h
  obtain ⟨init, hinit, hsteps⟩ := bind_eq_ok.mp hout
  have hfresh : ∃ self governor reward lpToken blockNumber,
      (deployed self governor reward lpToken blockNumber).initialized governor = .ok init :=
    ⟨self, governor, reward, lpToken, blockNumber, hinit⟩
  exact ⟨init, trace, s, ⟨hfresh, hcallers, run_of_execTrace .nil hsteps⟩, hP⟩

/-- A contract that was just initialized: nothing deposited, nothing earned. -/
theorem Reached.init_fresh {R : Token ρ} {L : Token ℓ} {init s : State ρ ℓ}
    {trace : List (State ρ ℓ × (Address × Action ρ ℓ))} (h : Reached R L init trace s) :
    init.userInfo = (fun _ => ⟨0, 0⟩) ∧ init.totalRewardDebt = 0 ∧
      init.pool.accRewardPerShare = 0 ∧ init.rewardPerBlock = 0 := by
  obtain ⟨self, governor, reward, lpToken, blockNumber, hinit⟩ := h.initialized
  obtain ⟨_, -, hinit⟩ := bind_eq_ok.mp hinit
  cases pure_eq_ok.mp hinit
  exact ⟨rfl, rfl, rfl, rfl⟩

/-! ## The accumulator in force -/

variable {R : Token ρ} {L : Token ℓ} {s s' : State ρ ℓ}

/-- The blocks of the campaign since the last update. -/
def blocksDue (s : State ρ ℓ) : ℕ := min s.blockNumber s.endBlock - s.pool.lastRewardBlock

/-- The accumulator in force. The blocks during which there are no LP tokens give out
nothing. -/
def accInForce (L : Token ℓ) (s : State ρ ℓ) : ℕ :=
  s.pool.accRewardPerShare + worth fullScale (s.lpSupply L) (s.blocksDue * s.rewardPerBlock)

/-- What an account is entitled to since the beginning, had it always had its amount. -/
def entitlement (L : Token ℓ) (s : State ρ ℓ) (user : Address) : ℕ :=
  shares fullScale (s.accInForce L) (s.userInfo user).amount

theorem getCampaignMultiplier_eq_ok {multiplier : ℕ}
    (h : s.getCampaignMultiplier s.blockNumber = .ok multiplier) : multiplier = s.blocksDue := by
  unfold getCampaignMultiplier at h
  unfold blocksDue
  split_ifs at h with hended hrunning
  · cases h
    omega
  · obtain ⟨-, rfl⟩ := SafeMath.sub_eq_ok.mp h
    omega
  · obtain ⟨-, rfl⟩ := SafeMath.sub_eq_ok.mp h
    omega

theorem accrued_eq_ok {acc : ℕ} (h : s.accrued L = .ok acc) : acc = s.accInForce L := by
  obtain ⟨multiplier, hmultiplier, h⟩ := bind_eq_ok.mp h
  obtain ⟨incReward, hreward, h⟩ := bind_eq_ok.mp h
  obtain ⟨inc, hinc, h⟩ := bind_eq_ok.mp h
  obtain ⟨-, rfl⟩ := SafeMath.add_eq_ok.mp h
  obtain ⟨-, -, rfl⟩ := StableMath.divPrecisely_eq_ok.mp hinc
  obtain ⟨-, rfl⟩ := SafeMath.mul_eq_ok.mp hreward
  rw [accInForce, getCampaignMultiplier_eq_ok hmultiplier]

/-- Where there are no blocks due or no LP tokens the stored accumulator is in force. -/
theorem accInForce_of_nothing_due (h : s.blocksDue = 0 ∨ s.lpSupply L = 0) :
    s.accInForce L = s.pool.accRewardPerShare := by
  unfold accInForce worth
  rcases h with h | h
  · simp [h]
  · simp [h]

theorem blocksDue_eq_zero
    (h : s.blockNumber ≤ s.pool.lastRewardBlock ∨ s.endBlock ≤ s.pool.lastRewardBlock) :
    s.blocksDue = 0 := by
  unfold blocksDue
  omega

/-! ## What the functions do -/

/-- The contract after an update of the pool. -/
def updated (L : Token ℓ) (s : State ρ ℓ) : State ρ ℓ :=
  { s with
    pool := ⟨if s.blockNumber ≤ s.pool.lastRewardBlock ∨ s.endBlock ≤ s.pool.lastRewardBlock
        then s.pool.lastRewardBlock else s.blockNumber,
      s.accInForce L⟩ }

theorem updatePool_eq_ok (h : s.updatePool L = .ok s') : s' = s.updated L := by
  unfold updatePool at h
  unfold updated
  split_ifs at h ⊢ with hearly hempty
  · cases h
    rw [accInForce_of_nothing_due (.inl (blocksDue_eq_zero hearly))]
  · cases h
    rw [accInForce_of_nothing_due (.inr hempty)]
  · obtain ⟨acc, hacc, h⟩ := bind_eq_ok.mp h
    cases pure_eq_ok.mp h
    rw [accrued_eq_ok hacc]

/-- After an update no block is due. -/
theorem updated_blocksDue (L : Token ℓ) (s : State ρ ℓ) : (s.updated L).blocksDue = 0 := by
  unfold blocksDue updated
  dsimp only
  split_ifs with hearly
  · omega
  · omega

/-- The accumulator that `pendingRewards` computes is the one in force. -/
theorem viewed_eq_accInForce {acc : ℕ}
    (h : (if s.pool.lastRewardBlock < s.blockNumber then
        if s.lpSupply L ≠ 0 then s.accrued L else .ok s.pool.accRewardPerShare
      else .ok s.pool.accRewardPerShare) = .ok acc) : acc = s.accInForce L := by
  split_ifs at h with hlast hempty
  · exact accrued_eq_ok h
  · cases h
    exact (accInForce_of_nothing_due (.inr (not_not.mp hempty))).symm
  · cases h
    exact (accInForce_of_nothing_due (.inl (blocksDue_eq_zero (.inl (not_lt.mp hlast))))).symm

theorem pendingRewards_eq_ok {user : Address} {pending : ℕ}
    (h : s.pendingRewards L user = .ok pending) :
    (s.userInfo user).amount * s.accInForce L < wordBound ∧
      (s.userInfo user).rewardDebt ≤ s.entitlement L user ∧
      (pending : ℤ) = s.entitlement L user - (s.userInfo user).rewardDebt := by
  obtain ⟨acc, hacc, h⟩ := bind_eq_ok.mp h
  obtain ⟨entitled, hentitled, h⟩ := bind_eq_ok.mp h
  obtain ⟨hfit, rfl⟩ := StableMath.mulTruncate_eq_ok.mp hentitled
  rw [viewed_eq_accInForce hacc] at h hfit
  exact ⟨hfit, subDebt_eq_ok h⟩

/-- What is left to pay after an update is what the view said before it. -/
theorem settledRewards_updated_eq_ok {user : Address} {pending : ℕ}
    (h : (s.updated L).settledRewards user = .ok pending) :
    (s.userInfo user).amount * s.accInForce L < wordBound ∧
      (s.userInfo user).rewardDebt ≤ s.entitlement L user ∧
      (pending : ℤ) = s.entitlement L user - (s.userInfo user).rewardDebt := by
  obtain ⟨entitled, hentitled, h⟩ := bind_eq_ok.mp h
  obtain ⟨hfit, rfl⟩ := StableMath.mulTruncate_eq_ok.mp hentitled
  exact ⟨hfit, subDebt_eq_ok h⟩

/-- A deposit updates the pool and takes the amount in, with what the amount would have
earned so far as the debt. -/
theorem deposit_eq_ok {sender : Address} {amount : ℕ} (h : s.deposit L sender amount = .ok s') :
    amount * s.accInForce L < wordBound ∧ ∃ lpToken,
      (if 0 < amount then L.safeTransferFrom s.lpToken s.self sender s.self amount
        else .ok s.lpToken) = .ok lpToken ∧
      s' = { (s.updated L).setUser sender ((s.userInfo sender).amount + amount)
        (shares fullScale (s.accInForce L) amount) with lpToken := lpToken } := by
  obtain ⟨t, ht, h⟩ := bind_eq_ok.mp h
  cases updatePool_eq_ok ht
  split_ifs at h with hpos
  · obtain ⟨total, htotal, h⟩ := bind_eq_ok.mp h
    obtain ⟨newDebt, hdebt, h⟩ := bind_eq_ok.mp h
    obtain ⟨lpToken, hlp, h⟩ := bind_eq_ok.mp h
    obtain ⟨-, rfl⟩ := SafeMath.add_eq_ok.mp htotal
    obtain ⟨hfit, rfl⟩ := StableMath.mulTruncate_eq_ok.mp hdebt
    refine ⟨hfit, lpToken, ?_, (pure_eq_ok.mp h).symm⟩
    rw [if_pos hpos]
    exact hlp
  · cases pure_eq_ok.mp h
    have hzero : amount = 0 := by omega
    refine ⟨?_, s.lpToken, if_neg hpos, ?_⟩
    · rw [hzero, Nat.zero_mul]
      exact Nat.two_pow_pos 256
    · simp [hzero, setUser, updated, shares]

/-- A withdrawal updates the pool, pays the rewards if they are claimed, and lowers the
debt by what the amount has earned. -/
theorem withdraw_eq_ok {sender : Address} {amount : ℕ} {claim : Bool}
    (h : s.withdraw R L sender amount claim = .ok s') :
    amount ≤ (s.userInfo sender).amount ∧ amount * s.accInForce L < wordBound ∧
      ∃ pending reward lpToken,
      (if claim then (s.updated L).settledRewards sender else .ok 0) = .ok pending ∧
      s.payReward R sender pending = .ok reward ∧
      (if 0 < amount then L.safeTransfer s.lpToken s.self sender amount
        else .ok s.lpToken) = .ok lpToken ∧
      s' = { (s.updated L).setUser sender ((s.userInfo sender).amount - amount)
        (-(shares fullScale (s.accInForce L) amount : ℤ) + pending) with
        reward := reward
        lpToken := lpToken } := by
  obtain ⟨_, hamount, h⟩ := bind_eq_ok.mp h
  obtain ⟨t, ht, h⟩ := bind_eq_ok.mp h
  cases updatePool_eq_ok ht
  obtain ⟨withdrawn, hwithdrawn, h⟩ := bind_eq_ok.mp h
  obtain ⟨pending, hpending, h⟩ := bind_eq_ok.mp h
  obtain ⟨reward, hreward, h⟩ := bind_eq_ok.mp h
  obtain ⟨left, hleft, h⟩ := bind_eq_ok.mp h
  obtain ⟨lpToken, hlp, h⟩ := bind_eq_ok.mp h
  obtain ⟨hfit, rfl⟩ := StableMath.mulTruncate_eq_ok.mp hwithdrawn
  have hrest : left = (s.userInfo sender).amount - amount := by
    split_ifs at hleft with hpos
    · exact (SafeMath.sub_eq_ok.mp hleft).2
    · cases hleft
      have hzero : amount = 0 := by omega
      rw [hzero, Nat.sub_zero]
      rfl
  subst hrest
  exact ⟨require_eq_ok.mp hamount, hfit, pending, reward, lpToken, hpending, hreward, hlp,
    (pure_eq_ok.mp h).symm⟩

theorem claim_eq_ok {sender : Address} (h : s.claim R L sender = .ok s') :
    ∃ pending reward, s.pendingRewards L sender = .ok pending ∧
      s.payReward R sender pending = .ok reward ∧
      s' = { s.setUser sender (s.userInfo sender).amount pending with reward := reward } := by
  obtain ⟨pending, hpending, h⟩ := bind_eq_ok.mp h
  obtain ⟨reward, hreward, h⟩ := bind_eq_ok.mp h
  exact ⟨pending, reward, hpending, hreward, (pure_eq_ok.mp h).symm⟩

/-- A campaign starts where the rewards in the contract cover it and all that is pending. -/
theorem startCampaign_eq_ok {sender : Address} {rewardPerBlock startBlock numBlocks : ℕ}
    (h : s.startCampaign R L sender rewardPerBlock startBlock numBlocks = .ok s') :
    ∃ fromBlock, s.blockNumber ≤ fromBlock ∧
      (rewardPerBlock * numBlocks : ℤ) +
        (shares fullScale (s.accInForce L) (s.lpSupply L) - s.totalRewardDebt) ≤
          R.balanceOf s.reward s.self ∧
      s' = { s with
        endBlock := fromBlock + numBlocks
        pool := ⟨fromBlock, s.accInForce L⟩
        rewardPerBlock := rewardPerBlock } := by
  obtain ⟨_, -, h⟩ := bind_eq_ok.mp h
  obtain ⟨t, ht, h⟩ := bind_eq_ok.mp h
  cases updatePool_eq_ok ht
  obtain ⟨entitled, hentitled, h⟩ := bind_eq_ok.mp h
  obtain ⟨totalPending, hpending, h⟩ := bind_eq_ok.mp h
  obtain ⟨product, hproduct, h⟩ := bind_eq_ok.mp h
  obtain ⟨needed, hneeded, h⟩ := bind_eq_ok.mp h
  obtain ⟨_, hcovered, h⟩ := bind_eq_ok.mp h
  obtain ⟨_, hstart, h⟩ := bind_eq_ok.mp h
  obtain ⟨endBlock, hend, h⟩ := bind_eq_ok.mp h
  have hresult := pure_eq_ok.mp h
  obtain ⟨-, rfl⟩ := SafeMath.add_eq_ok.mp hend
  obtain ⟨-, rfl⟩ := SafeMath.add_eq_ok.mp hneeded
  obtain ⟨-, rfl⟩ := SafeMath.mul_eq_ok.mp hproduct
  obtain ⟨-, rfl⟩ := StableMath.mulTruncate_eq_ok.mp hentitled
  obtain ⟨-, htotal⟩ := subDebt_eq_ok hpending
  refine ⟨_, require_eq_ok.mp hstart, ?_, hresult.symm⟩
  have hle : rewardPerBlock * numBlocks + totalPending ≤ R.balanceOf s.reward s.self :=
    require_eq_ok.mp hcovered
  have hpend : (totalPending : ℤ) =
      shares fullScale (s.lpSupply L) (s.accInForce L) - s.totalRewardDebt := htotal
  rw [shares, Nat.mul_comm, ← shares] at hpend
  rw [← hpend]
  exact_mod_cast hle

theorem stopCampaign_eq_ok {sender : Address} (h : s.stopCampaign L sender = .ok s') :
    s' = { s.updated L with endBlock := s.blockNumber } := by
  obtain ⟨_, -, h⟩ := bind_eq_ok.mp h
  obtain ⟨t, ht, h⟩ := bind_eq_ok.mp h
  cases updatePool_eq_ok ht
  exact (pure_eq_ok.mp h).symm

/-! ## The other steps -/

/-- A change that leaves the accounts and the LP tokens as they are, and under which the
accumulator in force does not fall. -/
structure Quiet (L : Token ℓ) (s s' : State ρ ℓ) : Prop where
  self : s'.self = s.self
  userInfo : s'.userInfo = s.userInfo
  totalRewardDebt : s'.totalRewardDebt = s.totalRewardDebt
  lpSupply : s'.lpSupply L = s.lpSupply L
  accInForce : s.accInForce L ≤ s'.accInForce L

/-- Blocks may pass and the contract may be given rewards; nothing else changes that is read of
the accounts, the pool, the campaign and the tokens. -/
structure Aside (R : Token ρ) (L : Token ℓ) (s s' : State ρ ℓ) : Prop where
  self : s'.self = s.self
  userInfo : s'.userInfo = s.userInfo
  totalRewardDebt : s'.totalRewardDebt = s.totalRewardDebt
  pool : s'.pool = s.pool
  rewardPerBlock : s'.rewardPerBlock = s.rewardPerBlock
  endBlock : s'.endBlock = s.endBlock
  lpSupply : s'.lpSupply L = s.lpSupply L
  blockNumber : s.blockNumber ≤ s'.blockNumber
  rewardBalance : R.balanceOf s.reward s.self ≤ R.balanceOf s'.reward s'.self

theorem exec_aside {step : Address × Action ρ ℓ} (hstep : step.2.aside = true)
    (h : s.exec R L step = .ok s') : Aside R L s s' := by
  obtain ⟨sender, action⟩ := step
  cases action with
  | startCampaign | stopCampaign | deposit | exit | withdraw | claim | doUpdatePool => cases hstep
  | transferGovernance newGovernor =>
      obtain ⟨_, -, h⟩ := bind_eq_ok.mp h
      cases pure_eq_ok.mp h
      exact ⟨rfl, rfl, rfl, rfl, rfl, rfl, rfl, le_rfl, le_rfl⟩
  | claimGovernance =>
      obtain ⟨_, -, h⟩ := bind_eq_ok.mp h
      obtain ⟨_, -, h⟩ := bind_eq_ok.mp h
      cases pure_eq_ok.mp h
      exact ⟨rfl, rfl, rfl, rfl, rfl, rfl, rfl, le_rfl, le_rfl⟩
  | wait blocks =>
      cases h
      exact ⟨rfl, rfl, rfl, rfl, rfl, rfl, rfl, Nat.le_add_right _ _, le_rfl⟩
  | rewardMoves reward =>
      obtain ⟨_, hgrows, h⟩ := bind_eq_ok.mp h
      cases pure_eq_ok.mp h
      exact ⟨rfl, rfl, rfl, rfl, rfl, rfl, rfl, le_rfl, require_eq_ok.mp hgrows⟩
  | lpMoves lpToken =>
      obtain ⟨_, hsame, h⟩ := bind_eq_ok.mp h
      cases pure_eq_ok.mp h
      exact ⟨rfl, rfl, rfl, rfl, rfl, rfl, require_eq_ok.mp hsame, le_rfl, le_rfl⟩

/-- The accumulator in force takes in the blocks that pass. -/
theorem Aside.quiet (h : Aside R L s s') : Quiet L s s' := by
  have hdue : s.blocksDue ≤ s'.blocksDue := by
    have hblock := h.blockNumber
    rw [blocksDue, blocksDue, h.pool, h.endBlock]
    omega
  refine ⟨h.self, h.userInfo, h.totalRewardDebt, h.lpSupply, ?_⟩
  rw [accInForce, accInForce, h.pool, h.lpSupply, h.rewardPerBlock]
  exact Nat.add_le_add_left (worth_mono (Nat.mul_le_mul_right _ hdue)) _

/-- A step that is not about an account is quiet. -/
theorem exec_quiet {step : Address × Action ρ ℓ} (hstep : step.2.setsUser = false)
    (h : s.exec R L step = .ok s') : Quiet L s s' := by
  obtain ⟨sender, action⟩ := step
  cases action with
  | deposit | exit | withdraw | claim => cases hstep
  | startCampaign rewardPerBlock startBlock numBlocks =>
      obtain ⟨fromBlock, -, -, rfl⟩ := startCampaign_eq_ok h
      exact ⟨rfl, rfl, rfl, rfl, Nat.le_add_right _ _⟩
  | stopCampaign =>
      cases stopCampaign_eq_ok h
      exact ⟨rfl, rfl, rfl, rfl, Nat.le_add_right _ _⟩
  | doUpdatePool =>
      cases updatePool_eq_ok h
      exact ⟨rfl, rfl, rfl, rfl, Nat.le_add_right _ _⟩
  | _ => exact (exec_aside rfl h).quiet

end State

end Liquidity

end InterestDollar
