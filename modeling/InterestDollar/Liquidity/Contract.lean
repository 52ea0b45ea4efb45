import InterestDollar.Contract.StableMath
import InterestDollar.Staking.Token

/-!
# The liquidity reward contract

Accounts leave LP tokens with the contract, and while a campaign runs every block gives out
a fixed reward among the LP tokens. `accRewardPerShare` is what one LP token has earned
since the beginning; what an account is owed is its amount at that rate, less its
`rewardDebt`, the part of it that was there before the account came or that was paid out.
The debts are signed, since an account may withdraw without a claim.

The reward token and the LP token are two tokens, each with a state of its own.
-/

namespace InterestDollar

open Checked

namespace Liquidity

structure UserInfo where
  amount : ℕ
  rewardDebt : ℤ
  deriving DecidableEq

structure PoolInfo where
  lastRewardBlock : ℕ
  accRewardPerShare : ℕ
  deriving DecidableEq

/-- The storage of the contract and its own address, with the states of the two tokens and
the number of the block. -/
structure State (ρ ℓ : Type) where
  self : Address
  governor : Address
  pendingGovernor : Address
  rewardPerBlock : ℕ
  pool : PoolInfo
  totalRewardDebt : ℤ
  userInfo : Address → UserInfo
  endBlock : ℕ
  reward : ρ
  lpToken : ℓ
  blockNumber : ℕ

/-- An amount less a signed debt. -/
def subDebt (amount : ℕ) (debt : ℤ) : Except Revert ℕ :=
  if debt < 0 then SafeMath.add amount (-debt).toNat
  else SafeMath.sub .memory amount debt.toNat

namespace State

variable {ρ ℓ : Type} (R : Token ρ) (L : Token ℓ)

/-- The storage of a contract that was deployed and not initialized yet. -/
def deployed (self governor : Address) (reward : ρ) (lpToken : ℓ) (blockNumber : ℕ) :
    State ρ ℓ where
  self := self
  governor := governor
  pendingGovernor := 0
  rewardPerBlock := 0
  pool := ⟨0, 0⟩
  totalRewardDebt := 0
  userInfo := fun _ => ⟨0, 0⟩
  endBlock := 0
  reward := reward
  lpToken := lpToken
  blockNumber := blockNumber

def onlyGovernor (s : State ρ ℓ) (sender : Address) : Except Revert Unit :=
  require (sender = s.governor) "Caller is not the Governor"

/-- `initialize`, which a contract lets through once. -/
def initialized (s : State ρ ℓ) (sender : Address) : Except Revert (State ρ ℓ) := do
  s.onlyGovernor sender
  return { s with pool := { s.pool with lastRewardBlock := s.blockNumber } }

/-- The LP tokens in the contract. -/
def lpSupply (s : State ρ ℓ) : ℕ := L.balanceOf s.lpToken s.self

def getCampaignMultiplier (s : State ρ ℓ) (toBlock : ℕ) : Except Revert ℕ :=
  if s.endBlock < s.pool.lastRewardBlock then .ok 0
  else
    SafeMath.sub .memory (if toBlock < s.endBlock then toBlock else s.endBlock)
      s.pool.lastRewardBlock

/-- The accumulator with the reward of the blocks since the last update, as `updatePool` and
the views compute it. -/
def accrued (s : State ρ ℓ) : Except Revert ℕ := do
  let multiplier ← s.getCampaignMultiplier s.blockNumber
  let incReward ← SafeMath.mul multiplier s.rewardPerBlock
  let inc ← StableMath.divPrecisely incReward (s.lpSupply L)
  SafeMath.add s.pool.accRewardPerShare inc

def updatePool (s : State ρ ℓ) : Except Revert (State ρ ℓ) :=
  if s.blockNumber ≤ s.pool.lastRewardBlock ∨ s.endBlock ≤ s.pool.lastRewardBlock then .ok s
  else if s.lpSupply L = 0 then
    .ok { s with pool := { s.pool with lastRewardBlock := s.blockNumber } }
  else do
    let accRewardPerShare ← s.accrued L
    return { s with pool := ⟨s.blockNumber, accRewardPerShare⟩ }

/-- `_pendingRewards`. -/
def pendingRewards (s : State ρ ℓ) (user : Address) : Except Revert ℕ := do
  let accRewardPerShare ←
    (if s.pool.lastRewardBlock < s.blockNumber then
      if s.lpSupply L ≠ 0 then s.accrued L else .ok s.pool.accRewardPerShare
    else .ok s.pool.accRewardPerShare)
  let entitled ← StableMath.mulTruncate (s.userInfo user).amount accRewardPerShare
  subDebt entitled (s.userInfo user).rewardDebt

def totalOutstandingRewards (s : State ρ ℓ) : Except Revert ℕ :=
  if s.pool.lastRewardBlock < s.blockNumber ∧ s.lpSupply L ≠ 0 then do
    let accRewardPerShare ← s.accrued L
    let entitled ← StableMath.mulTruncate accRewardPerShare (s.lpSupply L)
    subDebt entitled s.totalRewardDebt
  else .ok 0

def startCampaign (s : State ρ ℓ) (sender : Address) (rewardPerBlock startBlock numBlocks : ℕ) :
    Except Revert (State ρ ℓ) := do
  s.onlyGovernor sender
  let s ← s.updatePool L
  let entitled ← StableMath.mulTruncate s.pool.accRewardPerShare (s.lpSupply L)
  let totalPending ← subDebt entitled s.totalRewardDebt
  let needed ← SafeMath.mul rewardPerBlock numBlocks
  let needed ← SafeMath.add needed totalPending
  require (needed ≤ R.balanceOf s.reward s.self) "startCampaign: insufficient rewards"
  let startBlock := if startBlock = 0 then s.blockNumber else startBlock
  require (s.blockNumber ≤ startBlock) "startCampaign: _startBlock can't be in the past"
  let endBlock ← SafeMath.add startBlock numBlocks
  return { s with
    endBlock := endBlock
    pool := { s.pool with lastRewardBlock := startBlock }
    rewardPerBlock := rewardPerBlock }

def stopCampaign (s : State ρ ℓ) (sender : Address) : Except Revert (State ρ ℓ) := do
  s.onlyGovernor sender
  let s ← s.updatePool L
  return { s with endBlock := s.blockNumber }

/-- An account's amount is set, and its debt and the total debt are moved. -/
def setUser (s : State ρ ℓ) (user : Address) (amount : ℕ) (newDebt : ℤ) : State ρ ℓ :=
  { s with
    userInfo := Function.update s.userInfo user
      ⟨amount, (s.userInfo user).rewardDebt + newDebt⟩
    totalRewardDebt := s.totalRewardDebt + newDebt }

def deposit (s : State ρ ℓ) (sender : Address) (amount : ℕ) : Except Revert (State ρ ℓ) := do
  let s ← s.updatePool L
  if 0 < amount then do
    let total ← SafeMath.add (s.userInfo sender).amount amount
    let newDebt ← StableMath.mulTruncate amount s.pool.accRewardPerShare
    let lpToken ← L.safeTransferFrom s.lpToken s.self sender s.self amount
    return { s.setUser sender total newDebt with lpToken := lpToken }
  else return s

/-- What is left to pay an account at the stored accumulator. -/
def settledRewards (s : State ρ ℓ) (user : Address) : Except Revert ℕ := do
  let entitled ← StableMath.mulTruncate (s.userInfo user).amount s.pool.accRewardPerShare
  subDebt entitled (s.userInfo user).rewardDebt

/-- The rewards an account is paid, and the state of the reward token after it. -/
def payReward (s : State ρ ℓ) (user : Address) (pending : ℕ) : Except Revert ρ :=
  if 0 < pending then R.safeTransfer s.reward s.self user pending else .ok s.reward

/-- `_withdraw`. -/
def withdraw (s : State ρ ℓ) (sender : Address) (amount : ℕ) (claim : Bool) :
    Except Revert (State ρ ℓ) := do
  require (amount ≤ (s.userInfo sender).amount) "withdraw: overflow"
  let s ← s.updatePool L
  let withdrawn ← StableMath.mulTruncate amount s.pool.accRewardPerShare
  let pending ← (if claim then s.settledRewards sender else .ok 0)
  let reward ← s.payReward R sender pending
  let left ←
    (if 0 < amount then SafeMath.sub .userAmount (s.userInfo sender).amount amount
    else .ok (s.userInfo sender).amount)
  let lpToken ←
    (if 0 < amount then L.safeTransfer s.lpToken s.self sender amount else .ok s.lpToken)
  return { s.setUser sender left (-(withdrawn : ℤ) + pending) with
    reward := reward
    lpToken := lpToken }

def exit (s : State ρ ℓ) (sender : Address) : Except Revert (State ρ ℓ) :=
  s.withdraw R L sender (s.userInfo sender).amount true

def claim (s : State ρ ℓ) (sender : Address) : Except Revert (State ρ ℓ) := do
  let pending ← s.pendingRewards L sender
  let reward ← s.payReward R sender pending
  return { s.setUser sender (s.userInfo sender).amount pending with reward := reward }

def doUpdatePool (s : State ρ ℓ) : Except Revert (State ρ ℓ) := s.updatePool L

def transferGovernance (s : State ρ ℓ) (sender newGovernor : Address) :
    Except Revert (State ρ ℓ) := do
  s.onlyGovernor sender
  return { s with pendingGovernor := newGovernor }

def claimGovernance (s : State ρ ℓ) (sender : Address) : Except Revert (State ρ ℓ) := do
  require (sender = s.pendingGovernor) "Only the pending Governor can complete the claim"
  require (sender ≠ 0) "New Governor is address(0)"
  return { s with governor := sender }

end State

end Liquidity

end InterestDollar
