import InterestDollar.Contract.Encoding
import InterestDollar.Contract.StableMath
import InterestDollar.Staking.Token
import Mathlib.Data.List.DropRight

/-!
# The staking contract

Accounts stake an amount of the token for one of the offered durations and are paid
it back with a reward once the duration is over; stakes that were promised in an air
drop are made with a Merkle proof and without a payment. The stakes of an account are
kept in an array, sorted by their ends: a new stake is inserted from the back, and
`exit` pays from the back.

The hash function is a parameter, and what is hashed is the packed encoding as a list
of bytes.
-/

namespace InterestDollar

open Checked

namespace Staking

/-- A stake, as it is stored. The field `ends` is the `end` of the source. -/
structure Stake where
  amount : ℕ
  ends : ℕ
  duration : ℕ
  rate : ℕ
  paid : Bool
  stakeType : UInt8
  deriving DecidableEq, Repr

structure DropRoot where
  hash : Bytes32
  depth : ℕ
  deriving DecidableEq

/-- The storage of the contract and its own address, with the state of the token and
the time of the block. -/
structure State (τ : Type) where
  self : Address
  governor : Address
  pendingGovernor : Address
  stakingToken : Address
  durations : List ℕ
  rates : List ℕ
  totalOutstanding : ℕ
  paused : Bool
  userStakes : Address → List Stake
  dropRoots : UInt8 → DropRoot
  token : τ
  now : ℕ

/-- `USER_STAKE_TYPE`. -/
def userStakeType : UInt8 := 0

/-- `MAX_STAKES`. -/
def maxStakes : ℕ := 256

/-- The largest 240-bit word, `uint240(-1)`. -/
def maxRate : ℕ := 2 ^ 240 - 1

/-- What a stake is owed: its amount and the reward. -/
def totalExpected (stake : Stake) : Except Revert ℕ := do
  let reward ← StableMath.mulTruncate stake.amount stake.rate
  SafeMath.add stake.amount reward

/-- `_totalExpectedRewards`: the rewards of the stakes that were not paid. -/
def expectedRewards (stakes : List Stake) : Except Revert ℕ :=
  stakes.foldlM (fun total stake =>
    if stake.paid = false then do
      let reward ← StableMath.mulTruncate stake.amount stake.rate
      SafeMath.add total reward
    else return total) 0

/-- What `totalCurrentHoldings` counts for a stake that was not paid: what it is owed once it
has ended, and before that its amount and the part of the reward for the time that is over. -/
def currentHolding (now : ℕ) (stake : Stake) : Except Revert ℕ :=
  if stake.ends < now then totalExpected stake
  else do
    let reward ← StableMath.mulTruncate stake.amount stake.rate
    let left ← SafeMath.sub .memory stake.ends now
    let elapsed ← SafeMath.sub .memory stake.duration left
    let portion ← StableMath.divPrecisely elapsed stake.duration
    let accrued ← StableMath.mulTruncate reward portion
    SafeMath.add stake.amount accrued

/-- `_findDurationRate`: the rate of the first offered duration that matches. -/
def findDurationRate (duration : ℕ) : (durations rates : List ℕ) → Except Revert ℕ
  | [], _ => .ok 0
  | d :: durations, rates =>
      if duration = d then
        match rates with
        | [] => .error .invalidOpcode
        | rate :: _ => .ok (rate % 2 ^ 240)
      else findDurationRate duration durations rates.tail

/-- The insertion loop of `_stake`, from the back of the array: stakes that end later
are shifted back by one. The slot this frees still holds the stake that was there, and
`paid` is the one field of it that is not overwritten. -/
def insertStake (newStake : Stake) (stakes : List Stake) : List Stake :=
  let later := stakes.rtakeWhile fun stake => decide (newStake.ends < stake.ends)
  let earlier := stakes.rdropWhile fun stake => decide (newStake.ends < stake.ends)
  earlier ++ { newStake with paid := (later.head?.map Stake.paid).getD false } :: later

/-- The loop of `exit` over the stakes from the back: stops at the first ended stake
that was paid already, and pays the ended ones it meets. Returns the stakes, the total
to withdraw and the part of it that was staked. -/
def payEnded (now : ℕ) : List Stake → (totalWithdraw stakedAmount : ℕ) →
    Except Revert (List Stake × ℕ × ℕ)
  | [], totalWithdraw, stakedAmount => .ok ([], totalWithdraw, stakedAmount)
  | stake :: rest, totalWithdraw, stakedAmount =>
      if stake.ends < now ∧ stake.paid = true then
        .ok (stake :: rest, totalWithdraw, stakedAmount)
      else if stake.ends < now then do
        let expected ← totalExpected stake
        let totalWithdraw ← SafeMath.add totalWithdraw expected
        let stakedAmount ← SafeMath.add stakedAmount stake.amount
        let (rest, totals) ← payEnded now rest totalWithdraw stakedAmount
        return ({ stake with paid := true } :: rest, totals)
      else do
        let (rest, totals) ← payEnded now rest totalWithdraw stakedAmount
        return (stake :: rest, totals)

/-- The packed encoding of an air drop entry. -/
def dropEntry (index : ℕ) (stakeType : UInt8) (contract account : Address)
    (duration rate amount : ℕ) : List UInt8 :=
  bytes 32 index ++ [stakeType] ++ bytes 20 contract.toNat ++ bytes 20 account.toNat ++
    bytes 32 duration ++ bytes 32 rate ++ bytes 32 amount

/-- The packed encoding of two hashes. -/
def hashPair (left right : Bytes32) : List UInt8 :=
  bytes 32 left.toNat ++ bytes 32 right.toNat

/-- The loop of `airDroppedStake` up the tree: the bits of the path say on which side
the other hash of the level is. -/
def merkleRoot (keccak256 : List UInt8 → Bytes32) : Bytes32 → (path : ℕ) → List Bytes32 → Bytes32
  | node, _, [] => node
  | node, path, other :: merkleProof =>
      let parent :=
        if path % 2 = 1 then keccak256 (hashPair other node) else keccak256 (hashPair node other)
      merkleRoot keccak256 parent (path / 2) merkleProof

namespace State

variable {τ : Type} (T : Token τ) (keccak256 : List UInt8 → Bytes32)

/-- The storage of a contract that was deployed and not initialized yet. -/
def deployed (self governor : Address) (token : τ) (now : ℕ) : State τ where
  self := self
  governor := governor
  pendingGovernor := 0
  stakingToken := 0
  durations := []
  rates := []
  totalOutstanding := 0
  paused := false
  userStakes := fun _ => []
  dropRoots := fun _ => ⟨0, 0⟩
  token := token
  now := now

def onlyGovernor (s : State τ) (sender : Address) : Except Revert Unit :=
  require (sender = s.governor) "Caller is not the Governor"

/-- `_setDurationRates`. -/
def storeDurationRates (s : State τ) (durations rates : List ℕ) : Except Revert (State τ) := do
  require (rates.length = durations.length) "Mismatch durations and rates"
  require (∀ rate ∈ rates, rate < maxRate) "Max rate exceeded"
  return { s with durations := durations, rates := rates }

/-- `initialize`, which a contract lets through once. -/
def initialized (s : State τ) (sender stakingToken : Address) (durations rates : List ℕ) :
    Except Revert (State τ) := do
  s.onlyGovernor sender
  storeDurationRates { s with stakingToken := stakingToken } durations rates

/-- `_airDroppedStakeClaimed`. -/
def airDroppedStakeClaimed (s : State τ) (account : Address) (stakeType : UInt8) : Bool :=
  (s.userStakes account).any fun stake => stake.stakeType == stakeType

def totalStaked (s : State τ) (account : Address) : Except Revert ℕ :=
  (s.userStakes account).foldlM (fun total stake =>
    if stake.paid = false then SafeMath.add total stake.amount else return total) 0

def totalExpectedRewards (s : State τ) (account : Address) : Except Revert ℕ :=
  expectedRewards (s.userStakes account)

def totalCurrentHoldings (s : State τ) (account : Address) : Except Revert ℕ :=
  (s.userStakes account).foldlM (fun total stake =>
    if stake.paid = true then return total
    else do
      let holding ← currentHolding s.now stake
      SafeMath.add total holding) 0

/-- `_stake`. -/
def addStake (s : State τ) (staker : Address) (stakeType : UInt8) (duration rate amount : ℕ) :
    Except Revert (State τ) := do
  require (s.paused = false) "Staking paused"
  let ends ← SafeMath.add s.now duration
  require ((s.userStakes staker).length < maxStakes) "Max stakes"
  let newStake : Stake := ⟨amount, ends, duration, rate, false, stakeType⟩
  let expected ← totalExpected newStake
  let totalOutstanding ← SafeMath.add s.totalOutstanding expected
  return { s with
    userStakes := Function.update s.userStakes staker
      (insertStake newStake (s.userStakes staker))
    totalOutstanding := totalOutstanding }

/-- `_stakeWithChecks`. -/
def stakeWithChecks (s : State τ) (staker : Address) (amount duration : ℕ) :
    Except Revert (State τ) := do
  require (0 < amount) "Cannot stake 0"
  let rewardRate ← findDurationRate duration s.durations s.rates
  require (0 < rewardRate) "Invalid duration"
  let s ← s.addStake staker userStakeType duration rewardRate amount
  let token ← T.safeTransferFrom s.token s.self staker s.self amount
  return { s with token := token }

/-- The check of `requireLiquidity`, made after the body of a function. -/
def requireLiquidity (s : State τ) : Except Revert Unit :=
  require (s.totalOutstanding ≤ T.balanceOf s.token s.self) "Insufficient rewards"

def stake (s : State τ) (sender : Address) (amount duration : ℕ) : Except Revert (State τ) := do
  let s ← s.stakeWithChecks T sender amount duration
  s.requireLiquidity T
  return s

def stakeWithSender (s : State τ) (sender staker : Address) (amount duration : ℕ) :
    Except Revert (State τ) := do
  require (sender = s.stakingToken) "Only token contract can make this call"
  s.stakeWithChecks T staker amount duration

def airDroppedStake (s : State τ) (sender : Address) (index : ℕ) (stakeType : UInt8)
    (duration rate amount : ℕ) (merkleProof : List Bytes32) : Except Revert (State τ) := do
  require (stakeType ≠ userStakeType) "Cannot be normal staking"
  require (rate < maxRate) "Max rate exceeded"
  require (index < 2 ^ merkleProof.length % wordBound) "Invalid index"
  let dropRoot := s.dropRoots stakeType
  require (merkleProof.length = dropRoot.depth) "Invalid proof"
  let node := keccak256 (dropEntry index stakeType s.self sender duration rate amount)
  require (merkleRoot keccak256 node index merkleProof = dropRoot.hash) "Stake not approved"
  require (s.airDroppedStakeClaimed sender stakeType = false) "Already staked"
  let s ← s.addStake sender stakeType duration (rate % 2 ^ 240) amount
  s.requireLiquidity T
  return s

def exit (s : State τ) (sender : Address) : Except Revert (State τ) := do
  require (0 < (s.userStakes sender).length) "Nothing staked"
  let (stakes, totalWithdraw, _) ← payEnded s.now (s.userStakes sender).reverse 0 0
  require (0 < totalWithdraw) "All stakes in lock-up"
  let totalOutstanding ← SafeMath.sub .totalOutstanding s.totalOutstanding totalWithdraw
  let token ← T.safeTransfer s.token s.self sender totalWithdraw
  let s := { s with
    userStakes := Function.update s.userStakes sender stakes.reverse
    totalOutstanding := totalOutstanding
    token := token }
  s.requireLiquidity T
  return s

def setPaused (s : State τ) (sender : Address) (paused : Bool) : Except Revert (State τ) := do
  s.onlyGovernor sender
  return { s with paused := paused }

def setDurationRates (s : State τ) (sender : Address) (durations rates : List ℕ) :
    Except Revert (State τ) := do
  s.onlyGovernor sender
  s.storeDurationRates durations rates

def setAirDropRoot (s : State τ) (sender : Address) (stakeType : UInt8) (rootHash : Bytes32)
    (proofDepth : ℕ) : Except Revert (State τ) := do
  s.onlyGovernor sender
  require (stakeType ≠ userStakeType) "Cannot be normal staking"
  return { s with dropRoots := Function.update s.dropRoots stakeType ⟨rootHash, proofDepth⟩ }

def transferGovernance (s : State τ) (sender newGovernor : Address) :
    Except Revert (State τ) := do
  s.onlyGovernor sender
  return { s with pendingGovernor := newGovernor }

def claimGovernance (s : State τ) (sender : Address) : Except Revert (State τ) := do
  require (sender = s.pendingGovernor) "Only the pending Governor can complete the claim"
  require (sender ≠ 0) "New Governor is address(0)"
  return { s with governor := sender }

end State

end Staking

end InterestDollar
