import InterestDollar.Contract.Encoding
import Mathlib.Logic.Function.Basic

/-!
# The timelock

The admin queues a call for a time that is at least a delay away; from that time on and
for a grace period after it the call can be executed. What is queued is the hash of the call
and its time. The timelock is one contract with the governor, whose proposals say which
calls are queued together, so the storage of both is given here.

An executed call hands control to its target, which may call the contract again. `frames`
are the executions that are under way, the innermost first. The hash function is a
parameter.
-/

namespace InterestDollar

open Checked

namespace Governance

/-- A call that is to be made. -/
structure Call where
  target : Address
  signature : List UInt8
  data : List UInt8
  deriving DecidableEq

namespace Call

variable (keccak256 : List UInt8 → Bytes32)

/-- `abi.encode(target, signature, keccak256(data), eta)`: four words, the second of which
says where the signature starts, and the signature, filled up to whole words. -/
def encoded (call : Call) (eta : ℕ) : List UInt8 :=
  bytes 32 call.target.toNat ++ bytes 32 128 ++ bytes 32 (keccak256 call.data).toNat ++
    bytes 32 eta ++ (bytes 32 call.signature.length ++ call.signature ++
      List.replicate ((32 - call.signature.length % 32) % 32) 0)

def txHash (call : Call) (eta : ℕ) : Bytes32 := keccak256 (call.encoded keccak256 eta)

/-- The bytes the target is called with. -/
def callData (call : Call) : List UInt8 :=
  if call.signature = [] then call.data
  else (bytes 32 (keccak256 call.signature).toNat).take 4 ++ call.data

end Call

structure Proposal where
  id : ℕ
  proposer : Address
  eta : ℕ
  targets : List Address
  signatures : List (List UInt8)
  calldatas : List (List UInt8)
  executed : Bool
  deriving DecidableEq

/-- The call at an index of the three arrays. -/
def Proposal.call (proposal : Proposal) (i : ℕ) : Except Revert Call :=
  match proposal.targets[i]?, proposal.signatures[i]?, proposal.calldatas[i]? with
  | some target, some signature, some data => .ok ⟨target, signature, data⟩
  | _, _, _ => .error .invalidOpcode

/-- An execution of a proposal that has not returned: who called `execute`, the index of the
loop, and whether the call at that index is being made. -/
structure Frame where
  sender : Address
  proposalId : ℕ
  next : ℕ
  calling : Bool
  deriving DecidableEq

/-- The storage of the timelock and the governor and their address, with the executions that
are under way and the time of the block. -/
structure State where
  self : Address
  admin : Address
  pendingAdmin : Address
  delay : ℕ
  queuedTransactions : Bytes32 → Bool
  proposalCount : ℕ
  proposals : ℕ → Proposal
  frames : List Frame
  now : ℕ

/-- `GRACE_PERIOD`, three days. -/
def gracePeriod : ℕ := 259200

/-- `MINIMUM_DELAY`, a minute. -/
def minimumDelay : ℕ := 60

/-- `MAXIMUM_DELAY`, two days. -/
def maximumDelay : ℕ := 172800

namespace State

variable (keccak256 : List UInt8 → Bytes32)

/-- The contract right after its constructor. -/
def constructed (self admin : Address) (delay now : ℕ) : Except Revert State := do
  require (minimumDelay ≤ delay) "Timelock::constructor: Delay must exceed minimum delay."
  require (delay ≤ maximumDelay) "Timelock::setDelay: Delay must not exceed maximum delay."
  return {
    self := self
    admin := admin
    pendingAdmin := 0
    delay := delay
    queuedTransactions := fun _ => false
    proposalCount := 0
    proposals := fun _ => ⟨0, 0, 0, [], [], [], false⟩
    frames := []
    now := now }

def onlyAdmin (s : State) (sender : Address) : Except Revert Unit :=
  require (sender = s.admin) "Caller is not the admin"

def setDelay (s : State) (sender : Address) (delay : ℕ) : Except Revert State := do
  require (sender = s.self) "Timelock::setDelay: Call must come from Timelock."
  require (minimumDelay ≤ delay) "Timelock::setDelay: Delay must exceed minimum delay."
  require (delay ≤ maximumDelay) "Timelock::setDelay: Delay must not exceed maximum delay."
  return { s with delay := delay }

def acceptAdmin (s : State) (sender : Address) : Except Revert State := do
  require (sender = s.pendingAdmin) "Timelock::acceptAdmin: Call must come from pendingAdmin."
  return { s with admin := sender, pendingAdmin := 0 }

def setPendingAdmin (s : State) (sender pendingAdmin : Address) : Except Revert State := do
  s.onlyAdmin sender
  return { s with pendingAdmin := pendingAdmin }

/-- `queuedTransactions[txHash] = queued`. -/
def setQueued (s : State) (txHash : Bytes32) (queued : Bool) : State :=
  { s with queuedTransactions := Function.update s.queuedTransactions txHash queued }

def queueTransaction (s : State) (sender : Address) (call : Call) (eta : ℕ) :
    Except Revert State := do
  require (sender = s.admin) "Timelock::queueTransaction: Call must come from admin."
  let earliest ← SafeMath.add s.now s.delay
  require (earliest ≤ eta)
    "Timelock::queueTransaction: Estimated execution block must satisfy delay."
  return s.setQueued (call.txHash keccak256 eta) true

def cancelTransaction (s : State) (sender : Address) (call : Call) (eta : ℕ) :
    Except Revert State := do
  require (sender = s.admin) "Timelock::cancelTransaction: Call must come from admin."
  return s.setQueued (call.txHash keccak256 eta) false

/-- `executeTransaction` up to the call of the target, with the target and what it is called
with. -/
def executeTransaction (s : State) (sender : Address) (call : Call) (eta : ℕ) :
    Except Revert (State × Address × List UInt8) := do
  require (sender = s.admin) "Timelock::executeTransaction: Call must come from admin."
  require (s.queuedTransactions (call.txHash keccak256 eta) = true)
    "Timelock::executeTransaction: Transaction hasn't been queued."
  require (eta ≤ s.now)
    "Timelock::executeTransaction: Transaction hasn't surpassed time lock."
  let stale ← SafeMath.add eta gracePeriod
  require (s.now ≤ stale) "Timelock::executeTransaction: Transaction is stale."
  return (s.setQueued (call.txHash keccak256 eta) false, call.target, call.callData keccak256)

end State

end Governance

end InterestDollar
