import InterestDollar.Governance.Timelock
import InterestDollar.Transition.Run

/-!
# The governor

Anybody proposes, and the admin queues and cancels. A proposal that is queued is executed
call by call. A step of a run is a call of one of the functions, or the next thing an
execution does: to make its next call, to take control back from it, to return.
-/

namespace InterestDollar

open Checked Transition

namespace Governance

inductive ProposalState
  | pending
  | queued
  | expired
  | executed
  deriving DecidableEq

/-- A call of a target by `executeTransaction`, and the action it is. -/
structure ExternalCall where
  proposalId : ℕ
  index : ℕ
  target : Address
  callData : List UInt8
  deriving DecidableEq

/-- `MAX_OPERATIONS`. -/
def maxOperations : ℕ := 16

namespace State

variable (keccak256 : List UInt8 → Bytes32)

def setProposal (s : State) (proposalId : ℕ) (proposal : Proposal) : State :=
  { s with proposals := Function.update s.proposals proposalId proposal }

/-- `propose`. The number of proposals is no word here: no run is long enough to wrap it. -/
def propose (s : State) (sender : Address) (targets : List Address)
    (signatures calldatas : List (List UInt8)) : Except Revert State := do
  require (targets.length = signatures.length ∧ targets.length = calldatas.length)
    "Governor::propose: proposal function information arity mismatch"
  require (targets.length ≠ 0) "Governor::propose: must provide actions"
  require (targets.length ≤ maxOperations) "Governor::propose: too many actions"
  let id := s.proposalCount + 1
  let newProposal : Proposal := ⟨id, sender, 0, targets, signatures, calldatas, false⟩
  return { s.setProposal id newProposal with proposalCount := id }

/-- `state`. -/
def proposalState (s : State) (proposalId : ℕ) : Except Revert ProposalState := do
  require (proposalId ≤ s.proposalCount ∧ 0 < proposalId)
    "Governor::state: invalid proposal id"
  let proposal := s.proposals proposalId
  if proposal.executed then return .executed
  else if proposal.eta = 0 then return .pending
  else do
    let expiry ← SafeMath.add proposal.eta gracePeriod
    if expiry ≤ s.now then return .expired else return .queued

/-- `_queueOrRevert`. -/
def queueOrRevert (s : State) (sender : Address) (call : Call) (eta : ℕ) :
    Except Revert State := do
  require (s.queuedTransactions (call.txHash keccak256 eta) = false)
    "Governor::_queueOrRevert: proposal action already queued at eta"
  let s ← s.queueTransaction keccak256 sender call eta
  require (s.queuedTransactions (call.txHash keccak256 eta) = true)
    "Governor::_queueOrRevert: failed to queue transaction"
  return s

def queue (s : State) (sender : Address) (proposalId : ℕ) : Except Revert State := do
  s.onlyAdmin sender
  let state ← s.proposalState proposalId
  require (state = .pending)
    "Governor::queue: proposal can only be queued if it is pending"
  let eta ← SafeMath.add s.now s.delay
  let proposal := { s.proposals proposalId with eta := eta }
  (List.range proposal.targets.length).foldlM (fun s i => do
    let call ← proposal.call i
    s.queueOrRevert keccak256 sender call eta) (s.setProposal proposalId proposal)

def cancel (s : State) (sender : Address) (proposalId : ℕ) : Except Revert State := do
  s.onlyAdmin sender
  let state ← s.proposalState proposalId
  require (state = .queued ∨ state = .pending)
    "Governor::execute: proposal can only be cancelled if it is queued or pending"
  -- The time is overwritten before the loop that takes the calls off the timelock.
  let proposal := { s.proposals proposalId with eta := 1 }
  (List.range proposal.targets.length).foldlM (fun s i => do
    let call ← proposal.call i
    s.cancelTransaction keccak256 sender call proposal.eta) (s.setProposal proposalId proposal)

/-- `execute` up to its loop. -/
def execute (s : State) (sender : Address) (proposalId : ℕ) : Except Revert State := do
  let state ← s.proposalState proposalId
  require (state = .queued)
    "Governor::execute: proposal can only be executed if it is queued"
  let proposal := { s.proposals proposalId with executed := true }
  return { s.setProposal proposalId proposal with
    frames := ⟨sender, proposalId, 0, false⟩ :: s.frames }

/-- The loop of `execute` makes its next call. -/
def callNext (s : State) : Except Revert (State × ExternalCall) :=
  match s.frames with
  | [] => .error .invalidOpcode
  | frame :: frames => do
      let proposal := s.proposals frame.proposalId
      require (frame.calling = false ∧ frame.next < proposal.targets.length) "Not in the loop"
      let call ← proposal.call frame.next
      let (s, target, callData) ←
        s.executeTransaction keccak256 frame.sender call proposal.eta
      return ({ s with frames := { frame with calling := true } :: frames },
        ⟨frame.proposalId, frame.next, target, callData⟩)

/-- A call returns, and the loop goes on. -/
def callReturned (s : State) : Except Revert State :=
  match s.frames with
  | [] => .error .invalidOpcode
  | frame :: frames => do
      require (frame.calling = true) "Not in a call"
      return { s with frames := { frame with next := frame.next + 1, calling := false } :: frames }

/-- The loop is done, and `execute` returns. -/
def executeReturned (s : State) : Except Revert State :=
  match s.frames with
  | [] => .error .invalidOpcode
  | frame :: frames => do
      let proposal := s.proposals frame.proposalId
      require (frame.calling = false ∧ proposal.targets.length ≤ frame.next) "Not at the end"
      return { s with frames := frames }

/-- Other accounts have control: nothing is under way, or a call is being made. -/
def Yielded (s : State) : Prop := ∀ frame ∈ s.frames.head?, frame.calling = true

instance (s : State) : Decidable s.Yielded :=
  match h : s.frames.head? with
  | none => .isTrue (by simp [Yielded, h])
  | some frame => decidable_of_iff (frame.calling = true) (by simp [Yielded, h])

end State

/-- The functions, what an execution does, and the passing of time. -/
inductive Action
  | propose (targets : List Address) (signatures calldatas : List (List UInt8))
  | queue (proposalId : ℕ)
  | cancel (proposalId : ℕ)
  | execute (proposalId : ℕ)
  | setDelay (delay : ℕ)
  | setPendingAdmin (pendingAdmin : Address)
  | acceptAdmin
  | callNext
  | callReturned
  | executeReturned
  | wait (seconds : ℕ)
  deriving DecidableEq

namespace State

variable (keccak256 : List UInt8 → Bytes32)

/-- A function that an account calls. -/
def called (s : State) (sender : Address) : Action → Except Revert State
  | .propose targets signatures calldatas => s.propose sender targets signatures calldatas
  | .queue proposalId => s.queue keccak256 sender proposalId
  | .cancel proposalId => s.cancel keccak256 sender proposalId
  | .execute proposalId => s.execute sender proposalId
  | .setDelay delay => s.setDelay sender delay
  | .setPendingAdmin pendingAdmin => s.setPendingAdmin sender pendingAdmin
  | .acceptAdmin => s.acceptAdmin sender
  | _ => .error .invalidOpcode

/-- One step. Accounts call where they have control, a called target among them, and time
passes only between transactions. -/
def exec (s : State) (step : Address × Action) : Except Revert State :=
  match step.2 with
  | .callNext => do
      let (s, _) ← s.callNext keccak256
      return s
  | .callReturned => s.callReturned
  | .executeReturned => s.executeReturned
  | .wait seconds => do
      require (s.frames = []) "In a transaction"
      return { s with now := s.now + seconds }
  | action => do
      require s.Yielded "Not in control"
      s.called keccak256 step.1 action

/-- The external call that a step makes. -/
def externalCall (s : State) (step : Address × Action) : Option ExternalCall :=
  match step.2 with
  | .callNext => (s.callNext keccak256).toOption.map Prod.snd
  | _ => none

/-- Runs from a constructed contract: the state right after the constructor, the trace and
the state reached. -/
structure Reached (init : State) (trace : List (State × (Address × Action))) (s : State) :
    Prop where
  constructed : ∃ self admin delay now, constructed self admin delay now = .ok init
  run : Run (fun s step s' => s.exec keccak256 step = .ok s') init trace s

end State

end Governance

end InterestDollar
