import InterestDollar.Governance.Safety

/-!
# What a cancellation leaves on the timelock

A proposal's calls stand on the timelock under the hashes of their queueing time, and only
their own execution takes them off, in the hashes that the run meets. Cancelling a
proposal first overwrites its time and then takes off the hashes of the new time, which were
never put there. So every call of a cancelled proposal still stands on the timelock.
-/

namespace InterestDollar

open Checked Transition

namespace Governance

variable {keccak256 : List UInt8 → Bytes32}

namespace Proposal

variable {proposal proposal' : Proposal} {eta i : ℕ} {call : Call}

theorem lt_of_call (h : proposal.call i = .ok call) : i < proposal.targets.length := by
  unfold Proposal.call at h
  split at h
  · rename_i htarget _ _
    exact (List.getElem?_eq_some_iff.mp htarget).1
  · cases h

variable (keccak256) in
/-- What the calls of a proposal are hashed from for a time. -/
def encodings (proposal : Proposal) (eta : ℕ) : List (List UInt8) :=
  (List.range proposal.targets.length).filterMap fun i =>
    (proposal.call i).toOption.map fun call => call.encoded keccak256 eta

theorem mem_encodings (h : proposal.call i = .ok call) :
    call.encoded keccak256 eta ∈ proposal.encodings keccak256 eta := by
  refine List.mem_filterMap.mpr ⟨i, List.mem_range.mpr (lt_of_call h), ?_⟩
  rw [h]
  rfl

end Proposal

namespace State

variable {s s' : State} {step : Address × Action}

/-! ## What a step puts on the timelock and takes off it -/

/-- The loop of `queue`: each call is put on the timelock, where it did not stand before. -/
theorem queueLoop_eq_ok {proposal : Proposal} {sender : Address} {eta : ℕ} {indices : List ℕ}
    (h : indices.foldlM (fun s i => do
      let call ← proposal.call i
      s.queueOrRevert keccak256 sender call eta) s = .ok s') :
    (∀ x, s.queuedTransactions x = true → s'.queuedTransactions x = true) ∧
      ∀ i ∈ indices, ∀ call, proposal.call i = .ok call →
        s.queuedTransactions (call.txHash keccak256 eta) = false ∧
          s'.queuedTransactions (call.txHash keccak256 eta) = true := by
  induction indices generalizing s with
  | nil =>
      cases pure_eq_ok.mp h
      exact ⟨fun _ hx => hx, fun _ hi => nomatch hi⟩
  | cons i indices ih =>
      rw [List.foldlM_cons] at h
      obtain ⟨t, ht, hrest⟩ := bind_eq_ok.mp h
      obtain ⟨first, hfirst, ht⟩ := bind_eq_ok.mp ht
      obtain ⟨hkeep, hall⟩ := ih hrest
      have hnew : s.queuedTransactions (first.txHash keccak256 eta) = false := by
        obtain ⟨_, hnew, -⟩ := bind_eq_ok.mp ht
        exact require_eq_ok.mp hnew
      have hset := queueOrRevert_eq_ok ht
      have hstays : ∀ x, s.queuedTransactions x = true → t.queuedTransactions x = true := by
        intro x hx
        rw [hset]
        by_cases hx' : x = first.txHash keccak256 eta
        · simp [setQueued, hx']
        · simpa [setQueued, hx'] using hx
      refine ⟨fun x hx => hkeep x (hstays x hx), List.forall_mem_cons.mpr ⟨?_, ?_⟩⟩
      · intro call hcall
        cases hfirst.symm.trans hcall
        exact ⟨hnew, hkeep _ (by simp [hset, setQueued])⟩
      · intro j hj call hcall
        obtain ⟨hfree, hstands⟩ := hall j hj call hcall
        refine ⟨Bool.eq_false_iff.mpr fun hbefore => ?_, hstands⟩
        rw [hstays _ hbefore] at hfree
        cases hfree

theorem queue_puts {sender : Address} {proposalId : ℕ}
    (h : s.queue keccak256 sender proposalId = .ok s') :
    (∀ x, s.queuedTransactions x = true → s'.queuedTransactions x = true) ∧
      ∀ i call, (s.proposals proposalId).call i = .ok call →
        s.queuedTransactions (call.txHash keccak256 (s.now + s.delay)) = false ∧
          s'.queuedTransactions (call.txHash keccak256 (s.now + s.delay)) = true := by
  obtain ⟨_, -, h⟩ := bind_eq_ok.mp h
  obtain ⟨_, -, h⟩ := bind_eq_ok.mp h
  obtain ⟨_, -, h⟩ := bind_eq_ok.mp h
  obtain ⟨eta, heta, h⟩ := bind_eq_ok.mp h
  obtain ⟨-, rfl⟩ := SafeMath.add_eq_ok.mp heta
  obtain ⟨hkeep, hall⟩ := queueLoop_eq_ok h
  refine ⟨hkeep, fun i call hcall => ?_⟩
  exact hall i (List.mem_range.mpr (Proposal.lt_of_call hcall)) call hcall

/-- Cancelling changes nothing but the hashes of the calls at the time 1. -/
theorem cancel_keeps {sender : Address} {proposalId : ℕ}
    (h : s.cancel keccak256 sender proposalId = .ok s') {x : Bytes32}
    (hx : ∀ i call, (s.proposals proposalId).call i = .ok call → x ≠ call.txHash keccak256 1) :
    s'.queuedTransactions x = s.queuedTransactions x := by
  obtain ⟨_, -, h⟩ := bind_eq_ok.mp h
  obtain ⟨_, -, h⟩ := bind_eq_ok.mp h
  obtain ⟨_, -, h⟩ := bind_eq_ok.mp h
  refine ensures_foldlM (I := fun t : State =>
    t.queuedTransactions x = s.queuedTransactions x) ?_ ?_ _ _ h
  · intro t i ht t' ht'
    obtain ⟨call, hcall, ht'⟩ := bind_eq_ok.mp ht'
    cases cancelTransaction_eq_ok ht'
    have hne : x ≠ call.txHash keccak256 1 := hx i call hcall
    simpa [setQueued, hne] using ht
  · rfl

variable (keccak256) in
/-- The steps that put calls on the timelock, take them off or make a proposal, and the
others. -/
inductive Writes (s : State) : Address × Action → State → Prop
  | propose {sender : Address} {targets : List Address}
      {signatures calldatas : List (List UInt8)} {s' : State} :
      s.propose sender targets signatures calldatas = .ok s' →
        Writes s (sender, .propose targets signatures calldatas) s'
  | queue {sender : Address} {proposalId : ℕ} {s' : State} :
      s.queue keccak256 sender proposalId = .ok s' → Writes s (sender, .queue proposalId) s'
  | cancel {sender : Address} {proposalId : ℕ} {s' : State} :
      s.cancel keccak256 sender proposalId = .ok s' → Writes s (sender, .cancel proposalId) s'
  | callNext {sender : Address} {made : ExternalCall} {s' : State} :
      s.callNext keccak256 = .ok (s', made) → Writes s (sender, .callNext) s'
  | nothing {step : Address × Action} {s' : State} :
      s'.queuedTransactions = s.queuedTransactions → s'.proposalCount = s.proposalCount →
        Writes s step s'

theorem exec_writes (h : s.exec keccak256 step = .ok s') : Writes keccak256 s step s' := by
  obtain ⟨sender, action⟩ := step
  cases action with
  | propose targets signatures calldatas =>
      obtain ⟨_, -, h⟩ := bind_eq_ok.mp h
      exact .propose h
  | queue proposalId =>
      obtain ⟨_, -, h⟩ := bind_eq_ok.mp h
      exact .queue h
  | cancel proposalId =>
      obtain ⟨_, -, h⟩ := bind_eq_ok.mp h
      exact .cancel h
  | callNext =>
      obtain ⟨⟨t, made⟩, ht, h⟩ := bind_eq_ok.mp h
      cases pure_eq_ok.mp h
      exact .callNext ht
  | execute proposalId =>
      obtain ⟨_, -, h⟩ := bind_eq_ok.mp h
      obtain ⟨-, rfl⟩ := execute_eq_ok h
      exact .nothing rfl rfl
  | setDelay delay =>
      obtain ⟨_, -, h⟩ := bind_eq_ok.mp h
      obtain ⟨_, -, h⟩ := bind_eq_ok.mp h
      obtain ⟨_, -, h⟩ := bind_eq_ok.mp h
      obtain ⟨_, -, h⟩ := bind_eq_ok.mp h
      cases pure_eq_ok.mp h
      exact .nothing rfl rfl
  | setPendingAdmin pendingAdmin =>
      obtain ⟨_, -, h⟩ := bind_eq_ok.mp h
      obtain ⟨_, -, h⟩ := bind_eq_ok.mp h
      cases pure_eq_ok.mp h
      exact .nothing rfl rfl
  | acceptAdmin =>
      obtain ⟨_, -, h⟩ := bind_eq_ok.mp h
      obtain ⟨_, -, h⟩ := bind_eq_ok.mp h
      cases pure_eq_ok.mp h
      exact .nothing rfl rfl
  | callReturned =>
      have h : s.callReturned = .ok s' := h
      unfold callReturned at h
      split at h
      · cases h
      · obtain ⟨_, -, h⟩ := bind_eq_ok.mp h
        cases pure_eq_ok.mp h
        exact .nothing rfl rfl
  | executeReturned =>
      have h : s.executeReturned = .ok s' := h
      unfold executeReturned at h
      split at h
      · cases h
      · obtain ⟨_, -, h⟩ := bind_eq_ok.mp h
        cases pure_eq_ok.mp h
        exact .nothing rfl rfl
  | wait seconds =>
      obtain ⟨_, -, h⟩ := bind_eq_ok.mp h
      cases pure_eq_ok.mp h
      exact .nothing rfl rfl

variable (keccak256) in
/-- A step takes a hash off the timelock: the cancellation of a proposal, with the time 1, or
the call that an execution makes. -/
inductive TakesOff (s : State) (step : Address × Action) (x : Bytes32) : Prop
  | cancel (proposalId i : ℕ) (call : Call) : step.2 = .cancel proposalId →
      (s.proposals proposalId).call i = .ok call → x = call.txHash keccak256 1 →
      TakesOff s step x
  | callNext (frame : Frame) (call : Call) : step.2 = .callNext → s.frames.head? = some frame →
      (s.proposals frame.proposalId).call frame.next = .ok call →
      (s.proposals frame.proposalId).eta ≤ s.now →
      x = call.txHash keccak256 (s.proposals frame.proposalId).eta → TakesOff s step x

/-- What stands on the timelock is there after a step that does not take it off. -/
theorem exec_keeps (h : s.exec keccak256 step = .ok s') {x : Bytes32}
    (hx : s.queuedTransactions x = true) :
    s'.queuedTransactions x = true ∨ TakesOff keccak256 s step x := by
  cases exec_writes h with
  | propose h =>
      cases propose_eq_ok h
      exact .inl hx
  | queue h => exact .inl ((queue_puts h).1 x hx)
  | @cancel sender proposalId _ h =>
      by_cases hx' : ∃ i call, (s.proposals proposalId).call i = .ok call ∧
          x = call.txHash keccak256 1
      · obtain ⟨i, call, hcall, heq⟩ := hx'
        exact .inr (.cancel proposalId i call rfl hcall heq)
      · refine .inl ((cancel_keeps h fun i call hcall heq => ?_).trans hx)
        exact hx' ⟨i, call, hcall, heq⟩
  | callNext h =>
      obtain ⟨frame, frames, call, hframes, -, hcall, -, hlocked, -, rfl⟩ := callNext_eq_ok h
      by_cases hx' : x = call.txHash keccak256 (s.proposals frame.proposalId).eta
      · exact .inr (.callNext frame call rfl (by simp [hframes]) hcall hlocked hx')
      · exact .inl (by simpa [setQueued, hx'] using hx)
  | nothing hqueued => exact .inl (hqueued ▸ hx)

/-- Only `propose` makes a proposal, and only with a call. -/
theorem exec_proposes (h : s.exec keccak256 step = .ok s') :
    s'.proposalCount = s.proposalCount ∨ s'.proposalCount = s.proposalCount + 1 ∧
      ∃ call, (s'.proposals s'.proposalCount).call 0 = .ok call := by
  cases exec_writes h with
  | @propose sender targets signatures calldatas _ h =>
      have hs' := propose_eq_ok h
      obtain ⟨_, hlength, h⟩ := bind_eq_ok.mp h
      obtain ⟨_, hsome, -⟩ := bind_eq_ok.mp h
      obtain ⟨hsignatures, hcalldatas⟩ := require_eq_ok.mp hlength
      subst hs'
      refine .inr ⟨rfl, ?_⟩
      simp only [setProposal, Function.update_self]
      cases targets with
      | nil => exact absurd rfl (require_eq_ok.mp hsome)
      | cons target _ =>
          cases signatures with
          | nil => cases hsignatures
          | cons signature _ =>
              cases calldatas with
              | nil => cases hcalldatas
              | cons data _ => exact ⟨⟨target, signature, data⟩, rfl⟩
  | queue h =>
      obtain ⟨-, -, -, queued, rfl, -⟩ := queue_eq_ok h
      exact .inl rfl
  | cancel h =>
      obtain ⟨-, queued, rfl, -⟩ := cancel_eq_ok h
      exact .inl rfl
  | callNext h =>
      obtain ⟨_, _, _, -, -, -, -, -, -, rfl⟩ := callNext_eq_ok h
      exact .inl rfl
  | nothing _ hcount => exact .inl hcount

/-! ## The calls that were queued -/

/-- A proposal was queued in a run, at the time `eta`. -/
def QueuedAt (trace : List (State × (Address × Action))) (proposalId eta : ℕ) : Prop :=
  ∃ q sender, (q, (sender, Action.queue proposalId)) ∈ trace ∧ eta = q.now + q.delay

theorem queuedAt_cons {trace : List (State × (Address × Action))} {proposalId eta : ℕ} :
    QueuedAt ((s, step) :: trace) proposalId eta ↔
      step.2 = .queue proposalId ∧ eta = s.now + s.delay ∨ QueuedAt trace proposalId eta := by
  constructor
  · rintro ⟨q, sender, hmem, heta⟩
    rcases List.mem_cons.mp hmem with heq | hmem
    · cases heq
      exact .inl ⟨rfl, heta⟩
    · exact .inr ⟨q, sender, hmem, heta⟩
  · rintro (⟨hstep, heta⟩ | ⟨q, sender, hmem, heta⟩)
    · exact ⟨s, step.1, by rw [← hstep]; exact List.mem_cons_self, heta⟩
    · exact ⟨q, sender, List.mem_cons_of_mem _ hmem, heta⟩

theorem QueuedSince.queuedAt {trace : List (State × (Address × Action))} {proposalId : ℕ}
    (h : QueuedSince trace s proposalId) :
    QueuedAt trace proposalId (s.proposals proposalId).eta := by
  obtain ⟨between, q, rest, rfl, -, heta, -⟩ := h
  exact ⟨q, q.admin, by simp, heta⟩

variable (keccak256) in
/-- What the hashes of a step are computed from. -/
def hashInputs (s : State) (step : Address × Action) : List (List UInt8) :=
  match step.2, s.frames with
  | .queue proposalId, _ => (s.proposals proposalId).encodings keccak256 (s.now + s.delay)
  | .cancel proposalId, _ => (s.proposals proposalId).encodings keccak256 1
  | .callNext, frame :: _ => (s.proposals frame.proposalId).encodings keccak256
      (s.proposals frame.proposalId).eta
  | _, _ => []

variable (keccak256) in
/-- What the hashes of a run are computed from. -/
def hashInputsOf (trace : List (State × (Address × Action))) : List (List UInt8) :=
  trace.flatMap fun e => e.1.hashInputs keccak256 e.2

variable (keccak256) in
/-- What a run says about the calls that were queued in it: a proposal's calls stand on the
timelock until it is executed, after its time, and no two proposals share a hash. -/
structure Standing (trace : List (State × (Address × Action))) (s : State) : Prop where
  known : ∀ proposalId eta, QueuedAt trace proposalId eta → 1 < eta ∧ eta < wordBound ∧
    proposalId ≤ s.proposalCount ∧ (s.proposals proposalId).eta ≠ 0
  inputs : ∀ proposalId eta, QueuedAt trace proposalId eta → ∀ i call,
    (s.proposals proposalId).call i = .ok call →
      call.encoded keccak256 eta ∈ hashInputsOf keccak256 trace
  stands : ∀ proposalId eta, QueuedAt trace proposalId eta →
    (∀ i call, (s.proposals proposalId).call i = .ok call →
      s.queuedTransactions (call.txHash keccak256 eta) = true) ∨
    (s.proposals proposalId).executed = true ∧ eta ≤ s.now
  apart : ∀ proposalId other eta eta', proposalId ≠ other → QueuedAt trace proposalId eta →
    QueuedAt trace other eta' → ∀ i call j call', (s.proposals proposalId).call i = .ok call →
      (s.proposals other).call j = .ok call' →
        call.txHash keccak256 eta ≠ call'.txHash keccak256 eta'

section Step

variable {trace : List (State × (Address × Action))}

theorem mem_hashInputsOf_of_step {x : List UInt8} (h : x ∈ s.hashInputs keccak256 step) :
    x ∈ hashInputsOf keccak256 ((s, step) :: trace) :=
  List.mem_append_left _ h

theorem mem_hashInputsOf_cons {x : List UInt8} (h : x ∈ hashInputsOf keccak256 trace) :
    x ∈ hashInputsOf keccak256 ((s, step) :: trace) :=
  List.mem_append_right _ h

/-- A step leaves the calls of a proposal as they are. -/
theorem Effect.call_eq (h : Effect keccak256 s step s') {proposalId : ℕ}
    (hold : proposalId ≤ s.proposalCount) (i : ℕ) :
    (s'.proposals proposalId).call i = (s.proposals proposalId).call i := by
  cases h.proposals proposalId with
  | same _ hsame => rw [hsame]
  | proposed hid => omega
  | queued _ _ hproposal => rw [hproposal]; exact Proposal.call_congr rfl rfl rfl i
  | cancelled _ hproposal => rw [hproposal]; exact Proposal.call_congr rfl rfl rfl i
  | executed _ _ hproposal => rw [hproposal]; exact Proposal.call_congr rfl rfl rfl i

/-- A proposal that has a time keeps one. -/
theorem Effect.eta_ne_zero (h : Effect keccak256 s step s') {proposalId : ℕ}
    (hold : proposalId ≤ s.proposalCount) (heta : (s.proposals proposalId).eta ≠ 0) :
    (s'.proposals proposalId).eta ≠ 0 := by
  cases h.proposals proposalId with
  | same _ hsame => rwa [hsame]
  | proposed hid => omega
  | queued _ hstate => exact absurd (of_pending hstate).2.2 heta
  | cancelled _ hproposal => rw [hproposal]; exact Nat.one_ne_zero
  | executed _ _ hproposal => rwa [hproposal]

/-- What stands on the timelock for a proposal is taken off only by its own execution. -/
theorem Standing.stands_next (h : Standing keccak256 trace s)
    (hhistory : History keccak256 trace s) (hexecutions : Executions keccak256 trace s)
    (hexec : s.exec keccak256 step = .ok s')
    (hinj : Set.InjOn keccak256 {x | x ∈ hashInputsOf keccak256 ((s, step) :: trace)})
    {proposalId eta : ℕ} (hqueued : QueuedAt trace proposalId eta) :
    (∀ i call, (s'.proposals proposalId).call i = .ok call →
      s'.queuedTransactions (call.txHash keccak256 eta) = true) ∨
    (s'.proposals proposalId).executed = true ∧ eta ≤ s'.now := by
  have heffect := exec_effect hexec
  obtain ⟨hlarge, hfit, hold, hset⟩ := h.known proposalId eta hqueued
  have hdone : (s.proposals proposalId).executed = true ∧ eta ≤ s.now →
      (s'.proposals proposalId).executed = true ∧ eta ≤ s'.now := by
    rintro ⟨hexecuted, hover⟩
    rw [heffect.proposal_of_executed hhistory hexecuted]
    exact ⟨hexecuted, hover.trans heffect.now_le⟩
  rcases h.stands proposalId eta hqueued with hall | hover
  · by_cases hstands : ∀ i call, (s'.proposals proposalId).call i = .ok call →
        s'.queuedTransactions (call.txHash keccak256 eta) = true
    · exact .inl hstands
    · push Not at hstands
      obtain ⟨i, call, hcall, hgone⟩ := hstands
      rw [heffect.call_eq hold] at hcall
      have hmem := h.inputs proposalId eta hqueued i call hcall
      -- The hash that is taken off is of the same encoding.
      have hsame : ∀ (call' : Call) eta', call'.encoded keccak256 eta' ∈ s.hashInputs keccak256 step →
          call.txHash keccak256 eta = call'.txHash keccak256 eta' → eta' < wordBound →
            eta = eta' := by
        intro call' eta' hmem' hhash hfit'
        exact Call.eta_eq_of_encoded
          (hinj (mem_hashInputsOf_cons hmem) (mem_hashInputsOf_of_step hmem') hhash) hfit hfit'
      cases (exec_keeps hexec (hall i call hcall)).resolve_left hgone with
      | cancel cancelledId j call' hstep hcall' hhash =>
          have hone : eta = 1 := by
            refine hsame call' 1 ?_ hhash (by decide)
            unfold hashInputs
            rw [hstep]
            exact Proposal.mem_encodings hcall'
          omega
      | callNext frame call' hstep hhead hcall' hlocked hhash =>
          obtain ⟨frames, hframes⟩ : ∃ frames, s.frames = frame :: frames :=
            List.head?_eq_some_iff.mp hhead
          obtain ⟨hexecuted, hframe, -⟩ :=
            hexecutions.open_frames frame (hframes ▸ List.mem_cons_self)
          have hmem' : call'.encoded keccak256 (s.proposals frame.proposalId).eta ∈
              s.hashInputs keccak256 step := by
            unfold hashInputs
            rw [hstep, hframes]
            exact Proposal.mem_encodings hcall'
          rcases hhistory.queued _ hframe with hone | hsince
          · rw [hone] at hhash hmem'
            have := hsame call' 1 hmem' hhash (by decide)
            omega
          · have hother := hsince.queuedAt
            have heq : proposalId = frame.proposalId := by
              by_contra hne
              exact h.apart _ _ _ _ hne hqueued hother i call _ call' hcall hcall' hhash
            have heta := hsame call' _ hmem' hhash (h.known _ _ hother).2.1
            exact .inr (hdone ⟨heq ▸ hexecuted, heta ▸ hlocked⟩)
  · exact .inr (hdone hover)

/-- A step that queues a proposal: its hashes are not those of a proposal queued before. -/
theorem Standing.apart_next (h : Standing keccak256 trace s)
    (hhistory : History keccak256 trace s) {sender : Address} {proposalId : ℕ}
    (hqueue : s.queue keccak256 sender proposalId = .ok s')
    (hinj : Set.InjOn keccak256
      {x | x ∈ hashInputsOf keccak256 ((s, (sender, .queue proposalId)) :: trace)})
    {other eta : ℕ} (hother : QueuedAt trace other eta) {i j : ℕ} {call call' : Call}
    (hcall : (s.proposals proposalId).call i = .ok call)
    (hcall' : (s.proposals other).call j = .ok call') :
    call.txHash keccak256 (s.now + s.delay) ≠ call'.txHash keccak256 eta := by
  intro hhash
  obtain ⟨-, -, hfit, -⟩ := queue_eq_ok hqueue
  have hfree := ((queue_puts hqueue).2 i call hcall).1
  rcases h.stands other eta hother with hall | ⟨-, hover⟩
  · rw [hhash, hall j call' hcall'] at hfree
    cases hfree
  · have hmem : call.encoded keccak256 (s.now + s.delay) ∈
        s.hashInputs keccak256 (sender, .queue proposalId) := Proposal.mem_encodings hcall
    have hmem' := h.inputs other eta hother j call' hcall'
    have heta : s.now + s.delay = eta :=
      Call.eta_eq_of_encoded
        (hinj (mem_hashInputsOf_of_step hmem) (mem_hashInputsOf_cons hmem') hhash) hfit
        (h.known other eta hother).2.1
    have hdelay := hhistory.delay
    unfold minimumDelay at hdelay
    omega

theorem Standing.next (h : Standing keccak256 trace s) (hhistory : History keccak256 trace s)
    (hexecutions : Executions keccak256 trace s) (hexec : s.exec keccak256 step = .ok s')
    (hinj : Set.InjOn keccak256 {x | x ∈ hashInputsOf keccak256 ((s, step) :: trace)}) :
    Standing keccak256 ((s, step) :: trace) s' := by
  have heffect := exec_effect hexec
  have hnew : ∀ {proposalId}, step.2 = .queue proposalId →
      ∃ sender, step = (sender, .queue proposalId) ∧
        s.queue keccak256 sender proposalId = .ok s' := by
    intro proposalId hstep
    obtain ⟨sender, action⟩ := step
    cases hstep
    obtain ⟨_, -, hqueue⟩ := bind_eq_ok.mp hexec
    exact ⟨sender, rfl, hqueue⟩
  have hvalid : ∀ {proposalId eta}, QueuedAt ((s, step) :: trace) proposalId eta →
      proposalId ≤ s.proposalCount := by
    intro proposalId eta hqueued
    rcases queuedAt_cons.mp hqueued with ⟨hstep, -⟩ | hqueued
    · obtain ⟨sender, -, hqueue⟩ := hnew hstep
      obtain ⟨-, hstate, -⟩ := queue_eq_ok hqueue
      exact (of_pending hstate).1
    · exact (h.known _ _ hqueued).2.2.1
  refine ⟨fun proposalId eta hqueued => ?_, fun proposalId eta hqueued i call hcall => ?_,
    fun proposalId eta hqueued => ?_, fun proposalId other eta eta' hne hqueued hother i call j
      call' hcall hcall' hhash => ?_⟩
  · have hcount := (hvalid hqueued).trans heffect.count
    rcases queuedAt_cons.mp hqueued with ⟨hstep, rfl⟩ | hqueued
    · obtain ⟨sender, -, hqueue⟩ := hnew hstep
      obtain ⟨-, -, hfit, queued, rfl, -⟩ := queue_eq_ok hqueue
      have hdelay := hhistory.delay
      unfold minimumDelay at hdelay
      refine ⟨by omega, hfit, hcount, ?_⟩
      simp only [setProposal, Function.update_self]
      omega
    · obtain ⟨hlarge, hfit, hold, hset⟩ := h.known _ _ hqueued
      exact ⟨hlarge, hfit, hcount, heffect.eta_ne_zero hold hset⟩
  · rw [heffect.call_eq (hvalid hqueued)] at hcall
    rcases queuedAt_cons.mp hqueued with ⟨hstep, rfl⟩ | hqueued
    · refine mem_hashInputsOf_of_step ?_
      unfold hashInputs
      rw [hstep]
      exact Proposal.mem_encodings hcall
    · exact mem_hashInputsOf_cons (h.inputs _ _ hqueued i call hcall)
  · rcases queuedAt_cons.mp hqueued with ⟨hstep, rfl⟩ | hqueued
    · obtain ⟨sender, -, hqueue⟩ := hnew hstep
      refine .inl fun i call hcall => ?_
      rw [heffect.call_eq (hvalid hqueued)] at hcall
      exact ((queue_puts hqueue).2 i call hcall).2
    · exact h.stands_next hhistory hexecutions hexec hinj hqueued
  · rw [heffect.call_eq (hvalid hqueued)] at hcall
    rw [heffect.call_eq (hvalid hother)] at hcall'
    rcases queuedAt_cons.mp hqueued with ⟨hstep, rfl⟩ | hbefore
    · rcases queuedAt_cons.mp hother with ⟨hstep', -⟩ | hbefore
      · exact hne (Action.queue.inj (hstep.symm.trans hstep'))
      · obtain ⟨sender, rfl, hqueue⟩ := hnew hstep
        exact h.apart_next hhistory hqueue hinj hbefore hcall hcall' hhash
    · rcases queuedAt_cons.mp hother with ⟨hstep', rfl⟩ | hbefore'
      · obtain ⟨sender, rfl, hqueue⟩ := hnew hstep'
        exact h.apart_next hhistory hqueue hinj hbefore hcall' hcall hhash.symm
      · exact h.apart _ _ _ _ hne hbefore hbefore' i call j call' hcall hcall' hhash

theorem Reached.standing {init : State} (h : Reached keccak256 init trace s)
    (hinj : Set.InjOn keccak256 {x | x ∈ hashInputsOf keccak256 trace}) :
    Standing keccak256 trace s := by
  obtain ⟨hinit, hrun⟩ := h
  have hnone : ∀ {proposalId eta}, ¬ QueuedAt [] proposalId eta :=
    fun ⟨_, _, hmem, _⟩ => nomatch hmem
  induction hrun with
  | nil =>
      exact {
        known := fun _ _ hqueued => absurd hqueued hnone
        inputs := fun _ _ hqueued => absurd hqueued hnone
        stands := fun _ _ hqueued => absurd hqueued hnone
        apart := fun _ _ _ _ _ hqueued => absurd hqueued hnone }
  | @cons trace s s' step hrun hexec ih =>
      have hreached : Reached keccak256 init trace s := ⟨hinit, hrun⟩
      have hold := ih (hinj.mono fun x hx => mem_hashInputsOf_cons hx)
      exact hold.next hreached.history hreached.executions hexec hinj

/-! ## Cancelling -/

/-- Every proposal of a run has a call. -/
theorem Reached.has_call {init : State} (h : Reached keccak256 init trace s) {proposalId : ℕ}
    (hpos : 0 < proposalId) (hle : proposalId ≤ s.proposalCount) :
    ∃ call, (s.proposals proposalId).call 0 = .ok call := by
  obtain ⟨⟨self, admin, delay, now, hinit⟩, hrun⟩ := h
  have hall : ∀ id, 0 < id → id ≤ s.proposalCount →
      ∃ call, (s.proposals id).call 0 = .ok call := by
    refine hrun.invariant (fun s => ∀ id, 0 < id → id ≤ s.proposalCount →
      ∃ call, (s.proposals id).call 0 = .ok call) ?_ fun s step s' hs hexec id hid hle => ?_
    · obtain ⟨-, rfl⟩ := constructed_eq_ok hinit
      exact fun id hid hle => absurd hid (not_lt.mpr hle)
    · have hold : id ≤ s.proposalCount → ∃ call, (s'.proposals id).call 0 = .ok call :=
        fun hid' => by rw [(exec_effect hexec).call_eq hid']; exact hs id hid hid'
      rcases exec_proposes hexec with hcount | ⟨hcount, hcall⟩
      · exact hold (hcount ▸ hle)
      · rcases Nat.lt_or_eq_of_le hle with hlt | rfl
        · exact hold (by omega)
        · exact hcall
  exact hall proposalId hpos hle

variable (keccak256) in
/-- What a cancellation is for: the calls of the proposal, queued for the time `eta`, are off
the timelock, and those of the other queued proposals are as they were. -/
structure Revokes (trace : List (State × (Address × Action))) (s s' : State)
    (proposalId eta : ℕ) : Prop where
  taken : ∀ i call, (s.proposals proposalId).call i = .ok call →
    s'.queuedTransactions (call.txHash keccak256 eta) = false
  others : ∀ other eta', other ≠ proposalId → QueuedAt trace other eta' →
    s.proposalState other = .ok .queued → ∀ i call, (s.proposals other).call i = .ok call →
      s'.queuedTransactions (call.txHash keccak256 eta') =
        s.queuedTransactions (call.txHash keccak256 eta')

/-- No cancellation of a queued proposal takes its calls off the timelock: the hashes of all
calls that were queued in the run, its own among them, are as they were. -/
theorem cancel_revokes_nothing {init : State} (h : Reached keccak256 init trace s)
    {sender : Address} {proposalId eta : ℕ} (hqueued : QueuedAt trace proposalId eta)
    (hstate : s.proposalState proposalId = .ok .queued)
    (hcancel : s.exec keccak256 (sender, .cancel proposalId) = .ok s')
    (hinj : Set.InjOn keccak256
      {x | x ∈ hashInputsOf keccak256 ((s, (sender, .cancel proposalId)) :: trace)}) :
    ¬ Revokes keccak256 trace s s' proposalId eta ∧
      ∀ other eta', QueuedAt trace other eta' → ∀ i call,
        (s.proposals other).call i = .ok call →
          s'.queuedTransactions (call.txHash keccak256 eta') =
            s.queuedTransactions (call.txHash keccak256 eta') := by
  have hstanding := h.standing (hinj.mono fun x hx => mem_hashInputsOf_cons hx)
  obtain ⟨_, -, hloop⟩ := bind_eq_ok.mp hcancel
  have hkept : ∀ other eta', QueuedAt trace other eta' → ∀ i call,
      (s.proposals other).call i = .ok call →
        s'.queuedTransactions (call.txHash keccak256 eta') =
          s.queuedTransactions (call.txHash keccak256 eta') := by
    intro other eta' hother i call hcall
    refine cancel_keeps hloop fun j call' hcall' hhash => ?_
    obtain ⟨hlarge, hfit, -⟩ := hstanding.known other eta' hother
    have hmem := hstanding.inputs other eta' hother i call hcall
    have hmem' : call'.encoded keccak256 1 ∈
        s.hashInputs keccak256 (sender, .cancel proposalId) := Proposal.mem_encodings hcall'
    have heta := Call.eta_eq_of_encoded
      (hinj (mem_hashInputsOf_cons hmem) (mem_hashInputsOf_of_step hmem') hhash) hfit (by decide)
    omega
  refine ⟨fun hrevokes => ?_, hkept⟩
  obtain ⟨hle, hunexecuted, -⟩ := of_queued hstate
  obtain ⟨_, hvalid, -⟩ := bind_eq_ok.mp hstate
  obtain ⟨call, hcall⟩ := h.has_call (require_eq_ok.mp hvalid).2 hle
  have hstands : s.queuedTransactions (call.txHash keccak256 eta) = true := by
    rcases hstanding.stands proposalId eta hqueued with hall | ⟨hexecuted, -⟩
    · exact hall 0 call hcall
    · rw [hunexecuted] at hexecuted
      cases hexecuted
  have hoff := hrevokes.taken 0 call hcall
  rw [hkept proposalId eta hqueued 0 call hcall, hstands] at hoff
  cases hoff

end Step

/-- Two proposals are queued, and the first is about to be cancelled. -/
def queuedTwice : Except Revert (List (State × (Address × Action)) × State) :=
  constructed 9 1 60 1000000 >>= fun init =>
    execTrace (exec InterestDollar.keccak256) [] init
      [(4, .propose [7] [[]] [[1, 2]]), (4, .propose [8] [[]] [[3]]), (1, .queue 1),
        (1, .queue 2)]

theorem queuedTwice_returns :
    ∃ init q s s', ∃ trace : List (State × (Address × Action)),
      Reached InterestDollar.keccak256 init trace s ∧
      (q, ((1 : Address), Action.queue 1)) ∈ trace ∧ 1000060 = q.now + q.delay ∧
      s.proposalState 1 = .ok .queued ∧ (s.proposals 1).call 0 = .ok ⟨7, [], [1, 2]⟩ ∧
      s.exec InterestDollar.keccak256 (1, .cancel 1) = .ok s' ∧
      s'.queuedTransactions
        (Call.txHash InterestDollar.keccak256 ⟨7, [], [1, 2]⟩ 1000060) = true ∧
      ((hashInputsOf InterestDollar.keccak256 ((s, (1, .cancel 1)) :: trace)).map
        InterestDollar.keccak256).Nodup := by
  have hsteps : Returns queuedTwice fun out =>
      (∃ e ∈ out.1, e.2 = (1, .queue 1) ∧ 1000060 = e.1.now + e.1.delay) ∧
      Returns (out.2.proposalState 1) (· = .queued) ∧
      Returns ((out.2.proposals 1).call 0) (· = ⟨7, [], [1, 2]⟩) ∧
      Returns (out.2.exec InterestDollar.keccak256 (1, .cancel 1)) (fun s' =>
        s'.queuedTransactions
          (Call.txHash InterestDollar.keccak256 ⟨7, [], [1, 2]⟩ 1000060) = true) ∧
      ((hashInputsOf InterestDollar.keccak256 ((out.2, (1, .cancel 1)) :: out.1)).map
        InterestDollar.keccak256).Nodup := by
    decide +kernel
  obtain ⟨out, hout, ⟨⟨q, step⟩, hq, hstep, heta⟩, ⟨_, hstate, rfl⟩, ⟨_, hcall, rfl⟩,
    ⟨s', hcancel, hstands⟩, hnodup⟩ := hsteps
  obtain ⟨init, hinit, hrun⟩ := bind_eq_ok.mp hout
  have hstep : step = (1, .queue 1) := hstep
  subst hstep
  exact ⟨init, q, out.2, s', out.1, ⟨⟨9, 1, 60, 1000000, hinit⟩, run_of_execTrace .nil hrun⟩, hq,
    heta, hstate, hcall, hcancel, hstands, hnodup⟩

/-- The admin cancels a proposal that is queued, and its call stands on the timelock as before. -/
theorem cancelled_still_queued :
    ∃ init trace s s' sender proposalId eta,
      Reached InterestDollar.keccak256 init trace s ∧ QueuedAt trace proposalId eta ∧
      s.proposalState proposalId = .ok .queued ∧
      s.exec InterestDollar.keccak256 (sender, .cancel proposalId) = .ok s' ∧
      ¬ Revokes InterestDollar.keccak256 trace s s' proposalId eta := by
  obtain ⟨init, q, s, s', trace, hreached, hq, heta, hstate, hcall, hcancel, hstands, -⟩ :=
    queuedTwice_returns
  refine ⟨init, trace, s, s', 1, 1, 1000060, hreached, ⟨q, 1, hq, heta⟩, hstate, hcancel,
    fun hrevokes => ?_⟩
  have hoff := hrevokes.taken 0 _ hcall
  rw [hstands] at hoff
  cases hoff

theorem cancel_revokes_nothing_twice :
    ∃ init trace s s', Reached InterestDollar.keccak256 init trace s ∧
      ¬ Revokes InterestDollar.keccak256 trace s s' 1 1000060 ∧
        ∀ other eta', QueuedAt trace other eta' → ∀ i call,
          (s.proposals other).call i = .ok call →
            s'.queuedTransactions (call.txHash InterestDollar.keccak256 eta') =
              s.queuedTransactions (call.txHash InterestDollar.keccak256 eta') := by
  obtain ⟨init, q, s, s', trace, hreached, hq, heta, hstate, -, hcancel, -, hnodup⟩ :=
    queuedTwice_returns
  exact ⟨init, trace, s, s', hreached,
    cancel_revokes_nothing hreached ⟨q, 1, hq, heta⟩ hstate hcancel
      (List.inj_on_of_nodup_map hnodup)⟩

end State

end Governance

end InterestDollar
