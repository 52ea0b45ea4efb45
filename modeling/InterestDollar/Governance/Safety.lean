import InterestDollar.Contract.Keccak
import InterestDollar.Governance.History

/-!
# What the timelock promises

A call is made by an execution, and the proposal of an execution that is under way was
executed within its window and is under way once. An index is called when the execution
stands at it, and no execution comes back to it.
-/

namespace InterestDollar

open Checked Transition

namespace Governance

variable {keccak256 : List UInt8 → Bytes32} {s s' : State} {step : Address × Action}

/-- The execution has still to call the action at an index. -/
def Frame.Ahead (frame : Frame) (i : ℕ) : Prop :=
  if frame.calling then frame.next < i else frame.next ≤ i

namespace State

variable (keccak256) in
/-- How often a run calls an action of a proposal. -/
def timesCalled (trace : List (State × (Address × Action))) (proposalId i : ℕ) : ℕ :=
  trace.countP fun e => (e.1.externalCall keccak256 e.2).any fun made =>
    made.proposalId = proposalId ∧ made.index = i

theorem timesCalled_cons_of_none {trace : List (State × (Address × Action))}
    (h : s.externalCall keccak256 step = none) (proposalId i : ℕ) :
    timesCalled keccak256 ((s, step) :: trace) proposalId i =
      timesCalled keccak256 trace proposalId i := by
  simp [timesCalled, h]

theorem timesCalled_cons_of_some {trace : List (State × (Address × Action))}
    {made : ExternalCall} (h : s.externalCall keccak256 step = some made) (proposalId i : ℕ) :
    timesCalled keccak256 ((s, step) :: trace) proposalId i =
      timesCalled keccak256 trace proposalId i +
        if made.proposalId = proposalId ∧ made.index = i then 1 else 0 := by
  simp [timesCalled, h, List.countP_cons]

variable (keccak256) in
/-- What a run says about the executions. -/
structure Executions (trace : List (State × (Address × Action))) (s : State) : Prop where
  open_frames : ∀ frame ∈ s.frames, (s.proposals frame.proposalId).executed = true ∧
    (s.proposals frame.proposalId).eta ≠ 0 ∧
      s.now < (s.proposals frame.proposalId).eta + gracePeriod
  nodup : (s.frames.map Frame.proposalId).Nodup
  once : ∀ proposalId i, timesCalled keccak256 trace proposalId i ≤ 1
  unexecuted : ∀ proposalId i, (s.proposals proposalId).executed = false →
    timesCalled keccak256 trace proposalId i = 0
  ahead : ∀ frame ∈ s.frames, ∀ i, frame.Ahead i →
    timesCalled keccak256 trace frame.proposalId i = 0

/-- A proposal that was executed is not written again. -/
theorem Effect.proposal_of_executed {trace : List (State × (Address × Action))}
    (h : Effect keccak256 s step s') (hhistory : History keccak256 trace s) {proposalId : ℕ}
    (hexecuted : (s.proposals proposalId).executed = true) :
    s'.proposals proposalId = s.proposals proposalId := by
  refine h.proposal_of_closed ⟨?_, .inl hexecuted⟩
  by_contra hnew
  rw [(hhistory.fresh proposalId (not_le.mp hnew)).2] at hexecuted
  cases hexecuted

/-- A proposal that was not executed after a step was not executed before it. -/
theorem Effect.executed_false {trace : List (State × (Address × Action))}
    (h : Effect keccak256 s step s') (hhistory : History keccak256 trace s) {proposalId : ℕ}
    (hexecuted : (s'.proposals proposalId).executed = false) :
    (s.proposals proposalId).executed = false := by
  by_contra hold
  have htrue := (Bool.not_eq_false _).mp hold
  rw [h.proposal_of_executed hhistory htrue, htrue] at hexecuted
  cases hexecuted

/-- The executions under way keep their window: no time passes in a transaction. -/
theorem Executions.open_frames_next {trace : List (State × (Address × Action))}
    (h : Executions keccak256 trace s) (hhistory : History keccak256 trace s)
    (heffect : Effect keccak256 s step s') {frame : Frame} (hframe : frame ∈ s.frames) :
    (s'.proposals frame.proposalId).executed = true ∧
      (s'.proposals frame.proposalId).eta ≠ 0 ∧
        s'.now < (s'.proposals frame.proposalId).eta + gracePeriod := by
  obtain ⟨hexecuted, hset, hopen⟩ := h.open_frames frame hframe
  rw [heffect.proposal_of_executed hhistory hexecuted]
  refine ⟨hexecuted, hset, ?_⟩
  rcases heffect.now with hnow | ⟨hidle, -⟩
  · rwa [hnow]
  · rw [hidle] at hframe
    cases hframe

/-- A step that makes no call and starts no execution: the executions that are under way were
under way before, and stand no earlier. -/
theorem Executions.next_of_none {trace : List (State × (Address × Action))}
    (h : Executions keccak256 trace s) (hhistory : History keccak256 trace s)
    (heffect : Effect keccak256 s step s') (hcall : s.externalCall keccak256 step = none)
    (hnodup : (s'.frames.map Frame.proposalId).Nodup)
    (hframes : ∀ frame ∈ s'.frames, ∃ old ∈ s.frames, old.proposalId = frame.proposalId ∧
      ∀ i, frame.Ahead i → old.Ahead i) :
    Executions keccak256 ((s, step) :: trace) s' where
  open_frames frame hframe := by
    obtain ⟨old, hold, hid, -⟩ := hframes frame hframe
    exact hid ▸ h.open_frames_next hhistory heffect hold
  nodup := hnodup
  once proposalId i := by
    rw [timesCalled_cons_of_none hcall]
    exact h.once proposalId i
  unexecuted proposalId i hexecuted := by
    rw [timesCalled_cons_of_none hcall]
    exact h.unexecuted proposalId i (heffect.executed_false hhistory hexecuted)
  ahead frame hframe i hahead := by
    obtain ⟨old, hold, hid, hle⟩ := hframes frame hframe
    rw [timesCalled_cons_of_none hcall, ← hid]
    exact h.ahead old hold i (hle i hahead)

/-- The execution of a queued proposal starts: nothing of it was called before. -/
theorem Executions.next_of_entered {trace : List (State × (Address × Action))}
    (h : Executions keccak256 trace s) (hhistory : History keccak256 trace s)
    (heffect : Effect keccak256 s step s') (hcall : s.externalCall keccak256 step = none)
    {proposalId : ℕ} (hstate : s.proposalState proposalId = .ok .queued)
    (hnow : s'.now = s.now)
    (hproposal : s'.proposals proposalId = { s.proposals proposalId with executed := true })
    (hnew : s'.frames = ⟨step.1, proposalId, 0, false⟩ :: s.frames) :
    Executions keccak256 ((s, step) :: trace) s' := by
  obtain ⟨-, hnot, hset, hopen⟩ := of_queued hstate
  have hother : proposalId ∉ s.frames.map Frame.proposalId := by
    intro hmem
    obtain ⟨frame, hframe, rfl⟩ := List.mem_map.mp hmem
    rw [(h.open_frames frame hframe).1] at hnot
    cases hnot
  exact {
    open_frames := by
      rw [hnew]
      refine List.forall_mem_cons.mpr ⟨?_, fun frame hframe =>
        h.open_frames_next hhistory heffect hframe⟩
      rw [hproposal, hnow]
      exact ⟨rfl, hset, hopen⟩
    nodup := by
      rw [hnew]
      exact List.nodup_cons.mpr ⟨hother, h.nodup⟩
    once := fun id i => by
      rw [timesCalled_cons_of_none hcall]
      exact h.once id i
    unexecuted := fun id i hexecuted => by
      rw [timesCalled_cons_of_none hcall]
      exact h.unexecuted id i (heffect.executed_false hhistory hexecuted)
    ahead := by
      rw [hnew]
      refine List.forall_mem_cons.mpr ⟨fun i _ => ?_, fun frame hframe i hahead => ?_⟩
      · rw [timesCalled_cons_of_none hcall]
        exact h.unexecuted proposalId i hnot
      · rw [timesCalled_cons_of_none hcall]
        exact h.ahead frame hframe i hahead }

/-- The innermost execution calls the action it stands at, which was not called before. -/
theorem Executions.next_of_called {trace : List (State × (Address × Action))}
    (h : Executions keccak256 trace s) (hhistory : History keccak256 trace s)
    (heffect : Effect keccak256 s step s') {frame : Frame} {frames : List Frame}
    (hold : s.frames = frame :: frames) (hcalling : frame.calling = false)
    {target : Address} {callData : List UInt8}
    (hmade : s.externalCall keccak256 step =
      some ⟨frame.proposalId, frame.next, target, callData⟩)
    (hnew : s'.frames = { frame with calling := true } :: frames) :
    Executions keccak256 ((s, step) :: trace) s' := by
  have hmem : frame ∈ s.frames := hold ▸ List.mem_cons_self
  have hnodup := h.nodup
  rw [hold] at hnodup
  have hhead := h.open_frames_next hhistory heffect hmem
  have hnever : timesCalled keccak256 trace frame.proposalId frame.next = 0 :=
    h.ahead frame hmem frame.next (by simp [Frame.Ahead, hcalling])
  exact {
    open_frames := by
      rw [hnew]
      exact List.forall_mem_cons.mpr ⟨hhead, fun other hother => h.open_frames_next hhistory heffect
          (hold ▸ List.mem_cons_of_mem _ hother)⟩
    nodup := by rwa [hnew]
    once := fun id i => by
      rw [timesCalled_cons_of_some hmade]
      split_ifs with hmatch
      · rw [← hmatch.1, ← hmatch.2, hnever]
      · exact h.once id i
    unexecuted := fun id i hexecuted => by
      have hbefore := heffect.executed_false hhistory hexecuted
      rw [timesCalled_cons_of_some hmade, if_neg, h.unexecuted id i hbefore]
      rintro ⟨rfl, -⟩
      rw [(h.open_frames frame hmem).1] at hbefore
      cases hbefore
    ahead := by
      rw [hnew]
      refine List.forall_mem_cons.mpr ⟨fun i hahead => ?_, fun other hother i hahead => ?_⟩
      · have hlater : frame.next < i := by simpa [Frame.Ahead] using hahead
        rw [timesCalled_cons_of_some hmade, if_neg fun hmatch => hlater.ne hmatch.2]
        exact h.ahead frame hmem i (by simpa [Frame.Ahead, hcalling] using hlater.le)
      · rw [timesCalled_cons_of_some hmade, if_neg]
        · exact h.ahead other (hold ▸ List.mem_cons_of_mem _ hother) i hahead
        · rintro ⟨heq, -⟩
          have hid : other.proposalId = frame.proposalId := heq.symm
          exact (List.nodup_cons.mp hnodup).1 (hid ▸ List.mem_map_of_mem hother) }

theorem Executions.next {trace : List (State × (Address × Action))}
    (h : Executions keccak256 trace s) (hhistory : History keccak256 trace s)
    (heffect : Effect keccak256 s step s') :
    Executions keccak256 ((s, step) :: trace) s' := by
  cases heffect.frames with
  | same hcall hframes =>
      refine h.next_of_none hhistory heffect hcall (hframes ▸ h.nodup) fun frame hframe => ?_
      exact ⟨frame, hframes ▸ hframe, rfl, fun _ => id⟩
  | returned frame frames hcall hold hcalling hnew =>
      have hnodup := h.nodup
      rw [hold] at hnodup
      refine h.next_of_none hhistory heffect hcall (by rwa [hnew]) ?_
      rw [hnew, hold]
      refine List.forall_mem_cons.mpr ⟨⟨frame, List.mem_cons_self, rfl, fun i hahead => ?_⟩, ?_⟩
      · simp only [Frame.Ahead, hcalling, if_true] at hahead ⊢
        exact hahead
      · exact fun other hother => ⟨other, List.mem_cons_of_mem _ hother, rfl, fun _ => id⟩
  | left frame hcall hold =>
      have hnodup := h.nodup
      rw [hold] at hnodup
      refine h.next_of_none hhistory heffect hcall (List.nodup_cons.mp hnodup).2 ?_
      intro other hother
      exact ⟨other, hold ▸ List.mem_cons_of_mem _ hother, rfl, fun _ => id⟩
  | entered proposalId hcall hstate hnow hproposal hnew =>
      exact h.next_of_entered hhistory heffect hcall hstate hnow hproposal hnew
  | called frame frames call hold hcalling _ _ _ _ hmade hnew =>
      exact h.next_of_called hhistory heffect hold hcalling hmade hnew

theorem Reached.executions {init : State} {trace : List (State × (Address × Action))}
    (h : Reached keccak256 init trace s) : Executions keccak256 trace s := by
  obtain ⟨⟨self, admin, delay, now, hinit⟩, hrun⟩ := h
  have hboth : History keccak256 trace s ∧ Executions keccak256 trace s := by
    refine hrun.invariant_trace (fun trace s => History keccak256 trace s ∧
      Executions keccak256 trace s) ⟨?_, ?_⟩ fun trace s step s' hs hexec =>
        ⟨hs.1.next (exec_effect hexec), hs.2.next hs.1 (exec_effect hexec)⟩
    · exact Reached.history ⟨⟨self, admin, delay, now, hinit⟩, .nil⟩
    · obtain ⟨-, rfl⟩ := constructed_eq_ok hinit
      exact {
        open_frames := fun _ hframe => absurd hframe List.not_mem_nil
        nodup := List.nodup_nil
        once := fun _ _ => Nat.zero_le 1
        unexecuted := fun _ _ _ => rfl
        ahead := fun _ hframe => absurd hframe List.not_mem_nil }
  exact hboth.2

theorem Reached.now_le {init : State} {trace : List (State × (Address × Action))}
    (h : Reached keccak256 init trace s) : init.now ≤ s.now :=
  h.run.invariant (fun s => init.now ≤ s.now) le_rfl fun _ _ _ hs hexec =>
    hs.trans (exec_effect hexec).now_le

/-- What was executed or has expired in a run stays closed to its end. -/
theorem Reached.closed {init : State} {trace : List (State × (Address × Action))}
    (h : Reached keccak256 init trace s) {e : State × (Address × Action)} (he : e ∈ trace)
    {proposalId : ℕ} (hclosed : e.1.Closed proposalId) : s.Closed proposalId := by
  have hall : ∀ e ∈ trace, e.1.Closed proposalId → s.Closed proposalId := by
    refine h.run.invariant_trace (fun trace s => ∀ e ∈ trace, e.1.Closed proposalId →
      s.Closed proposalId) (by simp) fun trace s step s' hs hexec => ?_
    have hstep : s.Closed proposalId → s'.Closed proposalId := (exec_effect hexec).closed
    exact List.forall_mem_cons.mpr ⟨hstep, fun e he hclosed => hstep (hs e he hclosed)⟩
  exact hall e he hclosed

variable (keccak256) in
/-- The action that is called was queued by the admin and not cancelled since, and the call
is made within the window that the delay of that time opened. -/
def InWindow (before : List (State × (Address × Action))) (now : ℕ) (made : ExternalCall) :
    Prop :=
  ∃ between q rest call, before = between ++ (q, (q.admin, .queue made.proposalId)) :: rest ∧
    (∀ x ∈ between, x.2.2 ≠ .cancel made.proposalId) ∧
    (q.proposals made.proposalId).call made.index = .ok call ∧
    made.target = call.target ∧ made.callData = call.callData keccak256 ∧
    q.now + q.delay ≤ now ∧ now < q.now + q.delay + gracePeriod

/-- A call of a proposal that has the time of a cancellation: the timelock holds its hash,
which is then the hash of something else that the run hashed. -/
theorem not_injOn_of_eta_eq_one {before : List (State × (Address × Action))}
    (hhistory : History keccak256 before s) {call : Call}
    (hqueued : s.queuedTransactions (call.txHash keccak256 1) = true)
    (hmem : call.encoded keccak256 1 ∈ s.hashed keccak256 step) :
    ¬ Set.InjOn keccak256 (hashedIn keccak256 ((s, step) :: before)) := by
  intro hinj
  obtain ⟨other, eta, hlarge, hfit, hother, hhash⟩ := hhistory.hashed _ hqueued
  have hencoded : call.encoded keccak256 1 = other.encoded keccak256 eta :=
    hinj ⟨(s, step), List.mem_cons_self, hmem⟩ (hashedIn_cons hother) hhash
  have heta := Call.eta_eq_of_encoded hencoded (by decide) hfit
  omega

theorem Reached.inWindow {init : State} {before : List (State × (Address × Action))}
    (h : Reached keccak256 init before s) (heffect : Effect keccak256 s step s')
    (hinj : init.now ≤ gracePeriod →
      Set.InjOn keccak256 (hashedIn keccak256 ((s, step) :: before)))
    {made : ExternalCall} (hmade : s.externalCall keccak256 step = some made) :
    InWindow keccak256 before s.now made := by
  cases heffect.frames with
  | same hnone => exact absurd hmade (by simp [hnone])
  | entered _ hnone => exact absurd hmade (by simp [hnone])
  | returned _ _ hnone => exact absurd hmade (by simp [hnone])
  | left _ hnone => exact absurd hmade (by simp [hnone])
  | called frame frames call hframes hcalling hcall hqueued hlocked hstep hsome =>
      cases hmade.symm.trans hsome
      obtain ⟨-, hset, hopen⟩ := h.executions.open_frames frame (hframes ▸ List.mem_cons_self)
      rcases h.history.queued _ hset with hone | ⟨between, q, rest, rfl, hsince, heta, hcalls⟩
      · -- Only before the first grace period is over is a cancelled proposal still queued.
        rw [hone] at hqueued hopen
        have hnow := h.now_le
        refine absurd (hinj (by omega)) (not_injOn_of_eta_eq_one h.history hqueued ?_)
        rw [← hone]
        unfold hashed
        rw [hstep]
        exact ⟨frame, by simp [hframes], call, hcall, rfl⟩
      · rw [heta] at hlocked hopen
        exact ⟨between, q, rest, call, rfl, hsince, (hcalls _).trans hcall, rfl, rfl, hlocked,
          hopen⟩

/-- Each external call belongs to an action that the admin queued, that was not cancelled
since, and whose delay is over and grace period is not; no action is called twice; and what
was executed or has expired is not pending or queued again. A hash of two encodings matters
only within three days of time 0, where a cancelled proposal has not expired. -/
theorem timelock_safe {init : State} {trace : List (State × (Address × Action))}
    (h : Reached keccak256 init trace s)
    (hinj : init.now ≤ gracePeriod → Set.InjOn keccak256 (hashedIn keccak256 trace)) :
    (∀ after e before made, trace = after ++ e :: before →
      e.1.externalCall keccak256 e.2 = some made →
        InWindow keccak256 before e.1.now made) ∧
    (∀ proposalId i, timesCalled keccak256 trace proposalId i ≤ 1) ∧
    ∀ e ∈ trace, ∀ proposalId, e.1.proposalState proposalId = .ok .executed ∨
      e.1.proposalState proposalId = .ok .expired →
        s.proposalState proposalId ≠ .ok .pending ∧ s.proposalState proposalId ≠ .ok .queued := by
  refine ⟨?_, h.executions.once, fun e he proposalId hstate => ?_⟩
  · rintro after ⟨t, step⟩ before made rfl hmade
    obtain ⟨hbefore, t', ht⟩ := h.run.split
    have hsub : hashedIn keccak256 ((t, step) :: before) ⊆
        hashedIn keccak256 (after ++ (t, step) :: before) :=
      fun _ ⟨e, he, hx⟩ => ⟨e, List.mem_append_right _ he, hx⟩
    exact Reached.inWindow ⟨h.constructed, hbefore⟩ (exec_effect ht)
      (fun hearly => (hinj hearly).mono hsub) hmade
  · have hclosed : e.1.Closed proposalId := by
      rcases hstate with hstate | hstate
      · exact closed_of_executed hstate
      · exact closed_of_expired hstate
    have hend := h.closed he hclosed
    exact ⟨hend.not_pending, hend.not_queued⟩

/-- A proposal of one call is queued and executed after its delay, and the target that is called
makes a proposal of its own. -/
theorem timelock_safe_reentered :
    ∃ init trace s, Reached InterestDollar.keccak256 init trace s ∧
      timesCalled InterestDollar.keccak256 trace 1 0 = 1 ∧
      (∀ after e before made, trace = after ++ e :: before →
        e.1.externalCall InterestDollar.keccak256 e.2 = some made →
          InWindow InterestDollar.keccak256 before e.1.now made) ∧
      s.proposalState 1 ≠ .ok .pending ∧ s.proposalState 1 ≠ .ok .queued := by
  have hsteps : Returns (constructed 9 1 60 1000000 >>= fun init =>
      execTrace (exec InterestDollar.keccak256) [] init
        [(4, .propose [7] [[]] [[1, 2]]), (1, .queue 1), (0, .wait 60), (1, .execute 1),
          (1, .callNext), (7, .propose [9] [[]] [[]]), (1, .callReturned),
          (1, .executeReturned), (0, .wait 13)])
      fun out => timesCalled InterestDollar.keccak256 out.1 1 0 = 1 ∧
        ∃ e ∈ out.1, Returns (e.1.proposalState 1) (· = .executed) := by decide +kernel
  obtain ⟨out, hout, hcalled, e, he, state, hstate, rfl⟩ := hsteps
  obtain ⟨init, hinit, hout⟩ := bind_eq_ok.mp hout
  have hreached : Reached InterestDollar.keccak256 init out.1 out.2 :=
    ⟨⟨9, 1, 60, 1000000, hinit⟩, run_of_execTrace .nil hout⟩
  have hlate : ¬ init.now ≤ gracePeriod := by
    obtain ⟨-, rfl⟩ := constructed_eq_ok hinit
    decide
  have hsafe := timelock_safe hreached fun hearly => absurd hearly hlate
  exact ⟨init, out.1, out.2, hreached, hcalled, hsafe.1, hsafe.2.2 e he 1 (.inl hstate)⟩

end State

end Governance

end InterestDollar
