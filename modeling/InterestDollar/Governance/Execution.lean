import InterestDollar.Governance.Cancellation

/-!
# Executions are not held up

Every call that an execution has still to make stands on the timelock, whatever else was
queued, cancelled or executed since the proposal was queued, and from inside the calls of
the execution itself. So the timelock lets the next call through exactly where the caller of
`execute` is the admin and the time of the proposal has come, and a proposal whose time has
come is executed to its end where its targets return.
-/

namespace InterestDollar

open Checked Transition

namespace Governance

variable {keccak256 : List UInt8 → Bytes32}

namespace State

variable {s s' init : State} {step : Address × Action}
  {trace : List (State × (Address × Action))}

/-! ## The calls of one proposal -/

/-- Every index of a proposal has a call. -/
def WellFormed (proposal : Proposal) : Prop :=
  proposal.signatures.length = proposal.targets.length ∧
    proposal.calldatas.length = proposal.targets.length

theorem WellFormed.call {proposal : Proposal} (h : WellFormed proposal) {i : ℕ}
    (hi : i < proposal.targets.length) : ∃ call, proposal.call i = .ok call := by
  obtain ⟨hsignatures, hcalldatas⟩ := h
  refine ⟨⟨proposal.targets[i], proposal.signatures[i], proposal.calldatas[i]⟩, ?_⟩
  simp [Proposal.call, hi, hsignatures, hcalldatas]

theorem exec_wellFormed (h : s.exec keccak256 step = .ok s')
    (hold : ∀ proposalId, WellFormed (s.proposals proposalId)) (proposalId : ℕ) :
    WellFormed (s'.proposals proposalId) := by
  cases (exec_effect h).proposals proposalId with
  | same _ hsame => exact hsame ▸ hold proposalId
  | queued _ _ hproposal => exact hproposal ▸ hold proposalId
  | cancelled _ hproposal => exact hproposal ▸ hold proposalId
  | executed _ _ hproposal => exact hproposal ▸ hold proposalId
  | proposed hid hcount =>
      cases exec_writes h with
      | propose hpropose =>
          cases propose_eq_ok hpropose
          obtain ⟨_, hlengths, -⟩ := bind_eq_ok.mp hpropose
          obtain ⟨hsignatures, hcalldatas⟩ := require_eq_ok.mp hlengths
          rw [hid]
          simpa [setProposal, WellFormed] using ⟨hsignatures.symm, hcalldatas.symm⟩
      | queue h =>
          obtain ⟨-, -, -, _, rfl, -⟩ := queue_eq_ok h
          exact absurd hcount (Nat.succ_ne_self _).symm
      | cancel h =>
          obtain ⟨-, _, rfl, -⟩ := cancel_eq_ok h
          exact absurd hcount (Nat.succ_ne_self _).symm
      | callNext h =>
          obtain ⟨_, _, _, -, -, -, -, -, -, rfl⟩ := callNext_eq_ok h
          exact absurd hcount (Nat.succ_ne_self _).symm
      | nothing _ hsame => exact absurd (hsame.symm.trans hcount) (Nat.succ_ne_self _).symm

theorem Reached.wellFormed (h : Reached keccak256 init trace s) (proposalId : ℕ) :
    WellFormed (s.proposals proposalId) := by
  obtain ⟨⟨_, _, _, _, hinit⟩, hrun⟩ := h
  refine hrun.invariant (fun s => ∀ proposalId, WellFormed (s.proposals proposalId)) ?_
    (fun s step s' hs hexec => exec_wellFormed hexec hs) proposalId
  obtain ⟨-, rfl⟩ := constructed_eq_ok hinit
  exact fun _ => ⟨rfl, rfl⟩

/-- The loop of `queue` refuses a hash that it has put there itself. -/
theorem queueLoop_pairwise {proposal : Proposal} {sender : Address} {eta : ℕ} {indices : List ℕ}
    (h : indices.foldlM (fun s i => do
      let call ← proposal.call i
      s.queueOrRevert keccak256 sender call eta) s = .ok s') :
    indices.Pairwise fun i j => ∀ call call', proposal.call i = .ok call →
      proposal.call j = .ok call' → call.txHash keccak256 eta ≠ call'.txHash keccak256 eta := by
  induction indices generalizing s with
  | nil => exact .nil
  | cons i indices ih =>
      rw [List.foldlM_cons] at h
      obtain ⟨t, ht, hrest⟩ := bind_eq_ok.mp h
      obtain ⟨first, hfirst, ht⟩ := bind_eq_ok.mp ht
      refine .cons (fun j hj call call' hcall hcall' heq => ?_) (ih hrest)
      cases hfirst.symm.trans hcall
      have hfree := ((queueLoop_eq_ok hrest).2 j hj call' hcall').1
      rw [queueOrRevert_eq_ok ht, ← heq] at hfree
      simp [setQueued] at hfree

theorem queue_distinct {sender : Address} {proposalId : ℕ}
    (h : s.queue keccak256 sender proposalId = .ok s') {i j : ℕ} {call call' : Call}
    (hij : i ≠ j) (hcall : (s.proposals proposalId).call i = .ok call)
    (hcall' : (s.proposals proposalId).call j = .ok call') :
    call.txHash keccak256 (s.now + s.delay) ≠ call'.txHash keccak256 (s.now + s.delay) := by
  obtain ⟨_, -, h⟩ := bind_eq_ok.mp h
  obtain ⟨_, -, h⟩ := bind_eq_ok.mp h
  obtain ⟨_, -, h⟩ := bind_eq_ok.mp h
  obtain ⟨eta, heta, h⟩ := bind_eq_ok.mp h
  obtain ⟨-, rfl⟩ := SafeMath.add_eq_ok.mp heta
  have hpairs := List.pairwise_iff_getElem.mp (queueLoop_pairwise h)
  have hbefore : ∀ {i j call call'}, i < j → (s.proposals proposalId).call i = .ok call →
      (s.proposals proposalId).call j = .ok call' →
        call.txHash keccak256 (s.now + s.delay) ≠ call'.txHash keccak256 (s.now + s.delay) := by
    intro i j call call' hlt hi hj
    have hilt := Proposal.lt_of_call hi
    have hjlt := Proposal.lt_of_call hj
    have hpair := hpairs i j (by simpa using hilt) (by simpa using hjlt) hlt
    simp only [List.getElem_range] at hpair
    exact hpair call call' hi hj
  rcases Nat.lt_or_gt_of_ne hij with hlt | hgt
  · exact hbefore hlt hcall hcall'
  · exact (hbefore hgt hcall' hcall).symm

/-- No two calls of a proposal that was queued share a hash. -/
theorem Reached.distinct (h : Reached keccak256 init trace s)
    (hinj : Set.InjOn keccak256 {x | x ∈ hashInputsOf keccak256 trace}) {proposalId eta : ℕ}
    (hqueued : QueuedAt trace proposalId eta) {i j : ℕ} {call call' : Call} (hij : i ≠ j)
    (hcall : (s.proposals proposalId).call i = .ok call)
    (hcall' : (s.proposals proposalId).call j = .ok call') :
    call.txHash keccak256 eta ≠ call'.txHash keccak256 eta := by
  obtain ⟨hinit, hrun⟩ := h
  induction hrun generalizing call call' with
  | nil =>
      obtain ⟨_, _, hmem, -⟩ := hqueued
      exact absurd hmem List.not_mem_nil
  | @cons trace s s' step hrun hexec ih =>
      have hinj' := hinj.mono fun x hx => mem_hashInputsOf_cons hx
      have hreached : Reached keccak256 init trace s := ⟨hinit, hrun⟩
      have heffect := exec_effect hexec
      rcases queuedAt_cons.mp hqueued with ⟨hstep, rfl⟩ | hbefore
      · obtain ⟨sender, action⟩ := step
        cases hstep
        obtain ⟨_, -, hqueue⟩ := bind_eq_ok.mp hexec
        have hvalid := (of_pending (queue_eq_ok hqueue).2.1).1
        rw [heffect.call_eq hvalid] at hcall hcall'
        exact queue_distinct hqueue hij hcall hcall'
      · have hvalid := ((hreached.standing hinj').known _ _ hbefore).2.2.1
        rw [heffect.call_eq hvalid] at hcall hcall'
        exact ih hinj' hbefore hcall hcall'

/-! ## The calls that are still to be made -/

variable (keccak256) in
/-- The proposal of an execution has the time it was queued for, and the calls that the
execution has still to make stand on the timelock. -/
structure Ready (trace : List (State × (Address × Action))) (s : State) (frame : Frame) :
    Prop where
  fits : (s.proposals frame.proposalId).eta + gracePeriod < wordBound
  timed : QueuedAt trace frame.proposalId (s.proposals frame.proposalId).eta
  stands : ∀ i, frame.Ahead i → ∀ call, (s.proposals frame.proposalId).call i = .ok call →
    s.queuedTransactions (call.txHash keccak256 (s.proposals frame.proposalId).eta) = true

theorem externalCall_of_callNext (h : s.exec keccak256 step = .ok s')
    (hstep : step.2 = .callNext) : s.externalCall keccak256 step ≠ none := by
  obtain ⟨sender, action⟩ := step
  cases hstep
  obtain ⟨out, hout, -⟩ := bind_eq_ok.mp h
  change (s.callNext keccak256).toOption.map Prod.snd ≠ none
  rw [hout]
  exact Option.some_ne_none _

section Step

variable (hall : ∀ frame ∈ s.frames, Ready keccak256 trace s frame)
  (hreached : Reached keccak256 init trace s) (hexec : s.exec keccak256 step = .ok s')
  (hinj : Set.InjOn keccak256 {x | x ∈ hashInputsOf keccak256 ((s, step) :: trace)})
include hall hreached hexec hinj

/-- What stands for an execution that is under way is taken off by the call it makes, and by
nothing else. -/
theorem next_of_gone {frame : Frame} (hframe : frame ∈ s.frames) {i : ℕ}
    (hahead : frame.Ahead i) {call : Call}
    (hcall : (s.proposals frame.proposalId).call i = .ok call)
    (hgone : s'.queuedTransactions
      (call.txHash keccak256 (s.proposals frame.proposalId).eta) ≠ true) :
    step.2 = .callNext ∧ s.frames.head? = some frame ∧ i = frame.next := by
  have hinj' : Set.InjOn keccak256 {x | x ∈ hashInputsOf keccak256 trace} :=
    hinj.mono fun x hx => mem_hashInputsOf_cons hx
  have hstanding := hreached.standing hinj'
  have hready := hall frame hframe
  obtain ⟨hlarge, hfit, -⟩ := hstanding.known _ _ hready.timed
  cases (exec_keeps hexec (hready.stands i hahead call hcall)).resolve_left hgone with
  | cancel cancelledId j call' hstep hcall' hhash =>
      have hmem : call'.encoded keccak256 1 ∈ s.hashInputs keccak256 step := by
        unfold hashInputs
        rw [hstep]
        exact Proposal.mem_encodings hcall'
      have hmem' := hstanding.inputs _ _ hready.timed i call hcall
      have hone := Call.eta_eq_of_encoded
        (hinj (mem_hashInputsOf_cons hmem') (mem_hashInputsOf_of_step hmem) hhash) hfit
        (by decide)
      omega
  | callNext top call' hstep hhead hcall' _ hhash =>
      obtain ⟨frames, hframes⟩ : ∃ frames, s.frames = top :: frames :=
        List.head?_eq_some_iff.mp hhead
      have htop : top ∈ s.frames := hframes ▸ List.mem_cons_self
      -- Another proposal has other hashes, and another call of this one has.
      have hid : frame.proposalId = top.proposalId := by
        by_contra hne
        exact hstanding.apart _ _ _ _ hne hready.timed (hall top htop).timed i call _ call' hcall
          hcall' hhash
      have hsame : frame = top :=
        List.inj_on_of_nodup_map hreached.executions.nodup hframe htop hid
      subst hsame
      refine ⟨hstep, hhead, ?_⟩
      by_contra hij
      exact hreached.distinct hinj' hready.timed hij hcall hcall' hhash

/-- An execution stays ready where it stands no earlier than before, and past the call that it
has just made. -/
theorem Ready.next_of_mem {frame old : Frame} (hold : old ∈ s.frames)
    (hid : old.proposalId = frame.proposalId)
    (hback : ∀ i, frame.Ahead i → old.Ahead i ∧
      (step.2 = .callNext → s.frames.head? = some old → i ≠ old.next)) :
    Ready keccak256 ((s, step) :: trace) s' frame := by
  have hsame : s'.proposals old.proposalId = s.proposals old.proposalId :=
    (exec_effect hexec).proposal_of_executed hreached.history
      (hreached.executions.open_frames old hold).1
  have hready := hall old hold
  refine ⟨?_, ?_, fun i hahead call hcall => ?_⟩
  · rw [← hid, hsame]
    exact hready.fits
  · rw [← hid, hsame]
    exact queuedAt_cons.mpr (.inr hready.timed)
  · obtain ⟨hahead, hpast⟩ := hback i hahead
    rw [← hid, hsame] at hcall ⊢
    by_contra hgone
    obtain ⟨hstep, hhead, hnext⟩ := next_of_gone hall hreached hexec hinj hold hahead hcall hgone
    exact hpast hstep hhead hnext

/-- A step that makes no call leaves the executions ready that stand no earlier. -/
theorem Ready.next_of_none {frame old : Frame} (hold : old ∈ s.frames)
    (hnone : s.externalCall keccak256 step = none) (hid : old.proposalId = frame.proposalId)
    (hback : ∀ i, frame.Ahead i → old.Ahead i) :
    Ready keccak256 ((s, step) :: trace) s' frame :=
  Ready.next_of_mem hall hreached hexec hinj hold hid fun i hahead =>
    ⟨hback i hahead, fun hstep => absurd hnone (externalCall_of_callNext hexec hstep)⟩

end Step

/-- A proposal that is queued after the first grace period has the time of its queueing. -/
theorem Reached.queuedAt_of_queued (h : Reached keccak256 init trace s)
    (hlate : gracePeriod < init.now) {proposalId : ℕ}
    (hstate : s.proposalState proposalId = .ok .queued) :
    QueuedAt trace proposalId (s.proposals proposalId).eta := by
  obtain ⟨-, -, hset, hopen⟩ := of_queued hstate
  rcases h.history.queued proposalId hset with hone | hsince
  · have hnow := h.now_le
    omega
  · exact hsince.queuedAt

theorem proposalState_fits {proposalId : ℕ} (h : s.proposalState proposalId = .ok .queued) :
    (s.proposals proposalId).eta + gracePeriod < wordBound := by
  obtain ⟨_, -, h⟩ := bind_eq_ok.mp h
  dsimp only at h
  split_ifs at h with hexecuted hpending
  · cases pure_eq_ok.mp h
  · cases pure_eq_ok.mp h
  · obtain ⟨expiry, hexpiry, -⟩ := bind_eq_ok.mp h
    exact (SafeMath.add_eq_ok.mp hexpiry).1

/-- The calls of a queued proposal all stand on the timelock. -/
theorem Reached.queued_stands (h : Reached keccak256 init trace s)
    (hlate : gracePeriod < init.now)
    (hinj : Set.InjOn keccak256 {x | x ∈ hashInputsOf keccak256 trace}) {proposalId : ℕ}
    (hstate : s.proposalState proposalId = .ok .queued) {i : ℕ} {call : Call}
    (hcall : (s.proposals proposalId).call i = .ok call) :
    s.queuedTransactions (call.txHash keccak256 (s.proposals proposalId).eta) = true := by
  obtain ⟨-, hunexecuted, -⟩ := of_queued hstate
  rcases (h.standing hinj).stands _ _ (h.queuedAt_of_queued hlate hstate) with
    hall | ⟨hexecuted, -⟩
  · exact hall i call hcall
  · rw [hunexecuted] at hexecuted
    cases hexecuted

/-- Only an `execute` starts an execution. -/
theorem Effect.execute_of_entered (h : Effect keccak256 s step s') {proposalId : ℕ}
    (hstate : s.proposalState proposalId = .ok .queued)
    (hproposal : s'.proposals proposalId = { s.proposals proposalId with executed := true }) :
    step.2 = .execute proposalId := by
  have hbefore := (of_queued hstate).2.1
  have hafter : (s'.proposals proposalId).executed = true := by rw [hproposal]
  cases h.proposals proposalId with
  | executed hstep => exact hstep
  | same _ hsame => simp [hsame, hbefore] at hafter
  | proposed _ _ _ hexecuted => simp [hexecuted] at hafter
  | queued _ _ hqueued => simp [hqueued, hbefore] at hafter
  | cancelled _ hcancelled => simp [hcancelled, hbefore] at hafter

/-- The execution of a queued proposal starts with all its calls on the timelock. -/
theorem ready_entered (hreached : Reached keccak256 init trace s) (hlate : gracePeriod < init.now)
    {sender : Address} {proposalId : ℕ}
    (hexec : s.exec keccak256 (sender, .execute proposalId) = .ok s')
    (hinj : Set.InjOn keccak256 {x | x ∈ hashInputsOf keccak256 trace}) :
    Ready keccak256 ((s, (sender, .execute proposalId)) :: trace) s'
      ⟨sender, proposalId, 0, false⟩ := by
  obtain ⟨_, -, hexecute⟩ := bind_eq_ok.mp hexec
  obtain ⟨hstate, rfl⟩ := execute_eq_ok hexecute
  have hcalls (i : ℕ) : Proposal.call { s.proposals proposalId with executed := true } i =
      (s.proposals proposalId).call i := Proposal.call_congr rfl rfl rfl i
  refine ⟨?_, ?_, fun i _ call hcall => ?_⟩
  · simpa [setProposal] using proposalState_fits hstate
  · simpa [setProposal] using queuedAt_cons.mpr (.inr (hreached.queuedAt_of_queued hlate hstate))
  · simp only [setProposal, Function.update_self] at hcall ⊢
    rw [hcalls] at hcall
    exact hreached.queued_stands hlate hinj hstate hcall

theorem ready_next (hall : ∀ frame ∈ s.frames, Ready keccak256 trace s frame)
    (hreached : Reached keccak256 init trace s) (hlate : gracePeriod < init.now)
    (hexec : s.exec keccak256 step = .ok s')
    (hinj : Set.InjOn keccak256 {x | x ∈ hashInputsOf keccak256 ((s, step) :: trace)}) :
    ∀ frame ∈ s'.frames, Ready keccak256 ((s, step) :: trace) s' frame := by
  have heffect := exec_effect hexec
  cases heffect.frames with
  | same hnone hframes =>
      rw [hframes]
      exact fun frame hframe => Ready.next_of_none hall hreached hexec hinj hframe hnone rfl
        fun _ => id
  | entered proposalId hnone hstate _ hproposal hframes =>
      have hstep := heffect.execute_of_entered hstate hproposal
      obtain ⟨sender, action⟩ := step
      cases hstep
      rw [hframes]
      refine List.forall_mem_cons.mpr ⟨ready_entered hreached hlate hexec ?_, fun frame hframe => ?_⟩
      · exact hinj.mono fun x hx => mem_hashInputsOf_cons hx
      · exact Ready.next_of_none hall hreached hexec hinj hframe hnone rfl fun _ => id
  | called top frames call hframes hcalling _ _ _ _ _ hnew =>
      rw [hnew]
      have htop : top ∈ s.frames := hframes ▸ List.mem_cons_self
      have hnodup := hreached.executions.nodup
      rw [hframes] at hnodup
      refine List.forall_mem_cons.mpr ⟨?_, fun frame hframe => ?_⟩
      · refine Ready.next_of_mem hall hreached hexec hinj htop rfl fun i hahead => ?_
        have hlater : top.next < i := by simpa [Frame.Ahead] using hahead
        exact ⟨by simpa [Frame.Ahead, hcalling] using hlater.le, fun _ _ => hlater.ne'⟩
      · refine Ready.next_of_mem hall hreached hexec hinj (hframes ▸ List.mem_cons_of_mem _ hframe)
          rfl fun i hahead => ⟨hahead, fun _ hhead => ?_⟩
        rw [hframes] at hhead
        cases hhead
        exact absurd (List.mem_map_of_mem hframe) (List.nodup_cons.mp hnodup).1
  | returned top frames hnone hframes hcalling hnew =>
      rw [hnew]
      have htop : top ∈ s.frames := hframes ▸ List.mem_cons_self
      refine List.forall_mem_cons.mpr ⟨?_, fun frame hframe => ?_⟩
      · refine Ready.next_of_none hall hreached hexec hinj htop hnone rfl fun i hahead => ?_
        simp only [Frame.Ahead, hcalling, if_true] at hahead ⊢
        exact hahead
      · exact Ready.next_of_none hall hreached hexec hinj
          (hframes ▸ List.mem_cons_of_mem _ hframe) hnone rfl fun _ => id
  | left top hnone hframes =>
      exact fun frame hframe => Ready.next_of_none hall hreached hexec hinj
        (hframes ▸ List.mem_cons_of_mem _ hframe) hnone rfl fun _ => id

theorem Reached.ready (h : Reached keccak256 init trace s) (hlate : gracePeriod < init.now)
    (hinj : Set.InjOn keccak256 {x | x ∈ hashInputsOf keccak256 trace}) :
    ∀ frame ∈ s.frames, Ready keccak256 trace s frame := by
  obtain ⟨hinit, hrun⟩ := h
  induction hrun with
  | nil =>
      obtain ⟨_, _, _, _, hinit⟩ := hinit
      obtain ⟨-, rfl⟩ := constructed_eq_ok hinit
      exact fun _ hframe => absurd hframe List.not_mem_nil
  | cons hrun hexec ih =>
      have hold := ih (hinj.mono fun x hx => mem_hashInputsOf_cons hx)
      exact ready_next hold ⟨hinit, hrun⟩ hlate hexec hinj

/-! ## Executing -/

theorem executeTransaction_eq_ok {sender : Address} {call : Call} {eta : ℕ}
    {out : State × Address × List UInt8} :
    s.executeTransaction keccak256 sender call eta = .ok out ↔
      sender = s.admin ∧ s.queuedTransactions (call.txHash keccak256 eta) = true ∧
        eta ≤ s.now ∧ eta + gracePeriod < wordBound ∧ s.now ≤ eta + gracePeriod ∧
        (s.setQueued (call.txHash keccak256 eta) false, call.target, call.callData keccak256) =
          out := by
  simp only [executeTransaction, bind_eq_ok, require_eq_ok, SafeMath.add_eq_ok, pure_eq_ok]
  constructor
  · rintro ⟨_, hadmin, _, hqueued, _, hlocked, _, ⟨hfit, rfl⟩, _, hopen, hout⟩
    exact ⟨hadmin, hqueued, hlocked, hfit, hopen, hout⟩
  · rintro ⟨hadmin, hqueued, hlocked, hfit, hopen, hout⟩
    exact ⟨(), hadmin, (), hqueued, (), hlocked, _, ⟨hfit, rfl⟩, (), hopen, hout⟩

theorem callNext_succeeds {frame : Frame} {frames : List Frame} {call : Call}
    (hframes : s.frames = frame :: frames) (hcalling : frame.calling = false)
    (hcall : (s.proposals frame.proposalId).call frame.next = .ok call) :
    Succeeds (s.callNext keccak256) ↔ Succeeds (s.executeTransaction keccak256 frame.sender call
      (s.proposals frame.proposalId).eta) := by
  have hnext := Proposal.lt_of_call hcall
  unfold callNext
  rw [hframes]
  simp only [succeeds_iff, bind_eq_ok, require_eq_ok, pure_eq_ok, hcall]
  constructor
  · rintro ⟨_, _, -, _, hsame, out, hout, -⟩
    cases hsame
    exact ⟨out, hout⟩
  · rintro ⟨⟨t, target, callData⟩, hout⟩
    exact ⟨_, (), ⟨hcalling, hnext⟩, call, rfl, (t, target, callData), hout, rfl⟩

/-- The next call of an execution goes through exactly where the caller of `execute` is the
admin and the time of the proposal has come: neither the timelock's queue nor the grace period
ever holds it up. -/
theorem callNext_succeeds_iff (h : Reached keccak256 init trace s)
    (hlate : gracePeriod < init.now)
    (hinj : Set.InjOn keccak256 {x | x ∈ hashInputsOf keccak256 trace})
    {frame : Frame} {frames : List Frame} (hframes : s.frames = frame :: frames)
    (hcalling : frame.calling = false)
    (hnext : frame.next < (s.proposals frame.proposalId).targets.length) :
    Succeeds (s.callNext keccak256) ↔
      frame.sender = s.admin ∧ (s.proposals frame.proposalId).eta ≤ s.now := by
  have hmem : frame ∈ s.frames := hframes ▸ List.mem_cons_self
  obtain ⟨call, hcall⟩ := (h.wellFormed frame.proposalId).call hnext
  have hready := h.ready hlate hinj frame hmem
  have hqueued := hready.stands frame.next (by simp [Frame.Ahead, hcalling]) call hcall
  have hopen := (h.executions.open_frames frame hmem).2.2
  rw [callNext_succeeds hframes hcalling hcall, succeeds_iff]
  simp only [executeTransaction_eq_ok]
  constructor
  · rintro ⟨_, hadmin, -, hlocked, -⟩
    exact ⟨hadmin, hlocked⟩
  · rintro ⟨hadmin, hlocked⟩
    exact ⟨_, hadmin, hqueued, hlocked, hready.fits, hopen.le, rfl⟩

/-- The target of a first call queues another proposal of the same call, and the second call
goes through. -/
theorem callNext_succeeds_reentered :
    ∃ init trace s, Reached InterestDollar.keccak256 init trace s ∧
      s.frames = [⟨1, 1, 1, false⟩] ∧ Succeeds (s.callNext InterestDollar.keccak256) := by
  have hsteps : Returns (constructed 9 1 60 1000000 >>= fun init =>
      execTrace (exec InterestDollar.keccak256) [] init
        [(4, .propose [7, 8] [[], []] [[1], [2]]), (1, .queue 1), (0, .wait 60),
          (1, .execute 1), (1, .callNext), (7, .propose [8] [[]] [[2]]), (1, .queue 2),
          (1, .callReturned)])
      fun out => out.2.frames = [⟨1, 1, 1, false⟩] ∧ out.2.admin = 1 ∧
        (out.2.proposals 1).targets.length = 2 ∧ (out.2.proposals 1).eta ≤ out.2.now ∧
        ((hashInputsOf InterestDollar.keccak256 out.1).dedup.map
          InterestDollar.keccak256).Nodup := by
    decide +kernel
  obtain ⟨⟨trace, s⟩, hout, hframes, hadmin, htwo, hlocked, hnodup⟩ := hsteps
  obtain ⟨init, hinit, hrun⟩ := bind_eq_ok.mp hout
  have hreached : Reached InterestDollar.keccak256 init trace s :=
    ⟨⟨9, 1, 60, 1000000, hinit⟩, run_of_execTrace .nil hrun⟩
  have hlate : gracePeriod < init.now := by
    obtain ⟨-, rfl⟩ := constructed_eq_ok hinit
    decide
  have hinj : Set.InjOn InterestDollar.keccak256
      {x | x ∈ hashInputsOf InterestDollar.keccak256 trace} := by
    have hinj := List.inj_on_of_nodup_map hnodup
    exact fun x hx y hy => hinj (List.mem_dedup.mpr hx) (List.mem_dedup.mpr hy)
  refine ⟨init, trace, s, hreached, hframes, ?_⟩
  refine (callNext_succeeds_iff hreached hlate hinj hframes rfl ?_).mpr ⟨hadmin.symm, hlocked⟩
  exact htwo ▸ Nat.one_lt_two

/-- The steps of an execution from its loop on, where `calls` are still to be made and every
target returns. -/
def loopSteps (sender : Address) : (calls : ℕ) → List (Address × Action)
  | 0 => [(sender, .executeReturned)]
  | calls + 1 => (sender, .callNext) :: (sender, .callReturned) :: loopSteps sender calls

/-- The hashes of an execution's calls are those that its proposal was queued with. -/
theorem hashInputs_callNext_subset (h : Reached keccak256 init trace s)
    (hinj : Set.InjOn keccak256 {x | x ∈ hashInputsOf keccak256 trace})
    {sender : Address} {frame : Frame} {frames : List Frame} (hframes : s.frames = frame :: frames)
    (hqueued : QueuedAt trace frame.proposalId (s.proposals frame.proposalId).eta) {x : List UInt8}
    (hx : x ∈ s.hashInputs keccak256 (sender, .callNext)) : x ∈ hashInputsOf keccak256 trace := by
  unfold hashInputs at hx
  simp only [hframes, Proposal.encodings, List.mem_filterMap] at hx
  obtain ⟨i, -, hx⟩ := hx
  cases hcall : (s.proposals frame.proposalId).call i with
  | error e => simp [hcall, Except.toOption] at hx
  | ok call =>
      rw [hcall] at hx
      rw [← Option.some.inj hx]
      exact (h.standing hinj).inputs _ _ hqueued i call hcall

theorem loop_returns (hlate : gracePeriod < init.now) {sender : Address} {proposalId : ℕ}
    {frames : List Frame} (calls : ℕ) :
    ∀ (trace : List (State × (Address × Action))) (s : State) (next : ℕ),
      Reached keccak256 init trace s → Set.InjOn keccak256 {x | x ∈ hashInputsOf keccak256 trace} →
      s.frames = ⟨sender, proposalId, next, false⟩ :: frames →
      (s.proposals proposalId).targets.length = next + calls → sender = s.admin →
      (s.proposals proposalId).eta ≤ s.now →
        ∃ trace' s', execTrace (exec keccak256) trace s (loopSteps sender calls) =
            .ok (trace', s') ∧ (∀ e ∈ trace, e ∈ trace') ∧ s'.frames = frames ∧
          ∀ i, next ≤ i → i < next + calls → timesCalled keccak256 trace' proposalId i = 1 := by
  induction calls with
  | zero =>
      intro trace s next _ _ hframes hlength _ _
      have hreturn : s.exec keccak256 (sender, .executeReturned) =
          .ok { s with frames := frames } := by
        change s.executeReturned = _
        unfold executeReturned
        rw [hframes]
        simp [require, guardWith, hlength, bind, Except.bind, pure, Except.pure]
      refine ⟨(s, (sender, .executeReturned)) :: trace, { s with frames := frames }, ?_, ?_, rfl, ?_⟩
      · simp [loopSteps, execTrace, hreturn]
      · exact fun e he => List.mem_cons_of_mem _ he
      · omega
  | succ calls ih =>
      intro trace s next hreached hinj hframes hlength hadmin hlocked
      have hgoes := (callNext_succeeds_iff hreached hlate hinj hframes rfl
        (by simp only [hlength]; omega)).mpr ⟨hadmin, hlocked⟩
      obtain ⟨⟨t, made⟩, hout⟩ := succeeds_iff.mp hgoes
      have hmade : s.externalCall keccak256 (sender, .callNext) = some made := by
        change (s.callNext keccak256).toOption.map Prod.snd = some made
        rw [hout]
        rfl
      obtain ⟨frame, rest, call, hsame, -, -, -, -, rfl, rfl⟩ := callNext_eq_ok hout
      obtain ⟨rfl, rfl⟩ := List.cons.inj (hsame.symm.trans hframes)
      set t : State := { s.setQueued
          (call.txHash keccak256 (s.proposals proposalId).eta) false with
        frames := ⟨sender, proposalId, next, true⟩ :: rest } with ht
      set u : State := { t with frames := ⟨sender, proposalId, next + 1, false⟩ :: rest } with hu
      have hcall : s.exec keccak256 (sender, .callNext) = .ok t :=
        bind_eq_ok.mpr ⟨_, hout, rfl⟩
      have hreturn : t.exec keccak256 (sender, .callReturned) = .ok u := rfl
      have hready := hreached.ready hlate hinj _ (hframes ▸ List.mem_cons_self)
      have hinj' : Set.InjOn keccak256 {x | x ∈ hashInputsOf keccak256
          ((t, (sender, .callReturned)) :: (s, (sender, .callNext)) :: trace)} := by
        refine hinj.mono fun x hx => ?_
        rcases List.mem_append.mp hx with hx | hx
        · exact absurd hx (by simp [hashInputs])
        · rcases List.mem_append.mp hx with hx | hx
          · exact hashInputs_callNext_subset hreached hinj hframes hready.timed hx
          · exact hx
      have hreached' : Reached keccak256 init
          ((t, (sender, .callReturned)) :: (s, (sender, .callNext)) :: trace) u :=
        ⟨hreached.constructed, (hreached.run.cons hcall).cons hreturn⟩
      obtain ⟨trace', s', hsteps, hkept, hend, hlater⟩ :=
        ih _ u (next + 1) hreached' hinj' rfl (hlength.trans (by omega)) hadmin hlocked
      refine ⟨trace', s', ?_, fun e he => ?_, hend, fun i hle hlt => ?_⟩
      · simp only [loopSteps, execTrace, hcall, hreturn, hsteps]
      · exact hkept e (List.mem_cons_of_mem _ (List.mem_cons_of_mem _ he))
      · rcases Nat.eq_or_lt_of_le hle with rfl | hlt'
        · have hrun : Reached keccak256 init trace' s' :=
            ⟨hreached.constructed, run_of_execTrace hreached'.run hsteps⟩
          have honce := hrun.executions.once proposalId next
          have hsome : 0 < timesCalled keccak256 trace' proposalId next := by
            refine List.countP_pos_iff.mpr ⟨(s, (sender, .callNext)), ?_, ?_⟩
            · exact hkept _ (List.mem_cons_of_mem _ List.mem_cons_self)
            · simp [hmade]
          omega
        · exact hlater i hlt' (by omega)

end State

end Governance

end InterestDollar
