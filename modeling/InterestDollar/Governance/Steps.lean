import InterestDollar.Governance.Governor

/-!
# What a step does to the proposals and the timelock

Each function is read once. `Effect` puts together what one step can do: to a proposal it
does nothing, or proposes, queues, cancels or executes it; and the timelock gains nothing
but the calls of a proposal that is queued.
-/

namespace InterestDollar

open Checked

namespace Governance

namespace State

variable {keccak256 : List UInt8 → Bytes32} {s s' : State}

theorem proposalState_eq_ok {proposalId : ℕ} {state : ProposalState}
    (h : s.proposalState proposalId = .ok state) :
    proposalId ≤ s.proposalCount ∧
      (state = .executed ∧ (s.proposals proposalId).executed = true ∨
        (s.proposals proposalId).executed = false ∧
          (state = .pending ∧ (s.proposals proposalId).eta = 0 ∨
            (s.proposals proposalId).eta ≠ 0 ∧
              (state = .expired ∧ (s.proposals proposalId).eta + gracePeriod ≤ s.now ∨
                state = .queued ∧ s.now < (s.proposals proposalId).eta + gracePeriod))) := by
  obtain ⟨_, hvalid, h⟩ := bind_eq_ok.mp h
  refine ⟨(require_eq_ok.mp hvalid).1, ?_⟩
  dsimp only at h
  split_ifs at h with hexecuted hpending
  · cases pure_eq_ok.mp h
    exact .inl ⟨rfl, hexecuted⟩
  · cases pure_eq_ok.mp h
    exact .inr ⟨Bool.eq_false_iff.mpr hexecuted, .inl ⟨rfl, hpending⟩⟩
  · obtain ⟨expiry, hexpiry, h⟩ := bind_eq_ok.mp h
    obtain ⟨-, rfl⟩ := SafeMath.add_eq_ok.mp hexpiry
    refine .inr ⟨Bool.eq_false_iff.mpr hexecuted, .inr ⟨hpending, ?_⟩⟩
    split_ifs at h with hexpired
    · cases pure_eq_ok.mp h
      exact .inl ⟨rfl, hexpired⟩
    · cases pure_eq_ok.mp h
      exact .inr ⟨rfl, not_le.mp hexpired⟩

/-- A pending proposal was neither executed nor queued. -/
theorem of_pending {proposalId : ℕ} (h : s.proposalState proposalId = .ok .pending) :
    proposalId ≤ s.proposalCount ∧ (s.proposals proposalId).executed = false ∧
      (s.proposals proposalId).eta = 0 := by
  obtain ⟨hvalid, hcases⟩ := proposalState_eq_ok h
  simp at hcases
  exact ⟨hvalid, hcases⟩

theorem of_queued {proposalId : ℕ} (h : s.proposalState proposalId = .ok .queued) :
    proposalId ≤ s.proposalCount ∧ (s.proposals proposalId).executed = false ∧
      (s.proposals proposalId).eta ≠ 0 ∧
        s.now < (s.proposals proposalId).eta + gracePeriod := by
  obtain ⟨hvalid, hcases⟩ := proposalState_eq_ok h
  simp at hcases
  exact ⟨hvalid, hcases⟩

/-! ## The functions -/

theorem propose_eq_ok {sender : Address} {targets : List Address}
    {signatures calldatas : List (List UInt8)}
    (h : s.propose sender targets signatures calldatas = .ok s') :
    s' = { s.setProposal (s.proposalCount + 1)
        ⟨s.proposalCount + 1, sender, 0, targets, signatures, calldatas, false⟩ with
      proposalCount := s.proposalCount + 1 } := by
  obtain ⟨_, -, h⟩ := bind_eq_ok.mp h
  obtain ⟨_, -, h⟩ := bind_eq_ok.mp h
  obtain ⟨_, -, h⟩ := bind_eq_ok.mp h
  exact (pure_eq_ok.mp h).symm

theorem queueOrRevert_eq_ok {sender : Address} {call : Call} {eta : ℕ}
    (h : s.queueOrRevert keccak256 sender call eta = .ok s') :
    s' = s.setQueued (call.txHash keccak256 eta) true := by
  obtain ⟨_, -, h⟩ := bind_eq_ok.mp h
  obtain ⟨t, ht, h⟩ := bind_eq_ok.mp h
  obtain ⟨_, -, h⟩ := bind_eq_ok.mp h
  obtain ⟨_, -, ht⟩ := bind_eq_ok.mp ht
  obtain ⟨_, -, ht⟩ := bind_eq_ok.mp ht
  obtain ⟨_, -, ht⟩ := bind_eq_ok.mp ht
  cases pure_eq_ok.mp h
  exact (pure_eq_ok.mp ht).symm

theorem cancelTransaction_eq_ok {sender : Address} {call : Call} {eta : ℕ}
    (h : s.cancelTransaction keccak256 sender call eta = .ok s') :
    s' = s.setQueued (call.txHash keccak256 eta) false := by
  obtain ⟨_, -, h⟩ := bind_eq_ok.mp h
  exact (pure_eq_ok.mp h).symm

theorem setQueued_eq_true {txHash x : Bytes32} {queued : Bool}
    (h : (s.setQueued txHash queued).queuedTransactions x = true) :
    s.queuedTransactions x = true ∨ queued = true ∧ x = txHash := by
  unfold setQueued at h
  dsimp only at h
  by_cases heq : x = txHash
  · rw [heq, Function.update_self] at h
    exact .inr ⟨h, heq⟩
  · rw [Function.update_of_ne heq] at h
    exact .inl h

/-- Queueing gives a pending proposal its time, and puts its calls on the timelock. -/
theorem queue_eq_ok {sender : Address} {proposalId : ℕ}
    (h : s.queue keccak256 sender proposalId = .ok s') :
    sender = s.admin ∧ s.proposalState proposalId = .ok .pending ∧
      s.now + s.delay < wordBound ∧ ∃ queued,
        s' = { s.setProposal proposalId
            { s.proposals proposalId with eta := s.now + s.delay } with
          queuedTransactions := queued } ∧
        ∀ x, queued x = true → s.queuedTransactions x = true ∨
          ∃ i call, (s.proposals proposalId).call i = .ok call ∧
            x = call.txHash keccak256 (s.now + s.delay) := by
  obtain ⟨_, hadmin, h⟩ := bind_eq_ok.mp h
  obtain ⟨state, hstate, h⟩ := bind_eq_ok.mp h
  obtain ⟨_, hpending, h⟩ := bind_eq_ok.mp h
  obtain ⟨eta, heta, h⟩ := bind_eq_ok.mp h
  cases require_eq_ok.mp hpending
  obtain ⟨hfit, rfl⟩ := SafeMath.add_eq_ok.mp heta
  refine ⟨require_eq_ok.mp hadmin, hstate, hfit, s'.queuedTransactions, ?_⟩
  -- The loop keeps everything but the timelock.
  refine ensures_foldlM (I := fun t : State =>
    t = { s.setProposal proposalId { s.proposals proposalId with eta := s.now + s.delay } with
        queuedTransactions := t.queuedTransactions } ∧
      ∀ x, t.queuedTransactions x = true → s.queuedTransactions x = true ∨
        ∃ i call, (s.proposals proposalId).call i = .ok call ∧
          x = call.txHash keccak256 (s.now + s.delay)) ?_ ?_ _ _ h
  · rintro t i ⟨ht, hqueued⟩ t' ht'
    obtain ⟨call, hcall, ht'⟩ := bind_eq_ok.mp ht'
    cases queueOrRevert_eq_ok ht'
    refine ⟨by rw [ht]; rfl, fun x hx => ?_⟩
    rcases setQueued_eq_true hx with hx | ⟨-, rfl⟩
    · exact hqueued x hx
    · exact .inr ⟨i, call, hcall, rfl⟩
  · exact ⟨rfl, fun x hx => .inl hx⟩

/-- Cancelling sets the time of a proposal to 1, and puts nothing on the timelock. -/
theorem cancel_eq_ok {sender : Address} {proposalId : ℕ}
    (h : s.cancel keccak256 sender proposalId = .ok s') :
    (s.proposalState proposalId = .ok .queued ∨ s.proposalState proposalId = .ok .pending) ∧
      ∃ queued, s' = { s.setProposal proposalId { s.proposals proposalId with eta := 1 } with
          queuedTransactions := queued } ∧
        ∀ x, queued x = true → s.queuedTransactions x = true := by
  obtain ⟨_, -, h⟩ := bind_eq_ok.mp h
  obtain ⟨state, hstate, h⟩ := bind_eq_ok.mp h
  obtain ⟨_, hopen, h⟩ := bind_eq_ok.mp h
  have hopen := (require_eq_ok.mp hopen).imp (fun heq => heq ▸ hstate) fun heq => heq ▸ hstate
  refine ⟨hopen, s'.queuedTransactions, ?_⟩
  refine ensures_foldlM (I := fun t : State =>
    t = { s.setProposal proposalId { s.proposals proposalId with eta := 1 } with
        queuedTransactions := t.queuedTransactions } ∧
      ∀ x, t.queuedTransactions x = true → s.queuedTransactions x = true) ?_ ?_ _ _ h
  · rintro t i ⟨ht, hqueued⟩ t' ht'
    obtain ⟨call, hcall, ht'⟩ := bind_eq_ok.mp ht'
    cases cancelTransaction_eq_ok ht'
    refine ⟨by rw [ht]; rfl, fun x hx => ?_⟩
    rcases setQueued_eq_true hx with hx | ⟨hfalse, -⟩
    · exact hqueued x hx
    · cases hfalse
  · exact ⟨rfl, fun x hx => hx⟩

theorem execute_eq_ok {sender : Address} {proposalId : ℕ}
    (h : s.execute sender proposalId = .ok s') :
    s.proposalState proposalId = .ok .queued ∧
      s' = { s.setProposal proposalId { s.proposals proposalId with executed := true } with
        frames := ⟨sender, proposalId, 0, false⟩ :: s.frames } := by
  obtain ⟨state, hstate, h⟩ := bind_eq_ok.mp h
  obtain ⟨_, hqueued, h⟩ := bind_eq_ok.mp h
  cases require_eq_ok.mp hqueued
  exact ⟨hstate, (pure_eq_ok.mp h).symm⟩

/-- A call is made by the innermost execution, within the window of its proposal. -/
theorem callNext_eq_ok {made : ExternalCall} (h : s.callNext keccak256 = .ok (s', made)) :
    ∃ frame frames call, s.frames = frame :: frames ∧ frame.calling = false ∧
      (s.proposals frame.proposalId).call frame.next = .ok call ∧
      s.queuedTransactions (call.txHash keccak256 (s.proposals frame.proposalId).eta) = true ∧
      (s.proposals frame.proposalId).eta ≤ s.now ∧
      made = ⟨frame.proposalId, frame.next, call.target, call.callData keccak256⟩ ∧
      s' = { s.setQueued (call.txHash keccak256 (s.proposals frame.proposalId).eta) false with
        frames := { frame with calling := true } :: frames } := by
  unfold callNext at h
  split at h
  · cases h
  · rename_i frame frames hframes
    obtain ⟨_, hloop, h⟩ := bind_eq_ok.mp h
    obtain ⟨call, hcall, h⟩ := bind_eq_ok.mp h
    obtain ⟨⟨t, target, callData⟩, ht, h⟩ := bind_eq_ok.mp h
    obtain ⟨_, -, ht⟩ := bind_eq_ok.mp ht
    obtain ⟨_, hqueued, ht⟩ := bind_eq_ok.mp ht
    obtain ⟨_, hlocked, ht⟩ := bind_eq_ok.mp ht
    obtain ⟨stale, -, ht⟩ := bind_eq_ok.mp ht
    obtain ⟨_, -, ht⟩ := bind_eq_ok.mp ht
    cases pure_eq_ok.mp ht
    cases pure_eq_ok.mp h
    exact ⟨frame, frames, call, hframes, (require_eq_ok.mp hloop).1, hcall,
      require_eq_ok.mp hqueued, require_eq_ok.mp hlocked, rfl, rfl⟩

/-! ## What a step can do -/

/-- What a step does to the proposal with an id. -/
inductive ProposalEffect (s : State) (step : Address × Action) (s' : State) (proposalId : ℕ) :
    Prop
  | same : step.2 ≠ .cancel proposalId →
      s'.proposals proposalId = s.proposals proposalId → ProposalEffect s step s' proposalId
  | proposed : proposalId = s.proposalCount + 1 → s'.proposalCount = s.proposalCount + 1 →
      (s'.proposals proposalId).eta = 0 → (s'.proposals proposalId).executed = false →
      ProposalEffect s step s' proposalId
  | queued : step = (s.admin, .queue proposalId) → s.proposalState proposalId = .ok .pending →
      s'.proposals proposalId = { s.proposals proposalId with eta := s.now + s.delay } →
      ProposalEffect s step s' proposalId
  | cancelled :
      s.proposalState proposalId = .ok .queued ∨ s.proposalState proposalId = .ok .pending →
      s'.proposals proposalId = { s.proposals proposalId with eta := 1 } →
      ProposalEffect s step s' proposalId
  | executed : step.2 = .execute proposalId → s.proposalState proposalId = .ok .queued →
      s'.proposals proposalId = { s.proposals proposalId with executed := true } →
      ProposalEffect s step s' proposalId

variable (keccak256) in
/-- What a step does to the executions that are under way, and the call it makes. -/
inductive FramesEffect (s : State) (step : Address × Action) (s' : State) : Prop
  | same : s.externalCall keccak256 step = none → s'.frames = s.frames →
      FramesEffect s step s'
  | entered (proposalId : ℕ) : s.externalCall keccak256 step = none →
      s.proposalState proposalId = .ok .queued → s'.now = s.now →
      s'.proposals proposalId = { s.proposals proposalId with executed := true } →
      s'.frames = ⟨step.1, proposalId, 0, false⟩ :: s.frames → FramesEffect s step s'
  | called (frame : Frame) (frames : List Frame) (call : Call) :
      s.frames = frame :: frames → frame.calling = false →
      (s.proposals frame.proposalId).call frame.next = .ok call →
      s.queuedTransactions (call.txHash keccak256 (s.proposals frame.proposalId).eta) = true →
      (s.proposals frame.proposalId).eta ≤ s.now → step.2 = .callNext →
      s.externalCall keccak256 step =
        some ⟨frame.proposalId, frame.next, call.target, call.callData keccak256⟩ →
      s'.frames = { frame with calling := true } :: frames → FramesEffect s step s'
  | returned (frame : Frame) (frames : List Frame) : s.externalCall keccak256 step = none →
      s.frames = frame :: frames → frame.calling = true →
      s'.frames = { frame with next := frame.next + 1, calling := false } :: frames →
      FramesEffect s step s'
  | left (frame : Frame) : s.externalCall keccak256 step = none →
      s.frames = frame :: s'.frames → FramesEffect s step s'

variable (keccak256) in
/-- What a step can do. -/
structure Effect (s : State) (step : Address × Action) (s' : State) : Prop where
  now : s'.now = s.now ∨ s.frames = [] ∧ s.now ≤ s'.now
  count : s.proposalCount ≤ s'.proposalCount
  delay : minimumDelay ≤ s.delay → minimumDelay ≤ s'.delay
  proposals : ∀ proposalId, ProposalEffect s step s' proposalId
  frames : FramesEffect keccak256 s step s'
  queued : ∀ x, s'.queuedTransactions x = true → s.queuedTransactions x = true ∨
    ∃ proposalId i call, step = (s.admin, .queue proposalId) ∧
      (s.proposals proposalId).call i = .ok call ∧ s.now + s.delay < wordBound ∧
        x = call.txHash keccak256 (s.now + s.delay)

/-- A step that writes at most one proposal does nothing to the others. -/
theorem proposalEffect_update {step : Address × Action} {proposalId : ℕ} {proposal : Proposal}
    (h : ∀ id, s'.proposals id = Function.update s.proposals proposalId proposal id)
    (hstep : ∀ id, id ≠ proposalId → step.2 ≠ .cancel id)
    (heffect : ProposalEffect s step s' proposalId) (id : ℕ) :
    ProposalEffect s step s' id := by
  by_cases hid : id = proposalId
  · exact hid ▸ heffect
  · exact .same (hstep id hid) (by rw [h, Function.update_of_ne hid])

/-- The effect of a step that leaves the proposals, the executions, the timelock and the
clock alone. -/
theorem effect_of_same {step : Address × Action} (hcall : s.externalCall keccak256 step = none)
    (hstep : ∀ id, step.2 ≠ .cancel id) (hdelay : minimumDelay ≤ s.delay → minimumDelay ≤ s'.delay)
    (hcount : s'.proposalCount = s.proposalCount) (hproposals : s'.proposals = s.proposals)
    (hframes : s'.frames = s.frames) (hnow : s'.now = s.now)
    (hqueued : s'.queuedTransactions = s.queuedTransactions) :
    Effect keccak256 s step s' where
  now := .inl hnow
  count := hcount.ge
  delay := hdelay
  proposals id := .same (hstep id) (by rw [hproposals])
  frames := .same hcall hframes
  queued x hx := .inl (hqueued ▸ hx)

theorem propose_effect {sender : Address} {targets : List Address}
    {signatures calldatas : List (List UInt8)}
    (h : s.propose sender targets signatures calldatas = .ok s') :
    Effect keccak256 s (sender, .propose targets signatures calldatas) s' := by
  cases propose_eq_ok h
  exact {
    now := .inl rfl
    count := Nat.le_succ _
    delay := id
    proposals := proposalEffect_update (fun _ => rfl) (fun _ _ => nofun)
      (.proposed rfl rfl (by simp [setProposal]) (by simp [setProposal]))
    frames := .same rfl rfl
    queued := fun _ hx => .inl hx }

theorem queue_effect {sender : Address} {proposalId : ℕ}
    (h : s.queue keccak256 sender proposalId = .ok s') :
    Effect keccak256 s (sender, .queue proposalId) s' := by
  obtain ⟨rfl, hstate, hfit, queued, rfl, hqueued⟩ := queue_eq_ok h
  exact {
    now := .inl rfl
    count := le_rfl
    delay := id
    proposals := proposalEffect_update (fun _ => rfl) (fun _ _ => nofun)
      (.queued rfl hstate (by simp [setProposal]))
    frames := .same rfl rfl
    queued := fun x hx => (hqueued x hx).imp_right fun ⟨i, call, hcall, heq⟩ =>
      ⟨proposalId, i, call, rfl, hcall, hfit, heq⟩ }

theorem cancel_effect {sender : Address} {proposalId : ℕ}
    (h : s.cancel keccak256 sender proposalId = .ok s') :
    Effect keccak256 s (sender, .cancel proposalId) s' := by
  obtain ⟨hstate, queued, rfl, hqueued⟩ := cancel_eq_ok h
  exact {
    now := .inl rfl
    count := le_rfl
    delay := id
    proposals := proposalEffect_update (fun _ => rfl)
      (fun id hid heq => hid (Action.cancel.inj heq).symm)
      (.cancelled hstate (by simp [setProposal]))
    frames := .same rfl rfl
    queued := fun x hx => .inl (hqueued x hx) }

theorem execute_effect {sender : Address} {proposalId : ℕ}
    (h : s.execute sender proposalId = .ok s') :
    Effect keccak256 s (sender, .execute proposalId) s' := by
  obtain ⟨hstate, rfl⟩ := execute_eq_ok h
  exact {
    now := .inl rfl
    count := le_rfl
    delay := id
    proposals := proposalEffect_update (fun _ => rfl) (fun _ _ => nofun)
      (.executed rfl hstate (by simp [setProposal]))
    frames := .entered proposalId rfl hstate rfl (by simp [setProposal]) rfl
    queued := fun _ hx => .inl hx }

theorem setDelay_effect {sender : Address} {delay : ℕ}
    (h : s.setDelay sender delay = .ok s') :
    Effect keccak256 s (sender, .setDelay delay) s' := by
  obtain ⟨_, -, h⟩ := bind_eq_ok.mp h
  obtain ⟨_, hmin, h⟩ := bind_eq_ok.mp h
  obtain ⟨_, -, h⟩ := bind_eq_ok.mp h
  cases pure_eq_ok.mp h
  exact effect_of_same rfl (fun _ => nofun) (fun _ => require_eq_ok.mp hmin) rfl rfl rfl rfl rfl

theorem setPendingAdmin_effect {sender pendingAdmin : Address}
    (h : s.setPendingAdmin sender pendingAdmin = .ok s') :
    Effect keccak256 s (sender, .setPendingAdmin pendingAdmin) s' := by
  obtain ⟨_, -, h⟩ := bind_eq_ok.mp h
  cases pure_eq_ok.mp h
  exact effect_of_same rfl (fun _ => nofun) id rfl rfl rfl rfl rfl

theorem acceptAdmin_effect {sender : Address} (h : s.acceptAdmin sender = .ok s') :
    Effect keccak256 s (sender, .acceptAdmin) s' := by
  obtain ⟨_, -, h⟩ := bind_eq_ok.mp h
  cases pure_eq_ok.mp h
  exact effect_of_same rfl (fun _ => nofun) id rfl rfl rfl rfl rfl

theorem callNext_effect {sender : Address} {made : ExternalCall}
    (h : s.callNext keccak256 = .ok (s', made)) :
    Effect keccak256 s (sender, .callNext) s' := by
  have hmade : s.externalCall keccak256 (sender, .callNext) = some made := by
    change (s.callNext keccak256).toOption.map Prod.snd = some made
    rw [h]
    rfl
  obtain ⟨frame, frames, call, hframes, hcalling, hcall, hqueued, hlocked, rfl, rfl⟩ :=
    callNext_eq_ok h
  exact {
    now := .inl rfl
    count := le_rfl
    delay := id
    proposals := fun _ => .same nofun rfl
    frames := .called frame frames call hframes hcalling hcall hqueued hlocked rfl hmade rfl
    queued := fun x hx => by
      rcases setQueued_eq_true hx with hx | ⟨hfalse, -⟩
      · exact .inl hx
      · cases hfalse }

theorem callReturned_effect {sender : Address} (h : s.callReturned = .ok s') :
    Effect keccak256 s (sender, .callReturned) s' := by
  unfold callReturned at h
  split at h
  · cases h
  · rename_i frame frames hframes
    obtain ⟨_, hcalling, h⟩ := bind_eq_ok.mp h
    cases pure_eq_ok.mp h
    exact {
      now := .inl rfl
      count := le_rfl
      delay := id
      proposals := fun _ => .same nofun rfl
      frames := .returned frame frames rfl hframes (require_eq_ok.mp hcalling) rfl
      queued := fun _ hx => .inl hx }

theorem executeReturned_effect {sender : Address} (h : s.executeReturned = .ok s') :
    Effect keccak256 s (sender, .executeReturned) s' := by
  unfold executeReturned at h
  split at h
  · cases h
  · rename_i frame frames hframes
    obtain ⟨_, -, h⟩ := bind_eq_ok.mp h
    cases pure_eq_ok.mp h
    exact {
      now := .inl rfl
      count := le_rfl
      delay := id
      proposals := fun _ => .same nofun rfl
      frames := .left frame rfl hframes
      queued := fun _ hx => .inl hx }

theorem exec_effect {step : Address × Action} (h : s.exec keccak256 step = .ok s') :
    Effect keccak256 s step s' := by
  obtain ⟨sender, action⟩ := step
  cases action with
  | callNext =>
      obtain ⟨⟨t, made⟩, ht, h⟩ := bind_eq_ok.mp h
      cases pure_eq_ok.mp h
      exact callNext_effect ht
  | callReturned => exact callReturned_effect h
  | executeReturned => exact executeReturned_effect h
  | wait seconds =>
      obtain ⟨_, hidle, h⟩ := bind_eq_ok.mp h
      cases pure_eq_ok.mp h
      exact {
        now := .inr ⟨require_eq_ok.mp hidle, Nat.le_add_right _ _⟩
        count := le_rfl
        delay := id
        proposals := fun _ => .same nofun rfl
        frames := .same rfl rfl
        queued := fun _ hx => .inl hx }
  | propose targets signatures calldatas =>
      obtain ⟨_, -, h⟩ := bind_eq_ok.mp h
      exact propose_effect h
  | queue proposalId =>
      obtain ⟨_, -, h⟩ := bind_eq_ok.mp h
      exact queue_effect h
  | cancel proposalId =>
      obtain ⟨_, -, h⟩ := bind_eq_ok.mp h
      exact cancel_effect h
  | execute proposalId =>
      obtain ⟨_, -, h⟩ := bind_eq_ok.mp h
      exact execute_effect h
  | setDelay delay =>
      obtain ⟨_, -, h⟩ := bind_eq_ok.mp h
      exact setDelay_effect h
  | setPendingAdmin pendingAdmin =>
      obtain ⟨_, -, h⟩ := bind_eq_ok.mp h
      exact setPendingAdmin_effect h
  | acceptAdmin =>
      obtain ⟨_, -, h⟩ := bind_eq_ok.mp h
      exact acceptAdmin_effect h

end State

end Governance

end InterestDollar
