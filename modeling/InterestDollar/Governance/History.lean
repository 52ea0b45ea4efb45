import InterestDollar.Governance.Steps

/-!
# What a run says about a proposal

The time of a proposal is what the queueing set it to, or the 1 of a cancellation, and the
run says which. Whatever the timelock holds was hashed in the run. A proposal that was
executed, or whose time is over, stays so.
-/

namespace InterestDollar

open Checked Transition

namespace Governance

variable {keccak256 : List UInt8 → Bytes32} {s s' : State} {step : Address × Action}

/-- Two encodings with different times are different. -/
theorem Call.eta_eq_of_encoded {call call' : Call} {eta eta' : ℕ}
    (h : call.encoded keccak256 eta = call'.encoded keccak256 eta')
    (heta : eta < wordBound) (heta' : eta' < wordBound) : eta = eta' := by
  unfold Call.encoded at h
  simp only [List.append_assoc] at h
  obtain ⟨-, h⟩ := List.append_inj h (by simp)
  obtain ⟨-, h⟩ := List.append_inj h (by simp)
  obtain ⟨-, h⟩ := List.append_inj h (by simp)
  obtain ⟨h, -⟩ := List.append_inj h (by simp)
  exact word_inj heta heta' h

theorem Proposal.call_congr {proposal proposal' : Proposal}
    (htargets : proposal'.targets = proposal.targets)
    (hsignatures : proposal'.signatures = proposal.signatures)
    (hcalldatas : proposal'.calldatas = proposal.calldatas) (i : ℕ) :
    proposal'.call i = proposal.call i := by
  unfold Proposal.call
  rw [htargets, hsignatures, hcalldatas]

namespace State

/-! ## Executed and expired proposals -/

/-- The proposal was executed, or its time and the grace period after it are over. -/
def Closed (s : State) (proposalId : ℕ) : Prop :=
  proposalId ≤ s.proposalCount ∧ ((s.proposals proposalId).executed = true ∨
    (s.proposals proposalId).eta ≠ 0 ∧ (s.proposals proposalId).eta + gracePeriod ≤ s.now)

theorem closed_of_executed {proposalId : ℕ} (h : s.proposalState proposalId = .ok .executed) :
    s.Closed proposalId := by
  obtain ⟨hvalid, hcases⟩ := proposalState_eq_ok h
  simp at hcases
  exact ⟨hvalid, .inl hcases⟩

theorem closed_of_expired {proposalId : ℕ} (h : s.proposalState proposalId = .ok .expired) :
    s.Closed proposalId := by
  obtain ⟨hvalid, hcases⟩ := proposalState_eq_ok h
  simp at hcases
  exact ⟨hvalid, .inr hcases.2⟩

theorem Closed.not_pending {proposalId : ℕ} (hclosed : s.Closed proposalId) :
    s.proposalState proposalId ≠ .ok .pending := by
  intro h
  obtain ⟨-, hexecuted, heta⟩ := of_pending h
  rcases hclosed.2 with hclosed | ⟨hset, -⟩
  · rw [hexecuted] at hclosed
    cases hclosed
  · exact hset heta

theorem Closed.not_queued {proposalId : ℕ} (hclosed : s.Closed proposalId) :
    s.proposalState proposalId ≠ .ok .queued := by
  intro h
  obtain ⟨-, hexecuted, -, hopen⟩ := of_queued h
  rcases hclosed.2 with hclosed | ⟨-, hover⟩
  · rw [hexecuted] at hclosed
    cases hclosed
  · omega

theorem Effect.now_le (h : Effect keccak256 s step s') : s.now ≤ s'.now := by
  rcases h.now with hnow | ⟨-, hle⟩
  · exact hnow.ge
  · exact hle

/-- A step changes nothing about a closed proposal. -/
theorem Effect.proposal_of_closed (h : Effect keccak256 s step s') {proposalId : ℕ}
    (hclosed : s.Closed proposalId) :
    s'.proposals proposalId = s.proposals proposalId := by
  cases h.proposals proposalId with
  | same _ hsame => exact hsame
  | proposed hid =>
      have hvalid := hclosed.1
      omega
  | queued _ hstate => exact absurd hstate hclosed.not_pending
  | cancelled hstate =>
      rcases hstate with hstate | hstate
      · exact absurd hstate hclosed.not_queued
      · exact absurd hstate hclosed.not_pending
  | executed _ hstate => exact absurd hstate hclosed.not_queued

theorem Effect.closed (h : Effect keccak256 s step s') {proposalId : ℕ}
    (hclosed : s.Closed proposalId) : s'.Closed proposalId := by
  refine ⟨hclosed.1.trans h.count, ?_⟩
  rw [h.proposal_of_closed hclosed]
  exact hclosed.2.imp_right fun ⟨hset, hover⟩ => ⟨hset, hover.trans h.now_le⟩

/-! ## Proposals with a time -/

/-- The proposal was queued in the run and not cancelled since. It has the time it was given
and the calls it was queued with. -/
def QueuedSince (trace : List (State × (Address × Action))) (s : State) (proposalId : ℕ) :
    Prop :=
  ∃ between q rest, trace = between ++ (q, (q.admin, .queue proposalId)) :: rest ∧
    (∀ x ∈ between, x.2.2 ≠ .cancel proposalId) ∧
    (s.proposals proposalId).eta = q.now + q.delay ∧
    ∀ i, (q.proposals proposalId).call i = (s.proposals proposalId).call i

variable (keccak256) in
/-- What the calls are hashed from that a step queues or takes off the timelock to make
them. -/
def hashed (s : State) (step : Address × Action) : Set (List UInt8) :=
  match step.2 with
  | .queue proposalId => {x | ∃ i call, (s.proposals proposalId).call i = .ok call ∧
      x = call.encoded keccak256 (s.now + s.delay)}
  | .callNext => {x | ∃ frame ∈ s.frames.head?, ∃ call,
      (s.proposals frame.proposalId).call frame.next = .ok call ∧
        x = call.encoded keccak256 (s.proposals frame.proposalId).eta}
  | _ => ∅

variable (keccak256) in
def hashedIn (trace : List (State × (Address × Action))) : Set (List UInt8) :=
  {x | ∃ e ∈ trace, x ∈ e.1.hashed keccak256 e.2}

theorem hashedIn_cons {trace : List (State × (Address × Action))} {x : List UInt8}
    (h : x ∈ hashedIn keccak256 trace) : x ∈ hashedIn keccak256 ((s, step) :: trace) := by
  obtain ⟨e, he, hx⟩ := h
  exact ⟨e, List.mem_cons_of_mem _ he, hx⟩

variable (keccak256) in
/-- What a run says about the proposals and the timelock. -/
structure History (trace : List (State × (Address × Action))) (s : State) : Prop where
  delay : minimumDelay ≤ s.delay
  fresh : ∀ proposalId, s.proposalCount < proposalId →
    (s.proposals proposalId).eta = 0 ∧ (s.proposals proposalId).executed = false
  queued : ∀ proposalId, (s.proposals proposalId).eta ≠ 0 →
    (s.proposals proposalId).eta = 1 ∨ QueuedSince trace s proposalId
  hashed : ∀ x, s.queuedTransactions x = true → ∃ call eta, 1 < eta ∧ eta < wordBound ∧
    Call.encoded keccak256 call eta ∈ hashedIn keccak256 trace ∧ x = call.txHash keccak256 eta

/-- A proposal that a step leaves alone or executes stays queued. -/
theorem QueuedSince.cons {trace : List (State × (Address × Action))} {proposalId : ℕ}
    (h : QueuedSince trace s proposalId) (hstep : step.2 ≠ .cancel proposalId)
    (heta : (s'.proposals proposalId).eta = (s.proposals proposalId).eta)
    (hcall : ∀ i, (s'.proposals proposalId).call i = (s.proposals proposalId).call i) :
    QueuedSince ((s, step) :: trace) s' proposalId := by
  obtain ⟨between, q, rest, rfl, hbetween, hset, hcalls⟩ := h
  refine ⟨(s, step) :: between, q, rest, rfl, ?_, heta.trans hset, fun i => ?_⟩
  · exact List.forall_mem_cons.mpr ⟨hstep, hbetween⟩
  · rw [hcalls i, hcall i]

theorem History.next {trace : List (State × (Address × Action))}
    (h : History keccak256 trace s) (heffect : Effect keccak256 s step s') :
    History keccak256 ((s, step) :: trace) s' where
  delay := heffect.delay h.delay
  fresh proposalId hid := by
    have hnew : s.proposalCount < proposalId := heffect.count.trans_lt hid
    have hold := h.fresh proposalId hnew
    have hnone (state : ProposalState) : s.proposalState proposalId ≠ .ok state := fun hstate =>
      absurd (proposalState_eq_ok hstate).1 (not_le.mpr hnew)
    cases heffect.proposals proposalId with
    | same _ hsame => rwa [hsame]
    | proposed _ _ heta hexecuted => exact ⟨heta, hexecuted⟩
    | queued _ hstate => exact absurd hstate (hnone _)
    | cancelled hstate => exact (hstate.elim (hnone _) (hnone _)).elim
    | executed _ hstate => exact absurd hstate (hnone _)
  queued proposalId hset := by
    cases heffect.proposals proposalId with
    | same hstep hsame =>
        rw [hsame] at hset ⊢
        exact (h.queued proposalId hset).imp_right fun hqueued =>
          hqueued.cons hstep (by rw [hsame]) fun i => by rw [hsame]
    | proposed _ _ heta => exact absurd heta hset
    | queued hstep _ hproposal =>
        subst hstep
        refine .inr ⟨[], s, trace, rfl, by simp, by rw [hproposal], fun i => ?_⟩
        rw [hproposal]
        exact Proposal.call_congr rfl rfl rfl i
    | cancelled _ hproposal => exact .inl (by rw [hproposal])
    | executed hstep _ hproposal =>
        rw [hproposal] at hset ⊢
        refine (h.queued proposalId hset).imp_right fun hqueued =>
          hqueued.cons (by rw [hstep]; exact nofun) (by rw [hproposal]) fun i => ?_
        rw [hproposal]
        exact Proposal.call_congr rfl rfl rfl i
  hashed x hx := by
    rcases heffect.queued x hx with hold | ⟨proposalId, i, call, hstep, hcall, hfit, rfl⟩
    · obtain ⟨call, eta, hlarge, hfit, hmem, heq⟩ := h.hashed x hold
      exact ⟨call, eta, hlarge, hfit, hashedIn_cons hmem, heq⟩
    · refine ⟨call, s.now + s.delay, ?_, hfit, ?_, rfl⟩
      · have hdelay := h.delay
        unfold minimumDelay at hdelay
        omega
      · refine ⟨(s, step), List.mem_cons_self, ?_⟩
        subst hstep
        exact ⟨i, call, hcall, rfl⟩

theorem constructed_eq_ok {self admin : Address} {delay now : ℕ}
    (h : constructed self admin delay now = .ok s) :
    minimumDelay ≤ delay ∧ s = {
      self := self
      admin := admin
      pendingAdmin := 0
      delay := delay
      queuedTransactions := fun _ => false
      proposalCount := 0
      proposals := fun _ => ⟨0, 0, 0, [], [], [], false⟩
      frames := []
      now := now } := by
  obtain ⟨_, hmin, h⟩ := bind_eq_ok.mp h
  obtain ⟨_, -, h⟩ := bind_eq_ok.mp h
  exact ⟨require_eq_ok.mp hmin, (pure_eq_ok.mp h).symm⟩

theorem Reached.history {init : State} {trace : List (State × (Address × Action))}
    (h : Reached keccak256 init trace s) : History keccak256 trace s := by
  obtain ⟨⟨self, admin, delay, now, hinit⟩, hrun⟩ := h
  obtain ⟨hdelay, rfl⟩ := constructed_eq_ok hinit
  refine hrun.invariant_trace (History keccak256) ?_ fun trace s step s' hs hexec =>
    hs.next (exec_effect hexec)
  exact {
    delay := hdelay
    fresh := fun _ _ => ⟨rfl, rfl⟩
    queued := fun _ hset => absurd rfl hset
    hashed := fun _ hx => absurd hx (by simp) }

end State

end Governance

end InterestDollar
