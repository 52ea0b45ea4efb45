import InterestDollar.Transition.Run

/-!
# Offices that are handed over in two steps

The holder of an office names an heir, and the heir takes the office over by a step of its
own. A system has an office when its steps do no more to it than that. In a run of such a
system every new holder was named by its predecessor, while it was in office, and nothing
happened to the office from then until the new holder took it over.
-/

namespace Transition

structure Office (α : Type*) where
  holder : α
  heir : α

namespace Office

variable {α : Type*}

/-- What a step of `sender` can do to an office. Nobody takes it over for `0`, and the heir
may be forgotten when it has taken over. -/
inductive Step [Zero α] (sender : α) (o : Office α) : Office α → Prop
  | keep : Step sender o o
  | name (heir : α) : sender = o.holder → Step sender o { o with heir := heir }
  | claim (heir : α) : sender = o.heir → sender ≠ 0 → heir = o.heir ∨ heir = 0 →
      Step sender o ⟨sender, heir⟩

variable {σ ι : Type*} {step : σ → ι → σ → Prop} {init s : σ} {trace : List (σ × ι)}
  {office : σ → Office α} {sender : σ × ι → α}

variable (step office sender) in
/-- The present heir was named by the present holder, and nothing happened to the office
since. -/
def Bequeathed (trace : List (σ × ι)) (s : σ) : Prop :=
  ∃ between e before, trace = between ++ e :: before ∧
    sender e = (office e.1).holder ∧ (office e.1).holder = (office s).holder ∧
    (office e.1).heir ≠ (office s).heir ∧ (∃ s', step e.1 e.2 s' ∧ office s' = office s) ∧
    ∀ x ∈ between, office x.1 = office s

theorem Bequeathed.cons {s' : σ} {i : ι} (h : Bequeathed step office sender trace s)
    (hsame : office s' = office s) : Bequeathed step office sender ((s, i) :: trace) s' := by
  obtain ⟨between, e, before, rfl, hnamed⟩ := h
  rw [← hsame] at hnamed
  obtain ⟨hsender, hholder, hheir, hnext, hbetween⟩ := hnamed
  refine ⟨(s, i) :: between, e, before, rfl, hsender, hholder, hheir, hnext, ?_⟩
  exact List.forall_mem_cons.mpr ⟨hsame.symm, hbetween⟩

variable [Zero α]

variable (step office sender) in
/-- Wherever the office changes hands in a run, the step is the new holder's own, and it was
named by the holder it follows. -/
def HandedOver (trace : List (σ × ι)) : Prop :=
  ∀ after e before, trace = after ++ e :: before → ∀ s', step e.1 e.2 s' →
    (office s').holder ≠ (office e.1).holder →
      sender e = (office s').holder ∧ (office s').holder ≠ 0 ∧
        (office s').holder = (office e.1).heir ∧ Bequeathed step office sender before e.1

variable (hstep : ∀ s i s', step s i s' → Step (sender (s, i)) (office s) (office s'))
include hstep

theorem holder_ne_zero (h : Run step init trace s) (hinit : (office init).holder ≠ 0) :
    (office s).holder ≠ 0 := by
  refine h.invariant (fun s => (office s).holder ≠ 0) hinit fun s i s' hs hnext => ?_
  have hoffice := hstep s i s' hnext
  generalize office s' = o at hoffice ⊢
  cases hoffice with
  | keep => exact hs
  | name => exact hs
  | claim _ _ hne => exact hne

/-- An heir is the holder itself, once it has taken over, or was named by the holder. -/
theorem bequeathed (h : Run step init trace s)
    (hinit : (office init).heir = 0 ∨ (office init).heir = (office init).holder) :
    (office s).heir = 0 ∨ (office s).heir = (office s).holder ∨
      Bequeathed step office sender trace s := by
  refine h.invariant_trace (fun trace s => (office s).heir = 0 ∨
    (office s).heir = (office s).holder ∨ Bequeathed step office sender trace s)
    (hinit.imp_right .inl) fun trace s i s' hs hnext => ?_
  have hoffice := hstep s i s' hnext
  have hsame (hs' : office s' = office s) : (office s').heir = 0 ∨
      (office s').heir = (office s').holder ∨
        Bequeathed step office sender ((s, i) :: trace) s' := by
    rw [hs']
    exact hs.imp_right fun hs => hs.imp_right fun hnamed => hnamed.cons hs'
  generalize hs' : office s' = o at hoffice hsame
  cases hoffice with
  | keep => exact hsame rfl
  | name heir hholder =>
      by_cases hnew : heir = (office s).heir
      · exact hsame (by rw [hnew])
      · refine .inr (.inr ⟨[], (s, i), trace, rfl, hholder, by rw [hs'], ?_, ?_⟩)
        · rw [hs']
          exact fun heq => hnew heq.symm
        · exact ⟨⟨s', hnext, rfl⟩, fun _ hx => absurd hx List.not_mem_nil⟩
  | claim heir hheir _ hkept =>
      rcases hkept with rfl | rfl
      · exact .inr (.inl hheir.symm)
      · exact .inl rfl

theorem handedOver (h : Run step init trace s)
    (hinit : (office init).heir = 0 ∨ (office init).heir = (office init).holder) :
    HandedOver step office sender trace := by
  rintro after ⟨q, i⟩ before rfl s' hnext hchange
  have hoffice := hstep q i s' hnext
  have hnamed := bequeathed hstep h.split.1 hinit
  generalize hs' : office s' = o at hoffice hchange
  cases hoffice with
  | keep => exact absurd rfl hchange
  | name => exact absurd rfl hchange
  | claim heir hheir hne =>
      refine ⟨rfl, hne, hheir, ?_⟩
      -- The heir is somebody, and not the holder that it follows.
      rcases hnamed with hzero | hself | hnamed
      · exact absurd (hheir.trans hzero) hne
      · exact absurd (hheir.trans hself) hchange
      · exact hnamed

omit hstep in
variable (office sender) in
theorem follows (h : Run step init trace s)
    (hstep : ∀ s i s', step s i s' → Step (sender (s, i)) (office s) (office s'))
    (hholder : (office init).holder ≠ 0) (hheir : (office init).heir = 0) :
    (office s).holder ≠ 0 ∧ HandedOver step office sender trace :=
  ⟨holder_ne_zero hstep h hholder, handedOver hstep h (.inl hheir)⟩

end Office

end Transition
