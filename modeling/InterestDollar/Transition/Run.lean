import Mathlib.Logic.Basic
import Mathlib.Tactic.Common
import Mathlib.Data.List.Basic
import Mathlib.Order.Basic

/-!
# Labelled runs of a transition system

A run from `init` records, latest step first, every state a step was taken from
together with the label of the step. Keeping the states in the trace lets a
side condition speak about the state each step started in, and lets a counter
be a `countP` over the trace.

The induction over runs is done here once: an invariant kept by every step
holds at the end of every run (`Run.invariant`), an invariant kept by the steps
that meet a condition holds at the end of every run whose steps all meet it
(`Run.invariant_of_forall`), a property kept by exactly those steps holds throughout
exactly the runs made of them (`Run.forall_iff`), a quantity that no step lowers only rises along
a run (`Run.le_of_mem`), a run is one of any transition that has its steps
(`Run.imp_of_forall`), the steps that show in a part of the system make a run of the part
(`Run.filterMap`), and every step of a run starts from the end of a shorter run
(`Run.prefix_of_mem`).
-/

namespace Transition

variable {σ ι : Type*}

/-- Runs from `init`: the trace, latest step first, and the state reached. -/
inductive Run (step : σ → ι → σ → Prop) (init : σ) : List (σ × ι) → σ → Prop
  | nil : Run step init [] init
  | cons {trace : List (σ × ι)} {s s' : σ} {i : ι} :
      Run step init trace s → step s i s' → Run step init ((s, i) :: trace) s'

namespace Run

variable {step : σ → ι → σ → Prop} {init : σ} {trace : List (σ × ι)} {s : σ}

/-- An invariant that every step keeps holds at the end of every run. -/
theorem invariant (I : σ → Prop) (h0 : I init)
    (hstep : ∀ s i s', I s → step s i s' → I s')
    (h : Run step init trace s) : I s := by
  induction h with
  | nil => exact h0
  | cons _ hs ih => exact hstep _ _ _ ih hs

/-- An invariant kept by the steps that meet `C` holds at the end of every run
whose steps all meet `C`. -/
theorem invariant_of_forall (C : σ → ι → Prop) (I : σ → Prop) (h0 : I init)
    (hstep : ∀ s i s', I s → C s i → step s i s' → I s')
    (h : Run step init trace s) (hC : ∀ e ∈ trace, C e.1 e.2) : I s := by
  induction h with
  | nil => exact h0
  | cons _ hs ih =>
      have hrest := ih fun e he => hC e (List.mem_cons_of_mem _ he)
      exact hstep _ _ _ hrest (hC _ List.mem_cons_self) hs

/-- A property of the states that a step keeps exactly where the step meets `C`
holds throughout a run exactly where all its steps meet `C`. -/
theorem forall_iff (I P : σ → Prop) (C : σ → ι → Prop) (hI0 : I init) (h0 : P init)
    (hI : ∀ s i s', I s → step s i s' → I s')
    (hstep : ∀ s i s', I s → P s → step s i s' → (P s' ↔ C s i))
    (h : Run step init trace s) :
    ((∀ e ∈ trace, P e.1) ∧ P s) ↔ ∀ e ∈ trace, C e.1 e.2 := by
  induction h with
  | nil => simp [h0]
  | @cons trace s s' i hrun hs ih =>
      have hi : I s := invariant I hI0 hI hrun
      simp only [List.forall_mem_cons]
      constructor
      · intro ⟨⟨hlast, hall⟩, hnext⟩
        exact ⟨(hstep s i s' hi hlast hs).mp hnext, ih.mp ⟨hall, hlast⟩⟩
      · intro ⟨hmeets, hrest⟩
        obtain ⟨hall, hlast⟩ := ih.mpr hrest
        exact ⟨⟨hlast, hall⟩, (hstep s i s' hi hlast hs).mpr hmeets⟩

/-- A quantity that every step moves as the step's entry is counted is, at the
end of a run, the number of entries counted. -/
theorem invariant_countP (p : σ × ι → Bool) (I : ℕ → σ → Prop) (h0 : I 0 init)
    (hstep : ∀ n s i s', I n s → step s i s' → I (if p (s, i) then n + 1 else n) s')
    (h : Run step init trace s) : I (trace.countP p) s := by
  induction h with
  | nil => exact h0
  | @cons trace s s' i _ hs ih =>
      have hnext := hstep _ _ _ _ ih hs
      rw [List.countP_cons]
      by_cases hp : p (s, i) = true
      · simpa [hp] using hnext
      · simpa [hp] using hnext

/-- An invariant of the trace and the state that every step keeps holds of every run. -/
theorem invariant_trace (I : List (σ × ι) → σ → Prop) (h0 : I [] init)
    (hstep : ∀ trace s i s', I trace s → step s i s' → I ((s, i) :: trace) s')
    (h : Run step init trace s) : I trace s := by
  induction h with
  | nil => exact h0
  | cons _ hs ih => exact hstep _ _ _ _ ih hs

/-- A quantity that no step lowers is at the end of a run at least what it was before any of
its steps. -/
theorem le_of_mem {α : Type*} [Preorder α] (f : σ → α) (hstep : ∀ s i s', step s i s' → f s ≤ f s')
    (h : Run step init trace s) : ∀ e ∈ trace, f e.1 ≤ f s := by
  induction h with
  | nil => exact fun _ he => nomatch he
  | @cons trace s s' i _ hs ih =>
      refine List.forall_mem_cons.mpr ⟨hstep s i s' hs, fun e he => ?_⟩
      exact (ih e he).trans (hstep s i s' hs)

/-- A run is cut at any of its steps: the run up to there, and the step. -/
theorem split {after before : List (σ × ι)} {e : σ × ι}
    (h : Run step init (after ++ e :: before) s) :
    Run step init before e.1 ∧ ∃ s', step e.1 e.2 s' := by
  generalize htrace : after ++ e :: before = trace at h
  induction h generalizing after with
  | nil => simp at htrace
  | @cons trace s s' i hrun hs ih =>
      cases after with
      | nil =>
          cases htrace
          exact ⟨hrun, s', hs⟩
      | cons x after =>
          cases htrace
          exact ih rfl

/-- A run whose steps all meet `C` is a run of any transition that has the steps that do. -/
theorem imp_of_forall {step' : σ → ι → σ → Prop} (C : σ → ι → Prop)
    (hstep : ∀ s i s', C s i → step s i s' → step' s i s') (h : Run step init trace s)
    (hC : ∀ e ∈ trace, C e.1 e.2) : Run step' init trace s := by
  induction h with
  | nil => exact .nil
  | cons _ hs ih =>
      obtain ⟨hlast, hrest⟩ := List.forall_mem_cons.mp hC
      exact (ih hrest).cons (hstep _ _ _ hlast hs)

/-- The steps of a run that show in a part of the system make a run of the part. -/
theorem filterMap {σ' ι' : Type*} {step' : σ' → ι' → σ' → Prop} (part : σ → σ')
    (label : σ × ι → Option (σ' × ι'))
    (hstep : ∀ s i s', step s i s' → label (s, i) = none ∧ part s' = part s ∨
      ∃ i', label (s, i) = some (part s, i') ∧ step' (part s) i' (part s'))
    (h : Run step init trace s) : Run step' (part init) (trace.filterMap label) (part s) := by
  induction h with
  | nil => exact .nil
  | @cons trace s s' i _ hs ih =>
      rcases hstep s i s' hs with ⟨hnone, hsame⟩ | ⟨i', hsome, hnext⟩
      · rwa [List.filterMap_cons_none hnone, hsame]
      · rw [List.filterMap_cons_some hsome]
        exact ih.cons hnext

/-- Every step of a run starts from the end of a shorter run, whose trace is
part of the whole trace. -/
theorem prefix_of_mem (h : Run step init trace s) {e : σ × ι} (he : e ∈ trace) :
    ∃ before, Run step init before e.1 ∧ ∀ x ∈ before, x ∈ trace := by
  induction h with
  | nil => simp at he
  | @cons trace s s' i hrun hs ih =>
      rcases List.mem_cons.mp he with rfl | he
      · exact ⟨trace, hrun, fun x hx => List.mem_cons_of_mem _ hx⟩
      · obtain ⟨before, hbefore, hsub⟩ := ih he
        exact ⟨before, hbefore, fun x hx => List.mem_cons_of_mem _ (hsub x hx)⟩

end Run

/-- The trace of a list of labels, run from `s` on by a partial step function,
and the state reached. -/
def execTrace {ε : Type*} (exec : σ → ι → Except ε σ) :
    List (σ × ι) → σ → List ι → Except ε (List (σ × ι) × σ)
  | trace, s, [] => .ok (trace, s)
  | trace, s, i :: rest =>
      match exec s i with
      | .ok s' => execTrace exec ((s, i) :: trace) s' rest
      | .error e => .error e

/-- What `execTrace` returns is a run. -/
theorem run_of_execTrace {ε : Type*} {exec : σ → ι → Except ε σ} {init s : σ}
    {trace : List (σ × ι)} (hrun : Run (fun s i s' => exec s i = .ok s') init trace s)
    {labels : List ι} {out : List (σ × ι) × σ} (h : execTrace exec trace s labels = .ok out) :
    Run (fun s i s' => exec s i = .ok s') init out.1 out.2 := by
  induction labels generalizing s trace with
  | nil =>
      cases h
      exact hrun
  | cons i rest ih =>
      cases hi : exec s i with
      | error e => simp [execTrace, hi] at h
      | ok next =>
          simp only [execTrace, hi] at h
          exact ih (hrun.cons hi) h

end Transition
