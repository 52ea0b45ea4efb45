import InterestDollar.Transition.Run
import Mathlib.Algebra.BigOperators.Group.List.Basic

/-!
# Runs followed up to an error

A system follows another up to an error where each of its steps has a step of the other with
the same label, after which the two states are within the error they were within before and
what this step adds. Errors are values of a monoid, such as a bound for each component of the
state, and the bound at the end of a run is the sum over its steps (`Run.follows`).
-/

namespace Transition

variable {σ σ' ι : Type*}

namespace Run

variable {step : σ → ι → σ → Prop} {step' : σ' → ι → σ' → Prop} {init s : σ} {init' : σ'}
  {trace : List (σ × ι)}

/-- A system whose steps the other one can follow, each within an error of its own, is followed
over a whole run within the sum of these errors. -/
theorem follows {E : Type*} [AddMonoid E] (C : σ → ι → Prop) (error : σ × ι → E)
    (close : E → σ → σ' → Prop)
    (hstep : ∀ e s i s' t, close e s t → C s i → step s i s' →
      ∃ t', step' t i t' ∧ close (error (s, i) + e) s' t')
    (h0 : close 0 init init') (h : Run step init trace s) (hC : ∀ e ∈ trace, C e.1 e.2) :
    ∃ trace' t, Run step' init' trace' t ∧ trace'.map Prod.snd = trace.map Prod.snd ∧
      close (trace.map error).sum s t := by
  induction h with
  | nil => exact ⟨[], init', .nil, rfl, h0⟩
  | @cons trace s s' i _ hs ih =>
      obtain ⟨hlast, hrest⟩ := List.forall_mem_cons.mp hC
      obtain ⟨trace', t, hrun, hlabels, hclose⟩ := ih hrest
      obtain ⟨t', ht, hnext⟩ := hstep _ s i s' t hclose hlast hs
      refine ⟨(t, i) :: trace', t', hrun.cons ht, ?_, ?_⟩
      · simp [hlabels]
      · simpa using hnext

end Run

end Transition
