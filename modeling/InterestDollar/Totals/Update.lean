import Mathlib.Algebra.BigOperators.Group.Finset.Basic
import Mathlib.Algebra.BigOperators.Group.Finset.Piecewise
import Mathlib.Tactic.Abel

/-!
# Totals under a change at one place

A contract keeps a running total of what it stores for each account, and changes the
total with the account. The sum moves by as much as the one account does, stated without
a subtraction.
-/

namespace Totals

variable {α M : Type*} [Fintype α] [DecidableEq α] [AddCommMonoid M]

/-- Two families that agree off one place differ in their sums by that place. -/
theorem sum_add_eq_of_eq_off {f g : α → M} {a : α} (h : ∀ x, x ≠ a → g x = f x) :
    (∑ x, g x) + f a = (∑ x, f x) + g a := by
  have hrest : ∑ x ∈ Finset.univ.erase a, g x = ∑ x ∈ Finset.univ.erase a, f x :=
    Finset.sum_congr rfl fun x hx => h x (Finset.ne_of_mem_erase hx)
  rw [← Finset.add_sum_erase _ g (Finset.mem_univ a),
    ← Finset.add_sum_erase _ f (Finset.mem_univ a), hrest]
  abel

/-- Storing a value for one account moves the sum from the old value to the new one. -/
theorem sum_update_add (f : α → M) (a : α) (v : M) :
    (∑ x, Function.update f a v x) + f a = (∑ x, f x) + v := by
  have hoff : ∀ x, x ≠ a → Function.update f a v x = f x := fun x hx =>
    Function.update_of_ne hx v f
  have hsum := sum_add_eq_of_eq_off hoff
  rwa [Function.update_self] at hsum

/-- The places of a list have all of a total exactly where there is nothing at any other. -/
theorem sum_listed_eq_iff {f : α → ℕ} {l : List α} (hnodup : l.Nodup) :
    (l.map f).sum = ∑ a, f a ↔ ∀ a, a ∉ l → f a = 0 := by
  have hsplit : ∑ a, f a = (l.map f).sum + ∑ a with a ∉ l.toFinset, f a := by
    rw [← List.sum_toFinset f hnodup, ← Finset.sum_filter_add_sum_filter_not _ (· ∈ l.toFinset),
      Finset.filter_univ_mem]
  rw [hsplit]
  simp

/-- A list added up by the places its entries belong to is the list added up. -/
theorem sum_sum_filter {β : Type*} (place : β → α) (value : β → M) (l : List β) :
    ∑ a, ((l.filter fun b => decide (place b = a)).map value).sum = (l.map value).sum := by
  induction l with
  | nil => simp
  | cons b l ih =>
      have hfirst : ∀ a, (((b :: l).filter fun b => decide (place b = a)).map value).sum =
          (if place b = a then value b else 0) +
            ((l.filter fun b => decide (place b = a)).map value).sum := by
        intro a
        by_cases h : place b = a <;> simp [h]
      rw [Finset.sum_congr rfl fun a _ => hfirst a, Finset.sum_add_distrib, ih,
        Finset.sum_ite_eq, if_pos (Finset.mem_univ _), List.map_cons, List.sum_cons]

end Totals
