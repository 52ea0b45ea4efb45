import Mathlib.Data.List.Perm.Basic
import Mathlib.Data.List.Nodup

/-!
# Removing from an unordered list by swapping

A list that stands for a set can give up an element without shifting the rest:
its last element takes the place of the one removed. Up to order this is erasing
the first occurrence, so a list without repetitions keeps exactly its other
elements.
-/

namespace Listing

variable {α : Type*} [DecidableEq α]

/-- Removes the first occurrence of an element: the last element takes its place,
and the last place is dropped. -/
def swapRemove (x : α) (l : List α) : List α :=
  match l.getLast? with
  | none => l
  | some last => (l.set (l.idxOf x) last).dropLast

omit [DecidableEq α] in
/-- Removes the element at an index: the last element takes its place. -/
def swapRemoveAt (i : ℕ) (l : List α) : List α :=
  match l.getLast? with
  | none => l
  | some last => (l.set i last).dropLast

/-- In a list without repetitions the index says which element is removed. -/
theorem swapRemoveAt_eq {x : α} {i : ℕ} {l : List α} (hl : l.Nodup) (h : l[i]? = some x) :
    swapRemoveAt i l = swapRemove x l := by
  obtain ⟨hi, rfl⟩ := List.getElem?_eq_some_iff.mp h
  rw [swapRemove, hl.idxOf_getElem i hi]
  rfl

theorem swapRemove_concat (x last : α) (l : List α) :
    swapRemove x (l ++ [last]) = ((l ++ [last]).set ((l ++ [last]).idxOf x) last).dropLast := by
  simp only [swapRemove, List.getLast?_concat]

/-- Putting an element in the place of another is erasing that one and appending
the first, up to order. -/
theorem set_idxOf_perm {x : α} (last : α) {l : List α} (h : x ∈ l) :
    (l.set (l.idxOf x) last).Perm (l.erase x ++ [last]) := by
  induction l with
  | nil => cases h
  | cons y l ih =>
      by_cases hy : y = x
      · subst hy
        rw [List.idxOf_cons_self, List.set_cons_zero, List.erase_cons_head]
        exact (List.perm_append_singleton last l).symm
      · have hx : x ∈ l := (List.mem_cons.mp h).resolve_left (Ne.symm hy)
        rw [List.idxOf_cons_ne l hy, List.set_cons_succ,
          List.erase_cons_tail (by simpa using hy), List.cons_append]
        exact (ih hx).cons y

theorem swapRemove_perm {x : α} {l : List α} (h : x ∈ l) :
    (swapRemove x l).Perm (l.erase x) := by
  rcases List.eq_nil_or_concat l with rfl | ⟨init, last, rfl⟩
  · cases h
  · rw [List.concat_eq_append] at h ⊢
    rw [swapRemove_concat]
    by_cases hx : x ∈ init
    · have hlt : init.idxOf x < init.length := List.idxOf_lt_length_of_mem hx
      rw [List.idxOf_append_of_mem hx, List.set_append_left _ _ hlt, List.dropLast_concat,
        List.erase_append_left _ hx]
      exact set_idxOf_perm last hx
    · have hlast : x = last := by simpa [hx] using h
      subst hlast
      rw [List.idxOf_append_of_notMem hx, List.idxOf_cons_self, Nat.add_zero,
        List.set_append_right _ _ (Nat.le_refl _), Nat.sub_self, List.set_cons_zero,
        List.dropLast_concat, List.erase_append_right _ hx, List.erase_cons_head, List.append_nil]

theorem nodup_swapRemove {x : α} {l : List α} (h : x ∈ l) (hl : l.Nodup) :
    (swapRemove x l).Nodup :=
  (swapRemove_perm h).nodup_iff.mpr (hl.erase x)

theorem mem_swapRemove {x y : α} {l : List α} (h : x ∈ l) (hl : l.Nodup) :
    y ∈ swapRemove x l ↔ y ≠ x ∧ y ∈ l :=
  (swapRemove_perm h).mem_iff.trans hl.mem_erase_iff

/-! ## Prefixes -/

section Prefix

omit [DecidableEq α]

variable {i : ℕ} {x : α} {l whole : List α}

theorem getElem?_of_isPrefix (hl : l <+: whole) (h : l[i]? = some x) : whole[i]? = some x := by
  obtain ⟨rest, rfl⟩ := hl
  obtain ⟨hi, rfl⟩ := List.getElem?_eq_some_iff.mp h
  rw [List.getElem?_append_left hi, List.getElem?_eq_getElem hi]

/-- Appending to a prefix gives a prefix exactly when the element comes next. -/
theorem concat_prefix_iff (hl : l <+: whole) :
    l ++ [x] <+: whole ↔ whole[l.length]? = some x := by
  obtain ⟨rest, rfl⟩ := hl
  rw [List.prefix_append_right_inj, List.getElem?_append_right (Nat.le_refl _), Nat.sub_self]
  cases rest with
  | nil => simp
  | cons y rest => simp [eq_comm]

theorem swapRemoveAt_last (hi : i + 1 = l.length) : swapRemoveAt i l = l.dropLast := by
  rcases List.eq_nil_or_concat l with rfl | ⟨init, last, rfl⟩
  · rfl
  · rw [List.concat_eq_append, List.length_append, List.length_singleton] at hi
    obtain rfl : i = init.length := by omega
    simp [swapRemoveAt, List.set_append_right]

/-- Removing before the end puts the last element in the place. -/
theorem getElem?_swapRemoveAt (hi : i + 1 < l.length) : (swapRemoveAt i l)[i]? = l.getLast? := by
  rcases List.eq_nil_or_concat l with rfl | ⟨init, last, rfl⟩
  · cases hi
  · rw [List.concat_eq_append, List.length_append, List.length_singleton] at hi
    have hlt : i < init.length := by omega
    simp [swapRemoveAt, List.set_append_left _ _ hlt, hlt]

/-- In a list without repetitions a removal from a prefix leaves a prefix exactly when it takes
the last element. -/
theorem swapRemoveAt_prefix_iff (hl : l <+: whole) (hwhole : whole.Nodup) (hi : i < l.length) :
    swapRemoveAt i l <+: whole ↔ i + 1 = l.length := by
  constructor
  · intro hprefix
    by_contra hne
    have hlast : l[l.length - 1]? = some l[l.length - 1] := List.getElem?_eq_getElem (by omega)
    have hplace := getElem?_swapRemoveAt (by omega : i + 1 < l.length)
    rw [List.getLast?_eq_getElem?, hlast] at hplace
    -- The last element stands at two places of the whole list.
    have hfirst := getElem?_of_isPrefix hprefix hplace
    have hsecond := getElem?_of_isPrefix hl hlast
    obtain ⟨hlt, -⟩ := List.getElem?_eq_some_iff.mp hfirst
    have heq := (List.getElem?_inj hlt hwhole).mp (hfirst.trans hsecond.symm)
    omega
  · intro hlast
    rw [swapRemoveAt_last hlast]
    exact (List.dropLast_prefix l).trans hl

end Prefix

end Listing
