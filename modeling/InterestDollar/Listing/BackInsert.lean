import Mathlib.Data.List.DropRight
import Mathlib.Data.List.Perm.Basic
import Mathlib.Order.Lattice

/-!
# Inserting from the back

The inner loop of an insertion sort: the elements at the back that satisfy a condition
are shifted by one, and the new element takes the place this frees. Up to order the list
gains just that element, and a relation between all pairs of the list extends to the new
element if it relates what stays before it to it, and it to what is shifted.
-/

namespace Listing

variable {α : Type*}

/-- Inserts an element before the longest end of the list whose elements satisfy `p`. -/
def insertBack (p : α → Bool) (x : α) (l : List α) : List α := l.rdropWhile p ++ x :: l.rtakeWhile p

section

variable {p : α → Bool} {x : α} {l : List α}

theorem insertBack_perm : (insertBack p x l).Perm (x :: l) := by
  have hmiddle : (insertBack p x l).Perm (x :: (l.rdropWhile p ++ l.rtakeWhile p)) :=
    List.perm_middle
  rwa [List.rdropWhile_append_rtakeWhile] at hmiddle

theorem insertBack_pairwise {r : α → α → Prop} (h : l.Pairwise r)
    (hbefore : ∀ y ∈ l.rdropWhile p, r y x) (hafter : ∀ y ∈ l.rtakeWhile p, r x y) :
    (insertBack p x l).Pairwise r := by
  rw [← List.rdropWhile_append_rtakeWhile (p := p) (l := l), List.pairwise_append] at h
  obtain ⟨hdrop, htake, hacross⟩ := h
  refine List.pairwise_append.mpr ⟨hdrop, List.pairwise_cons.mpr ⟨hafter, htake⟩, ?_⟩
  intro y hy z hz
  rcases List.mem_cons.mp hz with rfl | hz
  · exact hbefore y hy
  · exact hacross y hy z hz

/-- In a list ordered by a key, what stays before an insertion has at most the key the
shifted elements lie above. -/
theorem key_le_of_mem_rdropWhile {β : Type*} [LinearOrder β] {key : α → β} {b : β}
    (h : l.Pairwise fun y z => key y ≤ key z) {y : α}
    (hy : y ∈ l.rdropWhile fun z => decide (b < key z)) : key y ≤ b := by
  have hne : l.rdropWhile (fun z => decide (b < key z)) ≠ [] := List.ne_nil_of_mem hy
  have hlast := List.rdropWhile_last_not (fun z => decide (b < key z)) l hne
  have hle : key y ≤ key ((l.rdropWhile fun z => decide (b < key z)).getLast hne) := by
    have hordered := h.sublist
      (List.rdropWhile_prefix (fun z => decide (b < key z)) l).sublist
    rw [← List.dropLast_append_getLast hne, List.pairwise_append] at hordered
    rw [← List.dropLast_append_getLast hne, List.mem_append] at hy
    rcases hy with hy | hy
    · exact hordered.2.2 y hy _ (List.mem_singleton_self _)
    · exact (congrArg key (List.mem_singleton.mp hy)).le
  exact hle.trans (not_lt.mp fun hlt => hlast (decide_eq_true hlt))

end

/-- Where an element satisfies `p` only if all before it do, the elements that satisfy it
are the beginning of the list. -/
theorem filter_prefix_of_pairwise {p : α → Bool} {l : List α}
    (h : l.Pairwise fun y z => p z = true → p y = true) : l.filter p <+: l := by
  induction l with
  | nil => exact List.prefix_rfl
  | cons y l ih =>
      obtain ⟨hy, hl⟩ := List.pairwise_cons.mp h
      by_cases hp : p y = true
      · rw [List.filter_cons_of_pos hp]
        exact List.prefix_cons_iff.mpr (.inr ⟨_, rfl, ih hl⟩)
      · have hnone : l.filter p = [] :=
          List.filter_eq_nil_iff.mpr fun z hz hpz => hp (hy z hz hpz)
        rw [List.filter_cons_of_neg hp, hnone]
        exact List.nil_prefix

end Listing
