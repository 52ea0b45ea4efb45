import Mathlib.Data.List.Basic
import Mathlib.Data.Nat.Log
import Mathlib.Data.Set.Function
import Mathlib.Tactic.Common

/-!
# Merkle trees whose odd levels repeat their last node

A tree is given by its levels: the nodes of a level are paired in order, the last one
with itself if it is left over, and each pair is hashed into a node of the next level. The
proof of an entry lists its partner on every level, and a verifier climbs from the entry to
the root with the proof it is handed, going by the bits of the index alone.

The hash is any function `node` of two values. `climb_path` is completeness and needs
nothing of it. `climb_sound` is soundness for a proof somebody else made up, and asks that
`node` tells apart the pairs that the tree and the climb hash. It holds for indices beyond
the entries too, which a climb takes to the repeated nodes: such a climb can only start
from an entry that is there.
-/

namespace Merkle

variable {α : Type*}

/-- The nodes of a level in pairs, an odd last one with itself. -/
def pairUp : List α → List (α × α)
  | [] => []
  | [x] => [(x, x)]
  | x :: y :: l => (x, y) :: pairUp l

theorem pairUp_length (l : List α) : (pairUp l).length = (l.length + 1) / 2 := by
  induction l using pairUp.induct with
  | case1 => simp [pairUp]
  | case2 x => simp [pairUp]
  | case3 x y l ih =>
      simp only [pairUp, List.length_cons, ih]
      omega

/-- The pair over a place: its left node, and its right node if there is one. -/
theorem getElem?_pairUp (l : List α) (k : ℕ) :
    (pairUp l)[k]? = l[2 * k]?.map fun x => (x, (l[2 * k + 1]?).getD x) := by
  induction l using pairUp.induct generalizing k with
  | case1 => simp [pairUp]
  | case2 x =>
      cases k with
      | zero => rfl
      | succ k => simp [pairUp, Nat.mul_succ]
  | case3 x y l ih =>
      cases k with
      | zero => rfl
      | succ k =>
          have hleft : 2 * (k + 1) = 2 * k + 1 + 1 := by omega
          simp only [pairUp, List.getElem?_cons_succ, ih k, hleft]

variable (node : α → α → α)

/-- The next level. -/
def reduce (l : List α) : List α := (pairUp l).map fun p => node p.1 p.2

/-- The level so many levels up. -/
def ascend : ℕ → List α → List α
  | 0, l => l
  | depth + 1, l => ascend depth (reduce node l)

/-- The partner of a place on its level: the node to its left or to its right, or the node
itself where none is left over. -/
def partner (l : List α) (i : ℕ) : Option α :=
  if i % 2 = 1 then l[i - 1]? else l[if i + 1 < l.length then i + 1 else i]?

/-- The partners of an entry on all levels below the root. -/
def path : ℕ → List α → ℕ → List (Option α)
  | 0, _, _ => []
  | depth + 1, l, i => partner l i :: path depth (reduce node l) (i / 2)

/-- The pair a climb hashes: the bit of the index says on which side the partner is. -/
def joined (x : α) (i : ℕ) (other : α) : α × α := if i % 2 = 1 then (other, x) else (x, other)

/-- The root a verifier arrives at. -/
def climb : α → ℕ → List α → α
  | x, _, [] => x
  | x, i, other :: proof => climb (node (joined x i other).1 (joined x i other).2) (i / 2) proof

/-- The pairs that are hashed to build the tree. -/
def treePairs : ℕ → List α → List (α × α)
  | 0, _ => []
  | depth + 1, l => pairUp l ++ treePairs depth (reduce node l)

/-- The pairs that are hashed in a climb. -/
def climbPairs : α → ℕ → List α → List (α × α)
  | _, _, [] => []
  | x, i, other :: proof =>
      joined x i other ::
        climbPairs (node (joined x i other).1 (joined x i other).2) (i / 2) proof

section

variable {node}

theorem reduce_length (l : List α) : (reduce node l).length = (l.length + 1) / 2 := by
  rw [reduce, List.length_map, pairUp_length]

theorem path_length (depth : ℕ) (l : List α) (i : ℕ) : (path node depth l i).length = depth := by
  induction depth generalizing l i with
  | zero => rfl
  | succ depth ih => rw [path, List.length_cons, ih]

/-- A list has one node so many levels up as its length has halvings. -/
theorem ascend_clog {l : List α} (h : l ≠ []) :
    ∃ root, ascend node (Nat.clog 2 l.length) l = [root] := by
  generalize hn : l.length = n
  induction n using Nat.strong_induction_on generalizing l with
  | _ n ih =>
      have hpos : 0 < l.length := List.length_pos_iff.mpr h
      by_cases hone : n ≤ 1
      · rw [Nat.clog_of_right_le_one hone]
        have hlength : l.length = 1 := by omega
        exact List.length_eq_one_iff.mp hlength
      · have hlength : (reduce node l).length = (n + 1) / 2 := hn ▸ reduce_length l
        have hne : reduce node l ≠ [] := List.ne_nil_of_length_pos (by omega)
        rw [Nat.clog_of_two_le (by omega) (by omega)]
        exact ih ((n + 2 - 1) / 2) (by omega) hne hlength

/-- The pair over an entry is what a climb with the entry's partner hashes. -/
theorem joined_partner {l : List α} {i : ℕ} {x other : α} (hx : l[i]? = some x)
    (hother : partner l i = some other) :
    (pairUp l)[i / 2]? = some (joined x i other) := by
  have hlt : i < l.length := (List.getElem?_eq_some_iff.mp hx).1
  rw [getElem?_pairUp]
  unfold partner at hother
  unfold joined
  by_cases hodd : i % 2 = 1
  · have hleft : 2 * (i / 2) = i - 1 := by omega
    have hright : 2 * (i / 2) + 1 = i := by omega
    rw [if_pos hodd] at hother ⊢
    rw [hright, hleft, hother, hx]
    rfl
  · have hleft : 2 * (i / 2) = i := by omega
    rw [if_neg hodd] at hother ⊢
    rw [hleft, hx, Option.map_some]
    by_cases hlast : i + 1 < l.length
    · rw [if_pos hlast] at hother
      rw [hother]
      rfl
    · rw [if_neg hlast, hx] at hother
      rw [List.getElem?_eq_none (not_lt.mp hlast)]
      cases hother
      rfl

/-- The node of the next level over a pair. -/
theorem getElem?_reduce_of_pair {l : List α} {k : ℕ} {p : α × α} (h : (pairUp l)[k]? = some p) :
    (reduce node l)[k]? = some (node p.1 p.2) := by
  rw [reduce, List.getElem?_map, h]
  rfl

/-- The path of an entry begins with its partner, and goes on from the node over the two. -/
theorem eq_cons_of_path_succ {depth : ℕ} {l : List α} {i : ℕ} {x : α} {proof : List α}
    (hx : l[i]? = some x) (hproof : proof.map some = path node (depth + 1) l i) :
    ∃ other rest, proof = other :: rest ∧ (pairUp l)[i / 2]? = some (joined x i other) ∧
      rest.map some = path node depth (reduce node l) (i / 2) := by
  cases proof with
  | nil => simp [path] at hproof
  | cons other rest =>
      rw [List.map_cons, path, List.cons.injEq] at hproof
      obtain ⟨hother, hrest⟩ := hproof
      exact ⟨other, rest, rfl, joined_partner hx hother.symm, hrest⟩

/-- An entry has a partner on every level. -/
theorem exists_path (node : α → α → α) (depth : ℕ) {l : List α} {i : ℕ} (hi : i < l.length) :
    ∃ proof : List α, proof.map some = path node depth l i := by
  induction depth generalizing l i with
  | zero => exact ⟨[], rfl⟩
  | succ depth ih =>
      obtain ⟨other, hother⟩ : ∃ other, partner l i = some other := by
        unfold partner
        split_ifs with hodd hnext
        · exact ⟨_, List.getElem?_eq_getElem (by omega)⟩
        · exact ⟨_, List.getElem?_eq_getElem hnext⟩
        · exact ⟨_, List.getElem?_eq_getElem hi⟩
      have hparent : i / 2 < (reduce node l).length := by
        rw [reduce_length]
        omega
      obtain ⟨proof, hproof⟩ := ih hparent
      exact ⟨other :: proof, by rw [List.map_cons, hproof, path, hother]⟩

/-- Completeness: from an entry the climb along its path arrives at the root. -/
theorem climb_path {depth : ℕ} {l : List α} {root : α} (hroot : ascend node depth l = [root])
    {i : ℕ} {x : α} (hx : l[i]? = some x) {proof : List α}
    (hproof : proof.map some = path node depth l i) : climb node x i proof = root := by
  induction depth generalizing l i x proof with
  | zero =>
      cases List.map_eq_nil_iff.mp hproof
      rw [ascend] at hroot
      have hi : i = 0 := by
        have hlt := (List.getElem?_eq_some_iff.mp hx).1
        rw [hroot, List.length_singleton] at hlt
        omega
      rw [hroot, hi] at hx
      cases hx
      rfl
  | succ depth ih =>
      obtain ⟨other, rest, rfl, hpair, hrest⟩ := eq_cons_of_path_succ hx hproof
      exact ih hroot (getElem?_reduce_of_pair hpair) hrest

/-- The climb from an entry along its path hashes pairs of the tree. -/
theorem climbPairs_path {depth : ℕ} {l : List α} {i : ℕ} {x : α} {proof : List α}
    (hx : l[i]? = some x) (hproof : proof.map some = path node depth l i) :
    climbPairs node x i proof ⊆ treePairs node depth l := by
  induction depth generalizing l i x proof with
  | zero =>
      cases List.map_eq_nil_iff.mp hproof
      exact List.nil_subset _
  | succ depth ih =>
      obtain ⟨other, rest, rfl, hpair, hrest⟩ := eq_cons_of_path_succ hx hproof
      rw [climbPairs, treePairs, List.cons_subset]
      exact ⟨List.mem_append_left _ (List.mem_of_getElem? hpair),
        List.Subset.trans (ih (getElem?_reduce_of_pair hpair) hrest)
          (List.subset_append_right _ _)⟩

/-- A pair of the level that a climb hashed tells where the climb came from: its node is in
the level, and where its place is, the partner is the partner of the level. -/
theorem of_joined {l : List α} {i k : ℕ} {x other : α}
    (hpair : (pairUp l)[k]? = some (joined x i other)) :
    ∃ j, l[j]? = some x ∧ (k = i / 2 → i < l.length → j = i ∧ partner l i = some other) := by
  rw [getElem?_pairUp, Option.map_eq_some_iff] at hpair
  obtain ⟨left, hleft, heq⟩ := hpair
  unfold joined at heq
  by_cases hodd : i % 2 = 1
  · rw [if_pos hodd, Prod.mk.injEq] at heq
    obtain ⟨rfl, hright⟩ := heq
    cases hnext : l[2 * k + 1]? with
    | none =>
        -- The left node was repeated, and the climb came from the repetition.
        rw [hnext, Option.getD_none] at hright
        subst hright
        refine ⟨2 * k, hleft, fun hk hlt => ?_⟩
        have hge := List.getElem?_eq_none_iff.mp hnext
        omega
    | some right =>
        rw [hnext, Option.getD_some] at hright
        subst hright
        refine ⟨2 * k + 1, hnext, fun hk hlt => ⟨by omega, ?_⟩⟩
        have hplace : 2 * k = i - 1 := by omega
        rw [partner, if_pos hodd, ← hplace, hleft]
  · rw [if_neg hodd, Prod.mk.injEq] at heq
    obtain ⟨rfl, hright⟩ := heq
    refine ⟨2 * k, hleft, fun hk hlt => ⟨by omega, ?_⟩⟩
    have hplace : 2 * k = i := by omega
    rw [hplace] at hleft hright
    rw [partner, if_neg hodd]
    by_cases hlast : i + 1 < l.length
    · rw [if_pos hlast]
      rw [List.getElem?_eq_getElem hlast, Option.getD_some] at hright
      rw [List.getElem?_eq_getElem hlast, hright]
    · rw [if_neg hlast, hleft, ← hright, List.getElem?_eq_none (not_lt.mp hlast), Option.getD_none]

/-- Soundness: a climb that arrives at the root started from an entry, and if its index is
one of the entries' it started from that one and went along its path. -/
theorem climb_sound {depth : ℕ} {l : List α} {root : α} (hroot : ascend node depth l = [root])
    {i : ℕ} {x : α} {proof : List α} (hlength : proof.length = depth)
    (hinj : Set.InjOn (fun p : α × α => node p.1 p.2)
      {p | p ∈ treePairs node depth l ∨ p ∈ climbPairs node x i proof})
    (hclimb : climb node x i proof = root) :
    ∃ j, l[j]? = some x ∧ (i < l.length → j = i ∧ proof.map some = path node depth l i) := by
  induction depth generalizing l i x proof with
  | zero =>
      rw [List.length_eq_zero_iff] at hlength
      subst hlength
      rw [ascend] at hroot
      subst hroot
      refine ⟨0, congrArg some hclimb.symm, fun hlt => ⟨?_, rfl⟩⟩
      rw [List.length_singleton] at hlt
      omega
  | succ depth ih =>
      cases proof with
      | nil => simp at hlength
      | cons other proof =>
          have hrest := ih hroot (by simpa using hlength)
            (hinj.mono fun p hp => hp.imp (List.mem_append_right _) (List.mem_cons_of_mem _)) hclimb
          obtain ⟨k, hk, hplace⟩ := hrest
          rw [reduce, List.getElem?_map, Option.map_eq_some_iff] at hk
          obtain ⟨pair, hpair, heq⟩ := hk
          have hmem : pair ∈ pairUp l := List.mem_of_getElem? hpair
          have hsame : pair = joined x i other :=
            hinj (.inl (List.mem_append_left _ hmem)) (.inr List.mem_cons_self) heq
          obtain ⟨j, hj, hpartner⟩ := of_joined (hsame ▸ hpair)
          refine ⟨j, hj, fun hlt => ?_⟩
          have hnext : i / 2 < (reduce node l).length := by
            rw [reduce_length]
            omega
          obtain ⟨hki, hpath⟩ := hplace hnext
          obtain ⟨hji, hother⟩ := hpartner hki hlt
          exact ⟨hji, by rw [List.map_cons, path, hpath, hother]⟩

end

end Merkle
