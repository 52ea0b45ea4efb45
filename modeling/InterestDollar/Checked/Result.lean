import Mathlib.Algebra.Ring.Nat
import Mathlib.Data.List.Forall2
import Mathlib.Logic.Basic
import Mathlib.Tactic.Common

/-!
# Reading computations that may fail

A fallible computation is a value of `Except ε α`. The lemmas below read one
apart from its outcome: a sequence returns `b` exactly when its first part
returns some `a` from which the rest returns `b`, and it fails exactly when the
first part fails or the rest does. With them a proof never unfolds a bind.
-/

namespace Checked

universe u

variable {ε : Type*} {α β : Type u}

theorem bind_eq_ok {x : Except ε α} {f : α → Except ε β} {b : β} :
    (x >>= f) = .ok b ↔ ∃ a, x = .ok a ∧ f a = .ok b := by
  cases x with
  | error e => simp [bind, Except.bind]
  | ok a => simp [bind, Except.bind]

theorem bind_eq_error {x : Except ε α} {f : α → Except ε β} {e : ε} :
    (x >>= f) = .error e ↔ x = .error e ∨ ∃ a, x = .ok a ∧ f a = .error e := by
  cases x with
  | error e' => simp [bind, Except.bind]
  | ok a => simp [bind, Except.bind]

theorem pure_eq_ok {a b : α} : (pure a : Except ε α) = .ok b ↔ a = b := by
  simp [pure, Except.pure]

theorem pure_eq_error {a : α} {e : ε} : (pure a : Except ε α) = .error e ↔ False := by
  simp [pure, Except.pure]

/-- A sequence goes on from what its first part returns. -/
theorem bind_of_eq_ok {x : Except ε α} {a : α} (h : x = .ok a) (f : α → Except ε β) :
    x >>= f = f a := by
  subst h
  rfl

/-- Two sequences that go on alike from whatever their first part returns. -/
theorem bind_eq_bind {x : Except ε α} {f g : α → Except ε β}
    (h : ∀ a, x = .ok a → f a = g a) : x >>= f = x >>= g := by
  cases x with
  | error e => rfl
  | ok a => exact h a rfl

/-- A list of computations returns the list of what each of them returns. -/
theorem mapM_eq_ok {f : α → Except ε β} {l : List α} {l' : List β} :
    l.mapM f = .ok l' ↔ List.Forall₂ (fun a b => f a = .ok b) l l' := by
  induction l generalizing l' with
  | nil => rw [List.mapM_nil, pure_eq_ok, List.forall₂_nil_left_iff, eq_comm]
  | cons a l ih =>
      simp only [List.mapM_cons, bind_eq_ok, pure_eq_ok, ih, List.forall₂_cons_left_iff]
      constructor
      · rintro ⟨b, hb, l', hl, rfl⟩
        exact ⟨b, l', hb, hl, rfl⟩
      · rintro ⟨b, l', hb, hl, rfl⟩
        exact ⟨b, hb, l', hl, rfl⟩

/-- A guard: fails with `e` unless `p` holds. -/
def guardWith (p : Prop) [Decidable p] (e : ε) : Except ε Unit :=
  if p then .ok () else .error e

@[simp] theorem guardWith_eq_ok {p : Prop} [Decidable p] {e : ε} {u : Unit} :
    guardWith p e = .ok u ↔ p := by
  by_cases h : p
  · simp [guardWith, h]
  · simp [guardWith, h]

@[simp] theorem guardWith_eq_error {p : Prop} [Decidable p] {e e' : ε} :
    guardWith p e = .error e' ↔ ¬ p ∧ e = e' := by
  by_cases h : p
  · simp [guardWith, h]
  · simp [guardWith, h]

/-- The computation returns a value, and the value satisfies `P`. -/
def Returns (x : Except ε α) (P : α → Prop) : Prop := ∃ a, x = .ok a ∧ P a

instance decidableReturns {x : Except ε α} {P : α → Prop} [DecidablePred P] :
    Decidable (Returns x P) :=
  match x with
  | .ok a => decidable_of_iff (P a) (by simp [Returns])
  | .error _ => isFalse (by simp [Returns])

theorem Returns.of_eq_ok {x : Except ε α} {P : α → Prop} {a : α} (h : Returns x P)
    (ha : x = .ok a) : P a := by
  obtain ⟨b, hb, hP⟩ := h
  cases ha.symm.trans hb
  exact hP

/-- Whether a computation returns a value. -/
def Succeeds (x : Except ε α) : Prop := Returns x fun _ => True

instance decidableSucceeds {x : Except ε α} : Decidable (Succeeds x) := decidableReturns

theorem succeeds_iff {x : Except ε α} : Succeeds x ↔ ∃ a, x = .ok a := by
  simp [Succeeds, Returns]

/-- A list of computations that all succeed. -/
theorem mapM_succeeds {f : α → Except ε β} {l : List α}
    (h : ∀ a ∈ l, Succeeds (f a)) : Succeeds (l.mapM f) := by
  induction l with
  | nil => exact succeeds_iff.mpr ⟨[], rfl⟩
  | cons a l ih =>
      obtain ⟨ha, hrest⟩ := List.forall_mem_cons.mp h
      obtain ⟨b, hb⟩ := succeeds_iff.mp ha
      obtain ⟨l', hl'⟩ := succeeds_iff.mp (ih hrest)
      exact succeeds_iff.mpr ⟨b :: l', mapM_eq_ok.mpr (.cons hb (mapM_eq_ok.mp hl'))⟩

/-- The computation fails with `e`. -/
def FailsWith (e : ε) (x : Except ε α) : Prop := x = .error e

instance decidableFailsWith [DecidableEq ε] {e : ε} {x : Except ε α} :
    Decidable (FailsWith e x) :=
  match x with
  | .ok _ => isFalse fun h => nomatch h
  | .error e' => decidable_of_iff (e' = e) (by simp [FailsWith])

/-- A computation that does not fail with `e`, whatever else it does. -/
def Avoids (e : ε) (x : Except ε α) : Prop := ¬ FailsWith e x

theorem avoids_pure {e : ε} {a : α} : Avoids e (pure a : Except ε α) :=
  fun h => pure_eq_error.mp h

theorem avoids_ok {e : ε} {a : α} : Avoids e (.ok a : Except ε α) :=
  fun h => nomatch h

/-- A sequence avoids a failure when its first part does, and the rest does from
every value the first part returns. -/
theorem avoids_bind {e : ε} {x : Except ε α} {f : α → Except ε β} (hx : Avoids e x)
    (hf : ∀ a, x = .ok a → Avoids e (f a)) : Avoids e (x >>= f) := by
  intro h
  rcases bind_eq_error.mp h with hbad | ⟨a, ha, hbad⟩
  · exact hx hbad
  · exact hf a ha hbad

theorem avoids_ite {e : ε} {p : Prop} [Decidable p] {x y : Except ε α}
    (hx : p → Avoids e x) (hy : ¬ p → Avoids e y) : Avoids e (if p then x else y) := by
  split_ifs with h
  · exact hx h
  · exact hy h

/-- Whatever failure the computation has satisfies `P`. -/
def FailsOnly (P : ε → Prop) (x : Except ε α) : Prop := ∀ e, x = .error e → P e

theorem failsOnly_pure {P : ε → Prop} {a : α} : FailsOnly P (pure a : Except ε α) :=
  fun _ h => (pure_eq_error.mp h).elim

theorem failsOnly_bind {P : ε → Prop} {x : Except ε α} {f : α → Except ε β} (hx : FailsOnly P x)
    (hf : ∀ a, x = .ok a → FailsOnly P (f a)) : FailsOnly P (x >>= f) := by
  intro e h
  rcases bind_eq_error.mp h with hfail | ⟨a, ha, hfail⟩
  · exact hx e hfail
  · exact hf a ha e hfail

theorem failsOnly_ite {P : ε → Prop} {p : Prop} [Decidable p] {x y : Except ε α}
    (hx : p → FailsOnly P x) (hy : ¬ p → FailsOnly P y) : FailsOnly P (if p then x else y) := by
  split_ifs with h
  · exact hx h
  · exact hy h

theorem failsOnly_foldlM {γ : Type*} {P : ε → Prop} {f : α → γ → Except ε α} {l : List γ}
    (hf : ∀ a, ∀ x ∈ l, FailsOnly P (f a x)) (a : α) : FailsOnly P (l.foldlM f a) := by
  induction l generalizing a with
  | nil => exact failsOnly_pure
  | cons x l ih =>
      rw [List.foldlM_cons]
      refine failsOnly_bind (hf a x List.mem_cons_self) fun b _ => ?_
      exact ih (fun a y hy => hf a y (List.mem_cons_of_mem _ hy)) b

/-- Whatever the computation returns satisfies `P`. -/
def Ensures (x : Except ε α) (P : α → Prop) : Prop := ∀ a, x = .ok a → P a

theorem ensures_pure {P : α → Prop} {a : α} (h : P a) : Ensures (pure a : Except ε α) P := by
  intro b hb
  cases pure_eq_ok.mp hb
  exact h

theorem ensures_error {P : α → Prop} {e : ε} : Ensures (.error e : Except ε α) P :=
  fun _ h => nomatch h

theorem ensures_bind {x : Except ε α} {f : α → Except ε β} {P : α → Prop} {Q : β → Prop}
    (hx : Ensures x P) (hf : ∀ a, P a → Ensures (f a) Q) : Ensures (x >>= f) Q := by
  intro b hb
  obtain ⟨a, ha, hfa⟩ := bind_eq_ok.mp hb
  exact hf a (hx a ha) b hfa

/-- A sequence whose first part only reads or checks. -/
theorem ensures_of_bind {x : Except ε α} {f : α → Except ε β} {Q : β → Prop}
    (hf : ∀ a, x = .ok a → Ensures (f a) Q) : Ensures (x >>= f) Q := by
  intro b hb
  obtain ⟨a, ha, hfa⟩ := bind_eq_ok.mp hb
  exact hf a ha b hfa

theorem ensures_ite {p : Prop} [Decidable p] {x y : Except ε α} {P : α → Prop}
    (hx : p → Ensures x P) (hy : ¬ p → Ensures y P) : Ensures (if p then x else y) P := by
  split_ifs with h
  · exact hx h
  · exact hy h

/-- A loop that passes over everything in its list. -/
theorem foldlM_passes {γ : Type*} {f : α → γ → Except ε α} {l : List γ}
    (h : ∀ x ∈ l, ∀ a, f a x = .ok a) (a : α) : l.foldlM f a = .ok a := by
  induction l with
  | nil => rfl
  | cons x l ih =>
      obtain ⟨hx, hrest⟩ := List.forall_mem_cons.mp h
      rw [List.foldlM_cons]
      exact bind_eq_ok.mpr ⟨a, hx a, ih hrest⟩

/-- A loop that adds an amount for each element goes through where the sum is in bounds. -/
theorem foldlM_adds {γ : Type*} {f : ℕ → γ → Except ε ℕ} {amount : γ → ℕ} {bound : ℕ} {l : List γ}
    (hstep : ∀ x ∈ l, ∀ total, total + amount x < bound → f total x = .ok (total + amount x))
    {total : ℕ} (hfit : total + (l.map amount).sum < bound) :
    l.foldlM f total = .ok (total + (l.map amount).sum) := by
  induction l generalizing total with
  | nil => rfl
  | cons x l ih =>
      obtain ⟨hfirst, hrest⟩ := List.forall_mem_cons.mp hstep
      rw [List.map_cons, List.sum_cons, ← Nat.add_assoc] at hfit ⊢
      rw [List.foldlM_cons]
      refine bind_eq_ok.mpr ⟨total + amount x, hfirst total ?_, ih hrest hfit⟩
      exact Nat.lt_of_le_of_lt (Nat.le_add_right _ _) hfit

/-- Such a loop from zero returns the sum. -/
theorem foldlM_eq_sum {γ : Type*} {f : ℕ → γ → Except ε ℕ} {amount : γ → ℕ} {bound : ℕ}
    {l : List γ}
    (hstep : ∀ x ∈ l, ∀ total, total + amount x < bound → f total x = .ok (total + amount x))
    (hfit : (l.map amount).sum < bound) : l.foldlM f 0 = .ok (l.map amount).sum := by
  rw [← Nat.zero_add (l.map amount).sum] at hfit ⊢
  exact foldlM_adds hstep hfit

/-- A loop that goes through, and one over the same list whose steps follow its steps. -/
theorem foldlM_simulates {β γ : Type*} {R : α → β → Prop} {f : α → γ → Except ε α}
    {g : β → γ → Except ε β} {l : List γ}
    (hstep : ∀ x ∈ l, ∀ a b a', R a b → f a x = .ok a' → Returns (g b x) (R a'))
    {a a' : α} {b : β} (hab : R a b) (h : l.foldlM f a = .ok a') :
    Returns (l.foldlM g b) (R a') := by
  induction l generalizing a b with
  | nil =>
      cases pure_eq_ok.mp h
      exact ⟨b, rfl, hab⟩
  | cons x l ih =>
      rw [List.foldlM_cons] at h
      obtain ⟨c, hc, h⟩ := bind_eq_ok.mp h
      obtain ⟨hfirst, hrest⟩ := List.forall_mem_cons.mp hstep
      obtain ⟨d, hd, hcd⟩ := hfirst a b c hab hc
      obtain ⟨b', hb', hlast⟩ := ih hrest hcd h
      refine ⟨b', ?_, hlast⟩
      rw [List.foldlM_cons]
      exact bind_eq_ok.mpr ⟨d, hd, hb'⟩

/-- A loop keeps what each of its steps keeps. -/
theorem ensures_foldlM_mem {γ : Type*} {f : α → γ → Except ε α} {I : α → Prop} {l : List γ}
    (hf : ∀ a, ∀ x ∈ l, I a → Ensures (f a x) I) {a : α} (ha : I a) :
    Ensures (l.foldlM f a) I := by
  induction l generalizing a with
  | nil => exact ensures_pure ha
  | cons x l ih =>
      rw [List.foldlM_cons]
      refine ensures_bind (hf a x List.mem_cons_self ha) fun b hb => ?_
      exact ih (fun a y hy => hf a y (List.mem_cons_of_mem _ hy)) hb

theorem ensures_foldlM {γ : Type*} {f : α → γ → Except ε α} {I : α → Prop}
    (hf : ∀ a x, I a → Ensures (f a x) I) {a : α} (ha : I a) (l : List γ) :
    Ensures (l.foldlM f a) I :=
  ensures_foldlM_mem (fun a x _ => hf a x) ha

end Checked
