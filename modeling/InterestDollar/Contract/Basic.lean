import InterestDollar.Checked.Result
import Mathlib.Algebra.Order.Ring.Nat
import Mathlib.Data.Fin.Basic
import Mathlib.Data.Fintype.Basic

/-!
# Addresses, reverts and checked arithmetic

The parts of the execution environment every contract here uses: account
addresses, the reasons a call reverts with, and the arithmetic of the `SafeMath`
library on unsigned 256-bit words. Words are natural numbers; an operation whose
exact result does not fit reverts.

A `SafeMath` subtraction that underflows reverts with one and the same text
wherever it stands. To tell the places apart, the revert of a subtraction from a
storage variable carries the variable it was subtracted from.
-/

namespace InterestDollar

/-- A 160-bit account address. -/
def Address : Type := Fin (2 ^ 160)

namespace Address

instance : DecidableEq Address := inferInstanceAs (DecidableEq (Fin (2 ^ 160)))

instance : Fintype Address := inferInstanceAs (Fintype (Fin (2 ^ 160)))

instance (n : ℕ) : OfNat Address n := ⟨Fin.ofNat (2 ^ 160) n⟩

instance : Inhabited Address := ⟨0⟩

/-- The address as a number. -/
def toNat (a : Address) : ℕ := Fin.val a

end Address

/-- What a checked subtraction takes from: a storage variable of one of the
contracts, or a local value. -/
inductive Slot
  | rebasingCredits
  | nonRebasingSupply
  | totalSupply
  | allowances
  | totalOutstanding
  | userAmount
  | totalClaims
  | tokenBalance
  | memory
  deriving DecidableEq, Repr

/-- Why a call reverted. -/
inductive Revert
  | require (reason : String)
  | additionOverflow
  | subtractionOverflow (slot : Slot)
  | multiplicationOverflow
  | divisionByZero
  | invalidOpcode
  deriving DecidableEq, Repr

/-- The reason string the caller sees. -/
def Revert.reason : Revert → String
  | .require reason => reason
  | .additionOverflow => "SafeMath: addition overflow"
  | .subtractionOverflow _ => "SafeMath: subtraction overflow"
  | .multiplicationOverflow => "SafeMath: multiplication overflow"
  | .divisionByZero => "SafeMath: division by zero"
  | .invalidOpcode => ""

/-- `require(p, reason)`. -/
def require (p : Prop) [Decidable p] (reason : String) : Except Revert Unit :=
  Checked.guardWith p (.require reason)

@[simp] theorem require_eq_ok {p : Prop} [Decidable p] {reason : String} {u : Unit} :
    require p reason = .ok u ↔ p :=
  Checked.guardWith_eq_ok

@[simp] theorem require_eq_error {p : Prop} [Decidable p] {reason : String} {e : Revert} :
    require p reason = .error e ↔ ¬ p ∧ .require reason = e :=
  Checked.guardWith_eq_error

theorem require_avoids {p : Prop} [Decidable p] {reason : String} {slot : Slot} :
    Checked.Avoids (.subtractionOverflow slot) (require p reason) := by
  intro h
  cases (require_eq_error.mp h).2

/-- A check does not fail with the reason of another. -/
theorem require_avoids_reason {p : Prop} [Decidable p] {reason reason' : String}
    (hne : reason ≠ reason') : Checked.Avoids (.require reason') (require p reason) := by
  intro h
  cases (require_eq_error.mp h).2
  exact hne rfl

/-- The number of 256-bit words. -/
def wordBound : ℕ := 2 ^ 256

namespace SafeMath

def add (a b : ℕ) : Except Revert ℕ :=
  if a + b < wordBound then .ok (a + b) else .error .additionOverflow

def sub (slot : Slot) (a b : ℕ) : Except Revert ℕ :=
  if b ≤ a then .ok (a - b) else .error (.subtractionOverflow slot)

/-- `sub(a, b, errorMessage)`. -/
def subOr (reason : String) (a b : ℕ) : Except Revert ℕ :=
  if b ≤ a then .ok (a - b) else .error (.require reason)

def mul (a b : ℕ) : Except Revert ℕ :=
  if a * b < wordBound then .ok (a * b) else .error .multiplicationOverflow

def div (a b : ℕ) : Except Revert ℕ :=
  if 0 < b then .ok (a / b) else .error .divisionByZero

theorem add_eq_ok {a b c : ℕ} : add a b = .ok c ↔ a + b < wordBound ∧ c = a + b := by
  by_cases h : a + b < wordBound
  · simp [add, h, eq_comm]
  · simp [add, h]

theorem add_eq_error {a b : ℕ} {e : Revert} :
    add a b = .error e ↔ wordBound ≤ a + b ∧ e = .additionOverflow := by
  by_cases h : a + b < wordBound
  · simp [add, h]
  · simp [add, h, not_lt.mp h, eq_comm]

theorem sub_eq_ok {slot : Slot} {a b c : ℕ} : sub slot a b = .ok c ↔ b ≤ a ∧ c = a - b := by
  by_cases h : b ≤ a
  · simp [sub, h, eq_comm]
  · simp [sub, h]

theorem sub_eq_error {slot : Slot} {a b : ℕ} {e : Revert} :
    sub slot a b = .error e ↔ a < b ∧ e = .subtractionOverflow slot := by
  by_cases h : b ≤ a
  · simp [sub, h]
  · simp [sub, h, not_le.mp h, eq_comm]

theorem subOr_eq_ok {reason : String} {a b c : ℕ} :
    subOr reason a b = .ok c ↔ b ≤ a ∧ c = a - b := by
  by_cases h : b ≤ a
  · simp [subOr, h, eq_comm]
  · simp [subOr, h]

theorem subOr_eq_error {reason : String} {a b : ℕ} {e : Revert} :
    subOr reason a b = .error e ↔ a < b ∧ e = .require reason := by
  by_cases h : b ≤ a
  · simp [subOr, h]
  · simp [subOr, h, not_le.mp h, eq_comm]

theorem mul_eq_ok {a b c : ℕ} : mul a b = .ok c ↔ a * b < wordBound ∧ c = a * b := by
  by_cases h : a * b < wordBound
  · simp [mul, h, eq_comm]
  · simp [mul, h]

theorem mul_eq_error {a b : ℕ} {e : Revert} :
    mul a b = .error e ↔ wordBound ≤ a * b ∧ e = .multiplicationOverflow := by
  by_cases h : a * b < wordBound
  · simp [mul, h]
  · simp [mul, h, not_lt.mp h, eq_comm]

theorem div_eq_ok {a b c : ℕ} : div a b = .ok c ↔ 0 < b ∧ c = a / b := by
  by_cases h : 0 < b
  · simp [div, h, eq_comm]
  · simp [div, h]

theorem div_eq_error {a b : ℕ} {e : Revert} :
    div a b = .error e ↔ b = 0 ∧ e = .divisionByZero := by
  by_cases h : 0 < b
  · simp [div, h, h.ne']
  · simp [div, Nat.eq_zero_of_not_pos h, eq_comm]

/-- The only operation that fails with an underflow is the subtraction, and it
does so for its own slot. -/
theorem add_avoids {a b : ℕ} {slot : Slot} :
    Checked.Avoids (.subtractionOverflow slot) (add a b) := by
  intro h
  cases (add_eq_error.mp h).2

theorem mul_avoids {a b : ℕ} {slot : Slot} :
    Checked.Avoids (.subtractionOverflow slot) (mul a b) := by
  intro h
  cases (mul_eq_error.mp h).2

theorem div_avoids {a b : ℕ} {slot : Slot} :
    Checked.Avoids (.subtractionOverflow slot) (div a b) := by
  intro h
  cases (div_eq_error.mp h).2

theorem subOr_avoids {a b : ℕ} {reason : String} {slot : Slot} :
    Checked.Avoids (.subtractionOverflow slot) (subOr reason a b) := by
  intro h
  cases (subOr_eq_error.mp h).2

theorem sub_avoids {a b : ℕ} {slot slot' : Slot} (hle : slot = slot' → b ≤ a) :
    Checked.Avoids (.subtractionOverflow slot') (sub slot a b) := by
  intro h
  obtain ⟨hlt, heq⟩ := sub_eq_error.mp h
  cases heq
  exact absurd (hle rfl) (not_le.mpr hlt)

theorem add_avoids_reason {a b : ℕ} {reason : String} :
    Checked.Avoids (.require reason) (add a b) := by
  intro h
  cases (add_eq_error.mp h).2

theorem sub_avoids_reason {slot : Slot} {a b : ℕ} {reason : String} :
    Checked.Avoids (.require reason) (sub slot a b) := by
  intro h
  cases (sub_eq_error.mp h).2

theorem mul_avoids_reason {a b : ℕ} {reason : String} :
    Checked.Avoids (.require reason) (mul a b) := by
  intro h
  cases (mul_eq_error.mp h).2

theorem div_avoids_reason {a b : ℕ} {reason : String} :
    Checked.Avoids (.require reason) (div a b) := by
  intro h
  cases (div_eq_error.mp h).2

end SafeMath

end InterestDollar
