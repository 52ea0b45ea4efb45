import InterestDollar.Contract.Basic
import InterestDollar.FixedPoint.Rate

/-!
# Fixed-point arithmetic of the contracts

The functions of the `StableMath` library, each with the lemma that says when
it returns and what. On the values that fit they are the exact conversions of
`FixedPoint`, at the scale `fullScale`.
-/

namespace InterestDollar

open Checked

/-- `FULL_SCALE`, the fixed-point number one: `1e18`. -/
def fullScale : ℕ := 10 ^ 18

theorem fullScale_pos : 0 < fullScale := Nat.pow_pos (by omega)

namespace StableMath

/-- Moves an integer by a number of decimal places, up or down. -/
def scaleBy (x : ℕ) (adjustment : ℤ) : Except Revert ℕ :=
  if 0 < adjustment then SafeMath.mul x (10 ^ adjustment.toNat)
  else if adjustment < 0 then SafeMath.div x (10 ^ (-adjustment).toNat)
  else .ok x

def mulTruncateScale (x y scale : ℕ) : Except Revert ℕ := do
  let z ← SafeMath.mul x y
  SafeMath.div z scale

def mulTruncate (x y : ℕ) : Except Revert ℕ := mulTruncateScale x y fullScale

def divPrecisely (x y : ℕ) : Except Revert ℕ := do
  let z ← SafeMath.mul x fullScale
  SafeMath.div z y

theorem mulTruncateScale_eq_ok {x y scale c : ℕ} :
    mulTruncateScale x y scale = .ok c ↔
      x * y < wordBound ∧ 0 < scale ∧ c = x * y / scale := by
  simp only [mulTruncateScale, bind_eq_ok, SafeMath.mul_eq_ok, SafeMath.div_eq_ok]
  constructor
  · rintro ⟨z, ⟨hfit, rfl⟩, hpos, rfl⟩
    exact ⟨hfit, hpos, rfl⟩
  · rintro ⟨hfit, hpos, rfl⟩
    exact ⟨_, ⟨hfit, rfl⟩, hpos, rfl⟩

theorem mulTruncate_eq_ok {x y c : ℕ} :
    mulTruncate x y = .ok c ↔ x * y < wordBound ∧ c = FixedPoint.shares fullScale y x := by
  simp [mulTruncate, mulTruncateScale_eq_ok, fullScale_pos, FixedPoint.shares]

theorem divPrecisely_eq_ok {x y c : ℕ} :
    divPrecisely x y = .ok c ↔
      x * fullScale < wordBound ∧ 0 < y ∧ c = FixedPoint.worth fullScale y x :=
  mulTruncateScale_eq_ok

theorem mulTruncate_avoids {x y : ℕ} {slot : Slot} :
    Avoids (.subtractionOverflow slot) (mulTruncate x y) :=
  avoids_bind SafeMath.mul_avoids fun _ _ => SafeMath.div_avoids

theorem divPrecisely_avoids {x y : ℕ} {slot : Slot} :
    Avoids (.subtractionOverflow slot) (divPrecisely x y) :=
  avoids_bind SafeMath.mul_avoids fun _ _ => SafeMath.div_avoids

theorem mulTruncate_avoids_reason {x y : ℕ} {reason : String} :
    Avoids (.require reason) (mulTruncate x y) :=
  avoids_bind SafeMath.mul_avoids_reason fun _ _ => SafeMath.div_avoids_reason

theorem divPrecisely_avoids_reason {x y : ℕ} {reason : String} :
    Avoids (.require reason) (divPrecisely x y) :=
  avoids_bind SafeMath.mul_avoids_reason fun _ _ => SafeMath.div_avoids_reason

/-- Scaling up an amount with at most 18 decimals multiplies it. -/
theorem scaleBy_eighteen_sub {x d c : ℕ} (hd : d ≤ 18) :
    scaleBy x (18 - (d : ℤ)) = .ok c ↔
      (d < 18 → x * 10 ^ (18 - d) < wordBound) ∧ c = x * 10 ^ (18 - d) := by
  rcases Nat.lt_or_eq_of_le hd with hlt | rfl
  · have hnat : (18 - (d : ℤ)).toNat = 18 - d := by omega
    simp [scaleBy, hnat, SafeMath.mul_eq_ok, hlt]
  · simp [scaleBy, eq_comm]

/-- What is scaled up is a word. -/
theorem scaleBy_lt {amount decimals scaled : ℕ} (hamount : amount < wordBound)
    (hdecimals : decimals ≤ 18)
    (h : scaleBy amount (18 - (decimals : ℤ)) = .ok scaled) : scaled < wordBound := by
  obtain ⟨hfit, rfl⟩ := (scaleBy_eighteen_sub hdecimals).mp h
  rcases Nat.lt_or_eq_of_le hdecimals with hlt | rfl
  · exact hfit hlt
  · simpa using hamount

theorem mulTruncateScale_lt {x y scale value : ℕ}
    (h : mulTruncateScale x y scale = .ok value) : value < wordBound := by
  obtain ⟨hfit, -, rfl⟩ := mulTruncateScale_eq_ok.mp h
  exact (Nat.div_le_self _ _).trans_lt hfit

end StableMath

end InterestDollar
