import InterestDollar.FixedPoint.Portion

/-!
# An amount at a ratio

A ratio of two numbers is kept as a fixed-point number, rounded down, and an amount is
multiplied by it and rounded down again. `atRatio` is what comes out. The two roundings cost
less than a unit of the amount's part and less than what the amount loses on one step of the
scale; a ratio of one costs nothing, and a ratio below one takes something off every amount.
-/

namespace FixedPoint

variable {scale : ℕ}

/-- The part `p / q` of an amount, where the ratio is rounded down first. -/
def atRatio (scale p q amount : ℕ) : ℕ := shares scale (worth scale q p) amount

variable {p p' q amount : ℕ}

theorem atRatio_mono (h : p ≤ p') : atRatio scale p q amount ≤ atRatio scale p' q amount :=
  shares_le_of_rate_le (worth_mono h) amount

/-- The part is no more than it would be without the roundings. -/
theorem atRatio_mul_le (hscale : 0 < scale) : atRatio scale p q amount * q ≤ amount * p := by
  have hpart : atRatio scale p q amount * scale ≤ amount * worth scale q p := shares_mul_le amount
  have hratio : worth scale q p * q ≤ p * scale := worth_mul_le p
  refine Nat.le_of_mul_le_mul_right ?_ hscale
  calc atRatio scale p q amount * q * scale
      = atRatio scale p q amount * scale * q := Nat.mul_right_comm _ _ _
    _ ≤ amount * worth scale q p * q := Nat.mul_le_mul_right _ hpart
    _ = amount * (worth scale q p * q) := Nat.mul_assoc _ _ _
    _ ≤ amount * (p * scale) := Nat.mul_le_mul_left _ hratio
    _ = amount * p * scale := (Nat.mul_assoc _ _ _).symm

/-- What the two roundings can take off. -/
theorem lt_atRatio_mul (hscale : 0 < scale) (hq : 0 < q) :
    amount * p * scale < atRatio scale p q amount * q * scale + amount * q + q * scale := by
  have hratio : p * scale < (worth scale q p + 1) * q := lt_worth_succ_mul hq p
  have hpart : amount * worth scale q p < (atRatio scale p q amount + 1) * scale :=
    Nat.lt_mul_of_div_lt (Nat.lt_succ_self _) hscale
  calc amount * p * scale
      = amount * (p * scale) := Nat.mul_assoc _ _ _
    _ ≤ amount * ((worth scale q p + 1) * q) := Nat.mul_le_mul_left _ hratio.le
    _ = amount * worth scale q p * q + amount * q := by ring
    _ < (atRatio scale p q amount + 1) * scale * q + amount * q :=
        Nat.add_lt_add_right (Nat.mul_lt_mul_of_pos_right hpart hq) _
    _ = _ := by ring

/-- An amount that is short of what another one comes to at a ratio comes to less than that one
at the inverse ratio. -/
theorem atRatio_inverse_lt {a b : ℕ} (hscale : 0 < scale) (hq : 0 < q)
    (h : b < atRatio scale p q a) : atRatio scale q p b < a := by
  refine Nat.lt_of_mul_lt_mul_right (a := p) ?_
  calc atRatio scale q p b * p
      ≤ b * q := atRatio_mul_le hscale
    _ < atRatio scale p q a * q := Nat.mul_lt_mul_of_pos_right h hq
    _ ≤ a * p := atRatio_mul_le hscale

/-- A ratio of one. -/
theorem atRatio_self (hscale : 0 < scale) (hq : 0 < q) : atRatio scale q q amount = amount := by
  unfold atRatio worth shares
  rw [Nat.mul_div_cancel_left _ hq, Nat.mul_div_cancel _ hscale]

theorem atRatio_le (h : p ≤ q) : atRatio scale p q amount ≤ amount :=
  shares_le_self (worth_le_scale h) amount

/-- The part is everything exactly where the ratio is one or there is nothing to take off. -/
theorem atRatio_eq_iff (hscale : 0 < scale) (hq : 0 < q) (h : p ≤ q) :
    atRatio scale p q amount = amount ↔ p = q ∨ amount = 0 := by
  constructor
  · intro heq
    have hmul : atRatio scale p q amount * q ≤ amount * p := atRatio_mul_le hscale
    rw [heq] at hmul
    rcases Nat.eq_zero_or_pos amount with hzero | hpos
    · exact .inr hzero
    · exact .inl (h.antisymm (Nat.le_of_mul_le_mul_left hmul hpos))
  · rintro (rfl | rfl)
    · exact atRatio_self hscale hq
    · exact Nat.le_zero.mp (atRatio_le h)

end FixedPoint
