import InterestDollar.FixedPoint.Rate

/-!
# Portions at a growing rate

A reward is handed out by a rate per unit that only grows: what an amount is entitled to is
its `shares` at the rate, rounded down. Entitlements of parts are rounded apart from each
other, so putting two amounts together can gain a unit over what the two were entitled to
apart, and taking an amount out can leave less than the difference. The remainders say
exactly when.
-/

namespace FixedPoint

variable {scale rate : ℕ}

theorem shares_le_of_rate_le {rate' : ℕ} (h : rate ≤ rate') (amount : ℕ) :
    shares scale rate amount ≤ shares scale rate' amount :=
  Nat.div_le_div_right (Nat.mul_le_mul_left _ h)

theorem shares_mono {a b : ℕ} (h : a ≤ b) : shares scale rate a ≤ shares scale rate b :=
  Nat.div_le_div_right (Nat.mul_le_mul_right _ h)

/-- A part at a rate of at most one. -/
theorem shares_le_self (h : rate ≤ scale) (amount : ℕ) : shares scale rate amount ≤ amount :=
  Nat.div_le_of_le_mul ((Nat.mul_le_mul_left _ h).trans_eq (Nat.mul_comm _ _))

/-- Two amounts apart are entitled to at most what they are entitled to together. -/
theorem shares_add_le (a b : ℕ) :
    shares scale rate a + shares scale rate b ≤ shares scale rate (a + b) := by
  unfold shares
  rw [Nat.add_mul]
  exact Nat.div_add_div_le_add_div

/-- The entitlement of two amounts together, with what the remainders add to it. -/
theorem shares_add (hscale : 0 < scale) (a b : ℕ) :
    shares scale rate (a + b) =
      shares scale rate a + shares scale rate b +
        (a * rate % scale + b * rate % scale) / scale := by
  have ha : scale * (a * rate / scale) + a * rate % scale = a * rate := Nat.div_add_mod _ _
  have hb : scale * (b * rate / scale) + b * rate % scale = b * rate := Nat.div_add_mod _ _
  have hsplit : (a + b) * rate =
      a * rate % scale + b * rate % scale + scale * (a * rate / scale + b * rate / scale) := by
    rw [Nat.add_mul, Nat.mul_add]
    omega
  unfold shares
  rw [hsplit, Nat.add_mul_div_left _ _ hscale, Nat.add_comm]

/-- Putting two amounts together gains at most a unit. -/
theorem shares_add_le_succ (hscale : 0 < scale) (a b : ℕ) :
    shares scale rate (a + b) ≤ shares scale rate a + shares scale rate b + 1 := by
  have ha : a * rate % scale < scale := Nat.mod_lt _ hscale
  have hb : b * rate % scale < scale := Nat.mod_lt _ hscale
  have hcarry : (a * rate % scale + b * rate % scale) / scale < 2 :=
    (Nat.div_lt_iff_lt_mul hscale).mpr (by omega)
  rw [shares_add hscale]
  omega

/-- Putting two amounts together gains nothing exactly where the remainders do not add up to
a unit. -/
theorem shares_add_le_iff (hscale : 0 < scale) (a b : ℕ) :
    shares scale rate (a + b) ≤ shares scale rate a + shares scale rate b ↔
      a * rate % scale + b * rate % scale < scale := by
  rw [shares_add hscale, ← Nat.div_eq_zero_iff_lt hscale, add_le_iff_nonpos_right,
    Nat.le_zero]

/-- A second amount adds nothing exactly where it does not make up another unit. -/
theorem shares_add_eq_left_iff (hscale : 0 < scale) (a b : ℕ) :
    shares scale rate (a + b) = shares scale rate a ↔ a * rate % scale + b * rate < scale := by
  have hsplit : (a + b) * rate = a * rate % scale + b * rate + scale * (a * rate / scale) := by
    have ha : scale * (a * rate / scale) + a * rate % scale = a * rate := Nat.div_add_mod _ _
    rw [Nat.add_mul]
    omega
  unfold shares
  rw [hsplit, Nat.add_mul_div_left _ _ hscale, ← Nat.div_eq_zero_iff_lt hscale]
  omega

/-- Taking an amount out leaves at least the difference of the entitlements exactly where
its remainder is no larger. -/
theorem shares_le_sub_add_iff (hscale : 0 < scale) {w x : ℕ} (h : w ≤ x) :
    shares scale rate x ≤ shares scale rate (x - w) + shares scale rate w ↔
      w * rate % scale ≤ x * rate % scale := by
  have hw : w * rate % scale < scale := Nat.mod_lt _ hscale
  have hrest : (x - w) * rate % scale < scale := Nat.mod_lt _ hscale
  have hx : x * rate % scale = ((x - w) * rate % scale + w * rate % scale) % scale := by
    rw [← Nat.add_mod, ← Nat.add_mul, Nat.sub_add_cancel h]
  have hiff : shares scale rate (x - w + w) ≤ _ ↔ _ := shares_add_le_iff hscale (x - w) w
  rw [Nat.sub_add_cancel h] at hiff
  rw [hiff, hx]
  generalize (x - w) * rate % scale = rest at hrest ⊢
  generalize w * rate % scale = taken at hw ⊢
  constructor
  · intro hlt
    rw [Nat.mod_eq_of_lt hlt]
    exact Nat.le_add_left _ _
  · intro hle
    by_contra hcarry
    have hwrap : (rest + taken) % scale = rest + taken - scale := by
      rw [Nat.mod_eq_sub_mod (not_lt.mp hcarry), Nat.mod_eq_of_lt (by omega)]
    omega

/-- What an amount takes out is at most a unit too little. -/
theorem shares_le_sub_add_succ (hscale : 0 < scale) {w x : ℕ} (h : w ≤ x) :
    shares scale rate x ≤ shares scale rate (x - w) + shares scale rate w + 1 := by
  have hadd : shares scale rate (x - w + w) ≤ _ := shares_add_le_succ hscale (x - w) w
  rwa [Nat.sub_add_cancel h] at hadd

/-- What separate amounts are entitled to is within what their sum is. -/
theorem sum_shares_le {α : Type*} (t : Finset α) (amount : α → ℕ) :
    ∑ a ∈ t, shares scale rate (amount a) ≤ shares scale rate (∑ a ∈ t, amount a) :=
  sum_le_apply_sum shares_add_le t amount

/-- What the amounts of a list are entitled to one by one is within what they are together, and
short of it by less than a unit for each of them after the first. -/
theorem shares_add_sum_le (a : ℕ) (l : List ℕ) :
    shares scale rate a + (l.map (shares scale rate)).sum ≤ shares scale rate (a + l.sum) := by
  induction l generalizing a with
  | nil => simp
  | cons b l ih =>
      rw [List.map_cons, List.sum_cons, List.sum_cons, ← Nat.add_assoc, ← Nat.add_assoc]
      exact (Nat.add_le_add_right (shares_add_le a b) _).trans (ih (a + b))

theorem shares_add_sum_le_add_length (hscale : 0 < scale) (a : ℕ) (l : List ℕ) :
    shares scale rate (a + l.sum) ≤
      shares scale rate a + (l.map (shares scale rate)).sum + l.length := by
  induction l generalizing a with
  | nil => simp
  | cons b l ih =>
      have hrest := ih (a + b)
      have hone : shares scale rate (a + b) ≤ _ := shares_add_le_succ hscale a b
      rw [List.map_cons, List.sum_cons, List.sum_cons, List.length_cons, ← Nat.add_assoc]
      omega

/-- What is left of an amount of which at least a portion stays is entitled to that portion,
up to a unit. -/
theorem shares_mul_le_of_portion {unit price amount left keep : ℕ} (hunit : 0 < unit)
    (h : amount * keep ≤ left * scale) :
    shares unit price amount * keep ≤ (shares unit price left + 1) * scale := by
  have hamount : shares unit price amount * unit ≤ amount * price := shares_mul_le amount
  have hleft : left * price < (shares unit price left + 1) * unit :=
    Nat.lt_mul_of_div_lt (Nat.lt_succ_self _) hunit
  refine Nat.le_of_mul_le_mul_right ?_ hunit
  calc shares unit price amount * keep * unit
      = shares unit price amount * unit * keep := by ring
    _ ≤ amount * price * keep := Nat.mul_le_mul_right _ hamount
    _ = amount * keep * price := by ring
    _ ≤ left * scale * price := Nat.mul_le_mul_right _ h
    _ = left * price * scale := by ring
    _ ≤ (shares unit price left + 1) * unit * scale := Nat.mul_le_mul_right _ hleft.le
    _ = (shares unit price left + 1) * scale * unit := by ring

/-- A reward that is divided among all the units raises what they are entitled to together
by at most the reward. -/
theorem shares_rate_add_worth_le (hscale : 0 < scale) (supply reward : ℕ) :
    shares scale (rate + worth scale supply reward) supply ≤
      shares scale rate supply + reward := by
  have hreward : supply * worth scale supply reward ≤ reward * scale := by
    rw [Nat.mul_comm]
    exact worth_mul_le reward
  unfold shares
  rw [Nat.mul_add, ← Nat.add_mul_div_right _ _ hscale]
  exact Nat.div_le_div_right (Nat.add_le_add_left hreward _)

end FixedPoint
