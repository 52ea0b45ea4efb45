import Mathlib.Algebra.BigOperators.Group.List.Basic
import Mathlib.Algebra.Order.BigOperators.Group.List
import Mathlib.Algebra.Order.Ring.Nat
import Mathlib.Tactic.Ring
import Mathlib.Tactic.Linarith

/-!
# Proportional payouts

A pool holds several goods, each an amount with its weight and its price. A payout
gives every good in proportion to its share of the pool: the value paid for is
divided by the worth of one average unit, which gives a factor, and every good
pays the factor's share of its amount. All divisions round down.

The worth of a unit is a sum of rounded-down shares and then a divisor, so it
rounds against the pool. Two things are stated here: exactly when no good pays more
than it has, and by how much the value paid out can exceed the value paid for.
-/

namespace Payout

/-- One good of the pool: the amount held, the common units in one of it, and the
price of a common unit. -/
structure Good where
  amount : ℕ
  unit : ℕ
  price : ℕ

/-- The amount held, in common units. -/
def Good.scaled (g : Good) : ℕ := g.amount * g.unit

variable {scale : ℕ} {goods : List Good}

/-- All the pool holds, in common units. -/
def total (goods : List Good) : ℕ := (goods.map Good.scaled).sum

/-- The value of all the pool holds. -/
def value (goods : List Good) : ℕ := (goods.map fun g => g.scaled * g.price).sum

/-- What the shares of the goods round off, over all goods. -/
def roundedOff (total : ℕ) (goods : List Good) : ℕ :=
  (goods.map fun g => g.scaled * g.price % total).sum

/-- The worth of one unit of the mix: the sum of the rounded-down shares. -/
def unitWorth (total : ℕ) (goods : List Good) : ℕ :=
  (goods.map fun g => g.scaled * g.price / total).sum

/-- The largest amount held of one good. -/
def largest (goods : List Good) : ℕ := (goods.map Good.amount).foldr max 0

/-- The factor for an amount to be paid for. -/
def factor (scale total amount : ℕ) (goods : List Good) : ℕ :=
  amount * scale / unitWorth total goods

/-- What one good pays. -/
def pays (total factor : ℕ) (g : Good) : ℕ := g.amount * factor / total

theorem unitWorth_mul_add (t : ℕ) (goods : List Good) :
    unitWorth t goods * t + roundedOff t goods = value goods := by
  induction goods with
  | nil => simp [unitWorth, roundedOff, value]
  | cons g goods ih =>
      have hg : g.scaled * g.price / t * t + g.scaled * g.price % t = g.scaled * g.price := by
        rw [Nat.mul_comm]
        exact Nat.div_add_mod _ _
      simp only [unitWorth, roundedOff, value, List.map_cons, List.sum_cons] at ih ⊢
      rw [Nat.add_mul]
      omega

theorem roundedOff_le {t : ℕ} (ht : 0 < t) (goods : List Good) :
    roundedOff t goods ≤ goods.length * t := by
  induction goods with
  | nil => simp [roundedOff]
  | cons g goods ih =>
      have hg := (Nat.mod_lt (g.scaled * g.price) ht).le
      simp only [roundedOff, List.map_cons, List.sum_cons, List.length_cons] at ih ⊢
      rw [Nat.add_mul]
      omega

theorem value_le_mul {t : ℕ} (ht : 0 < t) (goods : List Good) :
    value goods ≤ t * (unitWorth t goods + goods.length) := by
  have hsplit := unitWorth_mul_add t goods
  have hround := roundedOff_le ht goods
  rw [Nat.mul_add, Nat.mul_comm t, Nat.mul_comm t]
  omega

theorem scale_mul_total_le (hprice : ∀ g ∈ goods, scale ≤ g.price) :
    scale * total goods ≤ value goods := by
  induction goods with
  | nil => simp [total, value]
  | cons g goods ih =>
      have hrest := ih fun x hx => hprice x (List.mem_cons_of_mem _ hx)
      have hg : scale * g.scaled ≤ g.scaled * g.price := by
        rw [Nat.mul_comm]
        exact Nat.mul_le_mul_left _ (hprice g List.mem_cons_self)
      simp only [total, value, List.map_cons, List.sum_cons] at hrest ⊢
      rw [Nat.mul_add]
      omega

/-- Where no price is below the scale, the worth of a unit falls short of the scale
by at most one for each good. -/
theorem scale_le_unitWorth_add (ht : 0 < total goods)
    (hprice : ∀ g ∈ goods, scale ≤ g.price) :
    scale ≤ unitWorth (total goods) goods + goods.length := by
  have hvalue := (scale_mul_total_le hprice).trans (value_le_mul ht goods)
  rw [Nat.mul_comm scale] at hvalue
  exact Nat.le_of_mul_le_mul_left hvalue ht

/-! ## No more than is held -/

/-- A good pays no more than is held of it exactly while the factor exceeds the
total by less than one unit's part. -/
theorem pays_le_iff {t f : ℕ} {g : Good} (ht : 0 < t) (hg : 0 < g.amount) :
    pays t f g ≤ g.amount ↔ f ≤ t + (t - 1) / g.amount := by
  have hsplit : t + (t - 1) / g.amount = (g.amount * t + (t - 1)) / g.amount := by
    rw [Nat.mul_add_div hg]
  rw [hsplit, Nat.le_div_iff_mul_le hg, pays, ← Nat.lt_succ_iff, Nat.succ_eq_add_one,
    Nat.div_lt_iff_lt_mul ht, Nat.add_mul, Nat.mul_comm f]
  omega

theorem amount_le_largest {g : Good} (hg : g ∈ goods) : g.amount ≤ largest goods := by
  induction goods with
  | nil => cases hg
  | cons x goods ih =>
      rcases List.mem_cons.mp hg with rfl | hg
      · exact le_max_left _ _
      · exact (ih hg).trans (le_max_right _ _)

theorem exists_amount_eq_largest (hpos : 0 < largest goods) :
    ∃ g ∈ goods, g.amount = largest goods := by
  induction goods with
  | nil => simp [largest] at hpos
  | cons x goods ih =>
      have hmax : largest (x :: goods) = max x.amount (largest goods) := rfl
      rcases le_total (largest goods) x.amount with hle | hle
      · exact ⟨x, List.mem_cons_self, by rw [hmax, max_eq_left hle]⟩
      · rw [hmax, max_eq_right hle] at hpos ⊢
        obtain ⟨g, hg, heq⟩ := ih hpos
        exact ⟨g, List.mem_cons_of_mem _ hg, heq⟩

/-- A pool of nothing has no largest amount, and its mix is worth nothing. -/
theorem largest_pos_of_unitWorth {t : ℕ} (h : 0 < unitWorth t goods) : 0 < largest goods := by
  by_contra hnone
  have hshare : ∀ r ∈ goods.map fun g => g.scaled * g.price / t, r = 0 := by
    intro r hr
    obtain ⟨g, hg, rfl⟩ := List.mem_map.mp hr
    have hamount : g.amount = 0 := Nat.le_zero.mp ((amount_le_largest hg).trans (not_lt.mp hnone))
    simp [Good.scaled, hamount]
  exact h.ne' (List.sum_eq_zero hshare)

theorem total_pos_of_unitWorth {t : ℕ} (h : 0 < unitWorth t goods) : 0 < t := by
  rcases Nat.eq_zero_or_pos t with rfl | ht
  · simp [unitWorth] at h
  · exact ht

/-- The good held most is the first to pay more than is held. -/
theorem forall_pays_le_iff {t f : ℕ} (ht : 0 < t) (hpos : 0 < largest goods) :
    (∀ g ∈ goods, pays t f g ≤ g.amount) ↔ f ≤ t + (t - 1) / largest goods := by
  constructor
  · intro hall
    obtain ⟨g, hg, heq⟩ := exists_amount_eq_largest hpos
    rw [← heq] at hpos ⊢
    exact (pays_le_iff ht hpos).mp (hall g hg)
  · intro hf g hg
    rcases Nat.eq_zero_or_pos g.amount with hzero | hamount
    · simp [pays, hzero]
    · refine (pays_le_iff ht hamount).mpr (hf.trans (Nat.add_le_add_left ?_ t))
      exact Nat.div_le_div_left (amount_le_largest hg) hamount

/-- The amount to be paid for leaves room for the rounding: no good will pay more
than is held of it. -/
def WithinHoldings (scale amount : ℕ) (goods : List Good) : Prop :=
  amount * scale * total goods <
    (total goods + (total goods - 1) / largest goods + 1) *
      (value goods - roundedOff (total goods) goods)

instance (scale amount : ℕ) (goods : List Good) : Decidable (WithinHoldings scale amount goods) :=
  inferInstanceAs (Decidable (_ < _))

/-- `WithinHoldings` says exactly that no good pays more than is held. -/
theorem withinHoldings_iff {amount : ℕ} (ht : 0 < total goods) (hpos : 0 < largest goods)
    (hworth : 0 < unitWorth (total goods) goods) :
    (∀ g ∈ goods, pays (total goods) (factor scale (total goods) amount goods) g ≤ g.amount) ↔
      WithinHoldings scale amount goods := by
  have hvalue : value goods - roundedOff (total goods) goods =
      unitWorth (total goods) goods * total goods := by
    have hsplit := unitWorth_mul_add (total goods) goods
    omega
  rw [forall_pays_le_iff ht hpos, WithinHoldings, hvalue, ← Nat.mul_assoc,
    Nat.mul_lt_mul_right ht, factor, ← Nat.lt_succ_iff, Nat.succ_eq_add_one,
    Nat.div_lt_iff_lt_mul hworth]

/-! ## The value paid out -/

/-- The value of what the goods pay. -/
def paidValue (t f : ℕ) (goods : List Good) : ℕ :=
  (goods.map fun g => pays t f g * g.unit * g.price).sum

theorem paidValue_mul_le (t f : ℕ) (goods : List Good) :
    paidValue t f goods * t ≤ f * value goods := by
  induction goods with
  | nil => simp [paidValue]
  | cons g goods ih =>
      have hg : pays t f g * g.unit * g.price * t ≤ f * (g.scaled * g.price) := by
        calc pays t f g * g.unit * g.price * t
            = pays t f g * t * (g.unit * g.price) := by ring
          _ ≤ g.amount * f * (g.unit * g.price) :=
              Nat.mul_le_mul_right _ (Nat.div_mul_le_self _ _)
          _ = f * (g.scaled * g.price) := by
              rw [Good.scaled]
              ring
      simp only [paidValue, value, List.map_cons, List.sum_cons] at ih ⊢
      rw [Nat.add_mul, Nat.mul_add]
      omega

/-- The value paid out is within the factor's part of the worth of a unit and of a unit more for
each good. -/
theorem paidValue_le_factor_mul {t : ℕ} (ht : 0 < t) (f : ℕ) (goods : List Good) :
    paidValue t f goods ≤ f * (unitWorth t goods + goods.length) := by
  have hmul := (paidValue_mul_le t f goods).trans (Nat.mul_le_mul_left f (value_le_mul ht goods))
  refine Nat.le_of_mul_le_mul_right (hmul.trans (le_of_eq ?_)) ht
  ring

/-! ## How exact the value is -/

/-- The value of one unit of each good. -/
def unitValue (goods : List Good) : ℕ := (goods.map fun g => g.price * g.unit).sum

/-- What the goods pay falls short of the factor's part of the value by less than a unit of
each. -/
theorem mul_value_le {t : ℕ} (ht : 0 < t) (f : ℕ) (goods : List Good) :
    f * value goods ≤ (paidValue t f goods + unitValue goods) * t := by
  induction goods with
  | nil => simp [value]
  | cons g goods ih =>
      have hpays : g.amount * f ≤ (pays t f g + 1) * t :=
        (Nat.lt_mul_of_div_lt (Nat.lt_succ_self _) ht).le
      have hg : f * (g.scaled * g.price) ≤ (pays t f g * g.unit * g.price + g.price * g.unit) * t :=
        calc f * (g.scaled * g.price)
            = g.amount * f * (g.price * g.unit) := by
              rw [Good.scaled]
              ring
          _ ≤ (pays t f g + 1) * t * (g.price * g.unit) := Nat.mul_le_mul_right _ hpays
          _ = (pays t f g * g.unit * g.price + g.price * g.unit) * t := by ring
      simp only [paidValue, unitValue, value, List.map_cons, List.sum_cons] at ih ⊢
      calc f * (g.scaled * g.price + (goods.map fun g => g.scaled * g.price).sum)
          = f * (g.scaled * g.price) + f * (goods.map fun g => g.scaled * g.price).sum :=
            Nat.mul_add _ _ _
        _ ≤ _ := Nat.add_le_add hg ih
        _ = _ := by ring

/-- The value paid out is at most the amount paid for, and the part of it that the worth of a
unit rounds off. -/
theorem unitWorth_mul_paidValue_le {t : ℕ} (ht : 0 < t) (amount : ℕ) (goods : List Good) :
    unitWorth t goods * paidValue t (factor scale t amount goods) goods ≤
      amount * scale * (unitWorth t goods + goods.length) := by
  have hfactor : factor scale t amount goods * unitWorth t goods ≤ amount * scale :=
    Nat.div_mul_le_self _ _
  calc unitWorth t goods * paidValue t (factor scale t amount goods) goods
      ≤ unitWorth t goods *
          (factor scale t amount goods * (unitWorth t goods + goods.length)) :=
        Nat.mul_le_mul_left _ (paidValue_le_factor_mul ht _ goods)
    _ = factor scale t amount goods * unitWorth t goods *
          (unitWorth t goods + goods.length) := by ring
    _ ≤ amount * scale * (unitWorth t goods + goods.length) := Nat.mul_le_mul_right _ hfactor

/-- A relative excess of `n / worth` is no more than one of `n / (scale - n)` where the worth is at
least `scale - n`. -/
theorem mul_sub_le_of_mul_le {worth paid amount n : ℕ} (hworth : 0 < worth)
    (hscale : scale ≤ worth + n) (hpaid : worth * paid ≤ amount * (worth + n)) :
    paid * (scale - n) ≤ amount * scale := by
  rcases le_total scale n with hle | hle
  · rw [Nat.sub_eq_zero_of_le hle, Nat.mul_zero]
    exact Nat.zero_le _
  have hrelative : (worth + n) * (scale - n) ≤ scale * worth :=
    calc (worth + n) * (scale - n)
        = worth * (scale - n) + n * (scale - n) := Nat.add_mul _ _ _
      _ ≤ worth * (scale - n) + n * worth :=
          Nat.add_le_add_left (Nat.mul_le_mul_left _ (by omega)) _
      _ = (scale - n + n) * worth := by ring
      _ = scale * worth := by rw [Nat.sub_add_cancel hle]
  refine Nat.le_of_mul_le_mul_left ?_ hworth
  calc worth * (paid * (scale - n))
      = worth * paid * (scale - n) := (Nat.mul_assoc _ _ _).symm
    _ ≤ amount * (worth + n) * (scale - n) := Nat.mul_le_mul_right _ hpaid
    _ = amount * ((worth + n) * (scale - n)) := Nat.mul_assoc _ _ _
    _ ≤ amount * (scale * worth) := Nat.mul_le_mul_left _ hrelative
    _ = worth * (amount * scale) := by ring

/-- The value paid out exceeds the amount paid for by at most a relative
`n / (scale - n)`, for `n` goods. -/
theorem paidValue_le (amount : ℕ) (ht : 0 < total goods)
    (hworth : 0 < unitWorth (total goods) goods)
    (hprice : ∀ g ∈ goods, scale ≤ g.price) :
    paidValue (total goods) (factor scale (total goods) amount goods) goods *
        (scale - goods.length) ≤ amount * scale * scale :=
  mul_sub_le_of_mul_le hworth (scale_le_unitWorth_add ht hprice)
    (unitWorth_mul_paidValue_le ht amount goods)

/-- The value paid out falls short of the amount paid for by at most the worth of a unit, which
the factor rounds off, and a unit of each good. -/
theorem amount_le_paidValue_add {t : ℕ} (hworth : 0 < unitWorth t goods) (amount : ℕ) :
    amount * scale ≤ paidValue t (factor scale t amount goods) goods +
      unitWorth t goods + unitValue goods := by
  have ht := total_pos_of_unitWorth hworth
  have hfactor : amount * scale < (factor scale t amount goods + 1) * unitWorth t goods :=
    Nat.lt_mul_of_div_lt (Nat.lt_succ_self _) hworth
  have hshare : unitWorth t goods * t ≤ value goods :=
    (Nat.le_add_right _ _).trans (unitWorth_mul_add t goods).le
  have hpaid : factor scale t amount goods * unitWorth t goods ≤
      paidValue t (factor scale t amount goods) goods + unitValue goods := by
    refine Nat.le_of_mul_le_mul_right ?_ ht
    rw [Nat.mul_assoc]
    exact (Nat.mul_le_mul_left _ hshare).trans (mul_value_le ht _ goods)
  rw [Nat.add_mul, Nat.one_mul] at hfactor
  omega

end Payout
