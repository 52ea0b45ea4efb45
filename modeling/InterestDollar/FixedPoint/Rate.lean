import Mathlib.Algebra.Order.BigOperators.Group.Finset
import Mathlib.Algebra.Order.Floor.Div
import Mathlib.Algebra.BigOperators.Ring.Finset
import Mathlib.Algebra.Order.Ring.Nat
import Mathlib.Tactic.Ring
import Mathlib.Tactic.Linarith

/-!
# Shares at a rate

A holding is kept as a number of shares, and a rate says how many shares one
unit stands for, as a fixed-point number over a scale. `shares` turns an amount
into shares and `worth` turns shares back into an amount; both round down.

Rounding down twice can give the holder something for nothing: taking an amount
out removes the rounded-down shares, so the worth left may fall by less than the
amount. `TakesInFull` is the exact condition under which it does not. What either
rounding loses is worth no more than one share, rounded up: `scale ⌈/⌉ rate`.
-/

namespace FixedPoint

/-- The shares an amount stands for, rounded down. -/
def shares (scale rate amount : ℕ) : ℕ := amount * rate / scale

/-- What a number of shares is worth, rounded down. -/
def worth (scale rate k : ℕ) : ℕ := k * scale / rate

variable {scale rate : ℕ}

@[simp] theorem worth_zero : worth scale rate 0 = 0 := by simp [worth]

theorem worth_mono {k l : ℕ} (h : k ≤ l) : worth scale rate k ≤ worth scale rate l :=
  Nat.div_le_div_right (Nat.mul_le_mul_right _ h)

/-- A ratio of at most one. -/
theorem worth_le_scale {k : ℕ} (h : k ≤ rate) : worth scale rate k ≤ scale :=
  Nat.div_le_of_le_mul (Nat.mul_le_mul_right _ h)

theorem worth_mul_le (k : ℕ) : worth scale rate k * rate ≤ k * scale :=
  Nat.div_mul_le_self _ _

theorem lt_worth_succ_mul (hrate : 0 < rate) (k : ℕ) :
    k * scale < (worth scale rate k + 1) * rate :=
  Nat.lt_mul_of_div_lt (Nat.lt_succ_self _) hrate

theorem shares_mul_le (v : ℕ) : shares scale rate v * scale ≤ v * rate :=
  Nat.div_mul_le_self _ _

/-- The worth of two holdings kept apart is at most their worth together. -/
theorem worth_add_le (k l : ℕ) :
    worth scale rate k + worth scale rate l ≤ worth scale rate (k + l) := by
  unfold worth
  rw [Nat.add_mul]
  exact Nat.div_add_div_le_add_div

/-- Keeping two holdings apart costs at most a unit. -/
theorem worth_add_le_succ (k l : ℕ) :
    worth scale rate (k + l) ≤ worth scale rate k + worth scale rate l + 1 := by
  rcases Nat.eq_zero_or_pos rate with rfl | hrate
  · simp [worth]
  have hk : k * scale < (worth scale rate k + 1) * rate := lt_worth_succ_mul hrate k
  have hl : l * scale < (worth scale rate l + 1) * rate := lt_worth_succ_mul hrate l
  refine Nat.le_of_lt_succ ((Nat.div_lt_iff_lt_mul hrate).mpr ?_)
  calc (k + l) * scale
      = k * scale + l * scale := Nat.add_mul _ _ _
    _ < (worth scale rate k + 1) * rate + (worth scale rate l + 1) * rate := Nat.add_lt_add hk hl
    _ = (worth scale rate k + worth scale rate l + 1 + 1) * rate := by ring

/-- Adding the shares of an amount raises the worth by at most that amount. -/
theorem worth_add_shares_le (hrate : 0 < rate) (k v : ℕ) :
    worth scale rate (k + shares scale rate v) ≤ worth scale rate k + v := by
  have hv : shares scale rate v * scale ≤ v * rate := shares_mul_le v
  have hk : k * scale < (worth scale rate k + 1) * rate := lt_worth_succ_mul hrate k
  have hlt : (k + shares scale rate v) * scale < (worth scale rate k + v + 1) * rate := by
    nlinarith
  exact Nat.le_of_lt_succ ((Nat.div_lt_iff_lt_mul hrate).mpr hlt)

/-- An amount within the worth of a holding never needs more shares than it has. -/
theorem shares_le_of_le_worth {k v : ℕ} (h : v ≤ worth scale rate k) :
    shares scale rate v ≤ k := by
  have hv : v * rate ≤ k * scale := (Nat.mul_le_mul_right _ h).trans (worth_mul_le k)
  exact Nat.div_le_of_le_mul (by rwa [Nat.mul_comm scale k])

/-- Taking `v` out of a holding of `k` shares takes all of it: what the worth of
the holding rounds off and what the shares of the amount round off do not add up
to another unit. -/
def TakesInFull (scale rate k v : ℕ) : Prop :=
  k * scale % rate + v * rate % scale < rate

instance (scale rate k v : ℕ) : Decidable (TakesInFull scale rate k v) :=
  inferInstanceAs (Decidable (_ < _))

/-- The worth left after the shares of `v` are taken, with the two rounded-off
parts carried along. -/
theorem sub_shares_mul {k v : ℕ} (h : shares scale rate v ≤ k) :
    (k - shares scale rate v) * scale + v * rate =
      worth scale rate k * rate + (k * scale % rate + v * rate % scale) := by
  have hk : worth scale rate k * rate + k * scale % rate = k * scale := by
    rw [Nat.mul_comm]; exact Nat.div_add_mod _ _
  have hv : shares scale rate v * scale + v * rate % scale = v * rate := by
    rw [Nat.mul_comm]; exact Nat.div_add_mod _ _
  have hsub : (k - shares scale rate v) * scale + shares scale rate v * scale = k * scale := by
    rw [← Nat.add_mul, Nat.sub_add_cancel h]
  omega

/-- Where the amount is taken in full the worth falls by exactly the amount. -/
theorem TakesInFull.worth_sub {k v : ℕ} (hfull : TakesInFull scale rate k v)
    (h : shares scale rate v ≤ k) :
    worth scale rate (k - shares scale rate v) + v = worth scale rate k := by
  have hrate : 0 < rate := lt_of_le_of_lt (Nat.zero_le _) hfull
  have hsum := sub_shares_mul h
  have hvle : v ≤ worth scale rate k := by
    by_contra hlt
    have hmul : (worth scale rate k + 1) * rate ≤ v * rate := Nat.mul_le_mul_right _ (by omega)
    unfold TakesInFull at hfull
    rw [Nat.add_mul] at hmul
    omega
  obtain ⟨b, hb⟩ := Nat.exists_eq_add_of_le hvle
  have hleft : (k - shares scale rate v) * scale =
      b * rate + (k * scale % rate + v * rate % scale) := by
    rw [hb, Nat.add_mul] at hsum
    omega
  have hworth : worth scale rate (k - shares scale rate v) = b := by
    unfold worth
    rw [hleft, Nat.mul_comm b rate, Nat.mul_add_div hrate, Nat.div_eq_of_lt hfull, Nat.add_zero]
  omega

/-- `TakesInFull` says exactly that the worth falls by the amount. -/
theorem takesInFull_iff {k v : ℕ} (hrate : 0 < rate) (h : shares scale rate v ≤ k) :
    TakesInFull scale rate k v ↔
      worth scale rate (k - shares scale rate v) + v = worth scale rate k := by
  refine ⟨fun hfull => hfull.worth_sub h, fun hworth => ?_⟩
  have hsum := sub_shares_mul h
  have hlt : (k - shares scale rate v) * scale <
      (worth scale rate (k - shares scale rate v) + 1) * rate := lt_worth_succ_mul hrate _
  rw [← hworth] at hsum
  unfold TakesInFull
  nlinarith

/-- The amount is within the worth of one share more than it stands for. -/
theorem le_worth_shares_succ (hscale : 0 < scale) (hrate : 0 < rate) (v : ℕ) :
    v ≤ worth scale rate (shares scale rate v + 1) := by
  have hlt : v * rate < (shares scale rate v + 1) * scale :=
    Nat.lt_mul_of_div_lt (Nat.lt_succ_self _) hscale
  exact (Nat.le_div_iff_mul_le hrate).mpr hlt.le

/-- Adding shares raises the worth by at most `b`, said of what is rounded off. -/
theorem worth_add_le_iff {k l b : ℕ} (hrate : 0 < rate) :
    worth scale rate (k + l) ≤ worth scale rate k + b ↔
      k * scale % rate + l * scale < (b + 1) * rate := by
  have hk : worth scale rate k * rate + k * scale % rate = k * scale := by
    rw [Nat.mul_comm]
    exact Nat.div_add_mod _ _
  have hsplit : (worth scale rate k + b + 1) * rate =
      worth scale rate k * rate + (b + 1) * rate := by ring
  rw [← Nat.lt_succ_iff, Nat.succ_eq_add_one, worth, Nat.div_lt_iff_lt_mul hrate, hsplit,
    Nat.add_mul]
  omega

/-- A rate at which the shares are worth more than they are now is no higher. -/
theorem rate_le_of_worth_lt {k tokens : ℕ} (hrate : 0 < rate)
    (h : worth scale rate k < tokens) : worth scale tokens k ≤ rate := by
  have hlt : k * scale < (worth scale rate k + 1) * rate := lt_worth_succ_mul hrate k
  have hle : (worth scale rate k + 1) * rate ≤ tokens * rate := Nat.mul_le_mul_right _ h
  exact Nat.div_le_of_le_mul (hlt.le.trans hle)

/-- The worth of shares at the rate at which they should be worth `tokens` is less
than twice that: the rate is rounded down, but not to zero. -/
theorem worth_at_rate_lt {k tokens : ℕ} (hpos : 0 < worth scale tokens k) :
    worth scale (worth scale tokens k) k < 2 * tokens := by
  have htokens : 0 < tokens := by
    rcases Nat.eq_zero_or_pos tokens with rfl | h
    · simp [worth] at hpos
    · exact h
  have hlt : k * scale < (worth scale tokens k + 1) * tokens := lt_worth_succ_mul htokens k
  refine (Nat.div_lt_iff_lt_mul hpos).mpr (hlt.trans_le ?_)
  calc (worth scale tokens k + 1) * tokens
      ≤ (worth scale tokens k + worth scale tokens k) * tokens :=
        Nat.mul_le_mul_right _ (Nat.add_le_add_left hpos _)
    _ = 2 * tokens * worth scale tokens k := by ring

/-- A whole rate at which the shares are worth at least `tokens` and at most `bound`. -/
def RateBetween (scale tokens bound k : ℕ) : Prop :=
  ∃ rate, rate * tokens ≤ k * scale ∧ k * scale < rate * (bound + 1)

theorem rateBetween_iff {tokens bound k : ℕ} (htokens : 0 < tokens) :
    RateBetween scale tokens bound k ↔ k * scale / (bound + 1) < k * scale / tokens := by
  constructor
  · intro ⟨rate, hle, hlt⟩
    have hhigh : rate ≤ k * scale / tokens := (Nat.le_div_iff_mul_le htokens).mpr hle
    exact ((Nat.div_lt_iff_lt_mul (Nat.succ_pos bound)).mpr hlt).trans_le hhigh
  · intro hlt
    refine ⟨k * scale / tokens, Nat.div_mul_le_self _ _, ?_⟩
    exact (Nat.div_lt_iff_lt_mul (Nat.succ_pos bound)).mp hlt

instance (scale tokens bound k : ℕ) : Decidable (RateBetween scale tokens bound k) :=
  if htokens : 0 < tokens then decidable_of_iff _ (rateBetween_iff htokens).symm
  else .isTrue ⟨k * scale + 1, by
    rw [Nat.eq_zero_of_not_pos htokens]
    exact ⟨Nat.zero_le _, Nat.lt_of_lt_of_le (Nat.lt_succ_self _) (Nat.le_mul_of_pos_right _
      (Nat.succ_pos bound))⟩⟩

/-- At the rate at which the shares should be worth `tokens`, rounded down, they are worth at
most `bound` exactly where some whole rate lies between the two. -/
theorem worth_at_rate_le_iff {tokens bound k : ℕ} (hpos : 0 < worth scale tokens k) :
    worth scale (worth scale tokens k) k ≤ bound ↔ RateBetween scale tokens bound k := by
  have htokens : 0 < tokens := by
    rcases Nat.eq_zero_or_pos tokens with rfl | h
    · simp [worth] at hpos
    · exact h
  rw [rateBetween_iff htokens, ← Nat.lt_succ_iff, worth, Nat.div_lt_iff_lt_mul hpos,
    Nat.div_lt_iff_lt_mul (Nat.succ_pos bound), Nat.mul_comm bound.succ]
  rfl

/-- Carrying shares from one rate to another never raises what they are worth. -/
theorem worth_convert_le {rate' : ℕ} (hrate : 0 < rate) (hrate' : 0 < rate') (k : ℕ) :
    worth scale rate' (k * rate' / rate) ≤ worth scale rate k := by
  have hdiv : k * rate' / rate * rate ≤ k * rate' := Nat.div_mul_le_self _ _
  unfold worth
  rw [Nat.le_div_iff_mul_le hrate]
  apply Nat.le_of_mul_le_mul_right _ hrate'
  calc k * rate' / rate * scale / rate' * rate * rate'
      = k * rate' / rate * scale / rate' * rate' * rate := by ring
    _ ≤ k * rate' / rate * scale * rate :=
        Nat.mul_le_mul_right _ (Nat.div_mul_le_self _ _)
    _ = k * rate' / rate * rate * scale := by ring
    _ ≤ k * rate' * scale := Nat.mul_le_mul_right _ hdiv
    _ = k * scale * rate' := by ring

/-- A lower rate makes every holding worth at least as much. -/
theorem worth_le_of_rate_le {rate' k : ℕ} (hrate' : 0 < rate') (h : rate' ≤ rate) :
    worth scale rate k ≤ worth scale rate' k :=
  Nat.div_le_div_left h hrate'

/-- What is rounded for two amounts apart is rounded for any number of them. -/
theorem sum_le_apply_sum {α : Type*} {f : ℕ → ℕ} (hadd : ∀ k l, f k + f l ≤ f (k + l))
    (t : Finset α) (k : α → ℕ) : ∑ a ∈ t, f (k a) ≤ f (∑ a ∈ t, k a) := by
  classical
  induction t using Finset.induction_on with
  | empty => simp
  | insert a t ha ih =>
      rw [Finset.sum_insert ha, Finset.sum_insert ha]
      exact (Nat.add_le_add_left ih _).trans (hadd _ _)

/-- The worths of separate holdings add up to at most the worth of all the
shares together. -/
theorem sum_worth_le {α : Type*} (t : Finset α) (k : α → ℕ) :
    ∑ a ∈ t, worth scale rate (k a) ≤ worth scale rate (∑ a ∈ t, k a) :=
  sum_le_apply_sum worth_add_le t k

/-! ## What a rounding loses -/

/-- Adding shares raises the worth by at most what they are worth, rounded up. -/
theorem worth_add_le_ceil (hrate : 0 < rate) (k l : ℕ) :
    worth scale rate (k + l) ≤ worth scale rate k + l * scale ⌈/⌉ rate := by
  have hk : k * scale < (worth scale rate k + 1) * rate := lt_worth_succ_mul hrate k
  have hl : l * scale ≤ rate * (l * scale ⌈/⌉ rate) := le_smul_ceilDiv hrate
  refine Nat.le_of_lt_succ ((Nat.div_lt_iff_lt_mul hrate).mpr ?_)
  calc (k + l) * scale = k * scale + l * scale := Nat.add_mul _ _ _
    _ < (worth scale rate k + 1) * rate + rate * (l * scale ⌈/⌉ rate) :=
        Nat.add_lt_add_of_lt_of_le hk hl
    _ = (worth scale rate k + l * scale ⌈/⌉ rate).succ * rate := by
        rw [Nat.succ_eq_add_one]
        ring

theorem worth_succ_le_ceil (hrate : 0 < rate) (k : ℕ) :
    worth scale rate (k + 1) ≤ worth scale rate k + scale ⌈/⌉ rate := by
  have hone : worth scale rate (k + 1) ≤ _ := worth_add_le_ceil hrate k 1
  rwa [Nat.one_mul] at hone

/-- Adding the shares of an amount raises the worth by the amount, short of a share. -/
theorem worth_add_le_add_shares (hscale : 0 < scale) (hrate : 0 < rate) (k v : ℕ) :
    worth scale rate k + v ≤ worth scale rate (k + shares scale rate v) + scale ⌈/⌉ rate :=
  calc worth scale rate k + v
      ≤ worth scale rate k + worth scale rate (shares scale rate v + 1) :=
        Nat.add_le_add_left (le_worth_shares_succ hscale hrate v) _
    _ ≤ worth scale rate (k + shares scale rate v + 1) := worth_add_le _ _
    _ ≤ worth scale rate (k + shares scale rate v) + scale ⌈/⌉ rate :=
        worth_succ_le_ceil hrate _

/-- Taking the shares of an amount lowers the worth by at most the amount. -/
theorem worth_le_sub_shares_add (hrate : 0 < rate) {k v : ℕ} (h : shares scale rate v ≤ k) :
    worth scale rate k ≤ worth scale rate (k - shares scale rate v) + v := by
  have hadd : worth scale rate (k - shares scale rate v + shares scale rate v) ≤ _ :=
    worth_add_shares_le hrate _ v
  rwa [Nat.sub_add_cancel h] at hadd

/-- Taking the shares of an amount lowers the worth by the amount, short of a share. -/
theorem worth_sub_shares_add_le (hscale : 0 < scale) (hrate : 0 < rate) {k v : ℕ}
    (h : shares scale rate v ≤ k) :
    worth scale rate (k - shares scale rate v) + v ≤ worth scale rate k + scale ⌈/⌉ rate := by
  have hadd := worth_add_le_add_shares hscale hrate (k - shares scale rate v) v
  rwa [Nat.sub_add_cancel h] at hadd

/-- At a rate up to the scale, the worth of a holding stands for all of its shares, or all
but one. -/
theorem le_shares_worth_succ (hscale : 0 < scale) (hrate : 0 < rate) (h : rate ≤ scale) (k : ℕ) :
    k ≤ shares scale rate (worth scale rate k) + 1 := by
  have hk : k * scale < (worth scale rate k + 1) * rate := lt_worth_succ_mul hrate k
  rw [← Nat.sub_le_iff_le_add, shares, Nat.le_div_iff_mul_le hscale, Nat.sub_mul]
  rw [Nat.add_mul] at hk
  omega

/-- Above the scale a share is worth at most one, rounded up. -/
theorem ceil_share_le_one (h : scale ≤ rate) : scale ⌈/⌉ rate ≤ 1 := by
  rcases Nat.eq_zero_or_pos rate with rfl | hrate
  · simp
  · exact (ceilDiv_le_iff_le_mul hrate).mpr (by simpa using h)

/-- Carrying shares from one rate to another loses no more than a share at the new rate. -/
theorem worth_le_convert (hrate : 0 < rate) {rate' : ℕ} (hrate' : 0 < rate') (k : ℕ) :
    worth scale rate k ≤ worth scale rate' (k * rate' / rate) + scale ⌈/⌉ rate' := by
  refine le_trans ?_ (worth_succ_le_ceil hrate' _)
  have hk : worth scale rate k * rate ≤ k * scale := worth_mul_le k
  have hconv : k * rate' < (k * rate' / rate + 1) * rate :=
    Nat.lt_mul_of_div_lt (Nat.lt_succ_self _) hrate
  rw [worth, worth, Nat.le_div_iff_mul_le hrate']
  refine Nat.le_of_mul_le_mul_right ?_ hrate
  calc k * scale / rate * rate' * rate = worth scale rate k * rate * rate' := by
        rw [worth]
        ring
    _ ≤ k * scale * rate' := Nat.mul_le_mul_right _ hk
    _ = k * rate' * scale := by ring
    _ ≤ (k * rate' / rate + 1) * rate * scale := Nat.mul_le_mul_right _ hconv.le
    _ = (k * rate' / rate + 1) * scale * rate := by ring

/-- The worth of shares at the rate at which they should be worth `tokens` is at least that,
and over it by at most a part of `tokens` for each step the rate was rounded to. -/
theorem worth_at_rate_bounds {k tokens : ℕ} (hpos : 0 < worth scale tokens k) :
    tokens ≤ worth scale (worth scale tokens k) k ∧
      worth scale (worth scale tokens k) k ≤ tokens + tokens / worth scale tokens k := by
  have htokens : 0 < tokens := by
    rcases Nat.eq_zero_or_pos tokens with rfl | h
    · simp [worth] at hpos
    · exact h
  constructor
  · rw [worth, Nat.le_div_iff_mul_le hpos, Nat.mul_comm]
    exact worth_mul_le k
  · have hlt : k * scale < (worth scale tokens k + 1) * tokens := lt_worth_succ_mul htokens k
    have hrest : tokens < (tokens / worth scale tokens k + 1) * worth scale tokens k :=
      Nat.lt_mul_of_div_lt (Nat.lt_succ_self _) hpos
    refine Nat.le_of_lt_succ ((Nat.div_lt_iff_lt_mul hpos).mpr (hlt.trans_le ?_))
    calc (worth scale tokens k + 1) * tokens
        = tokens * worth scale tokens k + tokens := by ring
      _ ≤ tokens * worth scale tokens k +
          (tokens / worth scale tokens k + 1) * worth scale tokens k :=
          Nat.add_le_add_left hrest.le _
      _ = (tokens + tokens / worth scale tokens k).succ * worth scale tokens k := by
          rw [Nat.succ_eq_add_one]
          ring

/-- Two holdings keep their proportion when the rate changes, as far as the worths are rounded. -/
theorem worth_mul_worth_lt {rate' : ℕ} (hrate : 0 < rate) (hrate' : 0 < rate') (k l : ℕ) :
    worth scale rate' k * worth scale rate l <
      (worth scale rate k + 1) * (worth scale rate' l + 1) := by
  refine Nat.lt_of_mul_lt_mul_right (a := rate' * rate) ?_
  calc worth scale rate' k * worth scale rate l * (rate' * rate)
      = worth scale rate' k * rate' * (worth scale rate l * rate) := by ring
    _ ≤ k * scale * (l * scale) := Nat.mul_le_mul (worth_mul_le k) (worth_mul_le l)
    _ < (worth scale rate k + 1) * rate * ((worth scale rate' l + 1) * rate') :=
        Nat.mul_lt_mul'' (lt_worth_succ_mul hrate k) (lt_worth_succ_mul hrate' l)
    _ = (worth scale rate k + 1) * (worth scale rate' l + 1) * (rate' * rate) := by ring

end FixedPoint
