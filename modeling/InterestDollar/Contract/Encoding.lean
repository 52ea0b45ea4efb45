import InterestDollar.Contract.Basic

/-!
# Numbers as bytes

What is hashed is a list of bytes, put together from numbers of a fixed width, most
significant byte first. Two encodings of one width are the same only for the same number,
as far as the width reaches.
-/

namespace InterestDollar

abbrev Bytes32 : Type := BitVec 256

/-- The lowest bytes of a number, most significant first. -/
def bytes : (count : ℕ) → ℕ → List UInt8
  | 0, _ => []
  | count + 1, n => bytes count (n / 256) ++ [UInt8.ofNat n]

@[simp] theorem bytes_length (count n : ℕ) : (bytes count n).length = count := by
  induction count generalizing n with
  | zero => rfl
  | succ count ih => rw [bytes, List.length_append, ih, List.length_singleton]

theorem bytes_inj {count m n : ℕ} (hm : m < 256 ^ count) (hn : n < 256 ^ count)
    (h : bytes count m = bytes count n) : m = n := by
  induction count generalizing m n with
  | zero => omega
  | succ count ih =>
      rw [bytes, bytes] at h
      obtain ⟨hhigh, hlow⟩ := List.append_inj' h rfl
      rw [pow_succ] at hm hn
      have hdiv : m / 256 = n / 256 :=
        ih (Nat.div_lt_of_lt_mul (by omega)) (Nat.div_lt_of_lt_mul (by omega)) hhigh
      have hmod : m % 256 = n % 256 := by
        have hbyte := congrArg UInt8.toNat (List.singleton_inj.mp hlow)
        simpa using hbyte
      omega

/-- A word takes 32 bytes. -/
theorem word_inj {m n : ℕ} (hm : m < wordBound) (hn : n < wordBound)
    (h : bytes 32 m = bytes 32 n) : m = n := by
  have hwidth : 256 ^ 32 = wordBound := rfl
  exact bytes_inj (hwidth ▸ hm) (hwidth ▸ hn) h

/-- An address takes 20 bytes. -/
theorem address_inj {a b : Address} (h : bytes 20 a.toNat = bytes 20 b.toNat) : a = b := by
  have hwidth : 256 ^ 20 = 2 ^ 160 := rfl
  have hbound : ∀ x : Address, x.toNat < 256 ^ 20 := fun x => hwidth ▸ Fin.isLt x
  exact Fin.ext (bytes_inj (hbound a) (hbound b) h)

theorem bytes32_inj {a b : Bytes32} (h : bytes 32 a.toNat = bytes 32 b.toNat) : a = b :=
  BitVec.eq_of_toNat_eq (word_inj a.isLt b.isLt h)

end InterestDollar
