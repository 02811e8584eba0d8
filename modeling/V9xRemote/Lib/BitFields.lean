import Mathlib.Algebra.Order.Ring.Nat
import Mathlib.Data.Nat.Bitwise

/-!
# Fields of a word

A field is `k` bits of a word from bit `s` on; its mask is `(2 ^ k - 1) <<< s`. A value that
fits a field is read back from a word whose other bits lie outside the field (`read_field`).
-/

namespace BitFields

variable {k s v other : ℕ}

/-- A value that fits a field has no bit outside its mask. -/
theorem and_field_eq_zero (hv : v < 2 ^ k) {mask : ℕ} (h : mask &&& ((2 ^ k - 1) <<< s) = 0) : mask &&& (v <<< s) = 0 := by
  apply Nat.eq_of_testBit_eq
  intro i
  have hbit := congrArg (fun n => n.testBit i) h
  simp only [Nat.testBit_and, Nat.testBit_shiftLeft, Nat.testBit_two_pow_sub_one, Nat.zero_testBit] at hbit ⊢
  by_cases hi : s ≤ i
  · by_cases hk : i - s < k
    · simp only [hi, hk, decide_true, Bool.and_true] at hbit ⊢
      rw [hbit, Bool.false_and]
    · -- beyond the field the value has no bits
      have hhigh : v.testBit (i - s) = false :=
        Nat.testBit_lt_two_pow (lt_of_lt_of_le hv (Nat.pow_le_pow_right (by omega) (by omega)))
      rw [hhigh, Bool.and_false, Bool.and_false]
  · simp [hi]

/-- **A field is read back**, whatever the other fields hold. -/
theorem read_field (hv : v < 2 ^ k) (hother : ((2 ^ k - 1) <<< s) &&& other = 0) :
    ((v <<< s ||| other) >>> s) &&& (2 ^ k - 1) = v := by
  apply Nat.eq_of_testBit_eq
  intro i
  have hbit := congrArg (fun n => n.testBit (s + i)) hother
  simp only [Nat.testBit_and, Nat.testBit_shiftLeft, Nat.testBit_two_pow_sub_one, Nat.zero_testBit, Nat.le_add_right,
    decide_true, Bool.true_and, Nat.add_sub_cancel_left] at hbit
  simp only [Nat.testBit_and, Nat.testBit_shiftRight, Nat.testBit_or, Nat.testBit_shiftLeft, Nat.testBit_two_pow_sub_one,
    Nat.le_add_right, decide_true, Bool.true_and, Nat.add_sub_cancel_left]
  by_cases hk : i < k
  · simp only [hk, decide_true, Bool.true_and] at hbit
    simp [hk, hbit]
  · have hhigh : v.testBit i = false :=
      Nat.testBit_lt_two_pow (lt_of_lt_of_le hv (Nat.pow_le_pow_right (by omega) (by omega)))
    simp [hk, hhigh]

end BitFields
