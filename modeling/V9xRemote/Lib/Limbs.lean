import Mathlib.Data.Nat.Digits.Lemmas
import V9xRemote.Lib.Bytes

/-!
# Numbers as limbs of radix 256

The value of a list of 32-bit limbs, lowest first, and of a string of bytes. Limbs may be larger
than a byte, so a number has many lists; of bytes it has one of each length.
-/

namespace Limbs

open Bytes

/-! ## Limbs -/

def limbValue (limbs : List UInt32) : ℕ := Nat.ofDigits 256 (limbs.map UInt32.toNat)

@[simp] theorem limbValue_nil : limbValue [] = 0 := rfl

@[simp] theorem limbValue_cons (x : UInt32) (limbs : List UInt32) :
    limbValue (x :: limbs) = x.toNat + 256 * limbValue limbs := by
  unfold limbValue
  rw [List.map_cons, Nat.ofDigits_cons]

theorem limbValue_append (a b : List UInt32) : limbValue (a ++ b) = limbValue a + 256 ^ a.length * limbValue b := by
  unfold limbValue
  rw [List.map_append, Nat.ofDigits_append, List.length_map]

theorem limbValue_zeros (n : ℕ) : limbValue (List.replicate n 0) = 0 := by
  induction n with
  | zero => rfl
  | succ n ih => rw [List.replicate_succ, limbValue_cons, ih]; rfl

/-- A number whose limbs are bytes. -/
theorem limbValue_lt {limbs : List UInt32} (h : ∀ x ∈ limbs, x.toNat < 256) : limbValue limbs < 256 ^ limbs.length := by
  induction limbs with
  | nil => exact Nat.one_pos
  | cons x limbs ih =>
    have hx := h x List.mem_cons_self
    have hrest := ih fun y hy => h y (List.mem_cons_of_mem _ hy)
    rw [limbValue_cons, List.length_cons, pow_succ]
    omega

/-! ## Bytes -/

def leNat (s : Bytes) : ℕ := Nat.ofDigits 256 (s.map UInt8.toNat)

@[simp] theorem leNat_nil : leNat [] = 0 := rfl

@[simp] theorem leNat_cons (x : UInt8) (s : Bytes) : leNat (x :: s) = x.toNat + 256 * leNat s := by
  unfold leNat
  rw [List.map_cons, Nat.ofDigits_cons]

theorem leNat_append (a b : Bytes) : leNat (a ++ b) = leNat a + 256 ^ a.length * leNat b := by
  unfold leNat
  rw [List.map_append, Nat.ofDigits_append, List.length_map]

theorem leNat_lt (s : Bytes) : leNat s < 256 ^ s.length := by
  induction s with
  | nil => exact Nat.one_pos
  | cons x s ih =>
    have hx := x.toNat_lt
    rw [leNat_cons, List.length_cons, pow_succ]
    omega

/-- **A number has one string of each length.** -/
theorem leNat_inj {a b : Bytes} (hlength : a.length = b.length) (h : leNat a = leNat b) : a = b := by
  induction a generalizing b with
  | nil => exact (List.length_eq_zero_iff.1 hlength.symm).symm
  | cons x a ih =>
    obtain - | ⟨y, b⟩ := b
    · exact absurd hlength (by simp)
    · have hx := x.toNat_lt
      have hy := y.toNat_lt
      rw [leNat_cons, leNat_cons] at h
      have hhead : x.toNat = y.toNat := by omega
      have htail : leNat a = leNat b := by omega
      rw [UInt8.toNat_inj.1 hhead, ih (by simpa using hlength) htail]

/-- The limbs of a string. -/
theorem limbValue_bytes (s : Bytes) : limbValue (s.map UInt8.toUInt32) = leNat s := by
  induction s with
  | nil => rfl
  | cons x s ih => rw [List.map_cons, limbValue_cons, leNat_cons, ih, UInt8.toNat_toUInt32]

/-- A bit of a string of bytes. -/
def byteBit (s : Bytes) (i : ℕ) : Bool := ((s.at' (i / 8)).toNat >>> (i % 8)) % 2 == 1

theorem byteBit_eq (s : Bytes) (i : ℕ) : (byteBit s i).toNat = leNat s / 2 ^ i % 2 := by
  induction s generalizing i with
  | nil =>
    have hzero : Bytes.at' [] (i / 8) = 0 := rfl
    rw [byteBit, hzero, leNat_nil, Nat.zero_div]
    simp
  | cons x s ih =>
    have hx := x.toNat_lt
    rw [leNat_cons]
    by_cases hi : i < 8
    · -- a bit of the first byte
      have hat : Bytes.at' (x :: s) (i / 8) = x := by rw [Nat.div_eq_of_lt hi]; rfl
      rw [byteBit, hat, Nat.mod_eq_of_lt hi, Nat.shiftRight_eq_div_pow]
      have hcases : i = 0 ∨ i = 1 ∨ i = 2 ∨ i = 3 ∨ i = 4 ∨ i = 5 ∨ i = 6 ∨ i = 7 := by omega
      have hbool : ∀ n : ℕ, (n % 2 == 1).toNat = n % 2 := by
        intro n
        rcases Nat.mod_two_eq_zero_or_one n with h | h <;> rw [h] <;> rfl
      rw [hbool]
      rcases hcases with rfl | rfl | rfl | rfl | rfl | rfl | rfl | rfl <;> omega
    · -- a bit of the rest
      obtain ⟨j, rfl⟩ := Nat.exists_eq_add_of_le (not_lt.1 hi)
      have hdiv : (8 + j) / 8 = j / 8 + 1 := by omega
      have hmod : (8 + j) % 8 = j % 8 := by omega
      have hat : Bytes.at' (x :: s) (j / 8 + 1) = Bytes.at' s (j / 8) := rfl
      have htail : (x.toNat + 256 * leNat s) / 2 ^ (8 + j) = leNat s / 2 ^ j := by
        rw [pow_add, ← Nat.div_div_eq_div_mul]
        congr 1
        omega
      rw [htail, ← ih j, byteBit, byteBit, hdiv, hmod, hat]

end Limbs
