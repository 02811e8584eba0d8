import Mathlib.Algebra.CharP.Two
import Mathlib.Algebra.Field.ZMod
import Mathlib.Algebra.Polynomial.Div
import Mathlib.Tactic.LinearCombination
import V9xRemote.Lib.Bytes

/-!
# Cyclic redundancy checks

A reflected shift register of `w` bits that takes one bit of the message a turn.

* `register_word`, `turn_table`: the bits of a word can be fed at once, and the turns they take
  read off a table.
* `register_remainder`: with its lowest bit as the highest power, the register holds a
  remainder of polynomials over GF(2).
-/

namespace Crc

open Polynomial Finset

variable {w : ℕ} {poly : BitVec w}

/-! ## The shift register -/

/-- A turn of the register: the generator is subtracted where a bit leaves it. -/
def turn (poly r : BitVec w) : BitVec w := (r >>> 1) ^^^ (if r.getLsbD 0 then poly else 0)

/-- A turn with a bit of the message, added to the bit that leaves. -/
def feed (poly r : BitVec w) (b : Bool) : BitVec w := (r >>> 1) ^^^ (if (r.getLsbD 0 ^^ b) then poly else 0)

def register (poly r : BitVec w) (bits : List Bool) : BitVec w := bits.foldl (feed poly) r

/-- The `k` lowest bits of a word, the lowest first. -/
def lowBits (k : ℕ) (x : BitVec w) : List Bool := (List.range k).map x.getLsbD

/-- The bits of a string of bytes, each byte's lowest first. -/
def byteBits (s : Bytes) : List Bool := s.flatMap fun b => lowBits 8 b.toBitVec

theorem register_append (r : BitVec w) (a b : List Bool) :
    register poly r (a ++ b) = register poly (register poly r a) b := List.foldl_append

@[simp] theorem byteBits_cons (b : UInt8) (s : Bytes) : byteBits (b :: s) = lowBits 8 b.toBitVec ++ byteBits s := rfl

theorem lowBits_succ (k : ℕ) (x : BitVec w) : lowBits (k + 1) x = x.getLsbD 0 :: lowBits k (x >>> 1) := by
  unfold lowBits
  rw [List.range_succ_eq_map, List.map_cons, List.map_map]
  congr 1
  apply List.map_congr_left
  intro i _
  simp [Nat.add_comm]

theorem lowBits_setWidth {v : ℕ} (k : ℕ) (x : BitVec w) (hw : w ≤ v) : lowBits k (x.setWidth v) = lowBits k x := by
  apply List.map_congr_left
  intro i _
  rw [BitVec.getLsbD_setWidth]
  by_cases hi : i < v
  · simp [hi]
  · simp [hi, BitVec.getLsbD_of_ge x i (by omega)]

/-! ## Words at once -/

/-- Turns are linear. -/
theorem turn_xor (x y : BitVec w) : turn poly (x ^^^ y) = turn poly x ^^^ turn poly y := by
  unfold turn
  apply BitVec.eq_of_getLsbD_eq
  intro i hi
  cases hx : x.getLsbD 0 <;> cases hy : y.getLsbD 0 <;> simp [hx, hy] <;>
    cases x.getLsbD (1 + i) <;> cases y.getLsbD (1 + i) <;> simp

theorem turns_xor (k : ℕ) (x y : BitVec w) :
    (turn poly)^[k] (x ^^^ y) = (turn poly)^[k] x ^^^ (turn poly)^[k] y := by
  induction k generalizing x y with
  | zero => rfl
  | succ k ih =>
    rw [Function.iterate_succ_apply, Function.iterate_succ_apply, Function.iterate_succ_apply, turn_xor]
    exact ih _ _

/-- A turn with the lowest bit of a word is a turn of the sum, less the rest of the word. -/
theorem feed_lowest (r x : BitVec w) : feed poly r (x.getLsbD 0) ^^^ (x >>> 1) = turn poly (r ^^^ x) := by
  unfold feed turn
  rw [BitVec.getLsbD_xor, BitVec.ushiftRight_xor_distrib]
  ac_rfl

/-- **A word is fed at once**: added to the register, it is turned out. -/
theorem register_word (k : ℕ) (r : BitVec w) {x : BitVec w} (hx : ∀ i, k ≤ i → x.getLsbD i = false) :
    register poly r (lowBits k x) = (turn poly)^[k] (r ^^^ x) := by
  induction k generalizing r x with
  | zero =>
    have hzero : x = 0 := by
      apply BitVec.eq_of_getLsbD_eq
      intro i _
      rw [hx i (Nat.zero_le i)]
      simp
    simp [hzero, lowBits, register]
  | succ k ih =>
    have hrest : ∀ i, k ≤ i → (x >>> 1).getLsbD i = false := by
      intro i hi
      rw [BitVec.getLsbD_ushiftRight]
      exact hx _ (by omega)
    rw [lowBits_succ, Function.iterate_succ_apply, ← feed_lowest]
    exact ih _ hrest

/-- Bits above the lowest `k` only move. -/
theorem turns_high (k : ℕ) {x : BitVec w} (hx : ∀ i, i < k → x.getLsbD i = false) : (turn poly)^[k] x = x >>> k := by
  induction k generalizing x with
  | zero => simp
  | succ k ih =>
    have hturn : turn poly x = x >>> 1 := by
      unfold turn
      rw [hx 0 (Nat.succ_pos k)]
      simp
    have hrest : ∀ i, i < k → (x >>> 1).getLsbD i = false := by
      intro i hi
      rw [BitVec.getLsbD_ushiftRight]
      exact hx _ (by omega)
    rw [Function.iterate_succ_apply, hturn, ih hrest, ← BitVec.shiftRight_add, Nat.add_comm]

/-- **The table**: `k` turns move a word, and add what they make of its lowest bits. -/
theorem turn_table (k : ℕ) (y : BitVec w) :
    (turn poly)^[k] y = (y >>> k) ^^^ (turn poly)^[k] ((y.setWidth k).setWidth w) := by
  set low : BitVec w := (y.setWidth k).setWidth w with hlow
  have hbit : ∀ i, i < w → low.getLsbD i = (decide (i < k) && y.getLsbD i) := by
    intro i hi
    rw [hlow, BitVec.getLsbD_setWidth, BitVec.getLsbD_setWidth]
    simp [hi]
  have hhigh : ∀ i, i < k → (y ^^^ low).getLsbD i = false := by
    intro i hi
    rw [BitVec.getLsbD_xor]
    by_cases hw : i < w
    · simp [hbit i hw, hi]
    · simp [BitVec.getLsbD_of_ge _ i (Nat.le_of_not_lt hw)]
  have hshift : (y ^^^ low) >>> k = y >>> k := by
    apply BitVec.eq_of_getLsbD_eq
    intro i hi
    rw [BitVec.getLsbD_ushiftRight, BitVec.getLsbD_ushiftRight, BitVec.getLsbD_xor]
    by_cases hw : k + i < w
    · simp [hbit _ hw]
    · simp [BitVec.getLsbD_of_ge _ _ (Nat.le_of_not_lt hw)]
  -- what is above the lowest bits only moves, and turns are linear
  have hsplit : y = (y ^^^ low) ^^^ low := by rw [BitVec.xor_assoc, BitVec.xor_self, BitVec.xor_zero]
  calc (turn poly)^[k] y
      = (turn poly)^[k] (y ^^^ low) ^^^ (turn poly)^[k] low := by rw [← turns_xor, ← hsplit]
    _ = (y >>> k) ^^^ (turn poly)^[k] low := by rw [turns_high k hhigh, hshift]

/-! ## Polynomials over GF(2) -/

/-- A register as a polynomial: its lowest bit is the coefficient of the highest power. -/
noncomputable def toPoly (r : BitVec w) : (ZMod 2)[X] := ∑ i ∈ range w, if r.getLsbD i then X ^ (w - 1 - i) else 0

/-- The generator, whose highest coefficient the register leaves out. -/
noncomputable def generator (poly : BitVec w) : (ZMod 2)[X] := X ^ w + toPoly poly

/-- A message, whose first bit is the coefficient of the highest power. -/
noncomputable def message (bits : List Bool) : (ZMod 2)[X] := bits.foldl (fun m b => X * m + if b then 1 else 0) 0

theorem toPoly_xor (x y : BitVec w) : toPoly (x ^^^ y) = toPoly x + toPoly y := by
  unfold toPoly
  rw [← sum_add_distrib]
  apply sum_congr rfl
  intro i _
  rw [BitVec.getLsbD_xor]
  cases x.getLsbD i <;> cases y.getLsbD i <;> simp [CharTwo.add_self_eq_zero]

/-- Shifting the register multiplies by `X`; the bit that leaves is the power `w`. -/
theorem toPoly_shift (r : BitVec w) : toPoly (r >>> 1) + (if r.getLsbD 0 then X ^ w else 0) = X * toPoly r := by
  unfold toPoly
  cases w with
  | zero => simp [BitVec.getLsbD_of_ge]
  | succ w =>
    have hterm : ∀ i ∈ range w, (if (r >>> 1).getLsbD i then (X : (ZMod 2)[X]) ^ (w + 1 - 1 - i) else 0) =
        X * if r.getLsbD (i + 1) then X ^ (w + 1 - 1 - (i + 1)) else 0 := by
      intro i hi
      have hlt := mem_range.1 hi
      rw [BitVec.getLsbD_ushiftRight, Nat.add_comm 1 i]
      split
      · rw [← pow_succ']
        congr 1
        omega
      · rw [mul_zero]
    rw [sum_range_succ, sum_range_succ', mul_add, mul_sum, sum_congr rfl hterm, BitVec.getLsbD_ushiftRight,
      BitVec.getLsbD_of_ge r (1 + w) (by omega)]
    cases r.getLsbD 0 <;> simp [pow_succ']

/-- A turn is a multiplication by `X` less a multiple of the generator. -/
theorem toPoly_feed (r : BitVec w) (b : Bool) :
    toPoly (feed poly r b) + (if (r.getLsbD 0 ^^ b) then generator poly else 0) =
      X * toPoly r + if b then X ^ w else 0 := by
  have htwo : (2 : (ZMod 2)[X]) = 0 := CharTwo.two_eq_zero
  have hzero : toPoly (0#w) = 0 := by simp [toPoly]
  have hshift := toPoly_shift r
  unfold feed generator
  rw [toPoly_xor, ← hshift]
  cases r.getLsbD 0 <;> cases b <;> simp only [Bool.xor_false, Bool.xor_true, Bool.not_false, Bool.not_true,
    Bool.false_eq_true, if_true, if_false, BitVec.ofNat_eq_ofNat, hzero]
  · linear_combination toPoly poly * htwo
  · linear_combination toPoly poly * htwo
  · linear_combination -X ^ w * htwo

theorem message_append (a b : List Bool) : message (a ++ b) = X ^ b.length * message a + message b := by
  induction b using List.reverseRecOn with
  | nil => simp [message]
  | append_singleton b c ih =>
    have hsnoc : ∀ l : List Bool, message (l ++ [c]) = X * message l + if c then 1 else 0 := by
      intro l
      simp [message]
    rw [← List.append_assoc, hsnoc, hsnoc, ih, List.length_append, List.length_singleton, pow_succ]
    ring

/-- What the bits of a message do to the register, up to multiples of the generator. -/
theorem register_dvd (r : BitVec w) (bits : List Bool) :
    generator poly ∣ toPoly (register poly r bits) - (X ^ bits.length * toPoly r + X ^ w * message bits) := by
  induction bits generalizing r with
  | nil => simp [register, message]
  | cons b bits ih =>
    have hfeed := @toPoly_feed w poly r b
    have hmessage : message (b :: bits) = X ^ bits.length * (if b then 1 else 0) + message bits := by
      have h := message_append [b] bits
      simpa [message] using h
    obtain ⟨q, hq⟩ := ih (feed poly r b)
    refine ⟨q - X ^ bits.length * (if (r.getLsbD 0 ^^ b) then 1 else 0), ?_⟩
    have hgen : (if (r.getLsbD 0 ^^ b) then generator poly else 0) =
        generator poly * (if (r.getLsbD 0 ^^ b) then 1 else 0) := by split <;> simp
    have hbit : (if b then X ^ w else 0 : (ZMod 2)[X]) = X ^ w * (if b then 1 else 0) := by split <;> simp
    rw [hgen, hbit] at hfeed
    show toPoly (register poly (feed poly r b) bits) - _ = _
    rw [hmessage, List.length_cons, pow_succ]
    linear_combination hq + X ^ bits.length * hfeed

theorem degree_toPoly_lt (r : BitVec w) : (toPoly r).degree < w := by
  unfold toPoly
  refine lt_of_le_of_lt (degree_sum_le _ _) ((Finset.sup_lt_iff (WithBot.bot_lt_coe w)).2 fun i hi => ?_)
  have hlt := mem_range.1 hi
  split
  · rw [degree_X_pow]
    exact Nat.cast_lt.2 (by omega)
  · rw [degree_zero]
    exact WithBot.bot_lt_coe w

theorem generator_monic (poly : BitVec w) : (generator poly).Monic := monic_X_pow_add (degree_toPoly_lt poly)

theorem degree_generator (poly : BitVec w) : (generator poly).degree = w := by
  unfold generator
  rw [degree_add_eq_left_of_degree_lt (by rw [degree_X_pow]; exact degree_toPoly_lt poly), degree_X_pow]

/-- **The register is a remainder**: of the message times `X ^ w`, with what the register
began with added to its first bits. -/
theorem register_remainder (r : BitVec w) (bits : List Bool) :
    toPoly (register poly r bits) = (X ^ bits.length * toPoly r + X ^ w * message bits) %ₘ generator poly := by
  obtain ⟨q, hq⟩ := @register_dvd w poly r bits
  refine (div_modByMonic_unique (-q) _ (generator_monic poly) ⟨?_, ?_⟩).2.symm
  · linear_combination hq
  · rw [degree_generator]
    exact degree_toPoly_lt _

/-! ## CRC-32 -/

/-- The generator of IEEE 802.3, the lowest bit as the highest power. -/
def ieee : BitVec 32 := 0xedb88320

/-- The register begins with ones, and its complement is the check. -/
def crc32 (bits : List Bool) : BitVec 32 := ~~~register ieee (BitVec.allOnes 32) bits

theorem generator_ieee :
    generator ieee = X ^ 32 + (X ^ 26 + X ^ 23 + X ^ 22 + X ^ 16 + X ^ 12 + X ^ 11 + X ^ 10 + X ^ 8 + X ^ 7 + X ^ 5 + X ^ 4 +
      X ^ 2 + X + 1) := by
  unfold generator toPoly ieee
  simp only [sum_range_succ, range_zero, sum_empty]
  simp

end Crc
