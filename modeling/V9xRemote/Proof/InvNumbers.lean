import Mathlib.Tactic.Ring
import V9xRemote.Lib.Words
import V9xRemote.Spec.Inventory

/-!
# The inventory's 64-bit numbers are exact

* `u64Mul32_toNat`: the partial products and their carries are the product modulo `2 ^ 64`.
* `u64Decimal_eq`: long division by ten writes the decimal text, inside both buffers.
* `inventory_numbers`: both, and what they make of the size of a disk.
-/

namespace V9xRemote

open Bytes

/-! ## Halves of a word -/

theorem toNat_lowHalf (x : UInt32) : (x &&& 0xffff).toNat = x.toNat % 65536 := by
  rw [UInt32.toNat_and]
  exact Nat.and_two_pow_sub_one_eq_mod _ 16

theorem toNat_highHalf (x : UInt32) : (x >>> 16).toNat = x.toNat / 65536 := by
  rw [UInt32.toNat_shiftRight]
  exact Nat.shiftRight_eq_div_pow _ 16

/-- A half is moved up beside another. -/
theorem toNat_shiftLeft_or {high low : UInt32} (hhigh : high.toNat < 65536) (hlow : low.toNat < 65536) :
    ((high <<< 16) ||| low).toNat = high.toNat * 65536 + low.toNat := by
  have hshift : (high <<< 16).toNat = high.toNat <<< 16 := by
    rw [UInt32.toNat_shiftLeft]
    apply Nat.mod_eq_of_lt
    show high.toNat <<< 16 < 2 ^ 32
    rw [Nat.shiftLeft_eq]
    omega
  rw [UInt32.toNat_or, hshift, ← Nat.shiftLeft_add_eq_or_of_lt hlow, Nat.shiftLeft_eq]

/-! ## The product -/

/-- The product of two halves fits a word. -/
theorem toNat_mul_halves {a b : UInt32} (ha : a.toNat < 65536) (hb : b.toNat < 65536) :
    (a * b).toNat = a.toNat * b.toNat :=
  Words.toNat_mul_of_lt (lt_of_le_of_lt (Nat.mul_le_mul (Nat.le_of_lt_succ ha) (Nat.le_of_lt_succ hb)) (by decide))

/-- The two words that the partial products are added up in. -/
theorem partial_products (p00 p01 p10 p11 : UInt32) :
    let middle := (p00 >>> 16) + (p01 &&& 0xffff) + (p10 &&& 0xffff)
    ((p00 &&& (0xffff : UInt32)) ||| ((middle &&& (0xffff : UInt32)) <<< (16 : UInt32))).toNat +
        (p11 + (p01 >>> 16) + (p10 >>> 16) + (middle >>> 16)).toNat * 2 ^ 32 =
      (p00.toNat + p01.toNat * 2 ^ 16 + p10.toNat * 2 ^ 16 + p11.toNat * 2 ^ 32) % 2 ^ 64 := by
  intro middle
  have h00 := p00.toNat_lt
  have h01 := p01.toNat_lt
  have h10 := p10.toNat_lt
  -- three halves do not overflow a word
  have hmiddle : middle.toNat = p00.toNat / 65536 + p01.toNat % 65536 + p10.toNat % 65536 := by
    rw [UInt32.toNat_add, UInt32.toNat_add, toNat_highHalf, toNat_lowHalf, toNat_lowHalf]
    omega
  have hlow : ∀ x : UInt32, (x &&& 0xffff).toNat < 65536 := by
    intro x
    rw [toNat_lowHalf]
    exact Nat.mod_lt _ (by decide)
  clear_value middle
  rw [UInt32.or_comm, toNat_shiftLeft_or (hlow middle) (hlow p00), toNat_lowHalf, toNat_lowHalf, UInt32.toNat_add,
    UInt32.toNat_add, UInt32.toNat_add, toNat_highHalf, toNat_highHalf, toNat_highHalf, hmiddle]
  omega

theorem split_halves (x : UInt32) : x.toNat = (x >>> 16).toNat * 2 ^ 16 + (x &&& 0xffff).toNat := by
  rw [toNat_highHalf, toNat_lowHalf]
  omega

/-- **The product modulo `2 ^ 64`.** -/
theorem u64Mul32_toNat (value : U64) (multiplier : UInt32) :
    (u64Mul32 value multiplier).toNat = value.toNat * multiplier.toNat % 2 ^ 64 := by
  obtain ⟨l, h⟩ := value
  have hl := l.toNat_lt
  have hm := multiplier.toNat_lt
  have ha0 : (l &&& 0xffff).toNat < 65536 := by rw [toNat_lowHalf]; omega
  have ha1 : (l >>> 16).toNat < 65536 := by rw [toNat_highHalf]; omega
  have hb0 : (multiplier &&& 0xffff).toNat < 65536 := by rw [toNat_lowHalf]; omega
  have hb1 : (multiplier >>> 16).toNat < 65536 := by rw [toNat_highHalf]; omega
  have hwords := partial_products ((l &&& 0xffff) * (multiplier &&& 0xffff)) ((l &&& 0xffff) * (multiplier >>> (16 : UInt32)))
    ((l >>> (16 : UInt32)) * (multiplier &&& 0xffff)) ((l >>> (16 : UInt32)) * (multiplier >>> (16 : UInt32)))
  dsimp only at hwords
  rw [toNat_mul_halves ha0 hb0, toNat_mul_halves ha0 hb1, toNat_mul_halves ha1 hb0, toNat_mul_halves ha1 hb1] at hwords
  have hproduct : (h.toNat * 2 ^ 32 + l.toNat) * multiplier.toNat = h.toNat * multiplier.toNat * 2 ^ 32 +
      ((l &&& 0xffff).toNat * (multiplier &&& 0xffff).toNat + (l &&& 0xffff).toNat * (multiplier >>> 16).toNat * 2 ^ 16 +
        (l >>> 16).toNat * (multiplier &&& 0xffff).toNat * 2 ^ 16 +
        (l >>> 16).toNat * (multiplier >>> 16).toNat * 2 ^ 32) := by
    rw [Nat.add_mul, mul_right_comm]
    congr 1
    calc l.toNat * multiplier.toNat
        = ((l >>> 16).toNat * 2 ^ 16 + (l &&& 0xffff).toNat) *
            ((multiplier >>> 16).toNat * 2 ^ 16 + (multiplier &&& 0xffff).toNat) := by
          rw [← split_halves, ← split_halves]
      _ = _ := by ring
  have hlo := (u64Mul32 ⟨l, h⟩ multiplier).lo.toNat_lt
  unfold u64Mul32 at hlo ⊢
  unfold U64.toNat
  dsimp only at hlo ⊢
  rw [hproduct, UInt32.toNat_add, UInt32.toNat_mul]
  generalize h.toNat * multiplier.toNat = high
  -- the higher word takes the carry and loses what exceeds it
  omega

/-! ## Division by ten -/

/-- The number the limbs hold, the highest first. -/
def limbsNat (limbs : List UInt32) : ℕ := limbs.foldl (fun n limb => n * 65536 + limb.toNat) 0

theorem foldl_limbs (n : ℕ) (limbs : List UInt32) :
    limbs.foldl (fun n limb => n * 65536 + limb.toNat) n = n * 65536 ^ limbs.length + limbsNat limbs := by
  induction limbs generalizing n with
  | nil => simp [limbsNat]
  | cons limb limbs ih =>
    unfold limbsNat
    rw [List.foldl_cons, List.foldl_cons, ih, ih (0 * 65536 + limb.toNat), List.length_cons, pow_succ]
    ring

theorem limbsNat_cons (limb : UInt32) (limbs : List UInt32) :
    limbsNat (limb :: limbs) = limb.toNat * 65536 ^ limbs.length + limbsNat limbs := by
  unfold limbsNat
  rw [List.foldl_cons, foldl_limbs]
  simp [limbsNat]

/-- The limbs are zero exactly if the number is. -/
theorem any_nonzero_iff (limbs : List UInt32) : limbs.any (· != 0) = true ↔ limbsNat limbs ≠ 0 := by
  induction limbs with
  | nil => simp [limbsNat]
  | cons limb limbs ih =>
    have hzero : limb.toNat = 0 ↔ limb = 0 := ⟨fun h => UInt32.toNat_inj.1 h, fun h => h ▸ rfl⟩
    have hpow : 0 < 65536 ^ limbs.length := Nat.pow_pos (by decide)
    rw [List.any_cons, limbsNat_cons, Bool.or_eq_true, ih]
    by_cases hlimb : limb = 0
    · simp [hlimb]
    · have hpos : 0 < limb.toNat * 65536 ^ limbs.length := Nat.mul_pos (Nat.pos_of_ne_zero (mt hzero.1 hlimb)) hpow
      exact iff_of_true (Or.inl (by simpa using hlimb)) (by omega)

/-- **A pass of the long division**: quotient and remainder, and the quotient's limbs are
limbs again. -/
theorem divideLimbs_spec {limbs : List UInt32} (hlimbs : ∀ limb ∈ limbs, limb.toNat < 65536) {remainder : UInt32}
    (hr : remainder.toNat < 10) :
    let (quotients, last) := divideLimbs remainder limbs
    quotients.length = limbs.length ∧ (∀ limb ∈ quotients, limb.toNat < 65536) ∧ last.toNat < 10 ∧
      limbsNat quotients * 10 + last.toNat = remainder.toNat * 65536 ^ limbs.length + limbsNat limbs := by
  induction limbs generalizing remainder with
  | nil => exact ⟨rfl, by simp, hr, by simp [limbsNat]⟩
  | cons limb limbs ih =>
    set current := (remainder <<< 16) ||| limb with hcurrent
    have hvalue : current.toNat = remainder.toNat * 65536 + limb.toNat :=
      toNat_shiftLeft_or (by omega) (hlimbs limb List.mem_cons_self)
    have hlimb := hlimbs limb List.mem_cons_self
    have hten : (10 : UInt32).toNat = 10 := rfl
    have hdiv : (current / 10).toNat = current.toNat / 10 := UInt32.toNat_div _ _
    have hmod : (current % 10).toNat = current.toNat % 10 := UInt32.toNat_mod _ _
    have hrest := @ih (fun l hl => hlimbs l (List.mem_cons_of_mem _ hl)) (current % 10)
      (by rw [hmod]; exact Nat.mod_lt _ (by decide))
    unfold divideLimbs
    rw [← hcurrent]
    dsimp only at hrest ⊢
    obtain ⟨hlength, hquotients, hlast, heq⟩ := hrest
    refine ⟨by rw [List.length_cons, List.length_cons, hlength], ?_, hlast, ?_⟩
    · intro l hl
      rcases List.mem_cons.1 hl with rfl | hl
      · rw [hdiv]
        omega
      · exact hquotients l hl
    · -- the remainder of this limb goes on to the next
      have hsplit : current.toNat = current.toNat / 10 * 10 + current.toNat % 10 := by omega
      rw [limbsNat_cons, limbsNat_cons, hlength, hdiv, List.length_cons, pow_succ, Nat.add_mul, Nat.add_assoc, heq, hmod]
      calc current.toNat / 10 * 65536 ^ limbs.length * 10 + (current.toNat % 10 * 65536 ^ limbs.length + limbsNat limbs)
          = (current.toNat / 10 * 10 + current.toNat % 10) * 65536 ^ limbs.length + limbsNat limbs := by ring
        _ = (remainder.toNat * 65536 + limb.toNat) * 65536 ^ limbs.length + limbsNat limbs := by rw [← hsplit, hvalue]
        _ = _ := by ring

/-! ## The digits -/

theorem bufferPut_eq {buffer : Bytes} {index : ℕ} (b : UInt8) (h : index < buffer.length) :
    bufferPut buffer index b = some (buffer.set index b) := if_pos h

theorem take_set_succ {buffer : Bytes} {index : ℕ} (b : UInt8) (h : index < buffer.length) :
    (buffer.set index b).take (index + 1) = buffer.take index ++ [b] := by
  rw [List.set_eq_take_append_cons_drop, if_pos h, List.take_append, List.length_take, Nat.min_eq_left (by omega),
    List.take_of_length_le (by simp), Nat.add_sub_cancel_left]
  rfl

theorem digit_byte {r : UInt32} (hr : r.toNat < 10) : (48 + r).toUInt8 = UInt8.ofNat (48 + r.toNat % 10) := by
  apply UInt8.toNat_inj.1
  rw [digit_toNat, UInt32.toNat_toUInt8, UInt32.toNat_add]
  show (48 + r.toNat) % 2 ^ 32 % 2 ^ 8 = _
  omega

/-- One turn of the loop: the last digit goes behind those written, and the quotient is left. -/
theorem digitLoop_step (fuel : ℕ) {limbs : List UInt32} {reversed : Bytes} {count : ℕ}
    (hlimbs : ∀ limb ∈ limbs, limb.toNat < 65536) (hcount : count < reversed.length) :
    ∃ (quotients : List UInt32) (digits : Bytes),
      (∀ limb ∈ quotients, limb.toNat < 65536) ∧ limbsNat quotients = limbsNat limbs / 10 ∧
      digits.length = reversed.length ∧
      (digits.take (count + 1)).reverse = UInt8.ofNat (48 + limbsNat limbs % 10) :: (reversed.take count).reverse ∧
      digitLoop (fuel + 1) limbs reversed count =
        if limbsNat limbs / 10 ≠ 0 ∧ count + 1 < reversed.length - 1 then digitLoop fuel quotients digits (count + 1)
        else some (digits, count + 1) := by
  have hspec := divideLimbs_spec hlimbs (show (0 : UInt32).toNat < 10 by decide)
  cases hdivide : divideLimbs 0 limbs with
  | mk quotients last =>
    rw [hdivide] at hspec
    obtain ⟨-, hquotients, hlast, heq⟩ := hspec
    rw [UInt32.toNat_zero, Nat.zero_mul, Nat.zero_add] at heq
    have hten : limbsNat quotients = limbsNat limbs / 10 := by omega
    have hdigit : last.toNat % 10 = limbsNat limbs % 10 := by omega
    refine ⟨quotients, reversed.set count (48 + last).toUInt8, hquotients, hten, List.length_set, ?_, ?_⟩
    · rw [take_set_succ _ hcount, List.reverse_append, digit_byte hlast, hdigit]
      rfl
    · rw [digitLoop, hdivide]
      dsimp only
      rw [bufferPut_eq _ hcount, Option.bind_eq_bind, Option.bind_some, List.length_set]
      have hcond : (quotients.any (· != 0) && decide (count + 1 < reversed.length - 1)) = true ↔
          limbsNat limbs / 10 ≠ 0 ∧ count + 1 < reversed.length - 1 := by
        rw [Bool.and_eq_true, any_nonzero_iff, hten, decide_eq_true_iff]
      simp only [hcond]

/-- **The digits of a number** stand in the buffer in reverse, behind those written before. -/
theorem digitLoop_spec (fuel : ℕ) {limbs : List UInt32} {reversed : Bytes} {count : ℕ}
    (hlimbs : ∀ limb ∈ limbs, limb.toNat < 65536) (hroom : count + (fuel + 1) + 1 = reversed.length)
    (hvalue : limbsNat limbs < 10 ^ (fuel + 1)) :
    ∃ digits n, digitLoop (fuel + 1) limbs reversed count = some (digits, n) ∧ n < digits.length ∧
      digits.length = reversed.length ∧
      (digits.take n).reverse = decimalAux (fuel + 1) (limbsNat limbs) (reversed.take count).reverse := by
  induction fuel generalizing limbs reversed count with
  | zero =>
    obtain ⟨quotients, digits, -, -, hlength, htake, hstep⟩ := digitLoop_step 0 hlimbs (show count < reversed.length by omega)
    have hlast : limbsNat limbs / 10 = 0 := by omega
    rw [hstep, if_neg (by omega)]
    refine ⟨digits, count + 1, rfl, by omega, hlength, ?_⟩
    unfold decimalAux
    rw [htake, if_pos hlast]
  | succ fuel ih =>
    obtain ⟨quotients, digits, hquotients, hten, hlength, htake, hstep⟩ :=
      digitLoop_step (fuel + 1) hlimbs (show count < reversed.length by omega)
    rw [hstep]
    unfold decimalAux
    dsimp only
    by_cases hlast : limbsNat limbs / 10 = 0
    · rw [if_neg (by omega), if_pos hlast]
      exact ⟨digits, count + 1, rfl, by omega, hlength, htake⟩
    · -- the buffer has room for all digits, so the loop ends by the number alone
      rw [if_pos ⟨hlast, by omega⟩, if_neg hlast, ← htake, ← hten, ← hlength]
      exact ih hquotients (by omega) (by rw [hten]; rw [pow_succ] at hvalue; omega)

/-! ## The text -/

/-- A row of writes from the start of a buffer. -/
theorem foldlM_bufferPut (f : ℕ → UInt8) (n : ℕ) {target : Bytes} (hn : n ≤ target.length) :
    (List.range n).foldlM (fun target index => bufferPut target index (f index)) target =
      some ((List.range n).map f ++ target.drop n) := by
  induction n with
  | zero => rfl
  | succ n ih =>
    have hlength : n < ((List.range n).map f ++ target.drop n).length := by simp; omega
    rw [List.range_succ, List.foldlM_append, ih (by omega), List.map_append]
    show (bufferPut _ n (f n)).bind some = _
    have hdrop : target.drop n = target[n] :: target.drop (n + 1) := List.drop_eq_getElem_cons (by omega)
    rw [bufferPut_eq _ hlength, Option.bind_some, List.set_append_right _ _ (by simp), hdrop, List.length_map,
      List.length_range, Nat.sub_self, List.map_singleton, List.append_assoc]
    rfl

/-- The first `n` bytes of a buffer, copied from the last on. -/
theorem map_reversed {digits : Bytes} {n : ℕ} (hn : n ≤ digits.length) :
    (List.range n).map (fun index => digits.at' (n - index - 1)) = (digits.take n).reverse := by
  apply List.ext_getElem
  · simp [hn]
  · intro i h1 h2
    have hi : i < n := by simpa using h1
    rw [List.getElem_map, List.getElem_range, List.getElem_reverse, List.getElem_take, at', List.getD_eq_getElem?_getD,
      List.getElem?_eq_getElem (by omega), Option.getD_some]
    congr 1
    rw [List.length_take, Nat.min_eq_left hn]
    omega

theorem u64Limbs_spec (value : U64) :
    (∀ limb ∈ u64Limbs value, limb.toNat < 65536) ∧ limbsNat (u64Limbs value) = value.toNat := by
  have hhi := value.hi.toNat_lt
  have hlo := value.lo.toNat_lt
  constructor
  · intro limb h
    simp only [u64Limbs, List.mem_cons, List.not_mem_nil, or_false] at h
    rcases h with rfl | rfl | rfl | rfl
    · rw [toNat_highHalf]; omega
    · rw [toNat_lowHalf]; omega
    · rw [toNat_highHalf]; omega
    · rw [toNat_lowHalf]; omega
  · unfold limbsNat u64Limbs U64.toNat
    simp only [List.foldl_cons, List.foldl_nil, toNat_highHalf, toNat_lowHalf]
    omega

theorem U64.toNat_lt (value : U64) : value.toNat < 2 ^ 64 := by
  have hhi := value.hi.toNat_lt
  have hlo := value.lo.toNat_lt
  unfold U64.toNat
  omega

theorem decimal_u64 (value : U64) : (decimal value.toNat).length ≤ 20 :=
  decimal_length (lt_trans value.toNat_lt (by norm_num))

/-- **The decimal writer**: the text and its NUL at the start of the buffer, and nothing else. -/
theorem u64Decimal_eq (value : U64) {target : Bytes} (h : 21 ≤ target.length) :
    u64Decimal target value =
      some (decimal value.toNat ++ 0 :: target.drop ((decimal value.toNat).length + 1)) := by
  obtain ⟨hlimbs, hvalue⟩ := u64Limbs_spec value
  have hlt := value.toNat_lt
  obtain ⟨digits, n, hloop, hn, hlength, hdigits⟩ := @digitLoop_spec 19 (u64Limbs value)
    (List.replicate 21 0) 0 hlimbs rfl (by rw [hvalue]; omega)
  have htext : (digits.take n).reverse = decimal value.toNat := by
    rw [hdigits, hvalue]
    exact decimalAux_fuel [] (by omega) (by exact lt_trans (Nat.lt_pow_self (by decide)) (Nat.pow_lt_pow_succ (by decide)))
  have hcount : (decimal value.toNat).length = n := by
    rw [← htext, List.length_reverse, List.length_take]
    omega
  have hn20 := decimal_u64 value
  have hcopy := foldlM_bufferPut (fun index => digits.at' (n - index - 1)) n (show n ≤ target.length by omega)
  rw [map_reversed hn.le, htext] at hcopy
  have hend : n < (decimal value.toNat ++ target.drop n).length := by
    rw [List.length_append, List.length_drop]
    omega
  unfold u64Decimal
  rw [hloop, Option.bind_eq_bind, Option.bind_some]
  dsimp only
  rw [hcopy, Option.bind_eq_bind, Option.bind_some, bufferPut_eq _ hend, List.set_append_right _ _ (by omega), hcount, Nat.sub_self,
    List.drop_eq_getElem_cons (by omega : n < target.length)]
  rfl

/-! ## The inventory -/

theorem u64Set_toNat (lo : UInt32) : (u64Set lo).toNat = lo.toNat := by
  unfold u64Set U64.toNat
  simp

/-- The size of a disk, as long as it fits. -/
theorem diskBytes_toNat {clusters sectorsPerCluster bytesPerSector : UInt32}
    (h : clusters.toNat * sectorsPerCluster.toNat * bytesPerSector.toNat < 2 ^ 64) :
    (diskBytes clusters sectorsPerCluster bytesPerSector).toNat =
      clusters.toNat * sectorsPerCluster.toNat * bytesPerSector.toNat := by
  unfold diskBytes
  rw [u64Mul32_toNat, u64Mul32_toNat, u64Set_toNat, Nat.mod_mul_mod, Nat.mod_eq_of_lt h]

/-- The field of a 64-bit number is that of its decimal text. -/
theorem invFieldU64_eq (writer : InvWriter) (key : InvName) (value : U64) :
    writer.invFieldU64 key value = some (writer.invField key (some (decimal value.toNat))) := by
  have hnul : (0 : UInt8) ∉ decimal value.toNat := by
    intro hzero
    exact absurd ((decimal_spells value.toNat).2.1 0 hzero).1 (by decide)
  unfold InvWriter.invFieldU64
  rw [u64Decimal_eq value (by simp), Option.bind_eq_bind, Option.bind_some]
  unfold InvWriter.invField cleanValue
  rw [Option.getD_some, Option.getD_some, cstr_append hnul, cstr_plain hnul]

/-- **64-bit numbers on 32-bit words.** The helper multiplies modulo `2 ^ 64`; the writer
leaves the shortest decimal text, of at most 20 digits, and its NUL in a buffer of 21 bytes
or more and changes nothing behind them; and a disk has its exact size written, and what is
free of it, as long as these fit 64 bits. -/
theorem inventory_numbers :
    (∀ value multiplier, (u64Mul32 value multiplier).toNat = value.toNat * multiplier.toNat % 2 ^ 64) ∧
      (∀ (value : U64) (target : Bytes), 21 ≤ target.length → ∃ text,
        u64Decimal target value = some (text ++ 0 :: target.drop (text.length + 1)) ∧ Spells text value.toNat ∧
          text.length ≤ 20 ∧ ∀ other, Spells other value.toNat → text.length ≤ other.length) ∧
      ∀ (writer : InvWriter) (sectorsPerCluster bytesPerSector freeClusters totalClusters : UInt32),
        totalClusters.toNat * sectorsPerCluster.toNat * bytesPerSector.toNat < 2 ^ 64 →
        freeClusters.toNat * sectorsPerCluster.toNat * bytesPerSector.toNat < 2 ^ 64 →
        writer.diskFields sectorsPerCluster bytesPerSector freeClusters totalClusters =
          some ((writer.invField ⟨ascii "total", by decide⟩
              (some (decimal (totalClusters.toNat * sectorsPerCluster.toNat * bytesPerSector.toNat)))).invField
            ⟨ascii "free", by decide⟩
            (some (decimal (freeClusters.toNat * sectorsPerCluster.toNat * bytesPerSector.toNat)))) := by
  refine ⟨u64Mul32_toNat, fun value target h => ?_, fun writer spc bps free total htotal hfree => ?_⟩
  · refine ⟨decimal value.toNat, u64Decimal_eq value h, decimal_spells _, decimal_u64 value, ?_⟩
    intro other hother
    exact decimal_shortest hother
  · unfold InvWriter.diskFields
    rw [invFieldU64_eq, Option.bind_eq_bind, Option.bind_some, invFieldU64_eq, diskBytes_toNat htotal, diskBytes_toNat hfree]

/-- A record's writer in the middle of its record. -/
def diskWriter : InvWriter := ⟨List.replicate 300 0, 300, 9, 0, 0, 7, 0, 160, true, false⟩

/-- A disk of 2000000 clusters of 32 sectors of 512 bytes, half of them free. -/
theorem inventory_numbers_disk :
    diskWriter.diskFields 32 512 1000000 2000000 =
      some ((diskWriter.invField ⟨ascii "total", by decide⟩ (some (decimal 32768000000))).invField
        ⟨ascii "free", by decide⟩ (some (decimal 16384000000))) :=
  inventory_numbers.2.2 diskWriter 32 512 1000000 2000000 (by decide) (by decide)

end V9xRemote
