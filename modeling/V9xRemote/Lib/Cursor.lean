import V9xRemote.Lib.Bytes

/-!
# Reading a byte string from a position on

`At s i t` says that `t` is what stands in `s` from position `i` on. A decoder that moves
a position over a payload is followed by the bytes that are left: each field it reads is
taken off their front.
-/

namespace Cursor

open Bytes

variable {s t a b : Bytes} {i n : ℕ}

structure At (s : Bytes) (i : ℕ) (t : Bytes) : Prop where
  le : i ≤ s.length
  drop : s.drop i = t

theorem at_start (s : Bytes) : At s 0 s := ⟨Nat.zero_le _, List.drop_zero⟩

theorem At.length (h : At s i t) : i + t.length = s.length := by
  have hlength := congrArg List.length h.drop
  rw [List.length_drop] at hlength
  have := h.le
  omega

/-- What is read moves the position. -/
theorem At.next (h : At s i (a ++ b)) : At s (i + a.length) b := by
  have hlength := h.length
  rw [List.length_append] at hlength
  refine ⟨by omega, ?_⟩
  rw [← List.drop_drop, h.drop]
  exact List.drop_left

/-- What is read next. -/
theorem At.take (h : At s i (a ++ b)) : (s.drop i).take a.length = a := by
  rw [h.drop]
  exact List.take_left

theorem At.room (h : At s i (a ++ b)) : i + a.length ≤ s.length := h.next.le

/-- The end. -/
theorem At.done (h : At s i []) : i = s.length := h.length

theorem At.more (h : At s i t) (ht : t ≠ []) : i < s.length := by
  have := h.length
  have := List.length_pos_of_ne_nil ht
  omega

theorem At.at' (h : At s i t) (k : ℕ) : s.at' (i + k) = t.at' k := by rw [← h.drop, at'_drop]

theorem at'_take (h : i < n) : at' (s.take n) i = s.at' i := by
  rw [at', at', List.getD_eq_getElem?_getD, List.getD_eq_getElem?_getD, List.getElem?_take_of_lt h]

theorem readU32_take (h : i + 4 ≤ n) : readU32 (s.take n) i = s.readU32 i := by
  rw [readU32, readU32, at'_take (by omega), at'_take (by omega), at'_take (by omega), at'_take (by omega)]

theorem readU16_take (h : i + 2 ≤ n) : readU16 (s.take n) i = s.readU16 i := by
  rw [readU16, readU16, at'_take (by omega), at'_take (by omega)]

theorem readU16_drop (s : Bytes) (n i : ℕ) : readU16 (s.drop n) i = s.readU16 (n + i) := by
  simp only [readU16, Nat.add_assoc, at'_drop]

/-- **A half word reads back as it was written.** -/
theorem readU16_writeU16 (v : UInt16) (rest : Bytes) : (writeU16 v ++ rest).readU16 0 = v := by
  have hv := v.toNat_lt
  have e8 : (8 : UInt16).toNat % 16 = 8 := rfl
  have hlow : (v.toUInt8).toUInt16.toNat = v.toNat % 256 := by
    rw [UInt8.toNat_toUInt16, UInt16.toNat_toUInt8]
  have hhigh : ((v >>> 8).toUInt8.toUInt16 <<< 8).toNat = v.toNat / 256 * 256 := by
    rw [UInt16.toNat_shiftLeft, UInt8.toNat_toUInt16, UInt16.toNat_toUInt8, UInt16.toNat_shiftRight, e8,
      Nat.shiftRight_eq_div_pow, Nat.shiftLeft_eq]
    omega
  have hor : v.toNat % 256 ||| v.toNat / 256 * 256 = v.toNat % 256 + v.toNat / 256 * 256 := by
    have hmod : v.toNat % 256 < 2 ^ 8 := Nat.mod_lt _ (by omega)
    have hadd := Nat.two_pow_add_eq_or_of_lt hmod (v.toNat / 256)
    have hpow : v.toNat / 256 * 256 = 2 ^ 8 * (v.toNat / 256) := Nat.mul_comm _ _
    rw [hpow, Nat.or_comm, ← hadd, Nat.add_comm]
  apply UInt16.toNat_inj.1
  have hread : (writeU16 v ++ rest).readU16 0 = v.toUInt8.toUInt16 ||| ((v >>> 8).toUInt8.toUInt16 <<< 8) := rfl
  rw [hread, UInt16.toNat_or, hlow, hhigh, hor]
  omega

/-- The words of a header. -/
theorem At.readU32 (h : At s i t) (k : ℕ) : s.readU32 (i + k) = t.readU32 k := by rw [← h.drop, readU32_drop]

theorem At.readU16 (h : At s i t) (k : ℕ) : s.readU16 (i + k) = t.readU16 k := by rw [← h.drop, readU16_drop]

/-- **The bytes that a word was read from** are what it is written as. -/
theorem writeU32_readU32 (h : i + 4 ≤ s.length) : writeU32 (s.readU32 i) = (s.drop i).take 4 := by
  have hlength : 4 ≤ (s.drop i).length := by
    rw [List.length_drop]
    omega
  rw [← Nat.add_zero i, ← readU32_drop, Nat.add_zero]
  generalize s.drop i = t at hlength
  match t, hlength with
  | b0 :: b1 :: b2 :: b3 :: rest, _ =>
    have h0 := b0.toNat_lt
    have h1 := b1.toNat_lt
    have h2 := b2.toNat_lt
    have h3 := b3.toNat_lt
    have e8 : (8 : UInt32).toNat % 32 = 8 := rfl
    have e16 : (16 : UInt32).toNat % 32 = 16 := rfl
    have e24 : (24 : UInt32).toNat % 32 = 24 := rfl
    have hread : (Bytes.readU32 (b0 :: b1 :: b2 :: b3 :: rest) 0).toNat =
        b0.toNat + 2 ^ 8 * b1.toNat + 2 ^ 16 * b2.toNat + 2 ^ 24 * b3.toNat := toNat_readU32 _ 0
    simp only [writeU32, List.take_succ_cons, List.take_zero, List.cons.injEq, and_true, ← UInt8.toNat_inj,
      UInt32.toNat_toUInt8, UInt32.toNat_shiftRight, Nat.shiftRight_eq_div_pow, e8, e16, e24, hread]
    omega

theorem writeU16_readU16 (h : i + 2 ≤ s.length) : writeU16 (s.readU16 i) = (s.drop i).take 2 := by
  have hlength : 2 ≤ (s.drop i).length := by
    rw [List.length_drop]
    omega
  rw [← Nat.add_zero i, ← readU16_drop, Nat.add_zero]
  generalize s.drop i = t at hlength
  match t, hlength with
  | b0 :: b1 :: rest, _ =>
    have h0 := b0.toNat_lt
    have h1 := b1.toNat_lt
    have e8 : (8 : UInt16).toNat % 16 = 8 := rfl
    have hor : b0.toNat ||| 2 ^ 8 * b1.toNat = b0.toNat + 2 ^ 8 * b1.toNat := by
      rw [Nat.or_comm, ← Nat.two_pow_add_eq_or_of_lt h0, Nat.add_comm]
    have hread : (Bytes.readU16 (b0 :: b1 :: rest) 0).toNat = b0.toNat + 2 ^ 8 * b1.toNat := by
      have hword : Bytes.readU16 (b0 :: b1 :: rest) 0 = b0.toUInt16 ||| (b1.toUInt16 <<< 8) := rfl
      rw [hword, UInt16.toNat_or, UInt16.toNat_shiftLeft, UInt8.toNat_toUInt16, UInt8.toNat_toUInt16, e8, Nat.shiftLeft_eq,
        Nat.mul_comm, Nat.mod_eq_of_lt (by omega), hor]
    simp only [writeU16, List.take_succ_cons, List.take_zero, List.cons.injEq, and_true, ← UInt8.toNat_inj,
      UInt16.toNat_toUInt8, UInt16.toNat_shiftRight, Nat.shiftRight_eq_div_pow, e8, hread]
    omega

end Cursor
