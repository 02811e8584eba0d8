import V9xRemote.Lib.Crc
import V9xRemote.Spec.Upload

/-!
# CRC-32 is the CRC-32 of IEEE 802.3

The table of `src/common/crc32.c` holds what eight turns of the shift register make of each
byte, so an update feeds the register its bytes' bits (`crc32Update_register`), and however
a string is cut up its CRC is the complement of a remainder (`crc32_remainder`).
-/

namespace V9xRemote

open Bytes

/-- The check of a string of bytes, each byte's lowest bit first. -/
def ieeeCrc32 (s : Bytes) : UInt32 := UInt32.ofBitVec (Crc.crc32 (Crc.byteBits s))

/-- `zlib.crc32`: `value` is the check of what went before. -/
def zlibCrc32 (data : Bytes) (value : UInt32) : UInt32 :=
  UInt32.ofBitVec (~~~Crc.register Crc.ieee (~~~value.toBitVec) (Crc.byteBits data))

/-! ## The table -/

/-- A turn of the table's loop is one of the shift register. -/
theorem crc32Bit_turn (value : UInt32) : (crc32Bit value).toBitVec = Crc.turn Crc.ieee value.toBitVec := by
  have hmask : ((0 : UInt32) - (value &&& 1)).toBitVec = if value.toBitVec.getLsbD 0 then BitVec.allOnes 32 else 0 := by
    rw [UInt32.toBitVec_sub, UInt32.toBitVec_and]
    show (0#32) - (value.toBitVec &&& 1#32) = _
    rw [BitVec.and_one_eq_setWidth_ofBool_getLsbD]
    cases value.toBitVec.getLsbD 0 <;> rfl
  unfold crc32Bit Crc.turn
  rw [UInt32.toBitVec_xor, UInt32.toBitVec_shiftRight, UInt32.toBitVec_and, hmask]
  congr 1
  cases value.toBitVec.getLsbD 0 <;> rfl

theorem crc32Bit_turns (k : ℕ) (value : UInt32) :
    (crc32Bit^[k] value).toBitVec = (Crc.turn Crc.ieee)^[k] value.toBitVec := by
  induction k generalizing value with
  | zero => rfl
  | succ k ih => rw [Function.iterate_succ_apply, Function.iterate_succ_apply, ih, crc32Bit_turn]

/-- The table at the lowest byte of a word. -/
theorem crc32Table_at (y : UInt32) :
    (crc32Table.getD (y &&& 0xff).toNat 0).toBitVec = (Crc.turn Crc.ieee)^[8] ((y.toBitVec.setWidth 8).setWidth 32) := by
  have hmask : (y &&& 0xff).toNat = y.toNat % 256 := by
    rw [UInt32.toNat_and]
    exact Nat.and_two_pow_sub_one_eq_mod _ 8
  have hlt : y.toNat % 256 < 256 := Nat.mod_lt _ (by decide)
  have hentry : crc32Table.getD (y &&& 0xff).toNat 0 = crc32Bit^[8] (UInt32.ofNat (y.toNat % 256)) := by
    rw [hmask, crc32Table, List.getD_eq_getElem?_getD, List.getElem?_map, List.getElem?_range hlt]
    rfl
  have hword : (UInt32.ofNat (y.toNat % 256)).toBitVec = (y.toBitVec.setWidth 8).setWidth 32 := by
    apply BitVec.eq_of_toNat_eq
    simp
  rw [hentry, crc32Bit_turns, hword]

/-! ## The update -/

/-- One byte of the loop. -/
theorem crc32_byte (crc : UInt32) (b : UInt8) :
    ((crc >>> 8) ^^^ crc32Table.getD ((crc ^^^ b.toUInt32) &&& 0xff).toNat 0).toBitVec =
      Crc.register Crc.ieee crc.toBitVec (Crc.lowBits 8 b.toBitVec) := by
  have hbits : Crc.lowBits 8 b.toBitVec = Crc.lowBits 8 b.toUInt32.toBitVec :=
    (Crc.lowBits_setWidth 8 b.toBitVec (by decide)).symm
  have hhigh : ∀ i, 8 ≤ i → b.toUInt32.toBitVec.getLsbD i = false := by
    intro i hi
    show (b.toBitVec.setWidth 32).getLsbD i = false
    rw [BitVec.getLsbD_setWidth, BitVec.getLsbD_of_ge _ i hi, Bool.and_false]
  have hshift : ((crc ^^^ b.toUInt32).toBitVec) >>> 8 = crc.toBitVec >>> 8 := by
    rw [UInt32.toBitVec_xor, BitVec.ushiftRight_xor_distrib]
    have hgone : b.toUInt32.toBitVec >>> 8 = 0#32 := by
      apply BitVec.eq_of_getLsbD_eq
      intro i _
      rw [BitVec.getLsbD_ushiftRight, hhigh _ (by omega), BitVec.getLsbD_zero]
    rw [hgone, BitVec.xor_zero]
  rw [hbits, Crc.register_word 8 _ hhigh, ← UInt32.toBitVec_xor, Crc.turn_table, hshift, ← crc32Table_at]
  rfl

/-- **An update feeds the register.** -/
theorem crc32Update_register (crc : UInt32) (data : Bytes) :
    (crc32Update crc data).toBitVec = Crc.register Crc.ieee crc.toBitVec (Crc.byteBits data) := by
  induction data generalizing crc with
  | nil => rfl
  | cons b data ih =>
    rw [Crc.byteBits_cons, Crc.register_append, ← crc32_byte]
    exact ih _

/-- Updates of the pieces of a string are an update of the string. -/
theorem crc32Update_pieces (crc : UInt32) (pieces : List Bytes) :
    pieces.foldl crc32Update crc = crc32Update crc pieces.flatten := by
  induction pieces generalizing crc with
  | nil => rfl
  | cons piece pieces ih => rw [List.foldl_cons, ih, List.flatten_cons, crc32Update_append]

theorem crc32End_toBitVec (crc : UInt32) : (crc32End crc).toBitVec = ~~~crc.toBitVec := by
  unfold crc32End
  rw [UInt32.toBitVec_xor]
  exact BitVec.xor_allOnes

theorem crc32_eq_ieee (data : Bytes) : crc32 data = ieeeCrc32 data := by
  apply UInt32.toBitVec_inj.1
  unfold crc32
  rw [crc32End_toBitVec, crc32Update_register]
  rfl

/-- A running check of the host's is one of the agent's. -/
theorem zlibCrc32_eq (data : Bytes) (crc : UInt32) : zlibCrc32 data (crc32End crc) = crc32End (crc32Update crc data) := by
  apply UInt32.toBitVec_inj.1
  unfold zlibCrc32
  rw [crc32End_toBitVec, crc32End_toBitVec, crc32Update_register, BitVec.not_not]

theorem zlibCrc32_pieces (pieces : List Bytes) (crc : UInt32) :
    pieces.foldl (fun crc piece => zlibCrc32 piece crc) (crc32End crc) = crc32End (crc32Update crc pieces.flatten) := by
  induction pieces generalizing crc with
  | nil => rfl
  | cons piece pieces ih => rw [List.foldl_cons, zlibCrc32_eq, ih, List.flatten_cons, crc32Update_append]

/-- **However a string is cut up**, the agent's updates, one update of the whole and the
host's running check end with its CRC-32. -/
theorem crc32_pieces (pieces : List Bytes) :
    crc32End (pieces.foldl crc32Update crc32Begin) = ieeeCrc32 pieces.flatten ∧
      crc32 pieces.flatten = ieeeCrc32 pieces.flatten ∧
      pieces.foldl (fun crc piece => zlibCrc32 piece crc) 0 = ieeeCrc32 pieces.flatten := by
  refine ⟨?_, crc32_eq_ieee _, ?_⟩
  · rw [crc32Update_pieces]
    exact crc32_eq_ieee _
  · -- the host begins with 0, which is the complement of what the agent begins with
    rw [show (0 : UInt32) = crc32End crc32Begin by decide, zlibCrc32_pieces]
    exact crc32_eq_ieee _

open Polynomial in
/-- **The CRC as a remainder**: its complement is what division by the generator leaves of
the message times `X ^ 32`, the first 32 bits of it complemented. -/
theorem crc32_remainder (data : Bytes) :
    Crc.toPoly (~~~(crc32 data).toBitVec) =
      (X ^ (Crc.byteBits data).length * Crc.toPoly (BitVec.allOnes 32) + X ^ 32 * Crc.message (Crc.byteBits data)) %ₘ
        Crc.generator Crc.ieee := by
  unfold crc32
  rw [crc32End_toBitVec, BitVec.not_not, crc32Update_register]
  exact Crc.register_remainder _ _

end V9xRemote
