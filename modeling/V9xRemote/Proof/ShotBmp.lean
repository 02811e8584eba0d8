import V9xRemote.Lib.Cursor
import V9xRemote.Proof.ShotBox

/-!
# What the host decodes

The fields of a BMP's header, and the rows that the host decodes from a file that has them: the colours of its
pixels, from the top down.
-/

namespace V9xRemote

open Bytes Cursor

variable {data : Bytes} {offset width height bits compression : ℕ}

/-! ## The header -/

/-- The header of a bottom-up BMP. -/
structure BmpHead (data : Bytes) (offset width height bits compression : ℕ) : Prop where
  whole : 54 ≤ data.length
  magic : data.take 2 = [66, 77]
  offset : (data.readU32 10).toNat = offset
  width : (data.readU32 18).toNat = width
  height : (data.readU32 22).toNat = height
  bits : (data.readU16 28).toNat = bits
  compression : (data.readU32 30).toNat = compression

/-- A signed field that is not negative. -/
theorem toInt_word {v : UInt32} (h : v.toNat < 2 ^ 31) : v.toInt32.toInt = (v.toNat : ℤ) := by
  change v.toBitVec.toInt = _
  rw [BitVec.toInt_eq_toNat_of_lt]
  · rfl
  · change 2 * v.toNat < _
    omega

/-- **The host reads the header**, and goes on by its bits. -/
theorem decodeBmp_head (h : BmpHead data offset width height bits compression) (hwidth : 1 ≤ width ∧ width < 2 ^ 31)
    (hheight : 1 ≤ height ∧ height < 2 ^ 31) :
    decodeBmp data =
      if bits = 24 ∧ compression = 0 then
        if offset + (width * 3 + 3) / 4 * 4 * height > data.length then .error (v9xFail "truncated BMP pixel data")
        else .ok (width, height, ((List.range height).map fun y =>
          decodeRow data (offset + y * ((width * 3 + 3) / 4 * 4)) width).reverse)
      else if bits ≠ 8 ∨ compression > 1 then .error (v9xFail "unsupported BMP format")
      else (decodeIndexed data offset (data.readU32 46).toNat compression width height).map fun stored =>
        (width, height, stored.reverse) := by
  obtain ⟨hwhole, hmagic, rfl, rfl, rfl, rfl, rfl⟩ := h
  have hoffset : readU32 ((data.drop 10).take 4) 0 = data.readU32 10 := by rw [readU32_take (by omega), readU32_drop]
  have hw : readS32 ((data.drop 14).take 20) 4 = ((data.readU32 18).toNat : ℤ) := by
    rw [readS32, readU32_take (by omega), readU32_drop, toInt_word hwidth.2]
  have hh : readS32 ((data.drop 14).take 20) 8 = ((data.readU32 22).toNat : ℤ) := by
    rw [readS32, readU32_take (by omega), readU32_drop, toInt_word hheight.2]
  have hb : readU16 ((data.drop 14).take 20) 14 = data.readU16 28 := by rw [readU16_take (by omega), Cursor.readU16_drop]
  have hc : readU32 ((data.drop 14).take 20) 16 = data.readU32 30 := by rw [readU32_take (by omega), readU32_drop]
  have hp : readU32 ((data.drop 46).take 4) 0 = data.readU32 46 := by rw [readU32_take (by omega), readU32_drop]
  have hnot : ¬((data.length < 54 || decide (data.take 2 ≠ [66, 77])) = true) := by
    simp only [hmagic, ne_eq, not_true_eq_false, decide_false, Bool.or_false, decide_eq_true_eq]
    omega
  rw [decodeBmp, unpackFrom, unpackFrom, unpackFrom, if_neg hnot, if_pos (by omega), if_pos (by omega), if_pos (by omega)]
  simp only [bind, Except.bind, pure, Except.pure, hoffset, hw, hh, hb, hc, hp, Int.natAbs_natCast, Int.toNat_natCast]
  have hpos : ¬((decide (((data.readU32 18).toNat : ℤ) ≤ 0) || decide (((data.readU32 22).toNat : ℤ) = 0)) = true) := by
    simp only [Bool.or_eq_true, decide_eq_true_eq]
    omega
  have hup : ((data.readU32 22).toNat : ℤ) > 0 := by omega
  have hbits : ∀ n : UInt16, data.readU16 28 = n ↔ (data.readU16 28).toNat = n.toNat := fun n => UInt16.toNat_inj.symm
  rw [if_neg hpos]
  simp only [if_pos hup, Bool.and_eq_true, Bool.or_eq_true, decide_eq_true_eq, ne_eq, hbits, UInt16.reduceToNat]
  by_cases h24 : (data.readU16 28).toNat = 24 ∧ (data.readU32 30).toNat = 0
  · rw [if_pos h24, if_pos h24]
    split <;> rfl
  · rw [if_neg h24, if_neg h24]
    by_cases hbad : ¬(data.readU16 28).toNat = 8 ∨ (data.readU32 30).toNat > 1
    · rw [if_pos hbad, if_pos hbad]
      rfl
    · rw [if_neg hbad, if_neg hbad]
      cases decodeIndexed data (data.readU32 10).toNat (data.readU32 46).toNat (data.readU32 30).toNat
        (data.readU32 18).toNat (data.readU32 22).toNat <;> rfl

/-! ## The rows -/

/-- The rows of an image, decoded: `colour y x` is the colour at a row and a column. -/
def colourRows (width height : ℕ) (colour : ℕ → ℕ → Colour) : List Bytes :=
  (List.range height).map fun y => (List.range width).flatMap fun x => (colour y x).rgb

theorem colourRows_congr {colour colour' : ℕ → ℕ → Colour} (h : ∀ y < height, ∀ x < width, colour y x = colour' y x) :
    colourRows width height colour = colourRows width height colour' := by
  apply List.map_congr_left
  intro y hy
  apply List.flatMap_congr
  intro x hx
  rw [h y (List.mem_range.1 hy) x (List.mem_range.1 hx)]

/-- A file has its rows from the bottom up. -/
theorem colourRows_reverse (colour : ℕ → ℕ → Colour) :
    (colourRows width height colour).reverse = colourRows width height fun y x => colour (height - (y + 1)) x := by
  apply List.ext_getElem
  · simp [colourRows]
  · intro y hy hy'
    rw [colourRows, List.length_map, List.length_range] at hy'
    simp only [colourRows, List.getElem_reverse, List.length_map, List.length_range, List.getElem_map, List.getElem_range]
    rw [Nat.sub_sub, Nat.add_comm 1 y]

/-- A byte of a decoded row. -/
theorem colours_at {n x k : ℕ} (colour : ℕ → Colour) (hx : x < n) (hk : k < 3) :
    at' ((List.range n).flatMap fun x => (colour x).rgb) (x * 3 + k) = (colour x).rgb.at' k := by
  have hlength : ∀ n, ((List.range n).flatMap fun x => (colour x).rgb).length = n * 3 := by
    intro n
    simp [List.length_flatMap, Colour.rgb]
  have hthree : (colour x).rgb.length = 3 := rfl
  induction n with
  | zero => exact absurd hx (Nat.not_lt_zero x)
  | succ n ih =>
    have hn := hlength n
    rw [List.range_succ, List.flatMap_append, List.flatMap_singleton]
    rcases Nat.lt_succ_iff_lt_or_eq.1 hx with hlt | rfl
    · rw [← ih hlt, at', at', List.getD_eq_getElem?_getD, List.getD_eq_getElem?_getD,
        List.getElem?_append_left (by omega)]
    · rw [← hn, at'_append_right]

theorem colourRows_at {y x k : ℕ} (colour : ℕ → ℕ → Colour) (hy : y < height) (hx : x < width) (hk : k < 3) :
    at' ((colourRows width height colour).getD y []) (x * 3 + k) = (colour y x).rgb.at' k := by
  have hrow : (colourRows width height colour).getD y [] = (List.range width).flatMap fun x => (colour y x).rgb := by
    rw [List.getD_eq_getElem?_getD, colourRows, List.getElem?_map, List.getElem?_range hy]
    rfl
  rw [hrow, colours_at _ hx hk]

/-- The colour that stands at a place of a file. -/
def storedColour (data : Bytes) (place : ℕ) : Colour := ⟨data.at' place, data.at' (place + 1), data.at' (place + 2)⟩

/-- **A 24-bit file** is decoded to the colours of its pixels. -/
theorem decodeBmp_24 (h : BmpHead data offset width height 24 0) (hwidth : 1 ≤ width ∧ width < 2 ^ 31)
    (hheight : 1 ≤ height ∧ height < 2 ^ 31) (hroom : offset + shotStride24 width * height ≤ data.length) :
    decodeBmp data = .ok (width, height, colourRows width height fun y x =>
      storedColour data (offset + (height - (y + 1)) * shotStride24 width + x * 3)) := by
  have hstride : (width * 3 + 3) / 4 * 4 = shotStride24 width := rfl
  have hrows : (colourRows width height _).reverse = _ := colourRows_reverse fun y x =>
    storedColour data (offset + y * shotStride24 width + x * 3)
  rw [decodeBmp_head h hwidth hheight, if_pos ⟨rfl, rfl⟩, hstride, if_neg (by omega), ← hrows]
  rfl

/-- **A palettised file** is decoded to the colours that its indices name. -/
theorem decodeBmp_8 {colours : ℕ} {index : ℕ → ℕ → UInt8} (h : BmpHead data (54 + colours * 4) width height 8 compression)
    (hwidth : 1 ≤ width ∧ width < 2 ^ 31) (hheight : 1 ≤ height ∧ height < 2 ^ 31) (hcompression : compression ≤ 1)
    (hcolours : 1 ≤ colours ∧ colours ≤ 256) (hfield : (data.readU32 46).toNat = colours)
    (hroom : 54 + colours * 4 ≤ data.length)
    (hindices : decodeIndices data (54 + colours * 4) compression width height =
      .ok ((List.range height).map fun y => (List.range width).map fun x => index y x))
    (hindex : ∀ y < height, ∀ x < width, (index y x).toNat < colours) :
    decodeBmp data = .ok (width, height, colourRows width height fun y x =>
      storedColour data (54 + (index (height - (y + 1)) x).toNat * 4)) := by
  have hsmall : ¬(((List.range height).map fun y => (List.range width).map fun x => index y x).any fun row =>
      row.any fun i => decide (i.toNat ≥ colours)) = true := by
    simp only [List.any_eq_true, List.mem_map, List.mem_range, decide_eq_true_eq, not_exists, not_and]
    rintro row ⟨y, hy, rfl⟩ i hi
    obtain ⟨x, hx, rfl⟩ := List.mem_map.1 hi
    exact Nat.not_le.2 (hindex y hy x (List.mem_range.1 hx))
  have hrows : (colourRows width height _).reverse = _ := colourRows_reverse fun y x =>
    storedColour data (54 + (index y x).toNat * 4)
  have hdecoded : decodeIndexed data (54 + colours * 4) colours compression width height =
      .ok (colourRows width height fun y x => storedColour data (54 + (index y x).toNat * 4)) := by
    unfold decodeIndexed
    dsimp only
    rw [if_neg (by omega : ¬colours = 0), if_neg (by
      simp only [Bool.or_eq_true, decide_eq_true_eq]
      omega), hindices]
    simp only [bind, Except.bind, pure, Except.pure]
    rw [if_neg hsmall]
    apply congrArg Except.ok
    rw [List.map_map]
    apply List.map_congr_left
    intro y _
    exact List.flatMap_map _ _ _
  rw [decodeBmp_head h hwidth hheight, if_neg (by omega), if_neg (by omega), hfield, hdecoded, ← hrows]
  rfl

end V9xRemote
