import V9xRemote.Proof.ShotIndex

/-!
# What the agent's files decode to

Both forms of a shaped screenshot have the header that the host goes by. The 24-bit image is decoded to the colours of
its rows, and the palettised one to those that its indices name.
-/

namespace V9xRemote

open Bytes Checked Segments Cursor

variable {output : Bytes} {width height bits compression colours n ow oh : ℕ}

/-- A half word that stands is read. -/
theorem readU16_stands {i : ℕ} {v : UInt16} (h : Stands output i (writeU16 v)) : output.readU16 i = v := by
  have htwo : (writeU16 v).length = 2 := rfl
  have h0 := at'_stands h (show 0 < (writeU16 v).length by omega)
  have h1 := at'_stands h (show 1 < (writeU16 v).length by omega)
  rw [Nat.add_zero] at h0
  have hword := Cursor.readU16_writeU16 v []
  rw [List.append_nil, readU16, Nat.zero_add] at hword
  rw [readU16, h0, h1, hword]

/-- **A header that was written** is one that the host reads. -/
theorem BmpReads.head (h : BmpReads output width height bits compression colours) (hn : 54 ≤ n ∧ n ≤ output.length)
    (hwidth : width < 2 ^ 32) (hheight : height < 2 ^ 32) (hbits : bits < 2 ^ 16) (hcompression : compression < 2 ^ 32)
    (hcolours : colours ≤ 256) :
    BmpHead (output.take n) (54 + colours * 4) width height bits compression := by
  have hnat : ∀ {v : ℕ}, v < 2 ^ 32 → (UInt32.ofNat v).toNat = v := fun hv => UInt32.toNat_ofNat_of_lt' hv
  have hmagic : output.take 2 = [66, 77] := h.magic.take
  have hheader : shotBmpHeader = 54 := rfl
  refine ⟨?_, ?_, ?_, ?_, ?_, ?_, ?_⟩
  · rw [List.length_take]
    omega
  · rw [List.take_take, Nat.min_eq_left (by omega), hmagic]
  · rw [readU32_take (by omega), readU32_stands h.offset, hnat (by omega), hheader]
  · rw [readU32_take (by omega), readU32_stands h.width, hnat hwidth]
  · rw [readU32_take (by omega), readU32_stands h.height, hnat hheight]
  · rw [readU16_take (by omega), readU16_stands h.bits, UInt16.toNat_ofNat_of_lt' hbits]
  · rw [readU32_take (by omega), readU32_stands h.compression, hnat hcompression]

/-! ## 24 bits -/

theorem storedColour_take {place : ℕ} (h : place + 3 ≤ n) : storedColour (output.take n) place = storedColour output place := by
  rw [storedColour, storedColour, at'_take (by omega), at'_take (by omega), at'_take (by omega)]

section

variable {channel : ℕ → ℕ → ℕ → ℕ} {region : ShotRegion}

/-- A pixel of an output row. -/
theorem shapedRow_at {oy ox k : ℕ} (hox : ox < ow) (hk : k < 3) :
    at' (shapedRow channel region ow oh oy) (ox * 3 + k) = (shapedColour channel region ow oh oy ox).bytes.at' k := by
  have hpixels := shapedPixels_length channel region ow oh oy
  have hpart : ∀ n, ox < n → at' (shapedPixels channel region ow oh oy n) (ox * 3 + k) =
      (shapedColour channel region ow oh oy ox).bytes.at' k := by
    intro n hn
    induction n with
    | zero => exact absurd hn (Nat.not_lt_zero ox)
    | succ n ih =>
      have hlength := hpixels n
      rw [shapedPixels_succ]
      rcases Nat.lt_succ_iff_lt_or_eq.1 hn with hlt | rfl
      · rw [← ih hlt, at', at', List.getD_eq_getElem?_getD, List.getD_eq_getElem?_getD,
          List.getElem?_append_left (by omega)]
      · rw [← hlength, at'_append_right]
  have hlength := hpixels ow
  rw [← hpart ow hox, shapedRow, at', at', List.getD_eq_getElem?_getD, List.getD_eq_getElem?_getD,
    List.getElem?_append_left (by omega)]

/-- A pixel of the 24-bit image; the file has its rows from the bottom up. -/
theorem Image24.colour {oy ox : ℕ} (h : Image24 channel region ow oh output) (hoy : oy < oh) (hox : ox < ow) :
    storedColour output (54 + (oh - (oy + 1)) * shotStride24 ow + ox * 3) = shapedColour channel region ow oh oy ox := by
  have hstride := le_stride24 ow
  have hlength := shapedRow_length channel region ow oh oy
  have hat : ∀ k < 3, output.at' (54 + (oh - (oy + 1)) * shotStride24 ow + (ox * 3 + k)) =
      (shapedColour channel region ow oh oy ox).bytes.at' k := fun k hk => by
    rw [← shapedRow_at hox hk]
    exact at'_stands (h.rows oy hoy) (by omega)
  have h0 := hat 0 (by decide)
  have h1 := hat 1 (by decide)
  have h2 := hat 2 (by decide)
  simp only [← Nat.add_assoc, Nat.add_zero] at h0 h1 h2
  rw [storedColour, h0, h1, h2]
  rfl

/-- **The 24-bit image** is decoded to its colours. -/
theorem Image24.decoded (h : Image24 channel region ow oh output) (how : 1 ≤ ow ∧ ow < 2 ^ 31) (hoh : 1 ≤ oh ∧ oh < 2 ^ 31)
    (hroom : 54 + shotStride24 ow * oh ≤ output.length) :
    decodeBmp (output.take (54 + shotStride24 ow * oh)) = .ok (ow, oh, colourRows ow oh (shapedColour channel region ow oh)) := by
  have hhead := h.header.head ⟨Nat.le_add_right 54 _, hroom⟩ (by omega) (by omega) (by decide) (by decide) (Nat.zero_le _)
  rw [Nat.zero_mul, Nat.add_zero] at hhead
  have hlength : (output.take (54 + shotStride24 ow * oh)).length = 54 + shotStride24 ow * oh := by
    rw [List.length_take]
    omega
  rw [decodeBmp_24 hhead how hoh (by omega)]
  refine congrArg (fun rows => Except.ok (ow, oh, rows)) (colourRows_congr fun y hy x hx => ?_)
  have hstride := le_stride24 ow
  have hrow : (oh - (y + 1)) * shotStride24 ow + shotStride24 ow ≤ shotStride24 ow * oh := row_le (by omega)
  rw [storedColour_take (by omega), h.colour hy hx]

/-- A pixel of the image, counted through the rows of the file. -/
theorem Image24.imagePixel {y x : ℕ} (h : Image24 channel region ow oh output) (hy : y < oh) (hx : x < ow) :
    imagePixel output ow ((oh - (y + 1)) * ow + x) = shapedColour channel region ow oh y x := by
  have hpos : 0 < ow := by omega
  have hheader : shotBmpHeader = 54 := rfl
  rw [V9xRemote.imagePixel, Nat.mul_comm (oh - (y + 1)) ow, Nat.mul_add_div hpos, Nat.div_eq_of_lt hx, Nat.add_zero,
    Nat.mul_add_mod, Nat.mod_eq_of_lt hx, hheader, h.colour hy hx]

end

/-! ## 8 bits -/

/-- Where indices are decoded, the rows start in the file. -/
theorem decodeIndices_inside {data : Bytes} {start : ℕ} {image : List Bytes}
    (h : decodeIndices data start compression width height = .ok image) : start ≤ data.length := by
  unfold decodeIndices at h
  split at h
  · dsimp only at h
    split at h
    · cases h
    · omega
  · rw [decodeRle8] at h
    split at h
    · cases h
    · omega

/-- An entry of the palette, where it stands in the file. -/
theorem PackedFile.entry {s s' : ShotBuffers} {length i : ℕ} (h : PackedFile s s' colours ow oh length) (hi : i < colours) :
    storedColour s'.output (54 + i * 4) = entryColour s.work i := by
  have hat : ∀ k < 3, s'.output.at' (54 + (i * 4 + k)) = s.work.at' (i * 4 + k) := fun k hk => by
    have hcolumns := columns_length s.work 0 0 (colours * 4)
    have hone : at' (columns s.work 0 0 (colours * 4)) (i * 4 + k) = s.work.at' (0 + (0 + (i * 4 + k))) := by
      rw [at', List.getD_eq_getElem?_getD, columns, List.getElem?_map, List.getElem?_range (by omega)]
      rfl
    rw [Nat.zero_add, Nat.zero_add] at hone
    rw [← hone]
    exact at'_stands h.palette (by omega)
  have h0 := hat 0 (by decide)
  have h1 := hat 1 (by decide)
  have h2 := hat 2 (by decide)
  simp only [← Nat.add_assoc, Nat.add_zero] at h0 h1 h2
  rw [storedColour, h0, h1, h2]
  rfl

/-- **The palettised file** is decoded to the colours that its indices name. -/
theorem PackedFile.decoded {s s' : ShotBuffers} {length : ℕ} {pixel : ℕ → Colour} (h : PackedFile s s' colours ow oh length)
    (hnames : Names s.work colours pixel (oh * ow)) (hcolours : colours ≤ 256) (how : 1 ≤ ow ∧ ow < 2 ^ 31)
    (hoh : 1 ≤ oh ∧ oh < 2 ^ 31) :
    decodeBmp (s'.output.take length) = .ok (ow, oh, colourRows ow oh fun y x => pixel ((oh - (y + 1)) * ow + x)) := by
  have hheader : shotBmpHeader = 54 := rfl
  have hfits := h.packed.fits
  have htake : (s'.output.take length).length = length := by
    rw [List.length_take]
    omega
  have hreads := h.packed.reads
  have hroom := decodeIndices_inside hreads
  rw [htake] at hroom
  rw [hheader] at hreads
  have hcompression : (s'.output.readU32 30).toNat ≤ 1 := by
    rcases h.packed.form with ⟨hform, -⟩ | ⟨hform, -⟩ <;> rw [hform] <;> decide
  have hhead := h.header.head (n := length) ⟨by omega, hfits⟩ (by omega) (by omega) (by decide) (by omega) hcolours
  -- the index of a pixel, row by row
  have hname : ∀ y < oh, ∀ x < ow, (columnAt s.work (shotWorkIndices + y * ow) (0 + x)).toNat < colours ∧
      entryColour s.work (columnAt s.work (shotWorkIndices + y * ow) (0 + x)).toNat = pixel (y * ow + x) := by
    intro y hy x hx
    have hrow : y * ow + ow ≤ ow * oh := row_le hy
    rw [Nat.mul_comm ow oh] at hrow
    have hplace : shotWorkIndices + y * ow + x = shotWorkIndices + (y * ow + x) := Nat.add_assoc _ _ _
    rw [Nat.zero_add, columnAt, hplace]
    exact hnames (y * ow + x) (by omega)
  have hpos : 1 ≤ colours := by
    have hfirst := (hname 0 (by omega) 0 (by omega)).1
    omega
  have hfield : (readU32 (s'.output.take length) 46).toNat = colours := by
    rw [readU32_take (by omega), readU32_stands h.header.colours, UInt32.toNat_ofNat_of_lt' (show colours < 2 ^ 32 by omega)]
  rw [decodeBmp_8 hhead how hoh hcompression ⟨hpos, hcolours⟩ hfield (by omega) hreads fun y hy x hx => (hname y hy x hx).1]
  refine congrArg (fun rows => Except.ok (ow, oh, rows)) (colourRows_congr fun y hy x hx => ?_)
  obtain ⟨hlt, hcolour⟩ := hname (oh - (y + 1)) (by omega) x hx
  rw [storedColour_take (by omega), h.entry hlt, hcolour]

end V9xRemote
