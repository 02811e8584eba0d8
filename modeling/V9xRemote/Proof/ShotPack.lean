import V9xRemote.Proof.ShotRle8

/-!
# The 8-bit form

The palette and the rows go over the 24-bit image, as an RLE8 stream where that is smaller
and row by row where it is not. Either way the host decodes the rows that were there.
-/

namespace V9xRemote

open Bytes Checked Segments

variable {ε : Type} {s : ShotBuffers} {R : ε → ShotBuffers → Prop}

/-! ## The header -/

theorem post_putShots {i : ℕ} {bytes : Bytes} {Q : Unit → ShotBuffers → Prop} (hroom : i + bytes.length ≤ s.output.length)
    (h : Q () { s with output := write s.output i bytes }) : Post (putShots i bytes) s Q R := by
  induction bytes generalizing s i with
  | nil =>
    have hnil : write s.output i [] = s.output := by simp [write]
    rw [hnil] at h
    exact post_pure.2 h
  | cons b bytes ih =>
    rw [List.length_cons] at hroom
    rw [putShots, post_bind, post_putShot]
    refine ⟨by omega, ih ?_ ?_⟩
    · rw [List.length_set]
      omega
    · rw [write_cons hroom] at h
      exact h

/-- The fields of a header. -/
def bmpFields (width height bits compression colours imageBytes : ℕ) : List (ℕ × Bytes) :=
  [(0, List.replicate shotBmpHeader 0), (0, [66, 77]),
    (2, writeU32 (UInt32.ofNat (shotBmpHeader + colours * 4 + imageBytes))),
    (10, writeU32 (UInt32.ofNat (shotBmpHeader + colours * 4))), (14, writeU32 40), (18, writeU32 (UInt32.ofNat width)),
    (22, writeU32 (UInt32.ofNat height)), (26, writeU16 1), (28, writeU16 (UInt16.ofNat bits)),
    (30, writeU32 (UInt32.ofNat compression)), (34, writeU32 (UInt32.ofNat imageBytes)), (38, writeU32 2835),
    (42, writeU32 2835), (46, writeU32 (UInt32.ofNat colours)), (50, writeU32 (UInt32.ofNat colours))]

/-- What a header leaves. -/
structure BmpHeaded (compression colours imageBytes : ℕ) (s s' : ShotBuffers) : Prop where
  work : s'.work = s.work
  length : s'.output.length = s.output.length
  behind : s'.output.drop shotBmpHeader = s.output.drop shotBmpHeader
  size : Stands s'.output 2 (writeU32 (UInt32.ofNat (shotBmpHeader + colours * 4 + imageBytes)))
  offset : Stands s'.output 10 (writeU32 (UInt32.ofNat (shotBmpHeader + colours * 4)))
  compression : Stands s'.output 30 (writeU32 (UInt32.ofNat compression))

/-- The fields of a header that a reader goes by. -/
structure BmpReads (output : Bytes) (width height bits compression colours : ℕ) : Prop where
  magic : Stands output 0 [66, 77]
  offset : Stands output 10 (writeU32 (UInt32.ofNat (shotBmpHeader + colours * 4)))
  width : Stands output 18 (writeU32 (UInt32.ofNat width))
  height : Stands output 22 (writeU32 (UInt32.ofNat height))
  bits : Stands output 28 (writeU16 (UInt16.ofNat bits))
  compression : Stands output 30 (writeU32 (UInt32.ofNat compression))
  colours : Stands output 46 (writeU32 (UInt32.ofNat colours))

theorem bmpFields_inside (width height bits compression colours imageBytes : ℕ) :
    ∀ w ∈ bmpFields width height bits compression colours imageBytes, w.1 + w.2.length ≤ shotBmpHeader := by
  simp [bmpFields, shotBmpHeader, writeU16]

/-- One field more of those that are to be written. -/
theorem post_field {fields : List (ℕ × Bytes)} (hfields : ∀ w ∈ fields, w.1 + w.2.length ≤ s.output.length) (k : ℕ)
    {i : ℕ} {bytes : Bytes} {Q : Unit → ShotBuffers → Prop} (hk : fields[k]? = some (i, bytes))
    (h : Q () { s with output := writes s.output (fields.take (k + 1)) }) :
    Post (putShots i bytes) { s with output := writes s.output (fields.take k) } Q R := by
  have htake : ∀ w ∈ fields.take k, w.1 + w.2.length ≤ s.output.length := fun w hw => hfields w (List.mem_of_mem_take hw)
  have hroom : i + bytes.length ≤ s.output.length := hfields (i, bytes) (List.mem_of_getElem? hk)
  refine post_putShots (by rw [writes_length htake]; exact hroom) ?_
  rw [List.take_add_one, hk, writes_append] at h
  exact h

/-- A field that none of the later ones goes over. -/
theorem stands_field {fields : List (ℕ × Bytes)} {output : Bytes} (hfields : ∀ w ∈ fields, w.1 + w.2.length ≤ output.length)
    (k : ℕ) {i : ℕ} {bytes : Bytes} (hk : fields[k]? = some (i, bytes))
    (hapart : ∀ w ∈ fields.drop (k + 1), i + bytes.length ≤ w.1 ∨ w.1 + w.2.length ≤ i) :
    Stands (writes output fields) i bytes := by
  have htake : ∀ w ∈ fields.take k, w.1 + w.2.length ≤ output.length := fun w hw => hfields w (List.mem_of_mem_take hw)
  have hdrop : ∀ w ∈ fields.drop (k + 1), w.1 + w.2.length ≤ output.length := fun w hw =>
    hfields w (List.mem_of_mem_drop hw)
  have hroom : i + bytes.length ≤ output.length := hfields (i, bytes) (List.mem_of_getElem? hk)
  have hsplit : fields = fields.take k ++ (i, bytes) :: fields.drop (k + 1) := by
    obtain ⟨hlt, hget⟩ := List.getElem?_eq_some_iff.1 hk
    rw [← hget, ← List.drop_eq_getElem_cons hlt, List.take_append_drop]
  have hlength := writes_length htake
  have hwritten : (write (writes output (fields.take k)) i bytes).length = output.length := by
    rw [write_length (by omega), hlength]
  have hstands : Stands (write (writes output (fields.take k)) i bytes) i bytes := stands_write (by omega)
  rw [hsplit, writes_append, writes_cons]
  exact hstands.writes (fun w hw => by rw [hwritten]; exact hdrop w hw) hapart

/-- **The header** is written field by field. -/
theorem post_bmpHeader {width height bits compression colours imageBytes : ℕ} (hroom : shotBmpHeader ≤ s.output.length)
    (hsize : shotBmpHeader + colours * 4 + imageBytes < 2 ^ 32) :
    Post (bmpHeader width height bits compression colours imageBytes) s
      (fun _ s' => BmpHeaded compression colours imageBytes s s' ∧
        BmpReads s'.output width height bits compression colours) R := by
  have hinside := bmpFields_inside width height bits compression colours imageBytes
  have hfields : ∀ w ∈ bmpFields width height bits compression colours imageBytes, w.1 + w.2.length ≤ s.output.length :=
    fun w hw => (hinside w hw).trans hroom
  have hend : BmpHeaded compression colours imageBytes s
      { s with output := writes s.output (bmpFields width height bits compression colours imageBytes) } := by
    refine ⟨rfl, writes_length hfields, drop_writes hroom hinside, stands_field hfields 2 rfl ?_,
      stands_field hfields 3 rfl ?_, stands_field hfields 9 rfl ?_⟩
    all_goals simp [bmpFields, writeU16]
  have hreads : BmpReads (writes s.output (bmpFields width height bits compression colours imageBytes)) width height bits
      compression colours := by
    refine ⟨stands_field hfields 1 rfl ?_, hend.offset, stands_field hfields 5 rfl ?_, stands_field hfields 6 rfl ?_,
      stands_field hfields 8 rfl ?_, hend.compression, stands_field hfields 13 rfl ?_⟩
    all_goals simp [bmpFields, writeU16]
  simp only [bmpHeader, post_bind, post_shotU32]
  refine ⟨by omega, hsize, ?_⟩
  refine post_field hfields 0 rfl ?_
  refine post_field hfields 1 rfl ?_
  refine post_field hfields 2 rfl ?_
  refine post_field hfields 3 rfl ?_
  refine post_field hfields 4 rfl ?_
  refine post_field hfields 5 rfl ?_
  refine post_field hfields 6 rfl ?_
  refine post_field hfields 7 rfl ?_
  refine post_field hfields 8 rfl ?_
  refine post_field hfields 9 rfl ?_
  refine post_field hfields 10 rfl ?_
  refine post_field hfields 11 rfl ?_
  refine post_field hfields 12 rfl ?_
  refine post_field hfields 13 rfl ?_
  exact post_field hfields 14 rfl ⟨hend, hreads⟩

/-! ## The rows -/

/-- Buffers of the sizes that the planning functions compute. -/
structure ShotRoom (s : ShotBuffers) (ow oh : ℕ) : Prop where
  output : shotBmpHeader + shotPaletteBytes + shotStride24 ow * oh ≤ s.output.length
  work : shotWorkIndices + ow * oh ≤ s.work.length
  outputSize : s.output.length < 2 ^ 32
  workSize : s.work.length < 2 ^ 32

variable {ow oh colours : ℕ}

theorem le_stride8 (ow : ℕ) : ow ≤ shotStride8 ow := by
  unfold shotStride8
  omega

theorem stride8_le (ow : ℕ) : shotStride8 ow ≤ shotStride24 ow := by
  unfold shotStride8 shotStride24
  omega

/-- The rows of the 8-bit form fit where the 24-bit image was. -/
theorem ShotRoom.raw8 (h : ShotRoom s ow oh) (hcolours : colours ≤ 256) :
    shotBmpHeader + colours * 4 + shotStride8 ow * oh ≤ s.output.length := by
  have hmul : shotStride8 ow * oh ≤ shotStride24 ow * oh := Nat.mul_le_mul_right _ (stride8_le ow)
  have := h.output
  unfold shotPaletteBytes at this
  omega

/-- What the loops over the rows keep. -/
structure SameRoom (s s' : ShotBuffers) : Prop where
  work : s'.work = s.work
  length : s'.output.length = s.output.length

/-- The first rows of the uncompressed form. -/
def RawRows (start ow : ℕ) (s : ShotBuffers) (y : ℕ) (s' : ShotBuffers) : Prop :=
  SameRoom s s' ∧
    ∀ k < y, Stands s'.output (start + k * shotStride8 ow) (columns s.work (shotWorkIndices + k * ow) 0 ow)

theorem row_le {stride k n : ℕ} (h : k < n) : k * stride + stride ≤ stride * n := by
  calc k * stride + stride = (k + 1) * stride := (Nat.succ_mul k stride).symm
    _ ≤ n * stride := Nat.mul_le_mul_right _ h
    _ = stride * n := Nat.mul_comm _ _

/-- **A row** of the uncompressed form; what stands before the rows is left. -/
theorem post_shotRawRow {start y : ℕ} {s' : ShotBuffers} (hroom : start + shotStride8 ow * oh ≤ s.output.length)
    (hwork : shotWorkIndices + ow * oh ≤ s.work.length) (houtputSize : s.output.length < 2 ^ 32)
    (hworkSize : s.work.length < 2 ^ 32) (hy : y < oh) (h : RawRows start ow s y s') :
    Post (shotRawRow ow start y) s'
      (fun _ s'' => RawRows start ow s (y + 1) s'' ∧ s''.output.take start = s'.output.take start) R := by
  obtain ⟨⟨hsame, hlength⟩, hrows⟩ := h
  have hle := le_stride8 ow
  have hrow : y * shotStride8 ow + shotStride8 ow ≤ shotStride8 ow * oh := row_le hy
  have hbefore : y * ow + ow ≤ ow * oh := row_le hy
  have hcolumns := columns_length s.work (shotWorkIndices + y * ow) 0 ow
  rw [shotRawRow, post_bind, post_shotU32]
  refine ⟨by omega, ?_⟩
  rw [post_bind, post_shotU32]
  refine ⟨by omega, ?_⟩
  rw [post_bind]
  refine (post_foldlM_range (I := fun x _ s'' => s''.work = s.work ∧
    s''.output = write s'.output (start + y * shotStride8 ow) (columns s.work (shotWorkIndices + y * ow) 0 x)) ow
    ?_ ⟨hsame, by simp [columns, write]⟩).imp ?_ fun _ _ h => h
  · rintro x hx _ s'' ⟨hwork', houtput'⟩
    have hx' := columns_length s.work (shotWorkIndices + y * ow) 0 x
    have hone : columns s.work (shotWorkIndices + y * ow) (0 + x) 1 =
        [s.work.at' (shotWorkIndices + y * ow + x)] := by
      simp [columns, columnAt]
    rw [post_bind, post_readWork, post_putShot, hwork', houtput', columns_append, hone, write_length (by omega)]
    refine ⟨by omega, by omega, rfl, ?_⟩
    rw [← set_write (by omega), hx']
  · rintro _ s'' ⟨hwork', houtput'⟩
    have hwrite : s''.output.length = s.output.length := by rw [houtput', write_length (by omega), hlength]
    refine post_putShots (by rw [List.length_replicate, hwrite]; omega) ?_
    refine ⟨⟨⟨hwork', ?_⟩, fun k hk => ?_⟩, ?_⟩
    · rw [write_length (by rw [List.length_replicate, hwrite]; omega), hwrite]
    · dsimp only
      rw [houtput']
      -- neither write of this row goes over an earlier one
      rcases Nat.eq_or_lt_of_le (Nat.le_of_lt_succ hk) with rfl | hlt
      · exact (stands_write (by omega)).write (by rw [List.length_replicate, ← houtput', hwrite]; omega) (.inl (by omega))
      · have hkrow : k * shotStride8 ow + shotStride8 ow ≤ shotStride8 ow * y := row_le hlt
        rw [Nat.mul_comm (shotStride8 ow) y] at hkrow
        have hk' := columns_length s.work (shotWorkIndices + k * ow) 0 ow
        exact ((hrows k hlt).write (by omega) (.inl (by omega))).write
          (by rw [List.length_replicate, ← houtput', hwrite]; omega) (.inl (by omega))
    · dsimp only
      rw [take_write (by omega) (by omega), houtput', take_write (by omega) (by omega)]

/-! ## Packing -/

/-- The 8-bit form: its length is in its header, and the host decodes its rows. -/
structure Packed (s s' : ShotBuffers) (colours ow oh length : ℕ) : Prop where
  same : SameRoom s s'
  fits : length ≤ s'.output.length
  size : s'.output.readU32 2 = UInt32.ofNat length
  form : (s'.output.readU32 30 = 1 ∧ length < shotBmpHeader + colours * 4 + shotStride8 ow * oh) ∨
    (s'.output.readU32 30 = 0 ∧ length = shotBmpHeader + colours * 4 + shotStride8 ow * oh)
  reads : decodeIndices (s'.output.take length) (shotBmpHeader + colours * 4) (s'.output.readU32 30).toNat ow oh =
    .ok (imageRows s.work shotWorkIndices ow oh)

/-- The 8-bit form as a file: the header and the palette stand in front of the rows. -/
structure PackedFile (s s' : ShotBuffers) (colours ow oh length : ℕ) : Prop where
  packed : Packed s s' colours ow oh length
  header : BmpReads s'.output ow oh 8 (s'.output.readU32 30).toNat colours
  palette : Stands s'.output shotBmpHeader (columns s.work 0 0 (colours * 4))

/-- A byte of a segment. -/
theorem at'_stands {output cells : Bytes} {i k : ℕ} (h : Stands output i cells) (hk : k < cells.length) :
    output.at' (i + k) = cells.at' k := by
  rw [at', at', List.getD_eq_getElem?_getD, List.getD_eq_getElem?_getD, h k hk]

/-- A word that stands is read. -/
theorem readU32_stands {output : Bytes} {i : ℕ} {v : UInt32} (h : Stands output i (writeU32 v)) :
    output.readU32 i = v := by
  have hat : ∀ k < 4, output.at' (i + k) = (writeU32 v ++ []).at' k := by
    rw [List.append_nil]
    exact fun k hk => at'_stands h hk
  have hword : output.readU32 i = (writeU32 v ++ []).readU32 0 := by
    have h0 := hat 0 (by omega)
    rw [Nat.add_zero] at h0
    rw [readU32, readU32, h0, hat 1 (by omega), hat 2 (by omega), hat 3 (by omega)]
  rw [hword, readU32_writeU32]

theorem imageRows_eq_take {output work : Bytes} {start length : ℕ} (hlength : start + shotStride8 ow * oh = length)
    (h : ∀ k < oh, Stands output (start + k * shotStride8 ow) (columns work (shotWorkIndices + k * ow) 0 ow)) :
    (List.range oh).map (fun y => ((output.take length).drop (start + y * shotStride8 ow)).take ow) =
      imageRows work shotWorkIndices ow oh := by
  refine List.map_congr_left fun y hy => ?_
  have hlt := List.mem_range.1 hy
  have hle := le_stride8 ow
  have hrow : y * shotStride8 ow + shotStride8 ow ≤ shotStride8 ow * oh := row_le hlt
  have hcolumns := columns_length work (shotWorkIndices + y * ow) 0 ow
  apply List.ext_getElem?
  intro k
  by_cases hk : k < ow
  · rw [List.getElem?_take_of_lt hk, List.getElem?_drop, List.getElem?_take_of_lt (by omega)]
    exact h y hlt k (by omega)
  · rw [List.getElem?_eq_none (by rw [List.length_take]; omega), List.getElem?_eq_none (by omega)]

theorem SameRoom.trans {s' s'' : ShotBuffers} (h : SameRoom s s') (h' : SameRoom s' s'') : SameRoom s s'' :=
  ⟨h'.work.trans h.work, h'.length.trans h.length⟩

theorem BmpHeaded.same {compression imageBytes : ℕ} {s' : ShotBuffers} (h : BmpHeaded compression colours imageBytes s s') :
    SameRoom s s' := ⟨h.work, h.length⟩

/-- What stands behind the header is left by it. -/
theorem BmpHeaded.stands {compression imageBytes i : ℕ} {s' : ShotBuffers} {cells : Bytes}
    (h : BmpHeaded compression colours imageBytes s s') (hi : shotBmpHeader ≤ i) (hs : Stands s.output i cells) :
    Stands s'.output i cells := by
  intro k hk
  have hsplit : i + k = shotBmpHeader + (i + k - shotBmpHeader) := by omega
  rw [hsplit, ← List.getElem?_drop, h.behind, List.getElem?_drop, ← hsplit]
  exact hs k hk

/-- **The uncompressed form**: row by row. -/
theorem post_shotRaw {s' : ShotBuffers} (hroom : ShotRoom s ow oh) (hcolours : colours ≤ 256) (hsame : SameRoom s s')
    (hpalette : Stands s'.output shotBmpHeader (columns s.work 0 0 (colours * 4))) :
    Post (do
        (List.range oh).foldlM (fun _ y => shotRawRow ow (shotBmpHeader + colours * 4) y) ()
        bmpHeader ow oh 8 0 colours (shotStride8 ow * oh)
        shotU32 (shotBmpHeader + colours * 4 + shotStride8 ow * oh)) s'
      (fun length s'' => PackedFile s s'' colours ow oh length) R := by
  have hraw := hroom.raw8 hcolours
  have hsize := hroom.outputSize
  have hcolumns := columns_length s.work 0 0 (colours * 4)
  rw [post_bind]
  refine (post_foldlM_range (I := fun y _ s'' => RawRows (shotBmpHeader + colours * 4) ow s y s'' ∧
    s''.output.take (shotBmpHeader + colours * 4) = s'.output.take (shotBmpHeader + colours * 4)) oh ?_
    ⟨⟨hsame, fun k hk => absurd hk (Nat.not_lt_zero k)⟩, rfl⟩).imp ?_ fun _ _ h => h
  · rintro y hy _ s'' ⟨hrows, hfront⟩
    refine (post_shotRawRow hraw hroom.work hroom.outputSize hroom.workSize hy hrows).imp ?_ fun _ _ h => h
    exact fun _ s₃ h => ⟨h.1, h.2.trans hfront⟩
  rintro _ s₁ ⟨⟨hsame₁, hrows⟩, hfront⟩
  have hlength := hsame₁.length
  rw [post_bind]
  refine (post_bmpHeader (by omega) (by omega)).imp ?_ fun _ _ h => h
  rintro _ s₂ ⟨hheaded, hfields⟩
  have hsame₂ := hsame₁.trans hheaded.same
  have hlength₂ := hsame₂.length
  have hcompression : s₂.output.readU32 30 = 0 := readU32_stands hheaded.compression
  rw [post_shotU32]
  refine ⟨by omega, ⟨hsame₂, by omega, readU32_stands hheaded.size, .inr ⟨hcompression, rfl⟩, ?_⟩,
    by rw [hcompression]; exact hfields, hheaded.stands le_rfl (hpalette.of_take hfront (by omega))⟩
  rw [hcompression, decodeIndices, if_pos (by decide : UInt32.toNat 0 = 0)]
  have htake : (s₂.output.take (shotBmpHeader + colours * 4 + shotStride8 ow * oh)).length =
      shotBmpHeader + colours * 4 + shotStride8 ow * oh := by
    rw [List.length_take]
    omega
  have hstride : (ow + 3) / 4 * 4 = shotStride8 ow := rfl
  dsimp only
  rw [hstride, htake, if_neg (by omega), imageRows_eq_take rfl fun k hk => hheaded.stands (by omega) (hrows k hk)]

/-- **The compressed form**: the stream that was written. -/
theorem post_shotCompressed {s' : ShotBuffers} {output : Bytes} {used : ℕ} (hroom : ShotRoom s ow oh) (hcolours : colours ≤ 256)
    (houtput : output.length = s.output.length) (hless : used < shotStride8 ow * oh)
    (hpalette : Stands output shotBmpHeader (columns s.work 0 0 (colours * 4)))
    (h : EncodedRows output s.work shotWorkIndices ow oh (shotBmpHeader + colours * 4) (shotStride8 ow * oh) oh used s') :
    Post (do
        bmpHeader ow oh 8 1 colours used
        shotU32 (shotBmpHeader + colours * 4 + used)) s' (fun length s'' => PackedFile s s'' colours ow oh length) R := by
  obtain ⟨lines, hlines, rfl, hlength, hfits⟩ := h
  have hcolumns := columns_length s.work 0 0 (colours * 4)
  have hraw := hroom.raw8 hcolours
  have hsize := hroom.outputSize
  have hwrite : (encoded output s.work (shotBmpHeader + colours * 4) (rle8Text oh 0 lines)).output.length =
      s.output.length := by
    rw [encoded, write_length (by omega), houtput]
  have hsame : SameRoom s (encoded output s.work (shotBmpHeader + colours * 4) (rle8Text oh 0 lines)) := ⟨rfl, hwrite⟩
  rw [post_bind]
  refine (post_bmpHeader (by omega) (by omega)).imp ?_ fun _ _ h => h
  rintro _ s₂ ⟨hheaded, hfields⟩
  have hsame₂ := hsame.trans hheaded.same
  have hlength₂ := hsame₂.length
  have hcompression : s₂.output.readU32 30 = 1 := readU32_stands hheaded.compression
  rw [post_shotU32]
  refine ⟨by omega, ⟨hsame₂, by omega, readU32_stands hheaded.size, .inl ⟨hcompression, by omega⟩, ?_⟩,
    by rw [hcompression]; exact hfields, hheaded.stands le_rfl (hpalette.write (by omega) (.inl (by omega)))⟩
  rw [hcompression, decodeIndices, if_neg (by decide)]
  -- the stream stands behind the palette
  have hstands : Stands s₂.output (shotBmpHeader + colours * 4) (rle8Text oh 0 lines) :=
    hheaded.stands (by omega) (stands_write (by omega))
  have hpos : 0 < oh := by
    rcases Nat.eq_zero_or_pos oh with rfl | hpos
    · rw [Nat.mul_zero] at hless
      omega
    · exact hpos
  have hsplit : s₂.output.take (shotBmpHeader + colours * 4 + used) =
      s₂.output.take (shotBmpHeader + colours * 4) ++ rle8Text oh 0 lines ++ [] := by
    rw [List.append_nil, List.take_add, hlength, hstands.segment]
  have hhead : (s₂.output.take (shotBmpHeader + colours * 4)).length = shotBmpHeader + colours * 4 := by
    rw [List.length_take]
    omega
  have hreads := (hlines.reads hpos).rows (s₂.output.take (shotBmpHeader + colours * 4)) []
  rw [← hsplit, hhead] at hreads
  exact hreads

/-- **The smaller form is written**, and reads back. -/
theorem post_shotPack (hroom : ShotRoom s ow oh) (hcolours : colours ≤ 256) :
    Post (shotPack colours ow oh) s (fun length s' => PackedFile s s' colours ow oh length) R := by
  have hcolumns := columns_length s.work 0 0 (colours * 4)
  have hraw := hroom.raw8 hcolours
  have hsize := hroom.outputSize
  have hwork := hroom.work
  have hworkSize := hroom.workSize
  have hindices : shotBmpHeader ≤ shotWorkIndices ∧ 1024 ≤ shotWorkIndices := by decide
  rw [shotPack, post_bind, post_shotU32]
  refine ⟨by omega, ?_⟩
  rw [post_bind, post_shotU32]
  refine ⟨by omega, ?_⟩
  rw [post_bind]
  -- the palette
  refine (post_foldlM_range (I := fun y _ s' => s'.work = s.work ∧
    s'.output = write s.output shotBmpHeader (columns s.work 0 0 y)) (colours * 4) ?_
    ⟨rfl, by simp [columns, write]⟩).imp ?_ fun _ _ h => h
  · rintro y hy _ s' ⟨hwork', houtput'⟩
    have hy' := columns_length s.work 0 0 y
    have hone : columns s.work 0 (0 + y) 1 = [s.work.at' y] := by simp [columns, columnAt]
    rw [post_bind, post_readWork, post_putShot, hwork', houtput', columns_append, hone, write_length (by omega)]
    refine ⟨by omega, by omega, rfl, ?_⟩
    rw [← set_write (by omega), hy']
  rintro _ s₁ ⟨hwork₁, houtput₁⟩
  have hpalette : Stands s₁.output shotBmpHeader (columns s.work 0 0 (colours * 4)) := by
    rw [houtput₁]
    exact stands_write (by omega)
  have hsame : SameRoom s s₁ := ⟨hwork₁, by rw [houtput₁, write_length (by omega)]⟩
  have hlength := hsame.length
  rw [post_bind, post_attempt]
  have hrle : Post (shotxfRle8 shotWorkIndices ow oh (shotBmpHeader + colours * 4) (shotStride8 ow * oh)) ⟨s₁.output, s₁.work⟩ _ _ :=
    post_shotxfRle8 (by rw [hsame.work]; exact hwork) (by omega) (by omega)
  refine hrle.imp ?_ ?_
  · intro used s₂ hencoded
    rw [hsame.work] at hencoded
    dsimp only
    rw [post_ite]
    refine ⟨fun hsmall => post_shotCompressed hroom hcolours hlength hsmall.2 hpalette hencoded, fun _ => ?_⟩
    obtain ⟨lines, -, rfl, hused, hfits⟩ := hencoded
    refine post_shotRaw hroom hcolours ⟨rfl, ?_⟩ (hpalette.write (by omega) (.inl (by omega)))
    rw [encoded, write_length (by omega), hlength]
  · rintro - s₂ ⟨t, rfl, hfits, -⟩
    dsimp only
    rw [if_neg fun h => h.1 rfl]
    refine post_shotRaw hroom hcolours ⟨hsame.work, ?_⟩ (hpalette.write (by omega) (.inl (by omega)))
    rw [encoded, write_length (by omega), hlength]

/-! ## The round trip -/

theorem rle8Text_pos {height y : ℕ} {lines : List (List Rle8Piece)} (h : lines ≠ []) :
    0 < (rle8Text height y lines).length := by
  cases lines with
  | nil => exact absurd rfl h
  | cons line lines =>
    have hmark : (rle8Mark height y).length = 2 := rfl
    rw [rle8Text, List.length_append, List.length_append]
    omega

/-- **Screenshot RLE8.** For every 8-bit image the encoder either writes, inside its capacity, a
stream of which the host's decoder reads every byte and no more and that gives the same rows,
or it reports that it has no room. It writes nowhere else. The caller then takes the stream
where it is smaller than the rows, and the rows where it is not, and the host decodes either. -/
theorem shot_rle8_round_trip :
    (∀ (s : ShotBuffers) (indices width height start capacity : ℕ), s.work.length < 2 ^ 32 →
      indices + width * height ≤ s.work.length → start + capacity ≤ s.output.length →
        ∃ r s', shotxfRle8 indices width height start capacity s = some (r, s') ∧ s'.work = s.work ∧
          s'.output.length = s.output.length ∧
          (∀ k, k < start ∨ start + capacity ≤ k → s'.output[k]? = s.output[k]?) ∧
          match r with
          | .ok used => used ≤ capacity ∧ (0 < height → 0 < used ∧
              ReadsExactly width height ((s'.output.drop start).take used) (imageRows s.work indices width height))
          | .error () => capacity < height * (2 * width + 2)) ∧
    ∀ (s : ShotBuffers) (colours ow oh : ℕ), ShotRoom s ow oh → colours ≤ 256 →
      ∃ length s', (shotPack colours ow oh : Shot Empty ℕ) s = some (.ok length, s') ∧
        Packed s s' colours ow oh length := by
  constructor
  · intro s indices width height start capacity hsize hwork houtput
    have hframe : ∀ t : Bytes, t.length ≤ capacity → ∀ k, k < start ∨ start + capacity ≤ k →
        (encoded s.output s.work start t).output[k]? = s.output[k]? := by
      intro t ht k hk
      rw [encoded, getElem?_write (by omega), if_neg (by omega)]
    have hlength : ∀ t : Bytes, t.length ≤ capacity → (encoded s.output s.work start t).output.length = s.output.length :=
      fun t ht => write_length (by omega)
    have hpost : Post (shotxfRle8 indices width height start capacity) ⟨s.output, s.work⟩ _ _ :=
      post_shotxfRle8 hwork (by omega) houtput
    obtain ⟨r, s', hrun, hends⟩ := hpost.run
    refine ⟨r, s', hrun, ?_⟩
    cases r with
    | error e =>
      obtain ⟨t, rfl, hfits, hlt⟩ := hends
      exact ⟨rfl, hlength t hfits, hframe t hfits, hlt⟩
    | ok used =>
      obtain ⟨lines, hlines, rfl, hused, hfits⟩ := hends
      have hfits' : (rle8Text height 0 lines).length ≤ capacity := by omega
      refine ⟨rfl, hlength _ hfits', hframe _ hfits', hfits, fun hpos => ?_⟩
      have hstands : Stands (encoded s.output s.work start (rle8Text height 0 lines)).output start (rle8Text height 0 lines) :=
        stands_write (by omega)
      have hne : lines ≠ [] := List.ne_nil_of_length_pos (by rw [hlines.length]; exact hpos)
      rw [hused, hstands.segment]
      exact ⟨rle8Text_pos hne, hlines.reads hpos⟩
  · intro s colours ow oh hroom hcolours
    have hpost : Post (shotPack colours ow oh : Shot Empty ℕ) s (fun length s' => Packed s s' colours ow oh length) fun _ _ => True :=
      (post_shotPack hroom hcolours).imp (fun _ _ h => h.packed) fun _ _ h => h
    obtain ⟨r, s', hrun, hends⟩ := hpost.run
    cases r with
    | error e => exact e.elim
    | ok length => exact ⟨length, s', hrun, hends⟩

/-- Two rows of four columns. -/
theorem shot_rle8_round_trip_demo :
    ∃ r s', shotxfRle8 0 4 2 2 30 ⟨List.replicate 40 0, [5, 5, 5, 7, 1, 2, 3, 4]⟩ = some (r, s') ∧
      s'.work = [5, 5, 5, 7, 1, 2, 3, 4] := by
  obtain ⟨r, s', hrun, hwork, -⟩ :=
    shot_rle8_round_trip.1 ⟨List.replicate 40 0, [5, 5, 5, 7, 1, 2, 3, 4]⟩ 0 4 2 2 30 (by decide) (by decide) (by decide)
  exact ⟨r, s', hrun, hwork⟩

end V9xRemote
