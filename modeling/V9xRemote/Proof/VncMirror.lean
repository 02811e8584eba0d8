import Mathlib.Algebra.Order.BigOperators.Group.List
import V9xRemote.Spec.VncMirror
import V9xRemote.Proof.VncBound
import V9xRemote.Proof.VncCopy
import V9xRemote.Proof.VncSampled
import V9xRemote.Proof.VncZrle

/-!
# The viewer mirrors the server

* `rect_read`, `update_read`: what is written of a rectangle, and of an update, is read to its
  end, in every encoding and wherever the zlib stream stands.
* `update_pixels`: behind an update the viewer has the dirty tiles of the reference frame, and
  elsewhere what the copy makes of its own pixels. The server's copy is the same one
  (`copied_shows`), and the comparison leaves clean tiles as they are (`compared_clean`).
* `vnc_mirror`: so over a whole run the viewer shows the reference frame, where no CPIXEL of
  ZRLE leaves out a byte in use.
-/

namespace V9xRemote

open Bytes Raster Trace

variable {s s' : VncState} {stream : VncDeflate} {v : VncViewer}

/-! ## Numbers on the wire -/

theorem takeU16_put (value : ℤ) (rest : Bytes) : takeU16 (vncPut16 value ++ rest) = some ((value % 2 ^ 16).toNat, rest) := by
  simp only [vncPut16, List.cons_append, List.nil_append, takeU16, Option.some.injEq, Prod.mk.injEq, and_true,
    UInt8.toNat_ofNat']
  omega

theorem takeU32_put (value : ℤ) (rest : Bytes) : takeU32 (vncPut32 value ++ rest) = some ((value % 2 ^ 32).toNat, rest) := by
  simp only [vncPut32, List.cons_append, List.nil_append, takeU32, Option.some.injEq, Prod.mk.injEq, and_true,
    UInt8.toNat_ofNat']
  omega

theorem readRectHead_header (x y width height : ℤ) {encoding : ℤ} (hlow : -2 ^ 31 ≤ encoding) (hhigh : encoding < 2 ^ 31)
    (rest : Bytes) :
    readRectHead (vncRectHeader x y width height encoding ++ rest) =
      some (⟨(x % 2 ^ 16).toNat, (y % 2 ^ 16).toNat, (width % 2 ^ 16).toNat, (height % 2 ^ 16).toNat, encoding⟩, rest) := by
  have hsigned : (if (encoding % 2 ^ 32).toNat < 2 ^ 31 then ((encoding % 2 ^ 32).toNat : ℤ)
      else ((encoding % 2 ^ 32).toNat : ℤ) - 2 ^ 32) = encoding := by
    split <;> omega
  simp only [readRectHead, vncRectHeader, List.append_assoc, takeU16_put, takeU32_put, Option.bind_some, Option.map_some,
    hsigned]

/-- The header of a rectangle whose numbers fit their fields. -/
theorem readRect_header {x y width height : ℕ} (hx : x < 2 ^ 16) (hy : y < 2 ^ 16) (hwidth : width < 2 ^ 16)
    (hheight : height < 2 ^ 16) {encoding : ℤ} (hlow : -2 ^ 31 ≤ encoding) (hhigh : encoding < 2 ^ 31) (v : VncViewer)
    (rest : Bytes) :
    v.readRect (vncRectHeader x y width height encoding ++ rest) = v.readRectBody ⟨x, y, width, height, encoding⟩ rest := by
  have hfits : ∀ {n : ℕ}, n < 2 ^ 16 → ((n : ℤ) % 2 ^ 16).toNat = n := fun h => by omega
  rw [VncViewer.readRect, readRectHead_header _ _ _ _ hlow hhigh, Option.bind_some, hfits hx, hfits hy, hfits hwidth,
    hfits hheight]

/-! ## The zlib stream -/

theorem inflateMore_synced (out : Bytes) {input body : Bytes} (h : Synced input body) :
    VncViewer.inflateMore out body = some (out ++ input) := by
  obtain ⟨rest, hrest⟩ := emptyFinal_fixed (out ++ input)
  rw [VncViewer.inflateMore, h.blocks, Deflate.blocks_final hrest]
  rfl

/-- **A piece of the stream** is read as what went into it. -/
theorem inflatePiece_sync (hzlib : v.zlib.isSome = stream.headerWritten) {input out : Bytes} {capacity : ℕ}
    (h : (vncDeflateSync stream input capacity).2 = some out) :
    ∃ all, v.inflatePiece out = some ({ v with zlib := some all }, input) := by
  obtain ⟨body, rfl, hbody⟩ := sync_spec h
  unfold VncViewer.inflatePiece
  cases hz : v.zlib with
  | none =>
    rw [hz] at hzlib
    have hheader : VncViewer.zlibHeader 0x78 0x01 = true := by decide
    rw [← hzlib, Option.isSome_none, if_neg Bool.false_ne_true]
    refine ⟨input, ?_⟩
    simp only [List.cons_append, List.nil_append, if_pos hheader, inflateMore_synced [] hbody, Option.map_some]
  | some before =>
    rw [hz] at hzlib
    rw [← hzlib, Option.isSome_some, if_pos rfl, List.nil_append]
    refine ⟨before ++ input, ?_⟩
    dsimp only
    rw [inflateMore_synced before hbody, Option.map_some, List.drop_left]

/-! ## Rectangles -/

instance (row column : ℕ) (rect : ℕ × ℕ × ℕ × ℕ) : Decidable (InRect row column rect) :=
  inferInstanceAs (Decidable (_ ∧ _ ∧ _ ∧ _))

/-- What a viewer makes of a pixel of the reference frame. -/
def VncState.shown (s : VncState) (native : UInt32) : ℕ :=
  match s.encoding with
  | .zrle => s.format.carried (s.format.translate native)
  | _ => (s.format.translate native).toNat

/-- What a rectangle does to the pixels of a viewer. -/
def VncState.painted (s : VncState) (pixels : ℕ → ℕ → Option ℕ) : VncUpdateRect → ℕ → ℕ → Option ℕ
  | .copy copy => fun row column =>
    if InRect row column (copy.x, copy.y, copy.w, copy.h) then
      pixels (copy.srcY + (row - copy.y)) (copy.srcX + (column - copy.x))
    else pixels row column
  | .tiles x y width height => fun row column =>
    if InRect row column (x, y, width, height) then some (s.shown (s.capture.prev row column)) else pixels row column
  | .desktopSize _ _ => fun _ _ => none
  | _ => pixels

/-- The viewer has the format and the size of the session, and has read as much of the stream. -/
structure VncViewer.Tuned (v : VncViewer) (s : VncState) (stream : VncDeflate) : Prop where
  format : v.format = s.format
  width : v.width = s.capture.width
  height : v.height = s.capture.height
  zlib : v.zlib.isSome = stream.headerWritten

/-- A session whose screen and format a viewer can be told of. -/
structure VncState.Sized (s : VncState) : Prop where
  format : s.format.InUse
  width : s.capture.width ≤ vncMaxDim
  height : s.capture.height ≤ vncMaxDim

/-- A rectangle that fits the screen. -/
def VncState.RectFits (s : VncState) : VncUpdateRect → Prop
  | .copy copy =>
    (copy.x + copy.w ≤ s.capture.width ∧ copy.y + copy.h ≤ s.capture.height) ∧
      copy.srcX + copy.w ≤ s.capture.width ∧ copy.srcY + copy.h ≤ s.capture.height
  | .shape cursor => cursor.w ≤ vncCursorMax ∧ cursor.h ≤ vncCursorMax
  | .position _ _ => True
  | .tiles x y width height => x + width ≤ s.capture.width ∧ y + height ≤ s.capture.height ∧ height ≤ vncTile
  | .desktopSize _ _ => False

/-- A viewer that has read a rectangle. -/
structure VncViewer.HasRead (v' : VncViewer) (s : VncState) (stream' : VncDeflate) (v : VncViewer) (rect : VncUpdateRect) :
    Prop where
  tuned : v'.Tuned s stream'
  pixels : v'.pixels = s.painted v.pixels rect

theorem paint_pixels {x y width height : ℕ} {picture : VncFormat.Picture}
    (h : ∀ row < height, ∀ column < width, picture row column = s.shown (s.capture.prev (y + row) (x + column))) :
    (v.paint x y width height picture).pixels = s.painted v.pixels (.tiles x y width height) := by
  funext row column
  by_cases hin : InRect row column (x, y, width, height)
  · have hbounds : x ≤ column ∧ column < x + width ∧ y ≤ row ∧ row < y + height := hin
    obtain ⟨hx, hcolumn, hy, hrow⟩ := hbounds
    have hpicture := h (row - y) (by omega) (column - x) (by omega)
    rw [Nat.add_sub_cancel' hy, Nat.add_sub_cancel' hx] at hpicture
    exact (if_pos hin).trans ((congrArg some hpicture).trans (if_pos hin).symm)
  · exact (if_neg hin).trans (if_neg hin).symm

theorem copy_read (hv : v.Tuned s stream) (hs : s.Sized) {copy : VncCapture.Copy} (hfits : s.RectFits (.copy copy))
    (rest : Bytes) :
    ∃ v', v.readRect (vncRectHeader copy.x copy.y copy.w copy.h vncEncCopyRect ++ vncPut16 copy.srcX ++
        vncPut16 copy.srcY ++ rest) = some (v', rest) ∧ v'.HasRead s stream v (.copy copy) := by
  obtain ⟨⟨htx, hty⟩, hsx, hsy⟩ := hfits
  have hwidth := hs.width
  have hheight := hs.height
  unfold vncMaxDim at hwidth hheight
  have hsrcX : ((copy.srcX : ℤ) % 2 ^ 16).toNat = copy.srcX := by omega
  have hsrcY : ((copy.srcY : ℤ) % 2 ^ 16).toNat = copy.srcY := by omega
  refine ⟨v.copy copy.x copy.y copy.w copy.h copy.srcX copy.srcY, ?_, ⟨hv.format, hv.width, hv.height, hv.zlib⟩, rfl⟩
  rw [List.append_assoc, List.append_assoc, readRect_header (by omega) (by omega) (by omega) (by omega) (by decide)
    (by decide)]
  have hinside : ¬(v.width < copy.x + copy.w ∨ v.height < copy.y + copy.h) := by
    rw [hv.width, hv.height]
    omega
  have hsource : copy.srcX + copy.w ≤ v.width ∧ copy.srcY + copy.h ≤ v.height := by
    rw [hv.width, hv.height]
    exact ⟨hsx, hsy⟩
  unfold VncViewer.readRectBody
  dsimp only
  rw [if_neg (by decide), if_neg (by decide), if_neg (by decide), VncViewer.readPixelRect, if_neg hinside, if_pos rfl,
    VncViewer.readCopyRect, takeU16_put, Option.bind_some]
  dsimp only
  rw [takeU16_put, Option.bind_some, hsrcX, hsrcY, if_pos hsource]

theorem encodeShape_length {f : VncFormat} (h : f.Accepted) (cursor : VncCursor) :
    (f.encodeShape cursor).length = cursor.w * cursor.h * f.pixelBytes + (cursor.w + 7) / 8 * cursor.h := by
  have hpixels : ∀ n, ((List.range n).flatMap fun i => f.storePixel (f.translate (cursor.rgb.getD i 0))).length =
      n * f.pixelBytes := by
    intro n
    induction n with
    | zero => rw [Nat.zero_mul]; rfl
    | succ n ih =>
      rw [List.range_succ, List.flatMap_append, List.length_append, ih, List.flatMap_cons, List.flatMap_nil,
        List.append_nil, storePixel_length h, Nat.succ_mul]
  rw [VncFormat.encodeShape, List.length_append, hpixels, raster_length, Nat.mul_comm cursor.h]

theorem shape_read (hv : v.Tuned s stream) (hs : s.Sized) {cursor : VncCursor} (hfits : s.RectFits (.shape cursor))
    (rest : Bytes) :
    v.readRect (vncRectHeader cursor.hotX cursor.hotY cursor.w cursor.h vncEncRichCursor ++ s.format.encodeShape cursor ++
        rest) = some (v, rest) := by
  obtain ⟨hw, hh⟩ := hfits
  unfold vncCursorMax at hw hh
  have hwide : ((cursor.w : ℤ) % 2 ^ 16).toNat = cursor.w := by omega
  have htall : ((cursor.h : ℤ) % 2 ^ 16).toNat = cursor.h := by omega
  have hlength := encodeShape_length hs.format.accepted cursor
  rw [VncViewer.readRect, List.append_assoc, readRectHead_header _ _ _ _ (by decide) (by decide), Option.bind_some, hwide,
    htall]
  unfold VncViewer.readRectBody
  dsimp only
  rw [if_neg (by decide), if_pos rfl, hv.format, ← hlength, if_pos (by rw [List.length_append]; omega),
    List.drop_left]

theorem position_read (v : VncViewer) (x y : ℤ) (rest : Bytes) :
    v.readRect (vncRectHeader x y 0 0 vncEncPointerPos ++ rest) = some (v, rest) := by
  rw [VncViewer.readRect, readRectHead_header _ _ _ _ (by decide) (by decide), Option.bind_some]
  unfold VncViewer.readRectBody
  dsimp only
  rw [if_pos rfl]

/-- The header of a rectangle of tiles, and what is checked of it. -/
theorem tilesHeader_read (hv : v.Tuned s stream) (hs : s.Sized) {x y width height : ℕ}
    (hfits : s.RectFits (.tiles x y width height)) {encoding : ℤ}
    (hencoding : encoding = vncEncRaw ∨ encoding = vncEncHextile ∨ encoding = vncEncZrle) (rest : Bytes) :
    v.readRect (vncRectHeader x y width height encoding ++ rest) =
      if encoding = vncEncRaw then
        (v.format.takePixels (height * width) rest).map fun (pixels, s) =>
          (v.paint x y width height fun row column => pixels.getD (row * width + column) 0, s)
      else if encoding = vncEncHextile then
        (v.format.readHextile width height rest).map fun (picture, s) => (v.paint x y width height picture, s)
      else v.readZrleRect x y width height rest := by
  obtain ⟨hright, hbottom, -⟩ := hfits
  have hwidth := hs.width
  have hheight := hs.height
  unfold vncMaxDim at hwidth hheight
  have hinside : ¬(v.width < x + width ∨ v.height < y + height) := by
    rw [hv.width, hv.height]
    omega
  have hknown : -2 ^ 31 ≤ encoding ∧ encoding < 2 ^ 31 ∧ encoding ≠ vncEncPointerPos ∧ encoding ≠ vncEncRichCursor ∧
      encoding ≠ vncEncDesktopSize ∧ encoding ≠ vncEncCopyRect := by
    rcases hencoding with rfl | rfl | rfl <;> decide
  obtain ⟨hlow, hhigh, hposition, hshape, hsize, hcopy⟩ := hknown
  rw [readRect_header (by omega) (by omega) (by omega) (by omega) hlow hhigh]
  unfold VncViewer.readRectBody
  rw [if_neg hposition, if_neg hshape, if_neg hsize, VncViewer.readPixelRect, if_neg hinside, if_neg hcopy]
  dsimp only
  rcases hencoding with rfl | rfl | rfl
  · rw [if_pos rfl, if_pos rfl]
  · rw [if_neg (by decide), if_pos rfl, if_neg (by decide), if_pos rfl]
  · rw [if_neg (by decide), if_neg (by decide), if_pos rfl, if_neg (by decide), if_neg (by decide)]

open VncFormat in
theorem encodeRaw_read {f : VncFormat} (h : f.Accepted) (frame : Frame) (x y width height : ℕ) (rest : Bytes) :
    f.takePixels (height * width) (f.encodeRaw frame x y width height ++ rest) =
      some (raster width height fun row column => (f.translate (frame (y + row) (x + column))).toNat, rest) := by
  have hfits : ∀ pixel ∈ raster width height fun row column => f.translate (frame (y + row) (x + column)), f.Fits pixel := by
    intro pixel hpixel
    obtain ⟨row, -, column, -, rfl⟩ := mem_raster.1 hpixel
    exact translate_lt h _
  have hread := takePixels_store h hfits rest
  rw [raster_length, map_raster] at hread
  exact hread

/-- Enough room for the compressor, whatever the pixels are. -/
theorem sendZrle_piece (hs : s.Sized) (stream : VncDeflate) {x y width height : ℕ}
    (hfits : s.RectFits (.tiles x y width height)) :
    ∃ tiles packed, s.format.sendZrle s.capture.prev stream x y width height =
        some ((vncDeflateSync stream tiles (vncDeflateBound (UInt32.ofNat vncZrleRawCap)).toNat).1,
          vncPut32 packed.length ++ packed) ∧
      (vncDeflateSync stream tiles (vncDeflateBound (UInt32.ofNat vncZrleRawCap)).toNat).2 = some packed ∧
      packed.length < 2 ^ 32 ∧
      ∃ picture, s.format.readZrle width height tiles = some (picture, []) ∧ ∀ row < height, ∀ column < width,
        picture row column = s.format.carried (s.format.translate (s.capture.prev (y + row) (x + column))) := by
  obtain ⟨hright, -, htile⟩ := hfits
  have hwidth := hs.width
  obtain ⟨tiles, htiles, -, hlength, hread⟩ := VncFormat.zrleRect_read hs.format.accepted s.capture.prev x y
    (show width ≤ vncMaxDim by omega) htile
  obtain ⟨picture, hpicture, hright⟩ := hread []
  rw [List.append_nil] at hpicture
  have hbound := vncDeflateBound_toNat (rawCap_bound vncZrleRawCap (le_refl _))
  have hroom : tiles.flatten.length + tiles.flatten.length / 8 + 16 ≤ (vncDeflateBound (UInt32.ofNat vncZrleRawCap)).toNat := by
    omega
  obtain ⟨packed, hpacked, hinside⟩ := sync_fits stream tiles.flatten hroom
  have hcap := rawCap_bound vncZrleRawCap (le_refl _)
  refine ⟨tiles.flatten, packed, ?_, hpacked, by omega, picture, hpicture, hright⟩
  rw [VncFormat.sendZrle, htiles, Option.bind_some]
  dsimp only
  rw [hpacked, Option.map_some]

/-- **A rectangle of tiles** is read as the pixels of the reference frame, in every encoding. -/
theorem tileRect_read (hs : s.Sized) (stream : VncDeflate) {x y width height : ℕ}
    (hfits : s.RectFits (.tiles x y width height)) :
    ∃ stream' bytes, s.rectBytes stream (.tiles x y width height) = some (stream', bytes) ∧
      ∀ v : VncViewer, v.Tuned s stream → ∀ rest, ∃ v', v.readRect (bytes ++ rest) = some (v', rest) ∧
        v'.HasRead s stream' v (.tiles x y width height) := by
  have haccepted := hs.format.accepted
  cases hencoding : s.encoding with
  | raw =>
    refine ⟨stream, _, by rw [VncState.rectBytes, hencoding], fun v hv rest => ?_⟩
    rw [List.append_assoc, tilesHeader_read hv hs hfits (Or.inl rfl), if_pos rfl, hv.format, encodeRaw_read haccepted,
      Option.map_some]
    refine ⟨_, rfl, ⟨hv.format, hv.width, hv.height, hv.zlib⟩, paint_pixels fun row hrow column hcolumn => ?_⟩
    rw [raster_getD _ hrow hcolumn, VncState.shown, hencoding]
  | hextile =>
    refine ⟨stream, _, by rw [VncState.rectBytes, hencoding], fun v hv rest => ?_⟩
    obtain ⟨picture, hpicture, hright⟩ := VncFormat.hextileRect_read haccepted s.capture.prev x y width height rest
    rw [List.append_assoc, tilesHeader_read hv hs hfits (Or.inr (Or.inl rfl)), if_neg (by decide), if_pos rfl, hv.format,
      hpicture, Option.map_some]
    refine ⟨_, rfl, ⟨hv.format, hv.width, hv.height, hv.zlib⟩, paint_pixels fun row hrow column hcolumn => ?_⟩
    rw [hright row hrow column hcolumn, VncState.shown, hencoding]
  | zrle =>
    obtain ⟨tiles, packed, hsend, hpacked, hlength, picture, hpicture, hright⟩ := sendZrle_piece hs stream hfits
    refine ⟨_, _, by rw [VncState.rectBytes, hencoding, hsend]; rfl, fun v hv rest => ?_⟩
    obtain ⟨all, hpiece⟩ := inflatePiece_sync hv.zlib hpacked
    have hcount : ((packed.length : ℤ) % 2 ^ 32).toNat = packed.length := by omega
    rw [List.append_assoc, tilesHeader_read hv hs hfits (Or.inr (Or.inr rfl)), if_neg (by decide), if_neg (by decide),
      VncViewer.readZrleRect, List.append_assoc, takeU32_put, Option.bind_some, hcount]
    dsimp only
    rw [if_pos (by rw [List.length_append]; omega), List.take_left, List.drop_left, hpiece, Option.bind_some]
    dsimp only
    rw [hv.format, hpicture, Option.bind_some]
    dsimp only
    rw [if_pos rfl]
    refine ⟨_, rfl, ⟨rfl, hv.width, hv.height, rfl⟩, paint_pixels fun row hrow column hcolumn => ?_⟩
    rw [hright row hrow column hcolumn, VncState.shown, hencoding]

/-- **A rectangle** is written, and read. -/
theorem rect_read (hs : s.Sized) (stream : VncDeflate) {rect : VncUpdateRect} (hfits : s.RectFits rect) :
    ∃ stream' bytes, s.rectBytes stream rect = some (stream', bytes) ∧
      ∀ v : VncViewer, v.Tuned s stream → ∀ rest, ∃ v', v.readRect (bytes ++ rest) = some (v', rest) ∧
        v'.HasRead s stream' v rect := by
  cases rect with
  | copy copy => exact ⟨stream, _, rfl, fun v hv rest => copy_read hv hs hfits rest⟩
  | shape cursor => exact ⟨stream, _, rfl, fun v hv rest => ⟨v, shape_read hv hs hfits rest, hv, rfl⟩⟩
  | position x y => exact ⟨stream, _, rfl, fun v hv rest => ⟨v, position_read v x y rest, hv, rfl⟩⟩
  | tiles x y width height => exact tileRect_read hs stream hfits
  | desktopSize width height => exact absurd hfits id

/-- **Rectangles** are written and read one after the other. -/
theorem rects_read (hs : s.Sized) (stream : VncDeflate) {rects : List VncUpdateRect}
    (hfits : ∀ rect ∈ rects, s.RectFits rect) :
    ∃ stream' bytes, s.rectsBytes stream rects = some (stream', bytes) ∧
      ∀ v : VncViewer, v.Tuned s stream → ∃ v', VncViewer.readRects rects.length v bytes = some (v', []) ∧
        v'.Tuned s stream' ∧ v'.pixels = rects.foldl s.painted v.pixels := by
  induction rects generalizing stream with
  | nil => exact ⟨stream, [], rfl, fun v hv => ⟨v, rfl, hv, rfl⟩⟩
  | cons rect rects ih =>
    obtain ⟨stream1, bytes, hbytes, hread⟩ := rect_read hs stream (hfits rect List.mem_cons_self)
    obtain ⟨stream2, more, hmore, hlater⟩ := ih stream1 fun r hr => hfits r (List.mem_cons_of_mem _ hr)
    refine ⟨stream2, bytes ++ more, ?_, fun v hv => ?_⟩
    · rw [VncState.rectsBytes, hbytes, Option.bind_some]
      dsimp only
      rw [hmore]
      rfl
    · obtain ⟨v1, hv1, htuned, hpixels⟩ := hread v hv more
      obtain ⟨v2, hv2, htuned2, hpixels2⟩ := hlater v1 htuned
      refine ⟨v2, ?_, htuned2, ?_⟩
      · rw [List.length_cons, VncViewer.readRects, hv1, Option.bind_some]
        exact hv2
      · rw [hpixels2, hpixels, List.foldl_cons]

/-! ## Updates -/

theorem dirtyRects_length (c : VncCapture) : c.dirtyRects.length =
    ((List.range (vncTiles c.height)).map fun row =>
      ((List.range (vncTiles c.width)).filter (VncState.startsRun (c.dirty row))).length).sum := by
  rw [VncCapture.dirtyRects, List.length_flatMap]
  refine congrArg List.sum (List.map_congr_left fun row _ => ?_)
  have hstarts := congrArg List.length (Runs.runs_starts (c.dirty row) (vncTiles c.width))
  rw [List.length_map] at hstarts ⊢
  exact hstarts.symm

/-- The parts of an update. -/
theorem updateRects_eq (s : VncState) : ∃ position : List VncUpdateRect, s.updateRects =
      (s.copyPending.map .copy).toList ++ (if s.shapeDue then [.shape s.cursor] else []) ++ position ++
        s.capture.dirtyRects.map (fun (x, y, width, height) => .tiles x y width height) ∧
    position.length = (if s.posDue then 1 else 0) ∧ ∀ rect ∈ position, ∃ x y, rect = .position x y := by
  refine ⟨_, rfl, ?_, fun rect hrect => ?_⟩
  · unfold VncState.posDue
    cases s.cursorAt with
    | none => rfl
    | some position =>
      dsimp only
      split <;> rfl
  · split at hrect
    · split at hrect
      · exact ⟨_, _, List.mem_singleton.1 hrect⟩
      · cases hrect
    · cases hrect

/-- **The rectangles are as many as are announced.** -/
theorem rectCount_eq (s : VncState) : s.rectCount = s.updateRects.length := by
  obtain ⟨position, hrects, hposition, -⟩ := updateRects_eq s
  have hcopy : (s.copyPending.map VncUpdateRect.copy).toList.length = if s.copyPending.isSome then 1 else 0 := by
    cases s.copyPending <;> rfl
  have hshape : (if s.shapeDue then [VncUpdateRect.shape s.cursor] else []).length = if s.shapeDue then 1 else 0 := by
    split <;> rfl
  rw [VncState.rectCount, hrects, ← dirtyRects_length, List.length_append, List.length_append,
    List.length_append, List.length_map, hcopy, hshape, hposition]
  omega

/-- Fewer than the field can hold. -/
theorem rectCount_lt (hs : s.Sized) : s.rectCount < 2 ^ 16 := by
  have hwidth := hs.width
  have hheight := hs.height
  have hrows : vncTiles s.capture.height ≤ 256 := by
    unfold vncTiles vncTile
    unfold vncMaxDim at hheight
    omega
  have hrow : ∀ count ∈ (List.range (vncTiles s.capture.height)).map fun row =>
      ((List.range (vncTiles s.capture.width)).filter (VncState.startsRun (s.capture.dirty row))).length, count ≤ 128 := by
    intro count hcount
    obtain ⟨row, -, rfl⟩ := List.mem_map.1 hcount
    have hstarts := congrArg List.length (Runs.runs_starts (s.capture.dirty row) (vncTiles s.capture.width))
    have hgaps := Runs.runs_length (s.capture.dirty row) (vncTiles s.capture.width)
    rw [List.length_map] at hstarts
    unfold vncMaxDim at hwidth
    have hcolumns : vncTiles s.capture.width ≤ 256 := by
      unfold vncTiles vncTile
      omega
    exact hstarts.le.trans (by omega)
  have hsum : _ ≤ _ * 128 := List.sum_le_card_nsmul _ 128 hrow
  rw [List.length_map, List.length_range] at hsum
  have hdue : ∀ b : Bool, (if b then 1 else 0) ≤ 1 := by decide
  have hshape := hdue s.shapeDue
  have hposition := hdue s.posDue
  have hcopy := hdue s.copyPending.isSome
  unfold VncState.rectCount
  omega

/-- **An update** is written, and read. -/
theorem update_read (hs : s.Sized) (stream : VncDeflate) (hfits : ∀ rect ∈ s.updateRects, s.RectFits rect) :
    ∃ stream' bytes, s.updateBytes stream = some (stream', bytes) ∧
      ∀ v : VncViewer, v.Tuned s stream → ∃ v', v.read bytes = some v' ∧ v'.Tuned s stream' ∧
        v'.pixels = s.updateRects.foldl s.painted v.pixels := by
  by_cases hnone : s.rectCount = 0
  · have hempty := List.eq_nil_of_length_eq_zero ((rectCount_eq s).symm.trans hnone)
    refine ⟨stream, [], if_pos hnone, fun v hv => ⟨v, if_pos rfl, hv, ?_⟩⟩
    rw [hempty, List.foldl_nil]
  · obtain ⟨stream', bytes, hbytes, hread⟩ := rects_read hs stream hfits
    refine ⟨stream', [0, 0] ++ vncPut16 s.rectCount ++ bytes, ?_, fun v hv => ?_⟩
    · rw [VncState.updateBytes, if_neg hnone, hbytes]
      rfl
    · obtain ⟨v', hv', hafter⟩ := hread v hv
      have hlt := rectCount_lt hs
      have hcount : ((s.rectCount : ℤ) % 2 ^ 16).toNat = s.updateRects.length := by
        rw [← rectCount_eq]
        omega
      refine ⟨v', ?_, hafter⟩
      rw [VncViewer.read, List.append_assoc]
      simp only [List.cons_append, List.nil_append, VncViewer.readUpdate]
      rw [if_neg (List.cons_ne_nil _ _), takeU16_put, Option.bind_some, hcount]
      dsimp only
      rw [hv', Option.bind_some]
      dsimp only
      rw [if_pos rfl]

/-! ## The pixels behind an update -/

theorem painted_tiles (s : VncState) (rects : List (ℕ × ℕ × ℕ × ℕ)) (pixels : ℕ → ℕ → Option ℕ) (row column : ℕ) :
    (rects.map fun (x, y, width, height) => VncUpdateRect.tiles x y width height).foldl s.painted pixels row column =
      if ∃ rect ∈ rects, InRect row column rect then some (s.shown (s.capture.prev row column)) else pixels row column := by
  induction rects generalizing pixels with
  | nil => exact (if_neg fun ⟨_, hrect, _⟩ => List.not_mem_nil hrect).symm
  | cons rect rects ih =>
    rw [List.map_cons, List.foldl_cons, ih]
    by_cases hlater : ∃ rect ∈ rects, InRect row column rect
    · obtain ⟨other, hother, hin⟩ := id hlater
      rw [if_pos hlater, if_pos ⟨other, List.mem_cons_of_mem _ hother, hin⟩]
    · rw [if_neg hlater]
      by_cases hhere : InRect row column rect
      · rw [if_pos ⟨rect, List.mem_cons_self, hhere⟩]
        exact if_pos hhere
      · rw [if_neg fun ⟨other, hother, hin⟩ => (List.mem_cons.1 hother).elim (fun heq => hhere (heq ▸ hin)) fun hmem =>
          hlater ⟨other, hmem, hin⟩]
        exact if_neg hhere

/-- What the copy of an update does. -/
def VncState.copied (s : VncState) (pixels : ℕ → ℕ → Option ℕ) : ℕ → ℕ → Option ℕ :=
  match s.copyPending with
  | some copy => s.painted pixels (.copy copy)
  | none => pixels

/-- **Behind an update** the dirty tiles are those of the reference frame; elsewhere it is the copy. -/
theorem update_pixels (s : VncState) (pixels : ℕ → ℕ → Option ℕ) {row column : ℕ} (hrow : row < s.capture.height)
    (hcolumn : column < s.capture.width) :
    s.updateRects.foldl s.painted pixels row column =
      if s.capture.dirty (row / vncTile) (column / vncTile) then some (s.shown (s.capture.prev row column))
      else s.copied pixels row column := by
  obtain ⟨position, hrects, -, hplain⟩ := updateRects_eq s
  have hcopy : (s.copyPending.map VncUpdateRect.copy).toList.foldl s.painted pixels = s.copied pixels := by
    unfold VncState.copied
    cases s.copyPending <;> rfl
  have hshape : ∀ p, (if s.shapeDue then [VncUpdateRect.shape s.cursor] else []).foldl s.painted p = p := by
    intro p
    split <;> rfl
  have hposition : ∀ p, position.foldl s.painted p = p := by
    clear hrects
    intro p
    induction position with
    | nil => rfl
    | cons rect position ih =>
      obtain ⟨x, y, rfl⟩ := hplain rect List.mem_cons_self
      exact ih fun r hr => hplain r (List.mem_cons_of_mem _ hr)
  rw [hrects, List.foldl_append, List.foldl_append, List.foldl_append, hcopy, hshape, hposition, painted_tiles]
  simp only [mem_dirtyRects_iff hrow hcolumn]

/-! ## Comparisons -/

/-- Every pixel a viewer has is the translated one of a frame. -/
def Shows (f : VncFormat) (width height : ℕ) (frame : Frame) (pixels : ℕ → ℕ → Option ℕ) : Prop :=
  ∀ row < height, ∀ column < width, ∀ pixel, pixels row column = some pixel → pixel = (f.translate (frame row column)).toNat

/-- It has every pixel of the screen. -/
def Whole (width height : ℕ) (pixels : ℕ → ℕ → Option ℕ) : Prop :=
  ∀ row < height, ∀ column < width, (pixels row column).isSome = true

theorem detectMove_size (s : VncState) :
    s.detectMove.capture.width = s.capture.width ∧ s.detectMove.capture.height = s.capture.height := by
  cases hcopy : s.detectMove.copyPending with
  | some copy =>
    rw [(detectMove_copy hcopy).1]
    exact ⟨rfl, rfl⟩
  | none =>
    unfold VncState.detectMove at hcopy ⊢
    dsimp only at hcopy ⊢
    rw [hcopy]
    exact ⟨rfl, rfl⟩

theorem copied_some {copy : VncCapture.Copy} (h : s.copyPending = some copy) (pixels : ℕ → ℕ → Option ℕ) (row column : ℕ) :
    s.copied pixels row column =
      if InRect row column (copy.x, copy.y, copy.w, copy.h) then
        pixels (copy.srcY + (row - copy.y)) (copy.srcX + (column - copy.x))
      else pixels row column := by
  rw [VncState.copied, h]
  rfl

/-- A pixel of the target of a copy, by its place in it. -/
theorem copy_place {copy : VncCapture.Copy} {row column : ℕ} (h : InRect row column (copy.x, copy.y, copy.w, copy.h)) :
    (row - copy.y < copy.h ∧ copy.y + (row - copy.y) = row) ∧ column - copy.x < copy.w ∧ copy.x + (column - copy.x) = column := by
  have hbounds : copy.x ≤ column ∧ column < copy.x + copy.w ∧ copy.y ≤ row ∧ row < copy.y + copy.h := h
  omega

/-- **The viewer's copy is the server's.** -/
theorem copied_shows {f : VncFormat} {pixels : ℕ → ℕ → Option ℕ}
    (h : Shows f s.capture.width s.capture.height s.capture.prev pixels) :
    Shows f s.capture.width s.capture.height s.detectMove.capture.prev (s.detectMove.copied pixels) := by
  cases hcopy : s.detectMove.copyPending with
  | none =>
    have hsame : s.detectMove.capture = s.capture := by
      unfold VncState.detectMove at hcopy ⊢
      dsimp only at hcopy ⊢
      rw [hcopy]
    rw [hsame, VncState.copied, hcopy]
    exact h
  | some copy =>
    have hexact := detectMove_exact hcopy
    obtain ⟨hright, hbottom⟩ := hexact.source
    intro row hrow column hcolumn pixel hpixel
    rw [copied_some hcopy] at hpixel
    by_cases hin : InRect row column (copy.x, copy.y, copy.w, copy.h)
    · obtain ⟨⟨hi, hy⟩, hj, hx⟩ := copy_place hin
      have hmoved := hexact.moved _ hi _ hj
      rw [hy, hx] at hmoved
      rw [if_pos hin] at hpixel
      rw [hmoved]
      exact h _ (by omega) _ (by omega) _ hpixel
    · rw [if_neg hin] at hpixel
      rw [hexact.kept row column hin]
      exact h row hrow column hcolumn pixel hpixel

/-- It takes nothing from a viewer that has every pixel. -/
theorem copied_whole {pixels : ℕ → ℕ → Option ℕ} (h : Whole s.capture.width s.capture.height pixels) :
    Whole s.capture.width s.capture.height (s.detectMove.copied pixels) := by
  cases hcopy : s.detectMove.copyPending with
  | none =>
    rw [VncState.copied, hcopy]
    exact h
  | some copy =>
    obtain ⟨hright, hbottom⟩ := (detectMove_exact hcopy).source
    intro row hrow column hcolumn
    rw [copied_some hcopy]
    by_cases hin : InRect row column (copy.x, copy.y, copy.w, copy.h)
    · obtain ⟨⟨hi, -⟩, hj, -⟩ := copy_place hin
      rw [if_pos hin]
      exact h _ (by omega) _ (by omega)
    · rw [if_neg hin]
      exact h row hrow column hcolumn

theorem posChecked_copy (s : VncState) : s.posChecked.copyPending = s.copyPending ∧ s.posChecked.format = s.format ∧
    s.posChecked.fullWanted = s.fullWanted ∧ s.posChecked.cursor = s.cursor ∧
    s.posChecked.cursorSerial = s.cursorSerial ∧ s.posChecked.cursorSentSerial = s.cursorSentSerial := by
  unfold VncState.posChecked
  split
  · split <;> exact ⟨rfl, rfl, rfl, rfl, rfl, rfl⟩
  · exact ⟨rfl, rfl, rfl, rfl, rfl, rfl⟩

/-- What a comparison is made of. -/
theorem compared_parts (s : VncState) :
    (s.fullWanted = true → s.compared.capture = s.capture.diff true ∧ s.compared.copyPending = none) ∧
    (s.fullWanted = false → s.compared.capture = s.detectMove.capture.diff false ∧
      s.compared.copyPending = s.detectMove.copyPending) := by
  unfold VncState.compared
  dsimp only
  rw [(posChecked_same _).2.2.2.2.1, (posChecked_copy _).1]
  constructor
  · intro hfull
    rw [hfull]
    exact ⟨rfl, rfl⟩
  · intro hfull
    rw [hfull]
    exact ⟨rfl, rfl⟩

theorem compared_kept (s : VncState) :
    (s.compared.capture.width = s.capture.width ∧ s.compared.capture.height = s.capture.height) ∧
      s.compared.format = s.format ∧ s.compared.fullWanted = s.fullWanted ∧ s.compared.cursor = s.cursor ∧
      s.compared.cursorSerial = s.cursorSerial ∧ s.compared.cursorSentSerial = s.cursorSentSerial := by
  constructor
  · cases hfull : s.fullWanted with
    | true =>
      rw [((compared_parts s).1 hfull).1]
      exact ⟨rfl, rfl⟩
    | false =>
      rw [((compared_parts s).2 hfull).1]
      exact detectMove_size s
  · unfold VncState.compared
    dsimp only
    obtain ⟨-, hformat, hfull, hcursor, hserial, hsent⟩ := posChecked_copy
      { (if s.fullWanted then { s with lastForeground := s.foreground, copyPending := none } else s.detectMove) with
        capture := (if s.fullWanted then { s with lastForeground := s.foreground, copyPending := none }
          else s.detectMove).capture.diff s.fullWanted }
    rw [hformat, hfull, hcursor, hserial, hsent]
    cases hwanted : s.fullWanted with
    | true => exact ⟨rfl, rfl, rfl, rfl, rfl⟩
    | false => exact ⟨rfl, hwanted, rfl, rfl, rfl⟩

/-- **A clean tile** is what the copy has left; a full comparison leaves none. -/
theorem compared_clean {row column : ℕ} (hrow : row < s.capture.height) (hcolumn : column < s.capture.width)
    (hclean : s.compared.capture.dirty (row / vncTile) (column / vncTile) = false) :
    s.fullWanted = false ∧ s.compared.capture.prev row column = s.detectMove.capture.prev row column ∧
      ∀ pixels, s.compared.copied pixels = s.detectMove.copied pixels := by
  cases hfull : s.fullWanted with
  | true =>
    rw [((compared_parts s).1 hfull).1, (diff_all_time s.capture hrow hcolumn).2] at hclean
    cases hclean
  | false =>
    obtain ⟨hcapture, hcopy⟩ := (compared_parts s).2 hfull
    obtain ⟨hwidth, hheight⟩ := detectMove_size s
    rw [hcapture] at hclean
    refine ⟨rfl, ?_, fun pixels => ?_⟩
    · rw [hcapture, diff_kept _ false (hheight.symm ▸ hrow) (hwidth.symm ▸ hcolumn) hclean]
    · rw [VncState.copied, hcopy]
      rfl

/-! ## Steps -/

/-- No byte that a CPIXEL of the update leaves out is in use. -/
def VncUpdate.Kept (u : VncUpdate) : Prop :=
  u.encoding = .zrle → ∀ x y width height, .tiles x y width height ∈ u.rects → ∀ row column,
    InRect row column (x, y, width, height) → u.format.Kept (u.format.translate (u.frame row column))

/-- A screen is as `vnc_capture_init` takes it, a cursor as `vnc_grab_cursor` leaves it. -/
def VncAct.Guest : VncAct → Prop
  | .take (some (width, height)) => width ≤ vncMaxDim ∧ height ≤ vncMaxDim
  | .cursor (some (_, _, shape)) _ => shape.w ≤ vncCursorMax ∧ shape.h ≤ vncCursorMax
  | _ => True

/-- A shape that is not sent yet was grabbed. -/
def VncState.CursorFits (s : VncState) : Prop :=
  s.cursorSerial ≠ s.cursorSentSerial → s.cursor.w ≤ vncCursorMax ∧ s.cursor.h ≤ vncCursorMax

/-- The invariant of a session and its viewer. -/
structure LinkInv (l : VncLink) : Prop where
  tuned : l.viewer.Tuned l.session l.stream
  sized : l.session.Sized
  cursor : l.session.CursorFits
  shows : (∀ u ∈ l.session.sent, u.Kept) →
    Shows l.session.format l.session.capture.width l.session.capture.height l.session.capture.prev l.viewer.pixels
  whole : l.session.fullWanted = false → Whole l.session.capture.width l.session.capture.height l.viewer.pixels

/-- A step that sends nothing and leaves the reference frame alone. -/
structure VncQuiet (s s' : VncState) : Prop where
  size : s'.capture.width = s.capture.width ∧ s'.capture.height = s.capture.height
  prev : s'.capture.prev = s.capture.prev
  format : s'.format = s.format
  full : s'.fullWanted = false → s.fullWanted = false
  sent : s'.sent = s.sent
  cursor : s.CursorFits → s'.CursorFits

theorem VncQuiet.refl (s : VncState) : VncQuiet s s := ⟨⟨rfl, rfl⟩, rfl, rfl, id, rfl, id⟩

theorem LinkInv.quiet {l : VncLink} (hl : LinkInv l) (hquiet : VncQuiet l.session s') : LinkInv ⟨s', l.stream, l.viewer⟩ where
  tuned :=
    ⟨hl.tuned.format.trans hquiet.format.symm, hl.tuned.width.trans hquiet.size.1.symm,
      hl.tuned.height.trans hquiet.size.2.symm, hl.tuned.zlib⟩
  sized := ⟨hquiet.format ▸ hl.sized.format, hquiet.size.1 ▸ hl.sized.width, hquiet.size.2 ▸ hl.sized.height⟩
  cursor := hquiet.cursor hl.cursor
  shows := by
    dsimp only
    rw [hquiet.sent, hquiet.format, hquiet.size.1, hquiet.size.2, hquiet.prev]
    exact hl.shows
  whole := by
    dsimp only
    rw [hquiet.size.1, hquiet.size.2]
    exact fun hfull => hl.whole (hquiet.full hfull)

/-! ### The network thread -/

theorem message_quiet (s : VncState) (message : VncMessage) :
    (∃ format f, message = .setPixelFormat format ∧ vncSetPixelFormat format = some f ∧
      s.handleMessage message = { s with format := f }.wantFull) ∨
    (∀ v : VncViewer, v.asked (.message message) = v) ∧ VncQuiet s (s.handleMessage message) := by
  cases message with
  | setPixelFormat format =>
    unfold VncState.handleMessage VncViewer.asked
    dsimp only
    cases hformat : vncSetPixelFormat format with
    | none => exact Or.inr ⟨fun _ => rfl, ⟨rfl, rfl⟩, rfl, rfl, id, rfl, id⟩
    | some f => exact Or.inl ⟨format, f, rfl, hformat, rfl⟩
  | setEncodings encodings buffers =>
    refine Or.inr ⟨fun _ => rfl, ?_⟩
    unfold VncState.handleMessage VncState.setEncodings
    dsimp only
    split
    · exact ⟨⟨rfl, rfl⟩, rfl, rfl, fun hfull => absurd hfull Bool.true_eq_false.mp, rfl, id⟩
    · exact ⟨⟨rfl, rfl⟩, rfl, rfl, id, rfl, id⟩
  | updateRequest incremental =>
    refine Or.inr ⟨fun _ => rfl, ?_⟩
    cases incremental with
    | true => exact ⟨⟨rfl, rfl⟩, rfl, rfl, id, rfl, id⟩
    | false => exact ⟨⟨rfl, rfl⟩, rfl, rfl, fun hfull => absurd hfull Bool.true_eq_false.mp, rfl, id⟩
  | pointer x y => exact Or.inr ⟨fun _ => rfl, ⟨rfl, rfl⟩, rfl, rfl, id, rfl, id⟩
  | other => exact Or.inr ⟨fun _ => rfl, VncQuiet.refl s⟩
  | unknown => exact Or.inr ⟨fun _ => rfl, ⟨rfl, rfl⟩, rfl, rfl, id, rfl, id⟩

/-- Nothing of a compared frame is out of its place. -/
theorem compared_fits (hcursor : s.CursorFits) :
    ∀ rect ∈ s.compared.updateRects, s.compared.RectFits rect := by
  obtain ⟨⟨hwidth, hheight⟩, -, -, hshape, hserial, hsent⟩ := compared_kept s
  obtain ⟨position, hrects, -, hplain⟩ := updateRects_eq s.compared
  intro rect hrect
  rw [hrects] at hrect
  rcases List.mem_append.1 hrect with hrect | hrect
  · rcases List.mem_append.1 hrect with hrect | hrect
    · rcases List.mem_append.1 hrect with hrect | hrect
      · -- a copy that is pending was found in the screen
        obtain ⟨copy, hpending, rfl⟩ := Option.map_eq_some_iff.1 (Option.mem_toList.1 hrect)
        have hexact := detectMove_exact (compared_copy hpending).1
        have hfits : s.compared.RectFits (.copy copy) := by
          unfold VncState.RectFits
          rw [hwidth, hheight]
          exact ⟨hexact.target, hexact.source⟩
        exact hfits
      · split at hrect
        · rename_i hdue
          obtain rfl := List.mem_singleton.1 hrect
          have hne : s.compared.cursorSerial ≠ s.compared.cursorSentSerial :=
            bne_iff_ne.1 (Bool.and_eq_true_iff.1 hdue).2
          rw [hserial, hsent] at hne
          have hfits : s.compared.RectFits (.shape s.compared.cursor) := by
            unfold VncState.RectFits
            rw [hshape]
            exact hcursor hne
          exact hfits
        · cases hrect
    · obtain ⟨x, y, rfl⟩ := hplain rect hrect
      exact True.intro
  · obtain ⟨tiles, htiles, rfl⟩ := List.mem_map.1 hrect
    obtain ⟨hright, hbottom, -, -, htall⟩ := dirtyRects_inside htiles
    exact ⟨hright, hbottom, htall⟩

theorem sendUpdate_old {full : Bool} {u : VncUpdate} (hu : u ∈ s.sent) : u ∈ (s.sendUpdate full).sent := by
  unfold VncState.sendUpdate
  dsimp only
  split
  · exact hu
  · exact List.mem_append_left _ hu

theorem sendUpdate_cursor {full : Bool} (h : s.CursorFits) : (s.sendUpdate full).CursorFits := by
  unfold VncState.sendUpdate VncState.CursorFits
  dsimp only
  split
  · exact fun hne => absurd rfl hne
  · exact h

/-- **A dirty tile is shown as it is** where no CPIXEL loses anything. -/
theorem shown_kept (hs : s.Sized) {full : Bool} (hkept : ∀ u ∈ (s.sendUpdate full).sent, u.Kept) {row column : ℕ}
    (hrow : row < s.capture.height) (hcolumn : column < s.capture.width)
    (hdirty : s.capture.dirty (row / vncTile) (column / vncTile) = true) :
    s.shown (s.capture.prev row column) = (s.format.translate (s.capture.prev row column)).toNat := by
  have haccepted := hs.format.accepted
  cases hencoding : s.encoding with
  | raw => rw [VncState.shown, hencoding]
  | hextile => rw [VncState.shown, hencoding]
  | zrle =>
    obtain ⟨rect, hrect, hin⟩ := (mem_dirtyRects_iff hrow hcolumn).2 hdirty
    have hmem := tiles_mem hrect
    have hsent : (⟨s.capture.width, s.capture.height, s.format, s.encoding, s.updateRects, s.capture.prev, s.capture.prevTime,
        full, s.asked⟩ : VncUpdate) ∈ (s.sendUpdate full).sent := by
      unfold VncState.sendUpdate
      dsimp only
      rw [if_neg (List.ne_nil_of_mem hmem)]
      exact List.mem_append_right _ (List.mem_singleton_self _)
    have hzero := hkept _ hsent hencoding _ _ _ _ hmem row column hin
    rw [VncState.shown, hencoding]
    exact (VncFormat.carried_iff haccepted (translate_lt haccepted _)).2 hzero

/-- **An update that is sent** leaves the mirror, where its clean tiles are what the copy makes of them. -/
theorem sendUpdate_link (hv : v.Tuned s stream) (hs : s.Sized) (hfits : ∀ rect ∈ s.updateRects, s.RectFits rect)
    (hcursor : s.CursorFits)
    (hshows : (∀ u ∈ s.sent, u.Kept) → ∀ row < s.capture.height, ∀ column < s.capture.width,
      s.capture.dirty (row / vncTile) (column / vncTile) = false → ∀ pixel, s.copied v.pixels row column = some pixel →
        pixel = (s.format.translate (s.capture.prev row column)).toNat)
    (hwhole : ∀ row < s.capture.height, ∀ column < s.capture.width,
      s.capture.dirty (row / vncTile) (column / vncTile) = false → (s.copied v.pixels row column).isSome = true)
    (full : Bool) :
    ∃ stream' bytes v', s.updateBytes stream = some (stream', bytes) ∧ v.read bytes = some v' ∧
      LinkInv ⟨s.sendUpdate full, stream', v'⟩ ∧
      ∀ row < s.capture.height, ∀ column < s.capture.width, s.capture.dirty (row / vncTile) (column / vncTile) = true →
        v'.pixels row column = some (s.shown (s.capture.prev row column)) := by
  obtain ⟨stream', bytes, hbytes, hread⟩ := update_read hs stream hfits
  obtain ⟨v', hv', htuned, hpixels⟩ := hread v hv
  refine ⟨stream', bytes, v', hbytes, hv', ⟨⟨htuned.format, htuned.width, htuned.height, htuned.zlib⟩,
    ⟨hs.format, hs.width, hs.height⟩, sendUpdate_cursor hcursor, fun hkept row hrow column hcolumn pixel hpixel => ?_,
    fun _ row hrow column hcolumn => ?_⟩, fun row hrow column hcolumn hdirty => ?_⟩
  · have hpixel := (congrFun (congrFun hpixels row) column).symm.trans hpixel
    rw [update_pixels s v.pixels hrow hcolumn] at hpixel
    cases hdirty : s.capture.dirty (row / vncTile) (column / vncTile) with
    | true =>
      rw [hdirty, if_pos rfl] at hpixel
      rw [← Option.some.inj hpixel]
      exact shown_kept hs hkept hrow hcolumn hdirty
    | false =>
      rw [hdirty, if_neg Bool.false_ne_true] at hpixel
      exact hshows (fun u hu => hkept u (sendUpdate_old hu)) row hrow column hcolumn hdirty pixel hpixel
  · dsimp only
    rw [hpixels, update_pixels s v.pixels hrow hcolumn]
    cases hdirty : s.capture.dirty (row / vncTile) (column / vncTile) with
    | true => rw [if_pos rfl]; rfl
    | false =>
      rw [if_neg Bool.false_ne_true]
      exact hwhole row hrow column hcolumn hdirty
  · rw [hpixels, update_pixels s v.pixels hrow hcolumn, hdirty, if_pos rfl]

/-- **A frame that is taken** is read as it is sent. -/
theorem takeFrame_link {l : VncLink} (hl : LinkInv l) :
    ∃ stream' bytes v', l.session.takeFrameBytes l.stream = some (stream', bytes) ∧ l.viewer.read bytes = some v' ∧
      LinkInv ⟨l.session.takeFrame, stream', v'⟩ ∧
      (l.session.fullWanted = true → ∀ row < l.session.capture.height, ∀ column < l.session.capture.width,
        v'.pixels row column = some (l.session.takeFrame.shown (l.session.takeFrame.capture.prev row column))) := by
  obtain ⟨s, stream, v⟩ := l
  obtain ⟨⟨hwidth, hheight⟩, hformat, hwanted, hshape, hserial, hsent⟩ := compared_kept s
  have hsized : s.compared.Sized := ⟨hformat ▸ hl.sized.format, hwidth ▸ hl.sized.width, hheight ▸ hl.sized.height⟩
  have htuned : v.Tuned s.compared stream :=
    ⟨hl.tuned.format.trans hformat.symm, hl.tuned.width.trans hwidth.symm, hl.tuned.height.trans hheight.symm, hl.tuned.zlib⟩
  have hcursor : s.compared.CursorFits := by
    unfold VncState.CursorFits
    rw [hserial, hsent, hshape]
    exact hl.cursor
  have hsame : s.compared.sent = s.sent := (compared_same s).1
  have hshows : (∀ u ∈ s.compared.sent, u.Kept) →
      ∀ row < s.compared.capture.height, ∀ column < s.compared.capture.width,
        s.compared.capture.dirty (row / vncTile) (column / vncTile) = false → ∀ pixel,
          s.compared.copied v.pixels row column = some pixel →
            pixel = (s.compared.format.translate (s.compared.capture.prev row column)).toNat := by
    rw [hsame, hwidth, hheight, hformat]
    intro hkept row hrow column hcolumn hclean
    obtain ⟨-, hprev, hcopied⟩ := compared_clean hrow hcolumn hclean
    rw [hprev, hcopied]
    exact copied_shows (hl.shows hkept) row hrow column hcolumn
  have hwhole : ∀ row < s.compared.capture.height, ∀ column < s.compared.capture.width,
      s.compared.capture.dirty (row / vncTile) (column / vncTile) = false →
        (s.compared.copied v.pixels row column).isSome = true := by
    rw [hwidth, hheight]
    intro row hrow column hcolumn hclean
    obtain ⟨hfull, -, hcopied⟩ := compared_clean hrow hcolumn hclean
    rw [hcopied]
    exact copied_whole (hl.whole hfull) row hrow column hcolumn
  unfold VncState.takeFrameBytes VncState.takeFrame
  dsimp only
  split
  · -- no tile is dirty and no copy is pending
    rename_i hnothing
    simp only [Bool.and_eq_true, Bool.not_eq_true'] at hnothing
    obtain ⟨⟨⟨hdirty, hpending⟩, -⟩, -⟩ := hnothing
    have hcopied : s.compared.copied v.pixels = v.pixels := by
      rw [VncState.copied, Option.isNone_iff_eq_none.1 hpending]
    have hclean : ∀ row < s.compared.capture.height, ∀ column < s.compared.capture.width,
        s.compared.capture.dirty (row / vncTile) (column / vncTile) = false := by
      intro row hrow column hcolumn
      refine Bool.eq_false_iff.2 fun hone => Bool.eq_false_iff.1 hdirty ?_
      refine List.any_eq_true.2 ⟨row / vncTile, List.mem_range.2 (div_tile_lt hrow), ?_⟩
      exact List.any_eq_true.2 ⟨column / vncTile, List.mem_range.2 (div_tile_lt hcolumn), hone⟩
    rw [hcopied] at hshows hwhole
    refine ⟨stream, [], v, rfl, rfl, ⟨htuned, hsized, hcursor,
      fun hkept row hrow column hcolumn => hshows hkept row hrow column hcolumn (hclean row hrow column hcolumn),
      fun _ row hrow column hcolumn => hwhole row hrow column hcolumn (hclean row hrow column hcolumn)⟩,
      fun hfull row hrow column hcolumn => ?_⟩
    have hpart := (compared_clean hrow hcolumn (hclean row (hheight.symm ▸ hrow) column (hwidth.symm ▸ hcolumn))).1
    exact absurd (hfull.symm.trans hpart) (by decide)
  · -- an update of the comparison
    obtain ⟨stream', bytes, v', hbytes, hv', hafter, hdirty⟩ := sendUpdate_link
      (s := { s.compared with fullWanted := false }) ⟨htuned.format, htuned.width, htuned.height, htuned.zlib⟩
      ⟨hsized.format, hsized.width, hsized.height⟩ (compared_fits (s := s) hl.cursor) hcursor hshows hwhole s.fullWanted
    refine ⟨stream', bytes, v', hbytes, hv', hafter.quiet ⟨⟨rfl, rfl⟩, rfl, rfl, id, rfl, id⟩,
      fun hfull row hrow column hcolumn => ?_⟩
    refine hdirty row (hheight.symm ▸ hrow) column (hwidth.symm ▸ hcolumn) (Bool.not_eq_false _ |>.mp fun hclean => ?_)
    exact absurd (hfull.symm.trans (compared_clean hrow hcolumn hclean).1) (by decide)

theorem readRects_one (v : VncViewer) (s : Bytes) : VncViewer.readRects 1 v s = v.readRect s := by
  rw [VncViewer.readRects]
  cases v.readRect s <;> rfl

/-- **A new screen size** is read as it is sent. -/
theorem desktopSize_link {l : VncLink} (hl : LinkInv l) {width height : ℕ} (hwidth : width ≤ vncMaxDim)
    (hheight : height ≤ vncMaxDim) :
    ∃ v', l.viewer.read (l.session.init width height).desktopSizeBytes = some v' ∧
      LinkInv ⟨{ (l.session.init width height).sendDesktopSize with updateWanted := false, fullWanted := true }, l.stream, v'⟩ := by
  obtain ⟨s, stream, v⟩ := l
  have hread : v.read (s.init width height).desktopSizeBytes =
      some { v with width := width, height := height, pixels := fun _ _ => none } := by
    unfold vncMaxDim at hwidth hheight
    have hheader : v.readRect (vncRectHeader 0 0 width height vncEncDesktopSize ++ []) =
        v.readRectBody ⟨0, 0, width, height, vncEncDesktopSize⟩ [] :=
      readRect_header (by decide) (by decide) (by omega) (by omega) (by decide) (by decide) v []
    rw [VncViewer.read, VncState.desktopSizeBytes, List.append_assoc]
    simp only [List.cons_append, List.nil_append, VncViewer.readUpdate]
    rw [if_neg (List.cons_ne_nil _ _), takeU16_put, Option.bind_some]
    have hone : ((1 : ℤ) % 2 ^ 16).toNat = 1 := by decide
    have hbody : v.readRectBody ⟨0, 0, width, height, vncEncDesktopSize⟩ [] =
        some ({ v with width := width, height := height, pixels := fun _ _ => none }, []) := by
      unfold VncViewer.readRectBody
      dsimp only
      rw [if_neg (by decide), if_neg (by decide), if_pos rfl]
    rw [List.append_nil, hbody] at hheader
    dsimp only
    rw [hone, readRects_one]
    exact congrArg (Option.bind · _) hheader
  refine ⟨_, hread, ⟨hl.tuned.format, rfl, rfl, hl.tuned.zlib⟩, ⟨hl.sized.format, hwidth, hheight⟩, hl.cursor,
    fun _ row _ column _ pixel hpixel => ?_, fun hfull => ?_⟩
  · cases hpixel
  · cases hfull

/-- **A finished job** is read as it is sent. -/
theorem take_link {l : VncLink} (hl : LinkInv l) (result : ℤ) {size : Option (ℕ × ℕ)} (hguest : VncAct.Guest (.take size)) :
    ∃ stream' bytes v', l.session.takeBytes l.stream result size = some (stream', bytes) ∧
      l.viewer.read bytes = some v' ∧ LinkInv ⟨l.session.take result size, stream', v'⟩ := by
  have hidle : LinkInv ⟨{ l.session with worker := .idle }, l.stream, l.viewer⟩ :=
    hl.quiet ⟨⟨rfl, rfl⟩, rfl, rfl, id, rfl, id⟩
  unfold VncState.takeBytes VncState.take
  dsimp only
  split
  · split
    · exact ⟨l.stream, [], l.viewer, rfl, if_pos rfl, hl.quiet ⟨⟨rfl, rfl⟩, rfl, rfl, id, rfl, id⟩⟩
    · cases size with
      | none => exact ⟨l.stream, [], l.viewer, rfl, if_pos rfl, hl.quiet ⟨⟨rfl, rfl⟩, rfl, rfl, id, rfl, id⟩⟩
      | some size =>
        obtain ⟨v', hv', hafter⟩ := desktopSize_link hidle hguest.1 hguest.2
        exact ⟨l.stream, _, v', rfl, hv', hafter⟩
  · split
    · exact ⟨l.stream, [], l.viewer, rfl, if_pos rfl, hidle⟩
    · obtain ⟨stream', bytes, v', hbytes, hv', hafter, -⟩ := takeFrame_link hidle
      exact ⟨stream', bytes, v', hbytes, hv', hafter⟩

/-! ### The worker -/

theorem bltStep_quiet {screen : Frame} {ok : Bool} (h : s.bltStep screen ok = some s') : VncQuiet s s' := by
  unfold VncState.bltStep at h
  split at h
  · split at h <;> obtain rfl := Option.some.inj h <;> exact ⟨⟨rfl, rfl⟩, rfl, rfl, id, rfl, id⟩
  · split at h <;> obtain rfl := Option.some.inj h <;> exact ⟨⟨rfl, rfl⟩, rfl, rfl, id, rfl, id⟩
  · split at h <;> obtain rfl := Option.some.inj h <;> exact ⟨⟨rfl, rfl⟩, rfl, rfl, id, rfl, id⟩
  · cases h

theorem compareStep_quiet (s : VncState) (phase : ℕ) (position : Option (ℤ × ℤ)) :
    VncQuiet s (s.compareStep phase position) := by
  unfold VncState.compareStep
  dsimp only
  split
  · exact ⟨⟨rfl, rfl⟩, rfl, rfl, id, rfl, id⟩
  · have hwider := suspectCursor_widened { s.capture with suspect := s.capture.sampled phase }
      (if s.hasCursorInfo then position else none)
    exact ⟨⟨hwider.width, hwider.height⟩, hwider.prev, rfl, id, rfl, id⟩

theorem cursorStep_quiet (s : VncState) {grab : Option ((ℤ × ℤ) × Bool × VncCursor)} {drawn : Frame}
    (hguest : VncAct.Guest (.cursor grab drawn)) : VncQuiet s (s.cursorStep grab drawn) := by
  unfold VncState.cursorStep VncState.grabCursor
  dsimp only
  split
  · split
    · exact ⟨⟨rfl, rfl⟩, rfl, rfl, id, rfl, id⟩
    · cases grab with
      | none => exact ⟨⟨rfl, rfl⟩, rfl, rfl, id, rfl, id⟩
      | some grab =>
        dsimp only
        split
        · exact ⟨⟨rfl, rfl⟩, rfl, rfl, id, rfl, fun _ _ => hguest⟩
        · exact ⟨⟨rfl, rfl⟩, rfl, rfl, id, rfl, id⟩
  · exact ⟨⟨rfl, rfl⟩, rfl, rfl, id, rfl, id⟩

/-- What a step is to a viewer: its own change of format, a finished job, or nothing. -/
theorem act_quiet {act : VncAct} (hguest : act.Guest) (h : vncAct s act = some s') :
    (∃ format f, act = .message (.setPixelFormat format) ∧ vncSetPixelFormat format = some f ∧
      s' = { s with format := f }.wantFull) ∨
    (∃ size result, act = .take size ∧ s.worker = .done result ∧ s' = s.take result size) ∨
    (∀ v : VncViewer, v.asked act = v) ∧ (∀ stream, s.actBytes stream act = some (stream, [])) ∧ VncQuiet s s' := by
  cases act with
  | message message =>
    obtain rfl := Option.some.inj h
    rcases message_quiet s message with ⟨format, f, rfl, hformat, hsame⟩ | ⟨hasked, hquiet⟩
    · exact Or.inl ⟨format, f, rfl, hformat, hsame⟩
    · exact Or.inr (Or.inr ⟨hasked, fun _ => rfl, hquiet⟩)
  | start =>
    simp only [vncAct] at h
    split at h
    · obtain rfl := Option.some.inj h
      refine Or.inr (Or.inr ⟨fun _ => rfl, fun _ => rfl, ?_⟩)
      unfold VncState.startCapture
      split <;> exact ⟨⟨rfl, rfl⟩, rfl, rfl, id, rfl, id⟩
    · cases h
  | take size =>
    simp only [vncAct] at h
    split at h
    · rename_i result hworker
      exact Or.inr (Or.inl ⟨size, result, rfl, hworker, (Option.some.inj h).symm⟩)
    · cases h
  | fail =>
    obtain rfl := Option.some.inj h
    exact Or.inr (Or.inr ⟨fun _ => rfl, fun _ => rfl, ⟨rfl, rfl⟩, rfl, rfl, id, rfl, id⟩)
  | begin switched sameSize dc =>
    simp only [vncAct] at h
    split at h
    · obtain rfl := Option.some.inj h
      refine Or.inr (Or.inr ⟨fun _ => rfl, fun _ => rfl, ?_⟩)
      unfold VncState.begin
      dsimp only
      split_ifs <;> exact ⟨⟨rfl, rfl⟩, rfl, rfl, id, rfl, id⟩
    · cases h
  | blt screen ok => exact Or.inr (Or.inr ⟨fun _ => rfl, fun _ => rfl, bltStep_quiet h⟩)
  | compare position =>
    simp only [vncAct] at h
    split at h
    · obtain rfl := Option.some.inj h
      exact Or.inr (Or.inr ⟨fun _ => rfl, fun _ => rfl, compareStep_quiet s _ position⟩)
    · cases h
  | cursor grab drawn =>
    refine Or.inr (Or.inr ⟨fun _ => rfl, fun _ => rfl, ?_⟩)
    simp only [vncAct] at h
    split at h
    · obtain rfl := Option.some.inj h
      exact cursorStep_quiet s hguest
    · obtain rfl := Option.some.inj h
      exact cursorStep_quiet s hguest
    · cases h
  | finish foreground =>
    simp only [vncAct] at h
    split at h
    · obtain rfl := Option.some.inj h
      exact Or.inr (Or.inr ⟨fun _ => rfl, fun _ => rfl, ⟨rfl, rfl⟩, rfl, rfl, id, rfl, id⟩)
    · cases h

/-- A step of the session is one of both where what it writes can be read. -/
theorem linkStep_read {l : VncLink} {act : VncAct} {session : VncState} (h : vncStep l.session act = some session)
    {stream' : VncDeflate} {bytes : Bytes} {v' : VncViewer} (hbytes : l.session.actBytes l.stream act = some (stream', bytes))
    (hv' : (l.viewer.asked act).read bytes = some v') : linkStep l act = some ⟨session, stream', v'⟩ := by
  rw [linkStep, h, Option.bind_some, hbytes, Option.bind_some]
  dsimp only
  rw [hv']
  rfl

/-- **One step** can be read, and keeps the invariant. -/
theorem link_step {l : VncLink} (hl : LinkInv l) {act : VncAct} (hguest : act.Guest) {session : VncState}
    (h : vncStep l.session act = some session) : ∃ l', linkStep l act = some l' ∧ l'.session = session ∧ LinkInv l' := by
  have hstep := h
  unfold vncStep at hstep
  split at hstep
  · cases hstep
  obtain ⟨t, ht, hclock⟩ := Option.map_eq_some_iff.1 hstep
  have htick : VncQuiet t session := hclock ▸ ⟨⟨rfl, rfl⟩, rfl, rfl, id, rfl, id⟩
  rcases act_quiet hguest ht with ⟨format, f, rfl, hformat, rfl⟩ | ⟨size, result, rfl, hworker, rfl⟩ | ⟨hasked, hbytes, hquiet⟩
  · have hviewer : l.viewer.asked (.message (.setPixelFormat format)) =
        { l.viewer with format := f, pixels := fun _ _ => none } := by
      rw [VncViewer.asked, hformat]
    have hafter : LinkInv
        ⟨{ l.session with format := f }.wantFull, l.stream, { l.viewer with format := f, pixels := fun _ _ => none }⟩ := by
      refine ⟨⟨rfl, hl.tuned.width, hl.tuned.height, hl.tuned.zlib⟩,
        ⟨Or.inr ⟨format, hformat⟩, hl.sized.width, hl.sized.height⟩, hl.cursor,
        fun _ row _ column _ pixel hpixel => ?_, fun hfull => ?_⟩
      · cases hpixel
      · cases hfull
    have hnothing : l.session.actBytes l.stream (.message (.setPixelFormat format)) = some (l.stream, []) := rfl
    exact ⟨_, linkStep_read h hnothing (by rw [hviewer]; exact if_pos rfl), rfl, hafter.quiet htick⟩
  · obtain ⟨stream', bytes, v', hbytes, hv', hafter⟩ := take_link hl result hguest
    have hwritten : l.session.actBytes l.stream (.take size) = some (stream', bytes) := by
      rw [VncState.actBytes, hworker]
      exact hbytes
    exact ⟨_, linkStep_read h hwritten hv', rfl, hafter.quiet htick⟩
  · exact ⟨_, linkStep_read h (hbytes l.stream) (by rw [hasked]; exact if_pos rfl), rfl, (hl.quiet hquiet).quiet htick⟩

/-- **A full frame** is shown as its encoding carries it, pixel by pixel. -/
theorem fullFrame_shown {l : VncLink} (hl : LinkInv l) {result : ℤ} (hworker : l.session.worker = .done result)
    (hpos : 0 < result) (hwanted : l.session.updateWanted = true) (hfull : l.session.fullWanted = true) {size : Option (ℕ × ℕ)}
    {session : VncState} (h : vncStep l.session (.take size) = some session) :
    ∃ l', linkStep l (.take size) = some l' ∧ l'.session = session ∧
      ∀ row < l.session.capture.height, ∀ column < l.session.capture.width,
        l'.viewer.pixels row column = some (session.shown (session.capture.prev row column)) := by
  have hidle : LinkInv ⟨{ l.session with worker := .idle }, l.stream, l.viewer⟩ :=
    hl.quiet ⟨⟨rfl, rfl⟩, rfl, rfl, id, rfl, id⟩
  obtain ⟨stream', bytes, v', hbytes, hv', -, hshown⟩ := takeFrame_link hidle
  have hgo : ¬result < 0 ∧ ¬(decide (result = 0) || !l.session.updateWanted) = true := by
    rw [hwanted]
    simp only [Bool.not_true, Bool.or_false, decide_eq_true_eq]
    omega
  have hwritten : l.session.actBytes l.stream (.take size) = some (stream', bytes) := by
    rw [VncState.actBytes, hworker]
    dsimp only
    unfold VncState.takeBytes
    dsimp only
    rw [if_neg hgo.1, if_neg hgo.2]
    exact hbytes
  refine ⟨_, linkStep_read h hwritten hv', rfl, fun row hrow column hcolumn => ?_⟩
  have hsession : session = { VncState.takeFrame { l.session with worker := .idle } with
      clock := (VncState.takeFrame { l.session with worker := .idle }).clock + 1 } := by
    unfold vncStep at h
    split at h
    · cases h
    rw [vncAct, hworker] at h
    dsimp only at h
    unfold VncState.take at h
    dsimp only at h
    rw [if_neg hgo.1, if_neg hgo.2] at h
    exact (Option.some.inj h).symm
  rw [hsession]
  exact hshown hfull row hrow column hcolumn

/-! ## Formats that lose nothing -/

/-- A viewer asks for maxima of the form 2^k - 1, as RFB has it. -/
def VncAct.Regular : VncAct → Prop
  | .message (.setPixelFormat format) => ∀ f, vncSetPixelFormat format = some f →
    (∃ k, f.redMax.toNat = 2 ^ k - 1) ∧ (∃ k, f.greenMax.toNat = 2 ^ k - 1) ∧ ∃ k, f.blueMax.toNat = 2 ^ k - 1
  | _ => True

/-- The formats in use lose nothing, and no update has lost anything. -/
structure LossInv (s : VncState) : Prop where
  format : ∀ native, s.format.Kept (s.format.translate native)
  sent : ∀ u ∈ s.sent, u.Kept

theorem take_format (s : VncState) (result : ℤ) (size : Option (ℕ × ℕ)) :
    (s.take result size).format = s.format ∧ ∀ u ∈ (s.take result size).sent, u ∈ s.sent ∨ u.format = s.format := by
  obtain ⟨-, hformat, -⟩ := compared_kept { s with worker := .idle }
  have hsame : ({ s with worker := .idle } : VncState).compared.sent = s.sent := (compared_same _).1
  unfold VncState.take
  dsimp only
  split
  · split
    · exact ⟨rfl, fun u hu => Or.inl hu⟩
    · cases size with
      | none => exact ⟨rfl, fun u hu => Or.inl hu⟩
      | some size =>
        refine ⟨rfl, fun u hu => (List.mem_append.1 hu).imp_right fun hnew => ?_⟩
        rw [List.mem_singleton.1 hnew]
        rfl
  split
  · exact ⟨rfl, fun u hu => Or.inl hu⟩
  unfold VncState.takeFrame
  split
  · exact ⟨hformat, fun u hu => Or.inl (hsame ▸ hu)⟩
  · refine ⟨hformat, fun u hu => ?_⟩
    rcases mem_sendUpdate hu with hold | rfl
    · exact Or.inl (hsame ▸ hold)
    · exact Or.inr hformat

theorem lossInv_step {act : VncAct} (hs : LossInv s) (hguest : act.Guest) (hregular : act.Regular)
    (h : vncStep s act = some s') : LossInv s' := by
  unfold vncStep at h
  split at h
  · cases h
  obtain ⟨t, ht, rfl⟩ := Option.map_eq_some_iff.1 h
  rcases act_quiet hguest ht with ⟨format, f, rfl, hformat, rfl⟩ | ⟨size, result, rfl, -, rfl⟩ | ⟨-, -, hquiet⟩
  · exact ⟨kept_of_ones (VncFormat.InUse.accepted (Or.inr ⟨format, hformat⟩)) (hregular f hformat), hs.sent⟩
  · obtain ⟨hformat, hsent⟩ := take_format s result size
    refine ⟨hformat.symm ▸ hs.format, fun u hu => ?_⟩
    rcases hsent u hu with hold | hnew
    · exact hs.sent u hold
    · intro _ x y width height _ row column _
      rw [hnew]
      exact hs.format _
  · refine ⟨hquiet.format.symm ▸ hs.format, ?_⟩
    dsimp only
    rw [hquiet.sent]
    exact hs.sent

/-! ## Runs -/

/-- The viewer shows the reference frame in the format of the session, wherever it has a pixel; and
it has all of them where no full frame is due. -/
structure VncLink.Mirrors (l : VncLink) : Prop where
  format : l.viewer.format = l.session.format
  shows : ∀ row < l.session.capture.height, ∀ column < l.session.capture.width, ∀ pixel,
    l.viewer.pixels row column = some pixel → pixel = (l.session.format.translate (l.session.capture.prev row column)).toNat
  whole : l.session.fullWanted = false → ∀ row < l.session.capture.height, ∀ column < l.session.capture.width,
    (l.viewer.pixels row column).isSome = true

theorem linkInv_serve (head : ℕ → ℕ) (left : VncState) {width height : ℕ} (hwidth : width ≤ vncMaxDim)
    (hheight : height ≤ vncMaxDim) : LinkInv (.serve head left width height) where
  tuned := ⟨rfl, rfl, rfl, rfl⟩
  sized := ⟨Or.inl rfl, hwidth, hheight⟩
  cursor := fun hne => absurd rfl hne
  shows := fun _ _ _ _ _ _ hpixel => absurd hpixel (by rintro ⟨⟩)
  whole := fun hfull => absurd hfull (by rintro ⟨⟩)

/-- **Every run can be read**, and the invariant holds behind it. -/
theorem link_run {l : VncLink} (hl : LinkInv l) {acts : List VncAct} (hguest : ∀ act ∈ acts, act.Guest)
    (h : exec vncStep l.session acts = some s) : ∃ l', exec linkStep l acts = some l' ∧ l'.session = s ∧ LinkInv l' := by
  induction acts generalizing l with
  | nil => exact ⟨l, rfl, Option.some.inj h, hl⟩
  | cons act acts ih =>
    rw [exec_cons, Option.bind_eq_some_iff] at h
    obtain ⟨m, hm, h⟩ := h
    obtain ⟨l', hl', rfl, hinv⟩ := link_step hl (hguest act List.mem_cons_self) hm
    obtain ⟨last, hlast, hafter⟩ := ih hinv (fun a ha => hguest a (List.mem_cons_of_mem _ ha)) h
    exact ⟨last, by rw [exec_cons, hl']; exact hlast, hafter⟩

/-- A viewer asks for a format and for ZRLE, and then for a full frame of a screen of one pixel; the
capture is done. -/
def firstFrameRun (format : Bytes) (native : UInt32) : List VncAct :=
  [.message (.setPixelFormat format), .message (.setEncodings [vncEncCopyRect, vncEncZrle] true),
    .message (.updateRequest false), .start, .begin false true true, .blt (fun _ _ => native) true,
    .cursor none (fun _ _ => native), .finish none]

theorem firstFrame_guest (format : Bytes) (native : UInt32) : ∀ act ∈ firstFrameRun format native ++ [.take none], act.Guest := by
  intro act hact
  simp only [firstFrameRun, List.cons_append, List.nil_append, List.mem_cons, List.not_mem_nil, or_false] at hact
  rcases hact with rfl | rfl | rfl | rfl | rfl | rfl | rfl | rfl | rfl <;> exact True.intro

/-- **The viewer mirrors the server.** In every run of a session each update is read to its end, and
where no CPIXEL of ZRLE has lost a byte in use, the viewer shows the reference frame in the format
it asked for. A viewer whose maxima are all ones loses none. -/
theorem vnc_mirror (head : ℕ → ℕ) {left : VncState} {width height : ℕ} (hwidth : width ≤ vncMaxDim)
    (hheight : height ≤ vncMaxDim) {acts : List VncAct} (hguest : ∀ act ∈ acts, act.Guest)
    (h : exec vncStep (.serve left width height) acts = some s) :
    (∃ l, exec linkStep (.serve head left width height) acts = some l ∧ l.session = s ∧
      ((∀ u ∈ s.sent, u.Kept) → l.Mirrors)) ∧
    ((∀ act ∈ acts, act.Regular) → ∀ u ∈ s.sent, u.Kept) := by
  constructor
  · obtain ⟨l, hl, rfl, hinv⟩ := link_run (linkInv_serve head left hwidth hheight) hguest h
    exact ⟨l, hl, rfl, fun hkept => ⟨hinv.tuned.format, hinv.shows hkept, hinv.whole⟩⟩
  · intro hregular
    have hstart : LossInv (.serve left width height) :=
      ⟨kept_of_ones (VncFormat.InUse.accepted (Or.inl rfl)) ⟨⟨8, rfl⟩, ⟨8, rfl⟩, ⟨8, rfl⟩⟩,
        fun u hu => absurd hu List.not_mem_nil⟩
    exact (exec_inv_under (fun _ _ _ hs ha h' => lossInv_step hs (hguest _ ha) (hregular _ ha) h') hstart
      (under_mem _ acts) h).sent

/-- A red screen, five bits of it. -/
theorem vnc_mirror_demo : ∃ l, exec linkStep (.serve (fun _ => 0) vncNoSession 1 1)
      (firstFrameRun fiveSixFive 0x00ff0000 ++ [.take none]) = some l ∧ l.Mirrors ∧ l.viewer.pixels 0 0 = some 0xf800 := by
  have hrun : (exec vncStep (.serve vncNoSession 1 1) (firstFrameRun fiveSixFive 0x00ff0000 ++ [.take none])).map
      (fun s => (s.fullWanted, s.capture.height, s.capture.width, (s.format.translate (s.capture.prev 0 0)).toNat)) =
        some (false, 1, 1, 0xf800) := by
    decide
  obtain ⟨s, hs, hseen⟩ := Option.map_eq_some_iff.1 hrun
  simp only [Prod.mk.injEq] at hseen
  obtain ⟨hfull, hheight, hwidth, hpixel⟩ := hseen
  have hregular : ∀ act ∈ firstFrameRun fiveSixFive 0x00ff0000 ++ [.take none], act.Regular := by
    intro act hact
    simp only [firstFrameRun, List.cons_append, List.nil_append, List.mem_cons, List.not_mem_nil, or_false] at hact
    rcases hact with rfl | rfl | rfl | rfl | rfl | rfl | rfl | rfl | rfl
    · intro f hf
      have hset : vncSetPixelFormat fiveSixFive = some (wantedFormat fiveSixFive) := by decide
      obtain rfl := Option.some.inj (hset.symm.trans hf)
      exact ⟨⟨5, rfl⟩, ⟨6, rfl⟩, ⟨5, rfl⟩⟩
    all_goals exact True.intro
  obtain ⟨⟨l, hl, rfl, hmirror⟩, hkept⟩ := vnc_mirror (fun _ => 0) (by decide) (by decide)
    (firstFrame_guest fiveSixFive 0x00ff0000) hs
  have hmirrors := hmirror (hkept hregular)
  refine ⟨l, hl, hmirrors, ?_⟩
  obtain ⟨pixel, hhas⟩ := Option.isSome_iff_exists.1 (hmirrors.whole hfull 0 (by omega) 0 (by omega))
  rw [hhas, hmirrors.shows 0 (by omega) 0 (by omega) pixel hhas, hpixel]

/-- **A viewer that is not the mirror**: under a red maximum of 256 in the low bits the CPIXEL of a
pixel of 1 has none of its bits. -/
theorem mirror_loses_pixel : ∃ l, exec linkStep (.serve (fun _ => 0) vncNoSession 1 1)
      (firstFrameRun looseMaximum 0x00010000 ++ [.take none]) = some l ∧ l.session.sent.length = 1 ∧
    l.viewer.format = l.session.format ∧ l.viewer.pixels 0 0 = some 0 ∧
    (l.session.format.translate (l.session.capture.prev 0 0)).toNat = 1 := by
  have hrun : (exec vncStep (.serve vncNoSession 1 1) (firstFrameRun looseMaximum 0x00010000)).map
      (fun s => (s.worker, s.updateWanted, s.fullWanted, s.capture.height, s.capture.width)) =
        some (.done 1, true, true, 1, 1) := by
    decide
  have hlast : (exec vncStep (.serve vncNoSession 1 1) (firstFrameRun looseMaximum 0x00010000 ++ [.take none])).map
      (fun s => (s.sent.length, s.shown (s.capture.prev 0 0), (s.format.translate (s.capture.prev 0 0)).toNat)) =
        some (1, 0, 1) := by
    decide
  obtain ⟨s, hs, hseen⟩ := Option.map_eq_some_iff.1 hlast
  obtain ⟨m, hm, htake⟩ := exec_snoc.1 hs
  rw [hm, Option.map_some, Option.some.injEq] at hrun
  simp only [Prod.mk.injEq] at hrun hseen
  obtain ⟨hworker, hwanted, hfull, hheight, hwidth⟩ := hrun
  obtain ⟨hsent, hshown, hpixel⟩ := hseen
  have hguest : ∀ act ∈ firstFrameRun looseMaximum 0x00010000, act.Guest := fun act hact =>
    firstFrame_guest looseMaximum 0x00010000 act (List.mem_append_left _ hact)
  obtain ⟨l, hl, rfl, hinv⟩ := link_run (linkInv_serve (fun _ => 0) vncNoSession (by decide) (by decide)) hguest hm
  obtain ⟨l', hl', rfl, hpixels⟩ := fullFrame_shown hinv hworker (by decide) hwanted hfull htake
  obtain ⟨last, hlast', -, hafter⟩ := link_step hinv (show VncAct.Guest (.take none) from True.intro) htake
  obtain rfl := Option.some.inj (hl'.symm.trans hlast')
  refine ⟨l', exec_snoc.2 ⟨l, hl, hl'⟩, hsent, hafter.tuned.format, ?_, hpixel⟩
  rw [hpixels 0 (by omega) 0 (by omega), hshown]

end V9xRemote
