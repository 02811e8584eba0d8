import V9xRemote.Proof.VncFormat
import V9xRemote.Proof.VncFrame
import V9xRemote.Spec.VncHextile

/-!
# Hextile round trip

The subrectangles of a tile read as its pixels (`subrects_read`), a tile leaves the viewer with
the colours the server carries on (`tile_read`), and so a rectangle reads as its translated
pixels (`hextile_round_trip`).
-/

namespace V9xRemote

open Bytes Raster Runs Limbs

namespace VncFormat

variable {f : VncFormat} {width height : ℕ}

/-! ## Pixels on the wire -/

/-- A pixel of the format. -/
def Fits (f : VncFormat) (pixel : UInt32) : Prop := pixel.toNat < 2 ^ f.bpp.toNat

theorem takePixel_store (h : f.Accepted) {pixel : UInt32} (hfits : f.Fits pixel) (rest : Bytes) :
    f.takePixel (f.storePixel pixel ++ rest) = some (pixel.toNat, rest) := by
  have hlength := storePixel_length h pixel
  unfold takePixel
  rw [if_pos (by rw [List.length_append]; omega), List.take_left' hlength, List.drop_left' hlength,
    readPixel_storePixel h hfits]

theorem takePixels_store (h : f.Accepted) {pixels : List UInt32} (hfits : ∀ pixel ∈ pixels, f.Fits pixel) (rest : Bytes) :
    f.takePixels pixels.length (pixels.flatMap f.storePixel ++ rest) = some (pixels.map UInt32.toNat, rest) := by
  induction pixels with
  | nil => rfl
  | cons pixel pixels ih =>
    have hrest := ih fun p hp => hfits p (List.mem_cons_of_mem _ hp)
    rw [List.flatMap_cons, List.append_assoc, List.length_cons, takePixels,
      takePixel_store h (hfits pixel List.mem_cons_self)]
    simp only [Option.bind_eq_bind, Option.bind_some, hrest]
    rfl

/-! ## Rectangles that grow -/

/-- A run that begins with an index that holds. -/
theorem run_holds {g : ℕ → Bool} {n i : ℕ} (hi : i < n) (hg : g i = true) :
    i + (1 + runLength g n n (i + 1)) ≤ n ∧ ∀ j, i ≤ j → j < i + (1 + runLength g n n (i + 1)) → g j = true := by
  have hrun : ∀ j, i + 1 ≤ j → j < i + 1 + runLength g n n (i + 1) → j < n ∧ g j = true :=
    fun j hij hj => runLength_holds n hij hj
  constructor
  · rcases Nat.eq_zero_or_pos (runLength g n n (i + 1)) with h | h
    · omega
    · have := (hrun (i + runLength g n n (i + 1)) (by omega) (by omega)).1
      omega
  · intro j hij hj
    rcases Nat.eq_or_lt_of_le hij with rfl | hlt
    · exact hg
    · exact (hrun j hlt (by omega)).2

/-- **A rectangle that grows** stays in the tile and covers free pixels only. -/
theorem growRect_spec {free : ℕ → ℕ → Bool} {y x : ℕ} (hy : y < height) (hx : x < width) (hfree : free y x = true) :
    0 < (growRect width height free y x).1 ∧ 0 < (growRect width height free y x).2 ∧
      x + (growRect width height free y x).1 ≤ width ∧ y + (growRect width height free y x).2 ≤ height ∧
      ∀ row column, y ≤ row → row < y + (growRect width height free y x).2 → x ≤ column →
        column < x + (growRect width height free y x).1 → free row column = true := by
  obtain ⟨hrunW, hrow⟩ := run_holds (g := free y) hx hfree
  obtain ⟨haltH, hcolumn⟩ := run_holds (g := fun row => free row x) hy hfree
  generalize hw : 1 + runLength (free y) width width (x + 1) = runW at hrunW hrow
  generalize hh : 1 + runLength (fun row => free row x) height height (y + 1) = altH at haltH hcolumn
  have hall : ∀ {n : ℕ} {g : ℕ → Bool}, (∀ i < n, g i = true) → ((List.range n).all fun i => g i) = true := by
    intro n g hg
    rw [List.all_eq_true]
    exact fun i hi => hg i (List.mem_range.1 hi)
  obtain ⟨hrunH, hdown⟩ := run_holds (g := fun row => (List.range runW).all fun i => free row (x + i)) hy
    (hall fun i hi => hrow (x + i) (by omega) (by omega))
  obtain ⟨haltW, hside⟩ := run_holds (g := fun column => (List.range altH).all fun j => free (y + j) column) hx
    (hall fun j hj => hcolumn (y + j) (by omega) (by omega))
  unfold growRect
  dsimp only
  rw [hw, hh]
  split
  · refine ⟨by omega, by omega, haltW, haltH, fun row column hy1 hy2 hx1 hx2 => ?_⟩
    have := List.all_eq_true.1 (hside column hx1 hx2) (row - y) (List.mem_range.2 (by omega))
    rwa [show y + (row - y) = row by omega] at this
  · refine ⟨by omega, by omega, hrunW, hrunH, fun row column hy1 hy2 hx1 hx2 => ?_⟩
    have := List.all_eq_true.1 (hdown row hy1 hy2) (column - x) (List.mem_range.2 (by omega))
    rwa [show x + (column - x) = column by omega] at this

/-! ## Subrectangles -/

theorem nibbles_toNat {a b : ℕ} (ha : a < 16) (hb : b < 16) : (UInt8.ofNat ((a <<< 4) ||| b)).toNat = a * 16 + b := by
  rw [← Nat.shiftLeft_add_eq_or_of_lt (i := 4) hb, Nat.shiftLeft_eq, UInt8.toNat_ofNat']
  exact Nat.mod_eq_of_lt (by omega)

/-- The colour of a subrectangle, where it is not the foreground. -/
def ownColour (f : VncFormat) (fg : Option ℕ) (colour : UInt32) : Bytes := if fg.isSome then [] else f.storePixel colour

theorem subrectColour_own (h : f.Accepted) {fg : Option ℕ} {colour : UInt32} (hfits : f.Fits colour)
    (hfg : ∀ c ∈ fg, c = colour.toNat) (rest : Bytes) :
    f.subrectColour fg (f.ownColour fg colour ++ rest) = some (colour.toNat, rest) := by
  cases fg with
  | some c =>
    obtain rfl := hfg c rfl
    rfl
  | none => exact takePixel_store h hfits rest

theorem placeSubrect_one {x y w hh : ℕ} (hx : x + w ≤ width) (hy : y + hh ≤ height) (hw : 0 < w) (hhh : 0 < hh)
    (hwidth : width ≤ 16) (hheight : height ≤ 16) (picture : Picture) (colour : ℕ) (rest : Bytes) :
    placeSubrect width height picture colour
      (UInt8.ofNat ((x <<< 4) ||| y) :: UInt8.ofNat (((w - 1) <<< 4) ||| (hh - 1)) :: rest) =
      some (fill picture x y w hh colour, rest) := by
  have hxy := nibbles_toNat (show x < 16 by omega) (show y < 16 by omega)
  have hwh := nibbles_toNat (show w - 1 < 16 by omega) (show hh - 1 < 16 by omega)
  have h1 : (x * 16 + y) / 16 = x := by omega
  have h2 : (x * 16 + y) % 16 = y := by omega
  have h3 : ((w - 1) * 16 + (hh - 1)) / 16 + 1 = w := by omega
  have h4 : ((w - 1) * 16 + (hh - 1)) % 16 + 1 = hh := by omega
  unfold placeSubrect
  dsimp only
  rw [hxy, hwh, h1, h2, h3, h4, if_pos ⟨hx, hy⟩]

/-- One more subrectangle is read behind the others. -/
theorem readSubrects_snoc (fg : Option ℕ) (n : ℕ) (picture : Picture) (s : Bytes) :
    f.readSubrects width height fg (n + 1) picture s =
      (f.readSubrects width height fg n picture s).bind fun r => f.readSubrect width height fg r.1 r.2 := by
  induction n generalizing picture s with
  | zero =>
    simp only [readSubrects, Option.bind_eq_bind, Option.bind_some]
    cases f.readSubrect width height fg picture s <;> rfl
  | succ n ih =>
    rw [readSubrects, readSubrects]
    simp only [Option.bind_eq_bind, Option.bind_assoc, ih]

/-- What the subrectangles so far are read as: the pixels covered, over the background. -/
def Covers (f : VncFormat) (width height : ℕ) (bg : UInt32) (fg : Option ℕ) (tile : TilePixels) (s : HexSubrects) : Prop :=
  ∃ picture : Picture,
    (∀ rest, f.readSubrects width height fg s.count (fun _ _ => bg.toNat) (s.bytes ++ rest) = some (picture, rest)) ∧
      ∀ row < height, ∀ column < width,
        picture row column = if s.covered row column then (tile row column).toNat else bg.toNat

theorem covers_start (f : VncFormat) (width height : ℕ) (bg : UInt32) (fg : Option ℕ) (tile : TilePixels) :
    Covers f width height bg fg tile ⟨fun _ _ => false, 0, 0, []⟩ :=
  ⟨fun _ _ => bg.toNat, fun _ => rfl, fun _ _ _ _ => rfl⟩

/-- The room they take. -/
structure SubrectRoom (f : VncFormat) (width height : ℕ) (s : HexSubrects) : Prop where
  length : s.bytes.length = s.used
  count : s.count ≤ 255
  used : s.used = 0 ∨ s.used < width * height * f.pixelBytes

theorem hexSubrect_room (h : f.Accepted) {bg : UInt32} {mono : Bool} {tile : TilePixels} {p : ℕ × ℕ} {s s' : HexSubrects}
    (hs : SubrectRoom f width height s) (hstep : f.hexSubrect width height bg mono tile s p = some s') :
    SubrectRoom f width height s' := by
  obtain ⟨y, x⟩ := p
  unfold hexSubrect at hstep
  dsimp only at hstep
  split at hstep
  · exact Option.some.inj hstep ▸ hs
  generalize hused : (s.used + if mono = true then 2 else 2 + f.pixelBytes) = used at hstep
  split at hstep
  · cases hstep
  rename_i hroom
  simp only [Bool.or_eq_true, decide_eq_true_eq, not_or, not_le] at hroom
  obtain rfl := Option.some.inj hstep
  refine ⟨?_, ?_, Or.inr hroom.2⟩
  · dsimp only
    rw [List.length_append, List.length_append, hs.length, ← hused]
    cases mono with
    | true => rfl
    | false =>
      rw [if_neg (by decide), if_neg (by decide), storePixel_length h]
      simp only [List.length_cons, List.length_nil]
      omega
  · dsimp only
    have := hs.count
    omega

theorem scan_room (h : f.Accepted) {bg : UInt32} {mono : Bool} {tile : TilePixels} {scan : List (ℕ × ℕ)} {s s' : HexSubrects}
    (hs : SubrectRoom f width height s) (hscan : scan.foldlM (f.hexSubrect width height bg mono tile) s = some s') :
    SubrectRoom f width height s' := by
  induction scan generalizing s with
  | nil => exact Option.some.inj hscan ▸ hs
  | cons p scan ih =>
    rw [List.foldlM_cons] at hscan
    obtain ⟨m, hm, hrest⟩ := Option.bind_eq_some_iff.1 hscan
    exact ih (hexSubrect_room h hs hm) hrest

theorem room_start (f : VncFormat) (width height : ℕ) : SubrectRoom f width height ⟨fun _ _ => false, 0, 0, []⟩ :=
  ⟨rfl, Nat.zero_le _, Or.inl rfl⟩

/-- **One pixel of the scan.** -/
theorem hexSubrect_covers (h : f.Accepted) {bg : UInt32} {mono : Bool} {fg : Option ℕ} {tile : TilePixels}
    (hfits : ∀ row < height, ∀ column < width, f.Fits (tile row column)) (hmono : fg.isSome = mono)
    (hfg : ∀ c ∈ fg, ∀ row < height, ∀ column < width, tile row column = bg ∨ (tile row column).toNat = c)
    (hwidth : width ≤ 16) (hheight : height ≤ 16) {s s' : HexSubrects} {y x : ℕ} (hy : y < height) (hx : x < width)
    (hs : Covers f width height bg fg tile s) (hstep : f.hexSubrect width height bg mono tile s (y, x) = some s') :
    Covers f width height bg fg tile s' ∧ (∀ row column, s.covered row column = true → s'.covered row column = true) ∧
      (tile y x = bg ∨ s'.covered y x = true) := by
  unfold hexSubrect at hstep
  dsimp only at hstep
  split at hstep
  · rename_i hskip
    obtain rfl := Option.some.inj hstep
    refine ⟨hs, fun _ _ hc => hc, ?_⟩
    simpa using hskip
  rename_i hstart
  simp only [Bool.or_eq_true, decide_eq_true_eq, not_or] at hstart
  obtain ⟨hbg, hfresh⟩ := hstart
  generalize (s.used + if mono = true then 2 else 2 + f.pixelBytes) = used at hstep
  split at hstep
  · cases hstep
  have hfree : hexFree tile s.covered (tile y x) y x = true := by
    unfold hexFree
    rw [beq_self_eq_true, Bool.true_and, Bool.eq_false_iff.2 hfresh]
    rfl
  obtain ⟨hw, hh, hright, hbottom, hall⟩ := growRect_spec hy hx hfree
  generalize (growRect width height (hexFree tile s.covered (tile y x)) y x).1 = w at hstep hw hright hall
  generalize (growRect width height (hexFree tile s.covered (tile y x)) y x).2 = hgt at hstep hh hbottom hall
  obtain rfl := Option.some.inj hstep
  obtain ⟨picture, hread, hpicture⟩ := hs
  have hown : f.ownColour fg (tile y x) = if mono then [] else f.storePixel (tile y x) := by
    rw [ownColour, hmono]
  have hcolour : ∀ c ∈ fg, c = (tile y x).toNat := fun c hc => ((hfg c hc y hy x hx).resolve_left hbg).symm
  refine ⟨⟨fill picture x y w hgt (tile y x).toNat, fun rest => ?_, fun row hrow column hcolumn => ?_⟩,
    fun row column hc => ?_, Or.inr ?_⟩
  · dsimp only
    rw [readSubrects_snoc, ← hown, List.append_assoc, List.append_assoc, hread, Option.bind_some, readSubrect]
    dsimp only
    rw [subrectColour_own h (hfits y hy x hx) hcolour]
    exact placeSubrect_one hright hbottom hw hh hwidth hheight picture _ rest
  · dsimp only
    unfold fill
    rw [hpicture row hrow column hcolumn]
    by_cases hin : y ≤ row ∧ row < y + hgt ∧ x ≤ column ∧ column < x + w
    · have := hall row column hin.1 hin.2.1 hin.2.2.1 hin.2.2.2
      unfold hexFree at this
      rw [Bool.and_eq_true, beq_iff_eq] at this
      rw [if_pos hin, if_pos (show (s.covered row column || decide _) = true by rw [decide_eq_true hin, Bool.or_true]),
        this.1]
    · have hsame : (s.covered row column || decide (y ≤ row ∧ row < y + hgt ∧ x ≤ column ∧ column < x + w)) =
          s.covered row column := by
        rw [decide_eq_false hin, Bool.or_false]
      rw [if_neg hin]
      exact if_congr (by rw [hsame]) rfl rfl
  · dsimp only
    rw [hc, Bool.true_or]
  · dsimp only
    rw [decide_eq_true ⟨le_rfl, by omega, le_rfl, by omega⟩, Bool.or_true]

/-- **The scan** covers what it passes. -/
theorem scan_covers (h : f.Accepted) {bg : UInt32} {mono : Bool} {fg : Option ℕ} {tile : TilePixels}
    (hfits : ∀ row < height, ∀ column < width, f.Fits (tile row column)) (hmono : fg.isSome = mono)
    (hfg : ∀ c ∈ fg, ∀ row < height, ∀ column < width, tile row column = bg ∨ (tile row column).toNat = c)
    (hwidth : width ≤ 16) (hheight : height ≤ 16) {scan : List (ℕ × ℕ)} (hin : ∀ p ∈ scan, p.1 < height ∧ p.2 < width)
    {s s' : HexSubrects} (hs : Covers f width height bg fg tile s)
    (hscan : scan.foldlM (f.hexSubrect width height bg mono tile) s = some s') :
    Covers f width height bg fg tile s' ∧ (∀ row column, s.covered row column = true → s'.covered row column = true) ∧
      ∀ p ∈ scan, tile p.1 p.2 = bg ∨ s'.covered p.1 p.2 = true := by
  induction scan generalizing s with
  | nil =>
    obtain rfl := Option.some.inj hscan
    exact ⟨hs, fun _ _ hc => hc, fun p hp => absurd hp List.not_mem_nil⟩
  | cons p scan ih =>
    obtain ⟨hy, hx⟩ := hin p List.mem_cons_self
    rw [List.foldlM_cons] at hscan
    obtain ⟨m, hm, hrest⟩ := Option.bind_eq_some_iff.1 hscan
    obtain ⟨hcovers, hgrown, hdone⟩ := hexSubrect_covers h hfits hmono hfg hwidth hheight hy hx hs hm
    obtain ⟨hend, hkept, hall⟩ := ih (fun q hq => hin q (List.mem_cons_of_mem _ hq)) hcovers hrest
    refine ⟨hend, fun row column hc => hkept _ _ (hgrown _ _ hc), fun q hq => ?_⟩
    rcases List.mem_cons.1 hq with rfl | hq
    · exact hdone.imp_right (hkept _ _)
    · exact hall q hq

/-- **The subrectangles of a tile read as its pixels.** -/
theorem subrects_read (h : f.Accepted) (fg : Option ℕ) {bg : UInt32} {mono : Bool} {tile : TilePixels}
    (hfits : ∀ row < height, ∀ column < width, f.Fits (tile row column)) (hmono : fg.isSome = mono)
    (hfg : ∀ c ∈ fg, ∀ row < height, ∀ column < width, tile row column = bg ∨ (tile row column).toNat = c)
    (hwidth : width ≤ 16) (hheight : height ≤ 16) {s : HexSubrects}
    (hs : f.hextileSubrects width height bg mono tile = some s) :
    s.bytes.length = s.used ∧ s.count ≤ 255 ∧ ∃ picture : Picture,
      (∀ rest, f.readSubrects width height fg s.count (fun _ _ => bg.toNat) (s.bytes ++ rest) = some (picture, rest)) ∧
        ∀ row < height, ∀ column < width, picture row column = (tile row column).toNat := by
  have hin : ∀ p ∈ raster width height Prod.mk, p.1 < height ∧ p.2 < width := by
    intro p hp
    obtain ⟨row, hrow, column, hcolumn, rfl⟩ := mem_raster.1 hp
    exact ⟨hrow, hcolumn⟩
  obtain ⟨hcovers, -, hall⟩ :=
    scan_covers h hfits hmono hfg hwidth hheight hin (covers_start f width height bg fg tile) hs
  have hroom := scan_room h (room_start f width height) hs
  obtain ⟨picture, hread, hpicture⟩ := hcovers
  refine ⟨hroom.length, hroom.count, picture, hread, fun row hrow column hcolumn => ?_⟩
  rw [hpicture row hrow column hcolumn]
  split
  · rfl
  · rename_i hopen
    rcases hall (row, column) (mem_raster.2 ⟨row, hrow, column, hcolumn, rfl⟩) with hbg | hc
    · exact congrArg UInt32.toNat hbg.symm
    · exact absurd hc hopen

/-! ## The colours of a tile -/

/-- What the count of the colours says about the pixels it has seen. -/
structure ColoursInv (first : UInt32) (seen : UInt32 → Prop) (c : HexColours) : Prop where
  one : c.colours = 1 → ∀ pixel, seen pixel → pixel = first
  two : c.colours = 2 → ∀ pixel, seen pixel → pixel = first ∨ pixel = c.second
  pos : 1 ≤ c.colours
  second : 2 ≤ c.colours → seen c.second

theorem countColour_inv {first : UInt32} {seen : UInt32 → Prop} {c : HexColours} (hc : ColoursInv first seen c)
    (pixel : UInt32) : ColoursInv first (fun p => seen p ∨ p = pixel) (countColour first c pixel) := by
  obtain ⟨hone, htwo, hpos, hsecond⟩ := hc
  unfold countColour
  split
  · rename_i hfirst
    refine ⟨fun h1 p hp => ?_, fun h2 p hp => ?_, hpos, fun h2 => Or.inl (hsecond h2)⟩
    · exact hp.elim (hone h1 p) fun h => h.trans hfirst
    · exact hp.elim (htwo h2 p) fun h => Or.inl (h.trans hfirst)
  split
  · rename_i h1
    refine ⟨fun h => ?_, fun _ p hp => ?_, Nat.le_succ 1, fun _ => Or.inr rfl⟩
    · exact absurd (show 2 = 1 from h) (by decide)
    · exact hp.elim (fun h => Or.inl (hone h1 p h)) Or.inr
  split
  · rename_i hsame
    refine ⟨fun h1 => ?_, fun h2 p hp => ?_, hpos, fun h2 => Or.inl (hsecond h2)⟩
    · rename_i hmore
      exact absurd h1 hmore
    · exact hp.elim (htwo h2 p) fun h => Or.inr (h.trans hsame)
  · rename_i hmore _
    refine ⟨fun h => ?_, fun h => ?_, show 1 ≤ 3 by decide, fun _ => Or.inl (hsecond ?_)⟩
    · exact absurd (show 3 = 1 from h) (by decide)
    · exact absurd (show 3 = 2 from h) (by decide)
    · omega

theorem hexColours_inv (width height : ℕ) (tile : TilePixels) :
    ColoursInv (tile 0 0) (fun p => p ∈ raster width height tile) (hexColours width height tile) := by
  have hrun : ∀ (pixels : List UInt32) (seen : UInt32 → Prop) (c : HexColours), ColoursInv (tile 0 0) seen c →
      ColoursInv (tile 0 0) (fun p => seen p ∨ p ∈ pixels) (pixels.foldl (countColour (tile 0 0)) c) := by
    intro pixels
    induction pixels with
    | nil =>
      intro seen c hc
      simpa using hc
    | cons pixel pixels ih =>
      intro seen c hc
      have := ih _ _ (countColour_inv hc pixel)
      simpa only [List.foldl_cons, List.mem_cons, or_assoc] using this
  have hstart : ColoursInv (tile 0 0) (fun _ => False) ⟨0, 0, 0, 1⟩ :=
    ⟨fun _ _ h => h.elim, fun _ _ h => h.elim, le_rfl, fun h => absurd h (by decide)⟩
  have hend := hrun (raster width height tile) _ _ hstart
  simp only [false_or] at hend
  exact hend

/-! ## Tiles -/

/-- What the viewer carries where the server carries this. -/
def HexContext.viewer (context : HexContext) : ViewerContext := ⟨context.bg.map UInt32.toNat, context.fg.map UInt32.toNat⟩

/-- A colour is sent where the viewer does not hold it. -/
theorem takeColour_carried (h : f.Accepted) {colour : UInt32} (hfits : f.Fits colour) (carried : Option UInt32) (rest : Bytes) :
    f.takeColour (carried != some colour) (carried.map UInt32.toNat)
      ((if carried != some colour then f.storePixel colour else []) ++ rest) = some (some colour.toNat, rest) := by
  unfold takeColour
  split
  · rw [takePixel_store h hfits]
    rfl
  · rename_i hheld
    have hheld : carried = some colour := by simpa using hheld
    rw [hheld]
    rfl

theorem takeColour_kept (f : VncFormat) (carried : Option ℕ) (s : Bytes) : f.takeColour false carried s = some (carried, s) :=
  rfl

/-- The flags of a tile with subrectangles. -/
theorem flags_covered (newBg mono newFg : Bool) :
    hexFlags ((if newBg then vncHexBg else 0) ||| vncHexAny ||| if mono then (if newFg then vncHexFg else 0) else vncHexColoured) =
      ⟨false, newBg, mono && newFg, true, !mono⟩ := by
  revert newBg mono newFg
  decide

theorem flags_solid (newBg : Bool) : hexFlags (if newBg then vncHexBg else 0) = ⟨false, newBg, false, false, false⟩ := by
  revert newBg
  decide

/-- A tile of one colour. -/
theorem solid_read (h : f.Accepted) {colour : UInt32} (hfits : f.Fits colour) (context : HexContext) (rest : Bytes) :
    f.readHextileTile context.viewer width height
      ((if context.bg != some colour then vncHexBg else 0) ::
        (if context.bg != some colour then f.storePixel colour else []) ++ rest) =
      some (fun _ _ => colour.toNat, ({ context with bg := some colour } : HexContext).viewer, rest) := by
  have htake := takeColour_carried h hfits context.bg rest
  rw [List.cons_append, readHextileTile, flags_solid]
  dsimp only
  rw [if_neg (by decide), if_neg (by decide)]
  unfold HexContext.viewer
  dsimp only
  rw [htake]
  rfl

/-- A raw tile. -/
theorem raw_read (h : f.Accepted) {tile : TilePixels} (hfits : ∀ row < height, ∀ column < width, f.Fits (tile row column))
    (context : ViewerContext) (rest : Bytes) :
    ∃ picture : Picture, (f.readHextileTile context width height
        (vncHexRaw :: (raster width height tile).flatMap f.storePixel ++ rest) = some (picture, ⟨none, none⟩, rest)) ∧
      ∀ row < height, ∀ column < width, picture row column = (tile row column).toNat := by
  have hall : ∀ pixel ∈ raster width height tile, f.Fits pixel := by
    intro pixel hp
    obtain ⟨row, hrow, column, hcolumn, rfl⟩ := mem_raster.1 hp
    exact hfits row hrow column hcolumn
  have htake := takePixels_store h hall rest
  rw [raster_length, map_raster] at htake
  have hraw : (hexFlags vncHexRaw).raw = true := by decide
  refine ⟨fun row column => (raster width height fun i j => (tile i j).toNat).getD (row * width + column) 0, ?_,
    fun row hrow column hcolumn => raster_getD _ hrow hcolumn 0⟩
  rw [List.cons_append, readHextileTile, if_pos hraw, htake, Option.map_some]

/-- A tile with subrectangles. -/
theorem covered_read (h : f.Accepted) {bg fg : UInt32} {mono : Bool} {tile : TilePixels}
    (hfits : ∀ row < height, ∀ column < width, f.Fits (tile row column)) (hbg : f.Fits bg) (hfg : f.Fits fg)
    (hmono : mono = true → ∀ row < height, ∀ column < width, tile row column = bg ∨ tile row column = fg)
    (hwidth : width ≤ 16) (hheight : height ≤ 16) {s : HexSubrects}
    (hs : f.hextileSubrects width height bg mono tile = some s) (context : HexContext) (rest : Bytes) :
    s.bytes.length = s.used ∧ ∃ picture : Picture,
      f.readHextileTile context.viewer width height
        (((if context.bg != some bg then vncHexBg else 0) ||| vncHexAny |||
            if mono then (if mono && context.fg != some fg then vncHexFg else 0) else vncHexColoured) ::
          (if context.bg != some bg then f.storePixel bg else []) ++
          (if mono && context.fg != some fg then f.storePixel fg else []) ++ [UInt8.ofNat s.count] ++ s.bytes ++ rest) =
        some (picture, (⟨some bg, if mono then some fg else none⟩ : HexContext).viewer, rest) ∧
      ∀ row < height, ∀ column < width, picture row column = (tile row column).toNat := by
  obtain ⟨hlength, hcount, picture, hread, hpicture⟩ := subrects_read h (if mono then some fg.toNat else none) hfits
    (by cases mono <;> rfl) (by
      cases mono with
      | true =>
        intro c hc row hrow column hcolumn
        rw [← Option.some.inj hc]
        exact (hmono rfl row hrow column hcolumn).imp_right (congrArg UInt32.toNat)
      | false => exact fun c hc => nomatch hc) hwidth hheight hs
  have hbyte : (UInt8.ofNat s.count).toNat = s.count := by
    rw [UInt8.toNat_ofNat']
    exact Nat.mod_eq_of_lt (by omega)
  refine ⟨hlength, picture, ?_, hpicture⟩
  have htake := takeColour_carried h hbg context.bg
  have htakeFg := takeColour_carried h hfg context.fg
  simp only [List.cons_append, List.append_assoc, List.nil_append]
  rw [readHextileTile, flags_covered]
  unfold HexContext.viewer
  dsimp only
  cases mono with
  | true =>
    simp only [Bool.true_and, Bool.not_true, Bool.and_false, if_false, Bool.false_eq_true, if_true, htake, htakeFg,
      Option.bind_some, readFilled, readCovered, hbyte]
    have := hread rest
    rw [if_pos rfl] at this
    rw [this]
    rfl
  | false =>
    simp only [Bool.false_and, Bool.not_false, if_false, Bool.false_eq_true, if_true, htake, List.nil_append,
      Option.bind_some, readFilled, readCovered, hbyte, takeColour_kept]
    have := hread rest
    rw [if_neg (by decide)] at this
    rw [this]
    rfl

theorem flatMap_store_length (h : f.Accepted) (pixels : List UInt32) :
    (pixels.flatMap f.storePixel).length = pixels.length * f.pixelBytes := by
  induction pixels with
  | nil => simp
  | cons pixel pixels ih =>
    rw [List.flatMap_cons, List.length_append, ih, storePixel_length h, List.length_cons, Nat.add_mul, Nat.one_mul, Nat.add_comm]

/-- **A tile** fills what it reserves, reads as its pixels, and leaves the viewer with the
colours the server carries on. -/
theorem tile_read (h : f.Accepted) (tile : TilePixels) (hfits : ∀ row < height, ∀ column < width, f.Fits (tile row column))
    (hw : 0 < width) (hh : 0 < height) (hwidth : width ≤ 16) (hheight : height ≤ 16) (context : HexContext) :
    (f.encodeHextileTile context width height tile).2.written.length =
        (f.encodeHextileTile context width height tile).2.reserved ∧
      ∀ rest, ∃ picture : Picture,
        f.readHextileTile context.viewer width height ((f.encodeHextileTile context width height tile).2.written ++ rest) =
            some (picture, (f.encodeHextileTile context width height tile).1.viewer, rest) ∧
          ∀ row < height, ∀ column < width, picture row column = (tile row column).toNat := by
  have hinv := hexColours_inv width height tile
  have hseen : ∀ pixel ∈ raster width height tile, f.Fits pixel := by
    intro pixel hp
    obtain ⟨row, hrow, column, hcolumn, rfl⟩ := mem_raster.1 hp
    exact hfits row hrow column hcolumn
  have hat : ∀ row < height, ∀ column < width, tile row column ∈ raster width height tile :=
    fun row hrow column hcolumn => mem_raster.2 ⟨row, hrow, column, hcolumn, rfl⟩
  have hfirst := hfits 0 hh 0 hw
  unfold encodeHextileTile
  dsimp only
  generalize hexColours width height tile = c at hinv ⊢
  -- the background is one of the two colours
  have hbg : (if c.colours ≥ 2 && c.secondCount > c.firstCount then c.second else tile 0 0) = tile 0 0 ∨
      2 ≤ c.colours ∧ (if c.colours ≥ 2 && c.secondCount > c.firstCount then c.second else tile 0 0) = c.second := by
    split
    · rename_i hmore
      simp only [Bool.and_eq_true, decide_eq_true_eq] at hmore
      exact Or.inr ⟨hmore.1, rfl⟩
    · exact Or.inl rfl
  generalize (if c.colours ≥ 2 && c.secondCount > c.firstCount then c.second else tile 0 0) = bg at hbg ⊢
  have hbgFits : f.Fits bg := by
    rcases hbg with rfl | ⟨hmore, rfl⟩
    · exact hfirst
    · exact hseen _ (hinv.second hmore)
  have hstore := storePixel_length h bg
  split
  · -- one colour
    rename_i hone
    have hsame : bg = tile 0 0 := hbg.resolve_right fun hmore => by omega
    refine ⟨?_, fun rest => ⟨_, solid_read h hbgFits context rest, fun row hrow column hcolumn => ?_⟩⟩
    · dsimp only
      cases context.bg != some bg <;> simp [hstore, Nat.add_comm]
    · rw [hsame, hinv.one hone _ (hat row hrow column hcolumn)]
  rename_i hmany
  have hmore : 2 ≤ c.colours := by
    have := hinv.pos
    omega
  split
  · -- raw
    refine ⟨?_, fun rest => raw_read h hfits context.viewer rest⟩
    dsimp only
    rw [List.length_cons, flatMap_store_length h, raster_length, Nat.mul_comm height width, Nat.add_comm]
  · rename_i s hs
    have hfgFits : f.Fits (if bg = tile 0 0 then c.second else tile 0 0) := by
      split
      · exact hseen _ (hinv.second hmore)
      · exact hfirst
    have hmono : (c.colours == 2) = true → ∀ row < height, ∀ column < width,
        tile row column = bg ∨ tile row column = if bg = tile 0 0 then c.second else tile 0 0 := by
      intro htwo row hrow column hcolumn
      have hpixel := hinv.two (beq_iff_eq.1 htwo) _ (hat row hrow column hcolumn)
      split
      · rename_i hsame
        rwa [hsame]
      · rename_i hother
        rw [(hbg.resolve_left hother).2]
        exact hpixel.symm
    have hread := covered_read h hfits hbgFits hfgFits hmono hwidth hheight hs context
    refine ⟨?_, fun rest => (hread rest).2⟩
    have hstoreFg := storePixel_length h (if bg = tile 0 0 then c.second else tile 0 0)
    dsimp only
    rw [List.length_append, List.length_append, List.length_append, List.length_cons, (hread []).1]
    cases context.bg != some bg <;>
      cases (c.colours == 2 && context.fg != some (if bg = tile 0 0 then c.second else tile 0 0)) <;>
      simp [hstore, hstoreFg] <;> omega

/-! ## Rectangles -/

theorem hexTileSize_bounds {length tile : ℕ} (h : tile < vncTiles length) :
    0 < hexTileSize length tile ∧ hexTileSize length tile ≤ 16 := by
  have := tile_lt h
  unfold hexTileSize vncTile at *
  split <;> omega

/-- **The tiles of a rectangle** are read in their places, with the colours carried on. -/
theorem tiles_read (h : f.Accepted) (frame : Frame) (x y : ℕ) {tiles : List (ℕ × ℕ)}
    (hin : ∀ p ∈ tiles, p.1 < vncTiles height ∧ p.2 < vncTiles width) (context : HexContext) (picture : Picture)
    (rest : Bytes) : ∃ result : Picture,
      f.readHextileFrom width height context.viewer tiles picture
          ((f.encodeHextileFrom frame x y width height context tiles).flatMap (·.written) ++ rest) = some (result, rest) ∧
        ∀ row < height, ∀ column < width,
          (row / vncTile, column / vncTile) ∈ tiles ∨
              picture row column = (f.translate (frame (y + row) (x + column))).toNat →
            result row column = (f.translate (frame (y + row) (x + column))).toNat := by
  induction tiles generalizing context picture with
  | nil => exact ⟨picture, rfl, fun row _ column _ hright => hright.resolve_left List.not_mem_nil⟩
  | cons p tiles ih =>
    obtain ⟨tileRow, tileColumn⟩ := p
    obtain ⟨hrow, hcolumn⟩ := hin _ List.mem_cons_self
    obtain ⟨hh, hheight⟩ := hexTileSize_bounds hrow
    obtain ⟨hw, hwidth⟩ := hexTileSize_bounds hcolumn
    have htile := (tile_read h
      (fun i j => f.translate (frame (y + tileRow * vncTile + i) (x + tileColumn * vncTile + j))) (fun _ _ _ _ => translate_lt h _) hw hh hwidth hheight context).2
    rw [encodeHextileFrom]
    dsimp only
    rw [List.flatMap_cons, List.append_assoc, readHextileFrom]
    generalize f.encodeHextileTile context (hexTileSize width tileColumn) (hexTileSize height tileRow) _ = encoded at htile ⊢
    obtain ⟨part, hpart, hpixels⟩ := htile
      ((f.encodeHextileFrom frame x y width height encoded.1 tiles).flatMap (·.written) ++ rest)
    rw [hpart]
    obtain ⟨result, hresult, hright⟩ := ih (fun q hq => hin q (List.mem_cons_of_mem _ hq)) encoded.1
      fun i j => if i / vncTile = tileRow ∧ j / vncTile = tileColumn then part (i % vncTile) (j % vncTile) else picture i j
    refine ⟨result, hresult, fun row hr column hc hdone => hright row hr column hc ?_⟩
    by_cases hhere : row / vncTile = tileRow ∧ column / vncTile = tileColumn
    · -- a pixel of this tile
      obtain ⟨rfl, rfl⟩ := hhere
      have hi : row % vncTile < hexTileSize height (row / vncTile) := by
        unfold hexTileSize vncTile
        split <;> omega
      have hj : column % vncTile < hexTileSize width (column / vncTile) := by
        unfold hexTileSize vncTile
        split <;> omega
      right
      rw [if_pos ⟨rfl, rfl⟩, hpixels _ hi _ hj, Nat.add_assoc, Nat.add_assoc, Nat.div_add_mod', Nat.div_add_mod']
    · rw [if_neg hhere]
      refine hdone.imp_left fun hmem => (List.mem_cons.1 hmem).resolve_left fun heq => hhere ?_
      exact Prod.mk.inj heq

theorem tiles_filled (h : f.Accepted) (frame : Frame) (x y : ℕ) {tiles : List (ℕ × ℕ)}
    (hin : ∀ p ∈ tiles, p.1 < vncTiles height ∧ p.2 < vncTiles width) (context : HexContext) :
    ∀ output ∈ f.encodeHextileFrom frame x y width height context tiles, output.written.length = output.reserved := by
  induction tiles generalizing context with
  | nil => exact fun output hmem => absurd hmem List.not_mem_nil
  | cons p tiles ih =>
    obtain ⟨tileRow, tileColumn⟩ := p
    obtain ⟨hrow, hcolumn⟩ := hin _ List.mem_cons_self
    obtain ⟨hh, hheight⟩ := hexTileSize_bounds hrow
    obtain ⟨hw, hwidth⟩ := hexTileSize_bounds hcolumn
    intro output hmem
    rw [encodeHextileFrom] at hmem
    rcases List.mem_cons.1 hmem with rfl | hmem
    · exact (tile_read h _ (fun _ _ _ _ => translate_lt h _) hw hh hwidth hheight context).1
    · exact ih (fun q hq => hin q (List.mem_cons_of_mem _ hq)) _ output hmem

/-- **A rectangle** is read as its translated pixels. -/
theorem hextileRect_read (h : f.Accepted) (frame : Frame) (x y width height : ℕ) (rest : Bytes) :
    ∃ picture, f.readHextile width height ((f.encodeHextile frame x y width height).flatMap (·.written) ++ rest) =
        some (picture, rest) ∧
      ∀ row < height, ∀ column < width, picture row column = (f.translate (frame (y + row) (x + column))).toNat := by
  obtain ⟨picture, hread, hright⟩ := tiles_read h frame x y (fun _ hp => mem_positions.1 hp) ⟨none, none⟩ (fun _ _ => 0) rest
  refine ⟨picture, hread, fun row hrow column hcolumn => hright row hrow column hcolumn (Or.inl ?_)⟩
  exact mem_positions.2 ⟨div_tile_lt hrow, div_tile_lt hcolumn⟩

end VncFormat

/-- The format of a session: the first one, or one that was accepted. -/
def VncFormat.InUse (f : VncFormat) : Prop := f = vncDefaultFormat ∨ ∃ format, vncSetPixelFormat format = some f

theorem VncFormat.InUse.accepted {f : VncFormat} (h : f.InUse) : f.Accepted := by
  rcases h with rfl | ⟨format, hformat⟩
  · have hred : FieldInside 255 16 32 := ⟨by decide, by decide⟩
    have hgreen : FieldInside 255 8 32 := ⟨by decide, by decide⟩
    have hblue : FieldInside 255 0 32 := ⟨by decide, by decide⟩
    exact ⟨Or.inr (Or.inr rfl), hred, hgreen, hblue, by decide⟩
  · exact (accepted_of_set hformat).1

open VncFormat in
/-- **The Hextile round trip.** Whatever the format, the screen and the rectangle, the viewer
reads the translated pixels; every tile fills what it reserves; and the subrectangles of a tile
stay inside their buffer and their count inside its byte, wherever the scan has come to. -/
theorem hextile_round_trip {f : VncFormat} (h : f.InUse) (frame : Frame) (x y width height : ℕ) (rest : Bytes) :
    (∃ picture, f.readHextile width height ((f.encodeHextile frame x y width height).flatMap (·.written) ++ rest) =
        some (picture, rest) ∧
      ∀ row < height, ∀ column < width, picture row column = (f.translate (frame (y + row) (x + column))).toNat) ∧
    (∀ output ∈ f.encodeHextile frame x y width height, output.written.length = output.reserved) ∧
    ∀ tileWidth ≤ vncTile, ∀ tileHeight ≤ vncTile, ∀ bg mono tile k s,
      ((raster tileWidth tileHeight Prod.mk).take k).foldlM (f.hexSubrect tileWidth tileHeight bg mono tile)
          ⟨fun _ _ => false, 0, 0, []⟩ = some s →
        s.bytes.length = s.used ∧ s.used < vncSubrectsSize ∧ s.count ≤ 255 := by
  have h := h.accepted
  refine ⟨hextileRect_read h frame x y width height rest,
    tiles_filled h frame x y (fun _ hp => mem_positions.1 hp) ⟨none, none⟩, ?_⟩
  intro tileWidth hwidth tileHeight hheight bg mono tile k s hs
  have hroom := scan_room h (room_start f tileWidth tileHeight) hs
  have hbytes : f.pixelBytes ≤ 4 := by
    rcases h.bpp_cases with ⟨hb, -⟩ | ⟨hb, -⟩ | ⟨hb, -⟩ <;> rw [hb] <;> decide
  have hlimit : tileWidth * tileHeight * f.pixelBytes ≤ 16 * 16 * 4 :=
    Nat.mul_le_mul (Nat.mul_le_mul hwidth hheight) hbytes
  refine ⟨hroom.length, ?_, hroom.count⟩
  have hused := hroom.used
  unfold vncSubrectsSize vncTile
  omega

/-- Two pixels on a diagonal. -/
def dottedFrame : Frame := fun row column => if row = column then 0xff else 0

/-- The second tile takes its background over from the first. -/
theorem hextile_round_trip_demo :
    (vncDefaultFormat.encodeHextile dottedFrame 0 0 17 2).map (·.written) =
      [[14, 0, 0, 0, 0, 255, 0, 0, 0, 2, 0, 0, 17, 0], [0]] ∧
    ∃ picture, vncDefaultFormat.readHextile 17 2
        ((vncDefaultFormat.encodeHextile dottedFrame 0 0 17 2).flatMap (·.written) ++ []) = some (picture, []) ∧
      ∀ row < 2, ∀ column < 17,
        picture row column = (vncDefaultFormat.translate (dottedFrame (0 + row) (0 + column))).toNat :=
  ⟨by decide, (hextile_round_trip (Or.inl rfl) dottedFrame 0 0 17 2 []).1⟩

end V9xRemote
