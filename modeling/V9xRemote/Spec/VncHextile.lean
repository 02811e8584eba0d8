import V9xRemote.Lib.Raster
import V9xRemote.Lib.Runs
import V9xRemote.Spec.VncFormat
import V9xRemote.Spec.VncFrame

/-!
# Hextile (`src/guest/vnc.c`)

`vnc_encode_hextile` with the background and foreground it carries from tile to tile, and
the reader of a viewer by the rules of RFB. Every tile gives the bytes it reserves in the
output buffer and those it writes there.
-/

namespace V9xRemote

open Bytes Raster Runs

/-- The translated pixels of a tile by row and column (`vnc_tile`). -/
abbrev TilePixels := ℕ → ℕ → UInt32

/-- The size of `vnc_subrects`. -/
def vncSubrectsSize : ℕ := vncTile * vncTile * 6

def vncHexRaw : UInt8 := 1
def vncHexBg : UInt8 := 2
def vncHexFg : UInt8 := 4
def vncHexAny : UInt8 := 8
def vncHexColoured : UInt8 := 16

namespace VncFormat

/-! ## Subrectangles -/

/-- The larger of the two rectangles that grow from a pixel over free ones: as wide as its row
allows and then down, and as high as its column allows and then sideways. -/
def growRect (width height : ℕ) (free : ℕ → ℕ → Bool) (y x : ℕ) : ℕ × ℕ :=
  let runW := 1 + runLength (free y) width width (x + 1)
  let runH := 1 + runLength (fun row => (List.range runW).all fun i => free row (x + i)) height height (y + 1)
  let altH := 1 + runLength (fun row => free row x) height height (y + 1)
  let altW := 1 + runLength (fun column => (List.range altH).all fun j => free (y + j) column) width width (x + 1)
  if altW * altH > runW * runH then (altW, altH) else (runW, runH)

/-- Where `vnc_hextile_subrects` is: the pixels covered, the bytes used and how many
subrectangles they are, and the bytes of `vnc_subrects`. -/
structure HexSubrects where
  covered : ℕ → ℕ → Bool
  used : ℕ
  count : ℕ
  bytes : Bytes

/-- Whether a pixel can be part of a rectangle of one colour. -/
def hexFree (tile : TilePixels) (covered : ℕ → ℕ → Bool) (colour : UInt32) (row column : ℕ) : Bool :=
  tile row column == colour && !covered row column

/-- One pixel of `vnc_hextile_subrects`; none where the subrectangles would not beat Raw. -/
def hexSubrect (f : VncFormat) (width height : ℕ) (bg : UInt32) (mono : Bool) (tile : TilePixels) (s : HexSubrects)
    (p : ℕ × ℕ) : Option HexSubrects :=
  let (y, x) := p
  let colour := tile y x
  if colour = bg || s.covered y x then some s
  else
    let (w, h) := growRect width height (hexFree tile s.covered colour) y x
    let used := s.used + if mono then 2 else 2 + f.pixelBytes
    if s.count = 255 || used ≥ width * height * f.pixelBytes then none
    else some
      { covered := fun row column => s.covered row column ||
          decide (y ≤ row ∧ row < y + h ∧ x ≤ column ∧ column < x + w)
        used := used
        count := s.count + 1
        bytes := s.bytes ++ (if mono then [] else f.storePixel colour) ++
          [UInt8.ofNat ((x <<< 4) ||| y), UInt8.ofNat (((w - 1) <<< 4) ||| (h - 1))] }

/-- `vnc_hextile_subrects`. -/
def hextileSubrects (f : VncFormat) (width height : ℕ) (bg : UInt32) (mono : Bool) (tile : TilePixels) :
    Option HexSubrects :=
  (raster width height Prod.mk).foldlM (f.hexSubrect width height bg mono tile) ⟨fun _ _ => false, 0, 0, []⟩

/-! ## Tiles -/

/-- What `vnc_encode_hextile_tile` counts: a second colour, how often the two come up, and
how many colours there are up to three. -/
structure HexColours where
  second : UInt32
  firstCount : ℕ
  secondCount : ℕ
  colours : ℕ

def countColour (first : UInt32) (c : HexColours) (pixel : UInt32) : HexColours :=
  if pixel = first then { c with firstCount := c.firstCount + 1 }
  else if c.colours = 1 then { c with second := pixel, secondCount := 1, colours := 2 }
  else if pixel = c.second then { c with secondCount := c.secondCount + 1 }
  else { c with colours := 3 }

def hexColours (width height : ℕ) (tile : TilePixels) : HexColours :=
  (raster width height tile).foldl (countColour (tile 0 0)) ⟨0, 0, 0, 1⟩

/-- The colours that carry over (`vnc_hex_bg` and `vnc_hex_fg` while they are valid). -/
structure HexContext where
  bg : Option UInt32
  fg : Option UInt32

/-- What a tile reserves in the output buffer, and what it writes there. -/
structure HexOutput where
  reserved : ℕ
  written : Bytes

/-- `vnc_encode_hextile_tile`. -/
def encodeHextileTile (f : VncFormat) (context : HexContext) (width height : ℕ) (tile : TilePixels) :
    HexContext × HexOutput :=
  let first := tile 0 0
  let c := hexColours width height tile
  let bg := if c.colours ≥ 2 && c.secondCount > c.firstCount then c.second else first
  let newBg := context.bg != some bg
  let bgFlag := if newBg then vncHexBg else 0
  let bgBytes := if newBg then f.storePixel bg else []
  let bgSize := if newBg then f.pixelBytes else 0
  if c.colours = 1 then ({ context with bg := some bg }, ⟨1 + bgSize, bgFlag :: bgBytes⟩)
  else
    let mono := c.colours == 2
    match f.hextileSubrects width height bg mono tile with
    | none =>
      (⟨none, none⟩,
        ⟨1 + width * height * f.pixelBytes, vncHexRaw :: (raster width height tile).flatMap f.storePixel⟩)
    | some s =>
      let fg := if bg = first then c.second else first
      let newFg := mono && context.fg != some fg
      let fgFlag := if newFg then vncHexFg else 0
      let fgBytes := if newFg then f.storePixel fg else []
      let fgSize := if newFg then f.pixelBytes else 0
      let flags := bgFlag ||| vncHexAny ||| if mono then fgFlag else vncHexColoured
      (⟨some bg, if mono then some fg else none⟩,
        ⟨1 + bgSize + fgSize + 1 + s.used, flags :: bgBytes ++ fgBytes ++ [UInt8.ofNat s.count] ++ s.bytes⟩)

/-- The size of a tile in a rectangle. -/
def hexTileSize (length tile : ℕ) : ℕ := if length - tile * vncTile < vncTile then length - tile * vncTile else vncTile

/-- The tiles from one on. -/
def encodeHextileFrom (f : VncFormat) (frame : Frame) (x y width height : ℕ) : HexContext → List (ℕ × ℕ) → List HexOutput
  | _, [] => []
  | context, (row, column) :: rest =>
    let tile : TilePixels := fun i j => f.translate (frame (y + row * vncTile + i) (x + column * vncTile + j))
    let (context, output) := f.encodeHextileTile context (hexTileSize width column) (hexTileSize height row) tile
    output :: encodeHextileFrom f frame x y width height context rest

/-- `vnc_encode_hextile`. -/
def encodeHextile (f : VncFormat) (frame : Frame) (x y width height : ℕ) : List HexOutput :=
  encodeHextileFrom f frame x y width height ⟨none, none⟩ (raster (vncTiles width) (vncTiles height) Prod.mk)

end VncFormat

/-! ## What a viewer reads (RFB) -/

namespace VncFormat

/-- The pixels a viewer has, by row and column. -/
abbrev Picture := ℕ → ℕ → ℕ

/-- The next pixel. -/
def takePixel (f : VncFormat) (s : Bytes) : Option (ℕ × Bytes) :=
  if f.pixelBytes ≤ s.length then some (f.readPixel (s.take f.pixelBytes), s.drop f.pixelBytes) else none

def takePixels (f : VncFormat) : ℕ → Bytes → Option (List ℕ × Bytes)
  | 0, s => some ([], s)
  | n + 1, s => do
    let (pixel, s) ← f.takePixel s
    let (pixels, s) ← takePixels f n s
    return (pixel :: pixels, s)

def fill (picture : Picture) (x y w h pixel : ℕ) : Picture :=
  fun row column => if y ≤ row ∧ row < y + h ∧ x ≤ column ∧ column < x + w then pixel else picture row column

/-- The colour of a subrectangle: the foreground, or its own. -/
def subrectColour (f : VncFormat) (fg : Option ℕ) (s : Bytes) : Option (ℕ × Bytes) :=
  match fg with
  | some fg => some (fg, s)
  | none => f.takePixel s

/-- Where a subrectangle is and how large. -/
def placeSubrect (width height : ℕ) (picture : Picture) (colour : ℕ) : Bytes → Option (Picture × Bytes)
  | xy :: wh :: s =>
    let x := xy.toNat / 16
    let y := xy.toNat % 16
    let w := wh.toNat / 16 + 1
    let h := wh.toNat % 16 + 1
    if x + w ≤ width ∧ y + h ≤ height then some (fill picture x y w h colour, s) else none
  | _ => none

/-- A subrectangle. -/
def readSubrect (f : VncFormat) (width height : ℕ) (fg : Option ℕ) (picture : Picture) (s : Bytes) :
    Option (Picture × Bytes) := do
  let (colour, s) ← f.subrectColour fg s
  placeSubrect width height picture colour s

def readSubrects (f : VncFormat) (width height : ℕ) (fg : Option ℕ) : ℕ → Picture → Bytes → Option (Picture × Bytes)
  | 0, picture, s => some (picture, s)
  | n + 1, picture, s => do
    let (picture, s) ← f.readSubrect width height fg picture s
    readSubrects f width height fg n picture s

/-- The colours a viewer carries from tile to tile, where they are still known. -/
structure ViewerContext where
  bg : Option ℕ
  fg : Option ℕ

/-- A colour that is sent where its flag is set, and carried over where not. -/
def takeColour (f : VncFormat) (sent : Bool) (carried : Option ℕ) (s : Bytes) : Option (Option ℕ × Bytes) :=
  if sent then (f.takePixel s).map fun (pixel, s) => (some pixel, s) else some (carried, s)

/-- The flags of a tile. -/
structure HexFlags where
  raw : Bool
  bg : Bool
  fg : Bool
  any : Bool
  coloured : Bool
deriving DecidableEq

def hexFlags (flags : UInt8) : HexFlags :=
  ⟨flags &&& vncHexRaw != 0, flags &&& vncHexBg != 0, flags &&& vncHexFg != 0, flags &&& vncHexAny != 0,
    flags &&& vncHexColoured != 0⟩

/-- The subrectangles of a tile, over its background. Behind coloured ones the foreground is
not known any more. -/
def readCovered (f : VncFormat) (width height : ℕ) (coloured : Bool) (bg : ℕ) (fg : Option ℕ) :
    Bytes → Option (Picture × ViewerContext × Bytes)
  | [] => none
  | count :: s =>
    if coloured then
      (f.readSubrects width height none count.toNat (fun _ _ => bg) s).map fun (picture, s) => (picture, ⟨some bg, none⟩, s)
    else
      match fg with
      | none => none
      | some fg =>
        (f.readSubrects width height (some fg) count.toNat (fun _ _ => bg) s).map fun (picture, s) =>
          (picture, ⟨some bg, some fg⟩, s)

/-- A tile that is not raw, behind its colours. -/
def readFilled (f : VncFormat) (width height : ℕ) (flags : HexFlags) (bg fg : Option ℕ) (s : Bytes) :
    Option (Picture × ViewerContext × Bytes) :=
  match bg with
  | none => none
  | some bg => if flags.any then f.readCovered width height flags.coloured bg fg s else some (fun _ _ => bg, ⟨some bg, fg⟩, s)

/-- One tile. Behind a raw tile neither colour is known any more. -/
def readHextileTile (f : VncFormat) (context : ViewerContext) (width height : ℕ) :
    Bytes → Option (Picture × ViewerContext × Bytes)
  | [] => none
  | flags :: s =>
    if (hexFlags flags).raw then
      (f.takePixels (height * width) s).map fun (pixels, s) =>
        (fun row column => pixels.getD (row * width + column) 0, ⟨none, none⟩, s)
    else if (hexFlags flags).fg && (hexFlags flags).coloured then none
    else
      (f.takeColour (hexFlags flags).bg context.bg s).bind fun (bg, s) =>
        (f.takeColour (hexFlags flags).fg context.fg s).bind fun (fg, s) =>
          f.readFilled width height (hexFlags flags) bg fg s

/-- The tiles of a rectangle from one on, each put in its place. -/
def readHextileFrom (f : VncFormat) (width height : ℕ) :
    ViewerContext → List (ℕ × ℕ) → Picture → Bytes → Option (Picture × Bytes)
  | _, [], picture, s => some (picture, s)
  | context, (row, column) :: rest, picture, s => do
    let (tile, context, s) ← f.readHextileTile context (hexTileSize width column) (hexTileSize height row) s
    readHextileFrom f width height context rest
      (fun i j => if i / vncTile = row ∧ j / vncTile = column then tile (i % vncTile) (j % vncTile) else picture i j) s

/-- A rectangle in Hextile. -/
def readHextile (f : VncFormat) (width height : ℕ) (s : Bytes) : Option (Picture × Bytes) :=
  f.readHextileFrom width height ⟨none, none⟩ (raster (vncTiles width) (vncTiles height) Prod.mk) (fun _ _ => 0) s

end VncFormat

end V9xRemote
