import V9xRemote.Lib.Packing
import V9xRemote.Lib.Probing
import V9xRemote.Lib.Repeats
import V9xRemote.Spec.VncHextile

/-!
# ZRLE (`src/guest/vnc.c`)

The bytes `vnc_encode_zrle` hands to the compressor, tile by tile, and the reader of a
viewer by the rules of RFB.
-/

namespace V9xRemote

open Bytes Raster Repeats Packing

/-- `VNC_MAX_DIM`. -/
def vncMaxDim : ℕ := 4096

/-- `VNC_ZRLE_TILE`. -/
def vncZrleTile : ℕ := 64

/-- `VNC_ZRLE_RAW_CAP`. -/
def vncZrleRawCap : ℕ := vncMaxDim * vncTile * 4 + 1024

/-! ## The palette of a tile -/

/-- `vnc_zpalette` as far as it is counted, `vnc_zkeys` and `vnc_zslots`. -/
structure ZPalette where
  palette : List UInt32
  keys : ℕ → UInt32
  slots : ℕ → UInt8

namespace ZPalette

/-- A tile begins with empty slots. What the keys were is never looked at. -/
def empty : ZPalette := ⟨[], fun _ => 0, fun _ => 0⟩

/-- The slots as a hash table. -/
def table (p : ZPalette) : Probing.Table UInt32 := ⟨fun slot => p.slots slot != 0, p.keys⟩

/-- Where the search for a pixel begins. -/
def hash (pixel : UInt32) : ℕ := ((pixel ^^^ (pixel >>> 8) ^^^ (pixel >>> 16) ^^^ (pixel >>> 24)) &&& 0xff).toNat

/-- `vnc_zpalette_index`. A full palette gives no index; nothing at all comes back from a
search that has gone once round, which would go on for ever. -/
def index (p : ZPalette) (pixel : UInt32) : Option (ZPalette × Option ℕ) :=
  (Probing.probe 256 (p.table.ends pixel) 256 (hash pixel)).map fun slot =>
    if p.slots slot = 0 then
      if p.palette.length ≥ 127 then (p, none)
      else
        ({ palette := p.palette ++ [pixel]
           keys := Function.update p.keys slot pixel
           slots := Function.update p.slots slot (UInt8.ofNat (p.palette.length + 1)) }, some p.palette.length)
    else (p, some ((p.slots slot).toNat - 1))

/-- The indices of pixels one after the other, as `unsigned int`. -/
def indices : ZPalette → List UInt32 → Option (ZPalette × List ℕ)
  | p, [] => some (p, [])
  | p, pixel :: rest =>
    (p.index pixel).bind fun (p, found) => (indices p rest).map fun (p, more) => (p, found.getD 0xffffffff :: more)

end ZPalette

/-! ## Runs -/

/-- `vnc_zrun_bytes`. -/
def vncZrunBytes (length : ℕ) : ℕ := (length - 1) / 255 + 1

/-- The loop of `vnc_zput_run_length`, with its value to bound it. -/
def vncZputValue : ℕ → ℕ → Bytes
  | 0, value => [UInt8.ofNat value]
  | fuel + 1, value => if value ≥ 255 then 255 :: vncZputValue fuel (value - 255) else [UInt8.ofNat value]

/-- `vnc_zput_run_length`. -/
def vncZputRunLength (length : ℕ) : Bytes := vncZputValue (length - 1) (length - 1)

namespace VncFormat

/-! ## Tiles -/

/-- What the first pass over a tile counts. -/
structure ZMeasure where
  palette : ZPalette
  tooMany : Bool
  plainSize : ℕ
  paletteRleSize : ℕ

/-- The palette and `too_many` behind a run. -/
def zcollect (m : ZMeasure) (pixel : UInt32) : Option (ZPalette × Bool) :=
  if m.tooMany then some (m.palette, true) else (m.palette.index pixel).map fun (p, found) => (p, found.isNone)

/-- One run of the first pass. -/
def zmeasure (f : VncFormat) (m : ZMeasure) (run : UInt32 × ℕ) : Option ZMeasure :=
  (zcollect m run.1).map fun (palette, tooMany) =>
    { palette := palette
      tooMany := tooMany
      plainSize := m.plainSize + (f.cpixelBytes + vncZrunBytes run.2)
      paletteRleSize := m.paletteRleSize + if run.2 = 1 then 1 else 1 + vncZrunBytes run.2 }

/-- `~0ul`, for what cannot be written. -/
def zsizeNone : ℕ := 0xffffffff

/-- The bits of an index. -/
def zbits (colours : ℕ) : ℕ := if colours ≤ 2 then 1 else if colours ≤ 4 then 2 else 4

/-- The smallest size. -/
def zbest (raw plain paletteRle packed : ℕ) : ℕ :=
  let best := raw
  let best := if plain < best then plain else best
  let best := if paletteRle < best then paletteRle else best
  if packed < best then packed else best

/-- The rows of a packed tile. -/
def zpackRows (bits : ℕ) : ZPalette → List (List UInt32) → Option Bytes
  | _, [] => some []
  | p, row :: rest =>
    (p.indices row).bind fun (p, indices) =>
      (zpackRows bits p rest).map fun more => (pack bits indices).map UInt8.ofNat ++ more

/-- The runs of a tile over its palette. -/
def zputEntries : ZPalette → List (UInt32 × ℕ) → Option Bytes
  | _, [] => some []
  | p, (pixel, run) :: rest =>
    (p.index pixel).bind fun (p, found) =>
      let entry := UInt8.ofNat (found.getD 255)
      (zputEntries p rest).map fun more =>
        (if run = 1 then [entry] else (entry ||| 128) :: vncZputRunLength run) ++ more

/-- The rows of a tile. -/
def tileRows (width height : ℕ) (tile : TilePixels) : List (List UInt32) :=
  (List.range height).map fun row => (List.range width).map (tile row)

/-- The second half of `vnc_encode_zrle_tile`: the subencoding is chosen and written. -/
def zwrite (f : VncFormat) (width height : ℕ) (tile : TilePixels) (m : ZMeasure) : Option Bytes :=
  let pixels := raster width height tile
  let colours := m.palette.palette
  if !m.tooMany && colours.length == 1 then some (1 :: f.cpixel (colours.headD 0))
  else
    let packs := !m.tooMany && decide (colours.length ≤ 16)
    let bits := if packs then zbits colours.length else 0
    let packedSize :=
      if packs then colours.length * f.cpixelBytes + height * ((width * bits + 7) / 8) else zsizeNone
    let paletteRleSize := if m.tooMany then zsizeNone else m.paletteRleSize + colours.length * f.cpixelBytes
    let best := zbest (width * height * f.cpixelBytes) m.plainSize paletteRleSize packedSize
    if best = packedSize then
      (zpackRows bits m.palette (tileRows width height tile)).map fun rows =>
        UInt8.ofNat colours.length :: (colours.flatMap f.cpixel ++ rows)
    else if best = paletteRleSize then
      (zputEntries m.palette (repeats pixels)).map fun runs =>
        UInt8.ofNat (128 + colours.length) :: (colours.flatMap f.cpixel ++ runs)
    else if best = m.plainSize then
      some (128 :: (repeats pixels).flatMap fun run => f.cpixel run.1 ++ vncZputRunLength run.2)
    else some (0 :: pixels.flatMap f.cpixel)

/-- `vnc_encode_zrle_tile`. -/
def encodeZrleTile (f : VncFormat) (width height : ℕ) (tile : TilePixels) : Option Bytes :=
  ((repeats (raster width height tile)).foldlM f.zmeasure ⟨.empty, false, 0, 0⟩).bind (f.zwrite width height tile)

/-! ## Rectangles -/

/-- The tiles along a side. -/
def zrleTiles (length : ℕ) : ℕ := (length + vncZrleTile - 1) / vncZrleTile

/-- The size of a tile in a rectangle. -/
def zrleTileSize (length tile : ℕ) : ℕ :=
  if length - tile * vncZrleTile < vncZrleTile then length - tile * vncZrleTile else vncZrleTile

/-- The pixels of a tile of a rectangle. -/
def zrlePixels (f : VncFormat) (frame : Frame) (x y : ℕ) (p : ℕ × ℕ) : TilePixels :=
  fun i j => f.translate (frame (y + p.1 * vncZrleTile + i) (x + p.2 * vncZrleTile + j))

/-- `vnc_encode_zrle` up to the compressor: the bytes of each tile. -/
def encodeZrle (f : VncFormat) (frame : Frame) (x y width height : ℕ) : Option (List Bytes) :=
  (raster (zrleTiles width) (zrleTiles height) Prod.mk).mapM fun p =>
    f.encodeZrleTile (zrleTileSize width p.2) (zrleTileSize height p.1) (f.zrlePixels frame x y p)

end VncFormat

/-! ## What a viewer reads (RFB) -/

namespace VncFormat

/-- The next CPIXEL. -/
def takeCPixel (f : VncFormat) (s : Bytes) : Option (ℕ × Bytes) :=
  if f.viewerCPixelBytes ≤ s.length then some (f.readCPixel (s.take f.viewerCPixelBytes), s.drop f.viewerCPixelBytes)
  else none

def takeCPixels (f : VncFormat) : ℕ → Bytes → Option (List ℕ × Bytes)
  | 0, s => some ([], s)
  | n + 1, s => (f.takeCPixel s).bind fun (pixel, s) => (takeCPixels f n s).map fun (pixels, s) => (pixel :: pixels, s)

/-- A run length: one more than the sum of its bytes, of which the last is not 255. -/
def readRunLength : Bytes → Option (ℕ × Bytes)
  | [] => none
  | b :: s => if b = 255 then (readRunLength s).map fun (n, s) => (255 + n, s) else some (b.toNat + 1, s)

/-- Runs up to a number of pixels. -/
def readRuns (readRun : Bytes → Option ((ℕ × ℕ) × Bytes)) : ℕ → ℕ → Bytes → Option (List ℕ × Bytes)
  | _, 0, s => some ([], s)
  | 0, _ + 1, _ => none
  | fuel + 1, n + 1, s =>
    (readRun s).bind fun ((pixel, run), s) =>
      if run = 0 ∨ n + 1 < run then none
      else (readRuns readRun fuel (n + 1 - run) s).map fun (pixels, s) => (List.replicate run pixel ++ pixels, s)

/-- A run of plain RLE. -/
def readPlainRun (f : VncFormat) (s : Bytes) : Option ((ℕ × ℕ) × Bytes) :=
  (f.takeCPixel s).bind fun (pixel, s) => (readRunLength s).map fun (run, s) => ((pixel, run), s)

/-- The length of a run of palette RLE, behind its index. -/
def readEntryLength (entry : UInt8) (s : Bytes) : Option (ℕ × Bytes) :=
  if entry < 128 then some (1, s) else readRunLength s

/-- A run of palette RLE. -/
def readPaletteRun (palette : List ℕ) : Bytes → Option ((ℕ × ℕ) × Bytes)
  | [] => none
  | entry :: s =>
    (readEntryLength entry s).bind fun (run, s) => palette[entry.toNat % 128]?.map fun pixel => ((pixel, run), s)

/-- The rows of a packed tile, each in whole bytes. -/
def readPackedRows (palette : List ℕ) (bits width : ℕ) : ℕ → Bytes → Option (List ℕ × Bytes)
  | 0, s => some ([], s)
  | rows + 1, s =>
    let length := (width * bits + 7) / 8
    if length ≤ s.length then
      ((((s.take length).flatMap fun b => fields bits (8 / bits) b.toNat).take width).mapM fun i => palette[i]?).bind
        fun row =>
          (readPackedRows palette bits width rows (s.drop length)).map fun (pixels, s) => (row ++ pixels, s)
    else none

/-- A tile behind its subencoding. -/
def readZrleBody (f : VncFormat) (width height kind : ℕ) (s : Bytes) : Option (List ℕ × Bytes) :=
  if kind = 0 then f.takeCPixels (height * width) s
  else if kind = 1 then (f.takeCPixel s).map fun (pixel, s) => (List.replicate (height * width) pixel, s)
  else if kind ≤ 16 then
    (f.takeCPixels kind s).bind fun (palette, s) => readPackedRows palette (zbits kind) width height s
  else if kind = 128 then readRuns f.readPlainRun (height * width) (height * width) s
  else if 130 ≤ kind then
    (f.takeCPixels (kind - 128) s).bind fun (palette, s) =>
      readRuns (readPaletteRun palette) (height * width) (height * width) s
  else none

/-- One tile: its pixels row by row. -/
def readZrleTile (f : VncFormat) (width height : ℕ) : Bytes → Option (List ℕ × Bytes)
  | [] => none
  | kind :: s => f.readZrleBody width height kind.toNat s

/-- The tiles of a rectangle, each put in its place. -/
def readZrleFrom (f : VncFormat) (width height : ℕ) : List (ℕ × ℕ) → Picture → Bytes → Option (Picture × Bytes)
  | [], picture, s => some (picture, s)
  | (row, column) :: rest, picture, s =>
    (f.readZrleTile (zrleTileSize width column) (zrleTileSize height row) s).bind fun (pixels, s) =>
      readZrleFrom f width height rest
        (fun i j =>
          if i / vncZrleTile = row ∧ j / vncZrleTile = column then
            pixels.getD (i % vncZrleTile * zrleTileSize width column + j % vncZrleTile) 0
          else picture i j) s

/-- A rectangle in ZRLE, decompressed. -/
def readZrle (f : VncFormat) (width height : ℕ) (s : Bytes) : Option (Picture × Bytes) :=
  f.readZrleFrom width height (raster (zrleTiles width) (zrleTiles height) Prod.mk) (fun _ _ => 0) s

end VncFormat

end V9xRemote
