import V9xRemote.Lib.Checked
import V9xRemote.Spec.Screenshot

/-!
# Screenshot shaping (`src/common/shotxf.c`)

Crop, scale and repack a capture. The source is read, the output and the work buffer are the
state; every access is checked against its buffer, and every product, sum and difference of
sizes against 32 bits: a program that leaves either is stuck, and so is a loop that does not
end. A loop that returns early from its function stops with `()`.
-/

namespace V9xRemote

open Bytes Checked

structure ShotBuffers where
  output : Bytes
  work : Bytes
deriving DecidableEq, Repr

abbrev Shot (ε α : Type) : Type := Checked ShotBuffers ε α

def shotBmpHeader : ℕ := 54
def shotPaletteBytes : ℕ := 1024
def shotHashSlots : ℕ := 1024
def shotWorkKeys : ℕ := shotPaletteBytes
def shotWorkValues : ℕ := shotWorkKeys + shotHashSlots * 4
def shotWorkIndices : ℕ := shotWorkValues + shotHashSlots

def shotCompact : UInt32 := 1
def shotGray : UInt32 := 2

def shotxfBadSource : UInt16 := 1
def shotxfNoRoom : UInt16 := 3

variable {ε : Type}

/-! ## Accesses -/

/-- A sum or a product in 32 bits. -/
def shotU32 (n : ℕ) : Shot ε ℕ := do
  check (n < 2 ^ 32)
  return n

/-- A difference in 32 bits. -/
def shotSub (a b : ℕ) : Shot ε ℕ := do
  check (b ≤ a)
  return a - b

def readSource (source : Bytes) (i : ℕ) : Shot ε UInt8 := do
  check (i < source.length)
  return source.at' i

/-- `v9x_get32` of the source. -/
def sourceGet32 (source : Bytes) (i : ℕ) : Shot ε UInt32 := do
  check (i + 4 ≤ source.length)
  return source.readU32 i

/-- `v9x_get16` of the source. -/
def sourceGet16 (source : Bytes) (i : ℕ) : Shot ε UInt16 := do
  check (i + 2 ≤ source.length)
  return source.readU16 i

def readShot (i : ℕ) : Shot ε UInt8 := do
  let s ← get
  check (i < s.output.length)
  return s.output.at' i

def putShot (i : ℕ) (b : UInt8) : Shot ε Unit := do
  let s ← get
  check (i < s.output.length)
  modify fun s => { s with output := s.output.set i b }

def readWork (i : ℕ) : Shot ε UInt8 := do
  let s ← get
  check (i < s.work.length)
  return s.work.at' i

def putWork (i : ℕ) (b : UInt8) : Shot ε Unit := do
  let s ← get
  check (i < s.work.length)
  modify fun s => { s with work := s.work.set i b }

/-- `v9x_get32` of the work buffer. -/
def workGet32 (i : ℕ) : Shot ε UInt32 := do
  let b0 ← readWork i
  let b1 ← readWork (i + 1)
  let b2 ← readWork (i + 2)
  let b3 ← readWork (i + 3)
  return readU32 [b0, b1, b2, b3] 0

/-- `v9x_put32` into the work buffer. -/
def workPut32 (i : ℕ) (value : UInt32) : Shot ε Unit := do
  putWork i value.toUInt8
  putWork (i + 1) (value >>> 8).toUInt8
  putWork (i + 2) (value >>> 16).toUInt8
  putWork (i + 3) (value >>> 24).toUInt8

/-- Bytes of the output, one after another. -/
def putShots (i : ℕ) : Bytes → Shot ε Unit
  | [] => return ()
  | b :: bytes => do
    putShot i b
    putShots (i + 1) bytes

/-! ## Sizes -/

/-- `v9x_stride24`. -/
def shotStride24 (width : ℕ) : ℕ := (width * 3 + 3) / 4 * 4

/-- `v9x_stride8`. -/
def shotStride8 (width : ℕ) : ℕ := (width + 3) / 4 * 4

/-- `v9x_shotxf_output_capacity`. -/
def shotxfOutputCapacity (outputWidth outputHeight : ℕ) : Shot ε ℕ := do
  let image ← shotU32 (shotStride24 outputWidth * outputHeight)
  shotU32 (shotBmpHeader + shotPaletteBytes + image)

/-- `v9x_shotxf_work_capacity`. -/
def shotxfWorkCapacity (outputWidth outputHeight : ℕ) : Shot ε ℕ := do
  let pixels ← shotU32 (outputWidth * outputHeight)
  shotU32 (shotWorkIndices + pixels)

/-- `v9x_bmp_header`. -/
def bmpHeader (width height bits compression colours imageBytes : ℕ) : Shot ε Unit := do
  let offset ← shotU32 (shotBmpHeader + colours * 4)
  let size ← shotU32 (offset + imageBytes)
  putShots 0 (List.replicate shotBmpHeader 0)
  putShots 0 [66, 77]
  putShots 2 (writeU32 (UInt32.ofNat size))
  putShots 10 (writeU32 (UInt32.ofNat offset))
  putShots 14 (writeU32 40)
  putShots 18 (writeU32 (UInt32.ofNat width))
  putShots 22 (writeU32 (UInt32.ofNat height))
  putShots 26 (writeU16 1)
  putShots 28 (writeU16 (UInt16.ofNat bits))
  putShots 30 (writeU32 (UInt32.ofNat compression))
  putShots 34 (writeU32 (UInt32.ofNat imageBytes))
  putShots 38 (writeU32 2835)
  putShots 42 (writeU32 2835)
  putShots 46 (writeU32 (UInt32.ofNat colours))
  putShots 50 (writeU32 (UInt32.ofNat colours))

/-! ## Crop and scale -/

/-- The three sums over a box. -/
structure ShotSums where
  b : ℕ
  g : ℕ
  r : ℕ
deriving DecidableEq, Repr

/-- A pixel of a box, `start` where the row of the box stands in the source. -/
def shotSumPixel (source : Bytes) (start : ℕ) (sums : ShotSums) (x : ℕ) : Shot ε ShotSums := do
  let b ← readSource source (start + x * 3)
  let g ← readSource source (start + x * 3 + 1)
  let r ← readSource source (start + x * 3 + 2)
  let sumB ← shotU32 (sums.b + b.toNat)
  let sumG ← shotU32 (sums.g + g.toNat)
  let sumR ← shotU32 (sums.r + r.toNat)
  return ⟨sumB, sumG, sumR⟩

/-- A row of a box: the row `y` of the screen, which the file has from the bottom up. -/
def shotSumRow (source : Bytes) (pixelOffset sourceHeight sourceStride x0 y0 boxWidth : ℕ) (sums : ShotSums) (k : ℕ) :
    Shot ε ShotSums := do
  let below ← shotSub sourceHeight (y0 + k + 1)
  let rows ← shotU32 (below * sourceStride)
  let start ← shotU32 (rows + x0 * 3)
  (List.range boxWidth).foldlM (shotSumPixel source (pixelOffset + start)) sums

/-- Where the box of an output index starts or ends in a region. -/
def shotEdge (regionStart regionSize i outputSize : ℕ) : Shot ε ℕ := do
  let scaled ← shotU32 (i * regionSize)
  check (outputSize ≠ 0)
  shotU32 (regionStart + scaled / outputSize)

/-- What an output pixel is an average of. -/
structure ShotRegion where
  x : ℕ
  y : ℕ
  width : ℕ
  height : ℕ
deriving DecidableEq, Repr

/-- An output pixel. -/
def shotPixel (source : Bytes) (pixelOffset sourceHeight sourceStride : ℕ) (region : ShotRegion) (ow y0 y1 row ox : ℕ) :
    Shot ε Unit := do
  let x0 ← shotEdge region.x region.width ox ow
  let x1 ← shotEdge region.x region.width (ox + 1) ow
  let x1 := if x1 ≤ x0 then x0 + 1 else x1
  let count ← shotU32 ((x1 - x0) * (y1 - y0))
  let sums ← (List.range (y1 - y0)).foldlM
    (shotSumRow source pixelOffset sourceHeight sourceStride x0 y0 (x1 - x0)) ⟨0, 0, 0⟩
  check (count ≠ 0)
  let b ← shotU32 (sums.b + count / 2)
  let g ← shotU32 (sums.g + count / 2)
  let r ← shotU32 (sums.r + count / 2)
  putShot (row + ox * 3) (UInt8.ofNat (b / count))
  putShot (row + ox * 3 + 1) (UInt8.ofNat (g / count))
  putShot (row + ox * 3 + 2) (UInt8.ofNat (r / count))

/-- An output row, counted from the top. -/
def shotRow (source : Bytes) (pixelOffset sourceHeight sourceStride : ℕ) (region : ShotRegion) (ow oh oy : ℕ) :
    Shot ε Unit := do
  let stride := shotStride24 ow
  let y0 ← shotEdge region.y region.height oy oh
  let y1 ← shotEdge region.y region.height (oy + 1) oh
  let below ← shotSub oh (oy + 1)
  let offset ← shotU32 (below * stride)
  let row := shotBmpHeader + offset
  let y1 := if y1 ≤ y0 then y0 + 1 else y1
  (List.range ow).foldlM (fun _ ox => shotPixel source pixelOffset sourceHeight sourceStride region ow y0 y1 row ox) ()
  putShots (row + ow * 3) (List.replicate (stride - ow * 3) 0)

/-- `v9x_shotxf_resample`. -/
def shotxfResample (source : Bytes) (pixelOffset sourceHeight sourceStride : ℕ) (region : ShotRegion) (ow oh : ℕ) :
    Shot ε Unit := do
  let image ← shotU32 (shotStride24 ow * oh)
  bmpHeader ow oh 24 0 0 image
  (List.range oh).foldlM (fun _ oy => shotRow source pixelOffset sourceHeight sourceStride region ow oh oy) ()

/-! ## The palette -/

/-- The slot a colour's search starts at. -/
def shotHash (key : UInt32) : ℕ := ((key * 2654435761) >>> 22 &&& 1023).toNat

/-- The search for a colour: its slot and whether it holds the colour already. It ends
within as many steps as there are slots. -/
def shotProbe (key : UInt32) : ℕ → ℕ → Shot ε (ℕ × Bool)
  | 0, slot => do
    check False
    return (slot, false)
  | left + 1, slot => do
    let stored ← workGet32 (shotWorkKeys + slot * 4)
    if stored = key + 1 then return (slot, true)
    else if stored = 0 then return (slot, false)
    else shotProbe key left ((slot + 1) &&& (shotHashSlots - 1))

/-- A pixel of COMPACT: how many colours there are then. -/
def shotCompactPixel (target : ℕ) (b g r : UInt8) (colours : ℕ) : Shot Unit ℕ := do
  let key := (r.toUInt32 <<< 16) ||| (g.toUInt32 <<< 8) ||| b.toUInt32
  let (slot, found) ← shotProbe key shotHashSlots (shotHash key)
  if found then
    let value ← readWork (shotWorkValues + slot)
    putWork target value
    return colours
  else if colours = 256 then stop ()
  else
    workPut32 (shotWorkKeys + slot * 4) (key + 1)
    putWork (shotWorkValues + slot) (UInt8.ofNat colours)
    putWork (colours * 4) b
    putWork (colours * 4 + 1) g
    putWork (colours * 4 + 2) r
    putWork (colours * 4 + 3) 0
    putWork target (UInt8.ofNat colours)
    return colours + 1

/-- A pixel of the 24-bit image. -/
def shotIndexPixel (width : ℕ) (gray : Bool) (y : ℕ) (colours x : ℕ) : Shot Unit ℕ := do
  let rows ← shotU32 (y * shotStride24 width)
  let before ← shotU32 (y * width)
  let b ← readShot (shotBmpHeader + rows + x * 3)
  let g ← readShot (shotBmpHeader + rows + x * 3 + 1)
  let r ← readShot (shotBmpHeader + rows + x * 3 + 2)
  let target := shotWorkIndices + before + x
  if gray then
    let mean ← shotU32 (r.toNat * 77 + g.toNat * 150 + b.toNat * 29 + 128)
    putWork target (UInt8.ofNat (mean >>> 8))
    return colours
  else shotCompactPixel target b g r colours

/-- An entry of the grey palette. -/
def shotGrayEntry (x : ℕ) : Shot ε Unit := do
  putWork (x * 4) (UInt8.ofNat x)
  putWork (x * 4 + 1) (UInt8.ofNat x)
  putWork (x * 4 + 2) (UInt8.ofNat x)
  putWork (x * 4 + 3) 0

/-- What comes before the rows: the grey palette, or an empty table. The colours there are. -/
def shotPalette (gray : Bool) : Shot ε ℕ :=
  if gray then do
    (List.range 256).foldlM (fun _ x => shotGrayEntry x) ()
    return 256
  else do
    (List.range (shotHashSlots * 4)).foldlM (fun _ x => putWork (shotWorkKeys + x) 0) ()
    return 0

/-- `v9x_shotxf_index`, of the image behind the output's header: it stops where it returns 0. -/
def shotxfIndex (width height : ℕ) (gray : Bool) : Shot Unit ℕ := do
  let colours ← shotPalette gray
  (List.range height).foldlM (fun colours y => (List.range width).foldlM (shotIndexPixel width gray y) colours) colours

/-! ## RLE8 -/

/-- A byte of the encoded stream: `out` is `output + start`. -/
def putEncoded (start capacity i : ℕ) (b : UInt8) : Shot ε Unit := do
  check (i < capacity)
  putShot (start + i) b

/-- The run at `i`. -/
def rle8Run (row width i : ℕ) : ℕ → ℕ → Shot ε ℕ
  | 0, run => do
    check False
    return run
  | left + 1, run => do
    if i + run < width ∧ run < 255 then
      let a ← readWork (row + (i + run))
      let b ← readWork (row + i)
      if a = b then rle8Run row width i left (run + 1) else return run
    else return run

/-- Whether a run of three starts at `j`. -/
def rle8Three (row width j : ℕ) : Shot ε Bool := do
  if j + 2 < width then
    let a ← readWork (row + j)
    let b ← readWork (row + (j + 1))
    if a = b then
      let c ← readWork (row + (j + 2))
      return a == c
    else return false
  else return false

/-- The literal stretch from `i`, up to the next run of three. -/
def rle8Stretch (row width i : ℕ) : ℕ → ℕ → Shot ε ℕ
  | 0, j => do
    check False
    return j
  | left + 1, j => do
    if j < width ∧ j - i < 255 then
      let three ← rle8Three row width j
      if three then return j else rle8Stretch row width i left (j + 1)
    else return j

/-- A byte of a stretch that is too short for absolute mode. -/
def rle8Single (start capacity row : ℕ) (used i : ℕ) : Shot Unit ℕ := do
  if used + 2 > capacity then stop ()
  else
    putEncoded start capacity used 1
    let b ← readWork (row + i)
    putEncoded start capacity (used + 1) b
    return used + 2

/-- The loop over a row: where the stream goes on. -/
def rle8Row (start capacity row width : ℕ) : ℕ → ℕ → ℕ → Shot Unit ℕ
  | 0, _, used => do
    check False
    return used
  | left + 1, i, used => do
    if i < width then
      let run ← rle8Run row width i 255 1
      if run ≥ 2 then
        if used + 2 > capacity then stop ()
        else
          putEncoded start capacity used (UInt8.ofNat run)
          let b ← readWork (row + i)
          putEncoded start capacity (used + 1) b
          rle8Row start capacity row width left (i + run) (used + 2)
      else
        let j ← rle8Stretch row width i 256 i
        if j - i < 3 then
          let used ← (List.range (j - i)).foldlM (fun used k => rle8Single start capacity row used (i + k)) used
          rle8Row start capacity row width left j used
        else if used + 2 + (j - i) + 1 > capacity then stop ()
        else
          putEncoded start capacity used 0
          putEncoded start capacity (used + 1) (UInt8.ofNat (j - i))
          (List.range (j - i)).foldlM
            (fun _ k => do
              let b ← readWork (row + (i + k))
              putEncoded start capacity (used + 2 + k) b) ()
          let used := used + 2 + (j - i)
          if used % 2 ≠ 0 then
            putEncoded start capacity used 0
            rle8Row start capacity row width left j (used + 1)
          else rle8Row start capacity row width left j used
    else return used

/-- A line of the stream. -/
def rle8Line (indices width height start capacity : ℕ) (used y : ℕ) : Shot Unit ℕ := do
  let before ← shotU32 (y * width)
  let used ← rle8Row start capacity (indices + before) width (width + 1) 0 used
  if used + 2 > capacity then stop ()
  else
    putEncoded start capacity used 0
    putEncoded start capacity (used + 1) (if y + 1 = height then 1 else 0)
    return used + 2

/-- `v9x_shotxf_rle8` of the rows at `indices` of the work buffer, into the output at `start`:
it stops where it returns 0 early. -/
def shotxfRle8 (indices width height start capacity : ℕ) : Shot Unit ℕ :=
  (List.range height).foldlM (rle8Line indices width height start capacity) 0

/-! ## The transform -/

/-- What a successful `v9x_shotxf_apply` tells its caller. -/
structure ShotShaped where
  length : ℕ
  width : ℕ
  height : ℕ
  bits : ℕ
deriving DecidableEq, Repr

/-- A row of the uncompressed 8-bit form. -/
def shotRawRow (width start : ℕ) (y : ℕ) : Shot ε Unit := do
  let stride := shotStride8 width
  let rows ← shotU32 (y * stride)
  let before ← shotU32 (y * width)
  (List.range width).foldlM
    (fun _ x => do
      let b ← readWork (shotWorkIndices + before + x)
      putShot (start + rows + x) b) ()
  putShots (start + rows + width) (List.replicate (stride - width) 0)

/-- The 8-bit form over the 24-bit one, RLE8 where that is smaller: its length. -/
def shotPack (colours ow oh : ℕ) : Shot ε ℕ := do
  let header8 ← shotU32 (shotBmpHeader + colours * 4)
  let raw8 ← shotU32 (shotStride8 ow * oh)
  (List.range (colours * 4)).foldlM
    (fun _ y => do
      let b ← readWork y
      putShot (shotBmpHeader + y) b) ()
  let result ← attempt (shotxfRle8 shotWorkIndices ow oh header8 raw8)
  let encoded := match result with
    | .ok encoded => encoded
    | .error () => 0
  if encoded ≠ 0 ∧ encoded < raw8 then
    bmpHeader ow oh 8 1 colours encoded
    shotU32 (header8 + encoded)
  else
    (List.range oh).foldlM (fun _ y => shotRawRow ow header8 y) ()
    bmpHeader ow oh 8 0 colours raw8
    shotU32 (header8 + raw8)

/-- Whether the source has a BMP's header. -/
def shotIsBmp (source : Bytes) : Shot ε Bool := do
  if source.length < shotBmpHeader then return false
  else
    let b ← readSource source 0
    let m ← readSource source 1
    return b == 66 && m == 77

/-- The source's header: where its pixels start, its width and its height. -/
def shotSource (source : Bytes) : Shot UInt16 (ℕ × UInt32 × UInt32) := do
  let bmp ← shotIsBmp source
  if !bmp then stop shotxfBadSource
  else
    let pixelOffset ← sourceGet32 source 10
    let width ← sourceGet32 source 18
    let height ← sourceGet32 source 22
    let bits ← sourceGet16 source 28
    let compression ← sourceGet32 source 30
    if bits ≠ 24 ∨ compression ≠ 0 ∨ width = 0 ∨ height = 0 ∨ width > 4096 ∨ height > 4096 ∨
        pixelOffset.toNat < shotBmpHeader ∨ pixelOffset.toNat > source.length then stop shotxfBadSource
    else
      let image ← shotU32 (shotStride24 width.toNat * height.toNat)
      if source.length - pixelOffset.toNat < image then stop shotxfBadSource
      else return (pixelOffset.toNat, width, height)

/-- `v9x_shotxf_apply`. -/
def shotxfApply (source : Bytes) (options : ShotOptions) (outputCapacity workCapacity : ℕ) :
    Shot UInt16 ShotShaped := do
  let (pixelOffset, width, height) ← shotSource source
  match shotxfPlan options width height with
  | .error status => stop status
  | .ok plan =>
    let ow := plan.outputWidth.toNat
    let oh := plan.outputHeight.toNat
    let outputNeed ← shotxfOutputCapacity ow oh
    let workNeed ← shotxfWorkCapacity ow oh
    if outputCapacity < outputNeed ∨ workCapacity < workNeed then stop shotxfNoRoom
    else
      let region : ShotRegion :=
        ⟨plan.regionX.toNat, plan.regionY.toNat, plan.regionWidth.toNat, plan.regionHeight.toNat⟩
      shotxfResample source pixelOffset height.toNat (shotStride24 width.toNat) region ow oh
      let image ← shotU32 (shotBmpHeader + shotStride24 ow * oh)
      if options.flags &&& (shotCompact ||| shotGray) = 0 then return ⟨image, ow, oh, 24⟩
      else
        let result ← attempt (shotxfIndex ow oh (options.flags &&& shotGray != 0))
        match result with
        | .error () => return ⟨image, ow, oh, 24⟩
        | .ok colours =>
          if colours = 0 then return ⟨image, ow, oh, 24⟩
          else
            let length ← shotPack colours ow oh
            return ⟨length, ow, oh, 8⟩

end V9xRemote
