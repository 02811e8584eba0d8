import V9xRemote.Spec.Python

/-!
# Screenshots on the host (`mcp/v9x_mcp.py`)

`decode_bmp`, `plan_shot` and `shape_rgb`. A decoded image has a row for each line, three
bytes a pixel; a row that is too short reads as 0. The PNG and the error texts' numbers are
left out.
-/

namespace V9xRemote

open Bytes

/-! ## Decoding -/

/-- Bytes written into a row. -/
def paintRow (row : Bytes) (x : ℕ) (bytes : Bytes) : Bytes :=
  row.take x ++ bytes ++ row.drop (x + bytes.length)

/-- The rows of an RLE8 stream, from an offset and the pixel `(x, y)` on. -/
def decodeRle8 (data : Bytes) (width rows : ℕ) (start x y : ℕ) (image : List Bytes) : Except PyExc (List Bytes) :=
  if _h : start + 2 > data.length then .error (v9xFail "truncated RLE8 data")
  else
    let count := (data.at' start).toNat
    let value := data.at' (start + 1)
    if count ≠ 0 then
      if y ≥ rows || x + count > width then .error (v9xFail "RLE8 run outside the image")
      else
        decodeRle8 data width rows (start + 2) (x + count) y
          (image.modify y fun row => paintRow row x (List.replicate count value))
    else if value = 0 then decodeRle8 data width rows (start + 2) 0 (y + 1) image
    else if value = 1 then .ok image
    else if value = 2 then
      if start + 4 > data.length then .error (v9xFail "truncated RLE8 delta")
      else
        decodeRle8 data width rows (start + 4) (x + (data.at' (start + 2)).toNat) (y + (data.at' (start + 3)).toNat)
          image
    else if y ≥ rows || x + value.toNat > width || start + 2 + value.toNat > data.length then
      .error (v9xFail "RLE8 literal outside the image")
    else
      decodeRle8 data width rows (start + 2 + value.toNat + value.toNat % 2) (x + value.toNat) y
        (image.modify y fun row => paintRow row x ((data.drop (start + 2)).take value.toNat))
termination_by data.length - start

/-- The palette indices of the 8-bit forms, in the file's order. -/
def decodeIndices (data : Bytes) (pixelOffset compression width rows : ℕ) : Except PyExc (List Bytes) :=
  if compression = 0 then
    let stride := (width + 3) / 4 * 4
    if pixelOffset + stride * rows > data.length then .error (v9xFail "truncated BMP pixel data")
    else .ok ((List.range rows).map fun y => (data.drop (pixelOffset + y * stride)).take width)
  else decodeRle8 data width rows pixelOffset 0 0 (List.replicate rows (List.replicate width 0))

/-- The colour of a palette entry; its bytes stand as B, G and R. -/
def paletteColour (data : Bytes) (i : ℕ) : Bytes :=
  [data.at' (54 + i * 4 + 2), data.at' (54 + i * 4 + 1), data.at' (54 + i * 4)]

/-- The rows of the 8-bit forms, in the file's order. -/
def decodeIndexed (data : Bytes) (pixelOffset colours compression width rows : ℕ) : Except PyExc (List Bytes) := do
  let colours := if colours = 0 then 256 else colours
  if colours > 256 || 54 + colours * 4 > pixelOffset || pixelOffset > data.length then
    throw (v9xFail "invalid BMP palette")
  let indices ← decodeIndices data pixelOffset compression width rows
  if indices.any fun row => row.any fun i => i.toNat ≥ colours then
    throw (v9xFail "BMP pixel outside the palette")
  return indices.map fun row => row.flatMap fun i => paletteColour data i.toNat

/-- A row of the 24-bit form, whose pixels stand as B, G and R. -/
def decodeRow (data : Bytes) (start width : ℕ) : Bytes :=
  (List.range width).flatMap fun x =>
    [data.at' (start + x * 3 + 2), data.at' (start + x * 3 + 1), data.at' (start + x * 3)]

/-- `decode_bmp`: width, height, and the rows from the top down. -/
def decodeBmp (data : Bytes) : Except PyExc (ℕ × ℕ × List Bytes) := do
  if data.length < 54 || data.take 2 ≠ [66, 77] then
    throw (v9xFail "not a BMP file")
  let offsets ← unpackFrom data 10 4
  let header ← unpackFrom data 14 20
  let palette ← unpackFrom data 46 4
  let pixelOffset := (offsets.readU32 0).toNat
  let width := readS32 header 4
  let height := readS32 header 8
  let bpp := header.readU16 14
  let compression := (header.readU32 16).toNat
  if width ≤ 0 || height = 0 then
    throw (v9xFail "invalid BMP dimensions")
  let rows := height.natAbs
  let ordered := fun stored : List Bytes => if height > 0 then stored.reverse else stored
  if bpp = 24 && compression = 0 then do
    let stride := (width.toNat * 3 + 3) / 4 * 4
    if pixelOffset + stride * rows > data.length then
      throw (v9xFail "truncated BMP pixel data")
    return (width.toNat, rows,
      ordered ((List.range rows).map fun y => decodeRow data (pixelOffset + y * stride) width.toNat))
  else do
    if bpp ≠ 8 || compression > 1 then
      throw (v9xFail "unsupported BMP format")
    let stored ← decodeIndexed data pixelOffset (palette.readU32 0).toNat compression width.toNat rows
    return (width.toNat, rows, ordered stored)

/-! ## Shaping -/

structure HostPlan where
  x : ℤ
  y : ℤ
  w : ℤ
  h : ℤ
  outW : ℤ
  outH : ℤ
deriving DecidableEq, Repr

/-- A side of the output. -/
def hostScaled (side scalePercent : ℤ) : ℤ := max 1 ((side * scalePercent + 99) / 100)

/-- `plan_shot`, with the region's four numbers read. -/
def planShot (screenWidth screenHeight : ℕ) (region : Option (ℤ × ℤ × ℤ × ℤ)) (scalePercent : ℤ) :
    Except PyExc HostPlan :=
  let planned := fun x y w h => .ok ⟨x, y, w, h, hostScaled w scalePercent, hostScaled h scalePercent⟩
  if ¬(1 ≤ scalePercent ∧ scalePercent ≤ 100) then .error (v9xFail "scale must be 0.01..1")
  else
    match region with
    | some (x, y, w, h) =>
      if w ≤ 0 || h ≤ 0 || x < 0 || y < 0 then
        .error (v9xFail "region is x, y, width, height with width and height >= 1")
      else if screenWidth ≠ 0 && (x ≥ screenWidth || y ≥ screenHeight) then
        .error (v9xFail "region starts outside the screen")
      else if screenWidth ≠ 0 then planned x y (min w (screenWidth - x)) (min h (screenHeight - y))
      else planned x y w h
    | none => planned 0 0 screenWidth screenHeight

/-- The sum of one channel over a box of pixels. -/
def hostSum (rows : List Bytes) (x0 x1 y0 y1 channel : ℕ) : ℕ :=
  ((List.range' y0 (y1 - y0)).map fun y =>
    ((List.range' x0 (x1 - x0)).map fun x => ((rows.getD y []).at' (x * 3 + channel)).toNat).sum).sum

/-- A shaped pixel, over its box. -/
def hostPixel (rows : List Bytes) (gray : Bool) (x0 x1 y0 y1 : ℕ) : Bytes :=
  let count := (x1 - x0) * (y1 - y0)
  let mean := fun channel => (hostSum rows x0 x1 y0 y1 channel + count / 2) / count
  let r := mean 0
  let g := mean 1
  let b := mean 2
  if gray then List.replicate 3 (UInt8.ofNat ((r * 77 + g * 150 + b * 29 + 128) >>> 8))
  else [UInt8.ofNat r, UInt8.ofNat g, UInt8.ofNat b]

/-- `shape_rgb`. -/
def shapeRgb (width height : ℕ) (rows : List Bytes) (region : Option (ℤ × ℤ × ℤ × ℤ)) (scalePercent : ℤ)
    (gray : Bool) : Except PyExc (ℤ × ℤ × List Bytes) := do
  let plan ← planShot width height region scalePercent
  let shaped := (List.range plan.outH.toNat).map fun (oy : ℕ) =>
    let sy0 := plan.y + oy * plan.h / plan.outH
    let sy1 := max (sy0 + 1) (plan.y + (oy + 1) * plan.h / plan.outH)
    (List.range plan.outW.toNat).flatMap fun (ox : ℕ) =>
      let sx0 := plan.x + ox * plan.w / plan.outW
      let sx1 := max (sx0 + 1) (plan.x + (ox + 1) * plan.w / plan.outW)
      hostPixel rows gray sx0.toNat sx1.toNat sy0.toNat sy1.toNat
  return (plan.outW, plan.outH, shaped)

end V9xRemote
