import V9xRemote.Lib.Bytes
import V9xRemote.Lib.Limbs

/-!
# Pixel formats of the VNC server (`src/guest/vnc.c`)

The format a viewer asks for, the translation of a native pixel into it, and the bytes
of a translated pixel on the wire.
-/

namespace V9xRemote

open Bytes

/-- `VncFormat`. -/
structure VncFormat where
  bpp : UInt8
  depth : UInt8
  bigEndian : Bool
  trueColour : Bool
  redMax : UInt32
  greenMax : UInt32
  blueMax : UInt32
  redShift : UInt8
  greenShift : UInt8
  blueShift : UInt8
deriving DecidableEq, Repr

/-- `vnc_default_format`. -/
def vncDefaultFormat : VncFormat where
  bpp := 32
  depth := 24
  bigEndian := false
  trueColour := true
  redMax := 255
  greenMax := 255
  blueMax := 255
  redShift := 16
  greenShift := 8
  blueShift := 0

/-- The bits of a channel's maximum: the first shift that leaves nothing of it. -/
def vncMaxBits (max : UInt32) : ℕ := ((List.range 33).find? fun bits => max.toNat >>> bits == 0).getD 33

/-- `vnc_shift_ok`. -/
def vncShiftOk (max : UInt32) (shift bpp : UInt8) : Bool := max != 0 && shift.toNat + vncMaxBits max ≤ bpp.toNat

/-- The big-endian word at an offset. -/
def vncU16 (s : Bytes) (i : ℕ) : UInt32 := ((s.at' i).toUInt32 <<< 8) ||| (s.at' (i + 1)).toUInt32

/-- `vnc_set_pixel_format` up to the format it accepts. -/
def vncSetPixelFormat (format : Bytes) : Option VncFormat :=
  let wanted : VncFormat :=
    { bpp := format.at' 0
      depth := format.at' 1
      bigEndian := format.at' 2 != 0
      trueColour := format.at' 3 != 0
      redMax := vncU16 format 4
      greenMax := vncU16 format 6
      blueMax := vncU16 format 8
      redShift := format.at' 10
      greenShift := format.at' 11
      blueShift := format.at' 12 }
  if wanted.bpp != 8 && wanted.bpp != 16 && wanted.bpp != 32 then none
  else if !wanted.trueColour then
    if wanted.bpp != 8 then none
    else some
      { wanted with redMax := 7, greenMax := 7, blueMax := 3, redShift := 5, greenShift := 2, blueShift := 0 }
  else if !vncShiftOk wanted.redMax wanted.redShift wanted.bpp ||
      !vncShiftOk wanted.greenMax wanted.greenShift wanted.bpp ||
      !vncShiftOk wanted.blueMax wanted.blueShift wanted.bpp then none
  else some wanted

namespace VncFormat

/-- An entry of `vnc_build_tables`. -/
def channel (max : UInt32) (shift : UInt8) (value : UInt32) : UInt32 :=
  ((value * max + 127) / 255) <<< shift.toUInt32

/-- `vnc_translate`. -/
def translate (f : VncFormat) (native : UInt32) : UInt32 :=
  channel f.redMax f.redShift ((native >>> 16) &&& 0xff) |||
    channel f.greenMax f.greenShift ((native >>> 8) &&& 0xff) |||
    channel f.blueMax f.blueShift (native &&& 0xff)

/-- `vnc_pixel_bytes`. -/
def pixelBytes (f : VncFormat) : ℕ := f.bpp.toNat / 8

/-- `vnc_store_pixel`. -/
def storePixel (f : VncFormat) (pixel : UInt32) : Bytes :=
  if f.pixelBytes = 1 then [pixel.toUInt8]
  else if f.pixelBytes = 2 then
    if f.bigEndian then [(pixel >>> 8).toUInt8, pixel.toUInt8] else [pixel.toUInt8, (pixel >>> 8).toUInt8]
  else if f.bigEndian then [(pixel >>> 24).toUInt8, (pixel >>> 16).toUInt8, (pixel >>> 8).toUInt8, pixel.toUInt8]
  else [pixel.toUInt8, (pixel >>> 8).toUInt8, (pixel >>> 16).toUInt8, (pixel >>> 24).toUInt8]

/-- The colour bits `vnc_build_tables` looks at for CPIXEL. -/
def usedBits (f : VncFormat) : UInt32 :=
  (f.redMax <<< f.redShift.toUInt32) ||| (f.greenMax <<< f.greenShift.toUInt32) ||| (f.blueMax <<< f.blueShift.toUInt32)

/-- `vnc_cpixel_bytes` and `vnc_cpixel_skip`. -/
def cpixelPart (f : VncFormat) : ℕ × ℕ :=
  if f.trueColour && f.bpp == 32 && decide (f.depth ≤ 24) then
    if f.usedBits &&& 0xff000000 = 0 then (3, if f.bigEndian then 1 else 0)
    else if f.usedBits &&& 0xff = 0 then (3, if f.bigEndian then 0 else 1)
    else (f.pixelBytes, 0)
  else (f.pixelBytes, 0)

/-- `vnc_cpixel_bytes`. -/
def cpixelBytes (f : VncFormat) : ℕ := f.cpixelPart.1

/-- The bytes of `vnc_zput_cpixel`. -/
def cpixel (f : VncFormat) (pixel : UInt32) : Bytes := ((f.storePixel pixel).drop f.cpixelPart.2).take f.cpixelBytes

end VncFormat

/-! ## What a viewer reads (RFB) -/

namespace VncFormat

/-- The number a viewer reads from the bytes of a pixel. -/
def readPixel (f : VncFormat) (bytes : Bytes) : ℕ := Limbs.leNat (if f.bigEndian then bytes.reverse else bytes)

/-- What it makes of one of the three colours. -/
def readColour (max : UInt32) (shift : UInt8) (pixel : ℕ) : ℕ := (pixel >>> shift.toNat) &&& max.toNat

/-- All colours lie in the low three bytes of the pixel. -/
def FitsLow (f : VncFormat) : Prop :=
  f.redMax.toNat <<< f.redShift.toNat < 2 ^ 24 ∧ f.greenMax.toNat <<< f.greenShift.toNat < 2 ^ 24 ∧
    f.blueMax.toNat <<< f.blueShift.toNat < 2 ^ 24

/-- All colours lie in the high three bytes. -/
def FitsHigh (f : VncFormat) : Prop :=
  f.redMax.toNat <<< f.redShift.toNat % 2 ^ 8 = 0 ∧ f.greenMax.toNat <<< f.greenShift.toNat % 2 ^ 8 = 0 ∧
    f.blueMax.toNat <<< f.blueShift.toNat % 2 ^ 8 = 0

instance (f : VncFormat) : Decidable f.FitsLow := inferInstanceAs (Decidable (_ ∧ _ ∧ _))
instance (f : VncFormat) : Decidable f.FitsHigh := inferInstanceAs (Decidable (_ ∧ _ ∧ _))

/-- A viewer's CPIXEL has three bytes. -/
def Compact (f : VncFormat) : Prop := f.trueColour = true ∧ f.bpp = 32 ∧ f.depth ≤ 24 ∧ (f.FitsLow ∨ f.FitsHigh)

instance (f : VncFormat) : Decidable f.Compact := inferInstanceAs (Decidable (_ ∧ _ ∧ _ ∧ _))

/-- The bytes of a viewer's CPIXEL. -/
def viewerCPixelBytes (f : VncFormat) : ℕ := if f.Compact then 3 else f.pixelBytes

/-- The pixel of a CPIXEL: where it has three bytes, the fourth is zero, at the high end of
the pixel or at the low one. -/
def readCPixel (f : VncFormat) (bytes : Bytes) : ℕ :=
  if f.Compact then
    if f.FitsLow then f.readPixel (if f.bigEndian then 0 :: bytes else bytes ++ [0])
    else f.readPixel (if f.bigEndian then bytes ++ [0] else 0 :: bytes)
  else f.readPixel bytes

end VncFormat

end V9xRemote
