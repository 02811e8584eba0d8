import Mathlib.Data.Nat.Prime.Basic
import V9xRemote.Lib.BitFields
import V9xRemote.Spec.VncFormat

/-!
# What a viewer reads

A format that is accepted has its three fields inside the pixel (`Accepted`), so a translated
pixel survives the wire (`readPixel_storePixel`). Where the maxima are all ones and the
fields lie apart (`Regular`), the viewer reads each colour as it was scaled, and a CPIXEL of
three bytes loses nothing (`pixel_formats`).
-/

namespace V9xRemote

open Bytes BitFields Limbs

variable {f : VncFormat} {max pixel value : UInt32} {shift bpp : UInt8}

/-! ## Formats that are accepted -/

/-- A field lies inside the pixel. -/
structure FieldInside (max : UInt32) (shift bpp : UInt8) : Prop where
  ne : max.toNat ≠ 0
  lt : max.toNat <<< shift.toNat < 2 ^ bpp.toNat

theorem vncMaxBits_spec (max : UInt32) : max.toNat < 2 ^ vncMaxBits max ∧ ∀ b < vncMaxBits max, 2 ^ b ≤ max.toNat := by
  have hempty : ∀ b, (max.toNat >>> b == 0) = true ↔ max.toNat < 2 ^ b := by
    intro b
    rw [beq_iff_eq, Nat.shiftRight_eq_div_pow, Nat.div_eq_zero_iff_lt (Nat.two_pow_pos b)]
  unfold vncMaxBits
  cases hfind : (List.range 33).find? fun bits => max.toNat >>> bits == 0 with
  | none =>
    have hlast := List.find?_eq_none.1 hfind 32 (by decide)
    rw [hempty] at hlast
    exact absurd max.toNat_lt hlast
  | some bits =>
    obtain ⟨hbits, -, hless⟩ := List.find?_range_eq_some.1 hfind
    refine ⟨(hempty bits).1 hbits, fun b hb => not_lt.1 fun hlt => ?_⟩
    have := hless b hb
    rw [(hempty b).2 hlt] at this
    cases this

/-- **`vnc_shift_ok`** takes the fields that lie inside the pixel. -/
theorem vncShiftOk_iff : vncShiftOk max shift bpp = true ↔ FieldInside max shift bpp := by
  obtain ⟨hlt, hle⟩ := vncMaxBits_spec max
  have hne : (max != 0) = true ↔ max.toNat ≠ 0 := by
    rw [bne_iff_ne, ne_eq, ← UInt32.toNat_inj]
    rfl
  unfold vncShiftOk
  rw [Bool.and_eq_true, hne, decide_eq_true_eq]
  constructor
  · rintro ⟨h0, hbits⟩
    refine ⟨h0, ?_⟩
    rw [Nat.shiftLeft_eq]
    calc max.toNat * 2 ^ shift.toNat < 2 ^ vncMaxBits max * 2 ^ shift.toNat :=
          Nat.mul_lt_mul_of_pos_right hlt (Nat.two_pow_pos _)
      _ = 2 ^ (shift.toNat + vncMaxBits max) := by rw [← pow_add, Nat.add_comm]
      _ ≤ 2 ^ bpp.toNat := Nat.pow_le_pow_right (by omega) hbits
  · rintro ⟨h0, hinside⟩
    refine ⟨h0, ?_⟩
    have hpos : 0 < vncMaxBits max := by
      rcases Nat.eq_zero_or_pos (vncMaxBits max) with hzero | hpos
      · rw [hzero, pow_zero] at hlt
        omega
      · exact hpos
    have htop := hle (vncMaxBits max - 1) (by omega)
    rw [Nat.shiftLeft_eq] at hinside
    have hpow : 2 ^ (vncMaxBits max - 1 + shift.toNat) < 2 ^ bpp.toNat := by
      rw [pow_add]
      exact lt_of_le_of_lt (Nat.mul_le_mul_right _ htop) hinside
    have := (Nat.pow_lt_pow_iff_right (by omega)).1 hpow
    omega

/-- What `vnc_set_pixel_format` asks of a format. -/
structure VncFormat.Accepted (f : VncFormat) : Prop where
  bpp : f.bpp = 8 ∨ f.bpp = 16 ∨ f.bpp = 32
  red : FieldInside f.redMax f.redShift f.bpp
  green : FieldInside f.greenMax f.greenShift f.bpp
  blue : FieldInside f.blueMax f.blueShift f.bpp
  /-- the maxima are read from two bytes each -/
  small : f.redMax.toNat < 2 ^ 16 ∧ f.greenMax.toNat < 2 ^ 16 ∧ f.blueMax.toNat < 2 ^ 16

/-- The format a message asks for. -/
def wantedFormat (format : Bytes) : VncFormat where
  bpp := format.at' 0
  depth := format.at' 1
  bigEndian := format.at' 2 != 0
  trueColour := format.at' 3 != 0
  redMax := vncU16 format 4
  greenMax := vncU16 format 6
  blueMax := vncU16 format 8
  redShift := format.at' 10
  greenShift := format.at' 11
  blueShift := format.at' 12

theorem vncU16_lt (s : Bytes) (i : ℕ) : (vncU16 s i).toNat < 2 ^ 16 := by
  have h1 := (s.at' i).toNat_lt
  have h2 := (s.at' (i + 1)).toNat_lt
  unfold vncU16
  rw [UInt32.toNat_or, UInt32.toNat_shiftLeft]
  simp only [UInt8.toNat_toUInt32]
  refine Nat.or_lt_two_pow ?_ (by omega)
  rw [show (8 : UInt32).toNat % 32 = 8 from rfl, Nat.shiftLeft_eq]
  omega

/-- The colour-map format. -/
def colourMapFormat (format : Bytes) : VncFormat :=
  { wantedFormat format with redMax := 7, greenMax := 7, blueMax := 3, redShift := 5, greenShift := 2, blueShift := 0 }

theorem vncSetPixelFormat_eq (format : Bytes) : vncSetPixelFormat format =
    if (wantedFormat format).bpp != 8 && (wantedFormat format).bpp != 16 && (wantedFormat format).bpp != 32 then none
    else if !(wantedFormat format).trueColour then
      if (wantedFormat format).bpp != 8 then none else some (colourMapFormat format)
    else if !vncShiftOk (wantedFormat format).redMax (wantedFormat format).redShift (wantedFormat format).bpp ||
        !vncShiftOk (wantedFormat format).greenMax (wantedFormat format).greenShift (wantedFormat format).bpp ||
        !vncShiftOk (wantedFormat format).blueMax (wantedFormat format).blueShift (wantedFormat format).bpp then none
    else some (wantedFormat format) := rfl

theorem sizes_iff {bpp : UInt8} : (bpp != 8 && bpp != 16 && bpp != 32) = true ↔ ¬(bpp = 8 ∨ bpp = 16 ∨ bpp = 32) := by
  simp only [Bool.and_eq_true, bne_iff_ne, not_or, ne_eq, and_assoc]

theorem fields_iff (f : VncFormat) : (!vncShiftOk f.redMax f.redShift f.bpp || !vncShiftOk f.greenMax f.greenShift f.bpp ||
    !vncShiftOk f.blueMax f.blueShift f.bpp) = true ↔
      ¬(FieldInside f.redMax f.redShift f.bpp ∧ FieldInside f.greenMax f.greenShift f.bpp ∧
        FieldInside f.blueMax f.blueShift f.bpp) := by
  rw [← vncShiftOk_iff, ← vncShiftOk_iff, ← vncShiftOk_iff]
  cases vncShiftOk f.redMax f.redShift f.bpp <;> cases vncShiftOk f.greenMax f.greenShift f.bpp <;>
    cases vncShiftOk f.blueMax f.blueShift f.bpp <;> decide

theorem colourMap_accepted {format : Bytes} (hbpp : (wantedFormat format).bpp = 8) : (colourMapFormat format).Accepted := by
  have hsize : (colourMapFormat format).bpp = 8 := hbpp
  have hred : FieldInside 7 5 8 := ⟨by decide, by decide⟩
  have hgreen : FieldInside 7 2 8 := ⟨by decide, by decide⟩
  have hblue : FieldInside 3 0 8 := ⟨by decide, by decide⟩
  have hsmall : (7 : UInt32).toNat < 2 ^ 16 ∧ (7 : UInt32).toNat < 2 ^ 16 ∧ (3 : UInt32).toNat < 2 ^ 16 := by decide
  rw [← hsize] at hred hgreen hblue
  exact ⟨Or.inl hsize, hred, hgreen, hblue, hsmall⟩

/-- **What is accepted** is the format asked for, or the colour map's. -/
theorem accepted_of_set {format : Bytes} (h : vncSetPixelFormat format = some f) :
    f.Accepted ∧ (format.at' 3 ≠ 0 → f = wantedFormat format) ∧
      (format.at' 3 = 0 → f.bpp = 8 ∧ f = colourMapFormat format) := by
  rw [vncSetPixelFormat_eq] at h
  split at h
  · cases h
  rename_i hsize
  split at h
  · rename_i hmap
    have hzero : format.at' 3 = 0 := by
      by_contra hne
      have : (wantedFormat format).trueColour = true := bne_iff_ne.2 hne
      rw [this] at hmap
      cases hmap
    split at h
    · cases h
    · rename_i hbpp
      have hbpp : (wantedFormat format).bpp = 8 := by simpa using hbpp
      obtain rfl := Option.some.inj h
      exact ⟨colourMap_accepted hbpp, fun hne => absurd hzero hne, fun _ => ⟨hbpp, rfl⟩⟩
  · rename_i htrue
    have hne : format.at' 3 ≠ 0 := by
      intro hzero
      have : (wantedFormat format).trueColour = false := bne_eq_false_iff_eq.2 hzero
      rw [this] at htrue
      exact htrue rfl
    split at h
    · cases h
    · rename_i hfields
      obtain rfl := Option.some.inj h
      obtain ⟨hred, hgreen, hblue⟩ := not_not.1 fun hout => hfields ((fields_iff _).2 hout)
      refine ⟨⟨not_not.1 fun hout => hsize (sizes_iff.2 hout), hred, hgreen, hblue, ?_⟩, fun _ => rfl,
        fun hzero => absurd hzero hne⟩
      exact ⟨vncU16_lt format 4, vncU16_lt format 6, vncU16_lt format 8⟩

/-- **A true-colour message is refused** exactly where its size or one of its fields is wrong. -/
theorem refused_iff {format : Bytes} (htrue : format.at' 3 ≠ 0) :
    vncSetPixelFormat format = none ↔ ¬(wantedFormat format).Accepted := by
  constructor
  · intro hnone haccepted
    have hcolour : (wantedFormat format).trueColour = true := bne_iff_ne.2 htrue
    have hmap : ¬(!(wantedFormat format).trueColour) = true := by
      rw [hcolour]
      decide
    rw [vncSetPixelFormat_eq, if_neg fun hsize => sizes_iff.1 hsize haccepted.bpp, if_neg hmap, if_neg fun hout =>
      (fields_iff _).1 hout ⟨haccepted.red, haccepted.green, haccepted.blue⟩] at hnone
    cases hnone
  · intro hnot
    rw [Option.eq_none_iff_forall_ne_some]
    intro f hf
    obtain ⟨haccepted, hsame, -⟩ := accepted_of_set hf
    exact hnot (hsame htrue ▸ haccepted)

/-! ## Translated pixels -/

theorem FieldInside.shift_lt (h : FieldInside max shift bpp) (hbpp : bpp.toNat ≤ 32) : shift.toNat < 32 := by
  have hone : 2 ^ shift.toNat ≤ max.toNat <<< shift.toNat := by
    rw [Nat.shiftLeft_eq]
    exact Nat.le_mul_of_pos_left _ (Nat.pos_of_ne_zero h.ne)
  have hpow : 2 ^ shift.toNat < 2 ^ bpp.toNat := lt_of_le_of_lt hone h.lt
  have := (Nat.pow_lt_pow_iff_right (by omega)).1 hpow
  omega

/-- A component by its maximum. -/
def scaled (max : UInt32) (value : ℕ) : ℕ := (value * max.toNat + 127) / 255

theorem scaled_le {v : ℕ} (max : UInt32) (hv : v < 256) : scaled max v ≤ max.toNat := by
  have : v * max.toNat ≤ 255 * max.toNat := Nat.mul_le_mul_right _ (by omega)
  unfold scaled
  omega

theorem scaled_lt {v : ℕ} (h : FieldInside max shift bpp) (hv : v < 256) : scaled max v <<< shift.toNat < 2 ^ bpp.toNat := by
  refine lt_of_le_of_lt ?_ h.lt
  rw [Nat.shiftLeft_eq, Nat.shiftLeft_eq]
  exact Nat.mul_le_mul_right _ (scaled_le max hv)

/-- An entry of the tables, as a number. -/
theorem channel_toNat (h : FieldInside max shift bpp) (hbpp : bpp.toNat ≤ 32) (hmax : max.toNat < 2 ^ 16)
    (hvalue : value.toNat < 256) :
    (VncFormat.channel max shift value).toNat = scaled max value.toNat <<< shift.toNat := by
  have hshift := h.shift_lt hbpp
  have hmul : value.toNat * max.toNat ≤ 255 * max.toNat := Nat.mul_le_mul_right _ (by omega)
  have hin := scaled_lt h hvalue
  have htop : (2 : ℕ) ^ bpp.toNat ≤ 2 ^ 32 := Nat.pow_le_pow_right (by omega) hbpp
  have hquot : ((value * max + 127) / 255).toNat = scaled max value.toNat := by
    rw [UInt32.toNat_div, UInt32.toNat_add, UInt32.toNat_mul]
    have hsmall : value.toNat * max.toNat % 2 ^ 32 = value.toNat * max.toNat := Nat.mod_eq_of_lt (by omega)
    have hsum : (value.toNat * max.toNat + (127 : UInt32).toNat) % 2 ^ 32 = value.toNat * max.toNat + 127 :=
      Nat.mod_eq_of_lt (by rw [show (127 : UInt32).toNat = 127 from rfl]; omega)
    rw [hsmall, hsum]
    rfl
  unfold VncFormat.channel
  rw [UInt32.toNat_shiftLeft, hquot, UInt8.toNat_toUInt32, Nat.mod_eq_of_lt hshift]
  exact Nat.mod_eq_of_lt (by omega)

theorem VncFormat.Accepted.bpp_le (h : f.Accepted) : f.bpp.toNat ≤ 32 := by
  rcases h.bpp with h | h | h <;> rw [h] <;> decide

/-- The components of a native pixel. -/
def nativeRed (native : UInt32) : ℕ := native.toNat / 2 ^ 16 % 2 ^ 8
def nativeGreen (native : UInt32) : ℕ := native.toNat / 2 ^ 8 % 2 ^ 8
def nativeBlue (native : UInt32) : ℕ := native.toNat % 2 ^ 8

theorem byte_toNat (native : UInt32) (k : UInt32) (hk : k.toNat < 32) :
    ((native >>> k) &&& 0xff).toNat = native.toNat / 2 ^ k.toNat % 2 ^ 8 := by
  rw [UInt32.toNat_and, UInt32.toNat_shiftRight, Nat.mod_eq_of_lt hk, Nat.shiftRight_eq_div_pow]
  exact Nat.and_two_pow_sub_one_eq_mod _ 8

/-- **A translated pixel** is its three scaled components in their fields. -/
theorem translate_toNat (h : f.Accepted) (native : UInt32) : (f.translate native).toNat =
    scaled f.redMax (nativeRed native) <<< f.redShift.toNat |||
      scaled f.greenMax (nativeGreen native) <<< f.greenShift.toNat |||
      scaled f.blueMax (nativeBlue native) <<< f.blueShift.toNat := by
  obtain ⟨hred, hgreen, hblue⟩ := h.small
  have h1 : ((native >>> 16) &&& 0xff).toNat = nativeRed native := byte_toNat native 16 (by decide)
  have h2 : ((native >>> 8) &&& 0xff).toNat = nativeGreen native := byte_toNat native 8 (by decide)
  have h3 : (native &&& 0xff).toNat = nativeBlue native := by
    rw [UInt32.toNat_and]
    exact Nat.and_two_pow_sub_one_eq_mod _ 8
  have hlt : nativeRed native < 256 ∧ nativeGreen native < 256 ∧ nativeBlue native < 256 :=
    ⟨Nat.mod_lt _ (by decide), Nat.mod_lt _ (by decide), Nat.mod_lt _ (by decide)⟩
  unfold VncFormat.translate
  rw [UInt32.toNat_or, UInt32.toNat_or, channel_toNat h.red h.bpp_le hred (h1 ▸ hlt.1),
    channel_toNat h.green h.bpp_le hgreen (h2 ▸ hlt.2.1), channel_toNat h.blue h.bpp_le hblue (h3 ▸ hlt.2.2), h1, h2, h3]

theorem native_lt (native : UInt32) : nativeRed native < 256 ∧ nativeGreen native < 256 ∧ nativeBlue native < 256 :=
  ⟨Nat.mod_lt _ (by decide), Nat.mod_lt _ (by decide), Nat.mod_lt _ (by decide)⟩

/-- It fits the pixel. -/
theorem translate_lt (h : f.Accepted) (native : UInt32) : (f.translate native).toNat < 2 ^ f.bpp.toNat := by
  obtain ⟨hr, hg, hb⟩ := native_lt native
  rw [translate_toNat h]
  exact Nat.or_lt_two_pow (Nat.or_lt_two_pow (scaled_lt h.red hr) (scaled_lt h.green hg)) (scaled_lt h.blue hb)

/-! ## The wire -/

theorem toUInt8_shift (pixel : UInt32) (k : UInt32) (hk : k.toNat < 32) :
    (pixel >>> k).toUInt8.toNat = pixel.toNat / 2 ^ k.toNat % 2 ^ 8 := by
  rw [UInt32.toNat_toUInt8, UInt32.toNat_shiftRight, Nat.mod_eq_of_lt hk, Nat.shiftRight_eq_div_pow]

theorem VncFormat.Accepted.bpp_cases (h : f.Accepted) :
    f.pixelBytes = 1 ∧ f.bpp.toNat = 8 ∨ f.pixelBytes = 2 ∧ f.bpp.toNat = 16 ∨ f.pixelBytes = 4 ∧ f.bpp.toNat = 32 := by
  unfold VncFormat.pixelBytes
  rcases h.bpp with h | h | h <;> rw [h] <;> decide

theorem storePixel_length (h : f.Accepted) (pixel : UInt32) : (f.storePixel pixel).length = f.pixelBytes := by
  unfold VncFormat.storePixel
  rcases h.bpp_cases with ⟨h, -⟩ | ⟨h, -⟩ | ⟨h, -⟩ <;> rw [h] <;> cases f.bigEndian <;> rfl

/-- **A pixel survives the wire**, in either order of bytes. -/
theorem readPixel_storePixel (h : f.Accepted) (hpixel : pixel.toNat < 2 ^ f.bpp.toNat) :
    f.readPixel (f.storePixel pixel) = pixel.toNat := by
  have h0 : pixel.toUInt8.toNat = pixel.toNat % 2 ^ 8 := rfl
  have h1 : (pixel >>> 8).toUInt8.toNat = pixel.toNat / 2 ^ 8 % 2 ^ 8 := toUInt8_shift pixel 8 (by decide)
  have h2 : (pixel >>> 16).toUInt8.toNat = pixel.toNat / 2 ^ 16 % 2 ^ 8 := toUInt8_shift pixel 16 (by decide)
  have h3 : (pixel >>> 24).toUInt8.toNat = pixel.toNat / 2 ^ 24 % 2 ^ 8 := toUInt8_shift pixel 24 (by decide)
  have hword := pixel.toNat_lt
  unfold VncFormat.readPixel VncFormat.storePixel
  rcases h.bpp_cases with ⟨hbytes, hbpp⟩ | ⟨hbytes, hbpp⟩ | ⟨hbytes, hbpp⟩ <;> rw [hbpp] at hpixel <;>
    cases f.bigEndian <;> simp [hbytes, leNat_cons, h0, h1, h2, h3] <;> omega

/-! ## CPIXEL -/

theorem mask_toNat (h : FieldInside max shift bpp) (hbpp : bpp.toNat ≤ 32) :
    (max <<< shift.toUInt32).toNat = max.toNat <<< shift.toNat := by
  have htop : (2 : ℕ) ^ bpp.toNat ≤ 2 ^ 32 := Nat.pow_le_pow_right (by omega) hbpp
  rw [UInt32.toNat_shiftLeft, UInt8.toNat_toUInt32, Nat.mod_eq_of_lt (h.shift_lt hbpp)]
  exact Nat.mod_eq_of_lt (lt_of_lt_of_le h.lt htop)

theorem usedBits_toNat (h : f.Accepted) : f.usedBits.toNat =
    f.redMax.toNat <<< f.redShift.toNat ||| f.greenMax.toNat <<< f.greenShift.toNat |||
      f.blueMax.toNat <<< f.blueShift.toNat := by
  unfold VncFormat.usedBits
  rw [UInt32.toNat_or, UInt32.toNat_or, mask_toNat h.red h.bpp_le, mask_toNat h.green h.bpp_le, mask_toNat h.blue h.bpp_le]

/-- A word has no bit in its top byte where it is below it. -/
theorem top_byte_iff (u : UInt32) : u &&& 0xff000000 = 0 ↔ u.toNat < 2 ^ 24 := by
  have hu := u.toNat_lt
  have htop : (u.toNat >>> 24) &&& (2 ^ 8 - 1) = u.toNat >>> 24 :=
    Nat.and_two_pow_sub_one_of_lt_two_pow (by rw [Nat.shiftRight_eq_div_pow]; omega)
  rw [← UInt32.toNat_inj, UInt32.toNat_and]
  constructor
  · intro h
    have hshift : (u.toNat &&& (0xff000000 : UInt32).toNat) >>> 24 = 0 >>> 24 := congrArg (fun n => n >>> 24) h
    rw [Nat.shiftRight_and_distrib] at hshift
    have hzero : u.toNat >>> 24 = 0 := htop.symm.trans hshift
    rw [Nat.shiftRight_eq_div_pow] at hzero
    omega
  · intro h
    have hmask : (0xff000000 : UInt32).toNat = (2 ^ 8 - 1) <<< 24 := by decide
    have hapart := and_field_eq_zero (k := 24) (s := 0) (v := u.toNat) h (show (2 ^ 8 - 1) <<< 24 &&& _ = 0 by decide)
    rw [hmask, Nat.and_comm]
    exact hapart

theorem low_byte_iff (u : UInt32) : u &&& 0xff = 0 ↔ u.toNat % 2 ^ 8 = 0 := by
  rw [← UInt32.toNat_inj, UInt32.toNat_and]
  exact Eq.congr_left (Nat.and_two_pow_sub_one_eq_mod u.toNat 8)

/-- The server and the viewer look for the colours in the same three bytes. -/
theorem fitsLow_iff (h : f.Accepted) : f.usedBits &&& 0xff000000 = 0 ↔ f.FitsLow := by
  rw [top_byte_iff, usedBits_toNat h]
  unfold VncFormat.FitsLow
  constructor
  · intro hlt
    refine ⟨lt_of_le_of_lt ?_ hlt, lt_of_le_of_lt ?_ hlt, lt_of_le_of_lt ?_ hlt⟩
    · exact le_trans Nat.left_le_or Nat.left_le_or
    · exact le_trans Nat.right_le_or Nat.left_le_or
    · exact Nat.right_le_or
  · rintro ⟨hr, hg, hb⟩
    exact Nat.or_lt_two_pow (Nat.or_lt_two_pow hr hg) hb

theorem fitsHigh_iff (h : f.Accepted) : f.usedBits &&& 0xff = 0 ↔ f.FitsHigh := by
  rw [low_byte_iff, usedBits_toNat h, Nat.or_mod_two_pow, Nat.or_mod_two_pow, Nat.or_eq_zero_iff, Nat.or_eq_zero_iff, and_assoc]
  rfl

theorem cpixelPart_eq (h : f.Accepted) : f.cpixelPart =
    if f.Compact then (3, if f.FitsLow then if f.bigEndian then 1 else 0 else if f.bigEndian then 0 else 1)
    else (f.pixelBytes, 0) := by
  have hbase : (f.trueColour && f.bpp == 32 && decide (f.depth ≤ 24)) = true ↔
      f.trueColour = true ∧ f.bpp = 32 ∧ f.depth ≤ 24 := by
    simp only [Bool.and_eq_true, beq_iff_eq, decide_eq_true_eq, and_assoc]
  unfold VncFormat.cpixelPart
  split
  · rename_i h0
    obtain ⟨htrue, hbpp, hdepth⟩ := hbase.1 h0
    split
    · rename_i hlow
      have hlow := (fitsLow_iff h).1 hlow
      have hcompact : f.Compact := ⟨htrue, hbpp, hdepth, Or.inl hlow⟩
      rw [if_pos hcompact, if_pos hlow]
    · rename_i hlow
      have hlow : ¬f.FitsLow := fun hfits => hlow ((fitsLow_iff h).2 hfits)
      split
      · rename_i hhigh
        have hcompact : f.Compact := ⟨htrue, hbpp, hdepth, Or.inr ((fitsHigh_iff h).1 hhigh)⟩
        rw [if_pos hcompact]
      · rename_i hhigh
        have hwhole : ¬f.Compact := fun hcompact =>
          hcompact.2.2.2.elim hlow fun hfits => hhigh ((fitsHigh_iff h).2 hfits)
        rw [if_neg hwhole]
  · rename_i h0
    have hwhole : ¬f.Compact := fun hcompact => h0 (hbase.2 ⟨hcompact.1, hcompact.2.1, hcompact.2.2.1⟩)
    rw [if_neg hwhole]

theorem cpixelBytes_eq (h : f.Accepted) : f.cpixelBytes = f.viewerCPixelBytes := by
  unfold VncFormat.cpixelBytes VncFormat.viewerCPixelBytes
  rw [cpixelPart_eq h]
  split <;> rfl

/-- The byte a short CPIXEL leaves out is zero. -/
def VncFormat.Kept (f : VncFormat) (pixel : UInt32) : Prop :=
  f.Compact → if f.FitsLow then pixel.toNat < 2 ^ 24 else pixel.toNat % 2 ^ 8 = 0

theorem compact_bytes (hcompact : f.Compact) : f.pixelBytes = 4 ∧ f.bpp.toNat = 32 := by
  unfold VncFormat.pixelBytes
  rw [hcompact.2.1]
  decide

theorem cpixel_length (h : f.Accepted) (pixel : UInt32) : (f.cpixel pixel).length = f.cpixelBytes := by
  unfold VncFormat.cpixel VncFormat.cpixelBytes
  rw [List.length_take, List.length_drop, storePixel_length h, cpixelPart_eq h]
  split
  · rename_i hcompact
    rw [(compact_bytes hcompact).1]
    dsimp only
    split <;> split <;> decide
  · dsimp only
    rw [Nat.sub_zero, min_self]

/-- **A CPIXEL survives the wire** where the byte it leaves out is zero. -/
theorem readCPixel_cpixel (h : f.Accepted) (hpixel : pixel.toNat < 2 ^ f.bpp.toNat) (hkept : f.Kept pixel) :
    f.readCPixel (f.cpixel pixel) = pixel.toNat := by
  have hread := readPixel_storePixel h hpixel
  unfold VncFormat.readCPixel VncFormat.cpixel VncFormat.cpixelBytes
  rw [cpixelPart_eq h]
  by_cases hcompact : f.Compact
  · have hkept := hkept hcompact
    obtain ⟨hbytes, -⟩ := compact_bytes hcompact
    have hword := pixel.toNat_lt
    have htop : (pixel >>> 24).toUInt8.toNat = pixel.toNat / 2 ^ 24 % 2 ^ 8 := toUInt8_shift pixel 24 (by decide)
    have hlow : pixel.toUInt8.toNat = pixel.toNat % 2 ^ 8 := rfl
    rw [if_pos hcompact, if_pos hcompact]
    -- the whole pixel is the CPIXEL and its zero byte
    by_cases hfits : f.FitsLow
    · rw [if_pos hfits] at hkept
      have hzero : (pixel >>> 24).toUInt8 = 0 := UInt8.toNat_inj.1 (htop.trans (by rw [Nat.div_eq_of_lt hkept]; rfl))
      rw [if_pos hfits, if_pos hfits]
      refine Eq.trans ?_ hread
      congr 1
      unfold VncFormat.storePixel
      rw [hbytes]
      cases f.bigEndian <;> simp [hzero]
    · rw [if_neg hfits] at hkept
      have hzero : pixel.toUInt8 = 0 := UInt8.toNat_inj.1 (by rw [hlow]; exact hkept)
      rw [if_neg hfits, if_neg hfits]
      refine Eq.trans ?_ hread
      congr 1
      unfold VncFormat.storePixel
      rw [hbytes]
      cases f.bigEndian <;> simp [hzero]
  · rw [if_neg hcompact, if_neg hcompact, List.drop_zero, List.take_of_length_le (storePixel_length h pixel).le]
    exact hread

/-! ## Regular formats -/

/-- The maxima are all ones and the fields lie apart. -/
structure VncFormat.Regular (f : VncFormat) : Prop where
  ones : (∃ k, f.redMax.toNat = 2 ^ k - 1) ∧ (∃ k, f.greenMax.toNat = 2 ^ k - 1) ∧ ∃ k, f.blueMax.toNat = 2 ^ k - 1
  redGreen : f.redMax.toNat <<< f.redShift.toNat &&& f.greenMax.toNat <<< f.greenShift.toNat = 0
  redBlue : f.redMax.toNat <<< f.redShift.toNat &&& f.blueMax.toNat <<< f.blueShift.toNat = 0
  greenBlue : f.greenMax.toNat <<< f.greenShift.toNat &&& f.blueMax.toNat <<< f.blueShift.toNat = 0

/-- What a viewer has to read of a pixel. -/
structure VncFormat.ReadExactly (f : VncFormat) (native : UInt32) : Prop where
  red : readColour f.redMax f.redShift (f.readPixel (f.storePixel (f.translate native))) =
    (nativeRed native * f.redMax.toNat + 127) / 255
  green : readColour f.greenMax f.greenShift (f.readPixel (f.storePixel (f.translate native))) =
    (nativeGreen native * f.greenMax.toNat + 127) / 255
  blue : readColour f.blueMax f.blueShift (f.readPixel (f.storePixel (f.translate native))) =
    (nativeBlue native * f.blueMax.toNat + 127) / 255
  cpixelLength : (f.cpixel (f.translate native)).length = f.viewerCPixelBytes
  cpixel : f.readCPixel (f.cpixel (f.translate native)) = f.readPixel (f.storePixel (f.translate native))

/-- One field of three is read back. -/
theorem read_scaled {a b : ℕ} {v : ℕ} (hones : ∃ k, max.toNat = 2 ^ k - 1) (hv : v < 256)
    (ha : max.toNat <<< shift.toNat &&& a = 0) (hb : max.toNat <<< shift.toNat &&& b = 0) :
    VncFormat.readColour max shift (scaled max v <<< shift.toNat ||| (a ||| b)) = scaled max v := by
  obtain ⟨k, hk⟩ := hones
  have hlt : scaled max v < 2 ^ k := by
    have := scaled_le max hv
    have := Nat.two_pow_pos k
    omega
  unfold VncFormat.readColour
  rw [hk] at ha hb ⊢
  refine read_field hlt ?_
  rw [Nat.and_or_distrib_left, ha, hb]
  rfl

/-- A scaled component stays in its field, away from the others. -/
theorem scaled_apart {mask v : ℕ} (hones : ∃ k, max.toNat = 2 ^ k - 1) (hv : v < 256)
    (hapart : mask &&& max.toNat <<< shift.toNat = 0) : mask &&& scaled max v <<< shift.toNat = 0 := by
  obtain ⟨k, hk⟩ := hones
  rw [hk] at hapart
  refine and_field_eq_zero ?_ hapart
  have := scaled_le max hv
  have := Nat.two_pow_pos k
  omega

/-- Where the maxima are all ones a short CPIXEL leaves out a zero byte. -/
theorem kept_of_ones (h : f.Accepted)
    (hones : (∃ k, f.redMax.toNat = 2 ^ k - 1) ∧ (∃ k, f.greenMax.toNat = 2 ^ k - 1) ∧ ∃ k, f.blueMax.toNat = 2 ^ k - 1)
    (native : UInt32) : f.Kept (f.translate native) := by
  obtain ⟨hr, hg, hb⟩ := native_lt native
  have hscaled : ∀ {max : UInt32} {shift : UInt8} {v : ℕ}, v < 256 →
      scaled max v <<< shift.toNat ≤ max.toNat <<< shift.toNat := by
    intro max shift v hv
    rw [Nat.shiftLeft_eq, Nat.shiftLeft_eq]
    exact Nat.mul_le_mul_right _ (scaled_le max hv)
  -- an odd maximum leaves the low byte clear only by its shift
  have hlow : ∀ {max : UInt32} {shift bpp : UInt8} {v : ℕ}, FieldInside max shift bpp → (∃ k, max.toNat = 2 ^ k - 1) →
      max.toNat <<< shift.toNat % 2 ^ 8 = 0 → scaled max v <<< shift.toNat % 2 ^ 8 = 0 := by
    intro max shift bpp v hin hone hzero
    obtain ⟨k, hk⟩ := hone
    have hodd : ¬2 ∣ max.toNat := by
      rw [hk]
      rcases k with - | k
      · exact absurd hk hin.ne
      · have := Nat.one_le_two_pow (n := k)
        rw [pow_succ]
        omega
    have hcoprime : Nat.Coprime (2 ^ 8) max.toNat :=
      Nat.Coprime.pow_left 8 ((Nat.Prime.coprime_iff_not_dvd Nat.prime_two).2 hodd)
    rw [Nat.shiftLeft_eq] at hzero ⊢
    have hdvd := (hcoprime.dvd_mul_left).1 (Nat.dvd_of_mod_eq_zero hzero)
    exact Nat.mod_eq_zero_of_dvd (Dvd.dvd.mul_left hdvd _)
  intro hcompact
  rw [translate_toNat h]
  split
  · rename_i hfits
    obtain ⟨h1, h2, h3⟩ := hfits
    exact Nat.or_lt_two_pow (Nat.or_lt_two_pow (lt_of_le_of_lt (hscaled hr) h1) (lt_of_le_of_lt (hscaled hg) h2))
      (lt_of_le_of_lt (hscaled hb) h3)
  · rename_i hfits
    obtain ⟨h1, h2, h3⟩ := hcompact.2.2.2.resolve_left hfits
    rw [Nat.or_mod_two_pow, Nat.or_mod_two_pow, hlow h.red hones.1 h1, hlow h.green hones.2.1 h2, hlow h.blue hones.2.2 h3]
    rfl

/-- **A regular format is read exactly.** -/
theorem readExactly (h : f.Accepted) (hregular : f.Regular) (native : UInt32) : f.ReadExactly native := by
  obtain ⟨hr, hg, hb⟩ := native_lt native
  obtain ⟨hred, hgreen, hblue⟩ := hregular.ones
  have hpixel := readPixel_storePixel h (translate_lt h native)
  have hgr := (Nat.and_comm _ _).trans hregular.redGreen
  have hbr := (Nat.and_comm _ _).trans hregular.redBlue
  have hbg := (Nat.and_comm _ _).trans hregular.greenBlue
  refine ⟨?_, ?_, ?_, ?_, ?_⟩
  · rw [hpixel, translate_toNat h, Nat.or_assoc]
    exact read_scaled hred hr (scaled_apart hgreen hg hregular.redGreen) (scaled_apart hblue hb hregular.redBlue)
  · rw [hpixel, translate_toNat h, Nat.or_comm (scaled f.redMax _ <<< _), Nat.or_assoc]
    exact read_scaled hgreen hg (scaled_apart hred hr hgr) (scaled_apart hblue hb hregular.greenBlue)
  · rw [hpixel, translate_toNat h, Nat.or_comm]
    exact read_scaled hblue hb (scaled_apart hred hr hbr) (scaled_apart hgreen hg hbg)
  · rw [cpixel_length h, cpixelBytes_eq h]
  · rw [readCPixel_cpixel h (translate_lt h native) (kept_of_ones h hregular.ones native), hpixel]

theorem colourMap_regular (format : Bytes) : (colourMapFormat format).Regular where
  ones := ⟨⟨3, rfl⟩, ⟨3, rfl⟩, ⟨2, rfl⟩⟩
  redGreen := show 7 <<< 5 &&& 7 <<< 2 = 0 by decide
  redBlue := show 7 <<< 5 &&& 3 <<< 0 = 0 by decide
  greenBlue := show 7 <<< 2 &&& 3 <<< 0 = 0 by decide

/-- **Pixel formats.** A format that is accepted, regular as RFB has it, is read exactly, and
the colour map's always is; a true-colour message is refused where its size is none of three
or a field is empty or reaches past the pixel. -/
theorem pixel_formats (format : Bytes) :
    (∀ f, vncSetPixelFormat format = some f → f.Regular → ∀ native, f.ReadExactly native) ∧
      (format.at' 3 = 0 → ∀ f, vncSetPixelFormat format = some f → f.Regular) ∧
      (format.at' 3 ≠ 0 → (vncSetPixelFormat format = none ↔ ¬(wantedFormat format).Accepted)) := by
  refine ⟨fun f hf hregular native => ?_, fun hmap f hf => ?_, refused_iff⟩
  · exact readExactly (accepted_of_set hf).1 hregular native
  · obtain ⟨-, rfl⟩ := (accepted_of_set hf).2.2 hmap
    exact colourMap_regular format

/-- 16 bits in big-endian order, five for red and blue and six for green. -/
def fiveSixFive : Bytes := [16, 16, 1, 1, 0, 31, 0, 63, 0, 31, 11, 5, 0, 0, 0, 0]

theorem pixel_formats_demo : vncSetPixelFormat fiveSixFive = some (wantedFormat fiveSixFive) ∧
    (wantedFormat fiveSixFive).ReadExactly 0x00804020 := by
  have hset : vncSetPixelFormat fiveSixFive = some (wantedFormat fiveSixFive) := by decide
  have hregular : (wantedFormat fiveSixFive).Regular := ⟨⟨⟨5, rfl⟩, ⟨6, rfl⟩, ⟨5, rfl⟩⟩, by decide, by decide, by decide⟩
  exact ⟨hset, (pixel_formats fiveSixFive).1 _ hset hregular _⟩

/-- Red and green in the same bits. -/
def overlappingFields : Bytes := [8, 8, 0, 1, 0, 7, 0, 7, 0, 3, 0, 0, 6, 0, 0, 0]

/-- A maximum of 5. -/
def unevenMaximum : Bytes := [8, 8, 0, 1, 0, 5, 0, 7, 0, 3, 5, 2, 0, 0, 0, 0]

/-- A maximum of 256 in the low bits, and two fields in the high bytes. -/
def looseMaximum : Bytes := [32, 24, 0, 1, 1, 0, 0, 255, 0, 255, 0, 24, 16, 0, 0, 0]

/-- **Irregular formats are not refused**: where fields overlap a green pixel is read as red
too, a component of 2 is lost under a maximum of 5, and the byte that a CPIXEL leaves out
holds the values below 256. -/
theorem irregular_accepted :
    (vncSetPixelFormat overlappingFields = some (wantedFormat overlappingFields) ∧
      ¬(wantedFormat overlappingFields).ReadExactly 0x0000ff00) ∧
    (vncSetPixelFormat unevenMaximum = some (wantedFormat unevenMaximum) ∧
      ¬(wantedFormat unevenMaximum).ReadExactly 0x00660000) ∧
    (vncSetPixelFormat looseMaximum = some (wantedFormat looseMaximum) ∧
      ¬(wantedFormat looseMaximum).ReadExactly 0x00010000) := by
  refine ⟨⟨by decide, fun h => ?_⟩, ⟨by decide, fun h => ?_⟩, ⟨by decide, fun h => ?_⟩⟩
  · have hred := h.red
    revert hred
    decide
  · have hred := h.red
    revert hred
    decide
  · have hcpixel := h.cpixel
    revert hcpixel
    decide

end V9xRemote
