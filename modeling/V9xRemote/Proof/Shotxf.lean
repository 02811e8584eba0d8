import V9xRemote.Proof.ShotDecode

/-!
# The transform stays in its buffers

From the header on, what is written last is what the length that is returned says. A source is accepted where it is a
BMP whose pixels lie in it, and what the transform leaves is decoded to the averages of its boxes.
-/

namespace V9xRemote

open Bytes Checked Segments

/-! ## The transform -/

section

variable {s : ShotBuffers} {source : Bytes}

/-- A 24-bit bottom-up BMP of a screen's size, its pixels in the file. -/
structure ValidBmp (source : Bytes) (offset width height : ℕ) : Prop where
  head : BmpHead source offset width height 24 0
  behind : 54 ≤ offset
  inside : offset + shotStride24 width * height ≤ source.length
  columns : 1 ≤ width ∧ width ≤ 4096
  rows : 1 ≤ height ∧ height ≤ 4096

theorem shotStride24_le {width : ℕ} (h : width ≤ 4096) : shotStride24 width ≤ 12288 ∧ width * 3 ≤ shotStride24 width := by
  unfold shotStride24
  omega

/-- The first two bytes of a BMP. -/
theorem magic_iff (h : 2 ≤ source.length) : source.take 2 = [66, 77] ↔ source.at' 0 = 66 ∧ source.at' 1 = 77 := by
  match source, h with
  | a :: b :: rest, _ =>
    have hat : at' (a :: b :: rest) 0 = a ∧ at' (a :: b :: rest) 1 = b := ⟨rfl, rfl⟩
    rw [hat.1, hat.2]
    simp

/-- **The source's header** is read inside the source, and accepted where the source is a BMP. -/
theorem post_shotSource :
    Post (shotSource source) s
      (fun r s' => s' = s ∧ ValidBmp source r.1 r.2.1.toNat r.2.2.toNat ∧ r.2 = (source.readU32 18, source.readU32 22))
      fun e s' => s' = s ∧ e = shotxfBadSource ∧ ∀ offset width height, ¬ValidBmp source offset width height := by
  have h54 : shotBmpHeader = 54 := rfl
  have hbmp : Post (shotIsBmp source : Shot UInt16 Bool) s
      (fun bmp s' => s' = s ∧ (bmp = true ↔ 54 ≤ source.length ∧ source.take 2 = [66, 77])) fun _ _ => False := by
    rw [shotIsBmp, post_ite]
    refine ⟨fun hshort => post_pure.2 ⟨rfl, by simp; omega⟩, fun hlength => ?_⟩
    simp only [post_bind, post_readSource, post_pure]
    refine ⟨by omega, by omega, trivial, ?_⟩
    rw [magic_iff (by omega), Bool.and_eq_true, beq_iff_eq, beq_iff_eq]
    exact ⟨fun h => ⟨by omega, h⟩, fun h => h.2⟩
  rw [shotSource, post_bind]
  refine hbmp.imp ?_ fun _ _ h => h.elim
  rintro bmp s₁ ⟨rfl, hmagic⟩
  rw [post_ite]
  refine ⟨fun hbad => post_stop.2 ⟨rfl, rfl, fun _ _ _ hvalid => ?_⟩, fun hgood => ?_⟩
  · rw [hmagic.2 ⟨hvalid.head.whole, hvalid.head.magic⟩] at hbad
    exact Bool.noConfusion hbad
  obtain ⟨hlength, hmagic⟩ := hmagic.1 (by simpa using hgood)
  simp only [sourceGet32, sourceGet16, post_bind, post_check, post_pure]
  refine ⟨by omega, by omega, by omega, by omega, by omega, ?_⟩
  have hside : ∀ {side : UInt32}, (side ≠ 0 ∧ ¬side > 4096) ↔ 1 ≤ side.toNat ∧ side.toNat ≤ 4096 := fun {side} => by
    have hzero : side ≠ 0 ↔ 1 ≤ side.toNat := by
      rw [ne_eq, ← UInt32.toNat_inj, UInt32.toNat_zero]
      omega
    rw [hzero, gt_iff_lt, UInt32.not_lt, UInt32.le_iff_toNat_le]
    rfl
  have hbits : source.readU16 28 = 24 ↔ (source.readU16 28).toNat = 24 := UInt16.toNat_inj.symm
  have hcompression : source.readU32 30 = 0 ↔ (source.readU32 30).toNat = 0 := UInt32.toNat_inj.symm
  rw [post_ite]
  refine ⟨fun hbad => post_stop.2 ⟨rfl, rfl, ?_⟩, fun hfields => ?_⟩
  · rintro _ _ _ ⟨⟨-, -, rfl, rfl, rfl, hb, hc⟩, hbehind, hinside, hw, hh⟩
    have hwidth := hside.2 hw
    have hheight := hside.2 hh
    rcases hbad with h | h | h | h | h | h | h | h
    · exact h (hbits.2 hb)
    · exact h (hcompression.2 hc)
    · exact hwidth.1 h
    · exact hheight.1 h
    · exact hwidth.2 h
    · exact hheight.2 h
    · omega
    · omega
  simp only [not_or, not_not] at hfields
  obtain ⟨hb, hc, hw, hh, hw', hh', hlow, hhigh⟩ := hfields
  have hwidth := hside.1 ⟨hw, hw'⟩
  have hheight := hside.1 ⟨hh, hh'⟩
  have hstride := shotStride24_le hwidth.2
  have hproduct : shotStride24 (source.readU32 18).toNat * (source.readU32 22).toNat ≤ 12288 * 4096 :=
    Nat.mul_le_mul hstride.1 hheight.2
  rw [post_bind, post_shotU32]
  refine ⟨by omega, ?_⟩
  rw [post_ite]
  refine ⟨fun hsmall => post_stop.2 ⟨rfl, rfl, ?_⟩, fun hroom => post_pure.2 ⟨rfl, ?_, rfl⟩⟩
  · rintro _ _ _ ⟨⟨-, -, rfl, rfl, rfl, -, -⟩, -, hinside, -, -⟩
    omega
  · refine ⟨⟨hlength, hmagic, rfl, rfl, rfl, hbits.1 hb, hcompression.1 hc⟩, by dsimp only; omega, ?_, hwidth, hheight⟩
    dsimp only
    omega

/-- Why a transform is refused. -/
inductive ShotRefused (source : Bytes) (options : ShotOptions) (outputCapacity workCapacity : ℕ) : UInt16 → Prop
  | source : ShotRefused source options outputCapacity workCapacity shotxfBadSource
  | plan {status : UInt16} (h : shotxfPlan options (source.readU32 18) (source.readU32 22) = .error status) :
      ShotRefused source options outputCapacity workCapacity status
  | room {plan : ShotPlan} (h : shotxfPlan options (source.readU32 18) (source.readU32 22) = .ok plan)
      (hroom : outputCapacity <
          shotBmpHeader + shotPaletteBytes + shotStride24 plan.outputWidth.toNat * plan.outputHeight.toNat ∨
        workCapacity < shotWorkIndices + plan.outputWidth.toNat * plan.outputHeight.toNat) :
      ShotRefused source options outputCapacity workCapacity shotxfNoRoom

/-- What a transform leaves: its length is the one in the header, and lies in the output. -/
structure Shaped (s : ShotBuffers) (shaped : ShotShaped) (s' : ShotBuffers) : Prop where
  output : s'.output.length = s.output.length
  work : s'.work.length = s.work.length
  fits : shaped.length ≤ s'.output.length
  size : (s'.output.readU32 2).toNat = shaped.length

/-- The region of a plan. -/
def ShotPlan.region (plan : ShotPlan) : ShotRegion :=
  ⟨plan.regionX.toNat, plan.regionY.toNat, plan.regionWidth.toNat, plan.regionHeight.toNat⟩

/-- The colour of an output pixel, planned for a source. -/
def plannedColour (source : Bytes) (offset width height : ℕ) (plan : ShotPlan) (gray : Bool) (y x : ℕ) : Colour :=
  (shapedColour (sourceChannel source offset height (shotStride24 width)) plan.region plan.outputWidth.toNat
    plan.outputHeight.toNat y x).shown gray

/-- What a transform leaves is decoded to the colours that were planned. -/
structure ShapedFile (source : Bytes) (options : ShotOptions) (shaped : ShotShaped) (s' : ShotBuffers) (offset : ℕ)
    (plan : ShotPlan) : Prop where
  valid : ValidBmp source offset (source.readU32 18).toNat (source.readU32 22).toNat
  planned : shotxfPlan options (source.readU32 18) (source.readU32 22) = .ok plan
  width : shaped.width = plan.outputWidth.toNat
  height : shaped.height = plan.outputHeight.toNat
  decoded : decodeBmp (s'.output.take shaped.length) = .ok (shaped.width, shaped.height,
    colourRows shaped.width shaped.height (plannedColour source offset (source.readU32 18).toNat (source.readU32 22).toNat
      plan (options.flags &&& shotGray != 0)))

/-- A source and a plan with room for it are not refused. -/
def Shapeable (source : Bytes) (options : ShotOptions) (outputCapacity workCapacity : ℕ) : Prop :=
  (∃ offset width height, ValidBmp source offset width height) ∧
    ∃ plan, shotxfPlan options (source.readU32 18) (source.readU32 22) = .ok plan ∧
      shotBmpHeader + shotPaletteBytes + shotStride24 plan.outputWidth.toNat * plan.outputHeight.toNat ≤ outputCapacity ∧
      shotWorkIndices + plan.outputWidth.toNat * plan.outputHeight.toNat ≤ workCapacity

theorem toNat_word {n : ℕ} (h : n < 2 ^ 32) : (UInt32.ofNat n).toNat = n := UInt32.toNat_ofNat_of_lt' h

/-- No flag of the two that ask for a palette is set: GRAY is not. -/
theorem gray_false {flags : UInt32} (h : flags &&& (shotCompact ||| shotGray) = 0) : (flags &&& shotGray != 0) = false := by
  have hpart : shotGray = (shotCompact ||| shotGray) &&& shotGray := by decide
  rw [hpart, ← UInt32.and_assoc, h, UInt32.zero_and]
  rfl

/-- **The transform** is never stuck, and a shapeable source is decoded to what was planned. -/
theorem post_shotxfApply (source : Bytes) (options : ShotOptions) (hsize : s.output.length < 2 ^ 32)
    (hsize' : s.work.length < 2 ^ 32) :
    Post (shotxfApply source options s.output.length s.work.length) s
      (fun shaped s' => Shaped s shaped s' ∧ ∃ offset plan, ShapedFile source options shaped s' offset plan)
      fun e s' => (s' = s ∧ ShotRefused source options s.output.length s.work.length e) ∧
        ¬Shapeable source options s.output.length s.work.length := by
  rw [shotxfApply, post_bind]
  refine post_shotSource.imp ?_ fun e s' h => ⟨⟨h.1, h.2.1 ▸ .source⟩, fun ⟨⟨_, _, _, hvalid⟩, _⟩ => h.2.2 _ _ _ hvalid⟩
  rintro ⟨pixelOffset, width, height⟩ s₁ ⟨rfl, hvalid, hheader⟩
  obtain ⟨rfl, rfl⟩ := Prod.mk.inj hheader
  dsimp only at hvalid ⊢
  have hw := hvalid.columns
  have hh := hvalid.rows
  have hinside := hvalid.inside
  cases hplan : shotxfPlan options (source.readU32 18) (source.readU32 22) with
  | error status =>
    refine post_stop.2 ⟨⟨rfl, .plan hplan⟩, fun ⟨_, plan, hok, _⟩ => ?_⟩
    rw [hplan] at hok
    cases hok
  | ok plan =>
    have hplanned := shotxfPlan_fits hplan
    have hright := hplanned.right
    have hbottom := hplanned.bottom
    have how := hplanned.outputWidth
    have hoh := hplanned.outputHeight
    have hstride := shotStride24_le hw.2
    have hstride' := shotStride24_le (by omega : plan.outputWidth.toNat ≤ 4096)
    have himage : shotStride24 plan.outputWidth.toNat * plan.outputHeight.toNat ≤ 12288 * 4096 :=
      Nat.mul_le_mul hstride'.1 (by omega)
    have hpixels : plan.outputWidth.toNat * plan.outputHeight.toNat ≤ 4096 * 4096 := Nat.mul_le_mul (by omega) (by omega)
    have hconst : shotBmpHeader = 54 ∧ shotPaletteBytes = 1024 ∧ shotWorkIndices = 6144 := ⟨rfl, rfl, rfl⟩
    dsimp only
    simp only [shotxfOutputCapacity, shotxfWorkCapacity, post_bind, post_shotU32]
    refine ⟨by omega, by omega, by omega, by omega, ?_⟩
    rw [post_ite]
    refine ⟨fun hsmall => post_stop.2 ⟨⟨rfl, .room hplan hsmall⟩, fun ⟨_, plan', hok, hlarge⟩ => ?_⟩, fun henough => ?_⟩
    · obtain rfl := Except.ok.inj (hplan.symm.trans hok)
      omega
    have hroom : ShotRoom s₁ plan.outputWidth.toNat plan.outputHeight.toNat := ⟨by omega, by omega, hsize, hsize'⟩
    have hg : ShotGeometry source pixelOffset (source.readU32 22).toNat (shotStride24 (source.readU32 18).toNat)
        plan.region plan.outputWidth.toNat plan.outputHeight.toNat :=
      ⟨by dsimp only [ShotPlan.region]; omega, hh.2, by dsimp only [ShotPlan.region]; omega, hstride.1, hbottom, hinside, how,
        hoh⟩
    rw [post_bind]
    refine (post_shotxfResample hg (by omega) hsize).imp ?_ fun _ _ h => h
    rintro _ s₂ ⟨hsame, himage₂⟩
    have hlength := hsame.length
    have hlength' : s₂.work.length = s₁.work.length := by rw [hsame.work]
    -- the 24-bit image, where it stays
    have himage24 : ∀ {s₃ : ShotBuffers}, (options.flags &&& shotGray != 0) = false → WorkOnly s₂ s₃ →
        Shaped s₁ ⟨shotBmpHeader + shotStride24 plan.outputWidth.toNat * plan.outputHeight.toNat,
          plan.outputWidth.toNat, plan.outputHeight.toNat, 24⟩ s₃ ∧
        ∃ offset plan', ShapedFile source options ⟨shotBmpHeader + shotStride24 plan.outputWidth.toNat * plan.outputHeight.toNat,
          plan.outputWidth.toNat, plan.outputHeight.toNat, 24⟩ s₃ offset plan' := by
      intro s₃ hgray h
      refine ⟨⟨by rw [h.output, hlength], by rw [h.length, hlength'], ?_, ?_⟩, pixelOffset, plan, hvalid, hplan, rfl, rfl, ?_⟩
      · rw [h.output]
        dsimp only
        omega
      · rw [h.output, himage₂.size]
        exact toNat_word (by omega)
      · rw [h.output, hgray]
        exact himage₂.decoded (by omega) (by omega) (by omega)
    rw [post_bind, post_shotU32]
    refine ⟨by omega, ?_⟩
    rw [post_ite]
    refine ⟨fun hplain => post_pure.2 (himage24 (gray_false hplain) ⟨rfl, rfl⟩), fun _ => ?_⟩
    have hroom₂ : ShotRoom s₂ plan.outputWidth.toNat plan.outputHeight.toNat :=
      ⟨by omega, by omega, by omega, by omega⟩
    rw [post_bind, post_attempt]
    refine (post_shotxfIndex hroom₂).imp ?_ fun _ _ h => post_pure.2 (himage24 h.1 h.2)
    rintro colours s₃ ⟨hindexed, hfew, hnames⟩
    -- there is a pixel, so there is a colour
    have hpositive : 0 < colours := Nat.zero_lt_of_lt (hnames 0 (Nat.mul_pos (by omega) (by omega))).1
    dsimp only
    rw [if_neg (by omega)]
    have hlength₃ : s₃.output.length = s₂.output.length := by rw [hindexed.output]
    have hlength₃' := hindexed.length
    have hroom₃ : ShotRoom s₃ plan.outputWidth.toNat plan.outputHeight.toNat :=
      ⟨by omega, by omega, by omega, by omega⟩
    rw [post_bind]
    refine (post_shotPack hroom₃ hfew).imp ?_ fun _ _ h => h
    intro length s₄ hfile
    have hpacked := hfile.packed
    have hlength₄ := hpacked.same.length
    have hfits := hpacked.fits
    refine post_pure.2 ⟨⟨by omega, by rw [hpacked.same.work]; omega, hfits, ?_⟩, pixelOffset, plan, hvalid, hplan, rfl, rfl, ?_⟩
    · rw [hpacked.size]
      exact toNat_word (by omega)
    · dsimp only
      rw [hfile.decoded hnames hfew (by omega) (by omega)]
      refine congrArg (fun rows => Except.ok (_, _, rows)) (colourRows_congr fun y hy x hx => ?_)
      rw [himage₂.imagePixel hy hx]
      rfl

/-- **The transform stays in its buffers.** Whatever the source and the options are, it ends
without an access outside its buffers, a product or a sum that wraps, or a search that does
not end. It refuses a source that is no such BMP, options that have no plan, and buffers
smaller than those planned; else its output holds the length that is returned, and its header
says the same. -/
theorem shotxf_apply_inside (source : Bytes) (options : ShotOptions) (s : ShotBuffers) (hsize : s.output.length < 2 ^ 32)
    (hsize' : s.work.length < 2 ^ 32) :
    (∃ r s', shotxfApply source options s.output.length s.work.length s = some (r, s') ∧
      match r with
      | .ok shaped => Shaped s shaped s'
      | .error e => s' = s ∧ ShotRefused source options s.output.length s.work.length e) ∧
    ∀ (width height : UInt32) (plan : ShotPlan), shotxfPlan options width height = .ok plan →
      PlanFits options plan width.toNat height.toNat := by
  obtain ⟨r, s', hrun, hends⟩ := (post_shotxfApply source options hsize hsize').run
  refine ⟨⟨r, s', hrun, ?_⟩, fun _ _ _ => shotxfPlan_fits⟩
  cases r with
  | ok shaped => exact hends.1
  | error e => exact hends.1

/-- A source of two pixels. -/
def shotSample : Bytes :=
  [66, 77] ++ List.replicate 8 0 ++ writeU32 54 ++ writeU32 40 ++ writeU32 2 ++ writeU32 1 ++ writeU16 1 ++ writeU16 24 ++
    List.replicate 24 0 ++ [1, 2, 3, 200, 100, 50, 0, 0]

theorem shotxf_apply_inside_demo :
    ∃ r s', shotxfApply shotSample ⟨1, 0, 0, 0, 0, 0⟩ 1086 6146 ⟨List.replicate 1086 0, List.replicate 6146 0⟩ =
      some (r, s') := by
  have hlength : (List.replicate 1086 (0 : UInt8)).length = 1086 := List.length_replicate
  have hlength' : (List.replicate 6146 (0 : UInt8)).length = 6146 := List.length_replicate
  obtain ⟨r, s', hrun, -⟩ := (shotxf_apply_inside shotSample ⟨1, 0, 0, 0, 0, 0⟩
    ⟨List.replicate 1086 0, List.replicate 6146 0⟩ (by rw [hlength]; decide) (by rw [hlength']; decide)).1
  rw [hlength, hlength'] at hrun
  exact ⟨r, s', hrun⟩

end

end V9xRemote
