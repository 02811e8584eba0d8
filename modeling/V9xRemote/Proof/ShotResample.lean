import V9xRemote.Proof.ShotBmp
import V9xRemote.Proof.ShotPack

/-!
# The plan, and the 24-bit image

A plan's region lies on the screen and its output is no larger than the region, so every box lies in the source and
every row in the output. Row by row, the output is the image of the boxes' averages.
-/

namespace V9xRemote

open Bytes Checked Segments Cursor

section

variable {ε : Type} {s s' s'' : ShotBuffers} {R : ε → ShotBuffers → Prop}

/-! ## The plan -/

/-- The scale that the options ask for. -/
def shotScale (options : ShotOptions) : UInt32 := if options.scalePercent = 0 then 100 else options.scalePercent

/-- A plan for a screen: the region lies on it, the output is no larger than the region. -/
structure PlanFits (options : ShotOptions) (plan : ShotPlan) (width height : ℕ) : Prop where
  right : plan.regionX.toNat + plan.regionWidth.toNat ≤ width
  bottom : plan.regionY.toNat + plan.regionHeight.toNat ≤ height
  outputWidth : 1 ≤ plan.outputWidth.toNat ∧ plan.outputWidth.toNat ≤ plan.regionWidth.toNat
  outputHeight : 1 ≤ plan.outputHeight.toNat ∧ plan.outputHeight.toNat ≤ plan.regionHeight.toNat
  scaledWidth : plan.regionWidth.toNat * (shotScale options).toNat + 99 < 2 ^ 32
  scaledHeight : plan.regionHeight.toNat * (shotScale options).toNat + 99 < 2 ^ 32

/-- A side of the output: its product does not wrap. -/
theorem shotScaled_toNat {region scale : UInt32} (hregion : region.toNat ≤ 4096) (hscale : scale.toNat ≤ 100) :
    (shotScaled region scale).toNat = max 1 ((region.toNat * scale.toNat + 99) / 100) := by
  have hproduct : region.toNat * scale.toNat ≤ 4096 * 100 := Nat.mul_le_mul hregion hscale
  have hscaled : ((region * scale + 99) / 100).toNat = (region.toNat * scale.toNat + 99) / 100 := by
    have e99 : (99 : UInt32).toNat = 99 := rfl
    have e100 : (100 : UInt32).toNat = 100 := rfl
    rw [UInt32.toNat_div, UInt32.toNat_add, UInt32.toNat_mul, e99, e100, Nat.mod_eq_of_lt (by omega),
      Nat.mod_eq_of_lt (by omega)]
  rw [← hscaled]
  unfold shotScaled
  dsimp only
  split
  · rename_i hzero
    rw [hzero]
    rfl
  · rename_i hne
    have hnat : ((region * scale + 99) / 100).toNat ≠ 0 := fun h => hne (UInt32.toNat_inj.1 h)
    omega

theorem shotScaled_le {region scale : UInt32} (hregion : region.toNat ≤ 4096) (hpos : 1 ≤ region.toNat)
    (hscale : scale.toNat ≤ 100) :
    region.toNat * scale.toNat + 99 < 2 ^ 32 ∧ 1 ≤ (shotScaled region scale).toNat ∧
      (shotScaled region scale).toNat ≤ region.toNat := by
  have hproduct : region.toNat * scale.toNat ≤ 4096 * 100 := Nat.mul_le_mul hregion hscale
  have hless : region.toNat * scale.toNat ≤ region.toNat * 100 := Nat.mul_le_mul_left _ hscale
  rw [shotScaled_toNat hregion hscale]
  omega

/-- A side of the region that is clipped to the screen. -/
theorem clipped_toNat {side screen start : UInt32} (hstart : start < screen) :
    (min side (screen - start)).toNat = min side.toNat (screen.toNat - start.toNat) := by
  have hlt : start.toNat < screen.toNat := UInt32.lt_iff_toNat_lt.1 hstart
  have hsub : (screen - start).toNat = screen.toNat - start.toNat :=
    UInt32.toNat_sub_of_le _ _ (UInt32.le_iff_toNat_le.2 hlt.le)
  have hite : min side (screen - start) = if side ≤ screen - start then side else screen - start := rfl
  rw [← hsub, hite, min_def]
  by_cases hle : side ≤ screen - start
  · rw [if_pos hle, if_pos (UInt32.le_iff_toNat_le.1 hle)]
  · rw [if_neg hle, if_neg fun h => hle (UInt32.le_iff_toNat_le.2 h)]

theorem clipped_le {side screen start : UInt32} (hside : side ≠ 0) (hstart : start < screen) :
    1 ≤ (min side (screen - start)).toNat ∧ start.toNat + (min side (screen - start)).toNat ≤ screen.toNat := by
  have hlt : start.toNat < screen.toNat := UInt32.lt_iff_toNat_lt.1 hstart
  have hne : side.toNat ≠ 0 := fun h => hside (UInt32.toNat_inj.1 h)
  rw [clipped_toNat hstart]
  omega

theorem shotxfPlan_fits {options : ShotOptions} {width height : UInt32} {plan : ShotPlan}
    (h : shotxfPlan options width height = .ok plan) : PlanFits options plan width.toNat height.toNat := by
  have hscale : ∀ {scale : UInt32}, ¬scale > 100 → scale.toNat ≤ 100 := fun hle => by
    have := UInt32.le_iff_toNat_le.1 (UInt32.not_lt.1 hle)
    exact this
  have hside : ∀ {side : UInt32}, ¬side > 4096 → side.toNat ≤ 4096 := fun hle => by
    have := UInt32.le_iff_toNat_le.1 (UInt32.not_lt.1 hle)
    exact this
  have hpos : ∀ {side : UInt32}, side ≠ 0 → 1 ≤ side.toNat := fun hne =>
    Nat.one_le_iff_ne_zero.2 fun h0 => hne (UInt32.toNat_inj.1 h0)
  unfold shotxfPlan at h
  generalize hs : (if options.scalePercent = 0 then (100 : UInt32) else options.scalePercent) = scale at h
  obtain rfl : shotScale options = scale := hs
  dsimp only at h
  split at h
  · cases h
  rename_i hgood
  simp only [Bool.or_eq_true, decide_eq_true_eq, beq_iff_eq, bne_iff_ne, not_or] at hgood
  obtain ⟨⟨⟨⟨⟨-, hle⟩, hw⟩, hh⟩, hw'⟩, hh'⟩ := hgood
  split at h
  · obtain rfl := Except.ok.inj h
    have hout := shotScaled_le (hside hw') (hpos hw) (hscale hle)
    have hout' := shotScaled_le (hside hh') (hpos hh) (hscale hle)
    have e0 : (0 : UInt32).toNat = 0 := rfl
    exact ⟨by dsimp only; omega, by dsimp only; omega, hout.2, hout'.2, hout.1, hout'.1⟩
  rename_i hregion
  split at h
  · cases h
  rename_i hscreen
  simp only [Bool.or_eq_true, decide_eq_true_eq, not_or] at hregion
  simp only [Bool.or_eq_true, decide_eq_true_eq, not_or, ge_iff_le, UInt32.not_le] at hscreen
  obtain rfl := Except.ok.inj h
  have hclip := clipped_le hregion.1 hscreen.1
  have hclip' := clipped_le hregion.2 hscreen.2
  have hw4 := hside hw'
  have hh4 := hside hh'
  have hout := shotScaled_le (by omega) hclip.1 (hscale hle)
  have hout' := shotScaled_le (by omega) hclip'.1 (hscale hle)
  exact ⟨hclip.2, hclip'.2, hout.2, hout'.2, hout.1, hout'.1⟩

/-! ## Crop and scale -/

/-- Only what stands behind the header is written. -/
structure BodyOnly (s s' : ShotBuffers) : Prop where
  work : s'.work = s.work
  length : s'.output.length = s.output.length
  head : s'.output.take shotBmpHeader = s.output.take shotBmpHeader

theorem BodyOnly.refl (s : ShotBuffers) : BodyOnly s s := ⟨rfl, rfl, rfl⟩

theorem BodyOnly.write {i : ℕ} {bytes : Bytes} (h : BodyOnly s s') (hi : shotBmpHeader ≤ i)
    (hroom : i + bytes.length ≤ s'.output.length) : BodyOnly s { s' with output := Segments.write s'.output i bytes } := by
  refine ⟨h.work, by rw [write_length hroom, h.length], ?_⟩
  rw [← h.head]
  apply List.ext_getElem?
  intro k
  by_cases hk : k < shotBmpHeader
  · rw [List.getElem?_take_of_lt hk, List.getElem?_take_of_lt hk, getElem?_write hroom, if_neg (by omega)]
  · rw [List.getElem?_eq_none (by rw [List.length_take]; omega), List.getElem?_eq_none (by rw [List.length_take]; omega)]

/-- The boxes of an output lie in its source. -/
structure ShotGeometry (source : Bytes) (pixelOffset sourceHeight sourceStride : ℕ) (region : ShotRegion) (ow oh : ℕ) :
    Prop where
  screenWidth : region.x + region.width ≤ 4096
  screenHeight : sourceHeight ≤ 4096
  right : (region.x + region.width) * 3 ≤ sourceStride
  stride : sourceStride ≤ 12288
  bottom : region.y + region.height ≤ sourceHeight
  inside : pixelOffset + sourceStride * sourceHeight ≤ source.length
  ow : 1 ≤ ow ∧ ow ≤ region.width
  oh : 1 ≤ oh ∧ oh ≤ region.height

/-- The edges of a box: they lie in the region, and no product wraps. -/
theorem edge_le {size i outputSize : ℕ} (hi : i ≤ outputSize) (hsize : size ≤ 4096) (hout : outputSize ≤ size) :
    i * size < 2 ^ 32 ∧ i * size / outputSize ≤ size := by
  have hproduct : i * size ≤ 4096 * 4096 := Nat.mul_le_mul (by omega) hsize
  exact ⟨by omega, Nat.div_le_of_le_mul (Nat.mul_le_mul_right _ hi)⟩

theorem post_shotEdge {start size i outputSize : ℕ} (hi : i ≤ outputSize) (hpos : 1 ≤ outputSize)
    (hout : outputSize ≤ size) (hscreen : start + size ≤ 4096) :
    Post (shotEdge start size i outputSize) s (fun edge s' => s' = s ∧ edge = start + i * size / outputSize) R := by
  obtain ⟨hproduct, hle⟩ := edge_le hi (by omega) hout
  simp only [shotEdge, post_bind, post_shotU32, post_check]
  exact ⟨hproduct, by omega, by omega, trivial, trivial⟩

/-- The sums over a box so far: no pixel adds more than 255 to one. -/
structure SumsLe (sums : ShotSums) (n : ℕ) : Prop where
  b : sums.b ≤ 255 * n
  g : sums.g ≤ 255 * n
  r : sums.r ≤ 255 * n

variable {source : Bytes} {pixelOffset sourceHeight sourceStride ow oh : ℕ} {region : ShotRegion}

/-- A channel of the source, at a row and a column of the screen. -/
def sourceChannel (source : Bytes) (pixelOffset sourceHeight sourceStride c y x : ℕ) : ℕ :=
  (source.at' (pixelOffset + ((sourceHeight - (y + 1)) * sourceStride + x * 3) + c)).toNat

theorem sourceChannel_le (c y x : ℕ) : sourceChannel source pixelOffset sourceHeight sourceStride c y x ≤ 255 :=
  Nat.le_of_lt_succ (source.at' _).toNat_lt

/-- The sums over the channels of a box. -/
def boxSums (channel : ℕ → ℕ → ℕ → ℕ) (x0 width y0 height : ℕ) : ShotSums :=
  ⟨boxSum (channel 0) x0 width y0 height, boxSum (channel 1) x0 width y0 height, boxSum (channel 2) x0 width y0 height⟩

/-- Sums, and a row of a box more. -/
def ShotSums.addRow (sums : ShotSums) (channel : ℕ → ℕ → ℕ → ℕ) (x0 n y : ℕ) : ShotSums :=
  ⟨sums.b + rowSum (channel 0) x0 n y, sums.g + rowSum (channel 1) x0 n y, sums.r + rowSum (channel 2) x0 n y⟩

theorem boxSums_succ (channel : ℕ → ℕ → ℕ → ℕ) (x0 width y0 k : ℕ) :
    boxSums channel x0 width y0 (k + 1) = (boxSums channel x0 width y0 k).addRow channel x0 width (y0 + k) := by
  simp only [boxSums, ShotSums.addRow, boxSum_succ]

theorem boxSums_le {channel : ℕ → ℕ → ℕ → ℕ} (h : ∀ c y x, channel c y x ≤ 255) (x0 width y0 height : ℕ) :
    SumsLe (boxSums channel x0 width y0 height) (height * width) :=
  ⟨boxSum_le (h 0), boxSum_le (h 1), boxSum_le (h 2)⟩

/-- **A row of a box** is read inside the source, and its sums do not wrap. -/
theorem post_shotSumRow (hg : ShotGeometry source pixelOffset sourceHeight sourceStride region ow oh)
    {x0 y0 boxWidth k n : ℕ} {sums : ShotSums} (hx : x0 + boxWidth ≤ region.x + region.width)
    (hy : y0 + k < region.y + region.height) (hsums : SumsLe sums n) (hn : n + boxWidth ≤ 2 ^ 24) :
    Post (shotSumRow source pixelOffset sourceHeight sourceStride x0 y0 boxWidth sums k) s
      (fun sums' s' => s' = s ∧
        sums' = sums.addRow (sourceChannel source pixelOffset sourceHeight sourceStride) x0 boxWidth (y0 + k)) R := by
  have hbottom := hg.bottom
  have hright := hg.right
  have hstride := hg.stride
  have hscreen := hg.screenHeight
  have hinside := hg.inside
  have hrows : (sourceHeight - (y0 + k + 1)) * sourceStride + sourceStride ≤ sourceStride * sourceHeight := row_le (by omega)
  have hbound : (sourceHeight - (y0 + k + 1)) * sourceStride ≤ 4096 * 12288 := Nat.mul_le_mul (by omega) hstride
  obtain ⟨hb, hgreen, hr⟩ := hsums
  -- a byte of the row is a value of a channel
  have hread : ∀ c x, (source.at' (pixelOffset + ((sourceHeight - (y0 + k + 1)) * sourceStride + x0 * 3) + x * 3 + c)).toNat =
      sourceChannel source pixelOffset sourceHeight sourceStride c (y0 + k) (x0 + x) := by
    intro c x
    rw [sourceChannel]
    congr 2
    omega
  simp only [shotSumRow, post_bind, post_shotSub, post_shotU32]
  refine ⟨by omega, by omega, by omega, ?_⟩
  refine post_foldlM_range (I := fun x (sums' : ShotSums) s' => s' = s ∧
    sums' = sums.addRow (sourceChannel source pixelOffset sourceHeight sourceStride) x0 x (y0 + k)) boxWidth ?_ ⟨rfl, rfl⟩
  rintro x hx' _ s' ⟨rfl, rfl⟩
  have h0 := hread 0 x
  have h1 := hread 1 x
  have h2 := hread 2 x
  rw [Nat.add_zero] at h0
  have hle : ∀ c, rowSum (sourceChannel source pixelOffset sourceHeight sourceStride c) x0 (x + 1) (y0 + k) ≤ 255 * (x + 1) :=
    fun c => rowSum_le (sourceChannel_le c) (y0 + k)
  have hle0 := hle 0
  have hle1 := hle 1
  have hle2 := hle 2
  rw [rowSum_succ] at hle0 hle1 hle2
  simp only [ShotSums.addRow, shotSumPixel, post_bind, post_readSource, post_shotU32, post_pure, h0, h1, h2]
  refine ⟨by omega, by omega, by omega, by omega, by omega, by omega, trivial, ?_⟩
  simp only [rowSum_succ, Nat.add_assoc]

/-- **An output pixel** is an average over its box. -/
theorem post_shotPixel (hg : ShotGeometry source pixelOffset sourceHeight sourceStride region ow oh) {y0 height row ox : ℕ}
    (hy : 0 < height) (hy1 : y0 + height ≤ region.y + region.height) (hox : ox < ow)
    (hroom : row + ow * 3 ≤ s.output.length) :
    Post (shotPixel source pixelOffset sourceHeight sourceStride region ow y0 (y0 + height) row ox) s
      (fun _ s' => s' = ⟨write s.output (row + ox * 3)
        (boxColour (sourceChannel source pixelOffset sourceHeight sourceStride) (boxStart region.x region.width ox ow)
          (boxSide region.x region.width ox ow) y0 height).bytes, s.work⟩) R := by
  have how := hg.ow
  have hscreenW := hg.screenWidth
  have hscreenH := hg.screenHeight
  have hbottom := hg.bottom
  obtain ⟨hleft, hin⟩ := @box_inside region.x region.width ox ow hox how.2
  have hside : 0 < boxSide region.x region.width ox ow := boxSide_pos
  rw [shotPixel, post_bind]
  refine (post_shotEdge hox.le how.1 how.2 hscreenW).imp ?_ fun _ _ h => h
  rintro x0 _ ⟨rfl, hx0⟩
  rw [post_bind]
  refine (post_shotEdge hox how.1 how.2 hscreenW).imp ?_ fun _ _ h => h
  rintro x1 s₂ ⟨rfl, hx1⟩
  dsimp only
  -- the box has a column at least
  have hright : (if x1 ≤ x0 then x0 + 1 else x1) = x0 + boxSide region.x region.width ox ow := by
    have hstart : boxStart region.x region.width ox ow = x0 := hx0.symm
    have hend : boxStart region.x region.width (ox + 1) ow = x1 := hx1.symm
    rw [boxSide, hstart, hend]
    split <;> omega
  have hstart : boxStart region.x region.width ox ow = x0 := hx0.symm
  rw [hright, Nat.add_sub_cancel_left, Nat.add_sub_cancel_left]
  rw [hstart] at hleft hin ⊢
  generalize boxSide region.x region.width ox ow = width at hin hside ⊢
  have hcount : width * height ≤ 4096 * 4096 := Nat.mul_le_mul (by omega) (by omega)
  have hpos : 0 < width * height := Nat.mul_pos hside hy
  rw [post_bind, post_shotU32, post_bind]
  refine ⟨by omega, ?_⟩
  refine (post_foldlM_range (I := fun k (sums : ShotSums) s'' => s'' = s₂ ∧
    sums = boxSums (sourceChannel source pixelOffset sourceHeight sourceStride) x0 width y0 k) height ?_
    ⟨rfl, rfl⟩).imp ?_ fun _ _ h => h
  · rintro k hk sums _ ⟨rfl, rfl⟩
    have hdone : k * width + width ≤ width * height := row_le hk
    simp only [boxSums_succ]
    exact post_shotSumRow (n := k * width) hg (by omega) (by omega) (boxSums_le sourceChannel_le _ _ _ _) (by omega)
  · rintro _ _ ⟨rfl, rfl⟩
    obtain ⟨hb, hgreen, hr⟩ := boxSums_le (@sourceChannel_le source pixelOffset sourceHeight sourceStride) x0 width y0 height
    rw [Nat.mul_comm height width] at hb hgreen hr
    simp only [post_bind, post_check, post_shotU32, post_putShot, List.length_set]
    refine ⟨by omega, by omega, by omega, by omega, by omega, by omega, by omega, ?_⟩
    rw [Colour.bytes, write_cons (by simp; omega), write_cons (by simp; omega), write_cons (by simp; omega)]
    simp only [write, List.nil_append, List.length_nil, Nat.add_zero, List.take_append_drop]
    rfl

/-- The first pixels of an output row. -/
def shapedPixels (channel : ℕ → ℕ → ℕ → ℕ) (region : ShotRegion) (ow oh oy n : ℕ) : Bytes :=
  (List.range n).flatMap fun ox => (shapedColour channel region ow oh oy ox).bytes

theorem shapedPixels_succ (channel : ℕ → ℕ → ℕ → ℕ) (region : ShotRegion) (ow oh oy n : ℕ) :
    shapedPixels channel region ow oh oy (n + 1) =
      shapedPixels channel region ow oh oy n ++ (shapedColour channel region ow oh oy n).bytes := by
  rw [shapedPixels, List.range_succ, List.flatMap_append, List.flatMap_singleton]
  rfl

theorem shapedPixels_length (channel : ℕ → ℕ → ℕ → ℕ) (region : ShotRegion) (ow oh oy n : ℕ) :
    (shapedPixels channel region ow oh oy n).length = n * 3 := by
  simp [shapedPixels, List.length_flatMap, Colour.bytes]

/-- The bytes of an output row, with its padding. -/
def shapedRow (channel : ℕ → ℕ → ℕ → ℕ) (region : ShotRegion) (ow oh oy : ℕ) : Bytes :=
  shapedPixels channel region ow oh oy ow ++ List.replicate (shotStride24 ow - ow * 3) 0

theorem le_stride24 (ow : ℕ) : ow * 3 ≤ shotStride24 ow := by
  unfold shotStride24
  omega

theorem shapedRow_length (channel : ℕ → ℕ → ℕ → ℕ) (region : ShotRegion) (ow oh oy : ℕ) :
    (shapedRow channel region ow oh oy).length = shotStride24 ow := by
  have hle := le_stride24 ow
  rw [shapedRow, List.length_append, shapedPixels_length, List.length_replicate]
  omega

/-- **An output row**, with its padding, is one write. -/
theorem post_shotRow (hg : ShotGeometry source pixelOffset sourceHeight sourceStride region ow oh) {oy : ℕ} (hoy : oy < oh)
    (hroom : shotBmpHeader + shotStride24 ow * oh ≤ s.output.length) (hsize : s.output.length < 2 ^ 32) :
    Post (shotRow source pixelOffset sourceHeight sourceStride region ow oh oy) s
      (fun _ s' => s' = ⟨write s.output (shotBmpHeader + (oh - (oy + 1)) * shotStride24 ow)
        (shapedRow (sourceChannel source pixelOffset sourceHeight sourceStride) region ow oh oy), s.work⟩) R := by
  have hoh := hg.oh
  have hscreenH := hg.screenHeight
  have hbottom := hg.bottom
  have hstride := le_stride24 ow
  have hrow : (oh - (oy + 1)) * shotStride24 ow + shotStride24 ow ≤ shotStride24 ow * oh := row_le (by omega)
  obtain ⟨hlow, hin⟩ := @box_inside region.y region.height oy oh hoy hoh.2
  have hside : 0 < boxSide region.y region.height oy oh := boxSide_pos
  rw [shotRow, post_bind]
  refine (post_shotEdge hoy.le hoh.1 hoh.2 (by omega)).imp ?_ fun _ _ h => h
  rintro y0 _ ⟨rfl, hy0⟩
  rw [post_bind]
  refine (post_shotEdge hoy hoh.1 hoh.2 (by omega)).imp ?_ fun _ _ h => h
  rintro y1 s₂ ⟨rfl, hy1⟩
  rw [post_bind, post_shotSub, post_bind, post_shotU32]
  refine ⟨by omega, by omega, ?_⟩
  dsimp only
  -- the box has a row at least
  have hstart : boxStart region.y region.height oy oh = y0 := hy0.symm
  have hend : boxStart region.y region.height (oy + 1) oh = y1 := hy1.symm
  have hbot : (if y1 ≤ y0 then y0 + 1 else y1) = y0 + boxSide region.y region.height oy oh := by
    rw [boxSide, hstart, hend]
    split <;> omega
  rw [hbot]
  rw [hstart] at hlow hin
  generalize hplace : shotBmpHeader + (oh - (oy + 1)) * shotStride24 ow = place at hrow ⊢
  rw [post_bind]
  have hpixels := shapedPixels_length (sourceChannel source pixelOffset sourceHeight sourceStride) region ow oh oy
  refine (post_foldlM_range (I := fun ox _ s'' => s'' = ⟨write s₂.output place
      (shapedPixels (sourceChannel source pixelOffset sourceHeight sourceStride) region ow oh oy ox), s₂.work⟩) ow
    ?_ (by simp [write, shapedPixels])).imp ?_ fun _ _ h => h
  · rintro ox hox _ _ rfl
    have hdone := hpixels ox
    have hthree : (shapedColour (sourceChannel source pixelOffset sourceHeight sourceStride) region ow oh oy ox).bytes.length =
        3 := rfl
    refine (post_shotPixel hg hside hin hox (by rw [write_length (by omega)]; omega)).imp ?_ fun _ _ h => h
    rintro _ _ rfl
    rw [← hstart, ← shapedColour, ← hdone, write_write (by omega), ← shapedPixels_succ]
  · rintro _ _ rfl
    have hdone := hpixels ow
    have hpad : (List.replicate (shotStride24 ow - ow * 3) (0 : UInt8)).length = shotStride24 ow - ow * 3 :=
      List.length_replicate
    refine post_putShots (by rw [write_length (by omega)]; omega) ?_
    have hbehind : place + ow * 3 = place +
        (shapedPixels (sourceChannel source pixelOffset sourceHeight sourceStride) region ow oh oy ow).length := by
      rw [hdone]
    rw [hbehind, write_write (by omega)]
    rfl

/-- The header's fields are in the part that is left. -/
theorem BmpReads.of_take {output output' : Bytes} {width height bits compression colours : ℕ}
    (h : BmpReads output width height bits compression colours)
    (htake : output'.take shotBmpHeader = output.take shotBmpHeader) :
    BmpReads output' width height bits compression colours := by
  have hheader : shotBmpHeader = 54 := rfl
  have hfour : ∀ v, (writeU32 v).length = 4 := fun _ => rfl
  have htwo : ∀ v, (writeU16 v).length = 2 := fun _ => rfl
  refine ⟨h.magic.of_take htake (by decide), h.offset.of_take htake ?_, h.width.of_take htake ?_,
    h.height.of_take htake ?_, h.bits.of_take htake ?_, h.compression.of_take htake ?_, h.colours.of_take htake ?_⟩
  all_goals first
    | rw [hfour]; omega
    | rw [htwo]; omega

/-- The 24-bit image: its header, and its rows from the bottom up. -/
structure Image24 (channel : ℕ → ℕ → ℕ → ℕ) (region : ShotRegion) (ow oh : ℕ) (output : Bytes) : Prop where
  size : output.readU32 2 = UInt32.ofNat (shotBmpHeader + shotStride24 ow * oh)
  header : BmpReads output ow oh 24 0 0
  rows : ∀ oy < oh, Stands output (shotBmpHeader + (oh - (oy + 1)) * shotStride24 ow) (shapedRow channel region ow oh oy)

/-- **The 24-bit image** fills its part of the output, under its own header. -/
theorem post_shotxfResample (hg : ShotGeometry source pixelOffset sourceHeight sourceStride region ow oh)
    (hroom : shotBmpHeader + shotStride24 ow * oh ≤ s.output.length) (hsize : s.output.length < 2 ^ 32) :
    Post (shotxfResample source pixelOffset sourceHeight sourceStride region ow oh) s
      (fun _ s' => SameRoom s s' ∧
        Image24 (sourceChannel source pixelOffset sourceHeight sourceStride) region ow oh s'.output) R := by
  rw [shotxfResample, post_bind, post_shotU32, post_bind]
  refine ⟨by omega, ?_⟩
  refine (post_bmpHeader (by omega) (by omega)).imp ?_ fun _ _ h => h
  rintro _ s₁ ⟨hheaded, hfields⟩
  have hlength := hheaded.length
  refine (post_foldlM_range (I := fun y _ s' => BodyOnly s₁ s' ∧ ∀ oy < y,
      Stands s'.output (shotBmpHeader + (oh - (oy + 1)) * shotStride24 ow)
        (shapedRow (sourceChannel source pixelOffset sourceHeight sourceStride) region ow oh oy)) oh ?_
    ⟨BodyOnly.refl s₁, fun oy hoy => absurd hoy (Nat.not_lt_zero oy)⟩).imp ?_ fun _ _ h => h
  · rintro y hy _ s₂ ⟨hbody, hrows⟩
    have hlength₂ := hbody.length
    have hrow : (oh - (y + 1)) * shotStride24 ow + shotStride24 ow ≤ shotStride24 ow * oh := row_le (by omega)
    have hbytes := shapedRow_length (sourceChannel source pixelOffset sourceHeight sourceStride) region ow oh
    have hy' := hbytes y
    refine (post_shotRow hg hy (by omega) (by omega)).imp ?_ fun _ _ h => h
    rintro _ _ rfl
    refine ⟨hbody.write (by omega) (by omega), fun oy hoy => ?_⟩
    rcases Nat.lt_succ_iff_lt_or_eq.1 hoy with hlt | rfl
    · -- an earlier row stands above
      have hoy' := hbytes oy
      have habove : (oh - (y + 1)) * shotStride24 ow + shotStride24 ow ≤ (oh - (oy + 1)) * shotStride24 ow := by
        rw [← Nat.succ_mul]
        exact Nat.mul_le_mul_right _ (by omega)
      exact (hrows oy hlt).write (by omega) (.inr (by omega))
    · exact stands_write (by omega)
  · rintro _ s₂ ⟨hbody, hrows⟩
    refine ⟨⟨hbody.work.trans hheaded.work, hbody.length.trans hlength⟩, ?_, hfields.of_take hbody.head, hrows⟩
    have hword := readU32_stands hheaded.size
    have htake : s₂.output.readU32 2 = s₁.output.readU32 2 := by
      rw [← readU32_take (n := shotBmpHeader) (by decide), hbody.head, readU32_take (by decide)]
    rw [htake, hword, Nat.zero_mul, Nat.add_zero]

end

end V9xRemote
