import V9xRemote.Proof.Shotxf

/-!
# The agent and the host shape alike

The host plans in integers what the agent plans in 32-bit words, where no product wraps. For a screenshot of the whole
screen that the host shapes itself, and the shaped one that the agent sends, the host comes to the same pixels.
-/

namespace V9xRemote

open Bytes

variable {options : ShotOptions} {width height : UInt32} {plan : ShotPlan}

/-! ## The plans -/

/-- The region that the options ask for, as the host has it: none where a side is 0. -/
def hostRegion (options : ShotOptions) : Option (ℤ × ℤ × ℤ × ℤ) :=
  if options.width = 0 ∨ options.height = 0 then none
  else some (options.x.toNat, options.y.toNat, options.width.toNat, options.height.toNat)

/-- A plan of the agent, in the host's integers. -/
def ShotPlan.host (plan : ShotPlan) : HostPlan :=
  ⟨plan.regionX.toNat, plan.regionY.toNat, plan.regionWidth.toNat, plan.regionHeight.toNat, plan.outputWidth.toNat,
    plan.outputHeight.toNat⟩

/-- A request that both sides can be asked: known flags, a scale from 1 to 100, a screen within the agent's limit. -/
structure ShotRequest (options : ShotOptions) (width height : UInt32) : Prop where
  flags : options.flags &&& ~~~shotKnownFlags = 0
  scale : 1 ≤ options.scalePercent.toNat ∧ options.scalePercent.toNat ≤ 100
  columns : 1 ≤ width.toNat ∧ width.toNat ≤ 4096
  rows : 1 ≤ height.toNat ∧ height.toNat ≤ 4096

theorem hostScaled_eq {side scale : UInt32} (hside : side.toNat ≤ 4096) (hscale : scale.toNat ≤ 100) :
    hostScaled side.toNat scale.toNat = ((shotScaled side scale).toNat : ℤ) := by
  rw [shotScaled_toNat hside hscale, hostScaled]
  push_cast
  rfl

/-- The agent's plan of a request, its checks passed. -/
theorem shotxfPlan_of_request (h : ShotRequest options width height) :
    shotxfPlan options width height =
      if options.width = 0 ∨ options.height = 0 then
        .ok ⟨0, 0, width, height, shotScaled width options.scalePercent, shotScaled height options.scalePercent⟩
      else if width ≤ options.x ∨ height ≤ options.y then .error shotxfBadOptions
      else .ok ⟨options.x, options.y, min options.width (width - options.x), min options.height (height - options.y),
        shotScaled (min options.width (width - options.x)) options.scalePercent,
        shotScaled (min options.height (height - options.y)) options.scalePercent⟩ := by
  obtain ⟨hflags, hscale, hwidth, hheight⟩ := h
  have hne : ∀ {v : UInt32}, 1 ≤ v.toNat → v ≠ 0 := fun {v} hv h0 => by
    rw [h0, UInt32.toNat_zero] at hv
    omega
  have hle : ∀ {v bound : UInt32}, v.toNat ≤ bound.toNat → ¬v > bound := fun h => UInt32.not_lt.2 (UInt32.le_iff_toNat_le.2 h)
  have hgood : ¬((options.flags &&& ~~~shotKnownFlags != 0 || decide (options.scalePercent > 100) || width == 0 ||
      height == 0 || decide (width > 4096) || decide (height > 4096)) = true) := by
    simp only [hflags, bne_self_eq_false, Bool.false_or, Bool.or_eq_true, decide_eq_true_eq, beq_iff_eq, not_or]
    exact ⟨⟨⟨⟨hle hscale.2, hne hwidth.1⟩, hne hheight.1⟩, hle hwidth.2⟩, hle hheight.2⟩
  unfold shotxfPlan
  rw [if_neg (hne hscale.1)]
  dsimp only
  rw [if_neg hgood]
  simp only [Bool.or_eq_true, decide_eq_true_eq, ge_iff_le]

/-- **The host plans what the agent plans**, or refuses what the agent refuses. -/
theorem planShot_eq (h : ShotRequest options width height) :
    planShot width.toNat height.toNat (hostRegion options) options.scalePercent.toNat =
      match shotxfPlan options width height with
      | .ok plan => .ok plan.host
      | .error _ => .error (v9xFail "region starts outside the screen") := by
  obtain ⟨-, hscale, hwidth, hheight⟩ := id h
  rw [shotxfPlan_of_request h]
  unfold planShot hostRegion
  dsimp only
  rw [if_neg (by omega)]
  by_cases hwhole : options.width = 0 ∨ options.height = 0
  · rw [if_pos hwhole, if_pos hwhole]
    dsimp only [ShotPlan.host]
    rw [hostScaled_eq hwidth.2 hscale.2, hostScaled_eq hheight.2 hscale.2]
    rfl
  · rw [if_neg hwhole, if_neg hwhole]
    have hpos : ∀ {v : UInt32}, v ≠ 0 → 1 ≤ v.toNat := fun hne =>
      Nat.one_le_iff_ne_zero.2 fun h0 => hne (UInt32.toNat_inj.1 h0)
    simp only [not_or] at hwhole
    have hw := hpos hwhole.1
    have hh := hpos hwhole.2
    have hnonzero : width.toNat ≠ 0 := by omega
    dsimp only
    rw [if_neg (by simp only [Bool.or_eq_true, decide_eq_true_eq]; omega)]
    simp only [hnonzero, ne_eq, not_false_eq_true, decide_true, Bool.true_and, Bool.or_eq_true, decide_eq_true_eq, ge_iff_le,
      Nat.cast_le, ← UInt32.le_iff_toNat_le, if_true]
    by_cases hoff : width ≤ options.x ∨ height ≤ options.y
    · rw [if_pos hoff, if_pos hoff]
    · rw [if_neg hoff, if_neg hoff]
      simp only [not_or, UInt32.not_le] at hoff
      have hx := UInt32.lt_iff_toNat_lt.1 hoff.1
      have hy := UInt32.lt_iff_toNat_lt.1 hoff.2
      have hclip : ∀ {side screen start : UInt32}, start < screen →
          min (side.toNat : ℤ) (screen.toNat - start.toNat) = ((min side (screen - start)).toNat : ℤ) := by
        intro side screen start hlt
        have hlt' := UInt32.lt_iff_toNat_lt.1 hlt
        rw [clipped_toNat hlt]
        omega
      have hcw := clipped_le hwhole.1 hoff.1
      have hch := clipped_le hwhole.2 hoff.2
      dsimp only [ShotPlan.host]
      rw [hclip hoff.1, hclip hoff.2, hostScaled_eq (by omega) hscale.2, hostScaled_eq (by omega) hscale.2]

/-! ## The pixels -/

/-- A box's edges, in the host's integers. -/
theorem hostEdges (start size i out : ℕ) :
    ((start : ℤ) + i * size / out).toNat = boxStart start size i out ∧
      (max ((start : ℤ) + i * size / out + 1) (start + (i + 1) * size / out)).toNat =
        boxStart start size i out + boxSide start size i out := by
  have hlow : (start : ℤ) + i * size / out = (boxStart start size i out : ℕ) := by
    rw [boxStart]
    push_cast
    rfl
  have hhigh : (start : ℤ) + (i + 1) * size / out = (boxStart start size (i + 1) out : ℕ) := by
    rw [boxStart]
    push_cast
    rfl
  rw [hlow, hhigh, boxSide]
  omega

/-- The pixels of a decoded source, as the agent reads them. -/
def sourceColour (source : Bytes) (offset width height y x : ℕ) : Colour :=
  storedColour source (offset + (height - (y + 1)) * shotStride24 width + x * 3)

/-- A byte of a decoded source is a channel of it, in the other order. -/
theorem sourceColour_channel {source : Bytes} {offset w h y x c : ℕ} (hc : c < 3) :
    ((sourceColour source offset w h y x).rgb.at' c).toNat = sourceChannel source offset h (shotStride24 w) (2 - c) y x := by
  have hplace : offset + (h - (y + 1)) * shotStride24 w + x * 3 = offset + ((h - (y + 1)) * shotStride24 w + x * 3) :=
    Nat.add_assoc _ _ _
  rw [sourceColour, sourceChannel, hplace]
  obtain rfl | rfl | rfl : c = 0 ∨ c = 1 ∨ c = 2 := by omega
  · rfl
  · rfl
  · rfl

/-- **The host shapes the pixels** that were planned. -/
theorem shapeRgb_eq {source : Bytes} {offset : ℕ} {gray : Bool} (h : ShotRequest options width height)
    (hplan : shotxfPlan options width height = .ok plan) :
    shapeRgb width.toNat height.toNat
        (colourRows width.toNat height.toNat (sourceColour source offset width.toNat height.toNat)) (hostRegion options)
        options.scalePercent.toNat gray =
      .ok (plan.outputWidth.toNat, plan.outputHeight.toNat, colourRows plan.outputWidth.toNat plan.outputHeight.toNat
        (plannedColour source offset width.toNat height.toNat plan gray)) := by
  have hfits := shotxfPlan_fits hplan
  have hright := hfits.right
  have hbottom := hfits.bottom
  rw [shapeRgb, planShot_eq h, hplan]
  simp only [bind, Except.bind, pure, Except.pure, ShotPlan.host, Int.toNat_natCast]
  refine congrArg (fun rows : List Bytes =>
    Except.ok ((plan.outputWidth.toNat : ℤ), (plan.outputHeight.toNat : ℤ), rows)) ?_
  apply List.map_congr_left
  intro oy hoy
  apply List.flatMap_congr
  intro ox hox
  have hboxX : _ ∧ _ ≤ plan.regionX.toNat + _ := box_inside (List.mem_range.1 hox) hfits.outputWidth.2
  have hboxY : _ ∧ _ ≤ plan.regionY.toNat + _ := box_inside (List.mem_range.1 hoy) hfits.outputHeight.2
  have hedgesX := hostEdges plan.regionX.toNat plan.regionWidth.toNat ox plan.outputWidth.toNat
  have hedgesY := hostEdges plan.regionY.toNat plan.regionHeight.toNat oy plan.outputHeight.toNat
  rw [hedgesX.1, hedgesX.2, hedgesY.1, hedgesY.2]
  refine hostPixel_eq _ sourceChannel_le boxSide_pos boxSide_pos fun c hc y x _ hy _ hx => ?_
  rw [colourRows_at _ (by omega) (by omega) hc, sourceColour_channel hc]

/-! ## The agreement -/

/-- **The agent and the host shape alike.** For every screen and every request the two planners accept the same requests
with the same region and output size. Where they accept one, the agent makes a file of every BMP of the screen, given the
room that it planned, and the host decodes that file to the pixels that it computes itself from the whole image. -/
theorem shotxf_agrees_with_host {source : Bytes} {offset : ℕ} {options : ShotOptions} {width height : UInt32}
    (hrequest : ShotRequest options width height) (hvalid : ValidBmp source offset width.toNat height.toNat)
    (s : ShotBuffers) (hsize : s.output.length < 2 ^ 32) (hsize' : s.work.length < 2 ^ 32) :
    (∀ host, planShot width.toNat height.toNat (hostRegion options) options.scalePercent.toNat = .ok host ↔
      ∃ plan, shotxfPlan options width height = .ok plan ∧ plan.host = host) ∧
    ∀ plan, shotxfPlan options width height = .ok plan →
      shotBmpHeader + shotPaletteBytes + shotStride24 plan.outputWidth.toNat * plan.outputHeight.toNat ≤ s.output.length →
      shotWorkIndices + plan.outputWidth.toNat * plan.outputHeight.toNat ≤ s.work.length →
      ∃ shaped s' rows pixels,
        shotxfApply source options s.output.length s.work.length s = some (.ok shaped, s') ∧
        decodeBmp source = .ok (width.toNat, height.toNat, rows) ∧
        shapeRgb width.toNat height.toNat rows (hostRegion options) options.scalePercent.toNat
            (options.flags &&& shotGray != 0) = .ok (plan.outputWidth.toNat, plan.outputHeight.toNat, pixels) ∧
        decodeBmp (s'.output.take shaped.length) = .ok (plan.outputWidth.toNat, plan.outputHeight.toNat, pixels) := by
  have hfields := hvalid.head
  obtain rfl : source.readU32 18 = width := UInt32.toNat_inj.1 hfields.width
  obtain rfl : source.readU32 22 = height := UInt32.toNat_inj.1 hfields.height
  constructor
  · intro host
    rw [planShot_eq hrequest]
    cases shotxfPlan options (source.readU32 18) (source.readU32 22) with
    | ok plan => simp
    | error status => simp
  · intro plan hplan houtput hwork
    have hcolumns := hvalid.columns
    have hrows := hvalid.rows
    obtain ⟨r, s', hrun, hends⟩ := (post_shotxfApply source options hsize hsize').run
    cases r with
    | error e => exact absurd ⟨⟨_, _, _, hvalid⟩, plan, hplan, houtput, hwork⟩ hends.2
    | ok shaped =>
      obtain ⟨-, offset', plan', hfile⟩ := hends
      obtain rfl := Except.ok.inj (hfile.planned.symm.trans hplan)
      obtain rfl : offset' = offset := hfile.valid.head.offset.symm.trans hfields.offset
      have hdecoded := hfile.decoded
      rw [hfile.width, hfile.height] at hdecoded
      exact ⟨shaped, s', _, _, hrun, decodeBmp_24 hfields (by omega) (by omega) hvalid.inside, shapeRgb_eq hrequest hplan,
        hdecoded⟩

/-- The sample's header. -/
theorem shotSample_valid : ValidBmp shotSample 54 (2 : UInt32).toNat (1 : UInt32).toNat :=
  ⟨⟨by decide, by decide, by decide, by decide, by decide, by decide, by decide⟩, by decide, by decide, by decide, by decide⟩

theorem shotxf_agrees_with_host_demo :
    ∃ shaped s' rows pixels,
      shotxfApply shotSample ⟨3, 0, 0, 0, 0, 50⟩ 1082 6145 ⟨List.replicate 1082 0, List.replicate 6145 0⟩ =
        some (.ok shaped, s') ∧
      decodeBmp shotSample = .ok (2, 1, rows) ∧ shapeRgb 2 1 rows none 50 true = .ok (1, 1, pixels) ∧
      decodeBmp (s'.output.take shaped.length) = .ok (1, 1, pixels) := by
  have hlength : (List.replicate 1082 (0 : UInt8)).length = 1082 := List.length_replicate
  have hlength' : (List.replicate 6145 (0 : UInt8)).length = 6145 := List.length_replicate
  have hrequest : ShotRequest ⟨3, 0, 0, 0, 0, 50⟩ 2 1 := ⟨by decide, by decide, by decide, by decide⟩
  have hplan : shotxfPlan ⟨3, 0, 0, 0, 0, 50⟩ 2 1 = .ok ⟨0, 0, 2, 1, 1, 1⟩ := by decide
  have h := (shotxf_agrees_with_host hrequest shotSample_valid ⟨List.replicate 1082 0, List.replicate 6145 0⟩
    (by rw [hlength]; decide) (by rw [hlength']; decide)).2 _ hplan (by rw [hlength]; decide) (by rw [hlength']; decide)
  rw [hlength, hlength'] at h
  exact h

end V9xRemote
