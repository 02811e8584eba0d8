import V9xRemote.Spec.McpImage
import V9xRemote.Spec.Shotxf

/-!
# Boxes

On both sides an output pixel is the rounded average of the pixels of its box. The boxes lie in the region, and
the agent and the host compute their edges alike.
-/

namespace V9xRemote

open Bytes

variable {f g : ℕ → ℕ → ℕ} {x0 y0 width height start size i n out : ℕ}

/-! ## Sums -/

/-- The sum of a channel over a row of a box; `f y x` is its value at a row and a column. -/
def rowSum (f : ℕ → ℕ → ℕ) (x0 n y : ℕ) : ℕ := ((List.range' x0 n).map (f y)).sum

/-- The sum of a channel over a box. -/
def boxSum (f : ℕ → ℕ → ℕ) (x0 width y0 height : ℕ) : ℕ := ((List.range' y0 height).map (rowSum f x0 width)).sum

theorem rowSum_succ (y : ℕ) : rowSum f x0 (n + 1) y = rowSum f x0 n y + f y (x0 + n) := by
  simp [rowSum, List.range'_1_concat]

theorem boxSum_succ : boxSum f x0 width y0 (n + 1) = boxSum f x0 width y0 n + rowSum f x0 width (y0 + n) := by
  simp [boxSum, List.range'_1_concat]

theorem rowSum_le (h : ∀ y x, f y x ≤ 255) (y : ℕ) : rowSum f x0 n y ≤ 255 * n := by
  induction n with
  | zero => exact Nat.zero_le _
  | succ n ih =>
    have hone := h y (x0 + n)
    rw [rowSum_succ]
    omega

theorem boxSum_le (h : ∀ y x, f y x ≤ 255) : boxSum f x0 width y0 height ≤ 255 * (height * width) := by
  induction height with
  | zero => exact Nat.zero_le _
  | succ height ih =>
    have hrow : rowSum f x0 width (y0 + height) ≤ 255 * width := rowSum_le h _
    rw [boxSum_succ, Nat.add_one_mul height width]
    omega

/-- A sum over a box reads inside the box. -/
theorem boxSum_congr (h : ∀ y x, y0 ≤ y → y < y0 + height → x0 ≤ x → x < x0 + width → f y x = g y x) :
    boxSum f x0 width y0 height = boxSum g x0 width y0 height := by
  unfold boxSum rowSum
  congr 1
  apply List.map_congr_left
  intro y hy
  rw [List.mem_range'_1] at hy
  congr 1
  apply List.map_congr_left
  intro x hx
  rw [List.mem_range'_1] at hx
  exact h y x hy.1 hy.2 hx.1 hx.2

/-- The average over a box, rounded. -/
def boxMean (f : ℕ → ℕ → ℕ) (x0 width y0 height : ℕ) : ℕ :=
  (boxSum f x0 width y0 height + width * height / 2) / (width * height)

theorem boxMean_lt (h : ∀ y x, f y x ≤ 255) (hwidth : 0 < width) (hheight : 0 < height) :
    boxMean f x0 width y0 height < 256 := by
  have hsum : boxSum f x0 width y0 height ≤ 255 * (height * width) := boxSum_le h
  have hpos : 0 < width * height := Nat.mul_pos hwidth hheight
  rw [Nat.mul_comm height width] at hsum
  rw [boxMean, Nat.div_lt_iff_lt_mul hpos]
  omega

/-! ## Edges -/

/-- Where the box of an output index starts in a region. -/
def boxStart (start size i out : ℕ) : ℕ := start + i * size / out

/-- The side of a box: a pixel at least. -/
def boxSide (start size i out : ℕ) : ℕ := max 1 (boxStart start size (i + 1) out - boxStart start size i out)

theorem boxSide_pos : 0 < boxSide start size i out := lt_of_lt_of_le Nat.one_pos (le_max_left _ _)

/-- **A box lies in its region.** -/
theorem box_inside (hi : i < out) (hout : out ≤ size) :
    start ≤ boxStart start size i out ∧ boxStart start size i out + boxSide start size i out ≤ start + size := by
  have hlow : i * size / out < size := Nat.div_lt_of_lt_mul (Nat.mul_lt_mul_of_pos_right hi (by omega))
  have hhigh : (i + 1) * size / out ≤ size := Nat.div_le_of_le_mul (Nat.mul_le_mul_right _ hi)
  unfold boxSide boxStart
  generalize i * size / out = low at hlow ⊢
  generalize (i + 1) * size / out = high at hhigh ⊢
  omega

/-! ## Colours -/

/-- A pixel's colour. -/
structure Colour where
  b : UInt8
  g : UInt8
  r : UInt8
deriving DecidableEq, Repr

namespace Colour

/-- As a pixel stands in a file. -/
def bytes (c : Colour) : Bytes := [c.b, c.g, c.r]

/-- As a pixel stands in a decoded row. -/
def rgb (c : Colour) : Bytes := [c.r, c.g, c.b]

/-- The grey of a colour. -/
def gray (c : Colour) : UInt8 := UInt8.ofNat ((c.r.toNat * 77 + c.g.toNat * 150 + c.b.toNat * 29 + 128) >>> 8)

/-- The colour that is shown: itself, or its grey. -/
def shown (grayed : Bool) (c : Colour) : Colour := if grayed then ⟨c.gray, c.gray, c.gray⟩ else c

end Colour

/-- The average colour of a box, over the channels of an image. -/
def boxColour (channel : ℕ → ℕ → ℕ → ℕ) (x0 width y0 height : ℕ) : Colour :=
  let mean := fun c => UInt8.ofNat (boxMean (channel c) x0 width y0 height)
  ⟨mean 0, mean 1, mean 2⟩

/-- The colour of an output pixel. -/
def shapedColour (channel : ℕ → ℕ → ℕ → ℕ) (region : ShotRegion) (ow oh oy ox : ℕ) : Colour :=
  boxColour channel (boxStart region.x region.width ox ow) (boxSide region.x region.width ox ow)
    (boxStart region.y region.height oy oh) (boxSide region.y region.height oy oh)

/-! ## The host's pixel -/

/-- The host's sums are sums over its rows' channels. -/
theorem hostSum_eq (rows : List Bytes) (x0 width y0 height channel : ℕ) :
    hostSum rows x0 (x0 + width) y0 (y0 + height) channel =
      boxSum (fun y x => ((rows.getD y []).at' (x * 3 + channel)).toNat) x0 width y0 height := by
  rw [hostSum, Nat.add_sub_cancel_left, Nat.add_sub_cancel_left]
  rfl

/-- **A pixel of the host** is the average of its box, in the channels' other order. -/
theorem hostPixel_eq (rows : List Bytes) {channel : ℕ → ℕ → ℕ → ℕ} {gray : Bool} (hbyte : ∀ c y x, channel c y x ≤ 255)
    (hwidth : 0 < width) (hheight : 0 < height)
    (hrows : ∀ c < 3, ∀ y x, y0 ≤ y → y < y0 + height → x0 ≤ x → x < x0 + width →
      ((rows.getD y []).at' (x * 3 + c)).toNat = channel (2 - c) y x) :
    hostPixel rows gray x0 (x0 + width) y0 (y0 + height) =
      ((boxColour channel x0 width y0 height).shown gray).rgb := by
  have hmean : ∀ c < 3, (hostSum rows x0 (x0 + width) y0 (y0 + height) c +
      (x0 + width - x0) * (y0 + height - y0) / 2) / ((x0 + width - x0) * (y0 + height - y0)) =
        boxMean (channel (2 - c)) x0 width y0 height := by
    intro c hc
    rw [hostSum_eq, Nat.add_sub_cancel_left, Nat.add_sub_cancel_left, boxMean, boxSum_congr (hrows c hc)]
  have hnat : ∀ c, (UInt8.ofNat (boxMean (channel c) x0 width y0 height)).toNat = boxMean (channel c) x0 width y0 height :=
    fun c => UInt8.toNat_ofNat_of_lt' (boxMean_lt (hbyte c) hwidth hheight)
  unfold hostPixel
  dsimp only
  rw [hmean 0 (by decide), hmean 1 (by decide), hmean 2 (by decide)]
  cases gray with
  | true =>
    simp only [if_true, Colour.shown, Colour.rgb, Colour.gray, boxColour, hnat]
    rfl
  | false => rfl

end V9xRemote
