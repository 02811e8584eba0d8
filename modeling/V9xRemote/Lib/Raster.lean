import Mathlib.Algebra.Order.Ring.Nat
import Mathlib.Data.List.GetD
import Mathlib.Tactic.Common

/-!
# Rectangles row by row

The list of a rectangle's values in row-major order, and the value at a row and a column of
such a list.
-/

namespace Raster

variable {α β : Type}

/-- The values of a rectangle, row by row. -/
def raster (width height : ℕ) (g : ℕ → ℕ → α) : List α := (List.range (height * width)).map fun i => g (i / width) (i % width)

@[simp] theorem raster_length (width height : ℕ) (g : ℕ → ℕ → α) : (raster width height g).length = height * width := by
  simp [raster]

theorem mem_raster {width height : ℕ} {g : ℕ → ℕ → α} {a : α} :
    a ∈ raster width height g ↔ ∃ row < height, ∃ column < width, g row column = a := by
  unfold raster
  rw [List.mem_map]
  constructor
  · rintro ⟨i, hi, rfl⟩
    rw [List.mem_range] at hi
    have hpos : 0 < width := Nat.pos_of_ne_zero fun h => by
      rw [h, Nat.mul_zero] at hi
      exact Nat.not_lt_zero i hi
    exact ⟨i / width, (Nat.div_lt_iff_lt_mul hpos).2 hi, i % width, Nat.mod_lt i hpos, rfl⟩
  · rintro ⟨row, hrow, column, hcolumn, rfl⟩
    have hpos : 0 < width := by omega
    refine ⟨row * width + column, ?_, ?_⟩
    · rw [List.mem_range]
      calc row * width + column < row * width + width := by omega
        _ = (row + 1) * width := by rw [Nat.add_mul, Nat.one_mul]
        _ ≤ height * width := Nat.mul_le_mul_right _ hrow
    · rw [Nat.add_comm, Nat.add_mul_div_right _ _ hpos, Nat.div_eq_of_lt hcolumn, Nat.zero_add, Nat.add_mul_mod_self_right,
        Nat.mod_eq_of_lt hcolumn]

/-- The positions of a rectangle. -/
theorem mem_positions {width height : ℕ} {p : ℕ × ℕ} : p ∈ raster width height Prod.mk ↔ p.1 < height ∧ p.2 < width := by
  rw [mem_raster]
  constructor
  · rintro ⟨row, hrow, column, hcolumn, rfl⟩
    exact ⟨hrow, hcolumn⟩
  · rintro ⟨hrow, hcolumn⟩
    exact ⟨p.1, hrow, p.2, hcolumn, rfl⟩

theorem map_raster (width height : ℕ) (g : ℕ → ℕ → α) (f : α → β) :
    (raster width height g).map f = raster width height fun row column => f (g row column) := by
  unfold raster
  rw [List.map_map]
  rfl

/-- The rows one after the other. -/
theorem raster_eq_flatMap (width height : ℕ) (g : ℕ → ℕ → α) :
    raster width height g = (List.range height).flatMap fun row => (List.range width).map (g row) := by
  unfold raster
  induction height with
  | zero => rw [Nat.zero_mul]; rfl
  | succ height ih =>
    rw [Nat.succ_mul, List.range_add, List.map_append, ih, List.range_succ, List.flatMap_append, List.flatMap_cons,
      List.flatMap_nil, List.append_nil, List.map_map]
    congr 1
    refine List.map_congr_left fun column hcolumn => ?_
    have hcolumn := List.mem_range.1 hcolumn
    have hpos : 0 < width := by omega
    have hdiv : (height * width + column) / width = height := by
      rw [Nat.mul_comm, Nat.mul_add_div hpos, Nat.div_eq_of_lt hcolumn, Nat.add_zero]
    have hmod : (height * width + column) % width = column := by
      rw [Nat.mul_comm, Nat.mul_add_mod, Nat.mod_eq_of_lt hcolumn]
    rw [Function.comp_apply, hdiv, hmod]

/-- **The value at a row and a column.** -/
theorem raster_getD (g : ℕ → ℕ → α) {width height row column : ℕ} (hrow : row < height) (hcolumn : column < width)
    (default : α) : (raster width height g).getD (row * width + column) default = g row column := by
  have hpos : 0 < width := by omega
  have hlt : row * width + column < height * width := by
    calc row * width + column < row * width + width := by omega
      _ = (row + 1) * width := by rw [Nat.add_mul, Nat.one_mul]
      _ ≤ height * width := Nat.mul_le_mul_right _ hrow
  unfold raster
  rw [List.getD_eq_getElem _ _ (by simpa using hlt), List.getElem_map, List.getElem_range]
  rw [Nat.add_comm, Nat.add_mul_div_right _ _ hpos, Nat.div_eq_of_lt hcolumn, Nat.zero_add, Nat.add_mul_mod_self_right,
    Nat.mod_eq_of_lt hcolumn]

end Raster
