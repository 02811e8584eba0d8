import V9xRemote.Spec.VncFrame

/-!
# Tiles and rectangles

The rectangles of an update cover exactly the pixels of its dirty tiles
(`mem_dirtyRects_iff`), and lie inside the screen.
-/

namespace V9xRemote

open Runs

variable {c : VncCapture} {row column : ℕ}

/-- A pixel lies in a rectangle x, y, width, height. -/
def InRect (row column : ℕ) (rect : ℕ × ℕ × ℕ × ℕ) : Prop :=
  rect.1 ≤ column ∧ column < rect.1 + rect.2.2.1 ∧ rect.2.1 ≤ row ∧ row < rect.2.1 + rect.2.2.2

theorem div_tile_lt {i length : ℕ} (h : i < length) : i / vncTile < vncTiles length := by
  unfold vncTiles vncTile
  omega

theorem tile_lt {tile length : ℕ} (h : tile < vncTiles length) : tile * vncTile < length := by
  unfold vncTiles vncTile at h
  unfold vncTile
  omega

/-- A pixel of the screen lies in a run of tiles where its tile does. -/
theorem inRect_runRect {band tile run : ℕ} (hrow : row < c.height) (hcolumn : column < c.width)
    (hband : band < vncTiles c.height) :
    InRect row column (c.runRect band tile run) ↔
      row / vncTile = band ∧ tile ≤ column / vncTile ∧ column / vncTile < tile + run := by
  have hfirst := tile_lt hband
  unfold InRect VncCapture.runRect
  dsimp only
  unfold vncTile at hfirst ⊢
  split_ifs <;> omega

/-- A run of tiles lies in the screen. -/
theorem runRect_inside {band tile run : ℕ} (hband : band < vncTiles c.height) (hrun : 0 < run)
    (hend : tile + run ≤ vncTiles c.width) :
    (c.runRect band tile run).1 + (c.runRect band tile run).2.2.1 ≤ c.width ∧
      (c.runRect band tile run).2.1 + (c.runRect band tile run).2.2.2 ≤ c.height ∧
      0 < (c.runRect band tile run).2.2.1 ∧ 0 < (c.runRect band tile run).2.2.2 ∧
      (c.runRect band tile run).2.2.2 ≤ vncTile := by
  have hfirst := tile_lt hband
  have hlast := tile_lt (show tile < vncTiles c.width by omega)
  unfold VncCapture.runRect
  dsimp only
  unfold vncTiles at hend
  unfold vncTile at hfirst hlast hend ⊢
  refine ⟨?_, ?_, ?_, ?_, ?_⟩ <;> split_ifs <;> omega

/-- **The rectangles of an update cover exactly the dirty tiles.** -/
theorem mem_dirtyRects_iff (hrow : row < c.height) (hcolumn : column < c.width) :
    (∃ rect ∈ c.dirtyRects, InRect row column rect) ↔ c.dirty (row / vncTile) (column / vncTile) = true := by
  have hband := div_tile_lt hrow
  have hruns := mem_runs_iff (f := c.dirty (row / vncTile)) (n := vncTiles c.width) (j := column / vncTile)
  rw [and_iff_right (div_tile_lt hcolumn)] at hruns
  rw [← hruns]
  unfold VncCapture.dirtyRects
  constructor
  · rintro ⟨rect, hrect, hin⟩
    obtain ⟨band, hbandMem, hrect⟩ := List.mem_flatMap.1 hrect
    obtain ⟨run, hrun, rfl⟩ := List.mem_map.1 hrect
    obtain ⟨rfl, hinRun⟩ := (inRect_runRect hrow hcolumn (List.mem_range.1 hbandMem)).1 hin
    exact ⟨run, hrun, hinRun⟩
  · rintro ⟨run, hrun, hin⟩
    refine ⟨_, List.mem_flatMap.2 ⟨row / vncTile, List.mem_range.2 hband, List.mem_map.2 ⟨run, hrun, rfl⟩⟩, ?_⟩
    exact (inRect_runRect hrow hcolumn hband).2 ⟨rfl, hin⟩

theorem dirtyRects_inside {rect : ℕ × ℕ × ℕ × ℕ} (h : rect ∈ c.dirtyRects) :
    rect.1 + rect.2.2.1 ≤ c.width ∧ rect.2.1 + rect.2.2.2 ≤ c.height ∧ 0 < rect.2.2.1 ∧ 0 < rect.2.2.2 ∧
      rect.2.2.2 ≤ vncTile := by
  obtain ⟨band, hband, h⟩ := List.mem_flatMap.1 h
  obtain ⟨run, hrun, rfl⟩ := List.mem_map.1 h
  exact runRect_inside (List.mem_range.1 hband) (runs_spec hrun).1 (runs_spec hrun).2

end V9xRemote
