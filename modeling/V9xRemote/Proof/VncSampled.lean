import V9xRemote.Proof.VncFull

/-!
# Sampled captures converge

A sampled capture reads one row of each band of tiles, another one each time, and in full
only the tiles where that row is not what the viewer has. While the screen stays as it is
(`VncSteady`), a row that was read once stays right in both frames (`Found`), and sixteen
captures read every row (`sampled_converges`).
-/

namespace V9xRemote

open Runs Trace

variable {F : Frame} {c c' : VncCapture} {n k : ℕ}

/-! ## What has been found right -/

/-- The row of a band that the `k`th sampled capture reads. -/
def VncCapture.rowAt (c : VncCapture) (k band : ℕ) : ℕ := c.sampleRow (VncCapture.vncSampleOrder.getD (k % 16) 0) band

/-- A row has been read from the screen. -/
def RowRead (F : Frame) (c : VncCapture) (row : ℕ) : Prop := ∀ column < c.width, c.bits row column = F row column

/-- It has, and the viewer has it too. -/
def RowShown (F : Frame) (c : VncCapture) (row : ℕ) : Prop :=
  ∀ column < c.width, c.bits row column = F row column ∧ c.prev row column = F row column

/-- After `n` captures, of which the last sampled one was the one before the `k`th: they have
read the whole screen, or the rows of the last `n` sampled ones. -/
def Found (F : Frame) (n k : ℕ) (c : VncCapture) : Prop :=
  (∀ row < c.height, RowShown F c row) ∨
    (n ≤ k ∧ ∀ m < k, k ≤ m + n → ∀ band < vncTiles c.height, RowShown F c (c.rowAt m band))

/-- What was read from the screen stays read, and what was shown stays shown. -/
structure Steady (F : Frame) (c c' : VncCapture) : Prop where
  width : c'.width = c.width
  height : c'.height = c.height
  bits : ∀ row column, c.bits row column = F row column → c'.bits row column = F row column
  prev : ∀ row column, c.bits row column = F row column → c.prev row column = F row column →
    c'.prev row column = F row column

theorem Steady.rowAt (h : Steady F c c') (k band : ℕ) : c'.rowAt k band = c.rowAt k band := by
  unfold VncCapture.rowAt VncCapture.sampleRow
  rw [h.height]

theorem Steady.read (h : Steady F c c') {row : ℕ} (hread : RowRead F c row) : RowRead F c' row := by
  intro column hcolumn
  rw [h.width] at hcolumn
  exact h.bits _ _ (hread column hcolumn)

theorem Steady.shown (h : Steady F c c') {row : ℕ} (hshown : RowShown F c row) : RowShown F c' row := by
  intro column hcolumn
  rw [h.width] at hcolumn
  obtain ⟨hbits, hprev⟩ := hshown column hcolumn
  exact ⟨h.bits _ _ hbits, h.prev _ _ hbits hprev⟩

theorem Steady.found (h : Steady F c c') (hfound : Found F n k c) : Found F n k c' := by
  unfold Found
  rw [h.height]
  rcases hfound with hall | ⟨hle, hrows⟩
  · exact Or.inl fun row hrow => h.shown (hall row hrow)
  · refine Or.inr ⟨hle, fun m hm hkm band hband => ?_⟩
    rw [h.rowAt]
    exact h.shown (hrows m hm hkm band hband)

theorem found_zero (F : Frame) (k : ℕ) (c : VncCapture) : Found F 0 k c := by
  refine Or.inr ⟨Nat.zero_le k, fun m hm hkm => ?_⟩
  omega

/-- Every phase comes up in sixteen captures. -/
theorem exists_phase {k : ℕ} (phase : ℕ) (hk : 16 ≤ k) (hphase : phase < 16) :
    ∃ m < k, k ≤ m + 16 ∧ VncCapture.vncSampleOrder.getD (m % 16) 0 = phase := by
  have horder : ∀ p : Fin 16, ∃ i : Fin 16, VncCapture.vncSampleOrder.getD i 0 = p := by decide
  obtain ⟨i, hi⟩ := horder ⟨phase, hphase⟩
  obtain ⟨i, hlt⟩ := i
  dsimp only at hi
  refine ⟨k - 16 + (i + 16 - k % 16) % 16, by omega, by omega, ?_⟩
  rw [show (k - 16 + (i + 16 - k % 16) % 16) % 16 = i by omega]
  exact hi

/-- **Sixteen captures find the whole screen.** -/
theorem Found.all (h : Found F n k c) (hn : 16 ≤ n) : ∀ row < c.height, RowShown F c row := by
  intro row hrow
  rcases h with hall | ⟨hle, hrows⟩
  · exact hall row hrow
  obtain ⟨m, hm, hkm, hphase⟩ := exists_phase (k := k) (row % 16) (by omega) (by omega)
  have hshown := hrows m hm (by omega) (row / vncTile) (div_tile_lt hrow)
  have hat : c.rowAt m (row / vncTile) = row := by
    unfold VncCapture.rowAt VncCapture.sampleRow vncTile
    rw [hphase]
    split <;> omega
  rwa [hat] at hshown

/-! ## Tiles -/

/-- A tile has been read, and is marked as such. -/
def TileRead (F : Frame) (c : VncCapture) (band tile : ℕ) : Prop :=
  c.readMask band tile = true ∧ ∀ row < c.height, ∀ column < c.width, row / vncTile = band → column / vncTile = tile →
    c.bits row column = F row column

/-- The viewer has a row of a tile. -/
def TileSame (F : Frame) (c : VncCapture) (row tile : ℕ) : Prop :=
  ∀ column < c.width, column / vncTile = tile → c.prev row column = F row column

/-- A row that is not sampled as changed is the same in both frames. -/
theorem sampled_same {phase band tile : ℕ} (h : c.sampled phase band tile = false) {column : ℕ} (hcolumn : column < c.width)
    (htile : column / vncTile = tile) :
    c.bits (c.sampleRow phase band) column = c.prev (c.sampleRow phase band) column := by
  unfold VncCapture.sampled at h
  rw [Bool.or_eq_false_iff, List.any_eq_false] at h
  have hlt : column - tile * vncTile < VncCapture.tileEnd (tile * vncTile) c.width - tile * vncTile := by
    unfold VncCapture.tileEnd
    unfold vncTile at htile ⊢
    split <;> omega
  have hsame := h.2 _ (List.mem_range.2 hlt)
  have hat : tile * vncTile + (column - tile * vncTile) = column := by
    unfold vncTile at htile ⊢
    omega
  rw [hat] at hsame
  simpa using hsame

/-- Two frames that do not differ in a tile have the same pixels there. -/
theorem differs_same {row column : ℕ} (h : c.differs (row / vncTile) (column / vncTile) = false) (hrow : row < c.height)
    (hcolumn : column < c.width) : c.bits row column = c.prev row column := by
  have hat : ∀ {i length : ℕ}, i < length →
      i - i / vncTile * vncTile < VncCapture.tileEnd (i / vncTile * vncTile) length - i / vncTile * vncTile ∧
        i / vncTile * vncTile + (i - i / vncTile * vncTile) = i := by
    intro i length hi
    unfold VncCapture.tileEnd vncTile
    refine ⟨?_, by omega⟩
    split <;> omega
  unfold VncCapture.differs at h
  have hline := List.any_eq_false.1 h _ (List.mem_range.2 (hat hrow).1)
  have hpixel := List.any_eq_false.1 (Bool.eq_false_iff.2 hline) _ (List.mem_range.2 (hat hcolumn).1)
  rw [(hat hrow).2, (hat hcolumn).2] at hpixel
  simpa using hpixel

theorem diff_prev (c : VncCapture) (all : Bool) (row column : ℕ) :
    (c.diff all).prev row column = c.bits row column ∨ (c.diff all).prev row column = c.prev row column := by
  unfold VncCapture.diff
  dsimp only
  split
  · exact Or.inl rfl
  · exact Or.inr rfl

theorem diff_steady (c : VncCapture) (all : Bool) : Steady F c (c.diff all) where
  width := rfl
  height := rfl
  bits := fun _ _ h => h
  prev := by
    intro row column hbits hprev
    rcases diff_prev c all row column with h | h
    · exact h.trans hbits
    · exact h.trans hprev

/-- **A tile that was read is right behind the comparison.** -/
theorem diff_read {all : Bool} {row column : ℕ} (hrow : row < c.height) (hcolumn : column < c.width)
    (hread : TileRead F c (row / vncTile) (column / vncTile)) : (c.diff all).prev row column = F row column := by
  have hbits := hread.2 row hrow column hcolumn rfl rfl
  cases hchanged : c.changed all (row / vncTile) (column / vncTile) with
  | true =>
    unfold VncCapture.diff
    dsimp only
    rw [hchanged, if_pos (by simp [hrow, hcolumn])]
    exact hbits
  | false =>
    -- nothing differs in it, so the viewer had it
    have hsame : c.differs (row / vncTile) (column / vncTile) = false := by
      unfold VncCapture.changed at hchanged
      rw [decide_eq_true ⟨div_tile_lt hrow, div_tile_lt hcolumn⟩, hread.1, Bool.true_and, Bool.true_and,
        Bool.or_eq_false_iff] at hchanged
      exact hchanged.2
    have hpixel := differs_same hsame hrow hcolumn
    rcases diff_prev c all row column with h | h
    · exact h.trans hbits
    · exact h.trans (hpixel.symm.trans hbits)

/-! ## Captures -/

/-- The `k`th sampled capture has read the rows of the first bands. -/
def RowsRead (F : Frame) (k bands : ℕ) (c : VncCapture) : Prop := ∀ band < bands, RowRead F c (c.rowAt k band)

/-- A tile has been read, or what was sampled of it is what the viewer has. -/
def TileRight (F : Frame) (c : VncCapture) (k band tile : ℕ) : Prop :=
  TileRead F c band tile ∨ TileSame F c (c.rowAt k band) tile

/-- A capture is finished: it has read the whole screen, or is a sampled one. -/
def Captured (F : Frame) (n : ℕ) (c : VncCapture) : Prop :=
  (∀ band < vncTiles c.height, ∀ tile < vncTiles c.width, TileRead F c band tile) ∧ Found F n c.sampleStep c ∨
    ∃ k, c.sampleStep = k + 1 ∧ Found F n k c ∧ RowsRead F k (vncTiles c.height) c ∧
      ∀ band < vncTiles c.height, ∀ tile < vncTiles c.width, TileRight F c k band tile

theorem Captured.found (h : Captured F n c) : ∃ k, Found F n k c := by
  rcases h with ⟨-, hfound⟩ | ⟨k, -, hfound, -⟩
  · exact ⟨_, hfound⟩
  · exact ⟨k, hfound⟩

/-- A row of a band lies in it. -/
theorem rowAt_band {k band : ℕ} (hband : band < vncTiles c.height) :
    c.rowAt k band < c.height ∧ c.rowAt k band / vncTile = band := by
  have hphase : VncCapture.vncSampleOrder.getD (k % 16) 0 < 16 := by
    have horder : ∀ i : Fin 16, VncCapture.vncSampleOrder.getD i 0 < 16 := by decide
    exact horder ⟨k % 16, Nat.mod_lt _ (by omega)⟩
  have hfirst := tile_lt hband
  unfold vncTiles at hband
  unfold VncCapture.rowAt VncCapture.sampleRow
  unfold vncTile at hband hfirst ⊢
  split <;> omega

/-- **One more capture has found what it read**, once it is compared. -/
theorem Captured.diff (h : Captured F n c) (all : Bool) : Found F (n + 1) (c.diff all).sampleStep (c.diff all) := by
  have hsteady := diff_steady (F := F) c all
  rcases h with ⟨hall, -⟩ | ⟨k, hstep, hfound, hread, hright⟩
  · refine Or.inl fun row hrow column hcolumn => ?_
    have htile := hall _ (div_tile_lt hrow) _ (div_tile_lt hcolumn)
    exact ⟨htile.2 row hrow column hcolumn rfl rfl, diff_read hrow hcolumn htile⟩
  rcases hsteady.found hfound with hall | ⟨hle, hrows⟩
  · exact Or.inl hall
  have hstep : (c.diff all).sampleStep = k + 1 := hstep
  rw [hstep]
  refine Or.inr ⟨by omega, fun m hm hkm band hband => ?_⟩
  rcases Nat.lt_or_ge m k with hlt | hge
  · exact hrows m hlt (by omega) band hband
  -- the rows it read itself
  obtain rfl : m = k := by omega
  obtain ⟨hrow, hin⟩ := rowAt_band (k := m) hband
  intro column hcolumn
  have hbits : c.bits (c.rowAt m band) column = F (c.rowAt m band) column := hread band hband column hcolumn
  refine ⟨hbits, ?_⟩
  rcases hright band hband _ (div_tile_lt hcolumn) with htile | hsame
  · rw [← hin] at htile
    exact diff_read hrow hcolumn htile
  · exact hsteady.prev _ _ hbits (hsame column hcolumn rfl)

/-! ## The reads of a capture -/

theorem blt_steady (c : VncCapture) (now x y width height : ℕ) : Steady F c (c.blt now F x y width height) where
  width := rfl
  height := rfl
  bits := by
    intro row column h
    unfold VncCapture.blt
    dsimp only
    split
    · rfl
    · exact h
  prev := fun _ _ _ h => h

theorem blt_bits (c : VncCapture) (now : ℕ) {x y width height row column : ℕ} (h : InRect row column (x, y, width, height)) :
    (c.blt now F x y width height).bits row column = F row column := by
  obtain ⟨hx, hxw, hy, hyh⟩ := h
  dsimp only at hx hxw hy hyh
  exact if_pos (decide_eq_true ⟨hy, hyh, hx, hxw⟩)

/-- The read of the whole screen. -/
theorem readAll_captured (hfound : Found F n c.sampleStep c) (now : ℕ) : Captured F n (c.readAll now F) := by
  have hsteady : Steady F c (c.readAll now F) := ⟨rfl, rfl, (blt_steady c now 0 0 c.width c.height).bits, fun _ _ _ h => h⟩
  refine Or.inl ⟨fun band hband tile htile => ⟨?_, fun row hrow column hcolumn _ _ => ?_⟩, hsteady.found hfound⟩
  · unfold VncCapture.readAll
    dsimp only
    rw [decide_eq_true ⟨hband, htile⟩, Bool.or_true]
  · refine blt_bits c now ⟨Nat.zero_le _, ?_, Nat.zero_le _, ?_⟩
    · rw [Nat.zero_add]
      exact hcolumn
    · rw [Nat.zero_add]
      exact hrow

/-- The read of one row. -/
theorem blt_rowsRead (c : VncCapture) (now : ℕ) {k band : ℕ} (h : RowsRead F k band c) :
    RowsRead F k (band + 1) (c.blt now F 0 (c.rowAt k band) c.width 1) := by
  have hsteady := blt_steady (F := F) c now 0 (c.rowAt k band) c.width 1
  intro b hb
  rw [hsteady.rowAt]
  rcases Nat.lt_succ_iff_lt_or_eq.1 hb with hlt | rfl
  · exact hsteady.read (h b hlt)
  · intro column hcolumn
    refine blt_bits c now ⟨Nat.zero_le _, ?_, le_rfl, Nat.lt_succ_self _⟩
    rw [Nat.zero_add]
    exact hcolumn

/-- The tile is in a run that is still to be read. -/
def TileLeft (left : List (ℕ × ℕ × ℕ)) (band tile : ℕ) : Prop := ∃ run, (band, run) ∈ left ∧ InRun tile run

/-- The read of a run of tiles. -/
theorem readRun_right {now band tile run : ℕ} {left : List (ℕ × ℕ × ℕ)}
    (h : ∀ b < vncTiles c.height, ∀ t < vncTiles c.width,
      TileRight F c k b t ∨ TileLeft ((band, tile, run) :: left) b t) :
    ∀ b < vncTiles c.height, ∀ t < vncTiles c.width,
      TileRight F (c.readRun now F band tile run) k b t ∨ TileLeft left b t := by
  intro b hb t ht
  rcases h b hb t ht with (⟨hmask, hbits⟩ | hsame) | ⟨r, hr, hin⟩
  · refine Or.inl (Or.inl ⟨?_, fun row hrow column hcolumn hrb hct => ?_⟩)
    · unfold VncCapture.readRun
      dsimp only
      rw [hmask, Bool.true_or]
    · exact (blt_steady c now _ _ _ _).bits _ _ (hbits row hrow column hcolumn hrb hct)
  · exact Or.inl (Or.inr hsame)
  rcases List.mem_cons.1 hr with heq | hr
  · obtain ⟨rfl, rfl⟩ := Prod.mk.inj heq
    refine Or.inl (Or.inl ⟨?_, fun row hrow column hcolumn hrb hct => ?_⟩)
    · unfold VncCapture.readRun
      dsimp only
      rw [decide_eq_true ⟨rfl, hin.1, hin.2⟩, Bool.or_true]
    · obtain ⟨hfirst, hlast⟩ := hin
      refine blt_bits c now ((inRect_runRect hrow hcolumn hb).2 ⟨hrb, ?_, ?_⟩)
      · exact hct ▸ hfirst
      · exact hct ▸ hlast
  · exact Or.inr ⟨r, hr, hin⟩

theorem readRun_steady (c : VncCapture) (now band tile run : ℕ) : Steady F c (c.readRun now F band tile run) :=
  ⟨rfl, rfl, (blt_steady c now _ _ _ _).bits, fun _ _ _ h => h⟩

/-! ## Which tiles are read -/

/-- What `vnc_suspect_rect` leaves: more tiles to read, and all else as it was. -/
structure Widened (c c' : VncCapture) : Prop where
  width : c'.width = c.width
  height : c'.height = c.height
  bits : c'.bits = c.bits
  prev : c'.prev = c.prev
  step : c'.sampleStep = c.sampleStep
  suspect : ∀ band tile, c.suspect band tile = true → c'.suspect band tile = true

theorem Widened.trans {c'' : VncCapture} (h : Widened c c') (h' : Widened c' c'') : Widened c c'' where
  width := h'.width.trans h.width
  height := h'.height.trans h.height
  bits := h'.bits.trans h.bits
  prev := h'.prev.trans h.prev
  step := h'.step.trans h.step
  suspect := fun band tile hc => h'.suspect band tile (h.suspect band tile hc)

theorem suspectRect_widened (c : VncCapture) (area : VncRect) : Widened c (c.suspectRect area) := by
  unfold VncCapture.suspectRect
  dsimp only
  split
  · exact ⟨rfl, rfl, rfl, rfl, rfl, fun _ _ h => h⟩
  · refine ⟨rfl, rfl, rfl, rfl, rfl, fun band tile h => ?_⟩
    dsimp only
    rw [h, Bool.true_or]

theorem suspectCursor_widened (c : VncCapture) (position : Option (ℤ × ℤ)) : Widened c (c.suspectCursor position) := by
  have hnow : ∀ (d : VncCapture) (x y : ℤ), Widened d
      ({ d with cursorArea := some (VncCapture.cursorRect x y) }.suspectRect (VncCapture.cursorRect x y)) := by
    intro d x y
    have hnoted : Widened d { d with cursorArea := some (VncCapture.cursorRect x y) } :=
      ⟨rfl, rfl, rfl, rfl, rfl, fun _ _ h => h⟩
    exact hnoted.trans (suspectRect_widened _ _)
  unfold VncCapture.suspectCursor
  -- where the cursor was drawn before, and where it stands now
  cases c.cursorArea with
  | none =>
    cases position with
    | none => exact ⟨rfl, rfl, rfl, rfl, rfl, fun _ _ h => h⟩
    | some p => exact hnow c p.1 p.2
  | some area =>
    have hbefore := suspectRect_widened c area
    cases position with
    | none => exact hbefore
    | some p => exact hbefore.trans (hnow _ p.1 p.2)

theorem Widened.steady (h : Widened c c') : Steady F c c' where
  width := h.width
  height := h.height
  bits := fun row column hbits => by rwa [h.bits]
  prev := fun row column _ hprev => by rwa [h.prev]

/-- A suspect tile is in one of the runs. -/
theorem suspectRuns_left {band tile : ℕ} (hband : band < vncTiles c.height) (htile : tile < vncTiles c.width)
    (h : c.suspect band tile = true) : TileLeft c.suspectRuns band tile := by
  obtain ⟨run, hrun, hin⟩ := (mem_runs_iff (f := c.suspect band)).2 ⟨htile, h⟩
  refine ⟨run, ?_, hin⟩
  exact List.mem_flatMap.2 ⟨band, List.mem_range.2 hband, List.mem_map.2 ⟨run, hrun, rfl⟩⟩

/-- **What is not read need not be**: outside the runs the sampled rows are the viewer's. -/
theorem suspectRuns_right (hread : RowsRead F k (vncTiles c.height) c)
    (hwide : Widened { c with suspect := c.sampled (VncCapture.vncSampleOrder.getD (k % 16) 0) } c') :
    ∀ band < vncTiles c'.height, ∀ tile < vncTiles c'.width,
      TileRight F c' k band tile ∨ TileLeft c'.suspectRuns band tile := by
  intro band hband tile htile
  cases hsampled : c.sampled (VncCapture.vncSampleOrder.getD (k % 16) 0) band tile with
  | true => exact Or.inr (suspectRuns_left hband htile (hwide.suspect band tile hsampled))
  | false =>
    have hsteady : Steady F c c' := ⟨hwide.width, hwide.height, hwide.steady.bits, hwide.steady.prev⟩
    refine Or.inl (Or.inr fun column hcolumn hin => ?_)
    rw [hwide.width] at hcolumn
    rw [hwide.height] at hband
    rw [hsteady.rowAt, hwide.prev]
    exact (sampled_same hsampled hcolumn hin).symm.trans (hread band hband column hcolumn)

/-! ## Steps -/

/-- The screen shows `F` all the time and no cursor is drawn over it, no capture fails, each
is compared, and the foreground window is where it was at the last comparison. -/
def VncSteady (F : Frame) (s : VncState) : VncAct → Prop
  | .begin _ sameSize dc => sameSize = true ∧ dc = true
  | .blt screen ok => screen = F ∧ ok = true
  | .cursor _ drawn => s.richCursor = true ∨ drawn = s.capture.bits
  | .take _ => s.worker = .done 1 ∧ s.updateWanted = true ∧
      ∀ window now was, s.foreground = some (window, now) → s.lastForeground = some (window, was) → now = was
  | _ => True

/-- Whether a capture has begun, behind an action. -/
def VncAct.begun (begun : Bool) : VncAct → Bool
  | .begin _ _ _ => true
  | .take _ => false
  | _ => begun

/-- It ends a capture that had begun. -/
def VncAct.compares (begun : Bool) : VncAct → ℕ
  | .take _ => if begun then 1 else 0
  | _ => 0

/-- How many captures were begun and compared. -/
def captures : Bool → List VncAct → ℕ
  | _, [] => 0
  | begun, act :: rest => act.compares begun + captures (act.begun begun) rest

/-- Where a capture is that began behind `n` others. -/
def Underway (F : Frame) (n : ℕ) (c : VncCapture) : VncWorker → Prop
  | .full => Found F n c.sampleStep c
  | .sampling phase band => ∃ k, c.sampleStep = k + 1 ∧ phase = VncCapture.vncSampleOrder.getD (k % 16) 0 ∧
      Found F n k c ∧ RowsRead F k band c
  | .comparing phase => ∃ k, c.sampleStep = k + 1 ∧ phase = VncCapture.vncSampleOrder.getD (k % 16) 0 ∧
      Found F n k c ∧ RowsRead F k (vncTiles c.height) c
  | .reading left => ∃ k, c.sampleStep = k + 1 ∧ Found F n k c ∧ RowsRead F k (vncTiles c.height) c ∧
      ∀ band < vncTiles c.height, ∀ tile < vncTiles c.width, TileRight F c k band tile ∨ TileLeft left band tile
  | .cursor | .returning _ | .done _ => Captured F n c
  | .idle | .queued => False

/-- Behind `n` captures, in one or between two. A capture that had begun before is not counted. -/
def SampleInv (F : Frame) (n : ℕ) (begun : Bool) (s : VncState) : Prop :=
  if begun then Underway F n s.capture s.worker
  else Found F n s.capture.sampleStep s.capture ∧ (n = 0 ∨ s.worker = .idle ∨ s.worker = .queued)

variable {s t : VncState} {begun : Bool}

theorem sampleInv_zero (F : Frame) (s : VncState) : SampleInv F 0 false s := ⟨found_zero F _ _, Or.inl rfl⟩

/-- A step that leaves the capture and the worker alone. -/
theorem SampleInv.same (h : SampleInv F n begun s) (hcapture : t.capture = s.capture) (hworker : t.worker = s.worker) :
    SampleInv F n begun t := by
  unfold SampleInv at h ⊢
  rwa [hcapture, hworker]

/-- A window that stays where it is makes no copy. -/
theorem findCopy_same (c : VncCapture) (rect : VncRect) : c.findCopy rect rect = none := by
  unfold VncCapture.findCopy
  dsimp only
  rw [if_neg]
  rintro ⟨-, -, hmoved, -⟩
  rcases hmoved with h | h <;> exact h rfl

theorem detectMove_unmoved
    (hunmoved : ∀ window now was, s.foreground = some (window, now) → s.lastForeground = some (window, was) → now = was) :
    s.detectMove.capture = s.capture := by
  unfold VncState.detectMove
  cases hnow : s.foreground with
  | none => rfl
  | some foreground =>
    cases hwas : s.lastForeground with
    | none => rfl
    | some last =>
      obtain ⟨window, now⟩ := foreground
      obtain ⟨lastWindow, was⟩ := last
      dsimp only
      by_cases hsame : window = lastWindow
      · subst hsame
        obtain rfl := hunmoved window now was hnow hwas
        rw [findCopy_same, ite_self]
      · rw [if_neg fun h => hsame (of_decide_eq_true (Bool.and_eq_true _ _ ▸ h).2)]

/-- A finished capture is compared as it is. -/
theorem take_unmoved (hwanted : s.updateWanted = true)
    (hunmoved : ∀ window now was, s.foreground = some (window, now) → s.lastForeground = some (window, was) → now = was)
    (size : Option (ℕ × ℕ)) :
    (s.take 1 size).capture = s.capture.diff s.fullWanted ∧ (s.take 1 size).worker = .idle := by
  have hcompared : ({ s with worker := .idle } : VncState).compared.capture = s.capture.diff s.fullWanted := by
    unfold VncState.compared
    dsimp only
    rw [(posChecked_same _).2.2.2.2.1]
    split
    · rfl
    · exact congrArg (fun c => c.diff s.fullWanted) (detectMove_unmoved (s := { s with worker := .idle }) hunmoved)
  have hidle : ({ s with worker := .idle } : VncState).compared.worker = .idle := (compared_same _).2.2.2.2
  unfold VncState.take
  dsimp only
  rw [if_neg (by decide), if_neg (by rw [hwanted]; decide)]
  unfold VncState.takeFrame
  split
  · exact ⟨hcompared, hidle⟩
  · exact ⟨hcompared, hidle⟩

theorem sampleInv_take (h : Captured F n s.capture) (hwanted : s.updateWanted = true)
    (hunmoved : ∀ window now was, s.foreground = some (window, now) → s.lastForeground = some (window, was) → now = was)
    (size : Option (ℕ × ℕ)) : SampleInv F (n + 1) false (s.take 1 size) := by
  obtain ⟨hcapture, hworker⟩ := take_unmoved hwanted hunmoved size
  refine ⟨?_, Or.inr (Or.inl hworker)⟩
  rw [hcapture]
  exact h.diff _

theorem underway_begin (h : Found F n s.capture.sampleStep s.capture) (switched : Bool) :
    SampleInv F n true (s.begin switched true true) := by
  have hkept : Found F n s.capture.sampleStep
        (if switched then { s.capture with captureFull := true } else s.capture) ∧
      (if switched then { s.capture with captureFull := true } else s.capture).sampleStep = s.capture.sampleStep := by
    split
    · exact ⟨h, rfl⟩
    · exact ⟨h, rfl⟩
  unfold VncState.begin
  dsimp only
  generalize (if switched then { s.capture with captureFull := true } else s.capture) = c at hkept ⊢
  obtain ⟨hfound, hstep⟩ := hkept
  rw [← hstep] at hfound
  rw [if_neg (by decide), if_neg (by decide)]
  split
  · exact hfound
  · exact ⟨c.sampleStep, rfl, rfl, hfound, fun band hband => absurd hband (Nat.not_lt_zero band)⟩

theorem underway_blt (h : Underway F n s.capture s.worker) (ht : s.bltStep F true = some t) : SampleInv F n true t := by
  unfold VncState.bltStep at ht
  split at ht
  · rename_i hworker
    rw [hworker] at h
    obtain rfl := Option.some.inj ht
    exact readAll_captured h s.clock
  · rename_i phase band hworker
    rw [hworker] at h
    obtain rfl := Option.some.inj ht
    obtain ⟨k, hstep, rfl, hfound, hread⟩ := h
    have hfound := (blt_steady s.capture s.clock 0 (s.capture.rowAt k band) s.capture.width 1).found hfound
    have hread := blt_rowsRead s.capture s.clock hread
    unfold SampleInv
    dsimp only
    rw [if_pos rfl]
    split
    · exact ⟨k, hstep, rfl, hfound, hread⟩
    · refine ⟨k, hstep, rfl, hfound, fun b hb => hread b ?_⟩
      have hb : b < vncTiles s.capture.height := hb
      omega
  · rename_i band tile run left hworker
    rw [hworker] at h
    obtain rfl := Option.some.inj ht
    obtain ⟨k, hstep, hfound, hread, hright⟩ := h
    have hsteady := readRun_steady (F := F) s.capture s.clock band tile run
    refine ⟨k, hstep, hsteady.found hfound, fun b hb => ?_, readRun_right hright⟩
    rw [hsteady.rowAt]
    exact hsteady.read (hread b hb)
  · cases ht

theorem underway_compare {phase : ℕ} (h : Underway F n s.capture (.comparing phase)) (position : Option (ℤ × ℤ)) :
    SampleInv F n true (s.compareStep phase position) := by
  obtain ⟨k, hstep, rfl, hfound, hread⟩ := h
  unfold VncState.compareStep
  have hwide : Widened { s.capture with suspect := s.capture.sampled (VncCapture.vncSampleOrder.getD (k % 16) 0) }
      (if s.richCursor then { s.capture with suspect := s.capture.sampled (VncCapture.vncSampleOrder.getD (k % 16) 0) }
        else { s.capture with suspect := s.capture.sampled (VncCapture.vncSampleOrder.getD (k % 16) 0) }.suspectCursor
          (if s.hasCursorInfo then position else none)) := by
    split
    · exact ⟨rfl, rfl, rfl, rfl, rfl, fun _ _ h => h⟩
    · exact suspectCursor_widened _ _
  dsimp only
  generalize (if s.richCursor then
      { s.capture with suspect := s.capture.sampled (VncCapture.vncSampleOrder.getD (k % 16) 0) }
    else { s.capture with suspect := s.capture.sampled (VncCapture.vncSampleOrder.getD (k % 16) 0) }.suspectCursor
      (if s.hasCursorInfo then position else none)) = c at hwide ⊢
  have hsteady : Steady F s.capture c := ⟨hwide.width, hwide.height, hwide.steady.bits, hwide.steady.prev⟩
  refine ⟨k, hwide.step.trans hstep, hsteady.found hfound, fun band hband => ?_, suspectRuns_right hread hwide⟩
  rw [hsteady.height] at hband
  rw [hsteady.rowAt]
  exact hsteady.read (hread band hband)

/-- Grabbing the cursor, or drawing none, leaves the frames as they are. -/
theorem cursorStep_undrawn (grab : Option ((ℤ × ℤ) × Bool × VncCursor)) {drawn : Frame}
    (hdrawn : s.richCursor = true ∨ drawn = s.capture.bits) (h : Captured F n s.capture) :
    Captured F n (s.cursorStep grab drawn).capture := by
  unfold VncState.cursorStep
  dsimp only
  split
  · unfold VncState.grabCursor
    split
    · exact h
    split
    · exact h
    · dsimp only
      split <;> exact h
  · rename_i hplain
    obtain rfl := hdrawn.resolve_left hplain
    exact h

/-- The last read is over: every tile is right. -/
theorem captured_of_reading (h : Underway F n c (.reading [])) : Captured F n c := by
  obtain ⟨k, hstep, hfound, hread, hright⟩ := h
  refine Or.inr ⟨k, hstep, hfound, hread, fun band hband tile htile => ?_⟩
  refine (hright band hband tile htile).resolve_right ?_
  rintro ⟨run, hrun, -⟩
  cases hrun

theorem sampleInv_cursor (h : Captured F n s.capture) (grab : Option ((ℤ × ℤ) × Bool × VncCursor)) {drawn : Frame}
    (hdrawn : s.richCursor = true ∨ drawn = s.capture.bits) : SampleInv F n true (s.cursorStep grab drawn) := by
  have hworker : (s.cursorStep grab drawn).worker = .returning 1 := rfl
  unfold SampleInv
  rw [if_pos rfl, hworker]
  exact cursorStep_undrawn grab hdrawn h

/-- **One step inside a capture.** -/
theorem underway_step (h : Underway F n s.capture s.worker) {act : VncAct} (hsteady : VncSteady F s act)
    (ht : vncAct s act = some t) : SampleInv F (n + act.compares true) (act.begun true) t := by
  cases act with
  | message message =>
    obtain rfl := Option.some.inj ht
    have heffect := message_effect s message
    exact SampleInv.same (s := s) h heffect.capture heffect.worker
  | start =>
    simp only [vncAct] at ht
    split at ht
    · rename_i hidle
      rw [hidle.1] at h
      cases h
    · cases ht
  | take size =>
    obtain ⟨hworker, hwanted, hunmoved⟩ := hsteady
    rw [hworker] at h
    simp only [vncAct, hworker] at ht
    obtain rfl := Option.some.inj ht
    exact sampleInv_take h hwanted hunmoved size
  | fail =>
    obtain rfl := Option.some.inj ht
    exact h
  | begin switched sameSize dc =>
    simp only [vncAct] at ht
    split at ht
    · rename_i hqueued
      rw [hqueued] at h
      cases h
    · cases ht
  | blt screen ok =>
    obtain ⟨rfl, rfl⟩ := hsteady
    exact underway_blt h ht
  | compare position =>
    simp only [vncAct] at ht
    split at ht
    · rename_i phase hworker
      rw [hworker] at h
      obtain rfl := Option.some.inj ht
      exact underway_compare h position
    · cases ht
  | cursor grab drawn =>
    simp only [vncAct] at ht
    split at ht
    · rename_i hworker
      rw [hworker] at h
      obtain rfl := Option.some.inj ht
      exact sampleInv_cursor h grab hsteady
    · rename_i hworker
      rw [hworker] at h
      obtain rfl := Option.some.inj ht
      exact sampleInv_cursor (captured_of_reading h) grab hsteady
    · cases ht
  | finish foreground =>
    simp only [vncAct] at ht
    split at ht
    · rename_i result hworker
      rw [hworker] at h
      obtain rfl := Option.some.inj ht
      exact h
    · cases ht

/-- **One step between two captures**, or in one that is not counted. -/
theorem between_step (h : SampleInv F n false s) {act : VncAct} (hsteady : VncSteady F s act)
    (ht : vncAct s act = some t) : SampleInv F (n + act.compares false) (act.begun false) t := by
  obtain ⟨hfound, hwhere⟩ := h
  -- the worker is at rest, or nothing is counted yet
  have hrest : s.worker ≠ .idle → s.worker ≠ .queued → SampleInv F n false t := by
    intro hidle hqueued
    obtain rfl := hwhere.resolve_right fun h => h.elim hidle hqueued
    exact sampleInv_zero F t
  cases act with
  | message message =>
    obtain rfl := Option.some.inj ht
    have heffect := message_effect s message
    exact SampleInv.same (s := s) ⟨hfound, hwhere⟩ heffect.capture heffect.worker
  | start =>
    simp only [vncAct] at ht
    split at ht
    · obtain rfl := Option.some.inj ht
      refine ⟨?_, Or.inr (Or.inr rfl)⟩
      unfold VncState.startCapture
      dsimp only
      split <;> exact hfound
    · cases ht
  | take size =>
    have hworker : s.worker = .done 1 := hsteady.1
    refine hrest ?_ ?_
    · intro hidle
      rw [hworker] at hidle
      cases hidle
    · intro hqueued
      rw [hworker] at hqueued
      cases hqueued
  | fail =>
    obtain rfl := Option.some.inj ht
    exact ⟨hfound, hwhere⟩
  | begin switched sameSize dc =>
    obtain ⟨rfl, rfl⟩ := hsteady
    simp only [vncAct] at ht
    split at ht
    · obtain rfl := Option.some.inj ht
      exact underway_begin hfound switched
    · cases ht
  | blt screen ok =>
    simp only [vncAct, VncState.bltStep] at ht
    refine hrest ?_ ?_ <;> intro hworker <;> simp [hworker] at ht
  | compare position =>
    simp only [vncAct] at ht
    refine hrest ?_ ?_ <;> intro hworker <;> simp [hworker] at ht
  | cursor grab drawn =>
    simp only [vncAct] at ht
    refine hrest ?_ ?_ <;> intro hworker <;> simp [hworker] at ht
  | finish foreground =>
    simp only [vncAct] at ht
    refine hrest ?_ ?_ <;> intro hworker <;> simp [hworker] at ht

theorem sampleInv_step (h : SampleInv F n begun s) {act : VncAct} (hsteady : VncSteady F s act)
    (hstep : vncStep s act = some t) : SampleInv F (n + act.compares begun) (act.begun begun) t := by
  unfold vncStep at hstep
  split at hstep
  · cases hstep
  obtain ⟨u, hu, rfl⟩ := Option.map_eq_some_iff.1 hstep
  cases begun with
  | true => exact SampleInv.same (s := u) (underway_step h hsteady hu) rfl rfl
  | false => exact SampleInv.same (s := u) (between_step h hsteady hu) rfl rfl

/-- **A run** counts the captures it began and compared. -/
theorem sampleInv_run {as : List VncAct} (h : SampleInv F n begun s) (hsteady : Trace.Under vncStep (VncSteady F) s as)
    (hrun : exec vncStep s as = some t) : ∃ begun', SampleInv F (n + captures begun as) begun' t := by
  induction as generalizing s n begun with
  | nil =>
    obtain rfl := Option.some.inj hrun
    exact ⟨begun, h⟩
  | cons act rest ih =>
    obtain ⟨m, hm, hrest⟩ := Option.bind_eq_some_iff.1 ((exec_cons s act rest).symm.trans hrun)
    obtain ⟨begun', hend⟩ := ih (sampleInv_step h hsteady.head hm) (hsteady.tail hm) hrest
    refine ⟨begun', ?_⟩
    rwa [Nat.add_assoc] at hend

/-- What is found so far, wherever the worker is. -/
theorem SampleInv.found (h : SampleInv F n begun s) : ∃ k, Found F n k s.capture := by
  cases begun with
  | false => exact ⟨_, h.1⟩
  | true =>
    have h : Underway F n s.capture s.worker := h
    cases hworker : s.worker with
    | idle => rw [hworker] at h; cases h
    | queued => rw [hworker] at h; cases h
    | full => rw [hworker] at h; exact ⟨_, h⟩
    | sampling phase band =>
      rw [hworker] at h
      obtain ⟨k, -, -, hfound, -⟩ := h
      exact ⟨k, hfound⟩
    | comparing phase =>
      rw [hworker] at h
      obtain ⟨k, -, -, hfound, -⟩ := h
      exact ⟨k, hfound⟩
    | reading left =>
      rw [hworker] at h
      obtain ⟨k, -, hfound, -⟩ := h
      exact ⟨k, hfound⟩
    | cursor => rw [hworker] at h; exact Captured.found h
    | returning result => rw [hworker] at h; exact Captured.found h
    | done result => rw [hworker] at h; exact Captured.found h

/-- **Sixteen captures converge.** From any state, while the screen stays as it is, the frame
the viewer has is the screen's once sixteen captures have begun and been compared. -/
theorem sampled_converges {as : List VncAct} (hsteady : Trace.Under vncStep (VncSteady F) s as)
    (hrun : exec vncStep s as = some t) (hcaptures : 16 ≤ captures false as) :
    ∀ row < t.capture.height, ∀ column < t.capture.width, t.capture.prev row column = F row column := by
  obtain ⟨begun, hend⟩ := sampleInv_run (sampleInv_zero F s) hsteady hrun
  obtain ⟨k, hfound⟩ := hend.found
  intro row hrow column hcolumn
  exact (hfound.all (by omega) row hrow column hcolumn).2

/-! ## A row that is found last -/

/-- A blank screen. -/
def blankScreen : Frame := fun _ _ => 0

/-- The viewer has a wrong pixel in the row that the sixteenth capture reads. -/
def staleRow : VncState :=
  { vncNoSession with
    capture :=
      { vncNoSession.capture with
        width := 1
        height := 16
        prev := fun row _ => if row = 15 then 1 else 0 }
    richCursor := true }

/-- A capture that reads one row, and the tile where `found`. -/
def sampledRound (found : Bool) : List VncAct :=
  [.message (.updateRequest true), .start, .begin false true true, .blt blankScreen true, .compare none] ++
    (if found then [.blt blankScreen true] else []) ++ [.cursor none blankScreen, .finish none, .take none]

def sixteenRounds : List VncAct := (List.replicate 15 (sampledRound false)).flatten ++ sampledRound true

/-- What is left of `VncSteady` where the screen is known to be blank. -/
def SteadyRound (s : VncState) : VncAct → Prop
  | .begin _ sameSize dc => sameSize = true ∧ dc = true
  | .blt _ ok => ok = true
  | .cursor _ _ => s.richCursor = true
  | .take _ => s.worker = .done 1 ∧ s.updateWanted = true ∧ s.foreground = none
  | _ => True

instance (s : VncState) : (act : VncAct) → Decidable (SteadyRound s act)
  | .begin _ sameSize dc => inferInstanceAs (Decidable (sameSize = true ∧ dc = true))
  | .blt _ ok => inferInstanceAs (Decidable (ok = true))
  | .cursor _ _ => inferInstanceAs (Decidable (s.richCursor = true))
  | .take _ => inferInstanceAs (Decidable (s.worker = .done 1 ∧ s.updateWanted = true ∧ s.foreground = none))
  | .message _ | .start | .fail | .compare _ | .finish _ => isTrue trivial

theorem sixteenRounds_blank {screen : Frame} {ok : Bool} (h : .blt screen ok ∈ sixteenRounds) : screen = blankScreen := by
  have hround : ∀ found, .blt screen ok ∈ sampledRound found → screen = blankScreen := by
    intro found h
    cases found <;> simp [sampledRound] at h <;> exact h.1
  rcases List.mem_append.1 h with h | h
  · obtain ⟨round, hmem, h⟩ := List.mem_flatten.1 h
    rw [List.eq_of_mem_replicate hmem] at h
    exact hround _ h
  · exact hround _ h

theorem sampled_converges_demo : staleRow.capture.prev 15 0 = 1 ∧
    ∃ t, exec vncStep staleRow sixteenRounds = some t ∧ ∀ row < 16, ∀ column < 1, t.capture.prev row column = 0 := by
  have hrun : (exec vncStep staleRow sixteenRounds).map (fun t => (t.capture.height, t.capture.width)) = some (16, 1) := by
    decide +kernel
  obtain ⟨t, ht, hsize⟩ := Option.map_eq_some_iff.1 hrun
  obtain ⟨hheight, hwidth⟩ := Prod.mk.inj hsize
  have hround : Trace.Under vncStep SteadyRound staleRow sixteenRounds := by decide +kernel
  have hsteady : Trace.Under vncStep (VncSteady blankScreen) staleRow sixteenRounds := by
    intro n hn m hm
    have h := hround n hn m hm
    have hmem := List.getElem_mem hn
    generalize sixteenRounds[n] = act at h hmem ⊢
    cases act with
    | begin switched sameSize dc => exact h
    | blt screen ok => exact ⟨sixteenRounds_blank hmem, h⟩
    | cursor grab drawn => exact Or.inl h
    | take size =>
      obtain ⟨hworker, hwanted, hnone⟩ := h
      refine ⟨hworker, hwanted, fun window now was hnow _ => ?_⟩
      rw [hnone] at hnow
      cases hnow
    | message _ | start | fail | compare _ | finish _ => exact trivial
  have hall := sampled_converges hsteady ht (by decide +kernel)
  rw [hheight, hwidth] at hall
  exact ⟨rfl, t, ht, hall⟩

end V9xRemote
