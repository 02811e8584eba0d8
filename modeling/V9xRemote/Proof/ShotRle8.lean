import V9xRemote.Lib.Segments
import V9xRemote.Spec.Shotxf
import V9xRemote.Proof.Rle8

/-!
# The RLE8 encoder

The encoder writes one stream of pieces behind another. Each piece is at most two bytes for
each of its pixels, so the encoder has room in twice the pixels and the marks; where it has
no room it stops, and what it wrote is inside its capacity.
-/

namespace V9xRemote

open Bytes Checked Segments

section

variable {ε : Type} {s : ShotBuffers} {i : ℕ} {b : UInt8} {R : ε → ShotBuffers → Prop}

/-! ## Accesses -/

@[simp]
theorem post_shotU32 {n : ℕ} {Q : ℕ → ShotBuffers → Prop} : Post (shotU32 n) s Q R ↔ n < 2 ^ 32 ∧ Q n s := by
  simp only [shotU32, post_bind, post_check, post_pure]

@[simp]
theorem post_shotSub {a c : ℕ} {Q : ℕ → ShotBuffers → Prop} : Post (shotSub a c) s Q R ↔ c ≤ a ∧ Q (a - c) s := by
  simp only [shotSub, post_bind, post_check, post_pure]

@[simp]
theorem post_readSource {source : Bytes} {Q : UInt8 → ShotBuffers → Prop} :
    Post (readSource source i) s Q R ↔ i < source.length ∧ Q (source.at' i) s := by
  simp only [readSource, post_bind, post_check, post_pure]

@[simp]
theorem post_readShot {Q : UInt8 → ShotBuffers → Prop} :
    Post (readShot i) s Q R ↔ i < s.output.length ∧ Q (s.output.at' i) s := by
  simp only [readShot, post_bind, post_get, post_check, post_pure]

@[simp]
theorem post_putShot {Q : Unit → ShotBuffers → Prop} :
    Post (putShot i b) s Q R ↔ i < s.output.length ∧ Q () { s with output := s.output.set i b } := by
  simp only [putShot, post_bind, post_get, post_check, post_modify]

@[simp]
theorem post_readWork {Q : UInt8 → ShotBuffers → Prop} :
    Post (readWork i) s Q R ↔ i < s.work.length ∧ Q (s.work.at' i) s := by
  simp only [readWork, post_bind, post_get, post_check, post_pure]

@[simp]
theorem post_putWork {Q : Unit → ShotBuffers → Prop} :
    Post (putWork i b) s Q R ↔ i < s.work.length ∧ Q () { s with work := s.work.set i b } := by
  simp only [putWork, post_bind, post_get, post_check, post_modify]

end

/-! ## Scanning -/

section

variable {ε : Type} {output work : Bytes} {row width i : ℕ} {R : ε → ShotBuffers → Prop}

/-- The index at a column of the row at `row`. -/
def columnAt (work : Bytes) (row i : ℕ) : UInt8 := work.at' (row + i)

/-- A run at `i`, the longest of at most 255. -/
structure RunAt (work : Bytes) (row width i run : ℕ) : Prop where
  pos : 1 ≤ run
  max : run ≤ 255
  inside : i + run ≤ width
  same : ∀ k < run, columnAt work row (i + k) = columnAt work row i
  single : run = 1 → i + 1 < width → columnAt work row (i + 1) ≠ columnAt work row i

theorem post_rle8Run {s : ShotBuffers} (hs : s.work = work) (hwork : row + width ≤ work.length) (hi : i < width)
    (left run : ℕ) (hfuel : run + left = 256) (hpos : 1 ≤ run) (hmax : run ≤ 255) (hinside : i + run ≤ width)
    (hsame : ∀ k < run, columnAt work row (i + k) = columnAt work row i) :
    Post (rle8Run row width i left run) s (fun run s' => s' = s ∧ RunAt work row width i run) R := by
  induction left generalizing run with
  | zero => omega
  | succ left ih =>
    rw [rle8Run, post_ite]
    refine ⟨fun hgo => ?_, fun hstop => post_pure.2 ⟨rfl, hpos, hmax, hinside, hsame, fun _ _ => by omega⟩⟩
    simp only [post_bind, post_readWork, hs]
    refine ⟨by omega, by omega, ?_⟩
    rw [post_ite]
    refine ⟨fun heq => ih (run + 1) (by omega) (by omega) (by omega) (by omega) fun k hk => ?_, fun hne => ?_⟩
    · rcases Nat.eq_or_lt_of_le (Nat.le_of_lt_succ hk) with rfl | hk
      · exact heq
      · exact hsame k hk
    · refine post_pure.2 ⟨rfl, hpos, hmax, hinside, hsame, fun hone _ => ?_⟩
      subst hone
      exact hne

/-- Whether three equal columns follow each other. -/
theorem post_rle8Three {s : ShotBuffers} (hs : s.work = work) (hwork : row + width ≤ work.length) (j : ℕ) :
    Post (rle8Three row width j) s
      (fun three s' => s' = s ∧
        (three = true → j + 2 < width ∧ columnAt work row j = columnAt work row (j + 1))) R := by
  rw [rle8Three, post_ite]
  refine ⟨fun hin => ?_, fun _ => post_pure.2 ⟨rfl, fun h => absurd h Bool.false_ne_true⟩⟩
  simp only [post_bind, post_readWork, hs]
  refine ⟨by omega, by omega, ?_⟩
  rw [post_ite]
  refine ⟨fun heq => ?_, fun _ => post_pure.2 ⟨rfl, fun h => absurd h Bool.false_ne_true⟩⟩
  simp only [post_bind, post_readWork, post_pure, hs]
  exact ⟨by omega, trivial, fun _ => ⟨hin, heq⟩⟩

/-- **A stretch goes on**: where no run of three starts at `i`, it has a column at least. -/
theorem post_rle8Stretch {s : ShotBuffers} (hs : s.work = work) (hwork : row + width ≤ work.length) (hi : i < width)
    (hfirst : i + 2 < width → columnAt work row i ≠ columnAt work row (i + 1)) (left j : ℕ)
    (hfuel : j - i + left = 256) (hij : i ≤ j) (hjw : j ≤ width) (hmax : j - i ≤ 255) :
    Post (rle8Stretch row width i left j) s (fun j s' => s' = s ∧ i < j ∧ j ≤ width ∧ j - i ≤ 255) R := by
  induction left generalizing j with
  | zero => omega
  | succ left ih =>
    rw [rle8Stretch, post_ite]
    refine ⟨fun hgo => ?_, fun hstop => post_pure.2 ⟨rfl, by omega, hjw, hmax⟩⟩
    rw [post_bind]
    refine (post_rle8Three hs hwork j).imp ?_ fun _ _ h => h
    rintro three s' ⟨rfl, hthree⟩
    rw [post_ite]
    refine ⟨fun h => post_pure.2 ⟨rfl, ?_, hjw, hmax⟩, fun _ => ih (j + 1) (by omega) (by omega) (by omega) (by omega)⟩
    obtain ⟨hin, heq⟩ := hthree h
    rcases Nat.eq_or_lt_of_le hij with rfl | hlt
    · exact absurd heq (hfirst hin)
    · exact hlt

/-! ## Writing -/

/-- The buffers when the stream so far is `t`. -/
def encoded (output work : Bytes) (start : ℕ) (t : Bytes) : ShotBuffers := ⟨write output start t, work⟩

variable {start capacity : ℕ} {t : Bytes}

@[simp]
theorem encoded_work : (encoded output work start t).work = work := rfl

/-- **A byte is written** behind the stream, where there is room for it. -/
theorem post_putEncoded {b : UInt8} {used : ℕ} {Q : Unit → ShotBuffers → Prop} (hused : used = t.length)
    (houtput : start + capacity ≤ output.length) (hroom : used < capacity)
    (h : Q () (encoded output work start (t ++ [b]))) :
    Post (putEncoded start capacity used b) (encoded output work start t) Q R := by
  have hlength : (write output start t).length = output.length := write_length (by omega)
  rw [putEncoded, post_bind, post_check, post_putShot]
  refine ⟨hroom, ?_, ?_⟩
  · rw [encoded, hlength]
    omega
  · unfold encoded at h ⊢
    dsimp only
    rw [hused, set_write (by omega)]
    exact h

/-- The columns of a piece. -/
def columns (work : Bytes) (row i n : ℕ) : Bytes := (List.range n).map fun k => columnAt work row (i + k)

theorem columns_length (work : Bytes) (row i n : ℕ) : (columns work row i n).length = n := by
  rw [columns, List.length_map, List.length_range]

theorem columns_append (work : Bytes) (row i m n : ℕ) :
    columns work row i (m + n) = columns work row i m ++ columns work row (i + m) n := by
  unfold columns
  rw [List.range_add, List.map_append, List.map_map]
  congr 1
  apply List.map_congr_left
  intro k _
  simp only [Function.comp_apply, Nat.add_assoc]

/-- What the encoder made of the columns from `i` to `stop`: a stream of pieces, of two bytes for
each column at most. -/
structure LineOf (work : Bytes) (row i stop : ℕ) (line : List Rle8Piece) : Prop where
  le : i ≤ stop
  ok : ∀ piece ∈ line, piece.Ok
  pixels : rle8Pixels line = columns work row i (stop - i)
  even : (rle8Code line).length % 2 = 0
  short : (rle8Code line).length ≤ 2 * (stop - i)

theorem lineOf_nil : LineOf work row i i [] :=
  ⟨le_rfl, fun _ h => absurd h List.not_mem_nil, by rw [Nat.sub_self]; rfl, rfl, Nat.zero_le _⟩

theorem LineOf.append {j k : ℕ} {a b : List Rle8Piece} (ha : LineOf work row i j a) (hb : LineOf work row j k b) :
    LineOf work row i k (a ++ b) := by
  have hij := ha.le
  have hjk := hb.le
  have hcode : rle8Code (a ++ b) = rle8Code a ++ rle8Code b := List.flatMap_append
  have hshort := ha.short
  have hshort' := hb.short
  have heven := ha.even
  have heven' := hb.even
  refine ⟨by omega, fun piece hp => ?_, ?_, ?_, ?_⟩
  · rcases List.mem_append.1 hp with hp | hp
    · exact ha.ok piece hp
    · exact hb.ok piece hp
  · have hsplit : k - i = (j - i) + (k - j) := by omega
    have hnext : i + (j - i) = j := by omega
    have hpixels : rle8Pixels (a ++ b) = rle8Pixels a ++ rle8Pixels b := List.flatMap_append
    rw [hpixels, ha.pixels, hb.pixels, hsplit, columns_append, hnext]
  · rw [hcode, List.length_append]
    omega
  · rw [hcode, List.length_append]
    omega

theorem lineOf_run {run : ℕ} (hpos : 1 ≤ run) (hmax : run ≤ 255)
    (hsame : ∀ k < run, columnAt work row (i + k) = columnAt work row i) :
    LineOf work row i (i + run) [.run run (columnAt work row i)] := by
  have hcode : (rle8Code [.run run (columnAt work row i)]).length = 2 := rfl
  refine ⟨by omega, fun piece hp => ?_, ?_, by rw [hcode], by omega⟩
  · rw [List.mem_singleton.1 hp]
    exact ⟨hpos, hmax⟩
  · have hn : i + run - i = run := by omega
    have hpixels : rle8Pixels [.run run (columnAt work row i)] = List.replicate run (columnAt work row i) := by
      simp [rle8Pixels, Rle8Piece.pixels]
    rw [hpixels, hn, columns]
    symm
    rw [List.eq_replicate_iff]
    refine ⟨by simp, fun c hc => ?_⟩
    obtain ⟨k, hk, rfl⟩ := List.mem_map.1 hc
    exact hsame k (List.mem_range.1 hk)

theorem lineOf_single : LineOf work row i (i + 1) [.run 1 (columnAt work row i)] :=
  lineOf_run le_rfl (by omega) fun k hk => by rw [Nat.lt_one_iff.1 hk, Nat.add_zero]

theorem lineOf_literal {n : ℕ} (hmin : 3 ≤ n) (hmax : n ≤ 255) :
    LineOf work row i (i + n) [.literal (columns work row i n)] := by
  have hlength := columns_length work row i n
  have hcode : (rle8Code [.literal (columns work row i n)]).length = 2 + n + n % 2 := by
    simp only [rle8Code, List.flatMap_cons, List.flatMap_nil, List.append_nil, Rle8Piece.code, List.length_cons,
      List.length_append, List.length_replicate, hlength]
    omega
  refine ⟨by omega, fun piece hp => ?_, ?_, by omega, by omega⟩
  · rw [List.mem_singleton.1 hp]
    exact ⟨by omega, by omega⟩
  · have hn : i + n - i = n := by omega
    rw [hn]
    simp [rle8Pixels, Rle8Piece.pixels]

/-- The encoder stopped for want of room: less than two bytes for each of the columns it had to write. -/
def Stopped (output work : Bytes) (start capacity need : ℕ) (s : ShotBuffers) : Prop :=
  ∃ t : Bytes, s = encoded output work start t ∧ t.length ≤ capacity ∧ capacity < need

/-- How a part of the encoder ends that was to write the columns from `i` to `stop`. -/
def Encoded (output work : Bytes) (start capacity row i stop : ℕ) (t : Bytes) (used : ℕ) (s : ShotBuffers) : Prop :=
  ∃ line, LineOf work row i stop line ∧ s = encoded output work start (t ++ rle8Code line) ∧
    used = (t ++ rle8Code line).length ∧ used ≤ capacity

/-- Columns in a stretch that is too short for absolute mode. -/
theorem post_rle8Singles {used n : ℕ} (hused : used = t.length) (hwork : row + width ≤ work.length)
    (houtput : start + capacity ≤ output.length) (hfits : used ≤ capacity) (hn : i + n ≤ width) :
    Post ((List.range n).foldlM (fun used k => rle8Single start capacity row used (i + k)) used)
      (encoded output work start t) (Encoded output work start capacity row i (i + n) t)
      (fun _ => Stopped output work start capacity (t.length + 2 * n)) := by
  refine post_foldlM_range (I := fun k used s => Encoded output work start capacity row i (i + k) t used s) n ?_ ?_
  · rintro k hk used s ⟨line, hline, rfl, hlen, hle⟩
    have hshort := hline.short
    rw [rle8Single, post_ite]
    rw [List.length_append] at hlen
    refine ⟨fun hfull => post_stop.2 ⟨_, rfl, by rw [List.length_append]; omega, by omega⟩, fun hroom => ?_⟩
    rw [post_bind]
    refine post_putEncoded (by rw [hlen, List.length_append]) houtput (by omega) ?_
    rw [post_bind, post_readWork]
    refine ⟨by rw [encoded_work]; omega, ?_⟩
    rw [post_bind]
    refine post_putEncoded (by simp only [List.length_append, List.length_singleton]; omega) houtput (by omega) ?_
    refine post_pure.2 ⟨line ++ [.run 1 (columnAt work row (i + k))], hline.append lineOf_single, ?_, ?_, by omega⟩
    · simp [rle8Code, Rle8Piece.code, columnAt]
    · simp [rle8Code, Rle8Piece.code, hlen]
      omega
  · exact ⟨[], lineOf_nil, by simp [rle8Code], by simp [rle8Code, hused], hfits⟩

/-- The pieces written so far and those that follow. -/
theorem Encoded.trans {j : ℕ} {line : List Rle8Piece} {used : ℕ} {s : ShotBuffers} (hline : LineOf work row i j line)
    (h : Encoded output work start capacity row j width (t ++ rle8Code line) used s) :
    Encoded output work start capacity row i width t used s := by
  obtain ⟨rest, hrest, hs, hused, hle⟩ := h
  have hcode : rle8Code (line ++ rest) = rle8Code line ++ rle8Code rest := List.flatMap_append
  refine ⟨line ++ rest, hline.append hrest, ?_, ?_, hle⟩
  · rw [hs, hcode, List.append_assoc]
  · rw [hused, hcode, List.append_assoc]

theorem Stopped.mono {need need' : ℕ} {s : ShotBuffers} (h : Stopped output work start capacity need s)
    (hle : need ≤ need') : Stopped output work start capacity need' s := by
  obtain ⟨t, hs, hfits, hlt⟩ := h
  exact ⟨t, hs, hfits, by omega⟩

/-- The bytes of a literal. -/
theorem post_rle8Literal {n : ℕ} (hwork : row + width ≤ work.length) (houtput : start + capacity ≤ output.length)
    (hroom : t.length + n ≤ capacity) (hn : i + n ≤ width) {used : ℕ} (hused : used = t.length) :
    Post ((List.range n).foldlM
        (fun _ k => do
          let b ← readWork (row + (i + k))
          putEncoded start capacity (used + k) b) ())
      (encoded output work start t) (fun _ s => s = encoded output work start (t ++ columns work row i n)) R := by
  refine post_foldlM_range (I := fun k _ s => s = encoded output work start (t ++ columns work row i k)) n ?_ ?_
  · rintro k hk _ s rfl
    rw [post_bind, post_readWork]
    refine ⟨by rw [encoded_work]; omega, ?_⟩
    have hlength := columns_length work row i k
    refine post_putEncoded (by rw [List.length_append, hlength, hused]) houtput (by omega) ?_
    have hone : columns work row (i + k) 1 = [work.at' (row + (i + k))] := rfl
    rw [columns_append, hone, List.append_assoc]
    rfl
  · simp [columns]

/-- **A row is encoded**, from a column on. -/
theorem post_rle8Row (hwork : row + width ≤ work.length) (houtput : start + capacity ≤ output.length)
    (left i used : ℕ) (t : Bytes) (hused : used = t.length) (heven : used % 2 = 0) (hfits : used ≤ capacity)
    (hi : i ≤ width) (hfuel : width - i < left) :
    Post (rle8Row start capacity row width left i used) (encoded output work start t)
      (Encoded output work start capacity row i width t)
      (fun _ => Stopped output work start capacity (t.length + 2 * (width - i))) := by
  induction left generalizing i used t with
  | zero => omega
  | succ left ih =>
    rw [rle8Row, post_ite]
    refine ⟨fun hlt => ?_, fun hend => ?_⟩
    swap
    · obtain rfl : i = width := by omega
      exact post_pure.2 ⟨[], lineOf_nil, by simp [rle8Code], by simp [rle8Code, hused], hfits⟩
    -- a piece, and the row from behind it on
    have hgo : ∀ {j used' : ℕ} {line : List Rle8Piece}, LineOf work row i j line → i < j → j ≤ width →
        used' = (t ++ rle8Code line).length → used' ≤ capacity →
        Post (rle8Row start capacity row width left j used') (encoded output work start (t ++ rle8Code line))
          (Encoded output work start capacity row i width t)
          (fun _ => Stopped output work start capacity (t.length + 2 * (width - i))) := by
      intro j used' line hline hij hjw hused' hfits'
      have hcode := hline.even
      have hshort := hline.short
      have hlength : (t ++ rle8Code line).length = t.length + (rle8Code line).length := List.length_append
      refine (ih j used' _ hused' (by omega) hfits' hjw (by omega)).imp (fun _ _ h => Encoded.trans hline h) ?_
      exact fun _ _ h => h.mono (by omega)
    rw [post_bind]
    refine (post_rle8Run (encoded_work) hwork hlt 255 1 rfl le_rfl (by omega) (by omega) fun k hk => ?_).imp ?_
      fun _ _ h => h
    · rw [Nat.lt_one_iff.1 hk, Nat.add_zero]
    rintro run s' ⟨rfl, hrun⟩
    have hinside := hrun.inside
    rw [post_ite]
    refine ⟨fun hlong => ?_, fun hone => ?_⟩
    · rw [post_ite]
      refine ⟨fun hfull => post_stop.2 ⟨t, rfl, by omega, by omega⟩, fun hroom => ?_⟩
      rw [post_bind]
      refine post_putEncoded hused houtput (by omega) ?_
      rw [post_bind, post_readWork]
      refine ⟨by rw [encoded_work]; omega, ?_⟩
      rw [post_bind]
      refine post_putEncoded (by rw [List.length_append, hused]; rfl) houtput (by omega) ?_
      have hline := lineOf_run hrun.pos hrun.max hrun.same
      have hnext := @hgo _ (used + 2) _ hline (by omega) hinside (by rw [List.length_append, hused]; rfl) (by omega)
      rw [List.append_assoc]
      exact hnext
    · have hrun1 : run = 1 := by have := hrun.pos; omega
      rw [post_bind]
      refine (post_rle8Stretch (encoded_work) hwork hlt (fun hin => ?_) 256 i (by omega) le_rfl hi (by omega)).imp ?_
        fun _ _ h => h
      · exact (hrun.single hrun1 (by omega)).symm
      rintro j s' ⟨rfl, hij, hjw, hmax⟩
      have hcolumns : i + (j - i) = j := by omega
      rw [post_ite]
      refine ⟨fun hfew => ?_, fun hmany => ?_⟩
      · rw [post_bind]
        refine (post_rle8Singles hused hwork houtput hfits (by omega)).imp ?_ fun _ _ h => h.mono (by omega)
        rintro used' s' ⟨line, hline, rfl, hused', hfits'⟩
        rw [hcolumns] at hline
        exact hgo hline hij hjw hused' hfits'
      rw [post_ite]
      refine ⟨fun hfull => post_stop.2 ⟨t, rfl, by omega, by omega⟩, fun hroom => ?_⟩
      -- absolute mode: two bytes, the literal, and a byte more where its length is odd
      have hline := @lineOf_literal work row i (j - i) (by omega) hmax
      rw [hcolumns] at hline
      have hcode : rle8Code [.literal (columns work row i (j - i))] =
          [0] ++ [UInt8.ofNat (j - i)] ++ columns work row i (j - i) ++ List.replicate ((j - i) % 2) 0 := by
        simp [rle8Code, Rle8Piece.code, columns_length]
      have hlength := columns_length work row i (j - i)
      have htwo : (t ++ [0] ++ [UInt8.ofNat (j - i)]).length = used + 2 := by
        rw [List.length_append, List.length_append, hused]
        rfl
      rw [post_bind]
      refine post_putEncoded hused houtput (by omega) ?_
      rw [post_bind]
      refine post_putEncoded (by rw [List.length_append, hused]; rfl) houtput (by omega) ?_
      rw [post_bind]
      refine (post_rle8Literal hwork houtput (by rw [htwo]; omega) (by omega) htwo.symm).imp ?_ fun _ _ h => h
      rintro - s' rfl
      rw [post_ite]
      refine ⟨fun hodd => ?_, fun hpair => ?_⟩
      · have hone : (j - i) % 2 = 1 := by omega
        have hall : (t ++ [0] ++ [UInt8.ofNat (j - i)] ++ columns work row i (j - i)).length = used + 2 + (j - i) := by
          rw [List.length_append, htwo, hlength]
        rw [post_bind]
        refine post_putEncoded hall.symm houtput (by omega) ?_
        rw [hone, List.replicate_one] at hcode
        have hnext := @hgo _ (used + 2 + (j - i) + 1) _ hline hij hjw
          (by rw [hcode]; simp only [List.length_append, hlength, List.length_singleton]; omega) (by omega)
        rw [hcode] at hnext
        simp only [List.append_assoc] at hnext ⊢
        exact hnext
      · have hzero : (j - i) % 2 = 0 := by omega
        rw [hzero, List.replicate_zero, List.append_nil] at hcode
        have hnext := @hgo _ (used + 2 + (j - i)) _ hline hij hjw
          (by rw [hcode]; simp only [List.length_append, hlength, List.length_singleton]; omega) (by omega)
        rw [hcode] at hnext
        simp only [List.append_assoc] at hnext ⊢
        exact hnext

end

/-! ## The stream -/

section

variable {output work t : Bytes} {indices width height start capacity : ℕ}

theorem rle8Text_concat (y : ℕ) (lines : List (List Rle8Piece)) (line : List Rle8Piece) :
    rle8Text height y (lines ++ [line]) = rle8Text height y lines ++ (rle8Code line ++ rle8Mark height (y + lines.length)) := by
  induction lines generalizing y with
  | nil => simp [rle8Text]
  | cons first lines ih =>
    rw [List.cons_append, rle8Text, rle8Text, ih, List.length_cons]
    simp only [List.append_assoc, Nat.add_comm lines.length, Nat.add_assoc]

/-- The first rows of the image at `indices`. -/
def imageRows (work : Bytes) (indices width height : ℕ) : List Bytes :=
  (List.range height).map fun y => columns work (indices + y * width) 0 width

theorem imageRows_succ (y : ℕ) :
    imageRows work indices width (y + 1) = imageRows work indices width y ++ [columns work (indices + y * width) 0 width] := by
  rw [imageRows, List.range_succ, List.map_append]
  rfl

/-- The lines that are a stream of the image's first rows. -/
structure LinesOf (work : Bytes) (indices width height y : ℕ) (lines : List (List Rle8Piece)) : Prop where
  ok : ∀ line ∈ lines, ∀ piece ∈ line, piece.Ok
  rows : lines.map rle8Pixels = imageRows work indices width y
  even : (rle8Text height 0 lines).length % 2 = 0
  short : (rle8Text height 0 lines).length ≤ y * (2 * width + 2)

theorem LinesOf.length {y : ℕ} {lines : List (List Rle8Piece)} (h : LinesOf work indices width height y lines) :
    lines.length = y := by
  have hlength := congrArg List.length h.rows
  rwa [imageRows, List.length_map, List.length_map, List.length_range] at hlength

theorem LinesOf.concat {y : ℕ} {lines : List (List Rle8Piece)} {line : List Rle8Piece}
    (h : LinesOf work indices width height y lines) (hline : LineOf work (indices + y * width) 0 width line) :
    LinesOf work indices width height (y + 1) (lines ++ [line]) := by
  have heven := h.even
  have hshort := h.short
  have heven' := hline.even
  have hshort' := hline.short
  have hmark : (rle8Mark height (0 + lines.length)).length = 2 := rfl
  refine ⟨fun l hl => ?_, ?_, ?_, ?_⟩
  · rcases List.mem_append.1 hl with hl | hl
    · exact h.ok l hl
    · rw [List.mem_singleton.1 hl]
      exact hline.ok
  · rw [List.map_append, h.rows, imageRows_succ, List.map_singleton, hline.pixels, Nat.sub_zero]
  · rw [rle8Text_concat, List.length_append, List.length_append]
    omega
  · rw [rle8Text_concat, List.length_append, List.length_append, Nat.succ_mul]
    omega

/-- How the encoder ends with the first `y` rows. -/
def EncodedRows (output work : Bytes) (indices width height start capacity y used : ℕ) (s : ShotBuffers) : Prop :=
  ∃ lines, LinesOf work indices width height y lines ∧ s = encoded output work start (rle8Text height 0 lines) ∧
    used = (rle8Text height 0 lines).length ∧ used ≤ capacity

/-- **The encoder** writes a stream of the image, or stops where twice its pixels and its marks
do not fit. -/
theorem post_shotxfRle8 (hwork : indices + width * height ≤ work.length) (hsize : width * height < 2 ^ 32)
    (houtput : start + capacity ≤ output.length) :
    Post (shotxfRle8 indices width height start capacity) ⟨output, work⟩
      (EncodedRows output work indices width height start capacity height)
      (fun _ => Stopped output work start capacity (height * (2 * width + 2))) := by
  refine post_foldlM_range (I := EncodedRows output work indices width height start capacity) height ?_ ?_
  · rintro y hy used s ⟨lines, hlines, rfl, hused, hfits⟩
    have hrow : y * width + width ≤ width * height := by
      calc y * width + width = (y + 1) * width := (Nat.succ_mul y width).symm
        _ ≤ height * width := Nat.mul_le_mul_right _ hy
        _ = width * height := Nat.mul_comm _ _
    have hneed : y * (2 * width + 2) + (2 * width + 2) ≤ height * (2 * width + 2) := by
      calc y * (2 * width + 2) + (2 * width + 2) = (y + 1) * (2 * width + 2) := (Nat.succ_mul _ _).symm
        _ ≤ height * (2 * width + 2) := Nat.mul_le_mul_right _ hy
    have hshort := hlines.short
    rw [rle8Line, post_bind, post_shotU32, post_bind]
    refine ⟨by omega, ?_⟩
    refine (post_rle8Row (by omega) houtput (width + 1) 0 used _ hused (by rw [hused]; exact hlines.even) hfits
      (Nat.zero_le _) (by omega)).imp ?_ fun _ _ h => h.mono (by omega)
    rintro used' s' ⟨line, hline, rfl, hused', hfits'⟩
    have hlineShort := hline.short
    have hnext := hlines.concat hline
    rw [post_ite]
    refine ⟨fun hfull => post_stop.2 ⟨_, rfl, by omega, ?_⟩, fun hroom => ?_⟩
    · rw [List.length_append] at hused'
      omega
    rw [post_bind]
    refine post_putEncoded hused' houtput (by omega) ?_
    rw [post_bind]
    refine post_putEncoded (by rw [List.length_append, hused']; rfl) houtput (by omega) ?_
    have hmark : rle8Text height 0 (lines ++ [line]) =
        rle8Text height 0 lines ++ rle8Code line ++ [0] ++ [if y + 1 = height then 1 else 0] := by
      rw [rle8Text_concat, hlines.length, Nat.zero_add]
      simp [rle8Mark]
    refine post_pure.2 ⟨lines ++ [line], hnext, by rw [hmark], ?_, by omega⟩
    rw [hmark, List.length_append, List.length_append, ← hused']
    rfl
  · have hnil : encoded output work start [] = ⟨output, work⟩ := by
      rw [encoded, write]
      simp
    refine ⟨[], ⟨fun _ h => absurd h List.not_mem_nil, rfl, rfl, Nat.zero_le _⟩, hnil.symm, rfl, Nat.zero_le _⟩

/-- **The decoder reads exactly the stream**: it gives the rows whatever follows the stream, and
an error where the stream breaks off. -/
structure ReadsExactly (width height : ℕ) (stream : Bytes) (rows : List Bytes) : Prop where
  rows : ∀ head tail : Bytes, decodeRle8 (head ++ stream ++ tail) width height head.length 0 0
    (List.replicate height (List.replicate width 0)) = .ok rows
  whole : ∀ (head : Bytes) (k : ℕ), k < stream.length → ∃ e, decodeRle8 (head ++ stream.take k) width height head.length 0 0
    (List.replicate height (List.replicate width 0)) = .error e

theorem LinesOf.reads {lines : List (List Rle8Piece)} (h : LinesOf work indices width height height lines)
    (hpos : 0 < height) : ReadsExactly width height (rle8Text height 0 lines) (imageRows work indices width height) := by
  have hlength := h.length
  have hne : lines ≠ [] := List.ne_nil_of_length_pos (by omega)
  have hlines : ∀ line ∈ lines, (rle8Pixels line).length = width := by
    intro line hline
    have hrow : rle8Pixels line ∈ imageRows work indices width height := by
      rw [← h.rows]
      exact List.mem_map_of_mem hline
    obtain ⟨y, -, hy⟩ := List.mem_map.1 hrow
    rw [← hy, columns_length]
  have hstart : ∀ head t : Bytes, Cursor.At (head ++ t) head.length t := fun head t =>
    ⟨by rw [List.length_append]; omega, List.drop_left⟩
  constructor
  · intro head tail
    have hat := hstart head (rle8Text height 0 lines ++ tail)
    rw [← List.append_assoc] at hat
    have htext := @decode_text tail width height _ _ [] (List.replicate height (List.replicate width 0)) lines hat h.ok hne
      (by simpa using hlength) hlines (by rw [List.length_replicate, hlength])
      (fun row hrow => by rw [List.eq_of_mem_replicate hrow, List.length_replicate])
    rw [← h.rows]
    exact htext
  · intro head k hk
    have hcut : ((rle8Text height 0 lines).take k).length = k := by
      rw [List.length_take]
      omega
    exact decode_text_cut lines h.ok hlines hne (by omega) (hstart head _) (List.take_prefix _ _) (by omega)

end

end V9xRemote
