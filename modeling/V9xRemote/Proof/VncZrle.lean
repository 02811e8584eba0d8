import V9xRemote.Proof.VncHextile
import V9xRemote.Spec.VncZrle

/-!
# ZRLE round trip

A search in the palette of a tile ends, and a pixel that was collected is found again
(`index_spec`, `index_held`). Each of the five subencodings takes the size it was chosen by and
reads as the tile's pixels (`zrleTile_read`), and so a rectangle reads as its translated
pixels wherever a CPIXEL loses nothing (`zrle_round_trip`).
-/

namespace V9xRemote

open Bytes Raster Repeats Packing Limbs

namespace VncFormat

variable {f : VncFormat} {width height : ℕ}

/-! ## The palette -/

theorem hash_lt (pixel : UInt32) : ZPalette.hash pixel < 256 := by
  unfold ZPalette.hash
  rw [UInt32.toNat_and]
  exact lt_of_le_of_lt Nat.and_le_right (by decide)

/-- What a palette keeps: its slots find every key, and name the colour of their key. -/
structure Sound (p : ZPalette) : Prop where
  reached : p.table.Reached 256 ZPalette.hash
  entry : ∀ slot < 256, p.slots slot ≠ 0 → p.palette[(p.slots slot).toNat - 1]? = some (p.keys slot)
  load : p.table.load 256 = p.palette.length
  length : p.palette.length ≤ 127

/-- A pixel that was collected. -/
def Held (p : ZPalette) (pixel : UInt32) : Prop := ∃ slot < 256, p.slots slot ≠ 0 ∧ p.keys slot = pixel

theorem used_iff {p : ZPalette} {slot : ℕ} : p.table.used slot = true ↔ p.slots slot ≠ 0 := bne_iff_ne

theorem sound_empty : Sound .empty := by
  have hunused : ∀ slot, ¬ZPalette.empty.table.used slot = true := fun slot hused => used_iff.1 hused rfl
  refine ⟨fun slot _ hused => absurd hused (hunused slot), fun slot _ hused => absurd rfl hused, ?_, by decide⟩
  unfold Probing.Table.load
  rw [Finset.filter_false_of_mem fun slot _ => hunused slot]
  rfl

theorem Held.mem {p : ZPalette} (hs : Sound p) {pixel : UInt32} (h : Held p pixel) : pixel ∈ p.palette := by
  obtain ⟨slot, hslot, hused, rfl⟩ := h
  exact List.mem_of_getElem? (hs.entry slot hslot hused)

/-- **A pixel that was collected is found again**, and nothing changes. -/
theorem index_held {p : ZPalette} (hs : Sound p) {pixel : UInt32} (h : Held p pixel) :
    ∃ i, p.index pixel = some (p, some i) ∧ p.palette[i]? = some pixel := by
  obtain ⟨slot, hslot, hused, rfl⟩ := h
  have hfound := hs.reached.search hslot (used_iff.2 hused) rfl
  refine ⟨(p.slots slot).toNat - 1, ?_, hs.entry slot hslot hused⟩
  unfold ZPalette.index
  rw [show Probing.probe 256 (p.table.ends (p.keys slot)) 256 (ZPalette.hash (p.keys slot)) = some slot from hfound,
    Option.map_some, if_neg hused]

/-- The table once a slot is filled. -/
theorem table_filled (p : ZPalette) (palette : List UInt32) (slot : ℕ) (pixel : UInt32) {value : UInt8} (hvalue : value ≠ 0) :
    (ZPalette.mk palette (Function.update p.keys slot pixel) (Function.update p.slots slot value)).table =
      p.table.fill slot pixel := by
  unfold ZPalette.table Probing.Table.fill
  dsimp only
  congr 1
  funext s
  rcases eq_or_ne s slot with rfl | hne
  · rw [Function.update_self, Function.update_self]
    exact bne_iff_ne.2 hvalue
  · rw [Function.update_of_ne hne, Function.update_of_ne hne]

/-- A slot holds one more than an index. -/
theorem slot_value {n : ℕ} (h : n < 127) : (UInt8.ofNat (n + 1)).toNat = n + 1 ∧ UInt8.ofNat (n + 1) ≠ 0 := by
  have hvalue : (UInt8.ofNat (n + 1)).toNat = n + 1 := by rw [UInt8.toNat_ofNat', Nat.mod_eq_of_lt (by omega)]
  refine ⟨hvalue, fun hzero => ?_⟩
  rw [hzero] at hvalue
  exact absurd hvalue (by simp)

/-- One more colour. -/
theorem sound_fill {p : ZPalette} (hs : Sound p) {pixel : UInt32} {slot : ℕ} (hslot : slot < 256)
    (hend : Probing.probe 256 (p.table.ends pixel) 256 (ZPalette.hash pixel) = some slot) (hempty : p.slots slot = 0)
    (hroom : p.palette.length < 127) :
    Sound
      { palette := p.palette ++ [pixel]
        keys := Function.update p.keys slot pixel
        slots := Function.update p.slots slot (UInt8.ofNat (p.palette.length + 1)) } := by
  obtain ⟨hvalue, hne⟩ := slot_value hroom
  have hunused : p.table.used slot = false := by
    rw [Bool.eq_false_iff]
    exact fun hused => used_iff.1 hused hempty
  refine ⟨?_, fun s hlt hused => ?_, ?_, ?_⟩
  · rw [table_filled p _ slot pixel hne]
    exact hs.reached.fill hend hunused
  · dsimp only at hused ⊢
    rcases eq_or_ne s slot with rfl | hother
    · rw [Function.update_self, Function.update_self, hvalue, Nat.add_sub_cancel, List.getElem?_concat_length]
    · rw [Function.update_of_ne hother] at hused ⊢
      have hold := hs.entry s hlt hused
      rw [Function.update_of_ne hother, List.getElem?_append_left (List.getElem?_eq_some_iff.1 hold).1, hold]
  · rw [table_filled p _ slot pixel hne, Probing.Table.load_fill hslot hunused, hs.load, List.length_append]
    rfl
  · rw [List.length_append]
    exact Nat.succ_le_of_lt hroom

/-- **A search ends**, whatever was collected before; nothing that was is lost. -/
theorem index_spec {p : ZPalette} (hs : Sound p) (pixel : UInt32) : ∃ p' found, p.index pixel = some (p', found) ∧
    Sound p' ∧ (∀ q, Held p q → Held p' q) ∧ (found.isSome = true → Held p' pixel) := by
  obtain ⟨slot, hslot, hend, hkey⟩ := Probing.Table.search_ends (k := pixel) ZPalette.hash
    (by rw [hs.load]; have := hs.length; omega) (hash_lt pixel)
  unfold ZPalette.index
  rw [hend, Option.map_some]
  by_cases hempty : p.slots slot = 0
  · rw [if_pos hempty]
    split
    · exact ⟨p, none, rfl, hs, fun _ hq => hq, fun h => absurd h (by decide)⟩
    · rename_i hroom
      have hsound := sound_fill hs hslot hend hempty (not_le.1 hroom)
      have hne := (slot_value (not_le.1 hroom)).2
      refine ⟨_, _, rfl, hsound, ?_, fun _ => ⟨slot, hslot, ?_, ?_⟩⟩
      · rintro q ⟨s, hlt, hused, hq⟩
        have hother : s ≠ slot := by
          rintro rfl
          exact hused hempty
        refine ⟨s, hlt, ?_, ?_⟩
        · dsimp only
          rwa [Function.update_of_ne hother]
        · dsimp only
          rwa [Function.update_of_ne hother]
      · dsimp only
        rwa [Function.update_self]
      · exact Function.update_self _ _ _
  · rw [if_neg hempty]
    exact ⟨p, _, rfl, hs, fun _ hq => hq, fun _ => ⟨slot, hslot, hempty, hkey (used_iff.2 hempty)⟩⟩

/-- The indices of pixels that were collected name their colours. -/
theorem indices_held {p : ZPalette} (hs : Sound p) (g : UInt32 → ℕ) {pixels : List UInt32} (h : ∀ q ∈ pixels, Held p q) :
    ∃ indices, p.indices pixels = some (p, indices) ∧ indices.length = pixels.length ∧
      (∀ i ∈ indices, i < p.palette.length) ∧
        (indices.mapM fun i => (p.palette.map g)[i]?) = some (pixels.map g) := by
  induction pixels with
  | nil => exact ⟨[], rfl, rfl, fun i hi => absurd hi List.not_mem_nil, rfl⟩
  | cons pixel rest ih =>
    obtain ⟨i, hi, hcolour⟩ := index_held hs (h pixel List.mem_cons_self)
    obtain ⟨more, hmore, hlength, hlt, hread⟩ := ih fun q hq => h q (List.mem_cons_of_mem _ hq)
    refine ⟨i :: more, ?_, ?_, ?_, ?_⟩
    · rw [ZPalette.indices, hi, Option.bind_some]
      dsimp only
      rw [hmore]
      rfl
    · rw [List.length_cons, List.length_cons, hlength]
    · intro j hj
      rcases List.mem_cons.1 hj with rfl | hj
      · exact (List.getElem?_eq_some_iff.1 hcolour).1
      · exact hlt j hj
    · rw [List.mapM_cons, hread, List.getElem?_map, hcolour]
      rfl

/-! ## The first pass -/

/-- The sizes of the runs, each by its own. -/
def plainSizes (f : VncFormat) (runs : List (UInt32 × ℕ)) : ℕ := (runs.map fun r => f.cpixelBytes + vncZrunBytes r.2).sum

def entrySizes (runs : List (UInt32 × ℕ)) : ℕ := (runs.map fun r => if r.2 = 1 then 1 else 1 + vncZrunBytes r.2).sum

/-- **The first pass** ends, collects every colour while there is room, and counts what will be
written. -/
theorem measure_spec (runs : List (UInt32 × ℕ)) (m : ZMeasure) (hs : Sound m.palette) :
    ∃ m', runs.foldlM f.zmeasure m = some m' ∧ Sound m'.palette ∧ (∀ q, Held m.palette q → Held m'.palette q) ∧
      (m'.tooMany = false → m.tooMany = false ∧ ∀ r ∈ runs, Held m'.palette r.1) ∧
        m'.plainSize = m.plainSize + f.plainSizes runs ∧ m'.paletteRleSize = m.paletteRleSize + entrySizes runs := by
  induction runs generalizing m with
  | nil => exact ⟨m, rfl, hs, fun _ hq => hq, fun h => ⟨h, fun r hr => absurd hr List.not_mem_nil⟩, rfl, rfl⟩
  | cons run runs ih =>
    -- the palette behind this run
    have hstep : ∃ p many, zcollect m run.1 = some (p, many) ∧ Sound p ∧ (∀ q, Held m.palette q → Held p q) ∧
        (many = false → m.tooMany = false ∧ Held p run.1) := by
      unfold zcollect
      split
      · exact ⟨m.palette, true, rfl, hs, fun _ hq => hq, fun h => absurd h (by decide)⟩
      · rename_i hfew
        obtain ⟨p, found, hindex, hsound, hkept, hheld⟩ := index_spec hs run.1
        refine ⟨p, found.isNone, by rw [hindex]; rfl, hsound, hkept, fun h => ⟨Bool.eq_false_iff.2 hfew, hheld ?_⟩⟩
        rw [← Option.not_isNone, h]
        rfl
    obtain ⟨p, many, hcollect, hsound, hkept, hheld⟩ := hstep
    obtain ⟨m', hrest, hsound', hkept', hall, hplain, hentries⟩ := ih
      ⟨p, many, m.plainSize + (f.cpixelBytes + vncZrunBytes run.2),
        m.paletteRleSize + if run.2 = 1 then 1 else 1 + vncZrunBytes run.2⟩ hsound
    refine ⟨m', ?_, hsound', fun q hq => hkept' q (hkept q hq), fun hfew => ?_, ?_, ?_⟩
    · rw [List.foldlM_cons, zmeasure, hcollect]
      exact hrest
    · obtain ⟨hmany, hruns⟩ := hall hfew
      obtain ⟨hbefore, hhere⟩ := hheld hmany
      refine ⟨hbefore, fun r hr => ?_⟩
      rcases List.mem_cons.1 hr with rfl | hr
      · exact hkept' _ hhere
      · exact hruns r hr
    · rw [hplain, plainSizes, plainSizes, List.map_cons, List.sum_cons, Nat.add_assoc]
    · rw [hentries, entrySizes, entrySizes, List.map_cons, List.sum_cons, Nat.add_assoc]

/-! ## CPIXELs on the wire -/

/-- What a viewer makes of a CPIXEL. -/
def carried (f : VncFormat) (pixel : UInt32) : ℕ := f.readCPixel (f.cpixel pixel)

theorem takeCPixel_cpixel (h : f.Accepted) (pixel : UInt32) (rest : Bytes) :
    f.takeCPixel (f.cpixel pixel ++ rest) = some (f.carried pixel, rest) := by
  have hlength : (f.cpixel pixel).length = f.viewerCPixelBytes := (cpixel_length h pixel).trans (cpixelBytes_eq h)
  unfold takeCPixel
  rw [if_pos (by rw [List.length_append]; omega), List.take_left' hlength, List.drop_left' hlength]
  rfl

theorem takeCPixels_cpixels (h : f.Accepted) (pixels : List UInt32) (rest : Bytes) :
    f.takeCPixels pixels.length (pixels.flatMap f.cpixel ++ rest) = some (pixels.map f.carried, rest) := by
  induction pixels with
  | nil => rfl
  | cons pixel pixels ih =>
    rw [List.flatMap_cons, List.append_assoc, List.length_cons, takeCPixels, takeCPixel_cpixel h, Option.bind_some]
    dsimp only
    rw [ih]
    rfl

theorem flatMap_cpixel_length (h : f.Accepted) (pixels : List UInt32) :
    (pixels.flatMap f.cpixel).length = pixels.length * f.cpixelBytes := by
  induction pixels with
  | nil => rw [List.length_nil, Nat.zero_mul]; rfl
  | cons pixel pixels ih =>
    rw [List.flatMap_cons, List.length_append, cpixel_length h, ih, List.length_cons, Nat.succ_mul, Nat.add_comm]

/-- **Where a CPIXEL loses nothing.** -/
theorem carried_iff (h : f.Accepted) {pixel : UInt32} (hpixel : f.Fits pixel) : f.carried pixel = pixel.toNat ↔ f.Kept pixel := by
  refine ⟨fun hsame hcompact => ?_, readCPixel_cpixel h hpixel⟩
  rw [← hsame]
  have hlength : (f.cpixel pixel).length = 3 := by
    rw [cpixel_length h, cpixelBytes_eq h, viewerCPixelBytes, if_pos hcompact]
  unfold carried readCPixel readPixel
  obtain ⟨a, b, c, habc⟩ := List.length_eq_three.1 hlength
  have ha := a.toNat_lt
  have hb := b.toNat_lt
  have hc := c.toNat_lt
  rw [if_pos hcompact, habc]
  -- the byte the viewer puts in is zero
  split
  · cases f.bigEndian <;> simp [leNat_cons] <;> omega
  · cases f.bigEndian <;> simp [leNat_cons]

/-! ## Runs on the wire -/

theorem readRunLength_value {fuel : ℕ} (value : ℕ) (h : value ≤ fuel) (rest : Bytes) :
    readRunLength (vncZputValue fuel value ++ rest) = some (value + 1, rest) ∧
      (vncZputValue fuel value).length = value / 255 + 1 := by
  induction fuel generalizing value with
  | zero =>
    obtain rfl := Nat.le_zero.1 h
    exact ⟨rfl, rfl⟩
  | succ fuel ih =>
    rw [vncZputValue]
    split
    · obtain ⟨hread, hlength⟩ := ih (value - 255) (by omega)
      refine ⟨?_, ?_⟩
      · rw [List.cons_append, readRunLength, if_pos rfl, hread, Option.map_some]
        dsimp only
        rw [show 255 + (value - 255 + 1) = value + 1 by omega]
      · rw [List.length_cons, hlength]
        omega
    · rename_i hsmall
      have hvalue : (UInt8.ofNat value).toNat = value := by rw [UInt8.toNat_ofNat', Nat.mod_eq_of_lt (by omega)]
      have hlast : UInt8.ofNat value ≠ 255 := by
        intro heq
        rw [heq] at hvalue
        exact hsmall (le_of_eq hvalue)
      refine ⟨?_, ?_⟩
      · rw [List.singleton_append, readRunLength, if_neg hlast, hvalue]
      · rw [List.length_singleton, Nat.div_eq_of_lt (by omega)]

/-- **A run length survives the wire**, in as many bytes as were counted. -/
theorem readRunLength_put {run : ℕ} (h : 0 < run) (rest : Bytes) :
    readRunLength (vncZputRunLength run ++ rest) = some (run, rest) := by
  rw [vncZputRunLength, (readRunLength_value _ le_rfl rest).1, Nat.sub_add_cancel h]

theorem putRunLength_length (run : ℕ) : (vncZputRunLength run).length = vncZrunBytes run :=
  (readRunLength_value _ le_rfl []).2

/-- One run is read, and then the others. -/
theorem readRuns_run {readRun : Bytes → Option ((ℕ × ℕ) × Bytes)} {fuel run more pixel : ℕ} {s s' : Bytes} (hrun : 0 < run)
    (hread : readRun s = some ((pixel, run), s')) :
    readRuns readRun (fuel + 1) (run + more) s =
      (readRuns readRun fuel more s').map fun (pixels, s) => (List.replicate run pixel ++ pixels, s) := by
  obtain ⟨k, hk⟩ : ∃ k, run + more = k + 1 := ⟨run + more - 1, by omega⟩
  rw [hk, readRuns, hread, Option.bind_some]
  dsimp only
  rw [if_neg (by omega), ← hk, Nat.add_sub_cancel_left]

theorem readRuns_none (readRun : Bytes → Option ((ℕ × ℕ) × Bytes)) (fuel : ℕ) (s : Bytes) :
    readRuns readRun fuel 0 s = some ([], s) := by
  cases fuel <;> rfl

/-- How many pixels the runs are. -/
def runPixels (runs : List (UInt32 × ℕ)) : ℕ := (runs.map Prod.snd).sum

theorem runPixels_eq (runs : List (UInt32 × ℕ)) : runPixels runs = (expand runs).length := by
  induction runs with
  | nil => rfl
  | cons r runs ih => rw [runPixels, List.map_cons, List.sum_cons, expand_cons, List.length_append, List.length_replicate, ← ih]; rfl

theorem readPlainRun_put (h : f.Accepted) {run : UInt32 × ℕ} (hrun : 0 < run.2) (rest : Bytes) :
    f.readPlainRun (f.cpixel run.1 ++ vncZputRunLength run.2 ++ rest) = some ((f.carried run.1, run.2), rest) := by
  unfold readPlainRun
  rw [List.append_assoc, takeCPixel_cpixel h, Option.bind_some]
  dsimp only
  rw [readRunLength_put hrun]
  rfl

/-- **Plain RLE** reads as its runs, in the size counted for it. -/
theorem plain_read (h : f.Accepted) (runs : List (UInt32 × ℕ)) (hpos : ∀ r ∈ runs, 0 < r.2) (rest : Bytes) {fuel : ℕ}
    (hfuel : runPixels runs ≤ fuel) :
    readRuns f.readPlainRun fuel (runPixels runs)
        ((runs.flatMap fun run => f.cpixel run.1 ++ vncZputRunLength run.2) ++ rest) =
      some ((expand runs).map f.carried, rest) := by
  induction runs generalizing fuel with
  | nil => exact readRuns_none _ _ _
  | cons run runs ih =>
    have hrun := hpos run List.mem_cons_self
    have htotal : runPixels (run :: runs) = run.2 + runPixels runs := by
      rw [runPixels, List.map_cons, List.sum_cons]
      rfl
    obtain ⟨less, rfl⟩ : ∃ less, fuel = less + 1 := ⟨fuel - 1, by omega⟩
    rw [htotal, List.flatMap_cons, List.append_assoc, readRuns_run hrun (readPlainRun_put h hrun _),
      ih (fun r hr => hpos r (List.mem_cons_of_mem _ hr)) (by omega), expand_cons, List.map_append, List.map_replicate]
    rfl

theorem plain_length (h : f.Accepted) (runs : List (UInt32 × ℕ)) :
    (runs.flatMap fun run => f.cpixel run.1 ++ vncZputRunLength run.2).length = f.plainSizes runs := by
  rw [List.length_flatMap, plainSizes]
  congr 1
  refine List.map_congr_left fun run _ => ?_
  rw [List.length_append, cpixel_length h, putRunLength_length]

/-- One run of palette RLE. -/
def entryBytes (i run : ℕ) : Bytes :=
  if run = 1 then [UInt8.ofNat i] else (UInt8.ofNat i ||| 128) :: vncZputRunLength run

theorem readPaletteRun_entry {palette : List ℕ} {i run pixel : ℕ} (hi : i < 128) (hpixel : palette[i]? = some pixel)
    (hrun : 0 < run) (rest : Bytes) :
    readPaletteRun palette (entryBytes i run ++ rest) = some ((pixel, run), rest) := by
  have hentry : (UInt8.ofNat i).toNat = i := by rw [UInt8.toNat_ofNat', Nat.mod_eq_of_lt (by omega)]
  unfold entryBytes
  split
  · rename_i hone
    have hlow : UInt8.ofNat i < 128 := by
      rw [UInt8.lt_iff_toNat_lt, hentry]
      exact hi
    rw [List.singleton_append, readPaletteRun, readEntryLength, if_pos hlow, Option.bind_some]
    dsimp only
    rw [hentry, Nat.mod_eq_of_lt hi, hpixel, hone]
    rfl
  · -- the high bit says that a length follows
    have hflag : (UInt8.ofNat i ||| 128).toNat = i + 128 := by
      rw [UInt8.toNat_or, hentry, Nat.or_comm, show (128 : UInt8).toNat = 1 <<< 7 by decide,
        ← Nat.shiftLeft_add_eq_or_of_lt (show i < 2 ^ 7 from hi), Nat.add_comm]
      rfl
    have hhigh : ¬(UInt8.ofNat i ||| 128) < 128 := by
      rw [UInt8.lt_iff_toNat_lt, hflag]
      exact not_lt.2 (Nat.le_add_left _ _)
    rw [List.cons_append, readPaletteRun, readEntryLength, if_neg hhigh, readRunLength_put hrun, Option.bind_some]
    dsimp only
    rw [hflag, Nat.add_mod_right, Nat.mod_eq_of_lt hi, hpixel]
    rfl

theorem entryBytes_length (i run : ℕ) : (entryBytes i run).length = if run = 1 then 1 else 1 + vncZrunBytes run := by
  unfold entryBytes
  split
  · rfl
  · rw [List.length_cons, putRunLength_length, Nat.add_comm]

/-- **Palette RLE** reads as its runs, in the size counted for it. -/
theorem entries_read {p : ZPalette} (hs : Sound p) (g : UInt32 → ℕ) {runs : List (UInt32 × ℕ)}
    (hheld : ∀ r ∈ runs, Held p r.1) (hpos : ∀ r ∈ runs, 0 < r.2) :
    ∃ bytes, zputEntries p runs = some bytes ∧ bytes.length = entrySizes runs ∧ ∀ rest fuel, runPixels runs ≤ fuel →
      readRuns (readPaletteRun (p.palette.map g)) fuel (runPixels runs) (bytes ++ rest) =
        some ((expand runs).map g, rest) := by
  induction runs with
  | nil => exact ⟨[], rfl, rfl, fun rest fuel _ => readRuns_none _ _ _⟩
  | cons r runs ih =>
    obtain ⟨pixel, run⟩ := r
    obtain ⟨i, hindex, hcolour⟩ := index_held hs (hheld _ List.mem_cons_self)
    obtain ⟨bytes, hbytes, hlength, hread⟩ := ih (fun r hr => hheld r (List.mem_cons_of_mem _ hr))
      fun r hr => hpos r (List.mem_cons_of_mem _ hr)
    have hrun := hpos _ List.mem_cons_self
    have hi : i < 128 := by
      have := (List.getElem?_eq_some_iff.1 hcolour).1
      have := hs.length
      omega
    refine ⟨entryBytes i run ++ bytes, ?_, ?_, fun rest fuel hfuel => ?_⟩
    · rw [zputEntries, hindex, Option.bind_some]
      dsimp only
      rw [hbytes]
      rfl
    · rw [List.length_append, entryBytes_length, hlength, entrySizes, entrySizes, List.map_cons, List.sum_cons]
    · have htotal : runPixels ((pixel, run) :: runs) = run + runPixels runs := by
        rw [runPixels, List.map_cons, List.sum_cons]
        rfl
      have hone := readPaletteRun_entry hi (show (p.palette.map g)[i]? = some (g pixel) by rw [List.getElem?_map, hcolour]; rfl)
        hrun (bytes ++ rest)
      obtain ⟨less, rfl⟩ : ∃ less, fuel = less + 1 := ⟨fuel - 1, by dsimp only at hrun; omega⟩
      rw [htotal, List.append_assoc, readRuns_run hrun hone, hread rest less (by omega), expand_cons, List.map_append,
        List.map_replicate]
      rfl

/-! ## Packed rows -/

theorem zbits_spec {colours : ℕ} (h : colours ≤ 16) :
    colours ≤ 2 ^ zbits colours ∧ zbits colours * (8 / zbits colours) = 8 := by
  unfold zbits
  split
  · exact ⟨by omega, rfl⟩
  · split
    · exact ⟨by omega, rfl⟩
    · exact ⟨by omega, rfl⟩

/-- **The packed rows** read as their pixels, in the size counted for them. -/
theorem rows_read {p : ZPalette} (hs : Sound p) (g : UInt32 → ℕ) {bits : ℕ} (hbits : bits * (8 / bits) = 8)
    (hroom : p.palette.length ≤ 2 ^ bits) {rows : List (List UInt32)} (hheld : ∀ row ∈ rows, ∀ q ∈ row, Held p q)
    (hwidth : ∀ row ∈ rows, row.length = width) :
    ∃ bytes, zpackRows bits p rows = some bytes ∧ bytes.length = rows.length * ((width * bits + 7) / 8) ∧
      ∀ rest, readPackedRows (p.palette.map g) bits width rows.length (bytes ++ rest) =
        some (rows.flatten.map g, rest) := by
  induction rows with
  | nil => exact ⟨[], rfl, by simp, fun rest => rfl⟩
  | cons row rows ih =>
    obtain ⟨bytes, hbytes, hlength, hread⟩ := ih (fun r hr => hheld r (List.mem_cons_of_mem _ hr))
      fun r hr => hwidth r (List.mem_cons_of_mem _ hr)
    obtain ⟨indices, hindices, hcount, hlt, hrow⟩ := indices_held hs g (hheld row List.mem_cons_self)
    have hcount : indices.length = width := hcount.trans (hwidth row List.mem_cons_self)
    have hfields : ∀ i ∈ indices, i < 2 ^ bits := fun i hi => lt_of_lt_of_le (hlt i hi) hroom
    have hpacked : ((pack bits indices).map UInt8.ofNat).length = (width * bits + 7) / 8 := by
      rw [List.length_map, pack_length hbits, hcount]
    have hunpacked : (((pack bits indices).map UInt8.ofNat).flatMap fun b => fields bits (8 / bits) b.toNat).take width =
        indices := by
      have hbyte : ∀ b ∈ pack bits indices, fields bits (8 / bits) (UInt8.ofNat b).toNat = fields bits (8 / bits) b := by
        intro b hb
        rw [UInt8.toNat_ofNat', Nat.mod_eq_of_lt (pack_lt hbits hfields b hb)]
      rw [List.flatMap_map, List.flatMap_congr hbyte, ← hcount]
      exact unpack_pack hbits hfields
    refine ⟨(pack bits indices).map UInt8.ofNat ++ bytes, ?_, ?_, fun rest => ?_⟩
    · rw [zpackRows, hindices, Option.bind_some]
      dsimp only
      rw [hbytes]
      rfl
    · rw [List.length_append, hpacked, hlength, List.length_cons, Nat.succ_mul, Nat.add_comm]
    · rw [List.length_cons, readPackedRows]
      dsimp only
      rw [List.append_assoc, if_pos (by rw [List.length_append, hpacked]; omega), List.take_left' hpacked,
        List.drop_left' hpacked, hunpacked, hrow, Option.bind_some, hread, List.flatten_cons, List.map_append]
      rfl

theorem tileRows_flatten (width height : ℕ) (tile : TilePixels) :
    (tileRows width height tile).flatten = raster width height tile := by
  rw [raster_eq_flatMap, List.flatMap_def]
  rfl

/-! ## Tiles -/

theorem zbest_le (raw plain paletteRle packed : ℕ) : zbest raw plain paletteRle packed ≤ raw := by
  unfold zbest
  dsimp only
  repeat' split
  all_goals omega

theorem cpixelBytes_bounds (h : f.Accepted) : 0 < f.cpixelBytes ∧ f.cpixelBytes ≤ 4 := by
  have hbytes : 0 < f.pixelBytes ∧ f.pixelBytes ≤ 4 := by
    rcases h.bpp_cases with ⟨hb, -⟩ | ⟨hb, -⟩ | ⟨hb, -⟩ <;> rw [hb] <;> decide
  rw [cpixelBytes_eq h]
  unfold viewerCPixelBytes
  split
  · exact ⟨by decide, by decide⟩
  · exact hbytes

/-- The pixels of a tile that was collected are all held. -/
theorem pixels_held {p : ZPalette} {pixels : List UInt32} (hruns : ∀ r ∈ repeats pixels, Held p r.1) :
    ∀ q ∈ pixels, Held p q := by
  intro q hq
  obtain ⟨r, hr, rfl⟩ := exists_repeat hq
  exact hruns r hr

/-- A tile that is one colour. -/
theorem solid_zrle_read (h : f.Accepted) {pixels : List UInt32} {p : ZPalette} (hs : Sound p) (hone : p.palette.length = 1)
    (hheld : ∀ q ∈ pixels, Held p q) (hpixels : pixels.length = height * width) (rest : Bytes) :
    f.readZrleTile width height (1 :: f.cpixel (p.palette.headD 0) ++ rest) = some (pixels.map f.carried, rest) := by
  obtain ⟨colour, hcolour⟩ := List.length_eq_one_iff.1 hone
  have hall : pixels = List.replicate (height * width) colour := by
    rw [← hpixels]
    refine List.eq_replicate_of_mem fun q hq => ?_
    have hmem := (hheld q hq).mem hs
    rw [hcolour] at hmem
    exact List.mem_singleton.1 hmem
  rw [hcolour, List.headD_cons, List.cons_append, readZrleTile, readZrleBody, if_neg (by decide), if_pos (by decide),
    takeCPixel_cpixel h, hall, List.map_replicate]
  rfl

/-- A packed tile. -/
theorem packed_tile (h : f.Accepted) (tile : TilePixels) {p : ZPalette} (hs : Sound p) (htwo : 2 ≤ p.palette.length)
    (hsmall : p.palette.length ≤ 16) (hheld : ∀ q ∈ raster width height tile, Held p q) :
    ∃ rows, zpackRows (zbits p.palette.length) p (tileRows width height tile) = some rows ∧
      (p.palette.flatMap f.cpixel ++ rows).length =
        p.palette.length * f.cpixelBytes + height * ((width * zbits p.palette.length + 7) / 8) ∧
      ∀ rest, f.readZrleTile width height (UInt8.ofNat p.palette.length :: (p.palette.flatMap f.cpixel ++ rows) ++ rest) =
        some ((raster width height tile).map f.carried, rest) := by
  obtain ⟨hroom, hbits⟩ := zbits_spec hsmall
  have hrowsHeld : ∀ row ∈ tileRows width height tile, ∀ q ∈ row, Held p q := by
    intro row hrow q hq
    refine hheld q ?_
    rw [← tileRows_flatten]
    exact List.mem_flatten_of_mem hrow hq
  have hrowsWidth : ∀ row ∈ tileRows width height tile, row.length = width := by
    intro row hrow
    obtain ⟨i, -, rfl⟩ := List.mem_map.1 hrow
    rw [List.length_map, List.length_range]
  have hrowsLength : (tileRows width height tile).length = height := by
    rw [tileRows, List.length_map, List.length_range]
  obtain ⟨rows, hwritten, hsize, hread⟩ := rows_read hs f.carried hbits hroom hrowsHeld hrowsWidth
  refine ⟨rows, hwritten, ?_, fun rest => ?_⟩
  · rw [List.length_append, flatMap_cpixel_length h, hsize, hrowsLength]
  · have hkind : (UInt8.ofNat p.palette.length).toNat = p.palette.length := by
      rw [UInt8.toNat_ofNat', Nat.mod_eq_of_lt (by omega)]
    have hrows := hread rest
    rw [hrowsLength, tileRows_flatten] at hrows
    rw [List.cons_append, readZrleTile, readZrleBody, hkind, if_neg (by omega), if_neg (by omega), if_pos hsmall,
      List.append_assoc, takeCPixels_cpixels h, Option.bind_some]
    exact hrows

/-- A tile in palette RLE. -/
theorem paletteRle_tile (h : f.Accepted) {pixels : List UInt32} {p : ZPalette} (hs : Sound p)
    (htwo : 2 ≤ p.palette.length) (hheld : ∀ r ∈ repeats pixels, Held p r.1) (hcount : pixels.length = height * width) :
    ∃ runs, zputEntries p (repeats pixels) = some runs ∧
      (p.palette.flatMap f.cpixel ++ runs).length = entrySizes (repeats pixels) + p.palette.length * f.cpixelBytes ∧
      ∀ rest, f.readZrleTile width height
          (UInt8.ofNat (128 + p.palette.length) :: (p.palette.flatMap f.cpixel ++ runs) ++ rest) =
        some (pixels.map f.carried, rest) := by
  have htotal : runPixels (repeats pixels) = height * width := by rw [runPixels_eq, expand_repeats, hcount]
  have hlength := hs.length
  obtain ⟨runs, hwritten, hsize, hread⟩ := entries_read hs f.carried hheld fun r hr => repeats_pos hr
  refine ⟨runs, hwritten, ?_, fun rest => ?_⟩
  · rw [List.length_append, flatMap_cpixel_length h, hsize, Nat.add_comm]
  · have hkind : (UInt8.ofNat (128 + p.palette.length)).toNat = 128 + p.palette.length := by
      rw [UInt8.toNat_ofNat', Nat.mod_eq_of_lt (by omega)]
    have hruns := hread rest (height * width) htotal.le
    rw [htotal, expand_repeats] at hruns
    rw [List.cons_append, readZrleTile, readZrleBody, hkind, if_neg (by omega), if_neg (by omega), if_neg (by omega),
      if_neg (by omega), if_pos (by omega), Nat.add_sub_cancel_left, List.append_assoc, takeCPixels_cpixels h,
      Option.bind_some]
    exact hruns

/-- A tile in plain RLE. -/
theorem plainRle_tile (h : f.Accepted) {pixels : List UInt32} (hcount : pixels.length = height * width) (rest : Bytes) :
    f.readZrleTile width height
        (128 :: ((repeats pixels).flatMap fun run => f.cpixel run.1 ++ vncZputRunLength run.2) ++ rest) =
      some (pixels.map f.carried, rest) := by
  have htotal : runPixels (repeats pixels) = height * width := by rw [runPixels_eq, expand_repeats, hcount]
  have hruns := plain_read h (repeats pixels) (fun r hr => repeats_pos hr) rest htotal.le
  rw [htotal, expand_repeats] at hruns
  rw [List.cons_append, readZrleTile, readZrleBody, if_neg (by decide), if_neg (by decide), if_neg (by decide),
    if_pos (by decide)]
  exact hruns

/-- A raw tile. -/
theorem raw_tile (h : f.Accepted) {pixels : List UInt32} (hcount : pixels.length = height * width) (rest : Bytes) :
    f.readZrleTile width height (0 :: pixels.flatMap f.cpixel ++ rest) = some (pixels.map f.carried, rest) := by
  have hpixels := takeCPixels_cpixels h pixels rest
  rw [hcount] at hpixels
  rw [List.cons_append, readZrleTile, readZrleBody, if_pos (by decide)]
  exact hpixels

/-- **What is written** is what was chosen by its size, and reads as the tile. -/
theorem zwrite_read (h : f.Accepted) (tile : TilePixels) (hw : 0 < width) (hh : 0 < height) (hwidth : width ≤ 64)
    (hheight : height ≤ 64) {m : ZMeasure} (hs : Sound m.palette)
    (hall : m.tooMany = false → ∀ r ∈ repeats (raster width height tile), Held m.palette r.1)
    (hplain : m.plainSize = f.plainSizes (repeats (raster width height tile)))
    (hentries : m.paletteRleSize = entrySizes (repeats (raster width height tile))) :
    ∃ bytes, f.zwrite width height tile m = some bytes ∧ bytes.length ≤ width * height * f.cpixelBytes + 1 ∧
      ∀ rest, f.readZrleTile width height (bytes ++ rest) = some ((raster width height tile).map f.carried, rest) := by
  obtain ⟨hbytes, hbytes4⟩ := cpixelBytes_bounds h
  have hcount : (raster width height tile).length = height * width := raster_length width height tile
  have harea : 0 < width * height ∧ width * height ≤ 64 * 64 := ⟨Nat.mul_pos hw hh, Nat.mul_le_mul hwidth hheight⟩
  have hraw : width * height * f.cpixelBytes ≤ 64 * 64 * 4 := Nat.mul_le_mul harea.2 hbytes4
  have hrawOne : f.cpixelBytes ≤ width * height * f.cpixelBytes := Nat.le_mul_of_pos_left _ harea.1
  unfold zwrite
  dsimp only
  split
  · rename_i hsolid
    rw [Bool.and_eq_true, Bool.not_eq_true', beq_iff_eq] at hsolid
    refine ⟨_, rfl, ?_, solid_zrle_read h hs hsolid.2 (pixels_held (hall hsolid.1)) hcount⟩
    rw [List.length_cons, cpixel_length h]
    omega
  rename_i hmany
  -- a tile that was collected has two colours or more
  have hcolours : m.tooMany = false → 2 ≤ m.palette.palette.length := by
    intro hfew
    rw [hfew, Bool.not_false, Bool.true_and, beq_iff_eq] at hmany
    have hfirst : tile 0 0 ∈ raster width height tile := mem_raster.2 ⟨0, hh, 0, hw, rfl⟩
    have := List.length_pos_of_mem ((pixels_held (hall hfew) _ hfirst).mem hs)
    omega
  generalize hpacks : (!m.tooMany && decide (m.palette.palette.length ≤ 16)) = packs
  generalize hpackedSize : (if packs = true then m.palette.palette.length * f.cpixelBytes +
    height * ((width * (if packs = true then zbits m.palette.palette.length else 0) + 7) / 8) else zsizeNone) = packedSize
  generalize hpaletteSize : (if m.tooMany = true then zsizeNone else
    m.paletteRleSize + m.palette.palette.length * f.cpixelBytes) = paletteRleSize
  generalize hbest : zbest _ _ _ _ = best
  have hle : best ≤ width * height * f.cpixelBytes := hbest ▸ zbest_le _ _ _ _
  have hnone : best ≠ zsizeNone := by
    unfold zsizeNone
    omega
  by_cases hpacked : best = packedSize
  · rw [if_pos hpacked]
    cases packs with
    | false => exact absurd (hpacked.trans hpackedSize.symm) hnone
    | true =>
      rw [Bool.and_eq_true, Bool.not_eq_true', decide_eq_true_eq] at hpacks
      obtain ⟨rows, hrows, hsize, hread⟩ :=
        packed_tile h tile hs (hcolours hpacks.1) hpacks.2 (pixels_held (hall hpacks.1))
      rw [if_pos rfl, if_pos rfl, ← hsize] at hpackedSize
      rw [if_pos rfl, hrows]
      refine ⟨_, rfl, ?_, hread⟩
      rw [List.length_cons, hpackedSize]
      omega
  rw [if_neg hpacked]
  by_cases hpaletteRle : best = paletteRleSize
  · rw [if_pos hpaletteRle]
    rcases Bool.eq_false_or_eq_true m.tooMany with hfull | hfew
    · rw [if_pos hfull] at hpaletteSize
      exact absurd (hpaletteRle.trans hpaletteSize.symm) hnone
    · obtain ⟨runs, hruns, hsize, hread⟩ := paletteRle_tile h hs (hcolours hfew) (hall hfew) hcount
      rw [if_neg (by rw [hfew]; decide), hentries, ← hsize] at hpaletteSize
      rw [hruns]
      refine ⟨_, rfl, ?_, hread⟩
      rw [List.length_cons, hpaletteSize]
      omega
  rw [if_neg hpaletteRle]
  by_cases hplainRle : best = m.plainSize
  · rw [if_pos hplainRle]
    refine ⟨_, rfl, ?_, plainRle_tile h hcount⟩
    rw [List.length_cons, plain_length h, ← hplain]
    omega
  · rw [if_neg hplainRle]
    refine ⟨_, rfl, ?_, raw_tile h hcount⟩
    rw [List.length_cons, flatMap_cpixel_length h, hcount, Nat.mul_comm height width]

/-- **A tile** takes its raw size and a byte at most, and reads as its pixels. -/
theorem zrleTile_read (h : f.Accepted) (tile : TilePixels) (hw : 0 < width) (hh : 0 < height) (hwidth : width ≤ 64)
    (hheight : height ≤ 64) :
    ∃ bytes, f.encodeZrleTile width height tile = some bytes ∧ bytes.length ≤ width * height * f.cpixelBytes + 1 ∧
      ∀ rest, f.readZrleTile width height (bytes ++ rest) = some ((raster width height tile).map f.carried, rest) := by
  obtain ⟨m, hm, hs, -, hall, hplain, hentries⟩ :=
    measure_spec (f := f) (repeats (raster width height tile)) ⟨.empty, false, 0, 0⟩ sound_empty
  rw [encodeZrleTile, hm, Option.bind_some]
  exact zwrite_read h tile hw hh hwidth hheight hs (fun hfew => (hall hfew).2) (hplain.trans (Nat.zero_add _))
    (hentries.trans (Nat.zero_add _))

/-! ## Rectangles -/

theorem zrleTileSize_bounds {length tile : ℕ} (h : tile < zrleTiles length) :
    0 < zrleTileSize length tile ∧ zrleTileSize length tile ≤ 64 ∧ zrleTileSize length tile ≤ length := by
  unfold zrleTiles at h
  unfold zrleTileSize vncZrleTile at *
  split <;> omega

/-- The size a tile takes at most. -/
def TileRoom (f : VncFormat) (width height : ℕ) (p : ℕ × ℕ) (bytes : Bytes) : Prop :=
  bytes.length ≤ zrleTileSize width p.2 * zrleTileSize height p.1 * f.cpixelBytes + 1

/-- **The tiles of a rectangle** are written in their room and read in their places. -/
theorem zrleTiles_read (h : f.Accepted) (frame : Frame) (x y : ℕ) {positions : List (ℕ × ℕ)}
    (hin : ∀ p ∈ positions, p.1 < zrleTiles height ∧ p.2 < zrleTiles width) :
    ∃ tiles, (positions.mapM fun p => f.encodeZrleTile (zrleTileSize width p.2) (zrleTileSize height p.1)
          (f.zrlePixels frame x y p)) = some tiles ∧
      List.Forall₂ (f.TileRoom width height) positions tiles ∧
        ∀ (picture : Picture) (rest : Bytes), ∃ result : Picture,
          f.readZrleFrom width height positions picture (tiles.flatten ++ rest) = some (result, rest) ∧
            ∀ row < height, ∀ column < width,
              (row / vncZrleTile, column / vncZrleTile) ∈ positions ∨
                  picture row column = f.carried (f.translate (frame (y + row) (x + column))) →
                result row column = f.carried (f.translate (frame (y + row) (x + column))) := by
  induction positions with
  | nil => exact ⟨[], rfl, .nil, fun picture rest =>
      ⟨picture, rfl, fun row _ column _ hright => hright.resolve_left List.not_mem_nil⟩⟩
  | cons p positions ih =>
    obtain ⟨hrow, hcolumn⟩ := hin p List.mem_cons_self
    obtain ⟨hh, hheight, -⟩ := zrleTileSize_bounds hrow
    obtain ⟨hw, hwidth, -⟩ := zrleTileSize_bounds hcolumn
    obtain ⟨tile, htile, hroom, hread⟩ := zrleTile_read h (f.zrlePixels frame x y p) hw hh hwidth hheight
    obtain ⟨tiles, htiles, hrooms, hreads⟩ := ih fun q hq => hin q (List.mem_cons_of_mem _ hq)
    refine ⟨tile :: tiles, ?_, .cons hroom hrooms, fun picture rest => ?_⟩
    · rw [List.mapM_cons, htile, htiles]
      rfl
    obtain ⟨tileRow, tileColumn⟩ := p
    rw [List.flatten_cons, List.append_assoc, readZrleFrom, hread, Option.bind_some]
    dsimp only
    obtain ⟨result, hresult, hright⟩ := hreads (fun i j =>
      if i / vncZrleTile = tileRow ∧ j / vncZrleTile = tileColumn then
        ((raster (zrleTileSize width tileColumn) (zrleTileSize height tileRow)
          (f.zrlePixels frame x y (tileRow, tileColumn))).map f.carried).getD
            (i % vncZrleTile * zrleTileSize width tileColumn + j % vncZrleTile) 0
      else picture i j) rest
    refine ⟨result, hresult, fun row hr column hc hdone => hright row hr column hc ?_⟩
    by_cases hhere : row / vncZrleTile = tileRow ∧ column / vncZrleTile = tileColumn
    · -- a pixel of this tile
      obtain ⟨rfl, rfl⟩ := hhere
      have hi : row % vncZrleTile < zrleTileSize height (row / vncZrleTile) := by
        unfold zrleTileSize vncZrleTile
        split <;> omega
      have hj : column % vncZrleTile < zrleTileSize width (column / vncZrleTile) := by
        unfold zrleTileSize vncZrleTile
        split <;> omega
      right
      rw [if_pos ⟨rfl, rfl⟩, map_raster, raster_getD _ hi hj, zrlePixels, Nat.add_assoc, Nat.add_assoc, Nat.div_add_mod',
        Nat.div_add_mod']
    · rw [if_neg hhere]
      refine hdone.imp_left fun hmem => (List.mem_cons.1 hmem).resolve_left fun heq => hhere ?_
      exact Prod.mk.inj heq

/-- Tiles in their room take what there is for all of them. -/
theorem flatten_length_le {room : ℕ} {positions : List (ℕ × ℕ)} {tiles : List Bytes}
    (h : List.Forall₂ (fun _ bytes => bytes.length ≤ room) positions tiles) :
    tiles.flatten.length ≤ positions.length * room := by
  induction h with
  | nil => exact Nat.zero_le _
  | cons hone _ ih =>
    rw [List.flatten_cons, List.length_append, List.length_cons, Nat.succ_mul]
    omega

/-- **A rectangle** fits the buffer, and its pixels are read as their CPIXELs carry them. -/
theorem zrleRect_read (h : f.Accepted) (frame : Frame) (x y : ℕ) (hwidth : width ≤ vncMaxDim) (hheight : height ≤ vncTile) :
    ∃ tiles, f.encodeZrle frame x y width height = some tiles ∧
      List.Forall₂ (f.TileRoom width height) (raster (zrleTiles width) (zrleTiles height) Prod.mk) tiles ∧
      tiles.flatten.length ≤ vncZrleRawCap ∧
      ∀ rest, ∃ picture, f.readZrle width height (tiles.flatten ++ rest) = some (picture, rest) ∧
        ∀ row < height, ∀ column < width, picture row column = f.carried (f.translate (frame (y + row) (x + column))) := by
  obtain ⟨tiles, htiles, hrooms, hreads⟩ := zrleTiles_read h frame x y fun _ hp => mem_positions.1 hp
  refine ⟨tiles, htiles, hrooms, ?_, fun rest => ?_⟩
  · -- a tile has at most 64 columns, 16 rows and 4 bytes a pixel
    have hroom : List.Forall₂ (fun _ bytes => bytes.length ≤ 64 * 16 * 4 + 1)
        (raster (zrleTiles width) (zrleTiles height) Prod.mk) tiles := by
      refine (List.forall₂_iff_get.1 hrooms).elim fun hlength hget => List.forall₂_iff_get.2 ⟨hlength, fun i h1 h2 => ?_⟩
      refine le_trans (hget i h1 h2) ?_
      obtain ⟨hrow, hcolumn⟩ := mem_positions.1 (List.get_mem _ ⟨i, h1⟩)
      have htall : zrleTileSize height ((raster (zrleTiles width) (zrleTiles height) Prod.mk).get ⟨i, h1⟩).1 ≤ 16 :=
        le_trans (zrleTileSize_bounds hrow).2.2 hheight
      exact Nat.succ_le_succ
        (Nat.mul_le_mul (Nat.mul_le_mul (zrleTileSize_bounds hcolumn).2.1 htall) (cpixelBytes_bounds h).2)
    have hcount : zrleTiles height * zrleTiles width ≤ 1 * 64 := by
      unfold vncMaxDim at hwidth
      unfold vncTile at hheight
      refine Nat.mul_le_mul ?_ ?_ <;> unfold zrleTiles vncZrleTile <;> omega
    refine le_trans (flatten_length_le hroom) ?_
    rw [raster_length]
    exact le_trans (Nat.mul_le_mul_right _ hcount) (by decide)
  · obtain ⟨picture, hread, hright⟩ := hreads (fun _ _ => 0) rest
    refine ⟨picture, hread, fun row hrow column hcolumn => hright row hrow column hcolumn (Or.inl ?_)⟩
    refine mem_positions.2 ⟨?_, ?_⟩ <;> unfold zrleTiles vncZrleTile <;> omega

end VncFormat

open VncFormat in
/-- **The ZRLE round trip.** Whatever the format, the screen and the rectangle, every search of
a palette ends, each tile takes its raw size and a byte at most, all of them fit the buffer,
and the viewer reads a pixel exactly where its CPIXEL leaves out a zero byte or none; where
the maxima are all ones that is everywhere. -/
theorem zrle_round_trip {f : VncFormat} (h : f.InUse) (frame : Frame) (x y : ℕ) {width height : ℕ}
    (hwidth : width ≤ vncMaxDim) (hheight : height ≤ vncTile) :
    (∃ tiles, f.encodeZrle frame x y width height = some tiles ∧
      List.Forall₂ (f.TileRoom width height) (raster (zrleTiles width) (zrleTiles height) Prod.mk) tiles ∧
      tiles.flatten.length ≤ vncZrleRawCap ∧
      ∀ rest, ∃ picture, f.readZrle width height (tiles.flatten ++ rest) = some (picture, rest) ∧
        ∀ row < height, ∀ column < width,
          (picture row column = (f.translate (frame (y + row) (x + column))).toNat ↔
            f.Kept (f.translate (frame (y + row) (x + column))))) ∧
    ((∃ k, f.redMax.toNat = 2 ^ k - 1) ∧ (∃ k, f.greenMax.toNat = 2 ^ k - 1) ∧ (∃ k, f.blueMax.toNat = 2 ^ k - 1) →
      ∀ native, f.Kept (f.translate native)) := by
  have h := h.accepted
  refine ⟨?_, fun hones => kept_of_ones h hones⟩
  obtain ⟨tiles, htiles, hrooms, hlength, hread⟩ := zrleRect_read h frame x y hwidth hheight
  refine ⟨tiles, htiles, hrooms, hlength, fun rest => ?_⟩
  obtain ⟨picture, hpicture, hright⟩ := hread rest
  refine ⟨picture, hpicture, fun row hrow column hcolumn => ?_⟩
  rw [hright row hrow column hcolumn]
  exact carried_iff h (translate_lt h _)

/-- Two colours pack to one bit each, in rows of whole bytes. -/
theorem zrle_round_trip_demo :
    vncDefaultFormat.encodeZrle dottedFrame 0 0 17 2 = some [[2, 255, 0, 0, 0, 0, 0, 127, 255, 128, 191, 255, 128]] ∧
    ∃ tiles, vncDefaultFormat.encodeZrle dottedFrame 0 0 17 2 = some tiles ∧
      List.Forall₂ (vncDefaultFormat.TileRoom 17 2) (raster (VncFormat.zrleTiles 17) (VncFormat.zrleTiles 2) Prod.mk) tiles ∧
      tiles.flatten.length ≤ vncZrleRawCap ∧
      ∀ rest, ∃ picture, vncDefaultFormat.readZrle 17 2 (tiles.flatten ++ rest) = some (picture, rest) ∧
        ∀ row < 2, ∀ column < 17,
          (picture row column = (vncDefaultFormat.translate (dottedFrame (0 + row) (0 + column))).toNat ↔
            vncDefaultFormat.Kept (vncDefaultFormat.translate (dottedFrame (0 + row) (0 + column)))) :=
  ⟨by decide, (zrle_round_trip (Or.inl rfl) dottedFrame 0 0 (by decide) (by decide)).1⟩

/-- **A short CPIXEL can lose a colour**: under a maximum of 256 the byte it leaves out is not
zero, and a pixel of 1 is read as 0. -/
theorem zrle_loses_byte :
    vncSetPixelFormat looseMaximum = some (wantedFormat looseMaximum) ∧
    (wantedFormat looseMaximum).encodeZrle (fun _ _ => 0x00010000) 0 0 1 1 = some [[1, 0, 0, 0]] ∧
    ((wantedFormat looseMaximum).readZrle 1 1 [1, 0, 0, 0]).map (fun r => r.1 0 0) = some 0 ∧
    ((wantedFormat looseMaximum).translate 0x00010000).toNat = 1 := by
  refine ⟨by decide, by decide, by decide, by decide⟩

end V9xRemote
