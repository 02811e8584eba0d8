import V9xRemote.Lib.Probing
import V9xRemote.Proof.ShotResample

/-!
# The colour table

A table of the colours so far, by open addressing: each slot in use holds a colour's key and its number in the palette.
The table has more slots than colours, so a search in it comes to an empty slot. Each index names its pixel's colour.
-/

namespace V9xRemote

open Bytes Checked Segments

section

variable {ε : Type} {s s' : ShotBuffers} {work : Bytes} {R : ε → ShotBuffers → Prop}

/-! ## Colours and keys -/

theorem at'_set_ne {i k : ℕ} {b : UInt8} (h : k ≠ i) : at' (work.set i b) k = work.at' k := by
  rw [at', at', List.getD_eq_getElem?_getD, List.getD_eq_getElem?_getD, List.getElem?_set_ne (Ne.symm h)]

theorem at'_set_self {i : ℕ} {b : UInt8} (h : i < work.length) : at' (work.set i b) i = b := by
  rw [at', List.getD_eq_getElem?_getD, List.getElem?_set_self h]
  rfl

/-- The key of a colour. -/
def shotKey (c : Colour) : UInt32 := (c.r.toUInt32 <<< 16) ||| (c.g.toUInt32 <<< 8) ||| c.b.toUInt32

theorem shotKey_toNat (c : Colour) : (shotKey c).toNat = c.b.toNat + 2 ^ 8 * c.g.toNat + 2 ^ 16 * c.r.toNat := by
  have hword : shotKey c = readU32 [c.b, c.g, c.r, 0] 0 := by
    have hzero : (0 : UInt8).toUInt32 <<< 24 = 0 := by decide
    rw [shotKey, readU32]
    change _ = c.b.toUInt32 ||| c.g.toUInt32 <<< 8 ||| c.r.toUInt32 <<< 16 ||| (0 : UInt8).toUInt32 <<< 24
    rw [hzero, UInt32.or_zero, UInt32.or_assoc c.b.toUInt32, UInt32.or_comm (c.r.toUInt32 <<< 16),
      UInt32.or_comm _ c.b.toUInt32]
  rw [hword, toNat_readU32]
  change c.b.toNat + 2 ^ 8 * c.g.toNat + 2 ^ 16 * c.r.toNat + 2 ^ 24 * (0 : UInt8).toNat = _
  rfl

/-- A key is that of one colour. -/
theorem shotKey_injective {c c' : Colour} (h : shotKey c = shotKey c') : c = c' := by
  have hnat := congrArg UInt32.toNat h
  rw [shotKey_toNat, shotKey_toNat] at hnat
  have hlt : ∀ b : UInt8, b.toNat < 256 := fun b => b.toNat_lt
  have h1 := hlt c.b
  have h2 := hlt c.g
  have h3 := hlt c'.b
  have h4 := hlt c'.g
  obtain ⟨b, g, r⟩ := c
  obtain ⟨b', g', r'⟩ := c'
  dsimp only at hnat h1 h2 h3 h4
  obtain rfl : b = b' := UInt8.toNat_inj.1 (by omega)
  obtain rfl : g = g' := UInt8.toNat_inj.1 (by omega)
  obtain rfl : r = r' := UInt8.toNat_inj.1 (by omega)
  rfl

/-- A key and one is not 0, the mark of an empty slot. -/
theorem shotKey_mark (c : Colour) : shotKey c + 1 ≠ 0 := by
  intro h
  have hnat := congrArg UInt32.toNat h
  have hone : (1 : UInt32).toNat = 1 := rfl
  have hzero : (0 : UInt32).toNat = 0 := rfl
  have hlt : ∀ b : UInt8, b.toNat < 256 := fun b => b.toNat_lt
  have h1 := hlt c.b
  have h2 := hlt c.g
  have h3 := hlt c.r
  rw [UInt32.toNat_add, shotKey_toNat, hone, hzero] at hnat
  omega

/-! ## The search -/

/-- The word of a slot: the colour and one, 0 where the slot is empty. -/
def keyWord (work : Bytes) (slot : ℕ) : UInt32 := work.readU32 (shotWorkKeys + slot * 4)

/-- The table that the work buffer holds. -/
def keysTable (work : Bytes) : Probing.Table UInt32 := ⟨fun slot => keyWord work slot != 0, fun slot => keyWord work slot - 1⟩

theorem post_workGet32 {i : ℕ} {Q : UInt32 → ShotBuffers → Prop} (hroom : i + 4 ≤ s.work.length) (h : Q (s.work.readU32 i) s) :
    Post (workGet32 i) s Q R := by
  simp only [workGet32, post_bind, post_readWork, post_pure]
  exact ⟨by omega, by omega, by omega, by omega, h⟩

theorem keysTable_ends (work : Bytes) (key : UInt32) (slot : ℕ) :
    (keysTable work).ends key slot = true ↔ keyWord work slot = key + 1 ∨ keyWord work slot = 0 := by
  rw [Probing.Table.ends_iff]
  simp only [keysTable, bne_iff_ne, ne_eq]
  constructor
  · intro h
    by_cases hzero : keyWord work slot = 0
    · exact .inr hzero
    · left
      rw [← h hzero, UInt32.sub_add_cancel]
  · rintro (h | h) hne
    · rw [h, UInt32.add_sub_cancel]
    · exact absurd h hne

/-- **The search** goes the way of a probe, and ends where that ends. -/
theorem post_shotProbe {key : UInt32} {found : ℕ} (hwork : shotWorkValues ≤ s.work.length) (left slot : ℕ)
    (hslot : slot < shotHashSlots)
    (h : Probing.probe shotHashSlots ((keysTable s.work).ends key) left slot = some found) :
    Post (shotProbe key left slot) s
      (fun r s' => s' = s ∧ r.1 = found ∧ keyWord s.work found = if r.2 then key + 1 else 0) R := by
  have hvalues : shotWorkKeys + shotHashSlots * 4 = shotWorkValues := rfl
  induction left generalizing slot with
  | zero => cases h
  | succ left ih =>
    rw [Probing.probe] at h
    rw [shotProbe, post_bind]
    refine post_workGet32 (by omega) ?_
    rw [post_ite]
    have hends := keysTable_ends s.work key slot
    refine ⟨fun hkey => ?_, fun hkey => ?_⟩
    · rw [if_pos (hends.2 (.inl hkey))] at h
      obtain rfl := Option.some.inj h
      exact post_pure.2 ⟨rfl, rfl, hkey⟩
    rw [post_ite]
    refine ⟨fun hzero => ?_, fun hzero => ?_⟩
    · rw [if_pos (hends.2 (.inr hzero))] at h
      obtain rfl := Option.some.inj h
      exact post_pure.2 ⟨rfl, rfl, hzero⟩
    · have hgoes : ¬(keysTable s.work).ends key slot = true := fun h => (hends.1 h).elim hkey hzero
      have hmask : (slot + 1) &&& (shotHashSlots - 1) = (slot + 1) % shotHashSlots := Nat.and_two_pow_sub_one_eq_mod (slot + 1) 10
      rw [if_neg hgoes] at h
      rw [hmask]
      exact ih _ (Nat.mod_lt _ (by decide)) h

theorem shotHash_lt (key : UInt32) : shotHash key < shotHashSlots := by
  have h1023 : (1023 : UInt32).toNat = 1023 := rfl
  rw [shotHash, UInt32.toNat_and, h1023]
  exact Nat.lt_of_le_of_lt Nat.and_le_right (by decide)

/-! ## What the work buffer holds -/

/-- The number of a slot's colour. -/
def slotNumber (work : Bytes) (slot : ℕ) : ℕ := (work.at' (shotWorkValues + slot)).toNat

/-- An entry of the palette. -/
def entryColour (work : Bytes) (number : ℕ) : Colour := storedColour work (number * 4)

/-- The index of a pixel, counted through the rows. -/
def pixelIndex (work : Bytes) (i : ℕ) : ℕ := (work.at' (shotWorkIndices + i)).toNat

/-- **The table** holds so many colours: each slot in use has the key and the number of an entry. -/
structure TableHolds (work : Bytes) (colours : ℕ) : Prop where
  few : colours ≤ 256
  load : (keysTable work).load shotHashSlots ≤ colours
  slots : ∀ slot < shotHashSlots, keyWord work slot ≠ 0 →
    slotNumber work slot < colours ∧ keyWord work slot = shotKey (entryColour work (slotNumber work slot)) + 1

/-- **The first indices** name the pixels' colours. -/
def Names (work : Bytes) (colours : ℕ) (pixel : ℕ → Colour) (n : ℕ) : Prop :=
  ∀ i < n, pixelIndex work i < colours ∧ entryColour work (pixelIndex work i) = pixel i

/-- An index more, of a colour that is there. -/
structure IndexPut (work work' : Bytes) (n number : ℕ) : Prop where
  length : work'.length = work.length
  below : ∀ k < shotWorkIndices, work'.at' k = work.at' k
  indices : ∀ i < n, pixelIndex work' i = pixelIndex work i
  index : pixelIndex work' n = number

theorem indexPut_set {n : ℕ} {b : UInt8} (h : shotWorkIndices + n < work.length) :
    IndexPut work (work.set (shotWorkIndices + n) b) n b.toNat := by
  refine ⟨List.length_set, fun k hk => at'_set_ne (by omega), fun i hi => ?_, ?_⟩
  · rw [pixelIndex, pixelIndex, at'_set_ne (by omega)]
  · rw [pixelIndex, at'_set_self h]

section

variable {work' : Bytes} {n number colours slot : ℕ} {pixel : ℕ → Colour} {c : Colour}

theorem keyWord_congr (h : ∀ k < shotWorkIndices, work'.at' k = work.at' k) (hslot : slot < shotHashSlots) :
    keyWord work' slot = keyWord work slot := by
  have hsizes : shotWorkKeys = 1024 ∧ shotHashSlots = 1024 ∧ shotWorkIndices = 6144 := ⟨rfl, rfl, rfl⟩
  rw [keyWord, keyWord, readU32, readU32, h _ (by omega), h _ (by omega), h _ (by omega), h _ (by omega)]

theorem entryColour_congr (h : ∀ k < shotWorkIndices, work'.at' k = work.at' k) (hnumber : number < 256) :
    entryColour work' number = entryColour work number := by
  have hsize : shotWorkIndices = 6144 := rfl
  rw [entryColour, entryColour, storedColour, storedColour, h _ (by omega), h _ (by omega), h _ (by omega)]

theorem slotNumber_congr (h : ∀ k < shotWorkIndices, work'.at' k = work.at' k) (hslot : slot < shotHashSlots) :
    slotNumber work' slot = slotNumber work slot := by
  have hsizes : shotWorkValues = 5120 ∧ shotHashSlots = 1024 ∧ shotWorkIndices = 6144 := ⟨rfl, rfl, rfl⟩
  rw [slotNumber, slotNumber, h _ (by omega)]

/-- The loads of two tables with the same keys. -/
theorem load_congr (h : ∀ slot < shotHashSlots, keyWord work' slot = keyWord work slot) :
    (keysTable work').load shotHashSlots = (keysTable work).load shotHashSlots := by
  have hused : ∀ slot ∈ Finset.range shotHashSlots,
      ((keysTable work').used slot = true ↔ (keysTable work).used slot = true) := by
    intro slot hslot
    simp only [keysTable, h slot (Finset.mem_range.1 hslot)]
  exact congrArg Finset.card (Finset.filter_congr hused)

theorem TableHolds.indexPut (h : TableHolds work colours) (hput : IndexPut work work' n number) : TableHolds work' colours := by
  have hkeys : ∀ slot < shotHashSlots, keyWord work' slot = keyWord work slot := fun slot hslot =>
    keyWord_congr hput.below hslot
  refine ⟨h.few, by rw [load_congr hkeys]; exact h.load, fun slot hslot hused => ?_⟩
  rw [hkeys slot hslot] at hused ⊢
  have hfew := h.few
  obtain ⟨hlt, hkey⟩ := h.slots slot hslot hused
  rw [slotNumber_congr hput.below hslot, entryColour_congr hput.below (by omega)]
  exact ⟨hlt, hkey⟩

/-- **One index more names its colour**, where its number does. -/
theorem Names.indexPut (h : Names work colours pixel n) (hfew : colours ≤ 256) (hput : IndexPut work work' n number)
    (hnumber : number < colours) (hcolour : entryColour work number = pixel n) : Names work' colours pixel (n + 1) := by
  intro i hi
  rcases Nat.lt_succ_iff_lt_or_eq.1 hi with hlt | rfl
  · obtain ⟨hless, hnamed⟩ := h i hlt
    rw [hput.indices i hlt, entryColour_congr hput.below (by omega)]
    exact ⟨hless, hnamed⟩
  · rw [hput.index, entryColour_congr hput.below (by omega)]
    exact ⟨hnumber, hcolour⟩

/-- A colour more: its key and its number in an empty slot, and its entry. -/
structure ColourPut (work work' : Bytes) (slot number : ℕ) (c : Colour) : Prop where
  length : work'.length = work.length
  key : keyWord work' slot = shotKey c + 1
  keys : ∀ other < shotHashSlots, other ≠ slot → keyWord work' other = keyWord work other
  value : slotNumber work' slot = number
  values : ∀ other < shotHashSlots, other ≠ slot → slotNumber work' other = slotNumber work other
  entry : entryColour work' number = c
  entries : ∀ other < number, entryColour work' other = entryColour work other
  indices : ∀ i, pixelIndex work' i = pixelIndex work i

/-- **The table with a colour more.** -/
theorem TableHolds.colourPut (h : TableHolds work colours) (hless : colours < 256) (hput : ColourPut work work' slot colours c) :
    TableHolds work' (colours + 1) := by
  have hload := h.load
  refine ⟨hless, ?_, fun other hother hused => ?_⟩
  · refine le_trans (@Probing.Table.load_le_succ _ _ slot (keysTable work) _ fun k hk hused => ?_) (by omega)
    by_cases hsame : k = slot
    · exact .inr hsame
    · left
      simp only [keysTable] at hused ⊢
      rwa [hput.keys k hk hsame] at hused
  · by_cases hsame : other = slot
    · rw [hsame, hput.value, hput.key, hput.entry]
      exact ⟨Nat.lt_succ_self _, rfl⟩
    · rw [hput.keys other hother hsame] at hused ⊢
      obtain ⟨hlt, hkey⟩ := h.slots other hother hused
      rw [hput.values other hother hsame, hput.entries _ hlt]
      exact ⟨by omega, hkey⟩

theorem Names.colourPut (h : Names work colours pixel n) (hput : ColourPut work work' slot colours c) :
    Names work' (colours + 1) pixel n := by
  intro i hi
  obtain ⟨hlt, hnamed⟩ := h i hi
  rw [hput.indices i, hput.entries _ hlt]
  exact ⟨by omega, hnamed⟩

end

/-! ## Compact -/

/-- Only the work buffer is written. -/
structure WorkOnly (s s' : ShotBuffers) : Prop where
  output : s'.output = s.output
  length : s'.work.length = s.work.length

/-- What the loop over the pixels keeps, `n` of them done. -/
structure Compacted (s : ShotBuffers) (pixel : ℕ → Colour) (n colours : ℕ) (s' : ShotBuffers) : Prop where
  same : WorkOnly s s'
  table : TableHolds s'.work colours
  names : Names s'.work colours pixel n

/-- **A new colour** is put in the table and the palette. -/
theorem post_putColour {slot target colours : ℕ} {c : Colour} {Q : ℕ → ShotBuffers → Prop} (hslot : slot < shotHashSlots)
    (hcolours : colours < 256) (htarget : shotWorkIndices ≤ target) (hroom : target < s.work.length)
    (h : ∀ work', ColourPut s.work work' slot colours c → Q (colours + 1) ⟨s.output, work'.set target (UInt8.ofNat colours)⟩) :
    Post (do
        workPut32 (shotWorkKeys + slot * 4) (shotKey c + 1)
        putWork (shotWorkValues + slot) (UInt8.ofNat colours)
        putWork (colours * 4) c.b
        putWork (colours * 4 + 1) c.g
        putWork (colours * 4 + 2) c.r
        putWork (colours * 4 + 3) 0
        putWork target (UInt8.ofNat colours)
        return colours + 1) s Q R := by
  have hsizes : shotWorkKeys = 1024 ∧ shotWorkValues = 5120 ∧ shotHashSlots = 1024 ∧ shotWorkIndices = 6144 :=
    ⟨rfl, rfl, rfl, rfl⟩
  simp only [workPut32, post_bind, post_putWork, post_pure, List.length_set]
  refine ⟨by omega, by omega, by omega, by omega, by omega, by omega, by omega, by omega, by omega, by omega, h _ ?_⟩
  have hnumber : (UInt8.ofNat colours).toNat = colours := UInt8.toNat_ofNat_of_lt' hcolours
  refine ⟨by simp only [List.length_set], ?_, fun other hother hne => ?_, ?_, fun other hother hne => ?_, ?_,
    fun other hother => ?_, fun i => ?_⟩
  · have hword := readU32_writeU32 (shotKey c + 1) []
    rw [List.append_nil, readU32] at hword
    rw [keyWord, readU32]
    simp (disch := first | omega | (simp only [List.length_set]; omega)) only [at'_set_ne, at'_set_self]
    exact hword
  · rw [keyWord, keyWord, readU32, readU32]
    simp (disch := omega) only [at'_set_ne]
  · rw [slotNumber]
    simp (disch := omega) only [at'_set_ne]
    rw [at'_set_self (by simp only [List.length_set]; omega), hnumber]
  · rw [slotNumber, slotNumber]
    simp (disch := omega) only [at'_set_ne]
  · rw [entryColour, storedColour]
    simp (disch := first | omega | (simp only [List.length_set]; omega)) only [at'_set_ne, at'_set_self]
  · rw [entryColour, entryColour, storedColour, storedColour]
    simp (disch := omega) only [at'_set_ne]
  · rw [pixelIndex, pixelIndex]
    simp (disch := omega) only [at'_set_ne]

/-- **A pixel of COMPACT** is found in the table or put in it; the table does not get full. -/
theorem post_shotCompactPixel {n colours : ℕ} {pixel : ℕ → Colour} (hn : shotWorkIndices + n < s.work.length)
    (h : Compacted s pixel n colours s') :
    Post (shotCompactPixel (shotWorkIndices + n) (pixel n).b (pixel n).g (pixel n).r colours) s' (Compacted s pixel (n + 1))
      fun _ => WorkOnly s := by
  obtain ⟨hsame, htable, hnames⟩ := h
  have hfew := htable.few
  have hload := htable.load
  have hlength := hsame.length
  have hsizes : shotWorkKeys = 1024 ∧ shotWorkValues = 5120 ∧ shotHashSlots = 1024 ∧ shotWorkIndices = 6144 :=
    ⟨rfl, rfl, rfl, rfl⟩
  have hkey : ((pixel n).r.toUInt32 <<< 16 ||| (pixel n).g.toUInt32 <<< 8 ||| (pixel n).b.toUInt32) = shotKey (pixel n) := rfl
  rw [shotCompactPixel, post_bind]
  dsimp only
  rw [hkey]
  obtain ⟨slot, hslot, hprobe, -⟩ := Probing.Table.search_ends shotHash
    (by omega : (keysTable s'.work).load shotHashSlots < shotHashSlots) (shotHash_lt (shotKey (pixel n)))
  refine (post_shotProbe (by omega) _ _ (shotHash_lt _) hprobe).imp ?_ fun _ _ h => h
  rintro ⟨slot', found⟩ s₁ ⟨rfl, rfl, hword⟩
  dsimp only at hslot hword ⊢
  rw [post_ite]
  refine ⟨fun hfound => ?_, fun hfresh => ?_⟩
  · -- the slot's colour has this key, so it is this colour
    rw [if_pos hfound] at hword
    obtain ⟨hlt, hheld⟩ := htable.slots slot' hslot (by rw [hword]; exact shotKey_mark _)
    have hcolour : entryColour s₁.work (slotNumber s₁.work slot') = pixel n :=
      shotKey_injective ((UInt32.add_left_inj 1).1 (hheld.symm.trans hword))
    simp only [post_bind, post_readWork, post_putWork, post_pure]
    refine ⟨by omega, by omega, ⟨hsame.output, by rw [List.length_set, hlength]⟩, ?_, ?_⟩
    · exact htable.indexPut (indexPut_set (by omega))
    · exact hnames.indexPut hfew (indexPut_set (by omega)) hlt hcolour
  rw [post_ite]
  refine ⟨fun _ => post_stop.2 hsame, fun hroom => ?_⟩
  refine post_putColour hslot (by omega) (by omega) (by omega) ?_
  intro work' hput
  have hlength' := hput.length
  have hnumber : (UInt8.ofNat colours).toNat = colours := UInt8.toNat_ofNat_of_lt' (show colours < 256 by omega)
  have hindex : IndexPut work' (work'.set (shotWorkIndices + n) (UInt8.ofNat colours)) n colours := by
    have hset := indexPut_set (n := n) (b := UInt8.ofNat colours) (show shotWorkIndices + n < work'.length by omega)
    rwa [hnumber] at hset
  refine ⟨⟨hsame.output, by rw [List.length_set]; omega⟩, ?_, ?_⟩
  · exact (htable.colourPut (by omega) hput).indexPut hindex
  · exact (hnames.colourPut hput).indexPut (by omega) hindex (Nat.lt_succ_self _) hput.entry

/-- The keys are cleared. -/
theorem post_clearKeys (hroom : shotWorkValues ≤ s.work.length) :
    Post ((List.range (shotHashSlots * 4)).foldlM (fun _ x => putWork (shotWorkKeys + x) 0) ()) s
      (fun _ s' => WorkOnly s s' ∧ TableHolds s'.work 0) R := by
  have hvalues : shotWorkKeys + shotHashSlots * 4 = shotWorkValues := rfl
  refine (post_foldlM_range (I := fun n _ s' => WorkOnly s s' ∧ ∀ k < n, s'.work.at' (shotWorkKeys + k) = 0)
    (shotHashSlots * 4) ?_ ⟨⟨rfl, rfl⟩, fun k hk => absurd hk (Nat.not_lt_zero k)⟩).imp ?_ fun _ _ h => h
  · rintro x hx _ s' ⟨hsame, hzero⟩
    rw [post_putWork, hsame.length]
    refine ⟨by omega, ⟨hsame.output, by rw [List.length_set, hsame.length]⟩, fun k hk => ?_⟩
    have hlength := hsame.length
    dsimp only
    rcases Nat.lt_succ_iff_lt_or_eq.1 hk with hlt | rfl
    · rw [at'_set_ne (by omega)]
      exact hzero k hlt
    · exact at'_set_self (by omega)
  · rintro _ s' ⟨hsame, hzero⟩
    have hword : ∀ slot < shotHashSlots, keyWord s'.work slot = 0 := by
      intro slot hlt
      have h0 := hzero (slot * 4) (by omega)
      have h1 := hzero (slot * 4 + 1) (by omega)
      have h2 := hzero (slot * 4 + 2) (by omega)
      have h3 := hzero (slot * 4 + 3) (by omega)
      simp only [← Nat.add_assoc] at h0 h1 h2 h3
      rw [keyWord, readU32, h0, h1, h2, h3]
      rfl
    have hempty : ((Finset.range shotHashSlots).filter fun slot => (keysTable s'.work).used slot = true) = ∅ := by
      refine Finset.filter_eq_empty_iff.2 fun slot hslot => ?_
      simp [keysTable, hword slot (Finset.mem_range.1 hslot)]
    exact ⟨hsame, Nat.zero_le _, (Finset.card_eq_zero.2 hempty).le,
      fun slot hslot hused => absurd (hword slot hslot) hused⟩

/-! ## Grey -/

/-- What the loop over the pixels keeps in GRAY: the palette is there before it. -/
structure Grayed (s : ShotBuffers) (pixel : ℕ → Colour) (n colours : ℕ) (s' : ShotBuffers) : Prop where
  same : WorkOnly s s'
  all : colours = 256
  palette : ∀ number < 256, entryColour s'.work number = ⟨UInt8.ofNat number, UInt8.ofNat number, UInt8.ofNat number⟩
  names : Names s'.work colours (fun i => (pixel i).shown true) n

/-- **The grey palette.** -/
theorem post_grayPalette (pixel : ℕ → Colour) (hroom : shotWorkIndices ≤ s.work.length) :
    Post ((List.range 256).foldlM (fun _ x => shotGrayEntry x) ()) s (fun _ => Grayed s pixel 0 256) R := by
  have hsize : shotWorkIndices = 6144 := rfl
  refine (post_foldlM_range (I := fun n _ s' => WorkOnly s s' ∧ ∀ number < n,
      entryColour s'.work number = ⟨UInt8.ofNat number, UInt8.ofNat number, UInt8.ofNat number⟩) 256 ?_
    ⟨⟨rfl, rfl⟩, fun number h => absurd h (Nat.not_lt_zero number)⟩).imp ?_ fun _ _ h => h
  · rintro x hx _ s' ⟨hsame, hentries⟩
    have hlength := hsame.length
    simp only [shotGrayEntry, post_bind, post_putWork, List.length_set]
    refine ⟨by omega, by omega, by omega, by omega, ⟨hsame.output, by simp only [List.length_set, hlength]⟩, ?_⟩
    intro number hnumber
    rw [entryColour, storedColour]
    rcases Nat.lt_succ_iff_lt_or_eq.1 hnumber with hlt | rfl
    · simp (disch := omega) only [at'_set_ne]
      exact hentries number hlt
    · simp (disch := first | omega | (simp only [List.length_set]; omega)) only [at'_set_ne, at'_set_self]
  · rintro _ s' ⟨hsame, hentries⟩
    exact ⟨hsame, rfl, hentries, fun i hi => absurd hi (Nat.not_lt_zero i)⟩

/-- A grey's index names it. -/
theorem Grayed.put {n colours : ℕ} {pixel : ℕ → Colour} (h : Grayed s pixel n colours s')
    (hn : shotWorkIndices + n < s.work.length) :
    Grayed s pixel (n + 1) colours { s' with work := s'.work.set (shotWorkIndices + n) (pixel n).gray } := by
  obtain ⟨hsame, rfl, hpalette, hnames⟩ := h
  have hlength := hsame.length
  have hput := indexPut_set (n := n) (b := (pixel n).gray) (show shotWorkIndices + n < s'.work.length by omega)
  have hgray := (pixel n).gray.toNat_lt
  have hcolour : entryColour s'.work (pixel n).gray.toNat = (pixel n).shown true := by
    rw [hpalette _ hgray, UInt8.ofNat_toNat]
    rfl
  refine ⟨⟨hsame.output, by rw [List.length_set, hlength]⟩, rfl, fun number hnumber => ?_, ?_⟩
  · rw [entryColour_congr hput.below hnumber]
    exact hpalette number hnumber
  · exact hnames.indexPut le_rfl hput hgray hcolour

/-! ## The image -/

/-- A pixel of the 24-bit image, counted through the rows of the file. -/
def imagePixel (output : Bytes) (ow i : ℕ) : Colour :=
  storedColour output (shotBmpHeader + (i / ow) * shotStride24 ow + (i % ow) * 3)

/-- What the loop over the pixels keeps. -/
def Indexing (s : ShotBuffers) (gray : Bool) (ow n colours : ℕ) (s' : ShotBuffers) : Prop :=
  if gray then Grayed s (imagePixel s.output ow) n colours s' else Compacted s (imagePixel s.output ow) n colours s'

theorem Indexing.same {gray : Bool} {ow n colours : ℕ} (h : Indexing s gray ow n colours s') : WorkOnly s s' := by
  cases gray with
  | false => exact Compacted.same h
  | true => exact Grayed.same h

/-- **The indices name the pixels' colours**, or their greys. -/
structure Indexed (s : ShotBuffers) (gray : Bool) (ow oh colours : ℕ) (s' : ShotBuffers) : Prop where
  same : WorkOnly s s'
  few : colours ≤ 256
  names : Names s'.work colours (fun i => (imagePixel s.output ow i).shown gray) (oh * ow)

theorem Indexing.indexed {gray : Bool} {ow oh colours : ℕ} (h : Indexing s gray ow (oh * ow) colours s') :
    Indexed s gray ow oh colours s' := by
  cases gray with
  | false => exact ⟨Compacted.same h, (Compacted.table h).few, Compacted.names h⟩
  | true => exact ⟨Grayed.same h, (Grayed.all h).le, Grayed.names h⟩

/-- A pixel of the output and its place in the work buffer. -/
theorem pixel_inside {ow oh x y : ℕ} (hroom : ShotRoom s ow oh) (hx : x < ow) (hy : y < oh) :
    y * shotStride24 ow < 2 ^ 32 ∧ y * ow < 2 ^ 32 ∧
      shotBmpHeader + y * shotStride24 ow + x * 3 + 2 < s.output.length ∧
        shotWorkIndices + (y * ow + x) < s.work.length := by
  have hstride := le_stride24 ow
  have hrow : y * shotStride24 ow + shotStride24 ow ≤ shotStride24 ow * oh := row_le hy
  have hbefore : y * ow + ow ≤ ow * oh := row_le hy
  have houtput := hroom.output
  have hwork := hroom.work
  have hsize := hroom.outputSize
  have hsize' := hroom.workSize
  exact ⟨by omega, by omega, by omega, by omega⟩

/-- **A pixel of the 24-bit image.** -/
theorem post_shotIndexPixel {ow oh x y colours : ℕ} {gray : Bool} (hroom : ShotRoom s ow oh) (hx : x < ow) (hy : y < oh)
    (h : Indexing s gray ow (y * ow + x) colours s') :
    Post (shotIndexPixel ow gray y colours x) s' (Indexing s gray ow (y * ow + (x + 1)))
      fun _ s'' => gray = false ∧ WorkOnly s s'' := by
  obtain ⟨hrows, hbefore, houtput, hwork⟩ := pixel_inside hroom hx hy
  have hsame := h.same
  -- this pixel's place, counted through the rows
  have hpixel : imagePixel s.output ow (y * ow + x) = storedColour s.output (shotBmpHeader + y * shotStride24 ow + x * 3) := by
    have hpos : 0 < ow := by omega
    rw [imagePixel, Nat.mul_comm y ow, Nat.mul_add_div hpos, Nat.div_eq_of_lt hx, Nat.add_zero, Nat.mul_add_mod,
      Nat.mod_eq_of_lt hx]
  simp only [shotIndexPixel, post_bind, post_shotU32, post_readShot, hsame.output]
  refine ⟨hrows, hbefore, by omega, by omega, by omega, ?_⟩
  rw [Nat.add_assoc shotWorkIndices]
  cases gray with
  | true =>
    have hgray : Grayed s (imagePixel s.output ow) (y * ow + x) colours s' := h
    have hput := hgray.put hwork
    rw [hpixel] at hput
    have hlt : ∀ c : UInt8, c.toNat < 256 := fun c => c.toNat_lt
    have h1 := hlt (s.output.at' (shotBmpHeader + y * shotStride24 ow + x * 3))
    have h2 := hlt (s.output.at' (shotBmpHeader + y * shotStride24 ow + x * 3 + 1))
    have h3 := hlt (s.output.at' (shotBmpHeader + y * shotStride24 ow + x * 3 + 2))
    simp only [if_true, post_bind, post_shotU32, post_putWork, post_pure, hsame.length]
    exact ⟨by omega, hwork, hput⟩
  | false =>
    rw [if_neg Bool.false_ne_true]
    have hpost := post_shotCompactPixel hwork (show Compacted s (imagePixel s.output ow) (y * ow + x) colours s' from h)
    rw [hpixel] at hpost
    exact hpost.imp (fun _ _ h => h) fun _ _ h => ⟨rfl, h⟩

/-- **The index rows**: only the work buffer is written, and every index names its pixel's colour. In GRAY there is
always a palette. -/
theorem post_shotxfIndex {ow oh : ℕ} {gray : Bool} (hroom : ShotRoom s ow oh) :
    Post (shotxfIndex ow oh gray) s (Indexed s gray ow oh) fun _ s' => gray = false ∧ WorkOnly s s' := by
  have hwork := hroom.work
  have hvalues : shotWorkValues ≤ shotWorkIndices ∧ 1024 ≤ shotWorkIndices := by decide
  have hstart : Post (shotPalette gray) s (Indexing s gray ow 0) fun (_ : Unit) s' => gray = false ∧ WorkOnly s s' := by
    rw [shotPalette, post_ite]
    refine ⟨fun hgray => ?_, fun hgray => ?_⟩
    · obtain rfl := hgray
      rw [post_bind]
      refine (post_grayPalette (imagePixel s.output ow) (by omega)).imp ?_ fun _ _ h => h
      exact fun _ s' h => post_pure.2 h
    · obtain rfl := Bool.eq_false_iff.2 hgray
      rw [post_bind]
      refine (post_clearKeys (by omega)).imp ?_ fun _ _ h => h
      rintro _ s' ⟨hsame, htable⟩
      exact post_pure.2 ⟨hsame, htable, fun i hi => absurd hi (Nat.not_lt_zero i)⟩
  rw [shotxfIndex, post_bind]
  refine hstart.imp ?_ fun _ _ h => h
  intro colours s₁ h₁
  refine (post_foldlM_range (I := fun y => Indexing s gray ow (y * ow)) oh (fun y hy colours s₂ h₂ => ?_)
    (by rw [Nat.zero_mul]; exact h₁)).imp (fun _ _ h => h.indexed) fun _ _ h => h
  rw [Nat.succ_mul]
  exact post_foldlM_range (I := fun x => Indexing s gray ow (y * ow + x)) ow
    (fun x hx colours s₃ h₃ => post_shotIndexPixel hroom hx hy h₃) h₂

end

end V9xRemote
