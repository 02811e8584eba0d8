import V9xRemote.Spec.UpdateProto
import Mathlib.Data.List.TakeWhile

/-!
# The INI reader

The reader that moves through its buffer is the one over the lines of the bytes it was given,
and answers with the first value that stands under the section and the key, where it has
room.
-/

namespace V9xRemote

open Bytes Scan

section

variable {text sect key : Bytes} {length capacity position : ℕ} {inSection : Bool}

/-! ## Lines -/

/-- The lines from a position on: the one there, and those behind it. -/
theorem lines_at (hlength : length ≤ text.length) (hposition : position < length) :
    (slice text position length).splitOn 10 =
      slice text position (updateLineEnd text length position) ::
        if updateLineEnd text length position < length then
          (slice text (updateNextLine text length position) length).splitOn 10 else [] := by
  have hle : position ≤ updateLineEnd text length position := le_up _ _ _ _
  have hend : updateLineEnd text length position ≤ length := up_le hposition.le
  have htake : slice text position (updateLineEnd text length position) = _ := (slice_up hlength hposition.le).1
  have hline : ∀ b ∈ slice text position (updateLineEnd text length position), (b == 10) = false := by
    intro b hb
    rw [htake] at hb
    have hne := List.mem_takeWhile_imp hb
    simpa using hne
  rw [← slice_append hle hend, List.splitOn_eq_splitOnP]
  split
  · rename_i hmore
    have hfeed : slice text (updateLineEnd text length position) length =
        10 :: slice text (updateNextLine text length position) length := by
      rw [updateNextLine, if_pos hmore, slice_cons hmore hlength]
      congr 1
      -- the scan stopped at it
      have hstop : ¬(text.at' (updateLineEnd text length position) != 10) = true := up_fails hmore
      simpa using hstop
    rw [hfeed, List.splitOnP_append_cons_of_forall_mem hline 10 rfl, List.splitOn_eq_splitOnP]
  · rename_i hlast
    rw [(slice_eq_nil hlength).2 (not_lt.1 hlast), List.append_nil, List.splitOnP_eq_singleton hline]

/-- **The line at a position**, without the blanks around it. -/
theorem updateTrim_at (hlength : length ≤ text.length) (hposition : position ≤ length) :
    let lineEnd := updateLineEnd text length position
    let start := up updateIsSpace text lineEnd position
    slice text start (down updateIsSpace text start lineEnd) =
      updateTrim (slice text position lineEnd) := by
  dsimp only
  have hle : position ≤ updateLineEnd text length position := le_up _ _ _ _
  have hend : updateLineEnd text length position ≤ length := up_le hposition
  rw [slice_down (by omega) (up_le hle), (slice_up (by omega) hle).2, updateTrim]

/-! ## The two readers -/

/-- One line, between `start` and `stop`, `rest` what is made of the lines behind it. -/
theorem updateIniLine_eq {start stop : ℕ} (hstop : stop ≤ text.length) (hstart : start ≤ stop)
    (rest : Bool → Option Bytes) :
    (if start = stop then rest inSection
      else if text.at' start = 91 then
        rest (text.at' (stop - 1) == 93 && updateSpanEquals (slice text (start + 1) (stop - 1)) sect)
      else if !inSection then rest inSection
      else if up (· != 61) text stop start = stop then rest inSection
      else if !updateSpanEquals (slice text start (down updateIsSpace text start (up (· != 61) text stop start))) key then
        rest inSection
      else if stop - up updateIsSpace text stop (up (· != 61) text stop start + 1) + 1 > capacity then none
      else some (slice text (up updateIsSpace text stop (up (· != 61) text stop start + 1)) stop)) =
    (let line := slice text start stop
      if line = [] then rest inSection
      else if line.head? = some 91 then
        rest (line.getLast? = some 93 && updateSpanEquals line.tail.dropLast sect)
      else if !inSection then rest inSection
      else if 61 ∉ line then rest inSection
      else
        let name := ((line.takeWhile (· ≠ 61)).reverse.dropWhile updateIsSpace).reverse
        let value := (line.dropWhile (· ≠ 61)).tail.dropWhile updateIsSpace
        if !updateSpanEquals name key then rest inSection
        else if value.length + 1 > capacity then none
        else some value) := by
  dsimp only
  by_cases hempty : start = stop
  · rw [if_pos hempty, if_pos ((slice_eq_nil hstop).2 hempty.ge)]
  have hlt : start < stop := by omega
  rw [if_neg hempty, if_neg fun h => absurd ((slice_eq_nil hstop).1 h) (by omega), slice_head hlt hstop,
    slice_getLast hlt hstop, slice_tail hlt hstop, slice_dropLast hstop]
  simp only [Option.some.injEq]
  by_cases hbracket : text.at' start = 91
  · rw [if_pos hbracket, if_pos hbracket]
    rfl
  rw [if_neg hbracket, if_neg hbracket]
  cases inSection with
  | false => rfl
  | true =>
    rw [Bool.not_true, if_neg Bool.false_ne_true, if_neg Bool.false_ne_true]
    have htest : (fun b : UInt8 => decide (b ≠ 61)) = (· != 61) := by
      funext b
      exact (Bool.eq_iff_iff.2 (by simp)).symm
    rw [htest]
    have hlow : start ≤ up (· != 61) text stop start := le_up _ _ _ _
    have hhigh : up (· != 61) text stop start ≤ stop := up_le hstart
    have hmem : 61 ∉ slice text start stop ↔ up (· != 61) text stop start = stop := by
      constructor
      · intro hnone
        by_contra hne
        have hat : up (· != 61) text stop start < stop := by omega
        have hfails := up_fails hat
        refine hnone ?_
        rw [← slice_append hlow hhigh, slice_cons hat hstop]
        exact List.mem_append_right _ (by simpa using Or.inl (Eq.symm (by simpa using hfails)))
      · intro hall hmem
        rw [← hall, (slice_up hstop hstart).1] at hmem
        exact absurd (List.mem_takeWhile_imp hmem) (by decide)
    obtain ⟨htake, hdrop⟩ := slice_up (p := (· != 61)) hstop hstart
    rw [← htake, ← hdrop]
    generalize up (· != 61) text stop start = equals at *
    by_cases hend : equals = stop
    · rw [if_pos hend, if_pos (hmem.2 hend)]
    have hequals : equals < stop := by omega
    rw [if_neg hend, if_neg (mt hmem.1 hend), slice_down (by omega) hlow, slice_tail hequals hstop,
      ← (slice_up hstop (show equals + 1 ≤ stop from hequals)).2, slice_length hstop]

/-- **The reader that moves through its buffer** reads the lines of the bytes it was given. -/
theorem updateIniLoop_eq (hlength : length ≤ text.length) (hposition : position ≤ length) :
    updateIniLoop text length sect key capacity position inSection =
      updateIniLines sect key capacity inSection ((slice text position length).splitOn 10) := by
  induction hleft : length - position using Nat.strong_induction_on generalizing position inSection with
  | h left ih =>
    rw [updateIniLoop]
    by_cases hmore : position < length
    swap
    · rw [dif_neg hmore, (slice_eq_nil hlength).2 (not_lt.1 hmore)]
      rfl
    have htrim := updateTrim_at hlength hposition
    have hnext : position < updateNextLine text length position := updateNextLine_gt hmore
    have hrest : ∀ inSection, updateIniLoop text length sect key capacity (updateNextLine text length position) inSection =
        updateIniLines sect key capacity inSection
          (if updateLineEnd text length position < length then
            (slice text (updateNextLine text length position) length).splitOn 10 else []) := by
      intro inSection
      by_cases hfeed : updateLineEnd text length position < length
      · have hle : updateNextLine text length position ≤ length := by
          rw [updateNextLine, if_pos hfeed]
          omega
        rw [if_pos hfeed, ih (length - updateNextLine text length position) (by omega) hle rfl]
      · have hle : ¬updateNextLine text length position < length := by
          rw [updateNextLine, if_neg hfeed]
          exact hfeed
        rw [if_neg hfeed, updateIniLoop, dif_neg hle]
        rfl
    rw [dif_pos hmore, lines_at hlength hmore]
    dsimp only at htrim ⊢
    simp only [hrest]
    have hlow : position ≤ updateLineEnd text length position := le_up _ _ _ _
    have hhigh : updateLineEnd text length position ≤ length := up_le hposition
    have hstop := down_le updateIsSpace text (up updateIsSpace text (updateLineEnd text length position) position)
      (updateLineEnd text length position)
    have hstart : up updateIsSpace text (updateLineEnd text length position) position ≤
        down updateIsSpace text (up updateIsSpace text (updateLineEnd text length position) position)
          (updateLineEnd text length position) := le_down (up_le hlow)
    rw [updateIniLines, ← htrim]
    generalize down updateIsSpace text (up updateIsSpace text (updateLineEnd text length position) position)
      (updateLineEnd text length position) = stop at *
    generalize up updateIsSpace text (updateLineEnd text length position) position = start at *
    have hbound : stop ≤ text.length := by omega
    exact updateIniLine_eq hbound hstart fun inSection => updateIniLines sect key capacity inSection _

/-- **The value depends on the bytes up to the length alone.** -/
theorem updateIniRead_eq (hlength : length ≤ text.length) :
    updateIniRead text length sect key capacity = updateIniValue (text.take length) sect key capacity := by
  have hall : slice text 0 length = text.take length := rfl
  rw [updateIniRead, updateIniValue, updateIniLoop_eq hlength (Nat.zero_le _), hall]

end

/-! ## The first match -/

/-- A value of an INI text, under its section. -/
structure IniEntry where
  sect : Bytes
  key : Bytes
  value : Bytes
deriving DecidableEq, Repr

/-- What a line with an equals sign says under a section. -/
def iniEntry (sect line : Bytes) : IniEntry :=
  ⟨sect, ((line.takeWhile (· ≠ 61)).reverse.dropWhile updateIsSpace).reverse,
    (line.dropWhile (· ≠ 61)).tail.dropWhile updateIsSpace⟩

/-- The entries of the lines under the sections that open among them. A line that opens with a
bracket and does not close it ends its section. -/
def iniEntries : Option Bytes → List Bytes → List IniEntry
  | _, [] => []
  | sect, line :: lines =>
    let text := updateTrim line
    if text = [] then iniEntries sect lines
    else if text.head? = some 91 then
      iniEntries (if text.getLast? = some 93 then some text.tail.dropLast else none) lines
    else (if 61 ∈ text then sect.toList.map (iniEntry · text) else []) ++ iniEntries sect lines

/-- The first value under a section and a key, whose names may differ in case. -/
def iniFirst (text sect key : Bytes) : Option Bytes :=
  ((iniEntries none (text.splitOn 10)).find? fun entry =>
    updateSpanEquals entry.sect sect && updateSpanEquals entry.key key).map (·.value)

theorem updateIniLines_eq (sect key : Bytes) (capacity : ℕ) (lines : List Bytes) (under : Option Bytes) :
    updateIniLines sect key capacity (under.any (updateSpanEquals · sect)) lines =
      (((iniEntries under lines).find? fun entry =>
        updateSpanEquals entry.sect sect && updateSpanEquals entry.key key).map (·.value)).filter
          fun value => decide (value.length + 1 ≤ capacity) := by
  induction lines generalizing under with
  | nil => rfl
  | cons line lines ih =>
    rw [updateIniLines, iniEntries]
    dsimp only
    by_cases hempty : updateTrim line = []
    · rw [if_pos hempty, if_pos hempty, ih]
    rw [if_neg hempty, if_neg hempty]
    by_cases hbracket : (updateTrim line).head? = some 91
    · rw [if_pos hbracket, if_pos hbracket, ← ih]
      by_cases hclosed : (updateTrim line).getLast? = some 93
      · rw [decide_eq_true hclosed, if_pos hclosed, Bool.true_and, Option.any_some]
      · rw [decide_eq_false hclosed, if_neg hclosed]
        rfl
    rw [if_neg hbracket, if_neg hbracket]
    cases under with
    | none =>
      rw [Option.toList_none, List.map_nil, ite_self, List.nil_append, ← ih]
      rfl
    | some name =>
      by_cases hequals : 61 ∈ updateTrim line
      swap
      · rw [if_neg hequals, if_pos hequals, List.nil_append, ← ih]
        split <;> rfl
      rw [if_pos hequals, if_neg (not_not.2 hequals), Option.toList_some, List.map_singleton, List.singleton_append,
        List.find?_cons, Option.any_some]
      have hrest := ih (some name)
      rw [Option.any_some] at hrest
      cases hname : updateSpanEquals name sect with
      | false =>
        rw [hname] at hrest
        simp only [iniEntry, hname, Bool.false_and, Bool.not_false, if_true]
        exact hrest
      | true =>
        rw [hname] at hrest
        simp only [iniEntry, hname, Bool.true_and, Bool.not_true, Bool.false_eq_true, if_false, Bool.not_eq_true']
        cases hkey : updateSpanEquals
            (((updateTrim line).takeWhile (· ≠ 61)).reverse.dropWhile updateIsSpace).reverse key with
        | false =>
          rw [if_pos rfl]
          exact hrest
        | true =>
          rw [if_neg (by decide)]
          dsimp only
          rw [Option.map_some, Option.filter_some]
          generalize ((updateTrim line).dropWhile (· ≠ 61)).tail.dropWhile updateIsSpace = value
          by_cases hfits : value.length + 1 ≤ capacity
          · rw [if_neg (by omega), decide_eq_true hfits, if_pos rfl]
          · rw [if_pos (by omega), decide_eq_false hfits, if_neg Bool.false_ne_true]

/-- **The reader gives the first match**, where it fits. -/
theorem updateIniValue_eq (text sect key : Bytes) {capacity : ℕ} (hcapacity : 0 < capacity) :
    updateIniValue text sect key capacity = (iniFirst text sect key).filter fun value => decide (value.length < capacity) := by
  have hlines := updateIniLines_eq sect key capacity (text.splitOn 10) none
  rw [updateIniValue, if_neg (by omega)]
  exact hlines

/-! ## Where the values come from -/

theorem mem_of_mem_line {text line : Bytes} {b : UInt8} (hline : line ∈ text.splitOn 10) (hb : b ∈ line) : b ∈ text := by
  induction text generalizing line with
  | nil =>
    rw [List.splitOn_nil, List.mem_singleton] at hline
    rwa [hline] at hb
  | cons c text ih =>
    rw [List.splitOn_cons_eq_if_modifyHead] at hline
    split at hline
    · rcases List.mem_cons.1 hline with rfl | hline
      · cases hb
      · exact List.mem_cons_of_mem _ (ih hline hb)
    · cases hlines : text.splitOn 10 with
      | nil => exact absurd hlines (List.splitOn_ne_nil _ _)
      | cons first rest =>
        rw [hlines] at hline ih
        rcases List.mem_cons.1 hline with rfl | hline
        · rcases List.mem_cons.1 hb with rfl | hb
          · exact List.mem_cons_self
          · exact List.mem_cons_of_mem _ (ih List.mem_cons_self hb)
        · exact List.mem_cons_of_mem _ (ih (List.mem_cons_of_mem _ hline) hb)

theorem mem_of_mem_trim {line : Bytes} {b : UInt8} (hb : b ∈ updateTrim line) : b ∈ line := by
  rw [updateTrim, List.mem_reverse] at hb
  have hinner := (List.dropWhile_suffix _).mem hb
  rw [List.mem_reverse] at hinner
  exact (List.dropWhile_suffix _).mem hinner

theorem iniEntries_value {under : Option Bytes} {lines : List Bytes} {entry : IniEntry} {b : UInt8}
    (hentry : entry ∈ iniEntries under lines) (hb : b ∈ entry.value) : ∃ line ∈ lines, b ∈ line := by
  induction lines generalizing under with
  | nil => cases hentry
  | cons line lines ih =>
    have hrest : ∀ under, entry ∈ iniEntries under lines → ∃ l ∈ line :: lines, b ∈ l := fun under h =>
      (ih h).imp fun l hl => ⟨List.mem_cons_of_mem _ hl.1, hl.2⟩
    rw [iniEntries] at hentry
    split at hentry
    · exact hrest _ hentry
    split at hentry
    · exact hrest _ hentry
    rcases List.mem_append.1 hentry with hhere | hbehind
    · split at hhere
      · obtain ⟨name, -, rfl⟩ := List.mem_map.1 hhere
        exact ⟨line, List.mem_cons_self,
          mem_of_mem_trim ((List.dropWhile_suffix _).mem (List.mem_of_mem_tail ((List.dropWhile_suffix _).mem hb)))⟩
      · cases hhere
    · exact hrest _ hbehind

/-- **A value's bytes are bytes of the text.** -/
theorem iniFirst_mem {text sect key value : Bytes} {b : UInt8} (h : iniFirst text sect key = some value) (hb : b ∈ value) :
    b ∈ text := by
  obtain ⟨entry, hentry, rfl⟩ := Option.map_eq_some_iff.1 h
  obtain ⟨line, hline, hmem⟩ := iniEntries_value (List.mem_of_find?_eq_some hentry) hb
  exact mem_of_mem_line hline hmem

end V9xRemote
