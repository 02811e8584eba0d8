import Mathlib.Data.List.DropRight
import V9xRemote.Lib.Pieces
import V9xRemote.Spec.IniRepair

/-!
# What the repair leaves

The repair is described by lines: the lines of the text, without the repeated assignments of
the unique key, then without the empty lines that no paragraph needs. The bytes written cost
at most twice the bytes read, which is what the caller allocates, and a text that was
repaired is its own repair.
-/

namespace V9xRemote

open Bytes Scan Pieces

section

/-! ## The lines of a text -/

/-- Every line end as a bare LF. -/
def iniEol : Bytes → Bytes
  | [] => []
  | 13 :: 10 :: rest => 10 :: iniEol rest
  | c :: rest => (if c == 13 then 10 else c) :: iniEol rest

/-- The lines: CR, LF and CRLF end one. -/
def iniLines (text : Bytes) : List Bytes := (iniEol text).splitOn 10

/-- A section line. -/
def iniHeader (line : Bytes) : Bool := line.head? == some 91

/-- A line that assigns the unique key. -/
def iniAssigns (uniqueKey : Option Bytes) (line : Bytes) : Bool := !iniHeader line && uniqueKey.any (iniIsKey line)

/-- The line repeats an assignment behind the last section line before it. -/
def iniRepeats (uniqueKey : Option Bytes) (before : List Bytes) (line : Bytes) : Bool :=
  iniAssigns uniqueKey line && (before.rtakeWhile fun l => !iniHeader l).any (iniAssigns uniqueKey)

/-- The lines behind `before` that are no repeats. -/
def iniKeep (uniqueKey : Option Bytes) (before : List Bytes) : List Bytes → List Bytes
  | [] => []
  | line :: rest =>
    if iniRepeats uniqueKey before line then iniKeep uniqueKey (before ++ [line]) rest
    else line :: iniKeep uniqueKey (before ++ [line]) rest

/-- The paragraphs: what stands between empty lines. -/
def iniParagraphs (lines : List Bytes) : List (List Bytes) := (lines.splitOn []).filter (· ≠ [])

/-- Lines as they are written. -/
def iniWrite (lines : List Bytes) : Bytes := lines.flatMap (· ++ [13, 10])

/-- The lines of the repaired text. -/
def iniRepaired (uniqueKey : Option Bytes) (text : Bytes) : List Bytes :=
  [[]].intercalate (iniParagraphs (iniKeep uniqueKey [] (iniLines text)))

variable {text : Bytes} {uniqueKey : Option Bytes} {start : ℕ}

theorem iniEol_cons {c : UInt8} {rest : Bytes} (h : c = 13 → rest.head? ≠ some 10) :
    iniEol (c :: rest) = (if c == 13 then 10 else c) :: iniEol rest := by
  cases rest with
  | nil => by_cases hc : c = 13 <;> simp [iniEol, hc]
  | cons d rest =>
    rw [iniEol]
    intro rest' hc hrest
    obtain ⟨rfl, rfl⟩ := List.cons.inj hrest
    exact h hc rfl

theorem iniEol_line {line : Bytes} (h : (13 : UInt8) ∉ line) (rest : Bytes) :
    iniEol (line ++ rest) = line ++ iniEol rest := by
  induction line with
  | nil => rfl
  | cons c line ih =>
    rw [List.mem_cons, not_or] at h
    have hc : c ≠ 13 := fun heq => h.1 heq.symm
    rw [List.cons_append, iniEol_cons fun heq => absurd heq hc, ih h.2, if_neg (by simpa using hc)]
    rfl

/-- What the scan for a line end passed. -/
theorem iniLineEnd_slice (hstart : start ≤ text.length) :
    text.drop start = slice text start (iniLineEnd text start) ++ text.drop (iniLineEnd text start) ∧
      (∀ c ∈ slice text start (iniLineEnd text start), c ≠ 13 ∧ c ≠ 10) := by
  have hle : start ≤ iniLineEnd text start := le_up _ _ _ _
  have hend : iniLineEnd text start ≤ text.length := up_le hstart
  constructor
  · have hsplit : slice text start _ ++ _ = _ := slice_append hle hend
    have hwhole : ∀ i, slice text i text.length = text.drop i := fun i => by
      rw [slice, List.take_of_length_le (by rw [List.length_drop])]
    rw [hwhole, hwhole] at hsplit
    exact hsplit.symm
  · intro c hc
    rw [iniLineEnd, (slice_up le_rfl hstart).1] at hc
    have hp := List.mem_takeWhile_imp hc
    simpa using hp

theorem drop_cons {i : ℕ} (h : i < text.length) : text.drop i = text.at' i :: text.drop (i + 1) := by
  rw [List.drop_eq_getElem_cons h, at', List.getD_eq_getElem?_getD, List.getElem?_eq_getElem h, Option.getD_some]

/-- A line end is one LF. -/
theorem iniEol_end {lineEnd : ℕ} (hmore : lineEnd < text.length)
    (hstop : text.at' lineEnd ≠ 13 → text.at' lineEnd = 10) :
    iniEol (text.drop lineEnd) = 10 :: iniEol (text.drop (iniNextLine text lineEnd)) := by
  rw [iniNextLine, if_pos hmore, drop_cons hmore]
  by_cases hcr : text.at' lineEnd = 13
  · by_cases hlf : lineEnd + 1 < text.length ∧ text.at' (lineEnd + 1) = 10
    · rw [drop_cons hlf.1, hcr, hlf.2, iniEol, if_pos (by simp [hlf.1])]
    · rw [if_neg (by simpa [hcr] using hlf), iniEol_cons, hcr]
      · rfl
      · intro _ hhead
        by_cases hlt : lineEnd + 1 < text.length
        · rw [drop_cons hlt, List.head?_cons] at hhead
          exact hlf ⟨hlt, Option.some.inj hhead⟩
        · rw [List.drop_eq_nil_of_le (not_lt.1 hlt)] at hhead
          exact absurd hhead (by simp)
  · rw [if_neg (by simp [hcr]), iniEol_cons fun h => absurd h hcr, hstop hcr]
    rfl

/-- **The lines from a position on**: the one there, and those behind its end. -/
theorem iniLines_at (hstart : start < text.length) :
    iniLines (text.drop start) = slice text start (iniLineEnd text start) ::
      if iniLineEnd text start < text.length then
        iniLines (text.drop (iniNextLine text (iniLineEnd text start))) else [] := by
  obtain ⟨hsplit, hfree⟩ := iniLineEnd_slice hstart.le
  have hno13 : (13 : UInt8) ∉ slice text start (iniLineEnd text start) := fun hc => (hfree _ hc).1 rfl
  have hno10 : (10 : UInt8) ∉ slice text start (iniLineEnd text start) := fun hc => (hfree _ hc).2 rfl
  rw [hsplit, iniLines, iniEol_line hno13]
  split
  · rename_i hmore
    -- the scan stopped at a CR or a LF
    have hstop : ¬((text.at' (iniLineEnd text start) != 13 && text.at' (iniLineEnd text start) != 10)) = true :=
      up_fails hmore
    rw [iniEol_end hmore (by simpa using hstop), List.splitOn_append_cons_self_of_not_mem hno10, iniLines]
  · rename_i hlast
    rw [List.drop_eq_nil_of_le (not_lt.1 hlast), iniEol, List.append_nil, List.splitOn_eq_singleton hno10]

/-! ## By lines -/

/-- The lines the loop writes: `started` where something is written already. -/
def iniEmit (uniqueKey : Option Bytes) (started seen blank : Bool) : List Bytes → List Bytes
  | [] => []
  | line :: rest =>
    if line = [] then iniEmit uniqueKey started seen (blank || started) rest
    else if iniAssigns uniqueKey line && seen then iniEmit uniqueKey started seen blank rest
    else
      (if blank then [[]] else []) ++
        line :: iniEmit uniqueKey true (if iniHeader line then false else seen || iniAssigns uniqueKey line) false rest

theorem iniWrite_append (a b : List Bytes) : iniWrite (a ++ b) = iniWrite a ++ iniWrite b := List.flatMap_append

theorem iniWrite_cons (line : Bytes) (rest : List Bytes) : iniWrite (line :: rest) = line ++ [13, 10] ++ iniWrite rest := rfl

theorem iniHeader_slice (hne : iniLineEnd text start ≠ start) (hstart : start < text.length) :
    iniHeader (slice text start (iniLineEnd text start)) = (text.at' start == 91) := by
  have hle : start ≤ iniLineEnd text start := le_up _ _ _ _
  have hend : iniLineEnd text start ≤ text.length := up_le hstart.le
  rw [iniHeader, slice_head (by omega) hend]
  rfl

/-- An empty line at the end writes nothing. -/
theorem iniEmit_concat (lines : List Bytes) (started seen blank : Bool) :
    iniEmit uniqueKey started seen blank (lines ++ [[]]) = iniEmit uniqueKey started seen blank lines := by
  induction lines generalizing started seen blank with
  | nil => rfl
  | cons line lines ih => rw [List.cons_append, iniEmit, iniEmit, ih, ih, ih]

theorem iniEmit_at (hstart : start < text.length) (started seen blank : Bool) :
    iniEmit uniqueKey started seen blank (iniLines (text.drop start)) =
      iniEmit uniqueKey started seen blank (slice text start (iniLineEnd text start) ::
        iniLines (text.drop (iniNextLine text (iniLineEnd text start)))) := by
  rw [iniLines_at hstart]
  split
  · rfl
  · rename_i hlast
    have hnil : iniLines (text.drop (iniNextLine text (iniLineEnd text start))) = [[]] := by
      rw [iniNextLine, if_neg hlast, List.drop_eq_nil_of_le (not_lt.1 hlast)]
      rfl
    rw [hnil]
    exact (iniEmit_concat [_] started seen blank).symm

theorem iniNextLine_le {lineEnd : ℕ} (h : lineEnd ≤ text.length) : iniNextLine text lineEnd ≤ text.length := by
  unfold iniNextLine
  split_ifs with hmore hcr
  · simp only [Bool.and_eq_true, decide_eq_true_eq] at hcr
    omega
  · omega
  · exact h

/-- What the loop knows of a line that is not empty. -/
theorem iniLine_at (uniqueKey : Option Bytes) (hne : iniLineEnd text start ≠ start) (hstart : start < text.length) :
    let line := slice text start (iniLineEnd text start)
    line ≠ [] ∧ line.length = iniLineEnd text start - start ∧ iniHeader line = (text.at' start == 91) ∧
      iniAssigns uniqueKey line = (!(text.at' start == 91) && uniqueKey.any (iniIsKey line)) := by
  dsimp only
  have hle : start ≤ iniLineEnd text start := le_up _ _ _ _
  have hend : iniLineEnd text start ≤ text.length := up_le hstart.le
  refine ⟨?_, slice_length hend, iniHeader_slice hne hstart, by rw [iniAssigns, iniHeader_slice hne hstart]⟩
  rw [Ne, slice_eq_nil hend]
  omega

/-- **The loop is one over lines**: it writes what they make, where that fits. -/
theorem iniRepairFrom_eq (capacity : ℕ) (uniqueKey : Option Bytes) (start : ℕ) (out : Bytes) (seen blank : Bool)
    (hstart : start ≤ text.length) (hout : out.length ≤ capacity) :
    iniRepairFrom text capacity uniqueKey start out seen blank =
      let tail := iniWrite (iniEmit uniqueKey (out.length != 0) seen blank (iniLines (text.drop start)))
      if out.length + tail.length ≤ capacity then some (out ++ tail) else none := by
  fun_induction iniRepairFrom text capacity uniqueKey start out seen blank with
  | case1 start out seen blank hlt lineEnd next hempty ih =>
    have hline : slice text start lineEnd = [] := by rw [hempty, slice_self]
    have hflag : (if out.length ≠ 0 then true else blank) = (blank || out.length != 0) := by
      by_cases h : out.length = 0 <;> simp [h]
    have hrest := ih (iniNextLine_le (up_le hlt.le)) hout
    rw [dite_eq_ite, hflag] at hrest
    rw [hflag, hrest, iniEmit_at hlt, iniEmit, if_pos hline]
  | case2 start out seen blank hlt lineEnd next hempty line header isKey hrepeat ih =>
    obtain ⟨hline, -, -, hassigns⟩ := iniLine_at uniqueKey hempty hlt
    rw [ih (iniNextLine_le (up_le hlt.le)) hout, iniEmit_at hlt, iniEmit, if_neg hline, hassigns, if_pos hrepeat]
  | case3 start out seen blank hlt lineEnd hempty line header isKey hrepeat need hneed =>
    obtain ⟨hline, hlength, -, hassigns⟩ := iniLine_at uniqueKey hempty hlt
    rw [iniEmit_at hlt, iniEmit, if_neg hline, hassigns, if_neg hrepeat]
    dsimp only
    rw [if_neg]
    -- this line alone is too long for what is left
    rw [iniWrite_append, iniWrite_cons, List.length_append, List.length_append, List.length_append, hlength]
    have hblank : (iniWrite (if blank then [[]] else [])).length = if blank then 2 else 0 := by cases blank <;> rfl
    rw [hblank]
    simp only [need, dite_eq_ite] at hneed
    simp only [List.length_cons, List.length_nil]
    omega
  | case4 start out seen blank hlt lineEnd next hempty line header isKey hrepeat need hneed out' ih =>
    obtain ⟨hline, hlength, hheader, hassigns⟩ := iniLine_at uniqueKey hempty hlt
    have hout' : out' = out ++ iniWrite (if blank then [[]] else []) := by
      simp only [out']
      cases blank <;> simp [iniWrite]
    have hblank : (iniWrite (if blank then [[]] else [])).length = if blank then 2 else 0 := by cases blank <;> rfl
    have hlength' : line.length = lineEnd - start := hlength
    have hroom : (out' ++ line ++ [13, 10]).length ≤ capacity := by
      simp only [need, dite_eq_ite] at hneed
      simp only [List.length_append, List.length_cons, List.length_nil, hout', hblank, hlength']
      omega
    have hstarted : ((out' ++ line ++ [13, 10]).length != 0) = true := by simp
    have hrest := ih (iniNextLine_le (up_le hlt.le)) hroom
    rw [dite_eq_ite, hstarted] at hrest
    rw [hrest, iniEmit_at hlt, iniEmit, if_neg hline, hassigns, if_neg hrepeat, hheader, iniWrite_append, iniWrite_cons]
    simp only [hout', List.length_append, List.append_assoc, Nat.add_assoc]
    rfl
  | case5 start out seen blank hlast =>
    have hnil : iniLines (text.drop start) = [[]] := by
      rw [List.drop_eq_nil_of_le (not_lt.1 hlast)]
      rfl
    have hnone : iniWrite (iniEmit uniqueKey (out.length != 0) seen blank [[]]) = [] := rfl
    rw [hnil, hnone]
    simp [hout]

/-- **The repair writes the emitted lines**, where they fit. -/
theorem iniRepair_eq (text : Bytes) (capacity : ℕ) (uniqueKey : Option Bytes) :
    iniRepair text capacity uniqueKey =
      let tail := iniWrite (iniEmit uniqueKey false false false (iniLines text))
      if tail.length ≤ capacity then some tail else none := by
  rw [iniRepair, iniRepairFrom_eq capacity uniqueKey 0 [] false false (Nat.zero_le _) (Nat.zero_le _)]
  simp only [List.drop_zero, List.length_nil, List.nil_append, Nat.zero_add]
  rfl

/-! ## Which lines -/

theorem iniAssigns_nil (uniqueKey : Option Bytes) : iniAssigns uniqueKey [] = false := by
  have hkey : ∀ key, iniIsKey [] key = false := fun key => by
    have hblank : ∀ index, up iniIsBlank [] ([] : Bytes).length index = index := fun index => by
      rw [up, if_neg fun h => Nat.not_lt_zero _ h.1]
    unfold iniIsKey
    rw [hblank]
    cases key with
    | nil => simp [iniMatchKey]
    | cons c key => simp [iniMatchKey]
  rw [iniAssigns]
  cases uniqueKey with
  | none => rfl
  | some key => simp [hkey]

/-- The emitted lines without the choice of the lines: runs of empty lines as one. -/
def iniSqueeze (started blank : Bool) : List Bytes → List Bytes
  | [] => []
  | line :: rest =>
    if line = [] then iniSqueeze started (blank || started) rest
    else (if blank then [[]] else []) ++ line :: iniSqueeze true false rest

/-- What the loop remembers of the lines before: an assignment behind the last section line. -/
def iniSeen (uniqueKey : Option Bytes) (before : List Bytes) : Bool :=
  (before.rtakeWhile fun l => !iniHeader l).any (iniAssigns uniqueKey)

theorem iniSeen_concat (uniqueKey : Option Bytes) (before : List Bytes) (line : Bytes) :
    iniSeen uniqueKey (before ++ [line]) =
      if iniHeader line then false else iniSeen uniqueKey before || iniAssigns uniqueKey line := by
  unfold iniSeen
  rw [List.rtakeWhile_concat]
  cases iniHeader line <;> simp

/-- **The loop drops the repeats** and squeezes what is left. -/
theorem iniEmit_eq (uniqueKey : Option Bytes) (lines before : List Bytes) (started blank : Bool) :
    iniEmit uniqueKey started (iniSeen uniqueKey before) blank lines =
      iniSqueeze started blank (iniKeep uniqueKey before lines) := by
  induction lines generalizing before started blank with
  | nil => rfl
  | cons line lines ih =>
    have hnext := iniSeen_concat uniqueKey before line
    rw [iniEmit, iniKeep, iniRepeats]
    change (if line = [] then _ else _) = iniSqueeze started blank (if (_ && iniSeen uniqueKey before) = true then _ else _)
    by_cases hempty : line = []
    · have hseen : iniSeen uniqueKey (before ++ [line]) = iniSeen uniqueKey before := by
        rw [hnext, hempty, iniAssigns_nil]
        simp [iniHeader]
      rw [if_pos hempty, hempty, iniAssigns_nil, Bool.false_and, if_neg (by decide), iniSqueeze, if_pos rfl,
        ← hempty, ← ih, hseen]
    · rw [if_neg hempty]
      by_cases hrepeat : (iniAssigns uniqueKey line && iniSeen uniqueKey before) = true
      · rw [if_pos hrepeat, if_pos hrepeat, ← ih, hnext]
        simp only [Bool.and_eq_true] at hrepeat
        have hheader : iniHeader line = false := by
          have := hrepeat.1
          simp only [iniAssigns, Bool.and_eq_true, Bool.not_eq_true'] at this
          exact this.1
        rw [hheader, hrepeat.2]
        rfl
      · rw [if_neg hrepeat, if_neg hrepeat, iniSqueeze, if_neg hempty, ← ih, hnext]

/-! ## Paragraphs -/

/-- Paragraphs behind an empty line. -/
def iniJoin (paragraphs : List (List Bytes)) : List Bytes :=
  if paragraphs = [] then [] else [] :: [[]].intercalate paragraphs

theorem intercalate_cons_join (paragraph : List Bytes) (paragraphs : List (List Bytes)) :
    [[]].intercalate (paragraph :: paragraphs) = paragraph ++ iniJoin paragraphs := by
  cases paragraphs with
  | nil => simp [iniJoin]
  | cons next rest => simp [iniJoin, List.intercalate_cons_cons]

theorem iniJoin_cons (paragraph : List Bytes) (paragraphs : List (List Bytes)) :
    iniJoin (paragraph :: paragraphs) = [] :: (paragraph ++ iniJoin paragraphs) := by
  rw [iniJoin, if_neg (List.cons_ne_nil _ _), intercalate_cons_join]

/-- **Squeezed lines are the paragraphs**, with one empty line between two of them. The first
conjunct is about a paragraph that has begun. -/
theorem iniSqueeze_eq (lines : List Bytes) :
    (∀ head tail, lines.splitOn [] = head :: tail →
      iniSqueeze true false lines = head ++ iniJoin (tail.filter (· ≠ []))) ∧
    iniSqueeze true true lines = iniJoin (iniParagraphs lines) ∧
    iniSqueeze false false lines = [[]].intercalate (iniParagraphs lines) := by
  induction lines with
  | nil =>
    refine ⟨fun head tail h => ?_, rfl, rfl⟩
    rw [List.splitOn_nil] at h
    obtain ⟨rfl, rfl⟩ := List.cons.inj h
    rfl
  | cons line lines ih =>
    obtain ⟨hbegun, hafter, hfirst⟩ := ih
    have hsplit := List.splitOn_cons_eq_if_modifyHead (a := ([] : Bytes)) line lines
    by_cases hempty : line = []
    · rw [if_pos (by simp [hempty])] at hsplit
      have hparagraphs : iniParagraphs (line :: lines) = iniParagraphs lines := by
        rw [iniParagraphs, hsplit, List.filter_cons_of_neg (by simp)]
        rfl
      refine ⟨fun head tail h => ?_, ?_, ?_⟩
      · rw [hsplit] at h
        obtain ⟨rfl, rfl⟩ := List.cons.inj h
        rw [iniSqueeze, if_pos hempty, List.nil_append]
        exact hafter
      · rw [iniSqueeze, if_pos hempty, hparagraphs]
        exact hafter
      · rw [iniSqueeze, if_pos hempty, hparagraphs]
        exact hfirst
    · rw [if_neg (by simpa using hempty)] at hsplit
      obtain ⟨head, tail, htail⟩ := List.exists_cons_of_ne_nil (List.splitOn_ne_nil ([] : Bytes) lines)
      rw [htail, List.modifyHead_cons] at hsplit
      have hrest := hbegun head tail htail
      have hparagraphs : iniParagraphs (line :: lines) = (line :: head) :: tail.filter (· ≠ []) := by
        rw [iniParagraphs, hsplit, List.filter_cons_of_pos (by simp)]
      refine ⟨fun head' tail' h => ?_, ?_, ?_⟩
      · rw [hsplit] at h
        obtain ⟨rfl, rfl⟩ := List.cons.inj h
        rw [iniSqueeze, if_neg hempty, hrest]
        rfl
      · rw [iniSqueeze, if_neg hempty, hparagraphs, hrest, iniJoin_cons]
        rfl
      · rw [iniSqueeze, if_neg hempty, hparagraphs, hrest, intercalate_cons_join]
        rfl

/-- **The emitted lines** are the repaired ones. -/
theorem iniEmit_repaired (text : Bytes) (uniqueKey : Option Bytes) :
    iniEmit uniqueKey false false false (iniLines text) = iniRepaired uniqueKey text := by
  have hemit := iniEmit_eq uniqueKey (iniLines text) [] false false
  rw [(iniSqueeze_eq _).2.2] at hemit
  exact hemit

/-! ## The bound -/

/-- Twice the bytes read, line ends included. -/
theorem iniEmit_length (uniqueKey : Option Bytes) (lines : List Bytes) (started seen blank : Bool) :
    (iniWrite (iniEmit uniqueKey started seen blank lines)).length ≤
      2 * (lines.map fun line => line.length + 1).sum + if blank then 2 else 0 := by
  induction lines generalizing started seen blank with
  | nil => exact Nat.zero_le _
  | cons line lines ih =>
    rw [iniEmit, List.map_cons, List.sum_cons]
    by_cases hempty : line = []
    · -- its line end pays for the empty line that may be written later
      have hrest := ih started seen (blank || started)
      rw [if_pos hempty, hempty, List.length_nil]
      have hflag : (if (blank || started) = true then 2 else 0) ≤ 2 := by split <;> omega
      omega
    rw [if_neg hempty]
    by_cases hrepeat : (iniAssigns uniqueKey line && seen) = true
    · have hrest := ih started seen blank
      rw [if_pos hrepeat]
      omega
    · have hrest := ih true (if iniHeader line then false else seen || iniAssigns uniqueKey line) false
      have hblank : (iniWrite (if blank then [[]] else [])).length = if blank then 2 else 0 := by cases blank <;> rfl
      rw [if_neg Bool.false_ne_true] at hrest
      have hne := List.length_pos_iff.2 hempty
      rw [if_neg hrepeat, iniWrite_append, iniWrite_cons, List.length_append, List.length_append, List.length_append,
        hblank]
      simp only [List.length_cons, List.length_nil]
      omega

theorem iniEol_length (text : Bytes) : (iniEol text).length ≤ text.length := by
  fun_induction iniEol text with
  | case1 => exact le_rfl
  | case2 rest ih => simp only [List.length_cons]; omega
  | case3 c rest _ ih => simp only [List.length_cons]; omega

/-! ## Repairing again -/

theorem iniLines_write {lines : List Bytes} (h : ∀ line ∈ lines, (13 : UInt8) ∉ line ∧ (10 : UInt8) ∉ line) :
    iniLines (iniWrite lines) = lines ++ [[]] := by
  induction lines with
  | nil => rfl
  | cons line lines ih =>
    have hline := h line List.mem_cons_self
    have hrest := ih fun l hl => h l (List.mem_cons_of_mem _ hl)
    rw [iniWrite_cons, iniLines, List.append_assoc, iniEol_line hline.1]
    have hend : iniEol ([13, 10] ++ iniWrite lines) = 10 :: iniEol (iniWrite lines) := rfl
    rw [hend, List.splitOn_append_cons_self_of_not_mem hline.2]
    change line :: iniLines (iniWrite lines) = _
    rw [hrest]
    rfl

/-- **What the loop wrote, it writes again.** -/
theorem iniEmit_idem (lines : List Bytes) (started seen blank : Bool) (h : blank = true → started = true) :
    iniEmit uniqueKey started seen false (iniEmit uniqueKey started seen blank lines) =
      iniEmit uniqueKey started seen blank lines := by
  induction lines generalizing started seen blank with
  | nil => rfl
  | cons line lines ih =>
    rw [iniEmit]
    split
    · refine ih started seen (blank || started) fun hb => ?_
      rcases Bool.or_eq_true_iff.1 hb with hb | hb
      · exact h hb
      · exact hb
    split
    · exact ih started seen blank h
    · rename_i hempty hrepeat
      have hrest := ih true (if iniHeader line then false else seen || iniAssigns uniqueKey line) false fun hb => by
        exact absurd hb Bool.false_ne_true
      cases blank with
      | false =>
        rw [if_neg Bool.false_ne_true, List.nil_append, iniEmit, if_neg hempty, if_neg hrepeat, hrest]
        rfl
      | true =>
        rw [if_pos rfl, List.singleton_append, iniEmit, if_pos rfl, h rfl, iniEmit, if_neg hempty, if_neg hrepeat, hrest]
        rfl

/-! ## Lines of the output -/

theorem iniEol_free (text : Bytes) : (13 : UInt8) ∉ iniEol text := by
  fun_induction iniEol text with
  | case1 => exact List.not_mem_nil
  | case2 rest ih => simpa using ih
  | case3 c rest _ ih =>
    rw [List.mem_cons, not_or]
    refine ⟨fun h => ?_, ih⟩
    by_cases hc : c = 13 <;> simp [hc] at h
    exact hc h.symm

theorem iniLines_free (text : Bytes) : ∀ line ∈ iniLines text, (13 : UInt8) ∉ line ∧ (10 : UInt8) ∉ line := by
  intro line hline
  have hmem := splitOn_mem _ _ line hline
  exact ⟨fun h => iniEol_free text (hmem _ h).1, fun h => (hmem _ h).2 rfl⟩

theorem iniEmit_mem (lines : List Bytes) (started seen blank : Bool) :
    ∀ line ∈ iniEmit uniqueKey started seen blank lines, line = [] ∨ line ∈ lines := by
  induction lines generalizing started seen blank with
  | nil => exact fun line h => .inr h
  | cons first lines ih =>
    intro line hline
    have hlater : ∀ {started seen blank}, line ∈ iniEmit uniqueKey started seen blank lines →
        line = [] ∨ line ∈ first :: lines := fun h => (ih _ _ _ line h).imp_right (List.mem_cons_of_mem _)
    rw [iniEmit] at hline
    split at hline
    · exact hlater hline
    split at hline
    · exact hlater hline
    · rcases List.mem_append.1 hline with hline | hline
      · left
        split at hline
        · exact List.mem_singleton.1 hline
        · exact absurd hline List.not_mem_nil
      · rcases List.mem_cons.1 hline with rfl | hline
        · exact .inr List.mem_cons_self
        · exact hlater hline

theorem iniSqueeze_filter (lines : List Bytes) (started blank : Bool) :
    (iniSqueeze started blank lines).filter (· ≠ []) = lines.filter (· ≠ []) := by
  induction lines generalizing started blank with
  | nil => rfl
  | cons line lines ih =>
    rw [iniSqueeze]
    by_cases hempty : line = []
    · rw [if_pos hempty, ih, hempty]
      rfl
    · have hnone : (if blank then [[]] else [] : List Bytes).filter (· ≠ []) = [] := by cases blank <;> rfl
      rw [if_neg hempty, List.filter_append, hnone, List.nil_append, List.filter_cons_of_pos (by simpa using hempty),
        List.filter_cons_of_pos (by simpa using hempty), ih]

/-- **What a repaired text is**: its lines, each with a CRLF; among them the kept lines in
their order, in paragraphs with one empty line between two of them. -/
structure IniClean (uniqueKey : Option Bytes) (text out : Bytes) : Prop where
  written : out = iniWrite (iniRepaired uniqueKey text)
  lineEnds : ∀ line ∈ iniRepaired uniqueKey text, (13 : UInt8) ∉ line ∧ (10 : UInt8) ∉ line
  kept : (iniRepaired uniqueKey text).filter (· ≠ []) = (iniKeep uniqueKey [] (iniLines text)).filter (· ≠ [])
  paragraphs : ∀ paragraph ∈ iniParagraphs (iniKeep uniqueKey [] (iniLines text)),
    paragraph ≠ [] ∧ [] ∉ paragraph

/-- **INI repair**: with the capacity its caller passes it succeeds inside that capacity, its
output is the repaired text, and that text repaired again is itself. -/
theorem ini_repair_clean (text : Bytes) (uniqueKey : Option Bytes) (capacity : ℕ)
    (hcapacity : 2 * text.length + 2 ≤ capacity) :
    ∃ out, iniRepair text capacity uniqueKey = some out ∧ out.length ≤ capacity ∧
      IniClean uniqueKey text out ∧
      ∀ capacity', 2 * out.length + 2 ≤ capacity' → iniRepair out capacity' uniqueKey = some out := by
  have hemit := iniEmit_repaired text uniqueKey
  have hlength := iniEmit_length uniqueKey (iniLines text) false false false
  rw [hemit, if_neg Bool.false_ne_true, iniLines, splitOn_sum] at hlength
  have heol := iniEol_length text
  have hfits : (iniWrite (iniRepaired uniqueKey text)).length ≤ capacity := by omega
  have hfree : ∀ line ∈ iniRepaired uniqueKey text, (13 : UInt8) ∉ line ∧ (10 : UInt8) ∉ line := by
    intro line hline
    rw [← hemit] at hline
    rcases iniEmit_mem _ _ _ _ line hline with rfl | hline
    · exact ⟨List.not_mem_nil, List.not_mem_nil⟩
    · exact iniLines_free text line hline
  refine ⟨iniWrite (iniRepaired uniqueKey text), ?_, hfits, ⟨rfl, hfree, ?_, ?_⟩, ?_⟩
  · rw [iniRepair_eq, hemit]
    exact if_pos hfits
  · rw [iniRepaired, ← (iniSqueeze_eq _).2.2, iniSqueeze_filter]
  · intro paragraph hparagraph
    obtain ⟨hpiece, hne⟩ := List.mem_filter.1 hparagraph
    exact ⟨by simpa using hne, fun h => (splitOn_mem _ _ _ hpiece _ h).2 rfl⟩
  · intro capacity' hcapacity'
    have hagain : iniEmit uniqueKey false false false (iniLines (iniWrite (iniRepaired uniqueKey text))) =
        iniRepaired uniqueKey text := by
      rw [iniLines_write hfree, iniEmit_concat, ← hemit]
      exact iniEmit_idem _ _ _ _ fun h => absurd h Bool.false_ne_true
    rw [iniRepair_eq, hagain]
    exact if_pos (by omega)

/-- Three kinds of line ends, a repeated key and a line without an end. -/
theorem ini_repair_clean_demo :
    ∃ out, iniRepair (ascii "[a]\nk=1\rk=2\n\n\r\nx") 40 (some (ascii "k")) = some out ∧ out.length ≤ 40 := by
  obtain ⟨out, hout, hlength, -⟩ :=
    ini_repair_clean (ascii "[a]\nk=1\rk=2\n\n\r\nx") (some (ascii "k")) 40 (by decide)
  exact ⟨out, hout, hlength⟩

example : iniRepaired (some (ascii "k")) (ascii "[a]\nk=1\rk=2\n\n\r\nx") =
    [ascii "[a]", ascii "k=1", [], ascii "x"] := by
  decide +kernel

end

end V9xRemote
