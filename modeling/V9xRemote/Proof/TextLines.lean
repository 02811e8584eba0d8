import Mathlib.Algebra.Order.BigOperators.Group.List
import V9xRemote.Proof.TextScan

/-!
# The documented lines of a text

A line's content is its piece without a CR directly before the LF. The filter looks for the
CR at the end of what it holds of the line, which is another place where the line is cut
short and where no LF comes.
-/

namespace V9xRemote

open Bytes Pieces

variable {p : Bytes} {ended : Bool}

/-- What a line is to hold: its piece without a CR directly before the LF. -/
def lineContent (piece : Bytes × Bool) : Bytes := if piece.2 then stripCr piece.1 else piece.1

/-- The contents of the lines of a text. -/
def lineContents (content : Bytes) : List Bytes := (textPieces content).map lineContent

/-- **The law of lines**: the filter has the documented lines of a stream, in whatever blocks it comes, matches
them and writes them cut to `textLineMax` bytes, and marks that one is longer. -/
def LineLaw (blocks : List Bytes) : Prop :=
  let contents := lineContents blocks.flatten
  ∀ skip wanted capacity, blocks.flatten.length + 1 ≤ capacity →
    let scan := textEnd (blocks.foldl textFeed (textBegin true skip wanted capacity))
    let matching := (contents.map fun content => content.take textLineMax).filter fun line => LineMatches wanted line
    scan.lines = contents.length ∧ scan.matched = matching.length ∧
      scan.output = writtenLines (matching.drop skip) ∧
      (scan.flags &&& textLongLine ≠ 0 ↔ ∃ content ∈ contents, textLineMax < content.length)

/-- The end of the line is where the filter looks for it: before its LF in a line it holds whole, or at no CR. -/
def EndsWell (piece : Bytes × Bool) : Prop :=
  (piece.2 = true ∧ piece.1.length ≤ textLineMax) ∨ (piece.1.take textLineMax).getLast? ≠ some 13

/-- The CR before the LF is the byte behind the last that the filter holds. -/
def CrBehind (piece : Bytes × Bool) : Prop :=
  piece.2 = true ∧ piece.1.length = textLineMax + 1 ∧ piece.1.getLast? = some 13

/-- No line has a CR where the filter takes it for one before the LF, and a line with its CR right behind what
the filter holds is not the only long one. -/
def LinesPlain (content : Bytes) : Prop :=
  (∀ piece ∈ textPieces content, EndsWell piece) ∧
    ((∃ piece ∈ textPieces content, CrBehind piece) →
      ∃ piece ∈ textPieces content, textLineMax < piece.1.length ∧ ¬CrBehind piece)

/-! ## One line -/

theorem stripCr_of_cr (line : Bytes) : stripCr (line ++ [13]) = line := by
  rw [stripCr, List.getLast?_append, List.getLast?_singleton, Option.some_or, if_pos rfl, List.dropLast_concat]

theorem stripCr_of_other {line : Bytes} (h : line.getLast? ≠ some 13) : stripCr line = line := if_neg h

theorem endsCr_iff {line : Bytes} : line.getLast? = some 13 ↔ ∃ head, line = head ++ [13] := by
  rw [List.getLast?_eq_some_iff]

/-- **The filter's line is the documented one** exactly where its end is where the filter looks for it. -/
theorem scanLine_iff (piece : Bytes × Bool) :
    scanLine piece.1 = (lineContent piece).take textLineMax ↔ EndsWell piece := by
  obtain ⟨p, ended⟩ := piece
  simp only [scanLine, lineContent, EndsWell]
  by_cases hcut : (p.take textLineMax).getLast? = some 13
  · -- the filter drops a CR: the documented line drops it only where the line is whole
    obtain ⟨held, hheld⟩ := endsCr_iff.1 hcut
    have hlength := congrArg List.length hheld
    rw [List.length_take, List.length_append, List.length_singleton] at hlength
    rw [hheld, stripCr_of_cr]
    cases ended with
    | false =>
      apply iff_of_false
      · intro hsame
        have hheld' : held = held ++ [13] := hsame.trans hheld
        exact absurd (congrArg List.length hheld') (by simp)
      · rintro (⟨hended, -⟩ | hother)
        · cases hended
        · rw [← hheld] at hother
          exact hother hcut
    | true =>
      by_cases hshort : p.length ≤ textLineMax
      · refine iff_of_true ?_ (Or.inl ⟨rfl, hshort⟩)
        have hp : p = held ++ [13] := (List.take_of_length_le hshort).symm.trans hheld
        rw [if_pos rfl, hp, stripCr_of_cr, List.take_of_length_le (by omega)]
      · have hfull : textLineMax ≤ (stripCr p).length := by
          rw [stripCr]
          split_ifs
          · rw [List.length_dropLast]
            omega
          · omega
        apply iff_of_false
        · intro hsame
          have hlen := congrArg List.length hsame
          rw [if_pos rfl, List.length_take] at hlen
          omega
        · rintro (⟨-, hle⟩ | hother)
          · exact hshort hle
          · rw [← hheld] at hother
            exact hother hcut
  · refine iff_of_true ?_ (Or.inr hcut)
    rw [stripCr_of_other hcut]
    cases ended with
    | false => rfl
    | true =>
      rw [if_pos rfl]
      by_cases hcr : p.getLast? = some 13
      · obtain ⟨head, rfl⟩ := endsCr_iff.1 hcr
        rw [stripCr_of_cr]
        -- the CR is not among the bytes held, so the line is long enough without it
        have hlong : textLineMax ≤ head.length := by
          by_contra hshort
          rw [List.take_of_length_le (by rw [List.length_append, List.length_singleton]; omega)] at hcut
          exact hcut hcr
        rw [List.take_append_of_le_length hlong]
      · rw [stripCr_of_other hcr]

/-- A line is longer than the filter holds exactly where its piece is, and not by its CR alone. -/
theorem lineContent_long (piece : Bytes × Bool) :
    textLineMax < (lineContent piece).length ↔ textLineMax < piece.1.length ∧ ¬CrBehind piece := by
  obtain ⟨p, ended⟩ := piece
  simp only [lineContent, CrBehind]
  cases ended with
  | false => simp
  | true =>
    rw [if_pos rfl]
    by_cases hcr : p.getLast? = some 13
    · obtain ⟨head, rfl⟩ := endsCr_iff.1 hcr
      rw [stripCr_of_cr, List.length_append, List.length_singleton]
      simp only [true_and, hcr, and_true]
      omega
    · rw [stripCr_of_other hcr]
      simp [hcr]

/-! ## The lines of a stream -/

theorem scanLines_iff (content : Bytes) :
    (linePieces content).map scanLine = (lineContents content).map (fun line => line.take textLineMax) ↔
      ∀ piece ∈ textPieces content, EndsWell piece := by
  rw [linePieces, lineContents, List.map_map, List.map_map, List.map_inj_left]
  exact forall₂_congr fun piece _ => scanLine_iff piece

theorem isLong_iff (content : Bytes) :
    (linePieces content).any isLong = true ↔ ∃ piece ∈ textPieces content, textLineMax < piece.1.length := by
  rw [linePieces, List.any_map, List.any_eq_true]
  exact exists_congr fun piece => and_congr_right fun _ => decide_eq_true_iff

theorem contentLong_iff (content : Bytes) : (∃ line ∈ lineContents content, textLineMax < line.length) ↔
    ∃ piece ∈ textPieces content, textLineMax < piece.1.length ∧ ¬CrBehind piece := by
  simp only [lineContents, List.mem_map, exists_exists_and_eq_and, lineContent_long]

/-- The mark of a long line is right exactly where a CR behind the bytes held is not its only reason. -/
theorem longMark_iff (content : Bytes) :
    ((∃ piece ∈ textPieces content, textLineMax < piece.1.length) ↔
        ∃ line ∈ lineContents content, textLineMax < line.length) ↔
      ((∃ piece ∈ textPieces content, CrBehind piece) →
        ∃ piece ∈ textPieces content, textLineMax < piece.1.length ∧ ¬CrBehind piece) := by
  rw [contentLong_iff]
  constructor
  · rintro hmark ⟨piece, hpiece, hcr⟩
    apply hmark.1
    refine ⟨piece, hpiece, ?_⟩
    rw [hcr.2.1]
    exact Nat.lt_succ_self _
  · intro hplain
    constructor
    · rintro ⟨piece, hpiece, hlong⟩
      by_cases hcr : CrBehind piece
      · exact hplain ⟨piece, hpiece, hcr⟩
      · exact ⟨piece, hpiece, hlong, hcr⟩
    · rintro ⟨piece, hpiece, hlong, -⟩
      exact ⟨piece, hpiece, hlong⟩

/-- No line has a LF. -/
theorem linePieces_plain {content : Bytes} (hp : p ∈ linePieces content) : 10 ∉ p := by
  have hpiece : p ∈ content.splitOn 10 := (endedPieces_initial _).subset hp
  intro hmem
  exact (splitOn_mem content 10 p hpiece 10 hmem).2 rfl

theorem stripCr_subset (line : Bytes) : stripCr line ⊆ line := by
  rw [stripCr]
  split_ifs
  · exact List.dropLast_subset line
  · exact List.Subset.refl line

theorem lineContent_subset (piece : Bytes × Bool) : lineContent piece ⊆ piece.1 := by
  rw [lineContent]
  split_ifs
  · exact stripCr_subset _
  · exact List.Subset.refl _

/-- The lines a filter writes need no more room than the stream has bytes, and one LF. -/
theorem selectedLines_room (skip : ℕ) (wanted content : Bytes) :
    (writtenLines (selectedLines skip wanted content)).length ≤ content.length + 1 := by
  have hline : ∀ p ∈ linePieces content, (scanLine p).length + 1 ≤ p.length + 1 := by
    intro p _
    have htake := List.length_take_le' textLineMax p
    rw [scanLine, stripCr]
    split_ifs
    · rw [List.length_dropLast]
      omega
    · omega
  have hsublist : (selectedLines skip wanted content).Sublist ((linePieces content).map scanLine) :=
    (List.drop_sublist _ _).trans List.filter_sublist
  have hselected := (hsublist.map fun line => line.length + 1).sum_le_sum fun n _ => Nat.zero_le n
  have hwhole : (((linePieces content).map scanLine).map fun line => line.length + 1).sum ≤
      ((linePieces content).map fun p => p.length + 1).sum := by
    rw [List.map_map]
    exact List.sum_le_sum hline
  rw [writtenLines_length]
  exact hselected.trans (hwhole.trans (linePieces_sum content))

/-- **A filter with room for the whole stream.** -/
theorem textEnd_whole (skip : ℕ) (wanted : Bytes) {capacity : ℕ} (blocks : List Bytes)
    (hcapacity : blocks.flatten.length + 1 ≤ capacity) :
    let scan := textEnd (blocks.foldl textFeed (textBegin true skip wanted capacity))
    scan.lines = (linePieces blocks.flatten).length ∧
      scan.matched = (matchingLines wanted (linePieces blocks.flatten)).length ∧
      scan.output = writtenLines (selectedLines skip wanted blocks.flatten) ∧
      (scan.flags &&& textLongLine ≠ 0 ↔
        ∃ piece ∈ textPieces blocks.flatten, textLineMax < piece.1.length) := by
  intro scan
  obtain ⟨hlines, hmatched, houtput, -, hflags⟩ := textEnd_emits skip wanted capacity blocks
  have hroom := (selectedLines_room skip wanted blocks.flatten).trans hcapacity
  have hall : Budget.stopped lineRoom lineRoom capacity 0 (selectedLines skip wanted blocks.flatten) = false := by
    apply Budget.not_stopped fun _ => le_rfl
    rw [Nat.zero_add]
    exact (writtenLines_length _).symm.trans_le hroom
  refine ⟨hlines, hmatched, ?_, ?_⟩
  · rw [← Budget.taken_all hall]
    exact houtput
  · rw [← isLong_iff, hflags, Ne, textFlags_long, Bool.not_eq_false]

/-- **The law of lines holds exactly of the streams** in which no CR stands where the filter alone takes it for the
end of a line. -/
theorem line_law_iff (blocks : List Bytes) : LineLaw blocks ↔ LinesPlain blocks.flatten := by
  set content := blocks.flatten with hcontent
  rw [LinesPlain, ← scanLines_iff, ← longMark_iff]
  constructor
  · intro hlaw
    obtain ⟨-, -, houtput, hlong⟩ := hlaw 0 [] (content.length + 1) le_rfl
    obtain ⟨-, -, hwritten, hmark⟩ := @textEnd_whole 0 [] (content.length + 1) blocks le_rfl
    have hall : ∀ lines : List Bytes, lines.filter (fun line => LineMatches [] line) = lines := by
      intro lines
      exact List.filter_eq_self.2 fun line _ => decide_eq_true (List.nil_infix)
    refine ⟨?_, hmark.symm.trans hlong⟩
    have hsame := hwritten.symm.trans houtput
    rw [selectedLines, matchingLines, hall, hall, List.drop_zero, List.drop_zero] at hsame
    apply ended_injective ?_ ?_ hsame
    · intro line hline
      obtain ⟨p, hp, rfl⟩ := List.mem_map.1 hline
      intro hmem
      exact linePieces_plain hp (List.mem_of_mem_take (stripCr_subset _ hmem))
    · intro line hline
      obtain ⟨c, hc, rfl⟩ := List.mem_map.1 hline
      obtain ⟨piece, hpiece, rfl⟩ := List.mem_map.1 hc
      intro hmem
      exact linePieces_plain (List.mem_map_of_mem hpiece) (lineContent_subset piece (List.mem_of_mem_take hmem))
  · rintro ⟨hsame, hlong⟩ skip wanted capacity hcapacity
    obtain ⟨hlines, hmatched, hwritten, hmark⟩ := textEnd_whole skip wanted blocks hcapacity
    rw [selectedLines, matchingLines, hsame] at hwritten
    rw [matchingLines, hsame] at hmatched
    refine ⟨?_, hmatched, hwritten, hmark.trans hlong⟩
    rw [hlines, linePieces, lineContents, List.length_map, List.length_map]

/-- The CR of a last line without a LF is dropped. -/
theorem line_law_fails : ¬LineLaw [ascii "a", [13]] := by
  intro hlaw
  obtain ⟨-, -, houtput, -⟩ := hlaw 0 [] 3 (by decide)
  exact absurd houtput (by decide)

end V9xRemote
