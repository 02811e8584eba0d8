import V9xRemote.Lib.Budget
import V9xRemote.Lib.Pieces
import V9xRemote.Spec.Chat
import V9xRemote.Spec.TextScan

/-!
# The lines of a text

What the filter holds of an unfinished line is computed from its bytes. So feeding a stream
is going through its pieces between LFs, in whatever blocks the stream comes.
-/

namespace V9xRemote

open Bytes Pieces

variable {scan : TextScan} {p q : Bytes} {ps : List Bytes}

/-! ## From bytes to pieces -/

/-- The filter with an unfinished line. -/
def TextScan.hold (scan : TextScan) (p : Bytes) : TextScan :=
  { scan with line := p.take textLineMax, lineCut := decide (textLineMax < p.length) }

/-- A whole piece. -/
def textPiece (scan : TextScan) (p : Bytes) : TextScan := textLineDone (scan.hold p)

/-- All pieces but the last, which is held. -/
def textHold (scan : TextScan) : List Bytes → TextScan
  | [] => scan
  | [p] => scan.hold p
  | p :: q :: ps => textHold (textPiece scan p) (q :: ps)

theorem hold_nil (hline : scan.line = []) (hcut : scan.lineCut = false) : scan.hold [] = scan := by
  obtain ⟨⟩ := scan
  simp only at hline hcut
  subst hline hcut
  rfl

theorem textPiece_hold_nil (scan : TextScan) (p : Bytes) : (textPiece scan p).hold [] = textPiece scan p :=
  hold_nil rfl rfl

/-- **A byte that ends no line** takes what is held of the bytes before it to what is held with it. -/
theorem textFeedByte_hold {ch : UInt8} (hch : ch ≠ 10) (scan : TextScan) (p : Bytes) :
    textFeedByte (scan.hold p) ch = scan.hold (p ++ [ch]) := by
  rw [textFeedByte, if_neg hch]
  have hlength : (scan.hold p).line.length = min textLineMax p.length := List.length_take
  have hmore : (p ++ [ch]).length = p.length + 1 := by rw [List.length_append, List.length_singleton]
  by_cases hroom : p.length < textLineMax
  · rw [if_pos (by omega)]
    have hp : p.take textLineMax = p := List.take_of_length_le hroom.le
    have hpc : (p ++ [ch]).take textLineMax = p ++ [ch] := List.take_of_length_le (by omega)
    simp only [TextScan.hold, hp, hpc, hmore, decide_eq_false (by omega : ¬textLineMax < p.length),
      decide_eq_false (by omega : ¬textLineMax < p.length + 1)]
  · rw [if_neg (by omega)]
    have hpc : (p ++ [ch]).take textLineMax = p.take textLineMax := List.take_append_of_le_length (by omega)
    simp only [TextScan.hold, hpc, hmore, decide_eq_true (by omega : textLineMax < p.length + 1)]

/-- **Feeding a stream** is going through its pieces: the first goes on what is held. -/
theorem textFeed_hold (data : Bytes) (scan : TextScan) (p : Bytes) {first : Bytes} {rest : List Bytes}
    (h : data.splitOn 10 = first :: rest) : textFeed (scan.hold p) data = textHold scan ((p ++ first) :: rest) := by
  induction data generalizing scan p first rest with
  | nil =>
    rw [List.splitOn_nil] at h
    obtain ⟨rfl, rfl⟩ := List.cons.inj h
    rw [List.append_nil]
    rfl
  | cons ch data ih =>
    obtain ⟨next, more, hnext⟩ := List.exists_cons_of_ne_nil (List.splitOn_ne_nil 10 data)
    rw [List.splitOn_cons_eq_if_modifyHead, hnext] at h
    rw [textFeed, List.foldl_cons]
    by_cases hch : ch = 10
    · rw [if_pos (by simp [hch])] at h
      obtain ⟨rfl, rfl⟩ := List.cons.inj h
      have hdone : textFeedByte (scan.hold p) ch = textPiece scan p := if_pos hch
      have hrest := ih (textPiece scan p) [] hnext
      rw [textPiece_hold_nil, List.nil_append] at hrest
      rw [hdone, List.append_nil]
      exact hrest
    · rw [if_neg (by simpa using hch), List.modifyHead_cons] at h
      obtain ⟨rfl, rfl⟩ := List.cons.inj h
      rw [textFeedByte_hold hch]
      have hrest := ih scan (p ++ [ch]) hnext
      rw [List.append_assoc, List.singleton_append] at hrest
      exact hrest

/-- The lines of a text given its pieces between LFs: the last piece is one where it is not
empty. Each with whether a LF ends it. -/
def endedPieces : List Bytes → List (Bytes × Bool)
  | [] => []
  | [last] => if last = [] then [] else [(last, false)]
  | p :: q :: ps => (p, true) :: endedPieces (q :: ps)

/-- The lines of a text, as pieces. -/
def textPieces (content : Bytes) : List (Bytes × Bool) := endedPieces (content.splitOn 10)

theorem textEnd_hold (ps : List Bytes) (hline : scan.line = []) (hcut : scan.lineCut = false) :
    textEnd (textHold scan ps) = ((endedPieces ps).map Prod.fst).foldl textPiece scan := by
  induction ps using endedPieces.induct generalizing scan with
  | case1 =>
    rw [textHold, textEnd, hline, hcut, if_neg (by simp)]
    rfl
  | case2 =>
    rw [textHold, hold_nil hline hcut, textEnd, hline, hcut, if_neg (by simp)]
    rfl
  | case3 last hne =>
    have hlength : ((scan.hold last).line.length ≠ 0 ∨ (scan.hold last).lineCut = true) := by
      left
      have hpos := List.length_pos_iff.2 hne
      have hmax : 0 < textLineMax := by decide
      have hheld : (scan.hold last).line.length = min textLineMax last.length := List.length_take
      omega
    rw [textHold, textEnd, if_pos hlength, endedPieces, if_neg hne]
    rfl
  | case4 p q ps ih =>
    rw [textHold, ih rfl rfl]
    rfl

/-- **The filter over a whole text**, in whatever blocks it comes, goes through its lines. -/
theorem textFeed_blocks (blocks : List Bytes) (hline : scan.line = []) (hcut : scan.lineCut = false) :
    textEnd (blocks.foldl textFeed scan) = ((textPieces blocks.flatten).map Prod.fst).foldl textPiece scan := by
  have hflatten : blocks.foldl textFeed scan = textFeed scan blocks.flatten := by
    rw [textFeed, List.foldl_flatten]
    rfl
  obtain ⟨first, rest, hsplit⟩ := List.exists_cons_of_ne_nil (List.splitOn_ne_nil 10 blocks.flatten)
  have hfeed := textFeed_hold blocks.flatten scan [] hsplit
  rw [hold_nil hline hcut, List.nil_append, ← hsplit] at hfeed
  rw [hflatten, hfeed, textEnd_hold _ hline hcut]
  rfl

/-! ## What a line is -/

/-- The line of a piece as the filter has it: its first bytes, without a CR at their end. -/
def scanLine (p : Bytes) : Bytes := stripCr (p.take textLineMax)

/-- The line contains the wanted string, without ASCII case. -/
def LineMatches (wanted line : Bytes) : Prop := wanted.map textLower <:+: line.map textLower

instance (wanted line : Bytes) : Decidable (LineMatches wanted line) := inferInstanceAs (Decidable (_ <:+: _))

/-- The lines that contain the wanted string. -/
def matchingLines (wanted : Bytes) (ps : List Bytes) : List Bytes :=
  (ps.map scanLine).filter fun line => LineMatches wanted line

/-- Lines as they are written, each with a LF. -/
def writtenLines (lines : List Bytes) : Bytes := lines.flatMap fun line => line ++ [10]

/-- The flags of an answer. -/
def textFlags (truncated long : Bool) : UInt32 :=
  (if truncated then textTruncated else 0) ||| (if long then textLongLine else 0)

theorem writtenLines_length (lines : List Bytes) :
    (writtenLines lines).length = (lines.map fun line => line.length + 1).sum := by
  rw [writtenLines, List.length_flatMap]
  simp only [List.length_append, List.length_singleton]

theorem textFlags_truncated (truncated long : Bool) :
    textFlags truncated long &&& textTruncated = 0 ↔ truncated = false := by
  cases truncated <;> cases long <;> decide

theorem textFlags_long (truncated long : Bool) :
    textFlags truncated long &&& textLongLine = 0 ↔ long = false := by
  cases truncated <;> cases long <;> decide

theorem lower_at (line : Bytes) {i : ℕ} (hi : i < line.length) :
    (line.map textLower)[i]? = some (textLower (line.at' i)) := by
  rw [List.getElem?_map, List.getElem?_eq_getElem hi, Bytes.at', List.getD_eq_getElem?_getD,
    List.getElem?_eq_getElem hi]
  rfl

/-- **The matcher** finds the wanted string anywhere in the line. -/
theorem textMatches_iff (wanted line : Bytes) : textMatches wanted line = true ↔ LineMatches wanted line := by
  rw [textMatches, LineMatches, List.infix_iff_getElem?]
  simp only [List.length_map, List.getElem_map]
  split_ifs with hempty hlong
  · have hnil : wanted = [] := List.length_eq_zero_iff.1 hempty
    subst hnil
    exact iff_of_true rfl ⟨0, by simp, by simp⟩
  · apply iff_of_false id
    rintro ⟨start, hstart, -⟩
    omega
  · rw [List.any_eq_true]
    constructor
    · rintro ⟨start, hstart, hall⟩
      rw [List.mem_range] at hstart
      refine ⟨start, by omega, ?_⟩
      intro i hi
      have hsame := List.all_eq_true.1 hall i (List.mem_range.2 hi)
      rw [Nat.add_comm i, lower_at line (by omega), beq_iff_eq.1 hsame]
      have hwanted := lower_at wanted hi
      rw [List.getElem?_map, List.getElem?_eq_getElem hi] at hwanted
      exact hwanted.symm
    · rintro ⟨start, hstart, hall⟩
      refine ⟨start, List.mem_range.2 (by omega), List.all_eq_true.2 ?_⟩
      intro i hi
      rw [List.mem_range] at hi
      have hsame := hall i hi
      have hwanted := lower_at wanted hi
      rw [List.getElem?_map, List.getElem?_eq_getElem hi] at hwanted
      rw [Nat.add_comm i, lower_at line (by omega)] at hsame
      exact beq_iff_eq.2 ((Option.some.inj hsame).trans (Option.some.inj hwanted))

/-! ## What a line does -/

theorem stripCr_eq (line : Bytes) :
    (if line.length ≠ 0 ∧ line.at' (line.length - 1) = 13 then line.dropLast else line) = stripCr line := by
  rw [stripCr]
  rcases List.eq_nil_or_concat line with rfl | ⟨head, last, rfl⟩
  · rfl
  · rw [List.concat_eq_append, List.getLast?_append, List.getLast?_singleton, Option.some_or, Bytes.at',
      List.getD_eq_getElem?_getD, List.length_append, List.length_singleton, Nat.add_sub_cancel,
      List.getElem?_append_right le_rfl, Nat.sub_self]
    simp

/-- A whole piece, as the line it makes. -/
theorem textPiece_eq (scan : TextScan) (p : Bytes) : textPiece scan p =
    let flags := if textLineMax < p.length then scan.flags ||| textLongLine else scan.flags
    let next := { scan with line := [], lineCut := false, lines := scan.lines + 1, flags := flags }
    if textMatches scan.wanted (scanLine p) then
      let next := { next with matched := scan.matched + 1 }
      if scan.emit ∧ scan.matched + 1 > scan.skip ∧ flags &&& textTruncated = 0 then
        if scan.output.length + (scanLine p).length + 1 > scan.capacity then
          { next with flags := flags ||| textTruncated }
        else { next with output := scan.output ++ scanLine p ++ [10], emitted := scan.emitted + 1 }
      else next
    else next := by
  have hline : (if (scan.hold p).line.length ≠ 0 ∧ (scan.hold p).line.at' ((scan.hold p).line.length - 1) = 13
      then (scan.hold p).line.dropLast else (scan.hold p).line) = scanLine p := stripCr_eq _
  rw [textPiece, textLineDone]
  simp only [hline]
  simp only [TextScan.hold, decide_eq_true_eq]
  split_ifs <;> rfl

section
variable {truncated long : Bool}

/-- A line is longer than the filter holds. -/
def isLong (p : Bytes) : Bool := decide (textLineMax < p.length)

theorem longFlags (p : Bytes) :
    (if textLineMax < p.length then textFlags truncated long ||| textLongLine else textFlags truncated long) =
      textFlags truncated (long || isLong p) := by
  by_cases hp : textLineMax < p.length
  · rw [if_pos hp, isLong, decide_eq_true hp]
    cases truncated <;> cases long <;> decide
  · rw [if_neg hp, isLong, decide_eq_false hp, Bool.or_false]

theorem stopFlags : textFlags false long ||| textTruncated = textFlags true long := by cases long <;> decide

theorem textPiece_other (hother : ¬LineMatches scan.wanted (scanLine p))
    (hflags : scan.flags = textFlags truncated long) :
    textPiece scan p = { scan with
      line := [], lineCut := false, lines := scan.lines + 1, flags := textFlags truncated (long || isLong p) } := by
  rw [textPiece_eq, hflags, longFlags]
  exact if_neg (mt (textMatches_iff _ _).1 hother)

theorem textPiece_passed (hmatch : LineMatches scan.wanted (scanLine p))
    (hpass : ¬(scan.emit = true ∧ scan.matched + 1 > scan.skip ∧ truncated = false))
    (hflags : scan.flags = textFlags truncated long) :
    textPiece scan p = { scan with
      line := [], lineCut := false, lines := scan.lines + 1, flags := textFlags truncated (long || isLong p),
      matched := scan.matched + 1 } := by
  rw [textPiece_eq, hflags, longFlags]
  simp only [textFlags_truncated]
  rw [if_pos ((textMatches_iff _ _).2 hmatch), if_neg hpass]

theorem textPiece_written (hmatch : LineMatches scan.wanted (scanLine p)) (hemit : scan.emit = true)
    (hskip : scan.skip < scan.matched + 1) (hflags : scan.flags = textFlags false long)
    (hroom : scan.output.length + ((scanLine p).length + 1) ≤ scan.capacity) :
    textPiece scan p = { scan with
      line := [], lineCut := false, lines := scan.lines + 1, flags := textFlags false (long || isLong p),
      matched := scan.matched + 1, output := scan.output ++ scanLine p ++ [10], emitted := scan.emitted + 1 } := by
  rw [textPiece_eq, hflags, longFlags]
  simp only [textFlags_truncated]
  rw [if_pos ((textMatches_iff _ _).2 hmatch), if_pos ⟨hemit, hskip, trivial⟩, if_neg (by omega)]

theorem textPiece_stopped (hmatch : LineMatches scan.wanted (scanLine p)) (hemit : scan.emit = true)
    (hskip : scan.skip < scan.matched + 1) (hflags : scan.flags = textFlags false long)
    (hroom : scan.capacity < scan.output.length + ((scanLine p).length + 1)) :
    textPiece scan p = { scan with
      line := [], lineCut := false, lines := scan.lines + 1, flags := textFlags true (long || isLong p),
      matched := scan.matched + 1 } := by
  rw [textPiece_eq, hflags, longFlags]
  simp only [textFlags_truncated, stopFlags]
  rw [if_pos ((textMatches_iff _ _).2 hmatch), if_pos ⟨hemit, hskip, trivial⟩, if_pos (by omega)]

/-! ## What the lines do -/

theorem matchingLines_other {wanted : Bytes} (hother : ¬LineMatches wanted (scanLine p)) :
    matchingLines wanted (p :: ps) = matchingLines wanted ps :=
  List.filter_cons_of_neg (by simpa using hother)

theorem matchingLines_match {wanted : Bytes} (hmatch : LineMatches wanted (scanLine p)) :
    matchingLines wanted (p :: ps) = scanLine p :: matchingLines wanted ps :=
  List.filter_cons_of_pos (by simpa using hmatch)

/-- The filter counts every line. -/
theorem textPieces_lines (ps : List Bytes) (scan : TextScan) :
    (ps.foldl textPiece scan).lines = scan.lines + ps.length := by
  induction ps generalizing scan with
  | nil => rfl
  | cons p ps ih =>
    have hstep : (textPiece scan p).lines = scan.lines + 1 := by
      rw [textPiece_eq]
      simp only
      split_ifs <;> rfl
    rw [List.foldl_cons, ih, hstep, List.length_cons]
    omega

/-- The filter counts every matching line. -/
theorem textPieces_matched (ps : List Bytes) (scan : TextScan) :
    (ps.foldl textPiece scan).matched = scan.matched + (matchingLines scan.wanted ps).length := by
  induction ps generalizing scan with
  | nil => rfl
  | cons p ps ih =>
    have hwanted : (textPiece scan p).wanted = scan.wanted := by
      rw [textPiece_eq]
      simp only
      split_ifs <;> rfl
    rw [List.foldl_cons, ih, hwanted]
    by_cases hmatch : LineMatches scan.wanted (scanLine p)
    · have hstep : (textPiece scan p).matched = scan.matched + 1 := by
        rw [textPiece_eq]
        simp only [(textMatches_iff _ _).2 hmatch, if_true]
        split_ifs <;> rfl
      rw [hstep, matchingLines_match hmatch, List.length_cons]
      omega
    · have hstep : (textPiece scan p).matched = scan.matched := by
        rw [textPiece_eq]
        simp only [Bool.eq_false_iff.2 (mt (textMatches_iff _ _).1 hmatch), Bool.false_eq_true, if_false]
      rw [hstep, matchingLines_other hmatch]

/-- A filter whose output is full writes no more. -/
theorem textPieces_full (ps : List Bytes) (hflags : scan.flags = textFlags true long) :
    (ps.foldl textPiece scan).output = scan.output ∧ (ps.foldl textPiece scan).emitted = scan.emitted ∧
      (ps.foldl textPiece scan).flags = textFlags true (long || ps.any isLong) := by
  induction ps generalizing scan long with
  | nil =>
    rw [List.any_nil, Bool.or_false]
    exact ⟨rfl, rfl, hflags⟩
  | cons p ps ih =>
    rw [List.foldl_cons, List.any_cons, ← Bool.or_assoc]
    by_cases hmatch : LineMatches scan.wanted (scanLine p)
    · rw [textPiece_passed hmatch (by simp) hflags]
      exact ih rfl
    · rw [textPiece_other hmatch hflags]
      exact ih rfl

/-- The room a written line takes. -/
def lineRoom (line : Bytes) : ℕ := line.length + 1

open Budget in
/-- **What a filter writes**: the matching lines behind those to skip, while they fit. -/
theorem textPieces_emits (ps : List Bytes) (hemit : scan.emit = true) (hflags : scan.flags = textFlags false long) :
    (ps.foldl textPiece scan).output = scan.output ++ writtenLines (taken lineRoom lineRoom scan.capacity
        scan.output.length ((matchingLines scan.wanted ps).drop (scan.skip - scan.matched))) ∧
      (ps.foldl textPiece scan).emitted = scan.emitted + (taken lineRoom lineRoom scan.capacity
        scan.output.length ((matchingLines scan.wanted ps).drop (scan.skip - scan.matched))).length ∧
      (ps.foldl textPiece scan).flags = textFlags (stopped lineRoom lineRoom scan.capacity
        scan.output.length ((matchingLines scan.wanted ps).drop (scan.skip - scan.matched)))
        (long || ps.any isLong) := by
  induction ps generalizing scan long with
  | nil =>
    rw [matchingLines, List.map_nil, List.filter_nil, List.drop_nil, List.any_nil, Bool.or_false]
    exact ⟨(List.append_nil _).symm, rfl, hflags⟩
  | cons p ps ih =>
    rw [List.foldl_cons, List.any_cons, ← Bool.or_assoc]
    by_cases hmatch : LineMatches scan.wanted (scanLine p)
    · rw [matchingLines_match hmatch]
      by_cases hskip : scan.skip < scan.matched + 1
      · rw [Nat.sub_eq_zero_of_le (by omega : scan.skip ≤ scan.matched), List.drop_zero]
        by_cases hroom : scan.output.length + lineRoom (scanLine p) ≤ scan.capacity
        · rw [textPiece_written hmatch hemit hskip hflags hroom, taken_fits hroom, stopped_fits hroom]
          obtain ⟨houtput, hemitted, hrest⟩ := @ih { scan with
            line := [], lineCut := false, lines := scan.lines + 1, flags := textFlags false (long || isLong p),
            matched := scan.matched + 1, output := scan.output ++ scanLine p ++ [10], emitted := scan.emitted + 1 }
            (long || isLong p) hemit rfl
          have hlength : (scan.output ++ scanLine p ++ [10]).length = scan.output.length + lineRoom (scanLine p) := by
            rw [List.append_assoc, List.length_append, List.length_append, List.length_singleton, lineRoom]
          simp only [hlength, Nat.sub_eq_zero_of_le (by omega : scan.skip ≤ scan.matched + 1), List.drop_zero]
            at houtput hemitted hrest
          refine ⟨?_, ?_, hrest⟩
          · rw [houtput, writtenLines, writtenLines, List.flatMap_cons, List.append_assoc, List.append_assoc,
              List.append_assoc]
          · rw [hemitted, List.length_cons]
            omega
        · rw [textPiece_stopped hmatch hemit hskip hflags (by rw [← lineRoom]; omega), taken_full (by omega),
            stopped_full (by omega), writtenLines, List.flatMap_nil, List.append_nil]
          exact textPieces_full ps rfl
      · have hdrop : scan.skip - scan.matched = scan.skip - (scan.matched + 1) + 1 := by omega
        rw [textPiece_passed hmatch (fun hpass => hskip hpass.2.1) hflags, hdrop, List.drop_succ_cons]
        exact @ih { scan with
          line := [], lineCut := false, lines := scan.lines + 1, flags := textFlags false (long || isLong p),
          matched := scan.matched + 1 } (long || isLong p) hemit rfl
    · rw [textPiece_other hmatch hflags, matchingLines_other hmatch]
      exact @ih { scan with
        line := [], lineCut := false, lines := scan.lines + 1, flags := textFlags false (long || isLong p) }
        (long || isLong p) hemit rfl

end

/-! ## A whole text -/

/-- The pieces of a text that are lines. -/
def linePieces (content : Bytes) : List Bytes := (textPieces content).map Prod.fst

/-- The pieces that are lines are the first ones. -/
theorem endedPieces_initial (ps : List Bytes) : (endedPieces ps).map Prod.fst <+: ps := by
  induction ps using endedPieces.induct with
  | case1 => exact List.nil_prefix
  | case2 => exact List.nil_prefix
  | case3 last hne =>
    rw [endedPieces, if_neg hne]
    exact List.prefix_rfl
  | case4 p q ps ih =>
    rw [endedPieces, List.map_cons]
    exact (List.prefix_cons_inj p).2 ih

/-- The bytes of all lines, each with its end. -/
theorem linePieces_sum (content : Bytes) :
    ((linePieces content).map fun p => p.length + 1).sum ≤ content.length + 1 := by
  rw [← splitOn_sum content 10]
  obtain ⟨more, hmore⟩ := (endedPieces_initial (content.splitOn 10)).map fun p => p.length + 1
  rw [← hmore, List.sum_append]
  exact Nat.le_add_right _ _

theorem linePieces_length (content : Bytes) : (linePieces content).length ≤ content.length + 1 := by
  have hsum := linePieces_sum content
  have hcard : (linePieces content).length ≤ ((linePieces content).map fun p => p.length + 1).sum := by
    have hone : ∀ n ∈ (linePieces content).map fun p => p.length + 1, 1 ≤ n := by
      intro n hn
      obtain ⟨p, -, rfl⟩ := List.mem_map.1 hn
      exact Nat.le_add_left _ _
    rw [← List.length_map (fun p : Bytes => p.length + 1)]
    exact List.length_le_sum_of_one_le _ hone
  exact hcard.trans hsum

/-- What a filter is to write of a text. -/
def selectedLines (skip : ℕ) (wanted content : Bytes) : List Bytes :=
  (matchingLines wanted (linePieces content)).drop skip

open Budget in
/-- **The filter at the end of a text** that comes in blocks. -/
theorem textEnd_emits (skip : ℕ) (wanted : Bytes) (capacity : ℕ) (blocks : List Bytes) :
    let selected := selectedLines skip wanted blocks.flatten
    let scan := textEnd (blocks.foldl textFeed (textBegin true skip wanted capacity))
    scan.lines = (linePieces blocks.flatten).length ∧
      scan.matched = (matchingLines wanted (linePieces blocks.flatten)).length ∧
      scan.output = writtenLines (taken lineRoom lineRoom capacity 0 selected) ∧
      scan.emitted = (taken lineRoom lineRoom capacity 0 selected).length ∧
      scan.flags = textFlags (stopped lineRoom lineRoom capacity 0 selected)
        ((linePieces blocks.flatten).any isLong) := by
  intro selected scan
  have hscan : scan = (linePieces blocks.flatten).foldl textPiece (textBegin true skip wanted capacity) :=
    textFeed_blocks blocks rfl rfl
  obtain ⟨houtput, hemitted, hflags⟩ :=
    @textPieces_emits (textBegin true skip wanted capacity) false (linePieces blocks.flatten) rfl rfl
  rw [hscan]
  refine ⟨?_, ?_, houtput, ?_, ?_⟩
  · rw [textPieces_lines]
    exact Nat.zero_add _
  · rw [textPieces_matched]
    exact Nat.zero_add _
  · rw [hemitted]
    exact Nat.zero_add _
  · rw [hflags, Bool.false_or]
    rfl

end V9xRemote
