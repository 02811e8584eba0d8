import V9xRemote.Proof.TextScan

/-!
# The tail of a text

One pass counts, one writes. Both see the same lines, whatever each read brings, so what the
first counts is what the second passes over.
-/

namespace V9xRemote

open Bytes

variable {content wanted : Bytes} {reads : ℕ → ℕ} {tail capacity : UInt32}

/-! ## A pass -/

/-- What the `k`th read of a pass brings. -/
def passRead (content : Bytes) (reads : ℕ → ℕ) (k total : ℕ) : ℕ :=
  min (reads k) (min (content.length - total) fileChunkSize)

theorem textPassFrom_read {k total : ℕ} (scan : TextScan) (hmore : total < content.length)
    (hread : passRead content reads k total ≠ 0) :
    textPassFrom content reads k total scan =
      textPassFrom content reads (k + 1) (total + passRead content reads k total)
        (textFeed scan ((content.drop total).take (passRead content reads k total))) := by
  rw [textPassFrom, if_pos hmore]
  exact if_neg hread

theorem textPassFrom_fails {k total : ℕ} (scan : TextScan) (hmore : total < content.length)
    (hread : passRead content reads k total = 0) : textPassFrom content reads k total scan = none := by
  rw [textPassFrom, if_pos hmore]
  exact if_pos hread

/-- A pass that ends has fed the filter the rest of the file. -/
theorem textPassFrom_some {k total : ℕ} {scan last : TextScan} (htotal : total ≤ content.length)
    (h : textPassFrom content reads k total scan = some last) :
    last = textEnd (textFeed scan (content.drop total)) := by
  induction k, total, scan using textPassFrom.induct content reads with
  | case1 k total scan hmore wanted readCount hnone =>
    rw [textPassFrom_fails scan hmore hnone] at h
    cases h
  | case2 k total scan hmore wanted readCount hsome ih =>
    rw [textPassFrom_read scan hmore hsome] at h
    have hcount : readCount ≤ content.length - total := (min_le_right _ _).trans (min_le_left _ _)
    rw [ih (by omega) h, textFeed, textFeed, textFeed, ← List.foldl_append, ← List.drop_drop, List.take_append_drop]
  | case3 k total scan hend =>
    rw [textPassFrom, if_neg hend] at h
    rw [List.drop_eq_nil_of_le (by omega)]
    exact (Option.some.inj h).symm

/-- A pass ends where every read brings something. -/
theorem textPassFrom_isSome (hreads : ∀ k, 1 ≤ reads k) (k total : ℕ) (scan : TextScan) :
    (textPassFrom content reads k total scan).isSome := by
  induction k, total, scan using textPassFrom.induct content reads with
  | case1 k total scan hmore wanted readCount hnone =>
    have hchunk : 1 ≤ fileChunkSize := by decide
    have hpos : 1 ≤ readCount := le_min (hreads k) (le_min (by omega) hchunk)
    omega
  | case2 k total scan hmore wanted readCount hsome ih =>
    rw [textPassFrom_read scan hmore hsome]
    exact ih
  | case3 k total scan hend =>
    rw [textPassFrom, if_neg hend]
    rfl

theorem textPass_some {scan last : TextScan} (h : textPass content reads scan = some last) :
    content.length ≤ maxFileSize.toNat ∧ last = textEnd ([content].foldl textFeed scan) := by
  rw [textPass] at h
  split_ifs at h with hsize
  exact ⟨by omega, textPassFrom_some (Nat.zero_le _) h⟩

theorem textPass_eq {scan : TextScan} (hsize : content.length ≤ maxFileSize.toNat) (hreads : ∀ k, 1 ≤ reads k) :
    textPass content reads scan = some (textEnd ([content].foldl textFeed scan)) := by
  obtain ⟨last, hlast⟩ := Option.isSome_iff_exists.1 (textPassFrom_isSome hreads 0 0 scan)
  have hpass : textPass content reads scan = some last := by rw [textPass, if_neg (by omega), hlast]
  rw [hpass, (textPass_some hpass).2]

/-! ## The request -/

/-- The room an answer has for its text. -/
def textRoom (capacity : UInt32) : ℕ :=
  if capacity.toNat = 0 ∨ capacity.toNat > textCapacity then textCapacity else capacity.toNat

/-- The lines a request asks for: the last `tail` of the matching ones, or all of them. -/
def tailLines (tail : UInt32) (wanted content : Bytes) : List Bytes :=
  let matching := matchingLines wanted (linePieces content)
  if tail = 0 then matching else matching.drop (matching.length - tail.toNat)

/-- The payload that shows these of the lines asked for. -/
def textAnswer (tail : UInt32) (wanted content : Bytes) (shown : List Bytes) : Bytes :=
  let pieces := linePieces content
  let truncated := decide (shown.length < (tailLines tail wanted content).length)
  writeU32 (UInt32.ofNat content.length) ++ writeU32 (UInt32.ofNat pieces.length) ++
    writeU32 (UInt32.ofNat (matchingLines wanted pieces).length) ++ writeU32 (UInt32.ofNat shown.length) ++
    writeU32 (textFlags truncated (pieces.any isLong)) ++ writeU32 (UInt32.ofNat (writtenLines shown).length) ++
    writtenLines shown

/-- The lines to pass over. -/
def tailSkip (tail : UInt32) (wanted content : Bytes) : ℕ :=
  if tail = 0 then 0 else (matchingLines wanted (linePieces content)).length - tail.toNat

theorem selectedLines_tail (tail : UInt32) (wanted content : Bytes) :
    selectedLines (tailSkip tail wanted content) wanted content = tailLines tail wanted content := by
  rw [selectedLines, tailSkip, tailLines]
  split_ifs
  · exact List.drop_zero
  · rfl

open Budget in
/-- The lines an answer shows. -/
def shownLines (tail capacity : UInt32) (wanted content : Bytes) : List Bytes :=
  taken lineRoom lineRoom (textRoom capacity) 0 (tailLines tail wanted content)

open Budget in
theorem stopped_iff_short (selected : List Bytes) (room : ℕ) :
    stopped lineRoom lineRoom room 0 selected =
      decide ((taken lineRoom lineRoom room 0 selected).length < selected.length) := by
  cases hstopped : stopped lineRoom lineRoom room 0 selected with
  | false =>
    rw [taken_all hstopped, decide_eq_false (lt_irrefl _)]
  | true =>
    obtain ⟨line, after, hselected, -⟩ := taken_stopped hstopped
    have hlength := congrArg List.length hselected
    rw [List.length_append, List.length_cons] at hlength
    rw [decide_eq_true (by omega)]

/-- The first pass counts, so that the second knows what to pass over. -/
def countPass (content : Bytes) (reads : ℕ → ℕ) (tail : UInt32) (wanted : Bytes) : Option ℕ :=
  if tail ≠ 0 then
    (textPass content reads (textBegin false 0 wanted 0)).map fun scan =>
      if scan.matched > tail.toNat then scan.matched - tail.toNat else 0
  else some 0

theorem countSkip (content wanted : Bytes) (htail : tail ≠ 0) :
    (let scan := textEnd ([content].foldl textFeed (textBegin false 0 wanted 0))
    if scan.matched > tail.toNat then scan.matched - tail.toNat else 0) = tailSkip tail wanted content := by
  have hmatched : (textEnd ([content].foldl textFeed (textBegin false 0 wanted 0))).matched =
      (matchingLines wanted (linePieces content)).length := by
    rw [textFeed_blocks [content] rfl rfl, textPieces_matched, List.flatten_singleton]
    exact Nat.zero_add _
  simp only [hmatched]
  rw [tailSkip, if_neg htail]
  split_ifs <;> omega

theorem countPass_some {skip : ℕ} (h : countPass content reads tail wanted = some skip) :
    skip = tailSkip tail wanted content := by
  rw [countPass] at h
  split_ifs at h with htail
  · obtain ⟨scan, hscan, rfl⟩ := Option.map_eq_some_iff.1 h
    rw [(textPass_some hscan).2]
    exact countSkip content wanted htail
  · rw [tailSkip, if_pos (not_not.1 htail)]
    exact (Option.some.inj h).symm

theorem countPass_eq (hsize : content.length ≤ maxFileSize.toNat) (hreads : ∀ k, 1 ≤ reads k) :
    countPass content reads tail wanted = some (tailSkip tail wanted content) := by
  have hsome : (countPass content reads tail wanted).isSome := by
    rw [countPass, textPass_eq hsize hreads]
    split_ifs <;> rfl
  obtain ⟨skip, hskip⟩ := Option.isSome_iff_exists.1 hsome
  rw [hskip, countPass_some hskip]

/-- The request is its two passes. -/
theorem handleReadText_eq (content : Bytes) (countReads emitReads : ℕ → ℕ) (tail capacity : UInt32)
    (wanted : Bytes) :
    handleReadText content countReads emitReads tail capacity wanted =
      (countPass content countReads tail wanted).bind fun skip =>
        (textPass content emitReads (textBegin true skip wanted (textRoom capacity))).map fun scan =>
          writeU32 (UInt32.ofNat content.length) ++ writeU32 (UInt32.ofNat scan.lines) ++
            writeU32 (UInt32.ofNat scan.matched) ++ writeU32 (UInt32.ofNat scan.emitted) ++ writeU32 scan.flags ++
            writeU32 (UInt32.ofNat scan.output.length) ++ scan.output := by
  rw [handleReadText, countPass]
  simp only [Option.map_eq_bind]
  by_cases htail : tail ≠ 0
  · rw [if_pos htail, if_pos htail, Option.bind_assoc]
    rfl
  · rw [if_neg htail, if_neg htail]
    rfl

/-- **The answer of the second pass.** -/
theorem emitPass_answer (tail capacity : UInt32) (wanted content : Bytes) :
    (let scan := textEnd ([content].foldl textFeed
      (textBegin true (tailSkip tail wanted content) wanted (textRoom capacity)))
    writeU32 (UInt32.ofNat content.length) ++ writeU32 (UInt32.ofNat scan.lines) ++
      writeU32 (UInt32.ofNat scan.matched) ++ writeU32 (UInt32.ofNat scan.emitted) ++ writeU32 scan.flags ++
      writeU32 (UInt32.ofNat scan.output.length) ++ scan.output) =
      textAnswer tail wanted content (shownLines tail capacity wanted content) := by
  obtain ⟨hlines, hmatched, houtput, hemitted, hflags⟩ :=
    textEnd_emits (tailSkip tail wanted content) wanted (textRoom capacity) [content]
  rw [List.flatten_singleton] at hlines hmatched houtput hemitted hflags
  rw [selectedLines_tail] at houtput hemitted hflags
  simp only [hlines, hmatched, houtput, hemitted, hflags, stopped_iff_short]
  rfl

theorem lineRoom_sum (lines : List Bytes) : (lines.map lineRoom).sum = (writtenLines lines).length :=
  (writtenLines_length lines).symm

/-- **READ_TEXT.** The answer shows the longest initial run of the lines asked for that fits its room, with the
counts of lines, matching lines and lines shown, and the mark exactly where a line asked for is left out. It is the
same whatever the reads of either pass bring. -/
theorem read_text_tail (content wanted : Bytes) (tail capacity : UInt32) :
    let selected := tailLines tail wanted content
    ∃ shown, shown <+: selected ∧ (writtenLines shown).length ≤ textRoom capacity ∧
      (∀ run, run <+: selected → (writtenLines run).length ≤ textRoom capacity →
        run.length ≤ shown.length) ∧
      ∀ countReads emitReads,
        (∀ answer, handleReadText content countReads emitReads tail capacity wanted = some answer →
          answer = textAnswer tail wanted content shown ∧ content.length < 2 ^ 32 ∧
            (linePieces content).length < 2 ^ 32) ∧
        (content.length ≤ maxFileSize.toNat → (∀ k, 1 ≤ countReads k) → (∀ k, 1 ≤ emitReads k) →
          handleReadText content countReads emitReads tail capacity wanted =
            some (textAnswer tail wanted content shown)) := by
  intro selected
  refine ⟨shownLines tail capacity wanted content, Budget.taken_prefix _, ?_, ?_, ?_⟩
  · have hwithin : 0 + ((shownLines tail capacity wanted content).map lineRoom).sum ≤ textRoom capacity :=
      Budget.taken_within (fun _ => le_rfl) (Nat.zero_le _) selected
    rw [Nat.zero_add, lineRoom_sum] at hwithin
    exact hwithin
  · intro run hrun hroom
    apply Budget.taken_longest (fun _ => le_rfl) hrun
    rw [Nat.zero_add, lineRoom_sum]
    exact hroom
  · intro countReads emitReads
    rw [handleReadText_eq]
    constructor
    · intro answer hanswer
      obtain ⟨skip, hskip, hpass⟩ := Option.bind_eq_some_iff.1 hanswer
      obtain ⟨scan, hscan, rfl⟩ := Option.map_eq_some_iff.1 hpass
      obtain ⟨hsize, rfl⟩ := textPass_some hscan
      obtain rfl := countPass_some hskip
      have hmax : maxFileSize.toNat = 2147483647 := rfl
      have hlines := linePieces_length content
      exact ⟨emitPass_answer tail capacity wanted content, by omega, by omega⟩
    · intro hsize hcount hemit
      rw [countPass_eq hsize hcount, Option.bind_some, textPass_eq hsize hemit, Option.map_some]
      exact congrArg some (emitPass_answer tail capacity wanted content)

theorem read_text_tail_demo :
    handleReadText (ascii "b\na\nB\r\nab") (fun _ => 1) (fun _ => 3) 2 0 (ascii "b") =
      some (textAnswer 2 (ascii "b") (ascii "b\na\nB\r\nab") [ascii "B", ascii "ab"]) := by
  obtain ⟨shown, hrun, -, hlongest, hanswer⟩ := read_text_tail (ascii "b\na\nB\r\nab") (ascii "b") 2 0
  have hselected : tailLines 2 (ascii "b") (ascii "b\na\nB\r\nab") = [ascii "B", ascii "ab"] := by decide +kernel
  rw [hselected] at hrun hlongest
  have hall := hlongest [ascii "B", ascii "ab"] List.prefix_rfl (by decide)
  obtain rfl := hrun.eq_of_length_le hall
  exact (hanswer (fun _ => 1) (fun _ => 3)).2 (by decide) (fun _ => le_rfl) fun _ => by decide

end V9xRemote
