import V9xRemote.Spec.Chat
import V9xRemote.Lib.Trace
import Mathlib.Tactic.IntervalCases
import Mathlib.Data.List.TakeWhile

/-!
# Owner chat

The body of a poll is what was to be written, cut at the buffer's end (`pollBody_eq`),
a full queue takes no line, and the log takes the developer's text as it is.
`ChatClear` keeps clear of the three; then every line taken from the queue was carried
whole, and every line the log shows as the owner's was queued. Lines leave the queue in
the order they came in any run.
-/

namespace V9xRemote

open Bytes Trace

/-! ## Buffers -/

/-- An append writes what fits and says whether all did. -/
theorem rtAppend_take {capacity : ℕ} (whole text : Bytes) :
    rtAppend capacity (whole.take (capacity - 1)) text =
      ((whole ++ text).take (capacity - 1), decide ((whole.take (capacity - 1) ++ text).length ≤ capacity - 1)) := by
  have hlen : (whole.take (capacity - 1)).length ≤ capacity - 1 := List.length_take_le _ _
  unfold rtAppend
  dsimp only
  rw [List.take_append]
  rcases Nat.le_total (capacity - 1) whole.length with hfull | hroom
  · have heq : (whole.take (capacity - 1)).length = capacity - 1 := List.length_take_of_le hfull
    have hzero : capacity - 1 - whole.length = 0 := by omega
    rw [heq, hzero, Nat.sub_self, List.take_zero]
    split
    · rename_i hle
      have hnil : text = [] := List.eq_nil_of_length_eq_zero (Nat.le_zero.1 hle)
      simp [hnil]
    · rename_i hgt
      simp only [List.append_nil, List.length_append, heq, Prod.mk.injEq, true_and]
      exact (decide_eq_false (by omega)).symm
  · rw [List.take_of_length_le hroom]
    split
    · rename_i hle
      rw [List.take_of_length_le hle, decide_eq_true (by rw [List.length_append]; omega)]
    · rename_i hgt
      rw [decide_eq_false (by rw [List.length_append]; omega)]

/-- Appends joined by `&&` write what fits, too: after one that fails there is no room. -/
theorem rtChain_take {capacity : ℕ} (texts : List Bytes) (whole : Bytes) :
    rtChain capacity (whole.take (capacity - 1)) texts = (whole ++ texts.flatten).take (capacity - 1) := by
  induction texts generalizing whole with
  | nil => simp [rtChain]
  | cons text texts ih =>
    rw [rtChain, rtAppend_take, List.flatten_cons, ← List.append_assoc]
    split
    · rename_i out heq
      obtain ⟨rfl, -⟩ := Prod.mk.inj heq
      exact ih (whole ++ text)
    · rename_i out heq
      obtain ⟨rfl, hfail⟩ := Prod.mk.inj heq
      have hover := of_decide_eq_false hfail
      have hlong : capacity - 1 ≤ (whole ++ text).length := by
        rw [List.length_append, List.length_take] at hover
        rw [List.length_append]
        omega
      rw [List.take_append_of_le_length hlong]

/-- **The body of a poll is cut at the buffer's end.** -/
theorem pollBody_eq (f : PollFields) (sent : List Bytes) :
    pollBody f sent = (pollHead f ++ pollChat sent).flatten.flatten.take (remoteBodyMax - 1) := by
  have hfold : ∀ (groups : List (List Bytes)) (whole : Bytes),
      groups.foldl (rtChain remoteBodyMax) (whole.take (remoteBodyMax - 1)) =
        (whole ++ groups.flatten.flatten).take (remoteBodyMax - 1) := by
    intro groups
    induction groups with
    | nil => simp
    | cons texts groups ih =>
      intro whole
      rw [List.foldl_cons, rtChain_take, ih, List.flatten_cons, List.flatten_append, List.append_assoc]
  exact hfold _ []

/-- A line of the log is cut at its buffer's end. -/
theorem rtText_eq (capacity : ℕ) (parts : List Bytes) : rtText capacity parts = parts.flatten.take (capacity - 1) := by
  have hfold : ∀ (texts : List Bytes) (whole : Bytes),
      texts.foldl (fun target text => (rtAppend capacity target text).1) (whole.take (capacity - 1)) =
        (whole ++ texts.flatten).take (capacity - 1) := by
    intro texts
    induction texts with
    | nil => simp
    | cons text texts ih =>
      intro whole
      rw [List.foldl_cons, rtAppend_take, ih, List.flatten_cons, List.append_assoc]
  have h := hfold parts []
  rwa [List.take_nil, List.nil_append] at h

/-! ## Lines of a text -/

/-- A text behind another: the lines meet in the middle. -/
theorem splitOn_append {a : Bytes} {lines : List Bytes} {last : Bytes} (ha : a.splitOn 10 = lines ++ [last])
    {b first : Bytes} {rest : List Bytes} (hb : b.splitOn 10 = first :: rest) :
    (a ++ b).splitOn 10 = lines ++ (last ++ first) :: rest := by
  induction a generalizing lines last with
  | nil =>
    rw [List.splitOn_nil] at ha
    cases lines with
    | nil =>
      obtain rfl : [] = last := by simpa using ha
      simpa using hb
    | cons line lines => simp at ha
  | cons c a ih =>
    rw [List.splitOn_cons_eq_if_modifyHead] at ha
    rw [List.cons_append, List.splitOn_cons_eq_if_modifyHead]
    obtain ⟨head, tail, hsplit⟩ := List.exists_cons_of_ne_nil (List.splitOn_ne_nil 10 a)
    split at ha
    · rename_i hc
      rw [if_pos hc]
      cases lines with
      | nil => simp [List.splitOn_ne_nil] at ha
      | cons line lines =>
        obtain ⟨rfl, htail⟩ := List.cons.inj ha
        rw [ih htail]
        rfl
    · rename_i hc
      rw [if_neg hc]
      rw [hsplit, List.modifyHead_cons] at ha
      cases lines with
      | nil =>
        obtain ⟨rfl, rfl⟩ : c :: head = last ∧ tail = [] := by simpa using ha
        rw [ih (show a.splitOn 10 = [] ++ [head] from hsplit)]
        rfl
      | cons line lines =>
        obtain ⟨rfl, rfl⟩ := List.cons.inj ha
        rw [ih (show a.splitOn 10 = (head :: lines) ++ [last] from hsplit)]
        rfl

theorem splitOn_append_lf (a b : Bytes) : (a ++ 10 :: b).splitOn 10 = a.splitOn 10 ++ b.splitOn 10 :=
  List.splitOn_append_cons_self a b

/-! ## The fields of a body -/

/-- `key=encoded value`. -/
def chatField (index : ℕ) (line : Bytes) : Bytes := chatKey index ++ ascii "=" ++ urlText line

/-- The encoding writes no control character. -/
theorem urlEncodeByte_plain :
    (List.range 256).all fun n => (urlEncodeByte (UInt8.ofNat n)).all fun c => c != 10 && c != 13 := by
  decide +kernel

theorem urlText_plain {line : Bytes} {c : UInt8} (hc : c ∈ urlText line) : c ≠ 10 ∧ c ≠ 13 := by
  obtain ⟨b, -, hb⟩ := List.mem_flatMap.1 hc
  have hall := List.all_eq_true.1 urlEncodeByte_plain b.toNat (List.mem_range.2 b.toNat_lt)
  rw [UInt8.ofNat_toNat] at hall
  have hplain := List.all_eq_true.1 hall c hb
  rwa [Bool.and_eq_true, bne_iff_ne, bne_iff_ne] at hplain

theorem urlText_length (line : Bytes) : (urlText line).length ≤ 3 * line.length := by
  induction line with
  | nil => simp [urlText]
  | cons b line ih =>
    have hb : (urlEncodeByte b).length ≤ 3 := by unfold urlEncodeByte; split <;> simp
    rw [urlText, List.flatMap_cons, List.length_append, List.length_cons]
    unfold urlText at ih
    omega

/-- The key of a line of the queue is a digit. -/
theorem chatField_plain {index : ℕ} (hindex : index < chatQueue) {line : Bytes} {c : UInt8}
    (hc : c ∈ chatField index line) : c ≠ 10 ∧ c ≠ 13 := by
  rw [chatField, List.append_assoc] at hc
  rcases List.mem_append.1 hc with hc | hc
  · rw [chatKey, List.mem_singleton] at hc
    unfold chatQueue at hindex
    interval_cases index <;> (subst hc; decide)
  rcases List.mem_append.1 hc with hc | hc
  · rw [List.mem_singleton.1 hc]
    decide
  · exact urlText_plain hc

theorem fieldParts_flatten (index : ℕ) {line : Bytes} (hline : line.length < chatLine) :
    (fieldParts (chatKey index) line).flatten = chatField index line ++ crlf := by
  have hlen := urlText_length line
  have hfits : updateUrlEncode line (chatLine * 3 + 4) = some (urlText line) := by
    unfold updateUrlEncode
    rw [if_pos (by omega)]
  simp [fieldParts, hfits, chatField]

/-- What was to be written before the lines. -/
def bodyHead (f : PollFields) (sent : List Bytes) : Bytes :=
  (pollHead f).flatten.flatten ++ ascii "[chat]\r\ncount=" ++ rtNumber sent.length ++ crlf

/-- What was to be written of a poll that carries lines. -/
theorem pollText_eq {f : PollFields} {sent : List Bytes} (hsent : sent ≠ []) (hlen : ∀ line ∈ sent, line.length < chatLine) :
    (pollHead f ++ pollChat sent).flatten.flatten =
      bodyHead f sent ++ (sent.mapIdx fun index line => chatField index line ++ crlf).flatten := by
  have hfields : ((sent.mapIdx fun index line => fieldParts (chatKey index) line).flatten).flatten =
      (sent.mapIdx fun index line => chatField index line ++ crlf).flatten := by
    rw [List.flatten_flatten]
    congr 1
    apply List.ext_getElem (by simp)
    intro i h₁ h₂
    rw [List.length_mapIdx] at h₂
    rw [List.getElem_map, List.getElem_mapIdx, List.getElem_mapIdx]
    exact fieldParts_flatten i (hlen _ (List.getElem_mem h₂))
  rw [pollChat, if_neg hsent, List.flatten_append, List.flatten_append, List.flatten_append, List.flatten_append,
    hfields]
  simp [bodyHead]

/-- A line of the text that is followed by nothing, a CR or CR LF. -/
theorem mem_textLines {before line after : Bytes} {k : ℕ} (hplain : ∀ c ∈ line, c ≠ 10 ∧ c ≠ 13) :
    line ∈ ((before ++ 10 :: (line ++ (crlf ++ after).take k)).splitOn 10).map stripCr := by
  have hlf : (10 : UInt8) ∉ line := fun h => (hplain 10 h).1 rfl
  have hcr : line.getLast? ≠ some 13 := fun h => (hplain 13 (List.mem_of_getLast? h)).2 rfl
  have hstrip : stripCr line = line := if_neg hcr
  have hstrip' : stripCr (line ++ [13]) = line := by simp [stripCr]
  rw [splitOn_append_lf, List.map_append, List.mem_append]
  right
  match k with
  | 0 =>
    rw [List.take_zero, List.append_nil, List.splitOn_eq_singleton hlf]
    simp [hstrip]
  | 1 =>
    have htake : (crlf ++ after).take 1 = [13] := rfl
    have hlf' : (10 : UInt8) ∉ line ++ [13] := by simp [hlf]
    rw [htake, List.splitOn_eq_singleton hlf']
    simp [hstrip']
  | k + 2 =>
    have htake : line ++ (crlf ++ after).take (k + 2) = (line ++ [13]) ++ 10 :: after.take k := by
      simp [crlf]
    have hlf' : (10 : UInt8) ∉ line ++ [13] := by simp [hlf]
    rw [htake, splitOn_append_lf, List.splitOn_eq_singleton hlf', List.map_append, List.mem_append]
    left
    simp [hstrip']

/-- Lines behind a LF end with one. -/
theorem ends_lf {before : Bytes} (hbefore : before.getLast? = some 10) (fields : List Bytes)
    (hfields : ∀ t ∈ fields, t.getLast? = some 10) : (before ++ fields.flatten).getLast? = some 10 := by
  induction fields generalizing before with
  | nil => simpa using hbefore
  | cons t fields ih =>
    rw [List.flatten_cons, ← List.append_assoc]
    refine ih ?_ fun u hu => hfields u (List.mem_cons_of_mem _ hu)
    rw [List.getLast?_append, hfields t List.mem_cons_self, Option.some_or]

/-- How long the body was to be. -/
def pollLength (f : PollFields) (sent : List Bytes) : ℕ := (pollHead f ++ pollChat sent).flatten.flatten.length

/-- **A body whose lines fit carries every one of them.** -/
theorem poll_carries {f : PollFields} {sent : List Bytes} (hlen : ∀ line ∈ sent, line.length < chatLine)
    (hcount : sent.length ≤ chatQueue) (hfits : pollLength f sent ≤ remoteBodyMax + 1) {i : ℕ}
    (hi : i < sent.length) : CarriesLine (pollBody f sent) i sent[i] := by
  have hsent : sent ≠ [] := List.ne_nil_of_length_pos (Nat.zero_lt_of_lt hi)
  have htext := pollText_eq (f := f) hsent hlen
  set fields := sent.mapIdx fun index line => chatField index line ++ crlf with hfieldsdef
  have hi' : i < fields.length := by rw [hfieldsdef, List.length_mapIdx]; exact hi
  have hget : fields[i] = chatField i sent[i] ++ crlf := by simp [hfieldsdef]
  have hsplit : fields.flatten =
      (fields.take i).flatten ++ (chatField i sent[i] ++ (crlf ++ (fields.drop (i + 1)).flatten)) := by
    conv_lhs => rw [← List.take_append_drop i fields, List.drop_eq_getElem_cons hi', hget]
    simp
  -- what stands before the field ends with a line's end
  have hends : (bodyHead f sent ++ (fields.take i).flatten).getLast? = some 10 := by
    refine ends_lf (by simp [bodyHead, crlf]) _ fun t ht => ?_
    obtain ⟨j, hj, rfl⟩ := List.getElem_of_mem (List.mem_of_mem_take ht)
    simp [hfieldsdef, crlf]
  obtain ⟨before, hbefore⟩ := List.getLast?_eq_some_iff.1 hends
  have hwhole : (pollHead f ++ pollChat sent).flatten.flatten =
      (before ++ 10 :: chatField i sent[i]) ++ (crlf ++ (fields.drop (i + 1)).flatten) := by
    rw [htext, hsplit, ← List.append_assoc, hbefore]
    simp
  have hroom : (before ++ 10 :: chatField i sent[i]).length ≤ remoteBodyMax - 1 := by
    have hcrlf : crlf.length = 2 := rfl
    rw [pollLength, hwhole] at hfits
    simp only [List.length_append, remoteBodyMax] at hfits ⊢
    omega
  rw [CarriesLine, pollBody_eq, hwhole, List.take_append, List.take_of_length_le hroom, List.append_assoc,
    List.cons_append]
  exact mem_textLines fun c hc => chatField_plain (Nat.lt_of_lt_of_le hi hcount) hc

/-! ## The log -/

/-- A line of the log that reads as the owner's has a text of `accepted`. -/
def Honest (accepted : List Bytes) (line : Bytes) : Prop :=
  readsAsOwner line = true → stripCr (line.drop 11) ∈ accepted

/-- Every line of the log is honest, and its last, open one does not read as the owner's. -/
structure LogOk (accepted : List Bytes) (log : Bytes) : Prop where
  honest : ∀ line ∈ log.splitOn 10, Honest accepted line
  opened : ∀ line, (log.splitOn 10).getLast? = some line → readsAsOwner line = false

variable {accepted accepted' : List Bytes} {log : Bytes}

theorem LogOk.mono (h : LogOk accepted log) (hsub : accepted ⊆ accepted') : LogOk accepted' log :=
  ⟨fun line hline hread => hsub (h.honest line hline hread), h.opened⟩

theorem logOk_nil : LogOk accepted [] := by
  constructor
  · intro line hline hread
    rw [List.splitOn_nil, List.mem_singleton] at hline
    subst hline
    exact absurd hread (by decide)
  · intro line hline
    rw [List.splitOn_nil] at hline
    obtain rfl : [] = line := by simpa using hline
    decide

theorem dropFirstLine_length (log : Bytes) : (dropFirstLine log).length ≤ log.length - 1 := by
  have := (List.dropWhile_sublist (l := log) (p := (· ≠ 10))).length_le
  rw [dropFirstLine, List.length_drop]
  omega

theorem dropFirstLine_line {line : Bytes} (hline : 10 ∉ line) (rest : Bytes) :
    dropFirstLine (line ++ 10 :: rest) = rest := by
  have hall : ∀ c ∈ line, decide (c ≠ 10) = true := fun c hc => by
    simp only [decide_eq_true_eq]
    exact fun heq => hline (heq ▸ hc)
  rw [dropFirstLine, List.dropWhile_append_of_pos hall]
  simp

/-- Dropping the first line keeps the others. -/
theorem dropFirstLine_ok (h : LogOk accepted log) : LogOk accepted (dropFirstLine log) := by
  by_cases hlf : 10 ∈ log
  · obtain ⟨line, rest, rfl, hline⟩ := List.eq_append_cons_of_mem hlf
    have hdrop : dropFirstLine (line ++ 10 :: rest) = rest := dropFirstLine_line hline rest
    have hsplit : (line ++ 10 :: rest).splitOn 10 = line :: rest.splitOn 10 := by
      rw [splitOn_append_lf, List.splitOn_eq_singleton hline]
      rfl
    rw [hdrop]
    refine ⟨fun l hl => h.honest l (hsplit ▸ List.mem_cons_of_mem _ hl), fun l hl => h.opened l ?_⟩
    rw [hsplit, List.getLast?_cons, hl]
    rfl
  · -- no line ends: all of it goes
    have hall : ∀ c ∈ log, decide (c ≠ 10) = true := fun c hc => by
      simp only [decide_eq_true_eq]
      exact fun heq => hlf (heq ▸ hc)
    have hdrop : dropFirstLine log = [] := by
      rw [dropFirstLine, List.dropWhile_eq_nil_iff.2 hall, List.drop_nil]
    rw [hdrop]
    exact logOk_nil

theorem trimLog_ok (room : ℕ) : ∀ (fuel : ℕ) {log : Bytes}, LogOk accepted log → LogOk accepted (trimLog room fuel log)
  | 0, _, h => h
  | fuel + 1, log, h => by
    rw [trimLog]
    split
    · exact h
    · exact trimLog_ok room fuel (dropFirstLine_ok h)

/-- The loop leaves room for the line. -/
theorem trimLog_length (room : ℕ) : ∀ (fuel : ℕ) (log : Bytes), log.length ≤ fuel → (trimLog room fuel log).length ≤ room
  | 0, log, h => by
    rw [trimLog]
    omega
  | fuel + 1, log, h => by
    rw [trimLog]
    split
    · assumption
    · have := dropFirstLine_length log
      exact trimLog_length room fuel _ (by omega)

/-- **The log stays inside its buffer.** -/
theorem chatAppend_length (log : Bytes) (clock : Clock) (who : String) (text : Bytes) :
    (chatAppend log clock who text).length < chatLogSize := by
  have hline : (logLine clock who text).length ≤ chatLine + 31 := by
    rw [logLine, rtText_eq]
    exact List.length_take_le _ _
  have htrim := trimLog_length (chatLogSize - 1 - (logLine clock who text).length) log.length log le_rfl
  unfold chatAppend
  dsimp only
  rw [List.length_append]
  unfold chatLine at hline
  unfold chatLogSize at htrim ⊢
  omega

/-- A time begins with a digit and has no letter. -/
theorem clock_text (c : Clock) : ∃ d : UInt8, 48 ≤ d ∧ d ≤ 50 ∧ c.text.head? = some d ∧ 89 ∉ c.text ∧ 10 ∉ c.text := by
  have hhour : ∀ h : Fin 24, 48 ≤ UInt8.ofNat (48 + h / 10) ∧ UInt8.ofNat (48 + h / 10) ≤ 50 ∧
      UInt8.ofNat (48 + h % 10) ∉ [89, 10] := by decide
  have hminute : ∀ m : Fin 60, UInt8.ofNat (48 + m / 10) ∉ [89, 10] ∧ UInt8.ofNat (48 + m % 10) ∉ [89, 10] := by
    decide
  obtain ⟨hlow, hhigh, hh⟩ := hhour c.hour
  obtain ⟨hm, hm'⟩ := hminute c.minute
  refine ⟨_, hlow, hhigh, rfl, ?_, ?_⟩
  · intro h
    simp only [Clock.text, List.mem_cons, List.not_mem_nil, or_false] at h hh hm hm'
    rcases h with h | h | h | h | h | h
    · rw [← h] at hhigh
      exact absurd hhigh (by decide)
    · exact hh (.inl h.symm)
    · exact absurd h (by decide)
    · exact hm (.inl h.symm)
    · exact hm' (.inl h.symm)
    · exact absurd h (by decide)
  · intro h
    simp only [Clock.text, List.mem_cons, List.not_mem_nil, or_false] at h hh hm hm'
    rcases h with h | h | h | h | h | h
    · rw [← h] at hlow
      exact absurd hlow (by decide)
    · exact hh (.inr h.symm)
    · exact absurd h (by decide)
    · exact hm (.inr h.symm)
    · exact hm' (.inr h.symm)
    · exact absurd h (by decide)

theorem readsAsOwner_getElem {entry : Bytes} (h : readsAsOwner entry = true) {i : ℕ} (hi : i < 5) :
    entry[6 + i]? = (ascii "You: ")[i]? := by
  have heq : (entry.drop 6).take 5 = ascii "You: " := eq_of_beq h
  rw [← heq, List.getElem?_take_of_lt hi, List.getElem?_drop]

/-- A line that is open stays none of the owner's when a new one runs on from it. -/
theorem readsAsOwner_append {last : Bytes} (hne : last ≠ []) (hno : readsAsOwner last = false) (clock : Clock)
    (text : Bytes) : readsAsOwner (last ++ (clock.text ++ text)) = false := by
  by_contra hread
  have hread := eq_true_of_ne_false hread
  have hpos := List.length_pos_iff.2 hne
  have hclock : clock.text.length = 6 := rfl
  obtain ⟨d, hlow, hhigh, hhead, hletter, -⟩ := clock_text clock
  rcases Nat.lt_or_ge last.length 7 with hshort | hlong
  · -- the letter would stand in the time
    have hat := readsAsOwner_getElem hread (i := 0) (by decide)
    rw [List.getElem?_append_right (by omega), List.getElem?_append_left (by omega)] at hat
    exact hletter (List.mem_of_getElem? hat)
  rcases Nat.lt_or_ge last.length 11 with hmid | hfull
  · -- the time's first digit would stand in the name
    have hat := readsAsOwner_getElem hread (i := last.length - 6) (by omega)
    rw [List.getElem?_append_right (by omega), List.getElem?_append_left (by omega),
      show 6 + (last.length - 6) - last.length = 0 by omega, ← List.head?_eq_getElem?, hhead] at hat
    have hmem : d ∈ (ascii "You: ").drop 1 := by
      rw [show last.length - 6 = 1 + (last.length - 7) by omega, ← List.getElem?_drop] at hat
      exact List.mem_of_getElem? hat.symm
    have hall : ((ascii "You: ").drop 1).all fun c => !(decide (48 ≤ c) && decide (c ≤ 50)) := by decide +kernel
    have hd := List.all_eq_true.1 hall d hmem
    rw [decide_eq_true hlow, decide_eq_true hhigh] at hd
    cases hd
  · rw [readsAsOwner, List.drop_append_of_le_length (by omega),
      List.take_append_of_le_length (by rw [List.length_drop]; omega)] at hread
    rw [readsAsOwner] at hno
    rw [hread] at hno
    cases hno

/-- A line that goes into the log. -/
theorem logOk_append (h : LogOk accepted log) {line first text : Bytes} {rest : List Bytes} {clock : Clock}
    (hsplit : line.splitOn 10 = first :: rest) (hfirst : first = clock.text ++ text)
    (hhonest : ∀ l ∈ first :: rest, Honest accepted l)
    (hopen : ∀ l, (first :: rest).getLast? = some l → readsAsOwner l = false) : LogOk accepted (log ++ line) := by
  obtain ⟨lines, last, hlog⟩ : ∃ lines last, log.splitOn 10 = lines ++ [last] :=
    ⟨_, _, (List.dropLast_append_getLast (List.splitOn_ne_nil 10 log)).symm⟩
  have hno : readsAsOwner last = false := h.opened last (by rw [hlog]; simp)
  have hmeet : Honest accepted (last ++ first) := by
    by_cases hne : last = []
    · rw [hne, List.nil_append]
      exact hhonest first List.mem_cons_self
    · intro hread
      rw [hfirst, readsAsOwner_append hne hno] at hread
      cases hread
  constructor
  · intro l hl
    rw [splitOn_append hlog hsplit] at hl
    rcases List.mem_append.1 hl with hl | hl
    · exact h.honest l (hlog ▸ List.mem_append_left _ hl)
    rcases List.mem_cons.1 hl with rfl | hl
    · exact hmeet
    · exact hhonest l (List.mem_cons_of_mem _ hl)
  · intro l hl
    rw [splitOn_append hlog hsplit] at hl
    cases rest with
    | nil =>
      obtain rfl : last ++ first = l := by simpa using hl
      by_cases hne : last = []
      · rw [hne, List.nil_append]
        exact hopen first rfl
      · rw [hfirst]
        exact readsAsOwner_append hne hno clock text
    | cons r rest =>
      refine hopen l ?_
      rw [List.getLast?_append_of_ne_nil _ (List.cons_ne_nil _ _)] at hl
      simpa [List.getLast?_cons] using hl

/-- The owner's line is not cut. -/
theorem logLine_owner (clock : Clock) {text : Bytes} (hlen : text.length < chatLine) (hline : 10 ∉ text) :
    (logLine clock "You" text).splitOn 10 = [clock.text ++ (ascii "You: " ++ text ++ [13]), []] := by
  obtain ⟨d, -, -, -, -, hclock⟩ := clock_text clock
  have hwhole : logLine clock "You" text = (clock.text ++ (ascii "You: " ++ text ++ [13])) ++ [10] := by
    have hflat : [clock.text, ascii "You", ascii ": ", text, crlf].flatten =
        (clock.text ++ (ascii "You: " ++ text ++ [13])) ++ [10] := by
      simp [crlf, ascii]
    have hsix : clock.text.length = 6 := rfl
    have hfive : (ascii "You: ").length = 5 := rfl
    rw [logLine, rtText_eq, hflat, List.take_of_length_le]
    simp only [List.length_append, List.length_singleton, chatLine] at hlen ⊢
    omega
  have hlf : 10 ∉ clock.text ++ (ascii "You: " ++ text ++ [13]) := by
    have hyou : 10 ∉ ascii "You: " := by decide
    simp [hclock, hline, hyou]
  rw [hwhole, splitOn_append_lf, List.splitOn_eq_singleton hlf, List.splitOn_nil]
  rfl

theorem chatAppend_owner (h : LogOk accepted log) (clock : Clock) {text : Bytes} (hlen : text.length < chatLine)
    (hline : 10 ∉ text) (htext : text ∈ accepted) : LogOk accepted (chatAppend log clock "You" text) := by
  refine logOk_append (trimLog_ok _ _ h) (logLine_owner clock hlen hline) rfl ?_ ?_
  · intro l hl hread
    rcases List.mem_cons.1 hl with rfl | hl
    · have hstrip : stripCr ((clock.text ++ (ascii "You: " ++ text ++ [13])).drop 11) = text := by
        have hdrop : (clock.text ++ (ascii "You: " ++ text ++ [13])).drop 11 = text ++ [13] := by
          rw [← List.append_assoc, ← List.append_assoc, List.append_assoc]
          exact List.drop_left' rfl
        rw [hdrop]
        simp [stripCr]
      rw [hstrip]
      exact htext
    · obtain rfl := List.mem_singleton.1 hl
      exact absurd hread (by decide)
  · intro l hl
    obtain rfl : [] = l := by simpa using hl
    decide

theorem chatAppend_developer (h : LogOk accepted log) (clock : Clock) {text : Bytes}
    (hclear : ∀ l ∈ ((logLine clock "Developer" text).splitOn 10).tail, readsAsOwner l = false) :
    LogOk accepted (chatAppend log clock "Developer" text) := by
  obtain ⟨d, -, -, -, -, hclock⟩ := clock_text clock
  -- the first line begins with the time and the name
  obtain ⟨tail, htail⟩ : ∃ tail, logLine clock "Developer" text = (clock.text ++ ascii "Developer") ++ tail := by
    have hflat : [clock.text, ascii "Developer", ascii ": ", text, crlf].flatten =
        (clock.text ++ ascii "Developer") ++ (ascii ": " ++ text ++ crlf) := by simp
    refine ⟨(ascii ": " ++ text ++ crlf).take (chatLine + 32 - 1 - (clock.text ++ ascii "Developer").length), ?_⟩
    have hlen : (clock.text ++ ascii "Developer").length = 15 := rfl
    rw [logLine, rtText_eq, hflat, List.take_append, List.take_of_length_le (by rw [hlen]; decide)]
  have hname : 10 ∉ clock.text ++ ascii "Developer" := by
    have : 10 ∉ ascii "Developer" := by decide
    simp [hclock, this]
  obtain ⟨first, rest, hsplit⟩ := List.exists_cons_of_ne_nil (List.splitOn_ne_nil 10 tail)
  have hline : (logLine clock "Developer" text).splitOn 10 = (clock.text ++ (ascii "Developer" ++ first)) :: rest := by
    have hnil : (clock.text ++ ascii "Developer").splitOn 10 = [] ++ [clock.text ++ ascii "Developer"] :=
      List.splitOn_eq_singleton hname
    rw [htail, splitOn_append hnil hsplit, List.append_assoc]
    rfl
  have hfirst : readsAsOwner (clock.text ++ (ascii "Developer" ++ first)) = false := by
    have hdrop : ((clock.text ++ (ascii "Developer" ++ first)).drop 6).take 5 = ascii "Devel" := by
      have hsix : (clock.text ++ (ascii "Developer" ++ first)).drop 6 = ascii "Developer" ++ first := List.drop_left' rfl
      rw [hsix, List.take_append_of_le_length (by decide)]
      decide
    rw [readsAsOwner, hdrop]
    decide
  rw [hline, List.tail_cons] at hclear
  have hall : ∀ l ∈ (clock.text ++ (ascii "Developer" ++ first)) :: rest, readsAsOwner l = false := by
    intro l hl
    rcases List.mem_cons.1 hl with rfl | hl
    · exact hfirst
    · exact hclear l hl
  refine logOk_append (trimLog_ok _ _ h) hline rfl (fun l hl hread => ?_) fun l hl => hall l (List.mem_of_getLast? hl)
  rw [hall l hl] at hread
  cases hread

/-! ## Steps -/

variable {c c' : Chat} {a : ChatAct}

/-- What a step can do. -/
inductive ChatEffect (c : Chat) : ChatAct → Chat → Prop
  | queued (text : ChatText) (htyped : c.typed = none) (hroom : c.queue.length < chatQueue) :
    ChatEffect c (.submit text)
      { c with
        queue := c.queue ++ [text.text], typed := some text.text, accepted := c.accepted ++ [text.text] }
  | full (text : ChatText) (htyped : c.typed = none) (hfull : ¬c.queue.length < chatQueue) :
    ChatEffect c (.submit text) { c with typed := some text.text }
  | logOwn (clock : Clock) (text : Bytes) (htyped : c.typed = some text) :
    ChatEffect c (.logOwn clock) { c with log := chatAppend c.log clock "You" text, typed := none }
  | poll (f : PollFields) (hpc : c.pc = .idle) : ChatEffect c (.poll f) { c with pc := .polling f c.queue }
  | noUrl (f : PollFields) (hpc : c.pc = .idle) : ChatEffect c (.poll f) c
  | answered (response : HttpResponse) (f : PollFields) (sent : List Bytes) (remote : Remote)
      (hpc : c.pc = .polling f sent) (hok : (remotePoll c.remote (some response)).1 = true) :
    ChatEffect c (.reply (some response))
      { c with
        remote := remote, queue := c.queue.drop sent.length, answered := c.answered ++ [(pollBody f sent, sent)],
        pc := .logging (developerLines response) }
  | unanswered (response : Option HttpResponse) (f : PollFields) (sent : List Bytes) (remote : Remote)
      (hpc : c.pc = .polling f sent) : ChatEffect c (.reply response) { c with remote := remote, pc := .idle }
  | logNext (clock : Clock) (text : Bytes) (texts : List Bytes) (hpc : c.pc = .logging (text :: texts)) :
    ChatEffect c (.logNext clock) { c with log := chatAppend c.log clock "Developer" text, pc := .logging texts }
  | done (clock : Clock) (hpc : c.pc = .logging []) : ChatEffect c (.logNext clock) { c with pc := .idle }

theorem chat_effect (h : chatStep c a = some c') : ChatEffect c a c' := by
  cases a with
  | submit text =>
    simp only [chatStep] at h
    split at h
    · rename_i htyped
      obtain rfl := Option.some.inj h
      have htake : text.text.take (chatLine - 1) = text.text :=
        List.take_of_length_le (Nat.le_sub_one_of_lt text.fits)
      unfold Chat.submit
      rw [htake]
      split
      · exact .queued text htyped ‹_›
      · exact .full text htyped ‹_›
    · cases h
  | logOwn clock =>
    simp only [chatStep] at h
    split at h
    · obtain rfl := Option.some.inj h
      exact .logOwn clock _ ‹_›
    · cases h
  | poll f =>
    simp only [chatStep] at h
    split at h
    · rename_i hpc
      obtain rfl := Option.some.inj h
      unfold Chat.poll
      split
      · exact .poll f hpc
      · exact .noUrl f hpc
    · cases h
  | reply response =>
    simp only [chatStep] at h
    split at h
    · rename_i f sent hpc
      obtain rfl := Option.some.inj h
      unfold Chat.reply
      split
      · rename_i remote answer hok
        exact .answered answer f sent remote hpc (by rw [hok])
      · exact .unanswered _ f sent _ hpc
    · cases h
  | logNext clock =>
    simp only [chatStep] at h
    split at h
    · obtain rfl := Option.some.inj h
      exact .logNext clock _ _ ‹_›
    · obtain rfl := Option.some.inj h
      exact .done clock ‹_›
    · cases h

/-- In every run: the queue is what came in and has not gone out, in order. -/
structure ChatInv (c : Chat) : Prop where
  room : c.queue.length ≤ chatQueue
  short : ∀ line ∈ c.queue, line.length < chatLine
  flight : ∀ f sent, c.pc = .polling f sent → sent <+: c.queue
  order : c.accepted = c.answered.flatMap (·.2) ++ c.queue

theorem chatInv_start (remote : Remote) : ChatInv (.start remote) :=
  ⟨Nat.zero_le _, (fun _ h => by cases h), (fun _ _ h => by cases h), rfl⟩

theorem chatInv_step (hc : ChatInv c) (h : chatStep c a = some c') : ChatInv c' := by
  cases chat_effect h with
  | queued text htyped hroom =>
    refine ⟨?_, ?_, ?_, ?_⟩
    · rw [List.length_append, List.length_singleton]
      exact hroom
    · intro line hline
      rcases List.mem_append.1 hline with hline | hline
      · exact hc.short line hline
      · rw [List.mem_singleton.1 hline]
        exact text.fits
    · intro f sent hpc
      exact (hc.flight f sent hpc).trans (List.prefix_append _ _)
    · dsimp only
      rw [hc.order, List.append_assoc]
  | full | logOwn => exact ⟨hc.room, hc.short, hc.flight, hc.order⟩
  | poll f hpc =>
    refine ⟨hc.room, hc.short, fun f' sent hpc' => ?_, hc.order⟩
    obtain ⟨-, rfl⟩ := ChatPc.polling.inj hpc'
    exact List.prefix_rfl
  | noUrl => exact hc
  | answered response f sent remote hpc hok =>
    obtain ⟨rest, hqueue⟩ := hc.flight f sent hpc
    have hdrop : c.queue.drop sent.length = rest := by rw [← hqueue, List.drop_left]
    refine ⟨?_, ?_, (fun _ _ hpc' => by cases hpc'), ?_⟩
    · rw [List.length_drop]
      exact Nat.le_trans (Nat.sub_le _ _) hc.room
    · exact fun line hline => hc.short line (List.mem_of_mem_drop hline)
    · dsimp only
      rw [hdrop, hc.order, ← hqueue]
      simp
  | unanswered => exact ⟨hc.room, hc.short, (fun _ _ hpc' => by cases hpc'), hc.order⟩
  | logNext => exact ⟨hc.room, hc.short, (fun _ _ hpc' => by cases hpc'), hc.order⟩
  | done => exact ⟨hc.room, hc.short, (fun _ _ hpc' => by cases hpc'), hc.order⟩

/-- A line is sent while the queue has room, a poll with lines is answered only where all
of them fitted into its body, and no line of the developer's reads as the owner's. -/
def ChatClear (c : Chat) : ChatAct → Prop
  | .submit _ => c.queue.length < chatQueue
  | .reply response =>
    match c.pc with
    | .polling f sent =>
      sent ≠ [] → (remotePoll c.remote response).1 = true → pollLength f sent ≤ remoteBodyMax + 1
    | _ => True
  | .logNext clock =>
    match c.pc with
    | .logging (text :: _) =>
      ∀ line ∈ ((logLine clock "Developer" text).splitOn 10).tail, readsAsOwner line = false
    | _ => True
  | _ => True

/-- Under `ChatClear`: what was taken out was carried whole, and the log is honest. -/
structure HonestInv (c : Chat) : Prop extends ChatInv c where
  carried : ∀ p ∈ c.answered, ∀ i (hi : i < p.2.length), CarriesLine p.1 i p.2[i]
  typed : ∀ text, c.typed = some text → text ∈ c.accepted ∧ text.length < chatLine ∧ 10 ∉ text
  log : LogOk c.accepted c.log

theorem honestInv_start (remote : Remote) : HonestInv (.start remote) :=
  ⟨chatInv_start remote, (fun _ h => by cases h), (fun _ h => by cases h), logOk_nil⟩

theorem honestInv_step (hc : HonestInv c) (hclear : ChatClear c a) (h : chatStep c a = some c') : HonestInv c' := by
  refine { chatInv_step hc.toChatInv h with carried := ?_, typed := ?_, log := ?_ }
  · cases chat_effect h with
    | answered response f sent remote hpc hok =>
      have hsent := hc.flight f sent hpc
      have hcarry : ∀ i (hi : i < sent.length), CarriesLine (pollBody f sent) i sent[i] := by
        intro i hi
        have hne : sent ≠ [] := List.ne_nil_of_length_pos (Nat.zero_lt_of_lt hi)
        simp only [ChatClear, hpc] at hclear
        exact poll_carries (fun line hline => hc.short line (hsent.subset hline))
          (Nat.le_trans hsent.length_le hc.room) (hclear hne hok) hi
      generalize pollBody f sent = body at hcarry ⊢
      intro p hp
      rcases List.mem_append.1 hp with hp | hp
      · exact hc.carried p hp
      · rw [List.mem_singleton.1 hp]
        exact hcarry
    | queued | full | logOwn | poll | noUrl | unanswered | logNext | done => exact hc.carried
  · cases chat_effect h with
    | queued text htyped hroom =>
      intro t ht
      obtain rfl := Option.some.inj ht
      exact ⟨by simp, text.fits, text.oneLine⟩
    | full text htyped hfull => exact absurd hclear hfull
    | logOwn clock text htyped => exact fun t ht => by cases ht
    | poll | noUrl | answered | unanswered | logNext | done => exact hc.typed
  · cases chat_effect h with
    | queued => exact hc.log.mono (List.subset_append_left _ _)
    | logOwn clock text htyped =>
      obtain ⟨htext, hlen, hline⟩ := hc.typed text htyped
      exact chatAppend_owner hc.log clock hlen hline htext
    | logNext clock text texts hpc =>
      simp only [ChatClear, hpc] at hclear
      exact chatAppend_developer hc.log clock hclear
    | full | poll | noUrl | answered | unanswered | done => exact hc.log

/-- What the log shows as the owner's was queued. -/
theorem LogOk.owner (h : LogOk accepted log) : ∀ text ∈ ownerLines log, text ∈ accepted := by
  intro text htext
  obtain ⟨line, hline, rfl⟩ := List.mem_map.1 htext
  obtain ⟨hline, hread⟩ := List.mem_filter.1 hline
  exact h.honest line hline hread

/-- **Owner chat, where it works.** In a run that meets `ChatClear` the lines taken from
the queue were carried whole, in the order they were queued, by the polls that were
answered, and every line the log shows as the owner's was queued. -/
theorem owner_chat_kept {remote : Remote} {as : List ChatAct}
    (hclear : Under chatStep ChatClear (.start remote) as) (h : exec chatStep (.start remote) as = some c) :
    (∀ p ∈ c.answered, ∀ i (hi : i < p.2.length), CarriesLine p.1 i p.2[i]) ∧
      c.accepted = c.answered.flatMap (·.2) ++ c.queue ∧ ∀ text ∈ ownerLines c.log, text ∈ c.accepted := by
  have hc := exec_inv_under (fun _ _ _ hc hclear' h' => honestInv_step hc hclear' h') (honestInv_start remote) hclear h
  exact ⟨hc.carried, hc.order, hc.log.owner⟩

/-! ## Demonstration -/

instance (c : Chat) : ∀ a, Decidable (ChatClear c a)
  | .submit _ => inferInstanceAs (Decidable (c.queue.length < chatQueue))
  | .reply response => by
    unfold ChatClear
    dsimp only
    cases c.pc with
    | polling f sent => exact inferInstance
    | idle | logging => exact isTrue trivial
  | .logNext clock => by
    unfold ChatClear
    dsimp only
    cases c.pc with
    | logging texts =>
      cases texts with
      | nil => exact isTrue trivial
      | cons text texts => exact inferInstance
    | idle | polling => exact isTrue trivial
  | .logOwn _ | .poll _ => isTrue trivial

def chatRemote : Remote := ⟨ascii "http://relay", ascii "M-4F7K2Q", [], 60, [], [], false⟩

def pollDemo : PollFields := ⟨false, -1, [], [], [], [], []⟩

def noon : Clock := ⟨12, 0⟩

def okReply : HttpResponse := ⟨200, [], ascii "[poll]\r\nstatus=ok\r\n[chat]\r\ncount=1\r\n1=hello%20there\r\n"⟩

def lineDemo : ChatText := ⟨ascii "using it now", by decide, by decide, by decide⟩

/-- A line is sent and an answer comes in. -/
def chatRun : List ChatAct := [.submit lineDemo, .logOwn noon, .poll pollDemo, .reply (some okReply), .logNext noon]

theorem owner_chat_kept_demo : ∃ c, exec chatStep (.start chatRemote) chatRun = some c ∧
    c.answered.map (·.2) = [[lineDemo.text]] ∧ ownerLines c.log = [lineDemo.text] ∧
    (∀ p ∈ c.answered, ∀ i (hi : i < p.2.length), CarriesLine p.1 i p.2[i]) ∧
      c.accepted = c.answered.flatMap (·.2) ++ c.queue ∧ ∀ text ∈ ownerLines c.log, text ∈ c.accepted := by
  have hrun : (exec chatStep (.start chatRemote) chatRun).map (fun c => (c.answered.map (·.2), ownerLines c.log)) =
      some ([[lineDemo.text]], [lineDemo.text]) := by decide +kernel
  obtain ⟨c, hc, heq⟩ := Option.map_eq_some_iff.1 hrun
  obtain ⟨hanswered, howner⟩ := Prod.mk.inj heq
  exact ⟨c, hc, hanswered, howner, owner_chat_kept (by decide +kernel) hc⟩

/-- Three lines of 511 blanks. -/
def longLine : ChatText := ⟨List.replicate 511 32, by decide +kernel, by decide +kernel, by decide +kernel⟩

def longRun : List ChatAct :=
  [.submit longLine, .logOwn noon, .submit longLine, .logOwn noon, .submit longLine, .logOwn noon, .poll pollDemo,
    .reply (some okReply)]

/-- The third line of three is cut, and taken from the queue as if it had been sent. -/
theorem long_line_lost : ¬∀ remote as c, exec chatStep (.start remote) as = some c →
    (∀ p ∈ c.answered, ∀ i (hi : i < p.2.length), CarriesLine p.1 i p.2[i]) ∧
      c.accepted = c.answered.flatMap (·.2) ++ c.queue ∧ ∀ text ∈ ownerLines c.log, text ∈ c.accepted := by
  intro h
  have hrun : (exec chatStep (.start chatRemote) longRun).map (fun c =>
      c.answered.map fun p => (decide (CarriesLine p.1 2 longLine.text), p.2)) =
        some [(false, [longLine.text, longLine.text, longLine.text])] := by decide +kernel
  obtain ⟨c, hc, hanswered⟩ := Option.map_eq_some_iff.1 hrun
  obtain ⟨⟨body, sent⟩, hp, heq⟩ := List.mem_map.1 (hanswered ▸ List.mem_cons_self :
    (false, [longLine.text, longLine.text, longLine.text]) ∈
      c.answered.map fun p => (decide (CarriesLine p.1 2 longLine.text), p.2))
  obtain ⟨hlost, hsent⟩ := Prod.mk.inj heq
  have hcarried := (h chatRemote longRun c hc).1 _ hp 2
  dsimp only at hsent
  subst hsent
  exact of_decide_eq_false hlost (hcarried (Nat.lt_succ_self 2))

end V9xRemote
