import V9xRemote.Proof.Chat
import V9xRemote.Spec.Chat

/-!
# The chat log

The buffer holds the log's text and its NUL in every run (`append_holds`). An entry goes
whole into the log where it fits into its line buffer, and old ones go whole out of it where
no part of one would still fit.
-/

namespace V9xRemote

open Bytes Trace

variable {log : ChatLog} {s line : Bytes}

/-! ## The buffer -/

/-- The buffer holds a text and its NUL. -/
structure ChatLog.Holds (log : ChatLog) (s : Bytes) : Prop where
  size : log.buffer.length = chatLogSize
  length : log.length = s.length
  text : ∃ junk, log.buffer = s ++ 0 :: junk
  plain : 0 ∉ s

theorem ChatLog.Holds.inside (h : log.Holds s) : s.length < chatLogSize := by
  obtain ⟨junk, hbuffer⟩ := h.text
  rw [← h.size, hbuffer, List.length_append, List.length_cons]
  omega

/-- A byte behind a text that a buffer begins with. -/
theorem putByte_append (b c : UInt8) (rest : Bytes) : putByte (s ++ c :: rest) s.length b = some (s ++ b :: rest) := by
  rw [putByte, if_pos (by rw [List.length_append, List.length_cons]; omega), List.set_append_right _ _ le_rfl,
    Nat.sub_self]
  rfl

/-- The search ends at the first LF, or at the end of the text. -/
theorem cutFrom_eq (h : log.Holds s) {cut : ℕ} (hcut : cut ≤ s.length) :
    log.cutFrom cut = some (cut + ((s.drop cut).takeWhile (· ≠ 10)).length) := by
  obtain ⟨junk, hbuffer⟩ := h.text
  induction hn : s.length - cut generalizing cut with
  | zero =>
    rw [ChatLog.cutFrom, if_neg (by rw [h.length]; omega), List.drop_eq_nil_of_le (by omega)]
    rfl
  | succ n ih =>
    have hlt : cut < s.length := by omega
    have hbyte : log.buffer[cut]? = some s[cut] := by
      rw [hbuffer, List.getElem?_append_left hlt, List.getElem?_eq_getElem hlt]
    rw [ChatLog.cutFrom, if_pos (by rw [h.length]; exact hlt), hbyte, List.drop_eq_getElem_cons hlt]
    dsimp only
    by_cases hlf : s[cut] = 10
    · rw [if_neg (by simpa using hlf), List.takeWhile_cons_of_neg (by simpa using hlf)]
      rfl
    · rw [if_pos hlf, ih (by omega) (by omega), List.takeWhile_cons_of_pos (by simpa using hlf), List.length_cons]
      congr 1
      omega

/-- The loop moves the bytes it is to move, and no others. -/
theorem shiftFrom_eq {cut last : ℕ} {buffer : Bytes} {index : ℕ} (hcut : cut ≤ index) (hlast : last < buffer.length)
    (hindex : index ≤ last + 1) : ∃ moved, ChatLog.shiftFrom cut last buffer index = some moved ∧
      moved.length = buffer.length ∧
      ∀ k, moved[k]? = if index - cut ≤ k ∧ k + cut ≤ last then buffer[k + cut]? else buffer[k]? := by
  induction hn : last + 1 - index generalizing buffer index with
  | zero =>
    refine ⟨buffer, ?_, rfl, ?_⟩
    · rw [ChatLog.shiftFrom, if_neg (by omega)]
    · intro k
      rw [if_neg (by omega)]
  | succ n ih =>
    have hin : index < buffer.length := by omega
    have hput : putByte buffer (index - cut) buffer[index] = some (buffer.set (index - cut) buffer[index]) :=
      if_pos (by omega)
    obtain ⟨moved, hmoved, hlength, hbytes⟩ :=
      @ih (buffer.set (index - cut) buffer[index]) (index + 1) (by omega) (by rw [List.length_set]; exact hlast)
        (by omega) (by omega)
    refine ⟨moved, ?_, hlength.trans List.length_set, ?_⟩
    · rw [ChatLog.shiftFrom, if_pos (by omega), List.getElem?_eq_getElem hin]
      dsimp only
      rw [hput]
      exact hmoved
    · intro k
      rw [hbytes k]
      -- a byte still to move is behind the one written
      rcases Nat.lt_trichotomy k (index - cut) with hk | hk | hk
      · rw [if_neg (by omega), if_neg (by omega), List.getElem?_set_ne (by omega)]
      · rw [if_neg (by omega), if_pos (by omega), hk, List.getElem?_set_self (by omega)]
        have hback : index - cut + cut = index := by omega
        rw [hback, List.getElem?_eq_getElem hin]
      · by_cases hmore : k + cut ≤ last
        · rw [if_pos (by omega), if_pos (by omega), List.getElem?_set_ne (by omega)]
        · rw [if_neg (by omega), if_neg (by omega), List.getElem?_set_ne (by omega)]

/-- Bytes are taken from the front. -/
theorem shift_holds (h : log.Holds s) {cut : ℕ} (hcut : cut ≤ s.length) :
    ∃ moved, ChatLog.shiftFrom cut log.length log.buffer cut = some moved ∧
      ChatLog.Holds ⟨moved, log.length - cut⟩ (s.drop cut) := by
  obtain ⟨junk, hbuffer⟩ := h.text
  have hinside := h.inside
  obtain ⟨moved, hmoved, hlength, hbytes⟩ :=
    @shiftFrom_eq cut log.length log.buffer cut le_rfl (by rw [h.length, h.size]; exact hinside)
      (by rw [h.length]; omega)
  refine ⟨moved, hmoved, hlength.trans h.size, ?_, ?_, ?_⟩
  · rw [List.length_drop]
    exact congrArg (· - cut) h.length
  · refine ⟨moved.drop (s.length - cut + 1), ?_⟩
    have htake : moved.take (s.length - cut + 1) = s.drop cut ++ [0] := by
      apply List.ext_getElem?
      intro k
      have htext : (s ++ 0 :: junk)[k + cut]? = (s.drop cut ++ 0 :: junk)[k]? := by
        rw [← List.drop_append_of_le_length hcut, List.getElem?_drop, Nat.add_comm]
      rcases Nat.lt_or_ge k (s.length - cut + 1) with hk | hk
      · rw [List.getElem?_take_of_lt hk, hbytes, if_pos (by rw [h.length]; omega), hbuffer, htext,
          List.append_cons, List.getElem?_append_left (by rw [List.length_append, List.length_drop]; exact hk)]
      · rw [List.getElem?_take_eq_none hk, List.getElem?_eq_none (by
          rw [List.length_append, List.length_drop]
          exact hk)]
    conv_lhs => rw [← List.take_append_drop (s.length - cut + 1) moved, htake]
    rw [List.append_assoc]
    rfl
  · exact fun hmem => h.plain (List.mem_of_mem_drop hmem)

/-- The first line goes, as it goes from the text. -/
theorem dropLine_holds (h : log.Holds s) : ∃ next, log.dropLine = some next ∧ next.Holds (dropFirstLine s) := by
  have hcut : log.cutFrom 0 = some (s.takeWhile (· ≠ 10)).length := by
    rw [cutFrom_eq h (Nat.zero_le _), List.drop_zero, Nat.zero_add]
  rw [ChatLog.dropLine, hcut, Option.bind_eq_bind, Option.bind_some, h.length]
  by_cases hlf : 10 ∈ s
  · obtain ⟨line, rest, rfl, hline⟩ := List.eq_append_cons_of_mem hlf
    have htake : (line ++ 10 :: rest).takeWhile (· ≠ 10) = line := by
      rw [List.takeWhile_append_of_pos (by
        intro c hc
        simp only [decide_eq_true_eq]
        exact fun heq => hline (heq ▸ hc)), List.takeWhile_cons_of_neg (by simp), List.append_nil]
    have hlength : (line ++ 10 :: rest).length = line.length + (rest.length + 1) := by
      rw [List.length_append, List.length_cons]
    obtain ⟨moved, hmoved, hnext⟩ := @shift_holds _ _ h (line.length + 1) (by omega)
    rw [h.length] at hmoved hnext
    refine ⟨⟨moved, (line ++ 10 :: rest).length - (line.length + 1)⟩, ?_, ?_⟩
    · rw [htake]
      dsimp only
      have hlt : line.length < (line ++ 10 :: rest).length := by omega
      rw [if_pos hlt, if_neg (Nat.succ_ne_zero line.length), hmoved]
      rfl
    · rw [dropFirstLine_line hline]
      rw [← List.drop_drop, List.drop_left, List.drop_succ_cons, List.drop_zero] at hnext
      exact hnext
  · -- no line ends: all of it goes
    have hall : ∀ c ∈ s, decide (c ≠ 10) = true := fun c hc => by
      simp only [decide_eq_true_eq]
      exact fun heq => hlf (heq ▸ hc)
    have htake : s.takeWhile (· ≠ 10) = s := List.takeWhile_eq_self_iff.2 hall
    have hnone : dropFirstLine s = s.drop s.length := by
      rw [dropFirstLine, List.dropWhile_eq_nil_iff.2 hall, List.drop_nil, List.drop_length]
    obtain ⟨moved, hmoved, hnext⟩ := @shift_holds _ _ h s.length le_rfl
    rw [h.length] at hmoved hnext
    refine ⟨_, ?_, hnone ▸ hnext⟩
    rw [htake]
    dsimp only
    rw [if_neg (lt_irrefl _), ite_self, hmoved]
    rfl

/-- There is room for a line that the buffer can hold. -/
theorem makeRoom_holds {length : ℕ} (hlength : length < chatLogSize) (fuel : ℕ) (h : log.Holds s)
    (hfuel : s.length ≤ fuel) : ∃ next, log.makeRoom length = some next ∧
      next.Holds (trimLog (chatLogSize - 1 - length) fuel s) := by
  induction fuel generalizing log s with
  | zero =>
    refine ⟨log, ?_, h⟩
    rw [ChatLog.makeRoom, if_neg (by rw [h.length]; omega)]
  | succ fuel ih =>
    rw [trimLog]
    by_cases hroom : s.length ≤ chatLogSize - 1 - length
    · rw [if_pos hroom, ChatLog.makeRoom, if_neg (by rw [h.length]; omega)]
      exact ⟨log, rfl, h⟩
    · have hshorter := dropFirstLine_length s
      obtain ⟨dropped, hdropped, hdrop⟩ := dropLine_holds h
      obtain ⟨next, hnext, hholds⟩ := ih hdrop (by omega)
      refine ⟨next, ?_, by rw [if_neg hroom]; exact hholds⟩
      rw [ChatLog.makeRoom, if_pos (by rw [h.length]; omega), hdropped]
      dsimp only
      rw [if_pos (by rw [hdrop.length, h.length]; omega)]
      exact hnext

/-- The line is copied behind the text. -/
theorem copyLine_eq (line : Bytes) {rest : Bytes} (hbuffer : log.buffer = s ++ rest) (hlength : log.length = s.length)
    (hroom : line.length ≤ rest.length) :
    log.copyLine line = some ⟨s ++ line ++ rest.drop line.length, s.length + line.length⟩ := by
  induction line generalizing log s rest with
  | nil =>
    obtain ⟨buffer, length⟩ := log
    obtain rfl : buffer = s ++ rest := hbuffer
    obtain rfl : length = s.length := hlength
    rw [ChatLog.copyLine, List.append_nil]
    rfl
  | cons b line ih =>
    cases rest with
    | nil => simp at hroom
    | cons c rest =>
      rw [ChatLog.copyLine, hbuffer, hlength, putByte_append]
      dsimp only
      have hnext : s ++ b :: rest = s ++ [b] ++ rest := List.append_cons s b rest
      have hroom' : line.length ≤ rest.length := by simpa using hroom
      rw [@ih ⟨s ++ b :: rest, s.length + 1⟩ (s ++ [b]) rest hnext (by rw [List.length_append]; rfl) hroom']
      rw [List.length_append, List.length_singleton, List.append_assoc s [b] line, List.length_cons,
        List.drop_succ_cons, List.singleton_append, Nat.add_assoc, Nat.add_comm 1]

/-- A line of the log has no NUL. -/
theorem logLine_plain (entry : ChatEntry) : 0 ∉ logLine entry.clock entry.who.name entry.text := by
  have hdigit : (List.range 58).all fun n => UInt8.ofNat (48 + n) != 0 := by decide
  have hclock : 0 ∉ entry.clock.text := by
    have hhour := entry.clock.hour.isLt
    have hminute := entry.clock.minute.isLt
    have hne : ∀ n < 58, UInt8.ofNat (48 + n) ≠ 0 := fun n hn =>
      bne_iff_ne.1 (List.all_eq_true.1 hdigit n (List.mem_range.2 hn))
    simp only [Clock.text, List.mem_cons, List.not_mem_nil, or_false, not_or]
    exact ⟨(hne _ (by omega)).symm, (hne _ (by omega)).symm, by decide, (hne _ (by omega)).symm,
      (hne _ (by omega)).symm, by decide⟩
  have hwho : 0 ∉ ascii entry.who.name := by cases entry.who <;> decide
  have hcolon : 0 ∉ ascii ": " := by decide
  have hcrlf : 0 ∉ crlf := by decide
  rw [logLine, rtText_eq]
  intro hmem
  have hflat := List.mem_of_mem_take hmem
  simp only [List.flatten_cons, List.flatten_nil, List.append_nil, List.mem_append, hclock, hwho, hcolon, entry.plain,
    hcrlf, or_self] at hflat

/-- **An append does to the buffer what it does to the text**, in every state and for every entry. -/
theorem append_holds (h : log.Holds s) (entry : ChatEntry) : ∃ next, log.append entry = some next ∧
    next.Holds (chatAppend s entry.clock entry.who.name entry.text) := by
  have hplain := logLine_plain entry
  have hshort : (logLine entry.clock entry.who.name entry.text).length ≤ chatLine + 31 := by
    rw [logLine, rtText_eq]
    exact List.length_take_le _ _
  have hinside := chatAppend_length s entry.clock entry.who.name entry.text
  simp only [chatAppend] at hinside
  simp only [chatAppend, ChatLog.append]
  generalize logLine entry.clock entry.who.name entry.text = line at hplain hshort hinside ⊢
  have hline : line.length < chatLogSize := by
    unfold chatLine at hshort
    unfold chatLogSize
    omega
  obtain ⟨room, hroom, htrimmed⟩ := makeRoom_holds hline s.length h le_rfl
  generalize trimLog (chatLogSize - 1 - line.length) s.length s = kept at htrimmed hinside ⊢
  obtain ⟨junk, hbuffer⟩ := htrimmed.text
  have hsize := htrimmed.size
  rw [hbuffer, List.length_append, List.length_cons] at hsize
  rw [List.length_append] at hinside
  have hcopy := copyLine_eq line hbuffer htrimmed.length (by rw [List.length_cons]; omega)
  -- the copy overwrites the NUL, so there is a byte left for the new one
  obtain ⟨c, rest, hrest⟩ : ∃ c rest, (0 :: junk).drop line.length = c :: rest := by
    apply List.exists_cons_of_length_pos
    rw [List.length_drop, List.length_cons]
    omega
  have hrestlength := congrArg List.length hrest
  rw [List.length_drop, List.length_cons, List.length_cons] at hrestlength
  rw [hrest] at hcopy
  have hput : putByte (kept ++ line ++ c :: rest) (kept.length + line.length) 0 = some (kept ++ line ++ 0 :: rest) := by
    rw [← List.length_append]
    exact putByte_append 0 c rest
  refine ⟨⟨kept ++ line ++ 0 :: rest, kept.length + line.length⟩, ?_, ?_, ?_, ⟨rest, rfl⟩, ?_⟩
  · rw [hroom, Option.bind_eq_bind, Option.bind_some, hcopy, Option.bind_eq_bind, Option.bind_some]
    dsimp only
    rw [hput]
    rfl
  · rw [List.length_append, List.length_append, List.length_cons]
    omega
  · exact List.length_append.symm
  · rw [List.mem_append, not_or]
    exact ⟨htrimmed.plain, hplain⟩

end V9xRemote
