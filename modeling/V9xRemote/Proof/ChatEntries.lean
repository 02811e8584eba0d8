import V9xRemote.Proof.ChatLog

/-!
# The entries of the chat log

Trimming takes lines, so it takes whole entries where no part of the entry that has to go
would still fit (`trimmed_entries`). An entry that its line buffer cuts has lost its end.
-/

namespace V9xRemote

open Bytes Trace

variable {t t' : ChatTalk} {e : ChatEntry} {room : ℕ} {s rest : Bytes}

/-- An entry, whole. -/
def entryText (e : ChatEntry) : Bytes := e.clock.text ++ ascii e.who.name ++ ascii ": " ++ e.text ++ crlf

def entryTexts (es : List ChatEntry) : Bytes := es.flatMap entryText

theorem entryText_cut (e : ChatEntry) : logLine e.clock e.who.name e.text = (entryText e).take (chatLine + 31) := by
  rw [logLine, rtText_eq]
  simp only [entryText, List.flatten_cons, List.flatten_nil, List.append_nil, List.append_assoc]
  rfl

/-- An entry ends in LF. -/
theorem entryText_ended (e : ChatEntry) : ∃ body, entryText e = body ++ [10] :=
  ⟨e.clock.text ++ ascii e.who.name ++ ascii ": " ++ e.text ++ [13], by
    rw [entryText, crlf, List.append_assoc _ [13] [10]]
    rfl⟩

/-! ## Trimming -/

/-- The text without the first lines that have to go. -/
def trimmed (room : ℕ) (s : Bytes) : Bytes := trimLog room s.length s

theorem trimLog_fuel {fuel : ℕ} (h : s.length ≤ fuel) : trimLog room fuel s = trimmed room s := by
  suffices hboth : ∀ (n m : ℕ) (s : Bytes), s.length ≤ n → s.length ≤ m → trimLog room n s = trimLog room m s by
    exact hboth _ _ s h le_rfl
  intro n
  induction n with
  | zero =>
    intro m s hn _
    obtain rfl : s = [] := List.eq_nil_of_length_eq_zero (by omega)
    cases m with
    | zero => rfl
    | succ m => simp [trimLog]
  | succ n ih =>
    intro m s hn hm
    cases m with
    | zero =>
      obtain rfl : s = [] := List.eq_nil_of_length_eq_zero (by omega)
      simp [trimLog]
    | succ m =>
      have hshorter := dropFirstLine_length s
      rw [trimLog, trimLog]
      split_ifs with hroom
      · rfl
      · exact ih m _ (by omega) (by omega)

theorem trimmed_fits (h : s.length ≤ room) : trimmed room s = s := by
  rw [← trimLog_fuel (Nat.le_succ _), trimLog, if_pos h]

theorem trimmed_over (h : room < s.length) : trimmed room s = trimmed room (dropFirstLine s) := by
  have hshorter := dropFirstLine_length s
  rw [← trimLog_fuel (Nat.le_succ _), trimLog, if_neg (by omega), trimLog_fuel (by omega)]

/-- **An entry goes whole**, or stays, where no rest of it of whole lines would fit. -/
theorem trimmed_entry {entry : Bytes} (hended : ∃ body, entry = body ++ [10])
    (hover : room < entry.length + rest.length)
    (hparts : ∀ lines part, entry = lines ++ 10 :: part → part ≠ [] → room < part.length + rest.length) :
    trimmed room (entry ++ rest) = trimmed room rest := by
  induction hn : entry.length using Nat.strong_induction_on generalizing entry with
  | _ n ih =>
    obtain ⟨body, hbody⟩ := hended
    have hlf : 10 ∈ entry := by rw [hbody]; exact List.mem_append_right _ List.mem_cons_self
    obtain ⟨line, part, rfl, hline⟩ := List.eq_append_cons_of_mem hlf
    rw [trimmed_over (by rw [List.length_append]; exact hover), List.append_assoc, List.cons_append,
      dropFirstLine_line hline]
    by_cases hpart : part = []
    · rw [hpart, List.nil_append]
    · -- what is left of the entry ends in LF, too
      have hrest : ∃ body, part = body ++ [10] := by
        refine ⟨part.dropLast, ?_⟩
        have hlast : part.getLast hpart = 10 := by
          have hwhole := congrArg List.getLast? hbody
          rw [List.getLast?_append, List.getLast?_append, List.getLast?_singleton, Option.some_or, List.getLast?_cons,
            List.getLast?_eq_some_getLast hpart] at hwhole
          simpa using hwhole
        conv_lhs => rw [← List.dropLast_append_getLast hpart, hlast]
      apply ih part.length ?_ hrest (hparts line part rfl hpart) ?_ rfl
      · rw [← hn, List.length_append, List.length_cons]
        omega
      · intro lines more hmore hne
        refine hparts (line ++ 10 :: lines) more ?_ hne
        rw [hmore, List.append_assoc, List.cons_append]

/-- Where no part of an entry that has to go would fit. -/
def PartsGo (room : ℕ) (said : List ChatEntry) : Prop :=
  ∀ before old after, said = before ++ old :: after →
    (entryTexts after).length ≤ room → room < (entryText old).length + (entryTexts after).length →
    ∀ lines part, entryText old = lines ++ 10 :: part → part ≠ [] → room < part.length + (entryTexts after).length

/-- **Whole entries stay.** -/
theorem trimmed_entries {es : List ChatEntry} (hparts : PartsGo room es) :
    ∃ k, k ≤ es.length ∧ trimmed room (entryTexts es) = entryTexts (es.drop k) := by
  induction es with
  | nil => exact ⟨0, le_rfl, trimmed_fits (Nat.zero_le _)⟩
  | cons e es ih =>
    have htexts : entryTexts (e :: es) = entryText e ++ entryTexts es := List.flatMap_cons
    rcases Nat.lt_or_ge room (entryTexts (e :: es)).length with hover | hfits
    · rw [htexts, List.length_append] at hover
      have hlater : PartsGo room es := by
        intro before old after hes
        exact hparts (e :: before) old after (by rw [hes, List.cons_append])
      obtain ⟨k, hk, hkept⟩ := ih hlater
      refine ⟨k + 1, by rw [List.length_cons]; omega, ?_⟩
      rw [htexts, List.drop_succ_cons, ← hkept]
      apply trimmed_entry (entryText_ended e) hover
      intro lines part hpart hne
      rcases Nat.lt_or_ge room (entryTexts es).length with hmore | hlast
      · omega
      · exact hparts [] e es rfl hlast hover lines part hpart hne
    · exact ⟨0, Nat.zero_le _, trimmed_fits hfits⟩

/-! ## Runs -/

/-- The log is a text and its NUL inside the buffer. -/
structure LogStands (log : ChatLog) : Prop where
  size : log.buffer.length = chatLogSize
  inside : log.length < chatLogSize
  ended : log.buffer[log.length]? = some 0
  length : (cstr log.buffer).length = log.length

/-- The log is whole entries: the last ones said, in their order, the newest among them. -/
def LogWhole (t : ChatTalk) : Prop :=
  ∃ kept, kept <:+ t.said ∧ (t.said ≠ [] → kept ≠ []) ∧ t.log.buffer.take t.log.length = entryTexts kept

/-- An entry that fits into its line buffer, with its CRLF, comes to a log that need not drop a part of an old one
to make room. -/
def EntryClear (t : ChatTalk) (e : ChatEntry) : Prop :=
  (entryText e).length < chatLine + 32 ∧
    (chatLogSize < t.log.length + (entryText e).length + 1 → PartsGo (chatLogSize - 1 - (entryText e).length) t.said)

theorem ChatLog.Holds.stands {log : ChatLog} (h : log.Holds s) : LogStands log := by
  obtain ⟨junk, hbuffer⟩ := h.text
  refine ⟨h.size, h.length ▸ h.inside, ?_, ?_⟩
  · rw [hbuffer, h.length, List.getElem?_append_right le_rfl, Nat.sub_self]
    rfl
  · have hall : ∀ b ∈ s, decide (b ≠ 0) = true := by
      intro b hb
      simp only [decide_eq_true_eq]
      exact fun hzero => h.plain (hzero ▸ hb)
    rw [hbuffer, cstr, List.takeWhile_append_of_pos hall, List.takeWhile_cons_of_neg (by simp), List.append_nil,
      h.length]

theorem ChatLog.Holds.take {log : ChatLog} (h : log.Holds s) : log.buffer.take log.length = s := by
  obtain ⟨junk, hbuffer⟩ := h.text
  rw [hbuffer, h.length, List.take_left]

theorem start_holds {buffer : Bytes} (hbuffer : buffer.length = chatLogSize) : (ChatLog.start buffer).Holds [] := by
  obtain ⟨b, rest, rfl⟩ : ∃ b rest, buffer = b :: rest := by
    apply List.exists_cons_of_length_pos
    rw [hbuffer]
    decide
  exact ⟨List.length_set.trans hbuffer, rfl, ⟨rest, rfl⟩, List.not_mem_nil⟩

/-- No step fails, and every step leaves a text in the buffer. -/
theorem chatTalk_runs {buffer : Bytes} (hbuffer : buffer.length = chatLogSize) (es : List ChatEntry) :
    ∃ t s, exec chatTalkStep (.start buffer) es = some t ∧ t.log.Holds s := by
  suffices hfrom : ∀ (es : List ChatEntry) (t : ChatTalk) (s : Bytes), t.log.Holds s →
      ∃ t' s', exec chatTalkStep t es = some t' ∧ t'.log.Holds s' by
    exact hfrom es (.start buffer) [] (start_holds hbuffer)
  intro es
  induction es with
  | nil => exact fun t s h => ⟨t, s, rfl, h⟩
  | cons e es ih =>
    intro t s h
    obtain ⟨next, hnext, hholds⟩ := append_holds h e
    obtain ⟨t', s', hrun, hlast⟩ := ih ⟨next, t.said ++ [e]⟩ _ hholds
    refine ⟨t', s', ?_, hlast⟩
    rw [exec_cons, chatTalkStep, hnext]
    exact hrun

/-- The log holds whole entries. -/
def WholeInv (t : ChatTalk) : Prop :=
  ∃ k, (t.said ≠ [] → k < t.said.length) ∧ t.log.Holds (entryTexts (t.said.drop k))

theorem wholeInv_step (ht : WholeInv t) (hclear : EntryClear t e) (h : chatTalkStep t e = some t') : WholeInv t' := by
  obtain ⟨k, hk, hholds⟩ := ht
  obtain ⟨hfits, hparts⟩ := hclear
  obtain ⟨next, hnext, hnextholds⟩ := append_holds hholds e
  obtain rfl : ⟨next, t.said ++ [e]⟩ = t' := by
    rw [chatTalkStep, hnext] at h
    exact Option.some.inj h
  have hline : logLine e.clock e.who.name e.text = entryText e := by
    rw [entryText_cut, List.take_of_length_le (Nat.le_of_lt_succ hfits)]
  rw [chatAppend, hline] at hnextholds
  rw [trimLog_fuel le_rfl] at hnextholds
  have hkept : ∃ j, j ≤ (t.said.drop k).length ∧ trimmed (chatLogSize - 1 - (entryText e).length)
      (entryTexts (t.said.drop k)) = entryTexts ((t.said.drop k).drop j) := by
    rcases Nat.lt_or_ge chatLogSize (t.log.length + (entryText e).length + 1) with hover | hroom
    · apply trimmed_entries
      intro before old after hsaid
      apply hparts hover (t.said.take k ++ before)
      rw [List.append_assoc, ← hsaid, List.take_append_drop]
    · refine ⟨0, Nat.zero_le _, trimmed_fits ?_⟩
      rw [hholds.length] at hroom
      omega
  obtain ⟨j, hj, htrimmed⟩ := hkept
  rw [htrimmed, List.drop_drop] at hnextholds
  rw [List.length_drop] at hj
  refine ⟨min (k + j) t.said.length, ?_, ?_⟩
  · intro _
    rw [List.length_append, List.length_singleton]
    omega
  · have hdrop : t.said.drop (min (k + j) t.said.length) = t.said.drop (k + j) := by
      rcases Nat.le_total (k + j) t.said.length with hle | hge
      · rw [min_eq_left hle]
      · rw [min_eq_right hge, List.drop_length, List.drop_eq_nil_of_le hge]
    have htexts : entryTexts ((t.said ++ [e]).drop (min (k + j) t.said.length)) =
        entryTexts (t.said.drop (k + j)) ++ entryText e := by
      rw [List.drop_append_of_le_length (min_le_right _ _), hdrop, entryTexts, List.flatMap_append,
        List.flatMap_singleton]
      rfl
    rw [htexts]
    exact hnextholds

theorem exec_said {es : List ChatEntry} (h : exec chatTalkStep t es = some t') : t'.said = t.said ++ es := by
  induction es generalizing t with
  | nil =>
    obtain rfl := Option.some.inj h
    rw [List.append_nil]
  | cons e es ih =>
    rw [exec_cons, Option.bind_eq_some_iff] at h
    obtain ⟨next, hnext, hrest⟩ := h
    obtain ⟨log, -, rfl⟩ := Option.map_eq_some_iff.1 hnext
    rw [ih hrest, List.append_assoc, List.singleton_append]

/-- Entries of one line that fit into the line buffer are clear, however many there are. -/
theorem under_lines {buffer : Bytes} {es : List ChatEntry}
    (hlines : ∀ e ∈ es, (entryText e).length < chatLine + 32 ∧ 10 ∉ e.text) :
    Under chatTalkStep EntryClear (.start buffer) es := by
  intro n hn t hrun
  refine ⟨(hlines _ (List.getElem_mem hn)).1, ?_⟩
  intro _ before old after hsaid _ _ lines part hold hpart
  have hmem : old ∈ es := by
    have hsaid' : t.said = es.take n := exec_said hrun
    apply List.mem_of_mem_take (i := n)
    rw [← hsaid', hsaid]
    exact List.mem_append_right _ List.mem_cons_self
  obtain ⟨-, -, -, -, -, hclock⟩ := clock_text old.clock
  -- the only LF is the last byte
  have hbody : (old.clock.text ++ ascii old.who.name ++ ascii ": " ++ old.text ++ [13]) ++ [10] =
      lines ++ 10 :: part := by
    rw [← hold, entryText, crlf, List.append_assoc _ [13] [10]]
    rfl
  have hcut := congrArg List.dropLast hbody
  rw [List.dropLast_concat, List.dropLast_append_of_ne_nil (List.cons_ne_nil _ _),
    List.dropLast_cons_of_ne_nil hpart] at hcut
  have hlf : 10 ∈ old.clock.text ++ ascii old.who.name ++ ascii ": " ++ old.text ++ [13] := by
    rw [hcut]
    exact List.mem_append_right _ List.mem_cons_self
  have hwho : 10 ∉ ascii old.who.name := by cases old.who <;> decide
  have hcolon : 10 ∉ ascii ": " := by decide
  have hcr : (10 : UInt8) ∉ [13] := by decide
  simp only [List.mem_append, hclock, hwho, hcolon, (hlines _ hmem).2, hcr, or_self] at hlf

/-- **The chat log.** No sequence of entries takes an append out of the buffer or lets it not end, and the buffer
holds a text and its NUL, of the length the log says. Where every entry meets `EntryClear`, the text is whole
entries, the last ones said, in their order. -/
theorem chat_log_whole {buffer : Bytes} (hbuffer : buffer.length = chatLogSize) (es : List ChatEntry) :
    ∃ t, exec chatTalkStep (.start buffer) es = some t ∧ t.said = es ∧ LogStands t.log ∧
      (Under chatTalkStep EntryClear (.start buffer) es → LogWhole t) := by
  obtain ⟨t, s, hrun, hholds⟩ := chatTalk_runs hbuffer es
  refine ⟨t, hrun, exec_said hrun, hholds.stands, ?_⟩
  intro hclear
  have hstart : WholeInv (.start buffer) := ⟨0, fun hne => absurd rfl hne, start_holds hbuffer⟩
  obtain ⟨k, hk, hwhole⟩ := exec_inv_under (fun _ _ _ ht hclear' h' => wholeInv_step ht hclear' h') hstart hclear hrun
  refine ⟨t.said.drop k, List.drop_suffix _ _, ?_, hwhole.take⟩
  intro hne hnil
  exact absurd (List.drop_eq_nil_iff.1 hnil) (Nat.not_le.2 (hk hne))

def helloEntry : ChatEntry := ⟨noon, .developer, ascii "hello there", by decide⟩

theorem chat_log_whole_demo : ∃ t, exec chatTalkStep (.start (List.replicate chatLogSize 7))
    (List.replicate 1000 helloEntry) = some t ∧ LogStands t.log ∧ LogWhole t := by
  obtain ⟨t, hrun, -, hstands, hwhole⟩ :=
    chat_log_whole (List.length_replicate (n := chatLogSize) (a := 7)) (List.replicate 1000 helloEntry)
  refine ⟨t, hrun, hstands, hwhole (under_lines ?_)⟩
  intro e he
  obtain rfl := List.eq_of_mem_replicate he
  decide

/-- A message of 600 bytes. -/
def longEntry : ChatEntry :=
  ⟨noon, .developer, List.replicate 600 97, fun h => absurd (List.eq_of_mem_replicate h) (by decide)⟩

def okEntry : ChatEntry := ⟨noon, .you, ascii "ok", by decide⟩

/-- A long message is cut with its CRLF, and the next entry goes on its line. -/
theorem long_entry_joined : ¬∀ (buffer : Bytes) (es : List ChatEntry) (t : ChatTalk), buffer.length = chatLogSize →
    exec chatTalkStep (.start buffer) es = some t → LogStands t.log ∧ LogWhole t := by
  intro hall
  have hbuffer : (List.replicate chatLogSize (0 : UInt8)).length = chatLogSize := List.length_replicate
  obtain ⟨first, hfirst, hholds⟩ := append_holds (start_holds hbuffer) longEntry
  obtain ⟨second, hsecond, hboth⟩ := append_holds hholds okEntry
  have hrun : exec chatTalkStep (.start (List.replicate chatLogSize 0)) [longEntry, okEntry] =
      some ⟨second, [longEntry, okEntry]⟩ := by
    have hstep : chatTalkStep (.start (List.replicate chatLogSize 0)) longEntry = some ⟨first, [longEntry]⟩ := by
      rw [chatTalkStep, ChatTalk.start, hfirst]
      rfl
    have hlast : chatTalkStep ⟨first, [longEntry]⟩ okEntry = some ⟨second, [longEntry, okEntry]⟩ := by
      rw [chatTalkStep, hsecond]
      rfl
    rw [exec_cons, hstep, Option.bind_some, exec_cons, hlast]
    rfl
  obtain ⟨-, kept, hkept, hne, htext⟩ := hall _ _ _ hbuffer hrun
  have hlength := congrArg List.length (hboth.take.symm.trans htext)
  have hlog :
      (chatAppend (chatAppend [] noon "Developer" (List.replicate 600 97)) noon "You" (ascii "ok")).length = 558 := by
    decide +kernel
  have hwhole : (entryTexts [longEntry, okEntry]).length = 634 := by decide +kernel
  have hlast : (entryTexts [okEntry]).length = 15 := by decide
  rcases List.suffix_cons_iff.1 hkept with rfl | hkept
  · exact absurd (hlog.symm.trans (hlength.trans hwhole)) (by decide)
  · rcases List.suffix_cons_iff.1 hkept with rfl | hkept
    · exact absurd (hlog.symm.trans (hlength.trans hlast)) (by decide)
    · exact hne (List.cons_ne_nil _ _) (List.suffix_nil.1 hkept)

end V9xRemote
