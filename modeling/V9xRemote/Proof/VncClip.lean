import V9xRemote.Lib.Trace
import V9xRemote.Spec.VncClip

/-!
# What the clipboard exchange sends back

While the clipboard holds the viewer's text and has been looked at, `vnc_clip_hash` is that
text's (`HashKept`): a look that can read it finds nothing new. A look that opens the clipboard
and cannot read it takes it for empty, and the next one queues the viewer's own text
(`clip_exchange`, `failed_read_echoes`).
-/

namespace V9xRemote

open Bytes Trace

/-! ## Texts -/

/-- A text without its CRs and NULs. -/
def clipPlain (text : Bytes) : Bytes := text.filter fun c => c ≠ 13 ∧ c ≠ 0

/-- A line feed as CRLF. -/
def clipLine (c : UInt8) : Bytes := if c = 10 then [13, 10] else [c]

theorem clipPlain_cons_skip {c : UInt8} (h : c = 13 ∨ c = 0) (text : Bytes) : clipPlain (c :: text) = clipPlain text := by
  unfold clipPlain
  rw [List.filter_cons_of_neg]
  simp only [decide_eq_true_eq]
  tauto

theorem clipPlain_cons_keep {c : UInt8} (h : ¬ (c = 13 ∨ c = 0)) (text : Bytes) :
    clipPlain (c :: text) = c :: clipPlain text := by
  unfold clipPlain
  rw [List.filter_cons_of_pos]
  simp only [decide_eq_true_eq]
  tauto

/-- The second pass, behind what it has written. -/
theorem clipWrite_from (text target : Bytes) :
    text.foldl (fun target c => if c = 13 ∨ c = 0 then target else (if c = 10 then target ++ [13] else target) ++ [c]) target =
      target ++ (clipPlain text).flatMap clipLine := by
  induction text generalizing target with
  | nil => simp [clipPlain]
  | cons c text ih =>
    rw [List.foldl_cons]
    by_cases h : c = 13 ∨ c = 0
    · rw [if_pos h, ih, clipPlain_cons_skip h]
    · rw [if_neg h, ih, clipPlain_cons_keep h, List.flatMap_cons, ← List.append_assoc]
      congr 1
      unfold clipLine
      split
      · rename_i hline
        rw [hline]
        simp
      · rfl

theorem clipWrite_eq (text : Bytes) : clipWrite text = (clipPlain text).flatMap clipLine ++ [0] := by
  unfold clipWrite
  rw [clipWrite_from, List.nil_append]

/-- **Line feeds as CRLF**: the lines of the text, with CRLF between them. -/
theorem flatMap_clipLine (text : Bytes) : text.flatMap clipLine = [13, 10].intercalate (text.splitOn 10) := by
  induction text with
  | nil => rfl
  | cons c text ih =>
    rw [List.flatMap_cons, ih, List.splitOn_cons_eq_if_modifyHead]
    by_cases hc : c = 10
    · rw [if_pos (beq_iff_eq.2 hc), List.intercalate_cons_of_ne_nil (List.splitOn_ne_nil 10 text), clipLine, if_pos hc]
      rfl
    · obtain ⟨line, lines, hlines⟩ := List.exists_cons_of_ne_nil (List.splitOn_ne_nil 10 text)
      rw [if_neg fun h => hc (beq_iff_eq.1 h), hlines, List.modifyHead_cons, List.intercalate_cons_cons_left, clipLine, if_neg hc]
      rfl

/-- The first pass, behind what it has counted. -/
theorem clipSize_from (text : Bytes) (size : UInt32) :
    text.foldl (fun size c => if c = 13 ∨ c = 0 then size else size + if c = 10 then 2 else 1) size =
      size + UInt32.ofNat ((clipPlain text).flatMap clipLine).length := by
  induction text generalizing size with
  | nil => simp [clipPlain]
  | cons c text ih =>
    rw [List.foldl_cons]
    by_cases h : c = 13 ∨ c = 0
    · rw [if_pos h, ih, clipPlain_cons_skip h]
    · rw [if_neg h, ih, clipPlain_cons_keep h, List.flatMap_cons, List.length_append, UInt32.ofNat_add, UInt32.add_assoc]
      congr 2
      unfold clipLine
      split
      · rfl
      · rfl

theorem clipPlain_length (text : Bytes) : (clipPlain text).length ≤ text.length := List.length_filter_le _ _

theorem clipLines_length (text : Bytes) : (text.flatMap clipLine).length ≤ 2 * text.length := by
  induction text with
  | nil => exact le_rfl
  | cons c text ih =>
    have hline : (clipLine c).length ≤ 2 := by
      unfold clipLine
      split
      · simp
      · simp
    rw [List.flatMap_cons, List.length_append, List.length_cons]
    omega

/-- **What is allocated is what is written**, for a text the agent takes. -/
theorem clipSize_toNat {text : Bytes} (h : text.length ≤ clipMax) : (clipSize text).toNat = (clipWrite text).length := by
  have hlines := clipLines_length (clipPlain text)
  have hplain := clipPlain_length text
  have hone : (1 : UInt32).toNat = 1 := rfl
  unfold clipMax at h
  unfold clipSize
  rw [clipSize_from, clipWrite_eq, UInt32.toNat_add, hone, UInt32.toNat_ofNat', List.length_append, List.length_singleton]
  omega

/-- The loop of a look, behind what it has copied. -/
theorem clipCopy_from (memory out : Bytes) (h : out.length ≤ clipMax) :
    clipCopy memory out = out ++ ((cstr memory).filter (· ≠ 13)).take (clipMax - out.length) := by
  induction memory generalizing out with
  | nil => simp [clipCopy, cstr]
  | cons c memory ih =>
    unfold clipCopy
    split
    · rename_i hc
      obtain ⟨hnul, hroom⟩ := hc
      have hcstr : cstr (c :: memory) = c :: cstr memory := List.takeWhile_cons_of_pos (decide_eq_true hnul)
      rw [hcstr]
      by_cases hcr : c = 13
      · rw [if_neg (not_not.2 hcr), ih out h, List.filter_cons_of_neg (by simp [hcr])]
      · rw [if_pos hcr, ih _ (by simp; omega), List.filter_cons_of_pos (by simp [hcr]), List.append_assoc]
        congr 1
        obtain ⟨left, hleft⟩ : ∃ left, clipMax - out.length = left + 1 := ⟨clipMax - out.length - 1, by omega⟩
        have hnext : clipMax - (out ++ [c]).length = left := by
          rw [List.length_append, List.length_singleton]
          omega
        rw [hnext, hleft, List.take_succ_cons]
        rfl
    · -- the loop ends at the NUL, or with the buffer
      rename_i hc
      by_cases hnul : c = 0
      · have hcstr : cstr (c :: memory) = [] := List.takeWhile_cons_of_neg (by simp [hnul])
        rw [hcstr]
        simp
      · have hfull : clipMax - out.length = 0 := by
          have hroom : ¬ out.length < clipMax := fun hroom => hc ⟨hnul, hroom⟩
          omega
        rw [hfull, List.take_zero, List.append_nil]

/-- **What a look reads**: the text up to its NUL, without its CRs, as far as there is room. -/
theorem clipCopy_eq (memory : Bytes) : clipCopy memory [] = ((cstr memory).filter (· ≠ 13)).take clipMax := by
  rw [clipCopy_from memory [] (Nat.zero_le _), List.nil_append, List.length_nil, Nat.sub_zero]

/-- **What was put there reads back**, without its CRs and NULs. -/
theorem clipCopy_write {text : Bytes} (h : text.length ≤ clipMax) (slack : Bytes) :
    clipCopy (clipWrite text ++ slack) [] = clipPlain text := by
  have hzero : 0 ∉ (clipPlain text).flatMap clipLine := by
    intro hmem
    obtain ⟨c, hc, hline⟩ := List.mem_flatMap.1 hmem
    have hne : c ≠ 0 := (of_decide_eq_true (List.mem_filter.1 hc).2).2
    unfold clipLine at hline
    split at hline
    · revert hline
      decide
    · exact hne (List.mem_singleton.1 hline).symm
  have hcstr : cstr (clipWrite text ++ slack) = (clipPlain text).flatMap clipLine := by
    rw [clipWrite_eq, List.append_assoc]
    exact cstr_append hzero slack
  have hback : ((clipPlain text).flatMap clipLine).filter (· ≠ 13) = clipPlain text := by
    have heach : ∀ c ∈ clipPlain text, (clipLine c).filter (· ≠ 13) = [c] := by
      intro c hc
      have hcr : c ≠ 13 := (of_decide_eq_true (List.mem_filter.1 hc).2).1
      unfold clipLine
      split
      · rename_i hline
        rw [hline]
        rfl
      · simp [hcr]
    rw [List.filter_flatMap, List.flatMap_congr heach, List.flatMap_singleton']
  rw [clipCopy_eq, hcstr, hback]
  exact List.take_of_length_le (le_trans (clipPlain_length text) h)

/-- The digest leaves CRs and NULs out. -/
theorem clipDigest_plain (text : Bytes) : clipDigest (clipPlain text) = clipDigest text := by
  unfold clipDigest
  generalize (2166136261 : UInt32) = hash
  induction text generalizing hash with
  | nil => rfl
  | cons c text ih =>
    by_cases h : c = 13 ∨ c = 0
    · rw [clipPlain_cons_skip h, List.foldl_cons, if_pos h]
      exact ih hash
    · rw [clipPlain_cons_keep h, List.foldl_cons, List.foldl_cons]
      exact ih _

/-! ## A look -/

namespace VncClip

variable {s s' : VncClip} {look : ClipLook} {text : Bytes}

@[simp] theorem change_outgoing (memory : Option Bytes) (s : VncClip) : (s.change memory).outgoing = s.outgoing := rfl
@[simp] theorem change_primed (memory : Option Bytes) (s : VncClip) : (s.change memory).primed = s.primed := rfl
@[simp] theorem change_hash (memory : Option Bytes) (s : VncClip) : (s.change memory).hash = s.hash := rfl

theorem takeReset_clipboard (s : VncClip) : s.takeReset.clipboard = s.clipboard := by
  unfold takeReset
  split
  · rfl
  · rfl

theorem takeReset_outgoing (s : VncClip) : s.takeReset.outgoing = s.outgoing := by
  unfold takeReset
  split
  · rfl
  · rfl

theorem takeReset_hash (s : VncClip) : s.takeReset.hash = s.hash := by
  unfold takeReset
  split
  · rfl
  · rfl

theorem takeReset_primed (h : s.takeReset.primed = true) : s.primed = true := by
  unfold takeReset at h
  split at h
  · cases h
  · exact h

@[simp] theorem found_clipboard (text : Bytes) (s : VncClip) : (s.found text).clipboard = s.clipboard := by
  unfold found
  dsimp only
  split
  · rfl
  split
  · rfl
  split
  · rfl
  · rfl

/-- What was found last is what the hash is of. -/
theorem found_hash (text : Bytes) (s : VncClip) : (s.found text).hash = clipDigest text := by
  unfold found
  dsimp only
  split
  · rfl
  split
  · rename_i hsame
    exact hsame.symm
  split
  · rfl
  · rfl

/-- A text is queued where it is new. -/
theorem found_outgoing {queued : Bytes} (hnone : s.outgoing = none) (h : (s.found text).outgoing = some queued) :
    queued = text ∧ text ≠ [] ∧ s.primed = true ∧ clipDigest text ≠ s.hash := by
  unfold found at h
  dsimp only at h
  split at h
  · rw [hnone] at h
    cases h
  · rename_i hprimed
    split at h
    · rw [hnone] at h
      cases h
    · rename_i hnew
      split at h
      · rw [hnone] at h
        cases h
      · rename_i hsome
        have hprimed' : s.primed = true := by simpa using hprimed
        exact ⟨(Option.some.inj h).symm, fun hnil => hsome (by rw [hnil]; rfl), hprimed', hnew⟩

/-- The poll comes to open the clipboard, for CF_TEXT is there. -/
def looks (look : ClipLook) (s : VncClip) : Bool :=
  !(s.takeReset.primed && look.tick - s.takeReset.polled < clipPollMs) && s.outgoing.isNone && s.clipboard.isSome

/-- The state when it does. -/
def atLook (look : ClipLook) (s : VncClip) : VncClip :=
  let s := { s.takeReset with polled := look.polledTick }
  match look.change with
  | some memory => s.change memory
  | none => s

/-- **What a poll does**: nothing, or it finds no text, or it opens the clipboard and reads, or
fails to open it. -/
theorem pollOut_cases (look : ClipLook) (s : VncClip) :
    (s.looks look = false ∧ ∃ polled, s.pollOut look = { s.takeReset with polled }) ∨
      (s.outgoing = none ∧ s.clipboard = none ∧
        s.pollOut look = VncClip.found [] { s.takeReset with polled := look.polledTick }) ∨
      (s.looks look = true ∧ look.opened = false ∧ s.pollOut look = s.atLook look) ∨
      (s.looks look = true ∧ look.opened = true ∧
        s.pollOut look = (s.atLook look).found ((s.atLook look).readText look)) := by
  have hclipboard := takeReset_clipboard s
  have houtgoing := takeReset_outgoing s
  unfold pollOut looks atLook
  dsimp only
  split
  · rename_i hearly
    refine Or.inl ⟨?_, _, rfl⟩
    rw [hearly]
    rfl
  · rename_i hdue
    split
    · rename_i hqueued
      refine Or.inl ⟨?_, _, rfl⟩
      rw [houtgoing, Option.isSome_iff_ne_none] at hqueued
      rw [Option.isNone_eq_false_iff.2 (Option.isSome_iff_ne_none.2 hqueued), Bool.and_false, Bool.false_and]
    · rename_i hfree
      have hnone : s.outgoing = none := by
        rw [houtgoing] at hfree
        exact Option.not_isSome_iff_eq_none.1 hfree
      split
      · rename_i hempty
        rw [hclipboard] at hempty
        exact Or.inr (Or.inl ⟨hnone, Option.isNone_iff_eq_none.1 hempty, rfl⟩)
      · rename_i htext
        rw [hclipboard] at htext
        have hlooks : (!(s.takeReset.primed && decide (look.tick - s.takeReset.polled < clipPollMs)) && s.outgoing.isNone &&
            s.clipboard.isSome) = true := by
          rw [Bool.eq_false_iff.2 hdue, hnone]
          simpa [Option.isSome_iff_ne_none] using htext
        cases hopened : look.opened with
        | false => exact Or.inr (Or.inr (Or.inl ⟨hlooks, rfl, rfl⟩))
        | true => exact Or.inr (Or.inr (Or.inr ⟨hlooks, rfl, rfl⟩))

theorem pollOut_looks (hlooks : s.looks look = true) (hopened : look.opened = true) :
    s.pollOut look = (s.atLook look).found ((s.atLook look).readText look) := by
  obtain ⟨hnot, -⟩ | ⟨-, hnone, -⟩ | ⟨-, hclosed, -⟩ | ⟨-, -, heq⟩ := pollOut_cases look s
  · rw [hlooks] at hnot
    cases hnot
  · -- an empty clipboard is not opened
    unfold looks at hlooks
    rw [hnone] at hlooks
    simp at hlooks
  · rw [hopened] at hclosed
    cases hclosed
  · exact heq

theorem atLook_outgoing (look : ClipLook) (s : VncClip) : (s.atLook look).outgoing = s.outgoing := by
  unfold atLook
  dsimp only
  split
  · exact takeReset_outgoing s
  · exact takeReset_outgoing s

theorem atLook_hash (look : ClipLook) (s : VncClip) : (s.atLook look).hash = s.hash := by
  unfold atLook
  dsimp only
  split
  · exact takeReset_hash s
  · exact takeReset_hash s

theorem atLook_primed {look : ClipLook} (h : (s.atLook look).primed = true) : s.primed = true := by
  unfold atLook at h
  dsimp only at h
  split at h
  · exact takeReset_primed h
  · exact takeReset_primed h

/-- What another program changed just before is its own. -/
theorem atLook_clipboard (look : ClipLook) (s : VncClip) :
    (look.change = none ∧ (s.atLook look).clipboard = s.clipboard) ∨ ∀ c ∈ (s.atLook look).clipboard, c.viewer = none := by
  unfold atLook
  dsimp only
  split
  · rename_i memory hchange
    refine Or.inr ?_
    intro c hc
    obtain ⟨block, -, rfl⟩ := Option.map_eq_some_iff.1 hc
    rfl
  · rename_i hchange
    exact Or.inl ⟨hchange, takeReset_clipboard s⟩

/-- **What `vnc_clip_apply_in` does**: nothing, or it drops the text, or it sets the clipboard. -/
theorem applyIn_cases (r : ClipSetting) (s : VncClip) :
    s.applyIn r = s ∨ s.applyIn r = { s with incoming := none } ∨
      ∃ text, s.incoming = some text ∧ s.applyIn r =
        { s with
          clipboard := if r.set then some ⟨clipWrite text ++ r.slack, some text⟩ else none
          hash := clipDigest text
          primed := true
          incoming := none } := by
  unfold applyIn
  split
  · exact Or.inl rfl
  · rename_i text hincoming
    split
    · exact Or.inr (Or.inl rfl)
    · exact Or.inr (Or.inr ⟨text, hincoming, rfl⟩)

theorem pollOut_texts (look : ClipLook) (s : VncClip) :
    (s.pollOut look).recv = s.recv ∧ (s.pollOut look).incoming = s.incoming := by
  have hreset : s.takeReset.recv = s.recv ∧ s.takeReset.incoming = s.incoming := by
    unfold takeReset
    split
    · exact ⟨rfl, rfl⟩
    · exact ⟨rfl, rfl⟩
  have hfound : ∀ (text : Bytes) (t : VncClip), (t.found text).recv = t.recv ∧ (t.found text).incoming = t.incoming := by
    intro text t
    unfold found
    dsimp only
    split
    · exact ⟨rfl, rfl⟩
    split
    · exact ⟨rfl, rfl⟩
    split
    · exact ⟨rfl, rfl⟩
    · exact ⟨rfl, rfl⟩
  have hlook : (s.atLook look).recv = s.recv ∧ (s.atLook look).incoming = s.incoming := by
    unfold atLook
    dsimp only
    split
    · exact hreset
    · exact hreset
  obtain ⟨-, polled, heq⟩ | ⟨-, -, heq⟩ | ⟨-, -, heq⟩ | ⟨-, -, heq⟩ := pollOut_cases look s
  · rw [heq]
    exact hreset
  · rw [heq, (hfound _ _).1, (hfound _ _).2]
    exact hreset
  · rw [heq]
    exact hlook
  · rw [heq, (hfound _ _).1, (hfound _ _).2]
    exact hlook

/-- The clipboard is as it was, or another program's. -/
theorem pollOut_clipboard (look : ClipLook) (s : VncClip) :
    (s.pollOut look).clipboard = s.clipboard ∨ ∀ c ∈ (s.pollOut look).clipboard, c.viewer = none := by
  obtain ⟨-, polled, heq⟩ | ⟨-, -, heq⟩ | ⟨-, -, heq⟩ | ⟨-, -, heq⟩ := pollOut_cases look s
  · rw [heq]
    exact Or.inl (takeReset_clipboard s)
  · rw [heq, found_clipboard]
    exact Or.inl (takeReset_clipboard s)
  · rw [heq]
    exact (atLook_clipboard look s).imp And.right id
  · rw [heq, found_clipboard]
    exact (atLook_clipboard look s).imp And.right id

end VncClip

/-! ## The run -/

/-- The texts that are kept are no longer than a buffer, and the viewer's text is on the
clipboard as `vnc_clip_apply_in` wrote it. -/
structure ClipSound (s : VncClip) : Prop where
  recv : ∀ text ∈ s.recv, text.length ≤ clipMax
  incoming : ∀ text ∈ s.incoming, text.length ≤ clipMax
  viewer : ∀ c ∈ s.clipboard, ∀ text ∈ c.viewer, text.length ≤ clipMax ∧ ∃ slack, c.memory = clipWrite text ++ slack

/-- **The hash is that of the viewer's text**, once the clipboard has been looked at. -/
def HashKept (s : VncClip) : Prop :=
  s.primed = true → ∀ c ∈ s.clipboard, ∀ text ∈ c.viewer, s.hash = clipDigest text

/-- The viewer's text, while the clipboard holds it. -/
def VncClip.viewerText (s : VncClip) : Option Bytes := s.clipboard.bind (·.viewer)

/-- A poll that opens the clipboard while that holds a text of the viewer's reads it: neither
`GetClipboardData` nor `GlobalLock` fails. -/
def ReadsViewer (s : VncClip) : ClipEvent → Prop
  | .poll look => s.looks look = true → look.opened = true → look.change = none →
      ∀ text ∈ s.viewerText, clipPlain text ≠ [] → look.data = true ∧ look.locked = true
  | _ => True

instance (s : VncClip) (e : ClipEvent) : Decidable (ReadsViewer s e) := by
  cases e <;> unfold ReadsViewer <;> infer_instance

variable {s s' : VncClip} {e : ClipEvent} {look : ClipLook}

theorem clipSound_change (h : ClipSound s) (memory : Option Bytes) : ClipSound (s.change memory) := by
  refine ⟨h.recv, h.incoming, ?_⟩
  intro c hc text htext
  obtain ⟨block, -, rfl⟩ := Option.map_eq_some_iff.1 hc
  cases htext

theorem clipSound_apply (h : ClipSound s) (r : ClipSetting) : ClipSound (s.applyIn r) := by
  have hnone : ∀ t ∈ (none : Option Bytes), t.length ≤ clipMax := by
    intro t ht
    cases ht
  obtain heq | heq | ⟨text, hincoming, heq⟩ := VncClip.applyIn_cases r s
  · rw [heq]
    exact h
  · rw [heq]
    exact ⟨h.recv, hnone, h.viewer⟩
  · rw [heq]
    refine ⟨h.recv, hnone, ?_⟩
    intro c hc t ht
    dsimp only at hc
    split at hc
    · obtain rfl := Option.some.inj hc
      obtain rfl : text = t := Option.some.inj ht
      exact ⟨h.incoming text hincoming, r.slack, rfl⟩
    · cases hc

theorem clipSound_poll (h : ClipSound s) (look : ClipLook) : ClipSound (s.pollOut look) := by
  obtain ⟨hrecv, hincoming⟩ := VncClip.pollOut_texts look s
  refine ⟨?_, ?_, ?_⟩
  · rw [hrecv]
    exact h.recv
  · rw [hincoming]
    exact h.incoming
  · rcases VncClip.pollOut_clipboard look s with hsame | hother
    · rw [hsame]
      exact h.viewer
    · intro c hc text htext
      rw [hother c hc] at htext
      cases htext

/-- What the network thread's events do: texts come and are handed over, and nothing is queued. -/
structure NetworkTurn (s s' : VncClip) : Prop where
  clipboard : s'.clipboard = s.clipboard
  hash : s'.hash = s.hash
  primed : s'.primed = s.primed
  outgoing : s'.outgoing = s.outgoing ∨ s'.outgoing = none
  recv : ∀ text ∈ s'.recv, text ∈ s.recv ∨ text.length ≤ clipMax
  incoming : ∀ text ∈ s'.incoming, text ∈ s.incoming ∨ text ∈ s.recv

theorem clipStep_cases (hstep : clipStep s e = some s') :
    (∃ r, e = .apply r ∧ s' = { s.applyIn r with applied := true }) ∨
      (∃ look, e = .poll look ∧ s' = { s.pollOut look with applied := false }) ∨
      (∃ memory, e = .guest memory ∧ s' = s.change memory) ∨ NetworkTurn s s' := by
  have hnone : ∀ text ∈ (none : Option Bytes), text ∈ s.recv ∨ text.length ≤ clipMax := by
    intro text htext
    cases htext
  unfold clipStep at hstep
  split at hstep
  · -- sessionStart
    split at hstep
    · cases hstep
    · obtain rfl := Option.some.inj hstep
      exact Or.inr (Or.inr (Or.inr ⟨rfl, rfl, rfl, Or.inr rfl, hnone, fun _ => Or.inl⟩))
  · -- sessionEnd
    split at hstep
    · obtain rfl := Option.some.inj hstep
      exact Or.inr (Or.inr (Or.inr ⟨rfl, rfl, rfl, Or.inl rfl, fun _ => Or.inl, fun _ => Or.inl⟩))
    · cases hstep
  · -- cutText
    rename_i text
    split at hstep
    · cases hstep
    split at hstep
    · obtain rfl := Option.some.inj hstep
      exact Or.inr (Or.inr (Or.inr ⟨rfl, rfl, rfl, Or.inl rfl, fun _ => Or.inl, fun _ => Or.inl⟩))
    split at hstep
    · obtain rfl := Option.some.inj hstep
      exact Or.inr (Or.inr (Or.inr ⟨rfl, rfl, rfl, Or.inl rfl, fun _ => Or.inl, fun _ => Or.inl⟩))
    · rename_i hlength
      obtain rfl := Option.some.inj hstep
      refine Or.inr (Or.inr (Or.inr ⟨rfl, rfl, rfl, Or.inl rfl, ?_, fun _ => Or.inl⟩))
      intro t ht
      obtain rfl : text = t := Option.some.inj ht
      exact Or.inr (not_lt.1 hlength)
  · -- handOver
    split at hstep
    · cases hstep
    split at hstep
    · obtain rfl := Option.some.inj hstep
      exact Or.inr (Or.inr (Or.inr ⟨rfl, rfl, rfl, Or.inl rfl, fun _ => Or.inl, fun _ => Or.inl⟩))
    · obtain rfl := Option.some.inj hstep
      exact Or.inr (Or.inr (Or.inr ⟨rfl, rfl, rfl, Or.inl rfl, hnone, fun _ => Or.inr⟩))
  · -- sent
    split at hstep
    · obtain rfl := Option.some.inj hstep
      exact Or.inr (Or.inr (Or.inr ⟨rfl, rfl, rfl, Or.inr rfl, fun _ => Or.inl, fun _ => Or.inl⟩))
    · cases hstep
  · -- guest
    rename_i memory
    exact Or.inr (Or.inr (Or.inl ⟨memory, rfl, (Option.some.inj hstep).symm⟩))
  · -- apply
    rename_i r
    split at hstep
    · exact Or.inl ⟨r, rfl, (Option.some.inj hstep).symm⟩
    · cases hstep
  · -- poll
    rename_i look
    split at hstep
    · exact Or.inr (Or.inl ⟨look, rfl, (Option.some.inj hstep).symm⟩)
    · cases hstep

theorem clipSound_step (h : ClipSound s) (hstep : clipStep s e = some s') : ClipSound s' := by
  obtain ⟨r, rfl, rfl⟩ | ⟨look, rfl, rfl⟩ | ⟨memory, rfl, rfl⟩ | hturn := clipStep_cases hstep
  · have happly := clipSound_apply h r
    exact ⟨happly.recv, happly.incoming, happly.viewer⟩
  · have hpoll := clipSound_poll h look
    exact ⟨hpoll.recv, hpoll.incoming, hpoll.viewer⟩
  · exact clipSound_change h memory
  · refine ⟨?_, ?_, ?_⟩
    · intro text htext
      exact (hturn.recv text htext).elim (h.recv text) id
    · intro text htext
      exact (hturn.incoming text htext).elim (h.incoming text) (h.recv text)
    · rw [hturn.clipboard]
      exact h.viewer

/-! ## Echo -/

/-- A look at the viewer's text, where it is read, finds the digest of that text. -/
theorem readText_viewer {c : ClipText} (hc : s.clipboard = some c) {text slack : Bytes} (hlength : text.length ≤ clipMax)
    (hmemory : c.memory = clipWrite text ++ slack) (hread : clipPlain text ≠ [] → look.data = true ∧ look.locked = true) :
    clipDigest (s.readText look) = clipDigest text := by
  unfold VncClip.readText
  rw [hc]
  dsimp only
  by_cases hnil : clipPlain text = []
  · -- an empty text: read or not, nothing is found
    have hempty : (if (look.data && look.locked) = true then clipCopy c.memory [] else []) = clipPlain text := by
      split
      · rw [hmemory]
        exact clipCopy_write hlength slack
      · exact hnil.symm
    rw [hempty]
    exact clipDigest_plain text
  · obtain ⟨hdata, hlocked⟩ := hread hnil
    rw [hdata, hlocked, Bool.and_self, if_pos rfl, hmemory, clipCopy_write hlength slack]
    exact clipDigest_plain text

/-- What the open clipboard holds of the viewer, it held before the poll. -/
theorem atLook_viewer {c : ClipText} (hc : (s.atLook look).clipboard = some c) {text : Bytes} (htext : c.viewer = some text) :
    look.change = none ∧ s.clipboard = some c := by
  rcases VncClip.atLook_clipboard look s with ⟨hchange, hsame⟩ | hother
  · exact ⟨hchange, hsame ▸ hc⟩
  · have hnone := hother c hc
    rw [htext] at hnone
    cases hnone

/-- A look that reads the viewer's text finds what the hash is of. -/
theorem look_viewer (hsound : ClipSound s) (hread : ReadsViewer s (.poll look)) (hlooks : s.looks look = true)
    (hopened : look.opened = true) {c : ClipText} (hc : (s.atLook look).clipboard = some c) {text : Bytes}
    (htext : c.viewer = some text) : clipDigest ((s.atLook look).readText look) = clipDigest text := by
  obtain ⟨hchange, hbefore⟩ := atLook_viewer hc htext
  obtain ⟨hlength, slack, hmemory⟩ := hsound.viewer c hbefore text htext
  have hviewer : text ∈ s.viewerText := by
    unfold VncClip.viewerText
    rw [hbefore]
    exact htext
  exact readText_viewer hc hlength hmemory (hread hlooks hopened hchange text hviewer)

/-- **The hash stays that of the viewer's text**, as long as looks at it can read it. -/
theorem hashKept_step (hsound : ClipSound s) (h : HashKept s) (hread : ReadsViewer s e) (hstep : clipStep s e = some s') :
    HashKept s' := by
  obtain ⟨r, rfl, rfl⟩ | ⟨look, rfl, rfl⟩ | ⟨memory, rfl, rfl⟩ | hturn := clipStep_cases hstep
  · intro hprimed c hc text htext
    dsimp only at hprimed hc ⊢
    obtain heq | heq | ⟨viewer, -, heq⟩ := VncClip.applyIn_cases r s
    · rw [heq] at hprimed hc ⊢
      exact h hprimed c hc text htext
    · rw [heq] at hprimed hc ⊢
      exact h hprimed c hc text htext
    · rw [heq] at hc ⊢
      dsimp only at hc ⊢
      split at hc
      · obtain rfl := Option.some.inj hc
        rw [← Option.some.inj htext]
      · cases hc
  · intro hprimed c hc text htext
    dsimp only at hprimed hc ⊢
    obtain ⟨-, polled, heq⟩ | ⟨-, hempty, heq⟩ | ⟨-, -, heq⟩ | ⟨hlooks, hopened, heq⟩ := VncClip.pollOut_cases look s
    · rw [heq] at hprimed hc ⊢
      dsimp only at hprimed hc ⊢
      rw [VncClip.takeReset_clipboard] at hc
      rw [VncClip.takeReset_hash]
      exact h (VncClip.takeReset_primed hprimed) c hc text htext
    · -- no text is there that the hash could be of
      rw [heq, VncClip.found_clipboard] at hc
      dsimp only at hc
      rw [VncClip.takeReset_clipboard, hempty] at hc
      cases hc
    · rw [heq] at hprimed hc ⊢
      rw [VncClip.atLook_hash]
      exact h (VncClip.atLook_primed hprimed) c (atLook_viewer hc htext).2 text htext
    · rw [heq, VncClip.found_clipboard] at hc
      rw [heq, VncClip.found_hash]
      exact look_viewer hsound hread hlooks hopened hc htext
  · intro _ c hc text htext
    obtain ⟨block, -, rfl⟩ := Option.map_eq_some_iff.1 hc
    cases htext
  · intro hprimed c hc text htext
    rw [hturn.primed] at hprimed
    rw [hturn.clipboard] at hc
    rw [hturn.hash]
    exact h hprimed c hc text htext

/-- **What is queued** was read of the open clipboard, and is not the viewer's. -/
theorem queued_step (hstep : clipStep s e = some s') (hnone : s.outgoing = none) {text : Bytes}
    (hqueued : s'.outgoing = some text) : ∃ c, s'.clipboard = some c ∧ text = clipCopy c.memory [] ∧
      (ClipSound s → HashKept s → ReadsViewer s e → c.viewer = none) := by
  obtain ⟨r, rfl, rfl⟩ | ⟨look, rfl, rfl⟩ | ⟨memory, rfl, rfl⟩ | hturn := clipStep_cases hstep
  · have hsame : (s.applyIn r).outgoing = s.outgoing := by
      obtain heq | heq | ⟨_, -, heq⟩ := VncClip.applyIn_cases r s
      · rw [heq]
      · rw [heq]
      · rw [heq]
    dsimp only at hqueued
    rw [hsame, hnone] at hqueued
    cases hqueued
  · dsimp only at hqueued ⊢
    obtain ⟨-, polled, heq⟩ | ⟨-, -, heq⟩ | ⟨-, -, heq⟩ | ⟨hlooks, hopened, heq⟩ := VncClip.pollOut_cases look s
    · rw [heq] at hqueued
      dsimp only at hqueued
      rw [VncClip.takeReset_outgoing, hnone] at hqueued
      cases hqueued
    · rw [heq] at hqueued
      have hfree : VncClip.outgoing { s.takeReset with polled := look.polledTick } = none :=
        (VncClip.takeReset_outgoing s).trans hnone
      exact absurd rfl (VncClip.found_outgoing hfree hqueued).2.1
    · rw [heq, VncClip.atLook_outgoing, hnone] at hqueued
      cases hqueued
    · rw [heq] at hqueued ⊢
      have hfree : (s.atLook look).outgoing = none := (VncClip.atLook_outgoing look s).trans hnone
      obtain ⟨rfl, hsome, hprimed, hnew⟩ := VncClip.found_outgoing hfree hqueued
      rw [VncClip.found_clipboard]
      cases hc : (s.atLook look).clipboard with
      | none =>
        -- another program has emptied the clipboard before it was opened
        refine absurd ?_ hsome
        unfold VncClip.readText
        rw [hc]
      | some c =>
        refine ⟨c, rfl, ?_, ?_⟩
        · unfold VncClip.readText at hsome ⊢
          rw [hc] at hsome ⊢
          dsimp only at hsome ⊢
          split
          · rfl
          · -- a text that is not read is taken for empty, and is not queued
            rename_i hunread
            rw [if_neg hunread] at hsome
            exact absurd rfl hsome
        · intro hsound hkept hread
          cases htext : c.viewer with
          | none => rfl
          | some viewer =>
            -- the hash is that of this text already
            obtain ⟨-, hbefore⟩ := atLook_viewer hc htext
            rw [VncClip.atLook_hash] at hnew
            have hfound := look_viewer hsound hread hlooks hopened hc htext
            rw [← hkept (VncClip.atLook_primed hprimed) c hbefore viewer htext] at hfound
            exact absurd hfound hnew
  · have hsame : (s.change memory).outgoing = s.outgoing := rfl
    rw [hsame, hnone] at hqueued
    cases hqueued
  · rcases hturn.outgoing with hsame | hempty
    · rw [hsame, hnone] at hqueued
      cases hqueued
    · rw [hempty] at hqueued
      cases hqueued

theorem clipSound_start (memory : Option Bytes) : ClipSound (clipStart memory) := by
  refine ⟨?_, ?_, ?_⟩
  · intro text htext
    cases htext
  · intro text htext
    cases htext
  · intro c hc text htext
    obtain ⟨block, -, rfl⟩ := Option.map_eq_some_iff.1 hc
    cases htext

theorem hashKept_start (memory : Option Bytes) : HashKept (clipStart memory) := by
  intro hprimed
  cases hprimed

/-- **The clipboard exchange**, at any point of any run. A text is queued for the viewer as
CF_TEXT holds it then, without its CRs and no longer than the buffer; and it is not a text that
the viewer put there, where no look at such a text has failed to read it. A text of the
viewer's is written into the block that was allocated for it, to its end, with CRLF between its
lines, and stands on the clipboard where nothing fails. -/
theorem clip_exchange {memory : Option Bytes} {events : List ClipEvent} {e : ClipEvent} {s s' : VncClip}
    (h : exec clipStep (clipStart memory) events = some s) (hstep : clipStep s e = some s') :
    (∀ text, s.outgoing = none → s'.outgoing = some text →
      ∃ c, s'.clipboard = some c ∧ text = ((cstr c.memory).filter (· ≠ 13)).take clipMax ∧ text.length ≤ clipMax ∧
        (Trace.Under clipStep ReadsViewer (clipStart memory) (events ++ [e]) → c.viewer = none)) ∧
    ∀ r text, e = .apply r → s.incoming = some text →
      (clipSize text).toNat = (clipWrite text).length ∧
      clipWrite text = [13, 10].intercalate ((clipPlain text).splitOn 10) ++ [0] ∧
      (r.allocated = true → r.locked = true → r.opened = true → r.set = true →
        s'.clipboard = some ⟨clipWrite text ++ r.slack, some text⟩) := by
  have hsound : ClipSound s := exec_inv (fun _ _ _ => clipSound_step) (clipSound_start memory) h
  constructor
  · intro text hnone hqueued
    obtain ⟨c, hc, htext, hviewer⟩ := queued_step hstep hnone hqueued
    rw [clipCopy_eq] at htext
    refine ⟨c, hc, htext, ?_, ?_⟩
    · rw [htext]
      exact List.length_take_le _ _
    · intro hunder
      have hinit : Trace.Under clipStep ReadsViewer (clipStart memory) events := by
        intro n hn m hm
        have hcond := hunder n (by rw [List.length_append]; omega) m (by rwa [List.take_append_of_le_length (by omega)])
        rwa [List.getElem_append_left hn] at hcond
      -- both invariants together, up to the state before the step
      have hkept : ClipSound s ∧ HashKept s := by
        refine exec_inv_under (I := fun s => ClipSound s ∧ HashKept s) ?_ ⟨clipSound_start memory, hashKept_start memory⟩ hinit h
        intro t a t' ht hcond ht'
        exact ⟨clipSound_step ht.1 ht', hashKept_step ht.1 ht.2 hcond ht'⟩
      exact hviewer hkept.1 hkept.2 (hunder.last h)
  · intro r text he hincoming
    refine ⟨clipSize_toNat (hsound.incoming text hincoming), ?_, ?_⟩
    · rw [clipWrite_eq, flatMap_clipLine]
    · intro hallocated hlocked hopened hset
      subst he
      unfold clipStep at hstep
      dsimp only at hstep
      split at hstep
      · rw [← Option.some.inj hstep]
        unfold VncClip.applyIn
        rw [hincoming]
        dsimp only
        rw [hallocated, hlocked, hopened, hset]
        rfl
      · cases hstep

/-! ## The look that fails -/

theorem found_unread (h : s.primed = true → s.hash ≠ clipDigest []) :
    s.found [] = { s with hash := clipDigest [], primed := true } := by
  unfold VncClip.found
  dsimp only
  split
  · rfl
  · rename_i hprimed
    have hprimed' : s.primed = true := by simpa using hprimed
    rw [if_neg fun hsame => h hprimed' hsame.symm, if_pos List.length_nil, hprimed']

theorem found_new {text : Bytes} (hprimed : s.primed = true) (hnew : clipDigest text ≠ s.hash) (hsome : text ≠ []) :
    (s.found text).outgoing = some text := by
  have hlength : text.length ≠ 0 := mt List.eq_nil_of_length_eq_zero hsome
  unfold VncClip.found
  dsimp only
  rw [hprimed, Bool.not_true, if_neg Bool.false_ne_true, if_neg hnew, if_neg hlength]

/-- **A look that cannot read the viewer's text is followed by its echo**: half a second later,
the text still there, the next look that reads it queues it. -/
theorem failed_read_echoes (hsound : ClipSound s) (hkept : HashKept s) {viewer : Bytes} (hviewer : s.viewerText = some viewer)
    (hdigest : clipDigest viewer ≠ clipDigest []) (hlooks : s.looks look = true) (hopened : look.opened = true)
    (hchange : look.change = none) (hunread : (look.data && look.locked) = false) {next : ClipLook}
    (hlate : ¬ next.tick - look.polledTick < clipPollMs)
    (hnext : next.opened = true ∧ next.change = none ∧ next.data = true ∧ next.locked = true) :
    ((s.pollOut look).pollOut next).outgoing = some (clipPlain viewer) := by
  obtain ⟨c, hc, htext⟩ := Option.bind_eq_some_iff.1 hviewer
  obtain ⟨hlength, slack, hmemory⟩ := hsound.viewer c hc viewer htext
  obtain ⟨hnextOpened, hnextChange, hnextData, hnextLocked⟩ := hnext
  have hfree : s.outgoing = none := by
    unfold VncClip.looks at hlooks
    simp only [Bool.and_eq_true] at hlooks
    exact Option.isNone_iff_eq_none.1 hlooks.1.2
  have hlook : s.atLook look = { s.takeReset with polled := look.polledTick } := by
    unfold VncClip.atLook
    rw [hchange]
  have hclipboard : (s.atLook look).clipboard = some c := by
    rw [hlook]
    exact (VncClip.takeReset_clipboard s).trans hc
  have hfirst : s.pollOut look = { s.atLook look with hash := clipDigest [], primed := true } := by
    have hempty : (s.atLook look).readText look = [] := by
      unfold VncClip.readText
      rw [hclipboard]
      dsimp only
      rw [hunread, if_neg Bool.false_ne_true]
    have hold : (s.atLook look).primed = true → (s.atLook look).hash ≠ clipDigest [] := by
      intro hprimed
      rw [VncClip.atLook_hash, hkept (VncClip.atLook_primed hprimed) c hc viewer htext]
      exact hdigest
    rw [VncClip.pollOut_looks hlooks hopened, hempty, found_unread hold]
  -- the next look finds the text, and the hash of nothing
  have hreset : (s.pollOut look).takeReset = s.pollOut look := by
    have hoff : s.takeReset.reset = false := by
      unfold VncClip.takeReset
      split
      · rfl
      · rename_i hset
        simpa using hset
    have hkeeps : (s.pollOut look).reset = false := by
      rw [hfirst, hlook]
      exact hoff
    unfold VncClip.takeReset
    rw [hkeeps, if_neg Bool.false_ne_true]
  have hagain : (s.pollOut look).clipboard = some c := by
    rw [hfirst]
    exact hclipboard
  have hout : (s.pollOut look).outgoing = none := by
    rw [hfirst]
    exact (VncClip.atLook_outgoing look s).trans hfree
  have hpolled : (s.pollOut look).polled = look.polledTick := by
    rw [hfirst, hlook]
  have hlooksAgain : (s.pollOut look).looks next = true := by
    unfold VncClip.looks
    rw [hreset, hpolled, decide_eq_false hlate, hout, hagain]
    simp
  have hnextLook : (s.pollOut look).atLook next = { s.pollOut look with polled := next.polledTick } := by
    unfold VncClip.atLook
    rw [hnextChange, hreset]
  have hread : ((s.pollOut look).atLook next).readText next = clipPlain viewer := by
    unfold VncClip.readText
    rw [hnextLook]
    dsimp only
    rw [hagain]
    dsimp only
    rw [hnextData, hnextLocked, Bool.and_self, if_pos rfl, hmemory, clipCopy_write hlength slack]
  have hsome : clipPlain viewer ≠ [] := by
    intro hnil
    apply hdigest
    rw [← clipDigest_plain viewer, hnil]
  rw [VncClip.pollOut_looks hlooksAgain hnextOpened, hread]
  refine found_new ?_ ?_ hsome
  · rw [hnextLook, hfirst]
  · rw [hnextLook, hfirst, clipDigest_plain]
    exact hdigest

/-- What nothing fails of. -/
def clipSet : ClipSetting := ⟨true, true, true, true, []⟩

/-- A look `tick` milliseconds in, at a clipboard that can be opened; `data`: whether
`GetClipboardData` succeeds. -/
def lookAt (tick : UInt32) (data : Bool) : ClipEvent := .poll ⟨tick, tick, none, true, data, true⟩

/-- A session takes a text of the viewer's, looks at it, and reads it or not. -/
def viewerRun (data : Bool) : List ClipEvent :=
  [.sessionStart, .apply clipSet, lookAt 0 true, .cutText (ascii "hi"), .handOver, .apply clipSet, lookAt 500 data, .apply clipSet]

/-- **The echo**: the viewer's text is queued for it, behind one look that could not read it. -/
theorem clip_echoes : ∃ s s', exec clipStep (clipStart none) (viewerRun false) = some s ∧
    clipStep s (lookAt 1000 true) = some s' ∧ s.outgoing = none ∧ s'.outgoing = some (ascii "hi") ∧ s'.viewerText = some (ascii "hi") := by
  refine ⟨_, _, rfl, rfl, ?_⟩
  decide

/-- Another program's text is queued, where the viewer's was read before. -/
theorem clip_exchange_guest : ∃ s s', exec clipStep (clipStart none) (viewerRun true ++ [.guest (some (ascii "ab"))]) = some s ∧
    clipStep s (lookAt 1000 true) = some s' ∧ s'.outgoing = some (ascii "ab") ∧ ∃ c, s'.clipboard = some c ∧ c.viewer = none := by
  have hrun : (exec clipStep (clipStart none) (viewerRun true ++ [.guest (some (ascii "ab"))])).bind
      (fun s => (clipStep s (lookAt 1000 true)).map fun s' => (s.outgoing, s'.outgoing)) = some (none, some (ascii "ab")) := by
    decide
  obtain ⟨s, hs, hlast⟩ := Option.bind_eq_some_iff.1 hrun
  obtain ⟨s', hs', hout⟩ := Option.map_eq_some_iff.1 hlast
  obtain ⟨hnone, hqueued⟩ := Prod.mk.inj hout
  obtain ⟨c, hc, -, -, hviewer⟩ := (clip_exchange hs hs').1 _ hnone hqueued
  refine ⟨s, s', hs, hs', hqueued, c, hc, hviewer ?_⟩
  decide

end V9xRemote
