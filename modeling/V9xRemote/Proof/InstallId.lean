import V9xRemote.Lib.Persist
import V9xRemote.Spec.DosConfig
import V9xRemote.Proof.RelayText

/-!
# The install id

What `v9x_id_finish` writes is a version 4 UUID, whatever was mixed in. On DOS the id that a
start stores is found by the starts behind it, unless AGENT.INI ended for its readers before
the place where it was stored.
-/

namespace V9xRemote

open Bytes Pieces

/-! ## The text of an id -/

/-- A version 4 UUID in lowercase: groups of 8, 4, 4, 4 and 12 hex digits joined by `-`, the
third starting with the version and the fourth with a digit of the variant. -/
def UuidV4 (text : Bytes) : Prop :=
  ∃ a b c d e : Bytes, text = a ++ 45 :: (b ++ 45 :: (c ++ 45 :: (d ++ 45 :: e))) ∧
    a.length = 8 ∧ b.length = 4 ∧ c.length = 4 ∧ d.length = 4 ∧ e.length = 12 ∧
    c.head? = some 52 ∧ (∃ v ∈ ascii "89ab", d.head? = some v) ∧
    ∀ x ∈ a ++ b ++ c ++ d ++ e, relayIsLowerHex x = true

/-- The version nibble and the variant bits, over all bytes. -/
theorem stamps_all : (List.range 256).all fun n =>
    (((UInt8.ofNat n &&& 0x0f) ||| 0x40) >>> 4 == 4) &&
      (ascii "89ab").contains (relayHexDigits.at' (((UInt8.ofNat n &&& 0x3f) ||| 0x80) >>> 4).toNat) := by
  decide +kernel

theorem version_stamp (b : UInt8) : ((b &&& 0x0f) ||| 0x40) >>> 4 = 4 := by
  have hb := List.all_eq_true.1 stamps_all b.toNat (List.mem_range.2 b.toNat_lt)
  rw [UInt8.ofNat_toNat, Bool.and_eq_true, beq_iff_eq] at hb
  exact hb.1

theorem variant_stamp (b : UInt8) :
    relayHexDigits.at' (((b &&& 0x3f) ||| 0x80) >>> 4).toNat ∈ ascii "89ab" := by
  have hb := List.all_eq_true.1 stamps_all b.toNat (List.mem_range.2 b.toNat_lt)
  rw [UInt8.ofNat_toNat, Bool.and_eq_true, List.contains_iff_mem] at hb
  exact hb.2

theorem idText_v4 {raw : Bytes} (hlength : raw.length = 16) (hversion : raw.at' 6 >>> 4 = 4)
    (hvariant : relayHexDigits.at' (raw.at' 8 >>> 4).toNat ∈ ascii "89ab") : UuidV4 (idText raw) := by
  match raw, hlength with
  | [b0, b1, b2, b3, b4, b5, b6, b7, b8, b9, b10, b11, b12, b13, b14, b15], _ =>
    have hdigit : relayHexDigits.at' (b6 >>> 4).toNat = 52 := by
      rw [show b6 >>> 4 = 4 from hversion]
      rfl
    refine ⟨relayHex [b0, b1, b2, b3], relayHex [b4, b5], relayHex [b6, b7], relayHex [b8, b9],
      relayHex [b10, b11, b12, b13, b14, b15], rfl, rfl, rfl, rfl, rfl, rfl, congrArg some hdigit,
      ⟨_, hvariant, rfl⟩, fun x hx => ?_⟩
    rw [List.mem_append, List.mem_append, List.mem_append, List.mem_append] at hx
    rcases hx with (((hx | hx) | hx) | hx) | hx <;> exact relayHex_lower _ x hx

theorem idRaw_length (pool : IdPool) : (idRaw pool).length = 16 := by
  simp [idRaw]

/-- **What `v9x_id_finish` writes** is a version 4 UUID, whatever the pool. -/
theorem idFinish_v4 (pool : IdPool) : UuidV4 (idFinish pool) := by
  refine idText_v4 (idRaw_length _) ?_ ?_
  · exact version_stamp _
  · exact variant_stamp _

/-- Both validators test the same. -/
theorem idValid_eq (text : Bytes) : idValid text = relayInstallValid text := rfl

theorem UuidV4.installValid {text : Bytes} (h : UuidV4 text) : relayInstallValid text = true := by
  obtain ⟨a, b, c, d, e, htext, ha, hb, hc, hd, he, -, -, hlower⟩ := h
  refine (relayInstallValid_iff _).2 ⟨a, b, c, d, e, htext, ha, hb, hc, hd, he, fun x hx => ?_⟩
  rw [relayIsHex, hlower x hx, Bool.true_or]

theorem UuidV4.idValid {text : Bytes} (h : UuidV4 text) : idValid text = true :=
  (idValid_eq text).trans h.installValid

theorem UuidV4.length {text : Bytes} (h : UuidV4 text) : text.length = 36 := by
  have hvalid := h.installValid
  rw [relayInstallValid, Bool.and_eq_true, beq_iff_eq] at hvalid
  exact hvalid.1

/-- A byte of an id is a dash or a lowercase digit. -/
theorem UuidV4.mem {text : Bytes} (h : UuidV4 text) : ∀ x ∈ text, x = 45 ∨ relayIsLowerHex x = true := by
  obtain ⟨a, b, c, d, e, rfl, -, -, -, -, -, -, -, hlower⟩ := h
  intro x hx
  by_cases hdash : x = 45
  · exact Or.inl hdash
  · refine Or.inr (hlower x ?_)
    simpa only [List.mem_append, List.mem_cons, hdash, false_or, or_assoc] using hx

/-- Such a byte stands above every blank and every mark of a text file, and has no upper case. -/
theorem UuidV4.plain {text : Bytes} (h : UuidV4 text) : ∀ x ∈ text, 45 ≤ x ∧ lower x = x := by
  intro x hx
  have hx := h.mem x hx
  simp only [relayIsLowerHex, Bool.or_eq_true, Bool.and_eq_true, decide_eq_true_eq, UInt8.le_iff_toNat_le,
    ← UInt8.toNat_inj] at hx
  have hnumbers : (45 : UInt8).toNat = 45 ∧ (48 : UInt8).toNat = 48 ∧ (57 : UInt8).toNat = 57 ∧
    (97 : UInt8).toNat = 97 ∧ (102 : UInt8).toNat = 102 ∧ (65 : UInt8).toNat = 65 ∧ (90 : UInt8).toNat = 90 := by decide
  refine ⟨?_, if_neg fun hupper => ?_⟩
  · rw [UInt8.le_iff_toNat_le]
    omega
  · rw [UInt8.le_iff_toNat_le, UInt8.le_iff_toNat_le] at hupper
    omega

theorem UuidV4.map_lower {text : Bytes} (h : UuidV4 text) : text.map lower = text := by
  rw [List.map_congr_left fun x hx => (h.plain x hx).2]
  exact List.map_id' text

/-- None of the bytes below a dash. -/
theorem UuidV4.notMem {text : Bytes} (h : UuidV4 text) {c : UInt8} (hc : c < 45) : c ∉ text := fun hmem =>
  absurd (h.plain c hmem).1 (UInt8.not_le.2 hc)

/-! ## Text files -/

/-- Behind the end of the file nothing is read. -/
theorem dosRead_ended {content : Bytes} (h : 26 ∈ content) (more : Bytes) : dosRead (content ++ more) = dosRead content := by
  induction content with
  | nil => exact absurd h List.not_mem_nil
  | cons c content ih =>
    rw [List.cons_append, dosRead, dosRead]
    by_cases hend : c = 26
    · rw [if_pos hend, if_pos hend]
    · have hlater : 26 ∈ content := (List.mem_cons.1 h).resolve_left (Ne.symm hend)
      -- the look behind a CR does not get past the end either
      rw [if_neg hend, if_neg hend, ih hlater, List.head?_append_of_ne_nil _ (List.ne_nil_of_mem hlater)]

/-- A line end is read as one, whatever stands in front of it. -/
theorem dosRead_line {content : Bytes} (h : 26 ∉ content) (more : Bytes) :
    ∃ front, dosRead (content ++ 13 :: 10 :: more) = front ++ 10 :: dosRead more := by
  induction content with
  | nil =>
    refine ⟨[], ?_⟩
    rw [List.nil_append, List.nil_append, dosRead, if_neg (by decide), if_pos ⟨rfl, rfl⟩, dosRead, if_neg (by decide),
      if_neg fun h => absurd h.1 (by decide)]
  | cons c content ih =>
    obtain ⟨front, hfront⟩ := ih fun hmem => h (List.mem_cons_of_mem _ hmem)
    have hc : c ≠ 26 := fun he => h (he ▸ List.mem_cons_self)
    rw [List.cons_append, dosRead, if_neg hc, hfront]
    split_ifs
    · exact ⟨front, rfl⟩
    · exact ⟨c :: front, rfl⟩

/-- **A text is read as it was written**, if it holds none of the marks. -/
theorem dosRead_dosWrite {text : Bytes} (hend : 26 ∉ text) (hreturn : 13 ∉ text) : dosRead (dosWrite text) = text := by
  induction text with
  | nil => rfl
  | cons c text ih =>
    have hc : c ≠ 26 := fun he => hend (he ▸ List.mem_cons_self)
    have hc' : c ≠ 13 := fun he => hreturn (he ▸ List.mem_cons_self)
    have hrest := ih (fun hmem => hend (List.mem_cons_of_mem _ hmem)) fun hmem => hreturn (List.mem_cons_of_mem _ hmem)
    rw [dosWrite, List.flatMap_cons, ← dosWrite]
    split_ifs with hfeed
    · rw [List.cons_append, dosRead, if_neg (by decide), if_pos ⟨rfl, rfl⟩, List.cons_append, List.nil_append, dosRead,
        if_neg (by decide), if_neg (fun h => absurd h.1 (by decide)), hrest, hfeed]
    · rw [List.singleton_append, dosRead, if_neg hc, if_neg fun h => hc' h.1, hrest]

theorem dosWrite_append (text more : Bytes) : dosWrite (text ++ more) = dosWrite text ++ dosWrite more :=
  List.flatMap_append

/-! ## The line of the id -/

variable {id : Bytes}

theorem dosTrim_line {s : Bytes} {first last : UInt8} (hfirst : iniIsBlank first = false)
    (hlast : (last == 13 || last == 10 || last == 32 || last == 9) = false) :
    dosTrim (first :: (s ++ [last] ++ [10])) = first :: (s ++ [last]) := by
  rw [dosTrim, List.dropWhile_cons_of_neg (by rw [hfirst]; exact Bool.false_ne_true), ← List.cons_append,
    List.rdropWhile_concat_pos _ _ _ (by decide), ← List.cons_append,
    List.rdropWhile_concat_neg _ _ _ (by rw [hlast]; exact Bool.false_ne_true)]

theorem idLine_text : ascii "install_id=" = [105, 110, 115, 116, 97, 108, 108, 95, 105, 100, 61] := by decide

/-- **The line that is stored** sets the id, whatever the lines before it left. -/
theorem dosLoadLine_id (hid : UuidV4 id) (dos : DosAgent) :
    dosLoadLine dos (ascii "install_id=" ++ id ++ [10]) = { dos with installId := id } := by
  have hne : id ≠ [] := List.ne_nil_of_length_pos (by rw [hid.length]; decide)
  have hline : cstr (ascii "install_id=" ++ id ++ [10]) = ascii "install_id=" ++ id ++ [10] := by
    refine List.takeWhile_eq_self_iff.2 fun c hc => decide_eq_true fun hnul => ?_
    rw [hnul, List.mem_append, List.mem_append] at hc
    exact hc.elim (fun hc => hc.elim (by decide) (hid.notMem (by decide))) (by decide)
  have htrim : dosTrim (ascii "install_id=" ++ id ++ [10]) = ascii "install_id=" ++ id := by
    obtain ⟨front, last, rfl⟩ := (List.eq_nil_or_concat' id).resolve_left hne
    have hlast : ∀ c : UInt8, c < 45 → (last == c) = false := fun c hc =>
      beq_eq_false_iff_ne.2 fun he => hid.notMem hc (he ▸ by simp)
    have hstop : (last == 13 || last == 10 || last == 32 || last == 9) = false := by
      rw [hlast 13 (by decide), hlast 10 (by decide), hlast 32 (by decide), hlast 9 (by decide)]
      rfl
    have htext := dosTrim_line (s := (ascii "install_id=").tail ++ front) (show iniIsBlank 105 = false from rfl) hstop
    rw [idLine_text] at htext ⊢
    simpa only [List.tail_cons, List.cons_append, List.append_assoc, List.nil_append] using htext
  have hvalue : dosValueOf (ascii "install_id=" ++ id) = id := by
    obtain ⟨first, rest, rfl⟩ := List.exists_cons_of_ne_nil hne
    have hblank : iniIsBlank first = false := by
      rw [iniIsBlank, Bool.or_eq_false_iff, beq_eq_false_iff_ne, beq_eq_false_iff_ne]
      exact ⟨fun he => hid.notMem (c := 32) (by decide) (he ▸ List.mem_cons_self),
        fun he => hid.notMem (c := 9) (by decide) (he ▸ List.mem_cons_self)⟩
    rw [idLine_text]
    exact List.dropWhile_cons_of_neg (by rw [hblank]; exact Bool.false_ne_true)
  -- the keys differ in the bytes in front of the id, whatever the id
  have hport : dosKeyMatches (ascii "install_id=" ++ id) (ascii "port") = false := by rw [idLine_text]; rfl
  have hclient : dosKeyMatches (ascii "install_id=" ++ id) (ascii "allowed_client") = false := by rw [idLine_text]; rfl
  have hkey : dosKeyMatches (ascii "install_id=" ++ id) (ascii "install_id") = true := by rw [idLine_text]; rfl
  have hfirst : (ascii "install_id=" ++ id).at' 0 = 105 := by rw [idLine_text]; rfl
  have hvalid : idValid id = true := hid.idValid
  rw [dosLoadLine, hline, htrim, hfirst, if_neg (by decide), hport, if_neg Bool.false_ne_true, hclient,
    if_neg Bool.false_ne_true, hkey, if_pos rfl, hvalue]
  dsimp only
  rw [if_pos hvalid, hid.map_lower]

/-- What stands in front of the id in the lines that are added, but for a line end. -/
theorem dosSaveId_read {content : Bytes} (h : 26 ∉ content) (hid : UuidV4 id) :
    ∃ front, dosRead (content ++ dosWrite (ascii "\ninstall_id=" ++ id ++ ascii "\n")) =
      front ++ 10 :: (ascii "install_id=" ++ id ++ [10]) := by
  have hlines : ascii "\ninstall_id=" ++ id ++ ascii "\n" = [10] ++ (ascii "install_id=" ++ id ++ [10]) := by rfl
  have hmarks : ∀ c : UInt8, c < 45 → c ≠ 10 → c ∉ ascii "install_id=" → c ∉ ascii "install_id=" ++ id ++ [10] := by
    intro c hc hfeed hkey hmem
    rw [List.mem_append, List.mem_append, List.mem_singleton] at hmem
    exact hmem.elim (fun hmem => hmem.elim hkey (hid.notMem hc)) hfeed
  obtain ⟨front, hfront⟩ := dosRead_line h (dosWrite (ascii "install_id=" ++ id ++ [10]))
  rw [dosRead_dosWrite (hmarks 26 (by decide) (by decide) (by decide)) (hmarks 13 (by decide) (by decide) (by decide))]
    at hfront
  exact ⟨front, by rw [hlines, dosWrite_append]; exact hfront⟩

/-- **A file that ends with the line of an id** gives this id. -/
theorem dosLoadConfig_id (hid : UuidV4 id) (old front : Bytes) {content : Bytes}
    (hread : dosRead content = front ++ 10 :: (ascii "install_id=" ++ id ++ [10])) :
    (dosLoadConfig old (some content)).installId = id := by
  have hfeed : 10 ∉ ascii "install_id=" ++ id := fun hmem =>
    (List.mem_append.1 hmem).elim (by decide) (hid.notMem (by decide))
  have hfits : ([] : Bytes).length + (ascii "install_id=" ++ id).length < dosLineSize - 1 := by
    rw [List.length_append, hid.length, idLine_text]
    decide
  rw [dosLoadConfig, hread, dosFgets, buffered_append, buffered_line hfeed hfits, List.nil_append, List.foldl_append,
    List.foldl_cons, dosLoadLine_id hid]
  rfl

/-! ## Starts -/

/-- The id that a start finds in its file. -/
def dosFoundId (file : Option Bytes) : Option Bytes :=
  if idValid (dosLoadConfig [] file).installId then some (dosLoadConfig [] file).installId else none

theorem dosStart_found {file : Option Bytes} (h : dosFoundId file = some id) (fresh : DosFresh) :
    (dosLoadConfig [] file).installId = id ∧
      dosStart file fresh = ⟨dosLoadConfig [] file, file, [(ascii "agent-start", [])]⟩ := by
  rw [dosFoundId] at h
  split_ifs at h with hvalid
  refine ⟨Option.some.inj h, ?_⟩
  rw [dosStart, dosEnsureInstallId, if_pos hvalid]

theorem dosStart_made {file : Option Bytes} (h : dosFoundId file = none) (fresh : DosFresh) :
    dosStart file fresh = ⟨{ dosLoadConfig [] file with installId := dosGenerateId fresh },
      dosSaveId fresh file (dosGenerateId fresh), [(ascii "agent-start", []),
        (if fresh.opens then ascii "install-id-created" else ascii "install-id-unsaved", dosGenerateId fresh)]⟩ := by
  rw [dosFoundId] at h
  split_ifs at h with hvalid
  rw [dosStart, dosEnsureInstallId, if_neg hvalid]

/-- A start looks for an id, and where it finds none makes one and saves it. -/
theorem dosStart_eq (file : Option Bytes) (fresh : DosFresh) :
    ((dosStart file fresh).dos.installId, (dosStart file fresh).file) =
      Persist.start dosFoundId dosGenerateId dosSaveId file fresh := by
  cases hfound : dosFoundId file with
  | none => rw [Persist.start_made hfound, dosStart_made hfound]
  | some id =>
    obtain ⟨hid, hstart⟩ := dosStart_found hfound fresh
    rw [Persist.start_found hfound, hstart, ← hid]

theorem dosStarts_eq (file : Option Bytes) (later : List DosFresh) :
    dosStarts file later = Persist.starts dosFoundId dosGenerateId dosSaveId file later := by
  have hstep : (fun file fresh => (dosStart file fresh).file) = fun file fresh =>
      (Persist.start dosFoundId dosGenerateId dosSaveId file fresh).2 :=
    funext fun file => funext fun fresh => congrArg Prod.snd (dosStart_eq file fresh)
  rw [dosStarts, hstep]
  rfl

theorem dosGenerateId_v4 (fresh : DosFresh) : UuidV4 (dosGenerateId fresh) := idFinish_v4 _

/-- **A stored id is found** exactly where the file did not end before it. -/
theorem dosFoundId_saved {file : Option Bytes} {fresh : DosFresh} (hnone : dosFoundId file = none)
    (hopens : fresh.opens = true) (hid : UuidV4 id) :
    dosFoundId (dosSaveId fresh file id) = some id ↔ 26 ∉ file.getD [] := by
  have hvalid : idValid id = true := hid.idValid
  constructor
  · intro hfound hend
    -- everything that was added is behind the end
    obtain ⟨content, rfl⟩ : ∃ content, file = some content := by
      cases file with
      | none => exact absurd hend List.not_mem_nil
      | some content => exact ⟨content, rfl⟩
    have hsame : dosLoadConfig [] (dosSaveId fresh (some content) id) = dosLoadConfig [] (some content) := by
      rw [dosSaveId, if_pos hopens]
      dsimp only
      rw [List.append_assoc (Option.getD _ _), dosLoadConfig, dosLoadConfig, dosRead_ended hend, Option.getD_some]
    rw [dosFoundId, hsame, ← dosFoundId, hnone] at hfound
    exact absurd hfound (by simp)
  · intro hend
    have hheader : 26 ∉ file.getD [] ++ if file.isSome then [] else dosWrite (ascii "[agent]\n") := by
      rw [List.mem_append, not_or]
      refine ⟨hend, ?_⟩
      split_ifs <;> decide
    obtain ⟨front, hfront⟩ := dosSaveId_read hheader hid
    have hload := dosLoadConfig_id hid [] front hfront
    rw [dosFoundId, dosSaveId, if_pos hopens, hload, if_pos hvalid]

/-- The start has stored a new id. -/
def DosStarted.Created (started : DosStarted) : Prop :=
  (ascii "install-id-created", started.dos.installId) ∈ started.events

/-- However many starts come, the next one loads the id of this one, goes on with it and makes none. -/
def DosStarted.KeepsId (started : DosStarted) : Prop :=
  ∀ later next,
    (dosLoadConfig [] (dosStarts started.file later)).installId = started.dos.installId ∧
      (dosStart (dosStarts started.file later) next).dos.installId = started.dos.installId ∧
      (dosStart (dosStarts started.file later) next).events = [(ascii "agent-start", [])]

theorem keepsId_iff {started : DosStarted} (hid : idValid started.dos.installId = true) :
    started.KeepsId ↔ dosFoundId started.file = some started.dos.installId := by
  rw [← Persist.kept_iff dosFoundId dosGenerateId dosSaveId]
  constructor
  · intro h later
    rw [← dosStarts_eq, dosFoundId, (h later ⟨0, 0, 0, Vector.replicate 8 (0, 0), true⟩).1, if_pos hid]
  · intro h later next
    have hfound := h later
    rw [← dosStarts_eq] at hfound
    obtain ⟨hload, hstart⟩ := dosStart_found hfound next
    rw [hstart]
    exact ⟨hload, hload, rfl⟩

/-- A start that stored an id had found none, and could open the file. -/
theorem DosStarted.Created.made {file : Option Bytes} {fresh : DosFresh} (h : (dosStart file fresh).Created) :
    dosFoundId file = none ∧ fresh.opens = true := by
  cases hfound : dosFoundId file with
  | some id =>
    rw [DosStarted.Created, (dosStart_found hfound fresh).2, List.mem_singleton] at h
    exact absurd (congrArg Prod.fst h) (by decide : ascii "install-id-created" ≠ ascii "agent-start")
  | none =>
    refine ⟨rfl, ?_⟩
    rw [DosStarted.Created, dosStart_made hfound, List.mem_cons, List.mem_singleton] at h
    rcases h with h | h
    · exact absurd (congrArg Prod.fst h) (by decide : ascii "install-id-created" ≠ ascii "agent-start")
    · by_contra hopens
      rw [if_neg hopens] at h
      exact absurd (congrArg Prod.fst h) (by decide : ascii "install-id-created" ≠ ascii "install-id-unsaved")

theorem created_keepsId_iff {file : Option Bytes} {fresh : DosFresh} (h : (dosStart file fresh).Created) :
    (dosStart file fresh).KeepsId ↔ 26 ∉ file.getD [] := by
  obtain ⟨hnone, hopens⟩ := h.made
  have hid := dosGenerateId_v4 fresh
  have hvalid : idValid (dosStart file fresh).dos.installId = true := by
    rw [dosStart_made hnone]
    exact hid.idValid
  rw [keepsId_iff hvalid, dosStart_made hnone]
  exact dosFoundId_saved hnone hopens hid

/-- **An install id is a UUID and stays.** Whatever is mixed in, the id is a lowercase version 4
UUID that both validators accept. On DOS a start that finds an id makes none, and neither does
any start behind it; a start that stores an id is followed by starts that all load this id
exactly if AGENT.INI held no byte 0x1A, behind which nothing is read. -/
theorem dosInstallId_iff (sources : List (UInt32 ⊕ Bytes)) (file : Option Bytes) (fresh : DosFresh) :
    (UuidV4 (idFinish (idFeed sources)) ∧ idValid (idFinish (idFeed sources)) = true ∧
      relayInstallValid (idFinish (idFeed sources)) = true) ∧
    (idValid (dosLoadConfig [] file).installId = true →
      (dosStart file fresh).dos.installId = (dosLoadConfig [] file).installId ∧ (dosStart file fresh).KeepsId) ∧
    ((dosStart file fresh).Created →
      UuidV4 (dosStart file fresh).dos.installId ∧
        ((dosStart file fresh).KeepsId ↔ 26 ∉ file.getD [])) := by
  refine ⟨?_, fun hvalid => ?_, fun h => ?_⟩
  · have hid := idFinish_v4 (idFeed sources)
    exact ⟨hid, hid.idValid, hid.installValid⟩
  · have hfound : dosFoundId file = some (dosLoadConfig [] file).installId := if_pos hvalid
    obtain ⟨-, hstart⟩ := dosStart_found hfound fresh
    rw [hstart]
    exact ⟨rfl, (keepsId_iff hvalid).2 hfound⟩
  · refine ⟨?_, created_keepsId_iff h⟩
    rw [dosStart_made h.made.1]
    exact dosGenerateId_v4 fresh

/-- The first start of a machine. -/
theorem dosInstallId_first :
    let started := dosStart none ⟨0x3B9ACA00, 1, 0x4000, Vector.replicate 8 (7, 3), true⟩
    started.Created ∧ started.KeepsId := by
  intro started
  have hcreated : started.Created := by
    rw [DosStarted.Created, show started = _ from dosStart_made (show dosFoundId none = none by decide) _]
    exact List.mem_cons_of_mem _ List.mem_cons_self
  exact ⟨hcreated, ((dosInstallId_iff [] none _).2.2 hcreated).2.2 (by decide)⟩

/-- Behind a 0x1A the id is stored and never found. -/
theorem dosInstallId_ended :
    let started := dosStart (some (ascii "[agent]\r\nport=9869\r\n" ++ [26]))
      ⟨0x3B9ACA00, 1, 0x4000, Vector.replicate 8 (7, 3), true⟩
    started.Created ∧ ¬started.KeepsId := by
  intro started
  have hnone : dosFoundId (some (ascii "[agent]\r\nport=9869\r\n" ++ [26])) = none := by decide +kernel
  have hcreated : started.Created := by
    rw [DosStarted.Created, show started = _ from dosStart_made hnone _]
    exact List.mem_cons_of_mem _ List.mem_cons_self
  exact ⟨hcreated, fun hkeeps => (created_keepsId_iff hcreated).1 hkeeps (by decide)⟩

end V9xRemote
