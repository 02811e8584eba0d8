import V9xRemote.Lib.Cursor
import V9xRemote.Spec.Responses
import V9xRemote.Spec.McpCodec

/-!
# HELLO and INFO decode to what was sent

Both responses fit their buffer, whatever the system answers. The host reads the same
fields from them as long as every text is ASCII; it refuses one that is not.
-/

namespace V9xRemote

open Bytes Cursor

/-! ## Protocol strings -/

/-- A string on the wire. -/
def stringField (text : Bytes) : Bytes := writeU16 (UInt16.ofNat text.length) ++ text

theorem stringField_length (text : Bytes) : (stringField text).length = 2 + text.length := List.length_append

/-- Several of them. -/
def stringFields (texts : List Bytes) : Bytes := texts.flatMap stringField

theorem stringFields_cons (text : Bytes) (texts : List Bytes) :
    stringFields (text :: texts) = stringField text ++ stringFields texts := rfl

section

variable (capacity : ℕ) (target text : Bytes)

/-- **A string that fits** is written whole. -/
theorem appendString_fits (ht : text.length < 65536) (hfits : target.length + (2 + text.length) ≤ capacity) :
    appendString capacity target text = some (target ++ stringField text) := by
  have hmin : min text.length 65535 = text.length := by omega
  unfold appendString
  dsimp only
  rw [hmin, if_neg (by omega), List.take_length]
  rfl

theorem appendString_full (ht : text.length < 65536) (hfull : capacity < target.length + (2 + text.length)) :
    appendString capacity target text = none := by
  have hmin : min text.length 65535 = text.length := by omega
  unfold appendString
  dsimp only
  rw [hmin, if_pos]
  omega

theorem appendStrings_fits (texts : List Bytes) (ht : ∀ t ∈ texts, t.length < 65536)
    (hfits : target.length + (stringFields texts).length ≤ capacity) :
    appendStrings capacity target texts = some (target ++ stringFields texts) := by
  induction texts generalizing target with
  | nil => exact congrArg some (List.append_nil _).symm
  | cons text texts ih =>
    rw [stringFields_cons, List.length_append, stringField_length] at hfits
    rw [appendStrings, appendString_fits _ _ _ (ht text List.mem_cons_self) (by omega), Option.bind_eq_bind, Option.bind_some,
      ih _ (fun t h => ht t (List.mem_cons_of_mem _ h)), stringFields_cons, List.append_assoc]
    rw [List.length_append, stringField_length]
    omega

theorem appendStrings_full (texts : List Bytes) (ht : ∀ t ∈ texts, t.length < 65536) (htarget : target.length ≤ capacity)
    (hfull : capacity < target.length + (stringFields texts).length) : appendStrings capacity target texts = none := by
  induction texts generalizing target with
  | nil => exact absurd hfull (not_lt.2 htarget)
  | cons text texts ih =>
    have htext := ht text List.mem_cons_self
    rw [stringFields_cons, List.length_append, stringField_length] at hfull
    rw [appendStrings]
    by_cases hroom : target.length + (2 + text.length) ≤ capacity
    · have hlength : (target ++ stringField text).length = target.length + (2 + text.length) := by
        rw [List.length_append, stringField_length]
      rw [appendString_fits _ _ _ htext hroom]
      exact ih _ (fun t h => ht t (List.mem_cons_of_mem _ h)) (by omega) (by omega)
    · rw [appendString_full _ _ _ htext (not_le.1 hroom)]
      rfl

end

section

variable {payload text rest : Bytes} {offset : ℕ}

theorem unpackFrom_at {a : Bytes} (h : At payload offset (a ++ rest)) : unpackFrom payload offset a.length = .ok a := by
  rw [unpackFrom, if_pos h.room, h.take]

/-- **A string's bytes** are read back. -/
theorem parseStringBytes_at (h : At payload offset (stringField text ++ rest)) (ht : text.length < 65536) :
    parseStringBytes payload offset = .ok (text, offset + (stringField text).length) := by
  rw [stringField, List.append_assoc] at h
  have hroom := h.room
  have hnext := h.next
  have htext := hnext.room
  have hlength : (writeU16 (UInt16.ofNat text.length)).length = 2 := rfl
  rw [hlength] at hroom htext
  have hvalue : ((writeU16 (UInt16.ofNat text.length)).readU16 0).toNat = text.length := by
    have hread := readU16_writeU16 (UInt16.ofNat text.length) []
    rw [List.append_nil] at hread
    rw [hread, UInt16.toNat_ofNat_of_lt' ht]
  have hunpack := unpackFrom_at h
  rw [hlength] at hunpack
  have htake := hnext.take
  rw [hlength] at htake
  simp only [parseStringBytes, if_neg (not_lt.2 hroom), hunpack, bind, Except.bind, pure, Except.pure, hvalue,
    if_neg (not_lt.2 htext), htake, stringField_length]
  rw [Nat.add_assoc]

/-- What the host makes of a byte that is not ASCII. -/
def notAscii : PyExc := valueError "'ascii' codec can't decode byte"

/-- A text that is ASCII. -/
def AsciiText (text : Bytes) : Prop := ∀ b ∈ text, b ≤ 127

instance (text : Bytes) : Decidable (AsciiText text) := List.decidableBAll _ _

/-- **A string is read** where it is ASCII. -/
theorem parseString_at (h : At payload offset (stringField text ++ rest)) (ht : text.length < 65536) :
    parseString payload offset =
      if AsciiText text then .ok (text, offset + (stringField text).length) else .error notAscii := by
  have hany : (text.any (· > 127)) = true ↔ ¬AsciiText text := by
    simp only [List.any_eq_true, decide_eq_true_eq, AsciiText, not_forall, exists_prop, gt_iff_lt, UInt8.not_le]
  simp only [parseString, parseStringBytes_at h ht, bind, Except.bind, pure, Except.pure]
  by_cases hascii : AsciiText text
  · rw [if_pos hascii, if_neg fun hbad => hany.1 hbad hascii]
  · rw [if_neg hascii, if_pos (hany.2 hascii)]
    rfl

theorem parseTail_at (h : At payload offset (stringField text ++ rest)) (ht : text.length < 65536) :
    parseTail payload offset =
      if AsciiText text then .ok (text, offset + (stringField text).length) else .error notAscii := by
  have hne : stringField text ++ rest ≠ [] := by
    intro hnil
    have hlength := congrArg List.length hnil
    rw [List.length_append, stringField_length, List.length_nil] at hlength
    omega
  rw [parseTail, if_pos (h.more hne), parseString_at h ht]

/-- Several strings. -/
theorem parseStrings_at {texts : List Bytes} (h : At payload offset (stringFields texts ++ rest))
    (ht : ∀ t ∈ texts, t.length < 65536) :
    parseEntries (parseString payload) texts.length offset =
      if ∀ t ∈ texts, AsciiText t then .ok (texts, offset + (stringFields texts).length) else .error notAscii := by
  induction texts generalizing offset with
  | nil => rw [if_pos (fun t hmem => by cases hmem)]; rfl
  | cons text texts ih =>
    rw [stringFields_cons, List.append_assoc] at h
    have hrest := ih h.next fun t hmem => ht t (List.mem_cons_of_mem _ hmem)
    rw [List.length_cons, parseEntries, parseString_at h (ht text List.mem_cons_self)]
    simp only [List.forall_mem_cons]
    by_cases htext : AsciiText text
    · rw [if_pos htext]
      simp only [bind, Except.bind, pure, Except.pure]
      rw [hrest]
      by_cases htexts : ∀ t ∈ texts, AsciiText t
      · rw [if_pos htexts, if_pos ⟨htext, htexts⟩, stringFields_cons, List.length_append, Nat.add_assoc]
      · rw [if_neg htexts, if_neg fun hall => htexts hall.2]
    · rw [if_neg htext, if_neg fun hall => htext hall.1]
      rfl

end

/-! ## The desktop block -/

theorem desktopBytes_length (system : AgentSystem) : (desktopBytes system).length = 16 := rfl

/-- The screen's fields. -/
theorem desktopBytes_read (system : AgentSystem) (rest : Bytes) :
    (desktopBytes system ++ rest).at' 0 = (if system.desktopReady then 1 else 0) ∧
      readU32 ((desktopBytes system).drop 4) 0 = system.screenWidth ∧
        readU32 ((desktopBytes system).drop 4) 4 = system.screenHeight ∧
          readU32 ((desktopBytes system).drop 4) 8 = system.bitsPerPixel :=
  ⟨rfl, readU32_writeU32 system.screenWidth (writeU32 system.screenHeight ++ writeU32 system.bitsPerPixel),
    readU32_writeU32 system.screenHeight (writeU32 system.bitsPerPixel),
    readU32_writeU32 system.bitsPerPixel []⟩

/-- What the host makes of the desktop block. -/
def desktopBlock (agent : AgentIdentity) (system : AgentSystem) (installId : Bytes) : DesktopBlock :=
  ⟨agent.pendingJob.text, system.desktopReady, system.screenWidth.toNat, system.screenHeight.toNat,
    system.bitsPerPixel.toNat, agent.listenAddress.text, agent.allowedClient.text, installId⟩

/-- The block on the wire, `tail` behind it. -/
def desktopField (agent : AgentIdentity) (system : AgentSystem) (tail : Bytes) : Bytes :=
  stringField agent.pendingJob.text ++
    (desktopBytes system ++ (stringField agent.listenAddress.text ++ (stringField agent.allowedClient.text ++ tail)))

/-- The texts of the block. -/
def DesktopAscii (agent : AgentIdentity) : Prop :=
  AsciiText agent.pendingJob.text ∧ AsciiText agent.listenAddress.text ∧ AsciiText agent.allowedClient.text

instance (agent : AgentIdentity) : Decidable (DesktopAscii agent) := inferInstanceAs (Decidable (_ ∧ _ ∧ _))

theorem CText.length_small {size : ℕ} (t : CText size) (h : size ≤ 65536) : t.text.length < 65536 :=
  t.length_lt.trans_le h

section

variable {agent : AgentIdentity} {system : AgentSystem} {payload : Bytes} {offset : ℕ}

/-- **The desktop block** is read where its texts are ASCII. -/
theorem parseDesktopBlock_at {install : Option Bytes} (hinstall : (install.getD []).length < 65536)
    (asked : Bool) (hasked : install.isSome → asked = true)
    (h : At payload offset (desktopField agent system ((install.map stringField).getD []))) :
    parseDesktopBlock payload offset asked =
      if DesktopAscii agent ∧ AsciiText (install.getD []) then .ok (desktopBlock agent system (install.getD []))
      else .error notAscii := by
  have hscreen := h.next
  have hlisten := hscreen.next
  have hallowed := hlisten.next
  have htail := hallowed.next
  have hunpack : unpackFrom payload (offset + (stringField agent.pendingJob.text).length + 4) 12 =
      .ok ((desktopBytes system).drop 4) := by
    have hsplit : desktopBytes system = (desktopBytes system).take 4 ++ (desktopBytes system).drop 4 :=
      (List.take_append_drop 4 _).symm
    rw [hsplit, List.append_assoc] at hscreen
    exact unpackFrom_at hscreen.next
  have hready : payload.at' (offset + (stringField agent.pendingJob.text).length) =
      if system.desktopReady then 1 else 0 := by
    have hat := hscreen.at' 0
    rw [Nat.add_zero, (desktopBytes_read system _).1] at hat
    exact hat
  obtain ⟨-, hwidth, hheight, hbits⟩ := desktopBytes_read system []
  have hready' : (payload.at' (offset + (stringField agent.pendingJob.text).length) != 0) = system.desktopReady := by
    rw [hready]
    cases system.desktopReady <;> rfl
  have hroom := hscreen.room
  rw [desktopBytes_length] at hroom hlisten hallowed htail
  rw [parseDesktopBlock, parseTail_at h (agent.pendingJob.length_small (by decide))]
  by_cases hp : AsciiText agent.pendingJob.text
  swap
  · rw [if_neg hp, if_neg fun hall => hp hall.1.1]
    rfl
  rw [if_pos hp]
  simp only [bind, Except.bind, pure, Except.pure, if_pos hroom, hunpack, hready']
  rw [parseTail_at hlisten (agent.listenAddress.length_small (by decide))]
  by_cases hl : AsciiText agent.listenAddress.text
  swap
  · rw [if_neg hl, if_neg fun hall => hl hall.1.2.1]
  rw [if_pos hl]
  simp only []
  rw [parseTail_at hallowed (agent.allowedClient.length_small (by decide))]
  by_cases ha : AsciiText agent.allowedClient.text
  swap
  · rw [if_neg ha, if_neg fun hall => ha hall.1.2.2]
  rw [if_pos ha]
  simp only []
  have hblock : DesktopAscii agent := ⟨hp, hl, ha⟩
  cases install with
  | none =>
    have hend : offset + (stringField agent.pendingJob.text).length + 16 + (stringField agent.listenAddress.text).length +
        (stringField agent.allowedClient.text).length = payload.length := htail.done
    have hmissing : parseTail payload payload.length = .ok ([], payload.length) := if_neg (lt_irrefl _)
    have hall : DesktopAscii agent ∧ AsciiText ((none : Option Bytes).getD []) := ⟨hblock, fun b hb => by cases hb⟩
    rw [if_pos hall, hend]
    cases asked with
    | false =>
      simp only [Bool.false_eq_true, if_false, ne_eq, not_true, hwidth, hheight, hbits]
      rfl
    | true =>
      simp only [if_true, hmissing, ne_eq, not_true, if_false, hwidth, hheight, hbits]
      rfl
  | some install =>
    obtain rfl := hasked rfl
    have htail : At payload (offset + (stringField agent.pendingJob.text).length + 16 +
        (stringField agent.listenAddress.text).length + (stringField agent.allowedClient.text).length)
        (stringField install ++ []) := by
      rw [List.append_nil]
      exact htail
    have hend := htail.next.done
    simp only [if_true]
    rw [parseTail_at htail hinstall, Option.getD_some]
    by_cases hi : AsciiText install
    · rw [if_pos hi, if_pos ⟨hblock, hi⟩]
      simp only [hend, ne_eq, not_true, if_false, hwidth, hheight, hbits]
      rfl
    · rw [if_neg hi, if_neg fun hall => hi hall.2]

/-! ## HELLO and INFO -/

/-- The fixed part of a HELLO. -/
def helloHead (agent : AgentIdentity) : Bytes :=
  writeU16 protocolVersion ++ writeU16 0 ++ writeU32 agent.capabilities ++ writeU32 maxPayloadSize ++
    writeU32 agent.bootCounter ++ writeU16 agent.listenPort ++ writeU16 agent.winsockVersion

/-- The fixed part of an INFO. -/
def infoHead (agent : AgentIdentity) (system : AgentSystem) : Bytes :=
  writeU32 agent.bootCounter ++ writeU32 (system.tick - agent.startTick) ++ writeU32 agent.capabilities ++
    writeU16 agent.listenPort ++ writeU16 agent.winsockVersion ++ writeU32 system.version

/-- The strings of an INFO, but for the desktop block's. -/
def infoStrings (agent : AgentIdentity) (system : AgentSystem) : List Bytes :=
  [agentVersionText, agent.build.text, system.computer.text, windowsVersion system.version,
    system.systemDirectory.text, system.windowsDirectory.text, system.currentDirectory.text]

/-- The install id that is asked for. -/
def infoInstall (agent : AgentIdentity) (flags : UInt32) : Option Bytes :=
  if flags &&& infoFlagExtended != 0 then some agent.installId.text else none

theorem windowsVersion_length (version : UInt32) : (windowsVersion version).length ≤ 20 := by
  have hbyte : ∀ v : UInt32, (v &&& 0xff).toNat < 10 ^ (2 + 1) := by
    intro v
    have hand : (v &&& 0xff).toNat = v.toNat &&& 255 := UInt32.toNat_and v 0xff
    have hle : v.toNat &&& 255 ≤ 255 := Nat.and_le_right
    omega
  have hlow := decimal_length (hbyte version)
  have hhigh := decimal_length (hbyte (version >>> 8))
  have hascii : (ascii "Windows ").length = 8 ∧ (ascii ".").length = 1 := ⟨rfl, rfl⟩
  simp only [windowsVersion, appendDecimal, List.length_append]
  omega

/-- **A HELLO fits**, and is its fields one after the other. -/
theorem sendHello_eq (agent : AgentIdentity) (system : AgentSystem) :
    sendHello agent system =
        some (helloHead agent ++ (stringField agent.build.text ++ desktopField agent system [])) ∧
      (helloHead agent ++ (stringField agent.build.text ++ desktopField agent system [])).length ≤ responseSize := by
  have hhead : (helloHead agent).length = 20 := rfl
  have hb := agent.build.length_lt
  have hp := agent.pendingJob.length_lt
  have hl := agent.listenAddress.length_lt
  have ha := agent.allowedClient.length_lt
  have hsize : responseSize = 2048 := rfl
  have hfirst := appendStrings_fits responseSize (helloHead agent)
    ([agent.build.text, agent.pendingJob.text])
    (by simp only [List.forall_mem_cons, List.not_mem_nil, false_implies, implies_true, and_true]; omega)
    (by simp only [stringFields, List.flatMap_cons, List.flatMap_nil, List.length_append, stringField_length,
          List.length_nil]; omega)
  have hsecond := appendStrings_fits responseSize (helloHead agent ++ stringFields [agent.build.text, agent.pendingJob.text] ++ desktopBytes system)
    ([agent.listenAddress.text, agent.allowedClient.text])
    (by simp only [List.forall_mem_cons, List.not_mem_nil, false_implies, implies_true, and_true]; omega)
    (by simp only [stringFields, List.flatMap_cons, List.flatMap_nil, List.length_append, stringField_length,
          List.length_nil, desktopBytes_length]; omega)
  refine ⟨?_, ?_⟩
  · have hunfold : sendHello agent system =
        (appendStrings responseSize (helloHead agent) [agent.build.text, agent.pendingJob.text]).bind fun out =>
          appendStrings responseSize (out ++ desktopBytes system) [agent.listenAddress.text, agent.allowedClient.text] :=
      rfl
    rw [hunfold, hfirst, Option.bind_some, hsecond]
    simp only [stringFields, List.flatMap_cons, List.flatMap_nil, desktopField, List.append_assoc, List.append_nil]
  · simp only [desktopField, List.length_append, stringField_length, List.length_nil, desktopBytes_length]
    omega

/-- **So does an INFO.** -/
theorem sendInfo_eq (agent : AgentIdentity) (system : AgentSystem) (flags : UInt32) :
    sendInfo agent system flags = some (infoHead agent system ++ (stringFields (infoStrings agent system) ++
        desktopField agent system (((infoInstall agent flags).map stringField).getD []))) ∧
      (infoHead agent system ++ (stringFields (infoStrings agent system) ++
        desktopField agent system (((infoInstall agent flags).map stringField).getD []))).length ≤ responseSize := by
  have hhead : (infoHead agent system).length = 20 := rfl
  have hv : agentVersionText.length = 6 := rfl
  have hw := windowsVersion_length system.version
  have hb := agent.build.length_lt
  have hc := system.computer.length_lt
  have hs := system.systemDirectory.length_lt
  have hd := system.windowsDirectory.length_lt
  have hu := system.currentDirectory.length_lt
  have hp := agent.pendingJob.length_lt
  have hl := agent.listenAddress.length_lt
  have ha := agent.allowedClient.length_lt
  have hi := agent.installId.length_lt
  have hsize : responseSize = 2048 := rfl
  have hfirst := appendStrings_fits responseSize (infoHead agent system)
    (infoStrings agent system ++ [agent.pendingJob.text])
    (by simp only [infoStrings, List.cons_append, List.nil_append, List.forall_mem_cons, List.not_mem_nil, false_implies,
          implies_true, and_true]; omega)
    (by simp only [infoStrings, List.cons_append, List.nil_append, stringFields, List.flatMap_cons, List.flatMap_nil,
          List.length_append, stringField_length, List.length_nil]; omega)
  have hsecond := appendStrings_fits responseSize (infoHead agent system ++ stringFields (infoStrings agent system ++ [agent.pendingJob.text]) ++
      desktopBytes system)
    ([agent.listenAddress.text, agent.allowedClient.text])
    (by simp only [List.forall_mem_cons, List.not_mem_nil, false_implies, implies_true, and_true]; omega)
    (by simp only [infoStrings, List.cons_append, List.nil_append, stringFields, List.flatMap_cons, List.flatMap_nil,
          List.length_append, stringField_length, List.length_nil, desktopBytes_length]; omega)
  have hthird := appendString_fits responseSize
    (infoHead agent system ++ stringFields (infoStrings agent system ++ [agent.pendingJob.text]) ++
      desktopBytes system ++ stringFields [agent.listenAddress.text, agent.allowedClient.text])
    agent.installId.text (by omega)
    (by simp only [infoStrings, List.cons_append, List.nil_append, stringFields, List.flatMap_cons, List.flatMap_nil,
          List.length_append, stringField_length, List.length_nil, desktopBytes_length]; omega)
  have hunfold : sendInfo agent system flags =
      (appendStrings responseSize (infoHead agent system) (infoStrings agent system ++ [agent.pendingJob.text])).bind
        fun out => (appendStrings responseSize (out ++ desktopBytes system)
          [agent.listenAddress.text, agent.allowedClient.text]).bind fun out =>
            if flags &&& infoFlagExtended != 0 then appendString responseSize out agent.installId.text else some out :=
    rfl
  have hpieces : ∀ tail : Bytes, infoHead agent system ++ stringFields (infoStrings agent system ++ [agent.pendingJob.text]) ++
      desktopBytes system ++ stringFields [agent.listenAddress.text, agent.allowedClient.text] ++ tail =
        infoHead agent system ++ (stringFields (infoStrings agent system) ++ desktopField agent system tail) := by
    intro tail
    simp only [stringFields, List.flatMap_append, List.flatMap_cons, List.flatMap_nil, desktopField, List.append_assoc,
      List.append_nil]
  refine ⟨?_, ?_⟩
  · rw [hunfold, hfirst, Option.bind_some, hsecond, Option.bind_some, infoInstall]
    by_cases hflag : (flags &&& infoFlagExtended != 0) = true
    · rw [if_pos hflag, if_pos hflag, hthird, hpieces]
      rfl
    · rw [if_neg hflag, if_neg hflag, ← hpieces]
      exact congrArg some (List.append_nil _).symm
  · have htail : (((infoInstall agent flags).map stringField).getD []).length ≤ 38 := by
      rw [infoInstall]
      split
      · rw [Option.map_some, Option.getD_some, stringField_length]
        omega
      · exact Nat.zero_le _
    simp only [infoStrings, stringFields, List.flatMap_cons, List.flatMap_nil, desktopField, List.length_append,
      stringField_length, List.length_nil, desktopBytes_length]
    omega

/-- What the host makes of a HELLO. -/
def helloValues (agent : AgentIdentity) (system : AgentSystem) : Hello :=
  ⟨protocolVersion, agent.capabilities, maxPayloadSize, agent.bootCounter, agent.listenPort, agent.winsockVersion,
    agent.build.text, desktopBlock agent system []⟩

/-- What the host makes of an INFO. -/
def infoValues (agent : AgentIdentity) (system : AgentSystem) (flags : UInt32) : AgentInfo :=
  ⟨agent.bootCounter, system.tick - agent.startTick, agent.capabilities, agent.listenPort, agent.winsockVersion,
    system.version, infoStrings agent system, desktopBlock agent system ((infoInstall agent flags).getD [])⟩

theorem helloHead_read (agent : AgentIdentity) : (helloHead agent).readU16 0 = protocolVersion ∧
    (helloHead agent).readU32 4 = agent.capabilities ∧ (helloHead agent).readU32 8 = maxPayloadSize ∧
      (helloHead agent).readU32 12 = agent.bootCounter ∧ (helloHead agent).readU16 16 = agent.listenPort ∧
        (helloHead agent).readU16 18 = agent.winsockVersion :=
  ⟨readU16_writeU16 protocolVersion ((helloHead agent).drop 2),
    readU32_writeU32 agent.capabilities ((helloHead agent).drop 8),
    readU32_writeU32 maxPayloadSize ((helloHead agent).drop 12),
    readU32_writeU32 agent.bootCounter ((helloHead agent).drop 16),
    readU16_writeU16 agent.listenPort ((helloHead agent).drop 18), readU16_writeU16 agent.winsockVersion []⟩

theorem infoHead_read (agent : AgentIdentity) (system : AgentSystem) :
    (infoHead agent system).readU32 0 = agent.bootCounter ∧
      (infoHead agent system).readU32 4 = system.tick - agent.startTick ∧
        (infoHead agent system).readU32 8 = agent.capabilities ∧ (infoHead agent system).readU16 12 = agent.listenPort ∧
          (infoHead agent system).readU16 14 = agent.winsockVersion ∧
            (infoHead agent system).readU32 16 = system.version :=
  ⟨readU32_writeU32 agent.bootCounter ((infoHead agent system).drop 4),
    readU32_writeU32 (system.tick - agent.startTick) ((infoHead agent system).drop 8),
    readU32_writeU32 agent.capabilities ((infoHead agent system).drop 12),
    readU16_writeU16 agent.listenPort ((infoHead agent system).drop 14),
    readU16_writeU16 agent.winsockVersion ((infoHead agent system).drop 16), readU32_writeU32 system.version []⟩

/-- **A HELLO is read** where its texts are ASCII. -/
theorem parseHello_eq (agent : AgentIdentity) (system : AgentSystem) :
    parseHello (helloHead agent ++ (stringField agent.build.text ++ desktopField agent system [])) =
      if AsciiText agent.build.text ∧ DesktopAscii agent then .ok (helloValues agent system) else .error notAscii := by
  have hhead : At (helloHead agent ++ (stringField agent.build.text ++ desktopField agent system [])) 0
      (helloHead agent ++ (stringField agent.build.text ++ desktopField agent system [])) := at_start _
  have hbuild := hhead.next
  have hunpack := unpackFrom_at hhead
  have hlength : (helloHead agent).length = 20 := rfl
  rw [Nat.zero_add, hlength] at hbuild
  rw [hlength] at hunpack
  have hlong := hbuild.room
  rw [stringField_length] at hlong
  obtain ⟨hversion, hcapabilities, hmax, hboot, hport, hwinsock⟩ := helloHead_read agent
  have hdesktop := @parseDesktopBlock_at agent system _ _ none (Nat.succ_pos 65535) false
    (fun h => by cases h) hbuild.next
  rw [parseHello, if_neg (by omega)]
  simp only [bind, Except.bind, pure, Except.pure, hunpack]
  rw [parseString_at hbuild (agent.build.length_small (by decide))]
  by_cases hb : AsciiText agent.build.text
  swap
  · rw [if_neg hb, if_neg fun hall => hb hall.1]
  rw [if_pos hb]
  simp only []
  rw [hdesktop]
  by_cases hd : DesktopAscii agent
  · rw [if_pos ⟨hd, fun b hb => by cases hb⟩, if_pos ⟨hb, hd⟩]
    simp only [hversion, hcapabilities, hmax, hboot, hport, hwinsock]
    rfl
  · rw [if_neg fun hall => hd hall.1, if_neg fun hall => hd hall.2]

/-- **So is an INFO.** -/
theorem parseInfo_eq (agent : AgentIdentity) (system : AgentSystem) (flags : UInt32) :
    parseInfo (infoHead agent system ++ (stringFields (infoStrings agent system) ++
        desktopField agent system (((infoInstall agent flags).map stringField).getD []))) =
      if (∀ t ∈ infoStrings agent system, AsciiText t) ∧ DesktopAscii agent ∧
          AsciiText ((infoInstall agent flags).getD []) then .ok (infoValues agent system flags)
      else .error notAscii := by
  have hhead := at_start (infoHead agent system ++ (stringFields (infoStrings agent system) ++
    desktopField agent system (((infoInstall agent flags).map stringField).getD [])))
  have hstrings := hhead.next
  have hunpack := unpackFrom_at hhead
  have hlength : (infoHead agent system).length = 20 := rfl
  rw [Nat.zero_add, hlength] at hstrings
  rw [hlength] at hunpack
  have hlong := hstrings.le
  have hsmall : ∀ t ∈ infoStrings agent system, t.length < 65536 := by
    have hw := windowsVersion_length system.version
    have hv : agentVersionText.length = 6 := rfl
    have hb := agent.build.length_lt
    have hc := system.computer.length_lt
    have hs := system.systemDirectory.length_lt
    have hd := system.windowsDirectory.length_lt
    have hu := system.currentDirectory.length_lt
    simp only [infoStrings, List.forall_mem_cons, List.not_mem_nil, false_implies, implies_true, and_true]
    omega
  have hinstall : ((infoInstall agent flags).getD []).length < 65536 := by
    rw [infoInstall]
    split
    · exact agent.installId.length_small (by decide)
    · exact Nat.succ_pos 65535
  obtain ⟨hboot, huptime, hcapabilities, hport, hwinsock, hversion⟩ := infoHead_read agent system
  have hparsed := parseStrings_at hstrings hsmall
  have hseven : (infoStrings agent system).length = 7 := rfl
  rw [hseven] at hparsed
  have hdesktop := parseDesktopBlock_at hinstall true (fun _ => rfl) hstrings.next
  rw [parseInfo, if_neg (by omega)]
  simp only [bind, Except.bind, pure, Except.pure, hunpack]
  rw [hparsed]
  by_cases hall : ∀ t ∈ infoStrings agent system, AsciiText t
  swap
  · rw [if_neg hall, if_neg fun h => hall h.1]
  rw [if_pos hall]
  simp only []
  rw [hdesktop]
  by_cases hd : DesktopAscii agent ∧ AsciiText ((infoInstall agent flags).getD [])
  · rw [if_pos hd, if_pos ⟨hall, hd⟩]
    simp only [hboot, huptime, hcapabilities, hport, hwinsock, hversion]
    rfl
  · rw [if_neg hd, if_neg fun h => hd h.2]

/-- Both responses fit their buffer and are read as what was sent. -/
def ResponsesDecode (agent : AgentIdentity) (system : AgentSystem) (flags : UInt32) : Prop :=
  (∃ payload, sendHello agent system = some payload ∧ payload.length ≤ responseSize ∧
    parseHello payload = .ok (helloValues agent system)) ∧
  ∃ payload, sendInfo agent system flags = some payload ∧ payload.length ≤ responseSize ∧
    parseInfo payload = .ok (infoValues agent system flags)

/-- Every text of the responses is ASCII. -/
def ResponsesAscii (agent : AgentIdentity) (system : AgentSystem) (flags : UInt32) : Prop :=
  (∀ t ∈ infoStrings agent system, AsciiText t) ∧ DesktopAscii agent ∧ AsciiText ((infoInstall agent flags).getD [])

variable {flags : UInt32}

theorem ascii_of_decode (h : ResponsesDecode agent system flags) : ResponsesAscii agent system flags := by
  obtain ⟨-, payload, hsent, -, hparsed⟩ := h
  rw [(sendInfo_eq agent system flags).1] at hsent
  obtain rfl := Option.some.inj hsent
  rw [parseInfo_eq] at hparsed
  by_contra hnot
  unfold ResponsesAscii at hnot
  rw [if_neg hnot] at hparsed
  cases hparsed

theorem decode_of_ascii (h : ResponsesAscii agent system flags) : ResponsesDecode agent system flags := by
  obtain ⟨hhello, hhelloFits⟩ := sendHello_eq agent system
  obtain ⟨hinfo, hinfoFits⟩ := sendInfo_eq agent system flags
  have hbuild : AsciiText agent.build.text := h.1 _ (List.mem_cons_of_mem _ List.mem_cons_self)
  refine ⟨⟨_, hhello, hhelloFits, ?_⟩, _, hinfo, hinfoFits, ?_⟩
  · rw [parseHello_eq, if_pos ⟨hbuild, h.2.1⟩]
  · rw [parseInfo_eq]
    exact if_pos h

/-- **HELLO and INFO decode** exactly where every text is ASCII. -/
theorem responses_decode_iff (agent : AgentIdentity) (system : AgentSystem) (flags : UInt32) :
    ResponsesDecode agent system flags ↔ ResponsesAscii agent system flags :=
  ⟨ascii_of_decode, decode_of_ascii⟩

/-- A machine whose name is a single letter above ASCII. -/
theorem computer_name_refused : ∃ (agent : AgentIdentity) (system : AgentSystem),
    system.computer.text = [0xC9] ∧ ¬ResponsesDecode agent system 0 := by
  let short : ∀ size, 8 < size → CText size := fun size h => ⟨ascii "V9X", by
    have : (ascii "V9X").length = 3 := rfl
    omega, by decide +kernel⟩
  refine ⟨⟨short 256 (by omega), 0, 1, 0, 257, short 64 (by omega), 9798, short 16 (by omega), short 16 (by omega),
    short 37 (by omega)⟩, ⟨1000, 0x0004, ⟨[0xC9], by decide, by decide +kernel⟩, short 260 (by omega), short 260 (by omega),
      short 260 (by omega), true, 640, 480, 8⟩, rfl, fun h => ?_⟩
  have hname := (ascii_of_decode h).1 [0xC9] (by decide) 0xC9 List.mem_cons_self
  exact absurd hname (by decide)

end

end V9xRemote
