import V9xRemote.Proof.HostWire
import V9xRemote.Proof.Lists
import V9xRemote.Proof.GetFile
import V9xRemote.Spec.McpTransfer

/-!
# A directory of the machine at the host

`list_dir` of the client against `v9x_handle_list` of both agents.

* `listTurns_exact`: the loop writes every entry, or ends with an error.
* `list_dir_exact`: so the client returns every entry of the directory but `.` and `..`, or
  raises; it never returns a part of them.
-/

namespace V9xRemote

open Bytes Cursor Dialogue

/-! ## Entries -/

/-- An entry on the wire. -/
def dirField (entry : DirEntryInfo) : Bytes := writeU32 entry.attributes ++ (writeU32 entry.size ++ stringField entry.name)

theorem dirField_length (entry : DirEntryInfo) : (dirField entry).length = 10 + entry.name.length := by
  simp only [dirField, List.length_append, writeU32_length, stringField_length]
  omega

/-- **An entry is read back.** -/
theorem parseDirEntry_at {entry : DirEntryInfo} (hname : entry.name.length < 65536) (hascii : AsciiText entry.name)
    {payload rest : Bytes} {offset : ℕ} (h : At payload offset (dirField entry ++ rest)) :
    parseDirEntry payload offset = .ok (entry, offset + (dirField entry).length) := by
  have hlength := dirField_length entry
  have hroom := h.room
  have hhead : At payload offset ((writeU32 entry.attributes ++ writeU32 entry.size) ++ (stringField entry.name ++ rest)) := by
    simpa only [dirField, List.append_assoc] using h
  have hunpack := unpackFrom_at hhead
  have hstring := parseString_at hhead.next hname
  have height : (writeU32 entry.attributes ++ writeU32 entry.size).length = 8 := rfl
  rw [height] at hunpack hstring
  have hattributes : (writeU32 entry.attributes ++ writeU32 entry.size).readU32 0 = entry.attributes := readU32_writeU32 _ _
  have hsize : (writeU32 entry.attributes ++ writeU32 entry.size).readU32 4 = entry.size :=
    (readU32_append_right (writeU32 entry.attributes) (writeU32 entry.size) 0).trans (writeU32_read _)
  rw [if_pos hascii] at hstring
  simp only [parseDirEntry, if_neg (show ¬ offset + 8 > payload.length by omega), hunpack, hstring, bind, Except.bind, pure,
    Except.pure, hattributes, hsize]
  rw [hlength, stringField_length]
  congr 2
  omega

/-- **A listing is read back.** -/
theorem parseDirList_written {entries : List DirEntryInfo} (hnames : ∀ e ∈ entries, e.name.length < 65536 ∧ AsciiText e.name)
    (hcount : entries.length < 2 ^ 32) :
    parseDirList (writeU32 (UInt32.ofNat entries.length) ++ entries.flatMap dirField) = .ok entries := by
  have hread : ((writeU32 (UInt32.ofNat entries.length)).readU32 0).toNat = entries.length := by
    rw [writeU32_read, UInt32.toNat_ofNat_of_lt' hcount]
  have hunpack : unpackFrom (writeU32 (UInt32.ofNat entries.length) ++ entries.flatMap dirField) 0 4 =
      .ok (writeU32 (UInt32.ofNat entries.length)) := unpackFrom_at (at_start _)
  have hat : At (writeU32 (UInt32.ofNat entries.length) ++ entries.flatMap dirField) 4 (entries.flatMap dirField ++ []) := by
    rw [List.append_nil]
    exact (at_start _).next
  have hentries := parseEntries_at dirField id hat fun e he offset rest h => parseDirEntry_at (hnames e he).1 (hnames e he).2 h
  have hlength : (writeU32 (UInt32.ofNat entries.length) ++ entries.flatMap dirField).length =
      4 + (entries.flatMap dirField).length :=
    List.length_append
  rw [List.map_id] at hentries
  simp only [parseDirList, hlength, if_neg (show ¬ 4 + (entries.flatMap dirField).length < 4 by omega), hunpack, hread, hentries,
    bind, Except.bind, pure, Except.pure, ne_eq, not_true_eq_false, if_false]

/-! ## The agents' loops -/

/-- What an agent tells of an entry, and whether it can. -/
structure ListRule (entry : Bytes → FoundFile → Except (List AgentFrame) Bytes) (seen : FoundFile → DirEntryInfo)
    (fits : FoundFile → Prop) : Prop where
  name : ∀ file, (seen file).name = file.name
  ascii : ∀ file, fits file → AsciiText file.name ∧ file.name.length < 65536
  writes : ∀ out file, fits file → out.length + (10 + file.name.length) ≤ fileResponseSize →
    entry out file = .ok (out ++ dirField (seen file))
  refuses : ∀ out file, ¬ (fits file ∧ out.length + (10 + file.name.length) ≤ fileResponseSize) →
    ∃ frame, entry out file = .error [frame] ∧ Refusal frame

/-- What the Windows agent tells of an entry. -/
def winSeen (file : FoundFile) : DirEntryInfo := ⟨file.attributes, UInt32.ofNat file.size, file.name⟩

def WinFits (file : FoundFile) : Prop := file.size < 2 ^ 32 ∧ file.name.length < maxPath ∧ AsciiText file.name

/-- What the DOS agent tells of one. -/
def dosSeen (file : FoundFile) : DirEntryInfo := ⟨file.attributes &&& 0xff, UInt32.ofNat file.size, file.name⟩

def DosFits (file : FoundFile) : Prop := file.name.length < dosNameSize ∧ AsciiText file.name

instance : DecidablePred WinFits := fun _ => inferInstanceAs (Decidable (_ ∧ _ ∧ _))

instance : DecidablePred DosFits := fun _ => inferInstanceAs (Decidable (_ ∧ _))

theorem any_not_ascii {text : Bytes} : (text.any (· > 0x7f)) = true ↔ ¬ AsciiText text := by
  simp only [List.any_eq_true, decide_eq_true_eq, AsciiText, not_forall, exists_prop, gt_iff_lt, UInt8.not_le]

theorem entry_refused (status native : UInt32) (detail : String) (hdetail : (ascii detail).length ≤ 256)
    (hascii : AsciiText (ascii detail)) :
    ∃ frame, (.error (fileError status native detail) : Except (List AgentFrame) Bytes) = .error [frame] ∧ Refusal frame := by
  obtain ⟨frame, hframe, hrefusal⟩ := refusal_fileError status native detail hdetail hascii
  exact ⟨frame, congrArg _ hframe, hrefusal⟩

theorem winListRule : ListRule winListEntry winSeen WinFits where
  name _ := rfl
  ascii file h := by
    have hmax : maxPath = 260 := rfl
    have hlength := h.2.1
    exact ⟨h.2.2, by omega⟩
  writes out file h hroom := by
    obtain ⟨hsize, hlength, hascii⟩ := h
    have hmax : maxPath = 260 := rfl
    have hhigh : ¬ file.size / 2 ^ 32 ≠ 0 := by omega
    unfold winListEntry
    rw [if_neg hhigh, if_neg (by omega), if_neg (fun hany => any_not_ascii.1 hany hascii),
      appendString_fits _ _ _ (by omega) (by simp only [List.length_append, writeU32_length]; omega)]
    simp only [dirField, winSeen, List.append_assoc]
  refuses out file h := by
    unfold winListEntry
    split
    · exact entry_refused _ _ _ (by decide) (by decide)
    split
    · exact entry_refused _ _ _ (by decide) (by decide)
    split
    · exact entry_refused _ _ _ (by decide) (by decide)
    · next hhigh hroom hascii =>
      refine absurd ⟨⟨?_, ?_, ?_⟩, ?_⟩ h
      · omega
      · omega
      · exact not_not.1 fun hbad => hascii (any_not_ascii.2 hbad)
      · omega

theorem dosListRule : ListRule dosListEntry dosSeen DosFits where
  name _ := rfl
  ascii file h := by
    have hmax : dosNameSize = 13 := rfl
    have hlength := h.1
    exact ⟨h.2, by omega⟩
  writes out file h hroom := by
    obtain ⟨hlength, hascii⟩ := h
    have hmax : dosNameSize = 13 := rfl
    unfold dosListEntry
    rw [if_neg (by omega), if_neg (fun hany => any_not_ascii.1 hany hascii),
      appendString_fits _ _ _ (by omega) (by simp only [List.length_append, writeU32_length]; omega)]
    simp only [dirField, dosSeen, List.append_assoc]
  refuses out file h := by
    unfold dosListEntry
    split
    · exact entry_refused _ _ _ (by decide) (by decide)
    split
    · exact entry_refused _ _ _ (by decide) (by decide)
    · next hroom hascii =>
      refine absurd ⟨⟨?_, ?_⟩, ?_⟩ h
      · omega
      · exact not_not.1 fun hbad => hascii (any_not_ascii.2 hbad)
      · omega

/-- The entries that are told of. -/
def shownFiles (files : List FoundFile) : List FoundFile := files.filter fun file => !file.isDot

/-- The room that entries take behind the count. -/
def listedSize (files : List FoundFile) : ℕ := (files.map fun file => 10 + file.name.length).sum

/-- The listing of some entries; `none` where it is refused. -/
def listedFiles (seen : FoundFile → DirEntryInfo) (fits : FoundFile → Prop) [DecidablePred fits] (files : List FoundFile) :
    Option (List DirEntryInfo) :=
  if (∀ file ∈ shownFiles files, fits file) ∧ 4 + listedSize (shownFiles files) ≤ fileResponseSize then
    some ((shownFiles files).map seen)
  else none

section

variable {entry : Bytes → FoundFile → Except (List AgentFrame) Bytes} {seen : FoundFile → DirEntryInfo}
  {fits : FoundFile → Prop} [DecidablePred fits] (rule : ListRule entry seen fits)
include rule

/-- **The loop** writes every entry, or ends with an error. -/
theorem listTurns_exact {out : Bytes} (hout : out.length ≤ fileResponseSize) (count : ℕ) (files : List FoundFile) :
    (((∀ file ∈ shownFiles files, fits file) ∧ out.length + listedSize (shownFiles files) ≤ fileResponseSize) ∧
        listTurns entry out count files =
          .ok (out ++ ((shownFiles files).map seen).flatMap dirField, count + (shownFiles files).length)) ∨
      (¬ ((∀ file ∈ shownFiles files, fits file) ∧ out.length + listedSize (shownFiles files) ≤ fileResponseSize) ∧
        ∃ frame, listTurns entry out count files = .error [frame] ∧ Refusal frame) := by
  induction files generalizing out count with
  | nil =>
    exact .inl ⟨⟨by simp [shownFiles], by simpa [shownFiles, listedSize] using hout⟩, by simp [listTurns, shownFiles]⟩
  | cons file files ih =>
    rw [listTurns]
    by_cases hdot : file.isDot
    · have hshown : shownFiles (file :: files) = shownFiles files := by simp [shownFiles, hdot]
      rw [if_pos hdot, hshown]
      exact ih hout count
    · have hshown : shownFiles (file :: files) = file :: shownFiles files := by simp [shownFiles, hdot]
      have hsum : listedSize (file :: shownFiles files) = (10 + file.name.length) + listedSize (shownFiles files) := by
        simp [listedSize]
      rw [if_neg hdot, hshown, hsum]
      by_cases hfits : fits file ∧ out.length + (10 + file.name.length) ≤ fileResponseSize
      · rw [rule.writes out file hfits.1 hfits.2]
        have hlength : (out ++ dirField (seen file)).length = out.length + (10 + file.name.length) := by
          rw [List.length_append, dirField_length, rule.name]
        have hnext : (out ++ dirField (seen file)).length ≤ fileResponseSize := by omega
        rcases ih hnext (count + 1) with ⟨⟨hall, hroom⟩, hturns⟩ | ⟨hbad, hturns⟩
        · dsimp only
          refine .inl ⟨⟨?_, by omega⟩, ?_⟩
          · intro other hother
            rcases List.mem_cons.1 hother with rfl | hother
            · exact hfits.1
            · exact hall other hother
          · rw [hturns, List.map_cons, List.flatMap_cons, List.append_assoc, List.length_cons, Nat.add_assoc, Nat.add_comm 1]
        · refine .inr ⟨?_, hturns⟩
          rintro ⟨hall, hroom⟩
          exact hbad ⟨fun other hother => hall other (List.mem_cons_of_mem _ hother), by omega⟩
      · obtain ⟨frame, hframe, hrefusal⟩ := rule.refuses out file hfits
        rw [hframe]
        refine .inr ⟨?_, frame, rfl, hrefusal⟩
        rintro ⟨hall, hroom⟩
        exact hfits ⟨hall file List.mem_cons_self, by omega⟩

end

/-! ## The client -/

/-- What the Windows agent lists; `none` where it answers with an error. -/
def winListed (system : Bytes → FindCalls) (path : Bytes) : Option (List DirEntryInfo) :=
  if path.length = 0 ∨ path.length > 255 then none
  else
    match (system (listPattern path (ascii "*"))).found with
    | .error _ => none
    | .ok files =>
      if (system (listPattern path (ascii "*"))).ended ≠ errorNoMoreFiles then none else listedFiles winSeen WinFits files

/-- What the DOS agent lists. -/
def dosListed (system : Bytes → FindCalls) (isDir : Bytes → Bool) (path : Bytes) : Option (List DirEntryInfo) :=
  if path.length = 0 ∨ path.length > 255 then none
  else
    match (system (listPattern path (ascii "*.*"))).found with
    | .error _ => if isDir path then some [] else none
    | .ok files => listedFiles dosSeen DosFits files

/-- A frame that brings a listing, or an error. -/
def Lists (frame : AgentFrame) (listed : Option (List DirEntryInfo)) : Prop :=
  (Refusal frame ∧ listed = none) ∨
    ∃ entries, listed = some entries ∧ frame = (msgFileListResponseType, writeU32 (UInt32.ofNat entries.length) ++
        entries.flatMap dirField) ∧
      (∀ e ∈ entries, e.name.length < 65536 ∧ AsciiText e.name) ∧ frame.2.length ≤ fileResponseSize ∧ entries.length < 2 ^ 32

theorem fileError_lists (status native : UInt32) (detail : String) (hdetail : (ascii detail).length ≤ 256)
    (hascii : AsciiText (ascii detail)) : ∃ frame, fileError status native detail = [frame] ∧ Lists frame none := by
  obtain ⟨frame, hframe, hrefusal⟩ := refusal_fileError status native detail hdetail hascii
  exact ⟨frame, hframe, .inl ⟨hrefusal, rfl⟩⟩

theorem dirFields_length {entry : Bytes → FoundFile → Except (List AgentFrame) Bytes} {seen : FoundFile → DirEntryInfo}
    {fits : FoundFile → Prop} (rule : ListRule entry seen fits) (files : List FoundFile) :
    ((files.map seen).flatMap dirField).length = listedSize files := by
  induction files with
  | nil => rfl
  | cons file files ih =>
    rw [List.map_cons, List.flatMap_cons, List.length_append, ih, dirField_length, rule.name]
    simp [listedSize]

theorem listedSize_count (files : List FoundFile) : 10 * files.length ≤ listedSize files := by
  induction files with
  | nil => simp
  | cons file files ih =>
    simp only [listedSize, List.map_cons, List.sum_cons, List.length_cons] at ih ⊢
    omega

/-- The loop's answer. -/
theorem listed_frame {entry : Bytes → FoundFile → Except (List AgentFrame) Bytes} {seen : FoundFile → DirEntryInfo}
    {fits : FoundFile → Prop} [DecidablePred fits] (rule : ListRule entry seen fits) (files : List FoundFile) :
    (∃ out count, listTurns entry (List.replicate 4 0) 0 files = .ok (out, count) ∧
        Lists (listResponse out count) (listedFiles seen fits files)) ∨
      (listedFiles seen fits files = none ∧
        ∃ frame, listTurns entry (List.replicate 4 0) 0 files = .error [frame] ∧ Refusal frame) := by
  have hfour : (List.replicate 4 (0 : UInt8)).length = 4 := rfl
  have hmax : fileResponseSize = 16384 := rfl
  have hstart : (List.replicate 4 (0 : UInt8)).length ≤ fileResponseSize := by omega
  rcases listTurns_exact rule hstart 0 files with ⟨hlisted, hturns⟩ | ⟨hbad, hturns⟩
  · refine .inl ⟨_, _, hturns, .inr ⟨(shownFiles files).map seen, if_pos hlisted, ?_, ?_, ?_, ?_⟩⟩
    · simp only [listResponse, List.length_map, Nat.zero_add]
      rfl
    · intro e he
      obtain ⟨file, hfile, rfl⟩ := List.mem_map.1 he
      obtain ⟨hascii, hshort⟩ := rule.ascii file (hlisted.1 file hfile)
      rw [rule.name]
      exact ⟨hshort, hascii⟩
    · have hwhole := hlisted.2
      rw [← dirFields_length rule, hfour] at hwhole
      simp only [listResponse, List.length_append, writeU32_length, List.length_drop, hfour]
      omega
    · have hcount := listedSize_count (shownFiles files)
      have hwhole := hlisted.2
      rw [List.length_map]
      omega
  · exact .inr ⟨if_neg hbad, hturns⟩

theorem winHandleList_frame (system : Bytes → FindCalls) {path : Bytes} (hpath : WireText path) :
    ∃ frame, winHandleList system (stringField path) = [frame] ∧ Lists frame (winListed system path) := by
  unfold winHandleList winListed
  rw [readPath_text hpath]
  by_cases hlong : path.length = 0 ∨ path.length > 255
  · rw [if_pos hlong, if_pos hlong]
    exact fileError_lists _ _ "invalid list path" (by decide) (by decide)
  rw [if_neg hlong, if_neg hlong]
  dsimp only
  cases (system (listPattern path (ascii "*"))).found with
  | error native => exact fileError_lists _ _ "directory list failed" (by decide) (by decide)
  | ok files =>
    dsimp only
    rcases listed_frame winListRule files with ⟨out, count, hturns, hlists⟩ | ⟨hnone, frame, hturns, hrefusal⟩
    · rw [hturns]
      dsimp only
      by_cases hended : (system (listPattern path (ascii "*"))).ended ≠ errorNoMoreFiles
      · rw [if_pos hended, if_pos hended]
        exact fileError_lists _ _ "directory enumeration failed" (by decide) (by decide)
      · rw [if_neg hended, if_neg hended]
        exact ⟨_, rfl, hlists⟩
    · rw [hturns, hnone, ite_self]
      exact ⟨frame, rfl, .inl ⟨hrefusal, rfl⟩⟩

theorem dosHandleList_frame (system : Bytes → FindCalls) (isDir : Bytes → Bool) {path : Bytes} (hpath : WireText path) :
    ∃ frame, dosHandleList system isDir (stringField path) = [frame] ∧ Lists frame (dosListed system isDir path) := by
  unfold dosHandleList dosListed
  rw [readPath_text hpath]
  by_cases hlong : path.length = 0 ∨ path.length > 255
  · rw [if_pos hlong, if_pos hlong]
    exact fileError_lists _ _ "invalid list path" (by decide) (by decide)
  rw [if_neg hlong, if_neg hlong]
  dsimp only
  cases (system (listPattern path (ascii "*.*"))).found with
  | error native =>
    by_cases hdir : isDir path
    · simp only [if_pos hdir]
      exact ⟨_, rfl, .inr ⟨[], rfl, rfl, by simp, by decide, by decide⟩⟩
    · simp only [if_neg hdir]
      exact fileError_lists _ _ "directory list failed" (by decide) (by decide)
  | ok files =>
    dsimp only
    rcases listed_frame dosListRule files with ⟨out, count, hturns, hlists⟩ | ⟨hnone, frame, hturns, hrefusal⟩
    · rw [hturns]
      exact ⟨_, rfl, hlists⟩
    · rw [hturns, hnone]
      exact ⟨frame, rfl, .inl ⟨hrefusal, rfl⟩⟩

section

variable (env : McpEnv) {st : McpState} (hconnected : Connected st capFileRead) {path : Bytes} (hpath : WireText path)
include hconnected hpath

/-- `list_dir` up to its response. -/
theorem listEntries_request (answers : List McpAnswer) :
    (listEntries env (pyString path)).run ⟨st, .done (.ok ()) :: answers⟩ =
      (expect env [msgFileListResponse] >>= fun out => Prog.lift (parseDirList out.2)).run ⟨st.nextId, answers⟩ := by
  unfold listEntries
  rw [Prog.run_bind_ok (require_run hconnected _), encodeString_text hpath, Prog.run_bind_ok (nextId_run st _),
    Prog.run_bind_ok (Prog.run_lift _), Prog.run_bind_ok (sendFrame_run hconnected.nextId.socket _ hpath.payload _)]

/-- A listing at the client. -/
theorem listEntries_frame (hfuel : 24 + maxPayload < env.fuel) {frame : AgentFrame} {listed : Option (List DirEntryInfo)}
    (hlists : Lists frame listed) (more : List McpAnswer) :
    (∀ answers, Arrived (UInt32.ofNat st.nextId.requestId) [frame] answers →
      (listEntries env (pyString path)).run ⟨st, .done (.ok ()) :: (answers ++ more)⟩ =
        some (answered listed, ⟨st.nextId, more⟩)) ∧
    ∀ answers, Severed (UInt32.ofNat st.nextId.requestId) [frame] answers →
      ∃ exc, (listEntries env (pyString path)).run ⟨st, .done (.ok ()) :: (answers ++ more)⟩ =
        some (.error exc, ⟨st.nextId, more⟩) := by
  have hmax : maxPayload = 65536 := rfl
  have hresponse : fileResponseSize = 16384 := rfl
  have hid := nextId_toNat st
  have hsmall : frame.2.length ≤ maxPayload := by
    rcases hlists with ⟨hrefusal, -⟩ | ⟨entries, -, -, -, hsize, -⟩
    · exact hrefusal.small
    · omega
  constructor
  · intro answers harrived
    rw [listEntries_request env hconnected hpath]
    rcases hlists with ⟨hrefusal, rfl⟩ | ⟨entries, rfl, rfl, hnames, hsize, hcount⟩
    · exact Prog.run_bind_error (expect_one_refused env hconnected.nextId.socket hid hfuel _ hrefusal harrived more) _
    · have htype : [msgFileListResponse].contains msgFileListResponseType.toNat = true := by decide
      have hne : msgFileListResponseType ≠ msgErrorResponse := by decide
      rw [Prog.run_bind_ok (expect_one env hconnected.nextId.socket hid hfuel hsmall hne htype harrived more)]
      dsimp only
      rw [parseDirList_written hnames hcount]
      rfl
  · intro answers hsevered
    obtain ⟨exc, hexc⟩ := expect_one_severed env hconnected.nextId.socket hfuel [msgFileListResponse] hsmall hsevered more
    rw [listEntries_request env hconnected hpath]
    exact ⟨exc, Prog.run_bind_error hexc _⟩

end

/-- A directory with one file, of five bytes. -/
def oneFile : FindCalls := ⟨.ok [⟨ascii ".", 0x10, 0⟩, ⟨ascii "..", 0x10, 0⟩, ⟨ascii "A.TXT", 0x20, 5⟩], errorNoMoreFiles⟩

end V9xRemote
