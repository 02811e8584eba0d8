import V9xRemote.Spec.Delete
import V9xRemote.Spec.DosExec
import V9xRemote.Spec.Download
import V9xRemote.Spec.Serve

/-!
# Reading files and directories (`src/guest/files.c`, `src/guest-dos/files_dos.c`)

FILE_OPEN_READ, FILE_LIST and FILE_STAT of both agents: the frames each handler
sends. What the system says of a path stands beside the handlers; what differs between the
agents is a `ReadPort` or a definition of its own. The event log and the flush of the INI
cache before a file is opened are left out.
-/

namespace V9xRemote

open Bytes

def errorPathNotFound : UInt32 := 3
def errorInsufficientBuffer : UInt32 := 122
def errorInvalidName : UInt32 := 123

/-- ENOENT. -/
def dosErrNoEntry : UInt32 := 1

/-- A frame of an agent: its type and its payload. -/
abbrev AgentFrame : Type := UInt16 × Bytes

/-- `v9x_send_frame`. -/
def agentFrame (requestId : UInt32) (frame : AgentFrame) : Bytes :=
  encodeHeader ⟨protocolVersion, frame.1, requestId, 0, UInt32.ofNat frame.2.length, 0⟩ ++ frame.2

def msgFileStatResponseType : UInt16 := 0x8020
def msgFileListResponseType : UInt16 := 0x8021
def msgFileReadCompleteType : UInt16 := 0x8026
def msgFileReadChunkType : UInt16 := 0x9026

/-- `V9X_LIST_RESPONSE_MAX` and `V9X_DOS_LIST_RESPONSE_MAX`: the size of `file_response`. -/
def fileResponseSize : ℕ := 16384

/-- `v9x_file_error`. -/
def fileError (status native : UInt32) (detail : String) : List AgentFrame :=
  match appendString fileResponseSize (writeU32 status ++ writeU32 native) (ascii detail) with
  | some out => [(msgErrorResponse, out)]
  | none => []

/-! ## FILE_OPEN_READ -/

/-- One read of an open file: the bytes it brings, or the error where it fails or brings none. -/
structure ReadResult where
  ok : Bool
  bytes : Bytes
  error : UInt32

/-- What the system says to the calls of a download, for the file it opens. -/
structure ReadCalls where
  opened : CallResult
  /-- the file's size, where it can be told, and the error behind the question -/
  size : Option ℕ
  sizeError : UInt32
  /-- the read at an offset -/
  reads : ℕ → ReadResult

/-- What one read brings. -/
def ReadCalls.data (calls : ReadCalls) (size offset : ℕ) : Bytes :=
  (calls.reads offset).bytes.take (min (size - offset) fileChunkSize)

/-- A read fails, or comes to the end too soon. -/
def ReadCalls.fails (calls : ReadCalls) (size offset : ℕ) : Bool :=
  !(calls.reads offset).ok || (calls.data size offset).isEmpty

theorem ReadCalls.data_pos {calls : ReadCalls} {size offset : ℕ} (h : ¬ calls.fails size offset) :
    0 < (calls.data size offset).length := by
  have hdata : (calls.data size offset).isEmpty = false := (Bool.or_eq_false_iff.1 (Bool.eq_false_iff.2 h)).2
  exact List.length_pos_of_ne_nil fun hnil => by simp [hnil] at hdata

/-- The loop of `v9x_handle_read`: the chunks it sends, and the running CRC or the error. -/
def readTurns (calls : ReadCalls) (size offset : ℕ) (crc : UInt32) : List AgentFrame × Except UInt32 UInt32 :=
  if _hmore : offset < size then
    if hfails : calls.fails size offset then ([], .error (calls.reads offset).error)
    else
      let data := calls.data size offset
      have _hpos := ReadCalls.data_pos hfails
      let (frames, result) := readTurns calls size (offset + data.length) (crc32Update crc data)
      ((msgFileReadChunkType, writeU32 (UInt32.ofNat offset) ++ data) :: frames, result)
  else ([], .ok crc)
termination_by size - offset

/-- What the reading handlers take from their platform. -/
structure ReadPort where
  errInvalid : UInt32
  fileStatus : UInt32 → UInt32
  /-- the size cannot be told, or is beyond the limit -/
  refused : Option ℕ → Bool
  refused_iff : ∀ size, refused (some size) = false ↔ size ≤ maxFileSize.toNat

/-- `size == 0xffffffff`, `high != 0` or `size > V9X_MAX_FILE_SIZE`. -/
def winRefused : Option ℕ → Bool
  | none => true
  | some size => size % 2 ^ 32 == 0xffffffff || size / 2 ^ 32 != 0 || decide (maxFileSize.toNat < size % 2 ^ 32)

/-- `file_size < 0`, of a `long`, or beyond `V9X_MAX_FILE_SIZE`. -/
def dosRefused : Option ℕ → Bool
  | none => true
  | some size => decide (2 ^ 31 ≤ size) || decide (maxFileSize.toNat < size)

/-- `v9x_handle_read`. -/
def handleRead (port : ReadPort) (system : Bytes → ReadCalls) (payload : Bytes) : List AgentFrame :=
  match readPath payload 0 259 with
  | none => fileError statusInvalidPayload port.errInvalid "invalid read path"
  | some path =>
    let calls := system path
    if !calls.opened.ok then fileError (port.fileStatus calls.opened.error) calls.opened.error "download open failed"
    else if port.refused calls.size then fileError statusLimitExceeded calls.sizeError "download exceeds limits"
    else
      let size := calls.size.getD 0
      match readTurns calls size 0 crc32Begin with
      | (frames, .error native) => frames ++ fileError statusIoFailed native "download read failed"
      | (frames, .ok crc) =>
        frames ++ [(msgFileReadCompleteType, writeU32 (UInt32.ofNat size) ++ writeU32 (crc32End crc))]

def winReadPort : ReadPort where
  errInvalid := errorInvalidParameter
  fileStatus := winFileStatus
  refused := winRefused
  refused_iff := by
    intro size
    have hmax : maxFileSize.toNat = 2147483647 := rfl
    simp only [winRefused, hmax, Bool.or_eq_false_iff, beq_eq_false_iff_ne, bne_eq_false_iff_eq, decide_eq_false_iff_not]
    omega

/-- EINVAL is the C library's. -/
def dosReadPort : ReadPort where
  errInvalid := dosErrInvalid
  fileStatus := dosFileStatus
  refused := dosRefused
  refused_iff := by
    intro size
    have hmax : maxFileSize.toNat = 2147483647 := rfl
    simp only [dosRefused, hmax, Bool.or_eq_false_iff, decide_eq_false_iff_not]
    omega

/-! ## FILE_LIST -/

/-- An entry of a directory, as the system finds it: the name up to its NUL, or what the
buffer for it holds. -/
structure FoundFile where
  name : Bytes
  attributes : UInt32
  size : ℕ

/-- `.` and `..`. -/
def FoundFile.isDot (file : FoundFile) : Bool := file.name == [46] || file.name == [46, 46]

/-- What the system says to the search of a directory: the entries, and the error that ends
them. -/
structure FindCalls where
  found : Except UInt32 (List FoundFile)
  ended : UInt32

/-- `sizeof(find.name)`. -/
def dosNameSize : ℕ := 13

/-- One entry of the loop of `v9x_handle_list`: it goes behind `out`, or there is an error. A DOS
agent has 13 bytes for a name, sees the low byte of the attributes and no high half of a size. -/
def winListEntry (out : Bytes) (file : FoundFile) : Except (List AgentFrame) Bytes :=
  if file.size / 2 ^ 32 ≠ 0 then .error (fileError statusLimitExceeded errorFileTooLarge "listed file too large")
  else if file.name.length ≥ maxPath ∨ out.length + 10 + file.name.length > fileResponseSize then
    .error (fileError statusLimitExceeded errorInsufficientBuffer "directory listing too large")
  else if file.name.any (· > 0x7f) then
    .error (fileError statusInvalidPayload errorInvalidName "non-ASCII directory entry")
  else
    match appendString fileResponseSize (out ++ (writeU32 file.attributes ++ writeU32 (UInt32.ofNat file.size))) file.name with
    | none => .error (fileError statusLimitExceeded errorInsufficientBuffer "directory listing overflow")
    | some out => .ok out

def dosListEntry (out : Bytes) (file : FoundFile) : Except (List AgentFrame) Bytes :=
  if file.name.length ≥ dosNameSize ∨ out.length + 10 + file.name.length > fileResponseSize then
    .error (fileError statusLimitExceeded 0 "directory listing too large")
  else if file.name.any (· > 0x7f) then .error (fileError statusInvalidPayload 0 "non-ASCII directory entry")
  else
    match appendString fileResponseSize
        (out ++ (writeU32 (file.attributes &&& 0xff) ++ writeU32 (UInt32.ofNat file.size))) file.name with
    | none => .error (fileError statusLimitExceeded 0 "directory listing overflow")
    | some out => .ok out

/-- The loop: what it writes behind the count, and how many entries. -/
def listTurns (entry : Bytes → FoundFile → Except (List AgentFrame) Bytes) (out : Bytes) (count : ℕ) :
    List FoundFile → Except (List AgentFrame) (Bytes × ℕ)
  | [] => .ok (out, count)
  | file :: files =>
    if file.isDot then listTurns entry out count files
    else
      match entry out file with
      | .error frames => .error frames
      | .ok out => listTurns entry out (count + 1) files

/-- The answer with `count` entries. -/
def listResponse (out : Bytes) (count : ℕ) : AgentFrame :=
  (msgFileListResponseType, writeU32 (UInt32.ofNat count) ++ out.drop 4)

/-- The pattern of a search. -/
def listPattern (path star : Bytes) : Bytes :=
  path ++ (if path ≠ [] ∧ path.getLast? ≠ some 92 ∧ path.getLast? ≠ some 47 then [92] else []) ++ star

/-- `v9x_handle_list` on Windows. -/
def winHandleList (system : Bytes → FindCalls) (payload : Bytes) : List AgentFrame :=
  match readPath payload 0 255 with
  | none => fileError statusInvalidPayload errorInvalidParameter "invalid list path"
  | some path =>
    let calls := system (listPattern path (ascii "*"))
    match calls.found with
    | .error native => fileError (winFileStatus native) native "directory list failed"
    | .ok files =>
      match listTurns winListEntry (List.replicate 4 0) 0 files with
      | .error frames => frames
      | .ok (out, count) =>
        if calls.ended ≠ errorNoMoreFiles then fileError statusIoFailed calls.ended "directory enumeration failed"
        else [listResponse out count]

/-- On DOS, where the search of a directory without entries fails; `isDir` is asked of the path. -/
def dosHandleList (system : Bytes → FindCalls) (isDir : Bytes → Bool) (payload : Bytes) : List AgentFrame :=
  match readPath payload 0 255 with
  | none => fileError statusInvalidPayload dosErrInvalid "invalid list path"
  | some path =>
    let calls := system (listPattern path (ascii "*.*"))
    match calls.found with
    | .error native =>
      if isDir path then [(msgFileListResponseType, writeU32 0)]
      else fileError (dosFileStatus native) native "directory list failed"
    | .ok files =>
      match listTurns dosListEntry (List.replicate 4 0) 0 files with
      | .error frames => frames
      | .ok (out, count) => [listResponse out count]

/-! ## FILE_STAT -/

/-- What the system says of a path. -/
structure StatCalls where
  attributes : Except UInt32 UInt32
  /-- where it is a file -/
  opened : CallResult
  size : Option ℕ
  sizeError : UInt32

/-- The answer to a FILE_STAT. -/
def statResponse (isThere isDirectory : Bool) (size attributes native : UInt32) : AgentFrame :=
  (msgFileStatResponseType, [if isThere then 1 else 0, if isDirectory then 1 else 0] ++ (writeU16 0 ++ (writeU32 size ++
    (writeU32 attributes ++ writeU32 native))))

/-- FILE_ATTRIBUTE_DIRECTORY and `_A_SUBDIR`. -/
def isDirectory (attributes : UInt32) : Bool := attributes &&& attributeDirectory != 0

/-- `v9x_handle_stat` on Windows. -/
def winHandleStat (system : Bytes → StatCalls) (payload : Bytes) : List AgentFrame :=
  match readPath payload 0 259 with
  | none => fileError statusInvalidPayload errorInvalidParameter "invalid stat path"
  | some path =>
    let calls := system path
    match calls.attributes with
    | .error native =>
      if native ≠ errorFileNotFound ∧ native ≠ errorPathNotFound then
        fileError (winFileStatus native) native "stat attributes failed"
      else [statResponse false false 0 0 native]
    | .ok attributes =>
      if isDirectory attributes then [statResponse true true 0 attributes 0]
      else if !calls.opened.ok then fileError (winFileStatus calls.opened.error) calls.opened.error "stat open failed"
      else
        match calls.size with
        | none => fileError statusIoFailed calls.sizeError "stat size failed"
        | some size =>
          if size % 2 ^ 32 = 0xffffffff then fileError statusIoFailed calls.sizeError "stat size failed"
          else if size / 2 ^ 32 ≠ 0 then fileError statusLimitExceeded errorFileTooLarge "file exceeds v1 size"
          else [statResponse true false (UInt32.ofNat size) attributes 0]

/-- On DOS. -/
def dosHandleStat (system : Bytes → StatCalls) (payload : Bytes) : List AgentFrame :=
  match readPath payload 0 259 with
  | none => fileError statusInvalidPayload dosErrInvalid "invalid stat path"
  | some path =>
    let calls := system path
    match calls.attributes with
    | .error native =>
      if native ≠ dosErrNoEntry then fileError (dosFileStatus native) native "stat attributes failed"
      else [statResponse false false 0 0 dosErrNoEntry]
    | .ok attributes =>
      if isDirectory attributes then [statResponse true true 0 attributes 0]
      else if !calls.opened.ok then fileError (dosFileStatus calls.opened.error) calls.opened.error "stat open failed"
      else
        match calls.size with
        | none => fileError statusIoFailed calls.sizeError "stat size failed"
        | some size =>
          if 2 ^ 31 ≤ size then fileError statusIoFailed calls.sizeError "stat size failed"
          else if maxFileSize.toNat < size then fileError statusLimitExceeded 0 "file exceeds v1 size"
          else [statResponse true false (UInt32.ofNat size) attributes 0]

end V9xRemote
