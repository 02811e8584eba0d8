import V9xRemote.Spec.Python

/-!
# The host's decoders (`mcp/v9x_mcp.py`)

What the host makes of a guest's payloads, with every exception on the way. A text is
kept as its bytes. Wire constants of frames are in `Spec.McpClient`.
-/

namespace V9xRemote

open Bytes

/-! ## Strings -/

/-- `encode_string`. -/
def encodeString : PyVal → Except PyExc Bytes
  | .str value =>
    if value.any fun code => code == 0 || code > 127 then
      .error (v9xFail "protocol strings must be non-NUL 7-bit ASCII")
    else if value.length > 65535 then .error (v9xFail "string exceeds protocol limit")
    else (packUnsigned 2 value.length).map (· ++ value.map UInt8.ofNat)
  | _ => .error (v9xFail "protocol strings must be str")

/-- The bytes of a protocol string, and the offset behind it. -/
def parseStringBytes (payload : Bytes) (offset : ℕ) : Except PyExc (Bytes × ℕ) := do
  if offset + 2 > payload.length then
    throw (v9xFail "truncated protocol string length")
  let raw ← unpackFrom payload offset 2
  let length := (raw.readU16 0).toNat
  if offset + 2 + length > payload.length then
    throw (v9xFail "truncated protocol string")
  return ((payload.drop (offset + 2)).take length, offset + 2 + length)

/-- `parse_string`: ASCII. -/
def parseString (payload : Bytes) (offset : ℕ) : Except PyExc (Bytes × ℕ) := do
  let (text, offset) ← parseStringBytes payload offset
  if text.any (· > 127) then
    throw (valueError "'ascii' codec can't decode byte")
  return (text, offset)

/-- `parse_ansi_string`. -/
def parseAnsiString (payload : Bytes) (offset : ℕ) : Except PyExc (Bytes × ℕ) :=
  parseStringBytes payload offset

/-! ## File tools, processes, windows, registry -/

structure ReadText where
  fileSize : UInt32
  lines : UInt32
  matched : UInt32
  returned : UInt32
  flags : UInt32
  text : Bytes
deriving DecidableEq, Repr

/-- `parse_read_text`. -/
def parseReadText (payload : Bytes) : Except PyExc ReadText := do
  if payload.length < 24 then
    throw (v9xFail "truncated FILE_READ_TEXT_RESPONSE")
  let head ← unpackFrom payload 0 24
  if 24 + (head.readU32 20).toNat ≠ payload.length then
    throw (v9xFail "FILE_READ_TEXT_RESPONSE length mismatch")
  return ⟨head.readU32 0, head.readU32 4, head.readU32 8, head.readU32 12, head.readU32 16, payload.drop 24⟩

/-- `count` entries one after the other, from an offset on. -/
def parseEntries {α : Type} (entry : ℕ → Except PyExc (α × ℕ)) : ℕ → ℕ → Except PyExc (List α × ℕ)
  | 0, offset => .ok ([], offset)
  | count + 1, offset => do
    let (first, offset) ← entry offset
    let (rest, offset) ← parseEntries entry count offset
    return (first :: rest, offset)

structure GuestProcess where
  pid : UInt32
  parent : UInt32
  threads : UInt32
  flags : UInt32
  job : UInt32
  path : Bytes
deriving DecidableEq, Repr

/-- The last part of a path. -/
def GuestProcess.name (p : GuestProcess) : Bytes :=
  (p.path.reverse.takeWhile fun ch => ch != 92 && ch != 47 && ch != 58).reverse

def parseProcess (payload : Bytes) (offset : ℕ) : Except PyExc (GuestProcess × ℕ) := do
  if offset + 20 > payload.length then
    throw (v9xFail "truncated process entry")
  let head ← unpackFrom payload offset 20
  let (path, offset) ← parseAnsiString payload (offset + 20)
  return (⟨head.readU32 0, head.readU32 4, head.readU32 8, head.readU32 12, head.readU32 16, path⟩, offset)

/-- `parse_process_list`. -/
def parseProcessList (payload : Bytes) : Except PyExc (List GuestProcess) := do
  if payload.length < 4 then
    throw (v9xFail "truncated PROCESS_LIST_RESPONSE")
  let head ← unpackFrom payload 0 4
  let (processes, offset) ← parseEntries (parseProcess payload) (head.readU32 0).toNat 4
  if offset ≠ payload.length then
    throw (v9xFail "PROCESS_LIST_RESPONSE contains trailing data")
  return processes

structure GuestWindow where
  handle : UInt32
  pid : UInt32
  flags : UInt32
  left : ℤ
  top : ℤ
  right : ℤ
  bottom : ℤ
  className : Bytes
  title : Bytes
deriving DecidableEq, Repr

def GuestWindow.width (w : GuestWindow) : ℤ := w.right - w.left
def GuestWindow.height (w : GuestWindow) : ℤ := w.bottom - w.top
def GuestWindow.minimized (w : GuestWindow) : Bool := w.flags &&& 2 != 0

def parseWindow (payload : Bytes) (offset : ℕ) : Except PyExc (GuestWindow × ℕ) := do
  if offset + 28 > payload.length then
    throw (v9xFail "truncated window entry")
  let head ← unpackFrom payload offset 28
  let (className, offset) ← parseAnsiString payload (offset + 28)
  let (title, offset) ← parseAnsiString payload offset
  return (⟨head.readU32 0, head.readU32 4, head.readU32 8, readS32 head 12, readS32 head 16, readS32 head 20,
    readS32 head 24, className, title⟩, offset)

/-- `parse_window_list`. -/
def parseWindowList (payload : Bytes) : Except PyExc (List GuestWindow) := do
  if payload.length < 8 then
    throw (v9xFail "truncated WINDOW_LIST_RESPONSE")
  let head ← unpackFrom payload 0 8
  let (windows, offset) ← parseEntries (parseWindow payload) (head.readU32 0).toNat 8
  if offset ≠ payload.length then
    throw (v9xFail "WINDOW_LIST_RESPONSE contains trailing data")
  return windows

structure RegValue where
  name : Bytes
  type : UInt32
  raw : Bytes
deriving DecidableEq, Repr

def parseRegValue (payload : Bytes) (offset : ℕ) : Except PyExc (RegValue × ℕ) := do
  let (name, offset) ← parseAnsiString payload offset
  if offset + 8 > payload.length then
    throw (v9xFail "truncated registry value")
  let head ← unpackFrom payload offset 8
  let length := (head.readU32 4).toNat
  let raw := (payload.drop (offset + 8)).take length
  if raw.length ≠ length then
    throw (v9xFail "truncated registry data")
  -- a DWORD is read out of its data
  if head.readU32 0 = 4 && length ≥ 4 then
    let _ ← unpackFrom raw 0 4
  return (⟨name, head.readU32 0, raw⟩, offset + 8 + length)

structure RegKey where
  subkeys : List Bytes
  values : List RegValue
  flags : UInt32
deriving DecidableEq, Repr

/-- `parse_reg_query`. -/
def parseRegQuery (payload : Bytes) : Except PyExc RegKey := do
  if payload.length < 12 then
    throw (v9xFail "truncated REG_QUERY_RESPONSE")
  let head ← unpackFrom payload 0 12
  let (subkeys, offset) ← parseEntries (parseAnsiString payload) (head.readU32 0).toNat 12
  let (values, offset) ← parseEntries (parseRegValue payload) (head.readU32 4).toNat offset
  if offset ≠ payload.length then
    throw (v9xFail "REG_QUERY_RESPONSE contains trailing data")
  return ⟨subkeys, values, head.readU32 8⟩

structure DirEntryInfo where
  attributes : UInt32
  size : UInt32
  name : Bytes
deriving DecidableEq, Repr

def parseDirEntry (payload : Bytes) (offset : ℕ) : Except PyExc (DirEntryInfo × ℕ) := do
  if offset + 8 > payload.length then
    throw (v9xFail "truncated directory entry")
  let head ← unpackFrom payload offset 8
  let (name, offset) ← parseString payload (offset + 8)
  return (⟨head.readU32 0, head.readU32 4, name⟩, offset)

/-- The listing `list_dir` reads. -/
def parseDirList (payload : Bytes) : Except PyExc (List DirEntryInfo) := do
  if payload.length < 4 then
    throw (v9xFail "truncated FILE_LIST_RESPONSE")
  let head ← unpackFrom payload 0 4
  let (entries, offset) ← parseEntries (parseDirEntry payload) (head.readU32 0).toNat 4
  if offset ≠ payload.length then
    throw (v9xFail "directory listing contains trailing data")
  return entries

/-! ## HELLO, INFO and INVENTORY -/

structure DesktopBlock where
  pendingJob : Bytes
  desktopReady : Bool
  screenWidth : ℕ
  screenHeight : ℕ
  bitsPerPixel : ℕ
  listenAddress : Bytes
  allowedClient : Bytes
  installId : Bytes
deriving DecidableEq, Repr

/-- A string that may be missing at the end of a payload. -/
def parseTail (payload : Bytes) (offset : ℕ) : Except PyExc (Bytes × ℕ) :=
  if offset < payload.length then parseString payload offset else .ok ([], offset)

/-- `parse_desktop_block`. -/
def parseDesktopBlock (payload : Bytes) (offset : ℕ) (installId : Bool) : Except PyExc DesktopBlock := do
  let (pendingJob, offset) ← parseTail payload offset
  let (ready, screen, offset) ←
    if offset + 16 ≤ payload.length then do
      let screen ← unpackFrom payload (offset + 4) 12
      pure (payload.at' offset != 0, screen, offset + 16)
    else pure (false, [], offset)
  let (listenAddress, offset) ← parseTail payload offset
  let (allowedClient, offset) ← parseTail payload offset
  let (install, offset) ← if installId then parseTail payload offset else pure ([], offset)
  if offset ≠ payload.length then
    throw (v9xFail "response contains trailing data")
  return ⟨pendingJob, ready, (screen.readU32 0).toNat, (screen.readU32 4).toNat, (screen.readU32 8).toNat,
    listenAddress, allowedClient, install⟩

structure Hello where
  protocolVersion : UInt16
  capabilities : UInt32
  maxPayload : UInt32
  bootCounter : UInt32
  port : UInt16
  winsockVersion : UInt16
  buildId : Bytes
  desktop : DesktopBlock
deriving DecidableEq, Repr

/-- `parse_hello`. -/
def parseHello (payload : Bytes) : Except PyExc Hello := do
  if payload.length < 22 then
    throw (v9xFail "truncated HELLO response")
  let head ← unpackFrom payload 0 20
  let (buildId, offset) ← parseString payload 20
  let desktop ← parseDesktopBlock payload offset false
  return ⟨head.readU16 0, head.readU32 4, head.readU32 8, head.readU32 12, head.readU16 16, head.readU16 18,
    buildId, desktop⟩

structure AgentInfo where
  bootCounter : UInt32
  uptime : UInt32
  capabilities : UInt32
  port : UInt16
  winsockVersion : UInt16
  rawWindowsVersion : UInt32
  /-- agent version, build, computer name, Windows version, and the system, Windows and
  current directories -/
  strings : List Bytes
  desktop : DesktopBlock
deriving DecidableEq, Repr

/-- `parse_info`. -/
def parseInfo (payload : Bytes) : Except PyExc AgentInfo := do
  if payload.length < 20 then
    throw (v9xFail "truncated INFO response")
  let head ← unpackFrom payload 0 20
  let (strings, offset) ← parseEntries (parseString payload) 7 20
  let desktop ← parseDesktopBlock payload offset true
  return ⟨head.readU32 0, head.readU32 4, head.readU32 8, head.readU16 12, head.readU16 14, head.readU32 16,
    strings, desktop⟩

def AgentInfo.agentVersion (info : AgentInfo) : Bytes := info.strings.headD []

def parseField (payload : Bytes) (offset : ℕ) : Except PyExc ((Bytes × Bytes) × ℕ) := do
  let (key, offset) ← parseString payload offset
  let (value, offset) ← parseString payload offset
  return ((key, value), offset)

/-- A record: its type and its fields in their order. -/
def parseRecord (payload : Bytes) (offset : ℕ) : Except PyExc ((Bytes × List (Bytes × Bytes)) × ℕ) := do
  let (type, offset) ← parseString payload offset
  if offset + 2 > payload.length then
    throw (v9xFail "truncated INVENTORY record")
  let head ← unpackFrom payload offset 2
  let (fields, offset) ← parseEntries (parseField payload) (head.readU16 0).toNat (offset + 2)
  return ((type, fields), offset)

/-- `parse_inventory`. -/
def parseInventory (payload : Bytes) : Except PyExc (List (Bytes × List (Bytes × Bytes))) := do
  if payload.length < 2 then
    throw (v9xFail "truncated INVENTORY response")
  let head ← unpackFrom payload 0 2
  let (records, offset) ← parseEntries (parseRecord payload) (head.readU16 0).toNat 2
  if offset ≠ payload.length then
    throw (v9xFail "response contains trailing data")
  return records

/-- A value in a record's dictionary: a text, or the list of a key's texts where it repeats. -/
inductive FieldValue
  | text (value : Bytes)
  | list (values : List Bytes)
deriving DecidableEq, Repr

/-- A further value of a key. -/
def FieldValue.append : FieldValue → Bytes → FieldValue
  | .text first, value => .list [first, value]
  | .list values, value => .list (values ++ [value])

/-- A field put into a dictionary, whose keys stand in the order they came. -/
def addField (fields : List (Bytes × FieldValue)) (field : Bytes × Bytes) : List (Bytes × FieldValue) :=
  if fields.any (·.1 == field.1) then
    fields.map fun (key, value) => if key == field.1 then (key, value.append field.2) else (key, value)
  else fields ++ [(field.1, .text field.2)]

/-- A record with its fields as a dictionary. -/
def recordDict (record : Bytes × List (Bytes × Bytes)) : Bytes × List (Bytes × FieldValue) :=
  (record.1, record.2.foldl addField [])

/-- What `parse_inventory` returns: its records, with a dictionary each. -/
def parseInventoryDicts (payload : Bytes) : Except PyExc (List (Bytes × List (Bytes × FieldValue))) :=
  (parseInventory payload).map (List.map recordDict)

end V9xRemote
