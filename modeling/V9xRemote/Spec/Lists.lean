import V9xRemote.Spec.Responses

/-!
# List responses (`src/guest/tools.c`)

REG_QUERY, PROCESS_LIST and WINDOW_LIST, as far as the payload that is sent, over what the
system lists. A name that a caller's buffer does not hold is an error of the system's
(`ERROR_MORE_DATA`); the counts and flags at a payload's start are written last.
-/

namespace V9xRemote

open Bytes

def listResponseSize : ℕ := 16384
def listMaxPath : ℕ := 260

/-! ## The registry -/

structure RegistryValue where
  name : Bytes
  type : UInt32
  data : Bytes
deriving DecidableEq, Repr

/-- A key as the system enumerates it. -/
structure RegistryKey where
  subkeys : List Bytes
  values : List RegistryValue
deriving DecidableEq, Repr

def regTruncated : UInt32 := 1

/-- The subkeys' names: what is written, how many, and whether the answer is full. -/
def regSubkeys (out : Bytes) (count : ℕ) : List Bytes → Bytes × ℕ × Bool
  | [] => (out, count, false)
  | name :: names =>
    if name.length ≥ listMaxPath then (out, count, false)
    else
      match appendString listResponseSize out name with
      | none => (out, count, true)
      | some out => regSubkeys out (count + 1) names

/-- No room for a name, a type and a length; asked before each value is. -/
def regValueFull (out : Bytes) : Bool := out.length + 2 + listMaxPath + 8 > listResponseSize

/-- The values. Each one's data is read behind a gap that its name fits in, and then moved
down. -/
def regValues (out : Bytes) (count : ℕ) : List RegistryValue → Bytes × ℕ × Bool
  | [] => (out, count, regValueFull out)
  | value :: values =>
    if regValueFull out then (out, count, true)
    else if value.name.length ≥ listMaxPath ∨ value.data.length > listResponseSize - out.length - 2 - listMaxPath - 8 then
      (out, count, true)
    else
      match appendString listResponseSize out value.name with
      | none => (out, count, true)
      | some out =>
        regValues (out ++ (writeU32 value.type ++ (writeU32 (UInt32.ofNat value.data.length) ++ value.data)))
          (count + 1) values

/-- `v9x_handle_reg_query`, behind the key's opening. -/
def handleRegQuery (key : RegistryKey) : Bytes :=
  let (out, subkeys, full) := regSubkeys (List.replicate 12 0) 0 key.subkeys
  let (out, values, full) := if full then (out, 0, full) else regValues out 0 key.values
  writeU32 (UInt32.ofNat subkeys) ++ (writeU32 (UInt32.ofNat values) ++
    (writeU32 (if full then regTruncated else 0) ++ out.drop 12))

/-! ## Processes -/

/-- `PROCESSENTRY32`. -/
structure ProcessEntry where
  pid : UInt32
  parent : UInt32
  threads : UInt32
  exeFile : CText 260

/-- A slot of the execution pool. -/
structure ExecJob where
  processId : UInt32
  active : Bool
  requestId : UInt32
deriving DecidableEq, Repr

def processAgentJob : UInt32 := 1
def processAgent : UInt32 := 2

/-- `v9x_agent_job`. -/
def agentJob (pool : List ExecJob) (pid : UInt32) : Option UInt32 :=
  (pool.find? fun slot => pid != 0 && slot.processId == pid && slot.active).map (·.requestId)

def processFlags (self : UInt32) (pool : List ExecJob) (pid : UInt32) : UInt32 :=
  (if pid = self then processAgent else 0) ||| (if (agentJob pool pid).isSome then processAgentJob else 0)

/-- The entries: what is written, and how many. -/
def processEntries (self : UInt32) (pool : List ExecJob) (out : Bytes) (count : ℕ) : List ProcessEntry → Bytes × ℕ
  | [] => (out, count)
  | entry :: entries =>
    if out.length + 20 > listResponseSize then (out, count)
    else
      let head := writeU32 entry.pid ++ writeU32 entry.parent ++ writeU32 entry.threads ++
        writeU32 (processFlags self pool entry.pid) ++ writeU32 ((agentJob pool entry.pid).getD 0)
      match appendString listResponseSize (out ++ head) entry.exeFile.text with
      | none => (out, count)
      | some out => processEntries self pool out (count + 1) entries

/-- `v9x_handle_process_list`, behind the snapshot. -/
def processList (self : UInt32) (pool : List ExecJob) (entries : List ProcessEntry) : Bytes :=
  let (out, count) := processEntries self pool (List.replicate 4 0) 0 entries
  writeU32 (UInt32.ofNat count) ++ out.drop 4

/-! ## Windows -/

/-- A window as the system shows it. -/
structure SystemWindow where
  visible : Bool
  handle : UInt32
  pid : UInt32
  foreground : Bool
  iconic : Bool
  left : Int32
  top : Int32
  right : Int32
  bottom : Int32
  className : CText 64
  title : CText 160

def windowForeground : UInt32 := 1
def windowMinimized : UInt32 := 2

def windowFlags (window : SystemWindow) : UInt32 :=
  (if window.foreground then windowForeground else 0) ||| (if window.iconic then windowMinimized else 0)

/-- `v9x_window_entry`, window by window: what is written, how many, and whether the answer is
full. -/
def windowEntries (out : Bytes) (count : ℕ) : List SystemWindow → Bytes × ℕ × Bool
  | [] => (out, count, false)
  | window :: windows =>
    if !window.visible then windowEntries out count windows
    else if out.length + 32 > listResponseSize then (out, count, true)
    else
      let head := writeU32 window.handle ++ writeU32 window.pid ++ writeU32 (windowFlags window) ++
        writeU32 window.left.toUInt32 ++ writeU32 window.top.toUInt32 ++ writeU32 window.right.toUInt32 ++
        writeU32 window.bottom.toUInt32
      match appendStrings listResponseSize (out ++ head) [window.className.text, window.title.text] with
      | none => (out, count, true)
      | some out => windowEntries out (count + 1) windows

/-- `v9x_handle_window_list`. -/
def windowList (windows : List SystemWindow) : Bytes :=
  let (out, count, full) := windowEntries (List.replicate 8 0) 0 windows
  writeU32 (UInt32.ofNat count) ++ (writeU32 (if full then 1 else 0) ++ out.drop 8)

end V9xRemote
