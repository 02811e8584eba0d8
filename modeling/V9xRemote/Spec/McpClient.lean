import V9xRemote.Spec.McpRelay
import V9xRemote.Spec.McpImage
import V9xRemote.Spec.Upload

/-!
# The host's client (`V9xClient`, `mcp/v9x_mcp.py`)

One connection to the agent over a TCP socket or a relay session. What an operation
returns is kept where a tool goes on with it.
-/

namespace V9xRemote

open Bytes Dialogue Mcp

def wireVersion : ℕ := 0x0100
def wireMagic : Bytes := ascii "V9XR"

def msgHello : ℕ := 0x0001
def msgHelloResponse : ℕ := 0x8001
def msgPing : ℕ := 0x0002
def msgPingResponse : ℕ := 0x8002
def msgExec : ℕ := 0x0010
def msgExecAccepted : ℕ := 0x8010
def msgExecComplete : ℕ := 0x8011
def msgExecStdout : ℕ := 0x9010
def msgExecStderr : ℕ := 0x9011
def msgFileStat : ℕ := 0x0020
def msgFileStatResponse : ℕ := 0x8020
def msgFileList : ℕ := 0x0021
def msgFileListResponse : ℕ := 0x8021
def msgFileMkdir : ℕ := 0x0022
def msgFileMkdirResponse : ℕ := 0x8022
def msgFileOpenWrite : ℕ := 0x0023
def msgFileWriteReady : ℕ := 0x8023
def msgFileWriteChunk : ℕ := 0x0024
def msgFileWriteAck : ℕ := 0x8024
def msgFileCommit : ℕ := 0x0025
def msgFileWriteComplete : ℕ := 0x8025
def msgFileOpenRead : ℕ := 0x0026
def msgFileReadComplete : ℕ := 0x8026
def msgFileReadChunk : ℕ := 0x9026
def msgDownload : ℕ := 0x0027
def msgDownloadProgress : ℕ := 0x9027
def msgDownloadComplete : ℕ := 0x8027
def msgInfo : ℕ := 0x0030
def msgInfoResponse : ℕ := 0x8030
def msgReboot : ℕ := 0x0040
def msgRebootAccepted : ℕ := 0x8040
def msgShutdown : ℕ := 0x0041
def msgShutdownAccepted : ℕ := 0x8041
def msgUpdate : ℕ := 0x0042
def msgUpdateAccepted : ℕ := 0x8042
def msgReset : ℕ := 0x0043
def msgResetAccepted : ℕ := 0x8043
def msgScreenshot : ℕ := 0x0050
def msgScreenshotResponse : ℕ := 0x8050
def msgInput : ℕ := 0x0060
def msgInputResponse : ℕ := 0x8060
def msgWindowList : ℕ := 0x0062
def msgWindowListResponse : ℕ := 0x8062
def msgInventory : ℕ := 0x0070
def msgInventoryResponse : ℕ := 0x8070
def msgFileDelete : ℕ := 0x0028
def msgFileDeleteResponse : ℕ := 0x8028
def msgFileHash : ℕ := 0x0029
def msgFileHashResponse : ℕ := 0x8029
def msgFileReadText : ℕ := 0x002A
def msgFileReadTextResponse : ℕ := 0x802A
def msgProcessList : ℕ := 0x0080
def msgProcessListResponse : ℕ := 0x8080
def msgProcessKill : ℕ := 0x0081
def msgProcessKillResponse : ℕ := 0x8081
def msgRegQuery : ℕ := 0x0090
def msgRegQueryResponse : ℕ := 0x8090
def msgError : ℕ := 0x8FFF

def capInfo : UInt32 := 0x0001
def capExec : UInt32 := 0x0004
def capShell : UInt32 := 0x0008
def capFileRead : UInt32 := 0x0020
def capFileWrite : UInt32 := 0x0040
def capPower : UInt32 := 0x0080
def capScreenshot : UInt32 := 0x0100
def capDriverUpdate : UInt32 := 0x0200
def capInput : UInt32 := 0x0400
def capExecDetach : UInt32 := 0x0800
def capHttpDownload : UInt32 := 0x1000
def capInventory : UInt32 := 0x2000
def capInstallId : UInt32 := 0x4000
def capInputRelative : UInt32 := 0x8000
def capHardReset : UInt32 := 0x10000
def capScreenshotOptions : UInt32 := 0x20000
def capFileTools : UInt32 := 0x40000
def capProcess : UInt32 := 0x80000
def capRegistry : UInt32 := 0x100000
def capWindows : UInt32 := 0x200000

/-! ## Frames -/

/-- `sock.settimeout`, which a relay session keeps. -/
def setTimeout (seconds : ℚ) : Mcp Unit :=
  Prog.modify fun st =>
    { st with session := st.session.map fun s => { s with timeout := max seconds 30 } }

/-- `sock.sendall`. -/
def sockSend (data : Bytes) : Mcp Unit := do
  let st ← Prog.get
  match st.session with
  | some s => sessionSend s data
  | none => call

/-- `sock.recv`. -/
def sockRecv (env : McpEnv) (count : ℕ) : Mcp Bytes := do
  let st ← Prog.get
  match st.session with
  | some s => sessionRecv env s count
  | none => read count

/-- Little-endian fields that are known to fit. -/
def le (bytes n : ℕ) : Bytes := (List.range bytes).map fun i => UInt8.ofNat (n / 256 ^ i % 256)

/-- `send`. -/
def sendFrame (type : ℕ) (payload : Bytes) : Mcp Unit := do
  check (payload.length ≤ maxPayload) "payload exceeds protocol limit"
  let st ← Prog.get
  sockSend (wireMagic ++ le 2 wireVersion ++ le 2 type ++ le 4 st.requestId ++ le 4 0 ++ le 4 payload.length ++
    le 4 0 ++ payload)

/-- One turn of `read_exact`: what is there and what is still to come. -/
def readMore (env : McpEnv) (part : Bytes × ℕ) : Mcp ((Bytes × ℕ) ⊕ Bytes) := do
  if part.2 = 0 then return .inr part.1
  else do
    let data ← sockRecv env part.2
    check (data ≠ []) "peer closed the connection"
    return .inl (part.1 ++ data, part.2 - data.length)

/-- `read_exact`. -/
def readExact (env : McpEnv) (length : ℕ) : Mcp Bytes := Prog.loop (readMore env) env.fuel ([], length)

/-- `recv`: type, request id and payload of a frame. -/
def recvFrame (env : McpEnv) : Mcp (ℕ × ℕ × Bytes) := do
  let header ← readExact env 24
  let head ← Prog.lift (unpackFrom header 0 24)
  let length := (head.readU32 16).toNat
  check (head.take 4 = wireMagic) "invalid V9XR frame magic"
  check (length ≤ maxPayload) "peer payload exceeds protocol limit"
  check (head.readU32 20 = 0) "reserved header field is nonzero"
  let payload ← if length = 0 then pure [] else readExact env length
  return ((head.readU16 6).toNat, (head.readU32 8).toNat, payload)

/-- The exception an ERROR_RESPONSE stands for. -/
def guestError (payload : Bytes) : Except PyExc PyExc := do
  if payload.length < 10 then
    throw (v9xFail "truncated ERROR_RESPONSE")
  let _ ← unpackFrom payload 0 8
  let _ ← parseString payload 8
  return ⟨.v9xGuestError, "guest error"⟩

/-- `expect`: type and payload of a response. -/
def expect (env : McpEnv) (types : List ℕ) : Mcp (ℕ × Bytes) := do
  let (type, requestId, payload) ← recvFrame env
  let st ← Prog.get
  check (requestId = st.requestId) "response request ID does not match"
  if type = msgError then do
    let exc ← Prog.lift (guestError payload)
    Prog.raise exc
  check (types.contains type) "unexpected response type"
  Prog.note (.response type payload)
  return (type, payload)

/-- `next_id`. -/
def nextId : Mcp Unit := Prog.modify fun st => { st with requestId := st.requestId % 0x7FFFFFFE + 1 }

def clientHello : Mcp Hello := do
  let st ← Prog.get
  match st.hello with
  | some hello => pure hello
  | none => fail "no HELLO"

/-- `require`. -/
def require (capability : UInt32) : Mcp Unit := do
  let hello ← clientHello
  check (hello.capabilities &&& capability != 0) "agent does not advertise support"

/-- A request and its one response; `tool_request`, and the same in the operations
written before it. -/
def request (env : McpEnv) (capability : UInt32) (type : ℕ) (payload : Bytes) (response : ℕ) : Mcp Bytes := do
  require capability
  nextId
  sendFrame type payload
  let (_, answer) ← expect env [response]
  return answer

/-- `V9xClient.__init__` behind the connection. -/
def clientStart (env : McpEnv) (label : Bytes) : Mcp Hello := do
  -- a request id from the clock
  let now ← monotonic
  Prog.modify fun st => { st with requestId := (⌊now * 1000⌋.toNat) % 0x7FFFFFF0 + 1, hello := none }
  sendFrame msgHello (le 2 wireVersion ++ le 2 wireVersion ++ le 2 label.length ++ label)
  let (_, payload) ← expect env [msgHelloResponse]
  let hello ← Prog.lift (parseHello payload)
  Prog.modify fun st => { st with hello := some hello }
  check (hello.protocolVersion.toNat = wireVersion) "no compatible protocol version"
  return hello

/-- `close`: a socket's OSError is ignored. -/
def clientClose : Mcp Unit := do
  let st ← Prog.get
  match st.session with
  | some s => except (closeSession s) ExcClass.isOSError fun _ => pure ()
  | none => except call ExcClass.isOSError fun _ => pure ()

/-! ## Operations -/

/-- `ping`. -/
def ping (env : McpEnv) : Mcp Unit := do
  nextId
  sendFrame msgPing []
  let (_, payload) ← expect env [msgPingResponse]
  let _ ← Prog.lift (unpackFrom payload 0 8)
  return ()

/-- `info`. -/
def info (env : McpEnv) : Mcp AgentInfo := do
  require capInfo
  let hello ← clientHello
  nextId
  sendFrame msgInfo (if hello.capabilities &&& capInstallId != 0 then le 4 1 else [])
  let (_, payload) ← expect env [msgInfoResponse]
  Prog.lift (parseInfo payload)

/-- `inventory`. -/
def inventory (env : McpEnv) : Mcp Unit := do
  let payload ← request env capInventory msgInventory [] msgInventoryResponse
  let _ ← Prog.lift (parseInventory payload)
  return ()

structure ExecResult where
  result : UInt32
  exitCode : UInt32
deriving DecidableEq, Repr

/-- The request of `execute`. -/
structure ExecRequest where
  shell : Bool
  application : PyVal
  arguments : PyVal
  workingDir : PyVal
  timeoutMs : ℤ
  showWindow : Bool
  detach : Bool

/-- The payload of an EXEC. -/
def execPayload (r : ExecRequest) : Except PyExc Bytes := do
  let timeout ← packUnsigned 4 r.timeoutMs
  return le 1 r.shell.toNat ++ le 1 r.showWindow.toNat ++ le 2 r.detach.toNat ++ timeout ++ le 4 262144 ++ le 4 262144

/-- One frame of a running EXEC. -/
def execFrame (env : McpEnv) (_ : Unit) : Mcp (Unit ⊕ Bytes) := do
  let (type, data) ← expect env [msgExecStdout, msgExecStderr, msgExecComplete]
  return if type = msgExecComplete then .inr data else .inl ()

/-- `execute`. -/
def execute (env : McpEnv) (r : ExecRequest) : Mcp ExecResult := do
  require (if r.shell then capShell else capExec)
  if r.detach then
    require capExecDetach
  let head ← arg (execPayload r)
  let application ← Prog.lift (encodeString r.application)
  let arguments ← Prog.lift (encodeString r.arguments)
  let workingDir ← Prog.lift (encodeString r.workingDir)
  setTimeout (r.timeoutMs / 1000 + 20)
  Prog.andFinally (do
    nextId
    sendFrame msgExec (head ++ application ++ arguments ++ workingDir)
    let (_, accepted) ← expect env [msgExecAccepted]
    check (accepted.length = 4) "invalid EXEC_ACCEPTED payload"
    let data ← Prog.loop (execFrame env) env.fuel ()
    check (data.length = 28) "invalid EXEC_COMPLETE payload"
    let fields ← Prog.lift (unpackFrom data 0 28)
    pure ⟨fields.readU32 0, fields.readU32 4⟩) (setTimeout env.timeout)

structure FileStat where
  isThere : Bool
  size : UInt32
deriving DecidableEq, Repr

/-- `stat`. -/
def stat (env : McpEnv) (guestPath : PyVal) : Mcp FileStat := do
  require capFileRead
  nextId
  let path ← Prog.lift (encodeString guestPath)
  sendFrame msgFileStat path
  let (_, payload) ← expect env [msgFileStatResponse]
  check (payload.length = 16) "invalid FILE_STAT_RESPONSE payload"
  let fields ← Prog.lift (unpackFrom payload 4 12)
  return ⟨payload.at' 0 != 0, fields.readU32 0⟩

/-- `delete`. -/
def deleteGuest (env : McpEnv) (guestPath : PyVal) (recursive force : Bool) : Mcp Unit := do
  let path ← Prog.lift (encodeString guestPath)
  let answer ← request env capFileTools msgFileDelete (le 4 (recursive.toNat + 2 * force.toNat) ++ path)
    msgFileDeleteResponse
  check (answer.length = 8) "invalid FILE_DELETE_RESPONSE"

/-- `hash_file`. -/
def hashFile (env : McpEnv) (guestPath : PyVal) : Mcp Unit := do
  let path ← Prog.lift (encodeString guestPath)
  let answer ← request env capFileTools msgFileHash path msgFileHashResponse
  check (answer.length = 40) "invalid FILE_HASH_RESPONSE"
  let _ ← Prog.lift (unpackFrom answer 0 8)
  return ()

/-- The two numbers of a read-text request. -/
def textLimits (tail maxBytes : ℤ) : Except PyExc Bytes := do
  let tail ← packUnsigned 4 tail
  let limit ← packUnsigned 4 maxBytes
  return tail ++ limit

/-- `read_text`. -/
def readText (env : McpEnv) (guestPath : PyVal) (tail : ℤ) (matching : PyVal) (maxBytes : ℤ) : Mcp Unit := do
  let limits ← arg (textLimits tail maxBytes)
  let part ← Prog.lift (encodeString matching)
  let path ← Prog.lift (encodeString guestPath)
  let answer ← request env capFileTools msgFileReadText (limits ++ part ++ path) msgFileReadTextResponse
  let _ ← Prog.lift (parseReadText answer)
  return ()

/-- `processes`. -/
def processes (env : McpEnv) : Mcp (List GuestProcess) := do
  let answer ← request env capProcess msgProcessList [] msgProcessListResponse
  Prog.lift (parseProcessList answer)

/-- The payload of a kill: the process, and its exit code 1. -/
def killPayload (pid : ℤ) : Except PyExc Bytes := (packUnsigned 4 pid).map (· ++ le 4 1)

/-- `kill`. -/
def kill (env : McpEnv) (pid : ℤ) : Mcp Unit := do
  let payload ← arg (killPayload pid)
  let answer ← request env capProcess msgProcessKill payload msgProcessKillResponse
  check (answer.length = 8) "invalid PROCESS_KILL_RESPONSE"

/-- `windows`. -/
def guestWindows (env : McpEnv) : Mcp (List GuestWindow) := do
  let answer ← request env capWindows msgWindowList [] msgWindowListResponse
  Prog.lift (parseWindowList answer)

/-- The shown windows whose title contains a text; with no window the text is not looked at. -/
def shownWindows (env : McpEnv) (title : PyVal) (ws : List GuestWindow) : Except PyExc (List GuestWindow) :=
  if ws = [] then .ok []
  else do
    let part ← strMethod title
    return ws.filter fun w => env.containsFold part w.title && !w.minimized

/-- A wait's end: the clock and the seconds. -/
def deadline (start : ℚ) (seconds : ℤ) : Except PyExc ℚ := (intToFloat seconds).map (start + ·)

/-- One turn of `wait_window`. -/
def windowTurn (env : McpEnv) (title : PyVal) (started : ℚ) (seconds : ℤ) (gone : Bool) (_ : Unit) :
    Mcp (Unit ⊕ Unit) := do
  let ws ← guestWindows env
  let found ← arg (shownWindows env title ws)
  if (found ≠ []) ≠ gone then do
    let _ ← monotonic
    return .inr ()
  else do
    let now ← monotonic
    if now - started ≥ seconds then
      fail "no window within the wait"
    return .inl ()

/-- `wait_window`. -/
def waitWindow (env : McpEnv) (title : PyVal) (seconds : ℤ) (gone : Bool) : Mcp Unit := do
  let started ← monotonic
  Prog.loop (windowTurn env title started seconds gone) env.fuel ()

/-- Whether a wait for a file is over, and the size that stands since when. -/
def fileDone (s : FileStat) (gone : Bool) (stableMs : ℤ) (now : ℚ) (stable : Option (UInt32 × ℚ)) :
    Bool × Option (UInt32 × ℚ) :=
  if gone then (!s.isThere, stable)
  else if !s.isThere then (false, stable)
  else if stableMs ≤ 0 then (true, stable)
  else
    let since := match stable with
      | some (size, since) => if size = s.size then since else now
      | none => now
    ((now - since) * 1000 ≥ stableMs, some (s.size, since))

/-- One turn of `wait_file`. -/
def fileTurn (env : McpEnv) (guestPath : PyVal) (started : ℚ) (seconds : ℤ) (gone : Bool) (stableMs : ℤ)
    (stable : Option (UInt32 × ℚ)) : Mcp (Option (UInt32 × ℚ) ⊕ Unit) := do
  let s ← stat env guestPath
  let now ← monotonic
  let (done, stable) := fileDone s gone stableMs now stable
  if done then return .inr ()
  else do
    if now - started ≥ seconds then
      fail "the file did not appear, or stay, within the wait"
    return .inl stable

/-- `wait_file`. -/
def waitFile (env : McpEnv) (guestPath : PyVal) (seconds : ℤ) (gone : Bool) (stableMs : ℤ) : Mcp Unit := do
  let started ← monotonic
  Prog.loop (fileTurn env guestPath started seconds gone stableMs) env.fuel none

/-- `a or b`, for a screen's size. -/
def orElse (a : ℕ) (b : ℤ) : ℤ := if a = 0 then b else a

/-- `window_region`. -/
def windowRegion (env : McpEnv) (title : PyVal) : Mcp (ℤ × ℤ × ℤ × ℤ) := do
  let ws ← guestWindows env
  let found ← arg (shownWindows env title ws)
  match found with
  | [] => fail "no visible window"
  | w :: _ => do
    let hello ← clientHello
    let left := max 0 w.left
    let top := max 0 w.top
    let right := min (orElse hello.desktop.screenWidth w.right) w.right
    let bottom := min (orElse hello.desktop.screenHeight w.bottom) w.bottom
    check (left < right && top < bottom) "window is off screen"
    return (left, top, right - left, bottom - top)

/-- `REG_HIVES`: names with their numbers. -/
def regHives : List (String × ℕ) :=
  [("HKCR", 0x80000000), ("HKEY_CLASSES_ROOT", 0x80000000), ("HKCU", 0x80000001),
   ("HKEY_CURRENT_USER", 0x80000001), ("HKLM", 0x80000002), ("HKEY_LOCAL_MACHINE", 0x80000002),
   ("HKU", 0x80000003), ("HKEY_USERS", 0x80000003), ("HKCC", 0x80000005), ("HKEY_CURRENT_CONFIG", 0x80000005),
   ("HKDD", 0x80000006), ("HKEY_DYN_DATA", 0x80000006)]

/-- Characters at the end go. -/
def stripEnd (ch : ℕ) (s : PyStr) : PyStr := (s.reverse.dropWhile (· == ch)).reverse

/-- `encode_reg_key`. -/
def encodeRegKey (env : McpEnv) (key : PyStr) : Except PyExc Bytes :=
  let text := stripEnd 92 (key.map fun ch => if ch = 47 then 92 else ch)
  let hive := text.takeWhile (· != 92)
  match regHives.find? fun h => pyStr h.1 = env.upper (stripEnd 58 hive) with
  | some h => (encodeString (.str (text.drop (hive.length + 1)))).map (le 4 h.2 ++ ·)
  | none => .error (v9xFail "unknown registry hive")

/-- `reg_query`. -/
def regQuery (env : McpEnv) (key : PyVal) : Mcp Unit := do
  let key ← arg (strMethod key)
  let payload ← Prog.lift (encodeRegKey env key)
  let answer ← request env capRegistry msgRegQuery payload msgRegQueryResponse
  let _ ← Prog.lift (parseRegQuery answer)
  return ()

/-- `list_dir`. -/
def listDir (env : McpEnv) (guestPath : PyVal) : Mcp Unit := do
  require capFileRead
  nextId
  let path ← Prog.lift (encodeString guestPath)
  sendFrame msgFileList path
  let (_, payload) ← expect env [msgFileListResponse]
  let _ ← Prog.lift (parseDirList payload)
  return ()

/-- `mkdir`. -/
def mkdir (env : McpEnv) (guestPath : PyVal) : Mcp Unit := do
  require capFileWrite
  nextId
  let path ← Prog.lift (encodeString guestPath)
  sendFrame msgFileMkdir path
  let (_, payload) ← expect env [msgFileMkdirResponse]
  check (payload.length = 4) "invalid FILE_MKDIR_RESPONSE payload"
  let _ ← Prog.lift (unpackFrom payload 0 4)
  return ()

end V9xRemote
