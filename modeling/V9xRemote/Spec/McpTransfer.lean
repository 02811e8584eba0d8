import V9xRemote.Spec.McpClient

/-!
# Transfers, screenshots, input and power on the host (`mcp/v9x_mcp.py`)

The operations of `V9xClient` that take more than a request and its response, and the
waits for an agent to come back.
-/

namespace V9xRemote

open Bytes Dialogue Mcp

/-! ## Uploads -/

/-- Where an upload's bytes come from. -/
inductive UploadSource
  /-- a file: every read and the seek are calls -/
  | file
  /-- bytes in memory -/
  | memory (data : Bytes)

/-- A read of at most `count` bytes at a position. -/
def UploadSource.read (source : UploadSource) (position count : ℕ) : Mcp Bytes :=
  match source with
  | .file => Mcp.read count
  | .memory data => pure ((data.drop position).take count)

/-- One turn of the first reading: the CRC so far, and what is read. -/
def crcTurn (source : UploadSource) (size : ℕ) (part : UInt32 × ℕ) : Mcp ((UInt32 × ℕ) ⊕ UInt32) := do
  if part.2 ≥ size then return .inr part.1
  else do
    let piece ← source.read part.2 (min (size - part.2) 1048576)
    check (piece ≠ []) "local file is shorter than its size"
    return .inl (crc32Update part.1 piece, part.2 + piece.length)

/-- What is sent, what is acknowledged, and the offsets in flight. -/
structure UploadWindow where
  sent : ℕ
  acked : ℕ
  inFlight : List ℕ

/-- One chunk more, while the window has room. -/
def refillTurn (source : UploadSource) (size window : ℕ) (u : UploadWindow) : Mcp (UploadWindow ⊕ UploadWindow) := do
  if u.sent < size && u.inFlight.length < window then do
    let piece ← source.read u.sent (min chunkSize (size - u.sent))
    check (piece ≠ []) "local file changed during the upload"
    sendFrame msgFileWriteChunk (le 4 u.sent ++ piece)
    return .inl { u with sent := u.sent + piece.length, inFlight := u.inFlight ++ [u.sent + piece.length] }
  else return .inr u

/-- One acknowledgement, behind a refill where half of the window is free. -/
def uploadTurn (env : McpEnv) (source : UploadSource) (size window : ℕ) (u : UploadWindow) :
    Mcp (UploadWindow ⊕ Unit) := do
  if u.acked ≥ size then return .inr ()
  else do
    let u ←
      if u.inFlight.length ≤ window / 2 then Prog.loop (refillTurn source size window) env.fuel u else pure u
    let (_, ack) ← expect env [msgFileWriteAck]
    match u.inFlight with
    | [] => Prog.raise ⟨.indexError, "pop from empty list"⟩
    | acked :: rest => do
      check (ack = le 4 acked) "upload acknowledgement offset mismatch"
      return .inl { u with acked := acked, inFlight := rest }

/-- `put_stream`. -/
def putStream (env : McpEnv) (source : UploadSource) (size : ℕ) (guestPath : PyVal) : Mcp Unit := do
  require capFileWrite
  check (size ≤ maxFile) "file exceeds the 2 GiB protocol limit"
  let running ← Prog.loop (crcTurn source size) env.fuel (crc32Begin, 0)
  let crc := (crc32End running).toNat
  match source with
  | .file => call
  | .memory _ => pure ()
  nextId
  let path ← Prog.lift (encodeString guestPath)
  sendFrame msgFileOpenWrite (le 4 size ++ le 4 crc ++ path)
  let (_, ready) ← expect env [msgFileWriteReady]
  check (ready = le 4 size ++ le 4 crc) "FILE_WRITE_READY did not echo size and CRC32"
  let st ← Prog.get
  let window := if st.session.isSome then pipelineWindow else 1
  Prog.loop (uploadTurn env source size window) env.fuel ⟨0, 0, []⟩
  sendFrame msgFileCommit []
  let (_, done) ← expect env [msgFileWriteComplete]
  check (done = le 4 size ++ le 4 crc) "commit did not confirm size and CRC32"

/-- `put_bytes`. -/
def putBytes (env : McpEnv) (data : Bytes) (guestPath : String) : Mcp Unit :=
  putStream env (.memory data) data.length (.str (pyStr guestPath))

/-- `put_file`: the size of what was sent. -/
def putFile (env : McpEnv) (guestPath : PyVal) : Mcp ℕ := do
  call
  let size ← Mcp.size
  putStream env .file size guestPath
  return size

/-! ## Downloads -/

/-- What is received: its length and running CRC, and the bytes kept in memory. -/
structure Received where
  length : ℕ
  crc : UInt32
  bytes : Bytes

/-- One frame of a download. -/
def downloadTurn (env : McpEnv) (toFile : Bool) (got : Received) : Mcp (Received ⊕ Received × Bytes) := do
  let (type, payload) ← expect env [msgFileReadChunk, msgFileReadComplete]
  if type = msgFileReadChunk then do
    check (payload.length ≥ 4) "download chunk offset mismatch"
    let head ← Prog.lift (unpackFrom payload 0 4)
    check ((head.readU32 0).toNat = got.length) "download chunk offset mismatch"
    let piece := payload.drop 4
    if toFile then
      call
    return .inl ⟨got.length + piece.length, crc32Update got.crc piece, if toFile then [] else got.bytes ++ piece⟩
  else return .inr (got, payload)

/-- `get_stream`. -/
def getStream (env : McpEnv) (guestPath : PyVal) (toFile : Bool) : Mcp Bytes := do
  require capFileRead
  nextId
  let path ← Prog.lift (encodeString guestPath)
  sendFrame msgFileOpenRead path
  let (got, payload) ← Prog.loop (downloadTurn env toFile) env.fuel ⟨0, crc32Begin, []⟩
  check (payload.length = 8) "invalid FILE_READ_COMPLETE payload"
  let fields ← Prog.lift (unpackFrom payload 0 8)
  check ((fields.readU32 0).toNat = got.length && fields.readU32 4 == crc32End got.crc)
    "downloaded size or CRC32 does not match the guest"
  return got.bytes

/-- `get_bytes`. -/
def getBytes (env : McpEnv) (guestPath : PyVal) : Mcp Bytes := getStream env guestPath false

/-- One frame of a guest's own download. -/
def progressTurn (env : McpEnv) (_ : Unit) : Mcp (Unit ⊕ Bytes) := do
  let (type, payload) ← expect env [msgDownloadProgress, msgDownloadComplete]
  return if type = msgDownloadComplete then .inr payload else .inl ()

/-- `download`. -/
def download (env : McpEnv) (url guestPath : PyVal) : Mcp Unit := do
  require capHttpDownload
  nextId
  let url ← Prog.lift (encodeString url)
  let path ← Prog.lift (encodeString guestPath)
  sendFrame msgDownload (url ++ path)
  setTimeout 600
  Prog.andFinally (do
    let payload ← Prog.loop (progressTurn env) env.fuel ()
    check (payload.length = 12) "invalid DOWNLOAD_COMPLETE payload"
    let _ ← Prog.lift (unpackFrom payload 0 12)
    pure ()) (setTimeout env.timeout)

/-- `update_apply`, with the sizes and CRCs of two files in memory. -/
def updateApply (env : McpEnv) (agent helper : Bytes) : Mcp Unit := do
  require capDriverUpdate
  nextId
  let agentSize ← arg (packUnsigned 4 agent.length)
  let helperSize ← arg (packUnsigned 4 helper.length)
  sendFrame msgUpdate (agentSize ++ le 4 (crc32 agent).toNat ++ helperSize ++ le 4 (crc32 helper).toNat)
  let (_, payload) ← expect env [msgUpdateAccepted]
  check (payload.length = 8) "invalid UPDATE_ACCEPTED payload"

/-! ## Screenshots -/

/-- `shot_args`: region, scale in percent, gray, window. -/
structure ShotArgs where
  region : Option (List PyVal)
  scalePercent : ℤ
  gray : Bool
  window : PyVal

/-- The region's four numbers. -/
def regionNumbers (env : McpEnv) (vs : List PyVal) : Except PyExc (ℤ × ℤ × ℤ × ℤ) :=
  match vs with
  | [x, y, w, h] => do
    let x ← pyInt env.texts x
    let y ← pyInt env.texts y
    let w ← pyInt env.texts w
    let h ← pyInt env.texts h
    return (x, y, w, h)
  | _ => .error (valueError "not enough values to unpack")

/-- The options block of a SCREENSHOT. -/
def shotOptionsBlock (gray shaped : Bool) (plan : HostPlan) (scalePercent : ℤ) : Except PyExc Bytes := do
  let x ← packUnsigned 4 plan.x
  let y ← packUnsigned 4 plan.y
  let w ← packUnsigned 4 (if shaped then plan.w else 0)
  let h ← packUnsigned 4 (if shaped then plan.h else 0)
  let scale ← packUnsigned 4 scalePercent
  return le 4 (1 + 2 * gray.toNat) ++ x ++ y ++ w ++ h ++ scale

/-- A capture: the image, and what the host still has to shape. -/
structure Capture where
  bmp : Bytes
  hostShape : Option (Option (ℤ × ℤ × ℤ × ℤ) × ℤ)

/-- `screenshot`. -/
def screenshot (env : McpEnv) (a : ShotArgs) : Mcp Capture := do
  require capScreenshot
  let hello ← clientHello
  let region ←
    if a.window.truthy then do
      let r ← windowRegion env a.window
      pure (some r)
    else
      match a.region with
      | some vs => do
        -- `plan_shot` tests the scale before it reads the region
        check (1 ≤ a.scalePercent && a.scalePercent ≤ 100) "scale must be 0.01..1"
        let r ← arg (regionNumbers env vs)
        pure (some r)
      | none => pure none
  let plan ← Prog.lift (planShot hello.desktop.screenWidth hello.desktop.screenHeight region a.scalePercent)
  let guestShapes := hello.capabilities &&& capScreenshotOptions != 0
  let options ←
    if guestShapes then arg (shotOptionsBlock a.gray region.isSome plan a.scalePercent) else pure []
  nextId
  sendFrame msgScreenshot (le 2 28 ++ ascii "C:\\V9XREMOTE\\TEMP\\SCREEN.BMP" ++ options)
  setTimeout (max env.timeout 60)
  let (fields, data) ← Prog.andFinally (do
    let (_, payload) ← expect env [msgScreenshotResponse]
    check (payload.length ≥ 22) "truncated SCREENSHOT_RESPONSE"
    let fields ← Prog.lift (unpackFrom payload 0 20)
    let (path, offset) ← Prog.lift (parseString payload 20)
    check (offset = payload.length) "SCREENSHOT_RESPONSE contains trailing data"
    let data ← getBytes env (.str (path.map UInt8.toNat))
    pure (fields, data)) (setTimeout env.timeout)
  check (data.length = (fields.readU32 12).toNat && crc32 data == fields.readU32 16)
    "screenshot download does not match capture metadata"
  let shaping := region.isSome || a.scalePercent < 100 || a.gray
  return ⟨data, if shaping && !guestShapes then some (region, a.scalePercent) else none⟩

/-! ## Input and power -/

/-- An input action as the tools build it. -/
inductive InputAction
  | move (x y : PyVal)
  | moveRelative (dx dy : PyVal)
  | button (button : ℤ) (down : Bool)
  | wheel (notches : PyVal)
  | key (vk : ℤ) (down : Bool)
  | type (text : PyVal)
  /-- an action given as it is -/
  | raw (fields : PyArgs)

/-- A character of a text that is typed. -/
def isTyped (ch : ℕ) : Bool := ch ≤ 127

/-- The bytes of a text that is typed. -/
def typePayload (text : PyVal) : Except PyExc Bytes :=
  match text with
  | .str s =>
    if s.any fun ch => !isTyped ch then .error (v9xFail "type text must be 7-bit ASCII")
    else if s.length > 65535 then .error (v9xFail "type text exceeds protocol limit")
    else .ok (le 1 5 ++ le 2 s.length ++ s.map UInt8.ofNat)
  | .list [] | .dict [] => .error (attributeError "object has no attribute 'encode'")
  | _ => .error (typeError "object is not iterable, or ord() expected a character")

/-- Two signed 32-bit numbers behind an op. -/
def movePayload (env : McpEnv) (op : ℕ) (x y : PyVal) : Except PyExc Bytes := do
  let x ← pyInt env.texts x
  let y ← pyInt env.texts y
  let x ← packSigned 4 x
  let y ← packSigned 4 y
  return le 1 op ++ x ++ y

def wheelPayload (env : McpEnv) (notches : PyVal) : Except PyExc Bytes := do
  let n ← pyInt env.texts notches
  let n ← packSigned 2 n
  return le 1 3 ++ n

/-- A byte and whether it is down, behind an op. -/
def pressPayload (op : ℕ) (n : ℤ) (down : Bool) : Except PyExc Bytes :=
  (packUnsigned 1 n).map fun b => le 1 op ++ b ++ le 1 down.toNat

/-- An action given as it is. -/
def rawPayload (env : McpEnv) (fields : PyArgs) : Except PyExc Bytes := do
  let op ← PyArgs.item fields "op"
  if op.isText "move" then do
    let x ← PyArgs.item fields "x"
    let x ← pyInt env.texts x
    let y ← PyArgs.item fields "y"
    movePayload env 1 (.int x) y
  else if op.isText "moverel" then do
    let x ← PyArgs.item fields "dx"
    let x ← pyInt env.texts x
    let y ← PyArgs.item fields "dy"
    movePayload env 7 (.int x) y
  else if op.isText "button" then do
    let button ← PyArgs.item fields "button"
    let button ← pyInt env.texts button
    let down ← PyArgs.item fields "down"
    pressPayload 2 button down.truthy
  else if op.isText "wheel" then do
    let notches ← PyArgs.item fields "notches"
    wheelPayload env notches
  else if op.isText "key" then do
    let vk ← PyArgs.item fields "vk"
    let vk ← pyInt env.texts vk
    let down ← PyArgs.item fields "down"
    pressPayload 4 vk down.truthy
  else if op.isText "type" then do
    let text ← PyArgs.item fields "text"
    typePayload text
  else if op.isText "delay" then do
    let ms ← PyArgs.item fields "ms"
    let ms ← pyInt env.texts ms
    let ms ← packUnsigned 2 ms
    return le 1 6 ++ ms
  else throw (v9xFail "unknown input action")

/-- An action's bytes. -/
def actionPayload (env : McpEnv) : InputAction → Except PyExc Bytes
  | .move x y => movePayload env 1 x y
  | .moveRelative dx dy => movePayload env 7 dx dy
  | .button button down => pressPayload 2 button down
  | .wheel notches => wheelPayload env notches
  | .key vk down => pressPayload 4 vk down
  | .type text => typePayload text
  | .raw fields => rawPayload env fields

/-- The bytes of the actions, one after the other. -/
def actionsPayload (env : McpEnv) : List InputAction → Except PyExc Bytes
  | [] => .ok []
  | action :: actions => do
    let first ← actionPayload env action
    let rest ← actionsPayload env actions
    return first ++ rest

/-- `send_input`. -/
def sendInput (env : McpEnv) (actions : List InputAction) : Mcp Unit := do
  require capInput
  check (actions.length ≤ 256) "at most 256 input actions per request"
  let payload ← arg (actionsPayload env actions)
  nextId
  sendFrame msgInput (le 2 actions.length ++ payload)
  let (_, response) ← expect env [msgInputResponse]
  check (response.length = 12) "invalid INPUT_RESPONSE payload"

/-- `job_id.encode("ascii")` and its length. -/
def powerToken (jobId : PyVal) : Except PyExc Bytes := do
  let text ← strMethod jobId
  if text.any fun ch => ch > 127 then
    throw (valueError "'ascii' codec can't encode character")
  if text = [] || text.length > 63 then
    throw (v9xFail "job_id must be 1 to 63 ASCII bytes")
  return text.map UInt8.ofNat

/-- `power`. -/
def power (env : McpEnv) (type response : ℕ) (jobId : PyVal) : Mcp Unit := do
  require capPower
  let token ← arg (powerToken jobId)
  nextId
  let text ← Prog.lift (encodeString jobId)
  sendFrame type text
  let (_, payload) ← expect env [response]
  check (payload.length ≥ 6) "truncated power-control acceptance"
  let _ ← Prog.lift (unpackFrom payload 0 4)
  let (echoed, offset) ← Prog.lift (parseString payload 4)
  check (offset = payload.length && echoed == token) "power-control acceptance token does not match"

/-!
# What the host's operations return (`mcp/v9x_mcp.py`)

`list_dir`, `stat` and `execute` of `V9xClient` with all they read of the agent's answers. A
text of the guest is kept as its bytes, before it is decoded.
-/

/-- `list_dir`: its entries. -/
def listEntries (env : McpEnv) (guestPath : PyVal) : Mcp (List DirEntryInfo) := do
  require capFileRead
  nextId
  let path ← Prog.lift (encodeString guestPath)
  sendFrame msgFileList path
  let (_, payload) ← expect env [msgFileListResponse]
  Prog.lift (parseDirList payload)

/-- What `stat` returns of a path. -/
structure StatReport where
  isThere : Bool
  isDirectory : Bool
  size : UInt32
  attributes : UInt32
  native : UInt32
deriving DecidableEq, Repr

/-- `stat`. -/
def statReport (env : McpEnv) (guestPath : PyVal) : Mcp StatReport := do
  require capFileRead
  nextId
  let path ← Prog.lift (encodeString guestPath)
  sendFrame msgFileStat path
  let (_, payload) ← expect env [msgFileStatResponse]
  check (payload.length = 16) "invalid FILE_STAT_RESPONSE payload"
  let fields ← Prog.lift (unpackFrom payload 4 12)
  return ⟨payload.at' 0 != 0, payload.at' 1 != 0, fields.readU32 0, fields.readU32 4, fields.readU32 8⟩

/-- What `execute` returns: the fields of EXEC_COMPLETE and the output. -/
structure ExecReport where
  result : UInt32
  exitCode : UInt32
  native : UInt32
  elapsed : UInt32
  stdoutBytes : UInt32
  stderrBytes : UInt32
  flags : UInt32
  stdout : Bytes
  stderr : Bytes
deriving DecidableEq, Repr

/-- One frame of a running EXEC: it goes to the output it is of, or is the last. -/
def execTake (got : Bytes × Bytes) : ℕ × Bytes → Mcp ((Bytes × Bytes) ⊕ (Bytes × Bytes) × Bytes)
  | (type, data) =>
    return if type = msgExecStdout then .inl (got.1 ++ data, got.2)
      else if type = msgExecStderr then .inl (got.1, got.2 ++ data)
      else .inr (got, data)

/-- The payload of an EXEC. -/
def execRequest (r : ExecRequest) : Except PyExc Bytes := do
  let head ← execPayload r
  let application ← encodeString r.application
  let arguments ← encodeString r.arguments
  let workingDir ← encodeString r.workingDir
  return head ++ application ++ arguments ++ workingDir

/-- The end of `execute`. -/
def execEnd (got : Bytes × Bytes) (data : Bytes) : Mcp ExecReport := do
  check (data.length = 28) "invalid EXEC_COMPLETE payload"
  let fields ← Prog.lift (unpackFrom data 0 28)
  return ⟨fields.readU32 0, fields.readU32 4, fields.readU32 8, fields.readU32 12, fields.readU32 16, fields.readU32 20,
    fields.readU32 24, got.1, got.2⟩

/-- `execute`. -/
def executeReport (env : McpEnv) (r : ExecRequest) : Mcp ExecReport := do
  require (if r.shell then capShell else capExec)
  if r.detach then
    require capExecDetach
  let payload ← Prog.lift (execRequest r)
  setTimeout (r.timeoutMs / 1000 + 20)
  Prog.andFinally (do
    nextId
    sendFrame msgExec payload
    let (_, accepted) ← expect env [msgExecAccepted]
    check (accepted.length = 4) "invalid EXEC_ACCEPTED payload"
    let (got, data) ← Prog.loop (fun got => expect env [msgExecStdout, msgExecStderr, msgExecComplete] >>= execTake got)
      env.fuel ([], [])
    execEnd got data) (setTimeout env.timeout)

end V9xRemote
