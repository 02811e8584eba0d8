import V9xRemote.Lib.Arrivals
import V9xRemote.Spec.Power
import V9xRemote.Spec.Responses

/-!
# The serve loops (`src/common/frame.c`, `src/guest/protocol.c`, `src/guest-dos/serve.c`)

A connection is what its client sends, piece by piece. A loop is embedded by the frames it
serves and what it decides on each; whether an answer or a handler goes through is the
environment's. The activity counter, the log and the tray's note of the last command are left out.
-/

namespace V9xRemote

open Bytes Arrival

/-! ## Frames -/

def headerSize : ℕ := 24

/-- `V9xFrameHeader`. -/
structure FrameHeader where
  version : UInt16
  type : UInt16
  requestId : UInt32
  flags : UInt32
  payloadLength : UInt32
  reserved : UInt32
deriving DecidableEq, Repr

/-- `v9x_decode_header`. -/
def decodeHeader (source : Bytes) : Option FrameHeader :=
  if source.at' 0 ≠ 86 ∨ source.at' 1 ≠ 57 ∨ source.at' 2 ≠ 88 ∨ source.at' 3 ≠ 82 then none
  else some ⟨source.readU16 4, source.readU16 6, source.readU32 8, source.readU32 12, source.readU32 16, source.readU32 20⟩

/-- `v9x_encode_header`. -/
def encodeHeader (header : FrameHeader) : Bytes :=
  [86, 57, 88, 82] ++ (writeU16 header.version ++ (writeU16 header.type ++ (writeU32 header.requestId ++
    (writeU32 header.flags ++ (writeU32 header.payloadLength ++ writeU32 header.reserved)))))

def msgHelloRequest : UInt16 := 0x0001
def msgPingRequest : UInt16 := 0x0002
def msgExecRequest : UInt16 := 0x0010
def msgCancelRequest : UInt16 := 0x0011
def msgFileStatRequest : UInt16 := 0x0020
def msgFileOpenReadRequest : UInt16 := 0x0026
def msgDownloadRequest : UInt16 := 0x0027
def msgFileDeleteRequest : UInt16 := 0x0028
def msgFileHashRequest : UInt16 := 0x0029
def msgFileReadTextRequest : UInt16 := 0x002A
def msgInfoRequest : UInt16 := 0x0030
def msgRebootRequest : UInt16 := 0x0040
def msgShutdownRequest : UInt16 := 0x0041
def msgUpdateRequest : UInt16 := 0x0042
def msgResetRequest : UInt16 := 0x0043
def msgScreenshotRequest : UInt16 := 0x0050
def msgInputRequest : UInt16 := 0x0060
def msgWindowListRequest : UInt16 := 0x0062
def msgInventoryRequest : UInt16 := 0x0070
def msgProcessListRequest : UInt16 := 0x0080
def msgProcessKillRequest : UInt16 := 0x0081
def msgRegQueryRequest : UInt16 := 0x0090

def statusUnsupportedVersion : UInt32 := 2
def statusCreateFailed : UInt32 := 10

/-- `v9x_is_ascii_text`. -/
def isAsciiText (text : Bytes) : Bool := text.all fun c => c != 0 && c ≤ 0x7f

/-- `v9x_is_tools_message`. -/
def isToolsMessage (type : UInt16) : Bool :=
  type == msgFileDeleteRequest || type == msgFileHashRequest || type == msgFileReadTextRequest ||
    type == msgProcessListRequest || type == msgProcessKillRequest || type == msgRegQueryRequest ||
      type == msgWindowListRequest

/-- `v9x_is_file_message`, of both agents. -/
def isFileMessage (type : UInt16) : Bool := msgFileStatRequest ≤ type && type ≤ msgFileOpenReadRequest

/-! ## Decisions -/

/-- The branches that a request is handed to. -/
inductive ServeHandler
  | ping
  | exec
  | cancel
  | tools
  | file
  | power
  | update
  | screenshot
  | input
  | download
  | info
  | inventory
deriving DecidableEq, Repr

/-- What a loop decides on a frame: HELLO_RESPONSE, ERROR_RESPONSE, or a handler. -/
inductive ServeDecision
  | hello
  | refuse (status : UInt32) (detail : String)
  | handle (handler : ServeHandler)
deriving DecidableEq, Repr

/-- A frame that was read whole, and what was decided on it. -/
structure ServedFrame where
  header : FrameHeader
  payload : Bytes
  decision : ServeDecision
deriving DecidableEq, Repr

/-- What the EXEC branch of the Windows agent calls. -/
structure ExecCalls where
  /-- `v9x_execution_prepare`. -/
  prepare : UInt32 → Bytes → UInt32
  isNt : Bool
  /-- Whether the first answer and the second one are sent. -/
  sent : Bool
  sentAgain : Bool
  /-- `v9x_execution_resume`. -/
  resume : Bool

/-- Whether the handler of a frame, or the answer to it, goes through. -/
structure ServeEnv where
  /-- There is an idle limit, and this is no relay connection. -/
  idleLimit : Bool
  answered : ℕ → Bool
  exec : ℕ → ExecCalls
  handled : ℕ → ServeHandler → FrameHeader → Bytes → Bool

/-! ## The Windows agent -/

inductive ExecAnswer
  | accepted
  | refused (status : UInt32) (detail : String)
deriving DecidableEq, Repr

/-- The EXEC branch: what it answers, and whether the connection goes on. -/
def winExec (calls : ExecCalls) (requestId : UInt32) (payload : Bytes) : List ExecAnswer × Bool :=
  let status := calls.prepare requestId payload
  if status ≠ statusOk then
    let detail := if status = statusBusy then "execution already active"
      else if status = statusCreateFailed then "execution worker creation failed"
      else if status = statusUnsupportedOperation then
        if calls.isNt then "refused: allow_dos_vm=0 and this is a DOS or Win16 program (NTVDM)"
        else "refused: allow_dos_vm=0 and this would start a DOS VM (shell, console or DOS program)"
      else "invalid execution request"
    ([.refused status detail], calls.sent)
  else if !calls.sent then ([.accepted], false)
  else if !calls.resume then
    ([.accepted, .refused statusCreateFailed "execution thread did not start"], calls.sentAgain)
  else ([.accepted], true)

/-- The handshake's part of the Windows loop. -/
def winHello (header : FrameHeader) (payload : Bytes) : ServeDecision :=
  if header.type ≠ msgHelloRequest ∨ header.payloadLength < 6 then .refuse statusInvalidPayload "HELLO required"
  else if payload.readU16 0 > protocolVersion ∨ payload.readU16 2 < protocolVersion then
    .refuse statusUnsupportedVersion "no compatible version"
  else if (payload.readU16 4).toUInt32 + 6 ≠ header.payloadLength ∨ !isAsciiText (payload.drop 6) then
    .refuse statusInvalidPayload "invalid client label"
  else .hello

/-- The rest of it. -/
def winDispatch (header : FrameHeader) : ServeDecision :=
  if header.version ≠ protocolVersion then .refuse statusUnsupportedVersion "unsupported frame version"
  else if header.type = msgPingRequest ∧ header.payloadLength = 0 then .handle .ping
  else if header.type = msgExecRequest then .handle .exec
  else if header.type = msgCancelRequest ∧ header.payloadLength = 4 then .handle .cancel
  else if isToolsMessage header.type then .handle .tools
  else if isFileMessage header.type then .handle .file
  else if header.type = msgRebootRequest ∨ header.type = msgShutdownRequest ∨ header.type = msgResetRequest then
    .handle .power
  else if header.type = msgUpdateRequest then .handle .update
  else if header.type = msgScreenshotRequest then .handle .screenshot
  else if header.type = msgInputRequest then .handle .input
  else if header.type = msgDownloadRequest then .handle .download
  else if header.type = msgInfoRequest ∧ (header.payloadLength = 0 ∨ header.payloadLength = 4) then .handle .info
  else if header.type = msgInventoryRequest ∧ header.payloadLength = 0 then .handle .inventory
  else .refuse statusUnsupportedOperation "unsupported operation"

/-- Whether what the nth frame is answered with goes through. -/
def winGoes (env : ServeEnv) (n : ℕ) (decision : ServeDecision) (header : FrameHeader) (payload : Bytes) : Bool :=
  match decision with
  | .hello => env.answered n
  | .refuse _ _ => env.answered n
  | .handle .exec => (winExec (env.exec n) header.requestId payload).2
  | .handle handler => env.handled n handler header payload

/-- What the Windows loop served, and what it returns. -/
structure ServeRun where
  frames : List ServedFrame
  result : Bool
deriving DecidableEq, Repr

theorem takeExact_header_lt {arrivals rest : List (Arrival UInt8)} {head : Bytes}
    (h : takeExact headerSize arrivals = some (head, rest)) : (sent rest).length < (sent arrivals).length := by
  obtain ⟨hsent, hlength⟩ := takeExact_some h
  have hsize : headerSize = 24 := rfl
  rw [hsent, List.length_append, hlength]
  omega

/-- `v9x_serve_client`. -/
def winServe (env : ServeEnv) (n : ℕ) (handshaken : Bool) (arrivals : List (Arrival UInt8)) : ServeRun :=
  if env.idleLimit && silent arrivals then ⟨[], true⟩
  else
    match _hhead : takeExact headerSize arrivals with
    | none => ⟨[], true⟩
    | some (head, afterHead) =>
      match decodeHeader head with
      | none => ⟨[], false⟩
      | some header =>
        if header.payloadLength > maxPayloadSize ∨ header.reserved ≠ 0 ∨ header.requestId = 0 then ⟨[], false⟩
        else
          match hpayload : takeExact header.payloadLength.toNat afterHead with
          | none => ⟨[], false⟩
          | some (payload, rest) =>
            if !handshaken then
              if winHello header payload ≠ .hello then ⟨[⟨header, payload, winHello header payload⟩], false⟩
              else if !winGoes env n .hello header payload then ⟨[⟨header, payload, .hello⟩], false⟩
              else
                let more := winServe env (n + 1) true rest
                ⟨⟨header, payload, .hello⟩ :: more.frames, more.result⟩
            else if !winGoes env n (winDispatch header) header payload then
              ⟨[⟨header, payload, winDispatch header⟩], false⟩
            else
              let more := winServe env (n + 1) true rest
              ⟨⟨header, payload, winDispatch header⟩ :: more.frames, more.result⟩
termination_by (sent arrivals).length
decreasing_by all_goals
  have hlt := takeExact_header_lt _hhead
  have hrest := congrArg List.length (takeExact_some hpayload).1
  rw [List.length_append] at hrest
  omega

/-! ## The DOS agent -/

/-- The handshake's part of the DOS loop. -/
def dosHello (header : FrameHeader) (payload : Bytes) : ServeDecision :=
  if header.type ≠ msgHelloRequest ∨ header.payloadLength < 6 then .refuse statusInvalidPayload "HELLO required"
  else if payload.readU16 0 > protocolVersion ∨ payload.readU16 2 < protocolVersion then
    .refuse statusUnsupportedVersion "no compatible version"
  else if (payload.readU16 4).toUInt32 + 6 ≠ header.payloadLength ∨ !isAsciiText (payload.drop 6) then
    .refuse statusInvalidPayload "invalid client label"
  else .hello

def dosDispatch (header : FrameHeader) : ServeDecision :=
  if header.version ≠ protocolVersion then .refuse statusUnsupportedVersion "unsupported frame version"
  else if header.type = msgPingRequest ∧ header.payloadLength = 0 then .handle .ping
  else if header.type = msgExecRequest then .handle .exec
  else if header.type = msgCancelRequest ∧ header.payloadLength = 4 then .handle .cancel
  else if isFileMessage header.type then .handle .file
  else if header.type = msgInfoRequest ∧ (header.payloadLength = 0 ∨ header.payloadLength = 4) then .handle .info
  else .refuse statusUnsupportedOperation "unsupported operation"

def dosGoes (env : ServeEnv) (n : ℕ) (decision : ServeDecision) (header : FrameHeader) (payload : Bytes) : Bool :=
  match decision with
  | .hello => env.answered n
  | .refuse _ _ => env.answered n
  | .handle handler => env.handled n handler header payload

/-- `v9x_serve_client` of the DOS agent: what it served. -/
def dosServe (env : ServeEnv) (n : ℕ) (handshaken : Bool) (arrivals : List (Arrival UInt8)) : List ServedFrame :=
  match _hhead : takeExact headerSize arrivals with
  | none => []
  | some (head, afterHead) =>
    match decodeHeader head with
    | none => []
    | some header =>
      if header.payloadLength > maxPayloadSize ∨ header.reserved ≠ 0 ∨ header.requestId = 0 then []
      else
        match hpayload : takeExact header.payloadLength.toNat afterHead with
        | none => []
        | some (payload, rest) =>
          if !handshaken then
            if dosHello header payload ≠ .hello then [⟨header, payload, dosHello header payload⟩]
            else if !dosGoes env n .hello header payload then [⟨header, payload, .hello⟩]
            else ⟨header, payload, .hello⟩ :: dosServe env (n + 1) true rest
          else if !dosGoes env n (dosDispatch header) header payload then [⟨header, payload, dosDispatch header⟩]
          else ⟨header, payload, dosDispatch header⟩ :: dosServe env (n + 1) true rest
termination_by (sent arrivals).length
decreasing_by all_goals
  have hlt := takeExact_header_lt _hhead
  have hrest := congrArg List.length (takeExact_some hpayload).1
  rw [List.length_append] at hrest
  omega

end V9xRemote
