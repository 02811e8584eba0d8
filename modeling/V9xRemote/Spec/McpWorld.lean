import V9xRemote.Lib.Dialogue
import V9xRemote.Spec.McpCodec
import V9xRemote.Spec.RelaySession

/-!
# The world of the host's tools

What the system, the guest and the relay server may answer, what a tool call keeps and
what is logged of it. A TCP socket's time-out is an answer like any other.
-/

namespace V9xRemote

open Bytes Dialogue

/-- How a system call fails: an OSError, or a ValueError (a NUL in a path, bytes that are
no text). -/
inductive OsClass
  | osError
  | connectionReset
  | connectionAborted
  | valueError
deriving DecidableEq, Repr

structure OsFailure where
  cls : OsClass
  text : String
deriving DecidableEq, Repr

def OsFailure.exc (f : OsFailure) : PyExc :=
  match f.cls with
  | .osError => ⟨.osError, f.text⟩
  | .connectionReset => ⟨.connectionReset, f.text⟩
  | .connectionAborted => ⟨.connectionAborted, f.text⟩
  | .valueError => ⟨.valueError, f.text⟩

/-- A call of the operator's interface at the relay server. -/
inductive HttpAnswer
  /-- a status with the session headers and the body -/
  | reply (status : ℕ) (sessionState sessionReason : Option PyStr) (body : Bytes)
  /-- URLError or OSError -/
  | unreachable (text : String)
  /-- ValueError: an address or a header that cannot be sent -/
  | invalid (text : String)
  /-- an exception of `http.client`, as for a body that is cut short -/
  | broken (text : String)
deriving DecidableEq, Repr

/-- A run of the signing tool. -/
inductive SignAnswer
  | ended (returncode : ℤ) (stdout : PyStr)
  | timedOut
  | failed (failure : OsFailure)
deriving DecidableEq, Repr

/-- What `json.loads` makes of some bytes. -/
inductive JsonResult
  | value (v : PyVal)
  /-- ValueError or UnicodeDecodeError -/
  | invalid
  /-- RecursionError -/
  | tooDeep

/-- An answer to a call of the system. -/
inductive McpAnswer
  /-- a call without a result, a connect or a send among them -/
  | done (r : Except OsFailure Unit)
  /-- data from a socket or a file -/
  | data (r : Except OsFailure Bytes)
  /-- a test of the file system -/
  | test (b : Bool)
  /-- a file's size -/
  | size (n : ℕ)
  /-- `os.walk`: for each directory its path below the first, and its files -/
  | tree (dirs : List (PyStr × List PyStr))
  /-- `time.monotonic` -/
  | time (t : ℚ)
  /-- a datagram with the address it is from; `none` when no more is to come -/
  | datagram (d : Option (Except OsFailure (Bytes × Bytes)))
  | http (r : HttpAnswer)
  | sign (r : SignAnswer)

/-- What is logged of a call: what it took from outside. -/
inductive McpEvent
  /-- an argument was read -/
  | argument (r : Except PyExc Unit)
  /-- the name of the handler's own attribute, no tool's -/
  | attribute (name : PyStr)
  /-- a response `expect` let through -/
  | response (type : ℕ) (payload : Bytes)
  /-- an answer to `open`, `status`, `machines` or `chat` -/
  | operator (r : HttpAnswer)
  /-- an answer to `close` -/
  | closing (r : HttpAnswer)
  /-- an answer to `down`, with the sequence number it has to carry, if it is the last -/
  | down (r : HttpAnswer) (next : Option ℤ)
  /-- an answer to `up` -/
  | up (r : HttpAnswer)
  /-- what the server called the machine's install, the nonce and the session -/
  | sessionIds (ids : List PyVal)
  | signer (r : SignAnswer)
  /-- what the signing tool wrote -/
  | batch (bytes : Bytes)

/-- The tools' settings and what Python's library makes of texts. -/
structure McpEnv where
  /-- rounds of a loop that are watched -/
  fuel : ℕ
  texts : NumberTexts
  jsonLoads : Bytes → JsonResult
  /-- `str.upper` -/
  upper : PyStr → PyStr
  /-- `part.lower() in text.lower()`, for a text of the guest -/
  containsFold : PyStr → Bytes → Bool
  /-- `text.upper() == name.upper()` -/
  sameFold : PyStr → Bytes → Bool
  isLoopback : Bytes → Bool
  host : Bytes
  port : ℕ
  timeout : ℚ
  installId : Option PyStr
  discoverSeconds : ℚ
  allowRemote : Bool
  defaultRelay : PyVal
  operatorKeySet : Bool

/-- What a tool call keeps: the handler's address and relay, and the client. -/
structure McpState where
  host : Bytes
  port : ℕ
  resolved : Bool
  relay : PyVal
  /-- the client's transport; `none` is a TCP socket -/
  session : Option RelayState
  requestId : ℕ
  hello : Option Hello

abbrev Mcp (α : Type) := Prog McpState McpAnswer McpEvent PyExc α

namespace Mcp

/-- A call's data, or its failure. -/
def ofAnswer {α : Type} (r : Except OsFailure α) : Mcp α :=
  match r with
  | .ok a => pure a
  | .error failure => Prog.raise failure.exc

/-- A call without a result. -/
def call : Mcp Unit := do
  let r ← Prog.ask fun | .done r => some r | _ => none
  ofAnswer r

/-- A read of at most `count` bytes. -/
def read (count : ℕ) : Mcp Bytes := do
  let r ← Prog.ask fun | .data r => some r | _ => none
  let data ← ofAnswer r
  return data.take count

/-- A whole file. -/
def readFile : Mcp Bytes := do
  let r ← Prog.ask fun | .data r => some r | _ => none
  ofAnswer r

def test : Mcp Bool := Prog.ask fun | .test b => some b | _ => none
def size : Mcp ℕ := Prog.ask fun | .size n => some n | _ => none
def tree : Mcp (List (PyStr × List PyStr)) := Prog.ask fun | .tree dirs => some dirs | _ => none

/-- `time.monotonic()`. -/
def monotonic : Mcp ℚ := Prog.ask fun | .time t => some t | _ => none

def http : Mcp HttpAnswer := Prog.ask fun | .http r => some r | _ => none
def sign : Mcp SignAnswer := Prog.ask fun | .sign r => some r | _ => none
def datagram : Mcp (Option (Except OsFailure (Bytes × Bytes))) :=
  Prog.ask fun | .datagram d => some d | _ => none

/-- Raise `V9xError`. -/
def fail {α : Type} (text : String) : Mcp α := Prog.raise (v9xFail text)

/-- Raise `V9xError` where a check fails. -/
def check (ok : Bool) (text : String) : Mcp Unit := if ok then pure () else fail text

/-- Read an argument. -/
def arg {α : Type} (r : Except PyExc α) : Mcp α := do
  Prog.note (.argument (r.map fun _ => ()))
  Prog.lift r

/-- `try: p except handled as exc: h(exc)`, for the classes `handled`. -/
def except {α : Type} (p : Mcp α) (handled : ExcClass → Bool) (h : PyExc → Mcp α) : Mcp α :=
  Prog.tryWith p fun exc => if handled exc.cls then some (h exc) else none

end Mcp

end V9xRemote
