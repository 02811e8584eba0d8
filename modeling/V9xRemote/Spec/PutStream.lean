import V9xRemote.Spec.Upload
import V9xRemote.Spec.Python

/-!
# An upload over one connection (`put_stream`, `mcp/v9x_mcp.py`)

The client with its window of chunks, the agent's upload handlers, and the requests and
replies between them. Both directions keep their order. `putStep` is one call or read of
the client's, or one request of the agent's; the agent may lag behind by any number of
requests.
-/

namespace V9xRemote

open Bytes

/-! ## The client -/

/-- A call of `put_stream`: the guest path, and the bytes of the file as its first and its
second reading find them. -/
structure PutJob where
  path : Bytes
  first : Bytes
  second : Bytes
deriving DecidableEq, Repr

def PutJob.size (job : PutJob) : ℕ := job.first.length

def PutJob.crc (job : PutJob) : UInt32 := crc32 job.first

/-- The payload of OPEN_WRITE. -/
def PutJob.opening (job : PutJob) : Bytes :=
  writeU32 (UInt32.ofNat job.size) ++ writeU32 job.crc ++ writeU16 (UInt16.ofNat job.path.length) ++ job.path

/-- A request of an upload, or of another operation, which leaves the write state alone. -/
inductive PutRequest
  | upload (request : UploadRequest)
  | other
deriving DecidableEq, Repr

inductive PutReply
  | upload (reply : UploadReply)
  | other
deriving DecidableEq, Repr

/-- How an operation ends for its caller. -/
inductive PutOutcome
  /-- the upload is confirmed -/
  | complete
  /-- another operation has its response -/
  | answered
  /-- `V9xGuestError` -/
  | guestError (status native : UInt32) (detail : String)
  /-- `V9xError`, and an exception of Python's own -/
  | error (text : String)
deriving DecidableEq, Repr

/-- Where the client is. -/
inductive PutPc
  | idle (last : Option PutOutcome)
  /-- OPEN_WRITE is sent -/
  | opening (job : PutJob)
  /-- chunks are in flight: the end of each -/
  | waiting (job : PutJob) (offset acked : ℕ) (inFlight : List ℕ)
  /-- COMMIT is sent -/
  | committing (job : PutJob)
  /-- another operation's request is sent -/
  | asking
deriving DecidableEq, Repr

/-- What a refill reads into the free places of the window: each chunk with its offset, and
whether the file had them all. -/
def refillChunks (job : PutJob) : ℕ → ℕ → List (ℕ × Bytes) × Bool
  | 0, _ => ([], true)
  | room + 1, offset =>
    if offset < job.size then
      let piece := (job.second.drop offset).take (min chunkSize (job.size - offset))
      if piece = [] then ([], false)
      else
        let (chunks, whole) := refillChunks job room (offset + piece.length)
        ((offset, piece) :: chunks, whole)
    else ([], true)

def chunkPayload (chunk : ℕ × Bytes) : Bytes := writeU32 (UInt32.ofNat chunk.1) ++ chunk.2

def chunkEnd (chunk : ℕ × Bytes) : ℕ := chunk.1 + chunk.2.length

/-! ## The connection -/

variable {K : Type} [DecidableEq K]

/-- The agent's files and write state, the requests and replies on their way, and the client. -/
structure PutSystem (K : Type) where
  fs : Fs K
  upload : Option WriteState
  requests : List (UInt32 × PutRequest)
  replies : List (UInt32 × PutReply)
  requestId : UInt32
  pc : PutPc

namespace PutSystem

/-- Nothing is on its way. -/
def start (fs : Fs K) (upload : Option WriteState) (requestId : UInt32) : PutSystem K :=
  ⟨fs, upload, [], [], requestId, .idle none⟩

/-- A fresh connection to the same agent. -/
def fresh (s : PutSystem K) : PutSystem K := start s.fs none s.requestId

/-- `next_id`. -/
def nextId (s : PutSystem K) : PutSystem K := { s with requestId := s.requestId % 0x7FFFFFFE + 1 }

def send (s : PutSystem K) (request : PutRequest) : PutSystem K :=
  { s with requests := s.requests ++ [(s.requestId, request)] }

def finish (s : PutSystem K) (outcome : PutOutcome) : PutSystem K := { s with pc := .idle (some outcome) }

/-- `put_stream` up to its first `expect`. -/
def put (s : PutSystem K) (job : PutJob) : PutSystem K :=
  if job.size > maxFile then s.finish (.error "file exceeds the 2 GiB protocol limit")
  else if job.path.any fun b => b == 0 || b > 0x7f then
    s.nextId.finish (.error "protocol strings must be non-NUL 7-bit ASCII")
  else if job.path.length > 65535 then s.nextId.finish (.error "string exceeds protocol limit")
  else if job.opening.length > maxPayload then s.nextId.finish (.error "payload exceeds protocol limit")
  else { s.nextId.send (.upload (.openWrite job.opening)) with pc := .opening job }

/-- The head of `put_stream`'s loop, up to the next `expect`. -/
def advance (window : ℕ) (s : PutSystem K) (job : PutJob) (offset acked : ℕ) (inFlight : List ℕ) : PutSystem K :=
  if acked < job.size then
    let room := if inFlight.length ≤ max 1 window / 2 then max 1 window - inFlight.length else 0
    let (chunks, whole) := refillChunks job room offset
    let requests := s.requests ++ chunks.map fun chunk => (s.requestId, .upload (.writeChunk (chunkPayload chunk)))
    if whole then
      { s with
        requests := requests,
        pc := .waiting job ((chunks.map chunkEnd).getLastD offset) acked (inFlight ++ chunks.map chunkEnd) }
    else { s with requests := requests }.finish (.error "local file changed during the upload")
  else { s.send (.upload (.commit [])) with pc := .committing job }

/-- What the client makes of a response of its own request. -/
def answer (window : ℕ) (s : PutSystem K) : PutReply → PutSystem K
  | .upload (.error status native detail) => s.finish (.guestError status native detail)
  | .upload (.writeReady size crc) =>
    match s.pc with
    | .opening job =>
      if size = UInt32.ofNat job.size && crc = job.crc then s.advance window job 0 0 []
      else s.finish (.error "FILE_WRITE_READY did not echo size and CRC32")
    | _ => s.finish (.error "unexpected response type")
  | .upload (.writeAck received) =>
    match s.pc with
    | .waiting job offset _ (acked :: inFlight) =>
      if received = UInt32.ofNat acked then s.advance window job offset acked inFlight
      else s.finish (.error "upload acknowledgement offset mismatch")
    | .waiting _ _ _ [] => s.finish (.error "pop from empty list")
    | _ => s.finish (.error "unexpected response type")
  | .upload (.writeComplete size crc) =>
    match s.pc with
    | .committing job =>
      if size = UInt32.ofNat job.size && crc = job.crc then s.finish .complete
      else s.finish (.error "commit did not confirm size and CRC32")
    | _ => s.finish (.error "unexpected response type")
  | .other =>
    match s.pc with
    | .asking => s.finish .answered
    | _ => s.finish (.error "unexpected response type")

/-- `expect`. -/
def expect (window : ℕ) (s : PutSystem K) : Option (PutSystem K) :=
  match s.replies with
  | [] => none
  | (id, reply) :: replies =>
    let s := { s with replies := replies }
    if id ≠ s.requestId then some (s.finish (.error "response request ID does not match"))
    else some (s.answer window reply)

/-- The agent takes the next request. -/
def handle (port : Port K) (slot : UInt32) (s : PutSystem K) (results : UploadResults) : Option (PutSystem K) :=
  match s.requests with
  | [] => none
  | (id, .other) :: requests => some { s with requests := requests, replies := s.replies ++ [(id, .other)] }
  | (id, .upload request) :: requests =>
    match handleUpload port slot s.fs s.upload id results request with
    | (fs, upload, reply) =>
      some { s with fs := fs, upload := upload, requests := requests, replies := s.replies ++ [(id, .upload reply)] }

end PutSystem

inductive PutAct (K : Type)
  | put (job : PutJob)
  /-- another operation of the client's -/
  | operation
  /-- the agent takes a request: what the system says to its calls -/
  | handle (results : UploadResults)
  /-- the client reads a reply -/
  | expect
  /-- another program or connection changes the files -/
  | elsewhere (fs : Fs K)

/-- **One step of the client or the agent.** -/
def putStep (port : Port K) (slot : UInt32) (window : ℕ) (s : PutSystem K) : PutAct K → Option (PutSystem K)
  | .put job =>
    match s.pc with
    | .idle _ => some (s.put job)
    | _ => none
  | .operation =>
    match s.pc with
    | .idle _ => some { s.nextId.send .other with pc := .asking }
    | _ => none
  | .handle results => s.handle port slot results
  | .expect =>
    match s.pc with
    | .idle _ => none
    | _ => s.expect window
  | .elsewhere fs => some { s with fs := fs }

/-!
# An upload through a transport (`put_stream`, `RelaySession`)

The client of an upload, its frames until they are at the agent, and an agent that accepts
everything. A socket passes a frame on at once. A relay session keeps it until the client waits
for an answer: `sendall` only adds to `pending`, and `recv` flushes it first.
-/

inductive PutTransport
  | socket
  | relay
deriving DecidableEq, Repr

variable {K : Type}

/-- An upload, what its transport keeps back, and the frames sent and read so far. -/
structure PutPipe (K : Type) where
  system : PutSystem K
  pending : List (UInt32 × PutRequest)
  /-- the size and CRC the agent was told -/
  announced : UInt32 × UInt32
  sent : List (UInt32 × PutRequest)
  read : List (UInt32 × PutReply)

/-- What an agent that accepts everything answers. -/
def acceptReply (announced : UInt32 × UInt32) : PutRequest → PutReply
  | .upload (.openWrite payload) => .upload (.writeReady (payload.readU32 0) (payload.readU32 4))
  | .upload (.writeChunk payload) => .upload (.writeAck (payload.readU32 0 + UInt32.ofNat (payload.drop 4).length))
  | .upload (.commit _) => .upload (.writeComplete announced.1 announced.2)
  | .other => .other

/-- What the agent is told by a request. -/
def announce (announced : UInt32 × UInt32) : PutRequest → UInt32 × UInt32
  | .upload (.openWrite payload) => (payload.readU32 0, payload.readU32 4)
  | _ => announced

namespace PutPipe

/-- The client has run up to its next wait: `s` holds the frames it sent. -/
def sendAll (transport : PutTransport) (p : PutPipe K) (s : PutSystem K) : PutPipe K :=
  match transport with
  | .socket => { p with system := { s with requests := p.system.requests ++ s.requests }, sent := p.sent ++ s.requests }
  | .relay =>
    { p with
      system := { s with requests := p.system.requests }
      pending := p.pending ++ s.requests
      sent := p.sent ++ s.requests }

/-- `_flush`. -/
def flush (p : PutPipe K) : PutPipe K :=
  { p with system := { p.system with requests := p.system.requests ++ p.pending }, pending := [] }

/-- The call of `put_stream`, on a fresh connection. -/
def start (transport : PutTransport) (fs : Fs K) (requestId : UInt32) (job : PutJob) : PutPipe K :=
  sendAll transport ⟨.start fs none requestId, [], (0, 0), [], []⟩ ((PutSystem.start fs none requestId).put job)

/-- The agent takes the next frame. -/
def accept (p : PutPipe K) : Option (PutPipe K) :=
  match p.system.requests with
  | [] => none
  | (id, request) :: requests =>
    let announced := announce p.announced request
    some
      { p with
        announced
        system := { p.system with requests, replies := p.system.replies ++ [(id, acceptReply announced request)] } }

/-- `expect`, once a response is there, and what the client does up to the next. -/
def expect (transport : PutTransport) (window : ℕ) (p : PutPipe K) : Option (PutPipe K) :=
  match p.system.replies with
  | [] => none
  | reply :: _ =>
    ({ p.system with requests := [] }.expect window).map fun s => { p.flush.sendAll transport s with read := p.read ++ [reply] }

end PutPipe

inductive PipeAct
  /-- the client begins to wait -/
  | flush
  /-- the agent takes a frame -/
  | accept
  /-- the client reads a response -/
  | expect
deriving DecidableEq, Repr

/-- **One step of an upload.** The client waits wherever it is not through. -/
def pipeStep (transport : PutTransport) (window : ℕ) (p : PutPipe K) : PipeAct → Option (PutPipe K)
  | .flush =>
    match p.system.pc with
    | .idle _ => none
    | _ => if p.pending = [] then none else some p.flush
  | .accept => p.accept
  | .expect =>
    match p.system.pc with
    | .idle _ => none
    | _ => p.expect transport window

end V9xRemote
