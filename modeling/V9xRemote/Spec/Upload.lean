import V9xRemote.Spec.Promote
import V9xRemote.Lib.Bytes

/-!
# CRC-32 (`src/common/crc32.c`)

The reflected CRC-32 with its table of 256 words.
-/

namespace V9xRemote

/-- One turn of the bit loop of `v9x_crc32_initialize`. -/
def crc32Bit (value : UInt32) : UInt32 := (value >>> 1) ^^^ (0xedb88320 &&& (0 - (value &&& 1)))

/-- `v9x_crc32_table`, as `v9x_crc32_initialize` fills it. -/
def crc32Table : List UInt32 :=
  (List.range 256).map fun index => crc32Bit^[8] (UInt32.ofNat index)

def crc32Begin : UInt32 := 0xffffffff

def crc32Update (crc : UInt32) (data : Bytes) : UInt32 :=
  data.foldl (fun crc b => (crc >>> 8) ^^^ crc32Table.getD ((crc ^^^ b.toUInt32) &&& 0xff).toNat 0) crc

def crc32End (crc : UInt32) : UInt32 := crc ^^^ 0xffffffff

def crc32 (data : Bytes) : UInt32 := crc32End (crc32Update crc32Begin data)

/-- The running CRC of two pieces is that of the whole. -/
theorem crc32Update_append (crc : UInt32) (a b : Bytes) :
    crc32Update crc (a ++ b) = crc32Update (crc32Update crc a) b := by
  rw [crc32Update, List.foldl_append]; rfl

example : crc32 (Bytes.ascii "123456789") = 0xcbf43926 := by decide

/-!
# Chunked uploads (OPEN_WRITE, WRITE_CHUNK, WRITE_COMMIT)

The upload handlers of both agents, over a `Port`. `uploadStep` is one request of
a connection, or its end; `log` is the conversation so far, newest exchange first.
-/

open Bytes

def maxFileSize : UInt32 := 2147483647
def fileChunkSize : ℕ := 32768

/-- A write state whose file is open (`V9xWriteState`, `V9xDosWriteState`). -/
structure WriteState where
  expectedSize : UInt32
  expectedCrc : UInt32
  received : UInt32
  runningCrc : UInt32
  finalPath : Bytes
  tempPath : Bytes
deriving DecidableEq, Repr

/-- A request with its payload. -/
inductive UploadRequest
  | openWrite (payload : Bytes)
  | writeChunk (payload : Bytes)
  | commit (payload : Bytes)
deriving DecidableEq, Repr

inductive UploadReply
  | error (status native : UInt32) (detail : String)
  | writeReady (size crc : UInt32)
  | writeAck (received : UInt32)
  | writeComplete (received crc : UInt32)
deriving DecidableEq, Repr

/-- What the system says to the calls a request may make; `wrote` is how many
bytes of the chunk a `WriteFile` / `write` put into the file. -/
structure UploadResults where
  create : CallResult
  write : CallResult
  wrote : ℕ
  flush : CallResult
  dropTemp : CallResult
  promote : PromoteResults
deriving DecidableEq, Repr

structure Exchange where
  request : UploadRequest
  results : UploadResults
  reply : UploadReply
deriving DecidableEq, Repr

/-- `v9x_read_path`. -/
def readPath (payload : Bytes) (offset maximum : ℕ) : Option Bytes :=
  if offset > payload.length || payload.length - offset < 2 then none
  else
    let pathLength := (payload.readU16 offset).toNat
    if pathLength = 0 || pathLength > maximum || pathLength != payload.length - (offset + 2) then none
    else
      let path := payload.drop (offset + 2)
      if path.any fun b => b == 0 || b > 0x7f then none else some path

variable {K : Type} [DecidableEq K]

/-- `v9x_handle_open_write`. -/
def handleOpenWrite (port : Port K) (slot : UInt32) (fs : Fs K) (upload : Option WriteState)
    (requestId : UInt32) (payload : Bytes) (r : UploadResults) : Fs K × Option WriteState × UploadReply :=
  match upload with
  | some ws => (fs, some ws, .error statusBusy 0 "upload already active")
  | none =>
    match if payload.length < 10 then none else readPath payload 8 port.pathMax with
    | none => (fs, none, .error statusInvalidPayload port.errInvalid "invalid upload request")
    | some finalPath =>
      let expectedSize := payload.readU32 0
      let expectedCrc := payload.readU32 4
      match if expectedSize > maxFileSize then none else port.partPath finalPath slot requestId with
      | none => (fs, none, .error statusLimitExceeded port.errTooLarge "upload exceeds limits")
      | some tempPath =>
        match fs.create (port.key tempPath) r.create with
        | (fs, false) =>
          (fs, none, .error (port.fileStatus r.create.error) r.create.error "upload part create failed")
        | (fs, true) =>
          (fs, some ⟨expectedSize, expectedCrc, 0, crc32Begin, finalPath, tempPath⟩,
            .writeReady expectedSize expectedCrc)

/-- `v9x_handle_write_chunk`. -/
def handleWriteChunk (port : Port K) (fs : Fs K) (upload : Option WriteState) (payload : Bytes)
    (r : UploadResults) : Fs K × Option WriteState × UploadReply :=
  match upload with
  | none => (fs, none, .error statusInvalidPayload port.errHandle "no upload active")
  | some ws =>
    if payload.length < 4 || payload.length > fileChunkSize + 4 || payload.readU32 0 != ws.received then
      (fs, some ws, .error statusInvalidPayload port.errInvalid "upload offset mismatch")
    else
      let chunk := payload.drop 4
      let chunkLength := UInt32.ofNat chunk.length
      if chunkLength > ws.expectedSize - ws.received then
        (fs, some ws, .error statusLimitExceeded port.errTooLarge "upload exceeds declared size")
      else if chunkLength != 0 && (!r.write.ok || r.wrote != chunk.length) then
        (fs.append (port.key ws.tempPath) (chunk.take r.wrote), some ws,
          .error statusIoFailed r.write.error "upload write failed")
      else
        (fs.append (port.key ws.tempPath) chunk,
          some { ws with
            runningCrc := crc32Update ws.runningCrc chunk, received := ws.received + chunkLength },
          .writeAck (ws.received + chunkLength))

/-- `v9x_handle_commit` from the closed file on. -/
def commitClosed (port : Port K) (fs : Fs K) (ws : WriteState) (r : UploadResults) :
    Fs K × Option WriteState × UploadReply :=
  let actualCrc := crc32End ws.runningCrc
  if ws.received != ws.expectedSize || actualCrc != ws.expectedCrc then
    (fs.remove (port.key ws.tempPath) r.dropTemp, none,
      .error statusCrcMismatch port.errCrc "upload size or CRC mismatch")
  else
    match promoteTemp port fs ws.finalPath ws.tempPath r.promote with
    | (fs, status, native) =>
      if status != statusOk then (fs, none, .error status native "upload final rename failed")
      else (fs, none, .writeComplete ws.received actualCrc)

/-- `v9x_handle_commit`. -/
def handleCommit (port : Port K) (fs : Fs K) (upload : Option WriteState) (payload : Bytes)
    (r : UploadResults) : Fs K × Option WriteState × UploadReply :=
  match upload with
  | none => (fs, none, .error statusInvalidPayload port.errHandle "no upload to commit")
  | some ws =>
    if payload.length ≠ 0 then
      (fs, some ws, .error statusInvalidPayload port.errHandle "no upload to commit")
    else if port.flushes && !r.flush.ok then
      (fs.remove (port.key ws.tempPath) r.dropTemp, none,
        .error statusIoFailed r.flush.error "upload flush failed")
    else commitClosed port fs ws r

/-- `v9x_handle_file_message`, its three upload messages. -/
def handleUpload (port : Port K) (slot : UInt32) (fs : Fs K) (upload : Option WriteState)
    (requestId : UInt32) (r : UploadResults) : UploadRequest → Fs K × Option WriteState × UploadReply
  | .openWrite payload => handleOpenWrite port slot fs upload requestId payload r
  | .writeChunk payload => handleWriteChunk port fs upload payload r
  | .commit payload => handleCommit port fs upload payload r

/-- `v9x_files_disconnect`. -/
def filesDisconnect (port : Port K) (fs : Fs K) (upload : Option WriteState) (r : CallResult) : Fs K :=
  match upload with
  | some ws => fs.remove (port.key ws.tempPath) r
  | none => fs

/-- A connection serves requests until a reply cannot be sent or the client goes,
then ends with `v9x_files_disconnect`. -/
inductive ConnPhase
  | serving
  | ending
  | closed
deriving DecidableEq, Repr

structure UploadConn (K : Type) where
  fs : Fs K
  upload : Option WriteState
  log : List Exchange
  phase : ConnPhase

/-- A connection before its first request. -/
def UploadConn.start (fs : Fs K) : UploadConn K := ⟨fs, none, [], .serving⟩

inductive UploadAct
  /-- a request, what the system says to its calls, and whether the reply went out -/
  | request (requestId : UInt32) (request : UploadRequest) (results : UploadResults) (sent : Bool)
  | disconnect (result : CallResult)
deriving DecidableEq, Repr

/-- **One request of a connection, or its end.** -/
def uploadStep (port : Port K) (slot : UInt32) (s : UploadConn K) : UploadAct → Option (UploadConn K)
  | .request requestId request results sent =>
    match s.phase with
    | .serving =>
      match handleUpload port slot s.fs s.upload requestId results request with
      | (fs, upload, reply) =>
        some ⟨fs, upload, ⟨request, results, reply⟩ :: s.log, if sent then .serving else .ending⟩
    | _ => none
  | .disconnect result =>
    match s.phase with
    | .closed => none
    | _ => some ⟨filesDisconnect port s.fs s.upload result, none, s.log, .closed⟩

end V9xRemote
