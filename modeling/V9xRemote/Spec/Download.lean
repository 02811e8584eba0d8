import V9xRemote.Spec.Upload
import V9xRemote.Spec.Files
import V9xRemote.Spec.Http
import V9xRemote.Spec.Power

/-!
# Downloads (`src/guest/download.c`)

`v9x_handle_download`: one request, from its payload to the directory it leaves and the
frames it sends.
-/

namespace V9xRemote

open Bytes

def dlMaxUrl : ℕ := 1024
def dlMaxDest : ℕ := 230
def dlHeaderMax : ℕ := 8192
def dlRecvChunk : ℕ := 2048
def dlProgressStep : ℕ := 65536

/-- `V9X_MAX_DOWNLOAD_SIZE`. -/
def maxDownloadSize : ℕ := 67108864

def errorFileTooLarge : UInt32 := 223
def wsaTimedOut : UInt32 := 10060

/-- The last frame of a download. -/
inductive DownloadReply where
  | error (status native : UInt32) (detail : Bytes)
  | complete (httpStatus total crc : UInt32)
deriving DecidableEq, Repr

/-! ## The request -/

/-- The URL and the destination of a payload, or what is wrong with it. -/
def parseDownload (payload : Bytes) : Except Bytes (Bytes × Bytes) :=
  if payload.length < 4 then .error (ascii "download payload too short")
  else
    let urlLength := (payload.readU16 0).toNat
    if urlLength = 0 ∨ urlLength > dlMaxUrl ∨ 2 + urlLength + 2 > payload.length then
      .error (ascii "invalid download url")
    else
      let url := (payload.drop 2).take urlLength
      if url.any fun c => c ≤ 0x20 || c > 0x7e then .error (ascii "invalid download url")
      else
        let destLength := (payload.readU16 (2 + urlLength)).toNat
        if destLength = 0 ∨ destLength > dlMaxDest ∨ 2 + urlLength + 2 + destLength ≠ payload.length then
          .error (ascii "invalid download dest")
        else
          let dest := payload.drop (2 + urlLength + 2)
          if dest.any fun c => c == 0 || c > 0x7f then .error (ascii "invalid download dest") else .ok (url, dest)

/-- Where the file is written first. -/
def dlTempPath (dest : Bytes) (slot : UInt32) : Bytes := dest ++ ascii "." ++ decimal slot.toNat ++ ascii ".DLPART"

/-- The request of `v9x_dl_send_request`. -/
def dlRequest (url : HttpUrl) : Option Bytes :=
  [ascii "GET ", url.path, ascii " HTTP/1.0\r\nHost: ", url.host,
    ascii "\r\nUser-Agent: v9x-agent\r\nConnection: close\r\n\r\n"].foldlM (httpAppend (httpMaxPath + 512)) []

/-- A network: connecting gives a socket or an error, and what is sent on a socket is answered
by a stream or fails. -/
abbrev DownloadNet : Type := Bytes → ℕ → Except UInt32 (Bytes → Except UInt32 HttpStream)

/-- The answer to the request of a download. -/
def dlSend (url : HttpUrl) (send : Bytes → Except UInt32 HttpStream) : Except UInt32 HttpStream :=
  match dlRequest url with
  | none => .error 0
  | some request => send request

/-! ## Receiving -/

/-- The header loop: what it has read, and what `recv` would return next. -/
def dlHeader : List Bytes → Bytes → Bytes × List Bytes
  | [], header => (header, [])
  | piece :: rest, header =>
    if header.length ≥ dlHeaderMax then (header, piece :: rest)
    else
      let taken := piece.take (dlHeaderMax - header.length)
      if taken = [] then (header, rest)
      else
        let header := header ++ taken
        -- a piece that is cut has filled the header, and what is left of it comes next
        let left := piece.drop taken.length
        if left ≠ [] then (header, left :: rest)
        else if httpFindBody header ≠ 0 then (header, rest)
        else dlHeader rest header

/-- A piece as calls of `recv` return it, `V9X_DL_RECV_CHUNK` bytes at a time. -/
def dlChunks : ℕ → Bytes → List Bytes
  | 0, piece => [piece]
  | fuel + 1, piece =>
    if piece.length ≤ dlRecvChunk then [piece] else piece.take dlRecvChunk :: dlChunks fuel (piece.drop dlRecvChunk)

/-- What the system says to a `WriteFile`: it takes all of the bytes, or some, and there is an error. -/
structure WriteResult where
  whole : Bool
  kept : ℕ
  error : UInt32

/-- What the system says to the calls of one download. -/
structure DownloadCalls where
  create : CallResult
  writes : ℕ → WriteResult
  flush : CallResult
  dropTemp : CallResult
  promote : PromoteResults

/-- The transfer: what the temporary file holds, `body_total`, the running CRC, the progress that
was sent, how many writes there were, and `native_error` once it has failed. -/
structure DownloadBody where
  file : Bytes
  total : ℕ
  crc : UInt32
  nextProgress : ℕ
  progress : List ℕ
  writes : ℕ
  failed : Option UInt32

namespace DownloadBody

def start : DownloadBody := ⟨[], 0, crc32Begin, dlProgressStep, [], 0, none⟩

/-- A `WriteFile`. -/
def write (b : DownloadBody) (calls : DownloadCalls) (chunk : Bytes) : DownloadBody :=
  let result := calls.writes b.writes
  if result.whole then { b with file := b.file ++ chunk, writes := b.writes + 1 }
  else { b with file := b.file ++ chunk.take result.kept, writes := b.writes + 1, failed := some result.error }

/-- The body bytes that came with the header. -/
def initial (calls : DownloadCalls) (bytes : Bytes) : DownloadBody :=
  if bytes = [] then start
  else
    let b := { start with total := bytes.length, crc := crc32Update start.crc bytes }
    if b.total > maxDownloadSize then { b with failed := some (calls.writes 0).error } else b.write calls bytes

/-- A frame of progress, where it is due. -/
def report (b : DownloadBody) : DownloadBody :=
  if b.total ≥ b.nextProgress then
    { b with progress := b.progress ++ [b.total], nextProgress := b.nextProgress + dlProgressStep }
  else b

/-- The body loop. -/
def receive (calls : DownloadCalls) (closed : Bool) : List Bytes → DownloadBody → DownloadBody
  | [], b => if b.failed.isSome || closed then b else { b with failed := some wsaTimedOut }
  | chunk :: rest, b =>
    if b.failed.isSome then b
    else if chunk = [] then b
    else if b.total + chunk.length > maxDownloadSize then { b with failed := some errorFileTooLarge }
    else
      let b := { b with crc := crc32Update b.crc chunk }.write calls chunk
      if b.failed.isSome then b else receive calls closed rest { b with total := b.total + chunk.length }.report

end DownloadBody

/-! ## The handler -/

/-- What a download leaves: the directory, and the frames it has sent. -/
structure DownloadRun where
  fs : Fs Bytes
  progress : List ℕ
  reply : DownloadReply

/-- The end of a transfer: the temporary file is removed or promoted. -/
def finishDownload (fs : Fs Bytes) (dest temp : Bytes) (calls : DownloadCalls) (httpStatus : ℕ) (b : DownloadBody) :
    DownloadRun :=
  let fs := fs.append (winKey temp) b.file
  let failed := if !calls.flush.ok && b.failed.isNone then some calls.flush.error else b.failed
  match failed with
  | some native =>
    ⟨fs.remove (winKey temp) calls.dropTemp, b.progress,
      .error (if native = errorFileTooLarge then statusLimitExceeded else statusIoFailed) native
        (ascii "download body transfer failed")⟩
  | none =>
    let (fs, status, native) := winPromoteTemp fs dest temp calls.promote
    if status ≠ statusOk then ⟨fs, b.progress, .error status native (ascii "download final rename failed")⟩
    else ⟨fs, b.progress, .complete (UInt32.ofNat httpStatus) (UInt32.ofNat b.total) (crc32End b.crc)⟩

/-- From the response on. -/
def receiveDownload (fs : Fs Bytes) (dest temp : Bytes) (calls : DownloadCalls) (stream : HttpStream) : DownloadRun :=
  let (header, rest) := dlHeader stream.pieces []
  let bodyStart := httpFindBody header
  if bodyStart = 0 then ⟨fs, [], .error statusIoFailed errorInvalidData (ascii "download response header invalid")⟩
  else
    let httpStatus := httpStatusCode header
    if httpStatus ≠ 200 then
      ⟨fs, [], .error statusIoFailed (UInt32.ofNat httpStatus) (ascii "download http status not 200")⟩
    else
      match fs.create (winKey temp) calls.create with
      | (fs, false) => ⟨fs, [], .error statusIoFailed calls.create.error (ascii "download temp create failed")⟩
      | (fs, true) =>
        finishDownload fs dest temp calls httpStatus
          (.receive calls stream.closed (rest.flatMap fun piece => dlChunks piece.length piece)
            (.initial calls (header.drop bodyStart)))

/-- `v9x_handle_download`. -/
def handleDownload (slot : UInt32) (fs : Fs Bytes) (net : DownloadNet) (calls : DownloadCalls) (payload : Bytes) :
    DownloadRun :=
  match parseDownload payload with
  | .error detail => ⟨fs, [], .error statusInvalidPayload errorInvalidParameter detail⟩
  | .ok (url, dest) =>
    match httpParseUrl url with
    | (none, isHttps) =>
      ⟨fs, [], .error (if isHttps then statusUnsupportedOperation else statusInvalidPayload) errorInvalidParameter
        (ascii (if isHttps then "https is not supported (http only)" else "malformed http url"))⟩
    | (some url, _) =>
      match net url.host url.port with
      | .error native => ⟨fs, [], .error statusIoFailed native (ascii "download connect failed")⟩
      | .ok send =>
        match dlSend url send with
        | .error native => ⟨fs, [], .error statusIoFailed native (ascii "download request send failed")⟩
        | .ok stream => receiveDownload fs dest (dlTempPath dest slot) calls stream

end V9xRemote
