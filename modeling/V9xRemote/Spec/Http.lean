import V9xRemote.Lib.Bytes

/-!
# The HTTP client (`src/guest/http.c`)

`httpRequest` reads one whole response into a buffer of some capacity. The network decides
whether a connection is made and what each `recv` returns; a C string is the list of its bytes
before the NUL.
-/

namespace V9xRemote

open Bytes

def httpMaxHost : ℕ := 256
def httpMaxPath : ℕ := 1024
def httpNoLength : ℕ := 0xFFFFFFFF

/-- `v9x_http_ci_equal`: the text starts with a literal in lower case. -/
def httpCiEqual (text literal : Bytes) : Bool := literal.isPrefixOf (text.map lower)

/-! ## URLs -/

structure HttpUrl where
  host : Bytes
  port : ℕ
  path : Bytes
deriving DecidableEq, Repr

/-- The digits of a port, and what stands behind them. -/
def httpPortDigits (value : ℕ) (any : Bool) : Bytes → Option (ℕ × Bytes)
  | [] => if any then some (value, []) else none
  | c :: rest =>
    if 48 ≤ c ∧ c ≤ 57 then
      let value := value * 10 + (c.toNat - 48)
      if value > 65535 then none else httpPortDigits value true rest
    else if any then some (value, c :: rest) else none

/-- The path of a URL, `/` where there is none. -/
def httpUrlPath (rest : Bytes) : Option Bytes :=
  if rest = [] then some [47]
  else if rest.head? ≠ some 47 ∨ rest.length ≥ httpMaxPath then none
  else some rest

/-- `v9x_http_parse_url`; `none` with `*is_https` for an https URL. -/
def httpParseUrl (url : Bytes) : Option HttpUrl × Bool :=
  if httpCiEqual url (ascii "https://") then (none, true)
  else if !httpCiEqual url (ascii "http://") then (none, false)
  else
    let host := (url.drop 7).takeWhile fun c => c != 47 && c != 58
    let rest := (url.drop 7).dropWhile fun c => c != 47 && c != 58
    if host.length ≥ httpMaxHost ∨ host = [] then (none, false)
    else if rest.head? = some 58 then
      match httpPortDigits 0 false rest.tail with
      | none => (none, false)
      | some (port, rest) => ((httpUrlPath rest).map fun path => ⟨host, port, path⟩, false)
    else ((httpUrlPath rest).map fun path => ⟨host, 80, path⟩, false)

/-! ## The head of a response -/

/-- `v9x_http_find_body`: just past the first CRLF CRLF, or 0. -/
def httpFindBodyFrom (position : ℕ) : Bytes → ℕ
  | [] => 0
  | c :: rest =>
    if (ascii "\r\n\r\n").isPrefixOf (c :: rest) then position + 4 else httpFindBodyFrom (position + 1) rest

def httpFindBody (buffer : Bytes) : ℕ := httpFindBodyFrom 0 buffer

def httpIsDigit (c : UInt8) : Bool := 48 ≤ c && c ≤ 57

/-- `v9x_http_status_code`. -/
def httpStatusCode (head : Bytes) : ℕ :=
  if !httpCiEqual head (ascii "http/") then 0
  else
    let digits := ((head.dropWhile fun c => c != 32 && c != 13).dropWhile (· == 32)).takeWhile httpIsDigit
    if digits.length = 3 then digits.foldl (fun code c => code * 10 + (c.toNat - 48)) 0 else 0

/-- The digits of a length. -/
def httpLengthDigits (value : ℕ) (any : Bool) : Bytes → ℕ
  | [] => if any then value else httpNoLength
  | c :: rest =>
    if httpIsDigit c then
      if value > 429496728 then httpNoLength else httpLengthDigits (value * 10 + (c.toNat - 48)) true rest
    else if any then value else httpNoLength

def httpLengthName : Bytes := ascii "\r\ncontent-length:"

/-- `v9x_http_content_length`. -/
def httpContentLength : Bytes → ℕ
  | [] => httpNoLength
  | c :: rest =>
    if httpCiEqual (c :: rest) httpLengthName then
      httpLengthDigits 0 false (((c :: rest).drop httpLengthName.length).dropWhile (· == 32))
    else httpContentLength rest

/-! ## A request -/

/-- `V9xHttpRequest`. -/
structure HttpRequest where
  method : Bytes
  url : Bytes
  headers : Option Bytes
  body : Option Bytes
deriving DecidableEq, Repr

/-- `V9xHttpResponse`: its parts lie in the buffer. -/
structure HttpResult where
  status : ℕ
  bodyOffset : ℕ
  bodyLength : ℕ
deriving DecidableEq, Repr

/-- What `recv` returns, call after call: pieces, then the end of the stream or an error. -/
structure HttpStream where
  pieces : List Bytes
  closed : Bool
deriving DecidableEq, Repr

/-- A network: what comes of connecting to a host and sending a request. -/
abbrev HttpNet : Type := Bytes → ℕ → Bytes → Option HttpStream

/-- `v9x_http_append`, in a buffer of some capacity. -/
def httpAppend (capacity : ℕ) (target text : Bytes) : Option Bytes :=
  if target.length + text.length < capacity then some (target ++ text) else none

/-- What is sent in front of the body. -/
def httpRequestHead (request : HttpRequest) (url : HttpUrl) : Option Bytes :=
  let body := request.body.getD []
  let entity : List Bytes :=
    if request.body.isSome || httpCiEqual request.method (ascii "post") then
      [ascii "Content-Type: application/octet-stream\r\nContent-Length: ", decimal body.length, ascii "\r\n"]
    else []
  ([request.method, ascii " ", url.path, ascii " HTTP/1.0\r\nHost: ", url.host,
    ascii "\r\nUser-Agent: v9x-agent\r\nConnection: close\r\n", request.headers.getD []] ++ entity ++
      [ascii "\r\n"]).foldlM (httpAppend (httpMaxPath + 1024)) []

/-- Where the body starts and how long it will be, once the head is there. -/
def httpBodyStart (received : Bytes) (bodyStart expected : ℕ) : ℕ × ℕ :=
  if bodyStart ≠ 0 then (bodyStart, expected)
  else if httpFindBody received = 0 then (0, expected)
  else (httpFindBody received, httpContentLength (received.take (httpFindBody received)))

/-- What the buffer holds, and `body_start` and `expected` where the loop breaks. -/
structure HttpReceived where
  buffer : Bytes
  parts : Option (ℕ × ℕ)
deriving DecidableEq, Repr

/-- The receive loop. -/
def httpReceive (capacity : ℕ) (closed : Bool) : List Bytes → Bytes → ℕ → ℕ → HttpReceived
  | [], received, bodyStart, expected =>
    if received.length ≥ capacity then ⟨received, none⟩
    else if closed then ⟨received, some (bodyStart, expected)⟩
    else ⟨received, none⟩
  | piece :: rest, received, bodyStart, expected =>
    if received.length ≥ capacity then ⟨received, none⟩
    else
      let taken := piece.take (capacity - received.length)
      if taken = [] then ⟨received, some (bodyStart, expected)⟩
      else
        let received := received ++ taken
        let (bodyStart, expected) := httpBodyStart received bodyStart expected
        if bodyStart ≠ 0 ∧ expected ≠ httpNoLength ∧ received.length - bodyStart ≥ expected then
          ⟨received, some (bodyStart, expected)⟩
        -- what a full buffer leaves of a piece is not asked for again
        else httpReceive capacity closed rest received bodyStart expected

/-- What follows the receive loop. -/
def httpResponseOf (received : Bytes) (bodyStart expected : ℕ) : Option HttpResult :=
  let status := httpStatusCode (received.take bodyStart)
  let bodyLength := received.length - bodyStart
  if bodyStart = 0 ∨ status = 0 ∨ (expected ≠ httpNoLength ∧ bodyLength < expected) then none
  else some ⟨status, bodyStart, if expected ≠ httpNoLength then expected else bodyLength⟩

/-- `v9x_http_request`: what it put into the buffer, and the response. -/
def httpRequest (net : HttpNet) (request : HttpRequest) (capacity : ℕ) : Bytes × Option HttpResult :=
  match (httpParseUrl request.url).1 with
  | none => ([], none)
  | some url =>
    match httpRequestHead request url with
    | none => ([], none)
    | some head =>
      match net url.host url.port (head ++ request.body.getD []) with
      | none => ([], none)
      | some stream =>
        let received := httpReceive capacity stream.closed stream.pieces [] 0 httpNoLength
        (received.buffer, received.parts.bind fun parts => httpResponseOf received.buffer parts.1 parts.2)

/-! ## How a request ends -/

/-- `*native_error` where a request fails: one of three codes of its own, or the socket's. -/
inductive HttpError where
  | invalidParameter
  | insufficientBuffer
  | invalidData
  | socket
deriving DecidableEq, Repr

/-- The stream a request is answered with, where it gets that far. -/
def httpStream (net : HttpNet) (request : HttpRequest) : Except HttpError HttpStream :=
  match (httpParseUrl request.url).1 with
  | none => .error .invalidParameter
  | some url =>
    match httpRequestHead request url with
    | none => .error .invalidParameter
    | some head =>
      match net url.host url.port (head ++ request.body.getD []) with
      | none => .error .socket
      | some stream => .ok stream

/-- Why there is no response behind the receive loop. -/
def httpReceiveError (capacity : ℕ) (received : HttpReceived) : HttpError :=
  if received.parts.isSome then .invalidData
  else if received.buffer.length ≥ capacity then .insufficientBuffer
  else .socket

/-- What a caller sees of `v9x_http_request`: the status and the body, or the error. -/
def httpOutcome (net : HttpNet) (request : HttpRequest) (capacity : ℕ) : Except HttpError (ℕ × Bytes) :=
  match httpStream net request with
  | .error error => .error error
  | .ok stream =>
    let got := httpRequest net request capacity
    match got.2 with
    | some response => .ok (response.status, (got.1.drop response.bodyOffset).take response.bodyLength)
    | none => .error (httpReceiveError capacity (httpReceive capacity stream.closed stream.pieces [] 0 httpNoLength))

end V9xRemote
