import V9xRemote.Spec.Relay
import V9xRemote.Spec.UpdateProto

/-!
# A remote-help session (`src/guest/remote.c`)

`sessionStep` is `v9x_remote_session` cut at every point where the worker waits
for something or where another thread can be seen: each read of the pause flag,
each HTTP request in flight, each record taken from a batch, each `send` on the
loopback connection. An action says what the outside world did there: what the
server answered, how much `send` took, what the handlers had written. The tray's
Pause/Resume may come between any two of them.

Of `v9x_remote_poll` the model keeps what a session reads back (identity, session
id and state, retirement); chat and the status file are left out.
-/

namespace V9xRemote

open Bytes

/-! ## Text helpers -/

/-- `v9x_rt_append`: the text so far, and whether all of it fitted. -/
def rtAppend (capacity : ℕ) (target text : Bytes) : Bytes × Bool :=
  let room := capacity - 1 - target.length
  if text.length ≤ room then (target ++ text, true) else (target ++ text.take room, false)

/-- Successive appends to an empty buffer whose results are ignored. -/
def rtText (capacity : ℕ) (parts : List Bytes) : Bytes :=
  parts.foldl (fun target text => (rtAppend capacity target text).1) []

/-- Successive appends joined by `&&`. -/
def rtAll (capacity : ℕ) (parts : List Bytes) : Option Bytes :=
  parts.foldlM (fun target text =>
    match rtAppend capacity target text with
    | (out, true) => some out
    | (_, false) => none) []

/-- `v9x_rt_append_number`, the text it appends. -/
def rtNumber (value : ℤ) : Bytes :=
  if value < 0 then 45 :: decimal value.natAbs else decimal value.natAbs

/-- `v9x_rt_ci_find`: `needle` occurs in `data`, without case. -/
def rtCiFind (data needle : Bytes) : Bool :=
  data.tails.any fun tail => (needle.map lower).isPrefixOf (tail.map lower)

/-! ## State -/

/-- The reply of one HTTP call: status, the bytes up to `body_offset`, the body. -/
structure HttpResponse where
  status : ℕ
  head : Bytes
  body : Bytes
deriving DecidableEq, Repr

/-- The fields of `V9xRemote` a session uses. -/
structure Remote where
  server : Bytes
  machine : Bytes
  secret : Bytes
  nextPoll : ℕ
  sessionId : Bytes
  sessionState : Bytes
  stop : Bool
deriving DecidableEq, Repr

/-- One HTTP call the session made. -/
structure Request where
  method : String
  op : String
  query : Bytes
  body : Bytes
deriving DecidableEq, Repr

/-- Where the worker is. -/
inductive Pc
  /-- before the first flag test -/
  | entry
  /-- the `accept` call is in flight -/
  | accept
  /-- head of the loop, before the flag test -/
  | top
  /-- the `down` call is in flight -/
  | down
  /-- before `v9x_relay_next` at `offset` of a down batch -/
  | batch (body : Bytes) (offset : ℕ)
  /-- in `v9x_http_send_all` of a verified record, `total` bytes sent -/
  | feed (body : Bytes) (offset : ℕ) (record : RelayRecord) (total : ℕ)
  /-- before `v9x_remote_drain` -/
  | drain
  /-- try number `tries` of an `up` call is in flight -/
  | up (bytes : Bytes) (tries : ℕ)
  /-- before the heartbeat test -/
  | heartbeat
  /-- the heartbeat's `poll` call is in flight -/
  | poll
  /-- at `finished:` -/
  | finished
  /-- a last call, whose reply is ignored, is in flight -/
  | closing
  /-- returned -/
  | over
deriving DecidableEq, Repr

/-- The worker, the flags it shares, and what went into the loopback connection:
`tunnel` holds the records sent whole, `part` the sent bytes of one that was not. -/
structure Session where
  remote : Remote
  installId : Bytes
  paused : Bool
  remoteSession : Bool
  session : Bytes
  nonce : Bytes
  reason : Bytes
  expected : UInt32
  upSeq : UInt32
  moved : Bool
  fed : Bool
  serverClosed : Bool
  pc : Pc
  requests : List Request
  tunnel : List Bytes
  part : Bytes
deriving DecidableEq, Repr

/-- What happens next. -/
inductive Act
  /-- the owner chooses Pause or Resume on the tray menu -/
  | tray
  /-- the entry test, with whether the loopback pair could be made -/
  | enter (loopback : Bool)
  /-- the HTTP call in flight ends, `none` without a reply -/
  | reply (response : Option HttpResponse)
  /-- the flag test at the head of the loop -/
  | test
  /-- the next record of the batch is read and checked -/
  | next
  /-- one `send`: how many bytes it took, `none` when the wait or the call failed -/
  | send (count : Option ℕ)
  /-- what the handlers had written, `none` when the loopback is closed -/
  | drained (bytes : Option Bytes)
  /-- the heartbeat test, with whether 15 s have passed -/
  | beat (due : Bool)
  /-- the work at `finished:` -/
  | finish
deriving DecidableEq, Repr

def remoteUpMax : ℕ := 262144
def remoteIdlePoll : ℕ := 60
def remoteUrlMax : ℕ := 512

/-- `V9X_REMOTE_PUBLIC_KEY` (`include/v9xremote/remote_key.h`). -/
def remotePublicKey : Bytes :=
  [0x76, 0xf9, 0xf3, 0x96, 0x3a, 0x12, 0xc1, 0xfa, 0xd3, 0x0a, 0xa2, 0x04, 0x6c, 0x9b, 0x11, 0xdf,
   0x29, 0x0a, 0x67, 0xb3, 0xd2, 0x8c, 0x47, 0x75, 0x5d, 0x96, 0xfe, 0x7f, 0xbd, 0xca, 0xf3, 0x1f]

/-! ## Calls to the server -/

/-- `v9x_remote_url`: `none` when the URL does not fit. -/
def remoteUrl (r : Remote) (op : String) (extra : Bytes) : Option Bytes :=
  rtAll remoteUrlMax ([r.server, ascii "/index.php?bt_type=v9xa_", ascii op] ++
    (if r.machine = [] then [] else [ascii "&machine=", r.machine]) ++ [extra])

/-- `v9x_remote_value`, as the text the caller reads. -/
def remoteValue (response : HttpResponse) (sect key : String) (capacity : ℕ) : Option Bytes :=
  (updateIniValue response.body (ascii sect) (ascii key) capacity).map cstr

/-- `v9x_remote_forget`. -/
def remoteForget (r : Remote) : Remote := { r with machine := [], secret := [] }

/-- The leading digits of a text, as a 32-bit number. -/
def leadingNumber (value : Bytes) : UInt32 :=
  (value.takeWhile fun c => 48 ≤ c && c ≤ 57).foldl (fun n c => n * 10 + (c - 48).toUInt32) 0

/-- `v9x_remote_poll` from its reply on. -/
def remotePoll (r : Remote) : Option HttpResponse → Bool × Remote
  | none => (false, r)
  | some response =>
    match remoteValue response "poll" "status" 32 with
    | none => (false, r)
    | some value =>
      if value = ascii "unknown_machine" || value = ascii "bad_secret" then (false, remoteForget r)
      else if value = ascii "retired" then (false, { r with stop := true })
      else if value != ascii "ok" then (false, { r with nextPoll := 600 })
      else
        let seconds := ((remoteValue response "poll" "next_poll" 16).map leadingNumber).getD 0
        let nextPoll := if 1 ≤ seconds && seconds ≤ 3600 then seconds.toNat else remoteIdlePoll
        let id := (remoteValue response "session" "id" 40).getD []
        if relayHexIdValid id then
          (true, { r with
            nextPoll := nextPoll, sessionId := id,
            sessionState := (remoteValue response "session" "state" 16).getD [] })
        else (true, { r with nextPoll := nextPoll, sessionId := [], sessionState := [] })

/-- `v9x_remote_nonce` of a generated UUID. -/
def remoteNonce (uuid : Bytes) : Bytes := (uuid.filter (· ≠ 45)).take relayHexIdLength

namespace Session

/-- Entry into `v9x_remote_session`; `uuid` is what the nonce will be drawn from. -/
def start (remote : Remote) (installId : Bytes) (paused : Bool) (sessionId uuid : Bytes) : Session where
  remote := remote
  installId := installId
  paused := paused
  remoteSession := false
  session := sessionId.take 39
  nonce := remoteNonce uuid
  reason := ascii "ended"
  expected := 1
  upSeq := 1
  moved := true
  fed := false
  serverClosed := false
  pc := .entry
  requests := []
  tunnel := []
  part := []

/-- Start a call: in flight at `next`, or straight on to `skip` when its URL does not fit. -/
def call (s : Session) (method op : String) (query body : Bytes) (next skip : Pc) : Session :=
  match remoteUrl s.remote op query with
  | some _ => { s with requests := s.requests ++ [⟨method, op, query, body⟩], pc := next }
  | none => { s with pc := skip }

/-- `v9x_remote_session_call`. -/
def sessionCall (s : Session) (op : String) (extra : Bytes) : Session :=
  s.call "POST" op (rtText 96 [ascii "&session=", s.session, extra]) [] .closing .over

/-- `goto finished` with a reason. -/
def stop (s : Session) (reason : String) : Session := { s with reason := ascii reason, pc := .finished }

/-- The server ended the session. -/
def closedByServer (s : Session) : Session := { s with serverClosed := true, pc := .finished }

def enter (s : Session) (loopback : Bool) : Session :=
  if s.paused then s.sessionCall "accept" (ascii "&refuse=paused")
  else if !loopback then s.sessionCall "accept" (ascii "&refuse=loopback")
  else s.call "POST" "accept"
    (rtText 160 [ascii "&session=", s.session, ascii "&nonce=", s.nonce]) [] .accept .over

def accepted (s : Session) (response : Option HttpResponse) : Session :=
  match response.bind fun r => remoteValue r "session" "status" 32 with
  | some status =>
    if status = ascii "ok" then { s with remoteSession := true, pc := .top }
    else { s with reason := status, pc := .over }
  | none => { s with pc := .over }

def test (s : Session) : Session :=
  if s.paused then { s with moved := false, fed := false }.stop "paused"
  else
    { s with moved := false, fed := false }.call "GET" "down"
      (rtText 160 [ascii "&session=", s.session, ascii "&after=",
        rtNumber (s.expected - 1).toBitVec.toInt, ascii (if s.moved then "&wait=0" else "&wait=3")])
      [] .down .drain

def downReply (s : Session) : Option HttpResponse → Session
  | some response =>
    if response.status != 200 then { s with pc := .drain }
    else if rtCiFind response.head (ascii "x-v9x-session-state: closed") then s.closedByServer
    else { s with pc := .batch response.body 0 }
  | none => { s with pc := .drain }

/-- The record is the next one and verifies for this session. -/
def accepts (s : Session) (verify : Verify) (record : RelayRecord) : Bool :=
  record.seq == s.expected &&
    relayVerify verify record remotePublicKey s.remote.machine s.installId s.nonce s.session

def nextRecord (s : Session) (verify : Verify) (body : Bytes) (offset : ℕ) : Session :=
  match relayNext body offset with
  | .fin => { s with pc := .drain }
  | .ok record offset' =>
    if s.accepts verify record then { s with pc := .feed body offset' record 0 }
    else s.stop "bad-signature"
  | .bad => s.stop "bad-signature"

/-- One turn of the loop of `v9x_http_send_all`. -/
def sendPiece (s : Session) (body : Bytes) (offset : ℕ) (record : RelayRecord) (total : ℕ) :
    Option ℕ → Option Session
  | none => some (s.stop "loopback")
  | some count =>
    if count = 0 || count > min 32768 (record.length - total) then none
    else if total + count < record.length then
      some { s with
        part := record.data.take (total + count), pc := .feed body offset record (total + count) }
    else
      some { s with
        tunnel := s.tunnel ++ [record.data], part := [], expected := s.expected + 1,
        moved := true, fed := true, pc := .batch body offset }

/-- Send try number `tries` of an `up` call; without a URL all four tries fail. -/
def upTry (s : Session) (bytes : Bytes) (tries : ℕ) : Session :=
  let query := rtText 160 [ascii "&session=", s.session, ascii "&seq=", rtNumber s.upSeq.toBitVec.toInt]
  match remoteUrl s.remote "up" query with
  | some _ =>
    { s with requests := s.requests ++ [⟨"POST", "up", query, bytes⟩], pc := .up bytes tries }
  | none => s.stop "up-failed"

def drainResult (s : Session) : Option Bytes → Option Session
  | none => some (s.stop "loopback-closed")
  | some bytes =>
    if bytes = [] then some { s with pc := .heartbeat }
    else if bytes.length > remoteUpMax then none
    else some (s.upTry bytes 0)

def upReply (s : Session) (bytes : Bytes) (tries : ℕ) (response : Option HttpResponse) : Session :=
  match response.filter (·.status = 200) with
  | some r =>
    if rtCiFind r.body (ascii "status=closed") then s.closedByServer
    else { s with upSeq := s.upSeq + 1, moved := true, pc := .heartbeat }
  | none => if tries + 1 = 4 then s.stop "up-failed" else s.upTry bytes (tries + 1)

def beat (s : Session) (due : Bool) : Session :=
  if !due then { s with pc := .top }
  else match remoteUrl s.remote "poll" [] with
    | some _ => { s with pc := .poll }
    | none => if s.remote.stop then { s with pc := .finished } else { s with pc := .top }

def pollReply (s : Session) (response : Option HttpResponse) : Session :=
  let (ok, remote) := remotePoll s.remote response
  let s := { s with remote := remote }
  if ok && (remote.sessionId != s.session || remote.sessionState != ascii "open") then s.closedByServer
  else if remote.stop then { s with pc := .finished }
  else { s with pc := .top }

/-- The code at `finished:`. -/
def finish (s : Session) : Session :=
  let s := { s with remoteSession := false }
  if s.serverClosed then { s with pc := .over }
  else s.sessionCall "close" (rtText 160 [ascii "&reason=", s.reason])

end Session

/-- **One step of a session and its environment.** -/
def sessionStep (verify : Verify) (s : Session) : Act → Option Session
  | .tray => some { s with paused := !s.paused }
  | .enter loopback => match s.pc with
    | .entry => some (s.enter loopback)
    | _ => none
  | .reply response => match s.pc with
    | .accept => some (s.accepted response)
    | .down => some (s.downReply response)
    | .up bytes tries => some (s.upReply bytes tries response)
    | .poll => some (s.pollReply response)
    | .closing => some { s with pc := .over }
    | _ => none
  | .test => match s.pc with
    | .top => some s.test
    | _ => none
  | .next => match s.pc with
    | .batch body offset => some (s.nextRecord verify body offset)
    | _ => none
  | .send count => match s.pc with
    | .feed body offset record total => s.sendPiece body offset record total count
    | _ => none
  | .drained bytes => match s.pc with
    | .drain => s.drainResult bytes
    | _ => none
  | .beat due => match s.pc with
    | .heartbeat => some (s.beat due)
    | _ => none
  | .finish => match s.pc with
    | .finished => some s.finish
    | _ => none

end V9xRemote
