import V9xRemote.Spec.Remote

/-!
# Chat with the developer (`src/guest/remote.c`)

The owner's lines go into the queue and into the log under the tray's thread; the
remote-help thread carries the queue in the body of its polls and puts the developer's
lines into the log. `chatStep` is one stretch of either thread that holds the lock, or
the answer to a poll. What was put in the queue and what was taken out again, with the
body that carried it, is kept beside the state.
-/

namespace V9xRemote

open Bytes

def chatLine : ℕ := 512
def chatQueue : ℕ := 4
def chatLogSize : ℕ := 8192
def remoteBodyMax : ℕ := 4096
def agentVersion : String := "0.13.1"

/-! ## Text -/

/-- The unreserved characters of a URL. -/
def isUnreserved (b : UInt8) : Bool :=
  (65 ≤ b && b ≤ 90) || (97 ≤ b && b ≤ 122) || (48 ≤ b && b ≤ 57) || b == 45 || b == 46 || b == 95 || b == 126

def upperHexDigit (b : UInt8) : UInt8 := if b < 10 then 48 + b else 55 + b

/-- A byte as `v9x_update_url_encode` writes it. -/
def urlEncodeByte (b : UInt8) : Bytes :=
  if isUnreserved b then [b] else [37, upperHexDigit (b >>> 4), upperHexDigit (b &&& 15)]

/-- The encoded text. -/
def urlText (text : Bytes) : Bytes := text.flatMap urlEncodeByte

/-- `v9x_update_url_encode`: `none` where it does not fit. -/
def updateUrlEncode (text : Bytes) (capacity : ℕ) : Option Bytes :=
  if (urlText text).length < capacity then some (urlText text) else none

/-- `v9x_rt_hex`. -/
def rtHex (c : UInt8) : Option UInt8 :=
  if 48 ≤ c && c ≤ 57 then some (c - 48)
  else if 97 ≤ c && c ≤ 102 then some (c - 97 + 10)
  else if 65 ≤ c && c ≤ 70 then some (c - 65 + 10)
  else none

/-- Control characters that `v9x_rt_decode` keeps are CR, LF and TAB. -/
def rtKeeps (b : UInt8) : Bool := 32 ≤ b || b == 13 || b == 10 || b == 9

/-- `v9x_rt_decode`. -/
def rtDecode : Bytes → Bytes
  | 37 :: h :: l :: rest =>
    match rtHex h, rtHex l with
    | some h, some l =>
      let b := (h <<< 4) ||| l
      if rtKeeps b then b :: rtDecode rest else rtDecode rest
    | _, _ => 37 :: rtDecode (h :: l :: rest)
  | b :: rest => if rtKeeps b then b :: rtDecode rest else rtDecode rest
  | [] => []

/-- Appends joined by `&&`: what the buffer holds afterwards. -/
def rtChain (capacity : ℕ) : Bytes → List Bytes → Bytes
  | target, [] => target
  | target, text :: texts =>
    match rtAppend capacity target text with
    | (out, true) => rtChain capacity out texts
    | (out, false) => out

def crlf : Bytes := [13, 10]

/-- The texts `v9x_rt_append_field` appends. -/
def fieldParts (key value : Bytes) : List Bytes :=
  [key, ascii "=", (updateUrlEncode value (chatLine * 3 + 4)).getD [], crlf]

/-! ## The poll's body -/

/-- What a poll says of the agent. -/
structure PollFields where
  paused : Bool
  age : ℤ
  lastCommandSource : Bytes
  openSession : Bytes
  displayName : Bytes
  github : Bytes
  email : Bytes
deriving DecidableEq, Repr

/-- The body before the chat: each list is one append, or several joined by `&&`. -/
def pollHead (f : PollFields) : List (List Bytes) :=
  [[ascii "[poll]\r\nversion=" ++ ascii agentVersion ++ ascii "\r\nstate="],
    [ascii (if f.paused then "paused" else "on")], [ascii "\r\nbusy="],
    [ascii (if 0 ≤ f.age ∧ f.age < 60 then "1" else "0")], [ascii "\r\nlast_command_age="], [rtNumber f.age], [crlf],
    fieldParts (ascii "last_command_source") f.lastCommandSource, fieldParts (ascii "session") f.openSession,
    fieldParts (ascii "display_name") f.displayName, fieldParts (ascii "github") f.github,
    fieldParts (ascii "email") f.email]

/-- The key of a line: one digit. -/
def chatKey (index : ℕ) : Bytes := [UInt8.ofNat (49 + index)]

/-- The body's chat. -/
def pollChat (sent : List Bytes) : List (List Bytes) :=
  if sent = [] then []
  else [[ascii "[chat]\r\ncount="], [rtNumber sent.length], [crlf]] ++
    sent.mapIdx fun index line => fieldParts (chatKey index) line

/-- The body of a poll. -/
def pollBody (f : PollFields) (sent : List Bytes) : Bytes :=
  (pollHead f ++ pollChat sent).foldl (rtChain remoteBodyMax) []

/-! ## The log -/

/-- The local time. -/
structure Clock where
  hour : Fin 24
  minute : Fin 60
deriving DecidableEq, Repr

def Clock.text (c : Clock) : Bytes :=
  [UInt8.ofNat (48 + c.hour / 10), UInt8.ofNat (48 + c.hour % 10), 58,
    UInt8.ofNat (48 + c.minute / 10), UInt8.ofNat (48 + c.minute % 10), 32]

/-- Drop the first line. -/
def dropFirstLine (log : Bytes) : Bytes := (log.dropWhile (· ≠ 10)).drop 1

/-- Drop first lines until so many bytes are left at most. -/
def trimLog (room : ℕ) : ℕ → Bytes → Bytes
  | 0, log => log
  | fuel + 1, log => if log.length ≤ room then log else trimLog room fuel (dropFirstLine log)

/-- A line of the log, in its buffer. -/
def logLine (clock : Clock) (who : String) (text : Bytes) : Bytes :=
  rtText (chatLine + 32) [clock.text, ascii who, ascii ": ", text, crlf]

/-- `v9x_chat_append`. -/
def chatAppend (log : Bytes) (clock : Clock) (who : String) (text : Bytes) : Bytes :=
  let line := logLine clock who text
  trimLog (chatLogSize - 1 - line.length) log.length log ++ line

/-- A line without the CR at its end. -/
def stripCr (line : Bytes) : Bytes := if line.getLast? = some 13 then line.dropLast else line

/-- A line of the log reads as the owner's: a time, then `You: `. -/
def readsAsOwner (line : Bytes) : Bool := (line.drop 6).take 5 == ascii "You: "

/-- The texts the log shows as sent by the owner. -/
def ownerLines (log : Bytes) : List Bytes :=
  ((log.splitOn 10).filter readsAsOwner).map fun line => stripCr (line.drop 11)

/-- The body has the whole line: it is the value of its key. -/
def CarriesLine (body : Bytes) (index : ℕ) (line : Bytes) : Prop :=
  chatKey index ++ ascii "=" ++ urlText line ∈ (body.splitOn 10).map stripCr

instance (body : Bytes) (index : ℕ) (line : Bytes) : Decidable (CarriesLine body index line) :=
  inferInstanceAs (Decidable (_ ∈ _))

/-! ## The two threads -/

/-- A text of the chat window's input: one line of at most `V9X_CHAT_LINE - 1` bytes. -/
structure ChatText where
  text : Bytes
  nonempty : text ≠ []
  fits : text.length < chatLine
  oneLine : 10 ∉ text
deriving DecidableEq, Repr

/-- Where the remote-help thread is. -/
inductive ChatPc
  | idle
  /-- a poll with these lines of the queue is in flight -/
  | polling (fields : PollFields) (sent : List Bytes)
  /-- lines of the developer's that are still to go into the log -/
  | logging (texts : List Bytes)
deriving DecidableEq, Repr

/-- The chat: the queue, the log, the line the tray's thread has still to log, and what
was put in the queue and what was taken out, with the body that carried it. -/
structure Chat where
  remote : Remote
  queue : List Bytes
  log : Bytes
  pc : ChatPc
  typed : Option Bytes
  accepted : List Bytes
  answered : List (Bytes × List Bytes)
deriving DecidableEq, Repr

/-- An agent that has just started. -/
def Chat.start (remote : Remote) : Chat := ⟨remote, [], [], .idle, none, [], []⟩

inductive ChatAct
  /-- the owner sends a line: `v9x_chat_send` up to the log -/
  | submit (text : ChatText)
  /-- the owner's line goes into the log -/
  | logOwn (clock : Clock)
  /-- a poll takes the queue and goes out -/
  | poll (fields : PollFields)
  /-- the poll's answer, `none` without one -/
  | reply (response : Option HttpResponse)
  /-- the developer's next line goes into the log -/
  | logNext (clock : Clock)
deriving DecidableEq, Repr

/-- The developer's lines in an answer. -/
def developerLines (response : HttpResponse) : List Bytes :=
  let count := ((remoteValue response "chat" "count" 8).map leadingNumber).getD 0
  (List.range (min count.toNat 20)).filterMap fun i =>
    match updateIniValue response.body (ascii "chat") (rtNumber (i + 1)) (chatLine * 3 + 4) with
    | some value => some (rtDecode (cstr value))
    | none => none

namespace Chat

/-- The queue's part of `v9x_chat_send`. -/
def submit (c : Chat) (text : Bytes) : Chat :=
  if c.queue.length < chatQueue then
    { c with
      queue := c.queue ++ [text.take (chatLine - 1)], typed := some text,
      accepted := c.accepted ++ [text.take (chatLine - 1)] }
  else { c with typed := some text }

/-- `v9x_remote_poll` up to its call. -/
def poll (c : Chat) (f : PollFields) : Chat :=
  match remoteUrl c.remote "poll" [] with
  | some _ => { c with pc := .polling f c.queue }
  | none => c

/-- `v9x_remote_poll` from its answer on. -/
def reply (c : Chat) (f : PollFields) (sent : List Bytes) (response : Option HttpResponse) : Chat :=
  match remotePoll c.remote response, response with
  | (true, remote), some response =>
    { c with
      remote := remote, queue := c.queue.drop sent.length, answered := c.answered ++ [(pollBody f sent, sent)],
      pc := .logging (developerLines response) }
  | (_, remote), _ => { c with remote := remote, pc := .idle }

end Chat

/-- **One step of either thread.** -/
def chatStep (c : Chat) : ChatAct → Option Chat
  | .submit text =>
    match c.typed with
    | none => some (c.submit text.text)
    | some _ => none
  | .logOwn clock =>
    match c.typed with
    | some text => some { c with log := chatAppend c.log clock "You" text, typed := none }
    | none => none
  | .poll f =>
    match c.pc with
    | .idle => some (c.poll f)
    | _ => none
  | .reply response =>
    match c.pc with
    | .polling f sent => some (c.reply f sent response)
    | _ => none
  | .logNext clock =>
    match c.pc with
    | .logging (text :: texts) =>
      some { c with log := chatAppend c.log clock "Developer" text, pc := .logging texts }
    | .logging [] => some { c with pc := .idle }
    | _ => none

/-!
# The log's buffer (`v9x_chat_append` in `src/guest/remote.c`)

`chatAppend` is what an append makes of the log's text. Here it is what it does to the
buffer: an access outside it and a loop that does not get on are `none`.
-/

/-- Who says a line. -/
inductive ChatWho
  | you
  | developer
deriving DecidableEq, Repr

def ChatWho.name : ChatWho → String
  | .you => "You"
  | .developer => "Developer"

/-- What one call of `v9x_chat_append` is given, and the time it finds: the text is a C string. -/
structure ChatEntry where
  clock : Clock
  who : ChatWho
  text : Bytes
  plain : 0 ∉ text
deriving DecidableEq, Repr

/-- `chat_log` and `chat_log_length`. -/
structure ChatLog where
  buffer : Bytes
  length : ℕ
deriving DecidableEq, Repr

/-- A byte written into a buffer. -/
def putByte (buffer : Bytes) (i : ℕ) (b : UInt8) : Option Bytes :=
  if i < buffer.length then some (buffer.set i b) else none

namespace ChatLog

/-- The search for the end of the first line. -/
def cutFrom (log : ChatLog) (cut : ℕ) : Option ℕ :=
  if cut < log.length then
    match log.buffer[cut]? with
    | none => none
    | some b => if b ≠ 10 then log.cutFrom (cut + 1) else some cut
  else some cut
termination_by log.length - cut

/-- The loop that moves the bytes from `cut` to `last` to the front, from `index` on. -/
def shiftFrom (cut last : ℕ) (buffer : Bytes) (index : ℕ) : Option Bytes :=
  if index ≤ last then
    match buffer[index]? with
    | none => none
    | some b =>
      match putByte buffer (index - cut) b with
      | none => none
      | some buffer => shiftFrom cut last buffer (index + 1)
  else some buffer
termination_by last + 1 - index

/-- Drop the first line. -/
def dropLine (log : ChatLog) : Option ChatLog := do
  let cut ← log.cutFrom 0
  let cut := if cut < log.length then cut + 1 else cut
  let cut := if cut = 0 then log.length else cut
  let buffer ← shiftFrom cut log.length log.buffer cut
  return ⟨buffer, log.length - cut⟩

/-- First lines go until there is room for so many bytes and the NUL. -/
def makeRoom (length : ℕ) (log : ChatLog) : Option ChatLog :=
  if log.length + length + 1 > chatLogSize then
    match log.dropLine with
    | none => none
    | some next => if next.length < log.length then makeRoom length next else none
  else some log
termination_by log.length

/-- The loop that copies the line. -/
def copyLine (log : ChatLog) : Bytes → Option ChatLog
  | [] => some log
  | b :: line =>
    match putByte log.buffer log.length b with
    | none => none
    | some buffer => copyLine ⟨buffer, log.length + 1⟩ line

/-- `v9x_chat_append`. -/
def append (log : ChatLog) (entry : ChatEntry) : Option ChatLog := do
  let line := logLine entry.clock entry.who.name entry.text
  let log ← log.makeRoom line.length
  let log ← log.copyLine line
  let buffer ← putByte log.buffer log.length 0
  return ⟨buffer, log.length⟩

/-- What the agent's start makes of the buffer. -/
def start (buffer : Bytes) : ChatLog := ⟨buffer.set 0 0, 0⟩

end ChatLog

/-- The conversation: the log, and all that was said. -/
structure ChatTalk where
  log : ChatLog
  said : List ChatEntry
deriving DecidableEq, Repr

/-- **One step**: either thread appends an entry under the lock. -/
def chatTalkStep (t : ChatTalk) (entry : ChatEntry) : Option ChatTalk :=
  (t.log.append entry).map fun log => ⟨log, t.said ++ [entry]⟩

def ChatTalk.start (buffer : Bytes) : ChatTalk := ⟨.start buffer, []⟩

end V9xRemote
