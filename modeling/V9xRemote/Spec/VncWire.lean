import V9xRemote.Lib.Des
import V9xRemote.Lib.Talk
import V9xRemote.Spec.VncClip
import V9xRemote.Spec.VncDes
import V9xRemote.Spec.VncMirror

/-!
# What a viewer sends (`src/guest/vnc.c`)

The handshake with its password check, and the messages of a session, byte by byte. The text of
`vnc_password` ends at its first NUL. The log and the wait behind a wrong password are left out.
-/

namespace V9xRemote

open Bytes Arrival

/-! ## The handshake -/

/-- `vnc_make_challenge`, from its four values. -/
def vncMakeChallenge (values : Fin 4 → UInt32) : Bytes :=
  let seed : Bytes := (List.ofFn values).flatMap writeU32
  let first := vncDesEncrypt (seed.take 8) (seed.drop 8)
  first ++ vncDesEncrypt first (List.zipWith (· ^^^ ·) (seed.take 8) first)

/-- The reason that `vnc_authenticate` gives. -/
def vncAuthReason : Bytes := ascii "Authentication failed"

/-- `vnc_authenticate`. -/
def vncAuthenticate (password challenge : Bytes) (minor : ℤ) : Talk UInt8 Unit := do
  Talk.say challenge
  let response ← Talk.hear 16
  if response = vncAuthResponse (some password) challenge then Talk.say (vncPut32 0)
  else
    Talk.say (vncPut32 1 ++ if minor ≥ 8 then vncPut32 vncAuthReason.length ++ vncAuthReason else [])
    Talk.drop

/-- The minor version of a viewer's answer. -/
def vncMinor (reply : Bytes) : ℤ :=
  (((reply.at' 8).toNat : ℤ) - 48) * 100 + (((reply.at' 9).toNat : ℤ) - 48) * 10 + (((reply.at' 10).toNat : ℤ) - 48)

/-- The security type: VNC authentication where there is a password. -/
def vncSecurityType (password : Bytes) : UInt8 := if password.at' 0 ≠ 0 then 2 else 1

/-- The security type is settled. -/
def vncSecurity (password : Bytes) (minor : ℤ) : Talk UInt8 Unit :=
  if minor < 7 then Talk.say (vncPut32 (vncSecurityType password).toNat)
  else do
    Talk.say [1, vncSecurityType password]
    let choice ← Talk.hear 1
    if at' choice 0 ≠ vncSecurityType password then Talk.drop else pure ()

/-- The password is checked, and the viewer told. -/
def vncCheck (password challenge : Bytes) (minor : ℤ) : Talk UInt8 Unit :=
  if password.at' 0 ≠ 0 then vncAuthenticate password challenge minor
  else if minor ≥ 8 then Talk.say (vncPut32 0)
  else pure ()

/-- `vnc_handshake` up to what it says of the machine. -/
def vncShake (password challenge : Bytes) : Talk UInt8 Unit := do
  Talk.say (ascii "RFB 003.008\n")
  let reply ← Talk.hear 12
  if reply.take 8 ≠ ascii "RFB 003." then Talk.drop
  else
    vncSecurity password (vncMinor reply)
    vncCheck password challenge (vncMinor reply)
    let _ ← Talk.hear 1
    pure ()

/-- `vnc_write_format`. -/
def vncWriteFormat (format : VncFormat) : Bytes :=
  [format.bpp, format.depth, if format.bigEndian then 1 else 0, if format.trueColour then 1 else 0] ++
    vncPut16 format.redMax.toNat ++ vncPut16 format.greenMax.toNat ++ vncPut16 format.blueMax.toNat ++
    [format.redShift, format.greenShift, format.blueShift, 0, 0, 0]

/-- The name in it: `computer` is what `GetComputerNameA` finds. -/
def vncName (computer : Option Bytes) : Bytes := ascii "V9x " ++ computer.getD []

/-- What `vnc_handshake` says of the machine. -/
def vncServerInit (width height : ℕ) (computer : Option Bytes) : Bytes :=
  vncPut16 width ++ vncPut16 height ++ vncWriteFormat vncDefaultFormat ++ vncPut32 (vncName computer).length ++ vncName computer

/-- `vnc_handshake`. -/
def vncHandshake (password challenge : Bytes) (width height : ℕ) (computer : Option Bytes) : Talk UInt8 Unit := do
  vncShake password challenge
  Talk.say (vncServerInit width height computer)

/-! ## Messages -/

/-- The big-endian word at an offset. -/
def vncU32 (s : Bytes) (i : ℕ) : UInt32 :=
  ((s.at' i).toUInt32 <<< 24) ||| ((s.at' (i + 1)).toUInt32 <<< 16) ||| ((s.at' (i + 2)).toUInt32 <<< 8) |||
    (s.at' (i + 3)).toUInt32

/-- A word as a `long`. -/
def vncLong (word : UInt32) : ℤ := if word.toNat < 2 ^ 31 then word.toNat else (word.toNat : ℤ) - 2 ^ 32

/-- A message that `vnc_handle_message` acts on. -/
inductive VncInput
  | setPixelFormat (format : Bytes)
  | setEncodings (encodings : List ℤ)
  | updateRequest (incremental : Bool)
  | key (down : Bool) (keysym : UInt32)
  | pointer (buttons : UInt8) (x y : ℕ)
  /-- ClientCutText -/
  | cutText (text : Bytes)
  /-- one that is too large for the clipboard -/
  | skipped (count : ℕ)
deriving DecidableEq, Repr

/-- The size of `vnc_in`. -/
def vncInSize : ℕ := 1024

/-- `vnc_skip`. -/
def vncSkip (length : ℕ) : Talk UInt8 Unit :=
  if _h : length = 0 then pure ()
  else do
    let _ ← Talk.hear (min length vncInSize)
    vncSkip (length - min length vncInSize)
termination_by length
decreasing_by
  have hsize : vncInSize = 1024 := rfl
  omega

/-- The loop over the encodings. -/
def vncEncodings : ℕ → Talk UInt8 (List ℤ)
  | 0 => pure []
  | count + 1 => do
    let word ← Talk.hear 4
    let rest ← vncEncodings count
    pure (vncLong (vncU32 word 0) :: rest)

/-- SetPixelFormat. -/
def vncHandleFormat : Talk UInt8 VncInput := do
  let body ← Talk.hear 19
  if vncSetPixelFormat (body.drop 3) = none then Talk.drop else pure (.setPixelFormat (body.drop 3))

/-- SetEncodings. -/
def vncHandleEncodings : Talk UInt8 VncInput := do
  let head ← Talk.hear 3
  let encodings ← vncEncodings (vncU16 head 1).toNat
  pure (.setEncodings encodings)

/-- ClientCutText. -/
def vncHandleCutText : Talk UInt8 VncInput := do
  let head ← Talk.hear 7
  let count := (vncU32 head 3).toNat
  if count > maxCutText then Talk.drop
  else if count > clipMax then
    vncSkip count
    pure (.skipped count)
  else
    let text ← Talk.hear count
    pure (.cutText text)

/-- `vnc_handle_message`. -/
def vncHandleMessage : Talk UInt8 VncInput := do
  let type ← Talk.hear 1
  if at' type 0 = 0 then vncHandleFormat
  else if at' type 0 = 2 then vncHandleEncodings
  else if at' type 0 = 3 then
    let body ← Talk.hear 9
    pure (.updateRequest (at' body 0 != 0))
  else if at' type 0 = 4 then
    let body ← Talk.hear 7
    pure (.key (at' body 0 != 0) (vncU32 body 3))
  else if at' type 0 = 5 then
    let body ← Talk.hear 5
    pure (.pointer (at' body 0) (vncU16 body 1).toNat (vncU16 body 3).toNat)
  else if at' type 0 = 6 then vncHandleCutText
  else Talk.drop

/-- What a session makes of one; `buffers`: there is memory for ZRLE. -/
def VncInput.message (buffers : Bool) : VncInput → VncMessage
  | setPixelFormat format => .setPixelFormat format
  | setEncodings encodings => .setEncodings encodings buffers
  | updateRequest incremental => .updateRequest incremental
  | pointer _ x y => .pointer x y
  | key _ _ => .other
  | cutText _ => .other
  | skipped _ => .other

/-- The loop of `vnc_serve` waits until something comes. -/
def vncAwait : List (Arrival UInt8) → List (Arrival UInt8)
  | [] => []
  | .silence :: rest => vncAwait rest
  | .piece [] :: rest => vncAwait rest
  | .piece (c :: data) :: rest => .piece (c :: data) :: rest

theorem sent_vncAwait (arrivals : List (Arrival UInt8)) : sent (vncAwait arrivals) = sent arrivals := by
  induction arrivals with
  | nil => rfl
  | cons arrival arrivals ih =>
    match arrival with
    | .silence => exact ih
    | .piece [] => exact ih
    | .piece (c :: data) => rfl

theorem vncHandleMessage_lt {arrivals : List (Arrival UInt8)} {input : VncInput}
    (h : (vncHandleMessage.run 0 arrivals).result = some input) :
    (sent (vncHandleMessage.run 0 arrivals).rest).length < (sent arrivals).length := Talk.run_recv_lt (by decide) h

/-- The messages that are handled until the connection is dropped, and what is left then. -/
def vncMessages (arrivals : List (Arrival UInt8)) : List VncInput × List (Arrival UInt8) :=
  match _h : (vncHandleMessage.run 0 (vncAwait arrivals)).result with
  | none => ([], vncAwait arrivals)
  | some input =>
    let more := vncMessages (vncHandleMessage.run 0 (vncAwait arrivals)).rest
    (input :: more.1, more.2)
termination_by (sent arrivals).length
decreasing_by
  have hlt := vncHandleMessage_lt _h
  rwa [sent_vncAwait] at hlt

/-- A connection: what is sent in its handshake, and where that goes through, the messages that
are handled. -/
def vncConnection (password challenge : Bytes) (width height : ℕ) (computer : Option Bytes) (room : ℕ)
    (arrivals : List (Arrival UInt8)) : Bytes × Option (List VncInput) :=
  let shake := (vncHandshake password challenge width height computer).run room arrivals
  (shake.written, shake.result.map fun _ => (vncMessages shake.rest).1)

/-! ## What a viewer sends (RFB) -/

/-- The bytes of a message; what RFB calls padding is any. -/
def VncInput.Wire (block : Bytes) : VncInput → Prop
  | setPixelFormat format => ∃ padding : Bytes, padding.length = 3 ∧ format.length = 16 ∧ vncSetPixelFormat format ≠ none ∧
      block = 0 :: padding ++ format
  | setEncodings encodings => ∃ padding, encodings.length < 2 ^ 16 ∧ (∀ e ∈ encodings, -2 ^ 31 ≤ e ∧ e < 2 ^ 31) ∧
      block = 2 :: padding :: vncPut16 encodings.length ++ encodings.flatMap vncPut32
  | updateRequest incremental => ∃ flag : UInt8, ∃ area : Bytes, area.length = 8 ∧ (flag != 0) = incremental ∧
      block = 3 :: flag :: area
  | key down keysym => ∃ flag : UInt8, ∃ padding : Bytes, padding.length = 2 ∧ (flag != 0) = down ∧
      block = 4 :: flag :: padding ++ vncPut32 keysym.toNat
  | pointer buttons x y => x < 2 ^ 16 ∧ y < 2 ^ 16 ∧ block = 5 :: buttons :: vncPut16 x ++ vncPut16 y
  | cutText text => ∃ padding : Bytes, padding.length = 3 ∧ text.length ≤ clipMax ∧
      block = 6 :: padding ++ vncPut32 text.length ++ text
  | skipped count => ∃ padding text : Bytes, padding.length = 3 ∧ text.length = count ∧ clipMax < count ∧ count ≤ maxCutText ∧
      block = 6 :: padding ++ vncPut32 count ++ text

/-- The DES key of a password: eight bytes, each with its bits reversed. -/
def vncViewerKey (password : Bytes) : Des.Bits :=
  ((password ++ List.replicate 8 0).take 8).flatMap fun c => (Des.bits [c]).reverse

/-- The viewer's answer to a challenge. -/
def vncViewerResponse (password challenge : Bytes) : Bytes :=
  Des.bytes (Des.encipher (vncViewerKey password) (Des.bits (challenge.take 8))) ++
    Des.bytes (Des.encipher (vncViewerKey password) (Des.bits (challenge.drop 8)))

/-- What a viewer is told of the machine. -/
structure VncHello where
  width : ℕ
  height : ℕ
  format : VncFormat
  name : Bytes

/-- A number of two or four bytes. -/
def vncNumber (s : Bytes) : ℕ := s.foldl (fun n c => n * 2 ^ 8 + c.toNat) 0

def vncReadFormat (s : Bytes) : VncFormat where
  bpp := s.at' 0
  depth := s.at' 1
  bigEndian := s.at' 2 != 0
  trueColour := s.at' 3 != 0
  redMax := UInt32.ofNat (vncNumber ((s.drop 4).take 2))
  greenMax := UInt32.ofNat (vncNumber ((s.drop 6).take 2))
  blueMax := UInt32.ofNat (vncNumber ((s.drop 8).take 2))
  redShift := s.at' 10
  greenShift := s.at' 11
  blueShift := s.at' 12

/-- The viewer's choice: the password where it is asked for. -/
def vncViewerChoice (types : Bytes) : Talk UInt8 ℕ :=
  if 2 ∈ types then do
    Talk.say [2]
    pure 2
  else if 1 ∈ types then do
    Talk.say [1]
    pure 1
  else Talk.drop

/-- A viewer of RFB 3.3, 3.7 or 3.8 settles the security type: 3.3 takes what it is given, the
others choose. -/
def vncViewerSecurity (minor : ℕ) : Talk UInt8 ℕ :=
  if minor < 7 then do
    let type ← Talk.hear 4
    pure (vncNumber type)
  else do
    let count ← Talk.hear 1
    let types ← Talk.hear (vncNumber count)
    vncViewerChoice types

/-- It waits for the result. -/
def vncViewerResult : Talk UInt8 Unit := do
  let result ← Talk.hear 4
  if vncNumber result ≠ 0 then Talk.drop else pure ()

/-- It answers the challenge, and waits for the result where there is one. -/
def vncViewerCheck (minor : ℕ) (password : Bytes) (type : ℕ) : Talk UInt8 Unit :=
  if type = 2 then do
    let challenge ← Talk.hear 16
    Talk.say (vncViewerResponse password challenge)
    vncViewerResult
  else if 8 ≤ minor then vncViewerResult
  else pure ()

/-- Its handshake. -/
def vncViewerShake (minor : ℕ) (password : Bytes) (shared : UInt8) : Talk UInt8 VncHello := do
  let version ← Talk.hear 12
  if version.take 4 ≠ ascii "RFB " then Talk.drop
  else
    Talk.say (ascii "RFB 003.00" ++ [UInt8.ofNat (48 + minor), 10])
    let type ← vncViewerSecurity minor
    if type ≠ 1 ∧ type ≠ 2 then Talk.drop
    else
      vncViewerCheck minor password type
      Talk.say [shared]
      let init ← Talk.hear 24
      let name ← Talk.hear (vncNumber (init.drop 20))
      pure ⟨vncNumber (init.take 2), vncNumber ((init.drop 2).take 2), vncReadFormat ((init.drop 4).take 16), name⟩

end V9xRemote
