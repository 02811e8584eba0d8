import V9xRemote.Spec.Relay
import V9xRemote.Spec.RelaySession

/-!
# The way down: from the operator to the server

`sendall` and `_flush` of a relay session (`mcp/v9x_relay.py`), the signing tool
(`tools/v9xsign.c`) and the server, which takes a record only where its number
continues the sequence. `downStep` is one call of the operator's, one run of the tool or
one answer of the server; each may fail. What was handed to `sendall`, what was signed
and what the server took is kept beside the session.
-/

namespace V9xRemote

open Bytes

/-! ## The signing tool -/

def signMaxFile : ℕ := 67108864

/-- `v9x_ed25519_sign` with the operator's key. -/
abbrev Sign := Bytes → { signature : Bytes // signature.length = 64 }

/-- The arguments that name a session. -/
structure RelayIds where
  machine : Bytes
  install : Bytes
  nonce : Bytes
  session : Bytes
deriving DecidableEq, Repr

/-- The data, a chunk's most at a time. -/
def signChunks (data : Bytes) : List Bytes :=
  (List.range ((data.length + (relayChunkMax - 1)) / relayChunkMax)).map fun i =>
    (data.drop (i * relayChunkMax)).take relayChunkMax

/-- The tool's loop over its `unsigned long` of 32 bits: the records it signs, and the next number where it gets through. -/
def signRecords (sign : Sign) (ids : RelayIds) : UInt32 → List Bytes → List RelayRecord × Option UInt32
  | seq, [] => ([], some seq)
  | seq, data :: rest =>
    match relayMessage ids.machine ids.install ids.nonce ids.session seq data with
    | none => ([], none)
    | some message =>
      let (records, next) := signRecords sign ids (seq + 1) rest
      (⟨seq, (sign message).1, data⟩ :: records, next)

/-- `v9xsign_relay`. -/
def v9xsignRelay (sign : Sign) (ids : RelayIds) (first : UInt32) (data : Bytes) : List RelayRecord × Option UInt32 :=
  if first = 0 || data.length > signMaxFile then ([], none) else signRecords sign ids first (signChunks data)

/-- A record as the tool writes it. -/
def downRecord (r : RelayRecord) : Bytes :=
  ascii "V9XD" ++ writeU32 r.seq ++ writeU32 (UInt32.ofNat r.data.length) ++ r.signature ++ r.data

/-! ## The server -/

/-- The records of a posted body from an offset on. -/
def postedRecords (body : Bytes) : ℕ → ℕ → List RelayRecord
  | 0, _ => []
  | fuel + 1, offset =>
    match relayNext body offset with
    | .ok record next => record :: postedRecords body fuel next
    | _ => []

/-- The server takes records as long as they continue its sequence. -/
def serverTakes : List RelayRecord → List RelayRecord → List RelayRecord
  | accepted, [] => accepted
  | accepted, r :: rest => if r.seq.toNat = accepted.length + 1 then serverTakes (accepted ++ [r]) rest else accepted

/-! ## The session -/

/-- Where the operator is. -/
inductive DownPc
  /-- between two calls -/
  | idle
  /-- the tool is to sign what was pending -/
  | signing (data : Bytes)
  /-- the next records of the batch are to be posted -/
  | posting (batch : Bytes) (offset : ℕ) (next : UInt32)
deriving DecidableEq, Repr

/-- The session, and what was handed to `sendall`, signed, and taken by the server.
`lost`: a flush took the pending bytes and raised before all of them were posted. -/
structure DownSystem where
  operator : RelayState
  pc : DownPc
  handed : Bytes
  signed : List (UInt32 × Bytes)
  accepted : List RelayRecord
  lost : Bool

def DownSystem.start (operator : RelayState) : DownSystem := ⟨operator, .idle, [], [], [], false⟩

/-- How a run of the tool ends. -/
inductive SignRun
  | ended
  /-- an error or a time-out, behind so many signatures; or its output cannot be read -/
  | failed (signed : ℕ)
deriving DecidableEq, Repr

inductive DownAct
  | sendall (data : Bytes)
  /-- a `recv`, up to the tool's run -/
  | flush
  | signed (run : SignRun)
  /-- a post: how many records reached the server, and whether it was answered with success -/
  | posted (count : ℕ) (answered : Bool)
  /-- `close`, or the server's word that the session is over -/
  | close
deriving DecidableEq, Repr

def RelayRecord.chunk (r : RelayRecord) : UInt32 × Bytes := (r.seq, r.data)

namespace DownSystem

def sendall (s : DownSystem) (data : Bytes) : DownSystem :=
  { s with
    operator := if s.operator.closed then s.operator else { s.operator with pending := s.operator.pending ++ data },
    handed := s.handed ++ data }

/-- `_flush` up to the tool's run. -/
def flush (s : DownSystem) : DownSystem :=
  if s.operator.pending = [] || s.operator.closed then s
  else { s with operator := { s.operator with pending := [] }, pc := .signing s.operator.pending }

/-- `_flush` from the tool's run up to the first post. -/
def afterSign (sign : Sign) (ids : RelayIds) (s : DownSystem) (data : Bytes) (run : SignRun) : DownSystem :=
  match run, v9xsignRelay sign ids (UInt32.ofNat s.operator.downSeq.toNat) data with
  | .ended, (records, some next) =>
    { s with pc := .posting (records.map downRecord).flatten 0 next, signed := s.signed ++ records.map (·.chunk) }
  | .ended, (records, none) =>
    { s with pc := .idle, signed := s.signed ++ records.map (·.chunk), lost := true }
  | .failed count, (records, _) =>
    { s with pc := .idle, signed := s.signed ++ (records.take count).map (·.chunk), lost := true }

/-- One post of `_flush`. Behind the last one a wrong `next_seq` in the answer only raises:
the session's number is set by then. -/
def post (s : DownSystem) (batch : Bytes) (offset : ℕ) (next : UInt32) (count : ℕ) (answered : Bool) : DownSystem :=
  match groupEnd batch relayGroup offset with
  | .error _ => { s with pc := .idle, lost := true }
  | .ok stop =>
    let body := (batch.drop offset).take (stop - offset)
    let accepted := serverTakes s.accepted ((postedRecords body body.length 0).take count)
    if !answered then { s with pc := .idle, accepted := accepted, lost := true }
    else if stop < batch.length then { s with pc := .posting batch stop next, accepted := accepted }
    else
      { s with
        operator := { s.operator with downSeq := next.toNat }, pc := .idle, accepted := accepted }

end DownSystem

/-- **One step of the operator, the tool or the server.** -/
def downStep (sign : Sign) (ids : RelayIds) (s : DownSystem) : DownAct → Option DownSystem
  | .sendall data =>
    match s.pc with
    | .idle => some (s.sendall data)
    | _ => none
  | .flush =>
    match s.pc with
    | .idle => some s.flush
    | _ => none
  | .signed run =>
    match s.pc with
    | .signing data => some (s.afterSign sign ids data run)
    | _ => none
  | .posted count answered =>
    match s.pc with
    | .posting batch offset next => some (s.post batch offset next count answered)
    | _ => none
  | .close =>
    match s.pc with
    | .idle => some { s with operator := { s.operator with closed := true } }
    | _ => none

/-!
# A relay batch, from end to end

`v9x_relay_next` (`src/common/relay.c`) over its 32-bit words, with every access checked; a
batch split from its start to its end; and the posts that `_flush` (`mcp/v9x_relay.py`)
makes of one.
-/

/-! ## One record -/

/-- So many bytes at a 32-bit offset; `none` where they are not all in the buffer. -/
def loadBytes (batch : Bytes) (offset : UInt32) (n : ℕ) : Option Bytes :=
  if offset.toNat + n ≤ batch.length then some ((batch.drop offset.toNat).take n) else none

/-- `v9x_relay_read32`. -/
def relayRead32 (batch : Bytes) (offset : UInt32) : Option UInt32 := (loadBytes batch offset 4).map (readU32 · 0)

/-- `v9x_relay_next` on `v9x_u32` lengths and offsets; `none` where it reads outside the batch. -/
def relayNextChecked (batch : Bytes) (offset : UInt32) : Option RelayNext :=
  let batchLength := UInt32.ofNat batch.length
  let header := UInt32.ofNat relayRecordHeader
  if offset > batchLength then some .bad
  else if offset = batchLength then some .fin
  else if batchLength - offset < header then some .bad
  else do
    let magic ← loadBytes batch offset 4
    if magic ≠ ascii "V9XD" then return .bad
    let length ← relayRead32 batch (offset + 8)
    if length = 0 ∨ length > UInt32.ofNat relayChunkMax ∨ length > batchLength - offset - header then return .bad
    let seq ← relayRead32 batch (offset + 4)
    let signature ← loadBytes batch (offset + 12) 64
    let data ← loadBytes batch (offset + header) length.toNat
    return .ok ⟨seq, signature, data⟩ (offset + header + length).toNat

/-! ## The whole batch -/

variable {batch : Bytes} {offset next : ℕ} {record : RelayRecord}

/-- What `v9x_relay_next` has checked of the record it takes. -/
theorem relayNext_ok (h : relayNext batch offset = .ok record next) :
    offset + relayRecordHeader ≤ batch.length ∧ (batch.drop offset).take 4 = ascii "V9XD" ∧
      (batch.readU32 (offset + 8)).toNat ≠ 0 ∧ (batch.readU32 (offset + 8)).toNat ≤ relayChunkMax ∧
        next = offset + relayRecordHeader + (batch.readU32 (offset + 8)).toNat ∧ next ≤ batch.length ∧
          record = ⟨batch.readU32 (offset + 4), (batch.drop (offset + 12)).take 64,
            (batch.drop (offset + relayRecordHeader)).take (batch.readU32 (offset + 8)).toNat⟩ := by
  unfold relayNext at h
  split at h
  · cases h
  rename_i hle
  split at h
  · cases h
  rename_i hne
  split at h
  · cases h
  rename_i hmagic
  simp only [Bool.or_eq_true, decide_eq_true_eq, not_or, bne_iff_ne, ne_eq, not_not] at hmagic
  dsimp only at h
  split at h
  · cases h
  rename_i hlength
  simp only [Bool.or_eq_true, decide_eq_true_eq, not_or] at hlength
  obtain ⟨rfl, rfl⟩ := RelayNext.ok.inj h
  exact ⟨by omega, hmagic.2, hlength.1.1, not_lt.1 hlength.1.2, rfl, by omega, rfl⟩

/-- The records of a batch, from an offset to its end; `none` for one that `v9x_relay_next` does
not take. -/
def relaySplit (batch : Bytes) (offset : ℕ) : Option (List RelayRecord) :=
  match h : relayNext batch offset with
  | .bad => none
  | .fin => some []
  | .ok record next => (relaySplit batch next).map (record :: ·)
termination_by batch.length - offset
decreasing_by
  obtain ⟨hroom, -, -, -, hnext, -, -⟩ := relayNext_ok h
  unfold relayRecordHeader at hroom hnext
  omega

/-! ## The posts -/

theorem groupEnd_le {count offset stop : ℕ} (h : groupEnd batch count offset = .ok stop) : offset ≤ stop := by
  induction count generalizing offset with
  | zero => exact (Except.ok.inj h).le
  | succ count ih =>
    rw [groupEnd] at h
    split at h
    · cases hhead : unpackFrom batch (offset + 8) 4 with
      | error e =>
        rw [hhead] at h
        cases h
      | ok head =>
        rw [hhead] at h
        have hrest := ih h
        omega
    · exact (Except.ok.inj h).le

theorem groupEnd_lt {count offset stop : ℕ} (h : groupEnd batch (count + 1) offset = .ok stop)
    (hoffset : offset < batch.length) : offset < stop := by
  rw [groupEnd, if_pos hoffset] at h
  cases hhead : unpackFrom batch (offset + 8) 4 with
  | error e =>
    rw [hhead] at h
    cases h
  | ok head =>
    rw [hhead] at h
    have hrest := groupEnd_le h
    unfold relayRecordHead at hrest
    omega

/-- `_flush`'s loop over the signed batch: the bodies it posts. -/
def flushPosts (batch : Bytes) (offset : ℕ) : Except PyExc (List Bytes) :=
  if hoffset : offset < batch.length then
    match h : groupEnd batch relayGroup offset with
    | .error e => .error e
    | .ok stop => (flushPosts batch stop).map ((batch.drop offset).take (stop - offset) :: ·)
  else .ok []
termination_by batch.length - offset
decreasing_by
  have hstop := groupEnd_lt h hoffset
  omega

end V9xRemote
