import V9xRemote.Lib.Segments
import V9xRemote.Spec.Lists
import V9xRemote.Spec.McpCodec

/-!
# The inventory (`src/guest/inventory.c`)

The records' writer and the response around them. A record is written in place and undone
where a part of it does not fit; from then on nothing is written until the last record,
which has room of its own. Which records there are is up to the system: the callers are
taken as the sequence of what they ask of the writer, a number as its decimal text.
-/

namespace V9xRemote

open Bytes Segments

def invValueMax : ℕ := 255
def invMetaReserve : ℕ := 160

/-- A record's type or a field's key: all of them are ASCII texts of the agent's. -/
structure InvName where
  text : Bytes
  ascii : (text.all fun b => b != 0 && b ≤ 127) = true

/-- `V9xInvWriter`. The memory is the buffer and what lies behind it. -/
structure InvWriter where
  memory : Bytes
  capacity : ℕ
  offset : ℕ
  records : ℕ
  recordStart : ℕ
  countOffset : ℕ
  fields : ℕ
  reserve : ℕ
  inRecord : Bool
  truncated : Bool
deriving DecidableEq, Repr

/-- `v9x_append_string` at an offset of a memory: the memory and the offset behind the
text; `none` where it does not fit, with nothing written. -/
def appendStringAt (capacity : ℕ) (memory : Bytes) (offset : ℕ) (text : Bytes) : Option (Bytes × ℕ) :=
  let length := min text.length 65535
  if offset > capacity ∨ capacity - offset < length + 2 then none
  else some (write memory offset (writeU16 (UInt16.ofNat length) ++ text.take length), offset + 2 + length)

namespace InvWriter

/-- What the appends may fill. -/
def limit (writer : InvWriter) : ℕ := writer.capacity - writer.reserve

/-- The record is undone. -/
def rollback (writer : InvWriter) : InvWriter :=
  { writer with offset := writer.recordStart, inRecord := false, truncated := true }

/-- `v9x_inv_begin`. -/
def invBegin (writer : InvWriter) (type : InvName) : InvWriter :=
  let writer := { writer with inRecord := false }
  if writer.truncated then writer
  else
    let writer := { writer with recordStart := writer.offset }
    match appendStringAt writer.limit writer.memory writer.offset type.text with
    | none => writer.rollback
    | some (memory, offset) =>
      -- the type stands in the buffer already where only the count does not fit
      if offset + 2 > writer.limit then { writer with memory }.rollback
      else { writer with memory, countOffset := offset, offset := offset + 2, fields := 0, inRecord := true }

end InvWriter

/-- A value as it is written: the text before its NUL, cut, printable, and without trailing
blanks. A null pointer is an empty text. -/
def cleanValue (value : Option Bytes) : Bytes :=
  let clean := ((value.getD []).cstr.take invValueMax).map fun b => if b < 0x20 || b > 0x7e then 63 else b
  (clean.reverse.dropWhile (· == 32)).reverse

namespace InvWriter

/-- `v9x_inv_field`. -/
def invField (writer : InvWriter) (key : InvName) (value : Option Bytes) : InvWriter :=
  if !writer.inRecord then writer
  else
    match appendStringAt writer.limit writer.memory writer.offset key.text with
    | none => writer.rollback
    | some (memory, offset) =>
      match appendStringAt writer.limit memory offset (cleanValue value) with
      | none => { writer with memory }.rollback
      | some (memory, offset) => { writer with memory, offset, fields := writer.fields + 1 }

end InvWriter

/-- Where an optional value starts; `none` where there is nothing but blanks. -/
def optValue (value : Option Bytes) : Option Bytes := do
  let cursor : Bytes := (← value).dropWhile (· == 32)
  if cursor.at' 0 == 0 then none else some cursor

namespace InvWriter

/-- `v9x_inv_field_opt`. -/
def invFieldOpt (writer : InvWriter) (key : InvName) (value : Option Bytes) : InvWriter :=
  match optValue value with
  | none => writer
  | some cursor => writer.invField key (some cursor)

/-- `v9x_inv_end`. -/
def invEnd (writer : InvWriter) : InvWriter :=
  if !writer.inRecord then writer
  else if writer.fields = 0 then { writer with offset := writer.recordStart, inRecord := false }
  else
    { writer with
      memory := write writer.memory writer.countOffset (writeU16 (UInt16.ofNat writer.fields))
      records := writer.records + 1
      inRecord := false }

end InvWriter

/-- What is asked of the writer. -/
inductive InvOp
  | begin (type : InvName)
  | field (key : InvName) (value : Option Bytes)
  | fieldOpt (key : InvName) (value : Option Bytes)
  | finish

def InvOp.run (writer : InvWriter) : InvOp → InvWriter
  | .begin type => writer.invBegin type
  | .field key value => writer.invField key value
  | .fieldOpt key value => writer.invFieldOpt key value
  | .finish => writer.invEnd

def runInvOps (writer : InvWriter) (ops : List InvOp) : InvWriter := ops.foldl InvOp.run writer

/-! ## The response -/

/-- What of the machine the last record tells. -/
structure InvMachine where
  live : Bool
  installId : CText 37
  discovery : Bool
  discoveryActive : Bool

namespace InvName

def ofString (s : String) (h : ((Bytes.ascii s).all fun b => b != 0 && b ≤ 127) = true) : InvName := ⟨Bytes.ascii s, h⟩

def metaType : InvName := ofString "meta" (by decide)
def devices : InvName := ofString "devices" (by decide)
def truncated : InvName := ofString "truncated" (by decide)
def installId : InvName := ofString "install_id" (by decide)
def discovery : InvName := ofString "discovery" (by decide)

end InvName

def InvMachine.devicesText (machine : InvMachine) : Bytes := if machine.live then ascii "live" else ascii "registry"

def InvMachine.discoveryText (machine : InvMachine) : Bytes :=
  if !machine.discovery then ascii "off" else if machine.discoveryActive then ascii "on" else ascii "unavailable"

/-- The last record. -/
def metaOps (machine : InvMachine) (truncated : Bool) : List InvOp :=
  [.begin .metaType, .field .devices (some machine.devicesText)] ++
    ((if truncated then [.field .truncated (some (ascii "1"))] else []) ++
      [.fieldOpt .installId (some machine.installId.text), .field .discovery (some machine.discoveryText), .finish])

/-- The writer at the start, on the connection's response buffer. -/
def invWriter (memory : Bytes) : InvWriter where
  memory := memory
  capacity := listResponseSize
  offset := 2
  records := 0
  recordStart := 2
  countOffset := 0
  fields := 0
  reserve := invMetaReserve
  inRecord := false
  truncated := false

/-- `v9x_handle_inventory`: the writer when the response is sent. -/
def handleInventory (memory : Bytes) (ops : List InvOp) (machine : InvMachine) : InvWriter :=
  let writer := runInvOps (invWriter memory) ops
  let writer := runInvOps { writer with truncated := false, reserve := 0 } (metaOps machine writer.truncated)
  { writer with memory := write writer.memory 0 (writeU16 (UInt16.ofNat writer.records)) }

/-- The payload sent. -/
def InvWriter.response (writer : InvWriter) : Bytes := writer.memory.take writer.offset

/-! ## What the callers mean -/

/-- What a field of a record comes to. -/
def InvOp.entry : InvOp → Option (Bytes × Bytes)
  | .field key value => some (key.text, cleanValue value)
  | .fieldOpt key value => (optValue value).map fun cursor => (key.text, cleanValue (some cursor))
  | _ => none

/-- A record: its type and its fields. -/
abbrev InvRecord := Bytes × List (Bytes × Bytes)

/-- The records that a sequence completes, the one that is open first. -/
def completed : Option InvRecord → List InvOp → List InvRecord
  | _, [] => []
  | _, .begin type :: ops => completed (some (type.text, [])) ops
  | some record, .finish :: ops => record :: completed none ops
  | none, .finish :: ops => completed none ops
  | some (type, fields), op :: ops => completed (some (type, fields ++ op.entry.toList)) ops
  | none, _ :: ops => completed none ops

/-- Each record is ended before the next one begins, as every caller does. -/
def bracketed : Bool → List InvOp → Bool
  | inRecord, [] => !inRecord
  | inRecord, .begin _ :: ops => !inRecord && bracketed true ops
  | _, .finish :: ops => bracketed false ops
  | inRecord, _ :: ops => bracketed inRecord ops

/-- The records that have fields. -/
def nonEmpty (records : List InvRecord) : List InvRecord := records.filter fun record => !record.2.isEmpty

/-- The last record as it reads. -/
def metaRecord (machine : InvMachine) (truncated : Bool) : InvRecord :=
  (InvName.metaType.text, [(InvName.devices.text, machine.devicesText)] ++
    ((if truncated then [(InvName.truncated.text, ascii "1")] else []) ++
      ((InvOp.fieldOpt .installId (some machine.installId.text)).entry.toList ++
        [(InvName.discovery.text, machine.discoveryText)])))

/-!
# 64-bit numbers of the inventory (`src/guest/inventory.c`)

The agent is built without a runtime that multiplies or divides 64-bit numbers: they are two
words of 32 bits, and the arithmetic goes by 16-bit limbs. A buffer is written through
`bufferPut`, which has no result outside it.
-/

/-- `V9xU64`. -/
structure U64 where
  lo : UInt32
  hi : UInt32
deriving DecidableEq, Repr

def U64.toNat (value : U64) : ℕ := value.hi.toNat * 2 ^ 32 + value.lo.toNat

/-- `v9x_u64_set`. -/
def u64Set (lo : UInt32) : U64 := ⟨lo, 0⟩

/-- `v9x_u64_mul32`. -/
def u64Mul32 (value : U64) (multiplier : UInt32) : U64 :=
  let a0 := value.lo &&& 0xffff
  let a1 := value.lo >>> 16
  let b0 := multiplier &&& 0xffff
  let b1 := multiplier >>> 16
  let p00 := a0 * b0
  let p01 := a0 * b1
  let p10 := a1 * b0
  let p11 := a1 * b1
  let middle := (p00 >>> 16) + (p01 &&& 0xffff) + (p10 &&& 0xffff)
  let lo := (p00 &&& (0xffff : UInt32)) ||| ((middle &&& (0xffff : UInt32)) <<< (16 : UInt32))
  let hi := p11 + (p01 >>> 16) + (p10 >>> 16) + (middle >>> 16)
  ⟨lo, value.hi * multiplier + hi⟩

/-! ## The decimal writer -/

def bufferPut (buffer : Bytes) (index : ℕ) (b : UInt8) : Option Bytes :=
  if index < buffer.length then some (buffer.set index b) else none

/-- One pass of the division by ten, from the highest limb: the limbs it leaves and the last
remainder. -/
def divideLimbs : UInt32 → List UInt32 → List UInt32 × UInt32
  | remainder, [] => ([], remainder)
  | remainder, limb :: limbs =>
    let current := (remainder <<< 16) ||| limb
    let (quotients, last) := divideLimbs (current % 10) limbs
    (current / 10 :: quotients, last)

/-- The `do` loop: the digits in the buffer, the lowest first, and their number. -/
def digitLoop : ℕ → List UInt32 → Bytes → ℕ → Option (Bytes × ℕ)
  | 0, _, _, _ => none
  | fuel + 1, limbs, reversed, count => do
    let (limbs, remainder) := divideLimbs 0 limbs
    let reversed ← bufferPut reversed count (48 + remainder).toUInt8
    if limbs.any (· != 0) && decide (count + 1 < reversed.length - 1) then digitLoop fuel limbs reversed (count + 1)
    else some (reversed, count + 1)

/-- The limbs, the highest first. -/
def u64Limbs (source : U64) : List UInt32 :=
  [source.hi >>> 16, source.hi &&& 0xffff, source.lo >>> 16, source.lo &&& 0xffff]

/-- `v9x_u64_decimal`; `reversed` has 21 places. -/
def u64Decimal (target : Bytes) (source : U64) : Option Bytes := do
  let (reversed, count) ← digitLoop 20 (u64Limbs source) (List.replicate 21 0) 0
  let target ← (List.range count).foldlM
    (fun target index => bufferPut target index (reversed.at' (count - index - 1))) target
  bufferPut target count 0

/-! ## The fields of a disk -/

namespace InvWriter

/-- `v9x_inv_field_u64`; its text has 24 places. -/
def invFieldU64 (writer : InvWriter) (key : InvName) (value : U64) : Option InvWriter := do
  let text ← u64Decimal (List.replicate 24 0) value
  some (writer.invField key (some text))

end InvWriter

/-- A number of clusters in bytes. -/
def diskBytes (clusters sectorsPerCluster bytesPerSector : UInt32) : U64 :=
  u64Mul32 (u64Mul32 (u64Set clusters) sectorsPerCluster) bytesPerSector

/-- What `v9x_inv_drives` writes of the answer of `GetDiskFreeSpaceA`. -/
def InvWriter.diskFields (writer : InvWriter) (sectorsPerCluster bytesPerSector freeClusters totalClusters : UInt32) :
    Option InvWriter := do
  let writer ← writer.invFieldU64 ⟨ascii "total", by decide⟩ (diskBytes totalClusters sectorsPerCluster bytesPerSector)
  writer.invFieldU64 ⟨ascii "free", by decide⟩ (diskBytes freeClusters sectorsPerCluster bytesPerSector)

end V9xRemote
