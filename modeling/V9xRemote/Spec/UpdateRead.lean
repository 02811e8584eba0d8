import V9xRemote.Lib.Reading
import V9xRemote.Spec.UpdateProto

/-!
# The update protocol's readers on their buffers (`src/common/update_proto.c`)

`v9x_update_ini_value` and `v9x_update_http_head` with every read of the text below the length
they were given and every write below the capacity: anything else is stuck, as is a loop that
does not get on.
-/

namespace V9xRemote

open Bytes Scan Reading Checked

/-- The position in the text, and the caller's buffer. -/
structure UpdateCursor where
  position : ℕ
  output : Bytes
deriving DecidableEq, Repr

/-- `output[i] = b`. -/
def updatePut (capacity i : ℕ) (b : UInt8) : Checked UpdateCursor Empty Unit := do
  check (i < capacity)
  modify fun cursor => { cursor with output := cursor.output.set i b }

/-- `v9x_update_span_equals`. -/
def updateSpanRead (text : Bytes) (length start count : ℕ) (right : Bytes) : Checked UpdateCursor Empty Bool :=
  equalRead lower text length right count start 0

/-- What a `[section]` line does to `in_section`. -/
def updateIniHeader (text : Bytes) (length start stop : ℕ) (sect : Bytes) : Checked UpdateCursor Empty Bool := do
  let last ← byte text length (stop - 1)
  if last = 93 then updateSpanRead text length (start + 1) (stop - start - 2) sect else return false

/-- A line with a value: whether it was the one that was asked for, and if so whether it fits. -/
def updateIniPair (text : Bytes) (length start stop : ℕ) (key : Bytes) (capacity : ℕ) :
    Checked UpdateCursor Empty (Option Bool) := do
  let equals ← upRead (· != 61) text length stop start
  if equals = stop then return none
  else
    let keyEnd ← downRead updateIsSpace text length start equals
    let same ← updateSpanRead text length start (keyEnd - start) key
    if !same then return none
    else
      let valueStart ← upRead updateIsSpace text length stop (equals + 1)
      if stop - valueStart + 1 > capacity then return some false
      else
        (List.range (stop - valueStart)).foldlM (fun _ index => do
          let b ← byte text length (valueStart + index)
          updatePut capacity index b) ()
        updatePut capacity (stop - valueStart) 0
        return some true

/-- One turn of the loop over the lines, with `in_section`: on, or the function's result. -/
def updateIniTurn (text : Bytes) (length : ℕ) (sect key : Bytes) (capacity : ℕ) (inSection : Bool) :
    Checked UpdateCursor Empty (Bool ⊕ Bool) := do
  let cursor ← get
  if cursor.position < length then
    let lineEnd ← upRead (· != 10) text length length cursor.position
    modify fun cursor => { cursor with position := if lineEnd < length then lineEnd + 1 else lineEnd }
    let start ← upRead updateIsSpace text length lineEnd cursor.position
    let stop ← downRead updateIsSpace text length start lineEnd
    if start = stop then return .inl inSection
    else
      let first ← byte text length start
      if first = 91 then
        let here ← updateIniHeader text length start stop sect
        return .inl here
      else if !inSection then return .inl inSection
      else
        match ← updateIniPair text length start stop key capacity with
        | none => return .inl inSection
        | some found => return .inr found
  else return .inr false

/-- `v9x_update_ini_value` with its buffers. -/
def updateIniRun (text : Bytes) (length : ℕ) (sect key : Bytes) (capacity : ℕ) : Checked UpdateCursor Empty Bool := do
  if capacity = 0 then return false
  else
    updatePut capacity 0 0
    modify fun cursor => { cursor with position := 0 }
    loop (fun cursor => length - cursor.position) (updateIniTurn text length sect key capacity) false

/-! ## HTTP heads -/

/-- `V9X_UPDATE_NO_LENGTH`. -/
def updateNoLength : UInt32 := 0xFFFFFFFF

/-- The position in the head, and what the caller's pointers point to. -/
structure UpdateHead where
  position : ℕ
  status : ℕ
  bodyOffset : ℕ
  contentLength : UInt32
deriving DecidableEq, Repr

/-- Whether the bytes that end within the length and start at a position are the given ones. -/
def updateNextRead (raw : Bytes) (length index : ℕ) (wanted : Bytes) : Checked UpdateHead Empty Bool :=
  if index + wanted.length ≤ length then matchRead id raw length index wanted else return false

/-- The end of an empty line behind the LF at a position. -/
def updateEmptyRead (raw : Bytes) (length index : ℕ) : Checked UpdateHead Empty (Option ℕ) := do
  let bare ← updateNextRead raw length (index + 1) [10]
  if bare then return some (index + 2)
  else
    let crlf ← updateNextRead raw length (index + 1) [13, 10]
    if crlf then return some (index + 3) else return none

/-- The loop for `head_end`, 0 without an empty line. -/
def updateHeadEndRead (raw : Bytes) (length index : ℕ) : Checked UpdateHead Empty ℕ :=
  if index < length then do
    let b ← byte raw length index
    if b ≠ 10 then updateHeadEndRead raw length (index + 1)
    else
      match ← updateEmptyRead raw length index with
      | some headEnd => return headEnd
      | none => updateHeadEndRead raw length (index + 1)
  else return 0
termination_by length - index

/-- The three digits of the status, from `index` on. -/
def updateStatusRead (raw : Bytes) (length index : ℕ) : ℕ → ℕ → Checked UpdateHead Empty (Option ℕ)
  | 0, code => return some code
  | left + 1, code => do
    let b ← byte raw length index
    if !updateIsDigit b then return none
    else updateStatusRead raw length (index + 1) left (code * 10 + (b.toNat - 48))

/-- The digits of a `Content-Length`; none for a value that would not fit. -/
def updateLengthRead (raw : Bytes) (length stop index : ℕ) (value : UInt32) : Checked UpdateHead Empty (Option UInt32) :=
  if index < stop then do
    let b ← byte raw length index
    if updateIsDigit b then
      if value > 0x19999998 then return none
      else updateLengthRead raw length stop (index + 1) (value * 10 + UInt32.ofNat (b.toNat - 48))
    else return some value
  else return some value
termination_by stop - index

/-- The value of a `Content-Length` line that goes up to `stop`, from behind the colon on. -/
def updateFieldRead (raw : Bytes) (length stop index : ℕ) : Checked UpdateHead Empty (Option UInt32) := do
  let first ← upRead (· == 32) raw length stop index
  if first < stop then
    let b ← byte raw length first
    if updateIsDigit b then updateLengthRead raw length stop first 0 else return none
  else return none

/-- One turn of the loop over the lines of the head: on, or the function's result. -/
def updateHeadTurn (raw : Bytes) (length headEnd : ℕ) (_ : Unit) : Checked UpdateHead Empty (Unit ⊕ Bool) := do
  let head ← get
  let start := head.position
  if start < headEnd then
    let lineEnd ← upRead (· != 10) raw length headEnd start
    modify fun head => { head with position := lineEnd + 1 }
    let colon ← upRead (· != 58) raw length (lineEnd + 1) start
    if colon ≥ lineEnd + 1 ∨ colon - start ≠ 14 then return .inl ()
    else
      let named ← matchRead lower raw length start (ascii "content-length")
      if !named then return .inl ()
      else
        match ← updateFieldRead raw length (lineEnd + 1) (start + 14 + 1) with
        | none => return .inr false
        | some value =>
          modify fun head => { head with contentLength := value }
          return .inl ()
  else return .inr true

/-- `v9x_update_http_head`. -/
def updateHeadRun (raw : Bytes) (length : ℕ) : Checked UpdateHead Empty Bool := do
  let headEnd ← updateHeadEndRead raw length 0
  if headEnd < 14 then return false
  else
    let named ← matchRead lower raw length 0 (ascii "http/1.")
    if !named then return false
    else
      let minor ← byte raw length 7
      if !updateIsDigit minor then return false
      else
        let blank ← byte raw length 8
        if blank ≠ 32 then return false
        else
          match ← updateStatusRead raw length 9 3 0 with
          | none => return false
          | some code =>
            modify fun _ => ⟨0, code, headEnd, updateNoLength⟩
            loop (fun head => headEnd - head.position) (updateHeadTurn raw length headEnd) ()

end V9xRemote
