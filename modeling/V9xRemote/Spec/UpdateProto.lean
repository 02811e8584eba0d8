import V9xRemote.Lib.Bytes
import V9xRemote.Lib.Scan

/-!
# INI-shaped server replies (`src/common/update_proto.c`)

`updateIniValue` finds one value of an INI text. A line is what stands between
LFs; the reader keeps whether the last `[section]` line named the wanted section
and takes the first matching key after it. `updateIniLoop` is the same reader as it moves
through its buffer.
-/

namespace V9xRemote

open Bytes Scan

def updateIsSpace (value : UInt8) : Bool := value == 32 || value == 9 || value == 13

/-- Equal without case; `right` is a text, so the spans end together. -/
def updateSpanEquals (left right : Bytes) : Bool := left.map lower == right.map lower

/-- A line without the blanks around it. -/
def updateTrim (line : Bytes) : Bytes :=
  ((line.dropWhile updateIsSpace).reverse.dropWhile updateIsSpace).reverse

/-- The loop over the lines, with `in_section`. -/
def updateIniLines (sect key : Bytes) (capacity : ℕ) : Bool → List Bytes → Option Bytes
  | _, [] => none
  | inSection, line :: rest =>
    let text := updateTrim line
    if text = [] then updateIniLines sect key capacity inSection rest
    else if text.head? = some 91 then
      updateIniLines sect key capacity
        (text.getLast? = some 93 && updateSpanEquals text.tail.dropLast sect) rest
    else if !inSection then updateIniLines sect key capacity inSection rest
    else if 61 ∉ text then updateIniLines sect key capacity inSection rest
    else
      let name := ((text.takeWhile (· ≠ 61)).reverse.dropWhile updateIsSpace).reverse
      let value := (text.dropWhile (· ≠ 61)).tail.dropWhile updateIsSpace
      if !updateSpanEquals name key then updateIniLines sect key capacity inSection rest
      else if value.length + 1 > capacity then none
      else some value

/-- `v9x_update_ini_value`: `none` for FALSE, else the bytes written before the NUL. -/
def updateIniValue (text sect key : Bytes) (capacity : ℕ) : Option Bytes :=
  if capacity = 0 then none else updateIniLines sect key capacity false (text.splitOn 10)

/-- Where the line at a position ends, and where the next one starts. -/
def updateLineEnd (text : Bytes) (length position : ℕ) : ℕ := up (· != 10) text length position

def updateNextLine (text : Bytes) (length position : ℕ) : ℕ :=
  if updateLineEnd text length position < length then updateLineEnd text length position + 1
  else updateLineEnd text length position

theorem updateNextLine_gt {text : Bytes} {length position : ℕ} (h : position < length) :
    position < updateNextLine text length position := by
  have hle : position ≤ updateLineEnd text length position := le_up _ _ _ _
  unfold updateNextLine
  split <;> omega

/-- `v9x_update_ini_value`'s loop over the first `length` bytes of a buffer. -/
def updateIniLoop (text : Bytes) (length : ℕ) (sect key : Bytes) (capacity position : ℕ) (inSection : Bool) :
    Option Bytes :=
  if h : position < length then
    let next := updateNextLine text length position
    let lineEnd := updateLineEnd text length position
    let start := up updateIsSpace text lineEnd position
    let stop := down updateIsSpace text start lineEnd
    if start = stop then updateIniLoop text length sect key capacity next inSection
    else if text.at' start = 91 then
      updateIniLoop text length sect key capacity next
        (text.at' (stop - 1) == 93 && updateSpanEquals (slice text (start + 1) (stop - 1)) sect)
    else if !inSection then updateIniLoop text length sect key capacity next inSection
    else
      let equals := up (· != 61) text stop start
      if equals = stop then updateIniLoop text length sect key capacity next inSection
      else if !updateSpanEquals (slice text start (down updateIsSpace text start equals)) key then
        updateIniLoop text length sect key capacity next inSection
      else
        let valueStart := up updateIsSpace text stop (equals + 1)
        if stop - valueStart + 1 > capacity then none else some (slice text valueStart stop)
  else none
termination_by length - position
decreasing_by all_goals
  have hnext : position < updateNextLine text length position := updateNextLine_gt h
  omega

/-- `v9x_update_ini_value` on a buffer and a length. -/
def updateIniRead (text : Bytes) (length : ℕ) (sect key : Bytes) (capacity : ℕ) : Option Bytes :=
  if capacity = 0 then none else updateIniLoop text length sect key capacity 0 false

example : updateIniValue (ascii "[poll]\r\nstatus = ok \r\n[session]\r\nid=7") (ascii "poll")
    (ascii "status") 32 = some (ascii "ok") := by decide

/-! ## Versions -/

def updateIsDigit (value : UInt8) : Bool := 48 ≤ value && value ≤ 57

/-- One number of a version: at most five digits, below 65536. -/
def updateVersionPart : Bytes → ℕ → ℕ → Option (ℕ × Bytes)
  | [], value, digits => if digits = 0 then none else some (value, [])
  | c :: rest, value, digits =>
    if updateIsDigit c then
      let value := value * 10 + (c.toNat - 48)
      if digits + 1 > 5 ∨ value > 65535 then none else updateVersionPart rest value (digits + 1)
    else if digits = 0 then none
    else some (value, c :: rest)

/-- The numbers of a version with room for so many of them. -/
def updateVersionParts : ℕ → Bytes → Option (List ℕ)
  | 0, _ => none
  | left + 1, text => do
    match ← updateVersionPart text 0 0 with
    | (value, []) => some [value]
    | (value, c :: rest) => if c ≠ 46 then none else (updateVersionParts left rest).map (value :: ·)

structure UpdateVersion where
  major : ℕ
  minor : ℕ
  patch : ℕ
deriving DecidableEq, Repr

/-- `v9x_update_version_parse`. -/
def updateVersionParse (text : Bytes) : Option UpdateVersion :=
  let digits := if text.head? = some 118 ∨ text.head? = some 86 then text.tail else text
  match updateVersionParts 3 digits with
  | some [major, minor] => some ⟨major, minor, 0⟩
  | some [major, minor, patch] => some ⟨major, minor, patch⟩
  | _ => none

/-- `v9x_update_version_compare`: -1, 0 or 1, and -2 where one does not parse. -/
def updateVersionCompare (left right : Bytes) : ℤ :=
  match updateVersionParse left, updateVersionParse right with
  | some a, some b =>
    if a.major < b.major then -1 else if a.major > b.major then 1
    else if a.minor < b.minor then -1 else if a.minor > b.minor then 1
    else if a.patch < b.patch then -1 else if a.patch > b.patch then 1
    else 0
  | _, _ => -2

example : updateVersionParse (ascii "v0.13.1") = some ⟨0, 13, 1⟩ := by decide

end V9xRemote
