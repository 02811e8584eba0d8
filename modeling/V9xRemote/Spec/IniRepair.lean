import V9xRemote.Lib.Scan

/-!
# The repair of a configuration text (`src/common/installid.c`)

`v9x_ini_repair` writes a text again, line by line: every line with a CRLF, runs of empty
lines as one, and a key that has to be unique once in each section.
-/

namespace V9xRemote

open Bytes Scan

/-- A blank around a key. -/
def iniIsBlank (c : UInt8) : Bool := c == 32 || c == 9

/-- The comparison in `v9x_ini_is_key`: the index behind the key. -/
def iniMatchKey (line : Bytes) : Bytes → ℕ → Option ℕ
  | [], index => some index
  | c :: key, index =>
    if index ≥ line.length then none
    else if lower (line.at' index) ≠ c then none
    else iniMatchKey line key (index + 1)

/-- `v9x_ini_is_key`. -/
def iniIsKey (line key : Bytes) : Bool :=
  match iniMatchKey line key (up iniIsBlank line line.length 0) with
  | none => false
  | some index =>
    let index := up iniIsBlank line line.length index
    index < line.length && line.at' index == 61

/-- Where the line that starts at `at` ends. -/
def iniLineEnd (text : Bytes) (start : ℕ) : ℕ := up (fun c => c != 13 && c != 10) text text.length start

/-- Behind the line end at `lineEnd`: CRLF, a bare CR or a bare LF. -/
def iniNextLine (text : Bytes) (lineEnd : ℕ) : ℕ :=
  if lineEnd < text.length then
    if text.at' lineEnd == 13 && lineEnd + 1 < text.length && text.at' (lineEnd + 1) == 10 then lineEnd + 2
    else lineEnd + 1
  else lineEnd

theorem iniNextLine_gt {text : Bytes} {start : ℕ} (h : start < text.length) :
    start < iniNextLine text (iniLineEnd text start) := by
  have hle : start ≤ iniLineEnd text start := le_up _ _ _ _
  unfold iniNextLine
  split_ifs <;> omega

/-- The loop of `v9x_ini_repair`: `out` is what is written, `used` its length. -/
def iniRepairFrom (text : Bytes) (capacity : ℕ) (uniqueKey : Option Bytes) (start : ℕ) (out : Bytes)
    (seen blank : Bool) : Option Bytes :=
  if start < text.length then
    let lineEnd := iniLineEnd text start
    let next := iniNextLine text lineEnd
    if lineEnd = start then
      iniRepairFrom text capacity uniqueKey next out seen (if out.length ≠ 0 then true else blank)
    else
      let line := slice text start lineEnd
      let header := text.at' start == 91
      let isKey := !header && uniqueKey.any (iniIsKey line)
      if isKey && seen then iniRepairFrom text capacity uniqueKey next out seen blank
      else
        let need := lineEnd - start + 2 + if blank then 2 else 0
        if need > capacity - out.length then none
        else
          let out := if blank then out ++ [13, 10] else out
          iniRepairFrom text capacity uniqueKey next (out ++ line ++ [13, 10]) (if header then false else seen || isKey)
            false
  else some out
termination_by text.length - start
decreasing_by all_goals have := iniNextLine_gt ‹start < text.length›; omega

/-- `v9x_ini_repair` of the `length` bytes of `text`: `none` where it answers 0. -/
def iniRepair (text : Bytes) (capacity : ℕ) (uniqueKey : Option Bytes) : Option Bytes :=
  iniRepairFrom text capacity uniqueKey 0 [] false false

end V9xRemote
