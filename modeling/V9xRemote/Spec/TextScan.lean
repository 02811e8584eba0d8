import V9xRemote.Spec.Responses
import V9xRemote.Spec.Upload

/-!
# Reading a text (`src/common/textscan.c`, `v9x_handle_read_text` in `src/guest/tools.c`)

The line filter, fed with a file block by block, and the request that runs it once to count
and once to write. A system call that fails ends the request; how many bytes each read
brings is the system's choice.
-/

namespace V9xRemote

open Bytes

def textLineMax : ℕ := 1024
def textMatchMax : ℕ := 128
def textTruncated : UInt32 := 1
def textLongLine : UInt32 := 2

/-- `V9xTextScan`: `output` is what is written of the caller's buffer. -/
structure TextScan where
  skip : ℕ
  emit : Bool
  wanted : Bytes
  capacity : ℕ
  output : Bytes
  lines : ℕ
  matched : ℕ
  emitted : ℕ
  flags : UInt32
  line : Bytes
  lineCut : Bool
deriving DecidableEq, Repr

/-- `v9x_text_begin`; no match string is the empty one. -/
def textBegin (emit : Bool) (skip : ℕ) (wanted : Bytes) (capacity : ℕ) : TextScan :=
  ⟨skip, emit, wanted, capacity, [], 0, 0, 0, 0, [], false⟩

/-- `v9x_text_lower`. -/
def textLower (c : UInt8) : UInt8 := if 65 ≤ c ∧ c ≤ 90 then c + 32 else c

/-- `v9x_text_matches`. -/
def textMatches (wanted line : Bytes) : Bool :=
  if wanted.length = 0 then true
  else if wanted.length > line.length then false
  else
    (List.range (line.length - wanted.length + 1)).any fun start =>
      (List.range wanted.length).all fun i => textLower (line.at' (start + i)) == textLower (wanted.at' i)

/-- `v9x_text_line_done`. -/
def textLineDone (scan : TextScan) : TextScan :=
  let line := if scan.line.length ≠ 0 ∧ scan.line.at' (scan.line.length - 1) = 13 then scan.line.dropLast else scan.line
  let scan := { scan with
    line := line
    lines := scan.lines + 1
    flags := if scan.lineCut then scan.flags ||| textLongLine else scan.flags }
  let scan :=
    if textMatches scan.wanted line then
      let scan := { scan with matched := scan.matched + 1 }
      if scan.emit ∧ scan.matched > scan.skip ∧ scan.flags &&& textTruncated = 0 then
        if scan.output.length + line.length + 1 > scan.capacity then
          { scan with flags := scan.flags ||| textTruncated }
        else { scan with output := scan.output ++ line ++ [10], emitted := scan.emitted + 1 }
      else scan
    else scan
  { scan with line := [], lineCut := false }

/-- A byte of `v9x_text_feed`. -/
def textFeedByte (scan : TextScan) (ch : UInt8) : TextScan :=
  if ch = 10 then textLineDone scan
  else if scan.line.length < textLineMax then { scan with line := scan.line ++ [ch] }
  else { scan with lineCut := true }

/-- `v9x_text_feed`. -/
def textFeed (scan : TextScan) (data : Bytes) : TextScan := data.foldl textFeedByte scan

/-- `v9x_text_end`. -/
def textEnd (scan : TextScan) : TextScan :=
  if scan.line.length ≠ 0 ∨ scan.lineCut then textLineDone scan else scan

/-! ## The request -/

def textHeader : ℕ := 24
def textCapacity : ℕ := maxPayloadSize.toNat - textHeader

/-- The loop of `v9x_text_pass`: the `k`th read brings `reads k` bytes where it may. -/
def textPassFrom (content : Bytes) (reads : ℕ → ℕ) (k total : ℕ) (scan : TextScan) : Option TextScan :=
  if total < content.length then
    let wanted := min (content.length - total) fileChunkSize
    let readCount := min (reads k) wanted
    if readCount = 0 then none
    else textPassFrom content reads (k + 1) (total + readCount) (textFeed scan ((content.drop total).take readCount))
  else some (textEnd scan)
termination_by content.length - total

/-- `v9x_text_pass` over a file that opens: `none` where it is too large or a read fails. -/
def textPass (content : Bytes) (reads : ℕ → ℕ) (scan : TextScan) : Option TextScan :=
  if content.length > maxFileSize.toNat then none else textPassFrom content reads 0 0 scan

/-- `v9x_handle_read_text` from its decoded request on: the payload of the response. -/
def handleReadText (content : Bytes) (countReads emitReads : ℕ → ℕ) (tail capacity : UInt32) (wanted : Bytes) :
    Option Bytes := do
  let capacity := if capacity.toNat = 0 ∨ capacity.toNat > textCapacity then textCapacity else capacity.toNat
  let skip ←
    if tail ≠ 0 then do
      let scan ← textPass content countReads (textBegin false 0 wanted 0)
      pure (if scan.matched > tail.toNat then scan.matched - tail.toNat else 0)
    else pure 0
  let scan ← textPass content emitReads (textBegin true skip wanted capacity)
  return writeU32 (UInt32.ofNat content.length) ++ writeU32 (UInt32.ofNat scan.lines) ++
    writeU32 (UInt32.ofNat scan.matched) ++ writeU32 (UInt32.ofNat scan.emitted) ++ writeU32 scan.flags ++
    writeU32 (UInt32.ofNat scan.output.length) ++ scan.output

end V9xRemote
