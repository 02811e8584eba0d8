import Mathlib.Logic.Function.Basic
import V9xRemote.Lib.Bytes
import V9xRemote.Lib.Checked

/-!
# The Deflate decoder (`src/common/inflate.c`)

Every read of the input, every access to the output and every index into a table is
checked: a program that leaves them is stuck, and so is a loop that reads nothing.
Tables are functions of the index, with their sizes at the accesses; what a caller's
scratch state held before stays in them until it is written.
-/

namespace V9xRemote

open Bytes Checked

inductive InflateStatus
  | ok
  | truncated
  | badBlock
  | badStored
  | badLengths
  | badCode
  | badDistance
  | outputFull
deriving DecidableEq, Repr

/-- `v9x_inflate_state` up to the output's position; the lengths are the lists' own. -/
structure InflateStream where
  input : Bytes
  inputPosition : ℕ
  bitBuffer : ℕ
  bitCount : ℕ
  output : Bytes
  outputPosition : ℕ
deriving DecidableEq, Repr

/-- `v9x_inflate_code`. -/
structure InflateCode where
  count : ℕ → ℕ
  symbol : ℕ → ℕ

/-- The rest of `v9x_inflate_state`, whose content before a call is the caller's. -/
structure InflateScratch where
  litlen : InflateCode
  distance : InflateCode
  lengths : ℕ → ℕ

abbrev Inflate (α : Type) : Type := Checked InflateStream InflateStatus α

abbrev inflateMaxBits : ℕ := 15
abbrev inflateLitlenSymbols : ℕ := 288
abbrev inflateDistSymbols : ℕ := 32
abbrev inflateClenSymbols : ℕ := 19

def inflateLengthBase : List ℕ :=
  [3, 4, 5, 6, 7, 8, 9, 10, 11, 13, 15, 17, 19, 23, 27, 31,
    35, 43, 51, 59, 67, 83, 99, 115, 131, 163, 195, 227, 258]

def inflateLengthExtra : List ℕ :=
  [0, 0, 0, 0, 0, 0, 0, 0, 1, 1, 1, 1, 2, 2, 2, 2,
    3, 3, 3, 3, 4, 4, 4, 4, 5, 5, 5, 5, 0]

def inflateDistanceBase : List ℕ :=
  [1, 2, 3, 4, 5, 7, 9, 13, 17, 25, 33, 49, 65, 97, 129,
    193, 257, 385, 513, 769, 1025, 1537, 2049, 3073, 4097, 6145,
    8193, 12289, 16385, 24577]

def inflateDistanceExtra : List ℕ :=
  [0, 0, 0, 0, 1, 1, 2, 2, 3, 3, 4, 4, 5, 5, 6,
    6, 7, 7, 8, 8, 9, 9, 10, 10, 11, 11, 12, 12, 13, 13]

def inflateClenOrder : List ℕ := [16, 17, 18, 0, 8, 7, 9, 6, 10, 5, 11, 4, 12, 3, 13, 2, 14, 1, 15]

/-- The bits not read yet. -/
def InflateStream.bitsLeft (s : InflateStream) : ℕ := 8 * (s.input.length - s.inputPosition) + s.bitCount

/-! ## Accesses -/

def readInput (i : ℕ) : Inflate UInt8 := do
  let s ← get
  check (i < s.input.length)
  return s.input.at' i

def readOutput (i : ℕ) : Inflate UInt8 := do
  let s ← get
  check (i < s.output.length)
  return s.output.at' i

def writeOutput (i : ℕ) (b : UInt8) : Inflate Unit := do
  let s ← get
  check (i < s.output.length)
  modify fun s => { s with output := s.output.set i b }

/-- An entry of a table of a size. -/
def tableAt (size : ℕ) (table : ℕ → ℕ) (i : ℕ) : Inflate ℕ := do
  check (i < size)
  return table i

/-- A table with one entry written. -/
def tableSet (size : ℕ) (table : ℕ → ℕ) (i v : ℕ) : Inflate (ℕ → ℕ) := do
  check (i < size)
  return Function.update table i v

/-- An entry of a constant table. -/
def constAt (table : List ℕ) (i : ℕ) : Inflate ℕ := tableAt table.length (fun i => table.getD i 0) i

/-! ## Bits and codes -/

/-- One byte more, while too few bits are buffered. -/
def inflateFetch (count : ℕ) (_ : Unit) : Inflate (Unit ⊕ Unit) := do
  let s ← get
  if s.bitCount < count then
    if s.inputPosition ≥ s.input.length then stop .truncated
    else do
      let byte ← readInput s.inputPosition
      modify fun s =>
        { s with
          bitBuffer := s.bitBuffer ||| (byte.toNat <<< s.bitCount)
          inputPosition := s.inputPosition + 1
          bitCount := s.bitCount + 8 }
      return .inl ()
  else return .inr ()

/-- `v9x_inflate_bits`. -/
def inflateBits (count : ℕ) : Inflate ℕ := do
  loop (fun s => s.input.length - s.inputPosition) (inflateFetch count) ()
  let s ← get
  modify fun s => { s with bitBuffer := s.bitBuffer >>> count, bitCount := s.bitCount - count }
  return s.bitBuffer &&& ((1 <<< count) - 1)

/-- How many codes there are of each length. -/
def inflateCount (code : InflateCode) (size : ℕ) (lengths : ℕ → ℕ) (symbols : ℕ) : Inflate (ℕ → ℕ) :=
  (List.range symbols).foldlM
    (fun count symbol => do
      let length ← tableAt size lengths symbol
      if length > inflateMaxBits then stop .badLengths
      else do
        let n ← tableAt (inflateMaxBits + 1) count length
        tableSet (inflateMaxBits + 1) count length (n + 1))
    fun length => if length ≤ inflateMaxBits then 0 else code.count length

/-- The code space left over. -/
def inflateLeft (count : ℕ → ℕ) : Inflate ℤ :=
  (List.range inflateMaxBits).foldlM
    (fun left i => do
      let n ← tableAt (inflateMaxBits + 1) count (i + 1)
      if left * 2 - n < 0 then stop .badLengths else return left * 2 - n)
    1

/-- `offset` before the symbols are sorted. -/
def inflateOffset (count : ℕ → ℕ) : ℕ → ℕ
  | 0 => 0
  | 1 => 0
  | length + 2 => inflateOffset count (length + 1) + count (length + 1)

/-- The symbols by length. -/
def inflateSort (code : InflateCode) (size : ℕ) (lengths count : ℕ → ℕ) (symbols : ℕ) :
    Inflate ((ℕ → ℕ) × (ℕ → ℕ)) :=
  (List.range symbols).foldlM
    (fun (offset, table) symbol => do
      let length ← tableAt size lengths symbol
      if length ≠ 0 then do
        let place ← tableAt (inflateMaxBits + 1) offset length
        let table ← tableSet inflateLitlenSymbols table place symbol
        let offset ← tableSet (inflateMaxBits + 1) offset length (place + 1)
        return (offset, table)
      else return (offset, table))
    (inflateOffset count, code.symbol)

/-- `v9x_inflate_build`, over what `code` held before. -/
def inflateBuild (code : InflateCode) (size : ℕ) (lengths : ℕ → ℕ) (symbols : ℕ) (allowSingle : Bool) :
    Inflate InflateCode := do
  let count ← inflateCount code size lengths symbols
  let left ← inflateLeft count
  let used := symbols - count 0
  if left > 0 ∧ (!allowSingle || used > 1 || (used == 1 && count 1 != 1)) then stop .badLengths
  else do
    let (_, table) ← inflateSort code size lengths count symbols
    return ⟨count, table⟩

/-- The lengths of `v9x_inflate_decode` from one on, `left` of them behind it. -/
def inflateDecodeFrom (code : InflateCode) : ℕ → ℕ → ℕ → ℕ → Inflate ℕ
  | 0, _, _, _ => stop .badCode
  | left + 1, value, first, index => do
    let bit ← inflateBits 1
    let count ← tableAt (inflateMaxBits + 1) code.count (inflateMaxBits - left)
    if (value ||| bit) ≥ first ∧ (value ||| bit) - first < count then
      tableAt inflateLitlenSymbols code.symbol (index + ((value ||| bit) - first))
    else inflateDecodeFrom code left ((value ||| bit) * 2) ((first + count) * 2) (index + count)

/-- `v9x_inflate_decode`. -/
def inflateDecode (code : InflateCode) : Inflate ℕ := inflateDecodeFrom code inflateMaxBits 0 0 0

/-! ## Blocks -/

/-- `v9x_inflate_stored`. -/
def inflateStored : Inflate Unit := do
  modify fun s => { s with bitBuffer := 0, bitCount := 0 }
  let s ← get
  if s.input.length - s.inputPosition < 4 then stop .truncated
  else do
    let b0 ← readInput s.inputPosition
    let b1 ← readInput (s.inputPosition + 1)
    let b2 ← readInput (s.inputPosition + 2)
    let b3 ← readInput (s.inputPosition + 3)
    let length := b0.toNat ||| (b1.toNat <<< 8)
    let complement := b2.toNat ||| (b3.toNat <<< 8)
    if length ≠ 0xffff ^^^ complement then stop .badStored
    else if s.input.length - (s.inputPosition + 4) < length then stop .truncated
    else if s.output.length - s.outputPosition < length then stop .outputFull
    else do
      (List.range length).foldlM
        (fun _ i => do
          let b ← readInput (s.inputPosition + 4 + i)
          writeOutput (s.outputPosition + i) b)
        ()
      modify fun s =>
        { s with outputPosition := s.outputPosition + length, inputPosition := s.inputPosition + 4 + length }

/-- A back-reference, byte by byte. -/
def inflateCopy (distance length : ℕ) : Inflate (Unit ⊕ Unit) := do
  let s ← get
  if distance > s.outputPosition then stop .badDistance
  else if s.output.length - s.outputPosition < length then stop .outputFull
  else do
    (List.range length).foldlM
      (fun _ i => do
        let b ← readOutput (s.outputPosition - distance + i)
        writeOutput (s.outputPosition + i) b)
      ()
    modify fun s => { s with outputPosition := s.outputPosition + length }
    return .inl ()

/-- One pass of `v9x_inflate_codes`. -/
def inflatePass (litlen distance : InflateCode) (_ : Unit) : Inflate (Unit ⊕ Unit) := do
  let symbol ← inflateDecode litlen
  if symbol < 256 then do
    let s ← get
    if s.outputPosition ≥ s.output.length then stop .outputFull
    else do
      writeOutput s.outputPosition (UInt8.ofNat symbol)
      modify fun s => { s with outputPosition := s.outputPosition + 1 }
      return .inl ()
  else if symbol = 256 then return .inr ()
  else if symbol - 257 ≥ 29 then stop .badCode
  else do
    let count ← constAt inflateLengthExtra (symbol - 257)
    let extra ← inflateBits count
    let base ← constAt inflateLengthBase (symbol - 257)
    let code ← inflateDecode distance
    if code ≥ 30 then stop .badDistance
    else do
      let distanceCount ← constAt inflateDistanceExtra code
      let distanceExtra ← inflateBits distanceCount
      let distanceBase ← constAt inflateDistanceBase code
      inflateCopy (distanceBase + distanceExtra) (base + extra)

/-- `v9x_inflate_codes`. -/
def inflateCodes (litlen distance : InflateCode) : Inflate Unit :=
  loop InflateStream.bitsLeft (inflatePass litlen distance) ()

/-- The lengths of the fixed literal/length code, over what was there. -/
def inflateFixedLengths (lengths : ℕ → ℕ) : ℕ → ℕ := fun symbol =>
  if symbol < inflateLitlenSymbols then
    if symbol < 144 then 8 else if symbol < 256 then 9 else if symbol < 280 then 7 else 8
  else lengths symbol

/-- `state->lengths` -/
abbrev inflateLengthsSize : ℕ := inflateLitlenSymbols + inflateDistSymbols

/-- `v9x_inflate_fixed`. -/
def inflateFixed (scratch : InflateScratch) : Inflate InflateScratch := do
  let lengths := inflateFixedLengths scratch.lengths
  let litlen ← inflateBuild scratch.litlen inflateLengthsSize lengths inflateLitlenSymbols false
  let lengths := fun symbol => if symbol < inflateDistSymbols then 5 else lengths symbol
  let distance ← inflateBuild scratch.distance inflateLengthsSize lengths inflateDistSymbols false
  inflateCodes litlen distance
  return ⟨litlen, distance, lengths⟩

/-- A repeated length. -/
def inflateRepeat (total : ℕ) (lengths : ℕ → ℕ) (index value count : ℕ) :
    Inflate (((ℕ → ℕ) × ℕ) ⊕ (ℕ → ℕ)) :=
  if count > total - index then stop .badLengths
  else do
    let lengths ← (List.range count).foldlM
      (fun lengths i => tableSet inflateLengthsSize lengths (index + i) value) lengths
    return .inl (lengths, index + count)

/-- One pass over the code lengths of a dynamic block. -/
def inflateLengths (code : InflateCode) (total : ℕ) :
    (ℕ → ℕ) × ℕ → Inflate (((ℕ → ℕ) × ℕ) ⊕ (ℕ → ℕ))
  | (lengths, index) =>
    if index < total then do
      let symbol ← inflateDecode code
      if symbol < 16 then do
        let lengths ← tableSet inflateLengthsSize lengths index symbol
        return .inl (lengths, index + 1)
      else if symbol = 16 then
        if index = 0 then stop .badLengths
        else do
          let value ← tableAt inflateLengthsSize lengths (index - 1)
          let count ← inflateBits 2
          inflateRepeat total lengths index value (count + 3)
      else if symbol = 17 then do
        let count ← inflateBits 3
        inflateRepeat total lengths index 0 (count + 3)
      else do
        let count ← inflateBits 7
        inflateRepeat total lengths index 0 (count + 11)
    else return .inr lengths

/-- `v9x_inflate_dynamic` up to its codes: the numbers of lengths, and the lengths. -/
def inflateHeader (scratch : InflateScratch) : Inflate ((ℕ × ℕ) × InflateCode × (ℕ → ℕ)) := do
  let hlit ← inflateBits 5
  let hdist ← inflateBits 5
  let hclen ← inflateBits 4
  if hlit + 257 > 286 then stop .badBlock
  else do
    let clen ← (List.range (hclen + 4)).foldlM
      (fun clen i => do
        let value ← inflateBits 3
        let place ← constAt inflateClenOrder i
        tableSet inflateClenSymbols clen place value)
      fun _ => 0
    let code ← inflateBuild scratch.distance inflateClenSymbols clen inflateClenSymbols false
    let lengths ← loop InflateStream.bitsLeft (inflateLengths code (hlit + 257 + (hdist + 1))) (scratch.lengths, 0)
    return ((hlit + 257, hdist + 1), code, lengths)

/-- `v9x_inflate_dynamic`. -/
def inflateDynamic (scratch : InflateScratch) : Inflate InflateScratch := do
  let ((hlit, hdist), code, lengths) ← inflateHeader scratch
  let ending ← tableAt inflateLengthsSize lengths 256
  if ending = 0 then stop .badLengths
  else do
    let litlen ← inflateBuild scratch.litlen inflateLengthsSize lengths hlit false
    let distance ← inflateBuild code (inflateLengthsSize - hlit) (fun i => lengths (hlit + i)) hdist true
    inflateCodes litlen distance
    return ⟨litlen, distance, lengths⟩

/-- A block behind its type. -/
def inflateBody (type : ℕ) (scratch : InflateScratch) : Inflate InflateScratch :=
  if type = 0 then do
    inflateStored
    return scratch
  else if type = 1 then inflateFixed scratch
  else if type = 2 then inflateDynamic scratch
  else stop .badBlock

/-- One block. -/
def inflateBlock (scratch : InflateScratch) : Inflate (InflateScratch ⊕ Unit) := do
  let final ← inflateBits 1
  let type ← inflateBits 2
  let scratch ← inflateBody type scratch
  if final = 0 then return .inl scratch else return .inr ()

/-- What a call returns and leaves in the output. -/
structure InflateResult where
  status : InflateStatus
  outputLength : ℕ
  output : Bytes
deriving DecidableEq, Repr

/-- The state a call begins with. -/
def InflateStream.start (input output : Bytes) : InflateStream := ⟨input, 0, 0, 0, output, 0⟩

/-- `v9x_inflate_with_state`, with the output as it was before. -/
def inflateWithState (scratch : InflateScratch) (input output : Bytes) : Option InflateResult :=
  match loop InflateStream.bitsLeft inflateBlock scratch (.start input output) with
  | none => none
  | some (.ok _, s) => some ⟨.ok, s.outputPosition, s.output⟩
  | some (.error status, s) => some ⟨status, s.outputPosition, s.output⟩

end V9xRemote
