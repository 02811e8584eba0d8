import V9xRemote.Lib.Checked
import V9xRemote.Spec.Chat

/-!
# Percent encoding in its buffers (`src/common/update_proto.c`, `src/guest/remote.c`)

`v9x_update_url_encode` with every write below the capacity, and `v9x_rt_decode` in place, with
every access inside the buffer: anything else is stuck.
-/

namespace V9xRemote

open Bytes Checked

/-! ## Encoding -/

/-- `output[i] = b`. -/
def encodePut (capacity i : ℕ) (b : UInt8) : Checked Bytes Empty Unit := do
  check (i < capacity)
  modify fun output => output.set i b

/-- `hex`. -/
def updateHex : Bytes := ascii "0123456789ABCDEF"

/-- The loop over the text, with `used`. -/
def updateEncodeLoop (capacity : ℕ) : Bytes → ℕ → Checked Bytes Empty Bool
  | [], used => do
    encodePut capacity used 0
    return true
  | value :: text, used =>
    if isUnreserved value then
      if used + 1 ≥ capacity then do
        encodePut capacity 0 0
        return false
      else do
        encodePut capacity used value
        updateEncodeLoop capacity text (used + 1)
    else if used + 3 ≥ capacity then do
      encodePut capacity 0 0
      return false
    else do
      encodePut capacity used 37
      encodePut capacity (used + 1) (updateHex.at' (value >>> 4).toNat)
      encodePut capacity (used + 2) (updateHex.at' (value &&& 15).toNat)
      updateEncodeLoop capacity text (used + 3)

/-- `v9x_update_url_encode`. -/
def updateEncodeRun (text : Bytes) (capacity : ℕ) : Checked Bytes Empty Bool :=
  if capacity = 0 then return false
  else do
    encodePut capacity 0 0
    updateEncodeLoop capacity text 0

/-! ## Decoding in place -/

/-- The buffer, with `in` and `out`. -/
structure RtBuffer where
  text : Bytes
  input : ℕ
  output : ℕ
deriving DecidableEq, Repr

/-- `text[i]`. -/
def rtByte (i : ℕ) : Checked RtBuffer Empty UInt8 := do
  let buffer ← get
  check (i < buffer.text.length)
  return buffer.text.at' i

/-- `text[out] = b`. -/
def rtPut (b : UInt8) : Checked RtBuffer Empty Unit := do
  let buffer ← get
  check (buffer.output < buffer.text.length)
  modify fun buffer => { buffer with text := buffer.text.set buffer.output b }

/-- The byte of the `%XX` at a position that holds `ch`, if there is one. -/
def rtTriplet (ch : UInt8) (i : ℕ) : Checked RtBuffer Empty (Option UInt8) :=
  if ch ≠ 37 then return none
  else do
    let high ← rtByte (i + 1)
    match rtHex high with
    | none => return none
    | some high =>
      let low ← rtByte (i + 2)
      match rtHex low with
      | none => return none
      | some low => return some ((high <<< 4) ||| low)

/-- One turn of the loop. -/
def rtDecodeTurn (_ : Unit) : Checked RtBuffer Empty (Unit ⊕ Unit) := do
  let buffer ← get
  let ch ← rtByte buffer.input
  if ch = 0 then
    rtPut 0
    return .inr ()
  else
    let triplet ← rtTriplet ch buffer.input
    modify fun buffer => { buffer with input := buffer.input + if triplet.isSome then 3 else 1 }
    if !rtKeeps (triplet.getD ch) then return .inl ()
    else
      rtPut (triplet.getD ch)
      modify fun buffer => { buffer with output := buffer.output + 1 }
      return .inl ()

/-- `v9x_rt_decode`. -/
def rtDecodeRun : Checked RtBuffer Empty Unit := do
  modify fun buffer => { buffer with input := 0, output := 0 }
  loop (fun buffer => buffer.text.length - buffer.input) rtDecodeTurn ()

end V9xRemote
