import Mathlib.Logic.Function.Basic
import V9xRemote.Lib.Bytes

/-!
# The Deflate encoder of the VNC server (`src/guest/vncz.c`)

One fixed-Huffman block over each input, and a sync flush behind it. The hash table is the
caller's and keeps what the last call left until the next one clears it; an entry is a
position plus one.
-/

namespace V9xRemote

open Bytes

def vncLengthBase : List ℕ :=
  [3, 4, 5, 6, 7, 8, 9, 10, 11, 13, 15, 17, 19, 23, 27, 31,
    35, 43, 51, 59, 67, 83, 99, 115, 131, 163, 195, 227, 258]

def vncLengthExtra : List ℕ :=
  [0, 0, 0, 0, 0, 0, 0, 0, 1, 1, 1, 1, 2, 2, 2, 2,
    3, 3, 3, 3, 4, 4, 4, 4, 5, 5, 5, 5, 0]

def vncDistanceBase : List ℕ :=
  [1, 2, 3, 4, 5, 7, 9, 13, 17, 25, 33, 49, 65, 97, 129, 193,
    257, 385, 513, 769, 1025, 1537, 2049, 3073, 4097, 6145, 8193, 12289,
    16385, 24577]

def vncDistanceExtra : List ℕ :=
  [0, 0, 0, 0, 1, 1, 2, 2, 3, 3, 4, 4, 5, 5, 6, 6,
    7, 7, 8, 8, 9, 9, 10, 10, 11, 11, 12, 12, 13, 13]

/-- `VncBits`, with the bytes written so far. -/
structure VncBits where
  out : Bytes
  capacity : ℕ
  bits : ℕ
  count : ℕ
  failed : Bool
deriving DecidableEq, Repr

namespace VncBits

/-- Whole bytes go out. -/
def drain (sink : VncBits) : VncBits :=
  if _h : sink.count ≥ 8 then
    if sink.out.length ≥ sink.capacity then { sink with failed := true, count := 0, bits := 0 }
    else
      drain
        { sink with
          out := sink.out ++ [UInt8.ofNat (sink.bits &&& 0xff)]
          bits := sink.bits >>> 8
          count := sink.count - 8 }
  else sink
termination_by sink.count

/-- `vnc_bits_put`. -/
def put (sink : VncBits) (value count : ℕ) : VncBits :=
  drain { sink with bits := sink.bits ||| (value <<< sink.count), count := sink.count + count }

/-- The lowest bits of a code, turned round. -/
def reversed : ℕ → ℕ → ℕ → ℕ
  | 0, _, acc => acc
  | count + 1, code, acc => reversed count (code >>> 1) ((acc <<< 1) ||| (code &&& 1))

/-- `vnc_bits_code`. -/
def code (sink : VncBits) (code count : ℕ) : VncBits := sink.put (reversed count code 0) count

/-- `vnc_symbol`. -/
def symbol (sink : VncBits) (symbol : ℕ) : VncBits :=
  if symbol < 144 then sink.code (0x30 + symbol) 8
  else if symbol < 256 then sink.code (0x190 + symbol - 144) 9
  else if symbol < 280 then sink.code (symbol - 256) 7
  else sink.code (0xc0 + symbol - 280) 8

end VncBits

/-- The last entry of a table, from an index down, that is not above a value. -/
def vncIndex (table : List ℕ) (value : ℕ) : ℕ → ℕ
  | 0 => 0
  | index + 1 => if table.getD (index + 1) 0 > value then vncIndex table value index else index + 1

/-- `vnc_match`. -/
def vncMatch (sink : VncBits) (length distance : ℕ) : VncBits :=
  let index := vncIndex vncLengthBase length 28
  let sink := sink.symbol (257 + index)
  let sink := sink.put (length - vncLengthBase.getD index 0) (vncLengthExtra.getD index 0)
  let index := vncIndex vncDistanceBase distance 29
  let sink := sink.code index 5
  sink.put (distance - vncDistanceBase.getD index 0) (vncDistanceExtra.getD index 0)

def vncDeflateHashSize : ℕ := 4096

/-- `vnc_hash3`, at a position. -/
def vncHash3 (input : Bytes) (position : ℕ) : ℕ :=
  ((((input.at' position).toNat <<< 8) ||| (input.at' (position + 1)).toNat) ^^^
    ((input.at' (position + 2)).toNat <<< 4)) &&& (vncDeflateHashSize - 1)

/-- How many bytes at two positions are the same, up to a limit. -/
def vncRun (input : Bytes) (start position limit : ℕ) : ℕ :=
  ((List.range limit).takeWhile fun run => input.at' (start + run) == input.at' (position + run)).length

/-- The match at a position: the hash table behind it, its length (0 where there is none) and
its distance. -/
def vncBest (input : Bytes) (head : ℕ → ℕ) (position : ℕ) : (ℕ → ℕ) × ℕ × ℕ :=
  if position + 3 ≤ input.length then
    let hash := vncHash3 input position
    let candidate := head hash
    let head := Function.update head hash (position + 1)
    if candidate ≠ 0 ∧ position - (candidate - 1) ≤ 32768 then
      let start := candidate - 1
      let limit := if input.length - position > 258 then 258 else input.length - position
      let run := vncRun input start position limit
      if run ≥ 3 then (head, run, position - start) else (head, 0, 0)
    else (head, 0, 0)
  else (head, 0, 0)

/-- The positions inside a match go into the hash table too. -/
def vncInsert (input : Bytes) (head : ℕ → ℕ) (position best : ℕ) : ℕ → ℕ :=
  (List.range' 1 (best - 1)).foldl
    (fun head step =>
      if position + step + 3 ≤ input.length then
        Function.update head (vncHash3 input (position + step)) (position + step + 1)
      else head)
    head

/-- The loop of `vnc_deflate_sync`. -/
def vncCompress (input : Bytes) (sink : VncBits) (head : ℕ → ℕ) (position : ℕ) : VncBits × (ℕ → ℕ) :=
  if _h : position < input.length ∧ sink.failed = false then
    let (head, best, distance) := vncBest input head position
    if _hbest : best ≠ 0 then
      vncCompress input (vncMatch sink best distance) (vncInsert input head position best) (position + best)
    else vncCompress input (sink.symbol (input.at' position).toNat) head (position + 1)
  else (sink, head)
termination_by input.length - position

/-- `VncDeflate`. -/
structure VncDeflate where
  headerWritten : Bool
  head : ℕ → ℕ

/-- `vnc_deflate_init`. -/
def vncDeflateInit (head : ℕ → ℕ) : VncDeflate := ⟨false, head⟩

/-- The sync flush. -/
def vncFlush (sink : VncBits) : VncBits :=
  let sink := sink.symbol 256
  let sink := sink.put 0 3
  let sink := if sink.count > 0 then sink.put 0 (8 - sink.count) else sink
  (sink.put 0 16).put 0xffff 16

/-- The header, where it is due. -/
def vncHeader (headerWritten : Bool) (sink : VncBits) : VncBits :=
  if headerWritten then sink else (sink.put 0x78 8).put 0x01 8

/-- `vnc_deflate_sync`: the bytes written, where the capacity was enough. -/
def vncDeflateSync (stream : VncDeflate) (input : Bytes) (capacity : ℕ) : VncDeflate × Option Bytes :=
  let sink : VncBits := ⟨[], capacity, 0, 0, false⟩
  let sink := vncHeader stream.headerWritten sink
  let sink := (sink.put 0 1).put 1 2
  let head := fun index => if index < vncDeflateHashSize then 0 else stream.head index
  let (sink, head) := vncCompress input sink head 0
  let sink := vncFlush sink
  (⟨true, head⟩, if sink.failed then none else some sink.out)

/-- `vnc_deflate_bound`. -/
def vncDeflateBound (length : UInt32) : UInt32 := length + length / 8 + 16

/-- Successive calls on one stream, each successful. -/
def vncDeflateCalls : VncDeflate → List (Bytes × ℕ) → Option (List Bytes)
  | _, [] => some []
  | stream, (input, capacity) :: calls => do
    let out ← (vncDeflateSync stream input capacity).2
    let outs ← vncDeflateCalls (vncDeflateSync stream input capacity).1 calls
    return out :: outs

end V9xRemote
