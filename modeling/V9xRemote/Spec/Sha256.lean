import V9xRemote.Lib.Bytes

/-!
# SHA-256 (`src/common/sha256.c`)

A streaming context: hash words, a 64-bit byte count in two halves and the bytes
of the block not yet complete. Words are `UInt32`, so the source's masks to 32
bits are the type's own wrap-around.
-/

namespace V9xRemote

open Bytes

/-- The eight hash words, and the eight working variables of a block. -/
structure Sha256Words where
  a : UInt32
  b : UInt32
  c : UInt32
  d : UInt32
  e : UInt32
  f : UInt32
  g : UInt32
  h : UInt32
deriving DecidableEq, Repr

def Sha256Words.toList (s : Sha256Words) : List UInt32 := [s.a, s.b, s.c, s.d, s.e, s.f, s.g, s.h]

/-- `struct v9x_sha256`; `buffer` holds the `buffered` bytes of the open block. -/
structure Sha256 where
  state : Sha256Words
  countLo : UInt32
  countHi : UInt32
  buffer : Bytes
deriving DecidableEq, Repr

def sha256K : List UInt32 :=
  [0x428A2F98, 0x71374491, 0xB5C0FBCF, 0xE9B5DBA5, 0x3956C25B, 0x59F111F1, 0x923F82A4, 0xAB1C5ED5,
   0xD807AA98, 0x12835B01, 0x243185BE, 0x550C7DC3, 0x72BE5D74, 0x80DEB1FE, 0x9BDC06A7, 0xC19BF174,
   0xE49B69C1, 0xEFBE4786, 0x0FC19DC6, 0x240CA1CC, 0x2DE92C6F, 0x4A7484AA, 0x5CB0A9DC, 0x76F988DA,
   0x983E5152, 0xA831C66D, 0xB00327C8, 0xBF597FC7, 0xC6E00BF3, 0xD5A79147, 0x06CA6351, 0x14292967,
   0x27B70A85, 0x2E1B2138, 0x4D2C6DFC, 0x53380D13, 0x650A7354, 0x766A0ABB, 0x81C2C92E, 0x92722C85,
   0xA2BFE8A1, 0xA81A664B, 0xC24B8B70, 0xC76C51A3, 0xD192E819, 0xD6990624, 0xF40E3585, 0x106AA070,
   0x19A4C116, 0x1E376C08, 0x2748774C, 0x34B0BCB5, 0x391C0CB3, 0x4ED8AA4A, 0x5B9CCA4F, 0x682E6FF3,
   0x748F82EE, 0x78A5636F, 0x84C87814, 0x8CC70208, 0x90BEFFFA, 0xA4506CEB, 0xBEF9A3F7, 0xC67178F2]

def sha256H0 : Sha256Words :=
  ⟨0x6A09E667, 0xBB67AE85, 0x3C6EF372, 0xA54FF53A,
    0x510E527F, 0x9B05688C, 0x1F83D9AB, 0x5BE0CD19⟩

def sha256Rotr (value bits : UInt32) : UInt32 := (value >>> bits) ||| (value <<< (32 - bits))

def sha256Ch (x y z : UInt32) : UInt32 := (x &&& y) ^^^ (~~~x &&& z)

def sha256Maj (x y z : UInt32) : UInt32 := (x &&& y) ^^^ (x &&& z) ^^^ (y &&& z)

def sha256BigSigma0 (x : UInt32) : UInt32 := sha256Rotr x 2 ^^^ sha256Rotr x 13 ^^^ sha256Rotr x 22

def sha256BigSigma1 (x : UInt32) : UInt32 := sha256Rotr x 6 ^^^ sha256Rotr x 11 ^^^ sha256Rotr x 25

def sha256SmallSigma0 (x : UInt32) : UInt32 := sha256Rotr x 7 ^^^ sha256Rotr x 18 ^^^ (x >>> 3)

def sha256SmallSigma1 (x : UInt32) : UInt32 := sha256Rotr x 17 ^^^ sha256Rotr x 19 ^^^ (x >>> 10)

/-- The big-endian word at byte offset `4 * i` of a block. -/
def sha256Word (block : Bytes) (i : ℕ) : UInt32 :=
  ((block.at' (4 * i)).toUInt32 <<< 24) ||| ((block.at' (4 * i + 1)).toUInt32 <<< 16) |||
    ((block.at' (4 * i + 2)).toUInt32 <<< 8) ||| (block.at' (4 * i + 3)).toUInt32

/-- `n` more words of the message schedule. -/
def sha256Extend : ℕ → List UInt32 → List UInt32
  | 0, w => w
  | n + 1, w =>
    let i := w.length
    sha256Extend n (w ++ [sha256SmallSigma1 (w.getD (i - 2) 0) + w.getD (i - 7) 0 +
      sha256SmallSigma0 (w.getD (i - 15) 0) + w.getD (i - 16) 0])

def sha256Schedule (block : Bytes) : List UInt32 :=
  sha256Extend 48 ((List.range 16).map (sha256Word block))

/-- One of the 64 rounds, with its constant and schedule word. -/
def sha256Round (s : Sha256Words) (kw : UInt32 × UInt32) : Sha256Words :=
  let t1 := s.h + sha256BigSigma1 s.e + sha256Ch s.e s.f s.g + kw.1 + kw.2
  let t2 := sha256BigSigma0 s.a + sha256Maj s.a s.b s.c
  ⟨t1 + t2, s.a, s.b, s.c, s.d + t1, s.e, s.f, s.g⟩

def sha256Block (state : Sha256Words) (block : Bytes) : Sha256Words :=
  let r := (sha256K.zip (sha256Schedule block)).foldl sha256Round state
  ⟨state.a + r.a, state.b + r.b, state.c + r.c, state.d + r.d, state.e + r.e, state.f + r.f,
    state.g + r.g, state.h + r.h⟩

def sha256Init : Sha256 := ⟨sha256H0, 0, 0, []⟩

/-- One byte into the block buffer; a full block is processed at once. -/
def sha256Push (ctx : Sha256) (byte : UInt8) : Sha256 :=
  let buffer := ctx.buffer ++ [byte]
  if buffer.length = 64 then { ctx with state := sha256Block ctx.state buffer, buffer := [] }
  else { ctx with buffer := buffer }

def sha256Update (ctx : Sha256) (data : Bytes) : Sha256 :=
  let length := UInt32.ofNat data.length
  let countLo := ctx.countLo + length
  let countHi := if countLo < length then ctx.countHi + 1 else ctx.countHi
  data.foldl sha256Push { ctx with countLo := countLo, countHi := countHi }

/-- The big-endian bytes of a word. -/
def sha256Bytes (w : UInt32) : Bytes :=
  [(w >>> 24).toUInt8, (w >>> 16).toUInt8, (w >>> 8).toUInt8, w.toUInt8]

def sha256Final (ctx : Sha256) : Bytes :=
  let bitsHi := (ctx.countHi <<< 3) ||| (ctx.countLo >>> 29)
  let bitsLo := ctx.countLo <<< 3
  let buffer := ctx.buffer ++ [0x80]
  -- the padding spills into a further block when fewer than 8 bytes remain
  let (state, buffer) :=
    if buffer.length > 56 then
      (sha256Block ctx.state (buffer ++ List.replicate (64 - buffer.length) 0), [])
    else (ctx.state, buffer)
  let last := buffer ++ List.replicate (56 - buffer.length) 0 ++ sha256Bytes bitsHi ++ sha256Bytes bitsLo
  (sha256Block state last).toList.flatMap sha256Bytes

/-- The digest of one byte string, as every caller of the module computes it. -/
def sha256 (data : Bytes) : Bytes := sha256Final (sha256Update sha256Init data)

@[simp] theorem sha256Final_length (ctx : Sha256) : (sha256Final ctx).length = 32 := by
  simp [sha256Final, Sha256Words.toList, sha256Bytes]

@[simp] theorem sha256_length (data : Bytes) : (sha256 data).length = 32 := sha256Final_length _

end V9xRemote
