import V9xRemote.Lib.Bytes

/-!
# SHA-512 (`src/common/sha512.c`)

A 64-bit word is a pair of 32-bit halves, added with a carry by hand. The streaming context is
that of SHA-256 with wider words and blocks of 128 bytes.
-/

namespace V9xRemote

open Bytes

/-- `struct v9x_sha512_word`. -/
structure Sha512Word where
  hi : UInt32
  lo : UInt32
deriving DecidableEq, Repr

def sha512K : List Sha512Word :=
  [⟨0x428A2F98, 0xD728AE22⟩, ⟨0x71374491, 0x23EF65CD⟩, ⟨0xB5C0FBCF, 0xEC4D3B2F⟩, ⟨0xE9B5DBA5, 0x8189DBBC⟩,
   ⟨0x3956C25B, 0xF348B538⟩, ⟨0x59F111F1, 0xB605D019⟩, ⟨0x923F82A4, 0xAF194F9B⟩, ⟨0xAB1C5ED5, 0xDA6D8118⟩,
   ⟨0xD807AA98, 0xA3030242⟩, ⟨0x12835B01, 0x45706FBE⟩, ⟨0x243185BE, 0x4EE4B28C⟩, ⟨0x550C7DC3, 0xD5FFB4E2⟩,
   ⟨0x72BE5D74, 0xF27B896F⟩, ⟨0x80DEB1FE, 0x3B1696B1⟩, ⟨0x9BDC06A7, 0x25C71235⟩, ⟨0xC19BF174, 0xCF692694⟩,
   ⟨0xE49B69C1, 0x9EF14AD2⟩, ⟨0xEFBE4786, 0x384F25E3⟩, ⟨0x0FC19DC6, 0x8B8CD5B5⟩, ⟨0x240CA1CC, 0x77AC9C65⟩,
   ⟨0x2DE92C6F, 0x592B0275⟩, ⟨0x4A7484AA, 0x6EA6E483⟩, ⟨0x5CB0A9DC, 0xBD41FBD4⟩, ⟨0x76F988DA, 0x831153B5⟩,
   ⟨0x983E5152, 0xEE66DFAB⟩, ⟨0xA831C66D, 0x2DB43210⟩, ⟨0xB00327C8, 0x98FB213F⟩, ⟨0xBF597FC7, 0xBEEF0EE4⟩,
   ⟨0xC6E00BF3, 0x3DA88FC2⟩, ⟨0xD5A79147, 0x930AA725⟩, ⟨0x06CA6351, 0xE003826F⟩, ⟨0x14292967, 0x0A0E6E70⟩,
   ⟨0x27B70A85, 0x46D22FFC⟩, ⟨0x2E1B2138, 0x5C26C926⟩, ⟨0x4D2C6DFC, 0x5AC42AED⟩, ⟨0x53380D13, 0x9D95B3DF⟩,
   ⟨0x650A7354, 0x8BAF63DE⟩, ⟨0x766A0ABB, 0x3C77B2A8⟩, ⟨0x81C2C92E, 0x47EDAEE6⟩, ⟨0x92722C85, 0x1482353B⟩,
   ⟨0xA2BFE8A1, 0x4CF10364⟩, ⟨0xA81A664B, 0xBC423001⟩, ⟨0xC24B8B70, 0xD0F89791⟩, ⟨0xC76C51A3, 0x0654BE30⟩,
   ⟨0xD192E819, 0xD6EF5218⟩, ⟨0xD6990624, 0x5565A910⟩, ⟨0xF40E3585, 0x5771202A⟩, ⟨0x106AA070, 0x32BBD1B8⟩,
   ⟨0x19A4C116, 0xB8D2D0C8⟩, ⟨0x1E376C08, 0x5141AB53⟩, ⟨0x2748774C, 0xDF8EEB99⟩, ⟨0x34B0BCB5, 0xE19B48A8⟩,
   ⟨0x391C0CB3, 0xC5C95A63⟩, ⟨0x4ED8AA4A, 0xE3418ACB⟩, ⟨0x5B9CCA4F, 0x7763E373⟩, ⟨0x682E6FF3, 0xD6B2B8A3⟩,
   ⟨0x748F82EE, 0x5DEFB2FC⟩, ⟨0x78A5636F, 0x43172F60⟩, ⟨0x84C87814, 0xA1F0AB72⟩, ⟨0x8CC70208, 0x1A6439EC⟩,
   ⟨0x90BEFFFA, 0x23631E28⟩, ⟨0xA4506CEB, 0xDE82BDE9⟩, ⟨0xBEF9A3F7, 0xB2C67915⟩, ⟨0xC67178F2, 0xE372532B⟩,
   ⟨0xCA273ECE, 0xEA26619C⟩, ⟨0xD186B8C7, 0x21C0C207⟩, ⟨0xEADA7DD6, 0xCDE0EB1E⟩, ⟨0xF57D4F7F, 0xEE6ED178⟩,
   ⟨0x06F067AA, 0x72176FBA⟩, ⟨0x0A637DC5, 0xA2C898A6⟩, ⟨0x113F9804, 0xBEF90DAE⟩, ⟨0x1B710B35, 0x131C471B⟩,
   ⟨0x28DB77F5, 0x23047D84⟩, ⟨0x32CAAB7B, 0x40C72493⟩, ⟨0x3C9EBE0A, 0x15C9BEBC⟩, ⟨0x431D67C4, 0x9C100D4C⟩,
   ⟨0x4CC5D4BE, 0xCB3E42B6⟩, ⟨0x597F299C, 0xFC657E2A⟩, ⟨0x5FCB6FAB, 0x3AD6FAEC⟩, ⟨0x6C44198C, 0x4A475817⟩]

/-- The eight hash words, and the eight working variables of a block. -/
structure Sha512Words where
  a : Sha512Word
  b : Sha512Word
  c : Sha512Word
  d : Sha512Word
  e : Sha512Word
  f : Sha512Word
  g : Sha512Word
  h : Sha512Word
deriving DecidableEq, Repr

def Sha512Words.toList (s : Sha512Words) : List Sha512Word := [s.a, s.b, s.c, s.d, s.e, s.f, s.g, s.h]

def sha512H0 : Sha512Words :=
  ⟨⟨0x6A09E667, 0xF3BCC908⟩, ⟨0xBB67AE85, 0x84CAA73B⟩, ⟨0x3C6EF372, 0xFE94F82B⟩, ⟨0xA54FF53A, 0x5F1D36F1⟩,
    ⟨0x510E527F, 0xADE682D1⟩, ⟨0x9B05688C, 0x2B3E6C1F⟩, ⟨0x1F83D9AB, 0xFB41BD6B⟩, ⟨0x5BE0CD19, 0x137E2179⟩⟩

/-- `v9x_sha512_add`. -/
def sha512Add (x y : Sha512Word) : Sha512Word :=
  let lo := x.lo + y.lo
  let hi := x.hi + y.hi
  ⟨if lo < x.lo then hi + 1 else hi, lo⟩

/-- `v9x_sha512_rotr`. -/
def sha512Rotr (x : Sha512Word) (bits : UInt32) : Sha512Word :=
  let (x, bits) := if bits > 32 then (Sha512Word.mk x.lo x.hi, bits - 32) else (x, bits)
  ⟨(x.hi >>> bits) ||| (x.lo <<< (32 - bits)), (x.lo >>> bits) ||| (x.hi <<< (32 - bits))⟩

/-- `v9x_sha512_shr`. -/
def sha512Shr (x : Sha512Word) (bits : UInt32) : Sha512Word :=
  ⟨x.hi >>> bits, (x.lo >>> bits) ||| (x.hi <<< (32 - bits))⟩

def sha512Xor3 (x y z : Sha512Word) : Sha512Word := ⟨x.hi ^^^ y.hi ^^^ z.hi, x.lo ^^^ y.lo ^^^ z.lo⟩

def sha512Ch (x y z : Sha512Word) : Sha512Word :=
  ⟨(x.hi &&& y.hi) ^^^ (~~~x.hi &&& z.hi), (x.lo &&& y.lo) ^^^ (~~~x.lo &&& z.lo)⟩

def sha512Maj (x y z : Sha512Word) : Sha512Word :=
  ⟨(x.hi &&& y.hi) ^^^ (x.hi &&& z.hi) ^^^ (y.hi &&& z.hi), (x.lo &&& y.lo) ^^^ (x.lo &&& z.lo) ^^^ (y.lo &&& z.lo)⟩

def sha512BigSigma0 (x : Sha512Word) : Sha512Word := sha512Xor3 (sha512Rotr x 28) (sha512Rotr x 34) (sha512Rotr x 39)

def sha512BigSigma1 (x : Sha512Word) : Sha512Word := sha512Xor3 (sha512Rotr x 14) (sha512Rotr x 18) (sha512Rotr x 41)

def sha512SmallSigma0 (x : Sha512Word) : Sha512Word := sha512Xor3 (sha512Rotr x 1) (sha512Rotr x 8) (sha512Shr x 7)

def sha512SmallSigma1 (x : Sha512Word) : Sha512Word := sha512Xor3 (sha512Rotr x 19) (sha512Rotr x 61) (sha512Shr x 6)

/-- `v9x_sha512_load32`, at an offset of a block. -/
def sha512Load32 (block : Bytes) (i : ℕ) : UInt32 :=
  ((block.at' i).toUInt32 <<< 24) ||| ((block.at' (i + 1)).toUInt32 <<< 16) |||
    ((block.at' (i + 2)).toUInt32 <<< 8) ||| (block.at' (i + 3)).toUInt32

/-- The word at byte offset `8 * i` of a block. -/
def sha512Word (block : Bytes) (i : ℕ) : Sha512Word := ⟨sha512Load32 block (8 * i), sha512Load32 block (8 * i + 4)⟩

/-- `n` more words of the message schedule. -/
def sha512Extend : ℕ → List Sha512Word → List Sha512Word
  | 0, w => w
  | n + 1, w =>
    let i := w.length
    sha512Extend n (w ++ [sha512Add
      (sha512Add (sha512SmallSigma1 (w.getD (i - 2) ⟨0, 0⟩)) (w.getD (i - 7) ⟨0, 0⟩))
      (sha512Add (sha512SmallSigma0 (w.getD (i - 15) ⟨0, 0⟩)) (w.getD (i - 16) ⟨0, 0⟩))])

def sha512Schedule (block : Bytes) : List Sha512Word := sha512Extend 64 ((List.range 16).map (sha512Word block))

/-- One of the 80 rounds, with its constant and schedule word. -/
def sha512Round (v : Sha512Words) (kw : Sha512Word × Sha512Word) : Sha512Words :=
  let t1 := sha512Add (sha512Add v.h (sha512BigSigma1 v.e)) (sha512Add (sha512Ch v.e v.f v.g) (sha512Add kw.1 kw.2))
  let t2 := sha512Add (sha512BigSigma0 v.a) (sha512Maj v.a v.b v.c)
  ⟨sha512Add t1 t2, v.a, v.b, v.c, sha512Add v.d t1, v.e, v.f, v.g⟩

/-- `v9x_sha512_block`. -/
def sha512Block (state : Sha512Words) (block : Bytes) : Sha512Words :=
  let v := (sha512K.zip (sha512Schedule block)).foldl sha512Round state
  ⟨sha512Add state.a v.a, sha512Add state.b v.b, sha512Add state.c v.c, sha512Add state.d v.d,
    sha512Add state.e v.e, sha512Add state.f v.f, sha512Add state.g v.g, sha512Add state.h v.h⟩

/-- `struct v9x_sha512`; `buffer` holds the `buffered` bytes of the open block. -/
structure Sha512 where
  state : Sha512Words
  countLo : UInt32
  countHi : UInt32
  buffer : Bytes
deriving DecidableEq, Repr

def sha512Init : Sha512 := ⟨sha512H0, 0, 0, []⟩

/-- One byte into the block buffer; a full block is processed at once. -/
def sha512Push (ctx : Sha512) (byte : UInt8) : Sha512 :=
  let buffer := ctx.buffer ++ [byte]
  if buffer.length = 128 then { ctx with state := sha512Block ctx.state buffer, buffer := [] }
  else { ctx with buffer := buffer }

def sha512Update (ctx : Sha512) (data : Bytes) : Sha512 :=
  let length := UInt32.ofNat data.length
  let countLo := ctx.countLo + length
  let countHi := if countLo < length then ctx.countHi + 1 else ctx.countHi
  data.foldl sha512Push { ctx with countLo := countLo, countHi := countHi }

/-- The big-endian bytes of a half. -/
def sha512Bytes (w : UInt32) : Bytes := [(w >>> 24).toUInt8, (w >>> 16).toUInt8, (w >>> 8).toUInt8, w.toUInt8]

def sha512Final (ctx : Sha512) : Bytes :=
  let bitsTop := ctx.countHi >>> 29
  let bitsHi := (ctx.countHi <<< 3) ||| (ctx.countLo >>> 29)
  let bitsLo := ctx.countLo <<< 3
  let buffer := ctx.buffer ++ [0x80]
  -- the padding spills into a further block when fewer than 16 bytes remain
  let (state, buffer) :=
    if buffer.length > 112 then (sha512Block ctx.state (buffer ++ List.replicate (128 - buffer.length) 0), [])
    else (ctx.state, buffer)
  let last := buffer ++ List.replicate (116 - buffer.length) 0 ++ sha512Bytes bitsTop ++ sha512Bytes bitsHi ++
    sha512Bytes bitsLo
  (sha512Block state last).toList.flatMap fun w => sha512Bytes w.hi ++ sha512Bytes w.lo

end V9xRemote
