import V9xRemote.Lib.Blocks

/-!
# SHA-512 as FIPS 180-4 defines it

Words are 64 bits wide. The constants are the first 64 bits of the fractional parts of cube
roots and of square roots of primes, and are computed as such.
-/

namespace Fips

open Bytes Blocks

/-! ## Constants -/

/-- The largest `r < 2 ^ bits` with `r ^ e ≤ n`, bit by bit. -/
def rootFrom (e n : ℕ) : ℕ → ℕ → ℕ
  | 0, r => r
  | bits + 1, r => rootFrom e n bits (if (r + 2 ^ bits) ^ e ≤ n then r + 2 ^ bits else r)

/-- The first 64 bits of the fractional part of the `e`-th root of a small number. -/
def rootFraction (e p : ℕ) : UInt64 := UInt64.ofNat (rootFrom e (p * 2 ^ (64 * e)) 72 0)

def primes : List ℕ :=
  [2, 3, 5, 7, 11, 13, 17, 19, 23, 29, 31, 37, 41, 43, 47, 53, 59, 61, 67, 71, 73, 79, 83, 89, 97, 101, 103, 107, 109,
    113, 127, 131, 137, 139, 149, 151, 157, 163, 167, 173, 179, 181, 191, 193, 197, 199, 211, 223, 227, 229, 233, 239,
    241, 251, 257, 263, 269, 271, 277, 281, 283, 293, 307, 311, 313, 317, 331, 337, 347, 349, 353, 359, 367, 373, 379,
    383, 389, 397, 401, 409]

/-- Section 4.2.3. -/
def k : List UInt64 := primes.map (rootFraction 3)

/-! ## Functions -/

/-- `ROTR^n`. -/
def rotr (x n : UInt64) : UInt64 := (x >>> n) ||| (x <<< (64 - n))

def ch (x y z : UInt64) : UInt64 := (x &&& y) ^^^ (~~~x &&& z)

def maj (x y z : UInt64) : UInt64 := (x &&& y) ^^^ (x &&& z) ^^^ (y &&& z)

def bigSigma0 (x : UInt64) : UInt64 := rotr x 28 ^^^ rotr x 34 ^^^ rotr x 39

def bigSigma1 (x : UInt64) : UInt64 := rotr x 14 ^^^ rotr x 18 ^^^ rotr x 41

def smallSigma0 (x : UInt64) : UInt64 := rotr x 1 ^^^ rotr x 8 ^^^ (x >>> 7)

def smallSigma1 (x : UInt64) : UInt64 := rotr x 19 ^^^ rotr x 61 ^^^ (x >>> 6)

/-! ## The hash -/

structure State where
  a : UInt64
  b : UInt64
  c : UInt64
  d : UInt64
  e : UInt64
  f : UInt64
  g : UInt64
  h : UInt64
deriving DecidableEq, Repr

def State.toList (s : State) : List UInt64 := [s.a, s.b, s.c, s.d, s.e, s.f, s.g, s.h]

/-- Section 5.3.5. -/
def h0 : State :=
  ⟨rootFraction 2 2, rootFraction 2 3, rootFraction 2 5, rootFraction 2 7, rootFraction 2 11, rootFraction 2 13,
    rootFraction 2 17, rootFraction 2 19⟩

/-- A big-endian number. -/
def beNat (s : Bytes) : ℕ := s.foldl (fun n b => 256 * n + b.toNat) 0

/-- Word `i` of a block. -/
def word (block : Bytes) (i : ℕ) : UInt64 := UInt64.ofNat (beNat ((List.range 8).map fun j => block.at' (8 * i + j)))

/-- `n` more words of the message schedule. -/
def extend : ℕ → List UInt64 → List UInt64
  | 0, w => w
  | n + 1, w =>
    let i := w.length
    extend n (w ++ [smallSigma1 (w.getD (i - 2) 0) + w.getD (i - 7) 0 + smallSigma0 (w.getD (i - 15) 0) +
      w.getD (i - 16) 0])

def schedule (block : Bytes) : List UInt64 := extend 64 ((List.range 16).map (word block))

def round (v : State) (kw : UInt64 × UInt64) : State :=
  let t1 := v.h + bigSigma1 v.e + ch v.e v.f v.g + kw.1 + kw.2
  let t2 := bigSigma0 v.a + maj v.a v.b v.c
  ⟨t1 + t2, v.a, v.b, v.c, v.d + t1, v.e, v.f, v.g⟩

/-- Section 6.4.2. -/
def compress (s : State) (block : Bytes) : State :=
  let v := (k.zip (schedule block)).foldl round s
  ⟨s.a + v.a, s.b + v.b, s.c + v.c, s.d + v.d, s.e + v.e, s.f + v.f, s.g + v.g, s.h + v.h⟩

/-- A number as `n` big-endian bytes. -/
def beBytes : ℕ → ℕ → Bytes
  | 0, _ => []
  | n + 1, v => beBytes n (v / 256) ++ [UInt8.ofNat v]

@[simp] theorem beBytes_length (n v : ℕ) : (beBytes n v).length = n := by
  induction n generalizing v with
  | zero => rfl
  | succ n ih => rw [beBytes, List.length_append, ih, List.length_singleton]

/-- The upper and the lower bytes. -/
theorem beBytes_add (m n v : ℕ) : beBytes (m + n) v = beBytes m (v / 256 ^ n) ++ beBytes n v := by
  induction n generalizing v with
  | zero => rw [pow_zero, Nat.div_one, beBytes, List.append_nil, Nat.add_zero]
  | succ n ih => rw [← Nat.add_assoc, beBytes, beBytes, ih, Nat.div_div_eq_div_mul, ← pow_succ', List.append_assoc]

/-- Section 5.1.2: one bit, zeros, and the length in bits as 128 bits. -/
def padding (length : ℕ) : Bytes :=
  0x80 :: (List.replicate ((239 - length % 128) % 128) 0 ++ beBytes 16 (8 * length))

def State.digest (s : State) : Bytes := s.toList.flatMap fun w => beBytes 8 w.toNat

theorem State.digest_length (s : State) : s.digest.length = 64 := by
  unfold State.digest State.toList
  simp

/-- **SHA-512.** -/
def sha512 (message : Bytes) : Bytes := (foldBlocks 128 compress h0 (message ++ padding message.length)).digest

theorem sha512_length (message : Bytes) : (sha512 message).length = 64 := State.digest_length _

end Fips

/-!
# SHA-256 as FIPS 180-4 defines it

The same construction with words of 32 bits: 64 rounds over blocks of 64 bytes, and constants
that are the first 32 bits of the roots' fractional parts.
-/

namespace Fips256

open Bytes Blocks
open Fips (beNat beBytes primes)

/-! ## Constants -/

/-- The first 32 bits of the fractional part of the `e`-th root of a small number. -/
def rootFraction (e p : ℕ) : UInt32 := UInt32.ofNat ((Fips.rootFraction e p).toNat / 2 ^ 32)

/-- Section 4.2.2. -/
def k : List UInt32 := (primes.take 64).map (rootFraction 3)

/-! ## Functions -/

/-- `ROTR^n`. -/
def rotr (x n : UInt32) : UInt32 := (x >>> n) ||| (x <<< (32 - n))

def ch (x y z : UInt32) : UInt32 := (x &&& y) ^^^ (~~~x &&& z)

def maj (x y z : UInt32) : UInt32 := (x &&& y) ^^^ (x &&& z) ^^^ (y &&& z)

def bigSigma0 (x : UInt32) : UInt32 := rotr x 2 ^^^ rotr x 13 ^^^ rotr x 22

def bigSigma1 (x : UInt32) : UInt32 := rotr x 6 ^^^ rotr x 11 ^^^ rotr x 25

def smallSigma0 (x : UInt32) : UInt32 := rotr x 7 ^^^ rotr x 18 ^^^ (x >>> 3)

def smallSigma1 (x : UInt32) : UInt32 := rotr x 17 ^^^ rotr x 19 ^^^ (x >>> 10)

/-! ## The hash -/

structure State where
  a : UInt32
  b : UInt32
  c : UInt32
  d : UInt32
  e : UInt32
  f : UInt32
  g : UInt32
  h : UInt32
deriving DecidableEq, Repr

def State.toList (s : State) : List UInt32 := [s.a, s.b, s.c, s.d, s.e, s.f, s.g, s.h]

/-- Section 5.3.3. -/
def h0 : State :=
  ⟨rootFraction 2 2, rootFraction 2 3, rootFraction 2 5, rootFraction 2 7, rootFraction 2 11, rootFraction 2 13,
    rootFraction 2 17, rootFraction 2 19⟩

/-- Word `i` of a block. -/
def word (block : Bytes) (i : ℕ) : UInt32 := UInt32.ofNat (beNat ((List.range 4).map fun j => block.at' (4 * i + j)))

/-- `n` more words of the message schedule. -/
def extend : ℕ → List UInt32 → List UInt32
  | 0, w => w
  | n + 1, w =>
    let i := w.length
    extend n (w ++ [smallSigma1 (w.getD (i - 2) 0) + w.getD (i - 7) 0 + smallSigma0 (w.getD (i - 15) 0) +
      w.getD (i - 16) 0])

def schedule (block : Bytes) : List UInt32 := extend 48 ((List.range 16).map (word block))

def round (v : State) (kw : UInt32 × UInt32) : State :=
  let t1 := v.h + bigSigma1 v.e + ch v.e v.f v.g + kw.1 + kw.2
  let t2 := bigSigma0 v.a + maj v.a v.b v.c
  ⟨t1 + t2, v.a, v.b, v.c, v.d + t1, v.e, v.f, v.g⟩

/-- Section 6.2.2. -/
def compress (s : State) (block : Bytes) : State :=
  let v := (k.zip (schedule block)).foldl round s
  ⟨s.a + v.a, s.b + v.b, s.c + v.c, s.d + v.d, s.e + v.e, s.f + v.f, s.g + v.g, s.h + v.h⟩

/-- Section 5.1.1: one bit, zeros, and the length in bits as 64 bits. -/
def padding (length : ℕ) : Bytes :=
  0x80 :: (List.replicate ((119 - length % 64) % 64) 0 ++ beBytes 8 (8 * length))

def State.digest (s : State) : Bytes := s.toList.flatMap fun w => beBytes 4 w.toNat

/-- **SHA-256.** -/
def sha256 (message : Bytes) : Bytes := (foldBlocks 64 compress h0 (message ++ padding message.length)).digest

end Fips256
