import V9xRemote.Lib.Ladder
import V9xRemote.Lib.Limbs
import V9xRemote.Spec.Sha512

/-!
# Ed25519 (`src/common/ed25519.c`)

Field elements are 32 limbs of radix 256 in 32-bit words, points are four of them, and scalars
are strings of 32 bytes. Words are `UInt32` and `UInt8`, with their wrap-around.
-/

namespace V9xRemote

open Bytes Limbs Ladder

/-! ## Constants -/

def ed25519DBytes : Bytes :=
  [0xA3, 0x78, 0x59, 0x13, 0xCA, 0x4D, 0xEB, 0x75, 0xAB, 0xD8, 0x41, 0x41, 0x4D, 0x0A, 0x70, 0x00,
    0x98, 0xE8, 0x79, 0x77, 0x79, 0x40, 0xC7, 0x8C, 0x73, 0xFE, 0x6F, 0x2B, 0xEE, 0x6C, 0x03, 0x52]

def ed25519SqrtM1Bytes : Bytes :=
  [0xB0, 0xA0, 0x0E, 0x4A, 0x27, 0x1B, 0xEE, 0xC4, 0x78, 0xE4, 0x2F, 0xAD, 0x06, 0x18, 0x43, 0x2F,
    0xA7, 0xD7, 0xFB, 0x3D, 0x99, 0x00, 0x4D, 0x2B, 0x0B, 0xDF, 0xC1, 0x4F, 0x80, 0x24, 0x83, 0x2B]

def ed25519BaseXBytes : Bytes :=
  [0x1A, 0xD5, 0x25, 0x8F, 0x60, 0x2D, 0x56, 0xC9, 0xB2, 0xA7, 0x25, 0x95, 0x60, 0xC7, 0x2C, 0x69,
    0x5C, 0xDC, 0xD6, 0xFD, 0x31, 0xE2, 0xA4, 0xC0, 0xFE, 0x53, 0x6E, 0xCD, 0xD3, 0x36, 0x69, 0x21]

def ed25519BaseYBytes : Bytes := 0x58 :: List.replicate 31 0x66

def ed25519PBytes : Bytes := 0xED :: List.replicate 30 0xFF ++ [0x7F]

def ed25519LBytes : Bytes :=
  [0xED, 0xD3, 0xF5, 0x5C, 0x1A, 0x63, 0x12, 0x58, 0xD6, 0x9C, 0xF7, 0xA2, 0xDE, 0xF9, 0xDE, 0x14,
    0x00, 0x00, 0x00, 0x00, 0x00, 0x00, 0x00, 0x00, 0x00, 0x00, 0x00, 0x00, 0x00, 0x00, 0x00, 0x10]

/-- `V9X_ED25519_8P_*`. -/
def ed25519EightP : List UInt32 := 0x768 :: List.replicate 30 0x7F8 ++ [0x3F8]

/-- `V9X_ED25519_FOLD`: 2^256 mod p. -/
def ed25519Fold : UInt32 := 38

/-! ## Byte helpers -/

/-- `v9x_ed25519_bytes_ge`, on the low `n` bytes. -/
def bytesGe (a b : Bytes) : ℕ → Bool
  | 0 => true
  | n + 1 => if a.at' n ≠ b.at' n then a.at' n > b.at' n else bytesGe a b n

/-- `v9x_ed25519_bytes_sub`. -/
def bytesSub (borrow : UInt32) : Bytes → Bytes → Bytes
  | x :: a, y :: b =>
    let diff := x.toUInt32 + 0x100 - y.toUInt32 - borrow
    (diff &&& 0xFF).toUInt8 :: bytesSub (if diff >>> 8 ≠ 0 then 0 else 1) a b
  | _, _ => []

/-! ## Field arithmetic -/

/-- `struct v9x_ed25519_fe`: 32 limbs. -/
abbrev Fe : Type := List UInt32

def feSetSmall (n : UInt32) : Fe := n :: List.replicate 31 0

def feFromBytes (bytes : Bytes) : Fe := bytes.map UInt8.toUInt32

/-- The loop of `v9x_ed25519_fe_carry_pass`, and what leaves the top limb. -/
def feRipple (carry : UInt32) : Fe → Fe × UInt32
  | [] => ([], carry)
  | limb :: rest =>
    let limb := limb + carry
    let (rest, out) := feRipple (limb >>> 8) rest
    ((limb &&& 0xFF) :: rest, out)

/-- `a->limb[0] += n`. -/
def feAddLow (n : UInt32) : Fe → Fe
  | [] => []
  | limb :: rest => (limb + n) :: rest

def feCarryPass (a : Fe) : Fe :=
  let (a, carry) := feRipple 0 a
  feAddLow (carry * ed25519Fold) a

def feCarry (a : Fe) : Fe := feCarryPass (feCarryPass a)

def feAdd (a b : Fe) : Fe := feCarry (List.zipWith (· + ·) a b)

def feSub (a b : Fe) : Fe := feCarry (List.zipWith (· - ·) (List.zipWith (· + ·) a ed25519EightP) b)

/-- One round of the outer loop of a product: `column[i + j] += a[i] * b[j]` for each `j`, on the
columns from `i` on. -/
def addRow (limb : UInt32) : List UInt32 → List UInt32 → List UInt32
  | column :: columns, b :: bs => (column + limb * b) :: addRow limb columns bs
  | columns, _ => columns

/-- The outer loop, from `i` on. -/
def addRows (b : Fe) : List UInt32 → Fe → List UInt32
  | columns, [] => columns
  | columns, limb :: rest =>
    match addRow limb columns b with
    | [] => []
    | column :: columns => column :: addRows b columns rest

def feMul (a b : Fe) : Fe :=
  let columns := addRows b (List.replicate 64 0) a
  feCarry (List.zipWith (fun low high => low + ed25519Fold * high) (columns.take 32) (columns.drop 32))

def feSquare (a : Fe) : Fe := feMul a a

/-- One of the two last subtractions of `v9x_ed25519_fe_to_bytes`. -/
def feReduce (out : Bytes) : Bytes :=
  if bytesGe out ed25519PBytes 32 then bytesSub 0 out ed25519PBytes else out

def feToBytes (a : Fe) : Bytes := feReduce (feReduce ((feCarryPass (feCarry a)).map UInt32.toUInt8))

def feEqual (a b : Fe) : Bool := feToBytes a == feToBytes b

def feIsOdd (a : Fe) : Bool := (feToBytes a).at' 0 &&& 1 == 1

def feIsZero (a : Fe) : Bool := feEqual a (feSetSmall 0)

/-- `v9x_ed25519_exponent`. -/
def ed25519Exponent (low high : UInt8) : Bytes := low :: List.replicate 30 0xFF ++ [high]

def fePow (a : Fe) (e : Bytes) : Fe :=
  ladder (byteBit e)
    (fun bit result =>
      let result := feSquare result
      if bit then feMul result a else result)
    256 (feSetSmall 1)

def feInvert (a : Fe) : Fe := fePow a (ed25519Exponent 0xEB 0x7F)

/-! ## Points -/

/-- `struct v9x_ed25519_point`. -/
structure EdPoint where
  x : Fe
  y : Fe
  z : Fe
  t : Fe
deriving DecidableEq, Repr

def pointIdentity : EdPoint := ⟨feSetSmall 0, feSetSmall 1, feSetSmall 1, feSetSmall 0⟩

def pointBase : EdPoint :=
  let x := feFromBytes ed25519BaseXBytes
  let y := feFromBytes ed25519BaseYBytes
  ⟨x, y, feSetSmall 1, feMul x y⟩

def pointAdd (p q : EdPoint) : EdPoint :=
  let d2 := feAdd (feFromBytes ed25519DBytes) (feFromBytes ed25519DBytes)
  let a := feMul (feSub p.y p.x) (feSub q.y q.x)
  let b := feMul (feAdd p.y p.x) (feAdd q.y q.x)
  let c := feMul (feMul p.t d2) q.t
  let d := feMul (feAdd p.z p.z) q.z
  let e := feSub b a
  let f := feSub d c
  let g := feAdd d c
  let h := feAdd b a
  ⟨feMul e f, feMul g h, feMul f g, feMul e h⟩

def pointDouble (p : EdPoint) : EdPoint :=
  let a := feSquare p.x
  let b := feSquare p.y
  let c := feAdd (feSquare p.z) (feSquare p.z)
  let h := feAdd a b
  let e := feSub h (feSquare (feAdd p.x p.y))
  let g := feSub a b
  let f := feAdd c g
  ⟨feMul e f, feMul g h, feMul f g, feMul e h⟩

def pointScalarMul (p : EdPoint) (scalar : Bytes) : EdPoint :=
  ladder (byteBit scalar)
    (fun bit result =>
      let result := pointDouble result
      if bit then pointAdd result p else result)
    256 pointIdentity

/-- A store into the last byte of an encoding. -/
def orTop (bytes : Bytes) (bits : UInt8) : Bytes := bytes.set 31 (bytes.at' 31 ||| bits)

def pointEncode (p : EdPoint) : Bytes :=
  let zInverse := feInvert p.z
  let x := feMul p.x zInverse
  let y := feMul p.y zInverse
  if feIsOdd x then orTop (feToBytes y) 0x80 else feToBytes y

/-- Step 1 of `v9x_ed25519_point_decode`: the sign bit, and the bytes of `y`. -/
def decodeSign (bytes : Bytes) : Bool := (bytes.at' 31 >>> 7) &&& 1 == 1

def decodeYBytes (bytes : Bytes) : Bytes := bytes.set 31 (bytes.at' 31 &&& 0x7F)

/-- Step 2: `u` and `v`. -/
def decodeRatio (y : Fe) : Fe × Fe :=
  let y2 := feSquare y
  (feSub y2 (feSetSmall 1), feAdd (feMul (feFromBytes ed25519DBytes) y2) (feSetSmall 1))

/-- The candidate root `u v^3 (u v^7)^((p-5)/8)`. -/
def decodeCandidate (u v : Fe) : Fe :=
  let v3 := feMul (feSquare v) v
  let t := fePow (feMul (feMul (feSquare v3) v) u) (ed25519Exponent 0xFD 0x0F)
  feMul (feMul u v3) t

/-- Step 3: a root of `u / v`. -/
def decodeRoot (u v : Fe) : Option Fe :=
  let x := decodeCandidate u v
  let vx2 := feMul (feSquare x) v
  if feEqual vx2 u then some x
  else if feEqual vx2 (feSub (feSetSmall 0) u) then some (feMul x (feFromBytes ed25519SqrtM1Bytes))
  else none

/-- Step 4: the root with the given sign. -/
def decodeSigned (x : Fe) (sign : Bool) : Option Fe :=
  if feIsZero x && sign then none
  else if feIsOdd x ≠ sign then some (feSub (feSetSmall 0) x)
  else some x

def pointDecode (bytes : Bytes) : Option EdPoint :=
  let y := feFromBytes (decodeYBytes bytes)
  if feToBytes y ≠ decodeYBytes bytes then none
  else
    match decodeRoot (decodeRatio y).1 (decodeRatio y).2 with
    | none => none
    | some x =>
      match decodeSigned x (decodeSign bytes) with
      | none => none
      | some x => some ⟨x, y, feSetSmall 1, feMul x y⟩

/-! ## Scalars -/

/-- The shift of the remainder by one bit, with the bit that comes in. -/
def shiftIn (incoming : UInt8) : Bytes → Bytes
  | [] => []
  | x :: rest => ((x <<< 1) ||| incoming) :: shiftIn ((x >>> 7) &&& 1) rest

/-- The body of the loop of `v9x_ed25519_scalar_reduce`. -/
def scalarReduceStep (bit : Bool) (remainder : Bytes) : Bytes :=
  let remainder := shiftIn (if bit then 1 else 0) remainder
  if bytesGe remainder ed25519LBytes 32 then bytesSub 0 remainder ed25519LBytes else remainder

def scalarReduce (wide : Bytes) : Bytes := ladder (byteBit wide) scalarReduceStep 512 (List.replicate 32 0)

/-- The loop over `i` of `v9x_ed25519_scalar_muladd`, on the columns from `i` on. -/
def muladdRows (b : List UInt32) : List UInt32 → List UInt32 → List UInt32 → List UInt32
  | columns, limb :: a, n :: c =>
    match addRow limb columns b with
    | [] => []
    | column :: columns => (column + n) :: muladdRows b columns a c
  | columns, _, _ => columns

/-- The bytes of the columns. -/
def muladdBytes (carry : UInt32) : List UInt32 → Bytes
  | [] => []
  | column :: rest => ((carry + column) &&& 0xFF).toUInt8 :: muladdBytes ((carry + column) >>> 8) rest

def scalarMuladd (a b c : Bytes) : Bytes :=
  scalarReduce (muladdBytes 0 (muladdRows (feFromBytes b) (List.replicate 64 0) (feFromBytes a) (feFromBytes c)))

/-! ## Signatures -/

/-- `v9x_ed25519_expand_seed`: the scalar and the prefix. -/
def expandSeed (seed : Bytes) : Bytes × Bytes :=
  let digest := sha512Final (sha512Update sha512Init seed)
  let scalar : Bytes := digest.take 32
  let scalar : Bytes := scalar.set 0 (scalar.at' 0 &&& 0xF8)
  (scalar.set 31 ((scalar.at' 31 &&& 0x7F) ||| 0x40), (digest.drop 32).take 32)

/-- `v9x_ed25519_challenge`. -/
def ed25519Challenge (rBytes publicKey message : Bytes) : Bytes :=
  scalarReduce (sha512Final (sha512Update (sha512Update (sha512Update sha512Init rBytes) publicKey) message))

def ed25519PublicKey (seed : Bytes) : Bytes := pointEncode (pointScalarMul pointBase (expandSeed seed).1)

def ed25519Sign (seed publicKey message : Bytes) : Bytes :=
  let (scalar, prefixBytes) := expandSeed seed
  let r := scalarReduce (sha512Final (sha512Update (sha512Update sha512Init prefixBytes) message))
  let rBytes := pointEncode (pointScalarMul pointBase r)
  let k := ed25519Challenge rBytes publicKey message
  rBytes ++ scalarMuladd k scalar r

def ed25519Verify (signature publicKey message : Bytes) : Bool :=
  if bytesGe (signature.drop 32) ed25519LBytes 32 then false
  else
    match pointDecode publicKey with
    | none => false
    | some a =>
      match pointDecode (signature.take 32) with
      | none => false
      | some r =>
        let k := ed25519Challenge (signature.take 32) publicKey message
        let lhs := pointScalarMul pointBase (signature.drop 32)
        let rhs := pointAdd r (pointScalarMul a k)
        pointEncode lhs == pointEncode rhs

end V9xRemote
