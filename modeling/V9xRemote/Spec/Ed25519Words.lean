import V9xRemote.Lib.Words
import V9xRemote.Spec.Ed25519

/-!
# The arithmetic of Ed25519 without overflow (`src/common/ed25519.c`)

The functions of the field and of the scalars with every sum, difference, product and store
checked: none where a word would lose a bit.
-/

namespace V9xRemote

open Bytes Limbs Ladder

/-! ## Byte helpers -/

/-- `v9x_ed25519_bytes_sub`; at the end nothing is borrowed. -/
def bytesSubWords (borrow : UInt32) : Bytes → Bytes → Option Bytes
  | x :: a, y :: b => do
    let sum ← Words.add x.toUInt32 0x100
    let diff ← Words.sub sum y.toUInt32
    let diff ← Words.sub diff borrow
    let rest ← bytesSubWords (if diff >>> 8 ≠ 0 then 0 else 1) a b
    return (diff &&& 0xFF).toUInt8 :: rest
  | _, _ => if borrow = 0 then some [] else none

/-! ## Field arithmetic -/

def feRippleWords (carry : UInt32) : Fe → Option (Fe × UInt32)
  | [] => some ([], carry)
  | limb :: rest => do
    let limb ← Words.add limb carry
    let (rest, out) ← feRippleWords (limb >>> 8) rest
    return ((limb &&& 0xFF) :: rest, out)

def feAddLowWords (n : UInt32) : Fe → Option Fe
  | [] => some []
  | limb :: rest => do
    let limb ← Words.add limb n
    return limb :: rest

def feCarryPassWords (a : Fe) : Option Fe := do
  let (a, carry) ← feRippleWords 0 a
  let fold ← Words.mul carry ed25519Fold
  feAddLowWords fold a

def feCarryWords (a : Fe) : Option Fe := do
  let a ← feCarryPassWords a
  feCarryPassWords a

def feAddWords (a b : Fe) : Option Fe := do
  let sums ← Words.zip Words.add a b
  feCarryWords sums

def feSubWords (a b : Fe) : Option Fe := do
  let biased ← Words.zip Words.add a ed25519EightP
  let differences ← Words.zip Words.sub biased b
  feCarryWords differences

def addRowWords (limb : UInt32) : List UInt32 → List UInt32 → Option (List UInt32)
  | column :: columns, b :: bs => do
    let product ← Words.mul limb b
    let column ← Words.add column product
    let rest ← addRowWords limb columns bs
    return column :: rest
  | columns, _ => some columns

def addRowsWords (b : Fe) : List UInt32 → Fe → Option (List UInt32)
  | columns, [] => some columns
  | columns, limb :: rest => do
    match ← addRowWords limb columns b with
    | [] => return []
    | column :: columns =>
      let rest ← addRowsWords b columns rest
      return column :: rest

def feMulWords (a b : Fe) : Option Fe := do
  let columns ← addRowsWords b (List.replicate 64 0) a
  let folded ← Words.zip (fun low high => do
    let high ← Words.mul ed25519Fold high
    Words.add low high) (columns.take 32) (columns.drop 32)
  feCarryWords folded

def feSquareWords (a : Fe) : Option Fe := feMulWords a a

def feReduceWords (out : Bytes) : Option Bytes :=
  if bytesGe out ed25519PBytes 32 then bytesSubWords 0 out ed25519PBytes else some out

/-- `v9x_ed25519_fe_to_bytes`; every limb that is stored is a byte. -/
def feToBytesWords (a : Fe) : Option Bytes := do
  let a ← feCarryWords a
  let a ← feCarryPassWords a
  let out ← a.mapM Words.narrow
  let out ← feReduceWords out
  feReduceWords out

def fePowWords (a : Fe) (e : Bytes) : Option Fe :=
  ladder (byteBit e)
    (fun bit result => result.bind fun result => do
      let result ← feSquareWords result
      if bit then feMulWords result a else return result)
    256 (some (feSetSmall 1))

def feInvertWords (a : Fe) : Option Fe := fePowWords a (ed25519Exponent 0xEB 0x7F)

/-! ## Scalars -/

/-- The shift of the remainder; no bit leaves its top byte. -/
def shiftInWords (incoming : UInt8) : Bytes → Option Bytes
  | [] => if incoming = 0 then some [] else none
  | x :: rest => do
    let rest ← shiftInWords ((x >>> 7) &&& 1) rest
    return ((x <<< 1) ||| incoming) :: rest

def scalarReduceStepWords (bit : Bool) (remainder : Bytes) : Option Bytes := do
  let remainder ← shiftInWords (if bit then 1 else 0) remainder
  if bytesGe remainder ed25519LBytes 32 then bytesSubWords 0 remainder ed25519LBytes else return remainder

def scalarReduceWords (wide : Bytes) : Option Bytes :=
  ladder (byteBit wide) (fun bit remainder => remainder.bind (scalarReduceStepWords bit)) 512
    (some (List.replicate 32 0))

def muladdRowsWords (b : List UInt32) : List UInt32 → List UInt32 → List UInt32 → Option (List UInt32)
  | columns, limb :: a, n :: c => do
    match ← addRowWords limb columns b with
    | [] => return []
    | column :: columns =>
      let column ← Words.add column n
      let rest ← muladdRowsWords b columns a c
      return column :: rest
  | columns, _, _ => some columns

/-- The bytes of the columns; at the end nothing is carried. -/
def muladdBytesWords (carry : UInt32) : List UInt32 → Option Bytes
  | [] => if carry = 0 then some [] else none
  | column :: rest => do
    let sum ← Words.add carry column
    let rest ← muladdBytesWords (sum >>> 8) rest
    return (sum &&& 0xFF).toUInt8 :: rest

def scalarMuladdWords (a b c : Bytes) : Option Bytes := do
  let columns ← muladdRowsWords (feFromBytes b) (List.replicate 64 0) (feFromBytes a) (feFromBytes c)
  let wide ← muladdBytesWords 0 columns
  scalarReduceWords wide

end V9xRemote
