import V9xRemote.Spec.UpdateProto
import V9xRemote.Spec.Relay

/-!
# The signed release file (`src/common/update_release.c`)

The signature covers what stands before the line that opens `[Signature]`; the fields are read
from that part. Ed25519 verification is a parameter, as for the relay.
-/

namespace V9xRemote

open Bytes

/-! ## Hex digits -/

/-- `v9x_release_hex_value`: `none` for -1. -/
def releaseHexValue (value : UInt8) : Option UInt8 :=
  if 48 ≤ value ∧ value ≤ 57 then some (value - 48)
  else if 97 ≤ value ∧ value ≤ 102 then some (value - 97 + 10)
  else if 65 ≤ value ∧ value ≤ 70 then some (value - 65 + 10)
  else none

/-- The bytes of so many pairs of digits, and what stands behind them. -/
def releaseHexPairs : ℕ → Bytes → Option (Bytes × Bytes)
  | 0, hex => some ([], hex)
  | count + 1, high :: low :: hex => do
    let high ← releaseHexValue high
    let low ← releaseHexValue low
    let (bytes, rest) ← releaseHexPairs count hex
    return ((high <<< 4 ||| low) :: bytes, rest)
  | _ + 1, _ => none

/-- `v9x_release_hex_bytes`. -/
def releaseHexBytes (hex : Bytes) (count : ℕ) : Option Bytes :=
  match releaseHexPairs count hex with
  | some (bytes, []) => some bytes
  | _ => none

/-! ## The signature -/

def releaseSignature : Bytes := ascii "[Signature]"
def releaseKeyName : Bytes := ascii "Ed25519="
def releaseSigHex : ℕ := 128

/-- `v9x_release_at`. -/
def releaseAt (text : Bytes) (position : ℕ) (literal : Bytes) : Bool := literal.isPrefixOf (text.drop position)

/-- The loop over the text, `before` the byte in front of the position: where `[Signature]`
starts a line. `none` for a NUL and for a second such line. -/
def releaseSection (before : UInt8) (position : ℕ) (found : Option ℕ) : Bytes → Option (Option ℕ)
  | [] => some found
  | c :: rest =>
    if c = 0 then none
    else if (position = 0 ∨ before = 10) ∧ releaseSignature.isPrefixOf (c :: rest) then
      if found.isSome then none else releaseSection c (position + 1) (some position) rest
    else releaseSection c (position + 1) found rest

/-- Past a byte that may stand there. -/
def releaseSkip (text : Bytes) (position : ℕ) (value : UInt8) : ℕ :=
  if position < text.length ∧ text.at' position = value then position + 1 else position

/-- `v9x_release_verify`: the signed length. -/
def releaseVerify (verify : Verify) (publicKey text : Bytes) : Option ℕ := do
  let sect ← (← releaseSection 0 0 none text)
  let position := releaseSkip text (sect + releaseSignature.length) 13
  if position ≥ text.length ∨ text.at' position ≠ 10 then none
  else if !releaseAt text (position + 1) releaseKeyName then none
  else
    let hexStart := position + 1 + releaseKeyName.length
    let hex := (text.drop hexStart).takeWhile fun c => c != 13 && c != 10
    if hex.length ≠ releaseSigHex then none
    else if releaseSkip text (releaseSkip text (hexStart + hex.length) 13) 10 ≠ text.length then none
    else do
      let signature ← releaseHexBytes hex 64
      if verify signature publicKey (text.take sect) then some sect else none

/-! ## The fields -/

def releaseVersionMax : ℕ := 16
def releaseBuildMax : ℕ := 48
def releaseFileMax : ℕ := 64
def releaseFamilyMax : ℕ := 24
def releaseSectionMax : ℕ := 8 + releaseFamilyMax
def releaseValueMax : ℕ := 72

structure ReleaseInfo where
  version : Bytes
  build : Bytes
  file : Bytes
  size : UInt32
  sha256 : Bytes
deriving DecidableEq, Repr

/-- `v9x_release_plain_name`. -/
def releasePlainName (name : Bytes) : Bool :=
  name != [] && name.head? != some 46 && name.all fun value =>
    (65 ≤ value && value ≤ 90) || (97 ≤ value && value ≤ 122) || (48 ≤ value && value ≤ 57) ||
      value == 46 || value == 45 || value == 95

/-- The loop over the digits, on a 32-bit word. -/
def releaseParseDigits : UInt32 → Bytes → Option UInt32
  | result, [] => some result
  | result, c :: rest =>
    if c < 48 ∨ c > 57 ∨ result > 0x19999998 then none
    else releaseParseDigits (result * 10 + UInt32.ofNat (c.toNat - 48)) rest

/-- `v9x_release_parse_u32`. -/
def releaseParseU32 (text : Bytes) : Option UInt32 := if text = [] then none else releaseParseDigits 0 text

def releaseMain : Bytes := ascii "V9xRemoteRelease"

/-- The section of a family, where its buffer holds it. -/
def releaseFamilySection (family : Bytes) : Option Bytes :=
  let sect := ascii "Family." ++ family
  if sect.length < releaseSectionMax then some sect else none

/-- `v9x_release_read`. Each value is a C string in its buffer. -/
def releaseRead (text : Bytes) (signedLength : ℕ) (app family : Bytes) : Option ReleaseInfo := do
  let value (sect : Bytes) (key : String) (capacity : ℕ) : Option Bytes :=
    (updateIniRead text signedLength sect (ascii key) capacity).map cstr
  let schema ← value releaseMain "Schema" releaseValueMax
  if schema ≠ ascii "1" then none
  let named ← value releaseMain "App" releaseValueMax
  if named ≠ app then none
  let version ← value releaseMain "Version" releaseVersionMax
  if (updateVersionParse version).isNone then none
  let build := (value releaseMain "Build" releaseBuildMax).getD []
  if !releasePlainName family then none
  let sect ← releaseFamilySection family
  let file ← value sect "File" releaseFileMax
  if !releasePlainName file then none
  let size ← releaseParseU32 (← value sect "Size" releaseValueMax)
  if size = 0 then none
  let sha256 ← releaseHexBytes (← value sect "Sha256" releaseValueMax) 32
  return ⟨version, build, file, size, sha256⟩

end V9xRemote
