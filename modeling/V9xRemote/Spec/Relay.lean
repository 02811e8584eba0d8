import V9xRemote.Spec.Sha256

/-!
# Relay framing and signatures (`src/common/relay.c`)

The canonical text a signature covers, the records of a down batch, and the check
of one record. Ed25519 verification itself is a parameter (`Verify`): what these
functions need of it is its verdict on a signature, a key and a text.
-/

namespace V9xRemote

open Bytes

/-- `v9x_ed25519_verify`: signature, public key, message. -/
abbrev Verify := Bytes → Bytes → Bytes → Bool

/-- `struct v9x_relay_record`. -/
structure RelayRecord where
  seq : UInt32
  signature : Bytes
  data : Bytes
deriving DecidableEq, Repr

def RelayRecord.length (r : RelayRecord) : ℕ := r.data.length

def relayRecordHeader : ℕ := 76
def relayChunkMax : ℕ := 1048576
def relayMachineLength : ℕ := 8
def relayHexIdLength : ℕ := 32
def relayInstallLength : ℕ := 36
def relayMessageMax : ℕ := 256

def relayCrockford : Bytes := ascii "0123456789ABCDEFGHJKMNPQRSTVWXYZ"

/-- `M-` and six characters of the Crockford set. -/
def relayMachineValid (machine : Bytes) : Bool :=
  machine.take 2 == ascii "M-" && machine.length == relayMachineLength &&
    (machine.drop 2).all fun c => relayCrockford.contains c

def relayIsLowerHex (c : UInt8) : Bool := (48 ≤ c && c ≤ 57) || (97 ≤ c && c ≤ 102)

def relayIsHex (c : UInt8) : Bool := relayIsLowerHex c || (65 ≤ c && c ≤ 70)

/-- Exactly 32 lowercase hex digits. -/
def relayHexIdValid (id : Bytes) : Bool := id.length == relayHexIdLength && id.all relayIsLowerHex

/-- 8-4-4-4-12 hex digits of either case. -/
def relayInstallValid (install : Bytes) : Bool :=
  install.length == relayInstallLength &&
    (List.range relayInstallLength).all fun i =>
      if i = 8 ∨ i = 13 ∨ i = 18 ∨ i = 23 then install.at' i == 45 else relayIsHex (install.at' i)

def relayHexDigits : Bytes := ascii "0123456789abcdef"

/-- Lowercase hex, two digits a byte. -/
def relayHex (bytes : Bytes) : Bytes :=
  bytes.flatMap fun b : UInt8 => [relayHexDigits.at' (b >>> 4).toNat, relayHexDigits.at' (b &&& 0x0F).toNat]

/-- The canonical text of valid arguments. -/
def relayText (machine install nonce session : Bytes) (seq : UInt32) (data : Bytes) : Bytes :=
  ascii "V9XRELAY1\nmachine=" ++ machine ++ ascii "\ninstall=" ++ install ++ ascii "\nnonce=" ++ nonce ++
    ascii "\nsession=" ++ session ++ ascii "\nseq=" ++ decimal seq.toNat ++ ascii "\nsha256=" ++
    relayHex (sha256 data) ++ ascii "\n"

/-- `v9x_relay_message`: `none` for `V9X_FALSE`. -/
def relayMessage (machine install nonce session : Bytes) (seq : UInt32) (data : Bytes) : Option Bytes :=
  if !relayMachineValid machine || !relayInstallValid install || !relayHexIdValid nonce ||
      !relayHexIdValid session then none
  else
    let out := relayText machine install nonce session seq data
    if out.length < relayMessageMax then some out else none

/-- What `v9x_relay_next` answers. -/
inductive RelayNext
  | ok (record : RelayRecord) (offset : ℕ)
  | fin
  | bad
deriving DecidableEq, Repr

/-- The record of a down batch at `offset`. -/
def relayNext (batch : Bytes) (offset : ℕ) : RelayNext :=
  if offset > batch.length then .bad
  else if offset = batch.length then .fin
  else if batch.length - offset < relayRecordHeader || (batch.drop offset).take 4 != ascii "V9XD" then .bad
  else
    let length := (batch.readU32 (offset + 8)).toNat
    if length = 0 || length > relayChunkMax || length > batch.length - offset - relayRecordHeader then .bad
    else .ok ⟨batch.readU32 (offset + 4), (batch.drop (offset + 12)).take 64,
        (batch.drop (offset + relayRecordHeader)).take length⟩ (offset + relayRecordHeader + length)

/-- `v9x_relay_verify`. -/
def relayVerify (verify : Verify) (record : RelayRecord) (publicKey machine install nonce session : Bytes) :
    Bool :=
  match relayMessage machine install nonce session record.seq record.data with
  | none => false
  | some message => verify record.signature publicKey message

end V9xRemote
