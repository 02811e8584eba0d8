import V9xRemote.Lib.Bytes

/-!
# Making an install id (`src/common/installid.c`)

The mixing pool, with words of 32 bits, and the text that is written from it.
-/

namespace V9xRemote

open Bytes

/-- `V9xIdPool`. -/
structure IdPool where
  words : Vector UInt32 4
  count : UInt32
deriving DecidableEq, Repr

/-- `v9x_id_fmix`. -/
def idFmix (value : UInt32) : UInt32 :=
  let value := value ^^^ (value >>> 16)
  let value := value * 0x85ebca6b
  let value := value ^^^ (value >>> 13)
  let value := value * 0xc2b2ae35
  value ^^^ (value >>> 16)

/-- `v9x_id_stir`: the words one after the other, each from itself and the one before it. -/
def idStir (pool : IdPool) : IdPool :=
  { pool with
    words := (List.finRange 4).foldl (fun words (index : Fin 4) =>
      words.set index (idFmix (words[index] + words[index + 3] + 0x9e3779b9 * (UInt32.ofNat index.val + 1)))) pool.words }

/-- `v9x_id_begin`. -/
def idBegin : IdPool := ⟨#v[0x6a09e667, 0xbb67ae85, 0x3c6ef372, 0xa54ff53a], 0⟩

/-- `v9x_id_mix`. -/
def idMix (pool : IdPool) (value : UInt32) : IdPool :=
  let index := Fin.ofNat 4 pool.count.toNat
  idStir ⟨pool.words.set index (pool.words[index] ^^^ value), pool.count + 1⟩

/-- The loop of `v9x_id_mix_text`, and the mix behind it. -/
def idMixTextFrom (pool : IdPool) (packed shift : UInt32) : Bytes → IdPool
  | [] => idMix pool (packed ^^^ shift)
  | c :: text =>
    let packed := packed ||| (c.toUInt32 <<< shift)
    if shift + 8 = 32 then idMixTextFrom (idMix pool packed) 0 0 text
    else idMixTextFrom pool packed (shift + 8) text

/-- `v9x_id_mix_text`. -/
def idMixText (pool : IdPool) (text : Bytes) : IdPool := idMixTextFrom pool 0 0 text

/-- What is mixed into a new pool, numbers and texts. -/
def idFeed (sources : List (UInt32 ⊕ Bytes)) : IdPool :=
  sources.foldl (fun pool source => source.elim (idMix pool) (idMixText pool)) idBegin

def idDigits : Bytes := ascii "0123456789abcdef"

/-- `raw`: the bytes of the words, with the version and the variant. -/
def idRaw (pool : IdPool) : Bytes :=
  let raw : Bytes := (List.finRange 16).map fun index : Fin 16 =>
    (pool.words[index.val / 4] >>> (UInt32.ofNat (index.val % 4) * 8)).toUInt8
  let raw : Bytes := raw.set 6 ((raw.at' 6 &&& 0x0f) ||| 0x40)
  raw.set 8 ((raw.at' 8 &&& 0x3f) ||| 0x80)

/-- The text of `raw`. -/
def idText (raw : Bytes) : Bytes :=
  (List.range 16).flatMap fun index : ℕ =>
    (if index = 4 ∨ index = 6 ∨ index = 8 ∨ index = 10 then [(45 : UInt8)] else []) ++
      [idDigits.at' (raw.at' index >>> 4).toNat, idDigits.at' (raw.at' index &&& 0x0f).toNat]

/-- `v9x_id_finish`. -/
def idFinish (pool : IdPool) : Bytes := idText (idRaw (idStir (idStir pool)))

end V9xRemote
