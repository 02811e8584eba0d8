import V9xRemote.Lib.Bytes

/-!
# Percent encoding

Bytes outside a set are written as `%XX`. Decoding undoes this, whatever the set is, as long as
`%` itself is not in it.
-/

namespace Percent

open Bytes

/-- A digit in upper case. -/
def hexDigit (n : UInt8) : UInt8 := if n < 10 then 48 + n else 55 + n

/-- The value of a digit, in either case. -/
def hexValue (c : UInt8) : Option UInt8 :=
  if 48 ≤ c && c ≤ 57 then some (c - 48)
  else if 97 ≤ c && c ≤ 102 then some (c - 97 + 10)
  else if 65 ≤ c && c ≤ 70 then some (c - 65 + 10)
  else none

/-- `%XX`. -/
def escape (b : UInt8) : Bytes := [37, hexDigit (b >>> 4), hexDigit (b &&& 15)]

def encodeByte (keep : UInt8 → Bool) (b : UInt8) : Bytes := if keep b then [b] else escape b

/-- The bytes of `keep` pass, the others become `%XX`. -/
def encode (keep : UInt8 → Bool) (text : Bytes) : Bytes := text.flatMap (encodeByte keep)

/-- The byte of the `%XX` that a text starts with. -/
def triplet : Bytes → Option UInt8
  | 37 :: high :: low :: _ => do
    let high ← hexValue high
    let low ← hexValue low
    return (high <<< 4) ||| low
  | _ => none

/-- Every `%XX` becomes its byte, the others pass. -/
def decode : Bytes → Bytes
  | [] => []
  | c :: rest =>
    match triplet (c :: rest) with
    | some b => b :: decode (rest.drop 2)
    | none => c :: decode rest
termination_by text => text.length

/-- A digit that `escape` writes. -/
def UpperHex (c : UInt8) : Prop := 48 ≤ c ∧ c ≤ 57 ∨ 65 ≤ c ∧ c ≤ 70

instance (c : UInt8) : Decidable (UpperHex c) := inferInstanceAs (Decidable (_ ∨ _))

/-- Bytes of `keep` and `%XX`, one after another. -/
inductive Encoded (keep : UInt8 → Bool) : Bytes → Prop
  | nil : Encoded keep []
  | byte {c : UInt8} {rest : Bytes} (hc : keep c = true) (hrest : Encoded keep rest) : Encoded keep (c :: rest)
  | escaped {high low : UInt8} {rest : Bytes} (hhigh : UpperHex high) (hlow : UpperHex low) (hrest : Encoded keep rest) :
    Encoded keep (37 :: high :: low :: rest)

variable {keep : UInt8 → Bool} {text rest : Bytes}

/-- The digits of half a byte, written and read. -/
theorem hexDigit_spec {n : UInt8} (h : n < 16) : UpperHex (hexDigit n) ∧ hexValue (hexDigit n) = some n := by
  have hall : ∀ n < 16, UpperHex (hexDigit (UInt8.ofNat n)) ∧
      hexValue (hexDigit (UInt8.ofNat n)) = some (UInt8.ofNat n) := by decide
  have hn := hall n.toNat (UInt8.lt_iff_toNat_lt.1 h)
  rwa [UInt8.ofNat_toNat] at hn

/-- A byte falls into two halves. -/
theorem halves (b : UInt8) : b >>> 4 < 16 ∧ b &&& 15 < 16 ∧ (b >>> 4) <<< 4 ||| (b &&& 15) = b := by
  have hall : ∀ n < 256, UInt8.ofNat n >>> 4 < 16 ∧ UInt8.ofNat n &&& 15 < 16 ∧
      (UInt8.ofNat n >>> 4) <<< 4 ||| (UInt8.ofNat n &&& 15) = UInt8.ofNat n := by decide +kernel
  have hb := hall b.toNat b.toNat_lt
  rwa [UInt8.ofNat_toNat] at hb

/-- **An escaped byte** is the one that is read. -/
theorem triplet_escape (b : UInt8) (rest : Bytes) : triplet (escape b ++ rest) = some b := by
  obtain ⟨hhigh, hlow, hjoin⟩ := halves b
  change (hexValue (hexDigit (b >>> 4))).bind _ = _
  rw [(hexDigit_spec hhigh).2, (hexDigit_spec hlow).2]
  exact congrArg some hjoin

theorem triplet_of_ne {c : UInt8} (h : c ≠ 37) (rest : Bytes) : triplet (c :: rest) = none := by
  unfold triplet
  split
  · rename_i heq
    exact absurd (List.cons_eq_cons.1 heq).1 h
  · rfl

theorem decode_triplet {b : UInt8} (h : triplet text = some b) : decode text = b :: decode (text.drop 3) := by
  cases text with
  | nil => cases h
  | cons c rest => rw [decode, h]; rfl

theorem decode_cons {c : UInt8} (h : triplet (c :: rest) = none) : decode (c :: rest) = c :: decode rest := by
  rw [decode, h]

theorem triplet_length {b : UInt8} (h : triplet text = some b) : 3 ≤ text.length := by
  unfold triplet at h
  split at h
  · simp only [List.length_cons]
    omega
  · cases h

/-- How far a byte of the decoded text goes. -/
def width (text : Bytes) : ℕ := if (triplet text).isSome then 3 else 1

theorem width_le {c : UInt8} (rest : Bytes) : width (c :: rest) ≤ (c :: rest).length := by
  rw [width]
  split
  · rename_i hsome
    obtain ⟨b, hb⟩ := Option.isSome_iff_exists.1 hsome
    exact triplet_length hb
  · exact Nat.succ_le_succ (Nat.zero_le _)

/-- **One byte of the decoded text.** -/
theorem decode_next (c : UInt8) (rest : Bytes) :
    decode (c :: rest) = (triplet (c :: rest)).getD c :: decode ((c :: rest).drop (width (c :: rest))) := by
  rw [width]
  cases h : triplet (c :: rest) with
  | none => exact decode_cons h
  | some b => exact decode_triplet h

theorem decode_encodeByte (hkeep : keep 37 = false) (b : UInt8) (rest : Bytes) :
    decode (encodeByte keep b ++ rest) = b :: decode rest := by
  rw [encodeByte]
  split
  · rename_i hb
    have hne : b ≠ 37 := by
      rintro rfl
      rw [hkeep] at hb
      cases hb
    exact decode_cons (triplet_of_ne hne rest)
  · exact decode_triplet (triplet_escape b rest)

/-- **Decoding undoes encoding.** -/
theorem decode_encode (hkeep : keep 37 = false) (text : Bytes) : decode (encode keep text) = text := by
  induction text with
  | nil => rw [encode, List.flatMap_nil, decode]
  | cons b text ih =>
    rw [encode, List.flatMap_cons, decode_encodeByte hkeep]
    exact congrArg _ ih

/-- An encoded text is no shorter. -/
theorem length_le_encode (keep : UInt8 → Bool) (text : Bytes) : text.length ≤ (encode keep text).length := by
  induction text with
  | nil => exact le_rfl
  | cons b text ih =>
    have hbyte : 1 ≤ (encodeByte keep b).length := by
      rw [encodeByte]
      split
      · exact le_rfl
      · exact Nat.succ_le_succ (Nat.zero_le _)
    rw [encode] at ih
    rw [encode, List.flatMap_cons, List.length_append, List.length_cons]
    omega

/-- **The form of an encoded text.** -/
theorem encoded_encode (keep : UInt8 → Bool) (text : Bytes) : Encoded keep (encode keep text) := by
  induction text with
  | nil => exact .nil
  | cons b text ih =>
    rw [encode, List.flatMap_cons, encodeByte]
    split
    · rename_i hb
      exact .byte hb ih
    · obtain ⟨hhigh, hlow, -⟩ := halves b
      exact .escaped (hexDigit_spec hhigh).1 (hexDigit_spec hlow).1 ih

/-- Every byte of such a text is a `%`, one of the set, or a digit. -/
theorem Encoded.mem {c : UInt8} (h : Encoded keep text) (hc : c ∈ text) : keep c = true ∨ c = 37 ∨ UpperHex c := by
  induction h with
  | nil => cases hc
  | byte hkeep hrest ih =>
    rcases List.mem_cons.1 hc with rfl | hc
    · exact Or.inl hkeep
    · exact ih hc
  | escaped hhigh hlow hrest ih =>
    rcases List.mem_cons.1 hc with rfl | hc
    · exact Or.inr (Or.inl rfl)
    rcases List.mem_cons.1 hc with rfl | hc
    · exact Or.inr (Or.inr hhigh)
    rcases List.mem_cons.1 hc with rfl | hc
    · exact Or.inr (Or.inr hlow)
    · exact ih hc

end Percent
