import V9xRemote.Lib.Bytes
import V9xRemote.Lib.Canonical

/-!
# Deflate streams (RFC 1951)

A stream is a list of bits, each byte's lowest bit first. `inflate` decodes the blocks at
its start up to the final one; what stands behind is not read. Code length sets must be
complete, but for a distance code, which may also be empty or a single codeword of one
bit; a block's end must have a codeword; and no distance reaches before the output.
-/

namespace Deflate

open Canonical

variable {bs rest : List Bool} {n v : ℕ}

/-! ## Fields -/

/-- A number's lowest `n` bits, the lowest first. -/
def lsbBits : ℕ → ℕ → List Bool
  | 0, _ => []
  | n + 1, v => decide (v % 2 = 1) :: lsbBits n (v / 2)

/-- The bits of a byte string. -/
def bits (s : Bytes) : List Bool := s.flatMap fun b => lsbBits 8 b.toNat

/-- A field of `n` bits, and what stands behind it. -/
def field : ℕ → List Bool → Option (ℕ × List Bool)
  | 0, bs => some (0, bs)
  | _ + 1, [] => none
  | n + 1, b :: bs => (field n bs).map fun (v, rest) => (b.toNat + 2 * v, rest)

/-- Whole bytes. -/
def bytes : ℕ → List Bool → Option (Bytes × List Bool)
  | 0, bs => some ([], bs)
  | n + 1, bs => do
    let (b, bs) ← field 8 bs
    let (s, rest) ← bytes n bs
    return (UInt8.ofNat b :: s, rest)

theorem lsbBits_length (n v : ℕ) : (lsbBits n v).length = n := by
  induction n generalizing v with
  | zero => rfl
  | succ n ih => rw [lsbBits, List.length_cons, ih]

/-- **A field read back.** -/
theorem field_lsbBits (h : v < 2 ^ n) (rest : List Bool) : field n (lsbBits n v ++ rest) = some (v, rest) := by
  induction n generalizing v with
  | zero =>
    rw [Nat.pow_zero] at h
    obtain rfl : v = 0 := by omega
    rfl
  | succ n ih =>
    have hv : v / 2 < 2 ^ n := by
      rw [Nat.pow_succ] at h
      omega
    rw [lsbBits, List.cons_append, field, ih hv]
    by_cases hodd : v % 2 = 1
    · have : (decide (v % 2 = 1)).toNat + 2 * (v / 2) = v := by
        rw [decide_eq_true hodd, Bool.toNat_true]
        omega
      exact congrArg some (Prod.ext this rfl)
    · have : (decide (v % 2 = 1)).toNat + 2 * (v / 2) = v := by
        rw [decide_eq_false hodd, Bool.toNat_false]
        omega
      exact congrArg some (Prod.ext this rfl)

theorem field_eq_some (h : field n bs = some (v, rest)) : rest = bs.drop n ∧ n ≤ bs.length := by
  induction n generalizing bs v with
  | zero =>
    obtain ⟨-, rfl⟩ := Prod.mk.inj (Option.some.inj h)
    exact ⟨rfl, Nat.zero_le _⟩
  | succ n ih =>
    cases bs with
    | nil => cases h
    | cons b bs =>
      obtain ⟨⟨w, r⟩, hw, heq⟩ := Option.map_eq_some_iff.1 h
      obtain ⟨-, rfl⟩ := Prod.mk.inj heq
      obtain ⟨hr, hn⟩ := ih hw
      exact ⟨hr, Nat.succ_le_succ hn⟩

theorem field_length_le (h : field n bs = some (v, rest)) : rest.length ≤ bs.length := by
  obtain ⟨rfl, -⟩ := field_eq_some h
  rw [List.length_drop]
  omega

theorem field_lt (h : field n bs = some (v, rest)) : v < 2 ^ n := by
  induction n generalizing bs v rest with
  | zero =>
    obtain ⟨rfl, -⟩ := Prod.mk.inj (Option.some.inj h)
    exact Nat.one_pos
  | succ n ih =>
    cases bs with
    | nil => cases h
    | cons b bs =>
      obtain ⟨⟨w, r⟩, hw, heq⟩ := Option.map_eq_some_iff.1 h
      obtain ⟨rfl, -⟩ := Prod.mk.inj heq
      have hlt := ih hw
      have hb : b.toNat ≤ 1 := Bool.toNat_le b
      rw [Nat.pow_succ]
      omega

/-- Too few bits for a field. -/
theorem field_eq_none (h : bs.length < n) : field n bs = none := by
  cases hf : field n bs with
  | none => rfl
  | some out =>
    obtain ⟨v, rest⟩ := out
    obtain ⟨-, hn⟩ := field_eq_some hf
    omega

/-- A field that ends inside a number's bits. -/
theorem field_lsbBits_append {count : ℕ} (h : count ≤ n) (v : ℕ) (rest : List Bool) :
    field count (lsbBits n v ++ rest) = some (v % 2 ^ count, lsbBits (n - count) (v / 2 ^ count) ++ rest) := by
  induction count generalizing n v with
  | zero => rw [field, Nat.pow_zero, Nat.mod_one, Nat.div_one, Nat.sub_zero]
  | succ count ih =>
    obtain ⟨n, rfl⟩ : ∃ m, n = m + 1 := ⟨n - 1, by omega⟩
    have hmod : v % 2 ^ (count + 1) = v % 2 + 2 * (v / 2 % 2 ^ count) := by
      rw [Nat.pow_succ, Nat.mul_comm, Nat.mod_mul]
    have hdiv : v / 2 ^ (count + 1) = v / 2 / 2 ^ count := by
      rw [Nat.pow_succ, Nat.mul_comm, Nat.div_div_eq_div_mul]
    have hbit : (decide (v % 2 = 1)).toNat = v % 2 := by
      by_cases hodd : v % 2 = 1
      · rw [decide_eq_true hodd, Bool.toNat_true, hodd]
      · rw [decide_eq_false hodd, Bool.toNat_false]
        omega
    rw [lsbBits, List.cons_append, field, ih (by omega), Option.map_some, Nat.add_sub_add_right, hmod, hdiv]
    dsimp only
    rw [hbit]

/-- A number's bits, and those of another above it. -/
theorem lsbBits_add (h : v < 2 ^ n) (m w : ℕ) : lsbBits (n + m) (v + w * 2 ^ n) = lsbBits n v ++ lsbBits m w := by
  induction n generalizing v with
  | zero =>
    rw [Nat.pow_zero] at h
    obtain rfl : v = 0 := by omega
    rw [Nat.zero_add, Nat.zero_add, Nat.pow_zero, Nat.mul_one]
    rfl
  | succ n ih =>
    have hv : v / 2 < 2 ^ n := by
      rw [Nat.pow_succ] at h
      omega
    have hsplit : v + w * 2 ^ (n + 1) = v + 2 * (w * 2 ^ n) := by ring
    have hmod : (v + w * 2 ^ (n + 1)) % 2 = v % 2 := by
      rw [hsplit]
      omega
    have hdiv : (v + w * 2 ^ (n + 1)) / 2 = v / 2 + w * 2 ^ n := by
      rw [hsplit]
      omega
    rw [Nat.add_right_comm, lsbBits, hmod, hdiv, ih hv, lsbBits, List.cons_append]

theorem bits_cons (b : UInt8) (s : Bytes) : bits (b :: s) = lsbBits 8 b.toNat ++ bits s := rfl

theorem bits_append (s t : Bytes) : bits (s ++ t) = bits s ++ bits t := List.flatMap_append

/-- Bytes are their bits. -/
theorem bits_inj {s t : Bytes} (h : bits s = bits t) : s = t := by
  induction s generalizing t with
  | nil =>
    cases t with
    | nil => rfl
    | cons c t => cases h
  | cons b s ih =>
    cases t with
    | nil => cases h
    | cons c t =>
      rw [bits_cons, bits_cons] at h
      obtain ⟨hbyte, hrest⟩ := List.append_inj h (by rw [lsbBits_length, lsbBits_length])
      have hb := field_lsbBits (UInt8.toNat_lt b) []
      rw [hbyte, field_lsbBits (UInt8.toNat_lt c) []] at hb
      have hbc : c.toNat = b.toNat := (Prod.mk.inj (Option.some.inj hb)).1
      rw [UInt8.toNat_inj.1 hbc, ih hrest]

theorem bits_length (s : Bytes) : (bits s).length = 8 * s.length := by
  induction s with
  | nil => rfl
  | cons b s ih =>
    rw [bits_cons, List.length_append, ih, lsbBits_length, List.length_cons]
    omega

/-! ## Literals and matches -/

/-- The extra bits of a length symbol, counted from 257 on. -/
def lengthExtra (i : ℕ) : ℕ := if i < 8 then 0 else if i < 28 then (i - 4) / 4 else 0

/-- The first length of a length symbol: each begins where the one before ends, but for the
last, which is 258. -/
def lengthBase : ℕ → ℕ
  | 0 => 3
  | i + 1 => if i + 1 = 28 then 258 else lengthBase i + 2 ^ lengthExtra i

/-- The extra bits of a distance symbol. -/
def distanceExtra (i : ℕ) : ℕ := if i < 2 then 0 else (i - 2) / 2

/-- The first distance of a distance symbol. -/
def distanceBase : ℕ → ℕ
  | 0 => 1
  | i + 1 => distanceBase i + 2 ^ distanceExtra i

/-- What a block is made of. -/
inductive Item
  | literal (b : UInt8)
  | copy (length distance : ℕ)
  | endOfBlock
deriving DecidableEq, Repr

/-- The length of a match, behind its symbol. -/
def matchLength (symbol : ℕ) (bs : List Bool) : Option (ℕ × List Bool) := do
  let (extra, bs) ← field (lengthExtra (symbol - 257)) bs
  return (lengthBase (symbol - 257) + extra, bs)

/-- Its distance. -/
def matchDistance (distance : List ℕ) (bs : List Bool) : Option (ℕ × List Bool) := do
  let (symbol, bs) ← decode distance bs
  guard (symbol < 30)
  let (extra, bs) ← field (distanceExtra symbol) bs
  return (distanceBase symbol + extra, bs)

/-- The next item, with the literal/length code and the distance code of the block. -/
def item (litlen distance : List ℕ) (bs : List Bool) : Option (Item × List Bool) := do
  let (symbol, bs) ← decode litlen bs
  if symbol < 256 then return (.literal (UInt8.ofNat symbol), bs)
  else if symbol = 256 then return (.endOfBlock, bs)
  else
    guard (symbol < 286)
    let (length, bs) ← matchLength symbol bs
    let (d, bs) ← matchDistance distance bs
    return (.copy length d, bs)

/-- A match: the bytes at a distance, one by one, those that it has written itself too. -/
def copy (distance : ℕ) : ℕ → Bytes → Bytes
  | 0, out => out
  | length + 1, out => copy distance length (out ++ [out.at' (out.length - distance)])

theorem matchLength_length_le {symbol length : ℕ} (h : matchLength symbol bs = some (length, rest)) :
    rest.length ≤ bs.length := by
  simp only [matchLength, Option.bind_eq_bind, Option.bind_eq_some_iff, Option.pure_def, Option.some.injEq,
    Prod.mk.injEq] at h
  obtain ⟨⟨extra, bs'⟩, hf, -, rfl⟩ := h
  exact field_length_le hf

theorem matchDistance_length_le {distance : List ℕ} {d : ℕ} (h : matchDistance distance bs = some (d, rest)) :
    rest.length ≤ bs.length := by
  simp only [matchDistance, Option.bind_eq_bind, Option.bind_eq_some_iff, Option.pure_def, Option.some.injEq,
    Prod.mk.injEq] at h
  obtain ⟨⟨symbol, bs'⟩, hd, -, -, ⟨extra, bs''⟩, hf, -, rfl⟩ := h
  exact (field_length_le hf).trans (decode_length_lt hd).le

theorem distanceBase_pos (i : ℕ) : 0 < distanceBase i := by
  induction i with
  | zero => exact Nat.one_pos
  | succ i ih => exact ih.trans_le (Nat.le_add_right _ _)

/-- An item takes at least one bit. -/
theorem item_length_lt {litlen distance : List ℕ} {i : Item} (h : item litlen distance bs = some (i, rest)) :
    rest.length < bs.length := by
  simp only [item, Option.bind_eq_bind, Option.bind_eq_some_iff] at h
  obtain ⟨⟨symbol, bs'⟩, hd, h⟩ := h
  have hlt := decode_length_lt hd
  dsimp only at h
  split at h
  · obtain ⟨-, rfl⟩ := Prod.mk.inj (Option.some.inj h)
    exact hlt
  split at h
  · obtain ⟨-, rfl⟩ := Prod.mk.inj (Option.some.inj h)
    exact hlt
  · simp only [Option.bind_eq_some_iff, Option.pure_def, Option.some.injEq, Prod.mk.injEq] at h
    obtain ⟨-, -, ⟨length, bs1⟩, hl, ⟨d, bs2⟩, hm, -, rfl⟩ := h
    exact ((matchDistance_length_le hm).trans (matchLength_length_le hl)).trans_lt hlt

/-- The items of a block, from the output before it. -/
def items (litlen distance : List ℕ) (out : Bytes) (bs : List Bool) : Option (Bytes × List Bool) :=
  match _h : item litlen distance bs with
  | none => none
  | some (.literal b, rest) => items litlen distance (out ++ [b]) rest
  | some (.endOfBlock, rest) => some (out, rest)
  | some (.copy length d, rest) =>
    if d ≤ out.length then items litlen distance (copy d length out) rest else none
termination_by bs.length
decreasing_by
  · exact item_length_lt _h
  · exact item_length_lt _h

section

variable {litlen distance : List ℕ} {out : Bytes}

theorem items_none (h : item litlen distance bs = none) : items litlen distance out bs = none := by
  rw [items]
  split <;> simp_all

theorem items_literal {b : UInt8} (h : item litlen distance bs = some (.literal b, rest)) :
    items litlen distance out bs = items litlen distance (out ++ [b]) rest := by
  rw [items]
  split <;> simp_all

theorem items_endOfBlock (h : item litlen distance bs = some (.endOfBlock, rest)) :
    items litlen distance out bs = some (out, rest) := by
  rw [items]
  split <;> simp_all

theorem items_copy (out : Bytes) {length d : ℕ} (h : item litlen distance bs = some (.copy length d, rest)) :
    items litlen distance out bs =
      if d ≤ out.length then items litlen distance (copy d length out) rest else none := by
  rw [items]
  split <;> simp_all

end

theorem copy_succ (distance length : ℕ) (out : Bytes) : copy distance (length + 1) out =
    copy distance length out ++ [(copy distance length out).at' ((copy distance length out).length - distance)] := by
  induction length generalizing out with
  | zero => rfl
  | succ length ih => rw [copy, ih, copy]

/-! ## Blocks -/

/-- A code length set without gaps: no bits that are no codeword. -/
def Complete (lengths : List ℕ) : Prop := (∀ n ∈ lengths, n ≤ 15) ∧ kraft 15 lengths = 2 ^ 15

instance (lengths : List ℕ) : Decidable (Complete lengths) := inferInstanceAs (Decidable (_ ∧ _))

/-- What a distance code may be: complete, empty, or a single codeword of one bit. -/
def DistanceCode (lengths : List ℕ) : Prop :=
  Complete lengths ∨ lengths.filter (· ≠ 0) = [] ∨ lengths.filter (· ≠ 0) = [1]

instance (lengths : List ℕ) : Decidable (DistanceCode lengths) := inferInstanceAs (Decidable (_ ∨ _))

/-- A stored block: at the next byte, its length, the length's complement, and its bytes. -/
def stored (out : Bytes) (bs : List Bool) : Option (Bytes × List Bool) := do
  let bs := bs.drop (bs.length % 8)
  let (length, bs) ← field 16 bs
  let (complement, bs) ← field 16 bs
  guard (length + complement = 2 ^ 16 - 1)
  let (s, bs) ← bytes length bs
  return (out ++ s, bs)

/-- The fixed literal/length code. -/
def fixedLitlen : List ℕ :=
  List.replicate 144 8 ++ List.replicate 112 9 ++ List.replicate 24 7 ++ List.replicate 8 8

/-- The fixed distance code. -/
def fixedDistance : List ℕ := List.replicate 32 5

theorem fixed_complete : Complete fixedLitlen ∧ Complete fixedDistance := by
  decide +kernel

theorem fixed_fits : Fits fixedLitlen ∧ Fits fixedDistance :=
  ⟨fits_of_kraft fixed_complete.1.1 fixed_complete.1.2.le, fits_of_kraft fixed_complete.2.1 fixed_complete.2.2.le⟩

/-- The order in which the lengths of the code length code stand. -/
def codeLengthOrder : List ℕ := [16, 17, 18, 0, 8, 7, 9, 6, 10, 5, 11, 4, 12, 3, 13, 2, 14, 1, 15]

/-- Some fields of three bits. -/
def fields : ℕ → List Bool → Option (List ℕ × List Bool)
  | 0, bs => some ([], bs)
  | n + 1, bs => do
    let (v, bs) ← field 3 bs
    let (vs, bs) ← fields n bs
    return (v :: vs, bs)

/-- The lengths of the code length code, from those that stand in the header. -/
def codeLengthCode (vs : List ℕ) : List ℕ :=
  (List.range 19).map fun symbol => vs.getD (codeLengthOrder.idxOf symbol) 0

/-- The code lengths one symbol of the code length code stands for, behind others. -/
def run (codeLengths : List ℕ) (before : List ℕ) (bs : List Bool) : Option (List ℕ × List Bool) := do
  let (symbol, bs) ← decode codeLengths bs
  if symbol < 16 then return ([symbol], bs)
  else if symbol = 16 then
    let last ← before.getLast?
    let (v, bs) ← field 2 bs
    return (List.replicate (3 + v) last, bs)
  else if symbol = 17 then
    let (v, bs) ← field 3 bs
    return (List.replicate (3 + v) 0, bs)
  else
    let (v, bs) ← field 7 bs
    return (List.replicate (11 + v) 0, bs)

theorem run_length_lt {codeLengths before vs : List ℕ} (h : run codeLengths before bs = some (vs, rest)) :
    rest.length < bs.length := by
  simp only [run, Option.bind_eq_bind, Option.bind_eq_some_iff] at h
  obtain ⟨⟨symbol, bs'⟩, hd, h⟩ := h
  have hlt := decode_length_lt hd
  dsimp only at h
  split at h
  · obtain ⟨-, rfl⟩ := Prod.mk.inj (Option.some.inj h)
    exact hlt
  split at h
  · simp only [Option.bind_eq_some_iff, Option.pure_def, Option.some.injEq, Prod.mk.injEq] at h
    obtain ⟨last, -, ⟨v, bs1⟩, hf, -, rfl⟩ := h
    exact (field_length_le hf).trans_lt hlt
  split at h <;>
  · simp only [Option.bind_eq_some_iff, Option.pure_def, Option.some.injEq, Prod.mk.injEq] at h
    obtain ⟨⟨v, bs1⟩, hf, -, rfl⟩ := h
    exact (field_length_le hf).trans_lt hlt

/-- Code lengths up to a total. -/
def runs (codeLengths : List ℕ) (total : ℕ) (before : List ℕ) (bs : List Bool) : Option (List ℕ × List Bool) :=
  if total ≤ before.length then some (before, bs)
  else
    match _h : run codeLengths before bs with
    | none => none
    | some (vs, rest) =>
      if before.length + vs.length ≤ total then runs codeLengths total (before ++ vs) rest else none
termination_by bs.length
decreasing_by exact run_length_lt _h

section

variable {codeLengths before vs : List ℕ} {total : ℕ}

theorem runs_full (h : total ≤ before.length) : runs codeLengths total before bs = some (before, bs) := by
  rw [runs, if_pos h]

theorem runs_none (hmore : before.length < total) (h : run codeLengths before bs = none) :
    runs codeLengths total before bs = none := by
  rw [runs, if_neg (not_le.2 hmore)]
  split <;> simp_all

theorem runs_some (hmore : before.length < total) (h : run codeLengths before bs = some (vs, rest)) :
    runs codeLengths total before bs =
      if before.length + vs.length ≤ total then runs codeLengths total (before ++ vs) rest else none := by
  rw [runs, if_neg (not_le.2 hmore)]
  split <;> simp_all

end

/-- The header of a dynamic block: its literal/length code and its distance code. -/
def header (bs : List Bool) : Option ((List ℕ × List ℕ) × List Bool) := do
  let (hlit, bs) ← field 5 bs
  let (hdist, bs) ← field 5 bs
  let (hclen, bs) ← field 4 bs
  guard (hlit + 257 ≤ 286)
  let (vs, bs) ← fields (hclen + 4) bs
  guard (Complete (codeLengthCode vs))
  let (lengths, bs) ← runs (codeLengthCode vs) (hlit + 257 + (hdist + 1)) [] bs
  let litlen := lengths.take (hlit + 257)
  let distance := lengths.drop (hlit + 257)
  guard (lengthOf litlen 256 ≠ 0 ∧ Complete litlen ∧ DistanceCode distance)
  return ((litlen, distance), bs)

/-- What follows the type of a block. -/
def body (type : ℕ) (out : Bytes) (bs : List Bool) : Option (Bytes × List Bool) :=
  if type = 0 then stored out bs
  else if type = 1 then items fixedLitlen fixedDistance out bs
  else if type = 2 then do
    let ((litlen, distance), bs) ← header bs
    items litlen distance out bs
  else none

/-- A block: whether it is the final one, and the output up to its end. -/
def block (out : Bytes) (bs : List Bool) : Option (Bool × Bytes × List Bool) := do
  let (final, bs) ← field 1 bs
  let (type, bs) ← field 2 bs
  let (out, bs) ← body type out bs
  return (final = 1, out, bs)

/-- Bytes read back. -/
theorem bytes_bits (s t : Bytes) : bytes s.length (bits (s ++ t)) = some (s, bits t) := by
  induction s with
  | nil => rfl
  | cons b s ih =>
    rw [List.length_cons, bytes, List.cons_append, bits_cons, field_lsbBits (UInt8.toNat_lt b)]
    simp [ih]

/-- Too few bits for some bytes. -/
theorem bytes_eq_none (h : bs.length < 8 * n) : bytes n bs = none := by
  induction n generalizing bs with
  | zero => exact absurd h (Nat.not_lt_zero _)
  | succ n ih =>
    rw [bytes]
    cases hf : field 8 bs with
    | none => rfl
    | some out =>
      obtain ⟨v, rest⟩ := out
      obtain ⟨hrest, hn⟩ := field_eq_some hf
      have hshort : rest.length < 8 * n := by
        rw [hrest, List.length_drop]
        omega
      simp [ih hshort]

/-- A little-endian word. -/
theorem field_word (a b : UInt8) (s : Bytes) :
    field 16 (bits (a :: b :: s)) = some (a.toNat + b.toNat * 2 ^ 8, bits s) := by
  have ha := UInt8.toNat_lt a
  have hb := UInt8.toNat_lt b
  have hword : a.toNat + b.toNat * 2 ^ 8 < 2 ^ 16 := by omega
  rw [bits_cons, bits_cons, ← List.append_assoc, ← lsbBits_add ha 8 b.toNat]
  exact field_lsbBits hword _

/-- A stored block that is cut short before its bytes. -/
theorem stored_short {out t : Bytes} (hbs : bs.drop (bs.length % 8) = bits t) (ht : t.length < 4) :
    stored out bs = none := by
  rw [stored, hbs]
  rcases t with - | ⟨b0, - | ⟨b1, t⟩⟩
  · rfl
  · have hlength : (bits [b0]).length < 16 := by
      rw [bits_length, List.length_singleton]
      omega
    rw [field_eq_none hlength]
    rfl
  · have hlength : (bits t).length < 16 := by
      rw [bits_length]
      rw [List.length_cons, List.length_cons] at ht
      omega
    rw [field_word]
    simp [field_eq_none hlength]

/-- A stored block whose header is whole. -/
theorem stored_of_header (out : Bytes) {t : Bytes} {b0 b1 b2 b3 : UInt8}
    (hbs : bs.drop (bs.length % 8) = bits (b0 :: b1 :: b2 :: b3 :: t)) : stored out bs =
      if b0.toNat + b1.toNat * 2 ^ 8 + (b2.toNat + b3.toNat * 2 ^ 8) = 2 ^ 16 - 1 then
        (bytes (b0.toNat + b1.toNat * 2 ^ 8) (bits t)).map fun (s, rest) => (out ++ s, rest)
      else none := by
  rw [stored, hbs, field_word]
  by_cases h : b0.toNat + b1.toNat * 2 ^ 8 + (b2.toNat + b3.toNat * 2 ^ 8) = 2 ^ 16 - 1
  · rw [if_pos h]
    simp only [Option.bind_eq_bind, Option.bind_some, field_word, guard, if_pos h, Option.pure_def, Option.map_eq_bind]
    rfl
  · rw [if_neg h]
    simp only [Option.bind_eq_bind, Option.bind_some, field_word, guard, if_neg h]
    rfl

theorem bytes_length_le {s : Bytes} (h : bytes n bs = some (s, rest)) : rest.length ≤ bs.length := by
  induction n generalizing bs s with
  | zero =>
    obtain ⟨-, rfl⟩ := Prod.mk.inj (Option.some.inj h)
    exact le_rfl
  | succ n ih =>
    simp only [bytes, Option.bind_eq_bind, Option.bind_eq_some_iff, Option.pure_def, Option.some.injEq,
      Prod.mk.injEq] at h
    obtain ⟨⟨b, bs'⟩, hf, ⟨t, bs''⟩, ht, -, rfl⟩ := h
    exact (ih ht).trans (field_length_le hf)

theorem fields_length_le {vs : List ℕ} (h : fields n bs = some (vs, rest)) : rest.length ≤ bs.length := by
  induction n generalizing bs vs with
  | zero =>
    obtain ⟨-, rfl⟩ := Prod.mk.inj (Option.some.inj h)
    exact le_rfl
  | succ n ih =>
    simp only [fields, Option.bind_eq_bind, Option.bind_eq_some_iff, Option.pure_def, Option.some.injEq,
      Prod.mk.injEq] at h
    obtain ⟨⟨v, bs'⟩, hf, ⟨t, bs''⟩, ht, -, rfl⟩ := h
    exact (ih ht).trans (field_length_le hf)

theorem copy_length (distance length : ℕ) (out : Bytes) : (copy distance length out).length = out.length + length := by
  induction length generalizing out with
  | zero => rfl
  | succ length ih =>
    rw [copy, ih, List.length_append, List.length_singleton]
    omega

/-- A block's items take up bits, and add to the output. -/
theorem items_length {litlen distance : List ℕ} {out out' : Bytes}
    (h : items litlen distance out bs = some (out', rest)) : rest.length ≤ bs.length ∧ out.length ≤ out'.length := by
  fun_induction items litlen distance out bs with
  | case1 out bs hnone => cases h
  | case2 out bs b bs' hitem ih =>
    have hlt := item_length_lt hitem
    obtain ⟨hrest, hout⟩ := ih h
    rw [List.length_append] at hout
    omega
  | case3 out bs bs' hitem =>
    obtain ⟨rfl, rfl⟩ := Prod.mk.inj (Option.some.inj h)
    exact ⟨(item_length_lt hitem).le, le_rfl⟩
  | case4 out bs length d bs' hitem hd ih =>
    have hlt := item_length_lt hitem
    obtain ⟨hrest, hout⟩ := ih h
    rw [copy_length] at hout
    omega
  | case5 out bs length d bs' hitem hd => cases h

theorem stored_length {out out' : Bytes} (h : stored out bs = some (out', rest)) :
    rest.length ≤ bs.length ∧ out.length ≤ out'.length := by
  simp only [stored, Option.bind_eq_bind, Option.bind_eq_some_iff, Option.pure_def, Option.some.injEq,
    Prod.mk.injEq] at h
  obtain ⟨⟨length, bs1⟩, h1, ⟨complement, bs2⟩, h2, -, -, ⟨s, bs3⟩, h3, rfl, rfl⟩ := h
  refine ⟨?_, ?_⟩
  · have hdrop : (bs.drop (bs.length % 8)).length ≤ bs.length := by
      rw [List.length_drop]
      omega
    exact (((bytes_length_le h3).trans (field_length_le h2)).trans (field_length_le h1)).trans hdrop
  · rw [List.length_append]
    exact Nat.le_add_right _ _

theorem runs_length_le {codeLengths before vs : List ℕ} {total : ℕ}
    (h : runs codeLengths total before bs = some (vs, rest)) : rest.length ≤ bs.length := by
  fun_induction runs codeLengths total before bs with
  | case1 before bs hfull =>
    obtain ⟨-, rfl⟩ := Prod.mk.inj (Option.some.inj h)
    exact le_rfl
  | case2 before bs hmore hnone => cases h
  | case3 before bs hmore us bs' hrun hfit ih => exact (ih h).trans (run_length_lt hrun).le
  | case4 before bs hmore us bs' hrun hfit => cases h

theorem header_length_le {codes : List ℕ × List ℕ} (h : header bs = some (codes, rest)) :
    rest.length ≤ bs.length := by
  simp only [header, Option.bind_eq_bind, Option.bind_eq_some_iff, Option.pure_def, Option.some.injEq,
    Prod.mk.injEq] at h
  obtain ⟨⟨hlit, bs1⟩, h1, ⟨hdist, bs2⟩, h2, ⟨hclen, bs3⟩, h3, -, -, ⟨vs, bs4⟩, h4, -, -, ⟨ls, bs5⟩, h5, -, -, -, rfl⟩ := h
  exact ((((runs_length_le h5).trans (fields_length_le h4)).trans (field_length_le h3)).trans
    (field_length_le h2)).trans (field_length_le h1)

theorem body_length {type : ℕ} {out out' : Bytes} (h : body type out bs = some (out', rest)) :
    rest.length ≤ bs.length ∧ out.length ≤ out'.length := by
  unfold body at h
  split_ifs at h
  · exact stored_length h
  · exact items_length h
  · obtain ⟨⟨codes, bs1⟩, h1, h2⟩ := Option.bind_eq_some_iff.1 h
    obtain ⟨hrest, hout⟩ := items_length h2
    exact ⟨hrest.trans (header_length_le h1), hout⟩

/-- A block takes at least its header's bits. -/
theorem block_length {final : Bool} {out out' : Bytes} (h : block out bs = some (final, out', rest)) :
    rest.length < bs.length ∧ out.length ≤ out'.length := by
  simp only [block, Option.bind_eq_bind, Option.bind_eq_some_iff, Option.pure_def, Option.some.injEq,
    Prod.mk.injEq] at h
  obtain ⟨⟨f, bs1⟩, h1, ⟨type, bs2⟩, h2, ⟨out3, bs3⟩, h3, -, rfl, rfl⟩ := h
  obtain ⟨rfl, hn1⟩ := field_eq_some h1
  obtain ⟨rfl, hn2⟩ := field_eq_some h2
  obtain ⟨hrest, hout⟩ := body_length h3
  rw [List.length_drop, List.length_drop] at hrest
  refine ⟨?_, hout⟩
  dsimp only at hrest ⊢
  omega

/-- Blocks up to the final one. -/
def blocks (out : Bytes) (bs : List Bool) : Option (Bytes × List Bool) :=
  match _h : block out bs with
  | none => none
  | some (true, out, rest) => some (out, rest)
  | some (false, out, rest) => blocks out rest
termination_by bs.length
decreasing_by exact (block_length _h).1

theorem blocks_final {out out' : Bytes} (h : block out bs = some (true, out', rest)) :
    blocks out bs = some (out', rest) := by
  rw [blocks]
  split <;> simp_all

theorem blocks_more {out out' : Bytes} (h : block out bs = some (false, out', rest)) :
    blocks out bs = blocks out' rest := by
  rw [blocks]
  split <;> simp_all

/-- A block, by its header's fields. -/
theorem block_of_type (out : Bytes) {final type : ℕ} {bs' bs'' : List Bool} (hfinal : field 1 bs = some (final, bs'))
    (htype : field 2 bs' = some (type, bs'')) :
    block out bs = (body type out bs'').map fun (out, rest) => (decide (final = 1), out, rest) := by
  rw [block, hfinal]
  simp [htype, Option.map_eq_bind]

/-- **The output of the stream** at the start of a byte string. -/
def inflate (s : Bytes) : Option Bytes := (blocks [] (bits s)).map Prod.fst

theorem blocks_length {out out' : Bytes} (h : blocks out bs = some (out', rest)) : out.length ≤ out'.length := by
  fun_induction blocks out bs with
  | case1 out bs hnone => cases h
  | case2 out bs out1 bs1 hblock =>
    obtain ⟨rfl, rfl⟩ := Prod.mk.inj (Option.some.inj h)
    exact (block_length hblock).2
  | case3 out bs out1 bs1 hblock ih => exact (block_length hblock).2.trans (ih h)

end Deflate
