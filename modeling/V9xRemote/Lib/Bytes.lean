import Mathlib.Tactic.Common
import Mathlib.Data.List.Infix
import Mathlib.Data.List.TakeWhile
import Mathlib.Algebra.Order.Ring.Nat

/-!
# Bytes, text and little-endian words

Byte strings are lists. A NUL-terminated text is the list of its bytes before the
NUL; `at` reads 0 from its end on, as such code sees it.
-/

/-- A byte string, or a text without its terminating NUL. -/
abbrev Bytes := List UInt8

namespace Bytes

/-- The bytes of an ASCII text. -/
def ascii (s : String) : Bytes := s.toList.map fun c => UInt8.ofNat c.toNat

/-- The byte at an index, 0 past the end. -/
def at' (s : Bytes) (i : ℕ) : UInt8 := s.getD i 0

/-- The 32-bit little-endian word at an offset. -/
def readU32 (s : Bytes) (i : ℕ) : UInt32 :=
  (s.at' i).toUInt32 ||| ((s.at' (i + 1)).toUInt32 <<< 8) |||
    ((s.at' (i + 2)).toUInt32 <<< 16) ||| ((s.at' (i + 3)).toUInt32 <<< 24)

/-- The 16-bit little-endian word at an offset. -/
def readU16 (s : Bytes) (i : ℕ) : UInt16 :=
  (s.at' i).toUInt16 ||| ((s.at' (i + 1)).toUInt16 <<< 8)

/-- The little-endian bytes of a 32-bit word. -/
def writeU32 (v : UInt32) : Bytes :=
  [v.toUInt8, (v >>> 8).toUInt8, (v >>> 16).toUInt8, (v >>> 24).toUInt8]

/-- The little-endian bytes of a 16-bit word. -/
def writeU16 (v : UInt16) : Bytes := [v.toUInt8, (v >>> 8).toUInt8]

@[simp] theorem writeU32_length (v : UInt32) : (writeU32 v).length = 4 := rfl

theorem toNat_shiftLeft_byte (b : UInt8) {k : UInt32} (hk : k.toNat ≤ 24) :
    (b.toUInt32 <<< k).toNat = 2 ^ k.toNat * b.toNat := by
  have hb := b.toNat_lt
  have hpow : 2 ^ k.toNat ≤ 2 ^ 24 := Nat.pow_le_pow_right (by decide) hk
  have hlt : 2 ^ k.toNat * b.toNat < 2 ^ 32 := by
    calc 2 ^ k.toNat * b.toNat ≤ 2 ^ 24 * b.toNat := Nat.mul_le_mul_right _ hpow
      _ < 2 ^ 32 := by omega
  rw [UInt32.toNat_shiftLeft, UInt8.toNat_toUInt32, Nat.mod_eq_of_lt (by omega : k.toNat < 32),
    Nat.shiftLeft_eq, Nat.mul_comm, Nat.mod_eq_of_lt hlt]

/-- A word is the sum of its bytes. -/
theorem toNat_readU32 (s : Bytes) (i : ℕ) :
    (s.readU32 i).toNat = (s.at' i).toNat + 2 ^ 8 * (s.at' (i + 1)).toNat +
      2 ^ 16 * (s.at' (i + 2)).toNat + 2 ^ 24 * (s.at' (i + 3)).toNat := by
  have h0 := (s.at' i).toNat_lt
  have h1 := (s.at' (i + 1)).toNat_lt
  have h2 := (s.at' (i + 2)).toNat_lt
  have h3 := (s.at' (i + 3)).toNat_lt
  -- the bytes do not overlap, so `|||` adds
  have hor : ∀ k a b : ℕ, b < 2 ^ k → b ||| 2 ^ k * a = b + 2 ^ k * a := fun k a b hb => by
    rw [Nat.or_comm, ← Nat.two_pow_add_eq_or_of_lt hb, Nat.add_comm]
  have e8 : (8 : UInt32).toNat = 8 := rfl
  have e16 : (16 : UInt32).toNat = 16 := rfl
  have e24 : (24 : UInt32).toNat = 24 := rfl
  unfold readU32
  rw [UInt32.toNat_or, UInt32.toNat_or, UInt32.toNat_or, toNat_shiftLeft_byte _ (by decide),
    toNat_shiftLeft_byte _ (by decide), toNat_shiftLeft_byte _ (by decide), UInt8.toNat_toUInt32, e8, e16, e24,
    hor 8 _ _ (by omega), hor 16 _ _ (by omega), hor 24 _ _ (by omega)]

/-- **A word reads back as it was written.** -/
theorem readU32_writeU32 (v : UInt32) (rest : Bytes) : (writeU32 v ++ rest).readU32 0 = v := by
  have hv := v.toNat_lt
  have e8 : (8 : UInt32).toNat % 32 = 8 := rfl
  have e16 : (16 : UInt32).toNat % 32 = 16 := rfl
  have e24 : (24 : UInt32).toNat % 32 = 24 := rfl
  apply UInt32.toNat_inj.1
  rw [toNat_readU32]
  simp only [writeU32, at', List.cons_append, List.getD_cons_zero, List.getD_cons_succ, UInt32.toNat_toUInt8,
    UInt32.toNat_shiftRight, Nat.zero_add, Nat.shiftRight_eq_div_pow, e8, e16, e24]
  omega

theorem at'_append_right (a b : Bytes) (i : ℕ) : (a ++ b).at' (a.length + i) = b.at' i := by
  simp [at', List.getD_eq_getElem?_getD, List.getElem?_append_right]

theorem at'_drop (s : Bytes) (n i : ℕ) : at' (s.drop n) i = s.at' (n + i) := by
  simp [at', List.getD_eq_getElem?_getD, List.getElem?_drop]

theorem readU32_append_right (a b : Bytes) (i : ℕ) : (a ++ b).readU32 (a.length + i) = b.readU32 i := by
  simp only [readU32, Nat.add_assoc, at'_append_right]

theorem readU32_drop (s : Bytes) (n i : ℕ) : readU32 (s.drop n) i = s.readU32 (n + i) := by
  simp only [readU32, Nat.add_assoc, at'_drop]

/-- ASCII upper case. -/
def upper (b : UInt8) : UInt8 := if 97 ≤ b ∧ b ≤ 122 then b - 32 else b

/-- ASCII lower case. -/
def lower (b : UInt8) : UInt8 := if 65 ≤ b ∧ b ≤ 90 then b + 32 else b

/-- A buffer read back as text: its bytes before the first NUL. -/
def cstr (s : Bytes) : Bytes := s.takeWhile (· ≠ 0)

theorem cstr_append {text : Bytes} (h : 0 ∉ text) (rest : Bytes) : cstr (text ++ 0 :: rest) = text := by
  have hpass : ∀ b ∈ text, decide (b ≠ 0) = true := fun b hb => decide_eq_true fun hzero => h (hzero ▸ hb)
  rw [cstr, List.takeWhile_append_of_pos hpass, List.takeWhile_cons_of_neg (by decide), List.append_nil]

theorem cstr_plain {text : Bytes} (h : 0 ∉ text) : cstr text = text := by
  apply List.takeWhile_eq_self_iff.2
  intro ch hch
  simp only [decide_eq_true_eq]
  exact fun hzero => h (hzero ▸ hch)

/-! ## Decimal numbers -/

/-- The digits of `n` in front of `acc`, with `fuel` more than the digits needed. -/
def decimalAux : ℕ → ℕ → Bytes → Bytes
  | 0, _, acc => acc
  | fuel + 1, n, acc =>
    let acc' := UInt8.ofNat (48 + n % 10) :: acc
    if n / 10 = 0 then acc' else decimalAux fuel (n / 10) acc'

/-- The shortest decimal text of a number. -/
def decimal (n : ℕ) : Bytes := decimalAux (n + 1) n []

/-- The number a text of digits spells. -/
def undecimal (s : Bytes) : ℕ := s.foldl (fun n b => 10 * n + (b.toNat - 48)) 0

theorem digit_toNat (n : ℕ) : (UInt8.ofNat (48 + n % 10)).toNat = 48 + n % 10 := by
  rw [UInt8.toNat_ofNat']
  omega

theorem undecimal_decimalAux (fuel n : ℕ) (acc : Bytes) (h : n < fuel) :
    undecimal (decimalAux fuel n acc) = acc.foldl (fun n b => 10 * n + (b.toNat - 48)) n := by
  induction fuel generalizing n acc with
  | zero => omega
  | succ fuel ih =>
    unfold decimalAux
    dsimp only
    split
    · rw [undecimal, List.foldl_cons, digit_toNat]
      congr 1; omega
    · rw [ih _ _ (by omega), List.foldl_cons, digit_toNat]
      congr 1; omega

/-- **The decimal text determines the number.** -/
theorem undecimal_decimal (n : ℕ) : undecimal (decimal n) = n :=
  undecimal_decimalAux _ _ _ (Nat.lt_succ_self n)

theorem decimal_injective : Function.Injective decimal := fun a b h => by
  rw [← undecimal_decimal a, h, undecimal_decimal]

theorem decimalAux_length (fuel n k : ℕ) (acc : Bytes) (hk : n < 10 ^ (k + 1)) :
    (decimalAux fuel n acc).length ≤ k + 1 + acc.length := by
  induction fuel generalizing n k acc with
  | zero => simp [decimalAux]
  | succ fuel ih =>
    unfold decimalAux
    dsimp only
    split
    · simp only [List.length_cons]; omega
    · cases k with
      | zero => omega
      | succ k =>
        have := ih (n / 10) k (UInt8.ofNat (48 + n % 10) :: acc) (by rw [pow_succ] at hk; omega)
        simp only [List.length_cons] at this
        omega

/-- A number below `10 ^ (k + 1)` has at most `k + 1` digits. -/
theorem decimal_length {n k : ℕ} (hk : n < 10 ^ (k + 1)) : (decimal n).length ≤ k + 1 :=
  decimalAux_length (n + 1) n k [] hk

/-- More fuel than the digits need changes nothing. -/
theorem decimalAux_fuel {a b n : ℕ} (acc : Bytes) (ha : n < 10 ^ (a + 1)) (hb : n < 10 ^ (b + 1)) :
    decimalAux (a + 1) n acc = decimalAux (b + 1) n acc := by
  induction a generalizing b n acc with
  | zero =>
    have hlast : n / 10 = 0 := by omega
    unfold decimalAux
    simp [hlast]
  | succ a ih =>
    unfold decimalAux
    dsimp only
    split
    · rfl
    · rename_i hmore
      cases b with
      | zero => omega
      | succ b => exact ih _ (by rw [pow_succ] at ha; omega) (by rw [pow_succ] at hb; omega)

/-- A text of decimal digits for a number. -/
def Spells (text : Bytes) (n : ℕ) : Prop := text ≠ [] ∧ (∀ b ∈ text, 48 ≤ b.toNat ∧ b.toNat ≤ 57) ∧ undecimal text = n

theorem decimalAux_digits (fuel n : ℕ) (acc : Bytes) (hacc : ∀ b ∈ acc, 48 ≤ b.toNat ∧ b.toNat ≤ 57) :
    ∀ b ∈ decimalAux fuel n acc, 48 ≤ b.toNat ∧ b.toNat ≤ 57 := by
  induction fuel generalizing n acc with
  | zero => exact hacc
  | succ fuel ih =>
    have hmore : ∀ b ∈ UInt8.ofNat (48 + n % 10) :: acc, 48 ≤ b.toNat ∧ b.toNat ≤ 57 := by
      intro b hb
      rcases List.mem_cons.1 hb with rfl | hb
      · rw [digit_toNat]
        omega
      · exact hacc b hb
    unfold decimalAux
    dsimp only
    split
    · exact hmore
    · exact ih _ _ hmore

theorem decimalAux_ne_nil (fuel n : ℕ) {acc : Bytes} (hacc : acc ≠ []) : decimalAux fuel n acc ≠ [] := by
  induction fuel generalizing n acc with
  | zero => exact hacc
  | succ fuel ih =>
    unfold decimalAux
    dsimp only
    split
    · exact List.cons_ne_nil _ _
    · exact ih _ (List.cons_ne_nil _ _)

theorem decimal_spells (n : ℕ) : Spells (decimal n) n := by
  refine ⟨?_, decimalAux_digits _ _ _ (by simp), undecimal_decimal n⟩
  unfold decimal decimalAux
  dsimp only
  split
  · exact List.cons_ne_nil _ _
  · exact decimalAux_ne_nil _ _ (List.cons_ne_nil _ _)

theorem undecimal_lt {text : Bytes} (h : ∀ b ∈ text, 48 ≤ b.toNat ∧ b.toNat ≤ 57) : undecimal text < 10 ^ text.length := by
  induction text using List.reverseRecOn with
  | nil => exact Nat.one_pos
  | append_singleton text b ih =>
    have hb := h b (List.mem_append_right _ (List.mem_singleton_self b))
    have hrest := ih fun c hc => h c (List.mem_append_left _ hc)
    unfold undecimal at hrest ⊢
    rw [List.foldl_append, List.length_append, List.length_singleton, pow_succ]
    simp only [List.foldl_cons, List.foldl_nil]
    omega

/-- **No text of a number is shorter** than its decimal text. -/
theorem decimal_shortest {text : Bytes} {n : ℕ} (h : Spells text n) : (decimal n).length ≤ text.length := by
  obtain ⟨hne, hdigits, hn⟩ := h
  have hlt := undecimal_lt hdigits
  rw [hn] at hlt
  obtain ⟨k, hk⟩ : ∃ k, text.length = k + 1 := Nat.exists_eq_succ_of_ne_zero (mt List.length_eq_zero_iff.1 hne)
  rw [hk] at hlt ⊢
  exact decimal_length hlt

end Bytes
