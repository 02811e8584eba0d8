import V9xRemote.Proof.Ed25519Field

/-!
# The scalar arithmetic of Ed25519

A long division in base two keeps the remainder below `edL`; a product and a sum of scalars are
columns whose bytes are carried out once.
-/

namespace V9xRemote

open Bytes Limbs Ladder Lucas Edwards

/-! ## Remainders -/

theorem edL_bytes : ed25519LBytes.length = 32 ∧ leNat ed25519LBytes = edL := by decide

theorem edL_eq : edL = 7237005577332262213973186563042994240857116359379907606001950938285454250989 := by decide

/-- The bit that leaves a byte. -/
theorem shiftIn_out (x : UInt8) : ((x >>> 7) &&& 1).toNat = x.toNat / 128 := by
  have hx := x.toNat_lt
  have hseven : (7 : UInt8).toNat % 8 = 7 := rfl
  have hone : (1 : UInt8).toNat = 2 ^ 1 - 1 := rfl
  rw [UInt8.toNat_and, UInt8.toNat_shiftRight, hseven, Nat.shiftRight_eq_div_pow, hone, Nat.and_two_pow_sub_one_eq_mod]
  omega

theorem shiftIn_spec {s : Bytes} {c : UInt8} (hc : c.toNat ≤ 1) :
    (shiftIn c s).length = s.length ∧ ∃ out ≤ 1, leNat (shiftIn c s) + 256 ^ s.length * out = 2 * leNat s + c.toNat := by
  induction s generalizing c with
  | nil => exact ⟨rfl, c.toNat, hc, by simp [shiftIn]⟩
  | cons x s ih =>
    have hx := x.toNat_lt
    have hout := shiftIn_out x
    have hbyte : ((x <<< 1) ||| c).toNat = 2 * x.toNat % 256 + c.toNat := by
      have hshift : (x <<< 1).toNat = 2 ^ 1 * (x.toNat % 128) := by
        have hone : (1 : UInt8).toNat % 8 = 1 := rfl
        rw [UInt8.toNat_shiftLeft, hone, Nat.shiftLeft_eq]
        omega
      have hlow : c.toNat < 2 ^ 1 := by omega
      rw [UInt8.toNat_or, hshift, ← Nat.two_pow_add_eq_or_of_lt hlow]
      omega
    have hsmall : ((x >>> 7) &&& 1).toNat ≤ 1 := by omega
    obtain ⟨hlength, out, hle, hvalue⟩ := ih hsmall
    refine ⟨congrArg (· + 1) hlength, out, hle, ?_⟩
    rw [hout] at hvalue
    rw [shiftIn, leNat_cons, leNat_cons, List.length_cons, hbyte, pow_succ, mul_comm _ 256, mul_assoc]
    omega

/-- **One step of the division.** -/
theorem scalarReduceStep_spec {r : Bytes} {k : ℕ} (hlength : r.length = 32) (hvalue : leNat r = k % edL) (bit : Bool) :
    (scalarReduceStep bit r).length = 32 ∧ leNat (scalarReduceStep bit r) = (2 * k + bit.toNat) % edL := by
  obtain ⟨hL, hLvalue⟩ := edL_bytes
  have hbit : bit.toNat ≤ 1 := Bool.toNat_le bit
  have hincoming : (if bit then (1 : UInt8) else 0).toNat = bit.toNat := by cases bit <;> rfl
  have hpow : (256 : ℕ) ^ 32 = 2 ^ 256 := by norm_num
  obtain ⟨hshiftLength, out, -, hshift⟩ := shiftIn_spec (s := r) (hincoming.trans_le hbit)
  rw [hincoming, hlength, hpow, hvalue] at hshift
  rw [hlength] at hshiftLength
  have hge := bytesGe_all hshiftLength hL
  unfold scalarReduceStep
  dsimp only
  generalize shiftIn (if bit then 1 else 0) r = shifted at hshiftLength hshift hge ⊢
  rw [hLvalue] at hge
  have hmod : (2 * k + bit.toNat) % edL = (2 * (k % edL) + bit.toNat) % edL :=
    (((Nat.mod_modEq k edL).mul_left 2).add_right bit.toNat).symm
  have hnum := edL_eq
  have hlt := Nat.mod_lt k (show edL > 0 by omega)
  rw [hmod]
  generalize k % edL = m at hshift hlt ⊢
  -- nothing leaves the 32 bytes
  have hnone : out = 0 := by
    by_contra hmore
    omega
  rw [hnone, Nat.mul_zero, Nat.add_zero] at hshift
  rw [hshift] at hge
  by_cases hle : edL ≤ 2 * m + bit.toNat
  · obtain ⟨hsubLength, hsub⟩ := bytesSub_all hshiftLength hL (by rw [hLvalue, hshift]; exact hle)
    rw [if_pos (hge.2 hle), hsub, hLvalue, hshift, Nat.mod_eq_sub_mod hle, Nat.mod_eq_of_lt (by omega)]
    exact ⟨hsubLength, rfl⟩
  · rw [if_neg fun h => hle (hge.1 h), hshift, Nat.mod_eq_of_lt (by omega)]
    exact ⟨hshiftLength, rfl⟩

/-- **Reduction** leaves the remainder by `edL`. -/
theorem scalarReduce_spec {wide : Bytes} (h : wide.length = 64) :
    (scalarReduce wide).length = 32 ∧ leNat (scalarReduce wide) = leNat wide % edL := by
  refine ladder_rel (R := fun r k => r.length = 32 ∧ leNat r = k % edL) ?_ _ ?_ ?_
  · intro bit r k hr
    exact scalarReduceStep_spec hr.1 hr.2 bit
  · intro i _
    exact byteBit_eq wide i
  · have hlt := leNat_lt wide
    have hpow : (256 : ℕ) ^ 64 = 2 ^ 512 := (pow_mul 2 8 64).symm
    rw [h, hpow] at hlt
    rw [Nat.div_eq_of_lt hlt, Nat.zero_mod]
    decide

/-! ## Products -/

theorem muladdRows_spec {columns a b c : List UInt32} {B : ℕ} (hlength : a.length + b.length ≤ columns.length)
    (hac : a.length = c.length) (hcolumns : ∀ x ∈ columns, x.toNat ≤ B) (ha : ∀ x ∈ a, x.toNat < 256)
    (hb : ∀ x ∈ b, x.toNat < 256) (hc : ∀ x ∈ c, x.toNat < 256) (hfits : B + a.length * 65025 + 255 < 2 ^ 32) :
    Columns columns (muladdRows b columns a c) (limbValue a * limbValue b + limbValue c) (B + a.length * 65025 + 255) := by
  induction a generalizing columns c B with
  | nil =>
    obtain rfl := List.length_eq_zero_iff.1 hac.symm
    unfold muladdRows
    refine ⟨rfl, ?_, fun x hx => ?_⟩
    · rw [limbValue_nil, Nat.zero_mul, Nat.add_zero]
    · have := hcolumns x hx
      omega
  | cons limb a ih =>
    obtain - | ⟨n, c⟩ := c
    · exact absurd hac (by simp)
    rw [List.length_cons] at hlength hfits
    have hlimb := ha limb List.mem_cons_self
    have hn := hc n List.mem_cons_self
    have hproducts : ∀ y ∈ b, limb.toNat * y.toNat ≤ 65025 := fun y hy =>
      Nat.mul_le_mul (Nat.le_of_lt_succ hlimb) (Nat.le_of_lt_succ (hb y hy))
    have hrow : Columns columns (addRow limb columns b) (limb.toNat * limbValue b) (B + 65025) :=
      addRow_spec (by omega) hcolumns hproducts (by omega)
    unfold muladdRows
    generalize addRow limb columns b = row at hrow ⊢
    obtain - | ⟨column, row⟩ := row
    · have hempty := hrow.length
      rw [List.length_nil] at hempty
      omega
    · have hrowLength := hrow.length
      rw [List.length_cons] at hrowLength
      have hcolumn := hrow.le column List.mem_cons_self
      have hsum : (column + n).toNat = column.toNat + n.toNat := by
        rw [UInt32.toNat_add]
        exact Nat.mod_eq_of_lt (by omega)
      have hrest : Columns row (muladdRows b row a c) (limbValue a * limbValue b + limbValue c)
          (B + 65025 + a.length * 65025 + 255) :=
        ih (by omega) (by simpa using hac) (fun x hx => hrow.le x (List.mem_cons_of_mem _ hx))
          (fun x hx => ha x (List.mem_cons_of_mem _ hx)) (fun x hx => hc x (List.mem_cons_of_mem _ hx)) (by omega)
      have hvalue := hrow.value
      rw [limbValue_cons] at hvalue
      constructor
      · rw [List.length_cons, hrest.length, hrowLength]
      · rw [limbValue_cons, limbValue_cons, limbValue_cons, hrest.value, hsum]
        linear_combination hvalue
      · refine List.forall_mem_cons.2 ⟨?_, fun x hx => ?_⟩
        · rw [hsum, List.length_cons]
          omega
        · have := hrest.le x hx
          rw [List.length_cons]
          omega

theorem muladdBytes_spec {columns : List UInt32} {carry : UInt32} (hcarry : carry.toNat ≤ 2 ^ 24)
    (h : ∀ x ∈ columns, x.toNat + 2 ^ 24 < 2 ^ 32) : (muladdBytes carry columns).length = columns.length ∧
    ∃ out, leNat (muladdBytes carry columns) + 256 ^ columns.length * out = carry.toNat + limbValue columns := by
  induction columns generalizing carry with
  | nil => exact ⟨rfl, carry.toNat, by simp [muladdBytes]⟩
  | cons column rest ih =>
    have hcolumn := h column List.mem_cons_self
    have hsum : (carry + column).toNat = carry.toNat + column.toNat := by
      rw [UInt32.toNat_add]
      exact Nat.mod_eq_of_lt (by omega)
    have hhigh : ((carry + column) >>> 8).toNat = (carry.toNat + column.toNat) / 256 := by rw [word_high, hsum]
    have hlow : ((carry + column) &&& 0xFF).toUInt8.toNat = (carry.toNat + column.toNat) % 256 := by
      rw [UInt32.toNat_toUInt8, word_low, hsum]
      exact Nat.mod_mod _ _
    have hsmall : ((carry + column) >>> 8).toNat ≤ 2 ^ 24 := by omega
    obtain ⟨hlength, out, hvalue⟩ := ih hsmall fun x hx => h x (List.mem_cons_of_mem _ hx)
    rw [hhigh] at hvalue
    refine ⟨congrArg (· + 1) hlength, out, ?_⟩
    rw [muladdBytes, leNat_cons, limbValue_cons, List.length_cons, hlow, pow_succ, mul_comm _ 256, mul_assoc]
    omega

/-- The columns of a product and a sum of scalars. -/
theorem scalarMuladd_columns {a b c : Bytes} (ha : a.length = 32) (hb : b.length = 32) (hc : c.length = 32) :
    Columns (List.replicate 64 0) (muladdRows (feFromBytes b) (List.replicate 64 0) (feFromBytes a) (feFromBytes c))
      (leNat a * leNat b + leNat c) (32 * 65025 + 255) := by
  have hsize : ∀ s : Bytes, s.length = 32 → (feFromBytes s).length = 32 := fun s hs => (feFromBytes_length s).trans hs
  have hcolumns := muladdRows_spec (by rw [hsize a ha, hsize b hb, feColumns_length]) ((hsize a ha).trans (hsize c hc).symm)
    (feColumns_zero 64) (feFromBytes_lt a) (feFromBytes_lt b) (feFromBytes_lt c) (by rw [hsize a ha]; omega)
  rw [hsize a ha, Nat.zero_add, feFromBytes, feFromBytes, feFromBytes, limbValue_bytes, limbValue_bytes,
    limbValue_bytes] at hcolumns
  exact hcolumns

/-- The sum fits its 64 bytes. -/
theorem scalarMuladd_fits {a b c : Bytes} (ha : a.length = 32) (hb : b.length = 32) (hc : c.length = 32) :
    leNat a * leNat b + leNat c < 256 ^ 64 := by
  have hA := leNat_lt a
  have hB := leNat_lt b
  have hC := leNat_lt c
  have hpow : (256 : ℕ) ^ 32 = 2 ^ 256 := by norm_num
  have hpow' : (256 : ℕ) ^ 64 = 2 ^ 256 * 2 ^ 256 := by norm_num
  rw [ha, hpow] at hA
  rw [hb, hpow] at hB
  rw [hc, hpow] at hC
  have hproduct : leNat a * leNat b ≤ (2 ^ 256 - 1) * (2 ^ 256 - 1) := Nat.mul_le_mul (by omega) (by omega)
  omega

/-- **A product and a sum of scalars.** -/
theorem scalarMuladd_spec {a b c : Bytes} (ha : a.length = 32) (hb : b.length = 32) (hc : c.length = 32) :
    (scalarMuladd a b c).length = 32 ∧ leNat (scalarMuladd a b c) = (leNat a * leNat b + leNat c) % edL := by
  have hcolumns := scalarMuladd_columns ha hb hc
  have hfits := scalarMuladd_fits ha hb hc
  unfold scalarMuladd
  generalize muladdRows (feFromBytes b) (List.replicate 64 0) (feFromBytes a) (feFromBytes c) = columns at hcolumns ⊢
  obtain ⟨hcount, hvalue, hle⟩ := hcolumns
  rw [feColumns_length] at hcount
  rw [limbValue_zeros, Nat.zero_add] at hvalue
  have hnone : (0 : UInt32).toNat ≤ 2 ^ 24 := by decide
  obtain ⟨hwide, out, hbytesValue⟩ := muladdBytes_spec hnone fun x hx => by
    have := hle x hx
    omega
  have hstart : (0 : UInt32).toNat = 0 := rfl
  rw [hcount] at hwide hbytesValue
  obtain ⟨hreduced, hresult⟩ := scalarReduce_spec hwide
  refine ⟨hreduced, ?_⟩
  rw [hvalue, hstart] at hbytesValue
  have hout : out = 0 := by
    by_contra hmore
    omega
  rw [hout, Nat.mul_zero, Nat.add_zero, Nat.zero_add] at hbytesValue
  rw [hresult, hbytesValue]

end V9xRemote
