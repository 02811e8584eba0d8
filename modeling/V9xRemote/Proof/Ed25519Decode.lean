import V9xRemote.Proof.Ed25519Point

/-!
# Decoding the points of Ed25519

A string decodes to a point if and only if it is its encoding, and to one point at most. The root
that the code takes is found where one exists: by Fermat, the power it tests is `1` or `-1` there.
-/

namespace V9xRemote

open Bytes Limbs Ladder Lucas Edwards

/-! ## Encodings of points -/

/-- **Strict decoding**: `y` is below `edP`, and the top bit is the parity of `x`; a zero has no
odd form. -/
structure Decodes (bytes : Bytes) (P : EdGroup) : Prop where
  canonical : leNat bytes % 2 ^ 255 < edP
  y : P.y = (leNat bytes % 2 ^ 255 : ℕ)
  sign : P.x.val % 2 = leNat bytes / 2 ^ 255

variable {bytes : Bytes} {P Q : EdGroup}

theorem Decodes.y_val (h : Decodes bytes P) : P.y.val = leNat bytes % 2 ^ 255 := by
  rw [h.y, ZMod.val_natCast]
  exact Nat.mod_eq_of_lt h.canonical

theorem decodes_iff : Decodes bytes P ↔ leNat bytes = edEncode P := by
  have hp := edP_eq
  have hlt := ZMod.val_lt P.y
  unfold edEncode
  constructor
  · intro h
    rw [h.y_val, h.sign]
    exact (Nat.mod_add_div _ _).symm
  · intro h
    have hmod : leNat bytes % 2 ^ 255 = P.y.val := by
      rw [h]
      omega
    refine ⟨?_, ?_, ?_⟩
    · rw [hmod]
      exact hlt
    · rw [hmod]
      exact (ZMod.natCast_zmod_val P.y).symm
    · rw [h]
      omega

/-- The denominator of `x ^ 2`. -/
theorem edDenominator_ne (y : EdField) : edD * y ^ 2 + 1 ≠ 0 := by
  intro h
  have hy : y ≠ 0 := by
    rintro rfl
    rw [zero_pow two_ne_zero, mul_zero, zero_add] at h
    exact one_ne_zero h
  apply edD_not_square
  refine ⟨edRoot / y, ?_⟩
  rw [div_mul_div_comm, edRoot_sq, eq_div_iff (mul_ne_zero hy hy)]
  linear_combination h

/-- The equation of the curve, for `x`. -/
theorem on_iff {x y : EdField} : edCurve.On x y ↔ (edD * y ^ 2 + 1) * x ^ 2 = y ^ 2 - 1 := by
  change -1 * x ^ 2 + y ^ 2 = 1 + edD * x ^ 2 * y ^ 2 ↔ _
  constructor
  · intro h
    linear_combination -h
  · intro h
    linear_combination -h

theorem point_x_cases (h : P.y = Q.y) : P.x = Q.x ∨ P.x = -Q.x := by
  have hP := on_iff.1 P.on
  have hQ := on_iff.1 Q.on
  rw [h, ← hQ] at hP
  have hsquare := mul_left_cancel₀ (edDenominator_ne Q.y) hP
  exact sq_eq_sq_iff_eq_or_eq_neg.1 hsquare

/-- An element and its negative have different parities. -/
theorem neg_parity {x : EdField} (h : x ≠ 0) : (-x).val % 2 ≠ x.val % 2 := by
  have hp := edP_eq
  have hlt := ZMod.val_lt x
  have : NeZero x := ⟨h⟩
  rw [ZMod.val_neg_of_ne_zero x]
  omega

/-- **A string is the encoding of one point.** -/
theorem edEncode_injective (h : edEncode P = edEncode Q) : P = Q := by
  have hp := edP_eq
  have hPlt := ZMod.val_lt P.y
  have hQlt := ZMod.val_lt Q.y
  unfold edEncode at h
  have hyval : P.y.val = Q.y.val := by omega
  have hsign : P.x.val % 2 = Q.x.val % 2 := by omega
  have hy : P.y = Q.y := ZMod.val_injective edP hyval
  apply Point.ext
  · rcases point_x_cases hy with hx | hx
    · exact hx
    · by_cases hzero : Q.x = 0
      · rw [hx, hzero, neg_zero]
      · rw [hx] at hsign
        exact absurd hsign (neg_parity hzero)
  · exact hy

theorem Decodes.unique (hP : Decodes bytes P) (hQ : Decodes bytes Q) : P = Q :=
  edEncode_injective ((decodes_iff.1 hP).symm.trans (decodes_iff.1 hQ))

/-! ## The root -/

/-- The exponent of the candidate root. -/
theorem edExponent_eq : leNat (ed25519Exponent 0xFD 0x0F) = (edP - 5) / 8 ∧
    (edP - 5) / 8 + (edP - 5) / 8 + 1 + ((edP - 5) / 8 + (edP - 5) / 8 + 1) = (edP - 1) / 2 ∧
      (edP - 1) / 2 + (edP - 1) / 2 = edP - 1 := by decide +kernel

variable {fu fv : Fe} {u v : EdField}

/-- The candidate, with the power that decides. -/
theorem decodeCandidate_is (hu : FeIs fu u) (hv : FeIs fv v) : ∃ r, FeIs (decodeCandidate fu fv) r ∧
    v * r ^ 2 = u * (u * v ^ 7) ^ ((edP - 5) / 8 + (edP - 5) / 8 + 1) := by
  have hv3 := hv.square.mul hv
  have hw := (hv3.square.mul hv).mul hu
  have ht := hw.pow (e := ed25519Exponent 0xFD 0x0F) rfl
  rw [edExponent_eq.1] at ht
  refine ⟨_, (hu.mul hv3).mul ht, ?_⟩
  have hbase : v * v * v * (v * v * v) * v * u = u * v ^ 7 := by ring
  rw [hbase, pow_succ, pow_add]
  ring

/-- **Step 3** finds a root, and says so where there is none. -/
theorem decodeRoot_spec (hu : FeIs fu u) (hv : FeIs fv v) (hne : v ≠ 0) :
    (∃ x r, decodeRoot fu fv = some x ∧ FeIs x r ∧ v * r ^ 2 = u) ∨
      decodeRoot fu fv = none ∧ ∀ r, v * r ^ 2 ≠ u := by
  obtain ⟨r, hr, hpower⟩ := decodeCandidate_is hu hv
  have hvx2 := hr.square.mul hv
  have hneg := feZero_is.sub hu
  have heq := hvx2.equal_iff hu
  have heqNeg := hvx2.equal_iff hneg
  have hcomm : r * r * v = v * r ^ 2 := by ring
  rw [hcomm] at heq heqNeg
  rw [zero_sub] at heqNeg
  unfold decodeRoot
  dsimp only
  by_cases hroot : v * r ^ 2 = u
  · rw [if_pos (heq.2 hroot)]
    exact Or.inl ⟨_, r, rfl, hr, hroot⟩
  rw [if_neg fun h => hroot (heq.1 h)]
  by_cases hother : v * r ^ 2 = -u
  · -- a root of `-u / v` times the root of `-1`
    rw [if_pos (heqNeg.2 hother)]
    have hturn : FeIs (feFromBytes ed25519SqrtM1Bytes) edRoot := feFromBytes_is rfl
    refine Or.inl ⟨_, r * edRoot, rfl, hr.mul hturn, ?_⟩
    linear_combination v * r ^ 2 * edRoot_sq - hother
  rw [if_neg fun h => hother (heqNeg.1 h)]
  refine Or.inr ⟨rfl, fun s hs => ?_⟩
  obtain ⟨-, hquarter, hhalf⟩ := edExponent_eq
  by_cases hzero : s * v ^ 4 = 0
  · -- the root is zero, and so is the candidate
    have hs0 : s = 0 := (mul_eq_zero.1 hzero).resolve_right (pow_ne_zero 4 hne)
    have hu0 : u = 0 := by rw [← hs, hs0, zero_pow two_ne_zero, mul_zero]
    apply hroot
    rw [hpower, hu0, zero_mul]
  · -- the power is a root of one
    have hbase : u * v ^ 7 = (s * v ^ 4) ^ 2 := by rw [← hs]; ring
    have hone : ((u * v ^ 7) ^ ((edP - 5) / 8 + (edP - 5) / 8 + 1)) ^ 2 = 1 := by
      rw [← pow_mul, mul_two, hquarter, hbase, ← pow_mul, two_mul, hhalf]
      exact ZMod.pow_card_sub_one_eq_one hzero
    rw [sq, mul_self_eq_one_iff] at hone
    rcases hone with h | h
    · exact hroot (by rw [hpower, h, mul_one])
    · exact hother (by rw [hpower, h, mul_neg_one])

/-- **Step 4** takes the root with the given sign. -/
theorem decodeSigned_spec {x : Fe} {r : EdField} (hx : FeIs x r) (sign : Bool) :
    (∃ x' r', decodeSigned x sign = some x' ∧ FeIs x' r' ∧ r' ^ 2 = r ^ 2 ∧ r'.val % 2 = sign.toNat) ∨
      decodeSigned x sign = none ∧ r = 0 ∧ sign = true := by
  have hzero := hx.isZero_iff
  have hodd := hx.isOdd_eq
  have hneg := feZero_is.sub hx
  rw [zero_sub] at hneg
  unfold decodeSigned
  by_cases hrefused : r = 0 ∧ sign = true
  · rw [if_pos (by rw [Bool.and_eq_true]; exact ⟨hzero.2 hrefused.1, hrefused.2⟩)]
    exact Or.inr ⟨rfl, hrefused⟩
  rw [if_neg (by rw [Bool.and_eq_true]; exact fun h => hrefused ⟨hzero.1 h.1, h.2⟩)]
  left
  have hcases := Nat.mod_two_eq_zero_or_one r.val
  by_cases hsame : feIsOdd x = sign
  · rw [if_neg (not_not.2 hsame)]
    refine ⟨x, r, rfl, hx, rfl, ?_⟩
    rw [← hsame, hodd]
    rcases hcases with h | h <;> rw [h] <;> rfl
  · -- the negative has the other parity
    rw [if_pos hsame]
    have hr : r ≠ 0 := by
      rintro rfl
      rw [hodd, ZMod.val_zero] at hsame
      cases sign with
      | false => exact hsame rfl
      | true => exact hrefused ⟨rfl, rfl⟩
    refine ⟨_, -r, rfl, hneg, neg_sq r, ?_⟩
    have hflip := neg_parity hr
    rw [hodd] at hsame
    have hnegCases := Nat.mod_two_eq_zero_or_one (-r).val
    cases sign with
    | false =>
      have hone : r.val % 2 = 1 := by
        by_contra hnot
        exact hsame (decide_eq_false hnot)
      rw [Bool.toNat_false]
      omega
    | true =>
      have hne : r.val % 2 ≠ 1 := fun h => hsame (decide_eq_true h)
      rw [Bool.toNat_true]
      omega

/-! ## Strings -/

/-- The parts of an encoding. -/
theorem decode_parts (h : bytes.length = 32) : (decodeYBytes bytes).length = 32 ∧
    leNat (decodeYBytes bytes) = leNat bytes % 2 ^ 255 ∧ (decodeSign bytes).toNat = leNat bytes / 2 ^ 255 := by
  obtain ⟨low, c, hbytes, hlow, hat, hset⟩ := exists_last h
  have hlt := leNat_lt low
  have hc := c.toNat_lt
  have hpow : (256 : ℕ) ^ 31 = 2 ^ 248 := by norm_num
  have hand : (c &&& 0x7F).toNat = c.toNat % 128 := by
    rw [UInt8.toNat_and]
    exact Nat.and_two_pow_sub_one_eq_mod c.toNat 7
  have hshift : ((c >>> 7) &&& 1).toNat = c.toNat / 128 := by
    have hseven : (7 : UInt8).toNat % 8 = 7 := rfl
    rw [UInt8.toNat_and, UInt8.toNat_shiftRight, hseven, Nat.shiftRight_eq_div_pow]
    have hone : (1 : UInt8).toNat = 2 ^ 1 - 1 := rfl
    rw [hone, Nat.and_two_pow_sub_one_eq_mod]
    omega
  have hvalue : leNat bytes = leNat low + 2 ^ 248 * c.toNat := by
    rw [hbytes, leNat_append, leNat_cons, leNat_nil, hlow, hpow]
    rfl
  have hy : leNat (decodeYBytes bytes) = leNat low + 2 ^ 248 * (c.toNat % 128) := by
    unfold decodeYBytes
    rw [hat, hset, leNat_append, leNat_cons, leNat_nil, hlow, hpow, hand]
    rfl
  have hsign : (decodeSign bytes).toNat = c.toNat / 128 := by
    unfold decodeSign
    rw [hat]
    by_cases htop : (c >>> 7) &&& 1 = 1
    · rw [htop] at hshift
      rw [htop, ← hshift]
      rfl
    · have hne : c.toNat / 128 ≠ 1 := by
        intro hone
        rw [hone] at hshift
        exact htop (UInt8.toNat_inj.1 hshift)
      rw [beq_eq_false_iff_ne.2 htop, Bool.toNat_false]
      omega
  rw [hlow, hpow] at hlt
  refine ⟨?_, ?_, ?_⟩
  · unfold decodeYBytes
    rw [List.length_set, h]
  · rw [hy, hvalue]
    omega
  · rw [hsign, hvalue]
    omega

/-- **Step 2**: the numerator and the denominator of `x ^ 2`. -/
theorem decodeRatio_is {fy : Fe} {y : EdField} (hy : FeIs fy y) :
    FeIs (decodeRatio fy).1 (y ^ 2 - 1) ∧ FeIs (decodeRatio fy).2 (edD * y ^ 2 + 1) := by
  have hu := hy.square.sub feOne_is
  have hv := (feD_is.mul hy.square).add feOne_is
  rw [← sq] at hu hv
  unfold decodeRatio
  dsimp only
  exact ⟨hu, hv⟩

/-- Steps 2 to 4, where `y` is canonical. -/
theorem decode_canonical {fy : Fe} {y : EdField} (hy : FeIs fy y) (hyval : (leNat bytes % 2 ^ 255 : ℕ) = y)
    (hsign : (decodeSign bytes).toNat = leNat bytes / 2 ^ 255) (hcanonical : leNat bytes % 2 ^ 255 < edP) :
    (∃ x x' P, decodeRoot (decodeRatio fy).1 (decodeRatio fy).2 = some x ∧ decodeSigned x (decodeSign bytes) = some x' ∧
      PointIs ⟨x', fy, feSetSmall 1, feMul x' fy⟩ P ∧ Decodes bytes P) ∨
    ((decodeRoot (decodeRatio fy).1 (decodeRatio fy).2 = none ∨
      ∃ x, decodeRoot (decodeRatio fy).1 (decodeRatio fy).2 = some x ∧ decodeSigned x (decodeSign bytes) = none) ∧
        ∀ P, ¬Decodes bytes P) := by
  obtain ⟨hu, hv⟩ := decodeRatio_is hy
  have hpoint : ∀ P, Decodes bytes P → (edD * y ^ 2 + 1) * P.x ^ 2 = y ^ 2 - 1 := by
    intro P hP
    have hon := on_iff.1 P.on
    rwa [hP.y, hyval] at hon
  rcases decodeRoot_spec hu hv (edDenominator_ne y) with ⟨x, r, hroot, hx, hr⟩ | ⟨hroot, hnone⟩
  · rcases decodeSigned_spec hx (decodeSign bytes) with ⟨x', r', hsigned, hx', hsq, hparity⟩ | ⟨hsigned, hzero, hodd⟩
    · have hon : edCurve.On r' y := by
        rw [on_iff, hsq]
        exact hr
      rw [hsign] at hparity
      exact Or.inl ⟨x, x', ⟨r', y, hon⟩, hroot, hsigned, pointIs_affine hx' hy, ⟨hcanonical, hyval.symm, hparity⟩⟩
    · -- a zero with the sign bit
      refine Or.inr ⟨Or.inr ⟨x, hroot, hsigned⟩, fun P hP => ?_⟩
      have hzeroSq := hpoint P hP
      rw [← hr, hzero, zero_pow two_ne_zero] at hzeroSq
      have hsquare : P.x ^ 2 = 0 := mul_left_cancel₀ (edDenominator_ne y) hzeroSq
      have hPsign := hP.sign
      rw [(pow_eq_zero_iff two_ne_zero).1 hsquare, ZMod.val_zero, ← hsign, hodd] at hPsign
      exact absurd hPsign (by decide)
  · exact Or.inr ⟨Or.inl hroot, fun P hP => hnone P.x (hpoint P hP)⟩

/-- **Decoding** ends with the point that a string is the encoding of, and refuses the others. -/
theorem pointDecode_spec (h : bytes.length = 32) :
    (∃ p P, pointDecode bytes = some p ∧ PointIs p P ∧ Decodes bytes P) ∨
      pointDecode bytes = none ∧ ∀ P, ¬Decodes bytes P := by
  obtain ⟨hlength, hvalue, hsign⟩ := decode_parts h
  have hy := feFromBytes_is hlength
  obtain ⟨htoLength, htoValue⟩ := hy.toBytes
  rw [hvalue] at hy htoValue
  rw [ZMod.val_natCast] at htoValue
  unfold pointDecode
  dsimp only
  by_cases hcanonical : leNat bytes % 2 ^ 255 < edP
  · have hsame : feToBytes (feFromBytes (decodeYBytes bytes)) = decodeYBytes bytes := by
      apply leNat_inj (htoLength.trans hlength.symm)
      rw [htoValue, hvalue, Nat.mod_eq_of_lt hcanonical]
    rw [if_neg (not_not.2 hsame)]
    rcases decode_canonical hy rfl hsign hcanonical with
      ⟨x, x', P, hroot, hsigned, hpoint, hP⟩ | ⟨hroot | ⟨x, hroot, hsigned⟩, hnone⟩
    · rw [hroot]
      dsimp only
      rw [hsigned]
      exact Or.inl ⟨_, P, rfl, hpoint, hP⟩
    · rw [hroot]
      exact Or.inr ⟨rfl, hnone⟩
    · rw [hroot]
      dsimp only
      rw [hsigned]
      exact Or.inr ⟨rfl, hnone⟩
  · have hother : feToBytes (feFromBytes (decodeYBytes bytes)) ≠ decodeYBytes bytes := by
      intro heq
      rw [heq, hvalue] at htoValue
      apply hcanonical
      rw [htoValue]
      exact Nat.mod_lt _ edP_prime.pos
    rw [if_pos hother]
    exact Or.inr ⟨rfl, fun P hP => hcanonical hP.canonical⟩

end V9xRemote
