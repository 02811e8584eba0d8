import V9xRemote.Proof.Ed25519Field

/-!
# The points of Ed25519

What the code holds of a point are extended coordinates of it, and its additions, doubles and
multiples are those of the group. A point has one encoding, and only encodings of points decode.
-/

namespace V9xRemote

open Bytes Limbs Ladder Lucas Edwards

/-! ## The group -/

/-- A point as the code holds it. -/
def PointIs (p : EdPoint) (P : EdGroup) : Prop :=
  ∃ e : Extended EdField, (FeIs p.x e.x ∧ FeIs p.y e.y ∧ FeIs p.z e.z ∧ FeIs p.t e.t) ∧ e.Is P

variable {p q : EdPoint} {P Q : EdGroup}

theorem pointIdentity_is : PointIs pointIdentity 0 :=
  ⟨⟨0, 1, 1, 0⟩, ⟨feZero_is, feOne_is, feOne_is, feZero_is⟩, Extended.Is.zero⟩

/-- An affine point. -/
theorem pointIs_affine {x y : Fe} (hx : FeIs x P.x) (hy : FeIs y P.y) : PointIs ⟨x, y, feSetSmall 1, feMul x y⟩ P :=
  ⟨⟨P.x, P.y, 1, P.x * P.y⟩, ⟨hx, hy, feOne_is, hx.mul hy⟩, Extended.Is.affine P⟩

theorem pointBase_is : PointIs pointBase edBase := by
  have hX : leNat ed25519BaseXBytes = edBaseX := by decide
  have hY : leNat ed25519BaseYBytes = edBaseY := by decide
  have hx : FeIs (feFromBytes ed25519BaseXBytes) (leNat ed25519BaseXBytes : ℕ) := feFromBytes_is rfl
  have hy : FeIs (feFromBytes ed25519BaseYBytes) (leNat ed25519BaseYBytes : ℕ) := feFromBytes_is rfl
  rw [hX] at hx
  rw [hY] at hy
  exact pointIs_affine hx hy

/-- **Addition.** -/
theorem PointIs.add (hp : PointIs p P) (hq : PointIs q Q) : PointIs (pointAdd p q) (P + Q) := by
  obtain ⟨e, ⟨hx, hy, hz, ht⟩, he⟩ := hp
  obtain ⟨f, ⟨hx', hy', hz', ht'⟩, hf⟩ := hq
  refine ⟨e.add (edD + edD) f, ?_, he.add rfl hf⟩
  have ha := (hy.sub hx).mul (hy'.sub hx')
  have hb := (hy.add hx).mul (hy'.add hx')
  have hc := (ht.mul (feD_is.add feD_is)).mul ht'
  have hd := (hz.add hz).mul hz'
  unfold Extended.add pointAdd
  dsimp only
  exact ⟨(hb.sub ha).mul (hd.sub hc), (hd.add hc).mul (hb.add ha), (hd.sub hc).mul (hd.add hc),
    (hb.sub ha).mul (hb.add ha)⟩

/-- **Doubling.** -/
theorem PointIs.double (hp : PointIs p P) : PointIs (pointDouble p) (P + P) := by
  obtain ⟨e, ⟨hx, hy, hz, ht⟩, he⟩ := hp
  refine ⟨e.double, ?_, he.double rfl⟩
  have ha := hx.square
  have hb := hy.square
  have hc := hz.square.add hz.square
  have hh := ha.add hb
  have he' := hh.sub (hx.add hy).square
  have hg := ha.sub hb
  have hf := hc.add hg
  unfold Extended.double pointDouble
  dsimp only
  exact ⟨he'.mul hf, hg.mul hh, hf.mul hg, he'.mul hh⟩

/-- **Multiples.** -/
theorem PointIs.scalarMul (hp : PointIs p P) {scalar : Bytes} (h : scalar.length = 32) :
    PointIs (pointScalarMul p scalar) (leNat scalar • P) := by
  refine ladder_rel (R := fun r k => PointIs r (k • P)) ?_ _ ?_ ?_
  · intro bit r k hr
    have hdouble := hr.double
    rw [← add_nsmul, ← two_mul] at hdouble
    cases bit with
    | false => exact hdouble
    | true =>
      rw [Bool.toNat_true, succ_nsmul]
      exact hdouble.add hp
  · intro i _
    exact byteBit_eq scalar i
  · have hlt := leNat_lt scalar
    have hpow : (256 : ℕ) ^ 32 = 2 ^ 256 := by norm_num
    rw [h, hpow] at hlt
    rw [Nat.div_eq_of_lt hlt, zero_nsmul]
    exact pointIdentity_is

/-! ## Encodings -/

/-- The number of a point's encoding: `y`, and the parity of `x` in the top bit. -/
def edEncode (P : EdGroup) : ℕ := P.y.val + 2 ^ 255 * (P.x.val % 2)

/-- The last of 32 bytes, and a store there. -/
theorem exists_last {bytes : Bytes} (h : bytes.length = 32) : ∃ low c, bytes = low ++ [c] ∧ low.length = 31 ∧
    bytes.at' 31 = c ∧ ∀ d, bytes.set 31 d = low ++ [d] := by
  obtain rfl | ⟨low, c, rfl⟩ := List.eq_nil_or_concat' bytes
  · exact absurd h (by decide)
  · have hlow : low.length = 31 := by simpa using h
    refine ⟨low, c, rfl, hlow, ?_, fun d => ?_⟩
    · unfold Bytes.at'
      rw [List.getD_eq_getElem?_getD, List.getElem?_append_right (by omega), hlow]
      rfl
    · rw [List.set_append_right _ _ (by omega), hlow]
      rfl

theorem orTop_spec {bytes : Bytes} (h : bytes.length = 32) (hlt : leNat bytes < 2 ^ 255) :
    (orTop bytes 0x80).length = 32 ∧ leNat (orTop bytes 0x80) = leNat bytes + 2 ^ 255 := by
  obtain ⟨low, c, hbytes, hlow, hat, hset⟩ := exists_last h
  have hpow : (256 : ℕ) ^ 31 * 128 = 2 ^ 255 := by norm_num
  rw [hbytes, leNat_append, leNat_cons, leNat_nil, hlow] at hlt
  have hc : c.toNat < 2 ^ 7 := by
    by_contra hnot
    omega
  have hor : (c ||| 0x80).toNat = c.toNat + 128 := by
    have htop : (0x80 : UInt8).toNat = 2 ^ 7 * 1 := rfl
    rw [UInt8.toNat_or, htop, Nat.or_comm, ← Nat.two_pow_add_eq_or_of_lt hc]
    omega
  unfold orTop
  rw [hat, hset, hbytes, leNat_append, leNat_append, leNat_cons, leNat_cons, leNat_nil, hlow, hor]
  constructor
  · rw [List.length_append, hlow]
    rfl
  · linear_combination hpow

/-- **Encoding.** -/
theorem PointIs.encode (hp : PointIs p P) :
    (pointEncode p).length = 32 ∧ leNat (pointEncode p) = edEncode P := by
  obtain ⟨e, ⟨hx, hy, hz, -⟩, he⟩ := hp
  have hxP : e.x * e.z⁻¹ = P.x := by rw [he.x, mul_assoc, mul_inv_cancel₀ he.z_ne, mul_one]
  have hyP : e.y * e.z⁻¹ = P.y := by rw [he.y, mul_assoc, mul_inv_cancel₀ he.z_ne, mul_one]
  have hX := hx.mul hz.invert
  have hY := hy.mul hz.invert
  rw [hxP] at hX
  rw [hyP] at hY
  obtain ⟨hlength, hvalue⟩ := hY.toBytes
  have hval := ZMod.val_lt P.y
  have hp := edP_eq
  unfold pointEncode
  dsimp only
  rw [hX.isOdd_eq]
  by_cases hodd : P.x.val % 2 = 1
  · obtain ⟨hlength', hvalue'⟩ := orTop_spec hlength (by rw [hvalue]; omega)
    rw [if_pos (decide_eq_true hodd), hvalue', hvalue, edEncode, hodd]
    exact ⟨hlength', rfl⟩
  · have heven : P.x.val % 2 = 0 := by omega
    rw [if_neg (by rw [decide_eq_false hodd]; exact Bool.false_ne_true), hvalue, edEncode, heven]
    exact ⟨hlength, rfl⟩

end V9xRemote
