import V9xRemote.Proof.Ed25519Decode
import V9xRemote.Proof.Ed25519Scalar
import V9xRemote.Proof.Sha512

/-!
# Signatures

What a verification accepts is an equation in the group of the curve, and a signature of the
tool satisfies it: signing and verifying agree on the challenge, and the base point has order `edL`.
-/

namespace V9xRemote

open Bytes Limbs Edwards

/-- **A valid signature** (RFC 8032, section 5.1.7, without the cofactor). -/
def EdValid (rBytes sBytes publicKey message : Bytes) : Prop :=
  leNat sBytes < edL ∧ ∃ A R : EdGroup, Decodes publicKey A ∧ Decodes rBytes R ∧
    leNat sBytes • edBase = R + (leNat (Fips.sha512 (rBytes ++ publicKey ++ message)) % edL) • A

/-! ## Hashes -/

theorem sha512Final_length (ctx : Sha512) : (sha512Final ctx).length = 64 := by
  unfold sha512Final
  dsimp only
  rw [sha512Bytes_words, Fips.State.digest_length]

theorem ed25519Challenge_length (rBytes publicKey message : Bytes) :
    (ed25519Challenge rBytes publicKey message).length = 32 :=
  (scalarReduce_spec (sha512Final_length _)).1

theorem ed25519Challenge_eq {rBytes publicKey message : Bytes} (hr : rBytes.length = 32) (hkey : publicKey.length = 32)
    (hmessage : message.length < 2 ^ 32) : leNat (ed25519Challenge rBytes publicKey message) =
      leNat (Fips.sha512 (rBytes ++ publicKey ++ message)) % edL := by
  have hnil : ([] : Bytes).length = 0 := rfl
  have hfirst : Sha512Is (sha512Update sha512Init rBytes) rBytes :=
    sha512Init_is.update (by omega) (by omega)
  have hsecond : Sha512Is (sha512Update (sha512Update sha512Init rBytes) publicKey) (rBytes ++ publicKey) :=
    hfirst.update (by omega) (by omega)
  have hlength : (rBytes ++ publicKey).length = 64 := by
    rw [List.length_append]
    omega
  have hwhole := hsecond.update hmessage (by omega)
  unfold ed25519Challenge
  rw [(scalarReduce_spec (sha512Final_length _)).2, hwhole.final]

/-! ## Verification -/

/-- **The equation of the code**, with the challenge as it computes it. -/
theorem ed25519Verify_iff {signature publicKey : Bytes} (message : Bytes) (hsignature : signature.length = 64)
    (hkey : publicKey.length = 32) : ed25519Verify signature publicKey message = true ↔
      leNat (signature.drop 32) < edL ∧ ∃ A R : EdGroup, Decodes publicKey A ∧ Decodes (signature.take 32) R ∧
        leNat (signature.drop 32) • edBase =
          R + leNat (ed25519Challenge (signature.take 32) publicKey message) • A := by
  have hr : (signature.take 32).length = 32 := by
    rw [List.length_take]
    omega
  have hs : (signature.drop 32).length = 32 := by
    rw [List.length_drop]
    omega
  have hrange := bytesGe_all hs edL_bytes.1
  rw [edL_bytes.2] at hrange
  unfold ed25519Verify
  by_cases hge : bytesGe (signature.drop 32) ed25519LBytes 32 = true
  · have hlarge := hrange.1 hge
    rw [if_pos hge]
    constructor
    · intro h
      exact absurd h Bool.false_ne_true
    · rintro ⟨hlt, -⟩
      omega
  · have hsmall := lt_of_not_ge (mt hrange.2 hge)
    rw [if_neg hge]
    obtain ⟨a, A, haeq, ha, hA⟩ | ⟨haeq, hnone⟩ := pointDecode_spec hkey
    · obtain ⟨r, R, hreq, hrp, hR⟩ | ⟨hreq, hnone⟩ := pointDecode_spec hr
      · rw [haeq, hreq]
        dsimp only
        obtain ⟨hlhsLength, hlhs⟩ := (pointBase_is.scalarMul hs).encode
        obtain ⟨hrhsLength, hrhs⟩ :=
          (hrp.add (ha.scalarMul (ed25519Challenge_length (signature.take 32) publicKey message))).encode
        rw [beq_iff_eq]
        constructor
        · -- equal encodings are equal points
          intro heq
          rw [heq, hrhs] at hlhs
          exact ⟨hsmall, A, R, hA, hR, (edEncode_injective hlhs).symm⟩
        · rintro ⟨-, A', R', hA', hR', heq⟩
          obtain rfl := hA.unique hA'
          obtain rfl := hR.unique hR'
          apply leNat_inj (hlhsLength.trans hrhsLength.symm)
          rw [hlhs, hrhs, heq]
      · rw [haeq, hreq]
        constructor
        · intro h
          exact absurd h Bool.false_ne_true
        · rintro ⟨-, -, R, -, hR, -⟩
          exact absurd hR (hnone R)
    · rw [haeq]
      constructor
      · intro h
        exact absurd h Bool.false_ne_true
      · rintro ⟨-, A, -, hA, -⟩
        exact absurd hA (hnone A)

/-- **Verification is that of RFC 8032.** The length of a message is a 32-bit argument. -/
theorem ed25519Verify_rfc8032 {signature publicKey message : Bytes} (hsignature : signature.length = 64)
    (hkey : publicKey.length = 32) (hmessage : message.length < 2 ^ 32) :
    ed25519Verify signature publicKey message = true ↔
      EdValid (signature.take 32) (signature.drop 32) publicKey message := by
  have hr : (signature.take 32).length = 32 := by
    rw [List.length_take]
    omega
  rw [ed25519Verify_iff message hsignature hkey, ed25519Challenge_eq hr hkey hmessage]
  rfl

/-- An `S` past `edL` is refused. -/
theorem ed25519Verify_rfc8032_demo : ed25519Verify (List.replicate 64 0xFF) (List.replicate 32 0) [] = false ∧
    ¬EdValid ((List.replicate 64 0xFF).take 32) ((List.replicate 64 0xFF).drop 32) (List.replicate 32 0) [] := by
  have hrefused : ed25519Verify (List.replicate 64 0xFF) (List.replicate 32 0) [] = false := by decide +kernel
  refine ⟨hrefused, fun hvalid => ?_⟩
  have haccepted := (ed25519Verify_rfc8032 (by decide) (by decide) (by decide)).2 hvalid
  rw [hrefused] at haccepted
  exact Bool.false_ne_true haccepted

/-! ## Signing -/

theorem expandSeed_length (seed : Bytes) : (expandSeed seed).1.length = 32 := by
  unfold expandSeed
  simp [sha512Final_length]

/-- Whatever the seed, the encoding of a multiple of the base point is that of the multiple. -/
theorem pointBase_decodes {scalar : Bytes} (h : scalar.length = 32) :
    (pointEncode (pointScalarMul pointBase scalar)).length = 32 ∧
      Decodes (pointEncode (pointScalarMul pointBase scalar)) (leNat scalar • edBase) := by
  obtain ⟨hlength, hvalue⟩ := (pointBase_is.scalarMul h).encode
  exact ⟨hlength, decodes_iff.2 hvalue⟩

theorem ed25519PublicKey_decodes (seed : Bytes) : (ed25519PublicKey seed).length = 32 ∧
    Decodes (ed25519PublicKey seed) (leNat (expandSeed seed).1 • edBase) :=
  pointBase_decodes (expandSeed_length seed)

/-- Multiples of the base point count modulo `edL`. -/
theorem edBase_mod (n : ℕ) : (n % edL) • edBase = n • edBase := by
  have hsplit := Nat.mod_add_div n edL
  conv_rhs => rw [← hsplit, add_nsmul, mul_comm, mul_nsmul', edL_base, nsmul_zero, add_zero]

/-- The two halves of a signature: `R` for the nonce `r`, and `S = k a + r` modulo `edL`. -/
theorem ed25519Sign_parts (seed publicKey message : Bytes) : ∃ r : Bytes, r.length = 32 ∧
    ed25519Sign seed publicKey message = pointEncode (pointScalarMul pointBase r) ++
      scalarMuladd (ed25519Challenge (pointEncode (pointScalarMul pointBase r)) publicKey message)
        (expandSeed seed).1 r :=
  ⟨_, (scalarReduce_spec (sha512Final_length (sha512Update (sha512Update sha512Init (expandSeed seed).2) message))).1, rfl⟩

/-- **The signatures of a seed verify under its key.** -/
theorem ed25519Sign_verifies (seed message : Bytes) :
    ed25519Verify (ed25519Sign seed (ed25519PublicKey seed) message) (ed25519PublicKey seed) message = true := by
  have hscalar := expandSeed_length seed
  obtain ⟨hkey, hA⟩ := ed25519PublicKey_decodes seed
  obtain ⟨r, hr, hsign⟩ := ed25519Sign_parts seed (ed25519PublicKey seed) message
  obtain ⟨hrLength, hR⟩ := pointBase_decodes hr
  rw [hsign]
  generalize pointEncode (pointScalarMul pointBase r) = rBytes at hrLength hR
  have hk := ed25519Challenge_length rBytes (ed25519PublicKey seed) message
  obtain ⟨hsLength, hs⟩ := scalarMuladd_spec hk hscalar hr
  have hlength : (rBytes ++ scalarMuladd (ed25519Challenge rBytes (ed25519PublicKey seed) message)
      (expandSeed seed).1 r).length = 64 := by
    rw [List.length_append]
    omega
  rw [ed25519Verify_iff message hlength hkey, List.take_left' hrLength, List.drop_left' hrLength, hs]
  refine ⟨Nat.mod_lt _ (by decide), _, _, hA, hR, ?_⟩
  -- `S` is reduced, and the multiples of the base point do not notice
  rw [edBase_mod, add_nsmul, mul_nsmul', add_comm]

end V9xRemote
