import Mathlib.GroupTheory.OrderOfElement
import V9xRemote.Proof.Ed25519

/-!
# One signature for each key, message and `R`

The base point has the prime order `edL`, so its multiples below `edL` are all different, and a
verification admits one `S` only.
-/

namespace V9xRemote

open Bytes Limbs Lucas Edwards

/-! ## The order of the base point -/

/-- The primes below 10000 that the factors of `edL - 1` lead to. -/
def edOrderSmallPrimes : List ℕ :=
  [2, 3, 5, 7, 11, 13, 17, 23, 41, 43, 47, 67, 73, 79, 269, 307, 1361, 1723, 2551, 2851, 3797, 5879]

/-- Larger ones, with a primitive root and what is one less in factors. -/
def edOrderPrimes : List (ℕ × ℕ × List ℕ) :=
  [(1224481, 13, [2, 2, 2, 2, 2, 3, 5, 2551]),
    (531581, 2, [2, 2, 5, 7, 3797]),
    (1257559732178653, 2, [2, 2, 3, 7, 23, 531581, 1224481]),
    (4434155615661930479, 17, [2, 41, 43, 1257559732178653]),
    (172054593956031949258510691, 2, [2, 5, 1361, 2851, 4434155615661930479]),
    (292386187, 2, [2, 3, 3, 3, 3, 307, 5879]),
    (213441916511, 13, [2, 5, 73, 292386187]),
    (19757330305831588566944191468367130476339, 2, [2, 269, 213441916511, 172054593956031949258510691]),
    (276602624281642239937218680557139826668747, 2, [2, 7, 19757330305831588566944191468367130476339]),
    (34123, 2, [2, 3, 11, 11, 47]),
    (409477, 2, [2, 2, 3, 34123]),
    (14741173, 2, [2, 2, 3, 3, 409477]),
    (58964693, 2, [2, 2, 14741173]),
    (30703, 3, [2, 3, 7, 17, 43]),
    (41081, 3, [2, 2, 2, 5, 13, 79]),
    (82163, 2, [2, 41081]),
    (17231, 13, [2, 5, 1723]),
    (137849, 3, [2, 2, 2, 17231]),
    (22111, 6, [2, 3, 5, 11, 67]),
    (132667, 5, [2, 3, 22111]),
    (3044861653679985063343, 5, [2, 3, 11, 30703, 82163, 132667, 137849]),
    (198211423230930754013084525763697, 5, [2, 2, 2, 2, 3, 23, 58964693, 3044861653679985063343]),
    (7237005577332262213973186563042994240857116359379907606001950938285454250989, 2,
      [2, 2, 3, 11, 198211423230930754013084525763697, 276602624281642239937218680557139826668747])]

theorem edL_prime : edL.Prime := by
  have hsmall : ∀ q ∈ edOrderSmallPrimes, q.Prime := by
    unfold edOrderSmallPrimes
    norm_num
  have hcheck : checkFrom edOrderSmallPrimes edOrderPrimes = true := by decide +kernel
  have hlast : (edOrderPrimes.any fun e => e.1 == edL) = true := by decide
  obtain ⟨e, he, heq⟩ := List.any_eq_true.1 hlast
  rw [← beq_iff_eq.1 heq]
  exact prime_of_checkFrom hsmall hcheck e he

theorem edBase_ne : edBase ≠ 0 := by
  intro h
  have hx : edBase.x = 0 := by
    rw [h]
    exact Point.zero_x
  have hdvd : edP ∣ edBaseX := (ZMod.natCast_eq_zero_iff edBaseX edP).1 hx
  have hle := Nat.le_of_dvd (by decide) hdvd
  rw [edP_eq] at hle
  exact absurd hle (by decide)

/-- **The base point has order `edL`.** -/
theorem edBase_order : addOrderOf edBase = edL := by
  have : Fact edL.Prime := ⟨edL_prime⟩
  exact addOrderOf_eq_prime edL_base edBase_ne

/-- Multiples below the order are different. -/
theorem edBase_injective {m n : ℕ} (hm : m < edL) (hn : n < edL) (h : m • edBase = n • edBase) : m = n := by
  apply nsmul_injOn_Iio_addOrderOf (x := edBase) _ _ h
  · rw [edBase_order]
    exact hm
  · rw [edBase_order]
    exact hn

/-! ## Signatures with one `R` -/

/-- **A signature is not malleable**: its `R` leaves one `S`, down to the last bit. -/
theorem ed25519Verify_unique {first second publicKey : Bytes} (message : Bytes) (hfirst : first.length = 64)
    (hsecond : second.length = 64) (hkey : publicKey.length = 32) (hr : first.take 32 = second.take 32)
    (hverify : ed25519Verify first publicKey message = true)
    (hverify' : ed25519Verify second publicKey message = true) : first = second := by
  obtain ⟨hlt, A, R, hA, hR, heq⟩ := (ed25519Verify_iff message hfirst hkey).1 hverify
  obtain ⟨hlt', A', R', hA', hR', heq'⟩ := (ed25519Verify_iff message hsecond hkey).1 hverify'
  -- one `R`, so one challenge and one right side
  rw [← hr] at hR' heq'
  obtain rfl := hA.unique hA'
  obtain rfl := hR.unique hR'
  have hvalue := edBase_injective hlt hlt' (heq.trans heq'.symm)
  have hlength : (first.drop 32).length = (second.drop 32).length := by
    rw [List.length_drop, List.length_drop, hfirst, hsecond]
  rw [← List.take_append_drop 32 first, ← List.take_append_drop 32 second, hr, leNat_inj hlength hvalue]

/-- The encoding of the neutral point. -/
def edNeutralBytes : Bytes := 1 :: List.replicate 31 0

theorem edNeutral_decodes : Decodes edNeutralBytes 0 := by
  have hone : (1 : EdField).val = 1 := ZMod.val_one edP
  rw [decodes_iff, edEncode, Point.zero_x, Point.zero_y, hone, ZMod.val_zero]
  decide

/-- With the neutral point for a key, `S = 0` belongs to the neutral `R`. -/
theorem edNeutral_verifies (message : Bytes) :
    ed25519Verify (edNeutralBytes ++ List.replicate 32 0) edNeutralBytes message = true := by
  have hzero : leNat ((edNeutralBytes ++ List.replicate 32 0).drop 32) = 0 := by decide
  have htake : (edNeutralBytes ++ List.replicate 32 0).take 32 = edNeutralBytes := by decide
  rw [ed25519Verify_iff message (by decide) (by decide), hzero, htake]
  refine ⟨by decide, 0, 0, edNeutral_decodes, edNeutral_decodes, ?_⟩
  rw [zero_nsmul, nsmul_zero, add_zero]

theorem ed25519Verify_unique_demo :
    ed25519Verify (edNeutralBytes ++ List.replicate 32 0) edNeutralBytes (ascii "V9X") = true ∧
      edNeutralBytes ++ List.replicate 32 0 = (1 : UInt8) :: List.replicate 63 0 := by
  have hverify := edNeutral_verifies (ascii "V9X")
  have hverify' : ed25519Verify ((1 : UInt8) :: List.replicate 63 0) edNeutralBytes (ascii "V9X") = true := hverify
  exact ⟨hverify, ed25519Verify_unique (ascii "V9X") (by decide) (by decide) (by decide) (by decide) hverify hverify'⟩

end V9xRemote
