import Mathlib.FieldTheory.Finite.Basic
import Mathlib.Tactic.NormNum.Prime
import V9xRemote.Lib.Edwards
import V9xRemote.Lib.Ladder
import V9xRemote.Spec.Ed25519

/-!
# The curve of Ed25519

Its field is that of the integers modulo the prime `2 ^ 255 - 19`; `-1` is a square there and `d`
is not, so the curve is complete.
-/

namespace V9xRemote

open Bytes Limbs Ladder Lucas Edwards

/-! ## The field -/

@[irreducible]
def edP : ℕ := 2 ^ 255 - 19

theorem edP_eq : edP = 57896044618658097711785492504343953926634992332820282019728792003956564819949 := by
  unfold edP
  norm_num

/-- The primes below 10000 that the factors of `edP - 1` lead to. -/
def edSmallPrimes : List ℕ :=
  [2, 3, 5, 7, 13, 17, 19, 31, 43, 47, 59, 97, 103, 107, 127, 131, 223, 353, 419, 479, 487, 991, 1723,
    2437, 3727, 4153, 9463]

/-- Larger ones: each with a primitive root, and with the prime factors of what is one less. -/
def edPrimes : List (ℕ × ℕ × List ℕ) :=
  [(32573, 2, [2, 2, 17, 479]),
    (65147, 2, [2, 32573]),
    (57467, 2, [2, 59, 487]),
    (132049, 26, [2, 2, 2, 2, 3, 3, 7, 131]),
    (1923133, 2, [2, 2, 3, 43, 3727]),
    (430751, 17, [2, 5, 5, 5, 1723]),
    (31757755568855353, 10, [2, 2, 2, 3, 31, 107, 223, 4153, 430751]),
    (37853, 2, [2, 2, 9463]),
    (75707, 2, [2, 37853]),
    (569003, 2, [2, 7, 97, 419]),
    (2773320623, 5, [2, 2437, 569003]),
    (72106336199, 7, [2, 13, 2773320623]),
    (8574133, 2, [2, 2, 3, 7, 103, 991]),
    (1919519569386763, 2, [2, 3, 7, 19, 47, 47, 127, 8574133]),
    (75445702479781427272750846543864801, 7, [2, 2, 2, 2, 2, 3, 3, 5, 5, 75707, 72106336199, 1919519569386763]),
    (74058212732561358302231226437062788676166966415465897661863160754340907, 2,
      [2, 3, 353, 57467, 132049, 1923133, 31757755568855353, 75445702479781427272750846543864801]),
    (57896044618658097711785492504343953926634992332820282019728792003956564819949, 2,
      [2, 2, 3, 65147, 74058212732561358302231226437062788676166966415465897661863160754340907])]

theorem edP_prime : edP.Prime := by
  have hsmall : ∀ q ∈ edSmallPrimes, q.Prime := by
    unfold edSmallPrimes
    norm_num
  have hcheck : checkFrom edSmallPrimes edPrimes = true := by decide +kernel
  have hlast : ∃ e ∈ edPrimes, e.1 = edP := by
    rw [edP_eq]
    decide
  obtain ⟨e, he, heq⟩ := hlast
  rw [← heq]
  exact prime_of_checkFrom hsmall hcheck e he

instance : Fact edP.Prime := ⟨edP_prime⟩

/-- The field of the curve. -/
abbrev EdField : Type := ZMod edP

theorem edField_two_ne : (2 : EdField) ≠ 0 := by
  intro h
  have hdvd : edP ∣ 2 := (ZMod.natCast_eq_zero_iff 2 edP).1 (by exact_mod_cast h)
  have hle := Nat.le_of_dvd (by decide) hdvd
  rw [edP_eq] at hle
  omega

/-- An equation between two numbers, in the field. -/
theorem edField_eq {m n : ℕ} (h : m % edP = n % edP) : (m : EdField) = n := (ZMod.natCast_eq_natCast_iff' m n edP).2 h

/-- A root of `-1`. -/
def edRoot : EdField := (leNat ed25519SqrtM1Bytes : ℕ)

theorem edRoot_sq : edRoot * edRoot = -1 := by
  have hnat : ((leNat ed25519SqrtM1Bytes * leNat ed25519SqrtM1Bytes + 1 : ℕ) : EdField) = (0 : ℕ) :=
    edField_eq (by rw [edP_eq]; decide)
  rw [Nat.cast_add, Nat.cast_mul, Nat.cast_one, Nat.cast_zero] at hnat
  exact eq_neg_of_add_eq_zero_left hnat

/-- The constant of the curve. -/
def edD : EdField := -121665 / 121666

theorem edD_eq : ((leNat ed25519DBytes : ℕ) : EdField) = edD := by
  have hne : (121666 : EdField) ≠ 0 := by
    intro h
    have hdvd : edP ∣ 121666 := (ZMod.natCast_eq_zero_iff 121666 edP).1 (by exact_mod_cast h)
    have hle := Nat.le_of_dvd (by decide) hdvd
    rw [edP_eq] at hle
    omega
  have hnat : ((leNat ed25519DBytes * 121666 + 121665 : ℕ) : EdField) = (0 : ℕ) := edField_eq (by rw [edP_eq]; decide)
  push_cast at hnat
  unfold edD
  rw [eq_div_iff hne]
  exact eq_neg_of_add_eq_zero_left hnat

/-- By Fermat a square has no such power. -/
theorem edD_not_square : ¬IsSquare edD := by
  rintro ⟨r, hr⟩
  have hpow : ((leNat ed25519DBytes : ℕ) : EdField) ^ ((edP - 1) / 2) = (edP - 1 : ℕ) := by
    rw [← Nat.cast_pow]
    apply edField_eq
    rw [← powMod_eq]
    decide +kernel
  have hnum := edP_eq
  have hhalf : (edP - 1) / 2 + (edP - 1) / 2 = edP - 1 := by omega
  rw [edD_eq, hr, mul_pow, ← pow_add, hhalf] at hpow
  by_cases hzero : r = 0
  · rw [hzero, zero_pow (by omega)] at hpow
    have hdvd : edP ∣ edP - 1 := (ZMod.natCast_eq_zero_iff _ _).1 hpow.symm
    have hle := Nat.le_of_dvd (by omega) hdvd
    omega
  · rw [ZMod.pow_card_sub_one_eq_one hzero] at hpow
    have hdvd : ((edP - 2 : ℕ) : EdField) = 0 := by
      have hsplit : edP - 1 = edP - 2 + 1 := by omega
      rw [hsplit, Nat.cast_add, Nat.cast_one] at hpow
      exact left_eq_add.1 (by rw [add_comm]; exact hpow)
    have hle := Nat.le_of_dvd (by omega) ((ZMod.natCast_eq_zero_iff _ _).1 hdvd)
    omega

/-- **The curve**: `-x² + y² = 1 + d x² y²`. -/
def edCurve : Curve EdField where
  a := -1
  d := edD
  a_square := ⟨edRoot, edRoot_sq.symm⟩
  a_ne := neg_ne_zero.2 one_ne_zero
  d_not := edD_not_square
  two_ne := edField_two_ne

abbrev EdGroup : Type := Point edCurve

/-! ## The base point -/

def edBaseX : ℕ := 15112221349535400772501151409588531511454012693041857206046113283949847762202

def edBaseY : ℕ := 46316835694926478169428394003475163141307993866256225615783033603165251855960

/-- The point with `y = 4/5` and an even `x`. -/
def edBase : EdGroup where
  x := (edBaseX : ℕ)
  y := (edBaseY : ℕ)
  on := by
    have hnat : ((edBaseY ^ 2 : ℕ) : EdField) = (1 + edBaseX ^ 2 + leNat ed25519DBytes * edBaseX ^ 2 * edBaseY ^ 2 : ℕ) :=
      edField_eq (by rw [edP_eq]; decide)
    rw [Nat.cast_add, Nat.cast_add, Nat.cast_mul, Nat.cast_mul, edD_eq] at hnat
    push_cast at hnat
    change (-1 : EdField) * edBaseX ^ 2 + edBaseY ^ 2 = 1 + edD * edBaseX ^ 2 * edBaseY ^ 2
    linear_combination hnat

theorem edBase_y : edBase.y * 5 = 4 ∧ edBase.x.val % 2 = 0 := by
  have hval : edBase.x.val = edBaseX := ZMod.val_natCast_of_lt (by rw [edP_eq]; decide)
  have hnat : ((edBaseY * 5 : ℕ) : EdField) = (4 : ℕ) := edField_eq (by rw [edP_eq]; decide)
  have hy : edBase.y = (edBaseY : ℕ) := rfl
  rw [Nat.cast_mul] at hnat
  constructor
  · rw [hy]
    exact_mod_cast hnat
  · rw [hval]
    decide

/-- The order of the base point. -/
def edL : ℕ := 2 ^ 252 + 27742317777372353535851937790883648493

/-- Extended coordinates as numbers: `edP - 1` stands for `-1`. -/
def natAdd (d2 : ℕ) (p q : Extended ℕ) : Extended ℕ :=
  let a := (p.y + (edP - 1) * p.x) * (q.y + (edP - 1) * q.x) % edP
  let b := (p.y + p.x) * (q.y + q.x) % edP
  let c := p.t * d2 % edP * q.t % edP
  let d := (p.z + p.z) * q.z % edP
  let e := b + (edP - 1) * a
  let f := d + (edP - 1) * c
  let g := d + c
  let h := b + a
  ⟨e * f % edP, g * h % edP, f * g % edP, e * h % edP⟩

/-- Their elements of the field. -/
def natCoordinates (p : Extended ℕ) : Extended EdField := ⟨(p.x : ℕ), (p.y : ℕ), (p.z : ℕ), (p.t : ℕ)⟩

theorem natCoordinates_add (d2 : ℕ) (p q : Extended ℕ) :
    natCoordinates (natAdd d2 p q) = (natCoordinates p).add (d2 : EdField) (natCoordinates q) := by
  have hneg : ((edP - 1 : ℕ) : EdField) = -1 := by
    rw [Nat.cast_sub (by rw [edP_eq]; omega), ZMod.natCast_self, Nat.cast_one, zero_sub]
  have hmod : ∀ n : ℕ, ((n % edP : ℕ) : EdField) = n := fun n => ZMod.natCast_mod n edP
  unfold natCoordinates natAdd Extended.add
  ext
  all_goals simp only [hmod, Nat.cast_mul, Nat.cast_add, hneg]; ring

/-- `n` times a point, by doubling. -/
def natLadder (d2 : ℕ) (p : Extended ℕ) (n : ℕ) : Extended ℕ :=
  ladder n.testBit (fun bit r => if bit then natAdd d2 (natAdd d2 r r) p else natAdd d2 r r) (n.log2 + 1) ⟨0, 1, 1, 0⟩

theorem natLadder_is {p : Extended ℕ} {P : EdGroup} {d2 : ℕ} (hd : (d2 : EdField) = edD + edD)
    (hp : (natCoordinates p).Is P) (n : ℕ) : (natCoordinates (natLadder d2 p n)).Is (n • P) := by
  have hadd : ∀ {q r : Extended ℕ} {Q R : EdGroup}, (natCoordinates q).Is Q → (natCoordinates r).Is R →
      (natCoordinates (natAdd d2 q r)).Is (Q + R) := by
    intro q r Q R hq hr
    rw [natCoordinates_add, hd]
    exact hq.add rfl hr
  refine ladder_rel (R := fun r k => (natCoordinates r).Is (k • P)) ?_ _ ?_ ?_
  · intro bit r k hr
    have hdouble := hadd hr hr
    rw [← add_nsmul, ← two_mul] at hdouble
    cases bit with
    | false => exact hdouble
    | true =>
      rw [Bool.toNat_true, succ_nsmul]
      exact hadd hdouble hp
  · intro i _
    rw [Nat.toNat_testBit]
  · rw [Nat.div_eq_of_lt Nat.lt_log2_self, zero_nsmul]
    have hzero : natCoordinates ⟨0, 1, 1, 0⟩ = ⟨0, 1, 1, 0⟩ := by
      unfold natCoordinates
      ext <;> simp
    rw [hzero]
    exact Extended.Is.zero

/-- **The base point has order `L`.** -/
theorem edL_base : edL • edBase = 0 := by
  have hbase : (natCoordinates ⟨edBaseX, edBaseY, 1, edBaseX * edBaseY⟩).Is edBase := by
    have heq : natCoordinates ⟨edBaseX, edBaseY, 1, edBaseX * edBaseY⟩ =
        ⟨edBase.x, edBase.y, 1, edBase.x * edBase.y⟩ := by
      unfold natCoordinates
      ext <;> simp [edBase]
    rw [heq]
    exact Extended.Is.affine edBase
  have hd : ((leNat ed25519DBytes + leNat ed25519DBytes : ℕ) : EdField) = edD + edD := by rw [Nat.cast_add, edD_eq]
  have his := natLadder_is hd hbase edL
  have hresult : (natLadder (leNat ed25519DBytes + leNat ed25519DBytes) ⟨edBaseX, edBaseY, 1, edBaseX * edBaseY⟩ edL).x = 0 ∧
      (natLadder (leNat ed25519DBytes + leNat ed25519DBytes) ⟨edBaseX, edBaseY, 1, edBaseX * edBaseY⟩ edL).y =
        (natLadder (leNat ed25519DBytes + leNat ed25519DBytes) ⟨edBaseX, edBaseY, 1, edBaseX * edBaseY⟩ edL).z := by
    decide +kernel
  generalize natLadder (leNat ed25519DBytes + leNat ed25519DBytes) ⟨edBaseX, edBaseY, 1, edBaseX * edBaseY⟩ edL = r
    at his hresult
  have hx := his.x
  have hy := his.y
  have hz := his.z_ne
  unfold natCoordinates at hx hy hz
  rw [hresult.1, Nat.cast_zero] at hx
  rw [hresult.2] at hy
  apply Point.ext
  · exact (mul_eq_zero.1 hx.symm).resolve_right hz
  · rw [Point.zero_y]
    exact mul_right_cancel₀ hz (by rw [one_mul]; exact hy.symm)

end V9xRemote
