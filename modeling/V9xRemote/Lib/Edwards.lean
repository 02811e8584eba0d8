import Mathlib.Algebra.Field.Basic
import Mathlib.Algebra.Group.Even
import Mathlib.Tactic.FieldSimp
import Mathlib.Tactic.LinearCombination
import Mathlib.Tactic.Ring

/-!
# Complete twisted Edwards curves

The points of `a x² + y² = 1 + d x² y²`, where `a` is a square and `d` is not, are a commutative
group under one addition formula that has no exceptions: its denominators are never zero
(`Curve.On.delta_ne`). The point `(1/√a, 0)`, of order four, swaps the two coordinates, so that
associativity needs one polynomial identity and not two.
-/

namespace Edwards

structure Curve (F : Type) [Field F] where
  a : F
  d : F
  a_square : IsSquare a
  a_ne : a ≠ 0
  d_not : ¬IsSquare d
  two_ne : (2 : F) ≠ 0

variable {F : Type} [Field F] {E : Curve F} {x1 y1 x2 y2 x3 y3 : F}

/-- The equation of the curve. -/
def Curve.On (E : Curve F) (x y : F) : Prop := E.a * x ^ 2 + y ^ 2 = 1 + E.d * x ^ 2 * y ^ 2

/-! ## Denominators -/

/-- What the denominators of a sum differ by from one. -/
def Curve.delta (E : Curve F) (x1 y1 x2 y2 : F) : F := E.d * x1 * x2 * y1 * y2

/-- Were it a root of one, one of two sums that are not both zero would make `d` a square. -/
theorem Curve.On.delta_sq (h1 : E.On x1 y1) (h2 : E.On x2 y2) : E.delta x1 y1 x2 y2 ^ 2 ≠ 1 := by
  intro hone
  obtain ⟨s, hs⟩ := E.a_square
  unfold Curve.On at h1 h2
  unfold Curve.delta at hone
  rw [hs] at h1 h2
  have hne : E.d * x1 * x2 * y1 * y2 ≠ 0 := by
    intro hzero
    rw [hzero, zero_pow two_ne_zero] at hone
    exact zero_ne_one hone
  have hx1 : x1 ≠ 0 := fun h => hne (by rw [h]; ring)
  have hx2 : x2 ≠ 0 := fun h => hne (by rw [h]; ring)
  have hy1 : y1 ≠ 0 := fun h => hne (by rw [h]; ring)
  -- both squares are `d` times a square
  have hplus : (s * x1 + E.d * x1 * x2 * y1 * y2 * y1) ^ 2 = E.d * (x1 * y1 * (s * x2 + y2)) ^ 2 := by
    linear_combination h1 - E.d * x1 ^ 2 * y1 ^ 2 * h2 + (y1 ^ 2 - 1) * hone
  have hminus : (s * x1 - E.d * x1 * x2 * y1 * y2 * y1) ^ 2 = E.d * (x1 * y1 * (s * x2 - y2)) ^ 2 := by
    linear_combination h1 - E.d * x1 ^ 2 * y1 ^ 2 * h2 + (y1 ^ 2 - 1) * hone
  have hsquare : ∀ u v : F, u ^ 2 = E.d * (x1 * y1 * v) ^ 2 → v = 0 := by
    intro u v huv
    by_contra hv
    have hw : x1 * y1 * v ≠ 0 := mul_ne_zero (mul_ne_zero hx1 hy1) hv
    apply E.d_not
    refine ⟨u / (x1 * y1 * v), ?_⟩
    field_simp
    linear_combination -huv
  have hsum := hsquare _ _ hplus
  have hdiff := hsquare _ _ hminus
  have hs0 : s ≠ 0 := by
    intro h
    apply E.a_ne
    rw [hs, h, mul_zero]
  have hdouble : 2 * (s * x2) = 0 := by linear_combination hsum + hdiff
  exact mul_ne_zero E.two_ne (mul_ne_zero hs0 hx2) hdouble

/-- **The addition has no exceptions.** -/
theorem Curve.On.delta_ne (h1 : E.On x1 y1) (h2 : E.On x2 y2) :
    1 + E.delta x1 y1 x2 y2 ≠ 0 ∧ 1 - E.delta x1 y1 x2 y2 ≠ 0 := by
  have hne := h1.delta_sq h2
  constructor
  · intro h
    apply hne
    linear_combination (E.delta x1 y1 x2 y2 - 1) * h
  · intro h
    apply hne
    linear_combination (-E.delta x1 y1 x2 y2 - 1) * h

/-! ## Sums -/

def Curve.addX (E : Curve F) (x1 y1 x2 y2 : F) : F := (x1 * y2 + y1 * x2) / (1 + E.delta x1 y1 x2 y2)

def Curve.addY (E : Curve F) (x1 y1 x2 y2 : F) : F := (y1 * y2 - E.a * x1 * x2) / (1 - E.delta x1 y1 x2 y2)

theorem closure_poly (a d : F) (h1 : a * x1 ^ 2 + y1 ^ 2 = 1 + d * x1 ^ 2 * y1 ^ 2)
    (h2 : a * x2 ^ 2 + y2 ^ 2 = 1 + d * x2 ^ 2 * y2 ^ 2) :
    a * ((x1 * y2 + y1 * x2) * (1 - d * x1 * x2 * y1 * y2)) ^ 2 +
        ((y1 * y2 - a * x1 * x2) * (1 + d * x1 * x2 * y1 * y2)) ^ 2 =
      ((1 + d * x1 * x2 * y1 * y2) * (1 - d * x1 * x2 * y1 * y2)) ^ 2 +
        d * ((x1 * y2 + y1 * x2) * (y1 * y2 - a * x1 * x2)) ^ 2 := by
  linear_combination
    (x1^2*y1^2*x2^4*y2^4*d^3 + x1^2*x2^4*y2^4*d^2*a - x1^2*x2^4*y2^2*d*a^2 - x1^2*x2^2*y2^4*d*a + y1^2*x2^4*y2^4*d^2
      - y1^2*x2^4*y2^2*d*a - y1^2*x2^2*y2^4*d - x2^4*y2^4*d^2 + 2*x2^4*y2^4*d*a - 2*x2^4*y2^2*a^2 + x2^4*a^2 -
      2*x2^2*y2^4*a - 2*x2^2*y2^2*d + 4*x2^2*y2^2*a + y2^4) * h1 +
    (x1^4*x2^2*y2^2*d*a^2 - 2*x1^2*x2^2*y2^2*d*a + 2*x1^2*x2^2*y2^2*a^2 - x1^2*x2^2*a^2 - x1^2*y2^2*a +
      y1^4*x2^2*y2^2*d - 2*y1^2*x2^2*y2^2*d + 2*y1^2*x2^2*y2^2*a - y1^2*x2^2*a - y1^2*y2^2 + x2^2*y2^2*d -
      2*x2^2*y2^2*a + x2^2*a + y2^2 + 1) * h2

theorem Curve.On.add (h1 : E.On x1 y1) (h2 : E.On x2 y2) : E.On (E.addX x1 y1 x2 y2) (E.addY x1 y1 x2 y2) := by
  obtain ⟨hplus, hminus⟩ := h1.delta_ne h2
  have hpoly := closure_poly E.a E.d h1 h2
  unfold Curve.On Curve.addX Curve.addY
  unfold Curve.delta at hplus hminus ⊢
  generalize 1 + E.d * x1 * x2 * y1 * y2 = p at hplus hpoly ⊢
  generalize 1 - E.d * x1 * x2 * y1 * y2 = m at hminus hpoly ⊢
  generalize x1 * y2 + y1 * x2 = u at hpoly ⊢
  generalize y1 * y2 - E.a * x1 * x2 = v at hpoly ⊢
  field_simp
  linear_combination hpoly

/-- The first coordinates of the two ways to add three points, without their denominators. The
factors are those of a division by the three equations. -/
theorem assoc_poly (a d : F) (h1 : a * x1 ^ 2 + y1 ^ 2 = 1 + d * x1 ^ 2 * y1 ^ 2)
    (h2 : a * x2 ^ 2 + y2 ^ 2 = 1 + d * x2 ^ 2 * y2 ^ 2) (h3 : a * x3 ^ 2 + y3 ^ 2 = 1 + d * x3 ^ 2 * y3 ^ 2) :
    ((x1 * y2 + y1 * x2) * (1 - d * x1 * x2 * y1 * y2) * y3 + (y1 * y2 - a * x1 * x2) * (1 + d * x1 * x2 * y1 * y2) * x3) *
        ((1 + d * x2 * x3 * y2 * y3) * (1 - d * x2 * x3 * y2 * y3) +
          d * x1 * y1 * (x2 * y3 + y2 * x3) * (y2 * y3 - a * x2 * x3)) =
      (x1 * (y2 * y3 - a * x2 * x3) * (1 + d * x2 * x3 * y2 * y3) + y1 * (x2 * y3 + y2 * x3) * (1 - d * x2 * x3 * y2 * y3)) *
        ((1 + d * x1 * x2 * y1 * y2) * (1 - d * x1 * x2 * y1 * y2) +
          d * (x1 * y2 + y1 * x2) * (y1 * y2 - a * x1 * x2) * x3 * y3) := by
  linear_combination
    (x1*x2^4*y2^3*x3^2*y3*d^2*a - x1*x2^4*y2*x3^2*y3*d*a^2 - x1*x2^3*y2^4*x3*y3^2*d^2 - x1*x2^3*y2^2*x3^3*d*a^2 +
      x1*x2^3*y2^2*x3*d*a + x1*x2^2*y2^3*y3^3*d - x1*x2^2*y2^3*y3*d + x1*x2*y2^4*x3*y3^2*d +
      y1*x2^4*y2^3*x3*y3^2*d^2 - y1*x2^4*y2*x3*y3^2*d*a + y1*x2^3*y2^4*x3^2*y3*d^2 + y1*x2^3*y2^2*y3^3*d -
      y1*x2^3*y2^2*y3*d + y1*x2^2*y2^3*x3^3*d*a - y1*x2^2*y2^3*x3*d - y1*x2*y2^4*x3^2*y3*d) * h1 +
    (x1^3*x2^2*y2*x3^2*y3*d*a^2 - x1^3*x2*y2^2*x3*y3^2*d*a + x1^3*x2*x3^3*y3^2*d*a^2 - x1^3*x2*x3^3*a^3 -
      x1^3*x2*x3*y3^2*a^2 + x1^3*x2*x3*a^2 - x1^3*y2*x3^2*y3^3*d*a + x1^3*y2*x3^2*y3*a^2 + x1^3*y2*y3^3*a -
      x1^3*y2*y3*a - x1^2*y1*x2^2*y2*x3^3*y3^2*d^2*a + x1^2*y1*x2^2*y2*x3*y3^2*d*a - x1^2*y1*x2*y2^2*x3^2*y3^3*d^2 +
      x1^2*y1*x2*y2^2*x3^2*y3*d*a - x1^2*y1*x2*x3^2*y3^3*d*a + x1^2*y1*x2*x3^2*y3*a^2 + x1^2*y1*x2*y3^3*a -
      x1^2*y1*x2*y3*a - x1^2*y1*y2*x3^3*y3^2*d*a + x1^2*y1*y2*x3^3*a^2 + x1^2*y1*y2*x3*y3^2*a - x1^2*y1*y2*x3*a -
      x1*y1^2*x2^2*y2*x3^2*y3^3*d^2 + x1*y1^2*x2^2*y2*x3^2*y3*d*a + x1*y1^2*x2*y2^2*x3^3*y3^2*d^2 -
      x1*y1^2*x2*y2^2*x3*y3^2*d + x1*y1^2*x2*x3^3*y3^2*d*a - x1*y1^2*x2*x3^3*a^2 - x1*y1^2*x2*x3*y3^2*a +
      x1*y1^2*x2*x3*a - x1*y1^2*y2*x3^2*y3^3*d + x1*y1^2*y2*x3^2*y3*a + x1*y1^2*y2*y3^3 - x1*y1^2*y2*y3 -
      x1*x2^2*y2*x3^2*y3*d*a + x1*x2*y2^2*x3*y3^2*d - x1*x2*x3^3*y3^2*d*a + x1*x2*x3^3*a^2 + x1*x2*x3*y3^2*a -
      x1*x2*x3*a + x1*y2*x3^2*y3^3*d - x1*y2*x3^2*y3*a - x1*y2*y3^3 + x1*y2*y3 + y1^3*x2^2*y2*x3*y3^2*d +
      y1^3*x2*y2^2*x3^2*y3*d - y1^3*x2*x3^2*y3^3*d + y1^3*x2*x3^2*y3*a + y1^3*x2*y3^3 - y1^3*x2*y3 -
      y1^3*y2*x3^3*y3^2*d + y1^3*y2*x3^3*a + y1^3*y2*x3*y3^2 - y1^3*y2*x3 - y1*x2^2*y2*x3*y3^2*d -
      y1*x2*y2^2*x3^2*y3*d + y1*x2*x3^2*y3^3*d - y1*x2*x3^2*y3*a - y1*x2*y3^3 + y1*x2*y3 + y1*y2*x3^3*y3^2*d -
      y1*y2*x3^3*a - y1*y2*x3*y3^2 + y1*y2*x3) * h2 +
    (x1^3*x2^3*x3*a^3 - x1^3*x2^2*y2*y3*a^2 + x1^3*x2*y2^2*x3*a^2 - x1^3*x2*x3*a^2 - x1^3*y2^3*y3*a + x1^3*y2*y3*a -
      x1^2*y1*x2^3*y3*a^2 + x1^2*y1*x2^2*y2*x3*d*a - x1^2*y1*x2^2*y2*x3*a^2 + x1^2*y1*x2*y2^2*y3*d -
      x1^2*y1*x2*y2^2*y3*a + x1^2*y1*x2*y3*a - x1^2*y1*y2^3*x3*a + x1^2*y1*y2*x3*a + x1*y1^2*x2^3*x3*a^2 +
      x1*y1^2*x2^2*y2*y3*d - x1*y1^2*x2^2*y2*y3*a - x1*y1^2*x2*y2^2*x3*d + x1*y1^2*x2*y2^2*x3*a - x1*y1^2*x2*x3*a -
      x1*y1^2*y2^3*y3 + x1*y1^2*y2*y3 - x1*x2^3*x3*a^2 + x1*x2^2*y2*y3*a - x1*x2*y2^2*x3*a + x1*x2*x3*a + x1*y2^3*y3
      - x1*y2*y3 - y1^3*x2^3*y3*a - y1^3*x2^2*y2*x3*a - y1^3*x2*y2^2*y3 + y1^3*x2*y3 - y1^3*y2^3*x3 + y1^3*y2*x3 +
      y1*x2^3*y3*a + y1*x2^2*y2*x3*a + y1*x2*y2^2*y3 - y1*x2*y3 + y1*y2^3*x3 - y1*y2*x3) * h3

/-- **The first coordinate of a sum of three.** -/
theorem Curve.On.assoc (h1 : E.On x1 y1) (h2 : E.On x2 y2) (h3 : E.On x3 y3) :
    E.addX (E.addX x1 y1 x2 y2) (E.addY x1 y1 x2 y2) x3 y3 =
      E.addX x1 y1 (E.addX x2 y2 x3 y3) (E.addY x2 y2 x3 y3) := by
  obtain ⟨hplus, hminus⟩ := h1.delta_ne h2
  obtain ⟨hplus', hminus'⟩ := h2.delta_ne h3
  have hleft := ((h1.add h2).delta_ne h3).1
  have hright := (h1.delta_ne (h2.add h3)).1
  have hpoly := assoc_poly E.a E.d h1 h2 h3
  unfold Curve.addX Curve.addY at hleft hright ⊢
  unfold Curve.delta at hplus hminus hplus' hminus' hleft hright ⊢
  generalize 1 + E.d * x1 * x2 * y1 * y2 = p at hplus hleft hpoly ⊢
  generalize 1 - E.d * x1 * x2 * y1 * y2 = m at hminus hleft hpoly ⊢
  generalize x1 * y2 + y1 * x2 = u at hleft hpoly ⊢
  generalize y1 * y2 - E.a * x1 * x2 = v at hleft hpoly ⊢
  generalize 1 + E.d * x2 * x3 * y2 * y3 = p' at hplus' hright hpoly ⊢
  generalize 1 - E.d * x2 * x3 * y2 * y3 = m' at hminus' hright hpoly ⊢
  generalize x2 * y3 + y2 * x3 = u' at hright hpoly ⊢
  generalize y2 * y3 - E.a * x2 * x3 = v' at hright hpoly ⊢
  have hden : p * m + E.d * u * v * x3 * y3 ≠ 0 := by
    intro h
    apply hleft
    field_simp
    linear_combination h
  have hden' : p' * m' + E.d * x1 * y1 * u' * v' ≠ 0 := by
    intro h
    apply hright
    field_simp
    linear_combination h
  have hl : (u / p * y3 + v / m * x3) / (1 + E.d * (u / p) * x3 * (v / m) * y3) =
      (u * m * y3 + v * p * x3) / (p * m + E.d * u * v * x3 * y3) := by
    rw [div_eq_div_iff hleft hden]
    field_simp
  have hr : (x1 * (v' / m') + y1 * (u' / p')) / (1 + E.d * x1 * (u' / p') * y1 * (v' / m')) =
      (x1 * v' * p' + y1 * u' * m') / (p' * m' + E.d * x1 * y1 * u' * v') := by
    rw [div_eq_div_iff hright hden']
    field_simp
  rw [hl, hr, div_eq_div_iff hden hden']
  linear_combination hpoly

/-! ## The group -/

/-- A point of the curve. -/
@[ext]
structure Point (E : Curve F) where
  x : F
  y : F
  on : E.On x y

namespace Point

instance : Add (Point E) := ⟨fun P Q => ⟨E.addX P.x P.y Q.x Q.y, E.addY P.x P.y Q.x Q.y, P.on.add Q.on⟩⟩

instance : Zero (Point E) := ⟨⟨0, 1, by unfold Curve.On; ring⟩⟩

instance : Neg (Point E) := ⟨fun P => ⟨-P.x, P.y, by have := P.on; unfold Curve.On at this ⊢; linear_combination this⟩⟩

theorem add_x (P Q : Point E) : (P + Q).x = E.addX P.x P.y Q.x Q.y := rfl

theorem add_y (P Q : Point E) : (P + Q).y = E.addY P.x P.y Q.x Q.y := rfl

@[simp] theorem zero_x : (0 : Point E).x = 0 := rfl

@[simp] theorem zero_y : (0 : Point E).y = 1 := rfl

@[simp] theorem neg_x (P : Point E) : (-P).x = -P.x := rfl

@[simp] theorem neg_y (P : Point E) : (-P).y = P.y := rfl

protected theorem add_comm (P Q : Point E) : P + Q = Q + P := by
  apply Point.ext
  · rw [add_x, add_x, Curve.addX, Curve.addX, Curve.delta, Curve.delta]
    congr 1 <;> ring
  · rw [add_y, add_y, Curve.addY, Curve.addY, Curve.delta, Curve.delta]
    congr 1 <;> ring

protected theorem zero_add (P : Point E) : 0 + P = P := by
  apply Point.ext
  · rw [add_x, Curve.addX, Curve.delta, zero_x, zero_y]
    simp
  · rw [add_y, Curve.addY, Curve.delta, zero_x, zero_y]
    simp

protected theorem neg_add_cancel (P : Point E) : -P + P = 0 := by
  obtain ⟨-, hminus⟩ := (-P).on.delta_ne P.on
  have hon := P.on
  apply Point.ext
  · have hzero : -P.x * P.y + P.y * P.x = 0 := by ring
    rw [add_x, Curve.addX, neg_x, neg_y, hzero, zero_div, zero_x]
  · rw [add_y, Curve.addY, zero_y, div_eq_one_iff_eq hminus, Curve.delta, neg_x, neg_y]
    unfold Curve.On at hon
    linear_combination hon

/-- A point of order four. -/
theorem exists_turn (E : Curve F) : ∃ (s : F) (T : Point E), s ≠ 0 ∧ E.a = s * s ∧ T.x = 1 / s ∧ T.y = 0 := by
  obtain ⟨s, hs⟩ := E.a_square
  have hs0 : s ≠ 0 := by
    intro h
    apply E.a_ne
    rw [hs, h, mul_zero]
  refine ⟨s, ⟨1 / s, 0, ?_⟩, hs0, hs, rfl, rfl⟩
  unfold Curve.On
  rw [hs]
  field_simp
  ring

/-- **Associativity**: the second coordinates are the first ones of the sums with a point of order
four. -/
protected theorem add_assoc (P Q R : Point E) : P + Q + R = P + (Q + R) := by
  have hx : ∀ P Q R : Point E, (P + Q + R).x = (P + (Q + R)).x := fun P Q R => P.on.assoc Q.on R.on
  obtain ⟨s, T, hs0, hs, hTx, hTy⟩ := exists_turn E
  have hturn : ∀ P : Point E, (P + T).x = P.y / s ∧ (P + T).y = -s * P.x := by
    intro P
    have hdelta : E.delta P.x P.y T.x T.y = 0 := by rw [Curve.delta, hTy, mul_zero]
    constructor
    · rw [add_x, Curve.addX, hdelta, hTx, hTy]
      field_simp
      ring
    · rw [add_y, Curve.addY, hdelta, hTx, hTy, hs]
      field_simp
      ring
  have hshift : ∀ P Q : Point E, P + Q + T = P + (Q + T) := by
    intro P Q
    have hdelta : E.delta P.x P.y (Q + T).x (Q + T).y = -E.delta P.x P.y Q.x Q.y := by
      rw [Curve.delta, Curve.delta, (hturn Q).1, (hturn Q).2]
      field_simp
    apply Point.ext
    · rw [(hturn (P + Q)).1, add_x, add_y, Curve.addX, Curve.addY, hdelta, (hturn Q).1, (hturn Q).2, hs]
      field_simp
      ring
    · rw [(hturn (P + Q)).2, add_x, add_y, Curve.addX, Curve.addY, hdelta, (hturn Q).1, (hturn Q).2, hs]
      field_simp
      ring
  apply Point.ext
  · exact hx P Q R
  · have hsame : (P + Q + R + T).x = (P + (Q + R) + T).x := by
      rw [hshift, hx, ← hshift Q R, ← hshift]
    rw [(hturn _).1, (hturn _).1] at hsame
    field_simp at hsame
    exact hsame

instance : AddCommGroup (Point E) where
  add_assoc := Point.add_assoc
  zero_add := Point.zero_add
  add_zero P := by rw [Point.add_comm, Point.zero_add]
  nsmul := nsmulRec
  zsmul := zsmulRec
  neg_add_cancel := Point.neg_add_cancel
  add_comm := Point.add_comm

end Point

end Edwards

/-!
# Extended coordinates

`(X : Y : Z : T)` stands for the point `(X/Z, Y/Z)` where `X Y = Z T`. With `a = -1` a sum and a
double take a few products and no division; the new `Z` is the product of the sum's two
denominators, so it is never zero.
-/

namespace Edwards

variable {F : Type} [Field F] {E : Curve F}

@[ext]
structure Extended (F : Type) where
  x : F
  y : F
  z : F
  t : F
deriving DecidableEq, Repr

namespace Extended

def add (d2 : F) (p q : Extended F) : Extended F :=
  let a := (p.y - p.x) * (q.y - q.x)
  let b := (p.y + p.x) * (q.y + q.x)
  let c := p.t * d2 * q.t
  let d := (p.z + p.z) * q.z
  let e := b - a
  let f := d - c
  let g := d + c
  let h := b + a
  ⟨e * f, g * h, f * g, e * h⟩

def double (p : Extended F) : Extended F :=
  let a := p.x * p.x
  let b := p.y * p.y
  let c := p.z * p.z + p.z * p.z
  let h := a + b
  let e := h - (p.x + p.y) * (p.x + p.y)
  let g := a - b
  let f := c + g
  ⟨e * f, g * h, f * g, e * h⟩

/-- Coordinates of a point. -/
structure Is (e : Extended F) (P : Point E) : Prop where
  z_ne : e.z ≠ 0
  x : e.x = P.x * e.z
  y : e.y = P.y * e.z
  t : e.t = P.x * P.y * e.z

variable {p q : Extended F} {P Q : Point E}

theorem Is.zero : (⟨0, 1, 1, 0⟩ : Extended F).Is (0 : Point E) :=
  ⟨one_ne_zero, by simp, by simp, by simp⟩

theorem Is.affine (P : Point E) : (⟨P.x, P.y, 1, P.x * P.y⟩ : Extended F).Is P :=
  ⟨one_ne_zero, (mul_one _).symm, (mul_one _).symm, (mul_one _).symm⟩

/-- Four products of the numerators and the denominators of a sum. -/
theorem Is.products {e f g h k : F} (hk : k ≠ 0) {u v plus minus : F} (hplus : plus ≠ 0) (hminus : minus ≠ 0)
    (hR : P.x = u / plus ∧ P.y = v / minus) (he : e = k * u) (hf : f = k * minus) (hg : g = k * plus) (hh : h = k * v) :
    (⟨e * f, g * h, f * g, e * h⟩ : Extended F).Is P := by
  obtain ⟨hx, hy⟩ := hR
  rw [he, hf, hg, hh]
  constructor
  · exact mul_ne_zero (mul_ne_zero hk hminus) (mul_ne_zero hk hplus)
  · rw [hx]
    field_simp
  · rw [hy]
    field_simp
  · rw [hx, hy]
    field_simp

/-- **A sum.** -/
theorem Is.add (ha : E.a = -1) (hp : p.Is P) (hq : q.Is Q) : (p.add (E.d + E.d) q).Is (P + Q) := by
  obtain ⟨hplus, hminus⟩ := P.on.delta_ne Q.on
  have hk : 2 * p.z * q.z ≠ 0 := mul_ne_zero (mul_ne_zero E.two_ne hp.z_ne) hq.z_ne
  refine Is.products hk hplus hminus ⟨rfl, rfl⟩ ?_ ?_ ?_ ?_
  · rw [hp.x, hp.y, hq.x, hq.y]
    ring
  · rw [hp.t, hq.t, Curve.delta]
    ring
  · rw [hp.t, hq.t, Curve.delta]
    ring
  · rw [hp.x, hp.y, hq.x, hq.y, ha]
    ring

/-- **A double.** -/
theorem Is.double (ha : E.a = -1) (hp : p.Is P) : p.double.Is (P + P) := by
  obtain ⟨hplus, hminus⟩ := P.on.delta_ne P.on
  have hon := P.on
  unfold Curve.On at hon
  rw [ha] at hon
  have hk : -(p.z * p.z) ≠ 0 := neg_ne_zero.2 (mul_ne_zero hp.z_ne hp.z_ne)
  have hx : (P + P).x = (P.x * P.y + P.y * P.x) / (1 + E.delta P.x P.y P.x P.y) := rfl
  have hy : (P + P).y = -(P.y * P.y - E.a * P.x * P.x) / -(1 - E.delta P.x P.y P.x P.y) :=
    (neg_div_neg_eq _ _).symm
  refine Is.products hk hplus (neg_ne_zero.2 hminus) ⟨hx, hy⟩ ?_ ?_ ?_ ?_
  · rw [hp.x, hp.y]
    ring
  · rw [hp.x, hp.y, Curve.delta]
    linear_combination -p.z ^ 2 * hon
  · rw [hp.x, hp.y, Curve.delta]
    linear_combination -p.z ^ 2 * hon
  · rw [hp.x, hp.y, ha]
    ring

/-- The point of some coordinates. -/
theorem Is.eq (hP : p.Is P) (hQ : p.Is Q) : P = Q := by
  have hx := hP.x.symm.trans hQ.x
  have hy := hP.y.symm.trans hQ.y
  apply Point.ext
  · exact mul_right_cancel₀ hP.z_ne hx
  · exact mul_right_cancel₀ hP.z_ne hy

end Extended

end Edwards
