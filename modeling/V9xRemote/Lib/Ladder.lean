import Mathlib.Algebra.Order.Ring.Nat
import Mathlib.Data.List.Prime
import Mathlib.NumberTheory.LucasPrimality
import Mathlib.Tactic.Common

/-!
# Ladders

A loop over the bits of a number from the top one down: square and multiply, double and add, a
long division in base two. What one step does to a partial result says what the whole loop does.
-/

namespace Ladder

variable {α : Type}

/-- One step for each bit, from bit `n - 1` down to bit `0`. -/
def ladder (bit : ℕ → Bool) (step : Bool → α → α) : ℕ → α → α
  | 0, r => r
  | n + 1, r => ladder bit step n (step (bit n) r)

/-- **Ladder rule**: a partial result stands for the bits that are done. -/
theorem ladder_rel {R : α → ℕ → Prop} {bit : ℕ → Bool} {step : Bool → α → α} {N : ℕ}
    (hstep : ∀ b r k, R r k → R (step b r) (2 * k + b.toNat)) (n : ℕ)
    (hbit : ∀ i < n, (bit i).toNat = N / 2 ^ i % 2) {r : α} (h : R r (N / 2 ^ n)) : R (ladder bit step n r) N := by
  induction n generalizing r with
  | zero =>
    rw [Nat.pow_zero, Nat.div_one] at h
    exact h
  | succ n ih =>
    apply ih
    · intro i hi
      exact hbit i (Nat.lt_succ_of_lt hi)
    · have hnext := hstep (bit n) r _ h
      have hsplit : 2 * (N / 2 ^ (n + 1)) + (bit n).toNat = N / 2 ^ n := by
        rw [hbit n (Nat.lt_succ_self n), Nat.pow_succ, ← Nat.div_div_eq_div_mul]
        omega
      rwa [hsplit] at hnext

/-- **A ladder of steps that may fail** does not, where a condition keeps them from it. -/
theorem ladder_some {P : α → Prop} {bit : ℕ → Bool} {partialStep : Bool → α → Option α} {step : Bool → α → α}
    (hstep : ∀ b r, P r → partialStep b r = some (step b r) ∧ P (step b r)) (n : ℕ) {r : α} (h : P r) :
    ladder bit (fun b r => r.bind (partialStep b)) n (some r) = some (ladder bit step n r) := by
  induction n generalizing r with
  | zero => rfl
  | succ n ih =>
    obtain ⟨hresult, hnext⟩ := hstep (bit n) r h
    rw [ladder, ladder, Option.bind_some, hresult]
    exact ih hnext

end Ladder

/-!
# Primes by Lucas's test

A power modulo `m` takes one or two products for each bit of its exponent, so the test of a prime
of a few hundred bits is a short computation when the prime factors of `p - 1` are known.
-/

namespace Lucas

open Ladder

/-- A power modulo `m`. -/
def powMod (m a e : ℕ) : ℕ :=
  ladder e.testBit (fun bit r => if bit then r * r % m * a % m else r * r % m) (e.log2 + 1) (1 % m)

theorem powMod_eq (m a e : ℕ) : powMod m a e = a ^ e % m := by
  refine ladder_rel (R := fun r k => r = a ^ k % m) ?_ _ ?_ ?_
  · rintro bit r k rfl
    have hsquare : a ^ k % m * (a ^ k % m) % m = a ^ (2 * k) % m := by rw [← Nat.mul_mod, two_mul, pow_add]
    cases bit with
    | false => exact hsquare
    | true =>
      change a ^ k % m * (a ^ k % m) % m * a % m = a ^ (2 * k + 1) % m
      rw [hsquare, Nat.mod_mul_mod, pow_succ]
  · intro i _
    rw [Nat.toNat_testBit]
  · rw [Nat.div_eq_of_lt Nat.lt_log2_self, pow_zero]

/-- The test: `a` has order `p - 1`, the product of `factors`. -/
def check (p a : ℕ) (factors : List ℕ) : Bool :=
  factors.prod == p - 1 && powMod p a (p - 1) == 1 && factors.all fun q => powMod p a ((p - 1) / q) != 1

theorem pow_eq_one_iff {p : ℕ} (hp : 2 ≤ p) (a e : ℕ) : (a : ZMod p) ^ e = 1 ↔ powMod p a e = 1 := by
  rw [powMod_eq, ← Nat.cast_pow, ← Nat.cast_one, ZMod.natCast_eq_natCast_iff', Nat.mod_eq_of_lt hp]

/-- **A number that passes is prime**, when the factors are. -/
theorem prime_of_check {p : ℕ} (a : ℕ) (factors : List ℕ) (hp : 2 ≤ p) (hfactors : ∀ q ∈ factors, q.Prime)
    (h : check p a factors = true) : p.Prime := by
  unfold check at h
  rw [Bool.and_eq_true, Bool.and_eq_true, beq_iff_eq, beq_iff_eq, List.all_eq_true] at h
  obtain ⟨⟨hprod, hone⟩, hother⟩ := h
  apply lucas_primality p (a : ZMod p) ((pow_eq_one_iff hp a _).2 hone)
  intro q hq hdvd
  -- a prime that divides the product is one of the factors
  rw [← hprod] at hdvd
  obtain ⟨f, hf, hqf⟩ := (Prime.dvd_prod_iff hq.prime).1 hdvd
  have heq : q = f := (Nat.prime_dvd_prime_iff_eq hq (hfactors f hf)).1 hqf
  intro hcontra
  have hne := hother f hf
  rw [bne_iff_ne] at hne
  apply hne
  rw [← heq]
  exact (pow_eq_one_iff hp a _).1 hcontra

/-- Numbers with a root and the factors, each tested when the ones before it are known. -/
def checkFrom : List ℕ → List (ℕ × ℕ × List ℕ) → Bool
  | _, [] => true
  | known, (p, a, factors) :: rest =>
    decide (2 ≤ p) && factors.all known.contains && check p a factors && checkFrom (p :: known) rest

theorem prime_of_checkFrom {known : List ℕ} {entries : List (ℕ × ℕ × List ℕ)} (hknown : ∀ q ∈ known, q.Prime)
    (h : checkFrom known entries = true) : ∀ e ∈ entries, e.1.Prime := by
  induction entries generalizing known with
  | nil => exact List.forall_mem_nil _
  | cons e rest ih =>
    obtain ⟨p, a, factors⟩ := e
    unfold checkFrom at h
    rw [Bool.and_eq_true, Bool.and_eq_true, Bool.and_eq_true, decide_eq_true_eq, List.all_eq_true] at h
    obtain ⟨⟨⟨hp, hall⟩, hcheck⟩, hrest⟩ := h
    have hprime : p.Prime := by
      apply prime_of_check a factors hp _ hcheck
      intro q hq
      exact hknown q (List.contains_iff_mem.1 (hall q hq))
    refine List.forall_mem_cons.2 ⟨hprime, ?_⟩
    apply ih _ hrest
    exact List.forall_mem_cons.2 ⟨hprime, hknown⟩

end Lucas
