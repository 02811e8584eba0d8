import Mathlib.Tactic.Common
import Mathlib.Algebra.Order.Ring.Nat

/-!
# Words that do not wrap

Arithmetic of 32-bit words that has a result only where no bit of it is lost. A computation
made of these operations has a result when none of its words overflows.
-/

namespace Words

variable {α β γ : Type}

def add (a b : UInt32) : Option UInt32 := if a.toNat + b.toNat < 2 ^ 32 then some (a + b) else none

def sub (a b : UInt32) : Option UInt32 := if b.toNat ≤ a.toNat then some (a - b) else none

def mul (a b : UInt32) : Option UInt32 := if a.toNat * b.toNat < 2 ^ 32 then some (a * b) else none

/-- A word that is stored in a byte. -/
def narrow (a : UInt32) : Option UInt8 := if a.toNat < 256 then some a.toUInt8 else none

/-- An operation on two lists, place by place. -/
def zip (f : α → β → Option γ) : List α → List β → Option (List γ)
  | x :: a, y :: b => do
    let z ← f x y
    let rest ← zip f a b
    return z :: rest
  | _, _ => some []

variable {a b : UInt32}

theorem add_eq (h : a.toNat + b.toNat < 2 ^ 32) : add a b = some (a + b) := if_pos h

theorem sub_eq (h : b.toNat ≤ a.toNat) : sub a b = some (a - b) := if_pos h

theorem mul_eq (h : a.toNat * b.toNat < 2 ^ 32) : mul a b = some (a * b) := if_pos h

theorem narrow_eq (h : a.toNat < 256) : narrow a = some a.toUInt8 := if_pos h

/-- What follows a result. -/
theorem bind_eq {p : Option α} {f : α → Option β} {x : α} (h : p = some x) : (p >>= f) = f x := by
  rw [h]
  rfl

/-- A sum that does not wrap, as a number. -/
theorem toNat_add_of_lt (h : a.toNat + b.toNat < 2 ^ 32) : (a + b).toNat = a.toNat + b.toNat := by
  rw [UInt32.toNat_add]
  exact Nat.mod_eq_of_lt h

theorem toNat_mul_of_lt (h : a.toNat * b.toNat < 2 ^ 32) : (a * b).toNat = a.toNat * b.toNat := by
  rw [UInt32.toNat_mul]
  exact Nat.mod_eq_of_lt h

/-- **Place by place**, where every place has a result. -/
theorem zip_eq {f : α → β → Option γ} {g : α → β → γ} {xs : List α} {ys : List β}
    (h : ∀ x ∈ xs, ∀ y ∈ ys, f x y = some (g x y)) : zip f xs ys = some (List.zipWith g xs ys) := by
  induction xs generalizing ys with
  | nil => rfl
  | cons x xs ih =>
    cases ys with
    | nil => rfl
    | cons y ys =>
      have hrest := ih fun x' hx y' hy => h x' (List.mem_cons_of_mem _ hx) y' (List.mem_cons_of_mem _ hy)
      rw [zip, h x List.mem_cons_self y List.mem_cons_self, hrest]
      rfl

theorem mapM_eq {f : α → Option β} {g : α → β} {xs : List α} (h : ∀ x ∈ xs, f x = some (g x)) :
    xs.mapM f = some (xs.map g) := by
  induction xs with
  | nil => rfl
  | cons x xs ih =>
    rw [List.mapM_cons, h x List.mem_cons_self, ih fun y hy => h y (List.mem_cons_of_mem _ hy)]
    rfl

end Words
