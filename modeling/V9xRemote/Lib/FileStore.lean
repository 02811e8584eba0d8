import Mathlib.Tactic.Common
import Mathlib.Logic.Function.Basic

/-!
# A directory of named files

`FileStore N C` says what each name holds. `delete` and `move` are the calls of a
file system in which a rename never overwrites: each takes effect only where it
can (the source is there, the target is free) and where the environment, which
may refuse any call for reasons of its own, allows it. The Boolean result is what
the caller sees.
-/

/-- What each name holds: `none` where there is no file. -/
abbrev FileStore (N C : Type*) := N → Option C

namespace FileStore

variable {N C : Type*} [DecidableEq N]

/-- Create or replace a file. -/
def put (S : FileStore N C) (n : N) (c : C) : FileStore N C := Function.update S n (some c)

/-- Remove a name. -/
def erase (S : FileStore N C) (n : N) : FileStore N C := Function.update S n none

@[simp] theorem put_same (S : FileStore N C) (n : N) (c : C) : S.put n c n = some c := by
  simp [put]

theorem put_ne (S : FileStore N C) {n m : N} (c : C) (h : m ≠ n) : S.put n c m = S m := by
  simp [put, h]

@[simp] theorem erase_same (S : FileStore N C) (n : N) : S.erase n n = none := by simp [erase]

theorem erase_ne (S : FileStore N C) {n m : N} (h : m ≠ n) : S.erase n m = S m := by
  simp [erase, h]

/-- Delete a file, if there is one and the environment allows it. -/
def delete (S : FileStore N C) (n : N) (allow : Bool) : FileStore N C × Bool :=
  if allow && (S n).isSome then (S.erase n, true) else (S, false)

/-- Rename a file to a free name, if the environment allows it. -/
def move (S : FileStore N C) (a b : N) (allow : Bool) : FileStore N C × Bool :=
  match S a with
  | some c => if allow && (S b).isNone then ((S.erase a).put b c, true) else (S, false)
  | none => (S, false)

/-- What a delete can do. -/
theorem delete_cases (S : FileStore N C) (n : N) (allow : Bool) :
    S.delete n allow = (S, false) ∨
      (allow = true ∧ (∃ c, S n = some c) ∧ S.delete n allow = (S.erase n, true)) := by
  unfold delete
  split
  · rename_i h
    rw [Bool.and_eq_true] at h
    exact Or.inr ⟨h.1, Option.isSome_iff_exists.1 h.2, rfl⟩
  · exact Or.inl rfl

/-- What a rename can do. -/
theorem move_cases (S : FileStore N C) (a b : N) (allow : Bool) :
    S.move a b allow = (S, false) ∨
      (allow = true ∧ S b = none ∧
        ∃ c, S a = some c ∧ S.move a b allow = ((S.erase a).put b c, true)) := by
  unfold move
  split
  · rename_i c hc
    split
    · rename_i h
      rw [Bool.and_eq_true, Option.isNone_iff_eq_none] at h
      exact Or.inr ⟨h.1, h.2, c, hc, rfl⟩
    · exact Or.inl rfl
  · exact Or.inl rfl

/-- A name a delete is not about keeps its file. -/
theorem delete_ne (S : FileStore N C) {n m : N} (allow : Bool) (h : m ≠ n) :
    (S.delete n allow).1 m = S m := by
  rcases S.delete_cases n allow with hd | ⟨-, -, hd⟩
  · rw [hd]
  · rw [hd]; exact erase_ne S h

/-- After a delete the name is free or holds what it held. -/
theorem delete_same (S : FileStore N C) (n : N) (allow : Bool) :
    (S.delete n allow).1 n = none ∨ (S.delete n allow).1 n = S n := by
  rcases S.delete_cases n allow with hd | ⟨-, -, hd⟩
  · exact Or.inr (by rw [hd])
  · exact Or.inl (by rw [hd]; exact erase_same S n)

/-- Names a rename is not about keep their files. -/
theorem move_ne (S : FileStore N C) {a b m : N} (allow : Bool) (ha : m ≠ a) (hb : m ≠ b) :
    (S.move a b allow).1 m = S m := by
  rcases S.move_cases a b allow with hm | ⟨-, -, c, -, hm⟩
  · rw [hm]
  · rw [hm]; simp only [put_ne _ _ hb, erase_ne _ ha]

/-- A rename that succeeds leaves the source free and the target with its file. -/
theorem move_true {S : FileStore N C} {a b : N} {allow : Bool} (h : (S.move a b allow).2 = true) :
    S b = none ∧ ∃ c, S a = some c ∧ (S.move a b allow).1 b = some c ∧
      (S.move a b allow).1 a = none := by
  rcases S.move_cases a b allow with hm | ⟨-, hb, c, ha, hm⟩
  · rw [hm] at h; exact absurd h Bool.false_ne_true
  · have hab : a ≠ b := by
      intro hab
      rw [hab, hb] at ha
      exact absurd ha (by simp)
    refine ⟨hb, c, ha, ?_⟩
    rw [hm]
    exact ⟨put_same _ _ _, (put_ne _ _ hab).trans (erase_same _ _)⟩

/-- A rename that fails changes nothing. -/
theorem move_false {S : FileStore N C} {a b : N} {allow : Bool} (h : (S.move a b allow).2 = false) :
    (S.move a b allow).1 = S := by
  rcases S.move_cases a b allow with hm | ⟨-, -, c, -, hm⟩
  · rw [hm]
  · rw [hm] at h; exact absurd h (by simp)

/-- A rename onto an occupied name fails. -/
theorem move_onto {S : FileStore N C} {b : N} {c : C} (a : N) (allow : Bool) (hb : S b = some c) :
    S.move a b allow = (S, false) := by
  rcases S.move_cases a b allow with hm | ⟨-, hn, -⟩
  · exact hm
  · rw [hb] at hn; exact absurd hn (by simp)

end FileStore
