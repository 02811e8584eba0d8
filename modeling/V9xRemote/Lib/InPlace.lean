import Mathlib.Logic.Function.Basic
import Mathlib.Data.List.Basic

/-!
# Moves inside one store

A list of moves, each from one place of a store to another, made one after another in the
same store. Where no place is written twice, nor written before it is read, the moves come
to one simultaneous copy (`moveAll_moved`, `moveAll_other`).
-/

namespace InPlace

variable {α β : Type} [DecidableEq α]

/-- A place to write and the place it is read from. -/
abbrev Move (α : Type) := α × α

/-- One move. -/
def move (store : α → β) (m : Move α) : α → β := Function.update store m.1 (store m.2)

/-- All moves, in their order. -/
def moveAll (moves : List (Move α)) (store : α → β) : α → β := moves.foldl move store

/-- The first move neither writes the place the second writes, nor the one it reads. -/
def Apart (m n : Move α) : Prop := m.1 ≠ n.1 ∧ m.1 ≠ n.2

variable {moves : List (Move α)} {store : α → β} {m : Move α} {a : α}

theorem move_ne (h : m.1 ≠ a) : move store m a = store a := Function.update_of_ne (Ne.symm h) _ _

theorem move_same : move store m m.1 = store m.2 := Function.update_self _ _ _

/-- A place no move writes is kept. -/
theorem moveAll_other (h : ∀ m ∈ moves, m.1 ≠ a) : moveAll moves store a = store a := by
  induction moves generalizing store with
  | nil => rfl
  | cons first rest ih =>
    have hrest : moveAll rest (move store first) a = move store first a := ih fun m hm => h m (List.mem_cons_of_mem _ hm)
    exact hrest.trans (move_ne (h first List.mem_cons_self))

/-- **Each place written holds what the place it is read from held at first.** -/
theorem moveAll_moved (hapart : moves.Pairwise Apart) (hm : m ∈ moves) : moveAll moves store m.1 = store m.2 := by
  induction moves generalizing store with
  | nil => cases hm
  | cons first rest ih =>
    obtain ⟨hfirst, hrest⟩ := List.pairwise_cons.1 hapart
    rcases List.mem_cons.1 hm with rfl | hm
    · -- it is not written again
      have hkept : moveAll rest (move store m) m.1 = move store m m.1 := moveAll_other fun n hn => (hfirst n hn).1.symm
      exact hkept.trans move_same
    · -- what it reads has not been written
      have hmoved : moveAll rest (move store first) m.1 = move store first m.2 := ih hrest hm
      exact hmoved.trans (move_ne (hfirst m hm).2)

end InPlace
