import Mathlib.Tactic.Common

/-!
# A value made once and kept

A program that at each of its starts looks for a value in its store, and where it finds none
makes one and saves it.
-/

namespace Persist

variable {Store Value Fresh : Type*} (load : Store → Option Value) (make : Fresh → Value)
  (save : Fresh → Store → Value → Store)

/-- One start: the value it goes on with, and the store. -/
def start (store : Store) (fresh : Fresh) : Value × Store :=
  match load store with
  | some value => (value, store)
  | none => (make fresh, save fresh store (make fresh))

/-- The store after a row of starts. -/
def starts (store : Store) (fresh : List Fresh) : Store :=
  fresh.foldl (fun store fresh => (start load make save store fresh).2) store

/-- Whatever starts come later, the next one finds this value. -/
def Kept (store : Store) (value : Value) : Prop :=
  ∀ later, load (starts load make save store later) = some value

variable {load make save} {store : Store} {value : Value}

theorem start_found (h : load store = some value) (fresh : Fresh) :
    start load make save store fresh = (value, store) := by
  rw [start, h]

theorem start_made (h : load store = none) (fresh : Fresh) :
    start load make save store fresh = (make fresh, save fresh store (make fresh)) := by
  rw [start, h]

/-- A value that is found stays, and so does the store. -/
theorem starts_found (h : load store = some value) (later : List Fresh) :
    starts load make save store later = store := by
  induction later with
  | nil => rfl
  | cons fresh later ih =>
    rw [starts, List.foldl_cons, start_found h]
    exact ih

variable (load make save) in
/-- **A value is kept** exactly where the next start finds it. -/
theorem kept_iff : Kept load make save store value ↔ load store = some value := by
  constructor
  · intro h
    exact h []
  · intro h later
    rw [starts_found h later, h]

end Persist
