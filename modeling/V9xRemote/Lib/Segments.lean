import Mathlib.Tactic.Common
import Mathlib.Data.List.Infix
import Mathlib.Algebra.Order.Ring.Nat

/-!
# Segments of a store

A store is a list of cells, written a run of cells at a time, each at its offset. A
segment is a run of cells that stands at one; a write elsewhere leaves it as it is.
-/

namespace Segments

variable {α : Type*} {store cells a b : List α} {offset i n : ℕ}

/-- Cells written from an offset on. -/
def write (store : List α) (offset : ℕ) (cells : List α) : List α :=
  store.take offset ++ (cells ++ store.drop (offset + cells.length))

/-- The cells stand at an offset. -/
def Stands (store : List α) (i : ℕ) (cells : List α) : Prop := ∀ k < cells.length, store[i + k]? = cells[k]?

theorem write_length (h : offset + cells.length ≤ store.length) : (write store offset cells).length = store.length := by
  simp only [write, List.length_append, List.length_take, List.length_drop]
  omega

/-- A cell after a write: a written one, or the one that was there. -/
theorem getElem?_write (h : offset + cells.length ≤ store.length) (k : ℕ) :
    (write store offset cells)[k]? = if offset ≤ k ∧ k < offset + cells.length then cells[k - offset]? else store[k]? := by
  have htake : (store.take offset).length = offset := by
    rw [List.length_take]
    omega
  rw [write, List.getElem?_append, htake, List.getElem?_append, List.getElem?_drop]
  rcases Nat.lt_or_ge k offset with hk | hk
  · rw [if_pos hk, if_neg (by omega), List.getElem?_take_of_lt hk]
  · rw [if_neg (by omega)]
    by_cases hin : k < offset + cells.length
    · rw [if_pos (by omega), if_pos ⟨hk, hin⟩]
    · rw [if_neg (by omega), if_neg (by omega)]
      congr 1
      omega

theorem stands_nil : Stands store i [] := fun k hk => absurd hk (Nat.not_lt_zero k)

/-- What was written stands. -/
theorem stands_write (h : offset + cells.length ≤ store.length) : Stands (write store offset cells) offset cells := by
  intro k hk
  rw [getElem?_write h, if_pos ⟨by omega, by omega⟩]
  congr 1
  omega

/-- A write apart from a segment leaves it. -/
theorem Stands.write (hs : Stands store i a) (h : offset + cells.length ≤ store.length)
    (hapart : i + a.length ≤ offset ∨ offset + cells.length ≤ i) : Stands (write store offset cells) i a := by
  intro k hk
  rw [getElem?_write h, if_neg (by omega)]
  exact hs k hk

/-- Two segments, one behind the other, are one. -/
theorem stands_append : Stands store i (a ++ b) ↔ Stands store i a ∧ Stands store (i + a.length) b := by
  constructor
  · intro h
    constructor
    · intro k hk
      rw [h k (by rw [List.length_append]; omega), List.getElem?_append_left hk]
    · intro k hk
      have hat := h (a.length + k) (by rw [List.length_append]; omega)
      rw [List.getElem?_append_right (by omega), Nat.add_sub_cancel_left, ← Nat.add_assoc] at hat
      exact hat
  · rintro ⟨ha, hb⟩ k hk
    rcases Nat.lt_or_ge k a.length with hlt | hge
    · rw [ha k hlt, List.getElem?_append_left hlt]
    · rw [List.length_append] at hk
      have hat := hb (k - a.length) (by omega)
      rw [List.getElem?_append_right hge, ← hat]
      congr 1
      omega

/-- Behind a write the store is as it was. -/
theorem drop_write (h : offset + cells.length ≤ store.length) (hn : offset + cells.length ≤ n) :
    (write store offset cells).drop n = store.drop n := by
  apply List.ext_getElem?
  intro k
  rw [List.getElem?_drop, List.getElem?_drop, getElem?_write h, if_neg (by omega)]

/-- One cell more behind those that are written. -/
theorem set_write {cell : α} (h : offset + cells.length < store.length) :
    (write store offset cells).set (offset + cells.length) cell = write store offset (cells ++ [cell]) := by
  have hwrite : (write store offset cells).length = store.length := write_length h.le
  have hmore : (cells ++ [cell]).length = cells.length + 1 := by rw [List.length_append, List.length_singleton]
  apply List.ext_getElem?
  intro k
  rw [List.getElem?_set, getElem?_write h.le, getElem?_write (by omega), hwrite, hmore]
  by_cases hk : offset + cells.length = k
  · rw [if_pos hk, if_pos (by omega), if_pos (by omega), List.getElem?_append_right (by omega)]
    have hindex : k - offset - cells.length = 0 := by omega
    rw [hindex]
    rfl
  · rw [if_neg hk]
    by_cases hin : offset ≤ k ∧ k < offset + cells.length
    · rw [if_pos hin, if_pos (by omega), List.getElem?_append_left (by omega)]
    · rw [if_neg hin, if_neg (by omega)]

/-- The cells of a write are the first of those and then the others. -/
theorem write_cons {cell : α} (h : offset + (cells.length + 1) ≤ store.length) :
    write store offset (cell :: cells) = write (store.set offset cell) (offset + 1) cells := by
  have hset : (store.set offset cell).length = store.length := List.length_set
  have hmore : (cell :: cells).length = cells.length + 1 := List.length_cons
  apply List.ext_getElem?
  intro k
  rw [getElem?_write (by omega), getElem?_write (by omega), List.getElem?_set, hmore]
  by_cases hk : offset = k
  · rw [if_pos (by omega), if_neg (by omega), if_pos hk, if_pos (by omega)]
    have hindex : k - offset = 0 := by omega
    rw [hindex]
    rfl
  · rw [if_neg hk]
    by_cases hin : offset + 1 ≤ k ∧ k < offset + 1 + cells.length
    · have hindex : k - offset = (k - (offset + 1)) + 1 := by omega
      rw [if_pos (by omega), if_pos hin, hindex, List.getElem?_cons_succ]
    · rw [if_neg (by omega), if_neg hin]

/-- A segment is what the store has there. -/
theorem Stands.segment (hs : Stands store i a) : (store.drop i).take a.length = a := by
  apply List.ext_getElem?
  intro k
  rcases Nat.lt_or_ge k a.length with hk | hk
  · rw [List.getElem?_take_of_lt hk, List.getElem?_drop, hs k hk]
  · rw [List.getElem?_eq_none hk, List.getElem?_eq_none (by rw [List.length_take]; omega)]

/-- A segment at the start is what the store begins with. -/
theorem Stands.take (hs : Stands store 0 a) : store.take a.length = a := hs.segment

/-- A segment in a part that two stores share. -/
theorem Stands.of_take {store' : List α} (hs : Stands store i a) (h : store'.take n = store.take n)
    (hn : i + a.length ≤ n) : Stands store' i a := by
  intro k hk
  rw [← List.getElem?_take_of_lt (show i + k < n by omega), h, List.getElem?_take_of_lt (by omega)]
  exact hs k hk

/-- What stands before a write is left. -/
theorem take_write (h : n ≤ offset) (hroom : offset ≤ store.length) : (write store offset cells).take n = store.take n := by
  rw [write, List.take_append_of_le_length (by rw [List.length_take]; omega), List.take_take, Nat.min_eq_left h]

/-- Two writes, one behind the other, are one. -/
theorem write_write (h : offset + a.length + b.length ≤ store.length) :
    write (write store offset a) (offset + a.length) b = write store offset (a ++ b) := by
  have hfirst : offset + a.length ≤ store.length := by omega
  have hlength := write_length hfirst
  apply List.ext_getElem?
  intro k
  rw [getElem?_write (by omega), getElem?_write hfirst, getElem?_write (by rw [List.length_append]; omega),
    List.length_append]
  by_cases hb : offset + a.length ≤ k ∧ k < offset + a.length + b.length
  · rw [if_pos hb, if_pos (by omega), List.getElem?_append_right (by omega)]
    congr 1
    omega
  · rw [if_neg hb]
    by_cases ha : offset ≤ k ∧ k < offset + a.length
    · rw [if_pos ha, if_pos (by omega), List.getElem?_append_left (by omega)]
    · rw [if_neg ha, if_neg (by omega)]

/-! ## Many writes -/

/-- Runs of cells, each written at its offset. -/
def writes (store : List α) (ws : List (ℕ × List α)) : List α := ws.foldl (fun store w => write store w.1 w.2) store

theorem writes_cons (w : ℕ × List α) (ws : List (ℕ × List α)) :
    writes store (w :: ws) = writes (write store w.1 w.2) ws := rfl

theorem writes_append (ws ws' : List (ℕ × List α)) : writes store (ws ++ ws') = writes (writes store ws) ws' :=
  List.foldl_append

theorem writes_length {ws : List (ℕ × List α)} (h : ∀ w ∈ ws, w.1 + w.2.length ≤ store.length) :
    (writes store ws).length = store.length := by
  induction ws generalizing store with
  | nil => rfl
  | cons w ws ih =>
    have hfirst : (write store w.1 w.2).length = store.length := write_length (h w List.mem_cons_self)
    rw [writes_cons, ih fun w' hw' => by rw [hfirst]; exact h w' (List.mem_cons_of_mem _ hw'), hfirst]

/-- Writes apart from a segment leave it. -/
theorem Stands.writes {ws : List (ℕ × List α)} (hs : Stands store i a) (h : ∀ w ∈ ws, w.1 + w.2.length ≤ store.length)
    (hapart : ∀ w ∈ ws, i + a.length ≤ w.1 ∨ w.1 + w.2.length ≤ i) : Stands (writes store ws) i a := by
  induction ws generalizing store with
  | nil => exact hs
  | cons w ws ih =>
    have hroom := h w List.mem_cons_self
    have hfirst : (Segments.write store w.1 w.2).length = store.length := write_length hroom
    exact ih (hs.write hroom (hapart w List.mem_cons_self))
      (fun w' hw' => by rw [hfirst]; exact h w' (List.mem_cons_of_mem _ hw'))
      fun w' hw' => hapart w' (List.mem_cons_of_mem _ hw')

/-- Behind all writes the store is as it was. -/
theorem drop_writes {ws : List (ℕ × List α)} (hn : n ≤ store.length) (h : ∀ w ∈ ws, w.1 + w.2.length ≤ n) :
    (writes store ws).drop n = store.drop n := by
  induction ws generalizing store with
  | nil => rfl
  | cons w ws ih =>
    have hroom := h w List.mem_cons_self
    have hfirst : (write store w.1 w.2).length = store.length := write_length (by omega)
    rw [writes_cons, ih (by omega) fun w' hw' => h w' (List.mem_cons_of_mem _ hw'), drop_write (by omega) hroom]

end Segments
