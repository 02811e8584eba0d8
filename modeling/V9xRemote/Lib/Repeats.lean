import Mathlib.Algebra.Order.Ring.Nat
import Mathlib.Data.List.TakeWhile
import Mathlib.Tactic.Common

/-!
# Maximal repeats of a list

`repeats` is the loop that takes an element with all equal ones that follow it, again and
again; written out one after another they give the list back (`expand_repeats`).
-/

namespace Repeats

variable {α β : Type}

/-- Every element as often as it says. -/
def expand (l : List (β × ℕ)) : List β := l.flatMap fun p => List.replicate p.2 p.1

@[simp] theorem expand_nil : expand ([] : List (β × ℕ)) = [] := rfl

@[simp] theorem expand_cons (p : β × ℕ) (l : List (β × ℕ)) : expand (p :: l) = List.replicate p.2 p.1 ++ expand l :=
  List.flatMap_cons

variable [DecidableEq α]

/-- Each element with the number of times it stands in a row; `fuel` bounds the loop. -/
def repeatsFrom : ℕ → List α → List (α × ℕ)
  | 0, _ => []
  | _ + 1, [] => []
  | fuel + 1, a :: rest =>
    let more := (rest.takeWhile (· == a)).length
    (a, 1 + more) :: repeatsFrom fuel (rest.drop more)

def repeats (l : List α) : List (α × ℕ) := repeatsFrom l.length l

theorem takeWhile_eq_replicate (a : α) (l : List α) :
    l.takeWhile (· == a) = List.replicate (l.takeWhile (· == a)).length a :=
  List.eq_replicate_of_mem fun b hb => by simpa using List.mem_takeWhile_imp hb

/-- One repeat and what follows it. -/
theorem split_repeat (a : α) (rest : List α) :
    List.replicate (1 + (rest.takeWhile (· == a)).length) a ++ rest.drop (rest.takeWhile (· == a)).length = a :: rest := by
  have hrun := takeWhile_eq_replicate a rest
  have htake : rest.takeWhile (· == a) = rest.take (rest.takeWhile (· == a)).length :=
    List.prefix_iff_eq_take.1 (List.takeWhile_prefix _)
  calc List.replicate (1 + (rest.takeWhile (· == a)).length) a ++ rest.drop (rest.takeWhile (· == a)).length
      = a :: (List.replicate (rest.takeWhile (· == a)).length a ++ rest.drop (rest.takeWhile (· == a)).length) := by
        rw [Nat.add_comm, List.replicate_succ, List.cons_append]
    _ = a :: (rest.take (rest.takeWhile (· == a)).length ++ rest.drop (rest.takeWhile (· == a)).length) := by
        rw [← hrun, ← htake]
    _ = a :: rest := by rw [List.take_append_drop]

theorem expand_repeatsFrom {fuel : ℕ} {l : List α} (h : l.length ≤ fuel) : expand (repeatsFrom fuel l) = l := by
  induction fuel generalizing l with
  | zero =>
    obtain rfl := List.eq_nil_of_length_eq_zero (Nat.le_zero.1 h)
    rfl
  | succ fuel ih =>
    rcases l with - | ⟨a, rest⟩
    · rfl
    · rw [List.length_cons] at h
      rw [repeatsFrom, expand_cons, ih (by rw [List.length_drop]; omega)]
      exact split_repeat a rest

/-- **Written out, the repeats are the list.** -/
theorem expand_repeats (l : List α) : expand (repeats l) = l := expand_repeatsFrom le_rfl

theorem repeatsFrom_pos {fuel : ℕ} {l : List α} {p : α × ℕ} (h : p ∈ repeatsFrom fuel l) : 0 < p.2 := by
  induction fuel generalizing l with
  | zero => exact absurd h List.not_mem_nil
  | succ fuel ih =>
    rcases l with - | ⟨a, rest⟩
    · exact absurd h List.not_mem_nil
    · rw [repeatsFrom] at h
      rcases List.mem_cons.1 h with rfl | h
      · dsimp only
        omega
      · exact ih h

theorem repeats_pos {l : List α} {p : α × ℕ} (h : p ∈ repeats l) : 0 < p.2 := repeatsFrom_pos h

/-- Every element of the list is that of a repeat. -/
theorem exists_repeat {l : List α} {a : α} (h : a ∈ l) : ∃ p ∈ repeats l, p.1 = a := by
  rw [← expand_repeats l] at h
  obtain ⟨p, hp, ha⟩ := List.mem_flatMap.1 h
  exact ⟨p, hp, (List.eq_of_mem_replicate ha).symm⟩

end Repeats
