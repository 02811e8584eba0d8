import V9xRemote.Lib.Bytes

/-!
# Scanning a text by position

The `while` loops of a reader that moves a position through a buffer, and what they leave
between two positions.
-/

namespace Scan

open Bytes

/-- `while (i < stop && p(s[i])) ++i`. -/
def up (p : UInt8 → Bool) (s : Bytes) (stop i : ℕ) : ℕ :=
  if i < stop ∧ p (s.at' i) then up p s stop (i + 1) else i
termination_by stop - i

/-- `while (i > start && p(s[i - 1])) --i`. -/
def down (p : UInt8 → Bool) (s : Bytes) (start : ℕ) : ℕ → ℕ
  | 0 => 0
  | i + 1 => if start < i + 1 ∧ p (s.at' i) then down p s start i else i + 1

/-- What stands between two positions. -/
def slice (s : Bytes) (i j : ℕ) : Bytes := (s.drop i).take (j - i)

variable {p : UInt8 → Bool} {s : Bytes} {i j k : ℕ}

theorem at'_eq_getElem (h : i < s.length) : s.at' i = s[i] := by
  rw [at', List.getD_eq_getElem?_getD, List.getElem?_eq_getElem h, Option.getD_some]

theorem at'_mem (h : i < s.length) : s.at' i ∈ s := by
  rw [at'_eq_getElem h]
  exact List.getElem_mem h

/-- Behind its end a text reads as NUL. -/
theorem at'_of_length_le (h : s.length ≤ i) : s.at' i = 0 := by
  rw [at', List.getD_eq_getElem?_getD, List.getElem?_eq_none h, Option.getD_none]

theorem slice_self (s : Bytes) (i : ℕ) : slice s i i = [] := by rw [slice, Nat.sub_self, List.take_zero]

theorem slice_length (hj : j ≤ s.length) : (slice s i j).length = j - i := by
  rw [slice, List.length_take, List.length_drop]
  omega

theorem slice_eq_nil (hj : j ≤ s.length) : slice s i j = [] ↔ j ≤ i := by
  rw [← List.length_eq_zero_iff, slice_length hj]
  omega

/-- A slice ends below the end of a prefix of the text. -/
theorem slice_take (h : j ≤ k) : slice (s.take k) i j = slice s i j := by
  rw [slice, slice, ← List.drop_take, ← List.drop_take, List.take_take, Nat.min_eq_left h]

theorem slice_append_left {more : Bytes} (h : j ≤ s.length) : slice (s ++ more) i j = slice s i j := by
  rw [slice, slice, ← List.drop_take, ← List.drop_take, List.take_append_of_le_length h]

/-- A slice and the one behind it. -/
theorem slice_append (hij : i ≤ j) (hjk : j ≤ k) : slice s i j ++ slice s j k = slice s i k := by
  have hdrop : s.drop j = (s.drop i).drop (j - i) := by rw [List.drop_drop, Nat.add_sub_cancel' hij]
  have hlength : k - i = (j - i) + (k - j) := by omega
  rw [slice, slice, slice, hdrop, hlength, List.take_add]

theorem slice_cons (hij : i < j) (hj : j ≤ s.length) : slice s i j = s.at' i :: slice s (i + 1) j := by
  have hi : i < s.length := by omega
  have hlength : j - i = (j - (i + 1)) + 1 := by omega
  rw [slice, slice, hlength, List.drop_eq_getElem_cons hi, List.take_succ_cons, at'_eq_getElem hi]

theorem slice_snoc (hij : i ≤ j) (hj : j < s.length) : slice s i (j + 1) = slice s i j ++ [s.at' j] := by
  rw [← slice_append hij (Nat.le_succ j), slice_cons (Nat.lt_succ_self j) hj, slice_self]

theorem slice_head (hij : i < j) (hj : j ≤ s.length) : (slice s i j).head? = some (s.at' i) := by
  rw [slice_cons hij hj, List.head?_cons]

theorem slice_tail (hij : i < j) (hj : j ≤ s.length) : (slice s i j).tail = slice s (i + 1) j := by
  rw [slice_cons hij hj, List.tail_cons]

theorem slice_getLast (hij : i < j) (hj : j ≤ s.length) : (slice s i j).getLast? = some (s.at' (j - 1)) := by
  have hlast : j = (j - 1) + 1 := by omega
  rw [hlast, slice_snoc (by omega) (by omega), List.getLast?_concat, Nat.add_sub_cancel]

/-- Without its last byte; nothing stays nothing. -/
theorem slice_dropLast (hj : j ≤ s.length) : (slice s i j).dropLast = slice s i (j - 1) := by
  rw [slice, slice, List.dropLast_eq_take, List.length_take, List.length_drop, List.take_take]
  congr 1
  omega

/-! ## Filling a buffer from its start -/

theorem set_behind (front rest : Bytes) (b : UInt8) (h : front.length < rest.length) :
    (front ++ rest.drop front.length).set front.length b = (front ++ [b]) ++ rest.drop (front.length + 1) := by
  rw [List.set_append_right _ _ le_rfl, Nat.sub_self, List.drop_eq_getElem_cons h, List.set_cons_zero, List.append_assoc]
  rfl

/-- What was not reached is as it was. -/
theorem drop_behind (front rest : Bytes) (h : front.length ≤ k) : (front ++ rest.drop front.length).drop k = rest.drop k := by
  rw [List.drop_append, List.drop_eq_nil_of_le h, List.nil_append, List.drop_drop, Nat.add_sub_cancel' h]

/-! ## Upwards -/

theorem le_up (p : UInt8 → Bool) (s : Bytes) (stop i : ℕ) : i ≤ up p s stop i := by
  induction i using up.induct p s stop with
  | case1 i h ih =>
    rw [up, if_pos h]
    omega
  | case2 i h => rw [up, if_neg h]

theorem up_le (h : i ≤ j) : up p s j i ≤ j := by
  induction i using up.induct p s j with
  | case1 i hgo ih =>
    rw [up, if_pos hgo]
    exact ih hgo.1
  | case2 i hgo =>
    rw [up, if_neg hgo]
    exact h

/-- Where it stops before the end, the test fails. -/
theorem up_fails (h : up p s j i < j) : ¬p (s.at' (up p s j i)) = true := by
  induction i using up.induct p s j with
  | case1 i hgo ih =>
    rw [up, if_pos hgo] at h ⊢
    exact ih h
  | case2 i hgo =>
    rw [up, if_neg hgo] at h ⊢
    exact fun hp => hgo ⟨h, hp⟩

/-- It does not get past a byte on which the test fails. -/
theorem up_le_of_fails (hik : i ≤ k) (h : ¬p (s.at' k) = true) : up p s j i ≤ k := by
  induction i using up.induct p s j with
  | case1 i hgo ih =>
    have hne : i ≠ k := fun he => h (he ▸ hgo.2)
    rw [up, if_pos hgo]
    exact ih (by omega)
  | case2 i hgo =>
    rw [up, if_neg hgo]
    exact hik

/-- **The scanned part** is the longest that the test holds of. -/
theorem slice_up (hj : j ≤ s.length) (h : i ≤ j) : slice s i (up p s j i) = (slice s i j).takeWhile p ∧
    slice s (up p s j i) j = (slice s i j).dropWhile p := by
  induction i using up.induct p s j with
  | case1 i hgo ih =>
    obtain ⟨htake, hdrop⟩ := ih hgo.1
    have hle := le_up p s j (i + 1)
    have hbound : up p s j (i + 1) ≤ j := up_le hgo.1
    rw [up, if_pos hgo, slice_cons (i := i) (j := j) hgo.1 hj, List.takeWhile_cons_of_pos hgo.2,
      List.dropWhile_cons_of_pos hgo.2, slice_cons (by omega) (by omega), htake]
    exact ⟨rfl, hdrop⟩
  | case2 i hgo =>
    rw [up, if_neg hgo, slice_self]
    by_cases hend : i < j
    · have hp : ¬p (s.at' i) = true := fun hp => hgo ⟨hend, hp⟩
      rw [slice_cons hend hj, List.takeWhile_cons_of_neg hp, List.dropWhile_cons_of_neg hp]
      exact ⟨rfl, rfl⟩
    · have hnil : slice s i j = [] := (slice_eq_nil hj).2 (not_lt.1 hend)
      rw [hnil]
      exact ⟨rfl, rfl⟩

/-- The bytes at the start that pass, and the rest, which does not start with one. -/
theorem span_iff {d r : Bytes} : (s = d ++ r ∧ (∀ c ∈ d, p c = true) ∧ ∀ c ∈ r.head?, ¬p c = true) ↔
    d = s.takeWhile p ∧ r = s.dropWhile p := by
  constructor
  · rintro ⟨rfl, hall, hhead⟩
    rw [List.takeWhile_append_of_pos hall, List.dropWhile_append_of_pos hall]
    cases r with
    | nil => exact ⟨(List.append_nil d).symm, rfl⟩
    | cons c r =>
      have hc := hhead c rfl
      rw [List.takeWhile_cons_of_neg hc, List.dropWhile_cons_of_neg hc, List.append_nil]
      exact ⟨rfl, rfl⟩
  · rintro ⟨rfl, rfl⟩
    refine ⟨List.takeWhile_append_dropWhile.symm, List.all_eq_true.1 List.all_takeWhile, fun c hc => ?_⟩
    have hnot := List.head?_dropWhile_not p s
    rw [hc] at hnot
    exact Bool.eq_false_iff.1 hnot

/-! ## Downwards -/

theorem down_le (p : UInt8 → Bool) (s : Bytes) (i j : ℕ) : down p s i j ≤ j := by
  induction j with
  | zero => exact le_rfl
  | succ j ih =>
    rw [down]
    split
    · omega
    · exact le_rfl

theorem le_down (h : i ≤ j) : i ≤ down p s i j := by
  induction j with
  | zero => exact h
  | succ j ih =>
    rw [down]
    split
    · exact ih (by omega)
    · exact h

/-- **What is left** ends where the test fails. -/
theorem slice_down (hj : j ≤ s.length) (h : i ≤ j) :
    slice s i (down p s i j) = ((slice s i j).reverse.dropWhile p).reverse := by
  induction j with
  | zero =>
    obtain rfl := Nat.le_zero.1 h
    rw [down, slice_self]
    rfl
  | succ j ih =>
    rw [down]
    by_cases hend : i = j + 1
    · rw [if_neg fun hgo => absurd hgo.1 (by omega), hend, slice_self]
      rfl
    rw [slice_snoc (by omega) hj, List.reverse_append, List.reverse_singleton, List.singleton_append]
    split
    · rename_i hgo
      rw [List.dropWhile_cons_of_pos hgo.2, ih (by omega) (by omega)]
    · rename_i hstop
      have hp : ¬p (s.at' j) = true := fun hp => hstop ⟨by omega, hp⟩
      rw [List.dropWhile_cons_of_neg hp, List.reverse_cons, List.reverse_reverse, ← slice_snoc (by omega) hj]

end Scan
