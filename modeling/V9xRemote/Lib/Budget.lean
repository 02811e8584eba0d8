import Mathlib.Tactic.Common
import Mathlib.Data.List.Infix
import Mathlib.Algebra.BigOperators.Group.List.Basic
import Mathlib.Algebra.Order.Ring.Nat

/-!
# Items taken while there is room

Items are taken in their order. Each asks for some room and keeps some of it; the first
that asks for more than is left ends the taking.
-/

namespace Budget

variable {α : Type*} {need keep : α → ℕ} {limit used : ℕ} {x : α} {xs : List α}

/-- The items taken, where some room is used already. -/
def taken (need keep : α → ℕ) (limit : ℕ) : ℕ → List α → List α
  | _, [] => []
  | used, x :: xs => if used + need x ≤ limit then x :: taken need keep limit (used + keep x) xs else []

/-- An item was refused. -/
def stopped (need keep : α → ℕ) (limit : ℕ) : ℕ → List α → Bool
  | _, [] => false
  | used, x :: xs => if used + need x ≤ limit then stopped need keep limit (used + keep x) xs else true

theorem taken_fits (h : used + need x ≤ limit) :
    taken need keep limit used (x :: xs) = x :: taken need keep limit (used + keep x) xs := if_pos h

theorem taken_full (h : limit < used + need x) : taken need keep limit used (x :: xs) = [] := if_neg (by omega)

theorem stopped_fits (h : used + need x ≤ limit) :
    stopped need keep limit used (x :: xs) = stopped need keep limit (used + keep x) xs := if_pos h

theorem stopped_full (h : limit < used + need x) : stopped need keep limit used (x :: xs) = true := if_neg (by omega)

/-- The items taken are the first ones. -/
theorem taken_prefix (xs : List α) : taken need keep limit used xs <+: xs := by
  induction xs generalizing used with
  | nil => exact List.nil_prefix
  | cons x xs ih =>
    rcases Nat.lt_or_ge limit (used + need x) with hx | hx
    · rw [taken_full hx]
      exact List.nil_prefix
    · rw [taken_fits hx]
      exact (List.prefix_cons_inj x).2 ih

/-- What is kept stays within the room. -/
theorem taken_within (hneed : ∀ x, keep x ≤ need x) (hused : used ≤ limit) (xs : List α) :
    used + ((taken need keep limit used xs).map keep).sum ≤ limit := by
  induction xs generalizing used with
  | nil => exact hused
  | cons x xs ih =>
    rcases Nat.lt_or_ge limit (used + need x) with hx | hx
    · rw [taken_full hx]
      exact hused
    · have hx' := hneed x
      have hrest : used + keep x + ((taken need keep limit (used + keep x) xs).map keep).sum ≤ limit :=
        ih (by omega)
      rw [taken_fits hx, List.map_cons, List.sum_cons]
      omega

/-- No longer initial run has room. -/
theorem taken_longest (hneed : ∀ x, need x ≤ keep x) {run : List α} (hrun : run <+: xs)
    (hroom : used + (run.map keep).sum ≤ limit) : run.length ≤ (taken need keep limit used xs).length := by
  induction xs generalizing used run with
  | nil =>
    rw [List.prefix_nil.1 hrun]
    exact Nat.zero_le _
  | cons x xs ih =>
    cases run with
    | nil => exact Nat.zero_le _
    | cons y run =>
      obtain ⟨rfl, hmore⟩ := List.cons_prefix_cons.1 hrun
      rw [List.map_cons, List.sum_cons] at hroom
      have hy := hneed y
      rw [taken_fits (by omega), List.length_cons, List.length_cons]
      have hrest : run.length ≤ (taken need keep limit (used + keep y) xs).length := ih hmore (by omega)
      omega

/-- Where none was refused, all are taken. -/
theorem taken_all (h : stopped need keep limit used xs = false) : taken need keep limit used xs = xs := by
  induction xs generalizing used with
  | nil => rfl
  | cons x xs ih =>
    rcases Nat.lt_or_ge limit (used + need x) with hx | hx
    · rw [stopped_full hx] at h
      cases h
    · rw [stopped_fits hx] at h
      rw [taken_fits hx, ih h]

/-- Where there is room for all, none is refused. -/
theorem not_stopped (hneed : ∀ x, need x ≤ keep x) (hroom : used + (xs.map keep).sum ≤ limit) :
    stopped need keep limit used xs = false := by
  induction xs generalizing used with
  | nil => rfl
  | cons x xs ih =>
    rw [List.map_cons, List.sum_cons] at hroom
    have hx := hneed x
    rw [stopped_fits (by omega)]
    exact ih (by omega)

/-- The item refused is the one behind those taken, and it found too little room. -/
theorem taken_stopped (h : stopped need keep limit used xs = true) : ∃ x after,
    xs = taken need keep limit used xs ++ x :: after ∧
      limit < used + ((taken need keep limit used xs).map keep).sum + need x := by
  induction xs generalizing used with
  | nil => cases h
  | cons x xs ih =>
    rcases Nat.lt_or_ge limit (used + need x) with hx | hx
    · rw [taken_full hx]
      exact ⟨x, xs, rfl, hx⟩
    · rw [stopped_fits hx] at h
      obtain ⟨y, after, hxs, hy⟩ := ih h
      refine ⟨y, after, ?_, ?_⟩
      · rw [taken_fits hx, List.cons_append, ← hxs]
      · rw [taken_fits hx, List.map_cons, List.sum_cons]
        omega

/-- **An item is refused exactly where one does not fit behind all that stand before it.** -/
theorem stopped_iff : stopped need keep limit used xs = true ↔
    ∃ before x after, xs = before ++ x :: after ∧ limit < used + (before.map keep).sum + need x := by
  constructor
  · intro h
    obtain ⟨x, after, hxs, hx⟩ := taken_stopped h
    exact ⟨_, x, after, hxs, hx⟩
  · rintro ⟨before, x, after, rfl, hx⟩
    induction before generalizing used with
    | nil => exact stopped_full hx
    | cons y before ih =>
      rcases Nat.lt_or_ge limit (used + need y) with hy | hy
      · exact stopped_full hy
      · rw [List.cons_append, stopped_fits hy]
        apply ih
        rw [List.map_cons, List.sum_cons] at hx
        omega

/-! ## Pieces cut to a budget -/

/-- The pieces of a string cut to `room` altogether, without the empty ones. -/
def cut : ℕ → List (List α) → List (List α)
  | _, [] => []
  | room, piece :: pieces =>
    if piece.take room = [] then cut (room - piece.length) pieces
    else piece.take room :: cut (room - piece.length) pieces

/-- **What is cut is the first `room` of the whole.** -/
theorem cut_flatten (room : ℕ) (pieces : List (List α)) : (cut room pieces).flatten = pieces.flatten.take room := by
  induction pieces generalizing room with
  | nil => simp [cut]
  | cons piece pieces ih =>
    rw [List.flatten_cons, List.take_append, ← ih, cut]
    split
    · rename_i hempty
      rw [hempty, List.nil_append]
    · rfl

theorem mem_cut {room : ℕ} {pieces : List (List α)} {kept : List α} (h : kept ∈ cut room pieces) :
    kept ≠ [] ∧ ∃ piece ∈ pieces, kept <+: piece := by
  induction pieces generalizing room with
  | nil => cases h
  | cons piece pieces ih =>
    have hrest : ∀ room, kept ∈ cut room pieces → kept ≠ [] ∧ ∃ p ∈ piece :: pieces, kept <+: p := by
      intro room hmem
      obtain ⟨hne, p, hp, hpre⟩ := ih hmem
      exact ⟨hne, p, List.mem_cons_of_mem _ hp, hpre⟩
    unfold cut at h
    split at h
    · exact hrest _ h
    · rename_i hne
      rcases List.mem_cons.1 h with rfl | h
      · exact ⟨hne, piece, List.mem_cons_self, List.take_prefix _ _⟩
      · exact hrest _ h

theorem cut_append (room : ℕ) (a b : List (List α)) :
    cut room (a ++ b) = cut room a ++ cut (room - a.flatten.length) b := by
  induction a generalizing room with
  | nil => rfl
  | cons piece a ih =>
    rw [List.cons_append, List.flatten_cons, List.length_append, ← Nat.sub_sub, cut, cut, ih]
    split <;> rfl

/-- One piece more: `k` items of it are kept, which is what there is room for. -/
theorem cut_snoc {room k : ℕ} {pieces : List (List α)} {piece : List α}
    (hk : k = min piece.length (room - pieces.flatten.length)) :
    cut room (pieces ++ [piece]) = cut room pieces ++ if k = 0 then [] else [piece.take k] := by
  have htake : piece.take (room - pieces.flatten.length) = piece.take k := by
    rw [hk, List.take_eq_take_iff]
    omega
  rw [cut_append, cut, htake, cut]
  by_cases hnone : k = 0
  · rw [if_pos hnone, hnone, List.take_zero, if_pos rfl]
  · have hsome : piece.take k ≠ [] := by
      rw [Ne, List.take_eq_nil_iff, not_or]
      refine ⟨hnone, fun hnil => ?_⟩
      rw [hnil] at hk
      exact hnone (hk.trans (Nat.zero_min _))
    rw [if_neg hsome, if_neg hnone]

end Budget
