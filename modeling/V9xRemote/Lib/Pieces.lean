import Mathlib.Algebra.Order.Ring.Nat
import Mathlib.Tactic.Common

/-!
# The pieces of a list between separators

What `List.splitOn` keeps of the list it splits: every element that is no separator, in a
piece without one, and every separator as the end of a piece. What a reader gets that takes a
text line by line into a buffer, and a longer line in several pieces.
-/

namespace Pieces

variable {α : Type} [BEq α]

/-- The bytes of the pieces between separators. -/
theorem splitOn_sum (s : List α) (c : α) :
    ((s.splitOn c).map fun piece => piece.length + 1).sum = s.length + 1 := by
  induction s with
  | nil => rfl
  | cons b s ih =>
    rw [List.splitOn_cons_eq_if_modifyHead]
    split
    · rw [List.map_cons, List.sum_cons, ih]
      simp only [List.length_nil, List.length_cons]
      omega
    · obtain ⟨head, tail, htail⟩ := List.exists_cons_of_ne_nil (List.splitOn_ne_nil c s)
      rw [htail, List.map_cons, List.sum_cons] at ih
      rw [htail, List.modifyHead_cons, List.map_cons, List.sum_cons]
      simp only [List.length_cons]
      omega

variable [LawfulBEq α]

/-- The pieces between separators hold what is no separator. -/
theorem splitOn_mem (s : List α) (c : α) :
    ∀ piece ∈ s.splitOn c, ∀ x ∈ piece, x ∈ s ∧ x ≠ c := by
  induction s with
  | nil =>
    intro piece hpiece x hx
    rw [List.splitOn_nil, List.mem_singleton] at hpiece
    rw [hpiece] at hx
    exact absurd hx List.not_mem_nil
  | cons b s ih =>
    have hlater : ∀ {piece x}, piece ∈ s.splitOn c → x ∈ piece → x ∈ b :: s ∧ x ≠ c := fun hpiece hx =>
      (ih _ hpiece _ hx).imp_left (List.mem_cons_of_mem _)
    intro piece hpiece x hx
    rw [List.splitOn_cons_eq_if_modifyHead] at hpiece
    split at hpiece
    · rcases List.mem_cons.1 hpiece with rfl | hpiece
      · exact absurd hx List.not_mem_nil
      · exact hlater hpiece hx
    · rename_i hne
      obtain ⟨head, tail, htail⟩ := List.exists_cons_of_ne_nil (List.splitOn_ne_nil c s)
      rw [htail, List.modifyHead_cons] at hpiece
      rw [htail] at hlater
      rcases List.mem_cons.1 hpiece with rfl | hpiece
      · rcases List.mem_cons.1 hx with rfl | hx
        · exact ⟨List.mem_cons_self, by simpa using hne⟩
        · exact hlater List.mem_cons_self hx
      · exact hlater (List.mem_cons_of_mem _ hpiece) hx

/-! ## Pieces with their separators -/

omit [BEq α] [LawfulBEq α] in
/-- The first separator ends the first piece. -/
theorem first_unique {c : α} {s t more rest : List α} (hs : c ∉ s) (ht : c ∉ t)
    (h : s ++ c :: more = t ++ c :: rest) : s = t ∧ more = rest := by
  induction s generalizing t with
  | nil =>
    cases t with
    | nil => exact ⟨rfl, List.tail_eq_of_cons_eq h⟩
    | cons b t =>
      have hb : c = b := List.head_eq_of_cons_eq h
      exact absurd (hb ▸ List.mem_cons_self) ht
  | cons a s ih =>
    cases t with
    | nil =>
      have ha : a = c := List.head_eq_of_cons_eq h
      exact absurd (ha ▸ List.mem_cons_self) hs
    | cons b t =>
      have hrest := List.tail_eq_of_cons_eq h
      obtain ⟨rfl, hmore⟩ := ih (fun hmem => hs (List.mem_cons_of_mem _ hmem))
        (fun hmem => ht (List.mem_cons_of_mem _ hmem)) hrest
      exact ⟨by rw [List.head_eq_of_cons_eq h], hmore⟩

omit [BEq α] [LawfulBEq α] in
/-- Pieces that are each ended by a separator are read back from what they make. -/
theorem ended_injective {c : α} {ps qs : List (List α)} (hps : ∀ p ∈ ps, c ∉ p) (hqs : ∀ q ∈ qs, c ∉ q)
    (h : (ps.flatMap fun p => p ++ [c]) = qs.flatMap fun q => q ++ [c]) : ps = qs := by
  induction ps generalizing qs with
  | nil =>
    cases qs with
    | nil => rfl
    | cons q qs => simp at h
  | cons p ps ih =>
    cases qs with
    | nil => simp at h
    | cons q qs =>
      rw [List.flatMap_cons, List.flatMap_cons, List.append_assoc, List.append_assoc, List.singleton_append,
        List.singleton_append] at h
      obtain ⟨rfl, hrest⟩ := first_unique (hps p List.mem_cons_self) (hqs q List.mem_cons_self) h
      rw [ih (fun p' hp' => hps p' (List.mem_cons_of_mem _ hp')) (fun q' hq' => hqs q' (List.mem_cons_of_mem _ hq'))
        hrest]

/-! ## Lines read into a buffer -/

section Buffer

variable {α : Type} [DecidableEq α] {c : α} {n : ℕ}

/-- The pieces in which a text is read line by line into a buffer of `n` places: `held` is what
stands in it so far, `c` ends a line. -/
def buffered (c : α) (n : ℕ) (held : List α) : List α → List (List α)
  | [] => if held = [] then [] else [held]
  | a :: s => if a = c ∨ held.length + 1 = n then (held ++ [a]) :: buffered c n [] s else buffered c n (held ++ [a]) s

/-- **Behind the end of a line** a piece starts, however the lines before it were split. -/
theorem buffered_append (held s t : List α) :
    buffered c n held (s ++ c :: t) = buffered c n held (s ++ [c]) ++ buffered c n [] t := by
  induction s generalizing held with
  | nil =>
    rw [List.nil_append, List.nil_append, buffered, buffered, if_pos (Or.inl rfl), if_pos (Or.inl rfl)]
    rfl
  | cons a s ih =>
    rw [List.cons_append, List.cons_append, buffered, buffered]
    split_ifs
    · rw [ih, List.cons_append]
    · exact ih _

/-- A line that fits is one piece. -/
theorem buffered_line {held s : List α} (hs : c ∉ s) (hn : held.length + s.length < n) :
    buffered c n held (s ++ [c]) = [held ++ (s ++ [c])] := by
  induction s generalizing held with
  | nil =>
    rw [List.nil_append, buffered, if_pos (Or.inl rfl)]
    rfl
  | cons a s ih =>
    have ha : a ≠ c := fun h => hs (h ▸ List.mem_cons_self)
    rw [List.length_cons] at hn
    have hfits : ¬(a = c ∨ held.length + 1 = n) := fun h => h.elim ha (by omega)
    rw [List.cons_append, buffered, if_neg hfits,
      ih (fun h => hs (List.mem_cons_of_mem _ h)) (by rw [List.length_append, List.length_singleton]; omega),
      List.append_assoc, List.singleton_append]

end Buffer

end Pieces
