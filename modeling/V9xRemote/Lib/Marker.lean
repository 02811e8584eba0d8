import Mathlib.Algebra.Order.Ring.Nat
import Mathlib.Data.List.Basic
import Mathlib.Tactic.Common

/-!
# The part of a list up to a marker

`UpTo mark head all`: `head` is the shortest part at the front of `all` that ends with the
marker. It stays the same when the list grows (`UpTo.append`), so it does not matter when it
is looked for.
-/

namespace Marker

variable {α : Type} {mark head head' all more : List α}

/-- The shortest front part that ends with the marker. -/
structure UpTo (mark head all : List α) : Prop where
  front : head <+: all
  ends : mark <:+ head
  least : ∀ part, part <+: all → mark <:+ part → head.length ≤ part.length

theorem UpTo.unique (h : UpTo mark head all) (h' : UpTo mark head' all) : head = head' := by
  have hlength := Nat.le_antisymm (h.least head' h'.front h'.ends) (h'.least head h.front h.ends)
  exact (List.prefix_of_prefix_length_le h.front h'.front hlength.le).eq_of_length hlength

/-- A part at the front of a longer list that is not too long. -/
theorem front_of_append {part : List α} (h : part <+: all ++ more) (hle : part.length ≤ all.length) : part <+: all :=
  List.prefix_of_prefix_length_le h (List.prefix_append all more) hle

theorem UpTo.append (h : UpTo mark head all) (more : List α) : UpTo mark head (all ++ more) where
  front := h.front.trans (List.prefix_append all more)
  ends := h.ends
  least := by
    intro part hpart hends
    rcases Nat.le_total part.length all.length with hle | hle
    · exact h.least part (front_of_append hpart hle) hends
    · exact h.front.length_le.trans hle

theorem UpTo.of_append (h : UpTo mark head (all ++ more)) (hle : head.length ≤ all.length) : UpTo mark head all where
  front := front_of_append h.front hle
  ends := h.ends
  least := fun part hpart hends => h.least part (hpart.trans (List.prefix_append all more)) hends

/-- Where no part at the front ends with the marker yet. -/
def Missing (mark all : List α) : Prop := ∀ part, part <+: all → ¬mark <:+ part

theorem Missing.of_append (h : Missing mark (all ++ more)) : Missing mark all :=
  fun part hpart => h part (hpart.trans (List.prefix_append all more))

/-- The marker at the front. -/
theorem UpTo.here {rest : List α} (h : all = mark ++ rest) : UpTo mark mark all where
  front := h ▸ List.prefix_append mark rest
  ends := List.suffix_refl mark
  least := fun _ _ hends => hends.length_le

/-- The marker does not stand at the front: one element on. -/
theorem UpTo.cons {a : α} (h : UpTo mark head all) (hmark : mark ≠ []) (hnot : ¬mark <+: a :: all) :
    UpTo mark (a :: head) (a :: all) where
  front := List.cons_prefix_cons.2 ⟨rfl, h.front⟩
  ends := h.ends.trans (List.suffix_cons a head)
  least := by
    intro part hpart hends
    rcases part with - | ⟨b, part⟩
    · exact absurd (List.suffix_nil.1 hends) hmark
    · obtain ⟨rfl, htail⟩ := List.cons_prefix_cons.1 hpart
      rcases List.suffix_cons_iff.1 hends with heq | hends
      · exact absurd (heq ▸ hpart) hnot
      · exact Nat.succ_le_succ (h.least part htail hends)

theorem Missing.cons {a : α} (h : Missing mark all) (hmark : mark ≠ []) (hnot : ¬mark <+: a :: all) :
    Missing mark (a :: all) := by
  intro part hpart hends
  rcases part with - | ⟨b, part⟩
  · exact hmark (List.suffix_nil.1 hends)
  · obtain ⟨rfl, htail⟩ := List.cons_prefix_cons.1 hpart
    rcases List.suffix_cons_iff.1 hends with heq | hends
    · exact hnot (heq ▸ hpart)
    · exact h part htail hends

theorem missing_nil (hmark : mark ≠ []) : Missing mark [] := by
  intro part hpart hends
  rw [List.prefix_nil.1 hpart] at hends
  exact hmark (List.suffix_nil.1 hends)

end Marker
