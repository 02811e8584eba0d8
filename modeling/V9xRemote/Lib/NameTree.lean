import Mathlib.Tactic.Common
import Mathlib.Data.List.Infix

/-!
# Paths in a tree of names

A path text is cut into components at a separator; a `Lookup` says which entry of
a directory, if any, a component names. An object is known by the entries on the way
to it, so two texts name one object when `resolve` gives the same list, however they
spell it.
-/

namespace NameTree

/-! ## Components of a text -/

section Components

variable {α : Type*} [DecidableEq α]

/-- The components of a text that starts with `cur`, which has no separator. -/
def componentsFrom (sep : α) (cur : List α) : List α → List (List α)
  | [] => if cur = [] then [] else [cur]
  | b :: text =>
    if b = sep then (if cur = [] then [] else [cur]) ++ componentsFrom sep [] text
    else componentsFrom sep (cur ++ [b]) text

/-- What stands between separators, where it is not empty. -/
def components (sep : α) (text : List α) : List (List α) := componentsFrom sep [] text

theorem componentsFrom_append (sep : α) (cur text more : List α) :
    componentsFrom sep cur (text ++ sep :: more) =
      componentsFrom sep cur text ++ components sep more := by
  induction text generalizing cur with
  | nil => simp [componentsFrom, components]
  | cons b text ih =>
    rw [List.cons_append, componentsFrom, componentsFrom]
    split
    · rw [ih, List.append_assoc]
    · exact ih _

/-- The components of a joined path. -/
theorem components_append (sep : α) (text more : List α) :
    components sep (text ++ sep :: more) = components sep text ++ components sep more :=
  componentsFrom_append sep [] text more

theorem componentsFrom_ne_nil {sep : α} {cur text : List α} (h : cur ≠ [] ∨ ∃ b ∈ text, b ≠ sep) :
    componentsFrom sep cur text ≠ [] := by
  induction text generalizing cur with
  | nil =>
    obtain h | ⟨b, hb, -⟩ := h
    · simp [componentsFrom, h]
    · exact absurd hb List.not_mem_nil
  | cons b text ih =>
    rw [componentsFrom]
    split
    · rename_i hsep
      obtain h | ⟨b', hb', hne⟩ := h
      · simp [h]
      · obtain rfl | hmem := List.mem_cons.1 hb'
        · exact absurd hsep hne
        · exact List.append_ne_nil_of_right_ne_nil _ (ih (Or.inr ⟨b', hmem, hne⟩))
    · exact ih (Or.inl (List.append_ne_nil_of_right_ne_nil _ (List.cons_ne_nil _ _)))

/-- A text with anything but separators in it has a component. -/
theorem components_ne_nil {sep : α} {text : List α} (h : ∃ b ∈ text, b ≠ sep) :
    components sep text ≠ [] :=
  componentsFrom_ne_nil (Or.inr h)

end Components

/-! ## Walking down a tree -/

section Walk

variable {N C : Type*}

/-- Which entry of a directory a component names, if any. -/
abbrev Lookup (N C : Type*) := List C → N → Option C

/-- The object the components lead to from a directory. -/
def walk (lookup : Lookup N C) (dir : List C) (names : List N) : Option (List C) :=
  names.foldlM (fun dir name => (lookup dir name).map fun entry => dir ++ [entry]) dir

@[simp] theorem walk_nil (lookup : Lookup N C) (dir : List C) : walk lookup dir [] = some dir := rfl

@[simp] theorem walk_cons (lookup : Lookup N C) (dir : List C) (name : N) (names : List N) :
    walk lookup dir (name :: names) =
      ((lookup dir name).map fun entry => dir ++ [entry]).bind fun dir => walk lookup dir names := rfl

theorem walk_append (lookup : Lookup N C) (dir : List C) (names more : List N) :
    walk lookup dir (names ++ more) = (walk lookup dir names).bind fun dir => walk lookup dir more := by
  simp only [walk, List.foldlM_append]; rfl

/-- A walk goes down, one entry for each component. -/
theorem walk_spec {lookup : Lookup N C} {dir object : List C} {names : List N}
    (h : walk lookup dir names = some object) :
    dir <+: object ∧ object.length = dir.length + names.length := by
  induction names generalizing dir with
  | nil =>
    obtain rfl := Option.some.inj h
    exact ⟨List.prefix_rfl, rfl⟩
  | cons name names ih =>
    rw [walk_cons, Option.bind_eq_some_iff] at h
    obtain ⟨dir', hdir', h⟩ := h
    obtain ⟨entry, -, rfl⟩ := Option.map_eq_some_iff.1 hdir'
    obtain ⟨hdown, hlength⟩ := ih h
    refine ⟨(List.prefix_append _ _).trans hdown, ?_⟩
    simp only [List.length_append, List.length_cons, List.length_nil] at hlength ⊢
    omega

end Walk

/-! ## Texts as paths -/

section Resolve

variable {α C : Type*} [DecidableEq α]

/-- The object a text names. -/
def resolve (lookup : Lookup (List α) C) (sep : α) (text : List α) : Option (List C) :=
  walk lookup [] (components sep text)

theorem resolve_length {lookup : Lookup (List α) C} {sep : α} {text : List α} {object : List C}
    (h : resolve lookup sep text = some object) : object.length = (components sep text).length := by
  simpa using (walk_spec h).2

/-- **What a joined path names lies below what its front names.** -/
theorem resolve_append {lookup : Lookup (List α) C} {sep : α} {text more : List α} {object : List C}
    (h : resolve lookup sep (text ++ sep :: more) = some object) :
    ∃ dir, resolve lookup sep text = some dir ∧ dir <+: object := by
  rw [resolve, components_append, walk_append, Option.bind_eq_some_iff] at h
  obtain ⟨dir, hdir, h⟩ := h
  exact ⟨dir, hdir, (walk_spec h).1⟩

end Resolve

end NameTree
