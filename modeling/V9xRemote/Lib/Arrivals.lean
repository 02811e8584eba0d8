import Mathlib.Tactic.Common
import Mathlib.Algebra.Order.Ring.Nat

/-!
# Streams that arrive in pieces

What is sent on a connection arrives cut into pieces, with silences between them. `takeExact`
reads so many elements off the front, piece by piece; what it reads and what it leaves is
that of the stream as it was sent (`takeExact_some`, `takeExact_none`).
-/

/-- A piece of a stream, or a time in which nothing arrives. -/
inductive Arrival (α : Type*)
  | piece (data : List α)
  | silence
deriving DecidableEq, Repr

namespace Arrival

variable {α : Type*}

/-- What is sent. -/
def sent : List (Arrival α) → List α
  | [] => []
  | .piece data :: rest => data ++ sent rest
  | .silence :: rest => sent rest

/-- Whether nothing arrives for a time, before anything else. -/
def silent : List (Arrival α) → Bool
  | [] => false
  | .piece data :: rest => data.isEmpty && silent rest
  | .silence :: _ => true

/-- Read exactly so many elements, call after call: `none` where the stream ends before. -/
def takeExact : ℕ → List (Arrival α) → Option (List α × List (Arrival α))
  | 0, arrivals => some ([], arrivals)
  | _ + 1, [] => none
  | n + 1, .silence :: rest => takeExact (n + 1) rest
  | n + 1, .piece data :: rest =>
    if data.length ≤ n + 1 then (takeExact (n + 1 - data.length) rest).map fun r => (data ++ r.1, r.2)
    else some (data.take (n + 1), .piece (data.drop (n + 1)) :: rest)

theorem sent_piece (data : List α) (rest : List (Arrival α)) : sent (.piece data :: rest) = data ++ sent rest := rfl

theorem takeExact_piece (n : ℕ) (data : List α) (rest : List (Arrival α)) : takeExact (n + 1) (.piece data :: rest) =
    if data.length ≤ n + 1 then (takeExact (n + 1 - data.length) rest).map fun r => (data ++ r.1, r.2)
    else some (data.take (n + 1), .piece (data.drop (n + 1)) :: rest) := rfl

/-- **What is read** is the front of what is sent. -/
theorem takeExact_some {n : ℕ} {arrivals : List (Arrival α)} {data : List α} {rest : List (Arrival α)}
    (h : takeExact n arrivals = some (data, rest)) : sent arrivals = data ++ sent rest ∧ data.length = n := by
  induction arrivals generalizing n data with
  | nil =>
    cases n with
    | zero =>
      obtain ⟨rfl, rfl⟩ := Prod.mk.inj (Option.some.inj h)
      exact ⟨rfl, rfl⟩
    | succ n => cases h
  | cons arrival arrivals ih =>
    cases n with
    | zero =>
      obtain ⟨rfl, rfl⟩ := Prod.mk.inj (Option.some.inj h)
      exact ⟨rfl, rfl⟩
    | succ n =>
      cases arrival with
      | silence => exact ih h
      | piece piece =>
        rw [takeExact_piece] at h
        split at h
        · obtain ⟨⟨more, rest'⟩, hmore, heq⟩ := Option.map_eq_some_iff.1 h
          obtain ⟨rfl, rfl⟩ := Prod.mk.inj heq
          obtain ⟨hsent, hlength⟩ := ih hmore
          refine ⟨?_, ?_⟩
          · rw [sent_piece, hsent, List.append_assoc]
          · rw [List.length_append, hlength]
            omega
        · obtain ⟨rfl, rfl⟩ := Prod.mk.inj (Option.some.inj h)
          refine ⟨?_, ?_⟩
          · rw [sent_piece, sent_piece, ← List.append_assoc, List.take_append_drop]
          · rw [List.length_take]
            omega

/-- **Nothing is read** exactly where too little is sent. -/
theorem takeExact_none {n : ℕ} {arrivals : List (Arrival α)} :
    takeExact n arrivals = none ↔ (sent arrivals).length < n := by
  induction arrivals generalizing n with
  | nil =>
    cases n with
    | zero => exact iff_of_false nofun (Nat.not_lt_zero _)
    | succ n => exact iff_of_true rfl (Nat.succ_pos n)
  | cons arrival arrivals ih =>
    cases n with
    | zero => exact iff_of_false nofun (Nat.not_lt_zero _)
    | succ n =>
      cases arrival with
      | silence => exact ih
      | piece piece =>
        rw [sent_piece, List.length_append]
        rw [takeExact_piece]
        split
        · rw [Option.map_eq_none_iff, ih]
          omega
        · exact iff_of_false nofun (by omega)

/-- A stream without a silence stays without one. -/
theorem takeExact_noSilence {n : ℕ} {arrivals : List (Arrival α)} {data : List α} {rest : List (Arrival α)}
    (h : takeExact n arrivals = some (data, rest)) (hnone : .silence ∉ arrivals) : .silence ∉ rest := by
  induction arrivals generalizing n data with
  | nil =>
    cases n with
    | zero =>
      obtain ⟨-, rfl⟩ := Prod.mk.inj (Option.some.inj h)
      exact hnone
    | succ n => cases h
  | cons arrival arrivals ih =>
    have hrest : .silence ∉ arrivals := fun hmem => hnone (List.mem_cons_of_mem _ hmem)
    cases n with
    | zero =>
      obtain ⟨-, rfl⟩ := Prod.mk.inj (Option.some.inj h)
      exact hnone
    | succ n =>
      cases arrival with
      | silence => exact absurd List.mem_cons_self hnone
      | piece piece =>
        rw [takeExact_piece] at h
        split at h
        · obtain ⟨⟨more, rest'⟩, hmore, heq⟩ := Option.map_eq_some_iff.1 h
          obtain ⟨-, rfl⟩ := Prod.mk.inj heq
          exact ih hmore hrest
        · obtain ⟨-, rfl⟩ := Prod.mk.inj (Option.some.inj h)
          rintro (- | ⟨-, hmem⟩)
          exact hrest hmem

theorem not_silent {arrivals : List (Arrival α)} (hnone : .silence ∉ arrivals) : silent arrivals = false := by
  induction arrivals with
  | nil => rfl
  | cons arrival arrivals ih =>
    cases arrival with
    | silence => exact absurd List.mem_cons_self hnone
    | piece data =>
      rw [silent, ih fun hmem => hnone (List.mem_cons_of_mem _ hmem), Bool.and_false]

end Arrival
