import Mathlib.Data.Finset.Card
import Mathlib.Data.Nat.ModEq
import Mathlib.Logic.Function.Basic
import Mathlib.Tactic.Common

/-!
# Hash tables by linear probing

A key is looked for from the slot of its hash on, going round, up to the first slot that is
empty or holds it (`probe`). A probe ends while one slot is empty (`probe_ends`), and a table
that is filled only where a probe ended finds every key it holds (`Table.Reached.fill`).
-/

namespace Probing

variable {K : Type} {n fuel start slot : ℕ} {stop stop' : ℕ → Bool}

/-- The first of `fuel` slots, going round from one on, to stop at. -/
def probe (n : ℕ) (stop : ℕ → Bool) : ℕ → ℕ → Option ℕ
  | 0, _ => none
  | fuel + 1, slot => if stop slot then some slot else probe n stop fuel ((slot + 1) % n)

theorem probe_stops (h : probe n stop fuel start = some slot) : stop slot = true := by
  induction fuel generalizing start with
  | zero => cases h
  | succ fuel ih =>
    rw [probe] at h
    split at h
    · rename_i hstop
      exact Option.some.inj h ▸ hstop
    · exact ih h

theorem probe_lt (hstart : start < n) (h : probe n stop fuel start = some slot) : slot < n := by
  induction fuel generalizing start with
  | zero => cases h
  | succ fuel ih =>
    rw [probe] at h
    split at h
    · exact Option.some.inj h ▸ hstart
    · exact ih (Nat.mod_lt _ (by omega)) h

/-- A probe that has not ended has seen every slot on its way. -/
theorem probe_none (hstart : start < n) (h : probe n stop fuel start = none) {i : ℕ} (hi : i < fuel) :
    stop ((start + i) % n) = false := by
  induction fuel generalizing start i with
  | zero => omega
  | succ fuel ih =>
    rw [probe] at h
    split at h
    · cases h
    rename_i hstop
    rcases i with - | i
    · rw [Nat.add_zero, Nat.mod_eq_of_lt hstart]
      exact Bool.eq_false_iff.2 hstop
    · have := ih (Nat.mod_lt _ (by omega)) h (i := i) (by omega)
      rwa [Nat.mod_add_mod, Nat.add_assoc, Nat.add_comm 1 i] at this

/-- **A probe ends** once round, where there is a slot to stop at. -/
theorem probe_ends (hstart : start < n) (hslot : slot < n) (hstop : stop slot = true) :
    ∃ found, probe n stop n start = some found := by
  cases h : probe n stop n start with
  | some found => exact ⟨found, rfl⟩
  | none =>
    -- the slot is `slot - start` steps on, counted round
    have := probe_none hstart h (i := (slot + (n - start)) % n) (Nat.mod_lt _ (by omega))
    rw [Nat.add_mod_mod, show start + (slot + (n - start)) = slot + n by omega, Nat.add_mod_right,
      Nat.mod_eq_of_lt hslot, hstop] at this
    cases this

/-- A probe is kept where only slots that it would have stopped at are changed. -/
theorem probe_mono (h : probe n stop fuel start = some slot) (hless : ∀ s, stop' s = true → stop s = true)
    (hslot : stop' slot = true) : probe n stop' fuel start = some slot := by
  induction fuel generalizing start with
  | zero => cases h
  | succ fuel ih =>
    rw [probe] at h ⊢
    split at h
    · obtain rfl := Option.some.inj h
      rw [if_pos hslot]
    · rename_i hgoes
      rw [if_neg fun hstop => hgoes (hless _ hstop)]
      exact ih h

/-! ## Tables -/

/-- Which slots are in use, and by which keys. -/
structure Table (K : Type) where
  used : ℕ → Bool
  key : ℕ → K

namespace Table

variable {t : Table K} {k : K} {hash : K → ℕ}

/-- A key is put in a slot. -/
def fill (t : Table K) (slot : ℕ) (k : K) : Table K :=
  ⟨Function.update t.used slot true, Function.update t.key slot k⟩

/-- How many slots are in use. -/
def load (t : Table K) (n : ℕ) : ℕ := ((Finset.range n).filter fun s => t.used s = true).card

theorem load_fill (hslot : slot < n) (hempty : t.used slot = false) : (t.fill slot k).load n = t.load n + 1 := by
  have hinsert : ((Finset.range n).filter fun s => (t.fill slot k).used s = true) =
      insert slot ((Finset.range n).filter fun s => t.used s = true) := by
    ext s
    simp only [Finset.mem_filter, Finset.mem_range, Finset.mem_insert, fill, Function.update_apply]
    by_cases hs : s = slot
    · simp [hs, hslot]
    · simp [hs]
  have hfresh : slot ∉ (Finset.range n).filter fun s => t.used s = true := by
    intro hmem
    rw [(Finset.mem_filter.1 hmem).2] at hempty
    cases hempty
  unfold load
  rw [hinsert, Finset.card_insert_of_notMem hfresh]

/-- One slot more in use at most. -/
theorem load_le_succ {t' : Table K} (h : ∀ s < n, t'.used s = true → t.used s = true ∨ s = slot) :
    t'.load n ≤ t.load n + 1 := by
  have hsub : ((Finset.range n).filter fun s => t'.used s = true) ⊆
      insert slot ((Finset.range n).filter fun s => t.used s = true) := by
    intro s hs
    obtain ⟨hlt, hused⟩ := Finset.mem_filter.1 hs
    rcases h s (Finset.mem_range.1 hlt) hused with hused | rfl
    · exact Finset.mem_insert_of_mem (Finset.mem_filter.2 ⟨hlt, hused⟩)
    · exact Finset.mem_insert_self _ _
  exact (Finset.card_le_card hsub).trans (Finset.card_insert_le _ _)

/-- A table that is not full has an empty slot. -/
theorem exists_empty (h : t.load n < n) : ∃ slot < n, t.used slot = false := by
  by_contra hfull
  push Not at hfull
  have hall : ((Finset.range n).filter fun s => t.used s = true) = Finset.range n :=
    Finset.filter_true_of_mem fun s hs => by simpa using hfull s (Finset.mem_range.1 hs)
  unfold load at h
  rw [hall, Finset.card_range] at h
  exact lt_irrefl n h

variable [DecidableEq K]

/-- Where the search for a key stops. -/
def ends (t : Table K) (k : K) (slot : ℕ) : Bool := !t.used slot || t.key slot == k

theorem ends_iff : t.ends k slot = true ↔ t.used slot = true → t.key slot = k := by
  unfold ends
  cases t.used slot <;> simp

/-- Every key is found where it is. -/
def Reached (t : Table K) (n : ℕ) (hash : K → ℕ) : Prop :=
  ∀ slot < n, t.used slot = true → probe n (t.ends (t.key slot)) n (hash (t.key slot)) = some slot

/-- **A search ends** in a table that is not full: at the key, or at an empty slot. -/
theorem search_ends (hash : K → ℕ) (h : t.load n < n) (hhash : hash k < n) :
    ∃ slot < n, probe n (t.ends k) n (hash k) = some slot ∧ (t.used slot = true → t.key slot = k) := by
  obtain ⟨empty, hlt, hempty⟩ := exists_empty h
  have hstop : t.ends k empty = true := ends_iff.2 fun hused => by rw [hempty] at hused; cases hused
  obtain ⟨slot, hslot⟩ := probe_ends hhash hlt hstop
  exact ⟨slot, probe_lt hhash hslot, hslot, ends_iff.1 (probe_stops hslot)⟩

/-- **A key that is held is found.** -/
theorem Reached.search (h : t.Reached n hash) (hslot : slot < n) (hused : t.used slot = true) (hkey : t.key slot = k) :
    probe n (t.ends k) n (hash k) = some slot := hkey ▸ h slot hslot hused

/-- **Every key is still found** after a new one is put where its own search has ended. -/
theorem Reached.fill (h : t.Reached n hash) (hend : probe n (t.ends k) n (hash k) = some slot)
    (hempty : t.used slot = false) : (t.fill slot k).Reached n hash := by
  have hless : ∀ k' s, (t.fill slot k).ends k' s = true → t.ends k' s = true := by
    intro k' s hs
    rw [ends_iff] at hs ⊢
    intro hused
    have hne : s ≠ slot := by
      rintro rfl
      rw [hempty] at hused
      cases hused
    simpa [Table.fill, Function.update_of_ne hne, hused] using hs
  intro s hs hused
  rcases eq_or_ne s slot with rfl | hne
  · have hkey : (t.fill s k).key s = k := by simp [Table.fill]
    rw [hkey]
    exact probe_mono hend (hless k) (ends_iff.2 fun _ => hkey)
  · have hkey : (t.fill slot k).key s = t.key s := by simp [Table.fill, Function.update_of_ne hne]
    have hold : t.used s = true := by simpa [Table.fill, Function.update_of_ne hne] using hused
    rw [hkey]
    exact probe_mono (h s hs hold) (hless _) (ends_iff.2 fun _ => hkey)

end Table

end Probing
