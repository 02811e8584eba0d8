import Mathlib.Tactic.Common
import Mathlib.Data.List.Infix
import Mathlib.Data.List.TakeDrop

/-!
# Runs of a partial step function

A machine is a step function `σ → α → Option σ`: in state `s` the action `a` is
either not enabled (`none`) or leads to one state. Actions carry whatever the
environment decides, so a run is a list of actions.

* `exec_inv`, `exec_inv_under`: invariants over whole runs, unconditional or
  under a condition that every step of the run meets.
* `exec_view`: a run seen from one side; `pairStep` puts two machines side by side.
* `holds_iff_healed`: a property that some steps break and others restore holds
  at the end exactly when every break is followed by a restore.
-/

namespace Trace

variable {σ α : Type*} {step : σ → α → Option σ}

/-- The state after a list of actions, if every one of them was enabled. -/
def exec (step : σ → α → Option σ) (s : σ) (as : List α) : Option σ := as.foldlM step s

@[simp] theorem exec_nil (s : σ) : exec step s [] = some s := rfl

@[simp] theorem exec_cons (s : σ) (a : α) (as : List α) :
    exec step s (a :: as) = (step s a).bind fun s' => exec step s' as := rfl

theorem exec_append (s : σ) (as bs : List α) :
    exec step s (as ++ bs) = (exec step s as).bind fun s' => exec step s' bs := by
  simp only [exec, List.foldlM_append]; rfl

theorem exec_snoc {s s' : σ} {as : List α} {a : α} :
    exec step s (as ++ [a]) = some s' ↔ ∃ m, exec step s as = some m ∧ step m a = some s' := by
  simp [exec_append, Option.bind_eq_some_iff]

/-- A total step function never stops. -/
theorem exec_total (f : σ → α → σ) (s : σ) (as : List α) :
    exec (fun s a => some (f s a)) s as = some (as.foldl f s) := by
  induction as generalizing s with
  | nil => rfl
  | cons a as ih => rw [exec_cons]; exact ih (f s a)

/-- **Invariant rule.** -/
theorem exec_inv {I : σ → Prop} (hstep : ∀ s a s', I s → step s a = some s' → I s') {s s' : σ}
    {as : List α} (h0 : I s) (h : exec step s as = some s') : I s' := by
  induction as generalizing s with
  | nil => simp only [exec_nil, Option.some.injEq] at h; exact h ▸ h0
  | cons a as ih =>
    rw [exec_cons, Option.bind_eq_some_iff] at h
    obtain ⟨m, hm, h⟩ := h
    exact ih (hstep s a m h0 hm) h

/-- **A run ends** where every step makes a measure smaller. -/
theorem exec_measure {I : σ → Prop} {μ : σ → ℕ} (hstep : ∀ s a s', I s → step s a = some s' → I s' ∧ μ s' < μ s)
    {s s' : σ} {as : List α} (h0 : I s) (h : exec step s as = some s') : as.length + μ s' ≤ μ s := by
  induction as generalizing s with
  | nil =>
    rw [exec_nil, Option.some.injEq] at h
    subst h
    simp
  | cons a as ih =>
    rw [exec_cons, Option.bind_eq_some_iff] at h
    obtain ⟨m, hm, h⟩ := h
    obtain ⟨hI, hless⟩ := hstep s a m h0 hm
    have hrest := ih hI h
    rw [List.length_cons]
    omega

/-- **A run seen from one side**: where every step either leaves the view as it was or is a step
of another machine there, the run is one of that machine. -/
theorem exec_view {τ β : Type*} {other : τ → β → Option τ} (view : σ → τ) (label : α → Option β)
    (hstay : ∀ s a s', step s a = some s' → label a = none → view s' = view s)
    (hmove : ∀ s a s' b, step s a = some s' → label a = some b → other (view s) b = some (view s')) {s s' : σ}
    {as : List α} (h : exec step s as = some s') : exec other (view s) (as.filterMap label) = some (view s') := by
  induction as generalizing s with
  | nil =>
    rw [exec_nil, Option.some.injEq] at h
    rw [h, List.filterMap_nil, exec_nil]
  | cons a as ih =>
    rw [exec_cons, Option.bind_eq_some_iff] at h
    obtain ⟨m, hm, h⟩ := h
    cases hlabel : label a with
    | none =>
      rw [List.filterMap_cons_none hlabel, ← hstay s a m hm hlabel]
      exact ih h
    | some b =>
      rw [List.filterMap_cons_some hlabel, exec_cons, hmove s a m b hm hlabel]
      exact ih h

/-- Two machines side by side. -/
def pairStep {τ β : Type*} (f : σ → α → Option σ) (g : τ → β → Option τ) (s : σ × τ) : α ⊕ β → Option (σ × τ)
  | .inl a => (f s.1 a).map fun s' => (s', s.2)
  | .inr b => (g s.2 b).map fun t' => (s.1, t')

section

variable {τ β : Type*} {f : σ → α → Option σ} {g : τ → β → Option τ} {s s' : σ × τ} {as : List (α ⊕ β)}

theorem exec_pair_left (h : exec (pairStep f g) s as = some s') :
    exec f s.1 (as.filterMap Sum.getLeft?) = some s'.1 := by
  refine exec_view Prod.fst Sum.getLeft? ?_ ?_ h
  · intro s a s' hstep hlabel
    cases a with
    | inl a => cases hlabel
    | inr b =>
      obtain ⟨t, -, rfl⟩ := Option.map_eq_some_iff.1 hstep
      rfl
  · intro s a s' b hstep hlabel
    cases a with
    | inl a =>
      obtain ⟨t, ht, rfl⟩ := Option.map_eq_some_iff.1 hstep
      cases hlabel
      exact ht
    | inr b => cases hlabel

theorem exec_pair_right (h : exec (pairStep f g) s as = some s') :
    exec g s.2 (as.filterMap Sum.getRight?) = some s'.2 := by
  refine exec_view Prod.snd Sum.getRight? ?_ ?_ h
  · intro s a s' hstep hlabel
    cases a with
    | inl a =>
      obtain ⟨t, -, rfl⟩ := Option.map_eq_some_iff.1 hstep
      rfl
    | inr b => cases hlabel
  · intro s a s' b hstep hlabel
    cases a with
    | inl a => cases hlabel
    | inr b =>
      obtain ⟨t, ht, rfl⟩ := Option.map_eq_some_iff.1 hstep
      cases hlabel
      exact ht

end

/-- Every step of the run from `s` meets `C`, a condition on the state before the
step and the action taken there. -/
def Under (step : σ → α → Option σ) (C : σ → α → Prop) (s : σ) (as : List α) : Prop :=
  ∀ n (hn : n < as.length) m, exec step s (as.take n) = some m → C m as[n]

theorem Under.head {C : σ → α → Prop} {s : σ} {a : α} {as : List α}
    (h : Under step C s (a :: as)) : C s a :=
  h 0 (Nat.succ_pos _) s rfl

theorem Under.tail {C : σ → α → Prop} {s s' : σ} {a : α} {as : List α}
    (h : Under step C s (a :: as)) (hs : step s a = some s') : Under step C s' as := by
  intro n hn m hm
  refine h (n + 1) (Nat.succ_lt_succ hn) m ?_
  rw [List.take_succ_cons, exec_cons, hs]
  exact hm

theorem Under.last {C : σ → α → Prop} {s m : σ} {as : List α} {a : α}
    (h : Under step C s (as ++ [a])) (hm : exec step s as = some m) : C m a := by
  have := h as.length (by simp) m (by simpa using hm)
  simpa using this

theorem under_cons {C : σ → α → Prop} {s : σ} {a : α} {as : List α} :
    Under step C s (a :: as) ↔ C s a ∧ ∀ s', step s a = some s' → Under step C s' as := by
  constructor
  · exact fun h => ⟨h.head, fun s' hs => h.tail hs⟩
  · rintro ⟨h0, h1⟩ n hn m hm
    cases n with
    | zero => simp only [List.take_zero, exec_nil, Option.some.injEq] at hm; exact hm ▸ h0
    | succ n =>
      rw [List.take_succ_cons, exec_cons, Option.bind_eq_some_iff] at hm
      obtain ⟨s', hs, hm⟩ := hm
      exact h1 s' hs n (Nat.lt_of_succ_lt_succ hn) m hm

/-- Whether a given run meets a condition can be computed along it. -/
instance decidableUnder {C : σ → α → Prop} [∀ s a, Decidable (C s a)] :
    ∀ (as : List α) (s : σ), Decidable (Under step C s as)
  | [], _ => isTrue fun n hn => absurd hn (Nat.not_lt_zero n)
  | a :: as, s =>
    have := decidableUnder (C := C) as
    decidable_of_iff (C s a ∧ ∀ s' ∈ step s a, Under step C s' as) under_cons.symm

/-- Every action of a run is one of its actions. -/
theorem under_mem (s : σ) (as : List α) : Under step (fun _ a => a ∈ as) s as :=
  fun _ hn _ _ => List.getElem_mem hn

/-- **Invariant rule under a condition** on the steps of the run. -/
theorem exec_inv_under {I : σ → Prop} {C : σ → α → Prop}
    (hstep : ∀ s a s', I s → C s a → step s a = some s' → I s') {s s' : σ} {as : List α}
    (h0 : I s) (hC : Under step C s as) (h : exec step s as = some s') : I s' := by
  induction as generalizing s with
  | nil => simp only [exec_nil, Option.some.injEq] at h; exact h ▸ h0
  | cons a as ih =>
    rw [exec_cons, Option.bind_eq_some_iff] at h
    obtain ⟨m, hm, h⟩ := h
    exact ih (hstep s a m h0 hC.head hm) (hC.tail hm) h

/-! ## Properties that are broken and restored -/

/-- Every step of the run that `breaks` is followed later in the run by one that
`mends`. Both are read off the state before the step and the action. -/
def Healed (step : σ → α → Option σ) (breaks mends : σ → α → Prop) (s : σ) (as : List α) : Prop :=
  ∀ i (hi : i < as.length) m, exec step s (as.take i) = some m → breaks m as[i] →
    ∃ j, ∃ hj : j < as.length, i < j ∧ ∃ m', exec step s (as.take j) = some m' ∧ mends m' as[j]

variable {breaks mends : σ → α → Prop}

theorem healed_nil (s : σ) : Healed step breaks mends s [] := fun i hi => absurd hi (Nat.not_lt_zero i)

/-- One more step: it either mends everything, or breaks nothing and leaves the
earlier breaks as they were. -/
theorem healed_snoc {s m : σ} {as : List α} {a : α} (hm : exec step s as = some m)
    (hexcl : ¬(breaks m a ∧ mends m a)) :
    Healed step breaks mends s (as ++ [a]) ↔
      mends m a ∨ (¬breaks m a ∧ Healed step breaks mends s as) := by
  have hlen : (as ++ [a]).length = as.length + 1 := by simp
  have hget : ∀ i (hi : i < as.length) (hi' : i < (as ++ [a]).length), (as ++ [a])[i] = as[i] :=
    fun i hi _ => List.getElem_append_left hi
  have htake : ∀ i, i ≤ as.length → (as ++ [a]).take i = as.take i :=
    fun i hi => List.take_append_of_le_length hi
  have hend : ∀ m', exec step s ((as ++ [a]).take as.length) = some m' → m' = m := by
    intro m' h'
    rw [htake _ le_rfl, List.take_length, hm] at h'
    exact (Option.some.inj h').symm
  constructor
  · intro h
    by_cases hmend : mends m a
    · exact Or.inl hmend
    refine Or.inr ⟨?_, ?_⟩
    · intro hb
      obtain ⟨j, hj, hij, -⟩ := h as.length (by omega) m
        (by rw [htake _ le_rfl, List.take_length]; exact hm) (by simpa using hb)
      omega
    · intro i hi m₁ hm₁ hb
      obtain ⟨j, hj, hij, m₂, hm₂, hr⟩ := h i (by omega) m₁ (by rw [htake i hi.le]; exact hm₁)
        (by rw [hget i hi]; exact hb)
      rcases Nat.lt_or_ge j as.length with hlt | hge
      · exact ⟨j, hlt, hij, m₂, by rw [← htake j hlt.le]; exact hm₂, by rw [← hget j hlt hj]; exact hr⟩
      · -- the mending step would be the last one
        have hje : j = as.length := by omega
        subst hje
        rw [hend m₂ hm₂] at hr
        exact absurd (by simpa using hr) hmend
  · rintro (hmend | ⟨hnb, h⟩)
    · intro i hi m₁ hm₁ hb
      have hilt : i < as.length := by
        by_contra hc
        have hie : i = as.length := by omega
        subst hie
        rw [hend m₁ hm₁] at hb
        exact hexcl ⟨by simpa using hb, hmend⟩
      exact ⟨as.length, by omega, hilt, m, by rw [htake _ le_rfl, List.take_length]; exact hm,
        by simpa using hmend⟩
    · intro i hi m₁ hm₁ hb
      have hilt : i < as.length := by
        by_contra hc
        have hie : i = as.length := by omega
        subst hie
        rw [hend m₁ hm₁] at hb
        exact hnb (by simpa using hb)
      obtain ⟨j, hj, hij, m₂, hm₂, hr⟩ := h i hilt m₁ (by rw [← htake i hilt.le]; exact hm₁)
        (by rw [← hget i hilt hi]; exact hb)
      exact ⟨j, by omega, hij, m₂, by rw [htake j hj.le]; exact hm₂, by rw [hget j hj]; exact hr⟩

/-- **Broken and restored.** Suppose a breaking step leaves `P` false, a mending
step leaves it true and every other step leaves it as it was (given an invariant
`I`). Then `P` holds at the end of a run that starts with `P` exactly when every
breaking step of the run is followed by a mending one. -/
theorem holds_iff_healed {I P : σ → Prop}
    (hI : ∀ s a s', I s → step s a = some s' → I s')
    (hbreak : ∀ s a s', I s → step s a = some s' → breaks s a → ¬P s')
    (hmend : ∀ s a s', I s → step s a = some s' → mends s a → P s')
    (hkeep : ∀ s a s', I s → step s a = some s' → ¬breaks s a → ¬mends s a → (P s' ↔ P s))
    {s s' : σ} {as : List α} (h0 : I s) (hP : P s) (h : exec step s as = some s') :
    P s' ↔ Healed step breaks mends s as := by
  induction as using List.reverseRecOn generalizing s' with
  | nil =>
    simp only [exec_nil, Option.some.injEq] at h
    exact ⟨fun _ => healed_nil s, fun _ => h ▸ hP⟩
  | append_singleton as a ih =>
    obtain ⟨m, hm, hs⟩ := exec_snoc.1 h
    have hIm : I m := exec_inv hI h0 hm
    have hexcl : ¬(breaks m a ∧ mends m a) :=
      fun hc => hbreak m a s' hIm hs hc.1 (hmend m a s' hIm hs hc.2)
    rw [healed_snoc hm hexcl]
    by_cases hb : breaks m a
    · have hnm : ¬mends m a := fun hc => hexcl ⟨hb, hc⟩
      simp [hb, hnm, hbreak m a s' hIm hs hb]
    by_cases hr : mends m a
    · simp [hr, hmend m a s' hIm hs hr]
    · rw [hkeep m a s' hIm hs hb hr, ih hm]
      simp [hb, hr]

end Trace
