import Mathlib.Tactic.Common
import Mathlib.Data.Sum.Basic
import Mathlib.Algebra.Order.Ring.Nat

/-!
# Programs that check their accesses

A `Checked` program changes a state and ends with a value or a status. It is stuck
(`none`) where it would touch what it must not touch, and where a loop does not get on.

`Post`: a program is not stuck, and what it ends with. `Alike`: two programs go through the
same states and end in the same way, with related values. There is one rule for each way
to build a program, so that a proof follows the program's text.
-/

def Checked (σ ε α : Type) : Type := σ → Option (Except ε α × σ)

namespace Checked

variable {σ ε α β : Type}

def ret (a : α) : Checked σ ε α := fun s => some (.ok a, s)

def bind (p : Checked σ ε α) (f : α → Checked σ ε β) : Checked σ ε β := fun s =>
  match p s with
  | none => none
  | some (.error e, s) => some (.error e, s)
  | some (.ok a, s) => f a s

instance : Monad (Checked σ ε) where
  pure := ret
  bind := bind

/-- End with a status. -/
def stop (e : ε) : Checked σ ε α := fun s => some (.error e, s)

def get : Checked σ ε σ := fun s => some (.ok s, s)

def modify (f : σ → σ) : Checked σ ε Unit := fun s => some (.ok (), f s)

/-- A program whose early end is a value. -/
def attempt {δ : Type} (p : Checked σ ε α) : Checked σ δ (Except ε α) := fun s => (p s).map fun out => (.ok out.1, out.2)

/-- An access is checked. -/
def check (p : Prop) [Decidable p] : Checked σ ε Unit := fun s => if p then some (.ok (), s) else none

/-- Go round until the body has a result. Each round must bring the measure down. -/
def loopFrom (measure : σ → ℕ) (body : β → Checked σ ε (β ⊕ α)) (b : β) (s : σ) : Option (Except ε α × σ) :=
  match body b s with
  | none => none
  | some (.error e, s') => some (.error e, s')
  | some (.ok (.inr a), s') => some (.ok a, s')
  | some (.ok (.inl b'), s') => if measure s' < measure s then loopFrom measure body b' s' else none
termination_by measure s

@[inherit_doc loopFrom]
def loop (measure : σ → ℕ) (body : β → Checked σ ε (β ⊕ α)) (b : β) : Checked σ ε α := loopFrom measure body b

/-- The program is not stuck: it ends with a value and a state in `Q`, or a status and a
state in `R`. -/
def Post (p : Checked σ ε α) (s : σ) (Q : α → σ → Prop) (R : ε → σ → Prop) : Prop :=
  match p s with
  | none => False
  | some (.ok a, s') => Q a s'
  | some (.error e, s') => R e s'

variable {p : Checked σ ε α} {s : σ} {Q Q' : α → σ → Prop} {R R' : ε → σ → Prop}

theorem Post.imp (h : Post p s Q R) (hQ : ∀ a s', Q a s' → Q' a s') (hR : ∀ e s', R e s' → R' e s') :
    Post p s Q' R' := by
  unfold Post at h ⊢
  split at h
  · exact h
  · exact hQ _ _ h
  · exact hR _ _ h

@[simp]
theorem post_pure {a : α} : Post (pure a : Checked σ ε α) s Q R ↔ Q a s := Iff.rfl

@[simp]
theorem post_stop {e : ε} : Post (stop e : Checked σ ε α) s Q R ↔ R e s := Iff.rfl

@[simp]
theorem post_get {Q : σ → σ → Prop} : Post (get : Checked σ ε σ) s Q R ↔ Q s s := Iff.rfl

@[simp]
theorem post_modify {f : σ → σ} {Q : Unit → σ → Prop} : Post (modify f : Checked σ ε Unit) s Q R ↔ Q () (f s) := Iff.rfl

/-- **An access** has to be allowed. -/
@[simp]
theorem post_check {P : Prop} [Decidable P] {Q : Unit → σ → Prop} :
    Post (check P : Checked σ ε Unit) s Q R ↔ P ∧ Q () s := by
  unfold Post check
  by_cases hP : P
  · rw [if_pos hP]
    exact (and_iff_right hP).symm
  · rw [if_neg hP]
    exact ⟨fun h => h.elim, fun h => hP h.1⟩

/-- **One program after another.** -/
@[simp]
theorem post_bind {f : α → Checked σ ε β} {Q : β → σ → Prop} :
    Post (p >>= f) s Q R ↔ Post p s (fun a s' => Post (f a) s' Q R) R := by
  unfold Post
  change (match bind p f s with
    | none => False
    | some (.ok a, s') => Q a s'
    | some (.error e, s') => R e s') ↔ _
  unfold bind
  rcases p s with - | ⟨e | a, s'⟩
  · rfl
  · rfl
  · rfl

theorem post_attempt {δ : Type} {Q : Except ε α → σ → Prop} {R : δ → σ → Prop} :
    Post (attempt p) s Q R ↔ Post p s (fun a => Q (.ok a)) fun e => Q (.error e) := by
  unfold Post attempt
  rcases p s with - | ⟨e | a, s'⟩
  · rfl
  · rfl
  · rfl

theorem post_ite {c : Prop} [Decidable c] {q : Checked σ ε α} :
    Post (if c then p else q) s Q R ↔ (c → Post p s Q R) ∧ (¬c → Post q s Q R) := by
  by_cases hc : c
  · rw [if_pos hc]
    exact ⟨fun h => ⟨fun _ => h, fun hn => absurd hc hn⟩, fun h => h.1 hc⟩
  · rw [if_neg hc]
    exact ⟨fun h => ⟨fun hn => absurd hn hc, fun _ => h⟩, fun h => h.2 hc⟩

/-- **Loop rule**: `I` holds whenever the body is entered, and each round gets on. -/
theorem post_loop {measure : σ → ℕ} {body : β → Checked σ ε (β ⊕ α)} {I : β → σ → Prop} {b : β}
    (hbody : ∀ b s, I b s → Post (body b) s
      (fun r s' => r.elim (fun b' => I b' s' ∧ measure s' < measure s) fun a => Q a s') R)
    (h : I b s) : Post (loop measure body b) s Q R := by
  induction hn : measure s using Nat.strong_induction_on generalizing b s with
  | _ n ih =>
    have hround := hbody b s h
    unfold Post at hround ⊢
    unfold loop loopFrom
    cases hrun : body b s with
    | none =>
      rw [hrun] at hround
      exact hround
    | some out =>
      rw [hrun] at hround
      rcases out with ⟨e | b' | a, s'⟩
      · exact hround
      · obtain ⟨hI, hlt⟩ := hround
        dsimp only
        rw [if_pos hlt]
        exact ih _ (hn ▸ hlt) hI rfl
      · exact hround

/-- **A pass over the indices** below a bound. -/
theorem post_foldlM_range {f : α → ℕ → Checked σ ε α} {I : ℕ → α → σ → Prop} {a : α} (n : ℕ)
    (hstep : ∀ i < n, ∀ a s, I i a s → Post (f a i) s (I (i + 1)) R) (h : I 0 a s) :
    Post ((List.range n).foldlM f a) s (I n) R := by
  suffices hfrom : ∀ m i a s, i + m = n → I i a s → Post ((List.range' i m).foldlM f a) s (I n) R by
    rw [List.range_eq_range']
    exact hfrom n 0 a s (Nat.zero_add n) h
  intro m
  induction m with
  | zero =>
    rintro i a s rfl hI
    exact hI
  | succ m ih =>
    intro i a s hn hI
    rw [List.range'_succ, List.foldlM_cons, post_bind]
    refine (hstep i (by omega) a s hI).imp (fun a' s' hI' => ?_) (fun _ _ h => h)
    exact ih (i + 1) a' s' (by omega) hI'

/-! ## Two programs -/

/-- The two programs end alike: with values that are related, or with the same status. -/
def Alike (r : α → β → Prop) (p : Checked σ ε α) (q : Checked σ ε β) : Prop := ∀ s,
  (p s = none ∧ q s = none) ∨ (∃ e s', p s = some (.error e, s') ∧ q s = some (.error e, s')) ∨
    ∃ a b s', p s = some (.ok a, s') ∧ q s = some (.ok b, s') ∧ r a b

variable {γ δ : Type} {r : α → β → Prop} {t : γ → δ → Prop} {q : Checked σ ε β}

theorem alike_refl (p : Checked σ ε α) : Alike Eq p p := by
  intro s
  rcases hp : p s with - | ⟨e | a, s'⟩
  · exact Or.inl ⟨rfl, rfl⟩
  · exact Or.inr (Or.inl ⟨e, s', rfl, rfl⟩)
  · exact Or.inr (Or.inr ⟨a, a, s', rfl, rfl, rfl⟩)

theorem alike_eq {p q : Checked σ ε α} (h : Alike Eq p q) : p = q := by
  funext s
  rcases h s with ⟨h1, h2⟩ | ⟨e, s', h1, h2⟩ | ⟨a, b, s', h1, h2, rfl⟩ <;> rw [h1, h2]

theorem alike_check (P : Prop) [Decidable P] : Alike (fun _ _ => P) (check P : Checked σ ε Unit) (check P) := by
  intro s
  unfold check
  by_cases hP : P
  · rw [if_pos hP]
    exact Or.inr (Or.inr ⟨(), (), s, rfl, rfl, hP⟩)
  · rw [if_neg hP]
    exact Or.inl ⟨rfl, rfl⟩

theorem alike_pure {a : α} {b : β} (h : r a b) : Alike r (pure a : Checked σ ε α) (pure b) :=
  fun s => Or.inr (Or.inr ⟨a, b, s, rfl, rfl, h⟩)

theorem alike_stop {e : ε} : Alike r (stop e : Checked σ ε α) (stop e) :=
  fun s => Or.inr (Or.inl ⟨e, s, rfl, rfl⟩)

theorem alike_bind {f : α → Checked σ ε γ} {g : β → Checked σ ε δ} (hp : Alike r p q)
    (hf : ∀ a b, r a b → Alike t (f a) (g b)) : Alike t (p >>= f) (q >>= g) := by
  intro s
  change (bind p f s = none ∧ bind q g s = none) ∨
    (∃ e s', bind p f s = some (.error e, s') ∧ bind q g s = some (.error e, s')) ∨
      ∃ a b s', bind p f s = some (.ok a, s') ∧ bind q g s = some (.ok b, s') ∧ t a b
  unfold bind
  rcases hp s with ⟨h1, h2⟩ | ⟨e, s', h1, h2⟩ | ⟨a, b, s', h1, h2, hr⟩
  · rw [h1, h2]
    exact Or.inl ⟨rfl, rfl⟩
  · rw [h1, h2]
    exact Or.inr (Or.inl ⟨e, s', rfl, rfl⟩)
  · rw [h1, h2]
    exact hf a b hr s'

/-- Behind the same program. -/
theorem alike_same {p : Checked σ ε α} {f : α → Checked σ ε γ} {g : α → Checked σ ε δ}
    (hf : ∀ a, Alike t (f a) (g a)) : Alike t (p >>= f) (p >>= g) :=
  alike_bind (alike_refl p) fun a _ h => h ▸ hf a

theorem alike_ite {c : Prop} [Decidable c] {p' : Checked σ ε α} {q' : Checked σ ε β} (hpos : c → Alike r p q)
    (hneg : ¬c → Alike r p' q') : Alike r (if c then p else p') (if c then q else q') := by
  by_cases hc : c
  · rw [if_pos hc, if_pos hc]
    exact hpos hc
  · rw [if_neg hc, if_neg hc]
    exact hneg hc

theorem alike_foldlM {f : α → ℕ → Checked σ ε α} {g : β → ℕ → Checked σ ε β} {i : ℕ → α → β → Prop} {a : α} {b : β}
    (n : ℕ) (hstep : ∀ j < n, ∀ a b, i j a b → Alike (i (j + 1)) (f a j) (g b j)) (h : i 0 a b) :
    Alike (i n) ((List.range n).foldlM f a) ((List.range n).foldlM g b) := by
  suffices hfrom : ∀ m j a b, j + m = n → i j a b →
      Alike (i n) ((List.range' j m).foldlM f a) ((List.range' j m).foldlM g b) by
    rw [List.range_eq_range']
    exact hfrom n 0 a b (Nat.zero_add n) h
  intro m
  induction m with
  | zero =>
    rintro j a b rfl hi
    exact alike_pure hi
  | succ m ih =>
    intro j a b hn hi
    rw [List.range'_succ, List.foldlM_cons, List.foldlM_cons]
    exact alike_bind (hstep j (by omega) a b hi) fun a' b' hi' => ih (j + 1) a' b' (by omega) hi'

theorem alike_loop {measure : σ → ℕ} {f : α → Checked σ ε (α ⊕ γ)} {g : β → Checked σ ε (β ⊕ δ)}
    (hstep : ∀ a b, r a b → Alike (Sum.LiftRel r t) (f a) (g b)) {a : α} {b : β} (h : r a b) :
    Alike t (loop measure f a) (loop measure g b) := by
  intro s
  induction hn : measure s using Nat.strong_induction_on generalizing a b s with
  | _ n ih =>
    unfold loop
    rw [loopFrom, loopFrom]
    rcases hstep a b h s with ⟨h1, h2⟩ | ⟨e, s', h1, h2⟩ | ⟨x, y, s', h1, h2, hr⟩
    · rw [h1, h2]
      exact Or.inl ⟨rfl, rfl⟩
    · rw [h1, h2]
      exact Or.inr (Or.inl ⟨e, s', rfl, rfl⟩)
    · rw [h1, h2]
      cases hr with
      | inl hr =>
        dsimp only
        split
        · rename_i hlt
          exact ih _ (hn ▸ hlt) hr s' rfl
        · exact Or.inl ⟨rfl, rfl⟩
      | inr hr => exact Or.inr (Or.inr ⟨_, _, s', rfl, rfl, hr⟩)

/-- Programs that are known to end alike. -/
theorem alike_of_post {Q₁ : α → σ → σ → Prop} {Q₂ : β → σ → σ → Prop} {R₁ R₂ : ε → σ → σ → Prop}
    (hp : ∀ s, Post p s (fun a => Q₁ a s) fun e => R₁ e s) (hq : ∀ s, Post q s (fun b => Q₂ b s) fun e => R₂ e s)
    (hok : ∀ a b s s₁ s₂, Q₁ a s s₁ → Q₂ b s s₂ → s₁ = s₂ ∧ r a b)
    (herr : ∀ e e' s s₁ s₂, R₁ e s s₁ → R₂ e' s s₂ → e = e' ∧ s₁ = s₂)
    (hleft : ∀ a e s s₁ s₂, Q₁ a s s₁ → R₂ e s s₂ → False) (hright : ∀ e b s s₁ s₂, R₁ e s s₁ → Q₂ b s s₂ → False) :
    Alike r p q := by
  intro s
  have h1 := hp s
  have h2 := hq s
  unfold Post at h1 h2
  rcases hps : p s with - | ⟨e | a, s₁⟩ <;> rw [hps] at h1 <;> rcases hqs : q s with - | ⟨e' | b, s₂⟩ <;>
    rw [hqs] at h2
  · exact h1.elim
  · exact h1.elim
  · exact h1.elim
  · exact h2.elim
  · obtain ⟨rfl, rfl⟩ := herr _ _ _ _ _ h1 h2
    exact Or.inr (Or.inl ⟨e, s₁, rfl, rfl⟩)
  · exact (hright _ _ _ _ _ h1 h2).elim
  · exact h2.elim
  · exact (hleft _ _ _ _ _ h1 h2).elim
  · obtain ⟨rfl, hr⟩ := hok _ _ _ _ _ h1 h2
    exact Or.inr (Or.inr ⟨a, b, s₁, rfl, rfl, hr⟩)

/-- How a program ends. -/
theorem Post.run (h : Post p s Q R) : ∃ r s', p s = some (r, s') ∧
    match r with
    | .ok a => Q a s'
    | .error e => R e s' := by
  unfold Post at h
  rcases hp : p s with - | ⟨e | a, s'⟩ <;> rw [hp] at h
  · exact h.elim
  · exact ⟨_, s', rfl, h⟩
  · exact ⟨_, s', rfl, h⟩

-- programs are followed by the rules, not run
attribute [irreducible] Post

end Checked
