import Mathlib.Tactic.Common

/-!
# Programs with exceptions, in dialogue with an environment

A `Prog` reads the environment's answers one after the other, keeps a state and writes
a log, and ends with a value or an exception. `none` is a run that has not ended: it
waits for an answer that has not come, or a loop is still going round.

`Yields`: what a program ends with, where everything it logged was fit. There is one
rule for each way to build a program.
-/

namespace Dialogue

/-- A state and the answers still to come. -/
structure World (σ A : Type) where
  state : σ
  answers : List A

/-- A program that ends with an `α` or an exception `ε`, having logged a list of `L`. -/
def Prog (σ A L ε α : Type) : Type := World σ A → Option (Except ε α × World σ A × List L)

namespace Prog

variable {σ A L ε α β : Type}

def ret (a : α) : Prog σ A L ε α := fun w => some (.ok a, w, [])

/-- An outcome behind what was logged before. -/
def behind (before : List L) (out : Except ε α × World σ A × List L) : Except ε α × World σ A × List L :=
  (out.1, out.2.1, before ++ out.2.2)

def bind (p : Prog σ A L ε α) (f : α → Prog σ A L ε β) : Prog σ A L ε β := fun w =>
  match p w with
  | none => none
  | some (.error x, w, log) => some (.error x, w, log)
  | some (.ok a, w, log) => (f a w).map (behind log)

instance : Monad (Prog σ A L ε) where
  pure := ret
  bind := bind

/-- Raise an exception. -/
def raise (x : ε) : Prog σ A L ε α := fun w => some (.error x, w, [])

/-- A computation that needs no environment. -/
def lift (r : Except ε α) : Prog σ A L ε α := fun w => some (r, w, [])

/-- The environment's next answer, where it is one to the question. -/
def ask (f : A → Option α) : Prog σ A L ε α := fun w =>
  match w.answers with
  | [] => none
  | a :: answers => (f a).map fun b => (.ok b, { w with answers := answers }, [])

/-- Log what happened. -/
def note (e : L) : Prog σ A L ε Unit := fun w => some (.ok (), w, [e])

def get : Prog σ A L ε σ := fun w => some (.ok w.state, w, [])

def modify (f : σ → σ) : Prog σ A L ε Unit := fun w => some (.ok (), { w with state := f w.state }, [])

/-- Handle the exceptions `handle` takes. -/
def tryWith (p : Prog σ A L ε α) (handle : ε → Option (Prog σ A L ε α)) : Prog σ A L ε α := fun w =>
  match p w with
  | some (.error x, w, log) =>
    match handle x with
    | some q => (q w).map (behind log)
    | none => some (.error x, w, log)
  | r => r

/-- Run `last` after `p`, however `p` ended; an exception of `last` goes first. -/
def andFinally (p : Prog σ A L ε α) (last : Prog σ A L ε Unit) : Prog σ A L ε α := fun w =>
  match p w with
  | none => none
  | some (r, w, log) =>
    match last w with
    | none => none
    | some (.error x, w, more) => some (.error x, w, log ++ more)
    | some (.ok _, w, more) => some (r, w, log ++ more)

/-- Go round until the body has a result, at most `fuel` times. -/
def loop (body : β → Prog σ A L ε (β ⊕ α)) : ℕ → β → Prog σ A L ε α
  | 0, _ => fun _ => none
  | fuel + 1, b => bind (body b) fun
    | .inl b => loop body fuel b
    | .inr a => ret a

/-- One step for each element of a list, in order. -/
def each {γ : Type} (f : γ → Prog σ A L ε Unit) : List γ → Prog σ A L ε Unit
  | [] => ret ()
  | c :: cs => bind (f c) fun _ => each f cs

end Prog

variable {σ A L ε α β : Type}

/-- Where everything logged is fit, `p` ends with a value in `Q` or an exception in `P`. -/
def Yields (Fit : L → Prop) (Q : α → Prop) (P : ε → Prop) (p : Prog σ A L ε α) : Prop :=
  ∀ w r w' log, p w = some (r, w', log) → (∀ e ∈ log, Fit e) →
    (∀ a, r = .ok a → Q a) ∧ ∀ x, r = .error x → P x

/-- A computation that ends with an exception in `P`, if with one. -/
def OnlyRaises (P : ε → Prop) (r : Except ε α) : Prop := ∀ x, r = .error x → P x

variable {Fit : L → Prop} {Q Q' : α → Prop} {P P' : ε → Prop} {p : Prog σ A L ε α}

theorem Yields.imp (h : Yields Fit Q P p) (hQ : ∀ a, Q a → Q' a) (hP : ∀ x, P x → P' x) : Yields Fit Q' P' p := by
  intro w r w' log hw hfit
  obtain ⟨hok, herr⟩ := h w r w' log hw hfit
  exact ⟨fun a ha => hQ a (hok a ha), fun x hx => hP x (herr x hx)⟩

theorem yields_ret {a : α} (h : Q a) : Yields Fit Q P (Prog.ret a : Prog σ A L ε α) := by
  rintro w r w' log hw -
  obtain ⟨rfl, -⟩ := Prod.mk.inj (Option.some.inj hw)
  exact ⟨fun b hb => Except.ok.inj hb ▸ h, fun x hx => by cases hx⟩

theorem yields_raise {x : ε} (h : P x) : Yields Fit Q P (Prog.raise x : Prog σ A L ε α) := by
  rintro w r w' log hw -
  obtain ⟨rfl, -⟩ := Prod.mk.inj (Option.some.inj hw)
  exact ⟨(fun a ha => by cases ha), (fun y hy => by rw [← Except.error.inj hy]; exact h)⟩

theorem yields_lift {r : Except ε α} (hQ : ∀ a, r = .ok a → Q a) (h : OnlyRaises P r) :
    Yields Fit Q P (Prog.lift r : Prog σ A L ε α) := by
  rintro w r' w' log hw -
  obtain ⟨rfl, -⟩ := Prod.mk.inj (Option.some.inj hw)
  exact ⟨hQ, h⟩

theorem yields_ask {f : A → Option α} (h : ∀ a b, f a = some b → Q b) :
    Yields Fit Q P (Prog.ask f : Prog σ A L ε α) := by
  rintro w r w' log hw -
  unfold Prog.ask at hw
  split at hw
  · cases hw
  · obtain ⟨b, hb, heq⟩ := Option.map_eq_some_iff.1 hw
    obtain ⟨rfl, -⟩ := Prod.mk.inj heq
    exact ⟨fun c hc => Except.ok.inj hc ▸ h _ b hb, fun x hx => by cases hx⟩

theorem yields_note (e : L) : Yields Fit (fun _ => Fit e) P (Prog.note e : Prog σ A L ε Unit) := by
  intro w r w' log hw hfit
  obtain ⟨rfl, h⟩ := Prod.mk.inj (Option.some.inj hw)
  obtain ⟨-, rfl⟩ := Prod.mk.inj h
  exact ⟨fun _ _ => hfit e List.mem_cons_self, fun x hx => by cases hx⟩

theorem yields_get {Q : σ → Prop} (h : ∀ s, Q s) : Yields Fit Q P (Prog.get : Prog σ A L ε σ) := by
  rintro w r w' log hw -
  obtain ⟨rfl, -⟩ := Prod.mk.inj (Option.some.inj hw)
  exact ⟨fun s _ => h s, fun x hx => by cases hx⟩

theorem yields_modify {Q : Unit → Prop} (f : σ → σ) (h : Q ()) :
    Yields Fit Q P (Prog.modify f : Prog σ A L ε Unit) := by
  rintro w r w' log hw -
  obtain ⟨rfl, -⟩ := Prod.mk.inj (Option.some.inj hw)
  exact ⟨fun _ _ => h, fun x hx => by cases hx⟩

/-- The outcome of a run that goes on with `q` behind a log. -/
theorem yields_behind {q : Prog σ A L ε α} {w w' : World σ A} {r : Except ε α} {before log : List L}
    (hq : Yields Fit Q P q) (h : (q w).map (Prog.behind before) = some (r, w', log)) (hfit : ∀ e ∈ log, Fit e) :
    (∀ a, r = .ok a → Q a) ∧ ∀ x, r = .error x → P x := by
  obtain ⟨⟨r₂, w₂, more⟩, hrun, heq⟩ := Option.map_eq_some_iff.1 h
  obtain ⟨rfl, htail⟩ := Prod.mk.inj heq
  obtain ⟨-, rfl⟩ := Prod.mk.inj htail
  exact hq w _ _ more hrun fun e he => hfit e (List.mem_append_right _ he)

/-- What was logged before is logged. -/
theorem behind_fit {q : Prog σ A L ε α} {w w' : World σ A} {r : Except ε α} {before log : List L}
    (h : (q w).map (Prog.behind before) = some (r, w', log)) (hfit : ∀ e ∈ log, Fit e) : ∀ e ∈ before, Fit e := by
  obtain ⟨⟨r₂, w₂, more⟩, -, heq⟩ := Option.map_eq_some_iff.1 h
  obtain ⟨-, htail⟩ := Prod.mk.inj heq
  obtain ⟨-, rfl⟩ := Prod.mk.inj htail
  exact fun e he => hfit e (List.mem_append_left _ he)

/-- **One program after another.** -/
theorem yields_bind {R : β → Prop} {f : α → Prog σ A L ε β} (hp : Yields Fit Q P p)
    (hf : ∀ a, Q a → Yields Fit R P (f a)) : Yields Fit R P (Prog.bind p f) := by
  intro w r w' log hw hfit
  unfold Prog.bind at hw
  split at hw
  · cases hw
  · rename_i x w₁ log₁ hx
    obtain ⟨rfl, heq⟩ := Prod.mk.inj (Option.some.inj hw)
    obtain ⟨-, rfl⟩ := Prod.mk.inj heq
    exact ⟨(fun a ha => by cases ha), fun y hy => (hp w _ _ _ hx hfit).2 y (congrArg _ (Except.error.inj hy))⟩
  · rename_i a w₁ log₁ ha
    have hbefore := behind_fit hw hfit
    exact yields_behind (hf a ((hp w _ _ _ ha hbefore).1 a rfl)) hw hfit

/-- **A handler.** -/
theorem yields_tryWith {handle : ε → Option (Prog σ A L ε α)} (hp : Yields Fit Q P' p)
    (hnone : ∀ x, P' x → handle x = none → P x) (hsome : ∀ x q, P' x → handle x = some q → Yields Fit Q P q) :
    Yields Fit Q P (Prog.tryWith p handle) := by
  intro w r w' log hw hfit
  unfold Prog.tryWith at hw
  split at hw
  · rename_i x w₁ log₁ hx
    split at hw
    · rename_i q hq
      have hbefore := behind_fit hw hfit
      exact yields_behind (hsome x q ((hp w _ _ _ hx hbefore).2 x rfl) hq) hw hfit
    · rename_i hnot
      obtain ⟨rfl, heq⟩ := Prod.mk.inj (Option.some.inj hw)
      obtain ⟨-, rfl⟩ := Prod.mk.inj heq
      refine ⟨(fun a ha => by cases ha), fun y hy => ?_⟩
      obtain rfl := Except.error.inj hy
      exact hnone x ((hp w _ _ _ hx hfit).2 x rfl) hnot
  · rename_i hnot
    obtain ⟨hok, -⟩ := hp w r w' log hw hfit
    exact ⟨hok, fun x hx => absurd (hx ▸ hw) (hnot x w' log)⟩

theorem yields_andFinally {R : Unit → Prop} {last : Prog σ A L ε Unit} (hp : Yields Fit Q P p)
    (hlast : Yields Fit R P last) : Yields Fit Q P (Prog.andFinally p last) := by
  intro w r w' log hw hfit
  unfold Prog.andFinally at hw
  split at hw
  · cases hw
  · rename_i r₁ w₁ log₁ h₁
    split at hw
    · cases hw
    · rename_i x w₂ more hrun
      obtain ⟨rfl, htail⟩ := Prod.mk.inj (Option.some.inj hw)
      obtain ⟨-, rfl⟩ := Prod.mk.inj htail
      have hend := hlast _ _ _ _ hrun fun e he => hfit e (List.mem_append_right _ he)
      exact ⟨(fun a ha => by cases ha), fun y hy => hend.2 y (by rw [← Except.error.inj hy])⟩
    · rename_i u w₂ more hrun
      obtain ⟨rfl, htail⟩ := Prod.mk.inj (Option.some.inj hw)
      obtain ⟨-, rfl⟩ := Prod.mk.inj htail
      exact hp w _ _ _ h₁ fun e he => hfit e (List.mem_append_left _ he)

/-- **Loop rule**: `I` holds whenever the body is entered. -/
theorem yields_loop {I : β → Prop} {body : β → Prog σ A L ε (β ⊕ α)}
    (hbody : ∀ b, I b → Yields Fit (fun out => (∀ b', out = .inl b' → I b') ∧ ∀ a, out = .inr a → Q a) P (body b))
    (fuel : ℕ) {b : β} (h : I b) : Yields Fit Q P (Prog.loop body fuel b) := by
  induction fuel generalizing b with
  | zero => intro w r w' log hw; cases hw
  | succ fuel ih =>
    refine yields_bind (hbody b h) fun out hout => ?_
    cases out with
    | inl b' => exact ih (hout.1 b' rfl)
    | inr a => exact yields_ret (hout.2 a rfl)

theorem yields_each {γ : Type} {f : γ → Prog σ A L ε Unit} (h : ∀ c, Yields Fit (fun _ => True) P (f c))
    (cs : List γ) : Yields Fit (fun _ => True) P (Prog.each f cs) := by
  induction cs with
  | nil => exact yields_ret trivial
  | cons c cs ih => exact yields_bind (h c) fun _ _ => ih

/-!
# What a program ends with

`Prog.run` is a program without its log. A run is followed step by step: there is one rule
for each way to build a program, and they take the runs of its parts.

Main rules:
* `run_bind_ok`, `run_bind_error`: a program behind another.
* `run_loop_again`, `run_loop_end`, `run_loop_error`: one round of a loop.
* `run_andFinally`: a program with a `finally`.
-/

namespace Prog

variable {σ A L ε α β : Type}

/-- The outcome, and the world it leaves. -/
def run (p : Prog σ A L ε α) (w : World σ A) : Option (Except ε α × World σ A) :=
  (p w).map fun out => (out.1, out.2.1)

variable {p : Prog σ A L ε α} {w w' : World σ A}

theorem run_some {r : Except ε α} (h : p.run w = some (r, w')) : ∃ log, p w = some (r, w', log) := by
  obtain ⟨⟨r', w'', log⟩, hp, heq⟩ := Option.map_eq_some_iff.1 h
  simp only [Prod.mk.injEq] at heq
  obtain ⟨rfl, rfl⟩ := heq
  exact ⟨log, hp⟩

@[simp] theorem run_pure (a : α) : (pure a : Prog σ A L ε α).run w = some (.ok a, w) := rfl

@[simp] theorem run_ret (a : α) : (ret a : Prog σ A L ε α).run w = some (.ok a, w) := rfl

@[simp] theorem run_raise (x : ε) : (raise x : Prog σ A L ε α).run w = some (.error x, w) := rfl

@[simp] theorem run_lift (r : Except ε α) : (lift r : Prog σ A L ε α).run w = some (r, w) := rfl

@[simp] theorem run_note (e : L) : (note e : Prog σ A L ε Unit).run w = some (.ok (), w) := rfl

@[simp] theorem run_get : (get : Prog σ A L ε σ).run w = some (.ok w.state, w) := rfl

@[simp] theorem run_modify (f : σ → σ) :
    (modify f : Prog σ A L ε Unit).run w = some (.ok (), { w with state := f w.state }) := rfl

theorem run_ask {f : A → Option α} {a : A} {b : α} (h : f a = some b) (s : σ) (answers : List A) :
    (ask f : Prog σ A L ε α).run ⟨s, a :: answers⟩ = some (.ok b, ⟨s, answers⟩) := by
  simp only [run, ask, h, Option.map_some]

/-- **A program behind one that ends with a value.** -/
theorem run_bind_ok {a : α} (h : p.run w = some (.ok a, w')) (f : α → Prog σ A L ε β) :
    (p >>= f).run w = (f a).run w' := by
  obtain ⟨log, hp⟩ := run_some h
  show (Prog.bind p f w).map _ = (f a w').map _
  unfold Prog.bind
  rw [hp]
  dsimp only
  rw [Option.map_map]
  rfl

/-- **A program behind one that raises.** -/
theorem run_bind_error {x : ε} (h : p.run w = some (.error x, w')) (f : α → Prog σ A L ε β) :
    (p >>= f).run w = some (Except.error x, w') := by
  obtain ⟨log, hp⟩ := run_some h
  show (Prog.bind p f w).map _ = some (Except.error x, w')
  unfold Prog.bind
  rw [hp]
  rfl

theorem run_loop_again {body : β → Prog σ A L ε (β ⊕ α)} {b b' : β} (h : (body b).run w = some (.ok (.inl b'), w'))
    (fuel : ℕ) : (loop body (fuel + 1) b).run w = (loop body fuel b').run w' :=
  run_bind_ok h _

theorem run_loop_end {body : β → Prog σ A L ε (β ⊕ α)} {b : β} {a : α} (h : (body b).run w = some (.ok (.inr a), w'))
    (fuel : ℕ) : (loop body (fuel + 1) b).run w = some (.ok a, w') :=
  run_bind_ok h _

theorem run_loop_error {body : β → Prog σ A L ε (β ⊕ α)} {b : β} {x : ε} (h : (body b).run w = some (.error x, w'))
    (fuel : ℕ) : (loop body (fuel + 1) b).run w = some (.error x, w') :=
  run_bind_error h _

/-- **A `finally` that goes through.** -/
theorem run_andFinally {r : Except ε α} {w'' : World σ A} (h : p.run w = some (r, w')) {last : Prog σ A L ε Unit}
    (hlast : last.run w' = some (.ok (), w'')) : (andFinally p last).run w = some (r, w'') := by
  obtain ⟨log, hp⟩ := run_some h
  obtain ⟨more, hmore⟩ := run_some hlast
  simp only [run, andFinally, hp, hmore, Option.map_some]

end Prog

end Dialogue
