import V9xRemote.Lib.Scan
import V9xRemote.Lib.Checked

/-!
# Scans that check their reads

The loops of `Scan` as programs that are stuck on a read at or behind a bound, and the loop
that compares a stretch of a buffer with a text. Each comes to the plain scan where what it
goes through lies below the bound.
-/

namespace Reading

open Bytes Scan Checked

variable {σ ε : Type}

/-- A byte below the bound. -/
def byte (s : Bytes) (bound i : ℕ) : Checked σ ε UInt8 := do
  check (i < bound)
  return s.at' i

/-- `while (i < stop && p(s[i])) ++i`. -/
def upRead (p : UInt8 → Bool) (s : Bytes) (bound stop i : ℕ) : Checked σ ε ℕ :=
  if i < stop then do
    let b ← byte s bound i
    if p b then upRead p s bound stop (i + 1) else return i
  else return i
termination_by stop - i

/-- `while (i > start && p(s[i - 1])) --i`. -/
def downRead (p : UInt8 → Bool) (s : Bytes) (bound start : ℕ) : ℕ → Checked σ ε ℕ
  | 0 => return 0
  | i + 1 =>
    if start < i + 1 then do
      let b ← byte s bound i
      if p b then downRead p s bound start i else return i + 1
    else return i + 1

/-- Whether `left` bytes from `i` on are those of a text, read up to its NUL, from `j` on. -/
def equalRead (f : UInt8 → UInt8) (s : Bytes) (bound : ℕ) (text : Bytes) : (left i j : ℕ) → Checked σ ε Bool
  | 0, _, j => do
    let b ← byte text (text.length + 1) j
    return b == 0
  | left + 1, i, j => do
    let b ← byte text (text.length + 1) j
    if b = 0 then return false
    else
      let c ← byte s bound i
      if f c = f b then equalRead f s bound text left (i + 1) (j + 1) else return false

/-- Whether the bytes from a position on, once they went through `f`, are the wanted ones. -/
def matchRead (f : UInt8 → UInt8) (s : Bytes) (bound : ℕ) : ℕ → Bytes → Checked σ ε Bool
  | _, [] => return true
  | i, c :: wanted => do
    let b ← byte s bound i
    if f b ≠ c then return false else matchRead f s bound (i + 1) wanted

variable {p : UInt8 → Bool} {f : UInt8 → UInt8} {s text : Bytes} {bound start stop i j left : ℕ} {st : σ} {R : ε → σ → Prop}

@[simp]
theorem post_byte {Q : UInt8 → σ → Prop} : Post (byte s bound i) st Q R ↔ i < bound ∧ Q (s.at' i) st := by
  rw [byte, post_bind, post_check, post_pure]

theorem post_upRead {Q : ℕ → σ → Prop} (hstop : stop ≤ bound) :
    Post (upRead p s bound stop i) st Q R ↔ Q (up p s stop i) st := by
  induction i using up.induct p s stop with
  | case1 i h ih =>
    rw [upRead, up, if_pos h.1, if_pos h, post_bind, post_byte, if_pos h.2, ih, and_iff_right (by omega)]
  | case2 i h =>
    rw [upRead, up, if_neg h]
    by_cases hi : i < stop
    · rw [if_pos hi, post_bind, post_byte, if_neg fun hp => h ⟨hi, hp⟩, post_pure, and_iff_right (by omega)]
    · rw [if_neg hi, post_pure]

theorem post_downRead {Q : ℕ → σ → Prop} (hi : i ≤ bound) :
    Post (downRead p s bound start i) st Q R ↔ Q (down p s start i) st := by
  induction i with
  | zero => rw [downRead, down, post_pure]
  | succ i ih =>
    rw [downRead, down]
    by_cases hstart : start < i + 1
    · rw [if_pos hstart, post_bind, post_byte, and_iff_right (by omega)]
      by_cases hp : p (s.at' i) = true
      · rw [if_pos hp, if_pos ⟨hstart, hp⟩, ih (by omega)]
      · rw [if_neg hp, if_neg fun h => hp h.2, post_pure]
    · rw [if_neg hstart, if_neg fun h => hstart h.1, post_pure]

theorem post_equalRead_from {Q : Bool → σ → Prop} (hs : i + left ≤ bound) (hbound : bound ≤ s.length) (htext : 0 ∉ text)
    (hj : j ≤ text.length) : Post (equalRead f s bound text left i j) st Q R ↔
      Q ((slice s i (i + left)).map f == (text.drop j).map f) st := by
  induction left generalizing i j with
  | zero =>
    rw [equalRead, post_bind, post_byte, post_pure, and_iff_right (by omega), Nat.add_zero, slice_self, List.map_nil]
    have hsame : (text.at' j == 0) = (([] : Bytes) == (text.drop j).map f) := by
      rcases Nat.lt_or_ge j text.length with hlt | hge
      · have hne : text.at' j ≠ 0 := fun h => htext (h ▸ at'_mem hlt)
        rw [List.drop_eq_getElem_cons hlt, List.map_cons, beq_eq_false_iff_ne.2 hne]
        rfl
      · rw [at'_of_length_le hge, List.drop_eq_nil_of_le hge]
        rfl
    rw [hsame]
  | succ left ih =>
    rw [equalRead, post_bind, post_byte, and_iff_right (by omega)]
    rw [slice_cons (by omega) (by omega), List.map_cons, show i + (left + 1) = i + 1 + left by omega]
    rcases Nat.lt_or_ge j text.length with hlt | hge
    · have hne : text.at' j ≠ 0 := fun h => htext (h ▸ at'_mem hlt)
      rw [if_neg hne, post_bind, post_byte, and_iff_right (by omega), List.drop_eq_getElem_cons hlt, List.map_cons,
        ← at'_eq_getElem hlt]
      by_cases hsame : f (s.at' i) = f (text.at' j)
      · rw [if_pos hsame, ih (by omega) (by omega), List.cons_beq_cons, hsame, beq_self_eq_true, Bool.true_and]
      · rw [if_neg hsame, post_pure, List.cons_beq_cons, beq_eq_false_iff_ne.2 hsame, Bool.false_and]
    · rw [at'_of_length_le hge, if_pos rfl, post_pure, List.drop_eq_nil_of_le hge]
      rfl

/-- **A stretch is compared with a text** as wholes. -/
theorem post_equalRead {Q : Bool → σ → Prop} (hs : i + left ≤ bound) (hbound : bound ≤ s.length) (htext : 0 ∉ text) :
    Post (equalRead f s bound text left i 0) st Q R ↔ Q ((slice s i (i + left)).map f == text.map f) st := by
  rw [post_equalRead_from hs hbound htext (Nat.zero_le _), List.drop_zero]

theorem post_matchRead {Q : Bool → σ → Prop} {wanted : Bytes} (hs : i + wanted.length ≤ bound) (hbound : bound ≤ s.length) :
    Post (matchRead f s bound i wanted) st Q R ↔ Q ((slice s i (i + wanted.length)).map f == wanted) st := by
  induction wanted generalizing i with
  | nil =>
    rw [matchRead, post_pure, List.length_nil, Nat.add_zero, slice_self]
    rfl
  | cons c wanted ih =>
    rw [List.length_cons] at hs
    have hnext : i + (wanted.length + 1) = i + 1 + wanted.length := by omega
    rw [matchRead, post_bind, post_byte, and_iff_right (by omega), List.length_cons, slice_cons (by omega) (by omega),
      List.map_cons, List.cons_beq_cons, hnext]
    by_cases hsame : f (s.at' i) = c
    · rw [if_neg (not_not.2 hsame), ih (by omega), hsame, beq_self_eq_true, Bool.true_and]
    · rw [if_pos hsame, post_pure, beq_eq_false_iff_ne.2 hsame, Bool.false_and]

end Reading
