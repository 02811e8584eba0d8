import Mathlib.Tactic.Common
import Mathlib.Algebra.Order.Ring.Nat

/-!
# Maximal runs of a predicate below a bound

`runs` is the loop that steps through the indices below `n` and, at an index where the
predicate holds, takes as many further ones as hold it. The runs it finds are disjoint,
in order, and cover exactly the indices that hold the predicate (`mem_runs_iff`); they begin
at those without one before them (`runs_starts`).
-/

namespace Runs

variable {f : ℕ → Bool} {n i j : ℕ}

/-- How many indices from `i` on, below `n`, hold `f` without a gap; `fuel` bounds them. -/
def runLength (f : ℕ → Bool) (n : ℕ) : ℕ → ℕ → ℕ
  | 0, _ => 0
  | fuel + 1, i => if i < n && f i then runLength f n fuel (i + 1) + 1 else 0

/-- The runs from `i` on: their first indices and lengths. -/
def runsFrom (f : ℕ → Bool) (n : ℕ) : ℕ → ℕ → List (ℕ × ℕ)
  | 0, _ => []
  | fuel + 1, i =>
    if i < n then
      if f i then
        let run := runLength f n n i
        (i, run) :: runsFrom f n fuel (i + run)
      else runsFrom f n fuel (i + 1)
    else []

/-- All runs. -/
def runs (f : ℕ → Bool) (n : ℕ) : List (ℕ × ℕ) := runsFrom f n n 0

/-- An index lies in a run. -/
def InRun (i : ℕ) (run : ℕ × ℕ) : Prop := run.1 ≤ i ∧ i < run.1 + run.2

theorem runLength_holds (fuel : ℕ) (hij : i ≤ j) (hj : j < i + runLength f n fuel i) : j < n ∧ f j = true := by
  induction fuel generalizing i with
  | zero =>
    rw [runLength] at hj
    omega
  | succ fuel ih =>
    rw [runLength] at hj
    split at hj
    · rename_i hi
      rw [Bool.and_eq_true, decide_eq_true_eq] at hi
      rcases Nat.eq_or_lt_of_le hij with rfl | hlt
      · exact hi
      · exact ih (i := i + 1) hlt (by omega)
    · omega

theorem runLength_pos (fuel : ℕ) (hi : i < n) (hf : f i = true) (hfuel : 0 < fuel) : 0 < runLength f n fuel i := by
  cases fuel with
  | zero => cases hfuel
  | succ fuel =>
    rw [runLength, if_pos (by rw [hf, Bool.and_true, decide_eq_true hi])]
    exact Nat.succ_pos _

theorem runsFrom_ge (fuel : ℕ) : ∀ run ∈ runsFrom f n fuel i, i ≤ run.1 := by
  induction fuel generalizing i with
  | zero => exact fun _ h => absurd h List.not_mem_nil
  | succ fuel ih =>
    intro run hrun
    rw [runsFrom] at hrun
    split at hrun
    · split at hrun
      · rcases List.mem_cons.1 hrun with rfl | hrun
        · exact le_rfl
        · exact le_trans (Nat.le_add_right _ _) (ih run hrun)
      · exact le_trans (Nat.le_succ _) (ih run hrun)
    · cases hrun

/-- **The runs cover exactly what holds the predicate.** -/
theorem mem_runsFrom_iff (fuel : ℕ) (hfuel : n ≤ i + fuel) (hij : i ≤ j) :
    (∃ run ∈ runsFrom f n fuel i, InRun j run) ↔ j < n ∧ f j = true := by
  induction fuel generalizing i with
  | zero =>
    rw [runsFrom]
    simp only [List.not_mem_nil, false_and, exists_false, false_iff]
    omega
  | succ fuel ih =>
    rw [runsFrom]
    split
    · rename_i hi
      split
      · rename_i hf
        have hpos := runLength_pos n hi hf (by omega)
        have hin : InRun j (i, runLength f n n i) ↔ j < i + runLength f n n i := ⟨fun h => h.2, fun h => ⟨hij, h⟩⟩
        simp only [List.mem_cons, exists_eq_or_imp, hin]
        by_cases hj : j < i + runLength f n n i
        · exact ⟨fun _ => runLength_holds n hij hj, fun _ => Or.inl hj⟩
        · rw [ih (i := i + runLength f n n i) (by omega) (by omega)]
          exact or_iff_right hj
      · rename_i hf
        rcases Nat.eq_or_lt_of_le hij with rfl | hlt
        · refine ⟨fun ⟨run, hrun, hin⟩ => ?_, fun h => absurd h.2 hf⟩
          have := runsFrom_ge fuel run hrun
          exact absurd hin.1 (by omega)
        · exact ih (by omega) hlt
    · refine ⟨fun ⟨run, hrun, _⟩ => absurd hrun List.not_mem_nil, fun h => ?_⟩
      omega

theorem mem_runs_iff : (∃ run ∈ runs f n, InRun j run) ↔ j < n ∧ f j = true :=
  mem_runsFrom_iff n (by omega) (Nat.zero_le j)

/-- Every run is a run. -/
theorem runsFrom_spec (fuel : ℕ) : ∀ run ∈ runsFrom f n fuel i, 0 < run.2 ∧ run.1 + run.2 ≤ n := by
  induction fuel generalizing i with
  | zero => exact fun _ h => absurd h List.not_mem_nil
  | succ fuel ih =>
    intro run hrun
    rw [runsFrom] at hrun
    split at hrun
    · rename_i hi
      split at hrun
      · rename_i hf
        rcases List.mem_cons.1 hrun with rfl | hrun
        · have hpos := runLength_pos n hi hf (by omega)
          refine ⟨hpos, ?_⟩
          have := (runLength_holds (f := f) (n := n) (i := i) (j := i + runLength f n n i - 1) n (by omega) (by omega)).1
          omega
        · exact ih run hrun
      · exact ih run hrun
    · cases hrun

theorem runs_spec {run : ℕ × ℕ} (h : run ∈ runs f n) : 0 < run.2 ∧ run.1 + run.2 ≤ n := runsFrom_spec n run h

/-- Behind a run there is a gap, or the end. -/
theorem runLength_stops (fuel : ℕ) (hfuel : n ≤ i + fuel) :
    f (i + runLength f n fuel i) = false ∨ n ≤ i + runLength f n fuel i := by
  induction fuel generalizing i with
  | zero => exact Or.inr hfuel
  | succ fuel ih =>
    rw [runLength]
    split
    · rw [show i + (runLength f n fuel (i + 1) + 1) = i + 1 + runLength f n fuel (i + 1) by omega]
      exact ih (by omega)
    · rename_i hi
      rw [Bool.and_eq_true, decide_eq_true_eq, not_and_or, Nat.not_lt, Bool.not_eq_true] at hi
      exact hi.symm

/-- **The runs begin where the predicate begins to hold.** -/
theorem runsFrom_starts (fuel : ℕ) (hfuel : n ≤ i + fuel) (hgap : i = 0 ∨ f (i - 1) = false ∨ f i = false ∨ n ≤ i) :
    (List.range' i (n - i)).filter (fun j => f j && (j == 0 || !f (j - 1))) = (runsFrom f n fuel i).map Prod.fst := by
  induction fuel generalizing i with
  | zero => rw [show n - i = 0 by omega]; rfl
  | succ fuel ih =>
    rw [runsFrom]
    split
    · rename_i hi
      split
      · rename_i hf
        have hpos := runLength_pos n hi hf (by omega)
        have hend := (runLength_holds (f := f) (n := n) (i := i) (j := i + runLength f n n i - 1) n (by omega) (by omega)).1
        have hsplit : n - i = 1 + (runLength f n n i - 1) + (n - (i + runLength f n n i)) := by omega
        have hrest := ih (i := i + runLength f n n i) (by omega)
          ((runLength_stops n (Nat.le_add_left n i)).elim (fun h => Or.inr (Or.inr (Or.inl h))) fun h =>
            Or.inr (Or.inr (Or.inr h)))
        have hfirst : [i].filter (fun j => f j && (j == 0 || !f (j - 1))) = [i] := by
          refine List.filter_eq_self.2 fun j hj => ?_
          obtain rfl := List.mem_singleton.1 hj
          rcases hgap with rfl | hgap | hgap | hgap
          · simpa using hf
          · simp [hf, hgap]
          · rw [hf] at hgap; cases hgap
          · omega
        -- inside the run the one before holds too
        have hinside : (List.range' (i + 1) (runLength f n n i - 1)).filter (fun j => f j && (j == 0 || !f (j - 1))) = [] := by
          refine List.filter_eq_nil_iff.2 fun j hj => ?_
          obtain ⟨hij, hj⟩ := List.mem_range'_1.1 hj
          have hbefore := (runLength_holds (f := f) (n := n) (i := i) (j := j - 1) n (by omega) (by omega)).2
          have hne : (j == 0) = false := beq_eq_false_iff_ne.2 (by omega)
          simp [hbefore, hne]
        rw [hsplit, ← List.range'_append_1, ← List.range'_append_1, List.filter_append, List.filter_append, hinside,
          show i + (1 + (runLength f n n i - 1)) = i + runLength f n n i by omega, hrest, List.range'_one, hfirst]
        rfl
      · rename_i hf
        rw [Bool.not_eq_true] at hf
        have hrest := ih (i := i + 1) (by omega) (Or.inr (Or.inl hf))
        rw [show n - i = n - (i + 1) + 1 by omega, List.range'_succ, List.filter_cons_of_neg (by simp [hf]), hrest]
    · rw [show n - i = 0 by omega]
      rfl

theorem runs_starts (f : ℕ → Bool) (n : ℕ) :
    (List.range n).filter (fun j => f j && (j == 0 || !f (j - 1))) = (runs f n).map Prod.fst := by
  rw [List.range_eq_range']
  exact runsFrom_starts n (Nat.le_add_left n 0) (Or.inl rfl)

/-- Between two runs there is a gap. -/
theorem runsFrom_length (fuel : ℕ) : 2 * (runsFrom f n fuel i).length ≤ n + 1 - i ∧
    (f i = false → 2 * (runsFrom f n fuel i).length ≤ n - i) := by
  induction fuel generalizing i with
  | zero => exact ⟨Nat.zero_le _, fun _ => Nat.zero_le _⟩
  | succ fuel ih =>
    rw [runsFrom]
    split
    · rename_i hi
      split
      · rename_i hf
        have hpos := runLength_pos n hi hf (by omega)
        obtain ⟨hall, hbehind⟩ := ih (i := i + runLength f n n i)
        rw [List.length_cons]
        refine ⟨?_, fun hnot => absurd (hf.symm.trans hnot) (by decide)⟩
        rcases runLength_stops (f := f) n (Nat.le_add_left n i) with hgap | hend
        · have := hbehind hgap
          omega
        · omega
      · have := (ih (i := i + 1)).1
        exact ⟨by omega, fun _ => by omega⟩
    · exact ⟨Nat.zero_le _, fun _ => Nat.zero_le _⟩

theorem runs_length (f : ℕ → Bool) (n : ℕ) : 2 * (runs f n).length ≤ n + 1 := (runsFrom_length n).1

end Runs
