import V9xRemote.Spec.UpdateRead
import V9xRemote.Proof.UpdateIni

/-!
# Which value the INI reader gives, and what it touches

`IniAt` says of the lines of a text, by their numbers, where a value stands under a section
and a key. The reader gives the first one, or nothing when that one has no room; it reads
the bytes it was given and writes within its capacity.
-/

namespace V9xRemote

open Bytes Scan Reading Checked

/-! ## The lines -/

/-- A line that starts with a bracket, blanks apart. -/
def IniBracket (line : Bytes) : Prop := (updateTrim line).head? = some 91

/-- The line `[section]`. -/
def IniOpens (sect line : Bytes) : Prop :=
  ∃ name, updateTrim line = 91 :: (name ++ [93]) ∧ updateSpanEquals name sect

/-- The line `key = value`. -/
def IniPair (key value line : Bytes) : Prop :=
  ¬IniBracket line ∧ ∃ name rest, updateTrim line = name ++ 61 :: rest ∧ 61 ∉ name ∧
    updateSpanEquals (updateTrim name) key ∧ value = updateTrim rest

/-- No line from `j` on starts with a bracket, up to line `i`. -/
def IniClear (lines : List Bytes) (j i : ℕ) : Prop := ∀ k < i, j ≤ k → ∀ line ∈ lines[k]?, ¬IniBracket line

/-- Line `i` is such a line, and the last bracket in front of it opens the section. -/
structure IniAt (sect key value : Bytes) (lines : List Bytes) (i : ℕ) : Prop where
  pair : ∃ line ∈ lines[i]?, IniPair key value line
  under : ∃ j < i, (∃ line ∈ lines[j]?, IniOpens sect line) ∧ IniClear lines (j + 1) i

/-- The first value under the section and the key. -/
def IniFirst (sect key value : Bytes) (lines : List Bytes) : Prop :=
  ∃ i, IniAt sect key value lines i ∧ ∀ j < i, ∀ other, ¬IniAt sect key other lines j

instance (line : Bytes) : Decidable (IniBracket line) := inferInstanceAs (Decidable (_ = _))

section

variable {sect key value line : Bytes} {lines : List Bytes} {here : Bool} {i capacity : ℕ}

/-- Whether a line with a bracket opens the section, as the reader tells. -/
theorem iniOpens_iff (hbracket : IniBracket line) : IniOpens sect line ↔
    ((updateTrim line).getLast? = some 93 && updateSpanEquals (updateTrim line).tail.dropLast sect) = true := by
  rw [IniBracket] at hbracket
  rw [IniOpens, Bool.and_eq_true, decide_eq_true_iff]
  cases htrim : updateTrim line with
  | nil =>
    rw [htrim] at hbracket
    cases hbracket
  | cons c text =>
    rw [htrim, List.head?_cons, Option.some_inj] at hbracket
    subst hbracket
    rw [List.tail_cons]
    constructor
    · rintro ⟨name, hname, hsame⟩
      obtain ⟨-, rfl⟩ := List.cons_eq_cons.1 hname
      rw [List.dropLast_concat]
      exact ⟨by rw [← List.cons_append, List.getLast?_concat], hsame⟩
    · rintro ⟨hlast, hsame⟩
      cases text using List.reverseRecOn with
      | nil => cases hlast
      | append_singleton name last =>
        rw [← List.cons_append, List.getLast?_concat, Option.some_inj] at hlast
        rw [List.dropLast_concat] at hsame
        exact ⟨name, by rw [hlast], hsame⟩

/-- A trimmed text does not start or end with a blank. -/
theorem updateTrim_ends (line : Bytes) : (∀ c ∈ (updateTrim line).head?, ¬updateIsSpace c = true) ∧
    ∀ c ∈ (updateTrim line).getLast?, ¬updateIsSpace c = true := by
  have hlast : ∀ (text : Bytes), ∀ c ∈ (text.dropWhile updateIsSpace).head?, ¬updateIsSpace c = true := by
    intro text c hc
    have hnot := List.head?_dropWhile_not updateIsSpace text
    rw [Option.mem_def.1 hc] at hnot
    simpa using hnot
  rw [updateTrim]
  constructor
  · intro c hc
    rw [List.head?_reverse] at hc
    -- the last byte of the reversed rest is the one the first pass stopped at
    have hsuffix := List.dropWhile_suffix (l := (line.dropWhile updateIsSpace).reverse) updateIsSpace
    obtain ⟨front, hfront⟩ := hsuffix
    generalize ((line.dropWhile updateIsSpace).reverse.dropWhile updateIsSpace) = rest at hc hfront
    have hne : rest ≠ [] := fun h => by rw [h] at hc; cases hc
    have hsame : (line.dropWhile updateIsSpace).head? = some c := by
      rw [← List.getLast?_reverse, ← hfront, List.getLast?_append_of_ne_nil _ hne]
      exact hc
    exact hlast line c hsame
  · intro c hc
    rw [List.getLast?_reverse] at hc
    exact hlast _ c hc

theorem dropWhile_of_head {text : Bytes} (h : ∀ c ∈ text.head?, ¬updateIsSpace c = true) :
    text.dropWhile updateIsSpace = text := by
  cases text with
  | nil => rfl
  | cons c text => exact List.dropWhile_cons_of_neg (h c rfl)

/-- The front of a trimmed text, and what is behind an equals sign in it. -/
theorem updateTrim_pair {name rest : Bytes} (h : updateTrim line = name ++ 61 :: rest) :
    updateTrim name = (name.reverse.dropWhile updateIsSpace).reverse ∧ updateTrim rest = rest.dropWhile updateIsSpace := by
  obtain ⟨hhead, hlast⟩ := updateTrim_ends line
  rw [h] at hhead hlast
  constructor
  · have hname : ∀ c ∈ name.head?, ¬updateIsSpace c = true := by
      intro c hc
      refine hhead c ?_
      cases name with
      | nil => cases hc
      | cons d name => exact hc
    rw [updateTrim, dropWhile_of_head hname]
  · have hrest : ∀ c ∈ (rest.dropWhile updateIsSpace).reverse.head?, ¬updateIsSpace c = true := by
      intro c hc
      rw [List.head?_reverse] at hc
      obtain ⟨front, hfront⟩ := List.dropWhile_suffix (l := rest) updateIsSpace
      have hne : rest.dropWhile updateIsSpace ≠ [] := fun hnil => by rw [hnil] at hc; cases hc
      refine hlast c ?_
      rw [← hfront, List.append_cons, ← List.append_assoc, List.getLast?_append_of_ne_nil _ hne]
      exact hc
    rw [updateTrim, dropWhile_of_head hrest, List.reverse_reverse]

/-- The two sides of the first equals sign. -/
theorem equals_sides {text name rest : Bytes} (h : text = name ++ 61 :: rest) (hname : 61 ∉ name) :
    text.takeWhile (· ≠ 61) = name ∧ (text.dropWhile (· ≠ 61)).tail = rest := by
  have hpass : ∀ b ∈ name, decide (b ≠ 61) = true := fun b hb => decide_eq_true fun h => hname (h ▸ hb)
  rw [h, List.takeWhile_append_of_pos hpass, List.dropWhile_append_of_pos hpass]
  exact ⟨List.append_nil name, rfl⟩

/-- A line with a value, as the reader takes it apart. -/
theorem iniPair_iff : IniPair key value line ↔ ¬IniBracket line ∧ 61 ∈ updateTrim line ∧
    updateSpanEquals (((updateTrim line).takeWhile (· ≠ 61)).reverse.dropWhile updateIsSpace).reverse key = true ∧
    value = ((updateTrim line).dropWhile (· ≠ 61)).tail.dropWhile updateIsSpace := by
  rw [IniPair]
  refine and_congr_right fun _ => ?_
  constructor
  · rintro ⟨name, rest, htrim, hname, hsame, rfl⟩
    obtain ⟨hkey, hvalue⟩ := updateTrim_pair htrim
    obtain ⟨hleft, hright⟩ := equals_sides htrim hname
    rw [hleft, hright, ← hkey, ← hvalue, htrim]
    exact ⟨List.mem_append_right _ List.mem_cons_self, hsame, rfl⟩
  · rintro ⟨hmem, hsame, rfl⟩
    obtain ⟨name, rest, htrim, hname⟩ := List.eq_append_cons_of_mem hmem
    obtain ⟨hkey, hvalue⟩ := updateTrim_pair htrim
    obtain ⟨hleft, hright⟩ := equals_sides htrim hname
    rw [hleft, ← hkey] at hsame
    exact ⟨name, rest, htrim, hname, hsame, by rw [hright, hvalue]⟩

theorem IniPair.unique {value' : Bytes} (h : IniPair key value line) (h' : IniPair key value' line) : value = value' :=
  (iniPair_iff.1 h).2.2.2.trans (iniPair_iff.1 h').2.2.2.symm

/-! ## The first value -/

/-- Line `i` has the value, where the section is open in front of the lines or opens among them. -/
def IniFrom (sect key value : Bytes) (here : Bool) (lines : List Bytes) (i : ℕ) : Prop :=
  (∃ line ∈ lines[i]?, IniPair key value line) ∧
    (here = true ∧ IniClear lines 0 i ∨ ∃ j < i, (∃ line ∈ lines[j]?, IniOpens sect line) ∧ IniClear lines (j + 1) i)

/-- Whether the section is open behind a line. -/
def iniHere (sect : Bytes) (here : Bool) (line : Bytes) : Bool :=
  if IniBracket line then
    (updateTrim line).getLast? = some 93 && updateSpanEquals (updateTrim line).tail.dropLast sect
  else here

theorem iniAt_iff : IniAt sect key value lines i ↔ IniFrom sect key value false lines i := by
  rw [IniFrom, or_iff_right fun h => Bool.false_ne_true h.1]
  exact ⟨fun h => ⟨h.pair, h.under⟩, fun h => ⟨h.1, h.2⟩⟩

theorem iniClear_zero : IniClear (line :: lines) 0 (i + 1) ↔ ¬IniBracket line ∧ IniClear lines 0 i := by
  constructor
  · intro h
    exact ⟨h 0 (Nat.succ_pos i) le_rfl line rfl, fun k hk _ => h (k + 1) (by omega) (Nat.zero_le _)⟩
  · rintro ⟨hline, h⟩ k hk -
    cases k with
    | zero =>
      rintro l ⟨⟩
      exact hline
    | succ k => exact h k (by omega) (Nat.zero_le k)

theorem iniClear_succ {j : ℕ} : IniClear (line :: lines) (j + 1) (i + 1) ↔ IniClear lines j i := by
  constructor
  · exact fun h k hk hj => h (k + 1) (by omega) (by omega)
  · intro h k hk hj
    cases k with
    | zero => omega
    | succ k => exact h k (by omega) (by omega)

theorem iniFrom_zero : IniFrom sect key value here (line :: lines) 0 ↔ here = true ∧ IniPair key value line := by
  constructor
  · rintro ⟨⟨_, ⟨⟩, hpair⟩, hunder⟩
    rcases hunder with ⟨hhere, -⟩ | ⟨j, hj, -⟩
    · exact ⟨hhere, hpair⟩
    · exact absurd hj (Nat.not_lt_zero j)
  · rintro ⟨hhere, hpair⟩
    exact ⟨⟨line, rfl, hpair⟩, Or.inl ⟨hhere, fun k hk => absurd hk (Nat.not_lt_zero k)⟩⟩

theorem iniOpens_bracket (h : IniOpens sect line) : IniBracket line := by
  obtain ⟨name, hname, -⟩ := h
  rw [IniBracket, hname, List.head?_cons]

/-- **One line on**, the section is open as the line leaves it. -/
theorem iniFrom_succ : IniFrom sect key value here (line :: lines) (i + 1) ↔
    IniFrom sect key value (iniHere sect here line) lines i := by
  have hopens : IniBracket line → (IniOpens sect line ↔ iniHere sect here line = true) := by
    intro hbracket
    rw [iniHere, if_pos hbracket]
    exact iniOpens_iff hbracket
  rw [IniFrom, IniFrom, List.getElem?_cons_succ]
  refine and_congr_right fun _ => ?_
  constructor
  · rintro (⟨hhere, hclear⟩ | ⟨j, hj, hopen, hclear⟩)
    · obtain ⟨hline, hclear⟩ := iniClear_zero.1 hclear
      exact Or.inl ⟨by rw [iniHere, if_neg hline, hhere], hclear⟩
    rw [iniClear_succ] at hclear
    cases j with
    | zero =>
      obtain ⟨_, ⟨⟩, hopen⟩ := hopen
      exact Or.inl ⟨(hopens (iniOpens_bracket hopen)).1 hopen, hclear⟩
    | succ j => exact Or.inr ⟨j, by omega, hopen, hclear⟩
  · rintro (⟨hhere, hclear⟩ | ⟨j, hj, hopen, hclear⟩)
    · by_cases hbracket : IniBracket line
      · exact Or.inr ⟨0, Nat.succ_pos i, ⟨line, rfl, (hopens hbracket).2 hhere⟩, iniClear_succ.2 hclear⟩
      · rw [iniHere, if_neg hbracket] at hhere
        exact Or.inl ⟨hhere, iniClear_zero.2 ⟨hbracket, hclear⟩⟩
    · exact Or.inr ⟨j + 1, by omega, hopen, iniClear_succ.2 hclear⟩

/-- The first value of the lines, where the section may be open in front of them. -/
def IniFirstFrom (sect key value : Bytes) (here : Bool) (lines : List Bytes) : Prop :=
  ∃ i, IniFrom sect key value here lines i ∧ ∀ j < i, ∀ other, ¬IniFrom sect key other here lines j

theorem iniFirstFrom_cons : IniFirstFrom sect key value here (line :: lines) ↔
    here = true ∧ IniPair key value line ∨
      (∀ other, ¬(here = true ∧ IniPair key other line)) ∧
        IniFirstFrom sect key value (iniHere sect here line) lines := by
  constructor
  · rintro ⟨i, hat, hfirst⟩
    cases i with
    | zero => exact Or.inl (iniFrom_zero.1 hat)
    | succ i =>
      refine Or.inr ⟨fun other h => hfirst 0 (Nat.succ_pos i) other (iniFrom_zero.2 h), i, iniFrom_succ.1 hat, ?_⟩
      exact fun j hj other h => hfirst (j + 1) (by omega) other (iniFrom_succ.2 h)
  · rintro (hline | ⟨hnot, i, hat, hfirst⟩)
    · exact ⟨0, iniFrom_zero.2 hline, fun j hj => absurd hj (Nat.not_lt_zero j)⟩
    · refine ⟨i + 1, iniFrom_succ.2 hat, fun j hj other h => ?_⟩
      cases j with
      | zero => exact hnot other (iniFrom_zero.1 h)
      | succ j => exact hfirst j (by omega) other (iniFrom_succ.1 h)

/-- **The loop over the lines** gives the first value of theirs, where it has room. -/
theorem updateIniLines_first : updateIniLines sect key capacity here lines = some value ↔
    IniFirstFrom sect key value here lines ∧ value.length < capacity := by
  induction lines generalizing here with
  | nil =>
    refine iff_of_false (Option.some_ne_none value).symm ?_
    rintro ⟨⟨i, ⟨⟨line, hline, -⟩, -⟩, -⟩, -⟩
    cases hline
  | cons line lines ih =>
    rw [updateIniLines, iniFirstFrom_cons]
    dsimp only
    -- a line that is not the one asked for leaves the first value to those behind it
    have hskip : ∀ {here' : Bool}, iniHere sect here line = here' →
        (∀ other, ¬(here = true ∧ IniPair key other line)) →
        (updateIniLines sect key capacity here' lines = some value ↔
          (here = true ∧ IniPair key value line ∨ (∀ other, ¬(here = true ∧ IniPair key other line)) ∧
            IniFirstFrom sect key value (iniHere sect here line) lines) ∧ value.length < capacity) := by
      rintro here' rfl hnot
      rw [ih, or_iff_right (hnot value), and_iff_right hnot]
    by_cases hempty : updateTrim line = []
    · have hbracket : ¬IniBracket line := by
        rw [IniBracket, hempty]
        exact (Option.some_ne_none _).symm
      rw [if_pos hempty]
      refine hskip (by rw [iniHere, if_neg hbracket]) ?_
      rintro other ⟨-, hpair⟩
      have hmem := (iniPair_iff.1 hpair).2.1
      rw [hempty] at hmem
      cases hmem
    rw [if_neg hempty]
    by_cases hbracket : IniBracket line
    · rw [if_pos (show (updateTrim line).head? = some 91 from hbracket)]
      exact hskip (by rw [iniHere, if_pos hbracket]) fun other h => h.2.1 hbracket
    rw [if_neg (show ¬(updateTrim line).head? = some 91 from hbracket)]
    have hsame : iniHere sect here line = here := by rw [iniHere, if_neg hbracket]
    cases here with
    | false => exact hskip hsame fun other h => Bool.false_ne_true h.1
    | true =>
      rw [Bool.not_true, if_neg Bool.false_ne_true]
      by_cases hequals : 61 ∈ updateTrim line
      swap
      · rw [if_pos hequals]
        exact hskip hsame fun other h => hequals (iniPair_iff.1 h.2).2.1
      rw [if_neg (not_not.2 hequals)]
      by_cases hkey : updateSpanEquals
          (((updateTrim line).takeWhile (· ≠ 61)).reverse.dropWhile updateIsSpace).reverse key = true
      swap
      · rw [if_pos (by rw [Bool.eq_false_of_not_eq_true hkey]; rfl)]
        exact hskip hsame fun other h => hkey (iniPair_iff.1 h.2).2.2.1
      rw [if_neg (by rw [hkey]; decide)]
      -- this is the first value, whether or not it has room
      have hpair := iniPair_iff.2 ⟨hbracket, hequals, hkey, rfl⟩
      have hother : ¬∀ other, ¬(true = true ∧ IniPair key other line) := fun h => h _ ⟨rfl, hpair⟩
      rw [or_iff_left fun h => hother h.1, and_iff_right (rfl : true = true)]
      generalize ((updateTrim line).dropWhile (· ≠ 61)).tail.dropWhile updateIsSpace = first at hpair ⊢
      by_cases hroom : first.length + 1 > capacity
      · rw [if_pos hroom]
        refine iff_of_false (Option.some_ne_none value).symm ?_
        rintro ⟨hvalue, hfits⟩
        obtain rfl := hvalue.unique hpair
        omega
      · rw [if_neg hroom, Option.some_inj]
        constructor
        · rintro rfl
          exact ⟨hpair, by omega⟩
        · rintro ⟨hvalue, -⟩
          exact (hvalue.unique hpair).symm

theorem iniFirst_from : IniFirst sect key value lines ↔ IniFirstFrom sect key value false lines := by
  simp only [IniFirst, IniFirstFrom, iniAt_iff]

theorem IniFirst.unique {value' : Bytes} (h : IniFirst sect key value lines) (h' : IniFirst sect key value' lines) :
    value = value' := by
  obtain ⟨i, ⟨⟨line, hline, hpair⟩, hunder⟩, hfirst⟩ := h
  obtain ⟨j, ⟨⟨line', hline', hpair'⟩, hunder'⟩, hfirst'⟩ := h'
  obtain hlt | rfl | hgt := lt_trichotomy i j
  · exact absurd ⟨⟨line, hline, hpair⟩, hunder⟩ (hfirst' i hlt value)
  · obtain rfl := Option.some_inj.1 (hline.symm.trans hline')
    exact hpair.unique hpair'
  · exact absurd ⟨⟨line', hline', hpair'⟩, hunder'⟩ (hfirst j hgt value')

end

/-! ## The buffers -/

/-- A value and its NUL, written over the front of a buffer. -/
def updateWritten (output value : Bytes) : Bytes := value ++ 0 :: output.drop (value.length + 1)

section

variable {text sect key output : Bytes} {length capacity start stop : ℕ} {inSection : Bool} {cursor : UpdateCursor}
  {R : Empty → UpdateCursor → Prop}

theorem post_updatePut {i : ℕ} {b : UInt8} {Q : Unit → UpdateCursor → Prop} :
    Post (updatePut capacity i b) cursor Q R ↔
      i < capacity ∧ Q () { cursor with output := cursor.output.set i b } := by
  rw [updatePut, post_bind, post_check, post_modify]

/-- The loop that copies a stretch of the text. -/
theorem post_iniCopy (cursor : UpdateCursor) (hstop : stop ≤ length) (hlength : length ≤ text.length) (hstart : start ≤ stop)
    (hroom : stop - start ≤ capacity) (hcapacity : cursor.output.length = capacity) :
    Post ((List.range (stop - start)).foldlM (fun _ index => do
        let b ← byte text length (start + index)
        updatePut capacity index b) ()) cursor
      (fun _ after => after =
        { cursor with output := slice text start stop ++ cursor.output.drop (stop - start) }) R := by
  have hcopy := post_foldlM_range (R := R) (s := cursor) (a := ())
    (f := fun (_ : Unit) index => do
      let b ← byte text length (start + index)
      updatePut capacity index b)
    (I := fun k _ after => after =
      { cursor with output := slice text start (start + k) ++ cursor.output.drop k }) (stop - start) ?_ ?_
  · rw [Nat.add_sub_cancel' hstart] at hcopy
    exact hcopy
  · rintro k hk _ _ rfl
    have hfront : (slice text start (start + k)).length = k := by
      rw [slice_length (by omega)]
      omega
    have hset := set_behind (slice text start (start + k)) cursor.output (text.at' (start + k)) (by omega)
    rw [hfront, ← slice_snoc (by omega) (by omega)] at hset
    rw [post_bind, post_byte, post_updatePut]
    refine ⟨by omega, by omega, ?_⟩
    rw [hset]
    rfl
  · rw [Nat.add_zero, slice_self, List.drop_zero, List.nil_append]

/-- What the loop over the positions answers for a line with a value. -/
def iniPairAnswer (text : Bytes) (start stop : ℕ) (key : Bytes) (capacity : ℕ) : Option (Option Bytes) :=
  let equals := up (· != 61) text stop start
  if equals = stop then none
  else if !updateSpanEquals (slice text start (down updateIsSpace text start equals)) key then none
  else
    let valueStart := up updateIsSpace text stop (equals + 1)
    if stop - valueStart + 1 > capacity then some none else some (some (slice text valueStart stop))

theorem post_updateIniPair (cursor : UpdateCursor) (hlength : length ≤ text.length) (hstop : stop ≤ length) (hstart : start ≤ stop)
    (hkey : 0 ∉ key) (hcapacity : cursor.output.length = capacity) :
    Post (updateIniPair text length start stop key capacity) cursor
      (fun found after => found = (iniPairAnswer text start stop key capacity).map Option.isSome ∧
        after = { cursor with output :=
          ((iniPairAnswer text start stop key capacity).join.map (updateWritten cursor.output)).getD cursor.output }) R := by
  have hlow : start ≤ up (· != 61) text stop start := le_up _ _ _ _
  have hhigh : up (· != 61) text stop start ≤ stop := up_le hstart
  rw [updateIniPair, iniPairAnswer, post_bind, post_upRead hstop]
  dsimp only
  generalize up (· != 61) text stop start = equals at *
  by_cases hend : equals = stop
  · rw [if_pos hend, if_pos hend, post_pure]
    exact ⟨rfl, rfl⟩
  have hfirst := down_le updateIsSpace text start equals
  have hback : start ≤ down updateIsSpace text start equals := le_down hlow
  rw [if_neg hend, if_neg hend, post_bind, post_downRead (by omega), post_bind, updateSpanRead,
    post_equalRead (by omega) hlength hkey, Nat.add_sub_cancel' hback]
  change Post (if !updateSpanEquals (slice text start (down updateIsSpace text start equals)) key then _ else _) _ _ _
  cases updateSpanEquals (slice text start (down updateIsSpace text start equals)) key with
  | false => exact post_pure.2 ⟨rfl, rfl⟩
  | true =>
    have hvalue : equals + 1 ≤ up updateIsSpace text stop (equals + 1) := le_up _ _ _ _
    have hvalueStop : up updateIsSpace text stop (equals + 1) ≤ stop := up_le (by omega)
    rw [Bool.not_true, if_neg Bool.false_ne_true, if_neg Bool.false_ne_true, post_bind, post_upRead hstop]
    generalize up updateIsSpace text stop (equals + 1) = valueStart at *
    by_cases hroom : stop - valueStart + 1 > capacity
    · rw [if_pos hroom, if_pos hroom, post_pure]
      exact ⟨rfl, rfl⟩
    rw [if_neg hroom, if_neg hroom, post_bind]
    refine (post_iniCopy cursor hstop hlength hvalueStop (by omega) hcapacity).imp ?_ fun _ _ h => h
    rintro _ _ rfl
    have hsize : (slice text valueStart stop).length = stop - valueStart := slice_length (by omega)
    have hset := set_behind (slice text valueStart stop) cursor.output 0 (by omega)
    rw [hsize] at hset
    rw [post_bind, post_updatePut, post_pure]
    refine ⟨by omega, rfl, ?_⟩
    rw [hset, List.append_assoc, ← hsize]
    rfl

/-- A header's brackets hold the section's name. -/
theorem post_updateIniHeader {Q : Bool → UpdateCursor → Prop} (hlength : length ≤ text.length) (hstop : stop ≤ length)
    (hstart : start < stop) (hbracket : text.at' start = 91) (hsect : 0 ∉ sect) :
    Post (updateIniHeader text length start stop sect) cursor Q R ↔
      Q (text.at' (stop - 1) == 93 && updateSpanEquals (slice text (start + 1) (stop - 1)) sect) cursor := by
  rw [updateIniHeader, post_bind, post_byte, and_iff_right (by omega)]
  by_cases hlast : text.at' (stop - 1) = 93
  · -- the closing bracket is not the opening one
    have hne : start ≠ stop - 1 := fun h => by
      rw [← h, hbracket] at hlast
      exact absurd hlast (by decide)
    have hspan : start + 1 + (stop - start - 2) = stop - 1 := by omega
    rw [if_pos hlast, updateSpanRead, post_equalRead (by omega) hlength hsect, hspan, hlast]
    rfl
  · rw [if_neg hlast, post_pure, beq_eq_false_iff_ne.2 hlast, Bool.false_and]

/-- The loop over the positions, a turn of it. -/
theorem updateIniLoop_turn {position : ℕ} (h : position < length) :
    updateIniLoop text length sect key capacity position inSection =
      (let next := updateNextLine text length position
      let lineEnd := updateLineEnd text length position
      let start := up updateIsSpace text lineEnd position
      let stop := down updateIsSpace text start lineEnd
      if start = stop then updateIniLoop text length sect key capacity next inSection
      else if text.at' start = 91 then
        updateIniLoop text length sect key capacity next
          (text.at' (stop - 1) == 93 && updateSpanEquals (slice text (start + 1) (stop - 1)) sect)
      else if !inSection then updateIniLoop text length sect key capacity next inSection
      else
        match iniPairAnswer text start stop key capacity with
        | none => updateIniLoop text length sect key capacity next inSection
        | some answer => answer) := by
  rw [updateIniLoop, dif_pos h]
  dsimp only [iniPairAnswer]
  split_ifs <;> rfl

/-- **A turn of the loop** answers, or leaves the answer to the turns behind it. -/
theorem post_updateIniTurn {answer : Option Bytes} (hlength : length ≤ text.length) (hsect : 0 ∉ sect) (hkey : 0 ∉ key)
    (hcapacity : output.length = capacity) (houtput : cursor.output = output)
    (hanswer : updateIniLoop text length sect key capacity cursor.position inSection = answer) :
    Post (updateIniTurn text length sect key capacity inSection) cursor
      (fun turn after => turn.elim
        (fun inSection => (after.output = output ∧
          updateIniLoop text length sect key capacity after.position inSection = answer) ∧
            length - after.position < length - cursor.position)
        fun found => found = answer.isSome ∧ after.output = (answer.map (updateWritten output)).getD output) R := by
  subst houtput
  rw [updateIniTurn, post_bind, post_get, post_ite]
  refine ⟨fun hmore => ?_, fun hdone => ?_⟩
  swap
  · rw [updateIniLoop, dif_neg hdone] at hanswer
    subst hanswer
    exact post_pure.2 ⟨rfl, rfl⟩
  have hnext : cursor.position < updateNextLine text length cursor.position := updateNextLine_gt hmore
  rw [updateIniLoop_turn hmore] at hanswer
  have hlow : cursor.position ≤ up (· != 10) text length cursor.position := le_up _ _ _ _
  have hhigh : up (· != 10) text length cursor.position ≤ length := up_le hmore.le
  have hback : cursor.position ≤ up updateIsSpace text (up (· != 10) text length cursor.position) cursor.position :=
    le_up _ _ _ _
  have hfront : up updateIsSpace text (up (· != 10) text length cursor.position) cursor.position ≤
    up (· != 10) text length cursor.position := up_le hlow
  rw [post_bind, post_upRead le_rfl, post_bind, post_modify, post_bind, post_upRead hhigh, post_bind, post_downRead hhigh]
  dsimp only at hanswer ⊢
  rw [updateNextLine] at hnext hanswer
  rw [updateLineEnd] at hnext hanswer
  generalize hlineEnd : up (· != 10) text length cursor.position = lineEnd at *
  generalize up updateIsSpace text lineEnd cursor.position = start at *
  have hstop : down updateIsSpace text start lineEnd ≤ lineEnd := down_le _ _ _ _
  have hstart : start ≤ down updateIsSpace text start lineEnd := le_down hfront
  generalize down updateIsSpace text start lineEnd = stop at *
  generalize (if lineEnd < length then lineEnd + 1 else lineEnd) = next at *
  have hgets : length - next < length - cursor.position := by omega
  by_cases hempty : start = stop
  · rw [if_pos hempty] at hanswer
    rw [if_pos hempty, post_pure]
    exact ⟨⟨rfl, hanswer⟩, hgets⟩
  rw [if_neg hempty] at hanswer
  rw [if_neg hempty, post_bind, post_byte, and_iff_right (by omega)]
  by_cases hbracket : text.at' start = 91
  · rw [if_pos hbracket] at hanswer
    rw [if_pos hbracket, post_bind, post_updateIniHeader hlength (by omega) (by omega) hbracket hsect, post_pure]
    exact ⟨⟨rfl, hanswer⟩, hgets⟩
  rw [if_neg hbracket] at hanswer
  rw [if_neg hbracket]
  cases inSection with
  | false => exact post_pure.2 ⟨⟨rfl, hanswer⟩, hgets⟩
  | true =>
    rw [Bool.not_true, if_neg Bool.false_ne_true] at hanswer
    rw [Bool.not_true, if_neg Bool.false_ne_true, post_bind]
    refine (post_updateIniPair { cursor with position := next } hlength (by omega) hstart hkey hcapacity).imp
      ?_ fun _ _ h => h
    rintro _ _ ⟨rfl, rfl⟩
    cases hpair : iniPairAnswer text start stop key capacity with
    | none =>
      rw [hpair] at hanswer
      exact post_pure.2 ⟨⟨rfl, hanswer⟩, hgets⟩
    | some found =>
      rw [hpair] at hanswer
      subst hanswer
      exact post_pure.2 ⟨rfl, rfl⟩

/-- **The reader with its buffers** is not stuck, and answers as the loop over the positions. -/
theorem post_updateIniRun (hlength : length ≤ text.length) (hsect : 0 ∉ sect) (hkey : 0 ∉ key)
    (hcapacity : cursor.output.length = capacity) :
    Post (updateIniRun text length sect key capacity) cursor
      (fun found after => found = (updateIniRead text length sect key capacity).isSome ∧ after.output =
        if capacity = 0 then cursor.output
        else ((updateIniRead text length sect key capacity).map (updateWritten cursor.output)).getD
          (0 :: cursor.output.tail)) R := by
  rw [updateIniRun, updateIniRead]
  by_cases hzero : capacity = 0
  · rw [if_pos hzero, if_pos hzero, if_pos hzero, post_pure]
    exact ⟨rfl, rfl⟩
  rw [if_neg hzero, if_neg hzero, if_neg hzero, post_bind, post_updatePut, post_bind, post_modify]
  refine ⟨by omega, ?_⟩
  have hset : cursor.output.set 0 0 = 0 :: cursor.output.tail := by
    cases houtput : cursor.output with
    | nil =>
      rw [houtput] at hcapacity
      exact absurd hcapacity.symm hzero
    | cons c rest => rfl
  dsimp only
  rw [hset]
  have hwhole : (0 :: cursor.output.tail).length = capacity := by
    rw [← hset, List.length_set, hcapacity]
  refine (post_loop (I := fun inSection after => after.output = 0 :: cursor.output.tail ∧
    updateIniLoop text length sect key capacity after.position inSection =
      updateIniLoop text length sect key capacity 0 false)
    (fun inSection after h => post_updateIniTurn hlength hsect hkey hwhole h.1 h.2) ⟨rfl, rfl⟩).imp ?_ fun _ _ h => h
  rintro found after ⟨hfound, houtput⟩
  have hwritten : updateWritten (0 :: cursor.output.tail) = updateWritten cursor.output := by
    funext value
    rw [updateWritten, updateWritten, List.drop_succ_cons, List.drop_tail]
  rw [hwritten] at houtput
  exact ⟨hfound, houtput⟩

/-- The value that is read is the first one, where it has room. -/
theorem updateIniRead_first {value : Bytes} (hlength : length ≤ text.length) :
    updateIniRead text length sect key capacity = some value ↔
      IniFirst sect key value ((text.take length).splitOn 10) ∧ value.length < capacity := by
  rw [updateIniRead_eq hlength, updateIniValue, iniFirst_from]
  by_cases hzero : capacity = 0
  · rw [if_pos hzero]
    exact iff_of_false (Option.some_ne_none value).symm fun h => by omega
  · rw [if_neg hzero, updateIniLines_first]

/-- **The INI reader** finds the first value of the section and the key in the lines of the bytes it was
given. It says so when the value fits with its NUL, and then has written it; it reads no other byte of
the text, and writes nothing behind the capacity. -/
theorem updateIniRun_first (text sect key : Bytes) (length capacity : ℕ) (cursor : UpdateCursor)
    (hlength : length ≤ text.length) (hsect : 0 ∉ sect) (hkey : 0 ∉ key) (hcapacity : cursor.output.length = capacity) :
    ∃ found after, updateIniRun text length sect key capacity cursor = some (.ok found, after) ∧
      after.output.length = capacity ∧
      (found = true ↔ ∃ value, IniFirst sect key value ((text.take length).splitOn 10) ∧ value.length < capacity) ∧
      (∀ value, IniFirst sect key value ((text.take length).splitOn 10) →
        if value.length < capacity then found = true ∧ after.output = value ++ 0 :: cursor.output.drop (value.length + 1)
        else found = false) ∧
      (found = false → after.output = if capacity = 0 then cursor.output else 0 :: cursor.output.tail) := by
  have hrun := (post_updateIniRun (R := fun _ _ => False) hlength hsect hkey hcapacity).run
  obtain ⟨r, after, hrun, hend⟩ := hrun
  cases r with
  | error e => exact e.elim
  | ok found =>
    obtain ⟨hfound, houtput⟩ := hend
    have hread : ∀ value, updateIniRead text length sect key capacity = some value ↔
        IniFirst sect key value ((text.take length).splitOn 10) ∧ value.length < capacity :=
      fun _ => updateIniRead_first hlength
    refine ⟨found, after, hrun, ?_, ?_, ?_, ?_⟩
    · rw [houtput]
      split
      · exact hcapacity
      cases hvalue : updateIniRead text length sect key capacity with
      | none =>
        rw [Option.map_none, Option.getD_none, List.length_cons, List.length_tail]
        omega
      | some value =>
        have hfits := ((hread value).1 hvalue).2
        rw [Option.map_some, Option.getD_some, updateWritten, List.length_append, List.length_cons, List.length_drop]
        omega
    · rw [hfound, Option.isSome_iff_exists]
      exact exists_congr hread
    · intro value hvalue
      split
      · rename_i hfits
        have hzero : ¬capacity = 0 := by omega
        rw [(hread value).2 ⟨hvalue, hfits⟩] at hfound houtput
        rw [if_neg hzero] at houtput
        exact ⟨hfound, houtput⟩
      · rename_i hlarge
        rw [hfound, Option.isSome_eq_false_iff, Option.isNone_iff_eq_none, Option.eq_none_iff_forall_ne_some]
        intro other hother
        obtain ⟨hfirst, hfits⟩ := (hread other).1 hother
        obtain rfl := hvalue.unique hfirst
        exact hlarge hfits
    · intro hnot
      rw [hfound, Option.isSome_eq_false_iff, Option.isNone_iff_eq_none] at hnot
      rw [hnot] at houtput
      exact houtput

/-- The value of a release's text, read into twelve bytes. -/
theorem updateIniRun_first_demo :
    let text := ascii "[Release]\r\nVersion = 0.13.1 \r\n"
    ∃ found after, updateIniRun text 30 (ascii "release") (ascii "version") 12 ⟨0, List.replicate 12 255⟩ =
        some (.ok found, after) ∧ after.output.length = 12 ∧
      (found = true ↔ ∃ value, IniFirst (ascii "release") (ascii "version") value ((text.take 30).splitOn 10) ∧
        value.length < 12) ∧
      (∀ value, IniFirst (ascii "release") (ascii "version") value ((text.take 30).splitOn 10) →
        if value.length < 12 then
          found = true ∧ after.output = value ++ 0 :: (List.replicate 12 255).drop (value.length + 1)
        else found = false) ∧
      (found = false → after.output = if 12 = 0 then List.replicate 12 255 else 0 :: (List.replicate 12 255).tail) :=
  updateIniRun_first (ascii "[Release]\r\nVersion = 0.13.1 \r\n") (ascii "release") (ascii "version") 30 12
    ⟨0, List.replicate 12 255⟩ (by decide) (by decide) (by decide) (by decide)

end

end V9xRemote
