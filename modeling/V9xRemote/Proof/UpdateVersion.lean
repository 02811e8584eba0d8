import V9xRemote.Proof.UpdateRelease
import Mathlib.Data.Prod.Lex

/-!
# The order of versions

A text is a version when it is two or three short numbers with dots between them, after an
optional `v`. `VersionText` is that grammar; the parser accepts it and nothing else, and the
comparison is the lexicographic order of the numbers.
-/

namespace V9xRemote

open Bytes

/-! ## The grammar -/

/-- One to five decimal digits of at most 65535. -/
structure VersionNumber (digits : Bytes) : Prop where
  decimal : ∀ c ∈ digits, decimalDigit c
  one : 1 ≤ digits.length
  five : digits.length ≤ 5
  small : undecimal digits ≤ 65535

/-- The text of a version. A third number that is missing is 0. -/
structure VersionText (text : Bytes) (version : UpdateVersion) : Prop where
  spelled : ∃ mark numbers, (mark = [] ∨ mark = ascii "v" ∨ mark = ascii "V") ∧
    (∀ digits ∈ numbers, VersionNumber digits) ∧ text = mark ++ [46].intercalate numbers ∧
    (numbers.map undecimal = [version.major, version.minor] ∧ version.patch = 0 ∨
      numbers.map undecimal = [version.major, version.minor, version.patch])

/-- The numbers of a version in their lexicographic order. -/
def UpdateVersion.key (version : UpdateVersion) : Lex (ℕ × Lex (ℕ × ℕ)) :=
  toLex (version.major, toLex (version.minor, version.patch))

theorem updateIsDigit_iff (c : UInt8) : updateIsDigit c = true ↔ decimalDigit c := by
  rw [updateIsDigit, Bool.and_eq_true, decide_eq_true_iff, decide_eq_true_iff]
  rfl

/-! ## The parser -/

/-- The number that starts a text, after `count` digits with the value `value`. -/
theorem updateVersionPart_iff (text rest : Bytes) (value count number : ℕ) :
    updateVersionPart text value count = some (number, rest) ↔ ∃ digits, text = digits ++ rest ∧
      (∀ c ∈ digits, decimalDigit c) ∧ (∀ c ∈ rest.head?, ¬decimalDigit c) ∧ 1 ≤ count + digits.length ∧
      undecimalFrom value digits = number ∧ (digits = [] ∨ count + digits.length ≤ 5 ∧ number ≤ 65535) := by
  induction text generalizing value count with
  | nil =>
    rw [updateVersionPart]
    constructor
    · intro h
      split at h
      · cases h
      · cases h
        exact ⟨[], rfl, List.forall_mem_nil _, nofun, by rw [List.length_nil]; omega, rfl, Or.inl rfl⟩
    · rintro ⟨digits, htext, -, -, hone, hvalue, -⟩
      obtain ⟨rfl, rfl⟩ := List.append_eq_nil_iff.1 htext.symm
      rw [List.length_nil] at hone
      rw [if_neg (by omega), ← hvalue]
      rfl
  | cons c text ih =>
    rw [updateVersionPart]
    dsimp only
    by_cases hdigit : decimalDigit c
    · have hnext : value * 10 + (c.toNat - 48) = 10 * value + (c.toNat - 48) := by omega
      rw [if_pos ((updateIsDigit_iff c).2 hdigit), hnext]
      by_cases hlarge : count + 1 > 5 ∨ 10 * value + (c.toNat - 48) > 65535
      · rw [if_pos hlarge]
        refine iff_of_false nofun ?_
        rintro ⟨digits, htext, -, hhead, hone, hvalue, hfits⟩
        cases digits with
        | nil =>
          -- the number would have to end before a digit
          rw [List.nil_append] at htext
          exact hhead c (by rw [← htext]; rfl) hdigit
        | cons d digits =>
          obtain ⟨rfl, -⟩ := List.cons_eq_cons.1 htext
          obtain ⟨hfive, hsmall⟩ := hfits.resolve_left (List.cons_ne_nil c digits)
          have hle := le_undecimalFrom (10 * value + (c.toNat - 48)) digits
          have hsum : undecimalFrom (10 * value + (c.toNat - 48)) digits = number := hvalue
          rw [List.length_cons] at hfive
          omega
      rw [if_neg hlarge, ih]
      constructor
      · rintro ⟨digits, rfl, hall, hhead, -, hvalue, hfits⟩
        refine ⟨c :: digits, rfl, List.forall_mem_cons.2 ⟨hdigit, hall⟩, hhead, by rw [List.length_cons]; omega,
          hvalue, Or.inr ?_⟩
        rw [List.length_cons]
        rcases hfits with rfl | hfits
        · rw [List.length_nil]
          have hsame : 10 * value + (c.toNat - 48) = number := hvalue
          omega
        · omega
      · rintro ⟨digits, htext, hall, hhead, -, hvalue, hfits⟩
        cases digits with
        | nil =>
          rw [List.nil_append] at htext
          exact absurd hdigit (hhead c (by rw [← htext]; rfl))
        | cons d digits =>
          obtain ⟨rfl, rfl⟩ := List.cons_eq_cons.1 htext
          obtain ⟨hfive, hsmall⟩ := hfits.resolve_left (List.cons_ne_nil c digits)
          rw [List.length_cons] at hfive
          exact ⟨digits, rfl, fun b hb => hall b (List.mem_cons_of_mem _ hb), hhead, by omega, hvalue,
            Or.inr ⟨by omega, hsmall⟩⟩
    · rw [if_neg (mt (updateIsDigit_iff c).1 hdigit)]
      constructor
      · intro h
        split at h
        · cases h
        · cases h
          exact ⟨[], rfl, List.forall_mem_nil _, fun b hb => by cases hb; exact hdigit,
            by rw [List.length_nil]; omega, rfl, Or.inl rfl⟩
      · rintro ⟨digits, htext, hall, -, hone, hvalue, -⟩
        cases digits with
        | nil =>
          rw [List.nil_append] at htext
          rw [List.length_nil] at hone
          rw [if_neg (by omega), ← hvalue, ← htext]
          rfl
        | cons d digits =>
          obtain ⟨rfl, -⟩ := List.cons_eq_cons.1 htext
          exact absurd (hall c List.mem_cons_self) hdigit

/-- **The number that starts a text** is all the digits there. -/
theorem updateVersionPart_number (text rest : Bytes) (number : ℕ) :
    updateVersionPart text 0 0 = some (number, rest) ↔ ∃ digits, VersionNumber digits ∧ text = digits ++ rest ∧
      (∀ c ∈ rest.head?, ¬decimalDigit c) ∧ undecimal digits = number := by
  rw [updateVersionPart_iff]
  constructor
  · rintro ⟨digits, htext, hall, hhead, hone, hvalue, hfits⟩
    rw [Nat.zero_add] at hone
    have hne : digits ≠ [] := List.ne_nil_of_length_pos hone
    obtain ⟨hfive, hsmall⟩ := hfits.resolve_left hne
    rw [Nat.zero_add] at hfive
    exact ⟨digits, ⟨hall, hone, hfive, hvalue.trans_le hsmall⟩, htext, hhead, hvalue⟩
  · rintro ⟨digits, hnumber, htext, hhead, hvalue⟩
    refine ⟨digits, htext, hnumber.decimal, hhead, ?_, hvalue, Or.inr ⟨?_, hvalue ▸ hnumber.small⟩⟩
    · rw [Nat.zero_add]
      exact hnumber.one
    · rw [Nat.zero_add]
      exact hnumber.five

/-- The numbers of a version, at most `left` of them. -/
theorem updateVersionParts_iff (left : ℕ) (text : Bytes) (values : List ℕ) :
    updateVersionParts left text = some values ↔ ∃ numbers, 1 ≤ numbers.length ∧ numbers.length ≤ left ∧
      (∀ digits ∈ numbers, VersionNumber digits) ∧ text = [46].intercalate numbers ∧
      numbers.map undecimal = values := by
  induction left generalizing text values with
  | zero =>
    rw [updateVersionParts]
    exact iff_of_false nofun fun ⟨numbers, hone, hleft, _⟩ => by omega
  | succ left ih =>
    have hdot : ¬decimalDigit 46 := by decide
    rw [updateVersionParts]
    constructor
    · intro h
      obtain ⟨⟨number, rest⟩, hpart, hrest⟩ := Option.bind_eq_some_iff.1 h
      obtain ⟨digits, hnumber, rfl, -, rfl⟩ := (updateVersionPart_number _ _ _).1 hpart
      cases rest with
      | nil =>
        cases hrest
        refine ⟨[digits], le_rfl, by rw [List.length_singleton]; omega, List.forall_mem_singleton.2 hnumber, ?_, rfl⟩
        rw [List.intercalate_singleton, List.append_nil]
      | cons c rest =>
        dsimp only at hrest
        by_cases hc : c = 46
        swap
        · rw [if_pos hc] at hrest
          cases hrest
        rw [if_neg (not_not.2 hc)] at hrest
        obtain ⟨values', hvalues, rfl⟩ := Option.map_eq_some_iff.1 hrest
        obtain ⟨numbers, hone, hleft, hall, rfl, rfl⟩ := (ih rest values').1 hvalues
        refine ⟨digits :: numbers, by rw [List.length_cons]; omega, by rw [List.length_cons]; omega,
          List.forall_mem_cons.2 ⟨hnumber, hall⟩, ?_, rfl⟩
        rw [List.intercalate_cons_of_ne_nil (List.ne_nil_of_length_pos hone), hc, List.append_assoc]
        rfl
    · rintro ⟨numbers, hone, hleft, hall, rfl, rfl⟩
      cases numbers with
      | nil => rw [List.length_nil] at hone; omega
      | cons digits numbers =>
        obtain ⟨hnumber, hall⟩ := List.forall_mem_cons.1 hall
        rw [List.length_cons] at hleft
        refine Option.bind_eq_some_iff.2 ?_
        cases numbers with
        | nil =>
          refine ⟨(undecimal digits, []), (updateVersionPart_number _ _ _).2 ⟨digits, hnumber, ?_, nofun, rfl⟩, rfl⟩
          rw [List.intercalate_singleton, List.append_nil]
        | cons next numbers =>
          refine ⟨(undecimal digits, 46 :: [46].intercalate (next :: numbers)),
            (updateVersionPart_number _ _ _).2 ⟨digits, hnumber, ?_, ?_, rfl⟩, ?_⟩
          · rw [List.intercalate_cons_of_ne_nil (List.cons_ne_nil next numbers), List.append_assoc]
            rfl
          · intro c hc
            cases hc
            exact hdot
          · have htail := (ih ([46].intercalate (next :: numbers)) ((next :: numbers).map undecimal)).2
              ⟨next :: numbers, by rw [List.length_cons]; omega, by omega, hall, rfl, rfl⟩
            dsimp only
            rw [if_neg (by decide), htail]
            rfl

/-- The text behind the mark. -/
theorem versionMark (text : Bytes) :
    ∃ mark, (mark = [] ∨ mark = ascii "v" ∨ mark = ascii "V") ∧
      text = mark ++ (if text.head? = some 118 ∨ text.head? = some 86 then text.tail else text) := by
  split
  · rename_i hmark
    cases text with
    | nil => rcases hmark with h | h <;> cases h
    | cons c text =>
      rw [List.head?_cons, Option.some_inj, Option.some_inj] at hmark
      refine ⟨[c], Or.inr ?_, rfl⟩
      rcases hmark with rfl | rfl
      · exact Or.inl rfl
      · exact Or.inr rfl
  · exact ⟨[], Or.inl rfl, rfl⟩

/-- A number does not start with a mark. -/
theorem versionMark_numbers {mark : Bytes} {numbers : List Bytes}
    (hmark : mark = [] ∨ mark = ascii "v" ∨ mark = ascii "V")
    (hone : 1 ≤ numbers.length) (hall : ∀ digits ∈ numbers, VersionNumber digits) :
    let text := mark ++ [46].intercalate numbers
    (if text.head? = some 118 ∨ text.head? = some 86 then text.tail else text) = [46].intercalate numbers := by
  dsimp only
  rcases hmark with rfl | rfl | rfl
  · cases numbers with
    | nil => rw [List.length_nil] at hone; omega
    | cons digits numbers =>
      have hnumber := hall digits List.mem_cons_self
      cases digits with
      | nil => exact absurd hnumber.one (by decide)
      | cons c digits =>
        have hhead : ([46].intercalate ((c :: digits) :: numbers)).head? = some c := by
          cases numbers with
          | nil => rw [List.intercalate_singleton, List.head?_cons]
          | cons next numbers =>
            rw [List.intercalate_cons_of_ne_nil (List.cons_ne_nil next numbers)]
            rfl
        have hdigit : decimalDigit c := hnumber.decimal c List.mem_cons_self
        rw [List.nil_append, hhead, if_neg]
        rintro (h | h)
        · cases h
          exact absurd hdigit (by decide)
        · cases h
          exact absurd hdigit (by decide)
  · exact if_pos (Or.inl rfl)
  · exact if_pos (Or.inr rfl)

/-- **The parser accepts the grammar**, with the numbers the text stands for. -/
theorem updateVersionParse_iff (text : Bytes) (version : UpdateVersion) :
    updateVersionParse text = some version ↔ VersionText text version := by
  rw [updateVersionParse]
  constructor
  · intro h
    obtain ⟨mark, hmark, htext⟩ := versionMark text
    generalize (if text.head? = some 118 ∨ text.head? = some 86 then text.tail else text) = digits at h htext
    split at h
    · rename_i major minor hparts
      cases h
      obtain ⟨numbers, -, -, hall, rfl, hvalues⟩ := (updateVersionParts_iff _ _ _).1 hparts
      exact ⟨mark, numbers, hmark, hall, htext, Or.inl ⟨hvalues, rfl⟩⟩
    · rename_i major minor patch hparts
      cases h
      obtain ⟨numbers, -, -, hall, rfl, hvalues⟩ := (updateVersionParts_iff _ _ _).1 hparts
      exact ⟨mark, numbers, hmark, hall, htext, Or.inr hvalues⟩
    · cases h
  · rintro ⟨mark, numbers, hmark, hall, rfl, hvalues⟩
    have hlength : numbers.length = 2 ∨ numbers.length = 3 := by
      rcases hvalues with ⟨h, -⟩ | h
      · exact Or.inl (by rw [← List.length_map undecimal, h]; rfl)
      · exact Or.inr (by rw [← List.length_map undecimal, h]; rfl)
    have hparts := (updateVersionParts_iff 3 ([46].intercalate numbers) (numbers.map undecimal)).2
      ⟨numbers, by omega, by omega, hall, rfl, rfl⟩
    rw [versionMark_numbers hmark (by omega) hall, hparts]
    rcases hvalues with ⟨h, hzero⟩ | h
    · rw [h]
      dsimp only
      rw [← hzero]
    · rw [h]

theorem updateVersionParse_none (text : Bytes) : updateVersionParse text = none ↔ ¬∃ version, VersionText text version := by
  simp only [← updateVersionParse_iff, not_exists]
  exact Option.eq_none_iff_forall_ne_some

/-! ## The comparison -/

theorem UpdateVersion.key_lt (a b : UpdateVersion) : a.key < b.key ↔
    a.major < b.major ∨ a.major = b.major ∧ (a.minor < b.minor ∨ a.minor = b.minor ∧ a.patch < b.patch) := by
  rw [key, key, Prod.Lex.toLex_lt_toLex, Prod.Lex.toLex_lt_toLex]

theorem UpdateVersion.key_injective : Function.Injective UpdateVersion.key := fun a b h => by
  cases a
  cases b
  cases h
  rfl

/-- Two versions compare as their numbers do. -/
theorem updateVersionCompare_eq {left right : Bytes} {a b : UpdateVersion} (hleft : VersionText left a)
    (hright : VersionText right b) :
    updateVersionCompare left right = if a.key < b.key then -1 else if b.key < a.key then 1 else 0 := by
  rw [updateVersionCompare, (updateVersionParse_iff _ _).2 hleft, (updateVersionParse_iff _ _).2 hright]
  dsimp only
  simp only [UpdateVersion.key_lt]
  split_ifs <;> first | rfl | omega

theorem updateVersionCompare_refused (left right : Bytes) :
    updateVersionCompare left right = -2 ↔ ¬((∃ a, VersionText left a) ∧ ∃ b, VersionText right b) := by
  constructor
  · rintro h ⟨⟨a, ha⟩, b, hb⟩
    rw [updateVersionCompare_eq ha hb] at h
    split_ifs at h
    cases h
  · intro h
    rw [updateVersionCompare]
    cases hleft : updateVersionParse left with
    | none => rfl
    | some a =>
      cases hright : updateVersionParse right with
      | none => rfl
      | some b => exact absurd ⟨⟨a, (updateVersionParse_iff _ _).1 hleft⟩, b, (updateVersionParse_iff _ _).1 hright⟩ h

/-- A comparison that does not fail is of two versions. -/
theorem updateVersionCompare_texts {left right : Bytes} (h : updateVersionCompare left right ≠ -2) :
    ∃ a b, VersionText left a ∧ VersionText right b := by
  obtain ⟨⟨a, ha⟩, b, hb⟩ := not_not.1 (mt (updateVersionCompare_refused left right).2 h)
  exact ⟨a, b, ha, hb⟩

theorem updateVersionCompare_le {left right : Bytes} {a b : UpdateVersion} (hleft : VersionText left a)
    (hright : VersionText right b) : updateVersionCompare left right ≤ 0 ↔ a.key ≤ b.key := by
  rw [updateVersionCompare_eq hleft hright]
  split_ifs with hlt hgt
  · exact iff_of_true (by decide) hlt.le
  · exact iff_of_false (by decide) hgt.not_ge
  · exact iff_of_true le_rfl (not_lt.1 hgt)

/-- **Versions are in a total order**: the comparison refuses the texts outside the grammar and
is the lexicographic order of the numbers on those in it. -/
theorem updateVersionCompare_order :
    (∀ left right, updateVersionCompare left right = -2 ↔ ¬((∃ a, VersionText left a) ∧ ∃ b, VersionText right b)) ∧
    (∀ text a b, VersionText text a → VersionText text b → a = b) ∧
    (∀ left right a b, VersionText left a → VersionText right b →
      updateVersionCompare left right = if a.key < b.key then -1 else if b.key < a.key then 1 else 0) ∧
    (∀ left right, updateVersionCompare left right = 1 →
      ∃ a b, VersionText left a ∧ VersionText right b ∧ b.key < a.key) ∧
    (∀ text a, VersionText text a → updateVersionCompare text text = 0) ∧
    (∀ left right a b, VersionText left a → VersionText right b → updateVersionCompare left right ≤ 0 →
      updateVersionCompare right left ≤ 0 → a = b ∧ updateVersionCompare left right = 0) ∧
    (∀ first second third a b c, VersionText first a → VersionText second b → VersionText third c →
      updateVersionCompare first second ≤ 0 → updateVersionCompare second third ≤ 0 →
      updateVersionCompare first third ≤ 0) ∧
    (∀ left right a b, VersionText left a → VersionText right b →
      updateVersionCompare left right ≤ 0 ∨ updateVersionCompare right left ≤ 0) := by
  refine ⟨updateVersionCompare_refused, ?_, fun _ _ _ _ => updateVersionCompare_eq, ?_, ?_, ?_, ?_, ?_⟩
  · intro text a b ha hb
    rw [← updateVersionParse_iff] at ha hb
    exact Option.some_inj.1 (ha.symm.trans hb)
  · intro left right h
    have hne : updateVersionCompare left right ≠ -2 := by
      rw [h]
      decide
    obtain ⟨a, b, ha, hb⟩ := updateVersionCompare_texts hne
    refine ⟨a, b, ha, hb, ?_⟩
    rw [updateVersionCompare_eq ha hb] at h
    split_ifs at h with hlt hgt
    · exact hgt
    · cases h
  · intro text a ha
    rw [updateVersionCompare_eq ha ha, if_neg (lt_irrefl _), if_neg (lt_irrefl _)]
  · intro left right a b ha hb hle hge
    have hsame : a.key = b.key := le_antisymm ((updateVersionCompare_le ha hb).1 hle) ((updateVersionCompare_le hb ha).1 hge)
    refine ⟨UpdateVersion.key_injective hsame, ?_⟩
    rw [updateVersionCompare_eq ha hb, hsame, if_neg (lt_irrefl _), if_neg (lt_irrefl _)]
  · intro first second third a b c ha hb hc hab hbc
    exact (updateVersionCompare_le ha hc).2
      (((updateVersionCompare_le ha hb).1 hab).trans ((updateVersionCompare_le hb hc).1 hbc))
  · intro left right a b ha hb
    rw [updateVersionCompare_le ha hb, updateVersionCompare_le hb ha]
    exact le_total _ _

/-- The order puts 0.13 and `v0.13.1` before 1.0. -/
theorem updateVersionCompare_order_demo :
    updateVersionCompare (ascii "0.13") (ascii "1.0") ≤ 0 ∧ VersionText (ascii "v0.13.1") ⟨0, 13, 1⟩ ∧
      updateVersionCompare (ascii "v0.13.1") (ascii "v0.13.1") = 0 :=
  have hfirst : VersionText (ascii "0.13") ⟨0, 13, 0⟩ := (updateVersionParse_iff _ _).1 (by decide)
  have hsecond : VersionText (ascii "v0.13.1") ⟨0, 13, 1⟩ := (updateVersionParse_iff _ _).1 (by decide)
  have hthird : VersionText (ascii "1.0") ⟨1, 0, 0⟩ := (updateVersionParse_iff _ _).1 (by decide)
  ⟨updateVersionCompare_order.2.2.2.2.2.2.1 _ _ _ _ _ _ hfirst hsecond hthird (by decide) (by decide), hsecond,
    updateVersionCompare_order.2.2.2.2.1 _ _ hsecond⟩

end V9xRemote
