import V9xRemote.Spec.UpdateRead
import V9xRemote.Proof.UpdateVersion

/-!
# What the HTTP head parser makes of a buffer that grows

`HeadSays` states what a string that starts with a response head says: where its first empty
line ends, its status, and the last `Content-Length` in front of that. The parser finds this
and nothing else, so more bytes behind the head change nothing.
-/

namespace V9xRemote

open Bytes Scan Reading Checked

/-! ## The end of the head -/

/-- An LF stands at `j` and an empty line behind it, which ends at `e`. -/
def EmptyLine (text : Bytes) (j e : ℕ) : Prop :=
  e ≤ text.length ∧ (slice text j e = [10, 10] ∨ slice text j e = [10, 13, 10])

instance (text : Bytes) (j e : ℕ) : Decidable (EmptyLine text j e) := inferInstanceAs (Decidable (_ ∧ _))

/-- The first empty line ends at `e`. -/
def FirstEmpty (text : Bytes) (e : ℕ) : Prop := ∃ j, EmptyLine text j e ∧ ∀ i < j, ∀ e', ¬EmptyLine text i e'

section

variable {text text' raw : Bytes} {i j e e' length index : ℕ} {st : UpdateHead} {R : Empty → UpdateHead → Prop}

theorem EmptyLine.end_eq (h : EmptyLine text j e) : e = j + 2 ∨ e = j + 3 := by
  obtain ⟨hle, h | h⟩ := h <;> have hlength := slice_length (i := j) hle <;> rw [h] at hlength
  · exact Or.inl (by rw [List.length_cons, List.length_singleton] at hlength; omega)
  · exact Or.inr (by rw [List.length_cons, List.length_cons, List.length_singleton] at hlength; omega)

theorem EmptyLine.end_unique (h : EmptyLine text j e) (h' : EmptyLine text j e') : e = e' := by
  have hsecond : ∀ e, EmptyLine text j e → text.at' (j + 1) = 10 ∧ e = j + 2 ∨ text.at' (j + 1) = 13 ∧ e = j + 3 := by
    intro e h
    have hend := h.end_eq
    obtain ⟨hle, hslice⟩ := h
    rw [slice_cons (by omega) hle, slice_cons (by omega) hle] at hslice
    rcases hslice with hslice | hslice
    · injection hslice with _ hslice
      injection hslice with hat hrest
      have hshort := (slice_eq_nil hle).1 hrest
      exact Or.inl ⟨hat, by omega⟩
    · injection hslice with _ hslice
      injection hslice with hat hrest
      rcases hend with rfl | rfl
      · rw [(slice_eq_nil hle).2 (by omega)] at hrest
        cases hrest
      · exact Or.inr ⟨hat, rfl⟩
  rcases hsecond e h with ⟨hat, he⟩ | ⟨hat, he⟩ <;> rcases hsecond e' h' with ⟨hat', he'⟩ | ⟨hat', he'⟩
  · omega
  · exact absurd (hat.symm.trans hat') (by decide)
  · exact absurd (hat'.symm.trans hat) (by decide)
  · omega

theorem EmptyLine.last (h : EmptyLine text j e) : text.at' (e - 1) = 10 := by
  have hend := h.end_eq
  obtain ⟨hle, hslice⟩ := h
  have hlast := slice_getLast (i := j) (show j < e by omega) hle
  rcases hslice with hslice | hslice <;> rw [hslice] at hlast <;> exact (Option.some_inj.1 hlast).symm

theorem EmptyLine.prefix_iff (hfront : text <+: text') (he : e ≤ text.length) :
    EmptyLine text j e ↔ EmptyLine text' j e := by
  obtain ⟨more, rfl⟩ := hfront
  have hlength : e ≤ (text ++ more).length := by
    rw [List.length_append]
    omega
  rw [EmptyLine, EmptyLine, slice_append_left he]
  exact and_congr_left fun _ => iff_of_true he hlength

theorem FirstEmpty.le (h : FirstEmpty text e) : e ≤ text.length := by
  obtain ⟨j, hline, -⟩ := h
  exact hline.1

theorem FirstEmpty.unique (h : FirstEmpty text e) (h' : FirstEmpty text e') : e = e' := by
  obtain ⟨j, hline, hfirst⟩ := h
  obtain ⟨j', hline', hfirst'⟩ := h'
  obtain hlt | rfl | hgt := lt_trichotomy j j'
  · exact absurd hline (hfirst' j hlt e)
  · exact hline.end_unique hline'
  · exact absurd hline' (hfirst j' hgt e')

/-- **The first empty line stays the first** when more bytes come. -/
theorem FirstEmpty.mono (hfront : text <+: text') (h : FirstEmpty text e) : FirstEmpty text' e := by
  obtain ⟨j, hline, hfirst⟩ := h
  refine ⟨j, (EmptyLine.prefix_iff hfront hline.1).1 hline, fun i hi e' hline' => ?_⟩
  -- an earlier one would end by the end of this one
  have hend := hline.end_eq
  have hend' := hline'.end_eq
  have hle := hline.1
  exact hfirst i hi e' ((EmptyLine.prefix_iff hfront (by omega)).2 hline')

theorem exists_firstEmpty (h : EmptyLine text j e) : ∃ e, FirstEmpty text e := by
  induction j using Nat.strong_induction_on generalizing e with
  | h j ih =>
    by_cases hearlier : ∃ i < j, ∃ e', EmptyLine text i e'
    · obtain ⟨i, hi, e', hline⟩ := hearlier
      exact ih i hi hline
    · exact ⟨e, j, h, fun i hi e' hline => hearlier ⟨i, hi, e', hline⟩⟩

/-- What stands next, within the length. -/
theorem post_updateNextRead {Q : Bool → UpdateHead → Prop} {wanted : Bytes} (hlength : length ≤ raw.length) :
    Post (updateNextRead raw length index wanted) st Q R ↔
      Q (decide (index + wanted.length ≤ length ∧ slice raw index (index + wanted.length) = wanted)) st := by
  rw [updateNextRead]
  by_cases hfits : index + wanted.length ≤ length
  · have hsame : ((slice raw index (index + wanted.length)).map id == wanted) =
        decide (index + wanted.length ≤ length ∧ slice raw index (index + wanted.length) = wanted) := by
      rw [Bool.eq_iff_iff, beq_iff_eq, decide_eq_true_iff, and_iff_right hfits, List.map_id]
    rw [if_pos hfits, post_matchRead hfits hlength, hsame]
  · rw [if_neg hfits, post_pure, decide_eq_false fun h => hfits h.1]

/-- **The empty line behind an LF.** -/
theorem post_updateEmptyRead (hlength : length ≤ raw.length) (hfeed : raw.at' index = 10) :
    Post (updateEmptyRead raw length index) st
      (fun found st' => st' = st ∧ ∀ e, found = some e ↔ EmptyLine (raw.take length) index e) R := by
  have htake : (raw.take length).length = length := by
    rw [List.length_take]
    omega
  have hline : ∀ e, EmptyLine (raw.take length) index e ↔
      e = index + 2 ∧ index + 2 ≤ length ∧ slice raw (index + 1) (index + 2) = [10] ∨
        e = index + 3 ∧ index + 3 ≤ length ∧ slice raw (index + 1) (index + 3) = [13, 10] := by
    intro e
    have hslice : ∀ e ≤ length, index < e → slice (raw.take length) index e = 10 :: slice raw (index + 1) e := by
      intro e he hlt
      rw [slice_take he, slice_cons hlt (he.trans hlength), hfeed]
    constructor
    · intro h
      have hend := h.end_eq
      obtain ⟨hle, h⟩ := h
      rw [htake] at hle
      rw [hslice e hle (by omega)] at h
      have hcount : (slice raw (index + 1) e).length = e - (index + 1) := slice_length (hle.trans hlength)
      rcases h with h | h
      · injection h with _ h
        rw [h, List.length_singleton] at hcount
        obtain rfl : e = index + 2 := by omega
        exact Or.inl ⟨rfl, hle, h⟩
      · injection h with _ h
        rw [h, List.length_cons, List.length_singleton] at hcount
        obtain rfl : e = index + 3 := by omega
        exact Or.inr ⟨rfl, hle, h⟩
    · rintro (⟨rfl, hle, h⟩ | ⟨rfl, hle, h⟩)
      · exact ⟨hle.trans_eq htake.symm, Or.inl (by rw [hslice _ hle (by omega), h])⟩
      · exact ⟨hle.trans_eq htake.symm, Or.inr (by rw [hslice _ hle (by omega), h])⟩
  rw [updateEmptyRead, post_bind, post_updateNextRead hlength]
  change Post (if decide (index + 2 ≤ length ∧ slice raw (index + 1) (index + 2) = [10]) then _ else _) _ _ _
  by_cases hbare : index + 2 ≤ length ∧ slice raw (index + 1) (index + 2) = [10]
  · rw [decide_eq_true hbare, if_pos rfl, post_pure]
    refine ⟨rfl, fun e => ?_⟩
    rw [hline, Option.some_inj]
    constructor
    · rintro rfl
      exact Or.inl ⟨rfl, hbare⟩
    · rintro (⟨rfl, -⟩ | ⟨rfl, hle, h⟩)
      · rfl
      · rw [slice_cons (by omega) (by omega)] at h
        obtain ⟨-, h'⟩ := hbare
        rw [slice_cons (by omega) (by omega)] at h'
        injection h with hcr _
        injection h' with hlf _
        exact absurd (hlf.symm.trans hcr) (by decide)
  rw [decide_eq_false hbare, if_neg Bool.false_ne_true, post_bind, post_updateNextRead hlength]
  change Post (if decide (index + 3 ≤ length ∧ slice raw (index + 1) (index + 3) = [13, 10]) then _ else _) _ _ _
  by_cases hcrlf : index + 3 ≤ length ∧ slice raw (index + 1) (index + 3) = [13, 10]
  · rw [decide_eq_true hcrlf, if_pos rfl, post_pure]
    refine ⟨rfl, fun e => ?_⟩
    rw [hline, Option.some_inj, or_iff_right fun h => hbare h.2, and_iff_left hcrlf]
    exact eq_comm
  · rw [decide_eq_false hcrlf, if_neg Bool.false_ne_true, post_pure]
    refine ⟨rfl, fun e => ?_⟩
    rw [hline, or_iff_right fun h => hbare h.2]
    exact iff_of_false nofun fun h => hcrlf h.2

/-- **The loop for the end of the head**, from `index` on. -/
theorem post_updateHeadEndRead (hlength : length ≤ raw.length) (hindex : index ≤ length) :
    Post (updateHeadEndRead raw length index) st
      (fun headEnd st' => st' = st ∧ ((∃ j, index ≤ j ∧ EmptyLine (raw.take length) j headEnd ∧
          ∀ i < j, index ≤ i → ∀ e, ¬EmptyLine (raw.take length) i e) ∨
        headEnd = 0 ∧ ∀ i, index ≤ i → ∀ e, ¬EmptyLine (raw.take length) i e)) R := by
  have htake : (raw.take length).length = length := by
    rw [List.length_take]
    omega
  induction hleft : length - index generalizing index with
  | zero =>
    rw [updateHeadEndRead, if_neg (by omega), post_pure]
    refine ⟨rfl, Or.inr ⟨rfl, fun i hi e hline => ?_⟩⟩
    have hend := hline.end_eq
    have hle := hline.1
    omega
  | succ left ih =>
    have hmore : index < length := by omega
    rw [updateHeadEndRead, if_pos hmore, post_bind, post_byte, and_iff_right hmore]
    -- without an empty line here the next position decides
    have hskip : (∀ e, ¬EmptyLine (raw.take length) index e) → Post (updateHeadEndRead raw length (index + 1)) st
        (fun headEnd st' => st' = st ∧ ((∃ j, index ≤ j ∧ EmptyLine (raw.take length) j headEnd ∧
            ∀ i < j, index ≤ i → ∀ e, ¬EmptyLine (raw.take length) i e) ∨
          headEnd = 0 ∧ ∀ i, index ≤ i → ∀ e, ¬EmptyLine (raw.take length) i e)) R := by
      intro hnone
      have hhere : ∀ i, index ≤ i → (index + 1 ≤ i → ∀ e, ¬EmptyLine (raw.take length) i e) →
          ∀ e, ¬EmptyLine (raw.take length) i e := by
        intro i hi hlater
        rcases Nat.eq_or_lt_of_le hi with rfl | hlt
        · exact hnone
        · exact hlater hlt
      refine (ih hmore (by omega)).imp ?_ fun _ _ h => h
      rintro headEnd st' ⟨rfl, ⟨j, hj, hline, hfirst⟩ | ⟨rfl, hall⟩⟩
      · exact ⟨rfl, Or.inl ⟨j, by omega, hline, fun i hij hi => hhere i hi (hfirst i hij)⟩⟩
      · exact ⟨rfl, Or.inr ⟨rfl, fun i hi => hhere i hi (hall i)⟩⟩
    by_cases hfeed : raw.at' index = 10
    swap
    · rw [if_pos hfeed]
      refine hskip fun e hline => hfeed ?_
      have hend := hline.end_eq
      obtain ⟨hle, hslice⟩ := hline
      rw [htake] at hle
      rw [slice_take hle, slice_cons (by omega) (by omega)] at hslice
      rcases hslice with h | h <;> injection h
    · rw [if_neg (not_not.2 hfeed), post_bind]
      refine (post_updateEmptyRead hlength hfeed).imp ?_ fun _ _ h => h
      rintro found st' ⟨rfl, hfound⟩
      cases found with
      | none => exact hskip fun e hline => nomatch (hfound e).2 hline
      | some headEnd =>
        exact post_pure.2 ⟨rfl, Or.inl ⟨index, le_rfl, (hfound headEnd).1 rfl, fun i hi hle => by omega⟩⟩

theorem post_updateHeadEnd (hlength : length ≤ raw.length) : Post (updateHeadEndRead raw length 0) st
    (fun headEnd st' => st' = st ∧ (FirstEmpty (raw.take length) headEnd ∨
      headEnd = 0 ∧ ∀ e, ¬FirstEmpty (raw.take length) e)) R := by
  refine (post_updateHeadEndRead hlength (Nat.zero_le _)).imp ?_ fun _ _ h => h
  rintro headEnd st' ⟨rfl, ⟨j, -, hline, hfirst⟩ | ⟨rfl, hnone⟩⟩
  · exact ⟨rfl, Or.inl ⟨j, hline, fun i hi => hfirst i hi (Nat.zero_le i)⟩⟩
  · exact ⟨rfl, Or.inr ⟨rfl, fun e ⟨j, hline, _⟩ => hnone j (Nat.zero_le j) e hline⟩⟩

/-! ## The status -/

/-- The head starts with `HTTP/1.x NNN`. -/
def HeadStatus (head : Bytes) (status : ℕ) : Prop :=
  ∃ name minor digits rest, head = name ++ minor :: 32 :: (digits ++ rest) ∧ name.map lower = ascii "http/1." ∧
    decimalDigit minor ∧ digits.length = 3 ∧ (∀ c ∈ digits, decimalDigit c) ∧ undecimal digits = status

/-- The status line by its positions. -/
theorem headStatus_iff {status : ℕ} (he : e ≤ raw.length) (hlong : 12 ≤ e) : HeadStatus (raw.take e) status ↔
    (slice raw 0 7).map lower = ascii "http/1." ∧ decimalDigit (raw.at' 7) ∧ raw.at' 8 = 32 ∧
      (∀ c ∈ slice raw 9 12, decimalDigit c) ∧ undecimal (slice raw 9 12) = status := by
  have hname : (slice raw 0 7).length = 7 := slice_length (by omega)
  have hdigits : (slice raw 9 12).length = 3 := slice_length (by omega)
  have hsplit : raw.take e = slice raw 0 7 ++ raw.at' 7 :: raw.at' 8 :: (slice raw 9 12 ++ slice raw 12 e) := by
    rw [slice_append (by omega) hlong, ← slice_cons (by omega) he, ← slice_cons (by omega) he,
      slice_append (by omega) (by omega)]
    rfl
  rw [hsplit]
  constructor
  · rintro ⟨name, minor, digits, rest, hhead, hlower, hminor, hthree, hall, hstatus⟩
    have hseven : name.length = 7 := by rw [← List.length_map lower, hlower]; rfl
    obtain ⟨rfl, hrest⟩ := List.append_inj hhead (hname.trans hseven.symm)
    injection hrest with hat hrest
    injection hrest with hblank hrest
    obtain ⟨rfl, -⟩ := List.append_inj hrest (hdigits.trans hthree.symm)
    exact ⟨hlower, hat ▸ hminor, hblank, hall, hstatus⟩
  · rintro ⟨hlower, hminor, hblank, hall, hstatus⟩
    exact ⟨slice raw 0 7, raw.at' 7, slice raw 9 12, slice raw 12 e, by rw [hblank], hlower, hminor, hdigits, hall, hstatus⟩

theorem HeadStatus.twelve_le {head : Bytes} {status : ℕ} (h : HeadStatus head status) : 12 ≤ head.length := by
  obtain ⟨name, minor, digits, rest, rfl, hlower, -, hthree, -⟩ := h
  have hseven : name.length = 7 := by rw [← List.length_map lower, hlower]; rfl
  simp only [List.length_append, List.length_cons]
  omega

/-- The status line has no LF in its first twelve bytes, so the empty line ends behind it. -/
theorem HeadStatus.long {status : ℕ} (hempty : FirstEmpty text e) (h : HeadStatus (text.take e) status) : 14 ≤ e := by
  obtain ⟨j, hline, -⟩ := hempty
  have hend := hline.end_eq
  obtain ⟨hle, hslice⟩ := hline
  have hlength := h.twelve_le
  rw [List.length_take, Nat.min_eq_left hle] at hlength
  obtain ⟨hlower, hminor, hblank, hall, -⟩ := (headStatus_iff hle hlength).1 h
  have hfeed : text.at' j = 10 := by
    rw [slice_cons (by omega) hle] at hslice
    rcases hslice with hslice | hslice <;> injection hslice
  by_contra hshort
  have hmem : ∀ a b, a ≤ j → j < b → b ≤ e → 10 ∈ slice text a b := by
    intro a b ha hb hbe
    rw [← slice_append ha hb.le, slice_cons hb (by omega), hfeed]
    exact List.mem_append_right _ List.mem_cons_self
  have hcases : j < 7 ∨ j = 7 ∨ j = 8 ∨ 9 ≤ j ∧ j < 12 := by omega
  rcases hcases with hj | rfl | rfl | ⟨hj, hj'⟩
  · have hlf := List.mem_map_of_mem (f := lower) (hmem 0 7 (Nat.zero_le j) hj (by omega))
    rw [hlower] at hlf
    exact absurd hlf (by decide)
  · rw [hfeed] at hminor
    exact absurd hminor (by decide)
  · exact absurd (hfeed.symm.trans hblank) (by decide)
  · exact absurd (hall 10 (hmem 9 12 hj hj' hlength)) (by decide)

/-- **The digits of the status.** -/
theorem post_updateStatusRead {Q : Option ℕ → UpdateHead → Prop} {left code : ℕ} (hindex : index + left ≤ length)
    (hlength : length ≤ raw.length) : Post (updateStatusRead raw length index left code) st Q R ↔
      Q (if (slice raw index (index + left)).all updateIsDigit then
        some (undecimalFrom code (slice raw index (index + left))) else none) st := by
  induction left generalizing index code with
  | zero =>
    rw [updateStatusRead, post_pure, Nat.add_zero, slice_self]
    rfl
  | succ left ih =>
    have hnext : index + (left + 1) = index + 1 + left := by omega
    have hvalue : code * 10 + ((raw.at' index).toNat - 48) = 10 * code + ((raw.at' index).toNat - 48) := by omega
    rw [updateStatusRead, post_bind, post_byte, and_iff_right (by omega), hnext, slice_cons (by omega) (by omega)]
    cases hdigit : updateIsDigit (raw.at' index) with
    | true =>
      rw [Bool.not_true, if_neg Bool.false_ne_true, ih (by omega), hvalue, List.all_cons, hdigit, Bool.true_and]
      rfl
    | false => rw [Bool.not_false, if_pos rfl, post_pure, List.all_cons, hdigit, Bool.false_and, if_neg Bool.false_ne_true]

end

/-! ## The lengths -/

/-- What stands behind the colon of a line that is named `Content-Length`, in any case. -/
def headField (line : Bytes) : Option Bytes :=
  if 58 ∈ line ∧ (line.takeWhile (· != 58)).map lower = ascii "content-length" then some (line.dropWhile (· != 58)).tail
  else none

/-- The `Content-Length` lines of a head. -/
def headFields (head : Bytes) : List Bytes := (head.splitOn 10).filterMap headField

/-- The digits behind the blanks; what follows them is not looked at. -/
def headDigits (field : Bytes) : Bytes := (field.dropWhile (· == 32)).takeWhile updateIsDigit

/-- The number of a field. -/
def headNumber (field : Bytes) : Option UInt32 := releaseParseU32 (headDigits field)

/-- The last number of the fields; none where one of them has none. -/
def headLast (fields : List Bytes) (current : UInt32) : Option UInt32 :=
  fields.foldlM (fun _ field => headNumber field) current

section

variable {raw : Bytes} {index stop lineEnd length headEnd : ℕ} {st : UpdateHead} {R : Empty → UpdateHead → Prop}

theorem post_updateLengthRead {Q : Option UInt32 → UpdateHead → Prop} {value : UInt32} (hstop : stop ≤ length)
    (hlength : length ≤ raw.length) : Post (updateLengthRead raw length stop index value) st Q R ↔
      Q (releaseParseDigits value ((slice raw index stop).takeWhile updateIsDigit)) st := by
  induction hleft : stop - index generalizing index value with
  | zero =>
    rw [updateLengthRead, if_neg (by omega), post_pure, (slice_eq_nil (by omega)).2 (by omega)]
    rfl
  | succ left ih =>
    rw [updateLengthRead, if_pos (by omega), post_bind, post_byte, and_iff_right (by omega),
      slice_cons (by omega) (by omega)]
    by_cases hdigit : updateIsDigit (raw.at' index) = true
    · obtain ⟨hlow, hhigh⟩ := (updateIsDigit_iff _).1 hdigit
      rw [if_pos hdigit, List.takeWhile_cons_of_pos hdigit, releaseParseDigits]
      by_cases hlarge : value > 0x19999998
      · rw [if_pos hlarge, if_pos (Or.inr (Or.inr hlarge)), post_pure]
      · rw [if_neg hlarge, if_neg, ih (by omega)]
        rintro (hless | hmore | hlarge')
        · exact absurd hless (UInt8.not_lt.2 hlow)
        · exact absurd hmore (UInt8.not_lt.2 hhigh)
        · exact hlarge hlarge'
    · rw [if_neg hdigit, List.takeWhile_cons_of_neg hdigit, post_pure]
      rfl

/-- The blanks and the digits end at the LF. -/
theorem headDigits_feed (field : Bytes) :
    ((field ++ [10]).dropWhile (· == 32)).takeWhile updateIsDigit = headDigits field := by
  have hdigit : ¬updateIsDigit 10 = true := by decide
  have hdrop : (field ++ [10]).dropWhile (· == 32) = field.dropWhile (· == 32) ++ [10] := by
    rw [List.dropWhile_append]
    split
    · rename_i hall
      rw [List.isEmpty_iff.1 hall]
      rfl
    · rfl
  rw [hdrop, headDigits, List.takeWhile_append]
  split
  · rename_i hall
    rw [List.takeWhile_cons_of_neg hdigit, List.append_nil]
    exact (List.takeWhile_prefix _).eq_of_length hall |>.symm
  · rfl

/-- **The value of a line**, from behind its colon on. -/
theorem post_updateFieldRead {Q : Option UInt32 → UpdateHead → Prop} (hindex : index ≤ lineEnd)
    (hend : lineEnd + 1 ≤ length) (hlength : length ≤ raw.length) (hfeed : raw.at' lineEnd = 10) :
    Post (updateFieldRead raw length (lineEnd + 1) index) st Q R ↔ Q (headNumber (slice raw index lineEnd)) st := by
  have hfirst : up (· == 32) raw (lineEnd + 1) index ≤ lineEnd := up_le_of_fails hindex (by rw [hfeed]; decide)
  have hdigits := headDigits_feed (slice raw index lineEnd)
  have hdrop := (slice_up (p := (· == 32)) (hend.trans hlength) (hindex.trans (Nat.le_succ lineEnd))).2
  rw [← hfeed, ← slice_snoc hindex (by omega), ← hdrop] at hdigits
  rw [updateFieldRead, post_bind, post_upRead hend]
  generalize up (· == 32) raw (lineEnd + 1) index = first at hfirst hdigits
  rw [if_pos (by omega), post_bind, post_byte, and_iff_right (by omega), headNumber, ← hdigits, releaseParseU32]
  by_cases hdigit : updateIsDigit (raw.at' first) = true
  · rw [if_pos hdigit, post_updateLengthRead hend hlength, if_neg]
    rw [slice_cons (by omega) (by omega), List.takeWhile_cons_of_pos hdigit]
    exact List.cons_ne_nil _ _
  · rw [if_neg hdigit, post_pure, if_pos]
    rw [slice_cons (by omega) (by omega), List.takeWhile_cons_of_neg hdigit]

/-- The field of a line, as the parser finds it. -/
theorem headField_at {start : ℕ} (hstart : start ≤ lineEnd) (hlineEnd : lineEnd < raw.length)
    (hfeed : raw.at' lineEnd = 10) :
    headField (slice raw start lineEnd) =
      if up (· != 58) raw (lineEnd + 1) start ≥ lineEnd + 1 ∨ up (· != 58) raw (lineEnd + 1) start - start ≠ 14 then none
      else if (slice raw start (start + 14)).map lower = ascii "content-length" then
        some (slice raw (start + 14 + 1) lineEnd)
      else none := by
  have hlow : start ≤ up (· != 58) raw (lineEnd + 1) start := le_up _ _ _ _
  obtain ⟨htake, -⟩ := slice_up (p := (· != 58)) (show lineEnd + 1 ≤ raw.length from hlineEnd)
    (hstart.trans (Nat.le_succ lineEnd))
  have hbelow : ∀ b ∈ slice raw start (up (· != 58) raw (lineEnd + 1) start), (b != 58) = true := by
    intro b hb
    rw [htake] at hb
    have hpass := List.mem_takeWhile_imp hb
    exact hpass
  rw [headField]
  by_cases hnone : up (· != 58) raw (lineEnd + 1) start ≥ lineEnd + 1
  · -- no colon up to the LF
    have hall : up (· != 58) raw (lineEnd + 1) start = lineEnd + 1 :=
      le_antisymm (up_le (hstart.trans (Nat.le_succ lineEnd))) hnone
    rw [if_pos (Or.inl hnone), if_neg]
    rintro ⟨hmem, -⟩
    rw [hall, slice_snoc hstart hlineEnd] at hbelow
    exact absurd (hbelow 58 (List.mem_append_left _ hmem)) (by decide)
  have hat : raw.at' (up (· != 58) raw (lineEnd + 1) start) = 58 := by
    have hfails := up_fails (not_le.1 hnone)
    simpa using hfails
  have hne : up (· != 58) raw (lineEnd + 1) start ≠ lineEnd := fun h => by
    rw [h, hfeed] at hat
    exact absurd hat (by decide)
  generalize up (· != 58) raw (lineEnd + 1) start = colon at *
  have hcolon : colon < lineEnd := by omega
  have hline : slice raw start lineEnd = slice raw start colon ++ 58 :: slice raw (colon + 1) lineEnd := by
    rw [← slice_append hlow hcolon.le, slice_cons hcolon hlineEnd.le, hat]
  have hname : (slice raw start lineEnd).takeWhile (· != 58) = slice raw start colon := by
    rw [hline, List.takeWhile_append_of_pos hbelow]
    exact List.append_nil _
  have hrest : ((slice raw start lineEnd).dropWhile (· != 58)).tail = slice raw (colon + 1) lineEnd := by
    rw [hline, List.dropWhile_append_of_pos hbelow]
    rfl
  have hmem : 58 ∈ slice raw start lineEnd := by
    rw [hline]
    exact List.mem_append_right _ List.mem_cons_self
  have hsize : ((slice raw start colon).map lower).length = colon - start := by
    rw [List.length_map, slice_length (by omega)]
  simp only [hname, hrest, hmem, true_and]
  by_cases hfourteen : colon - start = 14
  · obtain rfl : colon = start + 14 := by omega
    rw [if_neg (c := _ ∨ _) (by omega)]
  · rw [if_pos (Or.inr hfourteen), if_neg fun h => hfourteen (by rw [← hsize, h]; rfl)]

/-- **A turn of the loop** over the lines, with the answer that its fields give. -/
theorem post_updateHeadTurn {answer : Option UInt32} (hend : headEnd ≤ length) (hlength : length ≤ raw.length)
    (hlast : raw.at' (headEnd - 1) = 10) (hposition : st.position ≤ headEnd)
    (hanswer : headLast (headFields (slice raw st.position headEnd)) st.contentLength = answer) :
    Post (updateHeadTurn raw length headEnd ()) st
      (fun turn after => (after.status = st.status ∧ after.bodyOffset = st.bodyOffset) ∧ turn.elim
        (fun _ => (after.position ≤ headEnd ∧
          headLast (headFields (slice raw after.position headEnd)) after.contentLength = answer) ∧
            headEnd - after.position < headEnd - st.position)
        fun found => if found then answer = some after.contentLength else answer = none) R := by
  rw [updateHeadTurn, post_bind, post_get, post_ite]
  refine ⟨fun hmore => ?_, fun hdone => ?_⟩
  swap
  · have hnil : slice raw st.position headEnd = [] := (slice_eq_nil (by omega)).2 (by omega)
    rw [hnil] at hanswer
    exact post_pure.2 ⟨⟨rfl, rfl⟩, hanswer.symm⟩
  have hlow : st.position ≤ up (· != 10) raw headEnd st.position := le_up _ _ _ _
  have hline : up (· != 10) raw headEnd st.position ≤ headEnd - 1 :=
    up_le_of_fails (by omega) (by rw [hlast]; decide)
  have hfeed : raw.at' (up (· != 10) raw headEnd st.position) = 10 := by
    have hfails := up_fails (p := (· != 10)) (s := raw) (i := st.position) (j := headEnd) (by omega)
    simpa using hfails
  have hlines := lines_at (hend.trans hlength) hmore
  rw [updateNextLine, updateLineEnd, if_pos (by omega), if_pos (by omega)] at hlines
  rw [headFields, hlines, List.filterMap_cons] at hanswer
  rw [post_bind, post_upRead hend, post_bind, post_modify]
  generalize up (· != 10) raw headEnd st.position = lineEnd at *
  rw [headField_at hlow (by omega) hfeed] at hanswer
  rw [post_bind, post_upRead (by omega)]
  have hcolon : st.position ≤ up (· != 58) raw (lineEnd + 1) st.position := le_up _ _ _ _
  have hat : up (· != 58) raw (lineEnd + 1) st.position < lineEnd + 1 →
      raw.at' (up (· != 58) raw (lineEnd + 1) st.position) = 58 := fun h => by simpa using up_fails h
  generalize up (· != 58) raw (lineEnd + 1) st.position = colon at *
  have hnext : lineEnd + 1 ≤ headEnd ∧ headEnd - (lineEnd + 1) < headEnd - st.position := by omega
  by_cases hother : colon ≥ lineEnd + 1 ∨ colon - st.position ≠ 14
  · rw [if_pos hother] at hanswer
    rw [if_pos hother, post_pure]
    exact ⟨⟨rfl, rfl⟩, ⟨hnext.1, hanswer⟩, hnext.2⟩
  rw [if_neg hother] at hanswer
  have hfourteen : (ascii "content-length").length = 14 := rfl
  have hcolonAt := hat (by omega)
  have hne : colon ≠ lineEnd := fun h => by
    rw [h, hfeed] at hcolonAt
    exact absurd hcolonAt (by decide)
  rw [if_neg hother, post_bind, post_matchRead (by rw [hfourteen]; omega) hlength, hfourteen]
  by_cases hnamed : (slice raw st.position (st.position + 14)).map lower = ascii "content-length"
  swap
  · rw [if_neg hnamed] at hanswer
    rw [beq_eq_false_iff_ne.2 hnamed, Bool.not_false, if_pos rfl, post_pure]
    exact ⟨⟨rfl, rfl⟩, ⟨hnext.1, hanswer⟩, hnext.2⟩
  rw [if_pos hnamed, headLast, List.foldlM_cons] at hanswer
  rw [hnamed, beq_self_eq_true, Bool.not_true, if_neg Bool.false_ne_true, post_bind,
    post_updateFieldRead (by omega) (by omega) hlength hfeed]
  cases hnumber : headNumber (slice raw (st.position + 14 + 1) lineEnd) with
  | none =>
    rw [hnumber] at hanswer
    exact post_pure.2 ⟨⟨rfl, rfl⟩, hanswer.symm⟩
  | some value =>
    rw [hnumber] at hanswer
    exact post_bind.2 (post_modify.2 (post_pure.2 ⟨⟨rfl, rfl⟩, ⟨hnext.1, hanswer⟩, hnext.2⟩))

end

/-! ## The head -/

/-- The number a `Content-Length` field gives. -/
def FieldSays (field : Bytes) (n : ℕ) : Prop :=
  headDigits field ≠ [] ∧ undecimal (headDigits field) = n ∧ n ≤ 4294967289

/-- Every `Content-Length` of a head has a number, and this is the last one; without any it is
`V9X_UPDATE_NO_LENGTH`. -/
def LengthSays (head : Bytes) (n : ℕ) : Prop :=
  (∀ field ∈ headFields head, ∃ m, FieldSays field m) ∧
    match (headFields head).getLast? with
    | none => n = 4294967295
    | some field => FieldSays field n

/-- **What a string that starts with a head says.** -/
structure HeadSays (text : Bytes) (status bodyOffset contentLength : ℕ) : Prop where
  empty : FirstEmpty text bodyOffset
  status : HeadStatus (text.take bodyOffset) status
  length : LengthSays (text.take bodyOffset) contentLength

theorem headNumber_iff (field : Bytes) (n : UInt32) : headNumber field = some n ↔ FieldSays field n.toNat := by
  have hall : ∀ c ∈ headDigits field, decimalDigit c := fun c hc => (updateIsDigit_iff c).1 (List.mem_takeWhile_imp hc)
  rw [headNumber, releaseParseU32_iff, FieldSays, and_iff_right hall]
  refine and_congr_right fun _ => ?_
  constructor
  · rintro ⟨hvalue, hfits⟩
    exact ⟨hvalue, hvalue ▸ hfits⟩
  · rintro ⟨hvalue, hfits⟩
    exact ⟨hvalue, hvalue ▸ hfits⟩

theorem fieldSays_word {field : Bytes} {n : ℕ} (h : FieldSays field n) : headNumber field = some (UInt32.ofNat n) := by
  have hn : (UInt32.ofNat n).toNat = n := UInt32.toNat_ofNat_of_lt' (show n < 2 ^ 32 by have := h.2.2; omega)
  rw [headNumber_iff, hn]
  exact h

theorem headLast_iff (fields : List Bytes) (current n : UInt32) : headLast fields current = some n ↔
    (∀ field ∈ fields, ∃ m, FieldSays field m) ∧
      match fields.getLast? with
      | none => n = current
      | some field => FieldSays field n.toNat := by
  induction fields generalizing current with
  | nil => exact ⟨fun h => ⟨List.forall_mem_nil _, (Option.some_inj.1 h).symm⟩, fun h => congrArg some h.2.symm⟩
  | cons field fields ih =>
    rw [headLast, List.foldlM_cons, List.forall_mem_cons]
    cases hnumber : headNumber field with
    | none =>
      refine iff_of_false nofun ?_
      rintro ⟨⟨⟨m, hm⟩, -⟩, -⟩
      rw [fieldSays_word hm] at hnumber
      cases hnumber
    | some value =>
      have hhere := (headNumber_iff field value).1 hnumber
      have hrest := ih value
      rw [headLast] at hrest
      rw [Option.bind_eq_bind, Option.bind_some, hrest, and_assoc,
        and_iff_right (⟨_, hhere⟩ : ∃ m, FieldSays field m)]
      refine and_congr_right fun _ => ?_
      cases fields with
      | nil =>
        have hiff := headNumber_iff field n
        rw [hnumber, Option.some_inj] at hiff
        exact eq_comm.trans hiff
      | cons next fields => rw [List.getLast?_cons_cons, List.getLast?_eq_some_getLast (List.cons_ne_nil next fields)]

theorem lengthSays_iff (head : Bytes) (n : UInt32) :
    headLast (headFields head) updateNoLength = some n ↔ LengthSays head n.toNat := by
  rw [headLast_iff, LengthSays]
  refine and_congr_right fun _ => ?_
  split
  · exact UInt32.toNat_inj.symm
  · exact Iff.rfl

theorem LengthSays.word {head : Bytes} {n : ℕ} (h : LengthSays head n) :
    ∃ number, headLast (headFields head) updateNoLength = some number ∧ number.toNat = n := by
  have hn : (UInt32.ofNat n).toNat = n := by
    refine UInt32.toNat_ofNat_of_lt' (show n < 2 ^ 32 from ?_)
    have hlast := h.2
    split at hlast
    · omega
    · have hfits := hlast.2.2
      omega
  exact ⟨UInt32.ofNat n, (lengthSays_iff head _).2 (hn.symm ▸ h), hn⟩

/-! ## The parser -/

section

variable {raw text text' : Bytes} {length status bodyOffset contentLength : ℕ} {st : UpdateHead}
  {R : Empty → UpdateHead → Prop}

/-- The lines of the head: the fields from the position on decide, with the last number so far. -/
theorem post_updateHeadFields {headEnd : ℕ} (hend : headEnd ≤ length) (hlength : length ≤ raw.length)
    (hlast : raw.at' (headEnd - 1) = 10) (hposition : st.position = 0) (hnumber : st.contentLength = updateNoLength)
    (hstatus : st.status = status) (hoffset : st.bodyOffset = bodyOffset) :
    Post (loop (fun head : UpdateHead => headEnd - head.position) (updateHeadTurn raw length headEnd) ()) st
      (fun found after => (after.status = status ∧ after.bodyOffset = bodyOffset) ∧
        if found then headLast (headFields (raw.take headEnd)) updateNoLength = some after.contentLength
        else headLast (headFields (raw.take headEnd)) updateNoLength = none) R := by
  have hwhole : slice raw 0 headEnd = raw.take headEnd := rfl
  refine post_loop (I := fun _ head => (head.status = status ∧ head.bodyOffset = bodyOffset) ∧
    head.position ≤ headEnd ∧ headLast (headFields (slice raw head.position headEnd)) head.contentLength =
      headLast (headFields (raw.take headEnd)) updateNoLength) ?_ ?_
  · rintro ⟨⟩ head ⟨⟨hcode, hoffset⟩, hposition, hanswer⟩
    refine (post_updateHeadTurn hend hlength hlast hposition hanswer).imp ?_ fun _ _ h => h
    rintro (⟨⟩ | found) after ⟨⟨hsame, hsame'⟩, hturn⟩
    · exact ⟨⟨⟨hsame.trans hcode, hsame'.trans hoffset⟩, hturn.1⟩, hturn.2⟩
    · exact ⟨⟨hsame.trans hcode, hsame'.trans hoffset⟩, hturn⟩
  · rw [hposition, hnumber, hwhole]
    exact ⟨⟨hstatus, hoffset⟩, Nat.zero_le _, rfl⟩

/-- **The parser finds what the head says**, and says so where it says nothing. -/
theorem post_updateHeadRun (hlength : length ≤ raw.length) : Post (updateHeadRun raw length) st
    (fun found after => if found then
        HeadSays (raw.take length) after.status after.bodyOffset after.contentLength.toNat
      else ∀ status bodyOffset contentLength, ¬HeadSays (raw.take length) status bodyOffset contentLength) R := by
  rw [updateHeadRun, post_bind]
  refine (post_updateHeadEnd hlength).imp ?_ fun _ _ h => h
  rintro headEnd st' ⟨rfl, hempty | ⟨rfl, hnone⟩⟩
  swap
  · exact post_pure.2 fun _ _ _ h => hnone _ h.empty
  have htake : (raw.take length).length = length := by
    rw [List.length_take]
    omega
  have hend : headEnd ≤ length := hempty.le.trans_eq htake
  have hhead : (raw.take length).take headEnd = raw.take headEnd := by rw [List.take_take, Nat.min_eq_left hend]
  have hgiven : ∀ {status bodyOffset contentLength}, HeadSays (raw.take length) status bodyOffset contentLength →
      bodyOffset = headEnd ∧ HeadStatus (raw.take headEnd) status ∧ LengthSays (raw.take headEnd) contentLength := by
    intro status bodyOffset contentLength h
    obtain rfl := h.empty.unique hempty
    exact ⟨rfl, hhead ▸ h.status, hhead ▸ h.length⟩
  by_cases hlong : headEnd < 14
  · rw [if_pos hlong, post_pure]
    intro status bodyOffset contentLength h
    have hle := h.status.long h.empty
    rw [(hgiven h).1] at hle
    omega
  have hstatus (status : ℕ) : HeadStatus (raw.take headEnd) status ↔
      (slice raw 0 7).map lower = ascii "http/1." ∧ decimalDigit (raw.at' 7) ∧ raw.at' 8 = 32 ∧
        (∀ c ∈ slice raw 9 12, decimalDigit c) ∧ undecimal (slice raw 9 12) = status :=
    headStatus_iff (by omega) (by omega)
  have hseven : (ascii "http/1.").length = 7 := rfl
  have hnever (h : ∀ status, ¬HeadStatus (raw.take headEnd) status) : ∀ status bodyOffset contentLength,
      ¬HeadSays (raw.take length) status bodyOffset contentLength :=
    fun status _ _ hhead => h status (hgiven hhead).2.1
  rw [if_neg hlong, post_bind, post_matchRead (by rw [hseven]; omega) hlength, hseven]
  by_cases hname : (slice raw 0 7).map lower = ascii "http/1."
  swap
  · rw [beq_eq_false_iff_ne.2 hname, Bool.not_false, if_pos rfl, post_pure]
    exact hnever fun status h => hname ((hstatus status).1 h).1
  rw [hname, beq_self_eq_true, Bool.not_true, if_neg Bool.false_ne_true, post_bind, post_byte, and_iff_right (by omega)]
  by_cases hminor : updateIsDigit (raw.at' 7) = true
  swap
  · rw [Bool.eq_false_of_not_eq_true hminor, Bool.not_false, if_pos rfl, post_pure]
    exact hnever fun status h => hminor ((updateIsDigit_iff _).2 ((hstatus status).1 h).2.1)
  rw [hminor, Bool.not_true, if_neg Bool.false_ne_true, post_bind, post_byte, and_iff_right (by omega)]
  by_cases hblank : raw.at' 8 = 32
  swap
  · rw [if_pos hblank, post_pure]
    exact hnever fun status h => hblank ((hstatus status).1 h).2.2.1
  rw [if_neg (not_not.2 hblank), post_bind, post_updateStatusRead (by omega) hlength]
  by_cases hall : (slice raw 9 12).all updateIsDigit = true
  swap
  · rw [if_neg hall, post_pure]
    refine hnever fun status h => hall (List.all_eq_true.2 fun c hc => ?_)
    exact (updateIsDigit_iff c).2 (((hstatus status).1 h).2.2.2.1 c hc)
  have hdigits : ∀ c ∈ slice raw 9 12, decimalDigit c := fun c hc => (updateIsDigit_iff c).1 (List.all_eq_true.1 hall c hc)
  rw [if_pos hall]
  have hcode : HeadStatus (raw.take headEnd) (undecimal (slice raw 9 12)) :=
    (hstatus _).2 ⟨hname, (updateIsDigit_iff _).1 hminor, hblank, hdigits, rfl⟩
  have hlast : raw.at' (headEnd - 1) = 10 := by
    obtain ⟨j, hline, -⟩ := hempty
    exact ((EmptyLine.prefix_iff (List.take_prefix _ _) hline.1).1 hline).last
  refine post_bind.2 (post_modify.2 ?_)
  refine (post_updateHeadFields hend hlength hlast rfl rfl rfl rfl).imp ?_ fun _ _ h => h
  rintro found after ⟨⟨hstatus', hoffset⟩, hfound⟩
  cases found with
  | true =>
    have hlengthSays := (lengthSays_iff _ _).1 hfound
    rw [if_pos rfl, hstatus', hoffset]
    exact ⟨hempty, hhead.symm ▸ hcode, hhead.symm ▸ hlengthSays⟩
  | false =>
    intro status bodyOffset contentLength h
    obtain ⟨n, hn, -⟩ := (hgiven h).2.2.word
    rw [hfound] at hn
    cases hn

theorem HeadStatus.unique {head : Bytes} {status status' : ℕ} (h : HeadStatus head status) (h' : HeadStatus head status') :
    status = status' := by
  have hlong := h.twelve_le
  rw [← List.take_length (l := head)] at h h'
  exact ((headStatus_iff le_rfl hlong).1 h).2.2.2.2.symm.trans ((headStatus_iff le_rfl hlong).1 h').2.2.2.2

theorem LengthSays.unique {head : Bytes} {n n' : ℕ} (h : LengthSays head n) (h' : LengthSays head n') : n = n' := by
  obtain ⟨number, hnumber, rfl⟩ := h.word
  obtain ⟨number', hnumber', rfl⟩ := h'.word
  rw [Option.some_inj.1 (hnumber.symm.trans hnumber')]

theorem HeadSays.unique {status' bodyOffset' contentLength' : ℕ} (h : HeadSays text status bodyOffset contentLength)
    (h' : HeadSays text status' bodyOffset' contentLength') :
    status = status' ∧ bodyOffset = bodyOffset' ∧ contentLength = contentLength' := by
  obtain rfl := h.empty.unique h'.empty
  exact ⟨h.status.unique h'.status, rfl, h.length.unique h'.length⟩

/-- **What a string says it also says with more behind it.** -/
theorem HeadSays.mono (hfront : text <+: text') (h : HeadSays text status bodyOffset contentLength) :
    HeadSays text' status bodyOffset contentLength := by
  have htake : text.take bodyOffset = text'.take bodyOffset := by
    obtain ⟨more, rfl⟩ := hfront
    exact (List.take_append_of_le_length h.empty.le).symm
  exact ⟨h.empty.mono hfront, htake ▸ h.status, htake ▸ h.length⟩

/-- Once the empty line is there, what comes behind it says nothing new. -/
theorem HeadSays.of_longer {j e : ℕ} (hfront : text <+: text') (hline : EmptyLine text j e)
    (h : HeadSays text' status bodyOffset contentLength) : HeadSays text status bodyOffset contentLength := by
  obtain ⟨first, hempty⟩ := exists_firstEmpty hline
  obtain rfl := (hempty.mono hfront).unique h.empty
  have htake : text'.take first = text.take first := by
    obtain ⟨more, rfl⟩ := hfront
    exact List.take_append_of_le_length hempty.le
  exact ⟨hempty, htake ▸ h.status, htake ▸ h.length⟩

theorem exists_updateHeadRun (hlength : length ≤ raw.length) (st : UpdateHead) :
    ∃ found after, updateHeadRun raw length st = some (.ok found, after) ∧
      ∀ status bodyOffset contentLength, HeadSays (raw.take length) status bodyOffset contentLength ↔
        found = true ∧ after.status = status ∧ after.bodyOffset = bodyOffset ∧
          after.contentLength.toNat = contentLength := by
  have hpost : Post (updateHeadRun raw length) st _ fun _ _ => False := post_updateHeadRun hlength
  obtain ⟨r, after, hrun, hend⟩ := hpost.run
  rcases r with e | found
  · exact e.elim
  refine ⟨found, after, hrun, fun status bodyOffset contentLength => ?_⟩
  cases found with
  | true =>
    constructor
    · exact fun h => ⟨rfl, hend.unique h⟩
    · rintro ⟨-, rfl, rfl, rfl⟩
      exact hend
  | false => exact iff_of_false (hend _ _ _) nofun

/-- **The head parser is monotone.** It reads below the length alone, it finds what the string
says and nothing else, and a longer string changes neither what it found nor, once there is an
empty line, that it found nothing. -/
theorem updateHeadRun_monotone (raw : Bytes) (length : ℕ) (st : UpdateHead) (hlength : length ≤ raw.length) :
    ∃ found after, updateHeadRun raw length st = some (.ok found, after) ∧
      (∀ status bodyOffset contentLength, HeadSays (raw.take length) status bodyOffset contentLength ↔
        found = true ∧ after.status = status ∧ after.bodyOffset = bodyOffset ∧ after.contentLength.toNat = contentLength) ∧
      ∀ raw' length' st', length' ≤ raw'.length → raw.take length <+: raw'.take length' →
        ∃ found' after', updateHeadRun raw' length' st' = some (.ok found', after') ∧
          (found = true → found' = true ∧ after'.status = after.status ∧ after'.bodyOffset = after.bodyOffset ∧
            after'.contentLength = after.contentLength) ∧
          (found = false → (∃ j e, EmptyLine (raw.take length) j e) → found' = false) := by
  obtain ⟨found, after, hrun, hfound⟩ := exists_updateHeadRun hlength st
  refine ⟨found, after, hrun, hfound, fun raw' length' st' hlength' hfront => ?_⟩
  obtain ⟨found', after', hrun', hfound'⟩ := exists_updateHeadRun hlength' st'
  refine ⟨found', after', hrun', fun htrue => ?_, fun hfalse ⟨j, e, hline⟩ => ?_⟩
  · have hgiven := ((hfound _ _ _).2 ⟨htrue, rfl, rfl, rfl⟩).mono hfront
    obtain ⟨htrue', hstatus, hoffset, hcontent⟩ := (hfound' _ _ _).1 hgiven
    exact ⟨htrue', hstatus, hoffset, UInt32.toNat_inj.1 hcontent⟩
  · refine Bool.eq_false_of_not_eq_true fun htrue' => ?_
    have hgiven := ((hfound' _ _ _).2 ⟨htrue', rfl, rfl, rfl⟩).of_longer hfront hline
    exact absurd (hfalse.symm.trans ((hfound _ _ _).1 hgiven).1) Bool.false_ne_true

/-- The head is found in a buffer without its body, and again with two bytes of it. -/
theorem updateHeadRun_monotone_demo :
    let raw := ascii "HTTP/1.1 200 OK\r\nContent-Length: 2\r\n\r\n"
    ∃ found after, updateHeadRun raw 38 ⟨0, 0, 0, 0⟩ = some (.ok found, after) ∧
      (∀ status bodyOffset contentLength, HeadSays (raw.take 38) status bodyOffset contentLength ↔
        found = true ∧ after.status = status ∧ after.bodyOffset = bodyOffset ∧ after.contentLength.toNat = contentLength) ∧
      ∃ found' after', updateHeadRun (raw ++ ascii "ok") 40 ⟨0, 0, 0, 0⟩ = some (.ok found', after') ∧
        (found = true → found' = true ∧ after'.status = after.status ∧ after'.bodyOffset = after.bodyOffset ∧
          after'.contentLength = after.contentLength) ∧
        (found = false → (∃ j e, EmptyLine (raw.take 38) j e) → found' = false) := by
  obtain ⟨found, after, hrun, hfound, hlonger⟩ := updateHeadRun_monotone
    (ascii "HTTP/1.1 200 OK\r\nContent-Length: 2\r\n\r\n") 38 ⟨0, 0, 0, 0⟩ (by decide)
  exact ⟨found, after, hrun, hfound,
    hlonger (ascii "HTTP/1.1 200 OK\r\nContent-Length: 2\r\n\r\nok") 40 ⟨0, 0, 0, 0⟩ (by decide) (by decide)⟩

/-- A field that is a number, with blanks around it. -/
def PlainField (field : Bytes) : Prop :=
  ∃ blanks digits rest, field = blanks ++ digits ++ rest ∧ (∀ b ∈ blanks, b = 32 ∨ b = 9) ∧ digits ≠ [] ∧
    (∀ c ∈ digits, decimalDigit c) ∧ ∀ b ∈ rest, b = 32 ∨ b = 9 ∨ b = 13

/-- A field may be no number and the head is found all the same: the digits end where they end. -/
theorem updateHeadRun_trailing : ¬∀ raw after, updateHeadRun raw raw.length ⟨0, 0, 0, 0⟩ = some (.ok true, after) →
    ∀ field ∈ headFields (raw.take after.bodyOffset), PlainField field := by
  intro h
  have hrun : updateHeadRun (ascii "HTTP/1.1 200 OK\nContent-Length: 12abc\n\n") 39 ⟨0, 0, 0, 0⟩ =
      some (.ok true, ⟨39, 200, 39, 12⟩) := by decide +kernel
  have hfield : ascii " 12abc" ∈ headFields ((ascii "HTTP/1.1 200 OK\nContent-Length: 12abc\n\n").take 39) := by
    decide +kernel
  obtain ⟨blanks, digits, rest, hsplit, hblanks, -, hdigits, hrest⟩ := h _ _ hrun _ hfield
  have hmem : 97 ∈ blanks ++ digits ++ rest := hsplit ▸ (by decide : (97 : UInt8) ∈ ascii " 12abc")
  rw [List.mem_append, List.mem_append] at hmem
  rcases hmem with (hb | hd) | hr
  · exact absurd (hblanks 97 hb) (by decide)
  · exact absurd (hdigits 97 hd) (by decide)
  · exact absurd (hrest 97 hr) (by decide)

end

end V9xRemote
