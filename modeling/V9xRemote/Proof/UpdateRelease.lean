import V9xRemote.Spec.UpdateRelease
import V9xRemote.Proof.UpdateIni
import V9xRemote.Lib.Cursor

/-!
# What a release file is accepted as

The text is its signed part, the line `[Signature]`, and the signature's line; nothing else
has this form, and the fields are the first matches in the signed part, each no longer than
its buffer.
-/

namespace V9xRemote

open Bytes Cursor

/-! ## Hex digits -/

/-- The value of a hex digit of either case. -/
def hexDigitValue (c : UInt8) : ℕ :=
  if c ≤ 57 then c.toNat - 48 else if c ≤ 70 then c.toNat - 55 else c.toNat - 87

/-- The bytes that pairs of hex digits spell. -/
def hexSpelled : Bytes → Bytes
  | high :: low :: rest => UInt8.ofNat (16 * hexDigitValue high + hexDigitValue low) :: hexSpelled rest
  | _ => []

theorem releaseHexValues : ∀ n : Fin 256,
    let c := UInt8.ofNat n.val
    releaseHexValue c = if relayIsHex c then some (UInt8.ofNat (hexDigitValue c)) else none := by
  decide +kernel

theorem releaseHexValue_eq (c : UInt8) :
    releaseHexValue c = if relayIsHex c then some (UInt8.ofNat (hexDigitValue c)) else none := by
  have h := releaseHexValues ⟨c.toNat, c.toNat_lt⟩
  simpa only [UInt8.ofNat_toNat] using h

theorem hexDigitValues : ∀ n : Fin 256, relayIsHex (UInt8.ofNat n.val) → hexDigitValue (UInt8.ofNat n.val) < 16 := by
  decide +kernel

theorem hexDigitValue_lt {c : UInt8} (h : relayIsHex c = true) : hexDigitValue c < 16 := by
  have hall := hexDigitValues ⟨c.toNat, c.toNat_lt⟩
  simp only [UInt8.ofNat_toNat] at hall
  exact hall h

theorem hexPairs : ∀ high low : Fin 16,
    UInt8.ofNat high.val <<< 4 ||| UInt8.ofNat low.val = UInt8.ofNat (16 * high.val + low.val) := by
  decide +kernel

/-- **The digits are read** where all of them are. -/
theorem releaseHexPairs_iff (count : ℕ) (hex bytes : Bytes) :
    releaseHexPairs count hex = some (bytes, []) ↔
      hex.length = 2 * count ∧ (∀ c ∈ hex, relayIsHex c = true) ∧ bytes = hexSpelled hex := by
  induction count generalizing hex bytes with
  | zero =>
    rw [releaseHexPairs, Option.some_inj, Prod.mk.injEq]
    constructor
    · rintro ⟨rfl, rfl⟩
      exact ⟨rfl, List.forall_mem_nil _, rfl⟩
    · rintro ⟨hlength, -, rfl⟩
      obtain rfl := List.length_eq_zero_iff.1 hlength
      exact ⟨rfl, rfl⟩
  | succ count ih =>
    match hex with
    | [] => exact iff_of_false nofun fun h => absurd h.1 (by simp)
    | [c] => exact iff_of_false nofun fun h => absurd h.1 (by simp; omega)
    | high :: low :: rest =>
      rw [releaseHexPairs, releaseHexValue_eq, releaseHexValue_eq]
      by_cases hhigh : relayIsHex high = true
      swap
      · rw [if_neg hhigh]
        exact iff_of_false nofun fun h => hhigh (h.2.1 high List.mem_cons_self)
      by_cases hlow : relayIsHex low = true
      swap
      · rw [if_pos hhigh, if_neg hlow]
        exact iff_of_false nofun fun h => hlow (h.2.1 low (List.mem_cons_of_mem _ List.mem_cons_self))
      have hpair := hexPairs ⟨_, hexDigitValue_lt hhigh⟩ ⟨_, hexDigitValue_lt hlow⟩
      dsimp only at hpair
      rw [if_pos hhigh, if_pos hlow, Option.bind_eq_bind, Option.bind_some, Option.bind_eq_bind, Option.bind_some, hpair,
        hexSpelled, List.length_cons, List.length_cons, List.forall_mem_cons, List.forall_mem_cons]
      constructor
      · intro h
        obtain ⟨⟨inner, tail⟩, hinner, hsome⟩ := Option.bind_eq_some_iff.1 h
        obtain ⟨rfl, rfl⟩ := Prod.mk.inj (Option.some.inj hsome)
        obtain ⟨hlength, hall, rfl⟩ := (ih rest inner).1 hinner
        exact ⟨by omega, ⟨hhigh, hlow, hall⟩, rfl⟩
      · rintro ⟨hlength, ⟨-, -, hall⟩, rfl⟩
        rw [(ih rest _).2 ⟨by omega, hall, rfl⟩]
        rfl

theorem releaseHexBytes_iff (hex : Bytes) (count : ℕ) (bytes : Bytes) :
    releaseHexBytes hex count = some bytes ↔
      hex.length = 2 * count ∧ (∀ c ∈ hex, relayIsHex c = true) ∧ bytes = hexSpelled hex := by
  rw [← releaseHexPairs_iff, releaseHexBytes]
  split
  · rename_i found heq
    rw [heq, Option.some_inj, Option.some_inj, Prod.mk.injEq]
    exact (and_iff_left rfl).symm
  · rename_i hnone
    refine iff_of_false nofun fun h => hnone bytes h

/-! ## The line `[Signature]` -/

/-- `[Signature]` starts a line at a place in a text. -/
def SignatureLine (text : Bytes) (place : ℕ) : Prop :=
  (place = 0 ∨ text.at' (place - 1) = 10) ∧ releaseSignature.isPrefixOf (text.drop place)

/-- The same, of the rest of a text at a position. -/
def SignatureAhead (before : UInt8) (position : ℕ) (rest : Bytes) (i : ℕ) : Prop :=
  (if i = 0 then position = 0 ∨ before = 10 else rest.at' (i - 1) = 10) ∧ releaseSignature.isPrefixOf (rest.drop i)

variable {before c : UInt8} {position i k : ℕ} {rest : Bytes}

theorem signatureAhead_nil : ¬SignatureAhead before position [] i := fun h => by
  have hprefix := h.2
  rw [List.drop_nil] at hprefix
  exact absurd hprefix (by decide)

theorem signatureAhead_succ : SignatureAhead before position (c :: rest) (i + 1) ↔ SignatureAhead c (position + 1) rest i := by
  unfold SignatureAhead
  cases i with
  | zero =>
    have hpos : ¬position + 1 = 0 := Nat.succ_ne_zero _
    simp only [hpos, false_or]
    exact Iff.rfl
  | succ i => exact Iff.rfl

/-- Behind the first such line there is no other. -/
theorem releaseSection_found (before : UInt8) (position k : ℕ) (rest : Bytes) (found : Option ℕ) :
    releaseSection before position (some k) rest = some found ↔
      0 ∉ rest ∧ (∀ i, ¬SignatureAhead before position rest i) ∧ found = some k := by
  induction rest generalizing before position with
  | nil =>
    rw [releaseSection, Option.some_inj]
    exact ⟨fun h => ⟨List.not_mem_nil, fun _ => signatureAhead_nil, h.symm⟩, fun h => h.2.2.symm⟩
  | cons c rest ih =>
    rw [releaseSection, List.mem_cons, not_or]
    by_cases hzero : c = 0
    · rw [if_pos hzero]
      exact iff_of_false nofun fun h => h.1.1 hzero.symm
    rw [if_neg hzero]
    by_cases hhere : (position = 0 ∨ before = 10) ∧ releaseSignature.isPrefixOf (c :: rest) = true
    · rw [if_pos hhere, Option.isSome_some, if_pos rfl]
      exact iff_of_false nofun fun h => h.2.1 0 hhere
    rw [if_neg hhere, ih]
    constructor
    · rintro ⟨hrest, hnone, rfl⟩
      refine ⟨⟨fun h => hzero h.symm, hrest⟩, fun i hi => ?_, rfl⟩
      cases i with
      | zero => exact hhere hi
      | succ i => exact hnone i (signatureAhead_succ.1 hi)
    · rintro ⟨⟨-, hrest⟩, hnone, rfl⟩
      exact ⟨hrest, fun i hi => hnone (i + 1) (signatureAhead_succ.2 hi), rfl⟩

/-- **The one such line** of what is left. -/
theorem releaseSection_ahead (before : UInt8) (position k : ℕ) (rest : Bytes) :
    releaseSection before position none rest = some (some k) ↔
      0 ∉ rest ∧ ∃ i, k = position + i ∧ ∀ j, SignatureAhead before position rest j ↔ j = i := by
  induction rest generalizing before position with
  | nil =>
    refine iff_of_false nofun ?_
    rintro ⟨-, i, -, hall⟩
    exact signatureAhead_nil ((hall i).2 rfl)
  | cons c rest ih =>
    rw [releaseSection, List.mem_cons, not_or]
    by_cases hzero : c = 0
    · rw [if_pos hzero]
      exact iff_of_false nofun fun h => h.1.1 hzero.symm
    rw [if_neg hzero]
    by_cases hhere : (position = 0 ∨ before = 10) ∧ releaseSignature.isPrefixOf (c :: rest) = true
    · rw [if_pos hhere, Option.isSome_none, if_neg Bool.false_ne_true, releaseSection_found, Option.some_inj]
      constructor
      · rintro ⟨hrest, hnone, rfl⟩
        refine ⟨⟨fun h => hzero h.symm, hrest⟩, 0, rfl, fun j => ⟨fun hj => ?_, fun hj => hj ▸ hhere⟩⟩
        cases j with
        | zero => rfl
        | succ j => exact absurd (signatureAhead_succ.1 hj) (hnone j)
      · rintro ⟨⟨-, hrest⟩, i, rfl, hall⟩
        obtain rfl : 0 = i := (hall 0).1 hhere
        refine ⟨hrest, fun j hj => ?_, rfl⟩
        exact absurd ((hall (j + 1)).1 (signatureAhead_succ.2 hj)) (Nat.succ_ne_zero j)
    rw [if_neg hhere, ih]
    constructor
    · rintro ⟨hrest, i, rfl, hall⟩
      refine ⟨⟨fun h => hzero h.symm, hrest⟩, i + 1, by omega, fun j => ?_⟩
      cases j with
      | zero => exact iff_of_false hhere (by omega)
      | succ j => rw [signatureAhead_succ, hall, Nat.add_right_cancel_iff]
    · rintro ⟨⟨-, hrest⟩, i, rfl, hall⟩
      cases i with
      | zero => exact absurd ((hall 0).2 rfl) hhere
      | succ i =>
        refine ⟨hrest, i, by omega, fun j => ?_⟩
        rw [← signatureAhead_succ, hall, Nat.add_right_cancel_iff]

/-- **Where the signature starts.** -/
theorem releaseSection_iff (text : Bytes) (k : ℕ) :
    releaseSection 0 0 none text = some (some k) ↔ 0 ∉ text ∧ ∀ place, SignatureLine text place ↔ place = k := by
  have hsame : ∀ place, SignatureAhead 0 0 text place ↔ SignatureLine text place := fun place => by
    unfold SignatureAhead SignatureLine
    by_cases hplace : place = 0
    · rw [if_pos hplace, hplace]
      exact and_congr_left fun _ => iff_of_true (Or.inl rfl) (Or.inl rfl)
    · rw [if_neg hplace, or_iff_right hplace]
  rw [releaseSection_ahead]
  simp only [hsame, Nat.zero_add, exists_eq_left']

/-! ## The signature's line -/

/-- A byte or nothing. -/
def Maybe (value : UInt8) (t : Bytes) : Prop := t = [] ∨ t = [value]

/-- A byte that may stand there is skipped. -/
theorem releaseSkip_at {text t : Bytes} {position : ℕ} {value : UInt8} (h : At text position t) :
    ∃ skipped left, t = skipped ++ left ∧ Maybe value skipped ∧
      releaseSkip text position value = position + skipped.length ∧ At text (position + skipped.length) left := by
  unfold releaseSkip
  cases t with
  | nil =>
    have hend := h.done
    rw [if_neg fun hgo => absurd hgo.1 (by omega)]
    exact ⟨[], [], rfl, Or.inl rfl, rfl, h⟩
  | cons c rest =>
    have hroom := h.more (List.cons_ne_nil c rest)
    have hhead : text.at' position = c := h.at' 0
    by_cases hc : c = value
    · rw [if_pos ⟨hroom, hhead.trans hc⟩]
      have hnext : At text (position + [c].length) rest := (show At text position ([c] ++ rest) from h).next
      exact ⟨[c], rest, rfl, Or.inr (by rw [hc]), rfl, hnext⟩
    · rw [if_neg fun hgo => hc (hhead.symm.trans hgo.2)]
      exact ⟨[], c :: rest, rfl, Or.inl rfl, rfl, h⟩

/-- It is skipped whole where none follows it. -/
theorem releaseSkip_maybe {text skipped left : Bytes} {position : ℕ} {value : UInt8}
    (h : At text position (skipped ++ left)) (hskipped : Maybe value skipped) (hleft : left.head? ≠ some value) :
    releaseSkip text position value = position + skipped.length := by
  unfold releaseSkip
  rcases hskipped with rfl | rfl
  · refine if_neg fun hgo => hleft ?_
    cases left with
    | nil => exact absurd h.done (by omega)
    | cons c rest =>
      have hhead : text.at' position = c := h.at' 0
      rw [List.head?_cons, ← hhead, hgo.2]
  · have hroom := h.more (by simp)
    exact if_pos ⟨hroom, h.at' 0⟩

/-- What follows `[Signature]`: its line end, the key's name, the digits, and at most one line
end. -/
structure SignatureTail (t hex : Bytes) : Prop where
  shape : ∃ cr cr' lf, Maybe 13 cr ∧ Maybe 13 cr' ∧ Maybe 10 lf ∧
    t = cr ++ (10 :: (releaseKeyName ++ (hex ++ (cr' ++ lf))))
  length : hex.length = releaseSigHex
  digits : ∀ c ∈ hex, relayIsHex c = true

theorem hex_not_line_end {hex : Bytes} (hdigits : ∀ c ∈ hex, relayIsHex c = true) :
    ∀ c ∈ hex, (c != 13 && c != 10) = true := by
  intro c hc
  have hhex := hdigits c hc
  rw [Bool.and_eq_true, bne_iff_ne, bne_iff_ne]
  constructor <;> rintro rfl <;> exact absurd hhex (by decide)

/-- The digits are what stands before a line end. -/
theorem takeWhile_hex {hex cr lf : Bytes} (hcr : Maybe 13 cr) (hlf : Maybe 10 lf)
    (hdigits : ∀ c ∈ hex, relayIsHex c = true) :
    (hex ++ (cr ++ lf)).takeWhile (fun c => c != 13 && c != 10) = hex := by
  rw [List.takeWhile_append_of_pos (hex_not_line_end hdigits)]
  have hnone : (cr ++ lf).takeWhile (fun c => c != 13 && c != 10) = [] := by
    rcases hcr with rfl | rfl <;> rcases hlf with rfl | rfl <;> rfl
  rw [hnone, List.append_nil]

section

variable {verify : Verify} {publicKey text t : Bytes} {n : ℕ}

/-- What is checked behind the line `[Signature]`. -/
theorem releaseVerify_tail (hsect : releaseSection 0 0 none text = some (some k))
    (h : At text (k + releaseSignature.length) t) :
    releaseVerify verify publicKey text = some n ↔
      ∃ hex, SignatureTail t hex ∧ verify (hexSpelled hex) publicKey (text.take k) = true ∧ n = k := by
  unfold releaseVerify
  rw [hsect]
  simp only [Option.bind_eq_bind, Option.bind_some]
  constructor
  · intro hrun
    obtain ⟨cr, left, rfl, hcr, hskip, hat⟩ := @releaseSkip_at text t _ 13 h
    rw [hskip] at hrun
    split at hrun
    · cases hrun
    rename_i hfeed
    rw [not_or, not_le, not_not] at hfeed
    split at hrun
    · cases hrun
    rename_i hkey
    cases left with
    | nil => exact absurd hat.done (by omega)
    | cons c rest =>
      obtain rfl : c = 10 := (hat.at' 0).symm.trans hfeed.2
      have hrest : At text (k + releaseSignature.length + cr.length + 1) rest :=
        (show At text _ ([10] ++ rest) from hat).next
      rw [Bool.not_eq_true', Bool.not_eq_false, releaseAt, hrest.drop, List.isPrefixOf_iff_prefix] at hkey
      obtain ⟨line, rfl⟩ := hkey
      have hline := hrest.next
      rw [hline.drop] at hrun
      generalize hhex : (line.takeWhile fun c => c != 13 && c != 10) = hex at hrun
      have hsplit := List.takeWhile_append_dropWhile (p := fun c : UInt8 => c != 13 && c != 10) (l := line)
      rw [hhex] at hsplit
      generalize line.dropWhile (fun c => c != 13 && c != 10) = after at hsplit
      obtain rfl := hsplit
      split at hrun
      · cases hrun
      rename_i hlength
      rw [not_not] at hlength
      have hafter := hline.next
      obtain ⟨cr', left', rfl, hcr', hskip', hat'⟩ := @releaseSkip_at _ _ _ 13 hafter
      obtain ⟨lf, last, rfl, hlf, hskip'', hat''⟩ := @releaseSkip_at _ _ _ 10 hat'
      rw [hskip', hskip''] at hrun
      split at hrun
      · cases hrun
      rename_i hend
      rw [not_not] at hend
      have hlast : last = [] := by
        have := hat''.length
        exact List.length_eq_zero_iff.1 (by omega)
      obtain ⟨signature, hsignature, hverified⟩ := Option.bind_eq_some_iff.1 hrun
      obtain ⟨-, hdigits, rfl⟩ := (releaseHexBytes_iff _ _ _).1 hsignature
      refine ⟨hex, ⟨⟨cr, cr', lf, hcr, hcr', hlf, ?_⟩, hlength, hdigits⟩, ?_⟩
      · rw [hlast, List.append_nil]
      · split at hverified
        · rename_i hgood
          exact ⟨hgood, (Option.some.inj hverified).symm⟩
        · cases hverified
  · rintro ⟨hex, ⟨⟨cr, cr', lf, hcr, hcr', hlf, rfl⟩, hlength, hdigits⟩, hgood, rfl⟩
    have hskip := releaseSkip_maybe h hcr (by simp)
    have hat := h.next
    have hroom := hat.more (List.cons_ne_nil _ _)
    have hfeed : text.at' (n + releaseSignature.length + cr.length) = 10 := hat.at' 0
    have hrest : At text (n + releaseSignature.length + cr.length + 1) (releaseKeyName ++ (hex ++ (cr' ++ lf))) :=
      (show At text _ ([10] ++ _) from hat).next
    have hkey : releaseAt text (n + releaseSignature.length + cr.length + 1) releaseKeyName = true := by
      rw [releaseAt, hrest.drop, List.isPrefixOf_iff_prefix]
      exact List.prefix_append _ _
    have hline := hrest.next
    have hafter := hline.next
    have hlfhead : lf.head? ≠ some 13 := by rcases hlf with rfl | rfl <;> simp
    have hskip' := releaseSkip_maybe hafter hcr' hlfhead
    have hlast := hafter.next
    rw [← List.append_nil lf] at hlast
    have hskip'' := releaseSkip_maybe hlast hlf (by simp)
    have hend := hlast.next.done
    rw [hskip, if_neg (by rw [not_or, not_le, not_not]; exact ⟨hroom, hfeed⟩), if_neg (by rw [hkey]; decide), hline.drop,
      takeWhile_hex hcr' hlf hdigits, if_neg (not_not.2 hlength), hskip', hskip'', if_neg (not_not.2 hend),
      (releaseHexBytes_iff hex 64 _).2 ⟨hlength, hdigits, rfl⟩, Option.bind_some, if_pos hgood]

/-- A release file: its signed part, the line `[Signature]`, which is the only one, and the line
behind it. -/
structure ReleaseForm (text signed hex : Bytes) : Prop where
  noNul : 0 ∉ text
  shape : ∃ tail, text = signed ++ (releaseSignature ++ tail) ∧ SignatureTail tail hex
  lines : signed = [] ∨ signed.getLast? = some 10
  only : ∀ place, SignatureLine text place → place = signed.length

/-- **A release file is accepted** exactly when it has this form and its signature is good. -/
theorem releaseVerify_iff (verify : Verify) (publicKey text : Bytes) (n : ℕ) :
    releaseVerify verify publicKey text = some n ↔
      ∃ signed hex, ReleaseForm text signed hex ∧ verify (hexSpelled hex) publicKey signed = true ∧ n = signed.length := by
  constructor
  · intro hrun
    have hfound : ∃ k, releaseSection 0 0 none text = some (some k) := by
      unfold releaseVerify at hrun
      obtain ⟨found, hfound, hrest⟩ := Option.bind_eq_some_iff.1 hrun
      obtain ⟨k, rfl, -⟩ := Option.bind_eq_some_iff.1 hrest
      exact ⟨k, hfound⟩
    obtain ⟨k, hsect⟩ := hfound
    obtain ⟨hzero, honly⟩ := (releaseSection_iff text k).1 hsect
    obtain ⟨hstart, hprefix⟩ := (honly k).2 rfl
    obtain ⟨tail, htail⟩ := List.isPrefixOf_iff_prefix.1 hprefix
    have hle : k ≤ text.length := by
      by_contra hpast
      rw [List.drop_eq_nil_of_le (by omega)] at htail
      exact absurd (List.append_eq_nil_iff.1 htail).1 (by decide)
    have hat : At text k (releaseSignature ++ tail) := ⟨hle, htail.symm⟩
    obtain ⟨hex, hform, hgood, rfl⟩ := (releaseVerify_tail hsect hat.next).1 hrun
    have hlength : (text.take n).length = n := by rw [List.length_take, Nat.min_eq_left hle]
    refine ⟨text.take n, hex, ⟨hzero, ⟨tail, ?_, hform⟩, ?_, fun place hplace => ?_⟩, hgood, hlength.symm⟩
    · rw [htail, List.take_append_drop]
    · rcases hstart with rfl | hfeed
      · exact Or.inl List.take_zero
      · by_cases hn : n = 0
        · rw [hn]
          exact Or.inl List.take_zero
        · have hlast := Scan.slice_getLast (s := text) (show 0 < n by omega) hle
          rw [hfeed] at hlast
          exact Or.inr hlast
    · rw [hlength]
      exact (honly place).1 hplace
  · rintro ⟨signed, hex, ⟨hzero, ⟨tail, htext, hform⟩, hlines, honly⟩, hgood, rfl⟩
    have hat : At text signed.length (releaseSignature ++ tail) := ⟨by rw [htext, List.length_append]; omega, by
      rw [htext, List.drop_left]⟩
    have hline : SignatureLine text signed.length := by
      refine ⟨?_, ?_⟩
      · rcases hlines with rfl | hlast
        · exact Or.inl rfl
        · have hne : signed ≠ [] := by
            rintro rfl
            cases hlast
          have hpos := List.length_pos_of_ne_nil hne
          have hslice := Scan.slice_getLast (s := text) hpos hat.le
          have htake : Scan.slice text 0 signed.length = signed := by
            rw [Scan.slice, List.drop_zero, Nat.sub_zero, htext, List.take_left]
          rw [htake, hlast] at hslice
          exact Or.inr (Option.some.inj hslice).symm
      · rw [hat.drop, List.isPrefixOf_iff_prefix]
        exact List.prefix_append _ _
    have hsect := (releaseSection_iff text signed.length).2
      ⟨hzero, fun place => ⟨honly place, fun h => h ▸ hline⟩⟩
    refine (releaseVerify_tail hsect hat.next).2 ⟨hex, hform, ?_, rfl⟩
    rw [htext, List.take_left]
    exact hgood

end

/-! ## Decimal numbers -/

def decimalDigit (c : UInt8) : Prop := 48 ≤ c ∧ c ≤ 57

instance (c : UInt8) : Decidable (decimalDigit c) := inferInstanceAs (Decidable (_ ∧ _))

def undecimalFrom (n : ℕ) (digits : Bytes) : ℕ := digits.foldl (fun n b => 10 * n + (b.toNat - 48)) n

theorem le_undecimalFrom (n : ℕ) (digits : Bytes) : n ≤ undecimalFrom n digits := by
  induction digits generalizing n with
  | nil => exact le_rfl
  | cons c rest ih =>
    have hrest := ih (10 * n + (c.toNat - 48))
    rw [undecimalFrom, List.foldl_cons]
    exact le_trans (by omega) hrest

/-- The digits behind a number below the bound. -/
theorem releaseParseDigits_iff (result value : UInt32) (digits : Bytes) :
    releaseParseDigits result digits = some value ↔ (∀ c ∈ digits, decimalDigit c) ∧
      undecimalFrom result.toNat digits = value.toNat ∧ (digits = [] ∨ undecimalFrom result.toNat digits ≤ 4294967289) := by
  induction digits generalizing result with
  | nil =>
    rw [releaseParseDigits, Option.some_inj, ← UInt32.toNat_inj]
    exact ⟨fun h => ⟨List.forall_mem_nil _, h, Or.inl rfl⟩, fun h => h.2.1⟩
  | cons c rest ih =>
    have hbound : (0x19999998 : UInt32).toNat = 429496728 := rfl
    rw [releaseParseDigits, List.forall_mem_cons, undecimalFrom, List.foldl_cons]
    by_cases hbad : c < 48 ∨ c > 57 ∨ result > 0x19999998
    · rw [if_pos hbad]
      refine iff_of_false nofun fun h => ?_
      obtain ⟨⟨⟨hlow, hhigh⟩, -⟩, -, hsmall⟩ := h
      have hle := le_undecimalFrom (10 * result.toNat + (c.toNat - 48)) rest
      rw [or_iff_right (List.cons_ne_nil c rest)] at hsmall
      rcases hbad with hbad | hbad | hbad
      · exact absurd hbad (UInt8.not_lt.2 hlow)
      · exact absurd hbad (UInt8.not_lt.2 hhigh)
      · have hlarge := UInt32.lt_iff_toNat_lt.1 hbad
        change undecimalFrom _ _ ≤ _ at hsmall
        omega
    rw [if_neg hbad]
    simp only [not_or, UInt8.not_lt, gt_iff_lt, UInt32.not_lt] at hbad
    obtain ⟨hlow, hhigh, hsmall⟩ := hbad
    have hdigit : c.toNat ≤ 57 := UInt8.le_iff_toNat_le.1 hhigh
    have hresult := UInt32.le_iff_toNat_le.1 hsmall
    have hnext : (result * 10 + UInt32.ofNat (c.toNat - 48)).toNat = 10 * result.toNat + (c.toNat - 48) := by
      have hten : (10 : UInt32).toNat = 10 := rfl
      have hc : (UInt32.ofNat (c.toNat - 48)).toNat = c.toNat - 48 := UInt32.toNat_ofNat_of_lt' (show c.toNat - 48 < 2 ^ 32 by omega)
      have hmul : result.toNat * 10 % 2 ^ 32 = result.toNat * 10 := Nat.mod_eq_of_lt (by omega)
      rw [UInt32.toNat_add, UInt32.toNat_mul, hten, hc, hmul, Nat.mod_eq_of_lt (by omega)]
      omega
    rw [ih, hnext, or_iff_right (List.cons_ne_nil c rest)]
    constructor
    · rintro ⟨hall, hvalue, hfits⟩
      refine ⟨⟨⟨hlow, hhigh⟩, hall⟩, hvalue, ?_⟩
      rcases hfits with rfl | hfits
      · change 10 * result.toNat + (c.toNat - 48) ≤ _
        omega
      · exact hfits
    · rintro ⟨⟨-, hall⟩, hvalue, hfits⟩
      exact ⟨hall, hvalue, Or.inr hfits⟩

/-- **A size is read** up to the largest number whose front part passes the check. -/
theorem releaseParseU32_iff (digits : Bytes) (value : UInt32) : releaseParseU32 digits = some value ↔
    digits ≠ [] ∧ (∀ c ∈ digits, decimalDigit c) ∧ undecimal digits = value.toNat ∧ undecimal digits ≤ 4294967289 := by
  unfold releaseParseU32
  by_cases hempty : digits = []
  · rw [if_pos hempty]
    exact iff_of_false nofun fun h => h.1 hempty
  rw [if_neg hempty, releaseParseDigits_iff, or_iff_right hempty]
  exact ⟨fun h => ⟨hempty, h⟩, fun h => h.2⟩

/-! ## The fields -/

/-- What the signed part says of a family's package. -/
structure ReleaseSays (signed app family : Bytes) (info : ReleaseInfo) : Prop where
  schema : iniFirst signed releaseMain (ascii "Schema") = some (ascii "1")
  app : iniFirst signed releaseMain (ascii "App") = some app
  version : iniFirst signed releaseMain (ascii "Version") = some info.version
  parsable : (updateVersionParse info.version).isSome
  file : iniFirst signed (ascii "Family." ++ family) (ascii "File") = some info.file
  plain : releasePlainName info.file
  size : ∃ digits, iniFirst signed (ascii "Family." ++ family) (ascii "Size") = some digits ∧ digits ≠ [] ∧
    (∀ c ∈ digits, decimalDigit c) ∧ undecimal digits = info.size.toNat ∧ undecimal digits ≤ 4294967289
  nonzero : info.size ≠ 0
  sha256 : ∃ hex, iniFirst signed (ascii "Family." ++ family) (ascii "Sha256") = some hex ∧ hex.length = 64 ∧
    (∀ c ∈ hex, relayIsHex c = true) ∧ info.sha256 = hexSpelled hex

/-- The fields are no longer than their buffers, and the family is a name that may be asked for. -/
structure ReleaseFits (signed app family : Bytes) (info : ReleaseInfo) : Prop where
  asked : releasePlainName family ∧ family.length ≤ releaseFamilyMax
  app : app.length < releaseValueMax
  version : info.version.length < releaseVersionMax
  file : info.file.length < releaseFileMax
  size : ∀ digits, iniFirst signed (ascii "Family." ++ family) (ascii "Size") = some digits →
    digits.length < releaseValueMax
  build : info.build = ((iniFirst signed releaseMain (ascii "Build")).filter
    fun build => decide (build.length < releaseBuildMax)).getD []

section

variable {text app family : Bytes} {n : ℕ} {info : ReleaseInfo}

/-- A field as the code reads it: the first match where it fits, of a text without a NUL. -/
theorem releaseValue_eq (hn : n ≤ text.length) (hzero : 0 ∉ text.take n) (sect key : Bytes) {capacity : ℕ}
    (hcapacity : 0 < capacity) : (updateIniRead text n sect key capacity).map cstr =
      (iniFirst (text.take n) sect key).filter fun value => decide (value.length < capacity) := by
  rw [updateIniRead_eq hn, updateIniValue_eq _ _ _ hcapacity]
  cases hfirst : iniFirst (text.take n) sect key with
  | none => rfl
  | some found =>
    have hcstr : cstr found = found := by
      rw [cstr, List.takeWhile_eq_self_iff]
      intro b hb
      rw [decide_eq_true_eq]
      rintro rfl
      exact hzero (iniFirst_mem hfirst hb)
    rw [Option.filter_some]
    split
    · rw [Option.map_some, hcstr]
    · rfl

theorem releaseValue_iff (hn : n ≤ text.length) (hzero : 0 ∉ text.take n) (sect key : Bytes) {capacity : ℕ}
    (hcapacity : 0 < capacity) (value : Bytes) : (updateIniRead text n sect key capacity).map cstr = some value ↔
      iniFirst (text.take n) sect key = some value ∧ value.length < capacity := by
  rw [releaseValue_eq hn hzero _ _ hcapacity, Option.filter_eq_some_iff, decide_eq_true_eq]

theorem releaseFamilySection_iff (family sect : Bytes) :
    releaseFamilySection family = some sect ↔ sect = ascii "Family." ++ family ∧ family.length ≤ releaseFamilyMax := by
  have hlength : (ascii "Family." ++ family).length = 7 + family.length := List.length_append
  unfold releaseFamilySection
  dsimp only
  rw [hlength]
  unfold releaseSectionMax releaseFamilyMax
  split
  · rw [Option.some_inj]
    exact ⟨fun h => ⟨h.symm, by omega⟩, fun h => h.1.symm⟩
  · exact iff_of_false nofun fun h => absurd h.2 (by omega)

/-- **The fields that are read** are what the signed part says, where they fit. -/
theorem releaseRead_iff (hn : n ≤ text.length) (hzero : 0 ∉ text.take n) :
    releaseRead text n app family = some info ↔
      ReleaseSays (text.take n) app family info ∧ ReleaseFits (text.take n) app family info := by
  have hvalue := fun sect key (capacity : ℕ) hcapacity value =>
    @releaseValue_iff text n hn hzero sect key capacity hcapacity value
  have hone : (ascii "1").length < releaseValueMax := by decide
  have hparses : ∀ version, ¬(updateVersionParse version).isNone = true ↔ (updateVersionParse version).isSome := fun version => by
    cases updateVersionParse version <;> simp
  unfold releaseRead
  simp only [Option.bind_eq_bind, Option.bind_eq_some_iff, Option.bind_none, Option.ite_none_left_eq_some, pure,
    Option.some_inj, hvalue _ _ releaseValueMax (by decide), hvalue _ _ releaseVersionMax (by decide),
    hvalue _ _ releaseFileMax (by decide), releaseValue_eq hn hzero _ _ (show 0 < releaseBuildMax by decide),
    releaseHexBytes_iff, releaseParseU32_iff, releaseFamilySection_iff, ne_eq, not_not, Bool.not_eq_true', Bool.not_eq_false,
    hparses]
  constructor
  · rintro ⟨_, ⟨hschema, -⟩, rfl, _, ⟨happ, hfitsApp⟩, rfl, version, ⟨hversion, hfitsVersion⟩, hparsable, hplainFamily, _,
      ⟨rfl, hfamily⟩, file, ⟨hfile, hfitsFile⟩, hplain, digits, ⟨hsize, hfitsSize⟩, size, ⟨hdigits, hnumber⟩, hnonzero,
      hex, ⟨hsha, -⟩, _, ⟨hhex, hspelled, rfl⟩, rfl⟩
    refine ⟨⟨hschema, happ, hversion, hparsable, hfile, hplain, ⟨digits, hsize, hdigits, hnumber⟩, hnonzero,
      ⟨hex, hsha, hhex, hspelled, rfl⟩⟩, ⟨⟨hplainFamily, hfamily⟩, hfitsApp, hfitsVersion, hfitsFile, fun found hfound => ?_, rfl⟩⟩
    obtain rfl := Option.some.inj (hsize.symm.trans hfound)
    exact hfitsSize
  · rintro ⟨⟨hschema, happ, hversion, hparsable, hfile, hplain, ⟨digits, hsize, hdigits, hnumber⟩, hnonzero,
      ⟨hex, hsha, hhex, hspelled, hbytes⟩⟩, ⟨⟨hplainFamily, hfamily⟩, hfitsApp, hfitsVersion, hfitsFile, hfitsSize, hbuild⟩⟩
    have hfitsHex : hex.length < releaseValueMax := by
      rw [hhex]
      decide
    refine ⟨_, ⟨hschema, hone⟩, rfl, _, ⟨happ, hfitsApp⟩, rfl, _, ⟨hversion, hfitsVersion⟩, hparsable, hplainFamily, _,
      ⟨rfl, hfamily⟩, _, ⟨hfile, hfitsFile⟩, hplain, _, ⟨hsize, hfitsSize digits hsize⟩, _, ⟨hdigits, hnumber⟩, hnonzero,
      _, ⟨hsha, hfitsHex⟩, _, ⟨hhex, hspelled, rfl⟩, ?_⟩
    rw [← hbuild, ← hbytes]

end

/-! ## Acceptance -/

theorem ReleaseForm.signed_length {text signed hex : Bytes} (h : ReleaseForm text signed hex) :
    signed.length ≤ text.length ∧ text.take signed.length = signed ∧ 0 ∉ signed := by
  obtain ⟨tail, htext, -⟩ := h.shape
  refine ⟨by rw [htext, List.length_append]; omega, by rw [htext, List.take_left], fun hzero => h.noNul ?_⟩
  rw [htext]
  exact List.mem_append_left _ hzero

/-- **A release is accepted** exactly when it has the signed form, and gives exactly what its
signed part says in fields that fit their buffers. -/
theorem release_accepted_iff (verify : Verify) (publicKey text : Bytes) :
    (∀ n, releaseVerify verify publicKey text = some n ↔
      ∃ signed hex, ReleaseForm text signed hex ∧ verify (hexSpelled hex) publicKey signed = true ∧ n = signed.length) ∧
      ∀ signed hex, ReleaseForm text signed hex → ∀ app family,
        (∀ info, releaseRead text signed.length app family = some info ↔
          ReleaseSays signed app family info ∧ ReleaseFits signed app family info) ∧
          ∀ text' hex', ReleaseForm text' signed hex' →
            releaseRead text' signed.length app family = releaseRead text signed.length app family := by
  refine ⟨releaseVerify_iff verify publicKey text, fun signed hex h app family => ?_⟩
  have hread : ∀ text hex, ReleaseForm text signed hex → ∀ info, releaseRead text signed.length app family = some info ↔
      ReleaseSays signed app family info ∧ ReleaseFits signed app family info := fun text hex h info => by
    obtain ⟨hle, htake, hzero⟩ := h.signed_length
    have hiff := @releaseRead_iff text app family signed.length info hle (by rw [htake]; exact hzero)
    rwa [htake] at hiff
  exact ⟨hread text hex h, fun text' hex' h' => Option.ext fun info => by
    rw [hread text hex h, hread text' hex' h']⟩

/-- The signed part of a release file of this version. -/
def releaseSample (version : String) : Bytes :=
  ascii "[V9xRemoteRelease]\r\nSchema=1\r\nApp=v9x-remote-agent\r\nVersion=" ++ ascii version ++
    ascii "\r\n\r\n[Family.win32]\r\nFile=v9x.zip\r\nSize=347696\r\nSha256=" ++ List.replicate 64 48 ++ ascii "\r\n\r\n"

def releaseSampleText (version : String) : Bytes :=
  releaseSample version ++ (releaseSignature ++ (ascii "\r\nEd25519=" ++ List.replicate 128 48 ++ ascii "\r\n"))

def releaseSampleInfo (version : String) : ReleaseInfo :=
  ⟨ascii version, [], ascii "v9x.zip", 347696, List.replicate 32 0⟩

theorem releaseSample_form : ∀ version ∈ ["1.2.3", "10000.10000.10000"],
    ReleaseForm (releaseSampleText version) (releaseSample version) (List.replicate 128 48) := by
  intro version hversion
  have hsect : releaseSection 0 0 none (releaseSampleText version) = some (some (releaseSample version).length) := by
    rcases List.mem_pair.1 hversion with rfl | rfl <;> decide +kernel
  obtain ⟨hzero, honly⟩ := (releaseSection_iff _ _).1 hsect
  refine ⟨hzero, ⟨_, rfl, ⟨[13], [13], [10], Or.inr rfl, Or.inr rfl, Or.inr rfl, rfl⟩, List.length_replicate,
    fun c hc => ?_⟩, Or.inr ?_, fun place hplace => (honly place).1 hplace⟩
  · obtain rfl := List.eq_of_mem_replicate hc
    decide
  · rw [releaseSample, List.getLast?_append]
    rfl

/-- What the sample says, section by section. -/
def releaseSampleEntries (version : String) : List IniEntry :=
  [⟨releaseMain, ascii "Schema", ascii "1"⟩, ⟨releaseMain, ascii "App", ascii "v9x-remote-agent"⟩,
    ⟨releaseMain, ascii "Version", ascii version⟩, ⟨ascii "Family.win32", ascii "File", ascii "v9x.zip"⟩,
    ⟨ascii "Family.win32", ascii "Size", ascii "347696"⟩,
    ⟨ascii "Family.win32", ascii "Sha256", List.replicate 64 48⟩]

/-- The sample is parsed once; a field is then found among its entries. -/
theorem releaseSample_first {version : String} (hversion : version ∈ ["1.2.3", "10000.10000.10000"]) (sect key : Bytes) :
    iniFirst (releaseSample version) sect key = ((releaseSampleEntries version).find? fun entry =>
      updateSpanEquals entry.sect sect && updateSpanEquals entry.key key).map (·.value) := by
  have hentries : iniEntries none ((releaseSample version).splitOn 10) = releaseSampleEntries version := by
    rcases List.mem_pair.1 hversion with rfl | rfl <;> decide +kernel
  rw [iniFirst, hentries]

theorem releaseSample_fields : ∀ version ∈ ["1.2.3", "10000.10000.10000"],
    ReleaseSays (releaseSample version) (ascii "v9x-remote-agent") (ascii "win32") (releaseSampleInfo version) := by
  intro version hversion
  have hfirst := releaseSample_first hversion
  have hsize : ∀ c ∈ ascii "347696", decimalDigit c := by decide +kernel
  have hsha : ∀ c ∈ List.replicate 64 (48 : UInt8), relayIsHex c = true := fun c hc => by
    obtain rfl := List.eq_of_mem_replicate hc
    decide
  exact
    { schema := (hfirst _ _).trans (by rfl)
      app := (hfirst _ _).trans (by rfl)
      version := (hfirst _ _).trans (by rfl)
      parsable := by rcases List.mem_pair.1 hversion with rfl | rfl <;> decide
      file := (hfirst _ _).trans (by rfl)
      plain := (by decide : releasePlainName (ascii "v9x.zip") = true)
      size := ⟨ascii "347696", (hfirst _ _).trans (by rfl), by decide, hsize,
        (by decide : undecimal (ascii "347696") = UInt32.toNat 347696), by decide⟩
      nonzero := (by decide : (347696 : UInt32) ≠ 0)
      sha256 := ⟨List.replicate 64 48, (hfirst _ _).trans (by rfl), List.length_replicate, hsha,
        (by decide : List.replicate 32 0 = hexSpelled (List.replicate 64 48))⟩ }

theorem release_accepted_demo :
    releaseRead (releaseSampleText "1.2.3") (releaseSample "1.2.3").length (ascii "v9x-remote-agent") (ascii "win32") =
      some (releaseSampleInfo "1.2.3") := by
  have hform := releaseSample_form "1.2.3" (by decide)
  have hsaid := releaseSample_fields "1.2.3" (by decide)
  refine (((release_accepted_iff (fun _ _ _ => true) [] _).2 _ _ hform (ascii "v9x-remote-agent") (ascii "win32")).1 _).2
    ⟨hsaid, ⟨by decide, by decide⟩, by decide, by decide, by decide, fun digits hdigits => ?_, ?_⟩
  have hsize : iniFirst (releaseSample "1.2.3") (ascii "Family." ++ ascii "win32") (ascii "Size") = some (ascii "347696") :=
    (releaseSample_first (by decide) _ _).trans (by rfl)
  · obtain rfl := Option.some.inj (hsize.symm.trans hdigits)
    decide
  · rw [releaseSample_first (by decide)]
    rfl

/-- A version of 17 characters parses, and does not fit its buffer of 16. -/
theorem long_version_refused : ∃ text signed hex app family info, ReleaseForm text signed hex ∧
    ReleaseSays signed app family info ∧ ∀ info', releaseRead text signed.length app family ≠ some info' := by
  have hform := releaseSample_form "10000.10000.10000" (by decide)
  have hsaid := releaseSample_fields "10000.10000.10000" (by decide)
  refine ⟨_, _, _, _, _, _, hform, hsaid, fun info hread => ?_⟩
  obtain ⟨hle, htake, hzero⟩ := hform.signed_length
  obtain ⟨hsaid', hfits⟩ := (releaseRead_iff hle (by rw [htake]; exact hzero)).1 hread
  rw [htake] at hsaid'
  have hversion := Option.some.inj (hsaid'.version.symm.trans hsaid.version)
  have hshort := hfits.version
  rw [hversion] at hshort
  exact absurd hshort (by decide)

end V9xRemote
