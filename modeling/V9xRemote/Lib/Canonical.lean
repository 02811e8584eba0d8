import Mathlib.Tactic.Common
import Mathlib.Tactic.Ring
import Mathlib.Algebra.Order.Ring.Nat
import Mathlib.Algebra.BigOperators.Group.List.Basic
import Mathlib.Data.List.Count
import Mathlib.Data.List.Induction
import Mathlib.Data.List.GetD

/-!
# Canonical prefix codes

A code is given by the lengths of its codewords, symbol by symbol; length 0 is a symbol
without one. Codewords of one length are consecutive numbers in the order of their
symbols, and those of the next length begin behind the prefixes the shorter ones leave.

* `Hit`: the first bits are a codeword of some length.
* `decode_of_hit`, `decode_eq_none`: decoding is a search for the length that hits.
* `first_add_count`: how much of the code space is used, as the sum of Kraft.
-/

namespace Canonical

variable {lengths : List ℕ} {bs rest : List Bool} {n m v symbol : ℕ}

/-! ## Codewords -/

/-- The number of some bits, the first the highest. -/
def msb (bs : List Bool) : ℕ := bs.foldl (fun v b => 2 * v + b.toNat) 0

/-- A number's lowest `n` bits, the highest first. -/
def msbBits : ℕ → ℕ → List Bool
  | 0, _ => []
  | n + 1, v => msbBits n (v / 2) ++ [decide (v % 2 = 1)]

/-- The length of a symbol's codeword. -/
def lengthOf (lengths : List ℕ) (symbol : ℕ) : ℕ := lengths.getD symbol 0

/-- How many codewords have a length. -/
def count (lengths : List ℕ) (n : ℕ) : ℕ := if n = 0 then 0 else lengths.count n

/-- The first codeword of a length. -/
def first (lengths : List ℕ) : ℕ → ℕ
  | 0 => 0
  | n + 1 => 2 * (first lengths n + count lengths n)

/-- How many symbols before one have codewords of its length. -/
def rank (lengths : List ℕ) (symbol : ℕ) : ℕ := (lengths.take symbol).count (lengthOf lengths symbol)

def codeword (lengths : List ℕ) (symbol : ℕ) : List Bool :=
  msbBits (lengthOf lengths symbol) (first lengths (lengthOf lengths symbol) + rank lengths symbol)

/-- The symbol whose codeword the bits begin with, and the bits behind it. -/
def decode (lengths : List ℕ) (bs : List Bool) : Option (ℕ × List Bool) :=
  (List.range lengths.length).findSome? fun symbol =>
    if lengthOf lengths symbol ≠ 0 ∧ codeword lengths symbol <+: bs then
      some (symbol, bs.drop (lengthOf lengths symbol))
    else none

/-- The codewords of each length fit. -/
def Fits (lengths : List ℕ) : Prop := ∀ n, first lengths n + count lengths n ≤ 2 ^ n

/-! ## Bits and numbers -/

theorem msb_append_single (bs : List Bool) (b : Bool) : msb (bs ++ [b]) = 2 * msb bs + b.toNat := by
  simp [msb]

theorem msbBits_length (n v : ℕ) : (msbBits n v).length = n := by
  induction n generalizing v with
  | zero => rfl
  | succ n ih => rw [msbBits, List.length_append, ih, List.length_singleton]

theorem msb_msbBits (h : v < 2 ^ n) : msb (msbBits n v) = v := by
  induction n generalizing v with
  | zero =>
    rw [Nat.pow_zero] at h
    obtain rfl : v = 0 := by omega
    rfl
  | succ n ih =>
    have hv : v / 2 < 2 ^ n := by
      rw [Nat.pow_succ] at h
      omega
    rw [msbBits, msb_append_single, ih hv]
    by_cases hodd : v % 2 = 1
    · rw [decide_eq_true hodd, Bool.toNat_true]
      omega
    · rw [decide_eq_false hodd, Bool.toNat_false]
      omega

theorem msbBits_msb (bs : List Bool) : msbBits bs.length (msb bs) = bs := by
  induction bs using List.reverseRecOn with
  | nil => rfl
  | append_singleton bs b ih =>
    have hb : b.toNat ≤ 1 := Bool.toNat_le b
    have hhalf : (2 * msb bs + b.toNat) / 2 = msb bs := by omega
    rw [List.length_append, List.length_singleton, msbBits, msb_append_single, hhalf, ih]
    cases b
    · have h0 : ¬(2 * msb bs + false.toNat) % 2 = 1 := by
        rw [Bool.toNat_false]
        omega
      rw [decide_eq_false h0]
    · have h1 : (2 * msb bs + true.toNat) % 2 = 1 := by
        rw [Bool.toNat_true]
        omega
      rw [decide_eq_true h1]

/-- Bits begin with a number's bits where their own number is that one. -/
theorem msbBits_prefix_iff (h : v < 2 ^ n) : msbBits n v <+: bs ↔ n ≤ bs.length ∧ msb (bs.take n) = v := by
  constructor
  · intro hp
    have hn : n ≤ bs.length := by
      have := hp.length_le
      rwa [msbBits_length] at this
    refine ⟨hn, ?_⟩
    rw [List.prefix_iff_eq_take, msbBits_length] at hp
    rw [← hp, msb_msbBits h]
  · rintro ⟨hn, rfl⟩
    have hlength : (bs.take n).length = n := List.length_take_of_le hn
    have := msbBits_msb (bs.take n)
    rw [hlength] at this
    rw [this]
    exact List.take_prefix n bs

/-- Longer prefixes grow from shorter ones. -/
theorem msb_take_lt (h : n + m ≤ bs.length) : msb (bs.take (n + m)) < (msb (bs.take n) + 1) * 2 ^ m := by
  induction m with
  | zero => rw [Nat.add_zero, Nat.pow_zero, Nat.mul_one]; omega
  | succ m ih =>
    have hlt : n + m < bs.length := by omega
    have hb : bs[n + m].toNat ≤ 1 := Bool.toNat_le _
    have hstep := ih (by omega)
    rw [← Nat.add_assoc, List.take_succ_eq_append_getElem hlt, msb_append_single, Nat.pow_succ]
    calc 2 * msb (bs.take (n + m)) + bs[n + m].toNat < 2 * (msb (bs.take (n + m)) + 1) := by omega
      _ ≤ 2 * ((msb (bs.take n) + 1) * 2 ^ m) := Nat.mul_le_mul_left 2 hstep
      _ = (msb (bs.take n) + 1) * (2 ^ m * 2) := by ring

/-! ## Ranks -/

theorem lengthOf_mem (h : lengthOf lengths symbol ≠ 0) : symbol < lengths.length := by
  by_contra hnot
  exact h (List.getD_eq_default _ _ (not_lt.1 hnot))

theorem lengthOf_eq (h : symbol < lengths.length) : lengthOf lengths symbol = lengths[symbol] :=
  List.getD_eq_getElem _ _ h

/-- A symbol in a run of one length. -/
theorem codeword_run (before after : List ℕ) {n k : ℕ} (hk : k < n) (v : ℕ) :
    codeword (before ++ (List.replicate n v ++ after)) (before.length + k) =
      msbBits v (first (before ++ (List.replicate n v ++ after)) v + (before.count v + k)) := by
  have hlength : lengthOf (before ++ (List.replicate n v ++ after)) (before.length + k) = v := by
    rw [lengthOf, List.getD_append_right _ _ _ _ (Nat.le_add_right _ _), Nat.add_sub_cancel_left,
      List.getD_append _ _ _ _ (by rw [List.length_replicate]; exact hk), List.getD_replicate _ hk]
  have hrank : rank (before ++ (List.replicate n v ++ after)) (before.length + k) = before.count v + k := by
    rw [rank, hlength, List.take_length_add_append, List.count_append,
      List.take_append_of_le_length (by rw [List.length_replicate]; exact hk.le), List.take_replicate,
      List.count_replicate_self, Nat.min_eq_left hk.le]
  rw [codeword, hlength, hrank]

theorem rank_lt (h : lengthOf lengths symbol ≠ 0) : rank lengths symbol < count lengths (lengthOf lengths symbol) := by
  have hs := lengthOf_mem h
  have hsub : (lengths.take (symbol + 1)).count (lengthOf lengths symbol) ≤ lengths.count (lengthOf lengths symbol) :=
    (List.take_sublist _ _).count_le _
  rw [List.take_succ_eq_append_getElem hs, List.count_append, ← lengthOf_eq hs, List.count_singleton_self] at hsub
  rw [count, if_neg h]
  exact hsub

/-- Symbols of one length have different ranks. -/
theorem rank_inj {s t : ℕ} (hs : lengthOf lengths s = n) (ht : lengthOf lengths t = n) (hn : n ≠ 0)
    (h : rank lengths s = rank lengths t) : s = t := by
  have hlt : ∀ {s t : ℕ}, lengthOf lengths s = n → lengthOf lengths t = n → s < t → rank lengths s < rank lengths t := by
    intro s t hs ht hst
    have hmem := lengthOf_mem (hs.symm ▸ hn : lengthOf lengths s ≠ 0)
    have hsub : (lengths.take (s + 1)).count n ≤ (lengths.take t).count n :=
      (List.take_sublist_take_left hst).count_le n
    rw [List.take_succ_eq_append_getElem hmem, List.count_append, ← lengthOf_eq hmem, hs, List.count_singleton_self]
      at hsub
    rw [rank, rank, hs, ht]
    exact hsub
  rcases lt_trichotomy s t with hst | hst | hst
  · exact absurd h (hlt hs ht hst).ne
  · exact hst
  · exact absurd h.symm (hlt ht hs hst).ne

/-- Each rank below the count is a symbol's. -/
theorem exists_rank (hm : m < count lengths n) : ∃ symbol, lengthOf lengths symbol = n ∧ rank lengths symbol = m := by
  have hn : n ≠ 0 := by
    rintro rfl
    exact absurd hm (Nat.not_lt_zero m)
  rw [count, if_neg hn] at hm
  induction lengths using List.reverseRecOn with
  | nil => exact absurd hm (Nat.not_lt_zero m)
  | append_singleton lengths l ih =>
    by_cases hlast : m < lengths.count n
    · obtain ⟨s, hs, hr⟩ := ih hlast
      have hmem := lengthOf_mem (hs.symm ▸ hn : lengthOf lengths s ≠ 0)
      have hkeep : lengthOf (lengths ++ [l]) s = n := by
        rw [← hs]
        exact List.getD_append _ _ _ _ hmem
      refine ⟨s, hkeep, ?_⟩
      rw [rank, hkeep, List.take_append_of_le_length hmem.le, ← hr, rank, hs]
    · -- the last symbol is the one
      rw [List.count_append] at hm
      have hl : l = n := by
        by_contra hne
        rw [List.count_singleton, if_neg (by simpa using hne)] at hm
        omega
      subst hl
      rw [List.count_singleton_self] at hm
      have hlast' : lengthOf (lengths ++ [l]) lengths.length = l := by
        rw [lengthOf, List.getD_append_right _ _ _ _ le_rfl, Nat.sub_self]
        rfl
      refine ⟨lengths.length, hlast', ?_⟩
      rw [rank, hlast', List.take_left]
      omega

/-! ## Sorted symbols -/

/-- How many symbols have shorter codewords. -/
def place (lengths : List ℕ) : ℕ → ℕ
  | 0 => 0
  | n + 1 => place lengths n + count lengths n

theorem place_mono (lengths : List ℕ) (h : n ≤ m) : place lengths n ≤ place lengths m := by
  induction h with
  | refl => exact le_rfl
  | step _ ih => exact ih.trans (Nat.le_add_right _ _)

/-- The places of different lengths do not meet. -/
theorem place_lt (lengths : List ℕ) {i j : ℕ} (h : n < m) (hi : i < count lengths n) :
    place lengths n + i < place lengths m + j := by
  have hmono := place_mono lengths (Nat.succ_le_of_lt h)
  rw [place] at hmono
  omega

theorem place_inj {i j : ℕ} (hi : i < count lengths n) (hj : j < count lengths m)
    (h : place lengths n + i = place lengths m + j) : n = m ∧ i = j := by
  rcases lt_trichotomy n m with hlt | rfl | hlt
  · exact absurd h (place_lt lengths hlt hi).ne
  · exact ⟨rfl, by omega⟩
  · exact absurd h.symm (place_lt lengths hlt hj).ne

theorem place_eq_countP (lengths : List ℕ) (n : ℕ) :
    place lengths (n + 1) = lengths.countP fun l => l ≠ 0 ∧ l ≤ n := by
  induction n with
  | zero =>
    rw [place, place, count, if_pos rfl, eq_comm, List.countP_eq_zero]
    intro l _ h
    have := of_decide_eq_true h
    omega
  | succ n ih =>
    rw [place, ih, count, if_neg n.succ_ne_zero]
    clear ih
    induction lengths with
    | nil => rfl
    | cons l lengths ih =>
      rw [List.countP_cons, List.countP_cons, List.count_cons, ← ih]
      by_cases hl : l = n + 1
      · simp [hl]
        omega
      · by_cases hle : l ≠ 0 ∧ l ≤ n
        · have : l ≠ 0 ∧ l ≤ n + 1 := ⟨hle.1, by omega⟩
          simp [hl, hle, this]
          omega
        · have : ¬(l ≠ 0 ∧ l ≤ n + 1) := by omega
          rw [if_neg (by simpa using hle), if_neg (by simpa using hl), if_neg (by simpa using this)]
          omega

/-- There are places for all symbols. -/
theorem place_add_count_le (lengths : List ℕ) (n : ℕ) : place lengths n + count lengths n ≤ lengths.length := by
  have h := place_eq_countP lengths n
  rw [place] at h
  rw [h]
  exact List.countP_le_length

/-! ## Decoding -/

/-- The first `n` bits are a codeword. -/
def Hit (lengths : List ℕ) (bs : List Bool) (n : ℕ) : Prop :=
  n ≤ bs.length ∧ first lengths n ≤ msb (bs.take n) ∧ msb (bs.take n) < first lengths n + count lengths n

/-- The codewords of a length begin behind those of the shorter ones. -/
theorem first_grows (lengths : List ℕ) (n m : ℕ) :
    (first lengths n + count lengths n) * 2 ^ (m + 1) ≤ first lengths (n + m + 1) := by
  induction m with
  | zero =>
    rw [Nat.zero_add, Nat.pow_one, Nat.add_zero, first, Nat.mul_comm]
  | succ m ih =>
    calc (first lengths n + count lengths n) * 2 ^ (m + 1 + 1)
        = 2 * ((first lengths n + count lengths n) * 2 ^ (m + 1)) := by ring
      _ ≤ 2 * (first lengths (n + m + 1) + count lengths (n + m + 1)) := by omega
      _ = first lengths (n + (m + 1) + 1) := rfl

/-- **Codewords are prefix-free**: only one length hits. -/
theorem hit_unique (hn : Hit lengths bs n) (hm : Hit lengths bs m) : n = m := by
  have hnot : ∀ {n m : ℕ}, Hit lengths bs n → Hit lengths bs m → ¬n < m := by
    intro n m hn hm hlt
    obtain ⟨k, rfl⟩ : ∃ k, m = n + k + 1 := ⟨m - n - 1, by omega⟩
    have hgrow := first_grows lengths n k
    have htake : msb (bs.take (n + (k + 1))) < (msb (bs.take n) + 1) * 2 ^ (k + 1) := msb_take_lt hm.1
    have hle : (msb (bs.take n) + 1) * 2 ^ (k + 1) ≤ (first lengths n + count lengths n) * 2 ^ (k + 1) :=
      Nat.mul_le_mul_right _ hn.2.2
    have hfirst := hm.2.1
    rw [← Nat.add_assoc] at htake
    omega
  rcases lt_trichotomy n m with h | h | h
  · exact absurd h (hnot hn hm)
  · exact h
  · exact absurd h (hnot hm hn)

theorem code_lt (hfits : Fits lengths) (h : lengthOf lengths symbol ≠ 0) :
    first lengths (lengthOf lengths symbol) + rank lengths symbol < 2 ^ lengthOf lengths symbol := by
  have hrank := rank_lt h
  have hfit := hfits (lengthOf lengths symbol)
  omega

theorem codeword_length (lengths : List ℕ) (symbol : ℕ) : (codeword lengths symbol).length = lengthOf lengths symbol :=
  msbBits_length _ _

/-- Bits begin with a symbol's codeword where their number is the symbol's. -/
theorem codeword_prefix_iff (hfits : Fits lengths) (h : lengthOf lengths symbol ≠ 0) :
    codeword lengths symbol <+: bs ↔ lengthOf lengths symbol ≤ bs.length ∧
      msb (bs.take (lengthOf lengths symbol)) = first lengths (lengthOf lengths symbol) + rank lengths symbol :=
  msbBits_prefix_iff (code_lt hfits h)

theorem hit_of_codeword (hfits : Fits lengths) (h : lengthOf lengths symbol ≠ 0) (hp : codeword lengths symbol <+: bs) :
    Hit lengths bs (lengthOf lengths symbol) := by
  obtain ⟨hlength, hmsb⟩ := (codeword_prefix_iff hfits h).1 hp
  have hrank := rank_lt h
  exact ⟨hlength, by omega, by omega⟩

/-- No two codewords begin the same bits. -/
theorem codeword_unique {s t : ℕ} (hfits : Fits lengths) (hs : lengthOf lengths s ≠ 0) (ht : lengthOf lengths t ≠ 0)
    (hps : codeword lengths s <+: bs) (hpt : codeword lengths t <+: bs) : s = t := by
  have hsame := hit_unique (hit_of_codeword hfits hs hps) (hit_of_codeword hfits ht hpt)
  have hms := ((codeword_prefix_iff hfits hs).1 hps).2
  have hmt := ((codeword_prefix_iff hfits ht).1 hpt).2
  rw [hsame] at hms
  exact rank_inj hsame rfl ht (by omega)

theorem decode_of_codeword (hfits : Fits lengths) (h : lengthOf lengths symbol ≠ 0)
    (hp : codeword lengths symbol <+: bs) : decode lengths bs = some (symbol, bs.drop (lengthOf lengths symbol)) := by
  unfold decode
  have hmem : symbol ∈ List.range lengths.length := List.mem_range.2 (lengthOf_mem h)
  cases hfound : (List.range lengths.length).findSome? fun symbol =>
      if lengthOf lengths symbol ≠ 0 ∧ codeword lengths symbol <+: bs then
        some (symbol, bs.drop (lengthOf lengths symbol))
      else none with
  | none =>
    have hnone := List.findSome?_eq_none_iff.1 hfound symbol hmem
    rw [if_pos ⟨h, hp⟩] at hnone
    cases hnone
  | some found =>
    obtain ⟨t, -, ht⟩ := List.exists_of_findSome?_eq_some hfound
    split at ht
    · rename_i hcond
      obtain rfl := Option.some.inj ht
      obtain rfl := codeword_unique hfits hcond.1 h hcond.2 hp
      rfl
    · cases ht

/-- **A code read back.** -/
theorem decode_codeword (hfits : Fits lengths) (h : lengthOf lengths symbol ≠ 0) (rest : List Bool) :
    decode lengths (codeword lengths symbol ++ rest) = some (symbol, rest) := by
  rw [decode_of_codeword hfits h (List.prefix_append _ _)]
  have hdrop : (codeword lengths symbol ++ rest).drop (codeword lengths symbol).length = rest := List.drop_left
  rw [codeword_length] at hdrop
  rw [hdrop]

/-- What decodes begins with a codeword. -/
theorem codeword_of_decode (h : decode lengths bs = some (symbol, rest)) :
    lengthOf lengths symbol ≠ 0 ∧ codeword lengths symbol <+: bs ∧ rest = bs.drop (lengthOf lengths symbol) := by
  obtain ⟨t, -, ht⟩ := List.exists_of_findSome?_eq_some h
  split at ht
  · rename_i hcond
    obtain ⟨rfl, rfl⟩ := Prod.mk.inj (Option.some.inj ht)
    exact ⟨hcond.1, hcond.2, rfl⟩
  · cases ht

/-- Decoding takes at least one bit. -/
theorem decode_length_lt (h : decode lengths bs = some (symbol, rest)) : rest.length < bs.length := by
  obtain ⟨hne, hp, rfl⟩ := codeword_of_decode h
  have hle := hp.length_le
  rw [codeword_length] at hle
  rw [List.length_drop]
  omega

/-- **At the length that hits** stands the symbol with the number's rank. -/
theorem decode_of_hit (hfits : Fits lengths) (h : Hit lengths bs n) : ∃ symbol, lengthOf lengths symbol = n ∧ n ≠ 0 ∧
    rank lengths symbol = msb (bs.take n) - first lengths n ∧ decode lengths bs = some (symbol, bs.drop n) := by
  obtain ⟨hlength, hfirst, hlast⟩ := h
  have hm : msb (bs.take n) - first lengths n < count lengths n := by omega
  have hn : n ≠ 0 := by
    rintro rfl
    exact absurd hm (Nat.not_lt_zero _)
  obtain ⟨symbol, rfl, hrank⟩ := exists_rank hm
  refine ⟨symbol, rfl, hn, hrank, decode_of_codeword hfits hn ?_⟩
  rw [codeword_prefix_iff hfits hn]
  exact ⟨hlength, by omega⟩

/-- **Where no length hits** nothing decodes. -/
theorem decode_eq_none (hfits : Fits lengths) (h : ∀ n, ¬Hit lengths bs n) : decode lengths bs = none := by
  cases hd : decode lengths bs with
  | none => rfl
  | some found =>
    obtain ⟨symbol, rest⟩ := found
    obtain ⟨hne, hp, -⟩ := codeword_of_decode hd
    exact absurd (hit_of_codeword hfits hne hp) (h _)

/-! ## The code space -/

/-- The sum of Kraft, in units of codewords of the greatest length. -/
def kraft (limit : ℕ) (lengths : List ℕ) : ℕ := (lengths.map fun n => if n = 0 then 0 else 2 ^ (limit - n)).sum

/-- What one more symbol takes up at a length. -/
theorem first_add_count_cons (l : ℕ) (lengths : List ℕ) (n : ℕ) :
    first (l :: lengths) n + count (l :: lengths) n =
      first lengths n + count lengths n + if l ≠ 0 ∧ l ≤ n then 2 ^ (n - l) else 0 := by
  induction n with
  | zero =>
    have : ¬(l ≠ 0 ∧ l ≤ 0) := by omega
    rw [if_neg this]
    rfl
  | succ n ih =>
    have hcount : count (l :: lengths) (n + 1) = count lengths (n + 1) + if l = n + 1 then 1 else 0 := by
      rw [count, count, if_neg n.succ_ne_zero, if_neg n.succ_ne_zero, List.count_cons]
      simp only [beq_iff_eq]
    have hpow : l ≤ n → 2 ^ (n + 1 - l) = 2 * 2 ^ (n - l) := by
      intro hl
      rw [Nat.succ_sub hl, Nat.pow_succ, Nat.mul_comm]
    rw [first, ih, first, hcount]
    by_cases hlast : l = n + 1
    · subst hlast
      rw [if_neg (by omega), if_pos rfl, if_pos ⟨by omega, le_rfl⟩, Nat.sub_self, Nat.pow_zero]
      omega
    · rw [if_neg hlast]
      by_cases hl : l ≠ 0 ∧ l ≤ n
      · rw [if_pos hl, if_pos ⟨hl.1, by omega⟩, hpow hl.2]
        omega
      · rw [if_neg hl, if_neg (by omega)]
        omega

/-- **The code space used** up to the greatest length. -/
theorem first_add_count {limit : ℕ} (h : ∀ l ∈ lengths, l ≤ limit) :
    first lengths limit + count lengths limit = kraft limit lengths := by
  induction lengths with
  | nil =>
    have hnil : ∀ n, first [] n + count [] n = 0 := by
      intro n
      induction n with
      | zero => rfl
      | succ n ih => rw [first, ih, count, if_neg n.succ_ne_zero, List.count_nil]
    exact hnil limit
  | cons l lengths ih =>
    have hl := h l List.mem_cons_self
    rw [first_add_count_cons, ih fun l' hl' => h l' (List.mem_cons_of_mem _ hl'), kraft, kraft, List.map_cons,
      List.sum_cons, Nat.add_comm]
    by_cases h0 : l = 0
    · rw [if_neg (by omega), if_pos h0]
    · rw [if_pos ⟨h0, hl⟩, if_neg h0]

theorem count_eq_zero {limit : ℕ} (h : ∀ l ∈ lengths, l ≤ limit) (hn : limit < n) : count lengths n = 0 := by
  rw [count]
  split
  · rfl
  · exact List.count_eq_zero.2 fun hmem => absurd (h n hmem) (not_le.2 hn)

/-- **What is not over-subscribed fits** at each length. -/
theorem fits_of_kraft {limit : ℕ} (h : ∀ l ∈ lengths, l ≤ limit) (hkraft : kraft limit lengths ≤ 2 ^ limit) :
    Fits lengths := by
  have htotal := first_add_count h
  intro n
  rcases lt_trichotomy n limit with hn | rfl | hn
  · obtain ⟨m, rfl⟩ : ∃ m, limit = n + m + 1 := ⟨limit - n - 1, by omega⟩
    have hgrow := first_grows lengths n m
    have hmul : (first lengths n + count lengths n) * 2 ^ (m + 1) ≤ 2 ^ n * 2 ^ (m + 1) := by
      rw [← Nat.pow_add, ← Nat.add_assoc]
      omega
    exact Nat.le_of_mul_le_mul_right hmul (Nat.two_pow_pos _)
  · omega
  · -- behind the greatest length the space only doubles
    obtain ⟨m, rfl⟩ : ∃ m, n = limit + m + 1 := ⟨n - limit - 1, by omega⟩
    induction m with
    | zero =>
      rw [count_eq_zero h hn, Nat.add_zero, Nat.add_zero, first, Nat.pow_succ]
      omega
    | succ m ih =>
      have := ih (by omega)
      rw [count_eq_zero h hn, Nat.add_zero]
      calc first lengths (limit + (m + 1) + 1) = 2 * (first lengths (limit + m + 1) + count lengths (limit + m + 1)) := rfl
        _ ≤ 2 * 2 ^ (limit + m + 1) := by omega
        _ = 2 ^ (limit + (m + 1) + 1) := by ring

end Canonical
