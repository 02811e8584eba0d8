import V9xRemote.Spec.Inflate
import V9xRemote.Lib.Deflate

/-!
# Bits and codes of the Deflate decoder

`inflateBits` reads the fields of the stream that is left, `inflateBuild` accepts exactly
the complete code length sets (or what a distance code may be), and with the tables it
builds `inflateDecode` finds the symbol whose codeword stands next.
-/

namespace V9xRemote

open Bytes Checked Deflate Canonical

variable {s s' s'' : InflateStream} {lengths : List ℕ} {code : InflateCode}

/-! ## The stream -/

/-- The bits not read yet: those that are buffered, and the input's. -/
def InflateStream.rest (s : InflateStream) : List Bool :=
  lsbBits s.bitCount s.bitBuffer ++ bits (s.input.drop s.inputPosition)

/-- The output so far. -/
def InflateStream.done (s : InflateStream) : Bytes := s.output.take s.outputPosition

/-- The stream between two reads: less than a byte is buffered. -/
structure InflateStream.Ready (s : InflateStream) : Prop where
  buffer : s.bitBuffer < 2 ^ s.bitCount
  count : s.bitCount < 8
  input : s.inputPosition ≤ s.input.length
  output : s.outputPosition ≤ s.output.length

/-- Bits were read, and nothing was written. -/
structure Reads (s s' : InflateStream) : Prop where
  ready : s'.Ready
  input : s'.input = s.input
  output : s'.output = s.output
  position : s'.outputPosition = s.outputPosition

/-- A status that is not success, with nothing written past the output. -/
structure Failed (s : InflateStream) (e : InflateStatus) (s' : InflateStream) : Prop where
  status : e ≠ .ok
  output : s'.output.length = s.output.length
  position : s'.outputPosition ≤ s'.output.length

theorem Reads.trans (h : Reads s s') (h' : Reads s' s'') : Reads s s'' :=
  ⟨h'.ready, h'.input.trans h.input, h'.output.trans h.output, h'.position.trans h.position⟩

theorem Reads.refl (h : s.Ready) : Reads s s := ⟨h, rfl, rfl, rfl⟩

theorem Reads.done (h : Reads s s') : s'.done = s.done := by
  unfold InflateStream.done
  rw [h.output, h.position]

theorem Failed.behind (h : Reads s s') {e : InflateStatus} (h' : Failed s' e s'') : Failed s e s'' :=
  ⟨h'.status, by rw [h'.output, h.output], h'.position⟩

/-- A status found without another access. -/
theorem Reads.failed (h : Reads s s') {e : InflateStatus} (he : e ≠ .ok) : Failed s e s' :=
  ⟨he, by rw [h.output], h.ready.output⟩

theorem rest_length (hs : s.Ready) : s.rest.length = s.bitsLeft := by
  have := hs.input
  rw [InflateStream.rest, List.length_append, lsbBits_length, bits_length, List.length_drop, InflateStream.bitsLeft]
  omega

/-! ## Fields -/

/-- A fetched byte goes above the buffered bits. -/
theorem fetch_rest (hbuffer : s.bitBuffer < 2 ^ s.bitCount) (hmore : s.inputPosition < s.input.length) :
    lsbBits (s.bitCount + 8) (s.bitBuffer ||| ((s.input.at' s.inputPosition).toNat <<< s.bitCount)) ++
        bits (s.input.drop (s.inputPosition + 1)) = s.rest ∧
      s.bitBuffer ||| ((s.input.at' s.inputPosition).toNat <<< s.bitCount) < 2 ^ (s.bitCount + 8) := by
  have hor : s.bitBuffer ||| ((s.input.at' s.inputPosition).toNat <<< s.bitCount) =
      s.bitBuffer + (s.input.at' s.inputPosition).toNat * 2 ^ s.bitCount := by
    rw [Nat.or_comm, ← Nat.shiftLeft_add_eq_or_of_lt hbuffer, Nat.shiftLeft_eq, Nat.add_comm]
  have hbyte := UInt8.toNat_lt (s.input.at' s.inputPosition)
  refine ⟨?_, ?_⟩
  · have hget : s.input.at' s.inputPosition = s.input[s.inputPosition] := List.getD_eq_getElem _ _ hmore
    rw [hor, lsbBits_add hbuffer, InflateStream.rest, List.drop_eq_getElem_cons hmore, bits_cons, hget,
      List.append_assoc]
  · rw [hor]
    calc s.bitBuffer + (s.input.at' s.inputPosition).toNat * 2 ^ s.bitCount
        < 2 ^ s.bitCount + (s.input.at' s.inputPosition).toNat * 2 ^ s.bitCount := by omega
      _ = ((s.input.at' s.inputPosition).toNat + 1) * 2 ^ s.bitCount := by ring
      _ ≤ 2 ^ 8 * 2 ^ s.bitCount := Nat.mul_le_mul_right _ (by omega)
      _ = 2 ^ (s.bitCount + 8) := by rw [Nat.mul_comm, Nat.pow_add]

/-- What holds while bytes are fetched for a field. -/
structure Fetching (s : InflateStream) (count : ℕ) (s' : InflateStream) : Prop where
  input : s'.input = s.input
  output : s'.output = s.output
  position : s'.outputPosition = s.outputPosition
  buffer : s'.bitBuffer < 2 ^ s'.bitCount
  count : s'.bitCount < count + 8
  inside : s'.inputPosition ≤ s'.input.length
  rest : s'.rest = s.rest

theorem post_fetch {count : ℕ} (hs : s.outputPosition ≤ s.output.length) (h : Fetching s count s') :
    Post (inflateFetch count ()) s'
      (fun r s'' => r.elim
        (fun _ => Fetching s count s'' ∧ s''.input.length - s''.inputPosition < s'.input.length - s'.inputPosition)
        fun _ => Fetching s count s'' ∧ count ≤ s''.bitCount)
      (fun e s'' => Failed s e s'' ∧ field count s.rest = none) := by
  simp only [inflateFetch, readInput, post_bind, post_get, post_ite, post_stop, post_check, post_pure, post_modify]
  refine ⟨fun hless => ⟨fun hend => ⟨⟨by decide, ?_, ?_⟩, ?_⟩, fun hmore => ⟨by omega, ?_⟩⟩, fun hfull => ⟨h, by omega⟩⟩
  · rw [h.output]
  · rw [h.output, h.position]
    exact hs
  · refine field_eq_none ?_
    rw [← h.rest, InflateStream.rest, List.drop_eq_nil_of_le hend, List.length_append, lsbBits_length]
    exact hless
  · obtain ⟨hrest, hbuffer⟩ := fetch_rest h.buffer (not_le.1 hmore)
    exact ⟨⟨h.input, h.output, h.position, hbuffer, by dsimp only; omega, by dsimp only; omega, hrest.trans h.rest⟩,
      by omega⟩

/-- **`v9x_inflate_bits` reads a field.** -/
theorem post_bits (hs : s.Ready) (count : ℕ) :
    Post (inflateBits count) s (fun v s' => Reads s s' ∧ field count s.rest = some (v, s'.rest))
      (fun e s' => Failed s e s' ∧ field count s.rest = none) := by
  have hcount := hs.count
  have hstart : Fetching s count s := ⟨rfl, rfl, rfl, hs.buffer, by omega, hs.input, rfl⟩
  have hfetched : Post (loop (fun s => s.input.length - s.inputPosition) (inflateFetch count) ()) s
      (fun _ s' => Fetching s count s' ∧ count ≤ s'.bitCount)
      (fun e s' => Failed s e s' ∧ field count s.rest = none) :=
    post_loop (I := fun _ => Fetching s count) (fun _ s' h => post_fetch hs.output h) hstart
  simp only [inflateBits, post_bind, post_get, post_modify, post_pure]
  refine hfetched.imp ?_ fun _ _ h => h
  rintro - s' ⟨h, hcount⟩
  have hlt := h.count
  refine ⟨⟨⟨?_, by dsimp only; omega, h.inside, ?_⟩, h.input, h.output, h.position⟩, ?_⟩
  · dsimp only
    rw [Nat.shiftRight_eq_div_pow]
    exact Nat.div_lt_of_lt_mul (by rw [← Nat.pow_add, Nat.add_sub_of_le hcount]; exact h.buffer)
  · dsimp only
    rw [h.output, h.position]
    exact hs.output
  · rw [← h.rest, InflateStream.rest, field_lsbBits_append hcount, InflateStream.rest, Nat.one_shiftLeft,
      Nat.and_two_pow_sub_one_eq_mod, Nat.shiftRight_eq_div_pow]

/-! ## Decoding -/

/-- The tables of a code length set. -/
structure Sorted (code : InflateCode) (lengths : List ℕ) : Prop where
  count : ∀ n ≤ 15, code.count n = lengths.count n
  symbol : ∀ symbol, lengthOf lengths symbol ≠ 0 →
    code.symbol (place lengths (lengthOf lengths symbol) + rank lengths symbol) = symbol

/-- A code length set that a code can be built from. -/
structure Codes (lengths : List ℕ) : Prop where
  bounded : ∀ l ∈ lengths, l ≤ 15
  fits : Fits lengths
  size : lengths.length ≤ 288

theorem field_one {bs rest : List Bool} {v : ℕ} (h : field 1 bs = some (v, rest)) :
    ∃ b, bs = b :: rest ∧ v = b.toNat := by
  cases bs with
  | nil => cases h
  | cons b bs =>
    obtain ⟨rfl, rfl⟩ := Prod.mk.inj (Option.some.inj h)
    exact ⟨b, rfl, rfl⟩

theorem shifted_or (v : ℕ) (b : Bool) : 2 * v ||| b.toNat = 2 * v + b.toNat := by
  have hb : b.toNat < 2 ^ 1 := by
    rw [Nat.pow_one]
    exact Nat.lt_succ_of_le (Bool.toNat_le b)
  have hshift : 2 * v = v <<< 1 := by rw [Nat.shiftLeft_eq, Nat.pow_one, Nat.mul_comm]
  rw [hshift, Nat.shiftLeft_add_eq_or_of_lt hb]

/-- A hit's symbol stands where the tables have it. -/
theorem symbol_of_hit (hcodes : Codes lengths) (htable : Sorted code lengths) {bs : List Bool} {n : ℕ}
    (h : Hit lengths bs n) :
    place lengths n + (msb (bs.take n) - first lengths n) < 288 ∧
      decode lengths bs =
        some (code.symbol (place lengths n + (msb (bs.take n) - first lengths n)), bs.drop n) := by
  obtain ⟨symbol, rfl, hn, hrank, hdecode⟩ := decode_of_hit hcodes.fits h
  have hlt := rank_lt hn
  have hplace := place_add_count_le lengths (lengthOf lengths symbol)
  have hsize := hcodes.size
  rw [← hrank, htable.symbol symbol hn]
  exact ⟨by omega, hdecode⟩

/-- **The lengths one after the other**: where no shorter prefix is a codeword, what the rest
of the loop finds is the symbol of the codeword that stands next. -/
theorem post_decodeFrom (hcodes : Codes lengths) (htable : Sorted code lengths) (left k : ℕ) (hleft : left + k = 15)
    (hreads : Reads s s') (hk : k ≤ s.rest.length) (hrest : s'.rest = s.rest.drop k)
    (hmiss : ∀ n ≤ k, ¬Hit lengths s.rest n) :
    Post (inflateDecodeFrom code left (2 * msb (s.rest.take k)) (first lengths (k + 1)) (place lengths (k + 1))) s'
      (fun symbol s'' => Reads s s'' ∧ decode lengths s.rest = some (symbol, s''.rest))
      (fun e s'' => Failed s e s'' ∧ decode lengths s.rest = none) := by
  induction left generalizing k s' with
  | zero =>
    rw [inflateDecodeFrom, post_stop]
    refine ⟨hreads.failed (by decide), decode_eq_none hcodes.fits fun n hhit => ?_⟩
    by_cases hn : n ≤ k
    · exact hmiss n hn hhit
    · -- no codeword is longer
      have hzero : count lengths n = 0 := count_eq_zero hcodes.bounded (by omega)
      have := hhit.2
      omega
  | succ left ih =>
    simp only [inflateDecodeFrom, tableAt, post_bind]
    refine (post_bits hreads.ready 1).imp (fun bit s'' h => ?_) (fun e s'' h => ?_)
    · obtain ⟨hread, hfield⟩ := h
      obtain ⟨b, hcons, rfl⟩ := field_one hfield
      rw [hrest] at hcons
      have hlt : k < s.rest.length := by
        have := congrArg List.length hcons
        rw [List.length_drop, List.length_cons] at this
        omega
      rw [List.drop_eq_getElem_cons hlt] at hcons
      obtain ⟨hbit, htail⟩ := List.cons.inj hcons
      have hmsb : 2 * msb (s.rest.take k) ||| b.toNat = msb (s.rest.take (k + 1)) := by
        rw [shifted_or, List.take_succ_eq_append_getElem hlt, msb_append_single, hbit]
      have hindex : 15 - left = k + 1 := by omega
      have hcount : code.count (k + 1) = count lengths (k + 1) := by
        rw [htable.count _ (by omega), count, if_neg k.succ_ne_zero]
      simp only [post_check, post_pure, post_ite, post_bind, hindex, hcount, hmsb]
      refine ⟨Nat.succ_lt_succ (show k < 15 by omega), fun hfound => ?_, fun hnot => ?_⟩
      · obtain ⟨hinside, hdecode⟩ := symbol_of_hit hcodes htable (n := k + 1) ⟨hlt, hfound.1, by omega⟩
        refine ⟨hinside, hreads.trans hread, ?_⟩
        rw [← htail]
        exact hdecode
      · have hnext := ih (k + 1) (by omega) (hreads.trans hread) hlt htail.symm fun n hn hhit => ?_
        · rw [Nat.mul_comm _ 2, Nat.mul_comm _ 2]
          exact hnext
        · rcases Nat.le_succ_iff.1 hn with hn | rfl
          · exact hmiss n hn hhit
          · obtain ⟨-, hfirst, hlast⟩ := hhit
            exact hnot ⟨hfirst, (Nat.sub_lt_iff_lt_add' hfirst).2 hlast⟩
    · refine ⟨Failed.behind hreads h.1, decode_eq_none hcodes.fits fun n hhit => ?_⟩
      -- the bits are at their end
      have hend : ¬k < s.rest.length := by
        intro hlt
        have hfield := h.2
        rw [hrest, List.drop_eq_getElem_cons hlt] at hfield
        cases hfield
      exact hmiss n (hhit.1.trans (not_lt.1 hend)) hhit

/-- **`v9x_inflate_decode` decodes.** -/
theorem post_decode (hcodes : Codes lengths) (htable : Sorted code lengths) (hs : s.Ready) :
    Post (inflateDecode code) s
      (fun symbol s' => Reads s s' ∧ decode lengths s.rest = some (symbol, s'.rest))
      (fun e s' => Failed s e s' ∧ decode lengths s.rest = none) := by
  refine post_decodeFrom hcodes htable 15 0 rfl (Reads.refl hs) (Nat.zero_le _) rfl fun n hn hhit => ?_
  obtain rfl := Nat.le_zero.1 hn
  exact absurd hhit.2.2 (not_lt.2 hhit.2.1)

/-! ## Building -/

/-- The code lengths of the first symbols. -/
def lengthList (lengths : ℕ → ℕ) (symbols : ℕ) : List ℕ := (List.range symbols).map lengths

theorem lengthList_length (lengths : ℕ → ℕ) (symbols : ℕ) : (lengthList lengths symbols).length = symbols := by
  rw [lengthList, List.length_map, List.length_range]

theorem lengthList_succ (lengths : ℕ → ℕ) (symbols : ℕ) :
    lengthList lengths (symbols + 1) = lengthList lengths symbols ++ [lengths symbols] := by
  rw [lengthList, List.range_succ, List.map_append, List.map_singleton, lengthList]

theorem lengthList_take {lengths : ℕ → ℕ} {symbols i : ℕ} (h : i ≤ symbols) :
    (lengthList lengths symbols).take i = lengthList lengths i := by
  rw [lengthList, ← List.map_take, List.take_range, Nat.min_eq_left h, lengthList]

theorem lengthOf_lengthList {lengths : ℕ → ℕ} {symbols i : ℕ} (h : i < symbols) :
    lengthOf (lengthList lengths symbols) i = lengths i := by
  rw [lengthOf_eq (by rw [lengthList_length]; exact h)]
  simp only [lengthList, List.getElem_map, List.getElem_range]

/-- The numbers of codes are counted, where no length is too great. -/
theorem post_count {lengths : ℕ → ℕ} {size symbols : ℕ} (hsize : symbols ≤ size) :
    Post (inflateCount code size lengths symbols) s
      (fun count s' => s' = s ∧ (∀ n ≤ 15, count n = (lengthList lengths symbols).count n) ∧
        ∀ l ∈ lengthList lengths symbols, l ≤ 15)
      (fun e s' => s' = s ∧ e = .badLengths ∧ ∃ l ∈ lengthList lengths symbols, 15 < l) := by
  refine post_foldlM_range (I := fun i (count : ℕ → ℕ) s' => s' = s ∧ (∀ n ≤ 15, count n = (lengthList lengths i).count n) ∧
    ∀ l ∈ lengthList lengths i, l ≤ 15) symbols ?_ ⟨rfl, fun n hn => if_pos hn, fun l hl => absurd hl List.not_mem_nil⟩
  rintro i hi count s' ⟨rfl, hcount, hbounded⟩
  simp only [tableAt, tableSet, post_bind, post_check, post_pure, post_ite, post_stop]
  refine ⟨by omega, fun hgreat => ⟨trivial, trivial, lengths i, ?_, hgreat⟩, fun hle => ?_⟩
  · exact List.mem_map.2 ⟨i, List.mem_range.2 hi, rfl⟩
  have hle : lengths i ≤ 15 := not_lt.1 hle
  refine ⟨Nat.lt_succ_of_le hle, Nat.lt_succ_of_le hle, trivial, fun n hn => ?_, fun l hl => ?_⟩
  · rw [lengthList_succ, List.count_append, Function.update_apply]
    by_cases heq : n = lengths i
    · rw [if_pos heq, heq, List.count_singleton_self, hcount _ hle]
    · rw [if_neg heq, hcount n hn, List.count_singleton, if_neg (by simpa using Ne.symm heq)]
      rfl
  · rw [lengthList_succ, List.mem_append, List.mem_singleton] at hl
    rcases hl with hl | rfl
    · exact hbounded l hl
    · exact hle

/-- The code space left over is what the sum of Kraft leaves. -/
theorem post_left {count : ℕ → ℕ} (hcount : ∀ n ≤ 15, count n = lengths.count n) (hbounded : ∀ l ∈ lengths, l ≤ 15) :
    Post (inflateLeft count) s (fun left s' => s' = s ∧ left = 2 ^ 15 - (kraft 15 lengths : ℤ) ∧ 0 ≤ left)
      (fun e s' => s' = s ∧ e = .badLengths ∧ 2 ^ 15 < kraft 15 lengths) := by
  have hfold : Post (inflateLeft count) s
      (fun left s' => s' = s ∧ left = 2 ^ 15 - ((first lengths 15 + Canonical.count lengths 15 : ℕ) : ℤ) ∧ 0 ≤ left)
      (fun e s' => s' = s ∧ e = .badLengths ∧ 2 ^ 15 < kraft 15 lengths) := by
    refine post_foldlM_range (I := fun i left s' => s' = s ∧
      left = 2 ^ i - ((first lengths i + Canonical.count lengths i : ℕ) : ℤ) ∧ 0 ≤ left) 15 ?_
      ⟨rfl, by simp [first, Canonical.count], by decide⟩
    rintro i hi left s' ⟨rfl, rfl, -⟩
    have hn : count (i + 1) = Canonical.count lengths (i + 1) := by
      rw [hcount _ (by omega), Canonical.count, if_neg i.succ_ne_zero]
    have hnext : (2 ^ i - ((first lengths i + Canonical.count lengths i : ℕ) : ℤ)) * 2 - (count (i + 1) : ℤ) =
        2 ^ (i + 1) - ((first lengths (i + 1) + Canonical.count lengths (i + 1) : ℕ) : ℤ) := by
      rw [hn, first]
      push_cast
      ring
    simp only [tableAt, post_bind, post_check, post_pure, post_ite, post_stop, hnext]
    refine ⟨Nat.succ_lt_succ hi, fun hneg => ⟨trivial, trivial, ?_⟩, fun hpos => ⟨trivial, trivial, not_lt.1 hpos⟩⟩
    by_contra hle
    have hfits := fits_of_kraft hbounded (not_lt.1 hle) (i + 1)
    have hcast : ((2 ^ (i + 1) : ℕ) : ℤ) = 2 ^ (i + 1) := by push_cast; rfl
    omega
  rw [first_add_count hbounded] at hfold
  exact hfold

theorem inflateOffset_eq {count : ℕ → ℕ} (hcount : ∀ n ≤ 15, count n = lengths.count n) (n : ℕ) (hn : n ≤ 15) :
    inflateOffset count n = place lengths n := by
  induction n with
  | zero => rfl
  | succ n ih =>
    cases n with
    | zero => rfl
    | succ n =>
      have hlast : place lengths (n + 2) = place lengths (n + 1) + lengths.count (n + 1) := by
        rw [place, Canonical.count, if_neg n.succ_ne_zero]
      rw [inflateOffset, ih (by omega), hcount _ (by omega), hlast]

/-- What holds while the symbols are sorted. -/
structure Sorting (lengths : ℕ → ℕ) (symbols i : ℕ) (offset table : ℕ → ℕ) : Prop where
  offset : ∀ n ≤ 15, n ≠ 0 → offset n = place (lengthList lengths symbols) n + (lengthList lengths i).count n
  table : ∀ j < i, lengths j ≠ 0 →
    table (place (lengthList lengths symbols) (lengths j) + (lengthList lengths j).count (lengths j)) = j

/-- A symbol's rank, within the symbols of its length. -/
theorem count_lt {lengths : ℕ → ℕ} {symbols i : ℕ} (hi : i < symbols) (hne : lengths i ≠ 0) :
    (lengthList lengths i).count (lengths i) < Canonical.count (lengthList lengths symbols) (lengths i) := by
  have hlength : lengthOf (lengthList lengths symbols) i ≠ 0 := by
    rw [lengthOf_lengthList hi]
    exact hne
  have hrank := rank_lt hlength
  rwa [rank, lengthOf_lengthList hi, lengthList_take hi.le] at hrank

/-- One symbol more is put in its place, where none was. -/
theorem Sorting.next {lengths : ℕ → ℕ} {symbols i : ℕ} {offset table : ℕ → ℕ} (h : Sorting lengths symbols i offset table)
    (hi : i < symbols) (hle : lengths i ≤ 15) (hne : lengths i ≠ 0) :
    Sorting lengths symbols (i + 1) (Function.update offset (lengths i) (offset (lengths i) + 1))
      (Function.update table (offset (lengths i)) i) where
  offset := by
    intro n hn h0
    rw [lengthList_succ, List.count_append, Function.update_apply]
    by_cases heq : n = lengths i
    · rw [if_pos heq, heq, List.count_singleton_self, h.offset _ hle hne, Nat.add_assoc]
    · rw [if_neg heq, h.offset n hn h0, List.count_singleton, if_neg (by simpa using Ne.symm heq), Nat.add_zero]
  table := by
    intro j hj hnej
    rw [Function.update_apply, h.offset _ hle hne]
    rcases Nat.lt_succ_iff_lt_or_eq.1 hj with hj | rfl
    · have hapart : ¬place (lengthList lengths symbols) (lengths j) + (lengthList lengths j).count (lengths j) =
          place (lengthList lengths symbols) (lengths i) + (lengthList lengths i).count (lengths i) := by
        intro heq
        obtain ⟨hsame, hrank⟩ := place_inj (count_lt (hj.trans hi) hnej) (count_lt hi hne) heq
        have hji : rank (lengthList lengths symbols) j = rank (lengthList lengths symbols) i := by
          rw [rank, rank, lengthOf_lengthList (hj.trans hi), lengthOf_lengthList hi, lengthList_take (hj.trans hi).le,
            lengthList_take hi.le]
          exact hrank
        have := rank_inj (by rw [lengthOf_lengthList (hj.trans hi)]) (by rw [lengthOf_lengthList hi, hsame]) hnej hji
        exact hj.ne this
      rw [if_neg hapart]
      exact h.table j hj hnej
    · exact if_pos rfl

/-- The symbols are sorted, each in a place of its own. -/
theorem post_sort {lengths count : ℕ → ℕ} {size symbols : ℕ} (hsize : symbols ≤ size) (hsymbols : symbols ≤ 288)
    (hcount : ∀ n ≤ 15, count n = (lengthList lengths symbols).count n)
    (hbounded : ∀ l ∈ lengthList lengths symbols, l ≤ 15) (R : InflateStatus → InflateStream → Prop) :
    Post (inflateSort code size lengths count symbols) s
      (fun sorted s' => s' = s ∧ Sorted ⟨count, sorted.2⟩ (lengthList lengths symbols)) R := by
  have hfold : Post (inflateSort code size lengths count symbols) s
      (fun sorted s' => s' = s ∧ Sorting lengths symbols symbols sorted.1 sorted.2) R := by
    refine post_foldlM_range (I := fun i (sorted : (ℕ → ℕ) × (ℕ → ℕ)) s' =>
      s' = s ∧ Sorting lengths symbols i sorted.1 sorted.2) symbols ?_ ⟨rfl, fun n hn _ => ?_, fun j hj => ?_⟩
    · rintro i hi ⟨offset, table⟩ s' ⟨rfl, h⟩
      have hle : lengths i ≤ 15 := hbounded _ (List.mem_map.2 ⟨i, List.mem_range.2 hi, rfl⟩)
      simp only [tableAt, tableSet, post_bind, post_check, post_pure, post_ite]
      refine ⟨by omega, fun hne => ?_, fun heq => ⟨trivial, fun n hn h0 => ?_, fun j hj hnej => ?_⟩⟩
      · have hplace : offset (lengths i) < 288 := by
          have hlt := count_lt hi hne
          have htotal := place_add_count_le (lengthList lengths symbols) (lengths i)
          rw [lengthList_length] at htotal
          have hoffset := h.offset _ hle hne
          dsimp only at hoffset
          omega
        exact ⟨Nat.lt_succ_of_le hle, hplace, Nat.lt_succ_of_le hle, trivial, h.next hi hle hne⟩
      · have : lengths i ≠ n := fun hn' => h0 (hn' ▸ not_not.1 heq)
        rw [lengthList_succ, List.count_append, List.count_singleton, if_neg (by simpa using this), Nat.add_zero]
        exact h.offset n hn h0
      · rcases Nat.lt_succ_iff_lt_or_eq.1 hj with hj | rfl
        · exact h.table j hj hnej
        · exact absurd hnej heq
    · exact inflateOffset_eq hcount n hn
    · exact absurd hj (Nat.not_lt_zero j)
  refine hfold.imp (fun sorted s' h => ⟨h.1, hcount, fun symbol hne => ?_⟩) fun _ _ h => h
  have hlt : symbol < symbols := by
    have := lengthOf_mem hne
    rwa [lengthList_length] at this
  rw [lengthOf_lengthList hlt] at hne ⊢
  rw [rank, lengthOf_lengthList hlt, lengthList_take hlt.le]
  exact h.2.table symbol hlt hne

/-- What the decoder asks of a code length set. -/
def CodeOk (allowSingle : Bool) (lengths : List ℕ) : Prop :=
  if allowSingle then DistanceCode lengths else Complete lengths

theorem kraft_filter (lengths : List ℕ) : kraft 15 lengths = kraft 15 (lengths.filter (· ≠ 0)) := by
  induction lengths with
  | nil => rfl
  | cons l lengths ih =>
    by_cases hl : l = 0
    · rw [List.filter_cons_of_neg (by simp [hl]), ← ih, kraft, kraft, List.map_cons, List.sum_cons, if_pos hl,
        Nat.zero_add]
    · rw [List.filter_cons_of_pos (by simp [hl]), kraft, kraft, List.map_cons, List.sum_cons, List.map_cons,
        List.sum_cons]
      exact congrArg _ ih

/-- The empty code and the single codeword of one bit leave code space. -/
theorem kraft_single (h : lengths.filter (· ≠ 0) = [] ∨ lengths.filter (· ≠ 0) = [1]) :
    (∀ l ∈ lengths, l ≤ 15) ∧ kraft 15 lengths < 2 ^ 15 := by
  refine ⟨fun l hl => ?_, ?_⟩
  · by_cases h0 : l = 0
    · omega
    · have hmem : l ∈ lengths.filter (· ≠ 0) := List.mem_filter.2 ⟨hl, by simpa using h0⟩
      rcases h with h | h
      · rw [h] at hmem
        cases hmem
      · rw [h, List.mem_singleton] at hmem
        omega
  · rw [kraft_filter]
    rcases h with h | h
    · rw [h]
      decide
    · rw [h]
      decide

theorem CodeOk.codes {allowSingle : Bool} (h : CodeOk allowSingle lengths) (hsize : lengths.length ≤ 288) :
    Codes lengths := by
  have hcomplete : Complete lengths → Codes lengths := fun h => ⟨h.1, fits_of_kraft h.1 h.2.le, hsize⟩
  unfold CodeOk at h
  split at h
  · rcases h with h | h
    · exact hcomplete h
    · obtain ⟨hbounded, hkraft⟩ := kraft_single h
      exact ⟨hbounded, fits_of_kraft hbounded hkraft.le, hsize⟩
  · exact hcomplete h

/-- How many symbols have a codeword. -/
theorem used_eq (lengths : List ℕ) : lengths.length - lengths.count 0 = (lengths.filter (· ≠ 0)).length := by
  rw [← List.countP_eq_length_filter, List.length_eq_countP_add_countP (· == 0), List.count]
  simp

/-- What `v9x_inflate_build` asks of a code that leaves code space. -/
theorem single_iff (lengths : List ℕ) : ¬(lengths.length - lengths.count 0 > 1 ∨
    (lengths.length - lengths.count 0 = 1 ∧ lengths.count 1 ≠ 1)) ↔
      lengths.filter (· ≠ 0) = [] ∨ lengths.filter (· ≠ 0) = [1] := by
  have hone : lengths.count 1 = (lengths.filter (· ≠ 0)).count 1 := (List.count_filter (by decide)).symm
  rw [used_eq, hone]
  clear hone
  generalize lengths.filter (· ≠ 0) = used
  rcases used with - | ⟨a, - | ⟨b, l⟩⟩
  · simp
  · by_cases ha : a = 1
    · subst ha
      simp
    · simp [ha]
  · simp

/-- **`v9x_inflate_build` accepts the code length sets of the format**, and builds their tables. -/
theorem post_build {lengths : ℕ → ℕ} {size symbols : ℕ} (hsize : symbols ≤ size) (hsymbols : symbols ≤ 288)
    (allowSingle : Bool) :
    Post (inflateBuild code size lengths symbols allowSingle) s
      (fun code s' => s' = s ∧ CodeOk allowSingle (lengthList lengths symbols) ∧
        Sorted code (lengthList lengths symbols))
      (fun e s' => s' = s ∧ e = .badLengths ∧ ¬CodeOk allowSingle (lengthList lengths symbols)) := by
  have hover : ∀ {lengths : List ℕ}, CodeOk allowSingle lengths →
      (∀ l ∈ lengths, l ≤ 15) ∧ kraft 15 lengths ≤ 2 ^ 15 := by
    intro lengths h
    unfold CodeOk at h
    split at h
    · rcases h with h | h
      · exact ⟨h.1, h.2.le⟩
      · exact (kraft_single h).imp_right le_of_lt
    · exact ⟨h.1, h.2.le⟩
  rw [inflateBuild, post_bind]
  refine (post_count hsize).imp (fun count s' h => ?_) (fun e s' h => ?_)
  · obtain ⟨rfl, hcount, hbounded⟩ := h
    rw [post_bind]
    refine (post_left hcount hbounded).imp (fun left s'' h => ?_) (fun e s'' h => ?_)
    · obtain ⟨rfl, rfl, hpos⟩ := h
      have hused : symbols - count 0 =
          (lengthList lengths symbols).length - (lengthList lengths symbols).count 0 := by
        rw [hcount 0 (by omega), lengthList_length]
      have hsingle := single_iff (lengthList lengths symbols)
      rw [← hused, ← hcount 1 (by omega)] at hsingle
      simp only [post_ite, post_bind, post_stop, post_pure]
      refine ⟨fun hleft => ⟨trivial, trivial, fun hok => ?_⟩, fun hnot => ?_⟩
      · obtain ⟨hspace, hrefused⟩ := hleft
        unfold CodeOk at hok
        split at hok
        · rcases hok with hok | hok
          · have := hok.2
            omega
          · exact hsingle.2 hok (by simpa [*] using hrefused)
        · have := hok.2
          omega
      · refine (post_sort hsize hsymbols hcount hbounded _).imp (fun sorted s' h => ⟨h.1, ?_, h.2⟩) fun _ _ h => h
        unfold CodeOk
        by_cases hspace : (2 ^ 15 : ℤ) - (kraft 15 (lengthList lengths symbols) : ℤ) > 0
        · have haccepted := fun h => hnot ⟨hspace, h⟩
          cases allowSingle with
          | false => exact absurd (by simp) haccepted
          | true => exact Or.inr (hsingle.1 (by simpa using haccepted))
        · have hcomplete : Complete (lengthList lengths symbols) := ⟨hbounded, by omega⟩
          split
          · exact Or.inl hcomplete
          · exact hcomplete
    · obtain ⟨rfl, rfl, hkraft⟩ := h
      exact ⟨rfl, rfl, fun hok => absurd (hover hok).2 (not_le.2 hkraft)⟩
  · obtain ⟨rfl, rfl, l, hl, hgreat⟩ := h
    exact ⟨rfl, rfl, fun hok => absurd ((hover hok).1 l hl) (not_le.2 hgreat)⟩

end V9xRemote
