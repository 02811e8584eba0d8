import Mathlib.Data.List.TakeWhile
import V9xRemote.Spec.VncDeflate
import V9xRemote.Proof.InflateStream

/-!
# The VNC server's Deflate stream

What the encoder writes decodes to what it read: each bit-writing function appends the bits
of one field or codeword (`Writes`), each match stands for bytes that are there, and a call
leaves the decoder between two blocks at the beginning of a byte.
-/

namespace V9xRemote

open Bytes Deflate Canonical

variable {sink sink' sink'' : VncBits} {w w' : List Bool}

/-! ## Writing bits -/

/-- The bits written so far: those of the bytes that are out, and those that wait. -/
def VncBits.written (sink : VncBits) : List Bool := Deflate.bits sink.out ++ lsbBits sink.count sink.bits

/-- Less than a byte waits. -/
structure VncBits.Ready (sink : VncBits) : Prop where
  bits : sink.bits < 2 ^ sink.count
  count : sink.count < 8

/-- Some bits were written, or the capacity ran out. -/
structure Writes (sink sink' : VncBits) (w : List Bool) : Prop where
  ready : sink'.Ready
  failed : sink.failed = true → sink'.failed = true
  out : sink.out <+: sink'.out
  written : sink'.failed = false → sink'.written = sink.written ++ w

theorem Writes.refl (h : sink.Ready) : Writes sink sink [] :=
  ⟨h, fun h => h, List.prefix_refl _, fun _ => (List.append_nil _).symm⟩

theorem Writes.trans (h : Writes sink sink' w) (h' : Writes sink' sink'' w') : Writes sink sink'' (w ++ w') where
  ready := h'.ready
  failed hf := h'.failed (h.failed hf)
  out := h.out.trans h'.out
  written hf := by
    have hbefore : sink'.failed = false := by
      by_contra hne
      rw [h'.failed (Bool.eq_true_of_not_eq_false hne)] at hf
      cases hf
    rw [h'.written hf, h.written hbefore, List.append_assoc]

/-- **Whole bytes** go out with the same bits. -/
theorem drain_writes (hbits : sink.bits < 2 ^ sink.count) : Writes sink sink.drain [] := by
  fun_induction VncBits.drain sink with
  | case1 sink hcount hfull =>
    exact ⟨⟨Nat.one_pos, Nat.succ_pos 7⟩, fun _ => rfl, List.prefix_refl _, fun hf => by cases hf⟩
  | case2 sink hcount hroom ih =>
    obtain ⟨m, hm⟩ : ∃ m, sink.count = 8 + m := ⟨sink.count - 8, by omega⟩
    have hm' : sink.count - 8 = m := by omega
    have hbyte : sink.bits &&& 0xff = sink.bits % 2 ^ 8 := Nat.and_two_pow_sub_one_eq_mod sink.bits 8
    have hshift : sink.bits >>> 8 = sink.bits / 2 ^ 8 := Nat.shiftRight_eq_div_pow sink.bits 8
    have hlow : sink.bits % 2 ^ 8 < 2 ^ 8 := Nat.mod_lt _ (Nat.two_pow_pos 8)
    have hsplit : sink.bits % 2 ^ 8 + sink.bits / 2 ^ 8 * 2 ^ 8 = sink.bits := by
      rw [Nat.mul_comm]
      exact Nat.mod_add_div _ _
    have hstep := ih (by
      dsimp only
      rw [hshift, hm']
      rw [hm, Nat.pow_add] at hbits
      exact Nat.div_lt_of_lt_mul hbits)
    refine ⟨hstep.ready, hstep.failed, (List.prefix_append _ _).trans hstep.out, fun hf => ?_⟩
    have hvalue : (UInt8.ofNat (sink.bits &&& 0xff)).toNat = sink.bits % 2 ^ 8 := by
      rw [hbyte, UInt8.toNat_ofNat_of_lt' hlow]
    rw [hstep.written hf, VncBits.written, VncBits.written]
    dsimp only
    rw [bits_append, bits_cons, hvalue, hshift, hm', hm]
    have hadd := lsbBits_add hlow m (sink.bits / 2 ^ 8)
    rw [hsplit] at hadd
    rw [hadd]
    simp [bits]
  | case3 sink hcount => exact Writes.refl ⟨hbits, by omega⟩

/-- **A field** is written. -/
theorem put_writes (hs : sink.Ready) (value count : ℕ) (hvalue : value < 2 ^ count) :
    Writes sink (sink.put value count) (lsbBits count value) := by
  have hor : sink.bits ||| (value <<< sink.count) = sink.bits + value * 2 ^ sink.count := by
    rw [Nat.or_comm, ← Nat.shiftLeft_add_eq_or_of_lt hs.bits, Nat.shiftLeft_eq, Nat.add_comm]
  have hbits : sink.bits + value * 2 ^ sink.count < 2 ^ (sink.count + count) := by
    calc sink.bits + value * 2 ^ sink.count < 2 ^ sink.count + value * 2 ^ sink.count := by
          have := hs.bits
          omega
      _ = (value + 1) * 2 ^ sink.count := by ring
      _ ≤ 2 ^ count * 2 ^ sink.count := Nat.mul_le_mul_right _ hvalue
      _ = 2 ^ (sink.count + count) := by rw [Nat.mul_comm, Nat.pow_add]
  have hdrain := drain_writes
    (by rw [hor]; exact hbits : ({ sink with
      bits := sink.bits ||| (value <<< sink.count), count := sink.count + count } : VncBits).bits < _)
  refine ⟨hdrain.ready, hdrain.failed, hdrain.out, fun hf => ?_⟩
  have hwritten := hdrain.written hf
  rw [List.append_nil] at hwritten
  refine hwritten.trans ?_
  rw [VncBits.written, VncBits.written]
  dsimp only
  rw [hor, lsbBits_add hs.bits, List.append_assoc]

theorem reversed_bits (count code acc m : ℕ) (hacc : acc < 2 ^ m) :
    lsbBits (count + m) (VncBits.reversed count code acc) = msbBits count code ++ lsbBits m acc ∧
      VncBits.reversed count code acc < 2 ^ (count + m) := by
  induction count generalizing code acc m with
  | zero =>
    rw [Nat.zero_add]
    exact ⟨rfl, hacc⟩
  | succ count ih =>
    have hone : code &&& 1 = code % 2 := Nat.and_two_pow_sub_one_eq_mod code 1
    have hhalf : code >>> 1 = code / 2 := Nat.shiftRight_eq_div_pow code 1
    have hbit : code % 2 < 2 ^ 1 := Nat.mod_lt _ (Nat.two_pow_pos 1)
    have hor : (acc <<< 1) ||| (code % 2) = acc * 2 + code % 2 := by
      rw [← Nat.shiftLeft_add_eq_or_of_lt hbit, Nat.shiftLeft_eq, Nat.pow_one]
    have hnext := ih (code / 2) (acc * 2 + code % 2) (m + 1) (by rw [Nat.pow_succ]; omega)
    rw [VncBits.reversed, hone, hhalf, hor, Nat.add_right_comm, Nat.add_assoc]
    refine ⟨?_, hnext.2⟩
    have hmod : (acc * 2 + code % 2) % 2 = code % 2 := by omega
    have hdiv : (acc * 2 + code % 2) / 2 = acc := by omega
    rw [hnext.1, msbBits, lsbBits, hmod, hdiv, List.append_assoc]
    rfl

/-- **A codeword** is written. -/
theorem code_writes (hs : sink.Ready) (code count : ℕ) : Writes sink (sink.code code count) (msbBits count code) := by
  obtain ⟨hbits, hlt⟩ := reversed_bits count code 0 0 Nat.one_pos
  have hput := put_writes hs _ _ hlt
  rw [Nat.add_zero] at hbits hput
  rw [hbits] at hput
  rwa [lsbBits, List.append_nil] at hput

/-- The first codewords of the fixed codes. -/
theorem fixed_first : first fixedLitlen 7 = 0 ∧ first fixedLitlen 8 = 0x30 ∧ first fixedLitlen 9 = 0x190 ∧
    first fixedDistance 5 = 0 := by
  simp [first, Canonical.count, fixedLitlen, fixedDistance, List.count_append, List.count_replicate, -List.reduceReplicate]

/-- The codewords of the source are those of the format. -/
theorem fixed_codeword {symbol : ℕ} (hsymbol : symbol < 288) : codeword fixedLitlen symbol =
    if symbol < 144 then msbBits 8 (0x30 + symbol)
    else if symbol < 256 then msbBits 9 (0x190 + symbol - 144)
    else if symbol < 280 then msbBits 7 (symbol - 256)
    else msbBits 8 (0xc0 + symbol - 280) := by
  obtain ⟨h7, h8, h9, -⟩ := fixed_first
  have hrun : ∀ (before after : List ℕ) (n v k : ℕ), fixedLitlen = before ++ (List.replicate n v ++ after) → k < n →
      symbol = before.length + k → codeword fixedLitlen symbol = msbBits v (first fixedLitlen v + (before.count v + k)) := by
    rintro before after n v k heq hk rfl
    rw [heq]
    exact codeword_run before after hk v
  let long := List.replicate 144 8 ++ List.replicate 112 9
  split_ifs with h144 h256 h280
  · have h := hrun [] (List.replicate 112 9 ++ List.replicate 24 7 ++ List.replicate 8 8) 144 8 symbol
      (by simp only [fixedLitlen, List.append_assoc, List.nil_append]) h144 (Nat.zero_add _).symm
    rw [h, h8, List.count_nil, Nat.zero_add]
  · have h := hrun (List.replicate 144 8) (List.replicate 24 7 ++ List.replicate 8 8) 112 9 (symbol - 144)
      (by simp only [fixedLitlen, List.append_assoc]) (by omega) (by rw [List.length_replicate]; omega)
    have hvalue : 0x190 + (0 + (symbol - 144)) = 0x190 + symbol - 144 := by omega
    rw [h, h9, List.count_replicate, if_neg (by decide), hvalue]
  · have h := hrun long (List.replicate 8 8) 24 7 (symbol - 256)
      (by simp only [long, fixedLitlen, List.append_assoc]) (by omega)
      (by simp only [long, List.length_append, List.length_replicate]; omega)
    have hcount : long.count 7 = 0 := by
      simp only [long, List.count_append, List.count_replicate]
      rfl
    rw [h, h7, hcount, Nat.zero_add, Nat.zero_add]
  · have h := hrun (long ++ List.replicate 24 7) [] 8 8 (symbol - 280)
      (by simp only [long, fixedLitlen, List.append_assoc, List.append_nil]) (by omega)
      (by simp only [long, List.length_append, List.length_replicate]; omega)
    have hcount : (long ++ List.replicate 24 7).count 8 = 144 := by
      simp only [long, List.count_append, List.count_replicate]
      rfl
    have hvalue : 0x30 + (144 + (symbol - 280)) = 0xc0 + symbol - 280 := by omega
    rw [h, h8, hcount, hvalue]

theorem fixed_distance_codeword {symbol : ℕ} (hsymbol : symbol < 32) :
    codeword fixedDistance symbol = msbBits 5 symbol := by
  have hrun := codeword_run [] [] hsymbol 5
  simp only [List.nil_append, List.append_nil, List.length_nil, List.count_nil, Nat.zero_add] at hrun
  refine hrun.trans ?_
  have hfirst := fixed_first.2.2.2
  rw [fixedDistance] at hfirst
  rw [hfirst, Nat.zero_add]

theorem fixed_lengthOf : (∀ symbol < 288, lengthOf fixedLitlen symbol ≠ 0) ∧
    ∀ symbol < 32, lengthOf fixedDistance symbol ≠ 0 := by
  have hlitlen : ∀ n ∈ fixedLitlen, n ≠ 0 := by
    intro n hn
    simp only [fixedLitlen, List.mem_append, List.mem_replicate] at hn
    omega
  have hdistance : ∀ n ∈ fixedDistance, n ≠ 0 := by
    intro n hn
    rw [List.eq_of_mem_replicate hn]
    exact Nat.succ_ne_zero 4
  have hsize : fixedLitlen.length = 288 := by
    simp only [fixedLitlen, List.length_append, List.length_replicate]
  refine ⟨fun symbol hsymbol => ?_, fun symbol hsymbol => ?_⟩
  · rw [lengthOf_eq (hsize ▸ hsymbol)]
    exact hlitlen _ (List.getElem_mem _)
  · rw [lengthOf_eq (show symbol < fixedDistance.length from hsymbol)]
    exact hdistance _ (List.getElem_mem _)

theorem symbol_writes (hs : sink.Ready) (symbol : ℕ) (hsymbol : symbol < 288) :
    Writes sink (sink.symbol symbol) (codeword fixedLitlen symbol) := by
  rw [fixed_codeword hsymbol]
  unfold VncBits.symbol
  split
  · exact code_writes hs _ _
  split
  · exact code_writes hs _ _
  split
  · exact code_writes hs _ _
  · exact code_writes hs _ _

/-! ## Literals and matches -/

theorem vnc_tables_eq : (∀ i < 29, vncLengthExtra.getD i 0 = lengthExtra i ∧ vncLengthBase.getD i 0 = lengthBase i) ∧
    ∀ i < 30, vncDistanceExtra.getD i 0 = distanceExtra i ∧ vncDistanceBase.getD i 0 = distanceBase i := by
  decide

/-- The index that is found is the last one whose entry is not above the value. -/
theorem vncIndex_spec (table : List ℕ) (value top : ℕ) (h0 : table.getD 0 0 ≤ value) :
    vncIndex table value top ≤ top ∧ table.getD (vncIndex table value top) 0 ≤ value ∧
      (vncIndex table value top = top ∨ value < table.getD (vncIndex table value top + 1) 0) := by
  induction top with
  | zero => exact ⟨le_rfl, h0, Or.inl rfl⟩
  | succ top ih =>
    unfold vncIndex
    split
    · rename_i habove
      obtain ⟨hle, hvalue, hnext⟩ := ih
      refine ⟨by omega, hvalue, Or.inr ?_⟩
      rcases hnext with heq | hlt
      · rw [heq]
        exact habove
      · exact hlt
    · rename_i hnot
      exact ⟨le_rfl, not_lt.1 hnot, Or.inl rfl⟩

/-- A length is its symbol's base and what the extra bits can hold. -/
theorem length_index {length : ℕ} (h3 : 3 ≤ length) (h258 : length ≤ 258) :
    vncIndex vncLengthBase length 28 < 29 ∧ lengthBase (vncIndex vncLengthBase length 28) ≤ length ∧
      length - lengthBase (vncIndex vncLengthBase length 28) < 2 ^ lengthExtra (vncIndex vncLengthBase length 28) := by
  obtain ⟨hle, hvalue, hnext⟩ := vncIndex_spec vncLengthBase length 28 h3
  generalize vncIndex vncLengthBase length 28 = i at hle hvalue hnext ⊢
  rw [(vnc_tables_eq.1 i (by omega)).2] at hvalue
  refine ⟨by omega, hvalue, ?_⟩
  rcases hnext with rfl | hlt
  · have hlast : lengthBase 28 = 258 := rfl
    rw [hlast, Nat.sub_eq_zero_of_le h258]
    exact Nat.two_pow_pos _
  · have hi : i < 28 := by
      by_contra hnot
      obtain rfl : i = 28 := by omega
      exact absurd hlt (Nat.not_lt_zero _)
    rw [(vnc_tables_eq.1 (i + 1) (by omega)).2] at hlt
    have hgap : ∀ i < 28, lengthBase (i + 1) ≤ lengthBase i + 2 ^ lengthExtra i := by decide
    have := hgap i hi
    omega

/-- So is a distance. -/
theorem distance_index {distance : ℕ} (h1 : 1 ≤ distance) (hmax : distance ≤ 32768) :
    vncIndex vncDistanceBase distance 29 < 30 ∧ distanceBase (vncIndex vncDistanceBase distance 29) ≤ distance ∧
      distance - distanceBase (vncIndex vncDistanceBase distance 29) <
        2 ^ distanceExtra (vncIndex vncDistanceBase distance 29) := by
  obtain ⟨hle, hvalue, hnext⟩ := vncIndex_spec vncDistanceBase distance 29 h1
  generalize vncIndex vncDistanceBase distance 29 = i at hle hvalue hnext ⊢
  rw [(vnc_tables_eq.2 i (by omega)).2] at hvalue
  refine ⟨by omega, hvalue, ?_⟩
  rcases hnext with rfl | hlt
  · have hlast : distanceBase 29 = 24577 ∧ distanceExtra 29 = 13 := by decide
    rw [hlast.1, hlast.2]
    omega
  · have hi : i < 29 := by
      by_contra hnot
      obtain rfl : i = 29 := by omega
      exact absurd hlt (Nat.not_lt_zero _)
    rw [(vnc_tables_eq.2 (i + 1) (by omega)).2, distanceBase] at hlt
    omega

/-- Some bits are an item of a fixed block. -/
def Encodes (w : List Bool) (i : Item) : Prop :=
  ∀ tail, item fixedLitlen fixedDistance (w ++ tail) = some (i, tail)

theorem literal_encodes (b : UInt8) : Encodes (codeword fixedLitlen b.toNat) (.literal b) := by
  intro tail
  have hb := UInt8.toNat_lt b
  have hdecode := decode_codeword fixed_fits.1 (fixed_lengthOf.1 b.toNat (by omega)) tail
  rw [item_of_decode _ hdecode, if_pos hb, UInt8.ofNat_toNat]

theorem endOfBlock_encodes : Encodes (codeword fixedLitlen 256) .endOfBlock := by
  intro tail
  have hdecode := decode_codeword fixed_fits.1 (fixed_lengthOf.1 256 (by omega)) tail
  rw [item_of_decode _ hdecode, if_neg (by omega), if_pos rfl]

/-- **A match** is written, and read back. -/
theorem match_writes (hs : sink.Ready) {length distance : ℕ} (h3 : 3 ≤ length) (h258 : length ≤ 258)
    (h1 : 1 ≤ distance) (hmax : distance ≤ 32768) :
    ∃ w, Writes sink (vncMatch sink length distance) w ∧ Encodes w (.copy length distance) := by
  obtain ⟨hi, hbase, hextra⟩ := length_index h3 h258
  obtain ⟨hj, hdbase, hdextra⟩ := distance_index h1 hmax
  unfold vncMatch
  dsimp only
  generalize vncIndex vncLengthBase length 28 = i at hi hbase hextra ⊢
  generalize vncIndex vncDistanceBase distance 29 = j at hj hdbase hdextra ⊢
  rw [(vnc_tables_eq.1 i hi).1, (vnc_tables_eq.1 i hi).2, (vnc_tables_eq.2 j hj).1, (vnc_tables_eq.2 j hj).2]
  have hsymbol := symbol_writes hs (257 + i) (by omega)
  have hlength := put_writes hsymbol.ready _ _ hextra
  have hcode := code_writes hlength.ready j 5
  have hdistance := put_writes hcode.ready _ _ hdextra
  refine ⟨_, hsymbol.trans (hlength.trans (hcode.trans hdistance)), fun tail => ?_⟩
  have hdecode := decode_codeword fixed_fits.1 (fixed_lengthOf.1 (257 + i) (by omega))
    (lsbBits (lengthExtra i) (length - lengthBase i) ++
      (msbBits 5 j ++ (lsbBits (distanceExtra j) (distance - distanceBase j) ++ tail)))
  rw [List.append_assoc, List.append_assoc, List.append_assoc, item_of_decode _ hdecode, if_neg (by omega),
    if_neg (by omega), if_pos (by omega)]
  have hsub : 257 + i - 257 = i := by omega
  have hmatchLength : ∀ rest, matchLength (257 + i)
      (lsbBits (lengthExtra i) (length - lengthBase i) ++ rest) = some (length, rest) := by
    intro rest
    rw [matchLength, hsub, field_lsbBits hextra]
    exact congrArg some (Prod.ext (Nat.add_sub_of_le hbase) rfl)
  have hmatchDistance : matchDistance fixedDistance
      (msbBits 5 j ++ (lsbBits (distanceExtra j) (distance - distanceBase j) ++ tail)) = some (distance, tail) := by
    rw [← fixed_distance_codeword (show j < 32 by omega), matchDistance,
      decode_codeword fixed_fits.2 (fixed_lengthOf.2 j (by omega))]
    simp only [Option.bind_eq_bind, Option.bind_some, guard, if_pos hj, Option.pure_def, field_lsbBits hdextra]
    exact congrArg some (Prod.ext (Nat.add_sub_of_le hdbase) rfl)
  rw [hmatchLength, Option.bind_some]
  dsimp only
  rw [hmatchDistance]
  rfl

/-! ## The input -/

variable {input : Bytes} {head : ℕ → ℕ} {position : ℕ}

/-- The same bytes stand at two positions. -/
theorem vncRun_spec (input : Bytes) (start position limit : ℕ) : vncRun input start position limit ≤ limit ∧
    ∀ k < vncRun input start position limit, input.at' (start + k) = input.at' (position + k) := by
  have hrun := List.takeWhile_prefix (fun run => input.at' (start + run) == input.at' (position + run))
    (l := List.range limit)
  refine ⟨?_, fun k hk => ?_⟩
  · have := hrun.length_le
    rwa [List.length_range] at this
  · have hmem := List.mem_takeWhile_imp (List.getElem_mem hk)
    rw [hrun.getElem hk, List.getElem_range] at hmem
    exact eq_of_beq hmem

/-- A match of the input with itself. -/
structure Matches (input : Bytes) (position best distance : ℕ) : Prop where
  min : 3 ≤ best
  max : best ≤ 258
  inside : position + best ≤ input.length
  near : 1 ≤ distance
  far : distance ≤ 32768
  behind : distance ≤ position
  same : ∀ k < best, input.at' (position - distance + k) = input.at' (position + k)

theorem vncHash3_lt (input : Bytes) (position : ℕ) : vncHash3 input position < vncDeflateHashSize :=
  Nat.and_lt_two_pow _ (n := 12) (by decide)

/-- **The matcher** finds a match or none, and enters no position but the current one. -/
theorem vncBest_spec (input : Bytes) (hhead : ∀ h < vncDeflateHashSize, head h ≤ position) :
    (∀ h < vncDeflateHashSize, (vncBest input head position).1 h ≤ position + 1) ∧
      ((vncBest input head position).2.1 ≠ 0 →
        Matches input position (vncBest input head position).2.1 (vncBest input head position).2.2) := by
  have hkept : ∀ h < vncDeflateHashSize, head h ≤ position + 1 := fun h hh => (hhead h hh).trans (Nat.le_succ _)
  have hentered : ∀ h < vncDeflateHashSize,
      Function.update head (vncHash3 input position) (position + 1) h ≤ position + 1 := by
    intro h hh
    rw [Function.update_apply]
    split
    · exact le_rfl
    · exact hkept h hh
  have hcand := hhead (vncHash3 input position) (vncHash3_lt input position)
  unfold vncBest
  dsimp only
  split_ifs with hroom hcandidate hlong hrun hrun
  · refine ⟨hentered, fun _ => ?_⟩
    obtain ⟨hmax, hsame⟩ := vncRun_spec input (head (vncHash3 input position) - 1) position 258
    dsimp only
    refine ⟨hrun, hmax, by omega, by omega, hcandidate.2, by omega, fun k hk => ?_⟩
    have hstart : position - (position - (head (vncHash3 input position) - 1)) =
        head (vncHash3 input position) - 1 := by omega
    rw [hstart]
    exact hsame k hk
  · exact ⟨hentered, fun h => absurd rfl h⟩
  · refine ⟨hentered, fun _ => ?_⟩
    obtain ⟨hmax, hsame⟩ := vncRun_spec input (head (vncHash3 input position) - 1) position (input.length - position)
    dsimp only
    refine ⟨hrun, by omega, by omega, by omega, hcandidate.2, by omega, fun k hk => ?_⟩
    have hstart : position - (position - (head (vncHash3 input position) - 1)) =
        head (vncHash3 input position) - 1 := by omega
    rw [hstart]
    exact hsame k hk
  · exact ⟨hentered, fun h => absurd rfl h⟩
  · exact ⟨hentered, fun h => absurd rfl h⟩
  · exact ⟨hkept, fun h => absurd rfl h⟩

theorem vncInsert_le (hhead : ∀ h < vncDeflateHashSize, head h ≤ position + 1) {best : ℕ} (hbest : best ≠ 0) :
    ∀ h < vncDeflateHashSize, vncInsert input head position best h ≤ position + best := by
  unfold vncInsert
  have hsteps : ∀ step ∈ List.range' 1 (best - 1), position + step + 1 ≤ position + best := by
    intro step hstep
    rw [List.mem_range'_1] at hstep
    omega
  have hstart : ∀ h < vncDeflateHashSize, head h ≤ position + best := fun h hh => (hhead h hh).trans (by omega)
  clear hhead
  generalize List.range' 1 (best - 1) = steps at hsteps ⊢
  induction steps generalizing head with
  | nil => exact hstart
  | cons step steps ih =>
    rw [List.foldl_cons]
    refine ih (fun h hh => ?_) fun s hs => hsteps s (List.mem_cons_of_mem _ hs)
    split
    · rw [Function.update_apply]
      split
      · exact hsteps step List.mem_cons_self
      · exact hstart h hh
    · exact hstart h hh

/-- **A match copies** what stands at its position. -/
theorem copy_input {best distance : ℕ} (h : Matches input position best distance) (out : Bytes) :
    copy distance best (out ++ input.take position) = out ++ input.take (position + best) := by
  obtain ⟨-, -, hinside, hnear, -, hbehind, hsame⟩ := h
  induction best with
  | zero => rfl
  | succ best ih =>
    have hread : (out ++ input.take (position + best)).at'
        ((out ++ input.take (position + best)).length - distance) = input.at' (position + best) := by
      have hlength : (input.take (position + best)).length = position + best := List.length_take_of_le (by omega)
      have hindex : (out ++ input.take (position + best)).length - distance =
          out.length + (position - distance + best) := by
        rw [List.length_append, hlength]
        omega
      rw [hindex, ← hsame best (Nat.lt_succ_self _), at', at', List.getD_append_right _ _ _ _ (Nat.le_add_right _ _),
        Nat.add_sub_cancel_left, List.getD_eq_getElem _ _ (by omega), List.getD_eq_getElem _ _ (by omega),
        List.getElem_take]
    rw [copy_succ, ih (by omega) fun k hk => hsame k (by omega), hread, List.append_assoc, ← Nat.add_assoc,
      List.take_succ_eq_append_getElem (by omega), at', List.getD_eq_getElem _ _ (by omega)]

/-- Some bits carry a block's items on from a position of the input to its end. -/
def Carries (input : Bytes) (position : ℕ) (w : List Bool) : Prop := ∀ out tail,
  items fixedLitlen fixedDistance (out ++ input.take position) (w ++ tail) =
    items fixedLitlen fixedDistance (out ++ input) tail

/-- **The whole input** is written as literals and matches. -/
theorem compress_writes (hs : sink.Ready) (hhead : ∀ h < vncDeflateHashSize, head h ≤ position) (hposition : position ≤ input.length) :
    ∃ w, Writes sink (vncCompress input sink head position).1 w ∧
      ((vncCompress input sink head position).1.failed = false → Carries input position w) := by
  induction hn : input.length - position using Nat.strong_induction_on generalizing sink head position with
  | _ n ih =>
    obtain ⟨hhead', hmatch⟩ := vncBest_spec input hhead
    rw [vncCompress]
    split
    · rename_i hmore
      have hless := hmore.1
      dsimp only
      split
      · rename_i hbest
        have hm := hmatch hbest
        obtain ⟨w, hwrites, hencodes⟩ := match_writes hs hm.min hm.max hm.near hm.far
        have hless' : input.length - (position + (vncBest input head position).2.1) < n :=
          hn ▸ Nat.sub_lt_sub_left hless (Nat.lt_add_of_pos_right (Nat.pos_of_ne_zero hbest))
        obtain ⟨w', hrest, hcarries⟩ := ih (input.length - (position + (vncBest input head position).2.1)) hless'
          hwrites.ready (vncInsert_le hhead' hbest) hm.inside rfl
        refine ⟨w ++ w', hwrites.trans hrest, fun hf out tail => ?_⟩
        have hnear : (vncBest input head position).2.2 ≤ (out ++ input.take position).length := by
          rw [List.length_append, List.length_take_of_le hposition]
          exact hm.behind.trans (Nat.le_add_left _ _)
        rw [List.append_assoc, items_copy _ (hencodes (w' ++ tail)), if_pos hnear, copy_input hm]
        exact hcarries hf out tail
      · have hliteral := symbol_writes hs (input.at' position).toNat (by
          have := UInt8.toNat_lt (input.at' position)
          omega)
        obtain ⟨w', hrest, hcarries⟩ := ih (input.length - (position + 1)) (by omega) hliteral.ready hhead'
          (by omega) rfl
        refine ⟨_, hliteral.trans hrest, fun hf out tail => ?_⟩
        have hnext : out ++ input.take position ++ [input.at' position] = out ++ input.take (position + 1) := by
          rw [List.append_assoc, List.take_succ_eq_append_getElem hmore.1, at', List.getD_eq_getElem _ _ hmore.1]
        rw [List.append_assoc, items_literal (literal_encodes (input.at' position) (w' ++ tail)), hnext]
        exact hcarries hf out tail
    · rename_i hend
      refine ⟨[], Writes.refl hs, fun hf out tail => ?_⟩
      have hall : input.length ≤ position := by
        by_contra hless
        exact hend ⟨not_le.1 hless, hf⟩
      rw [List.nil_append, List.take_of_length_le hall]

/-! ## Calls -/

theorem Writes.before (h : Writes sink sink' w) (hf : sink'.failed = false) : sink.failed = false := by
  by_contra hne
  rw [h.failed (Bool.eq_true_of_not_eq_false hne)] at hf
  cases hf

theorem written_length (sink : VncBits) : sink.written.length = 8 * sink.out.length + sink.count := by
  rw [VncBits.written, List.length_append, bits_length, lsbBits_length]

/-- The bits that wait behind some more. -/
theorem Writes.count (h : Writes sink sink' w) (hf : sink'.failed = false) :
    sink'.count = (sink.count + w.length) % 8 := by
  have hlength := congrArg List.length (h.written hf)
  rw [List.length_append, written_length, written_length] at hlength
  have hcount := h.ready.count
  omega

/-- What is written when no bits wait. -/
theorem written_aligned (h : sink.count = 0) : sink.written = Deflate.bits sink.out := by
  rw [VncBits.written, h, lsbBits, List.append_nil]

/-- The bits of a sync flush, with its padding. -/
def flushBits (pad : List Bool) : List Bool :=
  codeword fixedLitlen 256 ++ (lsbBits 3 0 ++ (pad ++ (lsbBits 16 0 ++ lsbBits 16 0xffff)))

/-- The padding brings the stream to a byte's beginning. -/
theorem pad_writes (hs : sink.Ready) : ∃ pad : List Bool, pad.length < 8 ∧
    Writes sink (if sink.count > 0 then sink.put 0 (8 - sink.count) else sink) pad ∧
      ((if sink.count > 0 then sink.put 0 (8 - sink.count) else sink).failed = false →
        (if sink.count > 0 then sink.put 0 (8 - sink.count) else sink).count = 0) := by
  by_cases hcount : sink.count > 0
  · simp only [if_pos hcount]
    have hput := put_writes hs 0 _ (Nat.two_pow_pos (8 - sink.count))
    refine ⟨_, ?_, hput, fun hf => ?_⟩
    · rw [lsbBits_length]
      omega
    · have hlt := hs.count
      rw [hput.count hf, lsbBits_length]
      omega
  · simp only [if_neg hcount]
    exact ⟨[], Nat.succ_pos 7, Writes.refl hs, fun _ => by omega⟩

/-- **The sync flush** ends the block and writes an empty stored one. -/
theorem flush_writes (hs : sink.Ready) : ∃ pad : List Bool, pad.length < 8 ∧
    Writes sink (vncFlush sink) (flushBits pad) ∧ ((vncFlush sink).failed = false →
      (vncFlush sink).count = 0 ∧ [0, 0, 0xff, 0xff] <:+ (vncFlush sink).out) := by
  have hend := symbol_writes hs 256 (by omega)
  have htype := put_writes hend.ready 0 3 (Nat.two_pow_pos 3)
  obtain ⟨pad, hpad, hpadded, haligned⟩ := pad_writes htype.ready
  have hlength := put_writes hpadded.ready 0 16 (Nat.two_pow_pos 16)
  have hcomplement := put_writes hlength.ready 0xffff 16 (by decide)
  have hboth := hlength.trans hcomplement
  refine ⟨pad, hpad, hend.trans (htype.trans (hpadded.trans hboth)), fun hf => ?_⟩
  have hcount0 := haligned (hboth.before hf)
  have hcount := hboth.count hf
  rw [hcount0, List.length_append, lsbBits_length, lsbBits_length] at hcount
  have hwritten := hboth.written hf
  rw [written_aligned hcount, written_aligned hcount0] at hwritten
  have hbits : lsbBits 16 0 ++ lsbBits 16 0xffff = Deflate.bits [0, 0, 0xff, 0xff] := by decide
  rw [hbits, ← bits_append] at hwritten
  exact ⟨hcount, _, (bits_inj hwritten).symm⟩

/-- The bytes of a call: whole blocks that add its input and end with a sync flush, at the
beginning of a byte. -/
structure Synced (input body : Bytes) : Prop where
  flush : [0, 0, 0xff, 0xff] <:+ body
  blocks : ∀ out rest, blocks out (bits (body ++ rest)) = blocks (out ++ input) (bits rest)

/-- A block of the input and a sync flush are read back. -/
theorem blocks_synced (hcarries : Carries input 0 w) {pad : List Bool} (hpad : pad.length < 8) (out rest : Bytes) :
    blocks out (lsbBits 1 0 ++ (lsbBits 2 1 ++ (w ++ (flushBits pad ++ Deflate.bits rest)))) =
      blocks (out ++ input) (Deflate.bits rest) := by
  have htail : flushBits pad ++ Deflate.bits rest = codeword fixedLitlen 256 ++
      (lsbBits 1 0 ++ (lsbBits 2 0 ++ (pad ++ Deflate.bits (0 :: 0 :: 0xff :: 0xff :: rest)))) := by
    have hbits : lsbBits 16 0 ++ lsbBits 16 0xffff = Deflate.bits [0, 0, 0xff, 0xff] := by decide
    have hcons : Deflate.bits (0 :: 0 :: 0xff :: 0xff :: rest) = Deflate.bits [0, 0, 0xff, 0xff] ++ Deflate.bits rest :=
      bits_append [0, 0, 0xff, 0xff] rest
    rw [flushBits, hcons, hbits]
    simp only [List.append_assoc]
    rfl
  -- the block of the input
  have hitems : items fixedLitlen fixedDistance out (w ++ (flushBits pad ++ Deflate.bits rest)) =
      some (out ++ input, lsbBits 1 0 ++ (lsbBits 2 0 ++ (pad ++ Deflate.bits (0 :: 0 :: 0xff :: 0xff :: rest)))) := by
    have hcarried := hcarries out (flushBits pad ++ Deflate.bits rest)
    rw [List.take_zero, List.append_nil] at hcarried
    rw [hcarried, htail]
    exact items_endOfBlock (endOfBlock_encodes _)
  have hfirst := block_of_type out (field_lsbBits (n := 1) (v := 0) (by decide) _)
    (field_lsbBits (n := 2) (v := 1) (by decide) (w ++ (flushBits pad ++ Deflate.bits rest)))
  have hbody1 : body 1 out (w ++ (flushBits pad ++ Deflate.bits rest)) =
      items fixedLitlen fixedDistance out (w ++ (flushBits pad ++ Deflate.bits rest)) := rfl
  rw [hbody1, hitems] at hfirst
  rw [blocks_more hfirst]
  -- the empty stored block
  have hdrop : (pad ++ Deflate.bits (0 :: 0 :: 0xff :: 0xff :: rest)).drop
      ((pad ++ Deflate.bits (0 :: 0 :: 0xff :: 0xff :: rest)).length % 8) =
        Deflate.bits (0 :: 0 :: 0xff :: 0xff :: rest) := by
    have hmod : (pad ++ Deflate.bits (0 :: 0 :: 0xff :: 0xff :: rest)).length % 8 = pad.length := by
      rw [List.length_append, bits_length]
      omega
    rw [hmod, List.drop_left]
  have hstored := stored_of_header (out ++ input) hdrop
  have hsecond := block_of_type (out ++ input) (field_lsbBits (n := 1) (v := 0) (by decide) _)
    (field_lsbBits (n := 2) (v := 0) (by decide) (pad ++ Deflate.bits (0 :: 0 :: 0xff :: 0xff :: rest)))
  have hbody0 : body 0 (out ++ input) (pad ++ Deflate.bits (0 :: 0 :: 0xff :: 0xff :: rest)) =
      some (out ++ input, Deflate.bits rest) := by
    refine (show body 0 _ _ = stored _ _ from rfl).trans (hstored.trans ?_)
    have hempty : (0 : UInt8).toNat + (0 : UInt8).toNat * 2 ^ 8 = 0 := by decide
    have hlength : 0 + ((0xff : UInt8).toNat + (0xff : UInt8).toNat * 2 ^ 8) = 2 ^ 16 - 1 := by decide
    rw [hempty, if_pos hlength, bytes, Option.map_some]
    dsimp only
    rw [List.append_nil]
  rw [hbody0] at hsecond
  exact blocks_more hsecond

/-- **One call.** -/
theorem sync_spec {stream : VncDeflate} {capacity : ℕ} {out : Bytes}
    (h : (vncDeflateSync stream input capacity).2 = some out) :
    ∃ body, out = (if stream.headerWritten then [] else [0x78, 0x01]) ++ body ∧ Synced input body := by
  unfold vncDeflateSync at h
  dsimp only at h
  split at h
  · cases h
  rename_i hfailed
  obtain rfl := Option.some.inj h
  have hf := Bool.eq_false_of_not_eq_true hfailed
  have hstart : VncBits.Ready ⟨[], capacity, 0, 0, false⟩ := ⟨Nat.one_pos, Nat.succ_pos 7⟩
  -- the header is whole bytes
  have hheader : Writes ⟨[], capacity, 0, 0, false⟩ (vncHeader stream.headerWritten ⟨[], capacity, 0, 0, false⟩)
      (Deflate.bits (if stream.headerWritten then [] else [0x78, 0x01])) := by
    unfold vncHeader
    split
    · exact Writes.refl hstart
    · have h0 := put_writes hstart 0x78 8 (by decide)
      exact h0.trans (put_writes h0.ready 0x01 8 (by decide))
  have hfinal := put_writes hheader.ready 0 1 (Nat.two_pow_pos 1)
  have htype := put_writes hfinal.ready 1 2 (by decide)
  have hcleared : ∀ h < vncDeflateHashSize,
      (fun index => if index < vncDeflateHashSize then 0 else stream.head index) h ≤ 0 :=
    fun h hh => (if_pos hh).le
  obtain ⟨w, hcompress, hcarries⟩ := compress_writes htype.ready hcleared (Nat.zero_le input.length)
  obtain ⟨pad, hpad, hflush, hend⟩ := flush_writes hcompress.ready
  have hall := hfinal.trans (htype.trans (hcompress.trans hflush))
  obtain ⟨hcount, hsuffix⟩ := hend hf
  -- the bytes of the header are out before the block begins
  have hbefore := hall.before hf
  have haligned : (vncHeader stream.headerWritten ⟨[], capacity, 0, 0, false⟩).count = 0 := by
    rw [hheader.count hbefore, bits_length]
    dsimp only
    omega
  have hwritten := hheader.written hbefore
  rw [written_aligned haligned, written_aligned rfl, ← bits_append, List.nil_append] at hwritten
  have hout := bits_inj hwritten
  obtain ⟨body, hbody⟩ := hall.out
  have hbits := hall.written hf
  rw [written_aligned hcount, written_aligned haligned, ← hbody, bits_append] at hbits
  have hbits := List.append_cancel_left hbits
  rw [hout] at hbody
  refine ⟨body, hbody.symm, ?_, fun before rest => ?_⟩
  · have hlength := congrArg List.length hbits
    simp only [flushBits, bits_length, List.length_append, lsbBits_length] at hlength
    refine List.suffix_of_suffix_length_le hsuffix (hbody ▸ List.suffix_append _ _) ?_
    show 4 ≤ body.length
    omega
  · rw [bits_append, hbits]
    simp only [List.append_assoc]
    exact blocks_synced (hcarries (hflush.before hf)) hpad before rest

/-- The bodies of a run's calls, behind the header. -/
theorem calls_spec {stream : VncDeflate} {calls : List (Bytes × ℕ)} {outs : List Bytes}
    (h : vncDeflateCalls stream calls = some outs) : ∃ bodies, List.Forall₂ Synced (calls.map Prod.fst) bodies ∧
      outs = if stream.headerWritten then bodies else bodies.modifyHead ([0x78, 0x01] ++ ·) := by
  induction calls generalizing stream outs with
  | nil =>
    obtain rfl := Option.some.inj h
    refine ⟨[], List.Forall₂.nil, ?_⟩
    split <;> rfl
  | cons call calls ih =>
    obtain ⟨input, capacity⟩ := call
    simp only [vncDeflateCalls, Option.bind_eq_bind, Option.bind_eq_some_iff, Option.pure_def, Option.some.injEq] at h
    obtain ⟨out, hout, outs', houts, rfl⟩ := h
    obtain ⟨body, rfl, hbody⟩ := sync_spec hout
    obtain ⟨bodies, hbodies, houts'⟩ := ih houts
    refine ⟨body :: bodies, List.Forall₂.cons hbody hbodies, ?_⟩
    have hlater : (vncDeflateSync stream input capacity).1.headerWritten = true := rfl
    rw [if_pos hlater] at houts'
    rw [houts']
    split
    · rfl
    · rfl

/-- The blocks of some calls. -/
theorem blocks_calls {inputs bodies : List Bytes} (h : List.Forall₂ Synced inputs bodies) (out rest : Bytes) :
    blocks out (bits (bodies.flatten ++ rest)) = blocks (out ++ inputs.flatten) (bits rest) := by
  induction h generalizing out with
  | nil => rw [List.flatten_nil, List.nil_append, List.append_nil]
  | cons hbody _ ih =>
    rw [List.flatten_cons, List.append_assoc, hbody.blocks, ih, List.flatten_cons, List.append_assoc]

/-- An empty final block: nothing is added to what is there. -/
def EmptyFinal (fin : Bytes) : Prop := ∀ out, ∃ rest, block out (bits fin) = some (true, out, rest)

/-- The concatenation of the outputs, without the header, and a final block behind it. -/
theorem inflate_calls {inputs bodies : List Bytes} (h : List.Forall₂ Synced inputs bodies) {fin : Bytes}
    (hfin : EmptyFinal fin) : Deflate.inflate (bodies.flatten ++ fin) = some inputs.flatten := by
  obtain ⟨rest, hrest⟩ := hfin ([] ++ inputs.flatten)
  rw [Deflate.inflate, blocks_calls h, blocks_final hrest]
  rfl

/-- The decoder of the agent returns a stream's output where there is room for it. -/
theorem inflate_complete (scratch : InflateScratch) {input output o : Bytes} (h : Deflate.inflate input = some o)
    (hroom : o.length ≤ output.length) : ∃ r, inflateWithState scratch input output = some r ∧ r.status = .ok ∧
      r.output.take r.outputLength = o := by
  obtain ⟨r, hr, -, -, hok, hnot⟩ := inflate_spec scratch input output
  have hstatus : r.status = .ok := by
    by_contra hne
    exact absurd (hnot hne o h) (not_lt.2 hroom)
  refine ⟨r, hr, hstatus, ?_⟩
  have hout := hok hstatus
  rw [h] at hout
  exact (Option.some.inj hout).symm

/-- **The round trip** of the VNC stream: the header stands once, at the start; each call's
output ends at the beginning of a byte with a sync flush; and with an empty final block
behind it, the rest decodes to the inputs. -/
theorem vnc_deflate_round_trip {head : ℕ → ℕ} {calls : List (Bytes × ℕ)} {outs : List Bytes}
    (h : vncDeflateCalls (vncDeflateInit head) calls = some outs) : ∃ bodies,
      outs = bodies.modifyHead ([0x78, 0x01] ++ ·) ∧ outs.flatten.drop 2 = bodies.flatten ∧
        List.Forall₂ Synced (calls.map Prod.fst) bodies ∧ ∀ fin, EmptyFinal fin →
          Deflate.inflate (bodies.flatten ++ fin) = some (calls.map Prod.fst).flatten ∧
            ∀ scratch output, (calls.map Prod.fst).flatten.length ≤ output.length → ∃ r,
              inflateWithState scratch (bodies.flatten ++ fin) output = some r ∧ r.status = .ok ∧
                r.output.take r.outputLength = (calls.map Prod.fst).flatten := by
  obtain ⟨bodies, hbodies, houts⟩ := calls_spec h
  have hfirst : (vncDeflateInit head).headerWritten = false := rfl
  rw [hfirst, if_neg Bool.false_ne_true] at houts
  refine ⟨bodies, houts, ?_, hbodies, fun fin hfin => ⟨inflate_calls hbodies hfin, fun scratch output hroom =>
    inflate_complete scratch (inflate_calls hbodies hfin) hroom⟩⟩
  rw [houts]
  cases bodies with
  | nil => rfl
  | cons body bodies => rfl

/-- An empty block of fixed codes. -/
theorem emptyFinal_fixed : EmptyFinal [0x03, 0x00] := by
  intro out
  have hbits : Deflate.bits [0x03, 0x00] =
      lsbBits 1 1 ++ (lsbBits 2 1 ++ (codeword fixedLitlen 256 ++ List.replicate 6 false)) := by
    rw [fixed_codeword (by omega)]
    decide
  have hblock := block_of_type out (field_lsbBits (n := 1) (v := 1) (by decide) _)
    (field_lsbBits (n := 2) (v := 1) (by decide) (codeword fixedLitlen 256 ++ List.replicate 6 false))
  have hbody : body 1 out (codeword fixedLitlen 256 ++ List.replicate 6 false) =
      some (out, List.replicate 6 false) := by
    rw [body, if_neg (by omega), if_pos rfl]
    exact items_endOfBlock (endOfBlock_encodes _)
  rw [hbody, Option.map_some, ← hbits] at hblock
  exact ⟨List.replicate 6 false, hblock⟩

/-- Two calls, with a match, on a table that held something. -/
theorem vnc_deflate_round_trip_demo : ∃ outs,
    vncDeflateCalls (vncDeflateInit fun _ => 7) [([], 32), (List.replicate 5 0x41, 32)] = some outs ∧
      Deflate.inflate (outs.flatten.drop 2 ++ [0x03, 0x00]) = some (List.replicate 5 0x41) := by
  have hcalls : vncDeflateCalls (vncDeflateInit fun _ => 7) [([], 32), (List.replicate 5 0x41, 32)] =
      some [[0x78, 0x01, 0x02, 0x00, 0x00, 0x00, 0xff, 0xff],
        [0x72, 0x04, 0x01, 0x00, 0x00, 0x00, 0x00, 0xff, 0xff]] := by
    simp [vncDeflateCalls, vncDeflateInit, vncDeflateSync, vncHeader, vncFlush, VncBits.put, VncBits.drain,
      VncBits.symbol, VncBits.code, VncBits.reversed, vncCompress, vncBest, vncInsert, vncMatch, vncIndex, vncRun,
      vncHash3, vncDeflateHashSize, at', vncLengthBase, vncLengthExtra, vncDistanceBase, vncDistanceExtra,
      List.range, List.range.loop, List.range', Function.update_apply]
  obtain ⟨bodies, -, hdrop, -, hinflate⟩ := vnc_deflate_round_trip hcalls
  refine ⟨_, hcalls, ?_⟩
  rw [hdrop]
  exact (hinflate _ emptyFinal_fixed).1

end V9xRemote
