import V9xRemote.Spec.VncZrle
import V9xRemote.Proof.VncDeflate

/-!
# The Deflate encoder's bound

A byte of the input costs nine bits at most, alone or in a match: a match of three bytes is
written in 25 bits, a longer one in 31. The header, the block's two ends and the sync flush
fit in the 16 bytes that the bound adds.
-/

namespace V9xRemote

open Bytes

variable {sink sink' sink'' : VncBits} {n m : ℕ}

/-! ## What a write costs -/

/-- The bits that are out or wait. -/
def VncBits.used (sink : VncBits) : ℕ := 8 * sink.out.length + sink.count

/-- So many bits more at most, and no failure where they have room. -/
structure Spends (sink sink' : VncBits) (n : ℕ) : Prop where
  capacity : sink'.capacity = sink.capacity
  inside : sink.out.length ≤ sink.capacity → sink'.out.length ≤ sink.capacity
  room : sink.failed = false → sink.used + n < 8 * sink.capacity + 8 → sink'.failed = false ∧ sink'.used ≤ sink.used + n

theorem Spends.refl (sink : VncBits) : Spends sink sink 0 :=
  ⟨rfl, fun h => h, fun hf _ => ⟨hf, le_rfl⟩⟩

theorem Spends.mono (h : Spends sink sink' n) (hle : n ≤ m) : Spends sink sink' m where
  capacity := h.capacity
  inside := h.inside
  room hf hroom := by
    obtain ⟨hf', hused⟩ := h.room hf (by omega)
    exact ⟨hf', by omega⟩

theorem Spends.trans (h : Spends sink sink' n) (h' : Spends sink' sink'' m) : Spends sink sink'' (n + m) where
  capacity := h'.capacity.trans h.capacity
  inside hin := by
    have hin' := h'.inside
    rw [h.capacity] at hin'
    exact hin' (h.inside hin)
  room hf hroom := by
    obtain ⟨hf', hused⟩ := h.room hf (by omega)
    have hnext := h'.room hf'
    rw [h.capacity] at hnext
    obtain ⟨hf'', hused'⟩ := hnext (by omega)
    exact ⟨hf'', by omega⟩

theorem drain_spends (sink : VncBits) : Spends sink sink.drain 0 := by
  fun_induction VncBits.drain sink with
  | case1 sink hcount hfull =>
    refine ⟨rfl, fun h => h, fun _ hroom => ?_⟩
    -- a whole byte waits, so there is room for it
    unfold VncBits.used at hroom
    omega
  | case2 sink hcount hroom ih =>
    have hlength : (sink.out ++ [UInt8.ofNat (sink.bits &&& 0xff)]).length = sink.out.length + 1 := List.length_append
    have hsame : VncBits.used { sink with
        out := sink.out ++ [UInt8.ofNat (sink.bits &&& 0xff)], bits := sink.bits >>> 8, count := sink.count - 8 } =
        sink.used := by
      unfold VncBits.used
      dsimp only
      omega
    refine ⟨ih.capacity, fun _ => ih.inside ?_, fun hf hless => ?_⟩
    · dsimp only
      omega
    · have hstep := ih.room hf
      rw [hsame] at hstep
      exact hstep hless
  | case3 sink hcount => exact Spends.refl sink

theorem put_spends (sink : VncBits) (value count : ℕ) : Spends sink (sink.put value count) count := by
  have hdrain := drain_spends
    { sink with bits := sink.bits ||| (value <<< sink.count), count := sink.count + count }
  have hused : VncBits.used { sink with bits := sink.bits ||| (value <<< sink.count), count := sink.count + count } =
      sink.used + count := (Nat.add_assoc _ _ _).symm
  refine ⟨hdrain.capacity, hdrain.inside, fun hf hroom => ?_⟩
  have hstep := hdrain.room hf
  rw [hused] at hstep
  exact hstep hroom

theorem code_spends (sink : VncBits) (code count : ℕ) : Spends sink (sink.code code count) count :=
  put_spends sink _ count

/-- A symbol costs nine bits at most. -/
theorem symbol_spends (sink : VncBits) (symbol : ℕ) : Spends sink (sink.symbol symbol) 9 := by
  unfold VncBits.symbol
  split
  · exact (code_spends sink _ 8).mono (by omega)
  split
  · exact code_spends sink _ 9
  split
  · exact (code_spends sink _ 7).mono (by omega)
  · exact (code_spends sink _ 8).mono (by omega)

/-- A length's symbol costs eight bits at most. -/
theorem lengthSymbol_spends (sink : VncBits) {symbol : ℕ} (h : 256 ≤ symbol) : Spends sink (sink.symbol symbol) 8 := by
  unfold VncBits.symbol
  rw [if_neg (by omega), if_neg (by omega)]
  split
  · exact (code_spends sink _ 7).mono (by omega)
  · exact code_spends sink _ 8

theorem getD_le {table : List ℕ} {bound : ℕ} (h : table.all (· ≤ bound) = true) (i : ℕ) : table.getD i 0 ≤ bound := by
  rw [List.getD_eq_getElem?_getD]
  cases hi : table[i]? with
  | none => exact Nat.zero_le _
  | some value => exact of_decide_eq_true (List.all_eq_true.1 h value (List.mem_of_getElem? hi))

/-- **A match costs nine bits at most for each of its bytes.** -/
theorem match_spends (sink : VncBits) {length : ℕ} (h3 : 3 ≤ length) (distance : ℕ) :
    Spends sink (vncMatch sink length distance) (9 * length) := by
  have hlengthExtra := getD_le (show vncLengthExtra.all (· ≤ 5) = true from rfl) (vncIndex vncLengthBase length 28)
  have hdistanceExtra := getD_le (show vncDistanceExtra.all (· ≤ 13) = true from rfl) (vncIndex vncDistanceBase distance 29)
  have hsymbol := lengthSymbol_spends sink (show 256 ≤ 257 + vncIndex vncLengthBase length 28 by omega)
  have hrest := ((hsymbol.trans (put_spends _ (length - vncLengthBase.getD (vncIndex vncLengthBase length 28) 0)
    (vncLengthExtra.getD (vncIndex vncLengthBase length 28) 0))).trans
      (code_spends _ (vncIndex vncDistanceBase distance 29) 5)).trans
        (put_spends _ (distance - vncDistanceBase.getD (vncIndex vncDistanceBase distance 29) 0)
          (vncDistanceExtra.getD (vncIndex vncDistanceBase distance 29) 0))
  refine hrest.mono ?_
  rcases Nat.lt_or_ge length 4 with hshort | hlong
  · -- three bytes have a length code without extra bits
    obtain rfl : length = 3 := by omega
    have hzero : vncLengthExtra.getD (vncIndex vncLengthBase 3 28) 0 = 0 := by decide
    omega
  · omega

/-! ## The whole call -/

/-- **The input costs nine bits a byte at most**, by induction on what is left of it. -/
theorem compress_spends (input : Bytes) {head : ℕ → ℕ} {position : ℕ} (sink : VncBits)
    (hhead : ∀ h < vncDeflateHashSize, head h ≤ position) :
    Spends sink (vncCompress input sink head position).1 (9 * (input.length - position)) := by
  induction hn : input.length - position using Nat.strong_induction_on generalizing sink head position with
  | _ n ih =>
    obtain ⟨hhead', hmatch⟩ := vncBest_spec input hhead
    rw [vncCompress]
    split
    · rename_i hmore
      dsimp only
      split
      · rename_i hbest
        have hm := hmatch hbest
        have hmin := hm.min
        have hinside := hm.inside
        have hinsert : ∀ h < vncDeflateHashSize, vncInsert input (vncBest input head position).1 position
            (vncBest input head position).2.1 h ≤ position + (vncBest input head position).2.1 := vncInsert_le hhead' hbest
        have hrest := ih (input.length - (position + (vncBest input head position).2.1)) (by omega)
          (vncMatch sink (vncBest input head position).2.1 (vncBest input head position).2.2) hinsert rfl
        exact ((match_spends sink hmin (vncBest input head position).2.2).trans hrest).mono (by omega)
      · have hrest := ih (input.length - (position + 1)) (by omega) (sink.symbol (input.at' position).toNat) hhead' rfl
        exact ((symbol_spends sink (input.at' position).toNat).trans hrest).mono (by omega)
    · exact (Spends.refl sink).mono (Nat.zero_le _)

theorem header_spends (headerWritten : Bool) (sink : VncBits) : Spends sink (vncHeader headerWritten sink) 16 := by
  cases headerWritten with
  | true => exact (Spends.refl sink).mono (Nat.zero_le _)
  | false => exact (put_spends sink 0x78 8).trans (put_spends _ 0x01 8)

theorem pad_spends (sink : VncBits) : Spends sink (if sink.count > 0 then sink.put 0 (8 - sink.count) else sink) 7 := by
  split
  · exact (put_spends sink 0 _).mono (by omega)
  · exact (Spends.refl sink).mono (Nat.zero_le _)

/-- The sync flush, with the bits that fill its byte up. -/
theorem flush_spends (sink : VncBits) : Spends sink (vncFlush sink) 50 :=
  ((((lengthSymbol_spends sink (le_refl 256)).trans (put_spends _ 0 3)).trans (pad_spends _)).trans (put_spends _ 0 16)).trans
    (put_spends _ 0xffff 16)

/-- **A call with room for the bound succeeds**, and stays in its room. -/
theorem sync_fits (stream : VncDeflate) (input : Bytes) {capacity : ℕ}
    (h : input.length + input.length / 8 + 16 ≤ capacity) :
    ∃ out, (vncDeflateSync stream input capacity).2 = some out ∧ out.length ≤ capacity := by
  have hclear : ∀ index < vncDeflateHashSize, (if index < vncDeflateHashSize then 0 else stream.head index) ≤ 0 :=
    fun index hindex => by rw [if_pos hindex]
  have hstart := ((header_spends stream.headerWritten ⟨[], capacity, 0, 0, false⟩).trans (put_spends _ 0 1)).trans
    (put_spends _ 1 2)
  have hall := (hstart.trans (compress_spends input _ hclear)).trans (flush_spends _)
  obtain ⟨hf, -⟩ := hall.room rfl (by
    unfold VncBits.used
    dsimp only [List.length_nil]
    omega)
  have hinside := hall.inside (Nat.zero_le _)
  refine ⟨_, ?_, hinside⟩
  unfold vncDeflateSync
  dsimp only
  rw [if_neg (by rw [hf]; decide)]

/-! ## The bound -/

/-- The bound as it is computed, where it does not wrap. -/
theorem vncDeflateBound_toNat {length : ℕ} (h : length + length / 8 + 16 < 2 ^ 32) :
    (vncDeflateBound (UInt32.ofNat length)).toNat = length + length / 8 + 16 := by
  have hlength : (UInt32.ofNat length).toNat = length := UInt32.toNat_ofNat_of_lt' (by unfold UInt32.size; omega)
  have height : (8 : UInt32).toNat = 8 := rfl
  have hsixteen : (16 : UInt32).toNat = 16 := rfl
  rw [vncDeflateBound, UInt32.toNat_add, UInt32.toNat_add, UInt32.toNat_div, hlength, height, hsixteen,
    Nat.mod_eq_of_lt (by omega : length + length / 8 < 2 ^ 32), Nat.mod_eq_of_lt h]

/-- The bound wraps for no length that the callers pass. -/
theorem rawCap_bound : ∀ length ≤ vncZrleRawCap, length + length / 8 + 16 < 2 ^ 32 := by
  intro length h
  have hcap : vncZrleRawCap < 2 ^ 24 := by decide
  omega

/-- **`vnc_deflate_bound` is enough**: a call whose capacity is at least the bound of its
length succeeds within that capacity, whatever the input and the stream are; and the bound
does not wrap for the lengths in use. -/
theorem vnc_deflate_bound_enough (stream : VncDeflate) :
    (∀ input capacity, input.length + input.length / 8 + 16 < 2 ^ 32 →
      (vncDeflateBound (UInt32.ofNat input.length)).toNat ≤ capacity →
        ∃ out, (vncDeflateSync stream input capacity).2 = some out ∧ out.length ≤ capacity) ∧
    ∀ length ≤ vncZrleRawCap, length + length / 8 + 16 < 2 ^ 32 ∧
      (vncDeflateBound (UInt32.ofNat length)).toNat = length + length / 8 + 16 := by
  constructor
  · intro input capacity hwrap hcapacity
    rw [vncDeflateBound_toNat hwrap] at hcapacity
    exact sync_fits stream input hcapacity
  · intro length hlength
    have hwrap := rawCap_bound length hlength
    exact ⟨hwrap, vncDeflateBound_toNat hwrap⟩

/-- Three bytes on a new stream, at the bound. -/
theorem vnc_deflate_bound_enough_demo :
    ∃ out, (vncDeflateSync ⟨false, fun _ => 0⟩ [1, 2, 3] 19).2 = some out ∧ out.length ≤ 19 :=
  (vnc_deflate_bound_enough ⟨false, fun _ => 0⟩).1 [1, 2, 3] 19 (by decide) (by decide)

end V9xRemote
