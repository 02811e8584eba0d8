import V9xRemote.Spec.RelayDown
import V9xRemote.Lib.Trace
import Mathlib.Data.List.Infix
import Mathlib.Data.List.Nodup

/-!
# The way down

A flush takes the pending bytes before they are signed and posted, and sets the next
number only behind its last post. One that raises in between leaves its bytes neither
sent nor pending and its numbers to be used again. `DownClear` says that nothing is
flushed behind such a flush, and that the numbers do not run out.
-/

namespace V9xRemote

open Bytes Trace

variable {sign : Sign} {ids : RelayIds}

/-! ## The tool -/

theorem chunks_take (data : Bytes) (m n : ℕ) :
    ((List.range n).map fun i => (data.drop (i * m)).take m).flatten = data.take (n * m) := by
  induction n with
  | zero => simp
  | succ n ih =>
    rw [List.range_succ, List.map_append, List.flatten_append, ih, Nat.succ_mul, List.take_add]
    simp

/-- **The chunks are the data.** -/
theorem signChunks_flatten (data : Bytes) : (signChunks data).flatten = data := by
  rw [signChunks, chunks_take, List.take_of_length_le]
  unfold relayChunkMax
  omega

theorem signChunks_length {data chunk : Bytes} (h : chunk ∈ signChunks data) :
    0 < chunk.length ∧ chunk.length ≤ relayChunkMax := by
  obtain ⟨i, hi, rfl⟩ := List.mem_map.1 h
  rw [List.mem_range] at hi
  rw [List.length_take, List.length_drop]
  unfold relayChunkMax at hi ⊢
  omega

theorem signChunks_ne_nil {data : Bytes} (h : data ≠ []) : signChunks data ≠ [] := by
  intro hnil
  have hflat := signChunks_flatten data
  rw [hnil] at hflat
  exact h hflat.symm

/-- Chunks under consecutive numbers. -/
def numbered : UInt32 → List Bytes → List (UInt32 × Bytes)
  | _, [] => []
  | seq, data :: rest => (seq, data) :: numbered (seq + 1) rest

theorem numbered_data (seq : UInt32) (chunks : List Bytes) : (numbered seq chunks).map (·.2) = chunks := by
  induction chunks generalizing seq with
  | nil => rfl
  | cons data rest ih => rw [numbered, List.map_cons, ih]

/-- The numbers do not come round. -/
theorem numbered_seq (seq : UInt32) (chunks : List Bytes) (h : seq.toNat + chunks.length ≤ 2 ^ 32) :
    (numbered seq chunks).map (·.1.toNat) = List.range' seq.toNat chunks.length := by
  induction chunks generalizing seq with
  | nil => rfl
  | cons data rest ih =>
    rw [List.length_cons] at h
    rw [numbered, List.map_cons, List.length_cons, List.range'_succ]
    congr 1
    cases rest with
    | nil => rfl
    | cons d rest =>
      rw [List.length_cons] at h
      have hnext : (seq + 1).toNat = seq.toNat + 1 := by
        rw [UInt32.toNat_add, UInt32.toNat_one, Nat.mod_eq_of_lt (by omega)]
      have := ih (seq + 1) (by rw [hnext, List.length_cons]; omega)
      rwa [hnext] at this

/-- What the tool signs: the chunks in order, all of them where it gets through. -/
theorem signRecords_spec (sign : Sign) (ids : RelayIds) (seq : UInt32) (chunks : List Bytes) :
    (signRecords sign ids seq chunks).1.map (·.chunk) <+: numbered seq chunks ∧
      ∀ next, (signRecords sign ids seq chunks).2 = some next →
        (signRecords sign ids seq chunks).1.map (·.chunk) = numbered seq chunks ∧
          next = seq + UInt32.ofNat chunks.length := by
  induction chunks generalizing seq with
  | nil =>
    refine ⟨List.prefix_rfl, fun next hnext => ⟨rfl, ?_⟩⟩
    obtain rfl := Option.some.inj hnext
    simp
  | cons data rest ih =>
    rw [signRecords, numbered]
    split
    · exact ⟨List.nil_prefix, fun next hnext => by cases hnext⟩
    · obtain ⟨hpre, hall⟩ := ih (seq + 1)
      refine ⟨List.cons_prefix_cons.2 ⟨rfl, hpre⟩, fun next hnext => ?_⟩
      obtain ⟨hmap, heq⟩ := hall next hnext
      refine ⟨congrArg (_ :: ·) hmap, ?_⟩
      rw [heq, List.length_cons, UInt32.ofNat_add, UInt32.add_assoc, UInt32.add_comm 1]
      rfl

/-- The records carry chunks of the data. -/
theorem signRecords_data {seq : UInt32} {chunks : List Bytes} {r : RelayRecord}
    (hr : r ∈ (signRecords sign ids seq chunks).1) : r.data ∈ chunks ∧ r.signature.length = 64 := by
  induction chunks generalizing seq with
  | nil => cases hr
  | cons data rest ih =>
    rw [signRecords] at hr
    split at hr
    · cases hr
    · rename_i message hmessage
      rcases List.mem_cons.1 hr with rfl | hr
      · exact ⟨List.mem_cons_self, (sign message).2⟩
      · exact ⟨List.mem_cons_of_mem _ (ih hr).1, (ih hr).2⟩

/-! ## Records on the wire -/

/-- A record as the tool writes it. -/
def RelayRecord.Whole (r : RelayRecord) : Prop :=
  0 < r.data.length ∧ r.data.length ≤ relayChunkMax ∧ r.signature.length = 64

theorem downRecord_length {r : RelayRecord} (hr : r.Whole) : (downRecord r).length = relayRecordHeader + r.data.length := by
  have hsig := hr.2.2
  have hmagic : (ascii "V9XD").length = 4 := rfl
  simp only [downRecord, List.length_append, writeU32_length, hsig, hmagic, relayRecordHeader]

/-- The fields of a record at an offset. -/
theorem record_fields {batch rest : Bytes} {offset : ℕ} {r : RelayRecord} (hr : r.Whole)
    (h : batch.drop offset = downRecord r ++ rest) :
    batch.readU32 (offset + 4) = r.seq ∧ (batch.readU32 (offset + 8)).toNat = r.data.length ∧
      (batch.drop (offset + 12)).take 64 = r.signature ∧ batch.drop (offset + relayRecordHeader) = r.data ++ rest := by
  obtain ⟨-, hmax, hsig⟩ := hr
  have hsplit : batch.drop offset = ascii "V9XD" ++ (writeU32 r.seq ++
      (writeU32 (UInt32.ofNat r.data.length) ++ (r.signature ++ (r.data ++ rest)))) := by
    rw [h]
    simp [downRecord]
  refine ⟨?_, ?_, ?_, ?_⟩
  · rw [← readU32_drop, hsplit]
    exact (readU32_append_right (ascii "V9XD") _ 0).trans (readU32_writeU32 _ _)
  · rw [← readU32_drop, hsplit, ← List.append_assoc (ascii "V9XD")]
    have hat := (readU32_append_right (ascii "V9XD" ++ writeU32 r.seq) _ 0).trans
      (readU32_writeU32 (UInt32.ofNat r.data.length) (r.signature ++ (r.data ++ rest)))
    have hlt : r.data.length < 2 ^ 32 := lt_of_le_of_lt hmax (by decide)
    exact (congrArg UInt32.toNat hat).trans (UInt32.toNat_ofNat_of_lt' hlt)
  · rw [← List.drop_drop, hsplit, ← List.append_assoc, ← List.append_assoc]
    have hdrop : List.drop 12 (((ascii "V9XD" ++ writeU32 r.seq) ++ writeU32 (UInt32.ofNat r.data.length)) ++
        (r.signature ++ (r.data ++ rest))) = r.signature ++ (r.data ++ rest) := List.drop_left' rfl
    rw [hdrop, ← hsig, List.take_left]
  · rw [← List.drop_drop, hsplit, ← List.append_assoc, ← List.append_assoc, ← List.append_assoc]
    refine List.drop_left' ?_
    simp only [List.length_append, writeU32_length, hsig, relayRecordHeader]
    rfl

theorem records_length_le (records : List RelayRecord) : records.length ≤ (records.map downRecord).flatten.length := by
  induction records with
  | nil => exact Nat.zero_le _
  | cons r records ih =>
    rw [List.map_cons, List.flatten_cons, List.length_append, List.length_cons, downRecord, writeU32]
    simp only [List.length_append, List.length_cons]
    omega

theorem relayNext_record {batch rest : Bytes} {offset : ℕ} {r : RelayRecord} (hr : r.Whole)
    (h : batch.drop offset = downRecord r ++ rest) :
    relayNext batch offset = .ok r (offset + relayRecordHeader + r.data.length) := by
  obtain ⟨hseq, hlength, hsig, hdata⟩ := record_fields hr h
  have hlen := congrArg List.length h
  rw [List.length_drop, List.length_append, downRecord_length hr] at hlen
  have hmagic : (batch.drop offset).take 4 = ascii "V9XD" := by
    rw [h, downRecord, List.append_assoc, List.append_assoc, List.append_assoc, List.append_assoc]
    exact List.take_left' rfl
  obtain ⟨hpos, hmax, -⟩ := hr
  unfold relayRecordHeader at hlen
  unfold relayNext
  rw [if_neg (by omega), if_neg (by omega), if_neg]
  · dsimp only
    rw [hlength, if_neg, hseq, hsig, hdata, List.take_left]
    simp only [Bool.or_eq_true, decide_eq_true_eq, not_or]
    unfold relayRecordHeader
    omega
  · rw [hmagic]
    simp only [bne_self_eq_false, Bool.or_false, decide_eq_true_eq]
    unfold relayRecordHeader
    omega

/-- **A batch is read as the records it was written from.** -/
theorem postedRecords_eq (records : List RelayRecord) (hwhole : ∀ r ∈ records, r.Whole) :
    ∀ (body : Bytes) (fuel offset : ℕ), body.drop offset = (records.map downRecord).flatten → offset ≤ body.length →
      records.length ≤ fuel → postedRecords body fuel offset = records := by
  induction records with
  | nil =>
    intro body fuel offset h hle _
    cases fuel with
    | zero => rfl
    | succ fuel =>
      have hlen := congrArg List.length h
      rw [List.length_drop, List.map_nil, List.flatten_nil, List.length_nil] at hlen
      have hend : offset = body.length := by omega
      rw [postedRecords, relayNext, if_neg (by omega), if_pos hend]
  | cons r records ih =>
    intro body fuel offset h hle hfuel
    cases fuel with
    | zero => cases hfuel
    | succ fuel =>
      rw [List.map_cons, List.flatten_cons] at h
      have hr := hwhole r List.mem_cons_self
      have hrest := (record_fields hr h).2.2.2
      rw [postedRecords, relayNext_record hr h]
      dsimp only
      congr 1
      refine ih (fun q hq => hwhole q (List.mem_cons_of_mem _ hq)) body fuel _ ?_ ?_ (Nat.le_of_succ_le_succ hfuel)
      · rw [← List.drop_drop, hrest, List.drop_left]
      · have hlen := congrArg List.length h
        rw [List.length_drop, List.length_append, downRecord_length hr] at hlen
        unfold relayRecordHeader at hlen ⊢
        omega

/-- **A group ends with a record.** -/
theorem groupEnd_eq (records : List RelayRecord) (hwhole : ∀ r ∈ records, r.Whole) :
    ∀ (batch : Bytes) (count offset : ℕ), batch.drop offset = (records.map downRecord).flatten → offset ≤ batch.length →
      groupEnd batch count offset = .ok (offset + ((records.take count).map downRecord).flatten.length) := by
  induction records with
  | nil =>
    intro batch count offset h hle
    have hlen := congrArg List.length h
    rw [List.length_drop, List.map_nil, List.flatten_nil, List.length_nil] at hlen
    cases count with
    | zero => rfl
    | succ count =>
      rw [groupEnd, if_neg (by omega)]
      rfl
  | cons r records ih =>
    intro batch count offset h hle
    cases count with
    | zero => rfl
    | succ count =>
      rw [List.map_cons, List.flatten_cons] at h
      have hr := hwhole r List.mem_cons_self
      obtain ⟨-, hlength, -, hrest⟩ := record_fields hr h
      have hlen := congrArg List.length h
      rw [List.length_drop, List.length_append, downRecord_length hr] at hlen
      have hhead : unpackFrom batch (offset + 8) 4 = .ok ((batch.drop (offset + 8)).take 4) := by
        unfold relayRecordHeader at hlen
        rw [unpackFrom, if_pos (by omega)]
      have hread : readU32 ((batch.drop (offset + 8)).take 4) 0 = batch.readU32 (offset + 8) := by
        simp only [readU32, at', List.getD_eq_getElem?_getD, List.getElem?_take, List.getElem?_drop]
        rfl
      have hnext := ih (fun q hq => hwhole q (List.mem_cons_of_mem _ hq)) batch count
        (offset + relayRecordHeader + r.data.length) (by rw [← List.drop_drop, hrest, List.drop_left])
        (by unfold relayRecordHeader at hlen ⊢; omega)
      rw [groupEnd, if_pos (by unfold relayRecordHeader at hlen; omega), hhead]
      show groupEnd batch count (offset + relayRecordHead + _) = _
      rw [hread, hlength]
      refine hnext.trans ?_
      rw [List.take_succ_cons, List.map_cons, List.flatten_cons, List.length_append, downRecord_length hr]
      congr 1
      omega

/-! ## The server -/

/-- Records of what was signed leave the server with a beginning of what was signed. -/
theorem serverTakes_prefix {signed : List (UInt32 × Bytes)}
    (hseq : signed.map (·.1.toNat) = List.range' 1 signed.length) (records accepted : List RelayRecord)
    (hmem : ∀ r ∈ records, r.chunk ∈ signed) (h : accepted.map (·.chunk) <+: signed) :
    (serverTakes accepted records).map (·.chunk) <+: signed := by
  induction records generalizing accepted with
  | nil => exact h
  | cons r rest ih =>
    rw [serverTakes]
    split
    · rename_i hnext
      refine ih _ (fun q hq => hmem q (List.mem_cons_of_mem _ hq)) ?_
      obtain ⟨i, hi, hget⟩ := List.mem_iff_getElem.1 (hmem r List.mem_cons_self)
      have hnumber : signed[i].1.toNat = 1 + i := by
        have := List.getElem_of_eq hseq (i := i) (by simpa using hi)
        simpa using this
      rw [hget] at hnumber
      have hplace : i = accepted.length := by
        have : r.seq.toNat = 1 + i := hnumber
        omega
      have htake : accepted.map (·.chunk) = signed.take i := by
        rw [List.prefix_iff_eq_take.1 h, List.length_map, hplace]
      rw [List.map_append, htake, List.map_singleton, ← hget, List.take_concat_get']
      exact List.take_prefix _ _
    · exact h

/-! ## The invariant -/

/-- Nothing is flushed behind a flush that raised with bytes in hand, nor beyond the last
number. -/
def DownClear (s : DownSystem) : DownAct → Prop
  | .flush => s.operator.pending ≠ [] → s.operator.closed = false →
      s.lost = false ∧ s.operator.downSeq.toNat + (signChunks s.operator.pending).length ≤ 2 ^ 32
  | _ => True

instance (s : DownSystem) (act : DownAct) : Decidable (DownClear s act) := by
  cases act <;> unfold DownClear <;> infer_instance

/-- The bytes the tool has been given. -/
def DownPc.inHand : DownPc → Bytes
  | .signing data => data
  | _ => []

/-- The number behind the last one signed, as the tool prints it. -/
def nextNumber (signed : List (UInt32 × Bytes)) : ℕ := (signed.length + 1) % 2 ^ 32

/-- What holds where the operator is. -/
def DownSystem.Placed (s : DownSystem) : Prop :=
  match s.pc with
  | .idle => s.lost = false → s.operator.downSeq = nextNumber s.signed
  | .signing data => s.lost = false ∧ s.operator.closed = false ∧ s.operator.downSeq = nextNumber s.signed ∧
      s.operator.downSeq.toNat + (signChunks data).length ≤ 2 ^ 32
  | .posting batch offset next => s.lost = false ∧ s.operator.closed = false ∧ next.toNat = nextNumber s.signed ∧
      offset ≤ batch.length ∧ ∃ records : List RelayRecord, batch.drop offset = (records.map downRecord).flatten ∧
        ∀ r ∈ records, r.Whole ∧ r.chunk ∈ s.signed

/-- The invariant: the numbers run on from 1, the server has a beginning of what was signed,
and what was signed begins what was handed over. -/
structure DownInv (s : DownSystem) : Prop where
  numbers : s.signed.map (·.1.toNat) = List.range' 1 s.signed.length
  bound : s.signed.length < 2 ^ 32
  taken : s.accepted.map (·.chunk) <+: s.signed
  signed : (s.signed.map (·.2)).flatten <+: s.handed
  exact : s.lost = false → ∃ refused, (s.operator.closed = false → refused = []) ∧
    s.handed = (s.signed.map (·.2)).flatten ++ s.pc.inHand ++ s.operator.pending ++ refused
  placed : s.Placed

variable {s s' : DownSystem}

theorem downInv_start (session installId nonce : PyVal) (timeout : ℚ) :
    DownInv (.start (.opened session installId nonce timeout)) where
  numbers := rfl
  bound := Nat.two_pow_pos 32
  taken := List.prefix_rfl
  signed := List.prefix_rfl
  exact := fun _ => ⟨[], fun _ => rfl, rfl⟩
  placed := fun _ => rfl

theorem downInv_sendall (hs : DownInv s) (hpc : s.pc = .idle) (data : Bytes) : DownInv (s.sendall data) where
  numbers := hs.numbers
  bound := hs.bound
  taken := hs.taken
  signed := hs.signed.trans (List.prefix_append _ _)
  exact := by
    intro hlost
    obtain ⟨refused, hopen, hhanded⟩ := hs.exact hlost
    unfold DownSystem.sendall
    cases hclosed : s.operator.closed with
    | true =>
      refine ⟨refused ++ data, fun h => ?_, ?_⟩
      · rw [if_pos rfl] at h
        exact absurd (hclosed.symm.trans h) (by decide)
      · rw [if_pos rfl, hhanded, List.append_assoc]
    | false =>
      refine ⟨[], fun _ => rfl, ?_⟩
      rw [if_neg (by decide), hhanded, hopen hclosed]
      simp only [List.append_nil, List.append_assoc]
  placed := by
    have hplaced := hs.placed
    unfold DownSystem.Placed at hplaced ⊢
    unfold DownSystem.sendall
    rw [hpc] at hplaced ⊢
    intro hlost
    dsimp only
    rw [← hplaced hlost]
    split <;> rfl

theorem downInv_flush (hs : DownInv s) (hpc : s.pc = .idle) (hclear : DownClear s .flush) : DownInv s.flush := by
  unfold DownSystem.flush
  split
  · exact hs
  rename_i hgo
  simp only [Bool.or_eq_true, decide_eq_true_eq, not_or, Bool.not_eq_true] at hgo
  obtain ⟨hlost, hroom⟩ := hclear hgo.1 hgo.2
  refine { numbers := hs.numbers, bound := hs.bound, taken := hs.taken, signed := hs.signed, exact := ?_, placed := ?_ }
  · intro _
    obtain ⟨refused, hopen, hhanded⟩ := hs.exact hlost
    refine ⟨refused, hopen, ?_⟩
    rw [hhanded, hpc]
    simp only [DownPc.inHand, List.append_nil]
  · have hplaced := hs.placed
    unfold DownSystem.Placed at hplaced
    rw [hpc] at hplaced
    exact ⟨hlost, hgo.2, hplaced hlost, hroom⟩

/-- What the tool signs goes on where the numbers stopped. -/
theorem numbers_append {signed more : List (UInt32 × Bytes)} {seq : UInt32} {chunks : List Bytes}
    (hseq : signed.map (·.1.toNat) = List.range' 1 signed.length) (hnext : seq.toNat = signed.length + 1)
    (hroom : seq.toNat + chunks.length ≤ 2 ^ 32) (hmore : more <+: numbered seq chunks) :
    (signed ++ more).map (·.1.toNat) = List.range' 1 (signed ++ more).length ∧ (signed ++ more).length < 2 ^ 32 := by
  have hle : more.length ≤ chunks.length := by
    have := hmore.length_le
    rwa [← numbered_data seq chunks, List.length_map]
  have hpre : more.map (·.1.toNat) = List.range' (1 + signed.length) more.length := by
    have h := hmore.map (·.1.toNat)
    rw [numbered_seq seq chunks hroom, List.prefix_iff_eq_take, List.length_map] at h
    rw [h, hnext, Nat.add_comm 1, List.take_range'_of_length_ge hle]
  refine ⟨?_, by rw [List.length_append]; omega⟩
  rw [List.map_append, hseq, hpre, List.length_append, List.range'_append_1]

/-- What a run of the tool signs: chunks of the data in turn, and all of it where a number
is printed. -/
theorem v9xsignRelay_spec (sign : Sign) (ids : RelayIds) (first : UInt32) (data : Bytes) :
    (v9xsignRelay sign ids first data).1.map (·.chunk) <+: numbered first (signChunks data) ∧
      (first = 0 → (v9xsignRelay sign ids first data).1 = []) ∧
      (∀ r ∈ (v9xsignRelay sign ids first data).1, r.Whole) ∧
      ∀ next, (v9xsignRelay sign ids first data).2 = some next →
        (v9xsignRelay sign ids first data).1.map (·.chunk) = numbered first (signChunks data) ∧
          next = first + UInt32.ofNat (signChunks data).length := by
  unfold v9xsignRelay
  split
  · exact ⟨List.nil_prefix, fun _ => rfl, fun r hr => absurd hr List.not_mem_nil, fun next hnext => by cases hnext⟩
  · rename_i hfirst
    simp only [Bool.or_eq_true, decide_eq_true_eq, not_or] at hfirst
    obtain ⟨hpre, hall⟩ := signRecords_spec sign ids first (signChunks data)
    refine ⟨hpre, fun h => absurd h hfirst.1, fun r hr => ?_, hall⟩
    obtain ⟨hdata, hsig⟩ := signRecords_data hr
    obtain ⟨hpos, hmax⟩ := signChunks_length hdata
    exact ⟨hpos, hmax, hsig⟩

/-- The number a session's next run starts from. -/
theorem first_toNat {signed : List (UInt32 × Bytes)} (h : s.operator.downSeq = nextNumber signed) :
    (UInt32.ofNat s.operator.downSeq.toNat).toNat = nextNumber signed := by
  rw [h, Int.toNat_natCast]
  exact UInt32.toNat_ofNat_of_lt' (Nat.mod_lt _ (Nat.two_pow_pos 32))

/-- The numbers and the bytes behind a run of the tool, however it ends. -/
theorem downInv_tool (hs : DownInv s) {data : Bytes} (hpc : s.pc = .signing data) {more : List (UInt32 × Bytes)}
    (hmore : more <+: numbered (UInt32.ofNat s.operator.downSeq.toNat) (signChunks data))
    (hzero : UInt32.ofNat s.operator.downSeq.toNat = 0 → more = []) :
    (s.signed ++ more).map (·.1.toNat) = List.range' 1 (s.signed ++ more).length ∧
      (s.signed ++ more).length < 2 ^ 32 ∧ ((s.signed ++ more).map (·.2)).flatten <+: s.handed := by
  have hplaced := hs.placed
  unfold DownSystem.Placed at hplaced
  rw [hpc] at hplaced
  obtain ⟨hlost, hclosed, hnumber, hroom⟩ := hplaced
  obtain ⟨refused, hopen, hhanded⟩ := hs.exact hlost
  have hfirst := first_toNat hnumber
  by_cases h0 : UInt32.ofNat s.operator.downSeq.toNat = 0
  · rw [hzero h0, List.append_nil]
    exact ⟨hs.numbers, hs.bound, hs.signed⟩
  have hnext : (UInt32.ofNat s.operator.downSeq.toNat).toNat = s.signed.length + 1 := by
    have hne : (UInt32.ofNat s.operator.downSeq.toNat).toNat ≠ 0 := fun h => h0 (UInt32.toNat_inj.1 h)
    have hbound := hs.bound
    unfold nextNumber at hfirst
    omega
  have hchunks : (UInt32.ofNat s.operator.downSeq.toNat).toNat + (signChunks data).length ≤ 2 ^ 32 := by
    rw [hfirst, ← Int.toNat_natCast (nextNumber s.signed), ← hnumber]
    exact hroom
  obtain ⟨hnumbers, hbound⟩ := numbers_append hs.numbers hnext hchunks hmore
  refine ⟨hnumbers, hbound, ?_⟩
  have hdata : (more.map (·.2)).flatten <+: data := by
    have h := (hmore.map (·.2)).flatten
    rwa [numbered_data, signChunks_flatten] at h
  rw [List.map_append, List.flatten_append, hhanded, hpc, DownPc.inHand, List.append_assoc, List.append_assoc]
  exact (List.prefix_append_right_inj _).2 (hdata.trans (List.prefix_append _ _))

theorem downInv_afterSign (hs : DownInv s) {data : Bytes} (hpc : s.pc = .signing data) (run : SignRun) :
    DownInv (s.afterSign sign ids data run) := by
  have hplaced := hs.placed
  unfold DownSystem.Placed at hplaced
  rw [hpc] at hplaced
  obtain ⟨hlost, hclosed, hnumber, hroom⟩ := hplaced
  obtain ⟨refused, hopen, hhanded⟩ := hs.exact hlost
  obtain ⟨hmore, hzero, hwhole, hall⟩ :=
    v9xsignRelay_spec sign ids (UInt32.ofNat s.operator.downSeq.toNat) data
  -- a run that fails leaves some of the signatures, and the bytes are gone
  have hgone : ∀ records : List RelayRecord,
      records <+: (v9xsignRelay sign ids (UInt32.ofNat s.operator.downSeq.toNat) data).1 →
      DownInv { s with pc := .idle, signed := s.signed ++ records.map (·.chunk), lost := true } := by
    intro records hpre
    obtain ⟨hnumbers, hbound, hsigned⟩ := downInv_tool hs hpc ((hpre.map (·.chunk)).trans hmore) (fun h0 => by
      rw [hzero h0, List.prefix_nil] at hpre
      rw [hpre, List.map_nil])
    exact
      { numbers := hnumbers
        bound := hbound
        taken := hs.taken.trans (List.prefix_append _ _)
        signed := hsigned
        exact := fun h => by cases h
        placed := fun h => by cases h }
  unfold DownSystem.afterSign
  split
  · rename_i records next heq
    rw [heq] at hmore hzero hwhole hall
    obtain ⟨hmap, hnext⟩ := hall next rfl
    obtain ⟨hnumbers, hbound, hsigned⟩ := downInv_tool hs hpc hmore (fun h0 => by rw [hzero h0, List.map_nil])
    refine
      { numbers := hnumbers, bound := hbound, taken := hs.taken.trans (List.prefix_append _ _), signed := hsigned,
        exact := fun _ => ⟨refused, hopen, ?_⟩, placed := ?_ }
    · rw [hhanded, hpc, List.map_append, List.flatten_append, hmap, numbered_data, signChunks_flatten]
      simp only [DownPc.inHand, List.append_nil, List.append_assoc]
    · refine ⟨hlost, hclosed, ?_, Nat.zero_le _, records, rfl, fun r hr => ⟨hwhole r hr, ?_⟩⟩
      · have hlen : (records.map (·.chunk)).length = (signChunks data).length := by
          rw [hmap, ← List.length_map (f := (·.2)), numbered_data]
        show next.toNat = nextNumber (s.signed ++ records.map (·.chunk))
        rw [hnext, UInt32.toNat_add, first_toNat hnumber, UInt32.toNat_ofNat', nextNumber, nextNumber,
          List.length_append, hlen]
        omega
      · exact List.mem_append_right _ (List.mem_map_of_mem hr)
  · rename_i records heq
    exact hgone records (by rw [heq])
  · rename_i count records next heq
    exact hgone (records.take count) (by rw [heq]; exact List.take_prefix _ _)

theorem downInv_post (hs : DownInv s) {batch : Bytes} {offset : ℕ} {next : UInt32}
    (hpc : s.pc = .posting batch offset next) (count : ℕ) (answered : Bool) :
    DownInv (s.post batch offset next count answered) := by
  have hplaced := hs.placed
  unfold DownSystem.Placed at hplaced
  rw [hpc] at hplaced
  obtain ⟨hlost, hclosed, hnext, hle, records, hdrop, hrecords⟩ := hplaced
  have hwhole : ∀ r ∈ records, r.Whole := fun r hr => (hrecords r hr).1
  have hsplit : (records.map downRecord).flatten =
      ((records.take relayGroup).map downRecord).flatten ++ ((records.drop relayGroup).map downRecord).flatten := by
    rw [← List.flatten_append, ← List.map_append, List.take_append_drop]
  have hbody : postedRecords ((batch.drop offset).take ((records.take relayGroup).map downRecord).flatten.length)
      ((batch.drop offset).take ((records.take relayGroup).map downRecord).flatten.length).length 0 =
        records.take relayGroup := by
    have htake : (batch.drop offset).take ((records.take relayGroup).map downRecord).flatten.length =
        ((records.take relayGroup).map downRecord).flatten := by
      rw [hdrop, hsplit, List.take_left]
    rw [htake]
    exact postedRecords_eq _ (fun r hr => hwhole r (List.mem_of_mem_take hr)) _ _ 0 rfl (Nat.zero_le _)
      (records_length_le _)
  unfold DownSystem.post
  rw [groupEnd_eq records hwhole batch relayGroup offset hdrop hle]
  dsimp only
  rw [Nat.add_sub_cancel_left, hbody]
  have htaken : (serverTakes s.accepted ((records.take relayGroup).take count)).map (·.chunk) <+: s.signed :=
    serverTakes_prefix hs.numbers _ _
      (fun r hr => (hrecords r (List.mem_of_mem_take (List.mem_of_mem_take hr))).2) hs.taken
  obtain ⟨refused, hopen, hhanded⟩ := hs.exact hlost
  rw [hpc] at hhanded
  split
  · exact
      { numbers := hs.numbers, bound := hs.bound, taken := htaken, signed := hs.signed
        exact := fun h => by cases h
        placed := fun h => by cases h }
  split
  · rename_i hmore
    refine
      { numbers := hs.numbers, bound := hs.bound, taken := htaken, signed := hs.signed
        exact := fun _ => ⟨refused, hopen, hhanded⟩
        placed := ⟨hlost, hclosed, hnext, hmore.le, records.drop relayGroup, ?_, fun r hr =>
          hrecords r (List.mem_of_mem_drop hr)⟩ }
    rw [← List.drop_drop, hdrop, hsplit, List.drop_left]
  · exact
      { numbers := hs.numbers, bound := hs.bound, taken := htaken, signed := hs.signed
        exact := fun _ => ⟨refused, hopen, hhanded⟩
        placed := fun _ => congrArg Nat.cast hnext }

/-- **One step keeps the invariant.** -/
theorem downInv_step (hs : DownInv s) {act : DownAct} (hclear : DownClear s act)
    (h : downStep sign ids s act = some s') : DownInv s' := by
  cases act with
  | sendall data =>
    simp only [downStep] at h
    split at h
    · rename_i hpc
      exact Option.some.inj h ▸ downInv_sendall hs hpc data
    · cases h
  | flush =>
    simp only [downStep] at h
    split at h
    · rename_i hpc
      exact Option.some.inj h ▸ downInv_flush hs hpc hclear
    · cases h
  | signed run =>
    simp only [downStep] at h
    split at h
    · rename_i data hpc
      exact Option.some.inj h ▸ downInv_afterSign hs hpc run
    · cases h
  | posted count answered =>
    simp only [downStep] at h
    split at h
    · rename_i batch offset next hpc
      exact Option.some.inj h ▸ downInv_post hs hpc count answered
    · cases h
  | close =>
    simp only [downStep] at h
    split at h
    · rename_i hpc
      obtain rfl := Option.some.inj h
      refine
        { numbers := hs.numbers, bound := hs.bound, taken := hs.taken, signed := hs.signed, exact := ?_, placed := ?_ }
      · intro hlost
        obtain ⟨refused, -, hhanded⟩ := hs.exact hlost
        exact ⟨refused, (fun hopen => by cases hopen), hhanded⟩
      · have hplaced := hs.placed
        unfold DownSystem.Placed at hplaced ⊢
        rw [hpc] at hplaced
        rwa [hpc]
    · cases h

/-- **The relay's way down.** Where nothing is flushed behind a flush that lost its bytes,
the numbers signed run on from 1, no number is signed twice, and the server has a beginning
of what was handed to `sendall`. -/
theorem relay_down_exact {session installId nonce : PyVal} {timeout : ℚ} {as : List DownAct}
    (hclear : Under (downStep sign ids) DownClear (.start (.opened session installId nonce timeout)) as)
    (h : exec (downStep sign ids) (.start (.opened session installId nonce timeout)) as = some s) :
    s.signed.map (·.1.toNat) = List.range' 1 s.signed.length ∧
      (∀ p ∈ s.signed, ∀ q ∈ s.signed, p.1 = q.1 → p.2 = q.2) ∧
      (s.accepted.map (·.data)).flatten <+: s.handed := by
  have hs : DownInv s := exec_inv_under (fun _ _ _ hs hc h' => downInv_step hs hc h')
    (downInv_start session installId nonce timeout) hclear h
  refine ⟨hs.numbers, fun p hp q hq heq => ?_, ?_⟩
  · have hnodup : (s.signed.map (·.1.toNat)).Nodup := by
      rw [hs.numbers]
      exact List.nodup_range'
    exact congrArg Prod.snd (List.inj_on_of_nodup_map hnodup hp hq (congrArg UInt32.toNat heq))
  · have htaken := (hs.taken.map (·.2)).flatten
    rw [List.map_map] at htaken
    exact htaken.trans hs.signed

/-- A signature for the runs below. -/
def blankSign : Sign := fun _ => ⟨List.replicate 64 0, List.length_replicate⟩

def downIds : RelayIds where
  machine := ascii "M-4F7K2Q"
  install := ascii "01234567-89ab-cdef-0123-456789abcdef"
  nonce := ascii "0123456789abcdef0123456789abcdef"
  session := ascii "0123456789abcdef0123456789abcdef"

def downDemoStart : DownSystem := .start (.opened .none .none .none 30)

/-- Two flushes, both answered, and a close. -/
def downRun : List DownAct :=
  [.sendall (ascii "A"), .flush, .signed .ended, .posted 1 true, .sendall (ascii "BC"), .flush, .signed .ended,
    .posted 1 true, .close]

theorem relay_down_exact_demo : ∃ s, exec (downStep blankSign downIds) downDemoStart downRun = some s ∧
    (s.accepted.map (·.data)).flatten = ascii "ABC" ∧
    s.signed.map (·.1.toNat) = List.range' 1 s.signed.length ∧
    (∀ p ∈ s.signed, ∀ q ∈ s.signed, p.1 = q.1 → p.2 = q.2) ∧
    (s.accepted.map (·.data)).flatten <+: s.handed := by
  have hrun : (exec (downStep blankSign downIds) downDemoStart downRun).map
      (fun s => (s.accepted.map (·.data)).flatten) = some (ascii "ABC") := by
    decide +kernel
  obtain ⟨s, hs, haccepted⟩ := Option.map_eq_some_iff.1 hrun
  have hclear : Under (downStep blankSign downIds) DownClear downDemoStart downRun := by decide +kernel
  exact ⟨s, hs, haccepted, relay_down_exact hclear hs⟩

/-- The first post is not answered; what is sent next is signed under its number. -/
def downRetry : List DownAct :=
  [.sendall (ascii "A"), .flush, .signed .ended, .posted 0 false, .sendall (ascii "B"), .flush, .signed .ended,
    .posted 1 true]

/-- **A number signed twice**, and a server that has what was sent second only. -/
theorem number_signed_twice : (exec (downStep blankSign downIds) downDemoStart downRetry).map
    (fun s => (s.signed, s.accepted.map (·.data), s.handed)) =
      some ([(1, ascii "A"), (1, ascii "B")], [ascii "B"], ascii "AB") := by
  decide +kernel

end V9xRemote
