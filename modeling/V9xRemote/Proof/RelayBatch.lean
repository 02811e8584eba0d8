import V9xRemote.Spec.RelayDown
import V9xRemote.Proof.RelayDown
import V9xRemote.Proof.RelayText
import V9xRemote.Lib.Cursor

/-!
# The tool, the posts and the agent agree on a batch

A batch is split exactly when it is a row of whole records, and then into these. So what the
signing tool writes is split into what it signed, and the operator's posts end where records
end.
-/

namespace V9xRemote

open Bytes Cursor

variable {batch : Bytes} {records : List RelayRecord}

/-! ## Checked accesses -/

theorem loadBytes_inside {offset : UInt32} {n : ℕ} (h : offset.toNat + n ≤ batch.length) :
    loadBytes batch offset n = some ((batch.drop offset.toNat).take n) := if_pos h

theorem relayRead32_inside {offset : UInt32} (h : offset.toNat + 4 ≤ batch.length) :
    relayRead32 batch offset = some (batch.readU32 offset.toNat) := by
  have hread : readU32 ((batch.drop offset.toNat).take 4) 0 = batch.readU32 offset.toNat := by
    simp only [readU32, at', List.getD_eq_getElem?_getD, List.getElem?_take, List.getElem?_drop]
    rfl
  rw [relayRead32, loadBytes_inside h, Option.map_some, hread]

/-- **The agent's reader stays in the batch** and no sum of it wraps. -/
theorem relayNextChecked_eq (hbatch : batch.length < 2 ^ 32) (offset : UInt32) :
    relayNextChecked batch offset = some (relayNext batch offset.toNat) := by
  have hlength : (UInt32.ofNat batch.length).toNat = batch.length := UInt32.toNat_ofNat_of_lt' hbatch
  have hheader : (UInt32.ofNat relayRecordHeader).toNat = 76 := rfl
  have hchunk : (UInt32.ofNat relayChunkMax).toNat = relayChunkMax := rfl
  unfold relayNextChecked relayNext
  dsimp only
  by_cases hpast : offset > UInt32.ofNat batch.length
  · have hlt := UInt32.lt_iff_toNat_lt.1 hpast
    have hpast' : offset.toNat > batch.length := by omega
    rw [if_pos hpast, if_pos hpast']
  have hle := UInt32.le_iff_toNat_le.1 (UInt32.not_lt.1 hpast)
  have hpast' : ¬offset.toNat > batch.length := by omega
  rw [if_neg hpast, if_neg hpast']
  by_cases hend : offset = UInt32.ofNat batch.length
  · have hend' : offset.toNat = batch.length := (congrArg UInt32.toNat hend).trans hlength
    rw [if_pos hend, if_pos hend']
  have hend' : ¬offset.toNat = batch.length := fun h => hend (UInt32.toNat_inj.1 (by omega))
  rw [if_neg hend, if_neg hend']
  have hleft : (UInt32.ofNat batch.length - offset).toNat = batch.length - offset.toNat := by
    rw [UInt32.toNat_sub_of_le _ _ (UInt32.not_lt.1 hpast), hlength]
  by_cases hshort : UInt32.ofNat batch.length - offset < UInt32.ofNat relayRecordHeader
  · have hlt := UInt32.lt_iff_toNat_lt.1 hshort
    have hshort' : batch.length - offset.toNat < relayRecordHeader := by
      unfold relayRecordHeader
      omega
    rw [if_pos hshort, decide_eq_true hshort', Bool.true_or, if_pos rfl]
  have hroom := UInt32.le_iff_toNat_le.1 (UInt32.not_lt.1 hshort)
  have hshort' : ¬batch.length - offset.toNat < relayRecordHeader := by
    unfold relayRecordHeader
    omega
  rw [if_neg hshort, decide_eq_false hshort', Bool.false_or, loadBytes_inside (by omega)]
  -- the header is there, so the offsets of its fields do not wrap
  have hoffset : ∀ k : UInt32, k.toNat ≤ 76 → (offset + k).toNat = offset.toNat + k.toNat := fun k hk => by
    rw [UInt32.toNat_add, Nat.mod_eq_of_lt (by omega)]
  have h4 : (offset + 4).toNat = offset.toNat + 4 := hoffset 4 (by decide)
  have h8 : (offset + 8).toNat = offset.toNat + 8 := hoffset 8 (by decide)
  have h12 : (offset + 12).toNat = offset.toNat + 12 := hoffset 12 (by decide)
  have h76 : (offset + UInt32.ofNat relayRecordHeader).toNat = offset.toNat + relayRecordHeader := hoffset _ (by decide)
  rw [relayRead32_inside (by omega), relayRead32_inside (by omega), h4, h8]
  simp only [Option.bind_eq_bind, Option.bind_some, ne_eq, pure, bne_iff_ne]
  by_cases hmagic : (batch.drop offset.toNat).take 4 = ascii "V9XD"
  swap
  · rw [if_pos hmagic, if_pos hmagic]
  rw [if_neg (not_not.2 hmagic), if_neg (not_not.2 hmagic)]
  have hroomleft : (UInt32.ofNat batch.length - offset - UInt32.ofNat relayRecordHeader).toNat =
      batch.length - offset.toNat - relayRecordHeader := by
    rw [UInt32.toNat_sub_of_le _ _ (UInt32.not_lt.1 hshort), hleft]
    rfl
  generalize batch.readU32 (offset.toNat + 8) = length
  have hsame : (length = 0 ∨ length > UInt32.ofNat relayChunkMax ∨
      length > UInt32.ofNat batch.length - offset - UInt32.ofNat relayRecordHeader) ↔
        (decide (length.toNat = 0) || decide (length.toNat > relayChunkMax) ||
          decide (length.toNat > batch.length - offset.toNat - relayRecordHeader)) = true := by
    rw [gt_iff_lt, gt_iff_lt, UInt32.lt_iff_toNat_lt, UInt32.lt_iff_toNat_lt, hroomleft, hchunk, ← UInt32.toNat_inj]
    simp only [Bool.or_eq_true, decide_eq_true_eq, or_assoc]
    rfl
  by_cases hbad : (decide (length.toNat = 0) || decide (length.toNat > relayChunkMax) ||
      decide (length.toNat > batch.length - offset.toNat - relayRecordHeader)) = true
  · rw [if_pos hbad, if_pos (hsame.2 hbad)]
  rw [if_neg hbad, if_neg fun h => hbad (hsame.1 h)]
  simp only [Bool.or_eq_true, decide_eq_true_eq, not_or] at hbad
  unfold relayRecordHeader at h76 hbad ⊢
  have hend76 : (offset + UInt32.ofNat 76 + length).toNat = offset.toNat + 76 + length.toNat := by
    rw [UInt32.toNat_add, h76, Nat.mod_eq_of_lt (by omega)]
  rw [loadBytes_inside (by omega), loadBytes_inside (by omega), h12, h76, hend76]
  rfl

/-! ## Splitting -/

/-- Records as the tool writes them, one after the other. -/
def relayBatch (records : List RelayRecord) : Bytes := (records.map downRecord).flatten

theorem relayBatch_cons (r : RelayRecord) (records : List RelayRecord) :
    relayBatch (r :: records) = downRecord r ++ relayBatch records := rfl

theorem relayBatch_append (a b : List RelayRecord) : relayBatch (a ++ b) = relayBatch a ++ relayBatch b := by
  rw [relayBatch, List.map_append, List.flatten_append]
  rfl

/-- **A record that is taken** is whole, and what stands there is what it is written as. -/
theorem relayNext_whole {offset next : ℕ} {r : RelayRecord} (h : relayNext batch offset = .ok r next) :
    r.Whole ∧ batch.drop offset = downRecord r ++ batch.drop next := by
  obtain ⟨hroom, hmagic, hpos, hmax, rfl, hnext, rfl⟩ := relayNext_ok h
  unfold relayRecordHeader at *
  have hlength : ((batch.drop (offset + 76)).take (batch.readU32 (offset + 8)).toNat).length =
      (batch.readU32 (offset + 8)).toNat := by
    rw [List.length_take, List.length_drop]
    omega
  refine ⟨⟨?_, ?_, ?_⟩, ?_⟩
  · dsimp only
    omega
  · dsimp only
    omega
  · dsimp only
    rw [List.length_take, List.length_drop]
    omega
  have hpiece : ∀ i n, (batch.drop i).take n ++ batch.drop (i + n) = batch.drop i := fun i n => by
    rw [← List.drop_drop, List.take_append_drop]
  rw [downRecord, hlength, UInt32.ofNat_toNat, ← hmagic, writeU32_readU32 (by omega), writeU32_readU32 (by omega)]
  simp only [List.append_assoc]
  rw [hpiece (offset + 76), hpiece (offset + 12) 64, hpiece (offset + 8) 4, hpiece (offset + 4) 4, hpiece offset 4]

theorem relayNext_fin {offset : ℕ} (h : relayNext batch offset = .fin) : offset = batch.length := by
  unfold relayNext at h
  split at h
  · cases h
  split at h
  · assumption
  split at h
  · cases h
  dsimp only at h
  split at h <;> cases h

/-- **What is split** is a row of whole records, read in turn. -/
theorem relaySplit_iff (batch : Bytes) (offset : ℕ) (records : List RelayRecord) :
    relaySplit batch offset = some records ↔
      offset ≤ batch.length ∧ (∀ r ∈ records, r.Whole) ∧ batch.drop offset = relayBatch records := by
  constructor
  · intro h
    induction records generalizing offset with
    | nil =>
      rw [relaySplit] at h
      split at h
      · cases h
      · rename_i hfin
        rw [relayNext_fin hfin]
        exact ⟨le_rfl, List.forall_mem_nil _, List.drop_length⟩
      · obtain ⟨rest, -, heq⟩ := Option.map_eq_some_iff.1 h
        cases heq
    | cons r records ih =>
      rw [relaySplit] at h
      split at h
      · cases h
      · cases h
      · rename_i record next hnext
        obtain ⟨rest, hrest, heq⟩ := Option.map_eq_some_iff.1 h
        obtain ⟨rfl, rfl⟩ := List.cons.inj heq
        obtain ⟨hwhole, hdrop⟩ := relayNext_whole hnext
        obtain ⟨hroom, -⟩ := relayNext_ok hnext
        obtain ⟨-, hall, hrecords⟩ := ih next hrest
        exact ⟨by omega, List.forall_mem_cons.2 ⟨hwhole, hall⟩, by rw [hdrop, hrecords, relayBatch_cons]⟩
  · rintro ⟨hle, hwhole, h⟩
    induction records generalizing offset with
    | nil =>
      have hlength := congrArg List.length h
      rw [List.length_drop, relayBatch, List.map_nil, List.flatten_nil, List.length_nil] at hlength
      have hend : offset = batch.length := by omega
      have hfin : relayNext batch offset = .fin := by
        rw [relayNext, if_neg (by omega), if_pos hend]
      rw [relaySplit]
      split
      · rename_i hbad
        rw [hfin] at hbad
        cases hbad
      · rfl
      · rename_i hok
        rw [hfin] at hok
        cases hok
    | cons r records ih =>
      have hr := hwhole r List.mem_cons_self
      have hnext := relayNext_record hr h
      have hlength := congrArg List.length h
      rw [List.length_drop, relayBatch_cons, List.length_append, downRecord_length hr] at hlength
      have hrest := ih (offset + relayRecordHeader + r.data.length) (by omega)
        (fun q hq => hwhole q (List.mem_cons_of_mem _ hq)) (by
          rw [Nat.add_assoc, ← List.drop_drop, h, relayBatch_cons, ← downRecord_length hr, List.drop_left])
      rw [relaySplit]
      split
      · rename_i hbad
        rw [hnext] at hbad
        cases hbad
      · rename_i hfin
        rw [hnext] at hfin
        cases hfin
      · rename_i record next hok
        rw [hnext] at hok
        obtain ⟨rfl, rfl⟩ := RelayNext.ok.inj hok
        rw [hrest]
        rfl

/-! ## The posts -/

/-- **The posts end where records end**: no more than a group of records in each. -/
theorem flushPosts_eq (batch : Bytes) (offset : ℕ) (records : List RelayRecord) (hle : offset ≤ batch.length)
    (hwhole : ∀ r ∈ records, r.Whole) (h : batch.drop offset = relayBatch records) :
    ∃ groups : List (List RelayRecord), groups.flatten = records ∧ (∀ g ∈ groups, g ≠ [] ∧ g.length ≤ relayGroup) ∧
      flushPosts batch offset = .ok (groups.map relayBatch) := by
  induction hn : records.length using Nat.strong_induction_on generalizing offset records with
  | h n ih =>
    have hlength := congrArg List.length h
    rw [List.length_drop] at hlength
    by_cases hend : offset < batch.length
    swap
    · have hnone : records = [] := by
        have hcount := records_length_le records
        rw [relayBatch] at hlength
        exact List.length_eq_zero_iff.1 (by omega)
      refine ⟨[], hnone.symm, List.forall_mem_nil _, ?_⟩
      rw [flushPosts, dif_neg hend]
      rfl
    have hsome : records ≠ [] := by
      rintro rfl
      change batch.length - offset = 0 at hlength
      omega
    have hpos : 0 < records.length := List.length_pos_iff.2 hsome
    have hgroup : relayGroup = 4 := rfl
    have hstop := groupEnd_eq records hwhole batch relayGroup offset h hle
    change groupEnd batch relayGroup offset = .ok (offset + (relayBatch (records.take relayGroup)).length) at hstop
    have hsplit : relayBatch records = relayBatch (records.take relayGroup) ++ relayBatch (records.drop relayGroup) := by
      rw [← relayBatch_append, List.take_append_drop]
    have hroom := congrArg List.length hsplit
    rw [List.length_append] at hroom
    obtain ⟨groups, hflat, hsmall, hposts⟩ := ih (records.drop relayGroup).length
      (by rw [List.length_drop]; omega) (offset + (relayBatch (records.take relayGroup)).length) (records.drop relayGroup)
      (by omega) (fun r hr => hwhole r (List.mem_of_mem_drop hr))
      (by rw [← List.drop_drop, h, hsplit, List.drop_left]) rfl
    refine ⟨records.take relayGroup :: groups, ?_, List.forall_mem_cons.2 ⟨⟨?_, ?_⟩, hsmall⟩, ?_⟩
    · rw [List.flatten_cons, hflat, List.take_append_drop]
    · rw [ne_eq, List.take_eq_nil_iff]
      exact not_or.2 ⟨by decide, hsome⟩
    · rw [List.length_take]
      omega
    rw [flushPosts, dif_pos hend]
    split
    · rename_i e herror
      rw [hstop] at herror
      cases herror
    · rename_i stop hok
      rw [hstop] at hok
      obtain rfl := Except.ok.inj hok
      rw [hposts, Nat.add_sub_cancel_left, h, hsplit, List.take_left]
      rfl

/-! ## The tool -/

section

variable {sign : Sign} {ids : RelayIds} {seq : UInt32} {data : Bytes}

/-- The session's names are what the protocol says they are. -/
def RelayIds.Valid (ids : RelayIds) : Prop :=
  relayMachineValid ids.machine = true ∧ relayInstallValid ids.install = true ∧ relayHexIdValid ids.nonce = true ∧
    relayHexIdValid ids.session = true

instance (ids : RelayIds) : Decidable ids.Valid := inferInstanceAs (Decidable (_ ∧ _ ∧ _ ∧ _))

/-- **The signed text** is there for every number and all data, and has room. -/
theorem relayMessage_valid (hids : ids.Valid) :
    relayMessage ids.machine ids.install ids.nonce ids.session seq data =
      some (relayText ids.machine ids.install ids.nonce ids.session seq data) := by
  obtain ⟨hmachine, hinstall, hnonce, hsession⟩ := hids
  rw [relayMachineValid_iff] at hmachine
  rw [relayInstallValid_iff] at hinstall
  rw [relayHexIdValid_iff] at hnonce hsession
  exact relayMessage_eq_some_iff.2 ⟨⟨hmachine, hinstall, hnonce, hsession⟩, rfl⟩

theorem relayMessage_invalid (hids : ¬ids.Valid) :
    relayMessage ids.machine ids.install ids.nonce ids.session seq data = none := by
  rw [relayMessage, if_pos]
  simp only [Bool.or_eq_true, Bool.not_eq_true']
  unfold RelayIds.Valid at hids
  simp only [not_and_or, Bool.not_eq_true] at hids
  rcases hids with h | h | h | h <;> simp [h]

/-- The tool gets through a row of chunks where the names are valid. -/
theorem signRecords_isSome (seq : UInt32) (chunks : List Bytes) :
    (signRecords sign ids seq chunks).2.isSome ↔ chunks = [] ∨ ids.Valid := by
  induction chunks generalizing seq with
  | nil => exact iff_of_true rfl (Or.inl rfl)
  | cons data rest ih =>
    by_cases hids : ids.Valid
    · rw [signRecords, relayMessage_valid hids]
      exact iff_of_true ((ih (seq + 1)).2 (Or.inr hids)) (Or.inr hids)
    · rw [signRecords, relayMessage_invalid hids]
      simp [hids]

/-- **When the tool gets through.** -/
theorem v9xsignRelay_isSome (first : UInt32) : (v9xsignRelay sign ids first data).2.isSome ↔
    first ≠ 0 ∧ data.length ≤ signMaxFile ∧ (data = [] ∨ ids.Valid) := by
  have hchunks : signChunks data = [] ↔ data = [] := by
    refine ⟨fun h => by_contra fun hne => signChunks_ne_nil hne h, ?_⟩
    rintro rfl
    decide
  unfold v9xsignRelay
  split
  · rename_i hbad
    simp only [Bool.or_eq_true, decide_eq_true_eq] at hbad
    refine iff_of_false nofun fun h => ?_
    rcases hbad with hzero | hlong
    · exact h.1 hzero
    · omega
  · rename_i hgood
    simp only [Bool.or_eq_true, decide_eq_true_eq, not_or, not_lt] at hgood
    rw [signRecords_isSome, hchunks]
    exact ⟨fun h => ⟨hgood.1, hgood.2, h⟩, fun h => h.2.2⟩

/-- Each record carries the signature of its own text. -/
theorem signRecords_signed {chunks : List Bytes} {r : RelayRecord} (hr : r ∈ (signRecords sign ids seq chunks).1) :
    ∃ message, relayMessage ids.machine ids.install ids.nonce ids.session r.seq r.data = some message ∧
      r.signature = (sign message).1 := by
  induction chunks generalizing seq with
  | nil => cases hr
  | cons data rest ih =>
    rw [signRecords] at hr
    split at hr
    · cases hr
    · rename_i message hmessage
      rcases List.mem_cons.1 hr with rfl | hr
      · exact ⟨message, hmessage, rfl⟩
      · exact ih hr

theorem numbered_get (first : UInt32) (chunks : List Bytes) (i : ℕ) (h : i < (numbered first chunks).length) :
    (numbered first chunks)[i].1 = first + UInt32.ofNat i := by
  induction chunks generalizing first i with
  | nil => cases h
  | cons data rest ih =>
    cases i with
    | zero => exact (UInt32.add_zero first).symm
    | succ i =>
      have hi : i < (numbered (first + 1) rest).length := Nat.lt_of_succ_lt_succ h
      change (numbered (first + 1) rest)[i].1 = _
      rw [ih _ _ hi, UInt32.ofNat_add, UInt32.add_assoc, UInt32.add_comm 1]
      rfl

theorem relayBatch_length (records : List RelayRecord) (hwhole : ∀ r ∈ records, r.Whole) :
    (relayBatch records).length = relayRecordHeader * records.length + ((records.map (·.data)).flatten).length := by
  induction records with
  | nil => rfl
  | cons r records ih =>
    have hr := downRecord_length (hwhole r List.mem_cons_self)
    have hrest := ih fun q hq => hwhole q (List.mem_cons_of_mem _ hq)
    rw [relayBatch_cons, List.length_append, hr, hrest, List.map_cons, List.flatten_cons, List.length_append,
      List.length_cons, Nat.mul_succ]
    omega

end

/-! ## The whole way -/

/-- What the agent and the operator make of what the tool wrote for a file. -/
structure BatchAgrees (verify : Verify) (publicKey : Bytes) (ids : RelayIds) (first : UInt32) (data : Bytes)
    (records : List RelayRecord) (next : UInt32) : Prop where
  small : (relayBatch records).length < 2 ^ 32
  split : relaySplit (relayBatch records) 0 = some records
  numbers : ∀ (i : ℕ) (h : i < records.length), records[i].seq = first + UInt32.ofNat i
  data : (records.map (·.data)).flatten = data
  accepted : ∀ r ∈ records, relayVerify verify r publicKey ids.machine ids.install ids.nonce ids.session = true
  next : next = first + UInt32.ofNat records.length
  posts : ∃ groups : List (List RelayRecord), groups.flatten = records ∧
    (∀ g ∈ groups, g ≠ [] ∧ g.length ≤ relayGroup) ∧ flushPosts (relayBatch records) 0 = .ok (groups.map relayBatch)

theorem v9xsignRelay_agrees {sign : Sign} {verify : Verify} {publicKey : Bytes}
    (hcomplete : ∀ message, verify (sign message).1 publicKey message = true) {ids : RelayIds} {first : UInt32}
    {data : Bytes} {next : UInt32} (h : (v9xsignRelay sign ids first data).2 = some next) :
    BatchAgrees verify publicKey ids first data (v9xsignRelay sign ids first data).1 next := by
  obtain ⟨-, -, hwhole, hall⟩ := v9xsignRelay_spec sign ids first data
  obtain ⟨hchunks, hnext⟩ := hall next h
  obtain ⟨hfirst, hsize, -⟩ := v9xsignRelay_isSome first |>.1 (Option.isSome_of_eq_some h)
  have hsigned : ∀ r ∈ (v9xsignRelay sign ids first data).1, ∃ message,
      relayMessage ids.machine ids.install ids.nonce ids.session r.seq r.data = some message ∧
        r.signature = (sign message).1 := by
    unfold v9xsignRelay
    split
    · exact fun r hr => absurd hr List.not_mem_nil
    · exact fun r hr => signRecords_signed hr
  generalize (v9xsignRelay sign ids first data).1 = records at hwhole hchunks hsigned ⊢
  have hdata : records.map (·.data) = signChunks data := by
    have hmap := congrArg (List.map (·.2)) hchunks
    rwa [numbered_data, List.map_map] at hmap
  have hcount : records.length = (signChunks data).length := by rw [← hdata, List.length_map]
  have hflat : (records.map (·.data)).flatten = data := by rw [hdata, signChunks_flatten]
  exact
    { small := by
        rw [relayBatch_length records hwhole, hflat, hcount, signChunks, List.length_map, List.length_range]
        unfold relayRecordHeader relayChunkMax
        unfold signMaxFile at hsize
        omega
      split := (relaySplit_iff _ 0 records).2 ⟨Nat.zero_le _, hwhole, rfl⟩
      numbers := fun i hi => by
        have hget : (records.map (·.chunk))[i]? = (numbered first (signChunks data))[i]? := by rw [hchunks]
        have hlen : i < (numbered first (signChunks data)).length := by
          rw [← hchunks, List.length_map]
          exact hi
        rw [List.getElem?_map, List.getElem?_eq_getElem hi, List.getElem?_eq_getElem hlen] at hget
        rw [← numbered_get first _ i hlen, ← Option.some.inj hget]
        rfl
      data := hflat
      accepted := fun r hr => by
        obtain ⟨message, hmessage, hsignature⟩ := hsigned r hr
        rw [relayVerify, hmessage, hsignature]
        exact hcomplete message
      next := by rw [hnext, hcount]
      posts := flushPosts_eq _ 0 records (Nat.zero_le _) hwhole rfl }

/-- **A relay batch is the same to the tool, the operator and the agent**: the tool gets through
on every file it reads; what it writes is split into the records it signed, numbered from the
first on, carrying the file and accepted by the agent, and posted record by record. A batch is
read to its end exactly when it is a row of whole records, and never outside of it. -/
theorem relay_batch_agrees (sign : Sign) (verify : Verify) (publicKey : Bytes)
    (hcomplete : ∀ message, verify (sign message).1 publicKey message = true) :
    (∀ (ids : RelayIds) (first : UInt32) (data : Bytes),
      ((v9xsignRelay sign ids first data).2.isSome ↔ first ≠ 0 ∧ data.length ≤ signMaxFile ∧ (data = [] ∨ ids.Valid)) ∧
        ∀ next, (v9xsignRelay sign ids first data).2 = some next →
          BatchAgrees verify publicKey ids first data (v9xsignRelay sign ids first data).1 next) ∧
      (∀ (batch : Bytes) (records : List RelayRecord),
        relaySplit batch 0 = some records ↔ (∀ r ∈ records, r.Whole) ∧ batch = relayBatch records) ∧
        ∀ batch : Bytes, batch.length < 2 ^ 32 → ∀ offset : UInt32,
          relayNextChecked batch offset = some (relayNext batch offset.toNat) ∧
            ∀ record next, relayNext batch offset.toNat = .ok record next → offset.toNat < next ∧ next ≤ batch.length := by
  refine ⟨fun ids first data => ⟨v9xsignRelay_isSome first, fun next h => v9xsignRelay_agrees hcomplete h⟩,
    fun batch records => ?_, fun batch hbatch offset => ⟨relayNextChecked_eq hbatch offset, fun record next h => ?_⟩⟩
  · rw [relaySplit_iff, List.drop_zero]
    exact and_iff_right (Nat.zero_le _)
  · obtain ⟨-, -, hpos, -, hnext, hle, -⟩ := relayNext_ok h
    unfold relayRecordHeader at hnext
    exact ⟨by omega, hle⟩

/-- A signature to try the theorem on: the digest of the message, twice. -/
def digestSign : Sign := fun message => ⟨sha256 message ++ sha256 message, by
  rw [List.length_append, sha256_length]⟩

def digestVerify : Verify := fun signature _ message => signature == sha256 message ++ sha256 message

def digestIds : RelayIds where
  machine := ascii "M-4F7K2Q"
  install := ascii "0a1b2c3d-4e5f-6071-8293-a4b5c6d7e8f9"
  nonce := ascii "00112233445566778899aabbccddeeff"
  session := ascii "ffeeddccbbaa99887766554433221100"

theorem relay_batch_agrees_demo : BatchAgrees digestVerify [] digestIds 7 [104, 105]
    (v9xsignRelay digestSign digestIds 7 [104, 105]).1 8 := by
  have hrun : (v9xsignRelay digestSign digestIds 7 [104, 105]).2 = some 8 := by
    have hchunks : signChunks [104, 105] = [[104, 105]] := by decide
    have hvalid : digestIds.Valid := by decide
    rw [v9xsignRelay, if_neg (by decide), hchunks, signRecords, relayMessage_valid hvalid]
    rfl
  exact ((relay_batch_agrees digestSign digestVerify [] fun message => beq_self_eq_true _).1 digestIds 7 [104, 105]).2 8 hrun

end V9xRemote
