import V9xRemote.Proof.InflateCodes

/-!
# The Deflate decoder against the format

Each part of `v9x_inflate_with_state` ends as its part of the format does, on the bits that
are left and the output so far. Where the format's output does not fit the capacity, and
where there is none, the decoder ends with a status that is not success.

The caller's scratch state is written before it is read: two runs that differ in it alone
end alike.
-/

namespace V9xRemote

open Bytes Checked Deflate Canonical

variable {s s' s'' : InflateStream} {lengths litlenLengths distanceLengths : List ℕ} {code litlen distance : InflateCode}

/-! ## Output -/

/-- The input is the same, and the output has its capacity. -/
structure Keeps (s s' : InflateStream) : Prop where
  ready : s'.Ready
  input : s'.input = s.input
  capacity : s'.output.length = s.output.length

/-- There is no output, or more than fits. -/
def Exceeds {α : Type} (s : InflateStream) (r : Option (Bytes × α)) : Prop :=
  ∀ out rest, r = some (out, rest) → s.output.length < out.length

theorem Reads.kept (h : Reads s s') : Keeps s s' := ⟨h.ready, h.input, by rw [h.output]⟩

theorem Keeps.refl (h : s.Ready) : Keeps s s := ⟨h, rfl, rfl⟩

theorem Keeps.trans (h : Keeps s s') (h' : Keeps s' s'') : Keeps s s'' :=
  ⟨h'.ready, h'.input.trans h.input, h'.capacity.trans h.capacity⟩

theorem Keeps.failed (h : Keeps s s') {e : InflateStatus} (h' : Failed s' e s'') : Failed s e s'' :=
  ⟨h'.status, h'.output.trans h.capacity, h'.position⟩

theorem Keeps.exceeds {α : Type} {r : Option (Bytes × α)} (h : Keeps s s') (h' : Exceeds s' r) : Exceeds s r :=
  fun out rest hr => h.capacity ▸ h' out rest hr

theorem exceeds_none {α : Type} : Exceeds s (none : Option (Bytes × α)) := fun _ _ h => by cases h

theorem done_length (hs : s.Ready) : s.done.length = s.outputPosition := List.length_take_of_le hs.output

/-- A byte written behind some others. -/
theorem take_set (out : Bytes) {i : ℕ} (b : UInt8) (h : i < out.length) :
    (out.set i b).take (i + 1) = out.take i ++ [b] := by
  have hi : i < (out.set i b).length := by rwa [List.length_set]
  rw [List.take_succ_eq_append_getElem hi, List.getElem_set_self, List.take_set_of_le le_rfl]

/-- The stream while `t` is written behind the output of `s`. -/
structure Writing (s : InflateStream) (t : Bytes) (s' : InflateStream) : Prop where
  eq : s' = { s with output := s'.output }
  capacity : s'.output.length = s.output.length
  written : s'.output.take (s.outputPosition + t.length) = s.done ++ t

theorem Writing.start : Writing s [] s where
  eq := rfl
  capacity := rfl
  written := by rw [List.append_nil]; rfl

/-- One byte more. -/
theorem Writing.next {t : Bytes} (h : Writing s t s') (b : UInt8) (hroom : s.outputPosition + t.length < s.output.length) :
    Writing s (t ++ [b]) { s' with output := s'.output.set (s.outputPosition + t.length) b } where
  eq := by rw [h.eq]
  capacity := by rw [← h.capacity]; exact List.length_set
  written := by
    have hroom' : s.outputPosition + t.length < s'.output.length := h.capacity ▸ hroom
    rw [List.length_append, List.length_singleton, ← Nat.add_assoc, take_set _ _ hroom', h.written, List.append_assoc]

/-- The position moved behind what was written. -/
theorem Writing.kept {t : Bytes} (hs : s.Ready) (h : Writing s t s') (hroom : s.outputPosition + t.length ≤ s.output.length)
    (position : ℕ) (hposition : position ≤ s.input.length) :
    Keeps s { s' with outputPosition := s.outputPosition + t.length, inputPosition := position } ∧
      InflateStream.done { s' with outputPosition := s.outputPosition + t.length, inputPosition := position } =
        s.done ++ t := by
  rw [h.eq]
  exact ⟨⟨⟨hs.buffer, hs.count, hposition, h.capacity ▸ hroom⟩, rfl, h.capacity⟩, h.written⟩

/-! ## The items of a block -/

/-- The tables of the source are those of the format. -/
theorem tables_eq : (∀ i < 29, inflateLengthExtra.getD i 0 = lengthExtra i ∧ inflateLengthBase.getD i 0 = lengthBase i) ∧
    ∀ i < 30, inflateDistanceExtra.getD i 0 = distanceExtra i ∧ inflateDistanceBase.getD i 0 = distanceBase i := by
  decide

/-- **A back-reference**, where it does not reach before the output. -/
theorem post_copy (hs : s.Ready) {d length : ℕ} (hd : 0 < d) :
    Post (inflateCopy d length) s
      (fun r s' => r = .inl () ∧ d ≤ s.done.length ∧ Keeps s s' ∧ s'.rest = s.rest ∧ s'.done = copy d length s.done)
      (fun e s' => Failed s e s' ∧ (s.done.length < d ∨ s.output.length < s.done.length + length)) := by
  have hdone := done_length hs
  have houtput := hs.output
  simp only [inflateCopy, post_bind, post_get, post_ite, post_stop, post_modify, post_pure]
  refine ⟨fun hfar => ⟨⟨by decide, rfl, hs.output⟩, Or.inl (hdone ▸ hfar)⟩, fun hnear =>
    ⟨fun hfull => ⟨⟨by decide, rfl, hs.output⟩, Or.inr (by omega)⟩, fun hroom => ?_⟩⟩
  -- the bytes written so far are the match's own beginning
  have hcopies : Post ((List.range length).foldlM
      (fun _ i => do
        let b ← readOutput (s.outputPosition - d + i)
        writeOutput (s.outputPosition + i) b) ()) s
      (fun _ s' => ∃ t, t.length = length ∧ s.done ++ t = copy d length s.done ∧ Writing s t s')
      (fun e s' => Failed s e s' ∧ (s.done.length < d ∨ s.output.length < s.done.length + length)) := by
    refine post_foldlM_range (I := fun i (_ : Unit) s' => ∃ t, t.length = i ∧ s.done ++ t = copy d i s.done ∧ Writing s t s')
      length ?_ ⟨[], rfl, List.append_nil _, Writing.start⟩
    rintro i hi - s' ⟨t, rfl, ht, h⟩
    simp only [readOutput, writeOutput, post_bind, post_get, post_check, post_pure, post_modify]
    have hcapacity := h.capacity
    have hposition : s'.outputPosition = s.outputPosition := by rw [h.eq]
    refine ⟨by omega, by omega, t ++ [_], by rw [List.length_append]; rfl, ?_, h.next _ (by omega)⟩
    have hread : s'.output.at' (s.outputPosition - d + t.length) =
        (s.done ++ t).at' ((s.done ++ t).length - d) := by
      have hlength : (s.done ++ t).length = s.outputPosition + t.length := by rw [List.length_append, hdone]
      have hindex : s.outputPosition + t.length - d = s.outputPosition - d + t.length := by omega
      rw [hlength, hindex, ← h.written, at', at', List.getD_eq_getElem _ _ (by omega), List.getD_eq_getElem,
        List.getElem_take]
      rw [List.length_take]
      omega
    rw [copy_succ, ← ht, ← List.append_assoc, hread]
  refine hcopies.imp (fun _ s' h => ?_) fun _ _ h => h
  obtain ⟨t, rfl, ht, h⟩ := h
  have hposition : s'.outputPosition = s.outputPosition := by rw [h.eq]
  have hinput : s'.inputPosition = s.inputPosition := by rw [h.eq]
  obtain ⟨hkept, hout⟩ := h.kept hs (by omega) _ hs.input
  have hsame : { s' with outputPosition := s'.outputPosition + t.length } =
      { s' with outputPosition := s.outputPosition + t.length, inputPosition := s.inputPosition } := by
    rw [hposition, ← hinput]
  refine ⟨trivial, by omega, ?_, ?_, ?_⟩
  · rw [hsame]
    exact hkept
  · rw [h.eq]
    rfl
  · rw [hsame, ← ht]
    exact hout

/-- What a pass of the loop over a block's items leaves to do, or the block's end. -/
def Passes (litlen distance : List ℕ) (s : InflateStream) (r : Unit ⊕ Unit) (s' : InflateStream) : Prop :=
  Keeps s s' ∧ r.elim
    (fun _ => items litlen distance s.done s.rest = items litlen distance s'.done s'.rest ∧
      s'.rest.length < s.rest.length)
    fun _ => items litlen distance s.done s.rest = some (s'.done, s'.rest)

/-- A status at a place where the block has no output, or more than fits. -/
def Refuses (r : Option (Bytes × List Bool)) (s : InflateStream) (e : InflateStatus) (s' : InflateStream) : Prop :=
  Failed s e s' ∧ Exceeds s r

theorem item_of_decode (distanceLengths : List ℕ) {symbol : ℕ} {bs rest : List Bool} (h : decode litlenLengths bs = some (symbol, rest)) :
    item litlenLengths distanceLengths bs =
      if symbol < 256 then some (.literal (UInt8.ofNat symbol), rest)
      else if symbol = 256 then some (.endOfBlock, rest)
      else if symbol < 286 then
        (matchLength symbol rest).bind fun (length, rest) =>
          (matchDistance distanceLengths rest).map fun (d, rest) => (.copy length d, rest)
      else none := by
  rw [item, h]
  by_cases h1 : symbol < 256
  · simp [h1]
  by_cases h2 : symbol = 256
  · simp [h2]
  by_cases h3 : symbol < 286
  · simp [h1, h2, h3, Option.map_eq_bind]
  · simp [h1, h2, h3]

/-- Where there is no item there is no output. -/
theorem refuses_of_item {e : InflateStatus} (hfailed : Failed s e s')
    (h : item litlenLengths distanceLengths s.rest = none) :
    Refuses (items litlenLengths distanceLengths s.done s.rest) s e s' := by
  refine ⟨hfailed, ?_⟩
  rw [items_none h]
  exact exceeds_none

/-- A literal is written. -/
theorem post_literal {b : UInt8} (hreads : Reads s s')
    (hitem : item litlenLengths distanceLengths s.rest = some (.literal b, s'.rest)) :
    Post (do
      let s ← get
      if s.outputPosition ≥ s.output.length then stop .outputFull
      else do
        writeOutput s.outputPosition b
        modify fun s => { s with outputPosition := s.outputPosition + 1 }
        return .inl () : Inflate (Unit ⊕ Unit)) s' (Passes litlenLengths distanceLengths s)
      (Refuses (items litlenLengths distanceLengths s.done s.rest) s) := by
  have hdone := done_length hreads.ready
  simp only [writeOutput, post_bind, post_get, post_ite, post_stop, post_check, post_modify, post_pure]
  refine ⟨fun hfull => ⟨hreads.failed (by decide), fun out rest hout => ?_⟩, fun hroom => ⟨by omega, ?_⟩⟩
  · rw [items_literal hitem] at hout
    have hlength := (items_length hout).2
    rw [List.length_append, List.length_singleton, ← hreads.done, hdone] at hlength
    rw [← hreads.output]
    omega
  · have hnext := Writing.start.next (s := s') b (by simp only [List.length_nil]; omega)
    obtain ⟨hkept, hout⟩ := hnext.kept hreads.ready (by simp only [List.nil_append, List.length_singleton]; omega)
      _ hreads.ready.input
    refine ⟨hreads.kept.trans hkept, ?_, item_length_lt hitem⟩
    rw [items_literal hitem, ← hreads.done]
    exact congrArg₂ _ hout.symm rfl

/-- **One pass** is one item. -/
theorem post_pass (hlitlen : Codes litlenLengths) (tlitlen : Sorted litlen litlenLengths)
    (hdistance : Codes distanceLengths) (tdistance : Sorted distance distanceLengths) (hs : s.Ready) :
    Post (inflatePass litlen distance ()) s (Passes litlenLengths distanceLengths s)
      (Refuses (items litlenLengths distanceLengths s.done s.rest) s) := by
  rw [inflatePass, post_bind]
  refine (post_decode hlitlen tlitlen hs).imp (fun symbol s1 h => ?_) (fun e s1 h => ?_)
  swap
  · refine refuses_of_item h.1 ?_
    rw [item, h.2]
    rfl
  obtain ⟨hreads, hdecode⟩ := h
  have hitem := item_of_decode distanceLengths hdecode
  rw [post_ite]
  refine ⟨fun hliteral => ?_, fun hnot => ?_⟩
  · rw [if_pos hliteral] at hitem
    exact post_literal hreads hitem
  rw [if_neg hnot] at hitem
  rw [post_ite, post_pure]
  refine ⟨fun hend => ?_, fun hmatch => ?_⟩
  · rw [if_pos hend] at hitem
    refine ⟨hreads.kept, ?_⟩
    rw [Sum.elim_inr, items_endOfBlock hitem, hreads.done]
  rw [if_neg hmatch] at hitem
  rw [post_ite, post_stop]
  refine ⟨fun hgreat => ?_, fun hsymbol => ?_⟩
  · rw [if_neg (by omega)] at hitem
    exact refuses_of_item (hreads.failed (by decide)) hitem
  rw [if_pos (by omega)] at hitem
  have hlengthExtra := (tables_eq.1 (symbol - 257) (by omega)).1
  have hlengthBase := (tables_eq.1 (symbol - 257) (by omega)).2
  simp only [constAt, tableAt, post_bind, post_check, post_pure, hlengthExtra, hlengthBase]
  refine ⟨not_le.1 hsymbol, (post_bits hreads.ready _).imp (fun extra s2 h => ⟨not_le.1 hsymbol, ?_⟩) (fun e s2 h => ?_)⟩
  swap
  · refine refuses_of_item (Failed.behind hreads h.1) ?_
    rw [hitem, matchLength, h.2]
    rfl
  obtain ⟨hreads2, hfield⟩ := h
  have hlength : matchLength symbol s1.rest = some (lengthBase (symbol - 257) + extra, s2.rest) := by
    rw [matchLength, hfield]
    rfl
  rw [hlength, Option.bind_some] at hitem
  dsimp only at hitem
  refine (post_decode hdistance tdistance hreads2.ready).imp (fun dsymbol s3 h => ?_) (fun e s3 h => ?_)
  swap
  · refine refuses_of_item (Failed.behind (hreads.trans hreads2) h.1) ?_
    rw [hitem, matchDistance, h.2]
    rfl
  obtain ⟨hreads3, hdecode3⟩ := h
  rw [post_ite, post_stop]
  refine ⟨fun hgreat => ?_, fun hdsymbol => ?_⟩
  · refine refuses_of_item (((hreads.trans hreads2).trans hreads3).failed (by decide)) ?_
    rw [hitem, matchDistance, hdecode3]
    simp [not_lt.2 hgreat]
  have hdistanceExtra := (tables_eq.2 dsymbol (by omega)).1
  have hdistanceBase := (tables_eq.2 dsymbol (by omega)).2
  simp only [post_bind, post_check, post_pure, hdistanceExtra, hdistanceBase]
  refine ⟨not_le.1 hdsymbol,
    (post_bits hreads3.ready _).imp (fun dextra s4 h => ⟨not_le.1 hdsymbol, ?_⟩) (fun e s4 h => ?_)⟩
  swap
  · refine refuses_of_item (Failed.behind ((hreads.trans hreads2).trans hreads3) h.1) ?_
    rw [hitem, matchDistance, hdecode3]
    simp [not_le.1 hdsymbol, h.2]
  obtain ⟨hreads4, hfield4⟩ := h
  have hreadsAll := ((hreads.trans hreads2).trans hreads3).trans hreads4
  have hd : matchDistance distanceLengths s2.rest = some (distanceBase dsymbol + dextra, s4.rest) := by
    rw [matchDistance, hdecode3]
    simp [not_le.1 hdsymbol, hfield4]
  rw [hd, Option.map_some] at hitem
  have hcopy := items_copy s.done hitem
  refine (post_copy hreads4.ready (Nat.add_pos_left (distanceBase_pos dsymbol) dextra)).imp (fun r s5 h => ?_)
    (fun e s5 h => ?_)
  · obtain ⟨rfl, hnear, hkept, hrest, hdone⟩ := h
    rw [hreadsAll.done] at hnear hdone
    refine ⟨hreadsAll.kept.trans hkept, ?_⟩
    rw [Sum.elim_inl, hcopy, if_pos hnear, hdone, hrest]
    exact ⟨rfl, item_length_lt hitem⟩
  · obtain ⟨hfailed, hreason⟩ := h
    rw [hreadsAll.done] at hreason
    refine ⟨Failed.behind hreadsAll hfailed, ?_⟩
    rw [hcopy]
    rcases hreason with hfar | hfull
    · rw [if_neg (not_le.2 hfar)]
      exact exceeds_none
    · split
      · intro out rest hout
        have hgrown := (items_length hout).2
        rw [copy_length] at hgrown
        rw [hreadsAll.output] at hfull
        omega
      · exact exceeds_none

/-- **`v9x_inflate_codes` decodes the items of a block.** -/
theorem post_codes (hlitlen : Codes litlenLengths) (tlitlen : Sorted litlen litlenLengths)
    (hdistance : Codes distanceLengths) (tdistance : Sorted distance distanceLengths) (hs : s.Ready) :
    Post (inflateCodes litlen distance) s
      (fun _ s' => Keeps s s' ∧ items litlenLengths distanceLengths s.done s.rest = some (s'.done, s'.rest))
      (Refuses (items litlenLengths distanceLengths s.done s.rest) s) := by
  refine post_loop (I := fun _ s' => Keeps s s' ∧
    items litlenLengths distanceLengths s.done s.rest = items litlenLengths distanceLengths s'.done s'.rest) ?_
    ⟨Keeps.refl hs, rfl⟩
  rintro ⟨⟩ s1 ⟨hkept, hsame⟩
  refine (post_pass hlitlen tlitlen hdistance tdistance hkept.ready).imp (fun r s2 h => ?_) (fun e s2 h => ?_)
  · obtain ⟨hkept2, h⟩ := h
    cases r with
    | inl _ =>
      obtain ⟨hnext, hlt⟩ := h
      rw [rest_length hkept2.ready, rest_length hkept.ready] at hlt
      exact ⟨⟨hkept.trans hkept2, hsame.trans hnext⟩, hlt⟩
    | inr _ => exact ⟨hkept.trans hkept2, hsame.trans h⟩
  · refine ⟨hkept.failed h.1, ?_⟩
    rw [hsame]
    exact hkept.exceeds h.2

/-! ## Stored blocks -/

/-- The one's complement of a 16-bit number. -/
theorem complement_eq {c : ℕ} (hc : c < 2 ^ 16) : 0xffff ^^^ c = 2 ^ 16 - 1 - c := by
  have h := congrArg BitVec.toNat (BitVec.allOnes_xor (x := BitVec.ofNat 16 c))
  rw [BitVec.toNat_xor, BitVec.toNat_not, BitVec.toNat_ofNat, Nat.mod_eq_of_lt hc, BitVec.toNat_allOnes] at h
  exact h

theorem word_eq (a b : UInt8) : a.toNat ||| (b.toNat <<< 8) = a.toNat + b.toNat * 2 ^ 8 := by
  rw [Nat.or_comm, ← Nat.shiftLeft_add_eq_or_of_lt (UInt8.toNat_lt a), Nat.shiftLeft_eq, Nat.add_comm]

/-- At the next byte boundary nothing is buffered. -/
theorem aligned_rest (hs : s.Ready) : s.rest.drop (s.rest.length % 8) = bits (s.input.drop s.inputPosition) := by
  have hmod : s.rest.length % 8 = s.bitCount := by
    rw [rest_length hs, InflateStream.bitsLeft]
    have := hs.count
    omega
  rw [hmod, InflateStream.rest]
  have hdrop : (lsbBits s.bitCount s.bitBuffer ++ bits (s.input.drop s.inputPosition)).drop
      (lsbBits s.bitCount s.bitBuffer).length = bits (s.input.drop s.inputPosition) := List.drop_left
  rwa [lsbBits_length] at hdrop

/-- The bytes of a stored block are copied. -/
theorem post_stored_bytes {position length : ℕ} (hinput : position + length ≤ s.input.length)
    (houtput : s.outputPosition + length ≤ s.output.length) (R : InflateStatus → InflateStream → Prop) :
    Post ((List.range length).foldlM
      (fun _ i => do
        let b ← readInput (position + i)
        writeOutput (s.outputPosition + i) b) ()) s
      (fun _ s' => Writing s ((s.input.drop position).take length) s') R := by
  refine post_foldlM_range (I := fun i (_ : Unit) s' => Writing s ((s.input.drop position).take i) s') length ?_
    Writing.start
  rintro i hi - s' h
  have hsame : s'.input = s.input := by rw [h.eq]
  have hlength : ((s.input.drop position).take i).length = i := by
    rw [List.length_take, List.length_drop]
    omega
  have hget : s'.input.at' (position + i) = s.input[position + i] := by
    rw [hsame]
    exact List.getD_eq_getElem _ _ (by omega)
  have hcapacity := h.capacity
  simp only [readInput, writeOutput, post_bind, post_get, post_check, post_pure, post_modify]
  refine ⟨by rw [hsame]; omega, by omega, ?_⟩
  have hnext := h.next s.input[position + i] (by omega)
  rw [hlength] at hnext
  have hdrop : i < (s.input.drop position).length := by
    rw [List.length_drop]
    omega
  rw [List.take_succ_eq_append_getElem hdrop, List.getElem_drop, hget]
  exact hnext

/-- **`v9x_inflate_stored`.** -/
theorem post_stored (hs : s.Ready) : Post inflateStored s
    (fun _ s' => Keeps s s' ∧ stored s.done s.rest = some (s'.done, s'.rest)) (Refuses (stored s.done s.rest) s) := by
  have hrest := aligned_rest hs
  have hinput := hs.input
  have houtput := hs.output
  have hdone := done_length hs
  rw [inflateStored, post_bind, post_modify, post_bind, post_get, post_ite, post_stop]
  refine ⟨fun hshort => ⟨⟨by decide, rfl, hs.output⟩, ?_⟩, fun hlong => ?_⟩
  · have hlength : (s.input.drop s.inputPosition).length < 4 := by
      rw [List.length_drop]
      exact hshort
    rw [stored_short hrest hlength]
    exact exceeds_none
  dsimp only at hlong ⊢
  -- the header's four bytes
  obtain ⟨b0, b1, b2, b3, t, hcons⟩ : ∃ b0 b1 b2 b3 t, s.input.drop s.inputPosition = b0 :: b1 :: b2 :: b3 :: t := by
    have hlength : 4 ≤ (s.input.drop s.inputPosition).length := by
      rw [List.length_drop]
      omega
    match s.input.drop s.inputPosition, hlength with
    | b0 :: b1 :: b2 :: b3 :: t, _ => exact ⟨b0, b1, b2, b3, t, rfl⟩
  have hat : ∀ k, s.input.at' (s.inputPosition + k) = at' (b0 :: b1 :: b2 :: b3 :: t) k := by
    intro k
    rw [← hcons, at', at', List.getD_eq_getElem?_getD, List.getD_eq_getElem?_getD, List.getElem?_drop]
  have htail : s.input.drop (s.inputPosition + 4) = t := by
    rw [← List.drop_drop, hcons]
    rfl
  have htlength : t.length = s.input.length - (s.inputPosition + 4) := by rw [← htail, List.length_drop]
  rw [hcons] at hrest
  have hstored := stored_of_header s.done hrest
  have h0 : s.input.at' s.inputPosition = b0 := hat 0
  have h1 : s.input.at' (s.inputPosition + 1) = b1 := hat 1
  have h2 : s.input.at' (s.inputPosition + 2) = b2 := hat 2
  have h3 : s.input.at' (s.inputPosition + 3) = b3 := hat 3
  have hcomplement : b2.toNat + b3.toNat * 2 ^ 8 < 2 ^ 16 := by
    have := UInt8.toNat_lt b2
    have := UInt8.toNat_lt b3
    omega
  simp only [readInput, post_bind, post_get, post_check, post_pure, post_ite, post_stop, h0, h1, h2, h3, word_eq,
    complement_eq hcomplement]
  have hlength0 : b0.toNat + b1.toNat * 2 ^ 8 < 2 ^ 16 := by
    have := UInt8.toNat_lt b0
    have := UInt8.toNat_lt b1
    omega
  generalize b0.toNat + b1.toNat * 2 ^ 8 = length at hstored hlength0 ⊢
  refine ⟨by omega, by omega, by omega, by omega, fun hne => ⟨⟨by decide, rfl, hs.output⟩, ?_⟩, fun heq =>
    ⟨fun hcut => ⟨⟨by decide, rfl, hs.output⟩, ?_⟩, fun hwhole =>
      ⟨fun hfull => ⟨⟨by decide, rfl, hs.output⟩, ?_⟩, fun hroom => ?_⟩⟩⟩
  · rw [hstored, if_neg (by omega)]
    exact exceeds_none
  · rw [hstored, if_pos (by omega), bytes_eq_none (by rw [bits_length]; omega)]
    exact exceeds_none
  · rw [hstored, if_pos (by omega)]
    have hbytes := bytes_bits (t.take length) (t.drop length)
    rw [List.take_append_drop, List.length_take_of_le (by omega)] at hbytes
    rw [hbytes, Option.map_some]
    intro out rest hout
    obtain ⟨rfl, -⟩ := Prod.mk.inj (Option.some.inj hout)
    rw [List.length_append, hdone, List.length_take_of_le (by omega)]
    omega
  · have hbytes := bytes_bits (t.take length) (t.drop length)
    rw [List.take_append_drop, List.length_take_of_le (by omega)] at hbytes
    refine (post_stored_bytes (s := { s with bitBuffer := 0, bitCount := 0 }) (by dsimp only; omega)
      (by dsimp only; omega) _).imp (fun _ s' h => ?_) fun _ _ h => h
    have hready : InflateStream.Ready { s with bitBuffer := 0, bitCount := 0 } :=
      ⟨Nat.one_pos, Nat.succ_pos 7, hs.input, hs.output⟩
    dsimp only at h
    rw [htail] at h
    have htake : (t.take length).length = length := List.length_take_of_le (by omega)
    obtain ⟨hkept, hout⟩ := h.kept hready (by rw [htake]; dsimp only; omega)
      (s.inputPosition + 4 + length) (by dsimp only; omega)
    rw [htake] at hkept hout
    have hend : { s' with
        outputPosition := s'.outputPosition + length, inputPosition := s'.inputPosition + 4 + length } =
          ({ s with
            bitBuffer := 0, bitCount := 0, output := s'.output, outputPosition := s.outputPosition + length,
            inputPosition := s.inputPosition + 4 + length } : InflateStream) := by
      rw [h.eq]
    have hsame : { s' with
        outputPosition := s.outputPosition + length, inputPosition := s.inputPosition + 4 + length } =
          ({ s with
            bitBuffer := 0, bitCount := 0, output := s'.output, outputPosition := s.outputPosition + length,
            inputPosition := s.inputPosition + 4 + length } : InflateStream) := by
      rw [h.eq]
    dsimp only at hkept hout
    rw [hsame] at hkept hout
    rw [post_modify, hend]
    refine ⟨⟨hkept.ready, hkept.input, hkept.capacity⟩, ?_⟩
    rw [hstored, if_pos (by omega), hbytes, Option.map_some]
    refine congrArg some (Prod.ext hout.symm ?_)
    rw [InflateStream.rest, ← List.drop_drop, htail]
    rfl

/-! ## Fixed blocks -/

theorem fixed_litlen (lengths : ℕ → ℕ) : lengthList (inflateFixedLengths lengths) 288 = fixedLitlen := by
  have hlist : lengthList (inflateFixedLengths lengths) 288 =
      (List.range 288).map fun symbol => if symbol < 144 then 8 else if symbol < 256 then 9 else if symbol < 280 then 7 else 8 :=
    List.map_congr_left fun symbol hsymbol => if_pos (List.mem_range.1 hsymbol)
  rw [hlist]
  decide +kernel

theorem fixed_distance (lengths : ℕ → ℕ) :
    lengthList (fun symbol => if symbol < inflateDistSymbols then 5 else lengths symbol) 32 = fixedDistance := by
  have hlist : lengthList (fun symbol => if symbol < inflateDistSymbols then 5 else lengths symbol) 32 =
      (List.range 32).map fun _ => 5 :=
    List.map_congr_left fun symbol hsymbol => if_pos (List.mem_range.1 hsymbol)
  rw [hlist]
  decide

theorem fixed_codes : Codes fixedLitlen ∧ Codes fixedDistance := by
  have hlitlen : fixedLitlen.length ≤ 288 := by decide +kernel
  have hdistance : fixedDistance.length ≤ 288 := by decide +kernel
  exact ⟨CodeOk.codes (show CodeOk false fixedLitlen from fixed_complete.1) hlitlen,
    CodeOk.codes (show CodeOk false fixedDistance from fixed_complete.2) hdistance⟩

/-- **`v9x_inflate_fixed`.** -/
theorem post_fixed (hs : s.Ready) (scratch : InflateScratch) : Post (inflateFixed scratch) s
    (fun _ s' => Keeps s s' ∧ items fixedLitlen fixedDistance s.done s.rest = some (s'.done, s'.rest))
    (Refuses (items fixedLitlen fixedDistance s.done s.rest) s) := by
  have hlitlenSize : inflateLitlenSymbols ≤ inflateLengthsSize := Nat.le_add_right _ _
  have hdistanceSize : inflateDistSymbols ≤ inflateLengthsSize := Nat.le_add_left _ _
  have hdistanceSymbols : inflateDistSymbols ≤ 288 := Nat.le_of_ble_eq_true rfl
  rw [inflateFixed]
  dsimp only
  rw [post_bind]
  refine (post_build hlitlenSize (Nat.le_refl inflateLitlenSymbols) false).imp (fun litlen s1 h => ?_) (fun e s1 h => ?_)
  swap
  · rw [fixed_litlen] at h
    exact absurd fixed_complete.1 h.2.2
  obtain ⟨rfl, -, tlitlen⟩ := h
  rw [fixed_litlen] at tlitlen
  rw [post_bind]
  refine (post_build hdistanceSize hdistanceSymbols false).imp (fun distance s2 h => ?_)
    (fun e s2 h => ?_)
  swap
  · rw [fixed_distance] at h
    exact absurd fixed_complete.2 h.2.2
  obtain ⟨rfl, -, tdistance⟩ := h
  rw [fixed_distance] at tdistance
  rw [post_bind]
  exact (post_codes fixed_codes.1 tlitlen fixed_codes.2 tdistance hs).imp (fun _ _ h => post_pure.2 h) fun _ _ h => h

end V9xRemote
