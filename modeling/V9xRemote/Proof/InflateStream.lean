import V9xRemote.Proof.InflateHeader

/-!
# Inflate equals the format

`inflate_eq_rfc`: whatever the scratch state held, the decoder ends, touches nothing outside
the input and the output, and is successful exactly where the format has an output that
fits.
-/

namespace V9xRemote

open Bytes Checked Deflate Canonical

variable {s s' : InflateStream} {lengths : List ℕ} {code code' : InflateCode}

/-! ## Blocks -/

/-- A block behind its type. -/
theorem post_body (hs : s.Ready) (type : ℕ) (scratch : InflateScratch) : Post (inflateBody type scratch) s
    (fun _ s' => Keeps s s' ∧ body type s.done s.rest = some (s'.done, s'.rest))
    (Refuses (body type s.done s.rest) s) := by
  rw [inflateBody, post_ite]
  refine ⟨fun h0 => ?_, fun h0 => ?_⟩
  · rw [post_bind, body, if_pos h0]
    exact (post_stored hs).imp (fun _ s' h => post_pure.2 h) fun _ _ h => h
  rw [post_ite]
  refine ⟨fun h1 => ?_, fun h1 => ?_⟩
  · rw [body, if_neg h0, if_pos h1]
    exact post_fixed hs scratch
  rw [post_ite, post_stop]
  refine ⟨fun h2 => ?_, fun h2 => ?_⟩
  · obtain rfl := h2
    exact post_dynamic hs scratch
  · refine ⟨(Reads.refl hs).failed (by decide), ?_⟩
    rw [body, if_neg h0, if_neg h1, if_neg h2]
    exact exceeds_none

/-- The stream behind a block, and whether it was the final one. -/
def Blocks (s : InflateStream) (r : InflateScratch ⊕ Unit) (s' : InflateStream) : Prop :=
  Keeps s s' ∧ r.elim (fun _ => block s.done s.rest = some (false, s'.done, s'.rest))
    fun _ => block s.done s.rest = some (true, s'.done, s'.rest)

/-- A block that has no output, or one that does not fit. -/
def BlockExceeds (s : InflateStream) : Prop :=
  ∀ final out rest, block s.done s.rest = some (final, out, rest) → s.output.length < out.length

/-- **One block.** -/
theorem post_block (hs : s.Ready) (scratch : InflateScratch) :
    Post (inflateBlock scratch) s (Blocks s) (fun e s' => Failed s e s' ∧ BlockExceeds s) := by
  have hnone : block s.done s.rest = none → BlockExceeds s := by
    intro h final out rest hblock
    rw [h] at hblock
    cases hblock
  rw [inflateBlock, post_bind]
  refine (post_bits hs 1).imp (fun final s1 h1 => ?_) (fun e s1 h1 => ⟨h1.1, hnone (by rw [block, h1.2]; rfl)⟩)
  obtain ⟨hreads1, hfinal⟩ := h1
  rw [post_bind]
  refine (post_bits hreads1.ready 2).imp (fun type s2 h2 => ?_)
    (fun e s2 h2 => ⟨Failed.behind hreads1 h2.1, hnone (by rw [block, hfinal]; simp [h2.2])⟩)
  obtain ⟨hreads2, htype⟩ := h2
  have hreads := hreads1.trans hreads2
  have hblock := block_of_type s.done hfinal htype
  rw [post_bind]
  refine (post_body hreads.ready type scratch).imp (fun scratch' s3 h3 => ?_) (fun e s3 h3 => ?_)
  · obtain ⟨hkept, hbody⟩ := h3
    rw [hreads.done] at hbody
    rw [hbody, Option.map_some] at hblock
    have hbit : final < 2 := field_lt hfinal
    rw [post_ite, post_pure, post_pure]
    refine ⟨fun h0 => ⟨hreads.kept.trans hkept, ?_⟩, fun h1 => ⟨hreads.kept.trans hkept, ?_⟩⟩
    · rw [Sum.elim_inl, hblock, h0]
      rfl
    · obtain rfl : final = 1 := by omega
      rw [Sum.elim_inr, hblock]
      rfl
  · obtain ⟨hfailed, hexceeds⟩ := h3
    rw [hreads.done] at hexceeds
    refine ⟨Failed.behind hreads hfailed, fun final' out rest hsome => ?_⟩
    rw [hblock] at hsome
    obtain ⟨⟨out', rest'⟩, hbody, heq⟩ := Option.map_eq_some_iff.1 hsome
    obtain ⟨-, hout⟩ := Prod.mk.inj heq
    obtain ⟨rfl, -⟩ := Prod.mk.inj hout
    exact hreads.kept.exceeds hexceeds _ _ hbody

/-- An output of the blocks begins with the first one's. -/
theorem blocks_first {out out' : Bytes} {bs rest : List Bool} (h : blocks out bs = some (out', rest)) :
    ∃ final out1 rest1, block out bs = some (final, out1, rest1) ∧ out1.length ≤ out'.length := by
  rw [blocks] at h
  split at h
  · cases h
  · rename_i out1 rest1 hblock
    obtain ⟨rfl, -⟩ := Prod.mk.inj (Option.some.inj h)
    exact ⟨true, out1, rest1, hblock, le_rfl⟩
  · rename_i out1 rest1 hblock
    exact ⟨false, out1, rest1, hblock, blocks_length h⟩

/-- **All blocks.** -/
theorem post_blocks (hs : s.Ready) (scratch : InflateScratch) :
    Post (loop InflateStream.bitsLeft inflateBlock scratch) s
      (fun _ s' => Keeps s s' ∧ blocks s.done s.rest = some (s'.done, s'.rest)) (Refuses (blocks s.done s.rest) s) := by
  refine post_loop (I := fun _ s' => Keeps s s' ∧ blocks s.done s.rest = blocks s'.done s'.rest) ?_ ⟨Keeps.refl hs, rfl⟩
  rintro scratch1 s1 ⟨hkept, hsame⟩
  refine (post_block hkept.ready scratch1).imp (fun r s2 h => ?_) (fun e s2 h => ?_)
  · obtain ⟨hkept2, h⟩ := h
    cases r with
    | inl _ =>
      have hlt := (block_length h).1
      rw [rest_length hkept2.ready, rest_length hkept.ready] at hlt
      exact ⟨⟨hkept.trans hkept2, hsame.trans (blocks_more h)⟩, hlt⟩
    | inr _ => exact ⟨hkept.trans hkept2, hsame.trans (blocks_final h)⟩
  · refine ⟨hkept.failed h.1, fun out rest hout => ?_⟩
    rw [hsame] at hout
    obtain ⟨final, out1, rest1, hblock, hle⟩ := blocks_first hout
    have := h.2 final out1 rest1 hblock
    rw [hkept.capacity] at this
    omega

theorem ready_start (input output : Bytes) : (InflateStream.start input output).Ready :=
  ⟨Nat.one_pos, Nat.succ_pos 7, Nat.zero_le _, Nat.zero_le _⟩

/-- **A call** is successful where the stream's output fits. -/
theorem inflate_spec (scratch : InflateScratch) (input output : Bytes) : ∃ r,
    inflateWithState scratch input output = some r ∧ r.output.length = output.length ∧ r.outputLength ≤ output.length ∧
      (r.status = .ok → Deflate.inflate input = some (r.output.take r.outputLength)) ∧
      (r.status ≠ .ok → ∀ o, Deflate.inflate input = some o → output.length < o.length) := by
  have h := post_blocks (ready_start input output) scratch
  have hrest : (InflateStream.start input output).rest = bits input := rfl
  have hdone : (InflateStream.start input output).done = [] := rfl
  rw [hrest, hdone] at h
  unfold Post at h
  unfold inflateWithState
  rcases hrun : loop InflateStream.bitsLeft inflateBlock scratch (InflateStream.start input output) with
    - | ⟨e | a, s'⟩ <;> rw [hrun] at h
  · exact h.elim
  · obtain ⟨hfailed, hexceeds⟩ := h
    refine ⟨_, rfl, hfailed.output, hfailed.position.trans hfailed.output.le, fun hok => absurd hok hfailed.status,
      fun _ o ho => ?_⟩
    obtain ⟨⟨out, rest⟩, hblocks, rfl⟩ := Option.map_eq_some_iff.1 ho
    exact hexceeds out rest hblocks
  · obtain ⟨hkept, hblocks⟩ := h
    refine ⟨_, rfl, hkept.capacity, hkept.ready.output.trans hkept.capacity.le, fun _ => ?_,
      fun hnot => absurd rfl hnot⟩
    rw [Deflate.inflate, hblocks]
    rfl

/-! ## The scratch state -/

/-- Two tables, read at the same index. -/
theorem alike_tableAt (size i : ℕ) (table table' : ℕ → ℕ) :
    Alike (fun a b => a = table i ∧ b = table' i) (tableAt size table i) (tableAt size table' i) :=
  alike_bind (alike_check _) fun _ _ _ => alike_pure ⟨rfl, rfl⟩

/-- Two tables, written at the same index. -/
theorem alike_tableSet (size i v : ℕ) (table table' : ℕ → ℕ) :
    Alike (fun a b => a = Function.update table i v ∧ b = Function.update table' i v) (tableSet size table i v)
      (tableSet size table' i v) :=
  alike_bind (alike_check _) fun _ _ _ => alike_pure ⟨rfl, rfl⟩

/-- Tables of one code length set agree on its symbols. -/
theorem symbol_congr (htable : Sorted code lengths) (htable' : Sorted code' lengths) {n i : ℕ} (hi : i < count lengths n) :
    code.symbol (place lengths n + i) = code'.symbol (place lengths n + i) := by
  obtain ⟨symbol, rfl, rfl⟩ := exists_rank hi
  have hne : lengthOf lengths symbol ≠ 0 := by
    intro h0
    rw [h0] at hi
    exact absurd hi (Nat.not_lt_zero _)
  rw [htable.symbol symbol hne, htable'.symbol symbol hne]

/-- They decode alike, whatever else they hold. -/
theorem alike_decodeFrom (htable : Sorted code lengths) (htable' : Sorted code' lengths) (left k value : ℕ)
    (hleft : left + k = 15) :
    Alike Eq (inflateDecodeFrom code left value (first lengths (k + 1)) (place lengths (k + 1)))
      (inflateDecodeFrom code' left value (first lengths (k + 1)) (place lengths (k + 1))) := by
  induction left generalizing k value with
  | zero => exact alike_stop
  | succ left ih =>
    have hindex : 15 - left = k + 1 := by omega
    have hcount : ∀ {c : InflateCode}, Sorted c lengths → c.count (15 - left) = count lengths (k + 1) := by
      intro c hc
      rw [hindex, hc.count _ (by omega), count, if_neg k.succ_ne_zero]
    refine alike_same fun bit => alike_bind (alike_tableAt _ _ _ _) ?_
    rintro _ _ ⟨rfl, rfl⟩
    rw [hcount htable, hcount htable']
    refine alike_ite (fun hfound => ?_) fun _ => ?_
    · refine alike_bind (alike_check _) fun _ _ _ => alike_pure (symbol_congr htable htable' hfound.2)
    · have hnext := ih (k + 1) ((value ||| bit) * 2) (by omega)
      rw [first, place, Nat.mul_comm 2] at hnext
      exact hnext

theorem decode_congr (htable : Sorted code lengths) (htable' : Sorted code' lengths) :
    inflateDecode code = inflateDecode code' :=
  alike_eq (alike_decodeFrom htable htable' 15 0 0 rfl)

/-- So do the items of a block. -/
theorem codes_congr {litlen litlen' distance distance' : InflateCode} {litlenLengths distanceLengths : List ℕ}
    (hlitlen : Sorted litlen litlenLengths) (hlitlen' : Sorted litlen' litlenLengths)
    (hdistance : Sorted distance distanceLengths) (hdistance' : Sorted distance' distanceLengths) :
    inflateCodes litlen distance = inflateCodes litlen' distance' := by
  unfold inflateCodes inflatePass
  rw [decode_congr hlitlen hlitlen', decode_congr hdistance hdistance']

/-- The tables of one code length set, built over what was there. -/
theorem alike_build {table table' : ℕ → ℕ} {size symbols : ℕ} (hsize : symbols ≤ size) (hsymbols : symbols ≤ 288)
    (allowSingle : Bool) (hsame : lengthList table symbols = lengthList table' symbols) :
    Alike (fun c c' => Sorted c (lengthList table symbols) ∧ Sorted c' (lengthList table symbols))
      (inflateBuild code size table symbols allowSingle) (inflateBuild code' size table' symbols allowSingle) := by
  refine alike_of_post (fun s => post_build hsize hsymbols allowSingle) (fun s => post_build hsize hsymbols allowSingle)
    ?_ ?_ ?_ ?_
  · rintro a b s s₁ s₂ ⟨rfl, -, h⟩ ⟨rfl, -, h'⟩
    exact ⟨rfl, h, hsame ▸ h'⟩
  · rintro e e' s s₁ s₂ ⟨rfl, rfl, -⟩ ⟨rfl, rfl, -⟩
    exact ⟨rfl, rfl⟩
  · rintro a e s s₁ s₂ ⟨-, hok, -⟩ ⟨-, -, hnot⟩
    exact hnot (hsame ▸ hok)
  · rintro e b s s₁ s₂ ⟨-, -, hnot⟩ ⟨-, hok, -⟩
    exact hnot (hsame ▸ hok)

theorem alike_fixed (scratch scratch' : InflateScratch) :
    Alike (fun _ _ => True) (inflateFixed scratch) (inflateFixed scratch') := by
  have hlitlenSize : inflateLitlenSymbols ≤ inflateLengthsSize := Nat.le_add_right _ _
  have hdistanceSize : inflateDistSymbols ≤ inflateLengthsSize := Nat.le_add_left _ _
  have hlitlenSymbols : inflateLitlenSymbols ≤ 288 := Nat.le_of_ble_eq_true rfl
  have hdistanceSymbols : inflateDistSymbols ≤ 288 := Nat.le_of_ble_eq_true rfl
  refine alike_bind (alike_build hlitlenSize hlitlenSymbols false
    ((fixed_litlen scratch.lengths).trans (fixed_litlen scratch'.lengths).symm)) fun litlen litlen' hlitlen => ?_
  refine alike_bind (alike_build hdistanceSize hdistanceSymbols false
    ((fixed_distance _).trans (fixed_distance _).symm)) fun distance distance' hdistance => ?_
  rw [codes_congr hlitlen.1 hlitlen.2 hdistance.1 hdistance.2]
  exact alike_same fun _ => alike_pure trivial

/-- The code lengths collected so far, in two scratch states. -/
def SameLengths (a b : (ℕ → ℕ) × ℕ) : Prop := a.2 = b.2 ∧ lengthList a.1 a.2 = lengthList b.1 b.2

theorem lengthList_last {table table' : ℕ → ℕ} {n i : ℕ} (h : lengthList table n = lengthList table' n) (hi : i < n) :
    table i = table' i := by
  have hleft : lengthOf (lengthList table n) i = table i := lengthOf_lengthList hi
  rw [h, lengthOf_lengthList hi] at hleft
  exact hleft.symm

theorem alike_repeat (total index value count : ℕ) {table table' : ℕ → ℕ}
    (h : lengthList table index = lengthList table' index) :
    Alike (Sum.LiftRel SameLengths fun a b => lengthList a total = lengthList b total)
      (inflateRepeat total table index value count) (inflateRepeat total table' index value count) := by
  refine alike_ite (fun _ => alike_stop) fun _ => ?_
  refine alike_bind (r := fun a b => lengthList a (index + count) = lengthList b (index + count))
    (alike_foldlM (i := fun i a b => lengthList a (index + i) = lengthList b (index + i)) count ?_ h)
    fun a b hab => alike_pure (Sum.LiftRel.inl ⟨rfl, hab⟩)
  intro i _ a b hab
  refine alike_bind (alike_check _) fun _ _ _ => alike_pure ?_
  rw [← Nat.add_assoc, lengthList_update, lengthList_update, hab]

theorem alike_lengths (htable : Sorted code lengths) (htable' : Sorted code' lengths) (total : ℕ)
    {a b : (ℕ → ℕ) × ℕ} (h : SameLengths a b) :
    Alike (Sum.LiftRel SameLengths fun a b => lengthList a total = lengthList b total)
      (inflateLengths code total a) (inflateLengths code' total b) := by
  obtain ⟨table, index⟩ := a
  obtain ⟨table', index'⟩ := b
  obtain ⟨rfl, hsame⟩ := h
  dsimp only at hsame
  unfold inflateLengths
  rw [decode_congr htable htable']
  refine alike_ite (fun _ => alike_same fun symbol => ?_) fun hfull => alike_pure (Sum.LiftRel.inr ?_)
  swap
  · have htake := congrArg (List.take total) hsame
    rwa [lengthList_take (not_lt.1 hfull), lengthList_take (not_lt.1 hfull)] at htake
  refine alike_ite (fun _ => ?_) fun _ => alike_ite (fun _ => ?_) fun _ => alike_ite (fun _ => ?_) fun _ => ?_
  · refine alike_bind (alike_tableSet _ _ _ _ _) ?_
    rintro _ _ ⟨rfl, rfl⟩
    refine alike_pure (Sum.LiftRel.inl ⟨rfl, ?_⟩)
    dsimp only
    rw [lengthList_update, lengthList_update, hsame]
  · refine alike_ite (fun _ => alike_stop) fun hbehind => alike_bind (alike_tableAt _ _ _ _) ?_
    rintro _ _ ⟨rfl, rfl⟩
    rw [lengthList_last hsame (by omega : index - 1 < index)]
    exact alike_same fun count => alike_repeat _ _ _ _ hsame
  · exact alike_same fun count => alike_repeat _ _ _ _ hsame
  · exact alike_same fun count => alike_repeat _ _ _ _ hsame

/-- A field is read alike, and is below its bound. -/
theorem alike_bits (count : ℕ) : Alike (fun a b => a = b ∧ a < 2 ^ count) (inflateBits count) (inflateBits count) := by
  refine alike_same fun _ => alike_same fun s => alike_same fun _ => alike_pure ⟨rfl, ?_⟩
  rw [Nat.one_shiftLeft]
  exact Nat.and_lt_two_pow _ (Nat.sub_lt (Nat.two_pow_pos count) Nat.one_pos)

/-- What two scratch states have in common behind a dynamic block's header. -/
structure SameHeader (a b : (ℕ × ℕ) × InflateCode × (ℕ → ℕ)) : Prop where
  numbers : a.1 = b.1
  hlitMin : 257 ≤ a.1.1
  hlitMax : a.1.1 ≤ 286
  hdistMax : a.1.2 ≤ 32
  lengths : lengthList a.2.2 (a.1.1 + a.1.2) = lengthList b.2.2 (a.1.1 + a.1.2)

theorem alike_header (scratch scratch' : InflateScratch) :
    Alike SameHeader (inflateHeader scratch) (inflateHeader scratch') := by
  have hclenSymbols : inflateClenSymbols ≤ 288 := Nat.le_of_ble_eq_true rfl
  refine alike_same fun hlit => alike_bind (alike_bits 5) ?_
  rintro hdist _ ⟨rfl, hdist32⟩
  refine alike_same fun hclen => alike_ite (fun _ => alike_stop) fun hlegal => alike_same fun clen => ?_
  refine alike_bind (alike_build (Nat.le_refl inflateClenSymbols) hclenSymbols false rfl) fun code code' hcode => ?_
  refine alike_bind (alike_loop (r := SameLengths) (fun _ _ h => alike_lengths hcode.1 hcode.2 _ h) ⟨rfl, rfl⟩)
    fun table table' h => alike_pure ⟨rfl, Nat.le_add_left _ _, not_lt.1 hlegal, hdist32, h⟩

theorem alike_dynamic (scratch scratch' : InflateScratch) :
    Alike (fun _ _ => True) (inflateDynamic scratch) (inflateDynamic scratch') := by
  refine alike_bind (alike_header scratch scratch') ?_
  rintro ⟨⟨hlit, hdist⟩, code, table⟩ ⟨_, code', table'⟩ ⟨rfl, hmin, hmax, hdistMax, hsame⟩
  dsimp only at hmin hmax hdistMax hsame ⊢
  have hsize : inflateLengthsSize = 320 := rfl
  refine alike_bind (alike_tableAt _ _ _ _) ?_
  rintro _ _ ⟨rfl, rfl⟩
  rw [lengthList_last hsame (by omega : 256 < hlit + hdist)]
  refine alike_ite (fun _ => alike_stop) fun _ => ?_
  have hlitlen : lengthList table hlit = lengthList table' hlit := by
    have htake := congrArg (List.take hlit) hsame
    rwa [lengthList_take (Nat.le_add_right _ _), lengthList_take (Nat.le_add_right _ _)] at htake
  have hdistance : lengthList (fun i => table (hlit + i)) hdist = lengthList (fun i => table' (hlit + i)) hdist := by
    have hdrop := congrArg (List.drop hlit) hsame
    rwa [lengthList_drop, lengthList_drop] at hdrop
  refine alike_bind (alike_build (by omega) (by omega) false hlitlen) fun litlen litlen' h => ?_
  refine alike_bind (alike_build (by omega) (by omega) true hdistance) fun distance distance' h' => ?_
  rw [codes_congr h.1 h.2 h'.1 h'.2]
  exact alike_same fun _ => alike_pure trivial

theorem alike_block (scratch scratch' : InflateScratch) :
    Alike (Sum.LiftRel (fun _ _ => True) Eq) (inflateBlock scratch) (inflateBlock scratch') := by
  refine alike_same fun final => alike_same fun type => ?_
  refine alike_bind (r := fun _ _ => True) ?_ fun _ _ _ =>
    alike_ite (fun _ => alike_pure (Sum.LiftRel.inl trivial)) fun _ => alike_pure (Sum.LiftRel.inr rfl)
  refine alike_ite (fun _ => alike_same fun _ => alike_pure trivial) fun _ => alike_ite (fun _ => ?_) fun _ =>
    alike_ite (fun _ => ?_) fun _ => alike_stop
  · exact alike_fixed scratch scratch'
  · exact alike_dynamic scratch scratch'

/-- **What the scratch state held does not matter.** -/
theorem inflate_scratch (scratch scratch' : InflateScratch) (input output : Bytes) :
    inflateWithState scratch input output = inflateWithState scratch' input output := by
  have hloop : loop InflateStream.bitsLeft inflateBlock scratch = loop InflateStream.bitsLeft inflateBlock scratch' :=
    alike_eq (alike_loop (r := fun _ _ => True) (fun _ _ _ => alike_block _ _) trivial)
  unfold inflateWithState
  rw [hloop]

/-- **Inflate equals RFC 1951.** Every call ends without an access outside the input and the
output, its result does not depend on the scratch state, and it is successful exactly where
the stream at the start of the input has an output that fits the capacity. -/
theorem inflate_eq_rfc (input output : Bytes) : ∃ r,
    (∀ scratch, inflateWithState scratch input output = some r) ∧
      r.output.length = output.length ∧ r.outputLength ≤ output.length ∧
      ∀ o, (r.status = .ok ∧ r.output.take r.outputLength = o) ↔
        (Deflate.inflate input = some o ∧ o.length ≤ output.length) := by
  let scratch : InflateScratch := ⟨⟨fun _ => 0, fun _ => 0⟩, ⟨fun _ => 0, fun _ => 0⟩, fun _ => 0⟩
  obtain ⟨r, hr, hlength, hposition, hok, hnot⟩ := inflate_spec scratch input output
  refine ⟨r, fun scratch' => (inflate_scratch scratch' scratch input output).trans hr, hlength, hposition,
    fun o => ⟨?_, ?_⟩⟩
  · rintro ⟨hstatus, rfl⟩
    refine ⟨hok hstatus, ?_⟩
    rw [List.length_take]
    omega
  · rintro ⟨hinflate, hfits⟩
    have hstatus : r.status = .ok := by
      by_contra hstatus
      have := hnot hstatus o hinflate
      omega
    refine ⟨hstatus, ?_⟩
    have hout := hok hstatus
    rw [hinflate] at hout
    exact (Option.some.inj hout).symm

end V9xRemote
