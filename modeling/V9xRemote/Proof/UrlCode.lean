import V9xRemote.Lib.Percent
import V9xRemote.Lib.Scan
import V9xRemote.Spec.UrlCode

/-!
# Percent encoding and decoding

The encoder writes the percent encoding of its text, or nothing, and stays below the capacity.
The decoder, in place, leaves what standard decoding gives, without the bytes that it does not
keep.
-/

namespace V9xRemote

open Bytes Scan Checked

/-! ## Against the standard -/

theorem urlText_percent (text : Bytes) : urlText text = Percent.encode isUnreserved text := rfl

/-- `%` is reserved. -/
theorem percent_reserved : isUnreserved 37 = false := rfl

theorem updateHex_at (b : UInt8) :
    updateHex.at' (b >>> 4).toNat = upperHexDigit (b >>> 4) ∧
      updateHex.at' (b &&& 15).toNat = upperHexDigit (b &&& 15) := by
  have hall : ∀ n < 16, updateHex.at' (UInt8.ofNat n).toNat = upperHexDigit (UInt8.ofNat n) := by decide
  obtain ⟨hhigh, hlow, -⟩ := Percent.halves b
  constructor
  · have hn := hall (b >>> 4).toNat (UInt8.lt_iff_toNat_lt.1 hhigh)
    rwa [UInt8.ofNat_toNat] at hn
  · have hn := hall (b &&& 15).toNat (UInt8.lt_iff_toNat_lt.1 hlow)
    rwa [UInt8.ofNat_toNat] at hn

theorem triplet_short {b : UInt8} {rest : Bytes}
    (h : ∀ high low more, b = 37 → rest = high :: low :: more → False) : Percent.triplet (b :: rest) = none := by
  by_cases hb : b = 37
  · subst hb
    match rest, h with
    | [], _ => rfl
    | [_], _ => rfl
    | high :: low :: more, h => exact (h high low more rfl rfl).elim
  · exact Percent.triplet_of_ne hb rest

/-- **The decoder against standard decoding.** -/
theorem rtDecode_percent (text : Bytes) : rtDecode text = (Percent.decode text).filter rtKeeps := by
  have hpair (h l : UInt8) (rest : Bytes) : Percent.triplet (37 :: h :: l :: rest) =
      (rtHex h).bind fun h => (rtHex l).bind fun l => some ((h <<< 4) ||| l) := rfl
  fun_induction rtDecode text with
  | case1 h l rest high low hl hh b hkeep ih =>
    have hread : Percent.triplet (37 :: h :: l :: rest) = some b := by rw [hpair, hh, hl]; rfl
    rw [Percent.decode_triplet hread, List.filter_cons_of_pos hkeep, ih]
    rfl
  | case2 h l rest high low hl hh b hkeep ih =>
    have hread : Percent.triplet (37 :: h :: l :: rest) = some b := by rw [hpair, hh, hl]; rfl
    rw [Percent.decode_triplet hread, List.filter_cons_of_neg hkeep, ih]
    rfl
  | case3 h l rest hnone ih =>
    have hread : Percent.triplet (37 :: h :: l :: rest) = none := by
      rw [hpair, Option.eq_none_iff_forall_ne_some]
      intro b hb
      obtain ⟨high, hh, hb⟩ := Option.bind_eq_some_iff.1 hb
      obtain ⟨low, hl, -⟩ := Option.bind_eq_some_iff.1 hb
      exact hnone high low hh hl
    rw [Percent.decode_cons hread, List.filter_cons_of_pos (by decide), ih]
  | case4 b rest hshort hkeep ih => rw [Percent.decode_cons (triplet_short hshort), List.filter_cons_of_pos hkeep, ih]
  | case5 b rest hshort hkeep ih => rw [Percent.decode_cons (triplet_short hshort), List.filter_cons_of_neg hkeep, ih]
  | case6 => rw [Percent.decode, List.filter_nil]

section

variable {text output : Bytes} {capacity : ℕ} {R : Empty → Bytes → Prop}

/-! ## The encoder -/

theorem post_encodePut {i : ℕ} {b : UInt8} {Q : Unit → Bytes → Prop} :
    Post (encodePut capacity i b) output Q R ↔ i < capacity ∧ Q () (output.set i b) := by
  rw [encodePut, post_bind, post_check, post_modify]

/-- What a run leaves in the buffer: the text behind `front`, or an empty one. -/
structure EncodeEnd (capacity : ℕ) (front text output : Bytes) (found : Bool) (after : Bytes) : Prop where
  length : after.length = output.length
  behind : after.drop capacity = output.drop capacity
  fits : found = true ↔ front.length + (urlText text).length < capacity
  written : found = true → ∃ rest, after = front ++ urlText text ++ 0 :: rest
  empty : found = false → after.at' 0 = 0

theorem encodeEnd_refused {front : Bytes} (hcapacity : capacity ≤ output.length) (hfront : front.length < capacity)
    (hlarge : capacity ≤ front.length + (urlText text).length) :
    EncodeEnd capacity front text output false ((front ++ output.drop front.length).set 0 0) := by
  have hlength : (front ++ output.drop front.length).length = output.length := by
    rw [List.length_append, List.length_drop]
    omega
  refine ⟨?_, ?_, iff_of_false Bool.false_ne_true (not_lt.2 hlarge), nofun, fun _ => ?_⟩
  · rw [List.length_set, hlength]
  · rw [List.drop_set_of_lt (by omega), drop_behind _ _ hfront.le]
  · rw [at'_eq_getElem (by rw [List.length_set, hlength]; omega), List.getElem_set_self]

theorem urlText_cons (value : UInt8) (text : Bytes) : urlText (value :: text) = urlEncodeByte value ++ urlText text := rfl

/-- A byte more in front, a byte less to go. -/
theorem EncodeEnd.step {front after : Bytes} {value : UInt8} {found : Bool}
    (h : EncodeEnd capacity (front ++ urlEncodeByte value) text output found after) :
    EncodeEnd capacity front (value :: text) output found after := by
  refine ⟨h.length, h.behind, ?_, fun hfound => ?_, h.empty⟩
  · rw [h.fits, urlText_cons, List.length_append, List.length_append, Nat.add_assoc]
  · rw [urlText_cons, ← List.append_assoc]
    exact h.written hfound

/-- **The loop over the text**, with what it has written in front. -/
theorem post_updateEncodeLoop (front : Bytes) (hcapacity : capacity ≤ output.length) (hfront : front.length < capacity) :
    Post (updateEncodeLoop capacity text front.length) (front ++ output.drop front.length)
      (EncodeEnd capacity front text output) R := by
  induction text generalizing front with
  | nil =>
    rw [updateEncodeLoop, post_bind, post_encodePut, post_pure]
    refine ⟨hfront, ?_⟩
    have hset := set_behind front output 0 (hfront.trans_le hcapacity)
    rw [hset]
    have hnext : front.length + 1 = (front ++ [0]).length := by rw [List.length_append]; rfl
    refine ⟨?_, ?_, iff_of_true rfl hfront, fun _ => ⟨output.drop (front.length + 1), ?_⟩, nofun⟩
    · rw [List.length_append, List.length_drop, ← hnext]
      omega
    · rw [hnext, drop_behind _ _ (by rw [← hnext]; exact hfront)]
    · rw [urlText, List.flatMap_nil, List.append_nil, List.append_assoc]
      rfl
  | cons value text ih =>
    have hrefused : capacity ≤ front.length + (urlEncodeByte value).length →
        Post (do encodePut capacity 0 0; return false : Checked Bytes Empty Bool) (front ++ output.drop front.length)
          (EncodeEnd capacity front (value :: text) output) R := by
      intro hlarge
      rw [post_bind, post_encodePut, post_pure]
      refine ⟨by omega, encodeEnd_refused hcapacity hfront ?_⟩
      rw [urlText_cons, List.length_append]
      omega
    -- the buffer once the bytes of the value stand in it
    have hwritten : front.length + (urlEncodeByte value).length < capacity →
        Post (updateEncodeLoop capacity text (front.length + (urlEncodeByte value).length))
          (front ++ urlEncodeByte value ++ output.drop (front.length + (urlEncodeByte value).length))
          (EncodeEnd capacity front (value :: text) output) R := by
      intro hroom
      have hrest := ih (front ++ urlEncodeByte value) (by rw [List.length_append]; exact hroom)
      rw [List.length_append] at hrest
      exact hrest.imp (fun _ _ h => h.step) fun _ _ h => h
    rw [updateEncodeLoop]
    by_cases hkeep : isUnreserved value = true
    · have hbyte : urlEncodeByte value = [value] := if_pos hkeep
      rw [hbyte, List.length_singleton] at hrefused hwritten
      rw [if_pos hkeep]
      by_cases hlarge : front.length + 1 ≥ capacity
      · rw [if_pos hlarge]
        exact hrefused hlarge
      · rw [if_neg hlarge, post_bind, post_encodePut, set_behind front output value (by omega)]
        exact ⟨hfront, hwritten (not_le.1 hlarge)⟩
    · have hbyte : urlEncodeByte value = [37, upperHexDigit (value >>> 4), upperHexDigit (value &&& 15)] := if_neg hkeep
      obtain ⟨hhigh, hlow⟩ := updateHex_at value
      rw [hbyte] at hrefused hwritten
      rw [if_neg hkeep]
      by_cases hlarge : front.length + 3 ≥ capacity
      · rw [if_pos hlarge]
        exact hrefused hlarge
      · -- the three bytes of an escape, one behind the other
        have hfill (piece : Bytes) (k : ℕ) (b : UInt8) (hpiece : piece.length = k) (hk : k < 3) :
            (front ++ piece ++ output.drop (front.length + k)).set (front.length + k) b =
              front ++ (piece ++ [b]) ++ output.drop (front.length + (k + 1)) := by
          have hset := set_behind (front ++ piece) output b (by rw [List.length_append]; omega)
          rwa [List.length_append, hpiece, List.append_assoc front piece [b]] at hset
        have hfirst := hfill [] 0 37 rfl (by decide)
        have hsecond := hfill [37] 1 (upperHexDigit (value >>> 4)) rfl (by decide)
        have hthird := hfill [37, upperHexDigit (value >>> 4)] 2 (upperHexDigit (value &&& 15)) rfl (by decide)
        rw [List.append_nil, Nat.add_zero, List.nil_append, Nat.zero_add] at hfirst
        rw [if_neg hlarge, hhigh, hlow, post_bind, post_encodePut, post_bind, post_encodePut, post_bind, post_encodePut,
          hfirst, hsecond]
        refine ⟨hfront, by omega, by omega, ?_⟩
        change Post _ ((front ++ [37, upperHexDigit (value >>> 4)] ++
          output.drop (front.length + 2)).set (front.length + 2) _) _ _
        rw [hthird]
        exact hwritten (not_le.1 hlarge)

/-- **The encoder** with its buffer. -/
theorem post_updateEncodeRun (hcapacity : capacity ≤ output.length) : Post (updateEncodeRun text capacity) output
    (fun found after => after.length = output.length ∧ after.drop capacity = output.drop capacity ∧
      (found = true ↔ (urlText text).length < capacity) ∧ (found = true → ∃ rest, after = urlText text ++ 0 :: rest) ∧
      (found = false → cstr (after.take capacity) = [])) R := by
  rw [updateEncodeRun]
  by_cases hzero : capacity = 0
  · rw [if_pos hzero, post_pure, hzero]
    exact ⟨rfl, rfl, iff_of_false Bool.false_ne_true (Nat.not_lt_zero _), nofun, fun _ => rfl⟩
  rw [if_neg hzero, post_bind, post_encodePut]
  refine ⟨Nat.pos_of_ne_zero hzero, ?_⟩
  have hlength : (output.set 0 0).length = output.length := List.length_set
  have hloop : Post (updateEncodeLoop capacity text 0) (output.set 0 0) (EncodeEnd capacity [] text (output.set 0 0)) R :=
    post_updateEncodeLoop [] (hcapacity.trans_eq hlength.symm) (Nat.pos_of_ne_zero hzero)
  refine hloop.imp (fun found after h => ?_) fun _ _ h => h
  refine ⟨h.length.trans hlength, ?_, ?_, h.written, fun hfound => ?_⟩
  · rw [h.behind, List.drop_set_of_lt (Nat.pos_of_ne_zero hzero)]
  · rw [h.fits, List.length_nil, Nat.zero_add]
  · have hfirst := h.empty hfound
    obtain ⟨room, rfl⟩ := Nat.exists_eq_succ_of_ne_zero hzero
    cases after with
    | nil => rfl
    | cons c rest =>
      obtain rfl : c = 0 := hfirst
      rfl

end

/-! ## The decoder -/

section

variable {whole left more done : Bytes} {buffer : RtBuffer} {R : Empty → RtBuffer → Prop}

theorem post_rtByte {i : ℕ} {Q : UInt8 → RtBuffer → Prop} :
    Post (rtByte i) buffer Q R ↔ i < buffer.text.length ∧ Q (buffer.text.at' i) buffer := by
  rw [rtByte, post_bind, post_get, post_bind, post_check, post_pure]

theorem post_rtPut {b : UInt8} {Q : Unit → RtBuffer → Prop} : Post (rtPut b) buffer Q R ↔
    buffer.output < buffer.text.length ∧ Q () { buffer with text := buffer.text.set buffer.output b } := by
  rw [rtPut, post_bind, post_get, post_bind, post_check, post_modify]

/-- The `%XX` at a position that the NUL is still behind. -/
theorem post_rtTriplet {ch : UInt8} {i : ℕ} {Q : Option UInt8 → RtBuffer → Prop}
    (h : buffer.text.drop i = ch :: (left ++ 0 :: more)) :
    Post (rtTriplet ch i) buffer Q R ↔ Q (Percent.triplet (ch :: left)) buffer := by
  have hlength := congrArg List.length h
  rw [List.length_drop, List.length_cons, List.length_append, List.length_cons] at hlength
  have hat (k : ℕ) : buffer.text.at' (i + k) = at' (ch :: (left ++ 0 :: more)) k := by rw [← h, at'_drop]
  rw [rtTriplet]
  by_cases hch : ch = 37
  swap
  · rw [if_pos hch, post_pure, Percent.triplet_of_ne hch]
  rw [if_neg (not_not.2 hch), post_bind, post_rtByte, and_iff_right (by omega), hat, hch]
  have hpair (h l : UInt8) (rest : Bytes) : Percent.triplet (37 :: h :: l :: rest) =
      (rtHex h).bind fun h => (rtHex l).bind fun l => some ((h <<< 4) ||| l) := rfl
  -- the NUL is no digit, so no read goes past it
  cases left with
  | nil => exact post_pure
  | cons high rest =>
    rw [List.length_cons] at hlength
    have hone : at' (37 :: (high :: rest ++ 0 :: more)) 1 = high := rfl
    rw [hone]
    cases hhigh : rtHex high with
    | none =>
      have hnone : Percent.triplet (37 :: high :: rest) = none := by
        cases rest with
        | nil => rfl
        | cons low rest => rw [hpair, hhigh, Option.bind_none]
      rw [hnone]
      exact post_pure
    | some value =>
      change Post (rtByte (i + 2) >>= _) _ _ _ ↔ _
      rw [post_bind, post_rtByte, and_iff_right (by omega), hat, hch]
      cases rest with
      | nil => exact post_pure
      | cons low rest =>
        have htwo : at' (37 :: (high :: low :: rest ++ 0 :: more)) 2 = low := rfl
        rw [htwo, hpair, hhigh, Option.bind_some]
        cases rtHex low with
        | none => exact post_pure
        | some value' => exact post_pure

/-- What the loop keeps of the buffer: a front that is decoded, the rest of the buffer behind it
as it was, and what is left of the text, which the reading position is at. -/
structure RtHeld (whole more done : Bytes) (buffer : RtBuffer) (front left : Bytes) : Prop where
  text : buffer.text = front ++ whole.drop front.length
  output : buffer.output = front.length
  behind : buffer.output ≤ buffer.input
  ahead : whole.drop buffer.input = left ++ 0 :: more
  noNul : 0 ∉ left
  done : front ++ rtDecode left = done

/-- The decoder's next byte, in the words of standard decoding. -/
theorem rtDecode_next (c : UInt8) (rest : Bytes) : rtDecode (c :: rest) =
    [(Percent.triplet (c :: rest)).getD c].filter rtKeeps ++ rtDecode ((c :: rest).drop (Percent.width (c :: rest))) := by
  rw [rtDecode_percent, rtDecode_percent, Percent.decode_next, ← List.filter_append]
  rfl

/-- **One turn of the decoder.** -/
theorem post_rtDecodeTurn {front : Bytes} (h : RtHeld whole more done buffer front left) :
    Post (rtDecodeTurn ()) buffer (fun turn after => turn.elim
      (fun _ => (∃ front left, RtHeld whole more done after front left) ∧
        after.text.length - after.input < buffer.text.length - buffer.input)
      fun _ => after.text = done ++ 0 :: whole.drop (done.length + 1)) R := by
  have hahead := congrArg List.length h.ahead
  rw [List.length_drop, List.length_append, List.length_cons] at hahead
  have hbehind := h.behind
  have houtput := h.output
  have hlength : buffer.text.length = whole.length := by
    rw [h.text, List.length_append, List.length_drop]
    omega
  -- what is written stays behind the reading position, so the rest is as it was
  have hsame : buffer.text.drop buffer.input = left ++ 0 :: more := by
    rw [h.text, drop_behind _ _ (by omega), h.ahead]
  have hput (b : UInt8) : buffer.text.set buffer.output b = (front ++ [b]) ++ whole.drop (front.length + 1) := by
    rw [h.text, houtput, set_behind _ _ _ (by omega)]
  have hat : buffer.text.at' buffer.input = at' (left ++ 0 :: more) 0 := by
    rw [← hsame, at'_drop, Nat.add_zero]
  rw [rtDecodeTurn, post_bind, post_get, post_bind, post_rtByte, and_iff_right (by omega), hat]
  cases left with
  | nil =>
    have hdone := h.done
    rw [rtDecode, List.append_nil] at hdone
    change Post (do rtPut 0; return Sum.inr ()) _ _ _
    rw [post_bind, post_rtPut, post_pure, hput, hdone]
    exact ⟨by omega, List.append_assoc _ _ _⟩
  | cons c rest =>
    have hne : c ≠ 0 := fun hc => h.noNul (hc ▸ List.mem_cons_self)
    have hwidth := Percent.width_le (c := c) rest
    have hnext : whole.drop (buffer.input + Percent.width (c :: rest)) =
        (c :: rest).drop (Percent.width (c :: rest)) ++ 0 :: more := by
      rw [← List.drop_drop, h.ahead, List.drop_append_of_le_length hwidth]
    have hpos : 0 < Percent.width (c :: rest) := by
      rw [Percent.width]
      split <;> decide
    have hzero : 0 ∉ (c :: rest).drop (Percent.width (c :: rest)) := fun hmem => h.noNul (List.mem_of_mem_drop hmem)
    have hdone := h.done
    rw [rtDecode_next] at hdone
    have hfirst : at' (c :: rest ++ 0 :: more) 0 = c := rfl
    rw [hfirst, if_neg hne, post_bind, post_rtTriplet hsame, post_bind, post_modify]
    change Post _ { buffer with input := buffer.input + Percent.width (c :: rest) } _ _
    by_cases hkeep : rtKeeps ((Percent.triplet (c :: rest)).getD c) = true
    · rw [List.filter_cons_of_pos hkeep, List.filter_nil] at hdone
      rw [hkeep, Bool.not_true, if_neg Bool.false_ne_true, post_bind, post_rtPut, post_bind, post_modify, post_pure]
      refine ⟨?_, ⟨front ++ [(Percent.triplet (c :: rest)).getD c], _, ?_, ?_, ?_, hnext, hzero, ?_⟩, ?_⟩
      · change buffer.output < buffer.text.length
        omega
      · change buffer.text.set buffer.output _ = _
        rw [hput, List.length_append]
        rfl
      · change buffer.output + 1 = _
        rw [List.length_append, houtput]
        rfl
      · change buffer.output + 1 ≤ buffer.input + _
        omega
      · rw [List.append_assoc, hdone]
      · change (buffer.text.set buffer.output _).length - (buffer.input + _) < _
        rw [List.length_set]
        omega
    · rw [List.filter_cons_of_neg hkeep, List.filter_nil, List.nil_append] at hdone
      rw [Bool.eq_false_of_not_eq_true hkeep, Bool.not_false, if_pos rfl, post_pure]
      exact ⟨⟨front, _, h.text, h.output, h.behind.trans (Nat.le_add_right _ _), hnext, hzero, hdone⟩, by
        change buffer.text.length - (buffer.input + _) < buffer.text.length - buffer.input
        omega⟩

/-- **The decoder in place**: the decoded text and a NUL, and what was behind them. -/
theorem post_rtDecodeRun {text : Bytes} (hzero : 0 ∉ text) (h : buffer.text = text ++ 0 :: more) :
    Post rtDecodeRun buffer
      (fun _ after => after.text = rtDecode text ++ 0 :: buffer.text.drop ((rtDecode text).length + 1)) R := by
  rw [rtDecodeRun, post_bind, post_modify]
  refine post_loop (I := fun _ after => ∃ front left, RtHeld buffer.text more (rtDecode text) after front left) ?_
    ⟨[], text, rfl, rfl, le_rfl, h, hzero, rfl⟩
  rintro ⟨⟩ after ⟨front, left, hheld⟩
  refine (post_rtDecodeTurn hheld).imp ?_ fun _ _ h => h
  rintro (⟨⟩ | ⟨⟩) next hnext
  · exact hnext
  · exact hnext

end

/-! ## There and back -/

/-- A control character of ASCII. -/
def isControl (b : UInt8) : Bool := b < 32 || b == 127

theorem urlText_mem {text : Bytes} {c : UInt8} (h : c ∈ urlText text) : isUnreserved c = true ∨ c = 37 := by
  rcases (Percent.encoded_encode isUnreserved text).mem h with hkeep | hpercent | ⟨hlow, hhigh⟩ | ⟨hlow, hhigh⟩
  · exact Or.inl hkeep
  · exact Or.inr hpercent
  · exact Or.inl (by rw [isUnreserved, decide_eq_true hlow, decide_eq_true hhigh]; simp)
  · have hhigh' : c ≤ 90 := UInt8.le_trans hhigh (by decide)
    exact Or.inl (by rw [isUnreserved, decide_eq_true hlow, decide_eq_true hhigh']; simp)

theorem rtDecode_noNul (text : Bytes) : 0 ∉ rtDecode text := by
  rw [rtDecode_percent, List.mem_filter]
  exact fun h => Bool.false_ne_true h.2

/-- **Encoding and decoding.** The encoder writes the percent encoding where it and its NUL fit, and
else an empty text, never behind the capacity; what it writes has unreserved bytes and `%XX` only,
standard decoding gives the text back, and so does the agent's decoder, in place, but for what that
does not keep. -/
theorem urlEncode_roundTrip (text output : Bytes) (capacity : ℕ) (hcapacity : capacity ≤ output.length) :
    ∃ found after, updateEncodeRun text capacity output = some (.ok found, after) ∧
      after.length = output.length ∧ after.drop capacity = output.drop capacity ∧
      (found = false ↔ capacity < (Percent.encode isUnreserved text).length + 1) ∧
      (found = false → cstr (after.take capacity) = []) ∧
      (found = true → Percent.Encoded isUnreserved (cstr after) ∧ (∀ c ∈ cstr after, isUnreserved c = true ∨ c = 37) ∧
        Percent.decode (cstr after) = text ∧
        ∀ input out, ∃ buffer, rtDecodeRun ⟨after, input, out⟩ = some (.ok (), buffer) ∧
          buffer.text.length = after.length ∧ cstr buffer.text = text.filter rtKeeps) := by
  have hpost : Post (updateEncodeRun text capacity) output _ fun _ _ => False := post_updateEncodeRun hcapacity
  obtain ⟨r, after, hrun, hend⟩ := hpost.run
  rcases r with e | found
  · exact e.elim
  obtain ⟨hlength, hbehind, hfits, hwritten, hempty⟩ := hend
  refine ⟨found, after, hrun, hlength, hbehind, ?_, hempty, fun hfound => ?_⟩
  · rw [← Bool.not_eq_true, hfits, not_lt]
    exact Nat.lt_succ_iff.symm
  obtain ⟨rest, rfl⟩ := hwritten hfound
  have hzero : 0 ∉ urlText text := fun h => (urlText_mem h).elim (by decide) (by decide)
  have hdecoded : Percent.decode (urlText text) = text := Percent.decode_encode percent_reserved text
  rw [cstr_append hzero]
  refine ⟨Percent.encoded_encode _ _, fun c hc => urlText_mem hc, hdecoded, fun input out => ?_⟩
  have hpost : Post rtDecodeRun ⟨urlText text ++ 0 :: rest, input, out⟩ _ fun _ _ => False := post_rtDecodeRun hzero rfl
  obtain ⟨r, buffer, hrun', hend⟩ := hpost.run
  rcases r with e | ⟨⟩
  · exact e.elim
  have hshort : (rtDecode (urlText text)).length ≤ (urlText text).length := by
    rw [rtDecode_percent, hdecoded]
    exact (List.length_filter_le _ _).trans (Percent.length_le_encode _ _)
  refine ⟨buffer, hrun', ?_, ?_⟩
  · rw [show buffer.text = _ from hend, List.length_append, List.length_cons, List.length_drop,
      List.length_append, List.length_cons]
    omega
  · rw [show buffer.text = _ from hend, cstr_append (rtDecode_noNul _), rtDecode_percent, hdecoded]

/-- A blank and an LF, there and back in ten bytes. -/
theorem urlEncode_roundTrip_demo :
    let text := ascii "a \n"
    ∃ found after, updateEncodeRun text 10 (List.replicate 10 255) = some (.ok found, after) ∧
      after.length = (List.replicate 10 (255 : UInt8)).length ∧ after.drop 10 = (List.replicate 10 (255 : UInt8)).drop 10 ∧
      (found = false ↔ 10 < (Percent.encode isUnreserved text).length + 1) ∧
      (found = false → cstr (after.take 10) = []) ∧
      (found = true → Percent.Encoded isUnreserved (cstr after) ∧ (∀ c ∈ cstr after, isUnreserved c = true ∨ c = 37) ∧
        Percent.decode (cstr after) = text ∧
        ∀ input out, ∃ buffer, rtDecodeRun ⟨after, input, out⟩ = some (.ok (), buffer) ∧
          buffer.text.length = after.length ∧ cstr buffer.text = text.filter rtKeeps) :=
  urlEncode_roundTrip (ascii "a \n") (List.replicate 10 255) 10 (by decide)

/-- DEL is a control character, and it comes back. -/
theorem urlEncode_del : ¬∀ text output capacity after buffer, capacity ≤ output.length →
    updateEncodeRun text capacity output = some (.ok true, after) → rtDecodeRun ⟨after, 0, 0⟩ = some (.ok (), buffer) →
      cstr buffer.text = text.filter fun b => !isControl b || b == 13 || b == 10 || b == 9 := by
  intro h
  have hencode : updateEncodeRun [127] 4 [255, 255, 255, 255] = some (.ok true, [37, 55, 70, 0]) := by decide
  have hdecode : rtDecodeRun ⟨[37, 55, 70, 0], 0, 0⟩ = some (.ok (), ⟨[127, 0, 70, 0], 3, 1⟩) := by decide +kernel
  exact absurd (h _ _ _ _ _ (by decide) hencode hdecode) (by decide)

end V9xRemote
