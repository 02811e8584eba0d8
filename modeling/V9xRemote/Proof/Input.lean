import Mathlib.Algebra.Order.Ring.Int
import V9xRemote.Lib.Cursor
import V9xRemote.Spec.Input

/-!
# Validating and applying input

`InputRecord` is a record as it stands in a payload. Validation and application both walk over
the records that are there: validation asks for more of their fields, and what application
injects is what each record says.
-/

namespace V9xRemote

open Bytes Cursor Checked

/-! ## Records -/

def InputOp.code : InputOp → UInt8
  | .mouseMove => 1
  | .mouseButton => 2
  | .mouseWheel => 3
  | .key => 4
  | .type => 5
  | .delay => 6
  | .mouseMoveRelative => 7

/-- How many bytes of fields follow an opcode. -/
def InputOp.width (op : InputOp) (fields : Bytes) : ℕ :=
  match op with
  | .mouseMove | .mouseMoveRelative => 8
  | .type => 2 + (fields.readU16 0).toNat
  | _ => 2

/-- A record with all its fields. -/
structure InputRecord where
  op : InputOp
  fields : Bytes
  complete : fields.length = op.width fields

def InputRecord.bytes (r : InputRecord) : Bytes := r.op.code :: r.fields

/-- What the fields behind an opcode may be. -/
def InputOp.InRange (op : InputOp) (fields : Bytes) : Prop :=
  match op with
  | .mouseButton => fields.at' 0 ≤ 2 ∧ fields.at' 1 ≤ 1
  | .key => fields.at' 0 ≠ 0 ∧ fields.at' 1 ≤ 1
  | .delay => (fields.readU16 0).toNat ≤ 10000
  | _ => True

instance (op : InputOp) (fields : Bytes) : Decidable (op.InRange fields) := by
  unfold InputOp.InRange
  split <;> infer_instance

/-- What they say. -/
def InputOp.events (keys : InputKeys) (op : InputOp) (fields : Bytes) : List InputEvent :=
  match op with
  | .mouseMove => [.cursor (inputReadS32 fields 0) (inputReadS32 fields 4)]
  | .mouseMoveRelative => inputMouseRelative (inputReadS32 fields 0) (inputReadS32 fields 4)
  | .mouseButton => inputMouseButton (fields.at' 0) (fields.at' 1)
  | .mouseWheel => [.mouse mouseEventWheel 0 0 (Int32.ofInt (inputReadS16 fields 0 * wheelDelta)).toUInt32]
  | .key => inputKey keys (fields.at' 0) (fields.at' 1)
  | .type => ((fields.drop 2).take (fields.readU16 0).toNat).flatMap (inputTypeChar keys)
  | .delay => [.sleep (fields.readU16 0).toUInt32]

def InputRecord.InRange (r : InputRecord) : Prop := r.op.InRange r.fields

def InputRecord.events (keys : InputKeys) (r : InputRecord) : List InputEvent := r.op.events keys r.fields

/-- A payload is its count and these records. -/
def InputPayload (payload : Bytes) (records : List InputRecord) : Prop :=
  ∃ front : Bytes, front.length = 2 ∧ payload = front ++ records.flatMap InputRecord.bytes

section

variable {payload rest : Bytes} {offset count : ℕ} {op : InputOp} {r : InputRecord} {keys : InputKeys}

theorem ofByte_code (op : InputOp) : InputOp.ofByte op.code = some op := by cases op <;> rfl

theorem code_ofByte {c : UInt8} (h : InputOp.ofByte c = some op) : op.code = c := by
  unfold InputOp.ofByte at h
  split_ifs at h with h1 h2 h3 h4 h5 h6 h7 <;> cases h
  · exact h1.symm
  · exact h2.symm
  · exact h3.symm
  · exact h4.symm
  · exact h5.symm
  · exact h6.symm
  · exact h7.symm

/-- The width is in the fields alone. -/
theorem width_take (h : op.width rest ≤ rest.length) :
    (rest.take (op.width rest)).length = op.width (rest.take (op.width rest)) := by
  rw [List.length_take, Nat.min_eq_left h]
  cases op with
  | type =>
    change 2 + (rest.readU16 0).toNat = 2 + (readU16 (rest.take (2 + (rest.readU16 0).toNat)) 0).toNat
    rw [readU16_take (by omega)]
  | _ => rfl

theorem width_append (r : InputRecord) (rest : Bytes) : r.op.width (r.fields ++ rest) = r.fields.length := by
  obtain ⟨op, fields, hcomplete⟩ := r
  change op.width (fields ++ rest) = fields.length
  cases op with
  | type =>
    have hread : (fields ++ rest).readU16 0 = fields.readU16 0 := by
      have htake := readU16_take (s := fields ++ rest) (n := fields.length) (i := 0)
        (by rw [hcomplete]; exact Nat.le_add_right 2 _)
      rw [List.take_left] at htake
      exact htake.symm
    rw [hcomplete]
    change 2 + ((fields ++ rest).readU16 0).toNat = 2 + (fields.readU16 0).toNat
    rw [hread]
  | _ => exact hcomplete.symm

/-- The record that a text of fields starts with, if all of it is there. -/
def InputRecord.front (op : InputOp) (fields : Bytes) : Option InputRecord :=
  if h : op.width fields ≤ fields.length then some ⟨op, fields.take (op.width fields), width_take h⟩ else none

/-- The record at an offset. -/
def inputRecordAt (payload : Bytes) (offset : ℕ) : Option InputRecord :=
  (InputOp.ofByte (payload.at' offset)).bind fun op => InputRecord.front op (payload.drop (offset + 1))

theorem front_append (r : InputRecord) (rest : Bytes) : InputRecord.front r.op (r.fields ++ rest) = some r := by
  have hwidth := width_append r rest
  obtain ⟨op, fields, hcomplete⟩ := r
  change op.width (fields ++ rest) = fields.length at hwidth
  change InputRecord.front op (fields ++ rest) = _
  rw [InputRecord.front, dif_pos (by rw [hwidth, List.length_append]; omega)]
  congr 1
  rw [InputRecord.mk.injEq]
  refine ⟨rfl, ?_⟩
  rw [hwidth]
  exact List.take_left

theorem width_pos (op : InputOp) (fields : Bytes) : 0 < op.width fields := by
  cases op <;> simp only [InputOp.width] <;> omega

/-- **The record at an offset** is what the payload goes on with. -/
theorem inputRecordAt_iff : inputRecordAt payload offset = some r ↔ ∃ rest, payload.drop offset = r.bytes ++ rest := by
  rw [inputRecordAt, Option.bind_eq_some_iff]
  constructor
  · rintro ⟨op, hop, hfront⟩
    rw [InputRecord.front] at hfront
    split at hfront
    · rename_i hwidth
      obtain rfl := Option.some_inj.1 hfront
      have hlength := (width_pos op (payload.drop (offset + 1))).trans_le hwidth
      rw [List.length_drop] at hlength
      refine ⟨(payload.drop (offset + 1)).drop (op.width (payload.drop (offset + 1))), ?_⟩
      rw [InputRecord.bytes, List.cons_append, List.take_append_drop, code_ofByte hop, List.drop_eq_getElem_cons (by omega),
        Scan.at'_eq_getElem]
    · cases hfront
  · rintro ⟨rest, h⟩
    have hfirst : payload.at' offset = r.op.code := by
      rw [← Nat.add_zero offset, ← at'_drop, h]
      rfl
    have htail : payload.drop (offset + 1) = r.fields ++ rest := by
      rw [← List.drop_drop, h]
      rfl
    rw [hfirst, htail]
    exact ⟨r.op, ofByte_code r.op, front_append r rest⟩

/-- What the fields may be and what they say is in as many bytes as the record has. -/
theorem inRange_take (op : InputOp) (fields : Bytes) : op.InRange (fields.take (op.width fields)) ↔ op.InRange fields := by
  have hword : readU16 (fields.take 2) 0 = fields.readU16 0 := readU16_take (by decide)
  have hfirst : at' (fields.take 2) 0 = fields.at' 0 := at'_take (by decide)
  have hsecond : at' (fields.take 2) 1 = fields.at' 1 := at'_take (by decide)
  cases op with
  | mouseButton =>
    change at' (fields.take 2) 0 ≤ 2 ∧ at' (fields.take 2) 1 ≤ 1 ↔ _
    rw [hfirst, hsecond]
    rfl
  | key =>
    change at' (fields.take 2) 0 ≠ 0 ∧ at' (fields.take 2) 1 ≤ 1 ↔ _
    rw [hfirst, hsecond]
    rfl
  | delay =>
    change (readU16 (fields.take 2) 0).toNat ≤ 10000 ↔ _
    rw [hword]
    rfl
  | _ => exact Iff.rfl

theorem inputReadS32_take {fields : Bytes} {n i : ℕ} (h : i + 4 ≤ n) :
    inputReadS32 (fields.take n) i = inputReadS32 fields i := congrArg UInt32.toInt32 (readU32_take h)

theorem inputReadS16_take {fields : Bytes} {n : ℕ} (h : 2 ≤ n) :
    inputReadS16 (fields.take n) 0 = inputReadS16 fields 0 := by
  have hword : readU16 (fields.take n) 0 = fields.readU16 0 := readU16_take h
  rw [inputReadS16, hword, inputReadS16]

theorem events_take (keys : InputKeys) (op : InputOp) (fields : Bytes) :
    op.events keys (fields.take (op.width fields)) = op.events keys fields := by
  have hword : readU16 (fields.take 2) 0 = fields.readU16 0 := readU16_take (by decide)
  have hfirst : at' (fields.take 2) 0 = fields.at' 0 := at'_take (by decide)
  have hsecond : at' (fields.take 2) 1 = fields.at' 1 := at'_take (by decide)
  have hx : inputReadS32 (fields.take 8) 0 = inputReadS32 fields 0 := inputReadS32_take (by decide)
  have hy : inputReadS32 (fields.take 8) 4 = inputReadS32 fields 4 := inputReadS32_take (by decide)
  cases op with
  | mouseMove =>
    change [InputEvent.cursor (inputReadS32 (fields.take 8) 0) (inputReadS32 (fields.take 8) 4)] = _
    rw [hx, hy]
    rfl
  | mouseMoveRelative =>
    change inputMouseRelative (inputReadS32 (fields.take 8) 0) (inputReadS32 (fields.take 8) 4) = _
    rw [hx, hy]
    rfl
  | mouseButton =>
    change inputMouseButton (at' (fields.take 2) 0) (at' (fields.take 2) 1) = _
    rw [hfirst, hsecond]
    rfl
  | key =>
    change inputKey keys (at' (fields.take 2) 0) (at' (fields.take 2) 1) = _
    rw [hfirst, hsecond]
    rfl
  | mouseWheel =>
    have hwheel : inputReadS16 (fields.take 2) 0 = inputReadS16 fields 0 := inputReadS16_take le_rfl
    change [InputEvent.mouse mouseEventWheel 0 0 (Int32.ofInt (inputReadS16 (fields.take 2) 0 * wheelDelta)).toUInt32] = _
    rw [hwheel]
    rfl
  | delay =>
    change [InputEvent.sleep (readU16 (fields.take 2) 0).toUInt32] = _
    rw [hword]
    rfl
  | type =>
    have hlength : readU16 (fields.take (2 + (fields.readU16 0).toNat)) 0 = fields.readU16 0 := readU16_take (by omega)
    change (((fields.take (2 + (fields.readU16 0).toNat)).drop 2).take
      (readU16 (fields.take (2 + (fields.readU16 0).toNat)) 0).toNat).flatMap (inputTypeChar keys) = _
    rw [hlength, List.drop_take, Nat.add_sub_cancel_left, List.take_take, Nat.min_self]
    rfl

theorem refuse_iff {c : Prop} [Decidable c] {b : Bool} : (if c then false else b) = true ↔ ¬c ∧ b = true := by
  by_cases hc : c
  · rw [if_pos hc]
    exact iff_of_false Bool.false_ne_true fun h => h.1 hc
  · rw [if_neg hc, and_iff_right hc]

/-- A step of the validation, whatever the opcode. -/
theorem inputValidateFrom_step (hmore : offset + 1 ≤ payload.length) (hop : InputOp.ofByte (payload.at' offset) = some op) :
    inputValidateFrom payload (count + 1) offset = true ↔
      offset + 1 + op.width (payload.drop (offset + 1)) ≤ payload.length ∧ op.InRange (payload.drop (offset + 1)) ∧
        inputValidateFrom payload count (offset + 1 + op.width (payload.drop (offset + 1))) = true := by
  have hfirst : at' (payload.drop (offset + 1)) 0 = payload.at' (offset + 1) := at'_drop _ _ _
  have hsecond : at' (payload.drop (offset + 1)) 1 = payload.at' (offset + 1 + 1) := at'_drop _ _ _
  have hword : readU16 (payload.drop (offset + 1)) 0 = payload.readU16 (offset + 1) := readU16_drop _ _ _
  rw [inputValidateFrom, if_neg (not_lt.2 hmore)]
  dsimp only
  rw [hop]
  cases op with
  | mouseMove =>
    refine refuse_iff.trans (and_congr not_lt ?_)
    exact (and_iff_right trivial).symm
  | mouseMoveRelative =>
    refine refuse_iff.trans (and_congr not_lt ?_)
    exact (and_iff_right trivial).symm
  | mouseWheel =>
    refine refuse_iff.trans (and_congr not_lt ?_)
    exact (and_iff_right trivial).symm
  | mouseButton =>
    refine refuse_iff.trans (and_congr not_lt (refuse_iff.trans (and_congr_left fun _ => ?_)))
    change _ ↔ at' (payload.drop (offset + 1)) 0 ≤ 2 ∧ at' (payload.drop (offset + 1)) 1 ≤ 1
    rw [hfirst, hsecond, not_or, gt_iff_lt, gt_iff_lt, UInt8.not_lt, UInt8.not_lt]
    rfl
  | key =>
    refine refuse_iff.trans (and_congr not_lt (refuse_iff.trans (and_congr_left fun _ => ?_)))
    change _ ↔ at' (payload.drop (offset + 1)) 0 ≠ 0 ∧ at' (payload.drop (offset + 1)) 1 ≤ 1
    rw [hfirst, hsecond, not_or, gt_iff_lt, UInt8.not_lt]
  | delay =>
    refine refuse_iff.trans (and_congr not_lt (refuse_iff.trans (and_congr_left fun _ => ?_)))
    change _ ↔ (readU16 (payload.drop (offset + 1)) 0).toNat ≤ 10000
    rw [hword]
    exact not_lt
  | type =>
    -- two tests in the source, of the length and of the text; the second implies the first
    change _ ↔ offset + 1 + (2 + (readU16 (payload.drop (offset + 1)) 0).toNat) ≤ payload.length ∧ True ∧
      inputValidateFrom payload count (offset + 1 + (2 + (readU16 (payload.drop (offset + 1)) 0).toNat)) = true
    rw [hword, true_and, ← Nat.add_assoc]
    refine refuse_iff.trans ?_
    rw [refuse_iff]
    constructor
    · rintro ⟨-, htext, hrest⟩
      exact ⟨not_lt.1 htext, hrest⟩
    · rintro ⟨htext, hrest⟩
      exact ⟨by omega, not_lt.2 htext, hrest⟩

/-- The record at an offset by its opcode. -/
theorem inputRecordAt_some (hop : InputOp.ofByte (payload.at' offset) = some op)
    (hroom : offset + 1 + op.width (payload.drop (offset + 1)) ≤ payload.length) :
    ∃ r, inputRecordAt payload offset = some r ∧ r.op = op ∧
      r.fields = (payload.drop (offset + 1)).take (op.width (payload.drop (offset + 1))) ∧
      offset + r.bytes.length = offset + 1 + op.width (payload.drop (offset + 1)) := by
  have hwidth : op.width (payload.drop (offset + 1)) ≤ (payload.drop (offset + 1)).length := by
    rw [List.length_drop]
    omega
  refine ⟨⟨op, _, width_take hwidth⟩, ?_, rfl, rfl, ?_⟩
  · rw [inputRecordAt, hop, Option.bind_some, InputRecord.front, dif_pos hwidth]
  · rw [InputRecord.bytes, List.length_cons, List.length_take, Nat.min_eq_left hwidth]
    omega

theorem inputRecordAt_none (h : ∀ op, InputOp.ofByte (payload.at' offset) = some op →
    payload.length < offset + 1 + op.width (payload.drop (offset + 1))) : inputRecordAt payload offset = none := by
  rw [inputRecordAt, Option.bind_eq_none_iff]
  intro op hop
  have hlarge := h op hop
  have hpos := width_pos op (payload.drop (offset + 1))
  rw [InputRecord.front, dif_neg]
  rw [List.length_drop]
  omega

/-- **A step of the validation**: there is a record, its fields are in range, and the rest is valid. -/
theorem inputValidateFrom_next : inputValidateFrom payload (count + 1) offset = true ↔
    ∃ r, inputRecordAt payload offset = some r ∧ r.InRange ∧
      inputValidateFrom payload count (offset + r.bytes.length) = true := by
  have hrefused : (∀ op, InputOp.ofByte (payload.at' offset) = some op →
      payload.length < offset + 1 + op.width (payload.drop (offset + 1))) →
      ¬∃ r, inputRecordAt payload offset = some r ∧ r.InRange ∧
        inputValidateFrom payload count (offset + r.bytes.length) = true := by
    rintro hlarge ⟨r, hr, -⟩
    rw [inputRecordAt_none hlarge] at hr
    cases hr
  by_cases hmore : offset + 1 ≤ payload.length
  swap
  · rw [inputValidateFrom, if_pos (not_le.1 hmore)]
    exact iff_of_false Bool.false_ne_true (hrefused fun op _ => by omega)
  cases hop : InputOp.ofByte (payload.at' offset) with
  | none =>
    rw [inputValidateFrom, if_neg (not_lt.2 hmore)]
    dsimp only
    rw [hop]
    exact iff_of_false Bool.false_ne_true (hrefused fun op h => nomatch hop.symm.trans h)
  | some op =>
    rw [inputValidateFrom_step hmore hop]
    by_cases hroom : offset + 1 + op.width (payload.drop (offset + 1)) ≤ payload.length
    · obtain ⟨r, hr, hrop, hfields, hnext⟩ := inputRecordAt_some hop hroom
      have hrange : r.InRange ↔ op.InRange (payload.drop (offset + 1)) := by
        rw [InputRecord.InRange, hrop, hfields, inRange_take]
      rw [and_iff_right hroom, ← hrange, ← hnext]
      constructor
      · exact fun h => ⟨r, hr, h⟩
      · rintro ⟨r', hr', h⟩
        obtain rfl := Option.some_inj.1 (hr.symm.trans hr')
        exact h
    · refine iff_of_false (fun h => hroom h.1) (hrefused fun op' hop' => ?_)
      obtain rfl := Option.some_inj.1 (hop.symm.trans hop')
      exact not_le.1 hroom

/-! ## Application -/

theorem inputRead_run {α : Type} (payload : Bytes) (n : ℕ) (f : Unit → Checked InputRun Empty α) (run : InputRun) :
    (inputRead payload n >>= f) run = if run.offset + n ≤ payload.length then f () run else none := by
  have hread : inputRead payload n run = if run.offset + n ≤ payload.length then some (.ok (), run) else none := rfl
  change Checked.bind (inputRead payload n) f run = _
  rw [Checked.bind, hread]
  by_cases hroom : run.offset + n ≤ payload.length
  · rw [if_pos hroom, if_pos hroom]
  · rw [if_neg hroom, if_neg hroom]

theorem inputGet_run {α : Type} (f : InputRun → Checked InputRun Empty α) (run : InputRun) :
    (Checked.get >>= f) run = f run run := rfl

theorem inputInject_run {α : Type} (events : List InputEvent) (n : ℕ) (f : Unit → Checked InputRun Empty α)
    (run : InputRun) :
    (inputInject events n >>= f) run = f () ⟨run.offset + n, run.events ++ events⟩ := rfl

/-- The bytes of a text, one after the other. -/
theorem take_range (payload : Bytes) {k n : ℕ} (h : k + n ≤ payload.length) :
    (List.range n).map (fun i => payload.at' (k + i)) = (payload.drop k).take n := by
  refine List.ext_getElem ?_ fun i hi hi' => ?_
  · rw [List.length_map, List.length_range, List.length_take, List.length_drop]
    omega
  · rw [List.length_map, List.length_range] at hi
    rw [List.getElem_map, List.getElem_range, List.getElem_take, List.getElem_drop, Scan.at'_eq_getElem (by omega)]

/-- A turn of the application, whatever the opcode. -/
theorem inputApplyTurn_step (keys : InputKeys) (events : List InputEvent) (hmore : offset + 1 ≤ payload.length)
    (hop : InputOp.ofByte (payload.at' offset) = some op) : inputApplyTurn keys payload ⟨offset, events⟩ =
      if offset + 1 + op.width (payload.drop (offset + 1)) ≤ payload.length then
        some (.ok (payload.at' offset), ⟨offset + 1 + op.width (payload.drop (offset + 1)),
          events ++ op.events keys (payload.drop (offset + 1))⟩)
      else none := by
  -- the source reads at the offset, the record behind it
  have hfirst : at' (payload.drop (offset + 1)) 0 = payload.at' (offset + 1) := at'_drop _ _ _
  have hsecond : at' (payload.drop (offset + 1)) 1 = payload.at' (offset + 1 + 1) := at'_drop _ _ _
  have hword : readU16 (payload.drop (offset + 1)) 0 = payload.readU16 (offset + 1) := readU16_drop _ _ _
  have hx : inputReadS32 (payload.drop (offset + 1)) 0 = inputReadS32 payload (offset + 1) :=
    congrArg UInt32.toInt32 (readU32_drop _ _ _)
  have hy : inputReadS32 (payload.drop (offset + 1)) 4 = inputReadS32 payload (offset + 1 + 4) :=
    congrArg UInt32.toInt32 (readU32_drop _ _ _)
  rw [inputApplyTurn, inputRead_run, if_pos hmore, inputGet_run, inputInject_run]
  dsimp only
  rw [hop, List.append_nil]
  cases op with
  | mouseMove =>
    dsimp only
    rw [inputRead_run, InputOp.events, hx, hy]
    rfl
  | mouseMoveRelative =>
    dsimp only
    rw [inputRead_run, InputOp.events, hx, hy]
    rfl
  | mouseButton =>
    dsimp only
    rw [inputRead_run, InputOp.events, hfirst, hsecond]
    rfl
  | mouseWheel =>
    have hwheel : inputReadS16 (payload.drop (offset + 1)) 0 = inputReadS16 payload (offset + 1) := by
      rw [inputReadS16, hword, inputReadS16]
    dsimp only
    rw [inputRead_run, InputOp.events, hwheel]
    rfl
  | key =>
    dsimp only
    rw [inputRead_run, InputOp.events, hfirst, hsecond]
    rfl
  | delay =>
    dsimp only
    rw [inputRead_run, InputOp.events, hword]
    rfl
  | type =>
    dsimp only
    rw [inputRead_run, InputOp.events, InputOp.width, hword]
    dsimp only
    by_cases htext : offset + 1 + (2 + (payload.readU16 (offset + 1)).toNat) ≤ payload.length
    · have hbytes := take_range payload (k := offset + 1 + 2) (n := (payload.readU16 (offset + 1)).toNat) (by omega)
      rw [if_pos (by omega), inputInject_run, inputRead_run, if_pos (by dsimp only; omega), if_pos htext,
        List.drop_drop, ← hbytes,
        List.flatMap_map, List.append_nil, inputInject_run, ← Nat.add_assoc]
      rfl
    · rw [if_neg htext]
      split
      · rw [inputInject_run, inputRead_run, if_neg (by dsimp only; omega)]
      · rfl

/-- What there is of a record at an offset. -/
theorem inputRecordAt_room (h : inputRecordAt payload offset = some r) : InputOp.ofByte (payload.at' offset) = some r.op ∧
    offset + 1 + r.op.width (payload.drop (offset + 1)) ≤ payload.length := by
  by_cases hlarge : ∀ op, InputOp.ofByte (payload.at' offset) = some op →
      payload.length < offset + 1 + op.width (payload.drop (offset + 1))
  · rw [inputRecordAt_none hlarge] at h
    cases h
  · obtain ⟨op, hsmall⟩ := not_forall.1 hlarge
    obtain ⟨hop, hroom⟩ := Classical.not_imp.1 hsmall
    obtain ⟨r', hr', rfl, -, -⟩ := inputRecordAt_some hop (not_lt.1 hroom)
    obtain rfl := Option.some_inj.1 (h.symm.trans hr')
    exact ⟨hop, not_lt.1 hroom⟩

/-- **A turn of the application** on a record. -/
theorem inputApplyTurn_record (keys : InputKeys) (events : List InputEvent) (h : inputRecordAt payload offset = some r) :
    inputApplyTurn keys payload ⟨offset, events⟩ =
      some (.ok r.op.code, ⟨offset + r.bytes.length, events ++ r.events keys⟩) := by
  obtain ⟨hop, hroom⟩ := inputRecordAt_room h
  obtain ⟨r', hr', hsame, hfields, hnext⟩ := inputRecordAt_some hop hroom
  obtain rfl := Option.some_inj.1 (h.symm.trans hr')
  rw [inputApplyTurn_step keys events (by omega) hop, if_pos hroom, code_ofByte hop, hnext, InputRecord.events, hfields,
    events_take]

/-- A turn that ends with an opcode of the protocol had a record. -/
theorem inputApplyTurn_known (keys : InputKeys) {run after : InputRun} {opcode : UInt8}
    (h : inputApplyTurn keys payload run = some (.ok opcode, after)) (hop : InputOp.ofByte opcode = some op) :
    ∃ r, inputRecordAt payload run.offset = some r := by
  obtain ⟨offset, events⟩ := run
  by_cases hmore : offset + 1 ≤ payload.length
  swap
  · rw [inputApplyTurn, inputRead_run, if_neg hmore] at h
    cases h
  cases hfirst : InputOp.ofByte (payload.at' offset) with
  | none =>
    rw [inputApplyTurn, inputRead_run, if_pos hmore, inputGet_run, inputInject_run] at h
    dsimp only at h
    rw [hfirst] at h
    cases h
    rw [hfirst] at hop
    cases hop
  | some op' =>
    rw [inputApplyTurn_step keys events hmore hfirst] at h
    split at h
    · rename_i hroom
      obtain ⟨r, hr, -⟩ := inputRecordAt_some hfirst hroom
      exact ⟨r, hr⟩
    · cases h

/-- The records from an offset to the end. -/
def inputRecords (payload : Bytes) : (count offset : ℕ) → Option (List InputRecord)
  | 0, offset => if offset = payload.length then some [] else none
  | count + 1, offset => do
    let r ← inputRecordAt payload offset
    let records ← inputRecords payload count (offset + r.bytes.length)
    return r :: records

theorem inputRecords_succ {records : List InputRecord} : inputRecords payload (count + 1) offset = some records ↔
    ∃ r rest, inputRecordAt payload offset = some r ∧ inputRecords payload count (offset + r.bytes.length) = some rest ∧
      records = r :: rest := by
  rw [inputRecords, Option.bind_eq_bind, Option.bind_eq_some_iff]
  constructor
  · rintro ⟨r, hr, hrest⟩
    obtain ⟨rest, hrest, hrecords⟩ := Option.bind_eq_some_iff.1 hrest
    exact ⟨r, rest, hr, hrest, (Option.some_inj.1 hrecords).symm⟩
  · rintro ⟨r, rest, hr, hrest, rfl⟩
    exact ⟨r, hr, Option.bind_eq_some_iff.2 ⟨rest, hrest, rfl⟩⟩

/-- **The records are what the payload is made of** from the offset on. -/
theorem inputRecords_iff {records : List InputRecord} (hoffset : offset ≤ payload.length) :
    inputRecords payload count offset = some records ↔
      records.length = count ∧ payload.drop offset = records.flatMap InputRecord.bytes := by
  induction count generalizing offset records with
  | zero =>
    rw [inputRecords, List.length_eq_zero_iff]
    constructor
    · intro h
      split at h
      · rename_i hend
        obtain rfl := Option.some_inj.1 h
        exact ⟨rfl, List.drop_eq_nil_of_le hend.ge⟩
      · cases h
    · rintro ⟨rfl, hdrop⟩
      rw [if_pos]
      exact le_antisymm hoffset (List.drop_eq_nil_iff.1 hdrop)
  | succ count ih =>
    rw [inputRecords_succ]
    constructor
    · rintro ⟨r, rest, hr, hrest, rfl⟩
      obtain ⟨more, hmore⟩ := inputRecordAt_iff.1 hr
      have hat := At.next (⟨hoffset, hmore⟩ : At payload offset (r.bytes ++ more))
      obtain ⟨hlength, hdrop⟩ := (ih hat.le).1 hrest
      refine ⟨by rw [List.length_cons, hlength], ?_⟩
      rw [hmore, List.flatMap_cons, ← hdrop, hat.drop]
    · rintro ⟨hlength, hdrop⟩
      cases records with
      | nil => cases hlength
      | cons r rest =>
        rw [List.flatMap_cons] at hdrop
        have hat := At.next (⟨hoffset, hdrop⟩ : At payload offset (r.bytes ++ _))
        exact ⟨r, rest, inputRecordAt_iff.2 ⟨_, hdrop⟩, (ih hat.le).2 ⟨Nat.succ_inj.1 hlength, hat.drop⟩, rfl⟩

/-- **Validation** finds the records and looks at their fields. -/
theorem inputValidateFrom_iff : inputValidateFrom payload count offset = true ↔
    ∃ records, inputRecords payload count offset = some records ∧ ∀ r ∈ records, r.InRange := by
  induction count generalizing offset with
  | zero =>
    rw [inputValidateFrom, beq_iff_eq, inputRecords]
    constructor
    · intro hend
      exact ⟨[], if_pos hend, List.forall_mem_nil _⟩
    · rintro ⟨records, h, -⟩
      split at h
      · assumption
      · cases h
  | succ count ih =>
    rw [inputValidateFrom_next]
    constructor
    · rintro ⟨r, hr, hrange, hrest⟩
      obtain ⟨rest, hrecords, hall⟩ := ih.1 hrest
      exact ⟨r :: rest, inputRecords_succ.2 ⟨r, rest, hr, hrecords, rfl⟩, List.forall_mem_cons.2 ⟨hrange, hall⟩⟩
    · rintro ⟨records, h, hall⟩
      obtain ⟨r, rest, hr, hrecords, rfl⟩ := inputRecords_succ.1 h
      obtain ⟨hrange, hall⟩ := List.forall_mem_cons.1 hall
      exact ⟨r, hr, hrange, ih.2 ⟨rest, hrecords, hall⟩⟩

/-- **Application** goes through the records and injects what they say. -/
theorem inputApply_records (keys : InputKeys) (events : List InputEvent) {records : List InputRecord}
    (h : inputRecords payload count offset = some records) : inputApply keys payload count ⟨offset, events⟩ =
      some (.ok (records.map fun r => r.op.code),
        ⟨payload.length, events ++ records.flatMap (InputRecord.events keys)⟩) := by
  induction count generalizing offset events records with
  | zero =>
    rw [inputRecords] at h
    split at h
    · rename_i hend
      obtain rfl := Option.some_inj.1 h
      rw [hend, List.flatMap_nil, List.append_nil]
      rfl
    · cases h
  | succ count ih =>
    obtain ⟨r, rest, hr, hrest, rfl⟩ := inputRecords_succ.1 h
    rw [inputApply]
    change Checked.bind (inputApplyTurn keys payload) _ _ = _
    rw [Checked.bind, inputApplyTurn_record keys events hr]
    change Checked.bind (inputApply keys payload count) _ _ = _
    rw [Checked.bind, ih (events ++ r.events keys) hrest, List.flatMap_cons, List.append_assoc]
    rfl

/-- Where application meets no unknown opcode and comes to the end, there are the records. -/
theorem inputApply_known (keys : InputKeys) {run after : InputRun} {opcodes : List UInt8}
    (h : inputApply keys payload count run = some (.ok opcodes, after))
    (hknown : ∀ opcode ∈ opcodes, (InputOp.ofByte opcode).isSome = true) (hend : after.offset = payload.length) :
    ∃ records, inputRecords payload count run.offset = some records := by
  induction count generalizing run opcodes with
  | zero =>
    rw [inputApply] at h
    cases h
    exact ⟨[], if_pos hend⟩
  | succ count ih =>
    rw [inputApply] at h
    change Checked.bind (inputApplyTurn keys payload) _ _ = _ at h
    rw [Checked.bind] at h
    cases hturn : inputApplyTurn keys payload run with
    | none =>
      rw [hturn] at h
      cases h
    | some out =>
      obtain ⟨e | opcode, next⟩ := out
      · exact e.elim
      rw [hturn] at h
      change Checked.bind (inputApply keys payload count) _ _ = _ at h
      rw [Checked.bind] at h
      cases hrest : inputApply keys payload count next with
      | none =>
        rw [hrest] at h
        cases h
      | some out =>
        obtain ⟨e | rest, last⟩ := out
        · exact e.elim
        rw [hrest] at h
        cases h
        obtain ⟨hfirst, hothers⟩ := List.forall_mem_cons.1 hknown
        obtain ⟨op, hop⟩ := Option.isSome_iff_exists.1 hfirst
        obtain ⟨r, hr⟩ := inputApplyTurn_known keys hturn hop
        obtain ⟨records, hrecords⟩ := ih hrest hothers
        rw [inputApplyTurn_record keys run.events hr] at hturn
        cases hturn
        exact ⟨r :: records, inputRecords_succ.2 ⟨r, records, hr, hrecords, rfl⟩⟩

end

/-! ## What a record injects -/

section

variable {keys : InputKeys}

/-- Which keys are down after some events. -/
def keysDown (down : UInt8 → Bool) (events : List InputEvent) : UInt8 → Bool :=
  events.foldl (fun down event =>
    match event with
    | .key vk _ flags => Function.update down vk (flags == 0)
    | _ => down) down

/-- No key that was up is left down. -/
def KeysReleased (events : List InputEvent) : Prop := ∀ down vk, keysDown down events vk = true → down vk = true

theorem keysReleased_nil : KeysReleased [] := fun _ _ h => h

theorem KeysReleased.append {events more : List InputEvent} (h : KeysReleased events) (h' : KeysReleased more) :
    KeysReleased (events ++ more) := by
  intro down vk hdown
  rw [keysDown, List.foldl_append] at hdown
  exact h down vk (h' _ vk hdown)

/-- A key that is held around other keys, if it is held at all. -/
theorem KeysReleased.around {events : List InputEvent} (h : KeysReleased events) (keys : InputKeys) (vk : UInt8)
    (c : Prop) [Decidable c] :
    KeysReleased ((if c then inputKey keys vk 1 else []) ++ events ++ (if c then inputKey keys vk 0 else [])) := by
  by_cases hc : c
  swap
  · rw [if_neg hc, if_neg hc, List.nil_append, List.append_nil]
    exact h
  intro down vk' hdown
  rw [if_pos hc, if_pos hc, keysDown, List.foldl_append, List.foldl_append] at hdown
  change Function.update (keysDown (Function.update down vk true) events) vk false vk' = true at hdown
  by_cases hvk : vk' = vk
  · rw [hvk, Function.update_self] at hdown
    cases hdown
  · rw [Function.update_of_ne hvk] at hdown
    have hbefore := h _ vk' hdown
    rwa [Function.update_of_ne hvk] at hbefore

theorem keysReleased_press (keys : InputKeys) (vk : UInt8) : KeysReleased (inputKey keys vk 1 ++ inputKey keys vk 0) := by
  have hpress := keysReleased_nil.around keys vk True
  rwa [if_pos trivial, if_pos trivial, List.append_nil] at hpress

/-- **A typed character leaves no key down.** -/
theorem keysReleased_typeChar (keys : InputKeys) (character : UInt8) : KeysReleased (inputTypeChar keys character) := by
  rw [inputTypeChar]
  split
  · exact keysReleased_press keys vkReturn
  split
  · exact keysReleased_press keys vkTab
  dsimp only
  split
  · exact keysReleased_nil
  · -- alt around the key, control around that, shift around all
    have hheld := ((keysReleased_press keys (keys.ofChar character).toUInt16.toUInt8).around keys vkMenu
      (((keys.ofChar character).toUInt16 >>> 8).toUInt8 &&& 4 ≠ 0)).around keys vkControl
      (((keys.ofChar character).toUInt16 >>> 8).toUInt8 &&& 2 ≠ 0)
    have hall := hheld.around keys vkShift (((keys.ofChar character).toUInt16 >>> 8).toUInt8 &&& 1 ≠ 0)
    simpa only [List.append_assoc] using hall

theorem keysReleased_text (keys : InputKeys) (text : Bytes) : KeysReleased (text.flatMap (inputTypeChar keys)) := by
  induction text with
  | nil => exact keysReleased_nil
  | cons c text ih =>
    rw [List.flatMap_cons]
    exact (keysReleased_typeChar keys c).append ih

/-- A relative move of the mouse. -/
def relativeEvent (step : Int32 × Int32) : InputEvent := .mouse mouseEventMove step.1.toUInt32 step.2.toUInt32 0

/-- **Relative steps** are small and come to the whole way. -/
theorem inputMouseRelative_steps (dx dy : Int32) : ∃ steps : List (Int32 × Int32),
    inputMouseRelative dx dy = steps.map relativeEvent ∧
      (steps.map fun step => step.1.toInt).sum = dx.toInt ∧ (steps.map fun step => step.2.toInt).sum = dy.toInt ∧
      ∀ step ∈ steps, step.1.toInt.natAbs ≤ 4 ∧ step.2.toInt.natAbs ≤ 4 := by
  induction dx, dy using inputMouseRelative.induct with
  | case1 dx dy hmore ih =>
    obtain ⟨steps, hsteps, hx, hy, hsmall⟩ := ih
    refine ⟨(inputStep dx, inputStep dy) :: steps, ?_, ?_, ?_, List.forall_mem_cons.2 ⟨?_, hsmall⟩⟩
    · rw [inputMouseRelative, if_pos hmore, hsteps]
      rfl
    · rw [List.map_cons, List.sum_cons, hx, inputStep_rest]
      dsimp only
      omega
    · rw [List.map_cons, List.sum_cons, hy, inputStep_rest]
      dsimp only
      omega
    · have hstepx := inputStep_toInt dx
      have hstepy := inputStep_toInt dy
      dsimp only
      omega
  | case2 dx dy hdone =>
    obtain ⟨rfl, rfl⟩ : dx = 0 ∧ dy = 0 := by
      rw [not_or, not_not, not_not] at hdone
      exact hdone
    refine ⟨[], ?_, rfl, rfl, List.forall_mem_nil _⟩
    rw [inputMouseRelative, if_neg hdone]
    rfl

end

/-! ## The request -/

/-- Applying would go through the whole payload without an unknown or a truncated record. -/
def AppliesWhole (keys : InputKeys) (payload : Bytes) (count : ℕ) : Prop :=
  ∃ opcodes run, inputApply keys payload count ⟨2, []⟩ = some (.ok opcodes, run) ∧
    (∀ opcode ∈ opcodes, (InputOp.ofByte opcode).isSome = true) ∧ run.offset = payload.length

section

variable {payload : Bytes} {count : ℕ} {keys : InputKeys}

theorem inputRecords_le {offset : ℕ} {records : List InputRecord} (h : inputRecords payload count offset = some records) :
    offset ≤ payload.length := by
  cases count with
  | zero =>
    rw [inputRecords] at h
    split at h
    · rename_i hend
      exact hend.le
    · cases h
  | succ count =>
    obtain ⟨r, rest, hr, -⟩ := inputRecords_succ.1 h
    have hroom := (inputRecordAt_room hr).2
    omega

/-- The records of a payload are found behind its count. -/
theorem inputPayload_iff {records : List InputRecord} :
    inputRecords payload count 2 = some records ↔ records.length = count ∧ InputPayload payload records := by
  constructor
  · intro h
    have hle := inputRecords_le h
    obtain ⟨hlength, hdrop⟩ := (inputRecords_iff hle).1 h
    refine ⟨hlength, payload.take 2, by rw [List.length_take, Nat.min_eq_left hle], ?_⟩
    rw [← hdrop, List.take_append_drop]
  · rintro ⟨hlength, front, hfront, rfl⟩
    have hle : 2 ≤ (front ++ records.flatMap InputRecord.bytes).length := by
      rw [List.length_append]
      omega
    refine (inputRecords_iff hle).2 ⟨hlength, ?_⟩
    rw [← hfront]
    exact List.drop_left

theorem appliesWhole_iff : AppliesWhole keys payload count ↔ ∃ records, inputRecords payload count 2 = some records := by
  constructor
  · rintro ⟨opcodes, run, hrun, hknown, hend⟩
    exact inputApply_known keys hrun hknown hend
  · rintro ⟨records, hrecords⟩
    refine ⟨_, _, inputApply_records keys [] hrecords, fun opcode hopcode => ?_, rfl⟩
    obtain ⟨r, -, rfl⟩ := List.mem_map.1 hopcode
    rw [ofByte_code]
    rfl

/-- **Validation against application**: it accepts what application would consume, with the fields in
range. -/
theorem inputValidate_iff : inputValidate payload count = true ↔ AppliesWhole keys payload count ∧
    ∀ records, records.length = count → InputPayload payload records → ∀ r ∈ records, r.InRange := by
  rw [inputValidate, inputValidateFrom_iff, appliesWhole_iff]
  constructor
  · rintro ⟨records, h, hall⟩
    refine ⟨⟨records, h⟩, fun records' hlength hpayload => ?_⟩
    obtain rfl := Option.some_inj.1 (h.symm.trans (inputPayload_iff.2 ⟨hlength, hpayload⟩))
    exact hall
  · rintro ⟨⟨records, h⟩, hall⟩
    obtain ⟨hlength, hpayload⟩ := inputPayload_iff.1 h
    exact ⟨records, h, hall records hlength hpayload⟩

end

/-- **Input validates and then applies.** A request is accepted when applying it would use up the
payload without an unknown or a truncated record and the fields are in range; a refused one injects
nothing, an accepted one what its records say: the steps of a relative move are at most 4 and come to
the whole of it, and a text leaves no key down. -/
theorem handleInput_exact (keys : InputKeys) (cursor : List InputEvent → Option (UInt32 × UInt32)) (payload : Bytes) :
    (∀ count, inputValidate payload count = true ↔ AppliesWhole keys payload count ∧
      ∀ records, records.length = count → InputPayload payload records → ∀ r ∈ records, r.InRange) ∧
    ∃ reply events, handleInput keys cursor payload = some (reply, events) ∧
      (¬(2 ≤ payload.length ∧ (payload.readU16 0).toNat ≤ 256 ∧ inputValidate payload (payload.readU16 0).toNat = true) →
        events = []) ∧
      (2 ≤ payload.length ∧ (payload.readU16 0).toNat ≤ 256 ∧ inputValidate payload (payload.readU16 0).toNat = true →
        ∃ records, records.length = (payload.readU16 0).toNat ∧ InputPayload payload records ∧
          events = records.flatMap (InputRecord.events keys) ∧
          ∀ r ∈ records,
            (r.op = .mouseMoveRelative → ∃ steps : List (Int32 × Int32), r.events keys = steps.map relativeEvent ∧
              (steps.map fun step => step.1.toInt).sum = (inputReadS32 r.fields 0).toInt ∧
              (steps.map fun step => step.2.toInt).sum = (inputReadS32 r.fields 4).toInt ∧
              ∀ step ∈ steps, step.1.toInt.natAbs ≤ 4 ∧ step.2.toInt.natAbs ≤ 4) ∧
            (r.op = .type → KeysReleased (r.events keys))) := by
  refine ⟨fun count => inputValidate_iff, ?_⟩
  rw [handleInput]
  by_cases hshort : payload.length < 2
  · exact ⟨_, [], if_pos hshort, fun _ => rfl, fun h => absurd h.1 (not_le.2 hshort)⟩
  rw [if_neg hshort]
  dsimp only
  by_cases hmany : (payload.readU16 0).toNat > inputMaxActions
  · exact ⟨_, [], if_pos hmany, fun _ => rfl, fun h => absurd h.2.1 (not_le.2 hmany)⟩
  rw [if_neg hmany]
  cases hvalid : inputValidate payload (payload.readU16 0).toNat with
  | false => exact ⟨_, [], rfl, fun _ => rfl, fun h => nomatch h.2.2⟩
  | true =>
    obtain ⟨records, hrecords, -⟩ := inputValidateFrom_iff.1 hvalid
    obtain ⟨hlength, hpayload⟩ := inputPayload_iff.1 hrecords
    rw [inputApply_records keys [] hrecords]
    refine ⟨_, _, rfl, fun h => absurd ⟨not_lt.1 hshort, not_lt.1 hmany, rfl⟩ h,
      fun _ => ⟨records, hlength, hpayload, rfl, fun r _ => ⟨fun hop => ?_, fun hop => ?_⟩⟩⟩
    · rw [InputRecord.events, hop]
      exact inputMouseRelative_steps _ _
    · rw [InputRecord.events, hop]
      exact keysReleased_text keys _

/-- A button that does not exist is a whole record, and it is refused. -/
theorem inputValidate_button :
    ¬∀ keys payload count, inputValidate payload count = true ↔ AppliesWhole keys payload count := by
  intro h
  have hwhole : AppliesWhole ⟨fun _ => 0, fun _ => 0⟩ [1, 0, 2, 5, 1] 1 :=
    ⟨[2], ⟨5, [.mouse mouseEventMiddleDown 0 0 0]⟩, rfl, List.all_eq_true.1 (by decide), rfl⟩
  exact absurd ((h _ _ _).2 hwhole) (by decide)

end V9xRemote
