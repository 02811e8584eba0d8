import V9xRemote.Lib.Budget
import V9xRemote.Spec.Inventory
import V9xRemote.Proof.Lists

/-!
# The inventory decodes to whole records

The writer keeps the records that are complete in front of its offset. One that does not
fit is undone by the offset alone: what it had written lies behind, and nobody reads it.
The records that stay are those before the first one that finds too little room.
-/

namespace V9xRemote

open Bytes Cursor Segments Budget

/-! ## Records on the wire -/

def invFieldBytes (field : Bytes × Bytes) : Bytes := stringField field.1 ++ stringField field.2

def invRecordBytes (record : InvRecord) : Bytes :=
  stringField record.1 ++ (writeU16 (UInt16.ofNat record.2.length) ++ record.2.flatMap invFieldBytes)

/-- The room a record asks for. -/
def recordNeed (record : InvRecord) : ℕ := (invRecordBytes record).length

/-- The room a record keeps: one without fields is taken back. -/
def recordKeep (record : InvRecord) : ℕ := if record.2.isEmpty then 0 else recordNeed record

/-- Where the records end. -/
def bodyEnd (kept : List InvRecord) : ℕ := 2 + (kept.flatMap invRecordBytes).length

theorem fieldBytes_length (field : Bytes × Bytes) :
    (invFieldBytes field).length = (2 + field.1.length) + (2 + field.2.length) := by
  rw [invFieldBytes, List.length_append, stringField_length, stringField_length]

theorem recordNeed_eq (type : Bytes) (fields : List (Bytes × Bytes)) :
    recordNeed (type, fields) = (2 + type.length) + 2 + (fields.flatMap invFieldBytes).length := by
  have hcount : (writeU16 (UInt16.ofNat fields.length)).length = 2 := rfl
  rw [recordNeed, invRecordBytes, List.length_append, List.length_append, stringField_length, hcount]
  dsimp only
  omega

/-- A further field asks for its own room. -/
theorem recordNeed_append (type : Bytes) (fields more : List (Bytes × Bytes)) :
    recordNeed (type, fields ++ more) = recordNeed (type, fields) + (more.flatMap invFieldBytes).length := by
  rw [recordNeed_eq, recordNeed_eq, List.flatMap_append, List.length_append]
  omega

theorem nonEmpty_cons (record : InvRecord) (records : List InvRecord) :
    nonEmpty (record :: records) = nonEmpty [record] ++ nonEmpty records := List.filter_append [record] records

theorem nonEmpty_empty (type : Bytes) : nonEmpty [(type, [])] = [] := rfl

theorem nonEmpty_fields (type : Bytes) {fields : List (Bytes × Bytes)} (h : fields ≠ []) :
    nonEmpty [(type, fields)] = [(type, fields)] := by
  rw [nonEmpty, List.filter_cons_of_pos, List.filter_nil]
  simpa using h

/-- What the records keep is what they are on the wire. -/
theorem bodyEnd_append (kept : List InvRecord) (records : List InvRecord) :
    bodyEnd (kept ++ nonEmpty records) = bodyEnd kept + (records.map recordKeep).sum := by
  induction records generalizing kept with
  | nil =>
    rw [List.map_nil, List.sum_nil]
    exact congrArg bodyEnd (List.append_nil _)
  | cons record records ih =>
    obtain ⟨type, fields⟩ := record
    rw [nonEmpty_cons, ← List.append_assoc, ih, List.map_cons, List.sum_cons]
    by_cases hfields : fields = []
    · subst hfields
      have hkeep : recordKeep (type, []) = 0 := rfl
      rw [nonEmpty_empty, List.append_nil, hkeep, Nat.zero_add]
    · have hkeep : recordKeep (type, fields) = (invRecordBytes (type, fields)).length :=
        if_neg (by simpa using hfields)
      rw [nonEmpty_fields type hfields, hkeep, bodyEnd, List.flatMap_append, List.length_append, List.flatMap_singleton,
        bodyEnd]
      omega

/-! ## The writer's memory -/

theorem spare_small (spare : ℕ) : listResponseSize - spare ≤ 65536 := by
  unfold listResponseSize
  omega

/-- A text is appended whole or not at all. -/
theorem appendStringAt_eq {capacity : ℕ} (hcapacity : capacity ≤ 65536) (memory : Bytes) (offset : ℕ) (text : Bytes) :
    appendStringAt capacity memory offset text =
      if offset + (2 + text.length) ≤ capacity then
        some (write memory offset (stringField text), offset + (2 + text.length))
      else none := by
  unfold appendStringAt
  dsimp only
  by_cases hfits : offset + (2 + text.length) ≤ capacity
  · have hmin : min text.length 65535 = text.length := by omega
    rw [hmin, if_neg (by omega), if_pos hfits, List.take_length, Nat.add_assoc]
    rfl
  · rw [if_pos (by omega), if_neg hfits]

/-- The records are in place, and nothing behind the buffer has changed. -/
structure Stored (store memory : Bytes) (kept : List InvRecord) : Prop where
  size : store.length = memory.length
  behind : store.drop listResponseSize = memory.drop listResponseSize
  stands : Stands store 2 (kept.flatMap invRecordBytes)

section

variable {store memory cells : Bytes} {kept : List InvRecord} {offset : ℕ}

theorem Stored.write (h : Stored store memory kept) (hmemory : listResponseSize ≤ memory.length)
    (hlow : bodyEnd kept ≤ offset) (hhigh : offset + cells.length ≤ listResponseSize) : Stored (write store offset cells) memory kept := by
  have hroom : offset + cells.length ≤ store.length := by
    rw [h.size]
    omega
  constructor
  · rw [write_length hroom, h.size]
  · rw [drop_write hroom hhigh, h.behind]
  · exact h.stands.write hroom (Or.inl hlow)

end

/-- Between records. -/
structure InvClosed (writer : InvWriter) (memory : Bytes) (spare : ℕ) (kept : List InvRecord) : Prop where
  capacity : writer.capacity = listResponseSize
  reserve : writer.reserve = spare
  keeps : Stored writer.memory memory kept
  records : writer.records = kept.length
  outside : writer.inRecord = false
  offset : writer.offset = bodyEnd kept
  room : bodyEnd kept + spare ≤ listResponseSize

/-- In a record that has fitted so far. -/
structure InvOpened (writer : InvWriter) (memory : Bytes) (spare : ℕ) (kept : List InvRecord) (type : Bytes)
    (fields : List (Bytes × Bytes)) : Prop where
  capacity : writer.capacity = listResponseSize
  reserve : writer.reserve = spare
  keeps : Stored writer.memory memory kept
  records : writer.records = kept.length
  inside : writer.inRecord = true
  live : writer.truncated = false
  start : writer.recordStart = bodyEnd kept
  countAt : writer.countOffset = bodyEnd kept + (2 + type.length)
  count : writer.fields = fields.length
  typeStands : Stands writer.memory (bodyEnd kept) (stringField type)
  fieldsStand : Stands writer.memory (bodyEnd kept + (2 + type.length) + 2) (fields.flatMap invFieldBytes)
  offset : writer.offset = bodyEnd kept + recordNeed (type, fields)
  room : bodyEnd kept + recordNeed (type, fields) + spare ≤ listResponseSize

section

variable {writer : InvWriter} {memory : Bytes} {spare : ℕ} {kept : List InvRecord} {type : Bytes}
  {fields : List (Bytes × Bytes)}

/-- A record undone leaves what stood before it. -/
theorem rollback_closed {writer' : InvWriter} (h : Stored writer'.memory memory kept)
    (hcapacity : writer'.capacity = listResponseSize)
    (hreserve : writer'.reserve = spare) (hrecords : writer'.records = kept.length)
    (hstart : writer'.recordStart = bodyEnd kept) (hroom : bodyEnd kept + spare ≤ listResponseSize) :
    InvClosed writer'.rollback memory spare kept :=
  ⟨hcapacity, hreserve, h, hrecords, rfl, hstart, hroom⟩

/-- **A record begins** where its type and its count fit. -/
theorem invBegin_fits (hmemory : listResponseSize ≤ memory.length) (h : InvClosed writer memory spare kept)
    (hlive : writer.truncated = false) (name : InvName)
    (hfits : bodyEnd kept + recordNeed (name.text, []) + spare ≤ listResponseSize) :
    InvOpened (writer.invBegin name) memory spare kept name.text [] := by
  have hneed := recordNeed_eq name.text []
  rw [List.flatMap_nil, List.length_nil] at hneed
  have happend := appendStringAt_eq (spare_small spare) writer.memory (bodyEnd kept) name.text
  rw [if_pos (by omega)] at happend
  have hsize := stringField_length name.text
  have hstore : bodyEnd kept + (stringField name.text).length ≤ writer.memory.length := by
    rw [h.keeps.size]
    omega
  have hresult : writer.invBegin name =
      { writer with
        recordStart := bodyEnd kept
        memory := write writer.memory (bodyEnd kept) (stringField name.text)
        countOffset := bodyEnd kept + (2 + name.text.length)
        offset := bodyEnd kept + (2 + name.text.length) + 2
        fields := 0
        inRecord := true } := by
    simp only [InvWriter.invBegin, InvWriter.limit, hlive, h.capacity, h.reserve, h.offset, happend]
    rw [if_neg (by decide), if_neg (by omega)]
  rw [hresult]
  exact {
    capacity := h.capacity
    reserve := h.reserve
    keeps := h.keeps.write hmemory le_rfl (by omega)
    records := h.records
    inside := rfl
    live := hlive
    start := rfl
    countAt := rfl
    count := rfl
    typeStands := stands_write hstore
    fieldsStand := stands_nil
    offset := by
      rw [hneed]
      dsimp only
      omega
    room := hfits }

/-- A record that cannot begin leaves the writer as it was, but for its mark. -/
theorem invBegin_full (hmemory : listResponseSize ≤ memory.length) (h : InvClosed writer memory spare kept)
    (hlive : writer.truncated = false) (name : InvName)
    (hfull : listResponseSize < bodyEnd kept + recordNeed (name.text, []) + spare) :
    InvClosed (writer.invBegin name) memory spare kept ∧ (writer.invBegin name).truncated = true := by
  have hneed := recordNeed_eq name.text []
  rw [List.flatMap_nil, List.length_nil] at hneed
  have hroom := h.room
  have happend := appendStringAt_eq (spare_small spare) writer.memory (bodyEnd kept) name.text
  have hsize := stringField_length name.text
  simp only [InvWriter.invBegin, InvWriter.limit, hlive, h.capacity, h.reserve, h.offset, happend]
  rw [if_neg (by decide)]
  by_cases htype : bodyEnd kept + (2 + name.text.length) ≤ listResponseSize - spare
  · -- the type is written, its count has no room
    rw [if_pos htype]
    dsimp only
    rw [if_pos (by omega)]
    exact ⟨rollback_closed (h.keeps.write hmemory le_rfl (by omega)) rfl rfl h.records rfl hroom, rfl⟩
  · rw [if_neg htype]
    exact ⟨rollback_closed h.keeps rfl rfl h.records rfl hroom, rfl⟩

/-- **A field is added** where both its texts fit. -/
theorem invField_fits (hmemory : listResponseSize ≤ memory.length) (h : InvOpened writer memory spare kept type fields)
    (key : InvName) (value : Option Bytes)
    (hfits : bodyEnd kept + recordNeed (type, fields ++ [(key.text, cleanValue value)]) + spare ≤ listResponseSize) :
    InvOpened (writer.invField key value) memory spare kept type (fields ++ [(key.text, cleanValue value)]) := by
  have hneed := recordNeed_append type fields [(key.text, cleanValue value)]
  have hbefore := recordNeed_eq type fields
  have hlength := fieldBytes_length (key.text, cleanValue value)
  rw [List.flatMap_singleton, hlength] at hneed
  dsimp only at hneed
  have hkey := appendStringAt_eq (spare_small spare) writer.memory (bodyEnd kept + recordNeed (type, fields)) key.text
  have hvalue := appendStringAt_eq (spare_small spare)
    (write writer.memory (bodyEnd kept + recordNeed (type, fields)) (stringField key.text))
    (bodyEnd kept + recordNeed (type, fields) + (2 + key.text.length)) (cleanValue value)
  rw [if_pos (by omega)] at hkey hvalue
  have hkeySize := stringField_length key.text
  have hvalueSize := stringField_length (cleanValue value)
  have hsize := h.keeps.size
  have hstoreKey : bodyEnd kept + recordNeed (type, fields) + (stringField key.text).length ≤ writer.memory.length := by
    omega
  have hkeysWritten := write_length hstoreKey
  have hstoreValue : bodyEnd kept + recordNeed (type, fields) + (2 + key.text.length) +
      (stringField (cleanValue value)).length ≤
      (write writer.memory (bodyEnd kept + recordNeed (type, fields)) (stringField key.text)).length := by
    omega
  have hresult : writer.invField key value =
      { writer with
        memory := write (write writer.memory (bodyEnd kept + recordNeed (type, fields)) (stringField key.text))
          (bodyEnd kept + recordNeed (type, fields) + (2 + key.text.length)) (stringField (cleanValue value))
        offset := bodyEnd kept + recordNeed (type, fields) + (2 + key.text.length) + (2 + (cleanValue value).length)
        fields := writer.fields + 1 } := by
    simp only [InvWriter.invField, InvWriter.limit, h.inside, h.capacity, h.reserve, h.offset, hkey, hvalue]
    rw [if_neg (by decide)]
  rw [hresult]
  exact {
    capacity := h.capacity
    reserve := h.reserve
    keeps := (h.keeps.write hmemory (by omega) (by omega)).write hmemory (by omega) (by omega)
    records := h.records
    inside := h.inside
    live := h.live
    start := h.start
    countAt := h.countAt
    count := by
      rw [List.length_append, List.length_singleton, ← h.count]
    typeStands := by
      have htypeSize := stringField_length type
      exact (h.typeStands.write hstoreKey (Or.inl (by omega))).write hstoreValue (Or.inl (by omega))
    fieldsStand := by
      rw [List.flatMap_append, stands_append, List.flatMap_singleton, invFieldBytes, stands_append]
      have hat : bodyEnd kept + (2 + type.length) + 2 + (fields.flatMap invFieldBytes).length =
          bodyEnd kept + recordNeed (type, fields) := by omega
      rw [hat, hkeySize]
      refine ⟨?_, ?_, stands_write hstoreValue⟩
      · exact (h.fieldsStand.write hstoreKey (Or.inl (by omega))).write hstoreValue (Or.inl (by omega))
      · exact (stands_write hstoreKey).write hstoreValue (Or.inl (by omega))
    offset := by
      rw [hneed]
      dsimp only
      omega
    room := hfits }

/-- A field that does not fit takes its record back, whichever of its texts it is. -/
theorem invField_full (hmemory : listResponseSize ≤ memory.length) (h : InvOpened writer memory spare kept type fields)
    (key : InvName) (value : Option Bytes)
    (hfull : listResponseSize < bodyEnd kept + recordNeed (type, fields ++ [(key.text, cleanValue value)]) + spare) :
    InvClosed (writer.invField key value) memory spare kept ∧ (writer.invField key value).truncated = true := by
  have hneed := recordNeed_append type fields [(key.text, cleanValue value)]
  have hlength := fieldBytes_length (key.text, cleanValue value)
  rw [List.flatMap_singleton, hlength] at hneed
  dsimp only at hneed
  have hroom := h.room
  have hkey := appendStringAt_eq (spare_small spare) writer.memory (bodyEnd kept + recordNeed (type, fields)) key.text
  have hvalue := appendStringAt_eq (spare_small spare)
    (write writer.memory (bodyEnd kept + recordNeed (type, fields)) (stringField key.text))
    (bodyEnd kept + recordNeed (type, fields) + (2 + key.text.length)) (cleanValue value)
  have hkeySize := stringField_length key.text
  simp only [InvWriter.invField, InvWriter.limit, h.inside, h.capacity, h.reserve, h.offset, hkey]
  rw [if_neg (by decide)]
  by_cases hfits : bodyEnd kept + recordNeed (type, fields) + (2 + key.text.length) ≤ listResponseSize - spare
  · -- the key is written, its value has no room
    rw [if_pos hfits]
    dsimp only
    rw [hvalue, if_neg (by omega)]
    exact ⟨rollback_closed (h.keeps.write hmemory (by omega) (by omega)) rfl rfl h.records h.start (by omega), rfl⟩
  · rw [if_neg hfits]
    exact ⟨rollback_closed h.keeps h.capacity h.reserve h.records h.start (by omega), rfl⟩

/-- **A record ends**: it stands whole, or was empty and is gone. -/
theorem invEnd_opened (hmemory : listResponseSize ≤ memory.length) (h : InvOpened writer memory spare kept type fields) :
    InvClosed writer.invEnd memory spare (kept ++ nonEmpty [(type, fields)]) ∧ writer.invEnd.truncated = false := by
  have hroom := h.room
  by_cases hfields : fields = []
  · subst hfields
    have hcount : writer.fields = 0 := h.count
    have hresult : writer.invEnd = { writer with offset := writer.recordStart, inRecord := false } := by
      rw [InvWriter.invEnd, h.inside, if_neg (by decide), if_pos hcount]
    rw [hresult, nonEmpty_empty, List.append_nil]
    exact ⟨⟨h.capacity, h.reserve, h.keeps, h.records, rfl, h.start, by omega⟩, h.live⟩
  · have hcount : writer.fields ≠ 0 := by
      rw [h.count]
      exact fun hzero => hfields (List.length_eq_zero_iff.1 hzero)
    have hneed := recordNeed_eq type fields
    have htypeSize := stringField_length type
    have hcells : (writeU16 (UInt16.ofNat writer.fields)).length = 2 := rfl
    have hsize := h.keeps.size
    have hstore : writer.countOffset + (writeU16 (UInt16.ofNat writer.fields)).length ≤ writer.memory.length := by
      rw [hcells, h.countAt]
      omega
    have hresult : writer.invEnd =
        { writer with
          memory := write writer.memory writer.countOffset (writeU16 (UInt16.ofNat writer.fields))
          records := writer.records + 1
          inRecord := false } := by
      simp only [InvWriter.invEnd, h.inside]
      rw [if_neg (by decide), if_neg hcount]
    have hwritten : Stored (write writer.memory writer.countOffset (writeU16 (UInt16.ofNat writer.fields))) memory kept := by
      apply h.keeps.write hmemory
      · rw [h.countAt]
        omega
      · rw [hcells, h.countAt]
        omega
    have hend : bodyEnd (kept ++ [(type, fields)]) = bodyEnd kept + recordNeed (type, fields) := by
      rw [bodyEnd, List.flatMap_append, List.length_append, List.flatMap_singleton, bodyEnd, recordNeed, Nat.add_assoc]
    rw [hresult, nonEmpty_fields type hfields]
    refine ⟨⟨h.capacity, h.reserve, ⟨hwritten.size, hwritten.behind, ?_⟩, ?_, rfl, h.offset.trans hend.symm, ?_⟩, h.live⟩
    · -- the record's three parts stand where the writer put them
      rw [List.flatMap_append, stands_append, List.flatMap_singleton, invRecordBytes, stands_append, stands_append]
      refine ⟨hwritten.stands, ?_, ?_, ?_⟩
      · exact h.typeStands.write hstore (Or.inl (by rw [h.countAt]; omega))
      · have hat : 2 + (kept.flatMap invRecordBytes).length + (stringField type).length = writer.countOffset := by
          rw [h.countAt, htypeSize, bodyEnd]
        rw [hat, ← h.count]
        exact stands_write hstore
      · have hat : 2 + (kept.flatMap invRecordBytes).length + (stringField type).length +
            (writeU16 (UInt16.ofNat fields.length)).length = bodyEnd kept + (2 + type.length) + 2 := by
          rw [htypeSize, bodyEnd]
          rfl
        rw [hat]
        exact h.fieldsStand.write hstore (Or.inr (by rw [hcells, h.countAt]))
    · rw [List.length_append, List.length_singleton, ← h.records]
    · rw [hend]
      exact hroom

end

/-! ## Runs of the writer -/

/-- Of some records, those that fit behind the ones that are kept, up to the first that does not. -/
def fitting (spare : ℕ) (kept records : List InvRecord) : List InvRecord :=
  taken recordNeed recordKeep (listResponseSize - spare) (bodyEnd kept) records

/-- One of them does not fit. -/
def refused (spare : ℕ) (kept records : List InvRecord) : Bool :=
  stopped recordNeed recordKeep (listResponseSize - spare) (bodyEnd kept) records

/-- What a run comes to, where these records were asked for. -/
structure InvOutcome (writer : InvWriter) (memory : Bytes) (spare : ℕ) (kept records : List InvRecord) : Prop where
  closed : InvClosed writer memory spare (kept ++ nonEmpty (fitting spare kept records))
  truncated : writer.truncated = refused spare kept records

section

variable {writer : InvWriter} {memory : Bytes} {spare : ℕ} {kept records : List InvRecord} {type : Bytes}
  {fields : List (Bytes × Bytes)} {ops : List InvOp}

/-- Outside a record only a begin does anything. -/
theorem invField_outside (h : writer.inRecord = false) (key : InvName) (value : Option Bytes) :
    writer.invField key value = writer := by
  rw [InvWriter.invField, h, if_pos (by decide)]

theorem invFieldOpt_outside (h : writer.inRecord = false) (key : InvName) (value : Option Bytes) :
    writer.invFieldOpt key value = writer := by
  unfold InvWriter.invFieldOpt
  split
  · rfl
  · exact invField_outside h key _

theorem invEnd_outside (h : writer.inRecord = false) : writer.invEnd = writer := by
  rw [InvWriter.invEnd, h, if_pos (by decide)]

/-- **Once a record was dropped the writer does nothing more.** -/
theorem runInvOps_truncated (hout : writer.inRecord = false) (hcut : writer.truncated = true) (ops : List InvOp) :
    runInvOps writer ops = writer := by
  induction ops with
  | nil => rfl
  | cons op ops ih =>
    have hstep : op.run writer = writer := by
      cases op with
      | begin name =>
        obtain ⟨memory, capacity, offset, records, start, countAt, fields, reserve, inRecord, truncated⟩ := writer
        dsimp only at hout hcut
        subst hout hcut
        rfl
      | field key value => exact invField_outside hout key value
      | fieldOpt key value => exact invFieldOpt_outside hout key value
      | finish => exact invEnd_outside hout
    rw [runInvOps, List.foldl_cons, hstep]
    exact ih

theorem completed_field (key : InvName) (value : Option Bytes) : completed (some (type, fields)) (.field key value :: ops) =
    completed (some (type, fields ++ (InvOp.field key value).entry.toList)) ops := rfl

theorem completed_fieldOpt (key : InvName) (value : Option Bytes) :
    completed (some (type, fields)) (.fieldOpt key value :: ops) =
      completed (some (type, fields ++ (InvOp.fieldOpt key value).entry.toList)) ops := rfl

/-- An open record is completed, with what was put into it already. -/
theorem completed_open (h : bracketed true ops = true) (type : Bytes) (fields : List (Bytes × Bytes)) :
    ∃ more rest, completed (some (type, fields)) ops = (type, fields ++ more) :: rest := by
  induction ops generalizing fields with
  | nil => cases h
  | cons op ops ih =>
    cases op with
    | begin name => cases h
    | field key value =>
      obtain ⟨more, rest, hmore⟩ := ih h (fields ++ (InvOp.field key value).entry.toList)
      exact ⟨(InvOp.field key value).entry.toList ++ more, rest, by rw [completed_field, hmore, List.append_assoc]⟩
    | fieldOpt key value =>
      obtain ⟨more, rest, hmore⟩ := ih h (fields ++ (InvOp.fieldOpt key value).entry.toList)
      exact ⟨(InvOp.fieldOpt key value).entry.toList ++ more, rest, by rw [completed_fieldOpt, hmore, List.append_assoc]⟩
    | finish => exact ⟨[], completed none ops, by rw [List.append_nil]; rfl⟩

/-- A record that does not fit ends what is written. -/
theorem InvOutcome.dropped (h : InvClosed writer memory spare kept) (hcut : writer.truncated = true)
    {more : List (Bytes × Bytes)} {rest : List InvRecord} (hrecords : records = (type, fields ++ more) :: rest)
    (hfull : listResponseSize < bodyEnd kept + recordNeed (type, fields) + spare) :
    InvOutcome writer memory spare kept records := by
  have hneed := recordNeed_append type fields more
  have hroom := h.room
  have hlimit : listResponseSize - spare < bodyEnd kept + recordNeed (type, fields ++ more) := by omega
  subst hrecords
  constructor
  · rw [fitting, taken_full hlimit, nonEmpty, List.filter_nil, List.append_nil]
    exact h
  · rw [refused, stopped_full hlimit, hcut]

/-- A record that fits stands in front of what the rest comes to. -/
theorem InvOutcome.record {record : InvRecord} (hfits : bodyEnd kept + recordNeed record + spare ≤ listResponseSize)
    (h : InvOutcome writer memory spare (kept ++ nonEmpty [record]) records) :
    InvOutcome writer memory spare kept (record :: records) := by
  have hlimit : bodyEnd kept + recordNeed record ≤ listResponseSize - spare := by omega
  have hused := bodyEnd_append kept [record]
  rw [List.map_singleton, List.sum_singleton] at hused
  have hclosed := h.closed
  have hcut := h.truncated
  rw [fitting, hused] at hclosed
  rw [refused, hused] at hcut
  constructor
  · rw [fitting, taken_fits hlimit, nonEmpty_cons, ← List.append_assoc]
    exact hclosed
  · rw [refused, stopped_fits hlimit]
    exact hcut

/-- What a sequence comes to between records, and in one. -/
structure InvRuns (memory : Bytes) (spare : ℕ) (ops : List InvOp) : Prop where
  closed : ∀ writer kept, InvClosed writer memory spare kept → writer.truncated = false → bracketed false ops = true →
    InvOutcome (runInvOps writer ops) memory spare kept (completed none ops)
  opened : ∀ writer kept type fields, InvOpened writer memory spare kept type fields → bracketed true ops = true →
    InvOutcome (runInvOps writer ops) memory spare kept (completed (some (type, fields)) ops)

/-- A field, and then the rest of the sequence. -/
theorem InvRuns.field (hmemory : listResponseSize ≤ memory.length) (h : InvRuns memory spare ops)
    (hopened : InvOpened writer memory spare kept type fields)
    (hops : bracketed true ops = true) (key : InvName) (value : Option Bytes) :
    InvOutcome (runInvOps (writer.invField key value) ops) memory spare kept
      (completed (some (type, fields ++ [(key.text, cleanValue value)])) ops) := by
  rcases Nat.lt_or_ge listResponseSize
    (bodyEnd kept + recordNeed (type, fields ++ [(key.text, cleanValue value)]) + spare) with hfull | hfits
  · obtain ⟨hclosed, hcut⟩ := invField_full hmemory hopened key value hfull
    obtain ⟨more, rest, hmore⟩ := completed_open hops type (fields ++ [(key.text, cleanValue value)])
    rw [runInvOps_truncated hclosed.outside hcut]
    exact InvOutcome.dropped hclosed hcut hmore hfull
  · exact h.opened _ _ _ _ (invField_fits hmemory hopened key value hfits) hops

/-- **What any sequence of calls comes to**, by induction on it. -/
theorem invRuns (hmemory : listResponseSize ≤ memory.length) (ops : List InvOp) : InvRuns memory spare ops := by
  induction ops with
  | nil =>
    constructor
    · intro writer kept hclosed hlive _
      have hkept : kept ++ nonEmpty (fitting spare kept []) = kept := List.append_nil kept
      exact ⟨by rw [completed, hkept]; exact hclosed, hlive⟩
    · intro writer kept type fields _ hops
      cases hops
  | cons op ops ih =>
    constructor
    · intro writer kept hclosed hlive hops
      rw [runInvOps, List.foldl_cons]
      cases op with
      | begin name =>
        have hrest : bracketed true ops = true := hops
        rw [completed]
        rcases Nat.lt_or_ge listResponseSize (bodyEnd kept + recordNeed (name.text, []) + spare) with hfull | hfits
        · obtain ⟨hstill, hcut⟩ := invBegin_full hmemory hclosed hlive name hfull
          obtain ⟨more, rest, hmore⟩ := completed_open hrest name.text []
          have hrun := runInvOps_truncated hstill.outside hcut ops
          rw [runInvOps] at hrun
          rw [InvOp.run, hrun]
          exact InvOutcome.dropped hstill hcut hmore hfull
        · exact ih.opened _ _ _ _ (invBegin_fits hmemory hclosed hlive name hfits) hrest
      | field key value =>
        rw [InvOp.run, invField_outside hclosed.outside]
        exact ih.closed writer kept hclosed hlive hops
      | fieldOpt key value =>
        rw [InvOp.run, invFieldOpt_outside hclosed.outside]
        exact ih.closed writer kept hclosed hlive hops
      | finish =>
        rw [InvOp.run, invEnd_outside hclosed.outside]
        exact ih.closed writer kept hclosed hlive hops
    · intro writer kept type fields hopened hops
      rw [runInvOps, List.foldl_cons]
      cases op with
      | begin name => cases hops
      | field key value => exact InvRuns.field hmemory ih hopened hops key value
      | fieldOpt key value =>
        -- nothing but blanks is no field at all
        cases hvalue : optValue value with
        | none =>
          have hentry : (InvOp.fieldOpt key value).entry = none := by rw [InvOp.entry, hvalue, Option.map_none]
          have hrun : (InvOp.fieldOpt key value).run writer = writer := by rw [InvOp.run, InvWriter.invFieldOpt, hvalue]
          rw [completed_fieldOpt, hentry, Option.toList_none, List.append_nil, hrun]
          exact ih.opened writer kept type fields hopened hops
        | some cursor =>
          have hentry : (InvOp.fieldOpt key value).entry = some (key.text, cleanValue (some cursor)) := by
            rw [InvOp.entry, hvalue, Option.map_some]
          have hrun : (InvOp.fieldOpt key value).run writer = writer.invField key (some cursor) := by
            rw [InvOp.run, InvWriter.invFieldOpt, hvalue]
          rw [completed_fieldOpt, hentry, Option.toList_some, hrun]
          exact InvRuns.field hmemory ih hopened hops key (some cursor)
      | finish =>
        obtain ⟨hclosed, hlive⟩ := invEnd_opened hmemory hopened
        rw [completed]
        exact InvOutcome.record hopened.room (ih.closed _ _ hclosed hlive hops)

end

/-! ## Values as they are written -/

/-- A value that the writer writes. -/
structure Clean (text : Bytes) : Prop where
  short : text.length ≤ invValueMax
  printable : ∀ b ∈ text, 0x20 ≤ b ∧ b ≤ 0x7e
  trimmed : text.getLast? ≠ some 32

theorem mem_of_mem_trimmed {text : Bytes} {p : UInt8 → Bool} {b : UInt8} (h : b ∈ (text.reverse.dropWhile p).reverse) :
    b ∈ text := by
  rw [List.mem_reverse] at h
  exact List.mem_reverse.1 ((List.dropWhile_suffix p).subset h)

theorem cleanValue_le (value : Option Bytes) :
    (cleanValue value).length ≤ ((value.getD []).cstr.take invValueMax).length := by
  rw [cleanValue, List.length_reverse]
  refine (List.dropWhile_suffix _).length_le.trans ?_
  rw [List.length_reverse, List.length_map]

/-- **A value is cut, made printable and trimmed.** -/
theorem cleanValue_clean (value : Option Bytes) : Clean (cleanValue value) := by
  constructor
  · exact (cleanValue_le value).trans (List.length_take_le _ _)
  · intro b hb
    obtain ⟨a, -, rfl⟩ := List.mem_map.1 (mem_of_mem_trimmed hb)
    split
    · exact ⟨by decide, by decide⟩
    · rename_i ha
      rw [Bool.or_eq_true, decide_eq_true_eq, decide_eq_true_eq, not_or, UInt8.not_lt, gt_iff_lt, UInt8.not_lt] at ha
      exact ha
  · intro hlast
    rw [cleanValue, List.getLast?_reverse] at hlast
    have hhead := List.head?_dropWhile_not (· == 32) (((value.getD []).cstr.take invValueMax).map fun b =>
      if b < 0x20 || b > 0x7e then 63 else b).reverse
    rw [hlast] at hhead
    cases hhead

theorem Clean.ascii {text : Bytes} (h : Clean text) : AsciiText text := fun b hb =>
  UInt8.le_trans (h.printable b hb).2 (by decide)

theorem InvName.asciiText (name : InvName) : AsciiText name.text := by
  intro b hb
  have h := List.all_eq_true.1 name.ascii b hb
  rw [Bool.and_eq_true, decide_eq_true_eq] at h
  exact h.2

/-- A record that the host can read. -/
structure Readable (record : InvRecord) : Prop where
  type : AsciiText record.1
  keys : ∀ field ∈ record.2, AsciiText field.1
  values : ∀ field ∈ record.2, Clean field.2

theorem entry_readable {op : InvOp} {field : Bytes × Bytes} (h : field ∈ op.entry.toList) :
    AsciiText field.1 ∧ Clean field.2 := by
  rw [Option.mem_toList] at h
  cases op with
  | begin name => cases h
  | field key value =>
    cases h
    exact ⟨key.asciiText, cleanValue_clean value⟩
  | fieldOpt key value =>
    obtain ⟨cursor, -, rfl⟩ := Option.map_eq_some_iff.1 h
    exact ⟨key.asciiText, cleanValue_clean _⟩
  | finish => cases h

/-- A field more leaves a record readable. -/
theorem Readable.append {type : Bytes} {fields : List (Bytes × Bytes)} (h : Readable (type, fields)) (op : InvOp) :
    Readable (type, fields ++ op.entry.toList) where
  type := h.type
  keys := fun field hfield => by
    rcases List.mem_append.1 hfield with hold | hnew
    · exact h.keys field hold
    · exact (entry_readable hnew).1
  values := fun field hfield => by
    rcases List.mem_append.1 hfield with hold | hnew
    · exact h.values field hold
    · exact (entry_readable hnew).2

/-- **Every record that is completed can be read**, whatever its values are. -/
theorem completed_readable (ops : List InvOp) : ∀ inside : Option InvRecord, (∀ record ∈ inside, Readable record) →
    ∀ record ∈ completed inside ops, Readable record := by
  induction ops with
  | nil =>
    intro inside _ record hrecord
    cases inside <;> cases hrecord
  | cons op ops ih =>
    intro inside hinside
    have hnone : ∀ record ∈ (none : Option InvRecord), Readable record := fun record h => by cases h
    cases op with
    | begin name =>
      have hnew : ∀ record ∈ some (name.text, ([] : List (Bytes × Bytes))), Readable record := by
        intro record hrecord
        cases hrecord
        exact ⟨name.asciiText, fun _ h => absurd h List.not_mem_nil, fun _ h => absurd h List.not_mem_nil⟩
      cases inside <;> exact ih _ hnew
    | finish =>
      cases inside with
      | none => exact ih none hnone
      | some open' =>
        intro record hrecord
        rcases List.mem_cons.1 hrecord with rfl | hrest
        · exact hinside record rfl
        · exact ih none hnone record hrest
    | field key value =>
      cases inside with
      | none => exact ih none hnone
      | some open' =>
        apply ih
        intro record hrecord
        cases hrecord
        exact (hinside open' rfl).append _
    | fieldOpt key value =>
      cases inside with
      | none => exact ih none hnone
      | some open' =>
        apply ih
        intro record hrecord
        cases hrecord
        exact (hinside open' rfl).append _

/-! ## Reading the records back -/

theorem fieldBytes_count (fields : List (Bytes × Bytes)) : 4 * fields.length ≤ (fields.flatMap invFieldBytes).length := by
  induction fields with
  | nil => exact Nat.le_refl 0
  | cons field fields ih =>
    rw [List.flatMap_cons, List.length_append, fieldBytes_length, List.length_cons]
    omega

theorem fieldBytes_le {field : Bytes × Bytes} {fields : List (Bytes × Bytes)} (h : field ∈ fields) :
    (invFieldBytes field).length ≤ (fields.flatMap invFieldBytes).length := by
  obtain ⟨before, after, rfl⟩ := List.append_of_mem h
  rw [List.flatMap_append, List.flatMap_cons, List.length_append, List.length_append]
  omega

theorem recordNeed_le {record : InvRecord} {records : List InvRecord} (h : record ∈ records) :
    recordNeed record ≤ (records.flatMap invRecordBytes).length := by
  obtain ⟨before, after, rfl⟩ := List.append_of_mem h
  rw [List.flatMap_append, List.flatMap_cons, List.length_append, List.length_append, recordNeed]
  omega

theorem records_count (records : List InvRecord) : 4 * records.length ≤ (records.flatMap invRecordBytes).length := by
  induction records with
  | nil => exact Nat.le_refl 0
  | cons record records ih =>
    have hneed := recordNeed_eq record.1 record.2
    rw [recordNeed] at hneed
    rw [List.flatMap_cons, List.length_append, hneed, List.length_cons]
    omega

section

variable {payload rest : Bytes} {offset : ℕ}

theorem parseField_at {field : Bytes × Bytes} (hkey : AsciiText field.1) (hvalue : AsciiText field.2)
    (hsize : (invFieldBytes field).length < 65536) (h : At payload offset (invFieldBytes field ++ rest)) :
    parseField payload offset = .ok (field, offset + (invFieldBytes field).length) := by
  have hlength := fieldBytes_length field
  rw [invFieldBytes, List.append_assoc] at h
  have hfirst := parseString_at h (by omega)
  have hsecond := parseString_at h.next (by omega)
  rw [if_pos hkey] at hfirst
  rw [if_pos hvalue] at hsecond
  rw [parseField, hfirst]
  simp only [bind, Except.bind, pure, Except.pure]
  rw [hsecond]
  dsimp only
  rw [invFieldBytes, List.length_append, Nat.add_assoc]

/-- **A record is read back whole.** -/
theorem parseRecord_at {record : InvRecord} (hread : Readable record) (hsize : recordNeed record ≤ listResponseSize)
    (h : At payload offset (invRecordBytes record ++ rest)) :
    parseRecord payload offset = .ok (record, offset + (invRecordBytes record).length) := by
  obtain ⟨type, fields⟩ := record
  have hneed := recordNeed_eq type fields
  have hcount := fieldBytes_count fields
  have hlimit : listResponseSize = 16384 := rfl
  rw [invRecordBytes, List.append_assoc, List.append_assoc] at h
  have htype := parseString_at h (by dsimp only; omega)
  rw [if_pos hread.type] at htype
  have hhead := h.next
  have hcells : (writeU16 (UInt16.ofNat fields.length)).length = 2 := rfl
  have hroom := hhead.room
  have hunpack := unpackFrom_at hhead
  have hbody := hhead.next
  have hvalue : ((writeU16 (UInt16.ofNat fields.length)).readU16 0).toNat = fields.length := by
    have hword := readU16_writeU16 (UInt16.ofNat fields.length) []
    rw [List.append_nil] at hword
    rw [hword, UInt16.toNat_ofNat_of_lt' (by unfold UInt16.size; omega)]
  dsimp only at htype hroom hunpack hbody
  rw [hcells] at hroom hunpack hbody
  have hone : ∀ field ∈ fields, ∀ offset rest, At payload offset (invFieldBytes field ++ rest) →
      parseField payload offset = .ok (id field, offset + (invFieldBytes field).length) := by
    intro field hfield offset rest hat
    have hle := fieldBytes_le hfield
    have hread' := parseField_at (hread.keys field hfield) (hread.values field hfield).ascii (by omega) hat
    exact hread'
  have hfields := parseEntries_at invFieldBytes id hbody hone
  rw [List.map_id] at hfields
  rw [parseRecord, htype]
  simp only [bind, Except.bind, pure, Except.pure]
  rw [if_neg (by omega), hunpack]
  simp only [hvalue]
  rw [hfields]
  have hend : offset + (stringField type).length + 2 + (fields.flatMap invFieldBytes).length =
      offset + (invRecordBytes (type, fields)).length := by
    rw [← recordNeed, hneed, stringField_length]
    omega
  rw [hend]

end

/-- **A response of readable records is read back.** -/
theorem parseInventory_eq {records : List InvRecord} (hread : ∀ record ∈ records, Readable record)
    (hsize : bodyEnd records ≤ listResponseSize) :
    parseInventory (writeU16 (UInt16.ofNat records.length) ++ records.flatMap invRecordBytes) = .ok records := by
  have hcount := records_count records
  have hlimit : listResponseSize = 16384 := rfl
  unfold bodyEnd at hsize
  have hat := at_start (writeU16 (UInt16.ofNat records.length) ++ records.flatMap invRecordBytes)
  have hunpack := unpackFrom_at hat
  have hcells : (writeU16 (UInt16.ofNat records.length)).length = 2 := rfl
  have hbody : At (writeU16 (UInt16.ofNat records.length) ++ records.flatMap invRecordBytes) 2
      (records.flatMap invRecordBytes ++ []) := by
    rw [List.append_nil]
    exact hat.next
  have hvalue : ((writeU16 (UInt16.ofNat records.length)).readU16 0).toNat = records.length := by
    have hword := readU16_writeU16 (UInt16.ofNat records.length) []
    rw [List.append_nil] at hword
    rw [hword, UInt16.toNat_ofNat_of_lt' (by unfold UInt16.size; omega)]
  rw [hcells] at hunpack
  have hone : ∀ record ∈ records, ∀ offset rest,
      At (writeU16 (UInt16.ofNat records.length) ++ records.flatMap invRecordBytes) offset (invRecordBytes record ++ rest) →
      parseRecord (writeU16 (UInt16.ofNat records.length) ++ records.flatMap invRecordBytes) offset =
        .ok (id record, offset + (invRecordBytes record).length) := by
    intro record hrecord offset rest hat
    have hle := recordNeed_le hrecord
    have hread' := parseRecord_at (hread record hrecord) (by omega) hat
    exact hread'
  have hrecords := parseEntries_at invRecordBytes id hbody hone
  rw [List.map_id] at hrecords
  have hlength := hbody.room
  rw [parseInventory, hunpack, if_neg (by rw [List.length_append, hcells]; omega)]
  simp only [bind, Except.bind, pure, Except.pure]
  simp only [hvalue]
  rw [hrecords]
  dsimp only
  rw [if_neg]
  rw [List.length_append, hcells]
  exact fun hne => hne rfl

/-! ## Dictionaries -/

/-- What a dictionary holds for a key with these values. -/
def fieldValue : List Bytes → Option FieldValue
  | [] => none
  | [value] => some (.text value)
  | values => some (.list values)

theorem fieldValue_append (values : List Bytes) (value : Bytes) :
    fieldValue (values ++ [value]) =
      match fieldValue values with
      | none => some (.text value)
      | some held => some (held.append value) := by
  match values with
  | [] => rfl
  | [_] => rfl
  | _ :: _ :: _ => rfl

theorem lookup_map_append (fields : List (Bytes × FieldValue)) (key new value : Bytes) :
    (fields.map fun (key, held) => if key == new then (key, held.append value) else (key, held)).lookup key =
      if key == new then (fields.lookup key).map (·.append value) else fields.lookup key := by
  induction fields with
  | nil => simp
  | cons field fields ih =>
    obtain ⟨other, held⟩ := field
    have hhead : (if other == new then (other, held.append value) else (other, held)) =
        (other, if other == new then held.append value else held) := by
      split <;> rfl
    rw [List.map_cons]
    dsimp only
    rw [hhead, List.lookup_cons, List.lookup_cons]
    by_cases hkey : key = other
    · subst hkey
      rw [beq_self_eq_true]
      dsimp only
      split <;> rfl
    · have hfalse : (key == other) = false := by simpa using hkey
      rw [hfalse]
      exact ih

theorem lookup_none (fields : List (Bytes × FieldValue)) (key : Bytes) :
    fields.lookup key = none ↔ fields.any (·.1 == key) = false := by
  induction fields with
  | nil => simp
  | cons field fields ih =>
    rw [List.lookup_cons, List.any_cons, Bool.or_eq_false_iff]
    by_cases hkey : key = field.1
    · simp [hkey]
    · have hfalse : (key == field.1) = false := by simpa using hkey
      have hother : (field.1 == key) = false := by simpa using Ne.symm hkey
      rw [hfalse, hother]
      simpa using ih

/-- A field put into a dictionary changes what its own key has. -/
theorem lookup_addField (fields : List (Bytes × FieldValue)) (field : Bytes × Bytes) (key : Bytes) :
    (addField fields field).lookup key =
      if key = field.1 then
        match fields.lookup key with
        | none => some (.text field.2)
        | some held => some (held.append field.2)
      else fields.lookup key := by
  unfold addField
  cases hany : fields.any (·.1 == field.1) with
  | true =>
    rw [if_pos rfl, lookup_map_append]
    by_cases hkey : key = field.1
    · have hsome : fields.lookup key ≠ none := fun h => by
        rw [lookup_none, hkey, hany] at h
        cases h
      obtain ⟨held, hheld⟩ := Option.ne_none_iff_exists'.1 hsome
      rw [if_pos (by simpa using hkey), if_pos hkey, hheld, Option.map_some]
    · rw [if_neg (by simpa using hkey), if_neg hkey]
  | false =>
    have hnone := (lookup_none fields field.1).2 hany
    rw [if_neg (by decide), List.lookup_append]
    by_cases hkey : key = field.1
    · rw [if_pos hkey, hkey, hnone]
      simp
    · have hfalse : (key == field.1) = false := by simpa using hkey
      rw [if_neg hkey, List.lookup_cons, hfalse, List.lookup_nil, Option.or_none]

/-- **A key has its values**, in their order: a text where it stands once, else the list of them. -/
theorem recordDict_lookup (record : InvRecord) (key : Bytes) :
    (recordDict record).2.lookup key = fieldValue ((record.2.filter (·.1 = key)).map Prod.snd) := by
  obtain ⟨type, fields⟩ := record
  unfold recordDict
  dsimp only
  induction fields using List.reverseRecOn with
  | nil => rfl
  | append_singleton fields field ih =>
    rw [List.foldl_append, List.foldl_cons, List.foldl_nil, lookup_addField, ih, List.filter_append, List.map_append]
    by_cases hkey : key = field.1
    · rw [if_pos hkey, List.filter_cons_of_pos (by simpa using hkey.symm), List.filter_nil, List.map_singleton,
        fieldValue_append]
    · rw [if_neg hkey, List.filter_cons_of_neg (by simpa using Ne.symm hkey), List.filter_nil, List.map_nil,
        List.append_nil]

/-! ## The last record -/

theorem cleanValue_length (text : Bytes) : (cleanValue (some text)).length ≤ text.length := by
  refine (cleanValue_le _).trans ((List.length_take_le' _ _).trans ?_)
  exact (List.takeWhile_prefix _).length_le

/-- What the machine's identity comes to: nothing, or a field as short as it is. -/
theorem installId_entry (machine : InvMachine) :
    (((InvOp.fieldOpt .installId (some machine.installId.text)).entry.toList).flatMap invFieldBytes).length ≤ 50 := by
  have hshort := machine.installId.length_lt
  rw [InvOp.entry]
  cases hvalue : optValue (some machine.installId.text) with
  | none => exact Nat.zero_le _
  | some cursor =>
    have hcursor : cursor.length ≤ machine.installId.text.length := by
      unfold optValue at hvalue
      simp only [Option.bind_eq_bind, Option.bind_some] at hvalue
      split at hvalue
      · cases hvalue
      · cases hvalue
        exact (List.dropWhile_suffix _).length_le
    have hclean := cleanValue_length cursor
    have hkey : InvName.installId.text.length = 10 := by decide
    rw [Option.map_some, Option.toList_some, List.flatMap_singleton, fieldBytes_length]
    dsimp only
    omega

theorem devicesText_clean (machine : InvMachine) :
    cleanValue (some machine.devicesText) = machine.devicesText ∧ machine.devicesText.length ≤ 8 := by
  unfold InvMachine.devicesText
  cases machine.live <;> decide

theorem discoveryText_clean (machine : InvMachine) :
    cleanValue (some machine.discoveryText) = machine.discoveryText ∧ machine.discoveryText.length ≤ 11 := by
  unfold InvMachine.discoveryText
  cases machine.discovery <;> cases machine.discoveryActive <;> decide

/-- **The last record has room**: all it can hold fits what was kept back. -/
theorem metaRecord_need (machine : InvMachine) (truncated : Bool) :
    recordNeed (metaRecord machine truncated) ≤ invMetaReserve := by
  have hinstall := installId_entry machine
  have hdevices := (devicesText_clean machine).2
  have hdiscovery := (discoveryText_clean machine).2
  have hlimit : invMetaReserve = 160 := rfl
  have htype : InvName.metaType.text.length = 4 := by decide
  have hdevicesKey : InvName.devices.text.length = 7 := by decide
  have hdiscoveryKey : InvName.discovery.text.length = 9 := by decide
  have hmark : ((if truncated then [(InvName.truncated.text, ascii "1")] else []).flatMap invFieldBytes).length ≤ 14 := by
    cases truncated <;> decide
  rw [metaRecord, recordNeed_eq, List.flatMap_append, List.flatMap_append, List.flatMap_append, List.length_append,
    List.length_append, List.length_append, List.flatMap_singleton, List.flatMap_singleton, fieldBytes_length,
    fieldBytes_length]
  dsimp only
  omega

/-- The last record is one that the writer is asked for. -/
theorem completed_meta (machine : InvMachine) (truncated : Bool) :
    completed none (metaOps machine truncated) = [metaRecord machine truncated] := by
  have hmark : cleanValue (some (ascii "1")) = ascii "1" := by decide
  cases truncated <;>
    simp [metaOps, metaRecord, completed, InvOp.entry, (devicesText_clean machine).1, (discoveryText_clean machine).1, hmark]

theorem bracketed_meta (machine : InvMachine) (truncated : Bool) : bracketed false (metaOps machine truncated) = true := by
  cases truncated <;> rfl

theorem metaRecord_fields (machine : InvMachine) (truncated : Bool) :
    nonEmpty [metaRecord machine truncated] = [metaRecord machine truncated] :=
  nonEmpty_fields _ (List.cons_ne_nil _ _)

theorem metaRecord_readable (machine : InvMachine) (truncated : Bool) : Readable (metaRecord machine truncated) := by
  apply completed_readable (metaOps machine truncated) none
  · intro record h
    cases h
  · rw [completed_meta]
    exact List.mem_singleton_self _

/-- The mark stands in the last record where it was asked for. -/
theorem metaRecord_mark (machine : InvMachine) (truncated : Bool) :
    (recordDict (metaRecord machine truncated)).2.lookup InvName.truncated.text =
      if truncated then some (.text (ascii "1")) else none := by
  have hdevices : InvName.devices.text ≠ InvName.truncated.text := by decide
  have hinstall : InvName.installId.text ≠ InvName.truncated.text := by decide
  have hdiscovery : InvName.discovery.text ≠ InvName.truncated.text := by decide
  rw [recordDict_lookup, metaRecord]
  dsimp only
  rw [InvOp.entry]
  cases optValue (some machine.installId.text) <;> cases truncated <;>
    simp [hdevices, hinstall, hdiscovery, fieldValue]

/-! ## The response -/

/-- A record of the sequence does not fit behind the ones before it. -/
def RecordDropped (ops : List InvOp) : Prop := ∃ before record after,
  completed none ops = before ++ record :: after ∧
    listResponseSize - invMetaReserve < bodyEnd (nonEmpty before) + recordNeed record

/-- What the host reads of an inventory, where these records are kept. -/
structure InventoryRead (memory : Bytes) (ops : List InvOp) (machine : InvMachine) (kept : List InvRecord) (cut : Bool) :
    Prop where
  /-- whole records, and then the last one -/
  parsed : parseInventoryDicts (handleInventory memory ops machine).response =
    .ok ((kept ++ [metaRecord machine cut]).map recordDict)
  first : kept <+: nonEmpty (completed none ops)
  all : cut = false → kept = nonEmpty (completed none ops)
  clean : ∀ record ∈ kept, ∀ field ∈ record.2, Clean field.2
  values : ∀ record ∈ kept, ∀ key,
    (recordDict record).2.lookup key = fieldValue ((record.2.filter (·.1 = key)).map Prod.snd)
  marked : (recordDict (metaRecord machine cut)).2.lookup InvName.truncated.text = some (.text (ascii "1")) ↔
    RecordDropped ops
  size : (handleInventory memory ops machine).memory.length = memory.length
  behind : (handleInventory memory ops machine).memory.drop listResponseSize = memory.drop listResponseSize
  sent : (handleInventory memory ops machine).offset ≤ listResponseSize

theorem recordDropped_iff (ops : List InvOp) : refused invMetaReserve [] (completed none ops) = true ↔ RecordDropped ops := by
  have hkeep : ∀ before : List InvRecord, bodyEnd [] + (before.map recordKeep).sum = bodyEnd (nonEmpty before) := by
    intro before
    rw [← bodyEnd_append, List.nil_append]
  rw [refused, stopped_iff, RecordDropped]
  simp only [hkeep]

/-- The writer before its first record. -/
theorem invWriter_closed (memory : Bytes) : InvClosed (invWriter memory) memory invMetaReserve [] where
  capacity := rfl
  reserve := rfl
  keeps := ⟨rfl, rfl, stands_nil⟩
  records := rfl
  outside := rfl
  offset := rfl
  room := by decide

/-- The writer behind its last record: what was kept, and the last record. -/
theorem inventory_closed {memory : Bytes} (hmemory : listResponseSize ≤ memory.length) {ops : List InvOp}
    (hops : bracketed false ops = true) (machine : InvMachine) :
    ∃ writer, InvClosed writer memory 0 (nonEmpty (fitting invMetaReserve [] (completed none ops)) ++
        [metaRecord machine (refused invMetaReserve [] (completed none ops))]) ∧
      handleInventory memory ops machine =
        { writer with memory := write writer.memory 0 (writeU16 (UInt16.ofNat writer.records)) } := by
  have hrun := (invRuns hmemory ops).closed _ _ (invWriter_closed memory) rfl hops
  have hclosed := hrun.closed
  rw [List.nil_append] at hclosed
  have hroom := hclosed.room
  -- what was kept back is given free for the last record
  have hfree : InvClosed { runInvOps (invWriter memory) ops with truncated := false, reserve := 0 } memory 0
      (nonEmpty (fitting invMetaReserve [] (completed none ops))) :=
    ⟨hclosed.capacity, rfl, hclosed.keeps, hclosed.records, hclosed.outside, hclosed.offset, by omega⟩
  have hlast := ((invRuns hmemory _).closed _ _ hfree rfl
    (bracketed_meta machine (runInvOps (invWriter memory) ops).truncated)).closed
  have hneed := metaRecord_need machine (runInvOps (invWriter memory) ops).truncated
  have hfits : fitting 0 (nonEmpty (fitting invMetaReserve [] (completed none ops)))
      [metaRecord machine (runInvOps (invWriter memory) ops).truncated] =
        [metaRecord machine (runInvOps (invWriter memory) ops).truncated] := taken_fits (by omega)
  rw [completed_meta, hfits, metaRecord_fields, hrun.truncated] at hlast
  refine ⟨_, hlast, ?_⟩
  rw [handleInventory]
  dsimp only
  rw [hrun.truncated]

/-- **An inventory is read as whole records**: for every sequence of calls that ends each
record before the next begins, whatever the values are and wherever the buffer fills. -/
theorem inventory_whole (memory : Bytes) (hmemory : listResponseSize ≤ memory.length) (ops : List InvOp)
    (hops : bracketed false ops = true) (machine : InvMachine) :
    ∃ kept cut, InventoryRead memory ops machine kept cut := by
  obtain ⟨writer, hclosed, hresult⟩ := inventory_closed hmemory hops machine
  have hrefused := recordDropped_iff ops
  have htaken : fitting invMetaReserve [] (completed none ops) <+: completed none ops := taken_prefix _
  have hfirst : nonEmpty (fitting invMetaReserve [] (completed none ops)) <+: nonEmpty (completed none ops) :=
    htaken.filter _
  generalize hkept : nonEmpty (fitting invMetaReserve [] (completed none ops)) = kept at hclosed hfirst
  generalize hcut : refused invMetaReserve [] (completed none ops) = cut at hclosed hrefused
  have hmembers : ∀ record ∈ kept, Readable record := fun record hrecord => by
    have hin := List.mem_of_mem_filter (hfirst.subset hrecord)
    exact completed_readable ops none (fun _ h => by cases h) record hin
  have hread : ∀ record ∈ kept ++ [metaRecord machine cut], Readable record := by
    intro record hrecord
    rcases List.mem_append.1 hrecord with hold | hlast
    · exact hmembers record hold
    · rw [List.mem_singleton.1 hlast]
      exact metaRecord_readable machine cut
  have hcells : (writeU16 (UInt16.ofNat writer.records)).length = 2 := rfl
  have hroom := hclosed.room
  have hsize := hclosed.keeps.size
  have hstore : 0 + (writeU16 (UInt16.ofNat writer.records)).length ≤ writer.memory.length := by
    rw [hcells]
    have hlimit : listResponseSize = 16384 := rfl
    omega
  have hstands : Stands (write writer.memory 0 (writeU16 (UInt16.ofNat writer.records))) 0
      (writeU16 (UInt16.ofNat writer.records) ++ (kept ++ [metaRecord machine cut]).flatMap invRecordBytes) := by
    rw [stands_append]
    exact ⟨stands_write hstore, hclosed.keeps.stands.write hstore (Or.inr (Nat.le_refl 2))⟩
  have hresponse : (handleInventory memory ops machine).response =
      writeU16 (UInt16.ofNat (kept ++ [metaRecord machine cut]).length) ++
        (kept ++ [metaRecord machine cut]).flatMap invRecordBytes := by
    have htake := hstands.take
    rw [hclosed.records, List.length_append] at htake
    rw [hresult, InvWriter.response, hclosed.records]
    dsimp only
    rw [hclosed.offset]
    exact htake
  refine ⟨kept, cut, {
    parsed := ?_
    first := hfirst
    all := ?_
    clean := fun record hrecord => (hmembers record hrecord).values
    values := fun record _ => recordDict_lookup record
    marked := ?_
    size := ?_
    behind := ?_
    sent := ?_ }⟩
  · rw [parseInventoryDicts, hresponse, parseInventory_eq hread (by omega)]
    rfl
  · intro hwhole
    subst hcut
    rw [← hkept, fitting, taken_all hwhole]
  · rw [metaRecord_mark, ← hrefused]
    cases cut <;> simp
  · rw [hresult]
    exact (write_length hstore).trans hsize
  · rw [hresult]
    exact (drop_write hstore (by rw [hcells]; decide)).trans hclosed.keeps.behind
  · rw [hresult]
    dsimp only
    rw [hclosed.offset]
    omega

section

/-- A machine of the runs below. -/
def oneMachine : InvMachine where
  live := true
  installId := ⟨ascii "0f", by decide, by decide +kernel⟩
  discovery := true
  discoveryActive := true

def osName : InvName := .ofString "os" (by decide)
def buildName : InvName := .ofString "build" (by decide)
def cpuName : InvName := .ofString "cpu" (by decide)
def countName : InvName := .ofString "count" (by decide)

/-- Two records, one after the other. -/
def closedOps : List InvOp :=
  [.begin osName, .field buildName (some (ascii "2222 ")), .finish,
    .begin cpuName, .field countName (some (ascii "1")), .finish]

/-- The same without the first one's end. -/
def openOps : List InvOp :=
  [.begin osName, .field buildName (some (ascii "2222 ")), .begin cpuName, .field countName (some (ascii "1")), .finish]

theorem inventory_whole_demo : ∃ kept cut, InventoryRead (List.replicate 16384 0) closedOps oneMachine kept cut :=
  inventory_whole _ (by rw [List.length_replicate]; decide) closedOps rfl oneMachine

/-- A record that is begun inside another one: the outer one stays in part, and the host
refuses the response. -/
theorem open_record_unread :
    ¬∃ kept cut, InventoryRead (List.replicate 16384 0) openOps oneMachine kept cut := by
  rintro ⟨kept, cut, hread⟩
  have hrefused :
      (parseInventoryDicts (handleInventory (List.replicate 16384 0) openOps oneMachine).response).isOk = false := by
    decide
  rw [hread.parsed] at hrefused
  cases hrefused

end

end V9xRemote
