import V9xRemote.Proof.HostWire

/-!
# A file of the machine at the host

`get_bytes` of the client against `v9x_handle_read` of either agent: what the agent's frames are,
and what the client makes of them.

* `readTurns_chunks`: an agent's frames are chunks of what it read, one behind the other.
* `get_bytes_exact`: in whatever pieces the frames arrive, the client returns the bytes that were
  read, or raises the agent's error; of a connection that breaks it returns nothing.
-/

namespace V9xRemote

open Bytes Cursor Dialogue

/-! ## Requests -/

/-- A text for the wire: ASCII without a NUL, and a payload holds it. -/
structure WireText (text : Bytes) : Prop where
  ascii : ∀ b ∈ text, b ≠ 0 ∧ b ≤ 0x7f
  short : text.length ≤ 65534

theorem WireText.of_all {text : Bytes} (h : text.all (fun b => b != 0 && decide (b ≤ 0x7f)) = true)
    (hshort : text.length ≤ 65534) : WireText text := by
  refine ⟨fun b hb => ?_, hshort⟩
  have hb := List.all_eq_true.1 h b hb
  simpa using hb

/-- A text as Python has it. -/
def pyString (text : Bytes) : PyVal := .str (text.map UInt8.toNat)

theorem pack_word {n : ℕ} (h : n < 65536) : packUnsigned 2 (n : ℤ) = .ok (writeU16 (UInt16.ofNat n)) := by
  have hrange : (0 : ℤ) ≤ n ∧ (n : ℤ) < 256 ^ 2 := by
    constructor
    · omega
    · norm_num
      omega
  have hlow : UInt8.ofNat (n % 256) = (UInt16.ofNat n).toUInt8 := by
    apply UInt8.toNat_inj.1
    simp
  have hhigh : UInt8.ofNat (n / 256 % 256) = (UInt16.ofNat n >>> 8).toUInt8 := by
    apply UInt8.toNat_inj.1
    simp [UInt16.toNat_shiftRight, Nat.shiftRight_eq_div_pow]
    omega
  rw [packUnsigned, if_pos hrange]
  simp only [Int.toNat_natCast, List.range_succ, List.range_zero, List.map_cons, List.map_nil, List.nil_append,
    List.cons_append, pow_zero, Nat.div_one, pow_one, hlow, hhigh, writeU16]

theorem encodeString_text {text : Bytes} (h : WireText text) : encodeString (pyString text) = .ok (stringField text) := by
  have hshort := h.short
  have hplain : (text.map UInt8.toNat).any (fun code => code == 0 || decide (code > 127)) = false := by
    rw [List.any_eq_false]
    intro code hcode
    obtain ⟨b, hb, rfl⟩ := List.mem_map.1 hcode
    obtain ⟨hzero, hsmall⟩ := h.ascii b hb
    have hne : b.toNat ≠ 0 := fun h0 => hzero (UInt8.toNat_inj.1 h0)
    have hle : b.toNat ≤ 127 := UInt8.le_iff_toNat_le.1 hsmall
    simp only [Bool.or_eq_true, beq_iff_eq, decide_eq_true_eq]
    omega
  have hback : (text.map UInt8.toNat).map UInt8.ofNat = text := by
    rw [List.map_map]
    exact (List.map_congr_left fun b _ => UInt8.ofNat_toNat).trans (List.map_id _)
  rw [pyString, encodeString, hplain, if_neg Bool.false_ne_true, List.length_map,
    if_neg (show ¬ text.length > 65535 by omega), pack_word (by omega), hback]
  rfl

theorem readPath_text {path : Bytes} (h : WireText path) (maximum : ℕ) :
    readPath (stringField path) 0 maximum = if path.length = 0 ∨ path.length > maximum then none else some path := by
  have hshort := h.short
  have hlength := stringField_length path
  have hword : ((stringField path).readU16 0).toNat = path.length := by
    rw [stringField, readU16_writeU16, UInt16.toNat_ofNat_of_lt' (show path.length < 2 ^ 16 by omega)]
  have hdrop : (stringField path).drop (0 + 2) = path := rfl
  have hplain : path.any (fun b => b == 0 || decide (b > 0x7f)) = false := by
    rw [List.any_eq_false]
    intro b hb
    obtain ⟨hzero, hsmall⟩ := h.ascii b hb
    simpa [hzero] using hsmall
  unfold readPath
  rw [if_neg (by simp only [Bool.or_eq_true, decide_eq_true_eq]; omega)]
  simp only [hword, hdrop, hplain, hlength, Bool.or_eq_true, decide_eq_true_eq, bne_iff_ne, Bool.false_eq_true, if_false]
  apply if_congr _ rfl rfl
  omega

/-! ## The agent's frames -/

/-- What is read of a file, behind an offset; `none` where a read fails. -/
def readData (calls : ReadCalls) (size offset : ℕ) : Option Bytes :=
  if _hmore : offset < size then
    if hfails : calls.fails size offset then none
    else
      have _hpos := ReadCalls.data_pos hfails
      (readData calls size (offset + (calls.data size offset).length)).map (calls.data size offset ++ ·)
  else some []
termination_by size - offset

/-- What a download brings; `none` where the agent answers with an error. -/
def fetched (port : ReadPort) (system : Bytes → ReadCalls) (path : Bytes) : Option Bytes :=
  if path.length = 0 ∨ path.length > 259 then none
  else if !(system path).opened.ok || port.refused (system path).size then none
  else readData (system path) ((system path).size.getD 0) 0

/-- Chunks, one behind the other. -/
def chunkFrames : ℕ → List Bytes → List AgentFrame
  | _, [] => []
  | offset, piece :: pieces =>
    (msgFileReadChunkType, writeU32 (UInt32.ofNat offset) ++ piece) :: chunkFrames (offset + piece.length) pieces

theorem chunkFrames_length (offset : ℕ) (pieces : List Bytes) : (chunkFrames offset pieces).length = pieces.length := by
  induction pieces generalizing offset with
  | nil => rfl
  | cons piece pieces ih => rw [chunkFrames, List.length_cons, ih, List.length_cons]

theorem ReadCalls.data_length_le (calls : ReadCalls) (size offset : ℕ) :
    (calls.data size offset).length ≤ min (size - offset) fileChunkSize := by
  rw [ReadCalls.data, List.length_take]
  exact Nat.min_le_left _ _

theorem chunks_count {pieces : List Bytes} (h : ∀ p ∈ pieces, 0 < p.length ∧ p.length ≤ fileChunkSize) :
    pieces.length ≤ pieces.flatten.length := by
  induction pieces with
  | nil => simp
  | cons piece pieces ih =>
    have hpos := (h piece List.mem_cons_self).1
    have hrest := ih fun p hp => h p (List.mem_cons_of_mem _ hp)
    rw [List.length_cons, List.flatten_cons, List.length_append]
    omega

/-- **What an agent sends of a file** is what it read. -/
theorem readTurns_chunks (calls : ReadCalls) {size offset : ℕ} (crc : UInt32) (hoffset : offset ≤ size) :
    ∃ pieces, (readTurns calls size offset crc).1 = chunkFrames offset pieces ∧
      (∀ p ∈ pieces, 0 < p.length ∧ p.length ≤ fileChunkSize) ∧
      offset + pieces.flatten.length ≤ size ∧
      (((∃ native, (readTurns calls size offset crc).2 = .error native) ∧ readData calls size offset = none) ∨
        ((readTurns calls size offset crc).2 = .ok (crc32Update crc pieces.flatten) ∧
          readData calls size offset = some pieces.flatten ∧ offset + pieces.flatten.length = size)) := by
  induction hleft : size - offset using Nat.strong_induction_on generalizing offset crc with
  | _ left ih =>
    rw [readTurns, readData]
    by_cases hmore : offset < size
    · rw [dif_pos hmore, dif_pos hmore]
      by_cases hfails : calls.fails size offset
      · rw [dif_pos hfails, dif_pos hfails]
        exact ⟨[], rfl, by simp, by simpa using hoffset, .inl ⟨⟨_, rfl⟩, rfl⟩⟩
      · -- a chunk, and then what follows it
        have hpos := ReadCalls.data_pos hfails
        have hle := calls.data_length_le size offset
        obtain ⟨pieces, hframes, hsizes, hfits, hend⟩ :=
          ih _ (show size - (offset + (calls.data size offset).length) < left by omega)
          (crc32Update crc (calls.data size offset)) (by omega) rfl
        rw [dif_neg hfails, dif_neg hfails]
        refine ⟨calls.data size offset :: pieces, ?_, ?_, ?_, ?_⟩
        · rw [chunkFrames, ← hframes]
        · intro p hp
          rcases List.mem_cons.1 hp with rfl | hp
          · omega
          · exact hsizes p hp
        · rw [List.flatten_cons, List.length_append]
          omega
        · rw [List.flatten_cons, List.length_append, crc32Update_append]
          rcases hend with ⟨⟨native, hnative⟩, hnone⟩ | ⟨hcrc, hdata, hall⟩
          · exact .inl ⟨⟨native, hnative⟩, by rw [hnone]; rfl⟩
          · exact .inr ⟨hcrc, by rw [hdata]; rfl, by omega⟩
    · rw [dif_neg hmore, dif_neg hmore]
      exact ⟨[], rfl, by simp, by simpa using hoffset, .inr ⟨rfl, rfl, by simp only [List.flatten_nil, List.length_nil]; omega⟩⟩

/-- FILE_READ_COMPLETE for some bytes. -/
def readComplete (data : Bytes) : AgentFrame :=
  (msgFileReadCompleteType, writeU32 (UInt32.ofNat data.length) ++ writeU32 (crc32 data))

/-- **The frames of a download.** -/
theorem handleRead_frames (port : ReadPort) (system : Bytes → ReadCalls) {path : Bytes} (hpath : WireText path) :
    ∃ pieces last, handleRead port system (stringField path) = chunkFrames 0 pieces ++ [last] ∧
      (∀ p ∈ pieces, 0 < p.length ∧ p.length ≤ fileChunkSize) ∧ pieces.flatten.length ≤ maxFileSize.toNat ∧
      ((Refusal last ∧ fetched port system path = none) ∨
        (last = readComplete pieces.flatten ∧ fetched port system path = some pieces.flatten)) := by
  have hrefused (status native : UInt32) {detail : String} (hdetail : (ascii detail).length ≤ 256)
      (hascii : AsciiText (ascii detail)) (hnone : fetched port system path = none) :
      ∃ pieces last, fileError status native detail = chunkFrames 0 pieces ++ [last] ∧
        (∀ p ∈ pieces, 0 < p.length ∧ p.length ≤ fileChunkSize) ∧ pieces.flatten.length ≤ maxFileSize.toNat ∧
        ((Refusal last ∧ fetched port system path = none) ∨
          (last = readComplete pieces.flatten ∧ fetched port system path = some pieces.flatten)) := by
    obtain ⟨frame, hframe, hrefusal⟩ := refusal_fileError status native _ hdetail hascii
    exact ⟨[], frame, hframe, by simp, by simp, .inl ⟨hrefusal, hnone⟩⟩
  unfold handleRead
  rw [readPath_text hpath]
  by_cases hlong : path.length = 0 ∨ path.length > 259
  · rw [if_pos hlong]
    exact hrefused _ _ (by decide) (by decide) (if_pos hlong)
  rw [if_neg hlong]
  dsimp only
  by_cases hopened : (system path).opened.ok
  swap
  · rw [if_pos (by simpa using hopened)]
    exact hrefused _ _ (by decide) (by decide) (by simp [fetched, hopened])
  by_cases hsize : port.refused (system path).size
  · rw [if_neg (by simpa using hopened), if_pos hsize]
    exact hrefused _ _ (by decide) (by decide) (by simp [fetched, hsize])
  have hfetched : fetched port system path = readData (system path) ((system path).size.getD 0) 0 := by
    rw [fetched, if_neg hlong]
    simp [hopened, hsize]
  have hmax : (system path).size.getD 0 ≤ maxFileSize.toNat := by
    cases hknown : (system path).size with
    | none => exact Nat.zero_le _
    | some size =>
      rw [hknown] at hsize
      exact (port.refused_iff size).1 (by simpa using hsize)
  obtain ⟨pieces, hframes, hsizes, hfits, hend⟩ :=
    readTurns_chunks (system path) crc32Begin (Nat.zero_le ((system path).size.getD 0))
  rw [if_neg (by simpa using hopened), if_neg hsize]
  rcases hend with ⟨⟨native, hnative⟩, hnone⟩ | ⟨hcrc, hdata, hall⟩
  · obtain ⟨frame, hframe, hrefusal⟩ := refusal_fileError statusIoFailed native "download read failed" (by decide) (by decide)
    have hturns : readTurns (system path) ((system path).size.getD 0) 0 crc32Begin = (chunkFrames 0 pieces, .error native) :=
      Prod.ext hframes hnative
    refine ⟨pieces, frame, ?_, hsizes, by omega, .inl ⟨hrefusal, hfetched.trans hnone⟩⟩
    rw [hturns, ← hframe]
  · have hturns : readTurns (system path) ((system path).size.getD 0) 0 crc32Begin =
        (chunkFrames 0 pieces, .ok (crc32Update crc32Begin pieces.flatten)) := Prod.ext hframes hcrc
    rw [Nat.zero_add] at hall
    refine ⟨pieces, readComplete pieces.flatten, ?_, hsizes, by omega, .inr ⟨rfl, hfetched.trans hdata⟩⟩
    rw [hturns, readComplete, hall]
    rfl

/-! ## The client -/

/-- What the loop of `get_stream` makes of an answer. -/
def downloadTake (toFile : Bool) (got : Received) : ℕ × Bytes → Mcp (Received ⊕ Received × Bytes)
  | (type, payload) => do
    if type = msgFileReadChunk then do
      Mcp.check (payload.length ≥ 4) "download chunk offset mismatch"
      let head ← Prog.lift (unpackFrom payload 0 4)
      Mcp.check ((head.readU32 0).toNat = got.length) "download chunk offset mismatch"
      let piece := payload.drop 4
      if toFile then
        Mcp.call
      return .inl ⟨got.length + piece.length, crc32Update got.crc piece, if toFile then [] else got.bytes ++ piece⟩
    else return .inr (got, payload)

theorem downloadTurn_eq (env : McpEnv) (toFile : Bool) :
    downloadTurn env toFile = fun got => expect env [msgFileReadChunk, msgFileReadComplete] >>= downloadTake toFile got := rfl

/-- One chunk at the client. -/
theorem downloadTake_chunk {offset : ℕ} (hoffset : offset < 2 ^ 32) (crc : UInt32) (front piece : Bytes) (st : McpState)
    (more : List McpAnswer) :
    (downloadTake false ⟨offset, crc, front⟩ (msgFileReadChunk, writeU32 (UInt32.ofNat offset) ++ piece)).run ⟨st, more⟩ =
      some (.ok (.inl ⟨offset + piece.length, crc32Update crc piece, front ++ piece⟩), ⟨st, more⟩) := by
  have hlength : (writeU32 (UInt32.ofNat offset) ++ piece).length = 4 + piece.length := List.length_append
  have hunpack : unpackFrom (writeU32 (UInt32.ofNat offset) ++ piece) 0 4 = .ok (writeU32 (UInt32.ofNat offset)) :=
    unpackFrom_at (at_start _)
  have hread : ((writeU32 (UInt32.ofNat offset)).readU32 0).toNat = offset := by
    have h := readU32_writeU32 (UInt32.ofNat offset) []
    rw [List.append_nil] at h
    rw [h, UInt32.toNat_ofNat_of_lt' hoffset]
  have hroom : decide ((writeU32 (UInt32.ofNat offset) ++ piece).length ≥ 4) = true := by
    rw [hlength]
    exact decide_eq_true (by omega)
  unfold downloadTake
  dsimp only
  rw [if_pos rfl, hroom, hunpack]
  simp only [Mcp.check, if_true]
  rw [Prog.run_bind_ok (Prog.run_pure ()), Prog.run_bind_ok (Prog.run_lift _)]
  simp only [hread, decide_true, if_true]
  rfl

theorem chunk_steps {offset : ℕ} {pieces : List Bytes} (hsizes : ∀ p ∈ pieces, 0 < p.length ∧ p.length ≤ fileChunkSize)
    (hoffset : offset + pieces.flatten.length < 2 ^ 32) (crc : UInt32) (front : Bytes) (st : McpState) :
    Steps [msgFileReadChunk, msgFileReadComplete] (downloadTake false) st ⟨offset, crc, front⟩ (chunkFrames offset pieces)
      ⟨offset + pieces.flatten.length, crc32Update crc pieces.flatten, front ++ pieces.flatten⟩ := by
  induction pieces generalizing offset crc front with
  | nil =>
    simp only [chunkFrames, List.flatten_nil, List.length_nil, Nat.add_zero, List.append_nil]
    exact .nil _
  | cons piece pieces ih =>
    rw [List.flatten_cons, List.length_append] at hoffset
    have hpiece := hsizes piece List.mem_cons_self
    have hchunk : fileChunkSize = 32768 := rfl
    have hmax : maxPayload = 65536 := rfl
    have hsize : (writeU32 (UInt32.ofNat offset) ++ piece).length ≤ maxPayload := by
      rw [List.length_append, writeU32_length]
      omega
    rw [List.flatten_cons, List.length_append, crc32Update_append, ← List.append_assoc, ← Nat.add_assoc]
    have htype : [msgFileReadChunk, msgFileReadComplete].contains msgFileReadChunkType.toNat = true := by decide
    have hne : msgFileReadChunkType ≠ msgErrorResponse := by decide
    exact .cons hsize hne htype (downloadTake_chunk (by omega) crc front piece st)
      (ih (fun p hp => hsizes p (List.mem_cons_of_mem _ hp)) (by omega) _ _)

/-- What the loop ends with, for a download that completes. -/
theorem downloadTake_complete (payload : Bytes) (got : Received) (st : McpState) (more : List McpAnswer) :
    (downloadTake false got (msgFileReadCompleteType.toNat, payload)).run ⟨st, more⟩ =
      some (.ok (.inr (got, payload)), ⟨st, more⟩) := by
  unfold downloadTake
  dsimp only
  rw [if_neg (by decide)]
  rfl

/-- What `get_stream` makes of the end of its loop. -/
def downloadEnd (got : Received) (payload : Bytes) : Mcp Bytes := do
  Mcp.check (payload.length = 8) "invalid FILE_READ_COMPLETE payload"
  let fields ← Prog.lift (unpackFrom payload 0 8)
  Mcp.check ((fields.readU32 0).toNat = got.length && fields.readU32 4 == crc32End got.crc)
    "downloaded size or CRC32 does not match the guest"
  return got.bytes

theorem downloadEnd_complete {data : Bytes} (hsize : data.length < 2 ^ 32) (st : McpState) (more : List McpAnswer) :
    (downloadEnd ⟨data.length, crc32Update crc32Begin data, data⟩ (readComplete data).2).run ⟨st, more⟩ =
      some (.ok data, ⟨st, more⟩) := by
  have hpayload : (readComplete data).2 = writeU32 (UInt32.ofNat data.length) ++ writeU32 (crc32 data) := rfl
  have hlength : (readComplete data).2.length = 8 := rfl
  have hunpack : unpackFrom (readComplete data).2 0 8 = .ok (readComplete data).2 := rfl
  have hfirst : ((readComplete data).2.readU32 0).toNat = data.length := by
    rw [hpayload, readU32_writeU32, UInt32.toNat_ofNat_of_lt' hsize]
  have hsecond : (readComplete data).2.readU32 4 = crc32 data := by
    have h := readU32_append_right (writeU32 (UInt32.ofNat data.length)) (writeU32 (crc32 data) ++ []) 0
    rw [readU32_writeU32, List.append_nil] at h
    exact h
  unfold downloadEnd
  rw [hunpack]
  simp only [hlength, Mcp.check, decide_true, if_true]
  rw [Prog.run_bind_ok (Prog.run_pure ()), Prog.run_bind_ok (Prog.run_lift _)]
  simp only [hfirst, hsecond, crc32, decide_true, beq_self_eq_true, Bool.and_self, if_true]
  rfl

theorem WireText.payload {text : Bytes} (h : WireText text) : (stringField text).length ≤ maxPayload := by
  have hshort := h.short
  have hmax : maxPayload = 65536 := rfl
  rw [stringField_length]
  omega

/-- `get_bytes` up to its loop. -/
theorem getBytes_loop (env : McpEnv) {st : McpState} (hconnected : Connected st capFileRead) {path : Bytes}
    (hpath : WireText path) (answers : List McpAnswer) :
    (getBytes env (pyString path)).run ⟨st, .done (.ok ()) :: answers⟩ =
      (Prog.loop (fun got => expect env [msgFileReadChunk, msgFileReadComplete] >>= downloadTake false got) env.fuel
        ⟨0, crc32Begin, []⟩ >>= fun out => downloadEnd out.1 out.2).run ⟨st.nextId, answers⟩ := by
  unfold getBytes getStream
  rw [Prog.run_bind_ok (require_run hconnected _), encodeString_text hpath, Prog.run_bind_ok (nextId_run st _),
    Prog.run_bind_ok (Prog.run_lift _), Prog.run_bind_ok (sendFrame_run hconnected.nextId.socket _ hpath.payload _)]
  rfl

/-- A file that stays what it is while it is read: each read brings some of what follows. -/
structure Holds (calls : ReadCalls) (content : Bytes) : Prop where
  size : calls.size = some content.length
  reads : ∀ offset, (calls.reads offset).ok = true → (calls.reads offset).bytes <+: content.drop offset

/-- **What is read of a file** is the file's. -/
theorem readData_holds {calls : ReadCalls} {content data : Bytes} (h : Holds calls content) {offset : ℕ}
    (hoffset : offset ≤ content.length) (hdata : readData calls content.length offset = some data) :
    data = content.drop offset := by
  induction hleft : content.length - offset using Nat.strong_induction_on generalizing offset data with
  | _ left ih =>
    rw [readData] at hdata
    split at hdata
    · next hmore =>
      split at hdata
      · cases hdata
      · next hfails =>
        obtain ⟨rest, hrest, rfl⟩ := Option.map_eq_some_iff.1 hdata
        have hok : (calls.reads offset).ok = true := by
          by_contra hbad
          exact hfails (by simp [ReadCalls.fails, hbad])
        have hpos := ReadCalls.data_pos hfails
        have hle := calls.data_length_le content.length offset
        have hprefix : calls.data content.length offset <+: content.drop offset :=
          (List.take_prefix _ _).trans (h.reads offset hok)
        rw [ih _ (by omega) (by omega) hrest rfl]
        obtain ⟨tail, htail⟩ := hprefix
        rw [← List.drop_drop, ← htail, List.drop_left]
    · next hend =>
      obtain rfl := Option.some.inj hdata
      exact (List.drop_eq_nil_of_le (by omega)).symm

theorem fetched_holds {port : ReadPort} {system : Bytes → ReadCalls} {path content data : Bytes}
    (h : Holds (system path) content) (hdata : fetched port system path = some data) : data = content := by
  unfold fetched at hdata
  split at hdata
  · cases hdata
  split at hdata
  · cases hdata
  rw [h.size] at hdata
  exact readData_holds h (Nat.zero_le _) hdata

/-- No call for the file fails, and it is within the limits. -/
structure Serves (path : Bytes) (calls : ReadCalls) (content : Bytes) : Prop where
  path : 0 < path.length ∧ path.length ≤ 259
  opened : calls.opened.ok = true
  size : content.length ≤ maxFileSize.toNat
  reads : ∀ offset < content.length, (calls.reads offset).ok = true ∧ (calls.reads offset).bytes ≠ []

theorem readData_serves {path : Bytes} {calls : ReadCalls} {content : Bytes} (h : Serves path calls content) (offset : ℕ) :
    ∃ data, readData calls content.length offset = some data := by
  induction hleft : content.length - offset using Nat.strong_induction_on generalizing offset with
  | _ left ih =>
    rw [readData]
    by_cases hmore : offset < content.length
    · obtain ⟨hok, hsome⟩ := h.reads offset hmore
      have hchunk : fileChunkSize = 32768 := rfl
      have hdata : (calls.data content.length offset).isEmpty = false := by
        have hpos := List.length_pos_of_ne_nil hsome
        rw [← Bool.not_eq_true, List.isEmpty_iff, ← List.length_eq_zero_iff, ReadCalls.data, List.length_take]
        omega
      have hfails : ¬ calls.fails content.length offset := by
        rw [ReadCalls.fails, hok, hdata]
        decide
      have hpos := ReadCalls.data_pos hfails
      obtain ⟨rest, hrest⟩ := ih _ (by omega) (offset + (calls.data content.length offset).length) rfl
      rw [dif_pos hmore, dif_neg hfails, hrest]
      exact ⟨_, rfl⟩
    · exact ⟨[], dif_neg hmore⟩

theorem fetched_serves {port : ReadPort} {system : Bytes → ReadCalls} {path content : Bytes}
    (h : Holds (system path) content) (hserves : Serves path (system path) content) :
    fetched port system path = some content := by
  have hpath := hserves.path
  have hsize : port.refused (some content.length) = false := (port.refused_iff _).2 hserves.size
  obtain ⟨data, hdata⟩ := readData_serves hserves 0
  have hfetched : fetched port system path = some data := by
    rw [fetched, if_neg (by omega), hserves.opened, h.size, hsize]
    exact hdata
  rw [hfetched, fetched_holds h hfetched]

/-- **A file of the machine at the host**: in whatever pieces the agent's frames arrive, the client
returns the bytes that were read, which are the file's, or raises the agent's error. Where the
connection breaks, wherever that is, it raises. -/
theorem get_bytes_exact (port : ReadPort) (system : Bytes → ReadCalls) {path : Bytes} (hpath : WireText path)
    {env : McpEnv} (hfuel : 2 ^ 32 ≤ env.fuel)
    {st : McpState} (hconnected : Connected st capFileRead) (more : List McpAnswer) :
    (∀ answers, Arrived (UInt32.ofNat st.nextId.requestId) (handleRead port system (stringField path)) answers →
      (getBytes env (pyString path)).run ⟨st, .done (.ok ()) :: (answers ++ more)⟩ =
        some (answered (fetched port system path), ⟨st.nextId, more⟩)) ∧
    (∀ answers, Severed (UInt32.ofNat st.nextId.requestId) (handleRead port system (stringField path)) answers →
      ∃ exc, (getBytes env (pyString path)).run ⟨st, .done (.ok ()) :: (answers ++ more)⟩ =
        some (.error exc, ⟨st.nextId, more⟩)) ∧
    ∀ content, Holds (system path) content → (∀ data, fetched port system path = some data → data = content) ∧
      (Serves path (system path) content → fetched port system path = some content) := by
  obtain ⟨pieces, last, hframes, hsizes, htotal, hend⟩ := handleRead_frames port system hpath
  have hmax : maxFileSize.toNat = 2147483647 := rfl
  have hid := nextId_toNat st
  have hsteps := chunk_steps hsizes (show 0 + pieces.flatten.length < 2 ^ 32 by omega) crc32Begin [] st.nextId
  rw [Nat.zero_add, List.nil_append] at hsteps
  have hcount := chunks_count hsizes
  have hpayload : maxPayload = 65536 := rfl
  have hrounds : (chunkFrames 0 pieces).length < env.fuel := by
    rw [chunkFrames_length]
    omega
  have hwire : 24 + maxPayload < env.fuel := by omega
  have hsmall : last.2.length ≤ maxPayload := by
    rcases hend with ⟨hrefusal, -⟩ | ⟨rfl, -⟩
    · exact hrefusal.small
    · exact Nat.le_of_ble_eq_true rfl
  rw [hframes]
  refine ⟨?_, ?_, fun content hholds => ⟨fun data hdata => fetched_holds hholds hdata, fetched_serves hholds⟩⟩
  · intro answers harrived
    rw [getBytes_loop env hconnected hpath]
    rcases hend with ⟨hrefusal, hfetched⟩ | ⟨rfl, hfetched⟩
    · rw [hfetched]
      exact Prog.run_bind_error (loop_refused env hconnected.nextId.socket hid hwire hsteps hrefusal harrived hrounds more) _
    · have htype : [msgFileReadChunk, msgFileReadComplete].contains msgFileReadCompleteType.toNat = true := by decide
      have hne : msgFileReadCompleteType ≠ msgErrorResponse := by decide
      rw [hfetched, Prog.run_bind_ok (loop_last env hconnected.nextId.socket hid hwire hsteps hsmall hne htype
        (downloadTake_complete _ _ _) harrived hrounds more)]
      exact downloadEnd_complete (by omega) _ more
  · intro answers hsevered
    obtain ⟨exc, hexc⟩ := loop_broken env hconnected.nextId.socket hid hwire hsteps hsmall hsevered hrounds more
    rw [getBytes_loop env hconnected hpath]
    exact ⟨exc, Prog.run_bind_error hexc _⟩

/-- A file of two bytes, which are read one by one. -/
def hiCalls : ReadCalls :=
  ⟨⟨true, 0⟩, some 2, 0, fun offset => ⟨true, ((ascii "hi").drop offset).take 1, 0⟩⟩

theorem get_bytes_exact_demo : ∃ answers,
    Arrived 42 (handleRead winReadPort (fun _ => hiCalls) (stringField (ascii "A"))) answers ∧
      (getBytes demoEnv (pyString (ascii "A"))).run ⟨demoClient, .done (.ok ()) :: (answers ++ [])⟩ =
        some (.ok (ascii "hi"), ⟨demoClient.nextId, []⟩) := by
  obtain ⟨answers, harrived⟩ := exists_arrived 42 (handleRead winReadPort (fun _ => hiCalls) (stringField (ascii "A")))
  have hlength : (ascii "A").length = 1 := rfl
  have hpath : WireText (ascii "A") := .of_all rfl (by omega)
  have hholds : Holds hiCalls (ascii "hi") :=
    ⟨rfl, fun offset _ => List.take_prefix _ _⟩
  have hserves : Serves (ascii "A") hiCalls (ascii "hi") := by
    refine ⟨by decide, rfl, by decide, fun offset hoffset => ⟨rfl, ?_⟩⟩
    have htwo : (ascii "hi").length = 2 := rfl
    rw [htwo] at hoffset
    obtain rfl | rfl : offset = 0 ∨ offset = 1 := by omega
    · decide
    · decide
  have hfuel : 2 ^ 32 ≤ demoEnv.fuel := le_rfl
  have hconnected : Connected demoClient capFileRead := by
    refine ⟨rfl, _, rfl, ?_⟩
    decide
  obtain ⟨hfile, -, hcontent⟩ := get_bytes_exact winReadPort (fun _ => hiCalls) hpath hfuel
    hconnected []
  have hfetched := (hcontent (ascii "hi") hholds).2 hserves
  refine ⟨answers, harrived, ?_⟩
  rw [hfile answers harrived, hfetched]
  rfl

end V9xRemote
