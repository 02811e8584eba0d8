import V9xRemote.Proof.PutStream
import V9xRemote.Spec.PutStream

/-!
# A pipelined upload does what the plain one does

Every frame sent is answered in its turn (`Travel`), and the client stands where the answers it
has read put it (`PutStands`). So whatever the window, the transport and the order of the steps,
the frames are those of `plainFrames`, and a run ends when all are answered (`put_pipelined`).
-/

namespace V9xRemote

open Bytes Trace

/-! ## The chunks of a file -/

variable {K : Type} {job : PutJob} {window : ℕ} {transport : PutTransport} {p p' : PutPipe K} {id : UInt32}

/-- Where the chunks of a refill end. -/
def refillEnd (job : PutJob) (room offset : ℕ) : ℕ := ((refillChunks job room offset).1.map chunkEnd).getLastD offset

/-- The chunks from an offset to the end of the file. -/
def restChunks (job : PutJob) (offset : ℕ) : List (ℕ × Bytes) := (refillChunks job (job.size - offset) offset).1

theorem refillChunks_end (room : ℕ) {offset : ℕ} (h : job.size ≤ offset) : refillChunks job room offset = ([], true) := by
  cases room with
  | zero => rfl
  | succ room => rw [refillChunks, if_neg (not_lt.2 h)]

section

variable (hfile : job.second = job.first)

include hfile

/-- Before the end of the file there is something to read. -/
theorem piece_ne_nil {offset : ℕ} (h : offset < job.size) :
    (job.second.drop offset).take (min chunkSize (job.size - offset)) ≠ [] := by
  rw [Ne, List.take_eq_nil_iff, List.drop_eq_nil_iff, hfile, not_or]
  refine ⟨?_, ?_⟩
  · have hpos : 0 < chunkSize := by decide
    omega
  · exact not_le.2 h

theorem refillChunks_cons {room offset : ℕ} (h : offset < job.size) :
    refillChunks job (room + 1) offset =
      ((offset, (job.second.drop offset).take (min chunkSize (job.size - offset))) ::
          (refillChunks job room (offset + min chunkSize (job.size - offset))).1,
        (refillChunks job room (offset + min chunkSize (job.size - offset))).2) := by
  have hlength : ((job.second.drop offset).take (min chunkSize (job.size - offset))).length =
      min chunkSize (job.size - offset) := by
    rw [List.length_take, List.length_drop, hfile]
    show min _ (job.size - offset) = _
    omega
  rw [refillChunks, if_pos h]
  dsimp only
  rw [if_neg (piece_ne_nil hfile h), hlength]

/-- A file that has not changed has every chunk. -/
theorem refillChunks_whole (room offset : ℕ) : (refillChunks job room offset).2 = true := by
  induction room generalizing offset with
  | zero => rfl
  | succ room ih =>
    rcases Nat.lt_or_ge offset job.size with h | h
    · rw [refillChunks_cons hfile h]
      exact ih _
    · rw [refillChunks_end _ h]

theorem refillChunks_length (room offset : ℕ) : (refillChunks job room offset).1.length ≤ room := by
  induction room generalizing offset with
  | zero => exact le_rfl
  | succ room ih =>
    rcases Nat.lt_or_ge offset job.size with h | h
    · rw [refillChunks_cons hfile h, List.length_cons]
      exact Nat.succ_le_succ (ih _)
    · rw [refillChunks_end _ h]
      exact Nat.zero_le _

/-- A refill with enough room reads to the end. -/
theorem refillChunks_enough {room more offset : ℕ} (hroom : job.size - offset ≤ room) (hmore : job.size - offset ≤ more) :
    (refillChunks job room offset).1 = (refillChunks job more offset).1 := by
  induction room generalizing more offset with
  | zero => rw [refillChunks_end _ (by omega), refillChunks_end _ (by omega)]
  | succ room ih =>
    rcases Nat.lt_or_ge offset job.size with hlt | hge
    · have hpos : 0 < chunkSize := by decide
      obtain ⟨left, rfl⟩ : ∃ left, more = left + 1 := ⟨more - 1, by omega⟩
      have hrest : (refillChunks job room (offset + min chunkSize (job.size - offset))).1 =
          (refillChunks job left (offset + min chunkSize (job.size - offset))).1 := ih (by omega) (by omega)
      rw [refillChunks_cons hfile hlt, refillChunks_cons hfile hlt]
      dsimp only
      rw [hrest]
    · rw [refillChunks_end _ hge, refillChunks_end _ hge]

/-- What a refill leaves is read behind it. -/
theorem refillChunks_rest (room offset : ℕ) :
    (refillChunks job room offset).1 ++ restChunks job (refillEnd job room offset) = restChunks job offset := by
  induction room generalizing offset with
  | zero => rfl
  | succ room ih =>
    rcases Nat.lt_or_ge offset job.size with hlt | hge
    · have hpos : 0 < chunkSize := by decide
      set next := offset + min chunkSize (job.size - offset)
      have hend : refillEnd job (room + 1) offset = refillEnd job room next := by
        unfold refillEnd
        rw [refillChunks_cons hfile hlt]
        dsimp only
        rw [List.map_cons, List.getLastD_cons]
        congr 1
        show offset + (List.take _ _).length = next
        rw [List.length_take, List.length_drop, hfile]
        show offset + min _ (job.size - offset) = _
        omega
      have hrest : restChunks job offset =
          (offset, (job.second.drop offset).take (min chunkSize (job.size - offset))) :: restChunks job next := by
        have henough : job.size - offset ≤ (job.size - offset - 1) + 1 := by omega
        have hnext : job.size - next ≤ job.size - offset - 1 := by omega
        unfold restChunks
        rw [refillChunks_enough hfile (le_refl _) henough, refillChunks_cons hfile hlt]
        dsimp only
        rw [refillChunks_enough hfile hnext (le_refl (job.size - next))]
      rw [hend, hrest, ← ih next, refillChunks_cons hfile hlt]
      rfl
    · have hend : refillEnd job (room + 1) offset = offset := by
        unfold refillEnd
        rw [refillChunks_end _ hge]
        rfl
      rw [hend, refillChunks_end _ hge]
      rfl

end

/-! ## The frames of an upload -/

def openFrame (id : UInt32) (job : PutJob) : UInt32 × PutRequest := (id, .upload (.openWrite job.opening))

def commitFrame (id : UInt32) : UInt32 × PutRequest := (id, .upload (.commit []))

/-- The frames of an upload, in their order. -/
def plainFrames (id : UInt32) (job : PutJob) : List (UInt32 × PutRequest) :=
  openFrame id job :: ((restChunks job 0).map (chunkRequest id) ++ [commitFrame id])

/-- What is answered to a frame. -/
def acceptedAnswer (job : PutJob) (frame : UInt32 × PutRequest) : UInt32 × PutReply :=
  (frame.1, acceptReply (UInt32.ofNat job.size, job.crc) frame.2)

theorem mem_plainFrames {frame : UInt32 × PutRequest} (h : frame ∈ plainFrames id job) :
    frame = openFrame id job ∨ (∃ chunk, frame = chunkRequest id chunk) ∨ frame = commitFrame id := by
  rcases List.mem_cons.1 h with rfl | h
  · exact Or.inl rfl
  · rcases List.mem_append.1 h with h | h
    · obtain ⟨chunk, -, rfl⟩ := List.mem_map.1 h
      exact Or.inr (Or.inl ⟨chunk, rfl⟩)
    · exact Or.inr (Or.inr (List.mem_singleton.1 h))

theorem plainFrames_id {frame : UInt32 × PutRequest} (h : frame ∈ plainFrames id job) : frame.1 = id := by
  obtain rfl | ⟨chunk, rfl⟩ | rfl := mem_plainFrames h
  · rfl
  · rfl
  · rfl

theorem announce_open (announced : UInt32 × UInt32) (id : UInt32) (job : PutJob) :
    announce announced (openFrame id job).2 = (UInt32.ofNat job.size, job.crc) := by
  obtain ⟨hsize, hcrc⟩ := opening_fields job
  show (job.opening.readU32 0, job.opening.readU32 4) = _
  rw [hsize, hcrc]

/-- Once the agent is told of the upload, no frame tells it otherwise. -/
theorem announce_told {frame : UInt32 × PutRequest} (h : frame ∈ plainFrames id job) :
    announce (UInt32.ofNat job.size, job.crc) frame.2 = (UInt32.ofNat job.size, job.crc) := by
  obtain rfl | ⟨chunk, rfl⟩ | rfl := mem_plainFrames h
  · exact announce_open _ id job
  · rfl
  · rfl

theorem answer_open (id : UInt32) (job : PutJob) :
    acceptedAnswer job (openFrame id job) = (id, .upload (.writeReady (UInt32.ofNat job.size) job.crc)) := by
  obtain ⟨hsize, hcrc⟩ := opening_fields job
  show (id, PutReply.upload (.writeReady (job.opening.readU32 0) (job.opening.readU32 4))) = _
  rw [hsize, hcrc]

theorem answer_chunk (id : UInt32) (job : PutJob) (chunk : ℕ × Bytes) :
    acceptedAnswer job (chunkRequest id chunk) = chunkAck id chunk := by
  obtain ⟨-, hoffset, hdata⟩ := chunkPayload_fields chunk
  show (id, PutReply.upload (.writeAck ((chunkPayload chunk).readU32 0 + UInt32.ofNat ((chunkPayload chunk).drop 4).length))) = _
  rw [hoffset, hdata, ← UInt32.ofNat_add]
  rfl

/-- **The agents' own handlers** answer as `acceptReply` does wherever they do not refuse. -/
theorem handleUpload_accepts [DecidableEq K] (port : Port K) (slot : UInt32) (fs : Fs K) (upload : Option WriteState)
    (results : UploadResults) (request : UploadRequest) {announced : UInt32 × UInt32}
    (hannounced : ∀ ws ∈ upload, announced = (ws.expectedSize, ws.expectedCrc)) :
    (∃ status native detail, (handleUpload port slot fs upload id results request).2.2 = .error status native detail) ∨
      PutReply.upload (handleUpload port slot fs upload id results request).2.2 = acceptReply announced (.upload request) := by
  cases request with
  | openWrite payload =>
    unfold handleUpload handleOpenWrite
    dsimp only
    split
    · exact Or.inl ⟨_, _, _, rfl⟩
    split
    · exact Or.inl ⟨_, _, _, rfl⟩
    split
    · exact Or.inl ⟨_, _, _, rfl⟩
    split
    · exact Or.inl ⟨_, _, _, rfl⟩
    · exact Or.inr rfl
  | writeChunk payload =>
    unfold handleUpload handleWriteChunk
    dsimp only
    split
    · exact Or.inl ⟨_, _, _, rfl⟩
    · rename_i ws
      split
      · exact Or.inl ⟨_, _, _, rfl⟩
      split
      · exact Or.inl ⟨_, _, _, rfl⟩
      split
      · exact Or.inl ⟨_, _, _, rfl⟩
      · -- the agent answers with its own count, which the offset is checked against
        rename_i hoffset _ _
        have hreceived : payload.readU32 0 = ws.received := by
          simp only [Bool.or_eq_true, bne_iff_ne, ne_eq, not_or, not_not] at hoffset
          exact hoffset.2
        refine Or.inr ?_
        unfold acceptReply
        dsimp only
        rw [hreceived]
  | commit payload =>
    unfold handleUpload handleCommit
    dsimp only
    split
    · exact Or.inl ⟨_, _, _, rfl⟩
    · rename_i ws
      split
      · exact Or.inl ⟨_, _, _, rfl⟩
      split
      · exact Or.inl ⟨_, _, _, rfl⟩
      · -- the size and the CRC confirmed are the file's, checked against those announced
        unfold commitClosed
        dsimp only
        split
        · exact Or.inl ⟨_, _, _, rfl⟩
        · rename_i hexpected
          split
          · exact Or.inl ⟨_, _, _, rfl⟩
          · refine Or.inr ?_
            simp only [Bool.or_eq_true, bne_iff_ne, ne_eq, not_or, not_not] at hexpected
            obtain ⟨hsize, hcrc⟩ := hexpected
            unfold acceptReply
            dsimp only
            rw [hannounced ws rfl, hsize, hcrc]

/-! ## Frames on their way -/

/-- **Where the frames are**: those read, those answered, and those at the agent or kept back
are the frames sent, in this order. -/
structure Travel (id : UInt32) (job : PutJob) (p : PutPipe K) (gone done : List (UInt32 × PutRequest)) : Prop where
  sent : p.sent = gone ++ done ++ (p.system.requests ++ p.pending)
  read : p.read = gone.map (acceptedAnswer job)
  replies : p.system.replies = done.map (acceptedAnswer job)
  plain : p.sent <+: plainFrames id job
  told : gone ++ done ≠ [] → p.announced = (UInt32.ofNat job.size, job.crc)
  requestId : p.system.requestId = id

variable {gone done : List (UInt32 × PutRequest)}

theorem Travel.flush (h : Travel id job p gone done) : Travel id job p.flush gone done where
  sent := by
    rw [PutPipe.flush, List.append_nil]
    exact h.sent
  read := h.read
  replies := h.replies
  plain := h.plain
  told := h.told
  requestId := h.requestId

/-- The agent's answer to its next frame. -/
theorem Travel.accept (h : Travel id job p gone done) (hp : p.accept = some p') :
    (∃ frame, Travel id job p' gone (done ++ [frame]) ∧ p.system.requests = frame :: p'.system.requests) ∧
      p'.system.pc = p.system.pc ∧ p'.sent = p.sent ∧ p'.read = p.read ∧ p'.pending = p.pending := by
  unfold PutPipe.accept at hp
  split at hp
  · cases hp
  · rename_i fid request requests hrequests
    obtain rfl := Option.some.inj hp
    refine ⟨⟨(fid, request), ?_, hrequests⟩, rfl, rfl, rfl, rfl⟩
    have hsent := h.sent
    rw [hrequests] at hsent
    have hmem : (fid, request) ∈ plainFrames id job := by
      apply h.plain.subset
      rw [hsent]
      simp
    have htold : announce p.announced request = (UInt32.ofNat job.size, job.crc) := by
      by_cases hfirst : gone ++ done = []
      · -- the first frame of all is OPEN_WRITE
        rw [hfirst, List.nil_append] at hsent
        obtain ⟨rest, hrest⟩ := h.plain
        rw [hsent] at hrest
        obtain ⟨hopen, -⟩ := List.cons.inj hrest
        have hrequest : request = (openFrame id job).2 := congrArg Prod.snd hopen
        rw [hrequest]
        exact announce_open _ id job
      · rw [h.told hfirst]
        exact announce_told hmem
    constructor
    · show p.sent = _
      rw [hsent]
      simp
    · exact h.read
    · show p.system.replies ++ [(fid, acceptReply (announce p.announced request) request)] = _
      rw [htold, h.replies, List.map_append]
      rfl
    · exact h.plain
    · intro _
      exact htold
    · exact h.requestId

/-! ## The client -/

section

variable (transport : PutTransport) (p : PutPipe K) (s : PutSystem K)

@[simp] theorem sendAll_sent : (p.sendAll transport s).sent = p.sent ++ s.requests := by cases transport <;> rfl
@[simp] theorem sendAll_read : (p.sendAll transport s).read = p.read := by cases transport <;> rfl
@[simp] theorem sendAll_announced : (p.sendAll transport s).announced = p.announced := by cases transport <;> rfl
@[simp] theorem sendAll_pc : (p.sendAll transport s).system.pc = s.pc := by cases transport <;> rfl
@[simp] theorem sendAll_replies : (p.sendAll transport s).system.replies = s.replies := by cases transport <;> rfl
@[simp] theorem sendAll_requestId : (p.sendAll transport s).system.requestId = s.requestId := by cases transport <;> rfl

/-- With nothing kept back, the frames sent stand behind those on their way. -/
theorem sendAll_travel (hpending : p.pending = []) :
    (p.sendAll transport s).system.requests ++ (p.sendAll transport s).pending = p.system.requests ++ s.requests := by
  cases transport with
  | socket =>
    show (p.system.requests ++ s.requests) ++ p.pending = _
    rw [hpending, List.append_nil]
  | relay =>
    show p.system.requests ++ (p.pending ++ s.requests) = _
    rw [hpending, List.nil_append]

end

/-- Where the client of an upload stands behind the answers it has read: the chunks in flight
are sent and not acknowledged, and COMMIT follows the last acknowledgement. -/
def PutStands (window : ℕ) (id : UInt32) (job : PutJob) (p : PutPipe K) : Prop :=
  match p.system.pc with
  | .opening j => j = job ∧ p.sent = [openFrame id job] ∧ p.read.length = 0
  | .waiting j offset acked inFlight => j = job ∧ acked < job.size ∧ offset ≤ job.size ∧
      ∃ gone flight : List (ℕ × Bytes), gone ++ flight ++ restChunks job offset = restChunks job 0 ∧
        Contiguous acked flight offset ∧ flight ≠ [] ∧ flight.length ≤ max 1 window ∧ inFlight = flight.map chunkEnd ∧
        p.sent = openFrame id job :: (gone ++ flight).map (chunkRequest id) ∧ p.read.length = gone.length + 1
  | .committing j => j = job ∧ p.sent = plainFrames id job ∧ p.sent.length = p.read.length + 1
  | .idle last => last = some .complete ∧ p.sent = plainFrames id job ∧ p.sent.length = p.read.length
  | .asking => False

/-- **The head of the loop**, with a file that has not changed: COMMIT behind the last
acknowledgement, or a window of chunks that is not empty. -/
theorem advance_plain (hfile : job.second = job.first) (window : ℕ) (s : PutSystem K) {offset acked : ℕ}
    {flight : List (ℕ × Bytes)} (hflight : Contiguous acked flight offset) (hle : offset ≤ job.size)
    (hwindow : flight.length ≤ max 1 window) (hsent : s.requests = []) :
    (flight = [] ∧ offset = job.size ∧
        s.advance window job offset acked (flight.map chunkEnd) =
          { s with requests := [commitFrame s.requestId], pc := .committing job }) ∨
      ∃ chunks stop, acked < job.size ∧ stop ≤ job.size ∧ chunks ++ restChunks job stop = restChunks job offset ∧
        Contiguous acked (flight ++ chunks) stop ∧ flight ++ chunks ≠ [] ∧ (flight ++ chunks).length ≤ max 1 window ∧
        s.advance window job offset acked (flight.map chunkEnd) =
          { s with
            requests := chunks.map (chunkRequest s.requestId)
            pc := .waiting job stop acked ((flight ++ chunks).map chunkEnd) } := by
  unfold PutSystem.advance
  split
  · rename_i hacked
    dsimp only
    rw [List.length_map]
    set room := if flight.length ≤ max 1 window / 2 then max 1 window - flight.length else 0 with hroom
    obtain ⟨hchunks, hend⟩ := refillChunks_contiguous job room offset hle
    have hlength := refillChunks_length hfile room offset
    have hfits : flight.length + room ≤ max 1 window := by
      rw [hroom]
      split
      · omega
      · omega
    rw [if_pos (refillChunks_whole hfile room offset), hsent]
    refine Or.inr ⟨(refillChunks job room offset).1, refillEnd job room offset, hacked, hend,
      refillChunks_rest hfile room offset, hflight.append hchunks, ?_, ?_, ?_⟩
    · -- with nothing in flight there is room, and something to read: no wait without a chunk
      intro hnone
      obtain ⟨rfl, hnil⟩ := List.append_eq_nil_iff.1 hnone
      have hoffset : acked = offset := hflight
      have hfull : room = max 1 window := if_pos (Nat.zero_le _)
      have hone : 1 ≤ max 1 window := le_max_left _ _
      obtain ⟨more, hmore⟩ : ∃ more, room = more + 1 := ⟨room - 1, by omega⟩
      rw [hmore, refillChunks_cons hfile (by omega)] at hnil
      cases hnil
    · rw [List.length_append]
      omega
    · rw [List.map_append]
      rfl
  · rename_i hacked
    have hnil := hflight.eq_nil (by omega)
    subst hnil
    have hoffset : acked = offset := hflight
    refine Or.inl ⟨rfl, by omega, ?_⟩
    unfold PutSystem.send
    rw [hsent]
    rfl

theorem restChunks_end (job : PutJob) : restChunks job job.size = [] := by
  unfold restChunks
  rw [Nat.sub_self]
  rfl

/-- Chunks of the file, in their order from the first on, are sent behind OPEN_WRITE. -/
theorem chunks_prefix {before after : List (ℕ × Bytes)} (h : before ++ after = restChunks job 0) :
    openFrame id job :: before.map (chunkRequest id) <+: plainFrames id job := by
  refine ⟨after.map (chunkRequest id) ++ [commitFrame id], ?_⟩
  rw [plainFrames, ← h, List.map_append]
  simp

/-- The client's next frames, where it stands behind them. -/
structure Sends (window : ℕ) (id : UInt32) (job : PutJob) (sent : List (UInt32 × PutRequest)) (answers : ℕ)
    (base s : PutSystem K) : Prop where
  plain : sent ++ s.requests <+: plainFrames id job
  replies : s.replies = base.replies
  requestId : s.requestId = base.requestId
  stands : ∀ p : PutPipe K, p.system.pc = s.pc → p.sent = sent ++ s.requests → p.read.length = answers →
    PutStands window id job p

/-- The loop goes on behind the chunks acknowledged. -/
theorem advance_sends (hfile : job.second = job.first) {window : ℕ} {base : PutSystem K} {offset acked : ℕ}
    {gone flight : List (ℕ × Bytes)} {sent : List (UInt32 × PutRequest)} (hbase : base.requests = []) (hid : base.requestId = id)
    (hchunks : gone ++ flight ++ restChunks job offset = restChunks job 0) (hflight : Contiguous acked flight offset)
    (hle : offset ≤ job.size) (hwindow : flight.length ≤ max 1 window)
    (hsent : sent = openFrame id job :: (gone ++ flight).map (chunkRequest id)) :
    Sends window id job sent (gone.length + 1) base (base.advance window job offset acked (flight.map chunkEnd)) := by
  obtain ⟨rfl, rfl, heq⟩ | ⟨chunks, stop, hacked, hstop, hrest, hnext, hsome, hfits, heq⟩ :=
    advance_plain hfile window base hflight hle hwindow hbase
  · -- every chunk is acknowledged
    rw [restChunks_end, List.append_nil, List.append_nil] at hchunks
    have hall : sent ++ [commitFrame base.requestId] = plainFrames id job := by
      rw [hsent, hid, plainFrames, List.append_nil, hchunks]
      rfl
    rw [heq]
    refine ⟨?_, rfl, rfl, ?_⟩
    · show sent ++ [commitFrame base.requestId] <+: _
      rw [hall]
    · intro p hpc hp hread
      unfold PutStands
      rw [hpc]
      refine ⟨rfl, hp.trans hall, ?_⟩
      rw [hp, hread, hsent]
      simp
  · have hmore : gone ++ (flight ++ chunks) ++ restChunks job stop = restChunks job 0 := by
      rw [← hchunks, ← hrest]
      simp
    have hnew : sent ++ chunks.map (chunkRequest base.requestId) =
        openFrame id job :: (gone ++ (flight ++ chunks)).map (chunkRequest id) := by
      rw [hsent, hid]
      simp
    rw [heq]
    refine ⟨?_, rfl, rfl, ?_⟩
    · show sent ++ chunks.map (chunkRequest base.requestId) <+: _
      rw [hnew]
      exact chunks_prefix hmore
    · intro p hpc hp hread
      unfold PutStands
      rw [hpc]
      exact ⟨rfl, hacked, hstop, gone, flight ++ chunks, hmore, hnext, hsome, hfits, rfl, hp.trans hnew, hread⟩

/-- The answer read next is that to the first frame not yet answered. -/
theorem Travel.next {frame : UInt32 × PutRequest} {rest : List (UInt32 × PutRequest)}
    (h : Travel id job p gone (frame :: rest)) : p.sent[p.read.length]? = some frame := by
  rw [h.sent, h.read, List.length_map, List.append_assoc, List.getElem?_append_right le_rfl, Nat.sub_self]
  rfl

/-- **The client reads an answer**, and sends what follows it. -/
theorem expect_sends (hfile : job.second = job.first) {frame : UInt32 × PutRequest} {rest : List (UInt32 × PutRequest)}
    (h : Travel id job p gone (frame :: rest)) (hs : PutStands window id job p) (hbusy : ∀ last, p.system.pc ≠ .idle last) :
    ∃ s, PutSystem.expect window { p.system with requests := [] } = some s ∧
      Sends window id job p.sent (p.read.length + 1)
        { p.system with requests := [], replies := rest.map (acceptedAnswer job) } s := by
  have hframe : frame ∈ plainFrames id job := by
    apply h.plain.subset
    rw [h.sent]
    simp
  have hreplies : p.system.replies = (p.system.requestId, (acceptedAnswer job frame).2) :: rest.map (acceptedAnswer job) := by
    rw [h.replies, h.requestId, List.map_cons, ← plainFrames_id hframe]
    rfl
  refine ⟨_, expect_cons hreplies, ?_⟩
  set base : PutSystem K := { p.system with requests := [], replies := rest.map (acceptedAnswer job) } with hbase
  have hid : base.requestId = id := h.requestId
  have hnext := h.next
  unfold PutStands at hs
  cases hpc : p.system.pc with
  | idle last => exact absurd hpc (hbusy last)
  | asking =>
    rw [hpc] at hs
    exact hs.elim
  | opening j =>
    rw [hpc] at hs
    obtain ⟨rfl, hopen, hnone⟩ := hs
    rw [hopen, hnone] at hnext
    obtain rfl : openFrame id j = frame := Option.some.inj hnext
    rw [answer_open, hnone]
    have hanswer : base.answer window (.upload (.writeReady (UInt32.ofNat j.size) j.crc)) = base.advance window j 0 0 [] := by
      unfold PutSystem.answer
      dsimp only
      rw [show base.pc = .opening j from hpc]
      simp
    show Sends window id j p.sent (0 + 1) base (base.answer window (.upload (.writeReady (UInt32.ofNat j.size) j.crc)))
    rw [hanswer]
    -- nothing is in flight yet
    have hchunks : ([] : List (ℕ × Bytes)) ++ [] ++ restChunks j 0 = restChunks j 0 := rfl
    exact advance_sends hfile rfl hid hchunks rfl (Nat.zero_le _) (Nat.zero_le _) hopen
  | waiting j offset acked inFlight =>
    rw [hpc] at hs
    obtain ⟨rfl, -, hle, before, flight, hchunks, hflight, hsome, hfits, hends, hall, hread⟩ := hs
    -- the answer is that to the first chunk in flight, which moves to those acknowledged
    obtain ⟨chunk, flight, rfl⟩ := List.exists_cons_of_ne_nil hsome
    rw [hall, hread, List.getElem?_cons_succ, List.map_append, List.getElem?_append_right (by rw [List.length_map]),
      List.length_map, Nat.sub_self] at hnext
    obtain rfl : chunkRequest id chunk = frame := Option.some.inj hnext
    rw [answer_chunk]
    have hanswer : base.answer window (chunkAck id chunk).2 =
        base.advance window j offset (chunkEnd chunk) (flight.map chunkEnd) := by
      unfold PutSystem.answer
      dsimp only [chunkAck]
      rw [show base.pc = .waiting j offset acked (chunkEnd chunk :: flight.map chunkEnd) by rw [hends] at hpc; exact hpc]
      simp
    show Sends window id j p.sent (p.read.length + 1) base (base.answer window (chunkAck id chunk).2)
    have hcount : p.read.length = (before ++ [chunk]).length := by
      rw [hread, List.length_append]
      rfl
    have hlist : before ++ chunk :: flight = before ++ [chunk] ++ flight := by simp
    rw [hlist] at hchunks hall
    rw [hanswer, hcount]
    exact advance_sends hfile rfl hid hchunks hflight.2.2.2 hle (Nat.le_of_succ_le hfits) hall
  | committing j =>
    rw [hpc] at hs
    obtain ⟨rfl, hall, hread⟩ := hs
    have hlast : p.read.length = (openFrame id j :: (restChunks j 0).map (chunkRequest id)).length := by
      rw [hall, plainFrames] at hread
      simp only [List.length_cons, List.length_append, List.length_nil] at hread ⊢
      omega
    rw [hall, plainFrames, ← List.cons_append, hlast, List.getElem?_append_right le_rfl, Nat.sub_self] at hnext
    obtain rfl : commitFrame id = frame := Option.some.inj hnext
    have hanswer : base.answer window (acceptedAnswer j (commitFrame id)).2 = base.finish .complete := by
      unfold PutSystem.answer
      dsimp only [acceptedAnswer, acceptReply, commitFrame]
      rw [show base.pc = .committing j from hpc]
      simp
    show Sends window id j p.sent (p.read.length + 1) base (base.answer window (acceptedAnswer j (commitFrame id)).2)
    rw [hanswer]
    refine ⟨?_, rfl, rfl, ?_⟩
    · show p.sent ++ [] <+: _
      rw [List.append_nil]
      exact h.plain
    · intro q hq hsent hanswers
      have hsame : q.sent = p.sent := hsent.trans (List.append_nil _)
      unfold PutStands
      rw [hq]
      refine ⟨rfl, hsame.trans hall, ?_⟩
      rw [hsame, hanswers, hread]

/-! ## Runs -/

/-- **An upload under way**: its frames are on their way, and its client stands behind them. -/
structure PutUnderway (window : ℕ) (id : UInt32) (job : PutJob) (p : PutPipe K) : Prop where
  travel : ∃ gone done, Travel id job p gone done
  stands : PutStands window id job p

/-- The steps that are left: a frame is sent, comes to the agent, is answered and its answer read. -/
def pipeLeft (id : UInt32) (job : PutJob) (p : PutPipe K) : ℕ :=
  4 * ((plainFrames id job).length - p.sent.length) + 3 * p.pending.length + 2 * p.system.requests.length + p.system.replies.length

theorem stands_of_eq (h : PutStands window id job p) (hpc : p'.system.pc = p.system.pc) (hsent : p'.sent = p.sent)
    (hread : p'.read = p.read) : PutStands window id job p' := by
  unfold PutStands at h ⊢
  rw [hpc, hsent, hread]
  exact h

theorem flush_underway (h : PutUnderway window id job p) (hpending : p.pending ≠ []) :
    PutUnderway window id job p.flush ∧ pipeLeft id job p.flush < pipeLeft id job p := by
  obtain ⟨⟨gone, done, htravel⟩, hstands⟩ := h
  refine ⟨⟨⟨gone, done, htravel.flush⟩, stands_of_eq hstands rfl rfl rfl⟩, ?_⟩
  have hpos := List.length_pos_iff.2 hpending
  unfold pipeLeft PutPipe.flush
  simp only [List.length_append, List.length_nil]
  omega

theorem accept_underway (h : PutUnderway window id job p) (hp : p.accept = some p') :
    PutUnderway window id job p' ∧ pipeLeft id job p' < pipeLeft id job p := by
  obtain ⟨⟨gone, done, htravel⟩, hstands⟩ := h
  obtain ⟨⟨frame, htravel', hrequests⟩, hpc, hsent, hread, hpending⟩ := htravel.accept hp
  refine ⟨⟨⟨gone, done ++ [frame], htravel'⟩, stands_of_eq hstands hpc hsent hread⟩, ?_⟩
  unfold pipeLeft
  rw [hsent, hpending, hrequests, htravel.replies, htravel'.replies]
  simp only [List.length_cons, List.length_map, List.length_append, List.length_nil]
  omega

/-- Behind a read the frames are as before, with the new ones. -/
theorem Travel.expect {frame : UInt32 × PutRequest} {rest : List (UInt32 × PutRequest)} (h : Travel id job p gone (frame :: rest))
    {s : PutSystem K} (hs : Sends window id job p.sent (p.read.length + 1)
      { p.system with requests := [], replies := rest.map (acceptedAnswer job) } s) :
    Travel id job { p.flush.sendAll transport s with read := p.read ++ [acceptedAnswer job frame] } (gone ++ [frame]) rest := by
  have hway := sendAll_travel transport p.flush s rfl
  constructor
  · show (p.flush.sendAll transport s).sent =
      gone ++ [frame] ++ rest ++ ((p.flush.sendAll transport s).system.requests ++ (p.flush.sendAll transport s).pending)
    rw [hway, sendAll_sent]
    show p.sent ++ s.requests = gone ++ [frame] ++ rest ++ ((p.system.requests ++ p.pending) ++ s.requests)
    rw [h.sent]
    simp
  · show p.read ++ [acceptedAnswer job frame] = _
    rw [h.read, List.map_append]
    rfl
  · show (p.flush.sendAll transport s).system.replies = _
    rw [sendAll_replies]
    exact hs.replies
  · show (p.flush.sendAll transport s).sent <+: _
    rw [sendAll_sent]
    exact hs.plain
  · intro _
    show (p.flush.sendAll transport s).announced = _
    rw [sendAll_announced]
    exact h.told (by simp)
  · show (p.flush.sendAll transport s).system.requestId = _
    rw [sendAll_requestId, hs.requestId]
    exact h.requestId

theorem expect_underway (hfile : job.second = job.first) (h : PutUnderway window id job p)
    (hbusy : ∀ last, p.system.pc ≠ .idle last) (hp : p.expect transport window = some p') :
    PutUnderway window id job p' ∧ pipeLeft id job p' < pipeLeft id job p := by
  obtain ⟨⟨gone, done, htravel⟩, hstands⟩ := h
  cases done with
  | nil =>
    unfold PutPipe.expect at hp
    rw [htravel.replies] at hp
    cases hp
  | cons frame rest =>
    obtain ⟨s, hexpect, hsends⟩ := expect_sends hfile htravel hstands hbusy
    unfold PutPipe.expect at hp
    rw [htravel.replies] at hp
    dsimp only [List.map_cons] at hp
    rw [hexpect] at hp
    obtain rfl := Option.some.inj hp
    refine ⟨⟨⟨gone ++ [frame], rest, htravel.expect hsends⟩, ?_⟩, ?_⟩
    · refine hsends.stands _ ?_ ?_ ?_
      · exact sendAll_pc _ _ _
      · exact sendAll_sent _ _ _
      · show (p.read ++ [_]).length = _
        rw [List.length_append]
        rfl
    · have hroom := hsends.plain.length_le
      rw [List.length_append] at hroom
      unfold pipeLeft
      cases transport with
      | socket =>
        simp only [PutPipe.sendAll, PutPipe.flush, htravel.replies, hsends.replies, List.length_append, List.length_map,
          List.length_cons, List.length_nil]
        omega
      | relay =>
        simp only [PutPipe.sendAll, PutPipe.flush, htravel.replies, hsends.replies, List.length_append, List.length_map,
          List.length_cons, List.nil_append]
        omega

/-- **One step.** -/
theorem pipeStep_underway (hfile : job.second = job.first) (h : PutUnderway window id job p) {act : PipeAct}
    (hp : pipeStep transport window p act = some p') :
    PutUnderway window id job p' ∧ pipeLeft id job p' < pipeLeft id job p := by
  cases act with
  | flush =>
    unfold pipeStep at hp
    dsimp only at hp
    split at hp
    · cases hp
    · split at hp
      · cases hp
      · rename_i hpending
        obtain rfl := Option.some.inj hp
        exact flush_underway h hpending
  | accept => exact accept_underway h hp
  | expect =>
    unfold pipeStep at hp
    dsimp only at hp
    split at hp
    · cases hp
    · -- a client that is through reads nothing more
      rename_i hbusy
      exact expect_underway hfile h hbusy hp

/-! ## The call -/

/-- `put_stream` sends OPEN_WRITE: the size and the path are ones the protocol has. -/
def PutJob.Sendable (job : PutJob) : Prop :=
  job.size ≤ maxFile ∧ ¬ (job.path.any fun b => b == 0 || b > 0x7f) = true ∧ job.path.length ≤ 65535 ∧
    job.opening.length ≤ maxPayload

instance (job : PutJob) : Decidable job.Sendable := inferInstanceAs (Decidable (_ ∧ _))

/-- The id of the requests of a call. -/
def callId (requestId : UInt32) : UInt32 := requestId % 0x7FFFFFFE + 1

theorem start_underway (transport : PutTransport) (window : ℕ) (fs : Fs K) (requestId : UInt32) (h : job.Sendable) :
    PutUnderway window (callId requestId) job (.start transport fs requestId job) ∧
      pipeLeft (callId requestId) job (.start transport fs requestId job) ≤ 4 * (plainFrames (callId requestId) job).length := by
  obtain ⟨hsize, hpath, hlength, hopening⟩ := h
  have hput : (PutSystem.start fs none requestId).put job =
      ⟨fs, none, [openFrame (callId requestId) job], [], callId requestId, .opening job⟩ := by
    unfold PutSystem.put
    rw [if_neg (not_lt.2 hsize), if_neg hpath, if_neg (not_lt.2 hlength), if_neg (not_lt.2 hopening)]
    rfl
  have hprefix : [openFrame (callId requestId) job] <+: plainFrames (callId requestId) job := ⟨_, rfl⟩
  unfold PutPipe.start
  rw [hput]
  cases transport with
  | socket =>
    refine ⟨⟨⟨[], [], rfl, rfl, rfl, hprefix, fun h => absurd rfl h, rfl⟩, rfl, rfl, rfl⟩, ?_⟩
    show 4 * ((plainFrames (callId requestId) job).length - 1) + 0 + 2 + 0 ≤ _
    have hpos := hprefix.length_le
    simp only [List.length_cons, List.length_nil] at hpos
    omega
  | relay =>
    refine ⟨⟨⟨[], [], rfl, rfl, rfl, hprefix, fun h => absurd rfl h, rfl⟩, rfl, rfl, rfl⟩, ?_⟩
    show 4 * ((plainFrames (callId requestId) job).length - 1) + 3 + 0 + 0 ≤ _
    have hpos := hprefix.length_le
    simp only [List.length_cons, List.length_nil] at hpos
    omega

/-- The client is through. -/
def PutPipe.Through (p : PutPipe K) : Prop := ∃ last, p.system.pc = .idle last

/-- A call that is refused sends nothing, and nothing follows. -/
theorem start_refused (transport : PutTransport) (window : ℕ) (fs : Fs K) (requestId : UInt32) (h : ¬ job.Sendable) :
    (PutPipe.start transport fs requestId job).sent = [] ∧ (PutPipe.start transport fs requestId job).Through ∧
      ∀ act, pipeStep transport window (.start transport fs requestId job) act = none := by
  have hput : ∃ id outcome, (PutSystem.start fs none requestId).put job = ⟨fs, none, [], [], id, .idle (some outcome)⟩ := by
    unfold PutSystem.put
    split
    · exact ⟨_, _, rfl⟩
    split
    · exact ⟨_, _, rfl⟩
    split
    · exact ⟨_, _, rfl⟩
    split
    · exact ⟨_, _, rfl⟩
    · rename_i hsize hpath hlength hopening
      exact absurd ⟨not_lt.1 hsize, hpath, not_lt.1 hlength, not_lt.1 hopening⟩ h
  obtain ⟨id, outcome, hput⟩ := hput
  unfold PutPipe.start
  rw [hput]
  cases transport with
  | socket => exact ⟨rfl, ⟨_, rfl⟩, fun act => by cases act <;> rfl⟩
  | relay => exact ⟨rfl, ⟨_, rfl⟩, fun act => by cases act <;> rfl⟩

/-- **What holds of an upload at any point of its run.** -/
structure Pipelined (window : ℕ) (id : UInt32) (job : PutJob) (p : PutPipe K) : Prop where
  /-- the frames sent are the first of the plain upload's -/
  frames : p.sent <+: plainFrames id job
  /-- one answer is read for each frame, in the order they were sent -/
  answers : p.read = (p.sent.take p.read.length).map (acceptedAnswer job)
  /-- every other frame is on its way, or its answer is -/
  conserved : p.sent.length = p.read.length + (p.system.replies.length + p.system.requests.length + p.pending.length)
  /-- the frames without an answer, and so the chunks -/
  unanswered : (p.sent.drop p.read.length).length ≤ max 1 window
  /-- where the client waits, it waits for the answer to a frame -/
  waits : (∀ last, p.system.pc ≠ .idle last) → p.read.length < p.sent.length
  /-- in the loop, for that to a chunk -/
  waitsChunk : ∀ j offset acked inFlight, p.system.pc = .waiting j offset acked inFlight →
    ∃ chunk, p.sent[p.read.length]? = some (chunkRequest id chunk)
  /-- every chunk is acknowledged before COMMIT -/
  commit : commitFrame id ∈ p.sent → acceptedAnswer job (openFrame id job) :: (restChunks job 0).map (chunkAck id) <+: p.read

/-- With one frame left to be answered at most, every chunk is acknowledged. -/
theorem acks_prefix (hsent : p.sent = plainFrames id job) (hcount : p.sent.length ≤ p.read.length + 1)
    (hanswers : p.read = (p.sent.take p.read.length).map (acceptedAnswer job)) :
    acceptedAnswer job (openFrame id job) :: (restChunks job 0).map (chunkAck id) <+: p.read := by
  set front := openFrame id job :: (restChunks job 0).map (chunkRequest id) with hfront
  have hall : p.sent = front ++ [commitFrame id] := hsent
  have hle : front.length ≤ p.read.length := by
    rw [hall, List.length_append, List.length_singleton] at hcount
    omega
  have hacks : front.map (acceptedAnswer job) = acceptedAnswer job (openFrame id job) :: (restChunks job 0).map (chunkAck id) := by
    rw [hfront, List.map_cons, List.map_map]
    congr 1
    apply List.map_congr_left
    intro chunk _
    exact answer_chunk id job chunk
  rw [← hacks, hanswers]
  apply List.IsPrefix.map
  rw [hall, List.take_append]
  rw [List.take_of_length_le hle]
  exact List.prefix_append _ _

theorem PutUnderway.pipelined (h : PutUnderway window id job p) : Pipelined window id job p := by
  obtain ⟨⟨gone, done, htravel⟩, hstands⟩ := h
  have hread : p.read.length = gone.length := by rw [htravel.read, List.length_map]
  have htake : p.sent.take p.read.length = gone := by
    rw [htravel.sent, hread, List.append_assoc]
    exact List.take_left
  have hanswers : p.read = (p.sent.take p.read.length).map (acceptedAnswer job) := by
    rw [htake]
    exact htravel.read
  have hconserved : p.sent.length = p.read.length + (p.system.replies.length + p.system.requests.length + p.pending.length) := by
    rw [htravel.sent, hread, htravel.replies]
    simp only [List.length_append, List.length_map]
    omega
  have hone : 1 ≤ max 1 window := le_max_left _ _
  unfold PutStands at hstands
  cases hpc : p.system.pc with
  | asking =>
    rw [hpc] at hstands
    exact hstands.elim
  | opening j =>
    rw [hpc] at hstands
    obtain ⟨rfl, hsent, hnone⟩ := hstands
    refine ⟨htravel.plain, hanswers, hconserved, ?_, ?_, ?_, ?_⟩
    · rw [List.length_drop, hsent, hnone]
      exact hone
    · intro _
      rw [hsent, hnone]
      exact Nat.one_pos
    · intro j offset acked inFlight hwaiting
      rw [hpc] at hwaiting
      cases hwaiting
    · intro hcommit
      rw [hsent] at hcommit
      exact absurd (List.mem_singleton.1 hcommit) (by simp [commitFrame, openFrame])
  | waiting j offset acked inFlight =>
    rw [hpc] at hstands
    obtain ⟨rfl, -, -, before, flight, -, -, hsome, hfits, -, hsent, hcount⟩ := hstands
    have hlength : p.sent.length = p.read.length + flight.length := by
      rw [hsent, hcount]
      simp only [List.length_cons, List.length_map, List.length_append]
      omega
    have hpos := List.length_pos_iff.2 hsome
    refine ⟨htravel.plain, hanswers, hconserved, ?_, ?_, ?_, ?_⟩
    · rw [List.length_drop]
      omega
    · intro _
      omega
    · intro _ _ _ _ _
      obtain ⟨chunk, rest, rfl⟩ := List.exists_cons_of_ne_nil hsome
      refine ⟨chunk, ?_⟩
      rw [hsent, hcount, List.getElem?_cons_succ, List.map_append, List.getElem?_append_right (by rw [List.length_map]),
        List.length_map, Nat.sub_self]
      rfl
    · -- no COMMIT stands among the chunks
      intro hcommit
      rw [hsent] at hcommit
      simp [commitFrame, openFrame, chunkRequest] at hcommit
  | committing j =>
    rw [hpc] at hstands
    obtain ⟨rfl, hsent, hcount⟩ := hstands
    refine ⟨htravel.plain, hanswers, hconserved, ?_, ?_, ?_, ?_⟩
    · rw [List.length_drop]
      omega
    · intro _
      omega
    · intro j offset acked inFlight hwaiting
      rw [hpc] at hwaiting
      cases hwaiting
    · intro _
      exact acks_prefix hsent (by omega) hanswers
  | idle last =>
    rw [hpc] at hstands
    obtain ⟨rfl, hsent, hcount⟩ := hstands
    refine ⟨htravel.plain, hanswers, hconserved, ?_, ?_, ?_, ?_⟩
    · rw [List.length_drop]
      omega
    · intro hbusy
      exact absurd hpc (hbusy _)
    · intro j offset acked inFlight hwaiting
      rw [hpc] at hwaiting
      cases hwaiting
    · intro _
      exact acks_prefix hsent (by omega) hanswers

/-- An upload that is not through goes on. -/
theorem PutUnderway.goes_on (transport : PutTransport) (h : PutUnderway window id job p)
    (hbusy : ∀ last, p.system.pc ≠ .idle last) : ∃ act p', pipeStep transport window p act = some p' := by
  have hp := h.pipelined
  have hwaits := hp.waits hbusy
  have hconserved := hp.conserved
  rcases Decidable.em (p.pending = []) with hpending | hpending
  · cases hrequests : p.system.requests with
    | cons frame requests =>
      refine ⟨.accept, ?_⟩
      unfold pipeStep PutPipe.accept
      dsimp only
      rw [hrequests]
      exact ⟨_, rfl⟩
    | nil =>
      -- nothing is on its way to the agent: an answer is on its way back
      rw [hpending, hrequests] at hconserved
      have hreplies : p.system.replies ≠ [] := by
        intro hnone
        rw [hnone] at hconserved
        simp only [List.length_nil] at hconserved
        omega
      obtain ⟨⟨rid, reply⟩, replies, hreplies⟩ := List.exists_cons_of_ne_nil hreplies
      refine ⟨.expect, ?_⟩
      unfold pipeStep
      dsimp only
      split
      · rename_i last hidle
        exact absurd hidle (hbusy last)
      · unfold PutPipe.expect PutSystem.expect
        rw [hreplies]
        dsimp only
        split
        · exact ⟨_, rfl⟩
        · exact ⟨_, rfl⟩
  · refine ⟨.flush, ?_⟩
    unfold pipeStep
    dsimp only
    split
    · rename_i last hidle
      exact absurd hidle (hbusy last)
    · rw [if_neg hpending]
      exact ⟨_, rfl⟩

/-- **A pipelined upload**, over either transport, with any window and in any order of steps,
of a file that does not change. Each of its states is as `Pipelined` says; it goes on until it
is confirmed, which takes no more than four steps a frame; and what it has sent then is what an
upload over a socket with a window of one sends. -/
theorem put_pipelined (transport : PutTransport) (window : ℕ) (fs : Fs K) (requestId : UInt32) (job : PutJob)
    (hfile : job.second = job.first) {acts : List PipeAct} {p : PutPipe K}
    (h : exec (pipeStep transport window) (.start transport fs requestId job) acts = some p) :
    (job.Sendable →
      Pipelined window (callId requestId) job p ∧
      acts.length ≤ 4 * (plainFrames (callId requestId) job).length ∧
      ((∃ act p', pipeStep transport window p act = some p') ∨
        (p.system.pc = .idle (some .complete) ∧ p.sent = plainFrames (callId requestId) job ∧
          p.sent.length = p.read.length))) ∧
    (¬ job.Sendable → p.sent = [] ∧ acts = [] ∧ p.Through) ∧
    ∀ (plainActs : List PipeAct) (plain : PutPipe K),
      exec (pipeStep .socket 1) (.start .socket fs requestId job) plainActs = some plain →
        p.Through → plain.Through → p.sent = plain.sent := by
  have hrun : ∀ (t : PutTransport) (w : ℕ) (as : List PipeAct) (q : PutPipe K), job.Sendable →
      exec (pipeStep t w) (.start t fs requestId job) as = some q → PutUnderway w (callId requestId) job q := by
    intro t w as q hsend hexec
    exact exec_inv (fun _ _ _ hq hstep => (pipeStep_underway hfile hq hstep).1) (start_underway t w fs requestId hsend).1 hexec
  have hnone : ∀ (t : PutTransport) (w : ℕ) (as : List PipeAct) (q : PutPipe K), ¬ job.Sendable →
      exec (pipeStep t w) (.start t fs requestId job) as = some q → as = [] ∧ q = .start t fs requestId job := by
    intro t w as q hsend hexec
    cases as with
    | nil => exact ⟨rfl, (Option.some.inj hexec).symm⟩
    | cons act as =>
      rw [exec_cons, (start_refused t w fs requestId hsend).2.2 act] at hexec
      cases hexec
  have hthrough : ∀ (w : ℕ) (q : PutPipe K), PutUnderway w (callId requestId) job q → q.Through →
      q.system.pc = .idle (some .complete) ∧ q.sent = plainFrames (callId requestId) job ∧ q.sent.length = q.read.length := by
    rintro w q hq ⟨last, hidle⟩
    have hstands := hq.stands
    unfold PutStands at hstands
    rw [hidle] at hstands
    obtain ⟨rfl, hsent, hread⟩ := hstands
    exact ⟨hidle, hsent, hread⟩
  refine ⟨?_, ?_, ?_⟩
  · intro hsend
    obtain ⟨hstart, hleft⟩ := start_underway transport window fs requestId hsend
    have hp := hrun transport window acts p hsend h
    refine ⟨hp.pipelined, ?_, ?_⟩
    · have hbound := exec_measure (fun _ _ _ hq hstep => pipeStep_underway hfile hq hstep) hstart h
      omega
    · by_cases hidle : p.Through
      · exact Or.inr (hthrough window p hp hidle)
      · exact Or.inl (hp.goes_on transport fun last hlast => hidle ⟨last, hlast⟩)
  · intro hsend
    obtain ⟨rfl, rfl⟩ := hnone transport window acts p hsend h
    obtain ⟨hsent, hdone, -⟩ := start_refused transport window fs requestId hsend
    exact ⟨hsent, rfl, hdone⟩
  · intro plainActs plain hplain hdone hplainDone
    by_cases hsend : job.Sendable
    · rw [(hthrough window p (hrun transport window acts p hsend h) hdone).2.1,
        (hthrough 1 plain (hrun .socket 1 plainActs plain hsend hplain) hplainDone).2.1]
    · obtain ⟨-, rfl⟩ := hnone transport window acts p hsend h
      obtain ⟨-, rfl⟩ := hnone .socket 1 plainActs plain hsend hplain
      rw [(start_refused transport window fs requestId hsend).1, (start_refused .socket 1 fs requestId hsend).1]

/-- Each frame of an upload is flushed, taken and answered in turn. -/
def inTurn : List PipeAct := [.flush, .accept, .expect, .flush, .accept, .expect, .flush, .accept, .expect]

/-- One chunk through a relay session. -/
theorem put_pipelined_relay : ∃ p, exec (pipeStep .relay 32) (.start .relay noFiles 7 demoJob) inTurn = some p ∧
    p.system.pc = .idle (some .complete) ∧ Pipelined 32 8 demoJob p := by
  have hrun : (exec (pipeStep .relay 32) (.start .relay noFiles 7 demoJob) inTurn).map (·.system.pc) =
      some (.idle (some .complete)) := by
    decide
  obtain ⟨p, hp, hpc⟩ := Option.map_eq_some_iff.1 hrun
  exact ⟨p, hp, hpc, ((put_pipelined .relay 32 noFiles 7 demoJob rfl hp).1 (by decide)).1⟩

end V9xRemote
