import V9xRemote.Spec.PutStream
import V9xRemote.Proof.UploadExact

/-!
# A connection behind a failed upload

A refusal of OPEN_WRITE or of the commit leaves no upload open and nothing on its way. A
chunk is refused only where it was not written whole; the upload then stays open and the
window's other chunks are answered behind the error. `usable_iff_whole` says that the
connection is as good as a fresh one exactly where no upload was open before and every
chunk was written whole.
-/

namespace V9xRemote

open Bytes Trace

variable {K : Type} {window : ℕ} {s s' : PutSystem K}

/-! ## Chunks -/

/-- Chunks that follow one another from `start` to `stop`. -/
def Contiguous : ℕ → List (ℕ × Bytes) → ℕ → Prop
  | start, [], stop => start = stop
  | start, chunk :: rest, stop => chunk.1 = start ∧ chunk.2 ≠ [] ∧ chunk.2.length ≤ chunkSize ∧
      Contiguous (chunkEnd chunk) rest stop

theorem Contiguous.append {a b c : ℕ} {xs ys : List (ℕ × Bytes)} (hx : Contiguous a xs b) (hy : Contiguous b ys c) :
    Contiguous a (xs ++ ys) c := by
  induction xs generalizing a with
  | nil => exact (show a = b from hx) ▸ hy
  | cons chunk rest ih => exact ⟨hx.1, hx.2.1, hx.2.2.1, ih hx.2.2.2⟩

theorem Contiguous.le {a b : ℕ} {xs : List (ℕ × Bytes)} (h : Contiguous a xs b) : a + xs.length ≤ b := by
  induction xs generalizing a with
  | nil => exact le_of_eq h
  | cons chunk rest ih =>
    have hpos := List.length_pos_iff.2 h.2.1
    have := ih h.2.2.2
    have h1 := h.1
    unfold chunkEnd at this
    rw [List.length_cons]
    omega

theorem Contiguous.eq_nil {a : ℕ} {xs : List (ℕ × Bytes)} {b : ℕ} (h : Contiguous a xs b) (hle : b ≤ a) : xs = [] :=
  List.eq_nil_of_length_eq_zero (by have := h.le; omega)

/-- A refill goes on where the last chunk ended. -/
theorem refillChunks_contiguous (job : PutJob) (room offset : ℕ) (hle : offset ≤ job.size) :
    Contiguous offset (refillChunks job room offset).1
        (((refillChunks job room offset).1.map chunkEnd).getLastD offset) ∧
      ((refillChunks job room offset).1.map chunkEnd).getLastD offset ≤ job.size := by
  induction room generalizing offset with
  | zero => exact ⟨rfl, hle⟩
  | succ room ih =>
    unfold refillChunks
    split
    · rename_i hlt
      dsimp only
      split
      · exact ⟨rfl, hle⟩
      · rename_i hpiece
        set piece := (job.second.drop offset).take (min chunkSize (job.size - offset)) with hp
        have hlen : piece.length ≤ min chunkSize (job.size - offset) := List.length_take_le _ _
        obtain ⟨hrest, hend⟩ := ih (offset + piece.length) (by omega)
        rw [List.map_cons, List.getLastD_cons]
        exact ⟨⟨rfl, hpiece, le_trans hlen (min_le_left _ _), hrest⟩, hend⟩
    · exact ⟨rfl, hle⟩

/-! ## The client's loop -/

def chunkRequest (id : UInt32) (chunk : ℕ × Bytes) : UInt32 × PutRequest := (id, .upload (.writeChunk (chunkPayload chunk)))

def chunkAck (id : UInt32) (chunk : ℕ × Bytes) : UInt32 × PutReply :=
  (id, .upload (.writeAck (UInt32.ofNat (chunkEnd chunk))))

/-- **The head of the loop**: everything is acknowledged and COMMIT is sent, or chunks
follow those in flight, and the client waits or finds the file short. -/
theorem advance_spec (window : ℕ) (s : PutSystem K) {job : PutJob} {offset acked : ℕ} {flight : List (ℕ × Bytes)}
    (hflight : Contiguous acked flight offset) (hle : offset ≤ job.size) :
    (flight = [] ∧
        s.advance window job offset acked (flight.map chunkEnd) =
          { s.send (.upload (.commit [])) with pc := .committing job }) ∨
      (acked < job.size ∧ ∃ chunks,
        (s.advance window job offset acked (flight.map chunkEnd) =
          { s with
            requests := s.requests ++ chunks.map (chunkRequest s.requestId)
            pc := .idle (some (.error "local file changed during the upload")) }) ∨
        ∃ stop, Contiguous offset chunks stop ∧ stop ≤ job.size ∧
          s.advance window job offset acked (flight.map chunkEnd) =
            { s with
              requests := s.requests ++ chunks.map (chunkRequest s.requestId)
              pc := .waiting job stop acked ((flight ++ chunks).map chunkEnd) }) := by
  unfold PutSystem.advance
  split
  · rename_i hacked
    dsimp only
    set room := if (flight.map chunkEnd).length ≤ max 1 window / 2 then max 1 window - (flight.map chunkEnd).length else 0
    obtain ⟨hchunks, hend⟩ := refillChunks_contiguous job room offset hle
    refine Or.inr ⟨hacked, (refillChunks job room offset).1, ?_⟩
    split
    · refine Or.inr ⟨_, hchunks, hend, ?_⟩
      rw [List.map_append]
      rfl
    · exact Or.inl rfl
  · exact Or.inl ⟨hflight.eq_nil (by omega), rfl⟩

/-! ## Unbroken and broken uploads -/

/-- The chunk the agent takes next. -/
def PutSystem.nextChunk (s : PutSystem K) : Option Bytes :=
  match s.requests with
  | (_, .upload (.writeChunk payload)) :: _ => some payload
  | _ => none

/-- The chunk the agent takes is written whole. -/
def WritesWhole (s : PutSystem K) : PutAct K → Prop
  | .handle results => ∀ payload ∈ s.nextChunk, results.write.ok = true ∧ results.wrote = payload.length - 4
  | _ => True

instance (s : PutSystem K) (act : PutAct K) : Decidable (WritesWhole s act) := by
  cases act <;> unfold WritesWhole <;> infer_instance

/-- A step of one call: not the client's next. -/
def PutAct.inCall : PutAct K → Bool
  | .put _ => false
  | .operation => false
  | _ => true

/-- Nothing is on its way, and no upload is open. -/
def PutSystem.Clean (s : PutSystem K) : Prop := s.upload = none ∧ s.requests = [] ∧ s.replies = []

/-- An upload that no chunk has broken: the agent is where the chunks it acknowledged end,
and the rest of the window is on its way. -/
def PutSystem.Good (s : PutSystem K) : Prop :=
  match s.pc with
  | .idle last => ∀ status native detail, last = some (.guestError status native detail) → s.Clean
  | .opening job => job.size ≤ maxFile ∧
      ((s.upload = none ∧ s.requests = [(s.requestId, .upload (.openWrite job.opening))] ∧ s.replies = []) ∨
        (s.upload = none ∧ s.requests = [] ∧
          ∃ status native detail, s.replies = [(s.requestId, .upload (.error status native detail))]) ∨
        ∃ ws, s.upload = some ws ∧ ws.received = 0 ∧ ws.expectedSize = UInt32.ofNat job.size ∧ s.requests = [] ∧
          s.replies = [(s.requestId, .upload (.writeReady (UInt32.ofNat job.size) job.crc))])
  | .waiting job offset acked inFlight => job.size ≤ maxFile ∧ offset ≤ job.size ∧
      ∃ (ws : WriteState) (done todo : List (ℕ × Bytes)) (start : ℕ), s.upload = some ws ∧
        ws.expectedSize = UInt32.ofNat job.size ∧ ws.received = UInt32.ofNat start ∧ Contiguous acked done start ∧
        Contiguous start todo offset ∧ inFlight = (done ++ todo).map chunkEnd ∧
        s.requests = todo.map (chunkRequest s.requestId) ∧ s.replies = done.map (chunkAck s.requestId)
  | .committing _ => (s.upload.isSome ∧ s.requests = [(s.requestId, .upload (.commit []))] ∧ s.replies = []) ∨
      (s.upload = none ∧ s.requests = [] ∧ ∃ reply, s.replies = [(s.requestId, reply)])
  | .asking => False

/-- A broken upload: it stays open, the client has yet to read the error, and until then
only chunks are on their way. -/
def PutSystem.Stuck (s : PutSystem K) : Prop :=
  match s.pc with
  | .idle last => (∀ status native detail, last ≠ some (.guestError status native detail)) ∨
      (s.upload.isSome ∧ ∀ p ∈ s.requests, ∃ payload, p.2 = .upload (.writeChunk payload))
  | .opening _ => s.upload.isSome ∧
      ((s.replies = [] ∧ ∃ payload, s.requests = [(s.requestId, .upload (.openWrite payload))]) ∨
        (s.requests = [] ∧ ∃ status native detail, s.replies = [(s.requestId, .upload (.error status native detail))]))
  | .waiting job offset acked inFlight => s.upload.isSome ∧ offset ≤ job.size ∧
      (∀ p ∈ s.requests, ∃ payload, p = (s.requestId, .upload (.writeChunk payload))) ∧
      ∃ (done : List (ℕ × Bytes)) (bad : ℕ × Bytes) (todo : List (ℕ × Bytes)),
        Contiguous acked (done ++ bad :: todo) offset ∧ inFlight = (done ++ bad :: todo).map chunkEnd ∧
        ∃ (status native : UInt32) (detail : String) (more : List (UInt32 × PutReply)),
          s.replies = done.map (chunkAck s.requestId) ++ (s.requestId, .upload (.error status native detail)) :: more
  | _ => False

/-- A request that is no chunk is no chunk written short. -/
theorem writesWhole_of_none {results : UploadResults} (h : s.nextChunk = none) : WritesWhole s (.handle results) := by
  unfold WritesWhole
  rw [h]
  exact fun _ hp => by cases hp

/-! ## A call begins -/

/-- The first step of a call, on a connection with nothing on its way. -/
theorem put_start (fs : Fs K) (upload : Option WriteState) (requestId : UInt32) (job : PutJob) :
    (upload = none → ((PutSystem.start fs upload requestId).put job).Good) ∧
      (upload ≠ none → ((PutSystem.start fs upload requestId).put job).Stuck) := by
  have hother : ∀ (s : PutSystem K) (text : String), (s.finish (.error text)).Good ∧ (s.finish (.error text)).Stuck :=
    fun s text => ⟨(fun _ _ _ h => by cases h), Or.inl (fun _ _ _ h => by cases h)⟩
  unfold PutSystem.put
  split
  · exact ⟨fun _ => (hother _ _).1, fun _ => (hother _ _).2⟩
  split
  · exact ⟨fun _ => (hother _ _).1, fun _ => (hother _ _).2⟩
  split
  · exact ⟨fun _ => (hother _ _).1, fun _ => (hother _ _).2⟩
  split
  · exact ⟨fun _ => (hother _ _).1, fun _ => (hother _ _).2⟩
  · rename_i hsize _ _ _
    refine ⟨fun hnone => ⟨Nat.le_of_not_lt hsize, Or.inl ⟨hnone, rfl, rfl⟩⟩, fun hopen => ⟨?_, Or.inl ⟨rfl, _, rfl⟩⟩⟩
    exact Option.isSome_iff_ne_none.2 hopen

/-- What a call finds does not depend on how the one before it ended. -/
theorem put_fresh (hs : s.Clean) (job : PutJob) : s.put job = s.fresh.put job := by
  obtain ⟨fs, upload, requests, replies, requestId, pc⟩ := s
  obtain ⟨rfl, rfl, rfl⟩ : upload = none ∧ requests = [] ∧ replies = [] := hs
  rfl

/-! ## The client reads a reply -/

theorem expect_cons {reply : PutReply} {replies : List (UInt32 × PutReply)}
    (hr : s.replies = (s.requestId, reply) :: replies) :
    s.expect window = some ({ s with replies := replies }.answer window reply) := by
  unfold PutSystem.expect
  rw [hr]
  exact if_neg (not_not_intro rfl)

theorem expect_nil (hr : s.replies = []) : s.expect window = none := by
  unfold PutSystem.expect
  rw [hr]

theorem good_advance {job : PutJob} {offset acked start : ℕ} {ws : WriteState} {done todo : List (ℕ × Bytes)}
    (hsize : job.size ≤ maxFile) (hoffset : offset ≤ job.size) (hupload : s.upload = some ws)
    (hexpected : ws.expectedSize = UInt32.ofNat job.size) (hreceived : ws.received = UInt32.ofNat start)
    (hdone : Contiguous acked done start) (htodo : Contiguous start todo offset)
    (hrequests : s.requests = todo.map (chunkRequest s.requestId)) (hreplies : s.replies = done.map (chunkAck s.requestId)) :
    (s.advance window job offset acked ((done ++ todo).map chunkEnd)).Good := by
  rcases advance_spec window s (hdone.append htodo) hoffset with
    ⟨hnil, heq⟩ | ⟨-, chunks, heq | ⟨stop, hchunks, hstop, heq⟩⟩
  · obtain ⟨rfl, rfl⟩ := List.append_eq_nil_iff.1 hnil
    rw [heq]
    refine Or.inl ⟨Option.isSome_iff_exists.2 ⟨ws, hupload⟩, ?_, hreplies⟩
    show s.requests ++ [_] = _
    rw [hrequests]
    rfl
  · rw [heq]
    exact fun _ _ _ h => by cases h
  · rw [heq]
    refine ⟨hsize, hstop, ws, done, todo ++ chunks, start, hupload, hexpected, hreceived, hdone, htodo.append hchunks,
      ?_, ?_, hreplies⟩
    · rw [List.append_assoc]
    · show s.requests ++ _ = _
      rw [hrequests, List.map_append]

theorem stuck_advance {job : PutJob} {offset acked : ℕ} {done : List (ℕ × Bytes)} {bad : ℕ × Bytes}
    {todo : List (ℕ × Bytes)} {status native : UInt32} {detail : String} {more : List (UInt32 × PutReply)}
    (hopen : s.upload.isSome) (hoffset : offset ≤ job.size)
    (hrequests : ∀ p ∈ s.requests, ∃ payload, p = (s.requestId, .upload (.writeChunk payload)))
    (hflight : Contiguous acked (done ++ bad :: todo) offset)
    (hreplies : s.replies = done.map (chunkAck s.requestId) ++ (s.requestId, .upload (.error status native detail)) :: more) :
    (s.advance window job offset acked ((done ++ bad :: todo).map chunkEnd)).Stuck := by
  have hmore : ∀ chunks : List (ℕ × Bytes), ∀ p ∈ s.requests ++ chunks.map (chunkRequest s.requestId),
      ∃ payload, p = (s.requestId, .upload (.writeChunk payload)) := by
    intro chunks p hp
    rcases List.mem_append.1 hp with hp | hp
    · exact hrequests p hp
    · obtain ⟨chunk, -, rfl⟩ := List.mem_map.1 hp
      exact ⟨_, rfl⟩
  rcases advance_spec window s hflight hoffset with
    ⟨hnil, -⟩ | ⟨-, chunks, heq | ⟨stop, hchunks, hstop, heq⟩⟩
  · exact absurd hnil (by simp)
  · rw [heq]
    exact Or.inl fun _ _ _ h => by cases h
  · rw [heq]
    refine ⟨hopen, hstop, hmore chunks, done, bad, todo ++ chunks, ?_, ?_, status, native, detail, more, hreplies⟩
    · have := hflight.append hchunks
      rwa [List.append_assoc, List.cons_append] at this
    · rw [List.append_assoc, List.cons_append]

/-- Behind COMMIT every response ends the call. -/
theorem answer_committing (window : ℕ) {job : PutJob} (hpc : s.pc = .committing job) (reply : PutReply) :
    ∃ outcome, s.answer window reply = s.finish outcome := by
  unfold PutSystem.answer
  rw [hpc]
  split
  · exact ⟨_, rfl⟩
  · exact ⟨_, rfl⟩
  · exact ⟨_, rfl⟩
  · dsimp only
    split_ifs
    · exact ⟨_, rfl⟩
    · exact ⟨_, rfl⟩
  · exact ⟨_, rfl⟩

/-- **The client reads a reply of an unbroken upload.** -/
theorem good_expect (hs : s.Good) (hbusy : ∀ last, s.pc ≠ .idle last) (h : s.expect window = some s') : s'.Good := by
  unfold PutSystem.Good at hs
  cases hpc : s.pc with
  | idle last => exact absurd hpc (hbusy last)
  | opening job =>
    rw [hpc] at hs
    obtain ⟨hsize, ⟨-, -, hreplies⟩ | ⟨hupload, hrequests, status, native, detail, hreplies⟩ |
      ⟨ws, hupload, hreceived, hexpected, hrequests, hreplies⟩⟩ := hs
    · rw [expect_nil hreplies] at h
      cases h
    · rw [expect_cons hreplies] at h
      obtain rfl := Option.some.inj h
      exact fun _ _ _ _ => ⟨hupload, hrequests, rfl⟩
    · rw [expect_cons hreplies] at h
      obtain rfl := Option.some.inj h
      have hnone : Contiguous 0 [] 0 := rfl
      unfold PutSystem.answer
      dsimp only
      rw [hpc]
      simp only [decide_true, Bool.and_self, if_true]
      -- nothing is in flight yet
      have hflight : ([] : List ℕ) = (([] : List (ℕ × Bytes)) ++ []).map chunkEnd := rfl
      rw [hflight]
      exact good_advance (s := { s with replies := [] }) hsize (Nat.zero_le _) hupload hexpected hreceived hnone hnone hrequests rfl
  | waiting job offset acked inFlight =>
    rw [hpc] at hs
    obtain ⟨hsize, hoffset, ws, done, todo, start, hupload, hexpected, hreceived, hdone, htodo, hflight, hrequests,
      hreplies⟩ := hs
    cases done with
    | nil =>
      rw [expect_nil hreplies] at h
      cases h
    | cons chunk done =>
      rw [expect_cons hreplies] at h
      obtain rfl := Option.some.inj h
      unfold PutSystem.answer
      dsimp only
      rw [hpc, hflight]
      simp only [List.cons_append, List.map_cons, if_true]
      exact good_advance hsize hoffset hupload hexpected hreceived hdone.2.2.2 htodo hrequests rfl
  | committing job =>
    rw [hpc] at hs
    rcases hs with ⟨-, -, hreplies⟩ | ⟨hupload, hrequests, reply, hreplies⟩
    · rw [expect_nil hreplies] at h
      cases h
    · rw [expect_cons hreplies] at h
      obtain rfl := Option.some.inj h
      have hpc' : PutSystem.pc { s with replies := [] } = .committing job := hpc
      obtain ⟨outcome, heq⟩ := answer_committing window hpc' reply
      rw [heq]
      exact fun _ _ _ _ => ⟨hupload, hrequests, rfl⟩
  | asking =>
    rw [hpc] at hs
    exact hs.elim

/-- **The client reads a reply of a broken upload**: at the latest at the error it raises. -/
theorem stuck_expect (hs : s.Stuck) (hbusy : ∀ last, s.pc ≠ .idle last) (h : s.expect window = some s') : s'.Stuck := by
  unfold PutSystem.Stuck at hs
  cases hpc : s.pc with
  | idle last => exact absurd hpc (hbusy last)
  | opening job =>
    rw [hpc] at hs
    obtain ⟨hopen, ⟨hreplies, -⟩ | ⟨hrequests, status, native, detail, hreplies⟩⟩ := hs
    · rw [expect_nil hreplies] at h
      cases h
    · rw [expect_cons hreplies] at h
      obtain rfl := Option.some.inj h
      refine Or.inr ⟨hopen, fun p hp => ?_⟩
      rw [show _ = s.requests from rfl, hrequests] at hp
      cases hp
  | waiting job offset acked inFlight =>
    rw [hpc] at hs
    obtain ⟨hopen, hoffset, hchunks, done, bad, todo, hcontiguous, hflight, status, native, detail, more, hreplies⟩ := hs
    cases done with
    | nil =>
      rw [expect_cons hreplies] at h
      obtain rfl := Option.some.inj h
      refine Or.inr ⟨hopen, fun p hp => ?_⟩
      obtain ⟨payload, rfl⟩ := hchunks p hp
      exact ⟨payload, rfl⟩
    | cons chunk done =>
      rw [expect_cons hreplies] at h
      obtain rfl := Option.some.inj h
      unfold PutSystem.answer
      dsimp only
      rw [hpc, hflight]
      simp only [List.cons_append, List.map_cons, if_true]
      exact stuck_advance hopen hoffset hchunks hcontiguous.2.2.2 rfl
  | committing job =>
    rw [hpc] at hs
    exact hs.elim
  | asking =>
    rw [hpc] at hs
    exact hs.elim

/-! ## The agent's handlers -/

variable [DecidableEq K] {port : Port K} {slot : UInt32}

theorem opening_fields (job : PutJob) :
    job.opening.readU32 0 = UInt32.ofNat job.size ∧ job.opening.readU32 4 = job.crc := by
  refine ⟨?_, ?_⟩
  · rw [PutJob.opening, List.append_assoc, List.append_assoc, readU32_writeU32]
  · rw [PutJob.opening, List.append_assoc, List.append_assoc]
    exact (readU32_append_right (writeU32 _) _ 0).trans (readU32_writeU32 _ _)

/-- OPEN_WRITE on a connection without an upload: refused, and nothing is open, or answered
with the size and the CRC it had. -/
theorem handleOpenWrite_none (port : Port K) (slot : UInt32) (fs : Fs K) (id : UInt32) (job : PutJob) (r : UploadResults) :
    ((handleOpenWrite port slot fs none id job.opening r).2.1 = none ∧
        ∃ status native detail, (handleOpenWrite port slot fs none id job.opening r).2.2 = .error status native detail) ∨
      ∃ ws, (handleOpenWrite port slot fs none id job.opening r).2.1 = some ws ∧ ws.received = 0 ∧
        ws.expectedSize = UInt32.ofNat job.size ∧
        (handleOpenWrite port slot fs none id job.opening r).2.2 = .writeReady (UInt32.ofNat job.size) job.crc := by
  obtain ⟨hsize, hcrc⟩ := opening_fields job
  unfold handleOpenWrite
  dsimp only
  split
  · exact Or.inl ⟨rfl, _, _, _, rfl⟩
  split
  · exact Or.inl ⟨rfl, _, _, _, rfl⟩
  split
  · exact Or.inl ⟨rfl, _, _, _, rfl⟩
  · exact Or.inr ⟨_, rfl, rfl, hsize, by rw [hsize, hcrc]⟩

theorem chunkPayload_fields (chunk : ℕ × Bytes) :
    (chunkPayload chunk).length = chunk.2.length + 4 ∧ (chunkPayload chunk).readU32 0 = UInt32.ofNat chunk.1 ∧
      (chunkPayload chunk).drop 4 = chunk.2 := by
  refine ⟨?_, readU32_writeU32 _ _, List.drop_left' rfl⟩
  rw [chunkPayload, List.length_append, writeU32_length, Nat.add_comm]

/-- The next chunk: acknowledged where it is written whole, and refused where it is not; the
upload stays open. -/
theorem handleWriteChunk_next (port : Port K) (fs : Fs K) {ws : WriteState} {chunk : ℕ × Bytes} {size : ℕ} (r : UploadResults)
    (hsize : size ≤ maxFile) (hexpected : ws.expectedSize = UInt32.ofNat size) (hne : chunk.2 ≠ [])
    (hmax : chunk.2.length ≤ chunkSize) (hreceived : ws.received = UInt32.ofNat chunk.1) (hend : chunkEnd chunk ≤ size) :
    (r.write.ok = true ∧ r.wrote = chunk.2.length →
      ∃ ws', (handleWriteChunk port fs (some ws) (chunkPayload chunk) r).2.1 = some ws' ∧
        ws'.received = UInt32.ofNat (chunkEnd chunk) ∧ ws'.expectedSize = ws.expectedSize ∧
        (handleWriteChunk port fs (some ws) (chunkPayload chunk) r).2.2 = .writeAck (UInt32.ofNat (chunkEnd chunk))) ∧
    (¬(r.write.ok = true ∧ r.wrote = chunk.2.length) →
      (handleWriteChunk port fs (some ws) (chunkPayload chunk) r).2.1 = some ws ∧
        ∃ status native detail,
          (handleWriteChunk port fs (some ws) (chunkPayload chunk) r).2.2 = .error status native detail) := by
  obtain ⟨hlen, hoffset, hdrop⟩ := chunkPayload_fields chunk
  have hpos := List.length_pos_iff.2 hne
  unfold chunkEnd at hend
  unfold maxFile at hsize
  unfold chunkSize at hmax
  have hchunk : (UInt32.ofNat chunk.2.length).toNat = chunk.2.length :=
    UInt32.toNat_ofNat_of_lt' (lt_of_le_of_lt hmax (by decide))
  have hroom : ws.expectedSize - ws.received = UInt32.ofNat (size - chunk.1) := by
    rw [hexpected, hreceived, ← UInt32.ofNat_sub (by omega)]
  have hfits : ¬UInt32.ofNat chunk.2.length > ws.expectedSize - ws.received := by
    have hroomNat : (UInt32.ofNat (size - chunk.1)).toNat = size - chunk.1 :=
      UInt32.toNat_ofNat_of_lt' (show size - chunk.1 < 2 ^ 32 by omega)
    rw [hroom, gt_iff_lt, UInt32.lt_iff_toNat_lt, hroomNat, hchunk]
    omega
  have hsome : (UInt32.ofNat chunk.2.length != 0) = true := by
    rw [bne_iff_ne, ne_eq, ← UInt32.toNat_inj, hchunk]
    exact hpos.ne'
  have hguard : ((chunkPayload chunk).length < 4 || (chunkPayload chunk).length > fileChunkSize + 4 ||
      (chunkPayload chunk).readU32 0 != ws.received) = false := by
    rw [hlen, hoffset, hreceived]
    simp only [bne_self_eq_false, Bool.or_false, Bool.or_eq_false_iff, decide_eq_false_iff_not]
    unfold fileChunkSize
    omega
  have hsum : ws.received + UInt32.ofNat chunk.2.length = UInt32.ofNat (chunkEnd chunk) := by
    rw [hreceived, chunkEnd, UInt32.ofNat_add]
  unfold handleWriteChunk
  dsimp only
  rw [hguard, if_neg (by decide), hdrop, if_neg hfits, hsome]
  constructor
  · rintro ⟨hok, hwrote⟩
    rw [hok, hwrote, if_neg (by simp)]
    exact ⟨_, rfl, hsum, rfl, by rw [hsum]⟩
  · intro htorn
    have hbad : (true && (!r.write.ok || r.wrote != chunk.2.length)) = true := by
      rw [Bool.true_and, Bool.or_eq_true, Bool.not_eq_true', bne_iff_ne]
      rcases Bool.eq_false_or_eq_true r.write.ok with hok | hok
      · exact Or.inr fun hwrote => htorn ⟨hok, hwrote⟩
      · exact Or.inl hok
    rw [if_pos hbad]
    exact ⟨rfl, _, _, _, rfl⟩

/-- A chunk never closes an upload. -/
theorem handleWriteChunk_open (fs : Fs K) {upload : Option WriteState} (hopen : upload.isSome) (payload : Bytes)
    (r : UploadResults) : (handleWriteChunk port fs upload payload r).2.1.isSome := by
  obtain ⟨ws, rfl⟩ := Option.isSome_iff_exists.1 hopen
  unfold handleWriteChunk
  dsimp only
  split_ifs <;> rfl

/-- The commit of an open upload closes it. -/
theorem handleCommit_closes (fs : Fs K) (upload : Option WriteState) (r : UploadResults) :
    (handleCommit port fs upload [] r).2.1 = none := by
  unfold handleCommit commitClosed
  split
  · rfl
  · rw [if_neg (by decide)]
    dsimp only
    split_ifs <;> rfl

theorem handle_upload (port : Port K) (slot : UInt32) {id : UInt32} {request : UploadRequest} {requests : List (UInt32 × PutRequest)}
    (hr : s.requests = (id, .upload request) :: requests) (results : UploadResults) :
    s.handle port slot results = some
      { s with
        fs := (handleUpload port slot s.fs s.upload id results request).1
        upload := (handleUpload port slot s.fs s.upload id results request).2.1
        requests := requests
        replies := s.replies ++ [(id, .upload (handleUpload port slot s.fs s.upload id results request).2.2)] } := by
  unfold PutSystem.handle
  rw [hr]

theorem handle_tail (port : Port K) (slot : UInt32) {p : UInt32 × PutRequest} {requests : List (UInt32 × PutRequest)} (results : UploadResults)
    (hr : s.requests = p :: requests) : ∃ t, s.handle port slot results = some t ∧ t.requests = requests := by
  unfold PutSystem.handle
  rw [hr]
  obtain ⟨id, request | _⟩ := p
  · exact ⟨_, rfl, rfl⟩
  · exact ⟨_, rfl, rfl⟩

theorem handle_nil (hr : s.requests = []) (results : UploadResults) : s.handle port slot results = none := by
  unfold PutSystem.handle
  rw [hr]

/-- **The agent takes a request of an unbroken upload.** -/
theorem good_handle (hs : s.Good) {results : UploadResults} (h : s.handle port slot results = some s') :
    (WritesWhole s (.handle results) → s'.Good) ∧ (¬WritesWhole s (.handle results) → s'.Stuck) := by
  unfold PutSystem.Good at hs
  cases hpc : s.pc with
  | idle last =>
    rw [hpc] at hs
    have hother : ∀ status native detail, last ≠ some (.guestError status native detail) := by
      intro status native detail heq
      obtain ⟨-, hrequests, -⟩ := hs _ _ _ heq
      rw [handle_nil hrequests] at h
      cases h
    have hpc' : s'.pc = .idle last := by
      unfold PutSystem.handle at h
      split at h
      · cases h
      · exact Option.some.inj h ▸ hpc
      · exact Option.some.inj h ▸ hpc
    refine ⟨fun _ => ?_, fun _ => ?_⟩
    · unfold PutSystem.Good
      rw [hpc']
      exact fun _ _ _ heq => absurd heq (hother _ _ _)
    · unfold PutSystem.Stuck
      rw [hpc']
      exact Or.inl hother
  | opening job =>
    rw [hpc] at hs
    obtain ⟨hsize, ⟨hupload, hrequests, hreplies⟩ | ⟨-, hrequests, -⟩ | ⟨-, -, -, -, hrequests, -⟩⟩ := hs
    · have hwhole : WritesWhole s (.handle results) := writesWhole_of_none (by rw [PutSystem.nextChunk, hrequests])
      refine ⟨fun _ => ?_, fun hn => absurd hwhole hn⟩
      rw [handle_upload port slot hrequests] at h
      obtain rfl := Option.some.inj h
      unfold PutSystem.Good
      dsimp only
      rw [hpc, hupload, hreplies]
      refine ⟨hsize, Or.inr ?_⟩
      rcases handleOpenWrite_none port slot s.fs s.requestId job results with
        ⟨hnone, status, native, detail, herror⟩ | ⟨ws, hws, hreceived, hexpected, hready⟩
      · exact Or.inl ⟨hnone, rfl, status, native, detail, by rw [handleUpload, herror]; rfl⟩
      · exact Or.inr ⟨ws, hws, hreceived, hexpected, rfl, by rw [handleUpload, hready]; rfl⟩
    · rw [handle_nil hrequests] at h
      cases h
    · rw [handle_nil hrequests] at h
      cases h
  | waiting job offset acked inFlight =>
    rw [hpc] at hs
    obtain ⟨hsize, hoffset, ws, done, todo, start, hupload, hexpected, hreceived, hdone, htodo, hflight, hrequests,
      hreplies⟩ := hs
    cases todo with
    | nil =>
      rw [handle_nil hrequests] at h
      cases h
    | cons chunk todo =>
      rw [List.map_cons, chunkRequest] at hrequests
      obtain ⟨hstart, hne, hmax, hrest⟩ := htodo
      have hend := hrest.le
      obtain ⟨hgood, hbad⟩ := handleWriteChunk_next port s.fs results hsize hexpected hne hmax
        (hreceived.trans (by rw [hstart])) (by omega)
      have hwhole : WritesWhole s (.handle results) ↔ results.write.ok = true ∧ results.wrote = chunk.2.length := by
        unfold WritesWhole PutSystem.nextChunk
        rw [hrequests]
        simp [(chunkPayload_fields chunk).1]
      rw [handle_upload port slot hrequests, hupload] at h
      obtain rfl := Option.some.inj h
      refine ⟨fun hw => ?_, fun hw => ?_⟩
      · obtain ⟨ws', hws', hreceived', hexpected', hack⟩ := hgood (hwhole.1 hw)
        unfold PutSystem.Good
        dsimp only
        rw [hpc]
        refine ⟨hsize, hoffset, ws', done ++ [chunk], todo, chunkEnd chunk, hws', hexpected'.trans hexpected,
          hreceived', hdone.append ⟨hstart, hne, hmax, rfl⟩, hrest, ?_, rfl, ?_⟩
        · rw [hflight, List.append_assoc, List.singleton_append]
        · rw [hreplies, handleUpload, hack, List.map_append]
          rfl
      · obtain ⟨hws', status, native, detail, herror⟩ := hbad fun hw' => hw (hwhole.2 hw')
        unfold PutSystem.Stuck
        dsimp only
        rw [hpc]
        refine ⟨Option.isSome_iff_exists.2 ⟨ws, hws'⟩, hoffset, ?_, done, chunk, todo,
          hdone.append ⟨hstart, hne, hmax, hrest⟩, hflight, status, native, detail, [], ?_⟩
        · rintro p hp
          obtain ⟨c, -, rfl⟩ := List.mem_map.1 hp
          exact ⟨_, rfl⟩
        · rw [hreplies, handleUpload, herror]
  | committing job =>
    rw [hpc] at hs
    rcases hs with ⟨-, hrequests, hreplies⟩ | ⟨-, hrequests, -⟩
    · have hwhole : WritesWhole s (.handle results) := writesWhole_of_none (by rw [PutSystem.nextChunk, hrequests])
      refine ⟨fun _ => ?_, fun hn => absurd hwhole hn⟩
      rw [handle_upload port slot hrequests] at h
      obtain rfl := Option.some.inj h
      unfold PutSystem.Good
      dsimp only
      rw [hpc, hreplies]
      exact Or.inr ⟨handleCommit_closes _ _ _, rfl, _, rfl⟩
    · rw [handle_nil hrequests] at h
      cases h
  | asking =>
    rw [hpc] at hs
    exact hs.elim

/-- **The agent takes a request of a broken upload**, and it stays broken. -/
theorem stuck_handle (hs : s.Stuck) {results : UploadResults} (h : s.handle port slot results = some s') : s'.Stuck := by
  unfold PutSystem.Stuck at hs
  cases hpc : s.pc with
  | idle last =>
    rw [hpc] at hs
    have hpc' : s'.pc = .idle last := by
      unfold PutSystem.handle at h
      split at h
      · cases h
      · exact Option.some.inj h ▸ hpc
      · exact Option.some.inj h ▸ hpc
    unfold PutSystem.Stuck
    rw [hpc']
    refine hs.imp_right fun ⟨hopen, hchunks⟩ => ?_
    cases hrequests : s.requests with
    | nil =>
      rw [handle_nil hrequests] at h
      cases h
    | cons p requests =>
      rw [hrequests] at hchunks
      obtain ⟨payload, hp⟩ := hchunks p List.mem_cons_self
      have hp' : s.requests = (p.1, .upload (.writeChunk payload)) :: requests := by rw [hrequests, ← hp]
      rw [handle_upload port slot hp'] at h
      obtain rfl := Option.some.inj h
      exact ⟨handleWriteChunk_open _ hopen _ _, fun q hq => hchunks q (List.mem_cons_of_mem _ hq)⟩
  | opening job =>
    rw [hpc] at hs
    obtain ⟨hopen, ⟨hreplies, payload, hrequests⟩ | ⟨hrequests, -⟩⟩ := hs
    · rw [handle_upload port slot hrequests] at h
      obtain rfl := Option.some.inj h
      obtain ⟨ws, hws⟩ := Option.isSome_iff_exists.1 hopen
      unfold PutSystem.Stuck
      dsimp only
      rw [hpc, hreplies, hws]
      exact ⟨rfl, Or.inr ⟨rfl, _, _, _, rfl⟩⟩
    · rw [handle_nil hrequests] at h
      cases h
  | waiting job offset acked inFlight =>
    rw [hpc] at hs
    obtain ⟨hopen, hoffset, hchunks, done, bad, todo, hcontiguous, hflight, status, native, detail, more, hreplies⟩ := hs
    cases hrequests : s.requests with
    | nil =>
      rw [handle_nil hrequests] at h
      cases h
    | cons p requests =>
      rw [hrequests] at hchunks
      obtain ⟨payload, rfl⟩ := hchunks p List.mem_cons_self
      rw [handle_upload port slot hrequests] at h
      obtain rfl := Option.some.inj h
      unfold PutSystem.Stuck
      dsimp only
      rw [hpc]
      exact ⟨handleWriteChunk_open _ hopen _ _, hoffset, fun q hq => hchunks q (List.mem_cons_of_mem _ hq), done, bad, todo,
        hcontiguous, hflight, status, native, detail, _, by rw [hreplies, List.append_assoc, List.cons_append]⟩
  | committing job =>
    rw [hpc] at hs
    exact hs.elim
  | asking =>
    rw [hpc] at hs
    exact hs.elim

/-! ## A whole call -/

theorem expect_busy {act : PutAct K} (hact : act = .expect) (h : putStep port slot window s act = some s') :
    (∀ last, s.pc ≠ .idle last) ∧ s.expect window = some s' := by
  subst hact
  unfold putStep at h
  dsimp only at h
  split at h
  · cases h
  · rename_i hbusy
    exact ⟨hbusy, h⟩

/-- **One step of an unbroken upload**: it is broken by a chunk written short, and by nothing else. -/
theorem good_step (hs : s.Good) {act : PutAct K} (hcall : act.inCall) (h : putStep port slot window s act = some s') :
    (WritesWhole s act → s'.Good) ∧ (¬WritesWhole s act → s'.Stuck) := by
  cases act with
  | put job => cases hcall
  | operation => cases hcall
  | handle results => exact good_handle hs h
  | expect =>
    obtain ⟨hbusy, h⟩ := expect_busy rfl h
    exact ⟨fun _ => good_expect hs hbusy h, fun hn => absurd trivial hn⟩
  | elsewhere fs =>
    obtain rfl := Option.some.inj h
    exact ⟨fun _ => hs, fun hn => absurd trivial hn⟩

theorem stuck_step (hs : s.Stuck) {act : PutAct K} (hcall : act.inCall) (h : putStep port slot window s act = some s') :
    s'.Stuck := by
  cases act with
  | put job => cases hcall
  | operation => cases hcall
  | handle results => exact stuck_handle hs h
  | expect =>
    obtain ⟨hbusy, h⟩ := expect_busy rfl h
    exact stuck_expect hs hbusy h
  | elsewhere fs =>
    obtain rfl := Option.some.inj h
    exact hs

/-- A broken upload stays broken to the end of the call. -/
theorem stuck_run {as : List (PutAct K)} (hcall : ∀ act ∈ as, act.inCall) (hs : s.Stuck)
    (h : exec (putStep port slot window) s as = some s') : s'.Stuck :=
  exec_inv_under (C := fun _ act => act.inCall) (fun _ _ _ hs hc h' => stuck_step hs hc h') hs
    (fun _ hn _ _ => hcall _ (List.getElem_mem hn)) h

/-- **A call of an unbroken upload** ends unbroken where every chunk is written whole, and
broken where one is not. -/
theorem good_run {as : List (PutAct K)} (hcall : ∀ act ∈ as, act.inCall) (hs : s.Good)
    (h : exec (putStep port slot window) s as = some s') :
    (Trace.Under (putStep port slot window) WritesWhole s as → s'.Good) ∧
      (¬Trace.Under (putStep port slot window) WritesWhole s as → s'.Stuck) := by
  induction as generalizing s with
  | nil =>
    obtain rfl := Option.some.inj h
    exact ⟨fun _ => hs, fun hn => absurd (fun _ hn' => absurd hn' (Nat.not_lt_zero _)) hn⟩
  | cons act as ih =>
    rw [exec_cons, Option.bind_eq_some_iff] at h
    obtain ⟨m, hm, h⟩ := h
    obtain ⟨hgood, hstuck⟩ := good_step hs (hcall act List.mem_cons_self) hm
    have hrest : ∀ act ∈ as, act.inCall := fun a ha => hcall a (List.mem_cons_of_mem _ ha)
    by_cases hw : WritesWhole s act
    · obtain ⟨ihgood, ihstuck⟩ := ih hrest (hgood hw) h
      rw [under_cons]
      refine ⟨fun hu => ihgood (hu.2 m hm), fun hn => ihstuck fun hu => hn ⟨hw, fun m' hm' => ?_⟩⟩
      rw [hm] at hm'
      exact Option.some.inj hm' ▸ hu
    · exact ⟨fun hu => absurd hu.head hw, fun _ => stuck_run hrest (hstuck hw) h⟩

/-! ## The connection afterwards -/

/-- As good as a fresh connection: another operation has its own response, and an upload of
any file goes as it goes on a fresh one, whatever the agent's system and the order of steps. -/
def PutSystem.Usable (port : Port K) (slot : UInt32) (window : ℕ) (s : PutSystem K) : Prop :=
  (∀ as t outcome, (∀ act ∈ as, PutAct.inCall act) → exec (putStep port slot window) s (.operation :: as) = some t →
      t.pc = .idle (some outcome) → outcome = .answered) ∧
    ∀ job as, (exec (putStep port slot window) s (.put job :: as)).map (·.pc) =
      (exec (putStep port slot window) s.fresh (.put job :: as)).map (·.pc)

/-- Another operation behind a clean call: its request is all there is, then its response,
then the response is read. -/
def PutSystem.Asking (s : PutSystem K) : Prop :=
  (s.pc = .asking ∧ ((s.requests = [(s.requestId, .other)] ∧ s.replies = []) ∨
    (s.requests = [] ∧ s.replies = [(s.requestId, .other)]))) ∨ (s.pc = .idle (some .answered) ∧ s.requests = [])

theorem asking_step (hs : s.Asking) {act : PutAct K} (hcall : act.inCall) (h : putStep port slot window s act = some s') :
    s'.Asking := by
  cases act with
  | put job => cases hcall
  | operation => cases hcall
  | handle results =>
    replace h : s.handle port slot results = some s' := h
    rcases hs with ⟨hpc, ⟨hrequests, hreplies⟩ | ⟨hrequests, -⟩⟩ | ⟨-, hrequests⟩
    · unfold PutSystem.handle at h
      rw [hrequests] at h
      obtain rfl := Option.some.inj h
      exact Or.inl ⟨hpc, Or.inr ⟨rfl, by rw [hreplies]; rfl⟩⟩
    · rw [handle_nil hrequests] at h
      cases h
    · rw [handle_nil hrequests] at h
      cases h
  | expect =>
    obtain ⟨hbusy, h⟩ := expect_busy rfl h
    rcases hs with ⟨hpc, ⟨-, hreplies⟩ | ⟨hrequests, hreplies⟩⟩ | ⟨hpc, -⟩
    · rw [expect_nil hreplies] at h
      cases h
    · rw [expect_cons hreplies] at h
      obtain rfl := Option.some.inj h
      refine Or.inr ?_
      unfold PutSystem.answer
      dsimp only
      rw [hpc]
      exact ⟨rfl, hrequests⟩
    · exact absurd hpc (hbusy _)
  | elsewhere fs =>
    obtain rfl := Option.some.inj h
    exact hs

theorem usable_of_clean {last : Option PutOutcome} (hpc : s.pc = .idle last) (hs : s.Clean) :
    s.Usable port slot window := by
  refine ⟨fun as t outcome hcall h hdone => ?_, fun job as => ?_⟩
  · rw [exec_cons, Option.bind_eq_some_iff] at h
    obtain ⟨m, hm, h⟩ := h
    unfold putStep at hm
    rw [hpc] at hm
    obtain rfl := Option.some.inj hm
    have hstart : PutSystem.Asking { s.nextId.send .other with pc := .asking } := by
      refine Or.inl ⟨rfl, Or.inl ⟨?_, hs.2.2⟩⟩
      show s.requests ++ [_] = [_]
      rw [hs.2.1]
      rfl
    have ht : t.Asking := exec_inv_under (C := fun _ act => act.inCall) (fun _ _ _ hs hc h' => asking_step hs hc h')
      hstart (fun _ hn _ _ => hcall _ (List.getElem_mem hn)) h
    rcases ht with ⟨hasking, -⟩ | ⟨hanswered, -⟩
    · rw [hdone] at hasking
      cases hasking
    · rw [hdone] at hanswered
      exact Option.some.inj (PutPc.idle.inj hanswered)
  · have hstep : putStep port slot window s (.put job) = some (s.put job) := by rw [putStep, hpc]
    have hfresh : putStep port slot window s.fresh (.put job) = some (s.fresh.put job) := rfl
    rw [exec_cons, exec_cons, hstep, hfresh, put_fresh hs]

/-- An upload of nothing, to no path: the agent refuses it in its own words. -/
def emptyJob : PutJob := ⟨[], [], []⟩

/-- The agent refuses `emptyJob` on a connection with nothing on its way. -/
theorem refused_open (port : Port K) (slot : UInt32) (window : ℕ) (hrequests : s.requests = []) (hreplies : s.replies = []) {status native : UInt32} {detail : String}
    (hreply : (handleOpenWrite port slot s.fs s.upload s.nextId.requestId emptyJob.opening (demoResults 0)).2.2 =
      .error status native detail) :
    (exec (putStep port slot window) (s.put emptyJob) [.handle (demoResults 0), .expect]).map (·.pc) =
      some (.idle (some (.guestError status native detail))) := by
  have hsent : (s.put emptyJob).requests = [(s.nextId.requestId, .upload (.openWrite emptyJob.opening))] := by
    show s.requests ++ [_] = [_]
    rw [hrequests]
    rfl
  have hhandle := handle_upload port slot hsent (demoResults 0)
  set t : PutSystem K := { s.put emptyJob with
    fs := (handleUpload port slot (s.put emptyJob).fs (s.put emptyJob).upload s.nextId.requestId (demoResults 0)
      (.openWrite emptyJob.opening)).1
    upload := (handleUpload port slot (s.put emptyJob).fs (s.put emptyJob).upload s.nextId.requestId (demoResults 0)
      (.openWrite emptyJob.opening)).2.1
    requests := []
    replies := (s.put emptyJob).replies ++ [(s.nextId.requestId, .upload (handleUpload port slot (s.put emptyJob).fs
      (s.put emptyJob).upload s.nextId.requestId (demoResults 0) (.openWrite emptyJob.opening)).2.2)] }
  have hread : t.replies = [(t.requestId, .upload (.error status native detail))] := by
    show s.replies ++ [(_, .upload (handleOpenWrite port slot s.fs s.upload s.nextId.requestId emptyJob.opening
      (demoResults 0)).2.2)] = _
    rw [hreplies, hreply]
    rfl
  have hstep : putStep port slot window (s.put emptyJob) (.handle (demoResults 0)) = some t := hhandle
  have hexpect : putStep port slot window t .expect = t.expect window := rfl
  rw [exec_cons, hstep, Option.bind_some, exec_cons, hexpect, expect_cons hread]
  rfl

/-- With an upload open, the next one is refused as the agent is busy with it, or reads what
was left over from it. -/
theorem not_usable_of_open {last : Option PutOutcome} (hpc : s.pc = .idle last) (hopen : s.upload.isSome)
    : ¬s.Usable port slot window := by
  rintro ⟨-, hsame⟩
  have hstep : putStep port slot window s (.put emptyJob) = some (s.put emptyJob) := by rw [putStep, hpc]
  have hfresh : putStep port slot window s.fresh (.put emptyJob) = some (s.fresh.put emptyJob) := rfl
  have hafter : ∀ as, (exec (putStep port slot window) (s.put emptyJob) as).map (·.pc) =
      (exec (putStep port slot window) (s.fresh.put emptyJob) as).map (·.pc) := by
    intro as
    have h := hsame emptyJob as
    rwa [exec_cons, exec_cons, hstep, hfresh] at h
  cases hreplies : s.replies with
  | cons p replies =>
    -- there is a reply to read before the agent has taken the request
    have h := hafter [.expect]
    have hnone : exec (putStep port slot window) (s.fresh.put emptyJob) [.expect] = none := rfl
    have hread : putStep port slot window (s.put emptyJob) .expect = (s.put emptyJob).expect window := rfl
    rw [hnone, exec_cons, hread, PutSystem.expect, show (s.put emptyJob).replies = p :: replies from hreplies] at h
    dsimp only at h
    split_ifs at h <;> cases h
  | nil =>
    cases hreq : s.requests with
    | cons p requests =>
      -- there are two requests for the agent to take
      have h := hafter [.handle (demoResults 0), .handle (demoResults 0)]
      have hsent : (s.put emptyJob).requests =
          p :: (requests ++ [(s.nextId.requestId, .upload (.openWrite emptyJob.opening))]) := by
        show s.requests ++ [_] = _
        rw [hreq]
        rfl
      obtain ⟨t, ht, htail⟩ := handle_tail port slot (demoResults 0) hsent
      obtain ⟨u, hu⟩ : ∃ u, t.handle port slot (demoResults 0) = some u := by
        cases hrest : t.requests with
        | nil => exact absurd (htail.symm.trans hrest) (by simp)
        | cons q rest => exact ⟨_, (handle_tail port slot (demoResults 0) hrest).choose_spec.1⟩
      have hnone : exec (putStep port slot window) (s.fresh.put emptyJob)
          [.handle (demoResults 0), .handle (demoResults 0)] = none := rfl
      have hfirst : putStep port slot window (s.put emptyJob) (.handle (demoResults 0)) = some t := ht
      have hsecond : putStep port slot window t (.handle (demoResults 0)) = some u := hu
      rw [hnone, exec_cons, hfirst, Option.bind_some, exec_cons, hsecond] at h
      cases h
    | nil =>
      have h := hafter [.handle (demoResults 0), .expect]
      obtain ⟨ws, hws⟩ := Option.isSome_iff_exists.1 hopen
      have hbusy := refused_open port slot window hreq hreplies
        (show (handleOpenWrite port slot s.fs s.upload s.nextId.requestId emptyJob.opening (demoResults 0)).2.2 =
          .error statusBusy 0 "upload already active" by rw [hws]; rfl)
      have hinvalid := refused_open (s := s.fresh) port slot window rfl rfl
        (show (handleOpenWrite port slot s.fs none s.nextId.requestId emptyJob.opening (demoResults 0)).2.2 =
          .error statusInvalidPayload port.errInvalid "invalid upload request" by rfl)
      rw [hbusy, hinvalid] at h
      simp at h

/-- **A refused upload.** The connection is as good as a fresh one exactly where no upload
was open before and every chunk the agent took was written whole: then the refusal is one
of OPEN_WRITE or of the commit. -/
theorem usable_iff_whole {fs : Fs K} {upload : Option WriteState} {requestId : UInt32} {job : PutJob}
    {as : List (PutAct K)} {status native : UInt32} {detail : String} (hcall : ∀ act ∈ as, act.inCall)
    (h : exec (putStep port slot window) (.start fs upload requestId) (.put job :: as) = some s)
    (hraised : s.pc = .idle (some (.guestError status native detail))) :
    s.Usable port slot window ↔
      upload = none ∧ Trace.Under (putStep port slot window) WritesWhole (.start fs upload requestId) (.put job :: as) := by
  have hunder : Trace.Under (putStep port slot window) WritesWhole (.start fs upload requestId) (.put job :: as) ↔
      Trace.Under (putStep port slot window) WritesWhole ((PutSystem.start fs upload requestId).put job) as := by
    rw [under_cons]
    exact ⟨fun hu => hu.2 _ rfl, fun hu => ⟨trivial, fun s' hs' => Option.some.inj hs' ▸ hu⟩⟩
  replace h : exec (putStep port slot window) ((PutSystem.start fs upload requestId).put job) as = some s := h
  obtain ⟨hgood, hstuck⟩ := put_start fs upload requestId job
  have hopen : s.Stuck → ¬s.Usable port slot window := by
    intro hs
    unfold PutSystem.Stuck at hs
    rw [hraised] at hs
    rcases hs with hother | ⟨hopen, -⟩
    · exact absurd rfl (hother _ _ _)
    · exact not_usable_of_open hraised hopen
  rw [hunder]
  constructor
  · intro hu
    have hnone : upload = none := by
      by_contra hne
      exact hopen (stuck_run hcall (hstuck hne) h) hu
    refine ⟨hnone, ?_⟩
    by_contra hw
    exact hopen ((good_run hcall (hgood hnone) h).2 hw) hu
  · rintro ⟨hnone, hw⟩
    have hs := (good_run hcall (hgood hnone) h).1 hw
    unfold PutSystem.Good at hs
    rw [hraised] at hs
    exact usable_of_clean hraised (hs _ _ _ rfl)

def demoJob : PutJob := ⟨ascii "C:\\A", ascii "P", ascii "P"⟩

def noFiles : Fs Bytes := fun _ => none

/-- The part file cannot be created. -/
def refusedOpen : List (PutAct Bytes) :=
  [.put demoJob, .handle { demoResults 0 with create := ⟨false, errorAccessDenied⟩ }, .expect]

theorem usable_iff_whole_demo : ∃ s, exec (putStep winPort 0 32) (.start noFiles none 7) refusedOpen = some s ∧
    s.pc = .idle (some (.guestError statusAccessDenied errorAccessDenied "upload part create failed")) ∧
    s.Usable winPort 0 32 := by
  have hrun : (exec (putStep winPort 0 32) (.start noFiles none 7) refusedOpen).map (·.pc) =
      some (.idle (some (.guestError statusAccessDenied errorAccessDenied "upload part create failed"))) := by
    decide
  obtain ⟨s, hs, hpc⟩ := Option.map_eq_some_iff.1 hrun
  have hwhole : Trace.Under (putStep winPort 0 32) WritesWhole (.start noFiles none 7) refusedOpen := by decide
  exact ⟨s, hs, hpc, (usable_iff_whole (by decide) hs hpc).2 ⟨rfl, hwhole⟩⟩

/-- The disk is full when the only chunk is written. -/
def refusedChunk : List (PutAct Bytes) :=
  [.put demoJob, .handle (demoResults 0), .expect, .handle { demoResults 0 with write := ⟨false, 112⟩ }, .expect]

/-- **A connection left with an upload open**: every later one on it is refused as busy. -/
theorem refused_chunk_not_usable : ∃ s, exec (putStep winPort 0 1) (.start noFiles none 0) refusedChunk = some s ∧
    s.pc = .idle (some (.guestError statusIoFailed 112 "upload write failed")) ∧ ¬s.Usable winPort 0 1 := by
  have hrun : (exec (putStep winPort 0 1) (.start noFiles none 0) refusedChunk).map (fun s => (s.pc, s.upload.isSome)) =
      some (.idle (some (.guestError statusIoFailed 112 "upload write failed")), true) := by
    decide
  obtain ⟨s, hs, heq⟩ := Option.map_eq_some_iff.1 hrun
  obtain ⟨hpc, hopen⟩ := Prod.mk.inj heq
  exact ⟨s, hs, hpc, not_usable_of_open hpc hopen⟩

/-- A reply left over from another request is what the next operation reads. -/
theorem leftover_reply {last : Option PutOutcome} {id : UInt32} {reply : PutReply} {replies : List (UInt32 × PutReply)}
    (hpc : s.pc = .idle last) (hreplies : s.replies = (id, reply) :: replies) (hid : id ≠ s.nextId.requestId) :
    (exec (putStep port slot window) s [.operation, .expect]).map (·.pc) =
      some (.idle (some (.error "response request ID does not match"))) := by
  set t : PutSystem K := { s.nextId.send .other with pc := .asking }
  have hstep : putStep port slot window s .operation = some t := by rw [putStep, hpc]
  have hread : putStep port slot window t .expect = t.expect window := rfl
  have hexpect : t.expect window =
      some ({ t with replies := replies }.finish (.error "response request ID does not match")) := by
    rw [PutSystem.expect, show t.replies = (id, reply) :: replies from hreplies]
    exact if_pos hid
  rw [exec_cons, hstep, Option.bind_some, exec_cons, hread, hexpect]
  rfl

end V9xRemote
