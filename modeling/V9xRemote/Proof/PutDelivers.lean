import V9xRemote.Proof.PutStream

/-!
# A finished upload is delivered

`put_stream` reads the file twice: its size and CRC-32 first, then the chunks. Where the client
takes an upload for complete, the agent has the chunks under the final path, and their size and
CRC are those of the first reading. This holds for every order of the two sides' steps, every
window and every failure of a call; other programs may do what they like elsewhere.

* `receiving_chunk`, `receiving_commit`: what the agent has behind a chunk, and behind the commit.
* `delivering_step`: one step, from which the run follows.
* `put_delivers`: and so a file that has not changed is there byte by byte.
-/

namespace V9xRemote

open Bytes Trace

variable {K : Type} [DecidableEq K] {port : Port K} {slot : UInt32} {window : ℕ} {s s' : PutSystem K} {job : PutJob}

/-! ## What the agent has -/

/-- The part of the second reading that is sent. -/
def PutJob.sent (job : PutJob) : Bytes := job.second.take job.size

/-- An open upload and its temporary file hold the file up to `received`. -/
structure Receiving (port : Port K) (slot : UInt32) (job : PutJob) (fs : Fs K) (ws : WriteState) : Prop where
  temp : fs (port.key ws.tempPath) = some (.file (job.second.take ws.received.toNat))
  within : ws.received.toNat ≤ job.second.length
  crc : ws.runningCrc = crc32Update crc32Begin (job.second.take ws.received.toNat)
  size : ws.expectedSize = UInt32.ofNat job.size
  expected : ws.expectedCrc = job.crc
  path : ws.finalPath = job.path
  named : ∃ requestId, port.partPath ws.finalPath slot requestId = some ws.tempPath

/-- The upload is where it belongs, with the size and the CRC of the first reading. -/
structure Delivered (port : Port K) (job : PutJob) (fs : Fs K) : Prop where
  file : fs (port.key job.path) = some (.file job.sent)
  size : job.sent.length = job.size
  crc : crc32 job.sent = job.crc

/-- The data of a chunk are those of the file at its offset. -/
def FromFile (job : PutJob) (payload : Bytes) : Prop :=
  payload.drop 4 = (job.second.drop (payload.readU32 0).toNat).take (payload.drop 4).length

omit [DecidableEq K] in
theorem Receiving.of_same {fs fs' : Fs K} {ws : WriteState} (h : Receiving port slot job fs ws)
    (hsame : fs' (port.key ws.tempPath) = fs (port.key ws.tempPath)) : Receiving port slot job fs' ws :=
  ⟨hsame.trans h.temp, h.within, h.crc, h.size, h.expected, h.path, h.named⟩

/-- The path that an opening has. -/
theorem readPath_opening {maximum : ℕ} {path : Bytes} (h : readPath job.opening 8 maximum = some path) : path = job.path := by
  have hpath : job.opening.drop (8 + 2) = job.path := rfl
  rw [← hpath]
  unfold readPath at h
  dsimp only at h
  split at h
  · cases h
  · split at h
    · cases h
    · split at h
      · cases h
      · exact (Option.some.inj h).symm

/-- **OPEN_WRITE** begins with nothing. -/
theorem receiving_opened {fs : Fs K} {finalPath tempPath : Bytes} {requestId : UInt32} {maximum : ℕ}
    (hpath : readPath job.opening 8 maximum = some finalPath) (htemp : port.partPath finalPath slot requestId = some tempPath) :
    Receiving port slot job (fs.put (port.key tempPath) (.file []))
      ⟨job.opening.readU32 0, job.opening.readU32 4, 0, crc32Begin, finalPath, tempPath⟩ where
  temp := FileStore.put_same _ _ _
  within := Nat.zero_le _
  crc := rfl
  size := (opening_fields job).1
  expected := (opening_fields job).2
  path := readPath_opening hpath
  named := ⟨requestId, htemp⟩

/-- **A chunk** goes on where the last one ended. -/
theorem Receiving.acked {fs : Fs K} {ws : WriteState} {data : Bytes} (h : Receiving port slot job fs ws)
    (hdata : data = (job.second.drop ws.received.toNat).take data.length) (hroom : ws.received.toNat + data.length < 2 ^ 32) :
    Receiving port slot job (fs.append (port.key ws.tempPath) data)
      { ws with
        runningCrc := crc32Update ws.runningCrc data
        received := ws.received + UInt32.ofNat data.length } := by
  have hcount : (ws.received + UInt32.ofNat data.length).toNat = ws.received.toNat + data.length := by
    rw [UInt32.toNat_add, UInt32.toNat_ofNat_of_lt' (show data.length < 2 ^ 32 by omega), Nat.mod_eq_of_lt hroom]
  have htaken : job.second.take (ws.received.toNat + data.length) = job.second.take ws.received.toNat ++ data := by
    rw [List.take_add, ← hdata]
  refine ⟨?_, ?_, ?_, h.size, h.expected, h.path, h.named⟩
  · rw [append_file h.temp, hcount, htaken]
  · have hlength := congrArg List.length hdata
    rw [List.length_take, List.length_drop] at hlength
    have hwithin := h.within
    dsimp only
    rw [hcount]
    omega
  · dsimp only
    rw [hcount, htaken, crc32Update_append, h.crc]

/-- **The commit** leaves the whole under the final path. -/
theorem Receiving.completed {fs : Fs K} {ws : WriteState} (h : Receiving port slot job fs ws) (hmax : job.size ≤ maxFile)
    (hsize : ws.received = ws.expectedSize) (hcrc : crc32End ws.runningCrc = ws.expectedCrc) {r : PromoteResults}
    (hstatus : (promoteTemp port fs ws.finalPath ws.tempPath r).2.1 = statusOk) :
    Delivered port job (promoteTemp port fs ws.finalPath ws.tempPath r).1 := by
  unfold maxFile at hmax
  have hcount : ws.received.toNat = job.size := by
    rw [hsize, h.size, UInt32.toNat_ofNat_of_lt' (show job.size < 2 ^ 32 by omega)]
  have htemp := h.temp
  have hwithin := h.within
  have hrunning := h.crc
  rw [hcount] at htemp hwithin hrunning
  obtain ⟨requestId, hpart⟩ := h.named
  obtain ⟨c, hc, hfinal⟩ := promoteTemp_ok (fun b hb => port.part_ne_backup _ _ _ _ _ hpart hb) hstatus
  obtain rfl := Option.some.inj (htemp.symm.trans hc)
  refine ⟨?_, ?_, ?_⟩
  · rw [← h.path]
    exact hfinal
  · rw [PutJob.sent, List.length_take]
    omega
  · rw [crc32, PutJob.sent, ← hrunning, hcrc, h.expected]

/-! ## The invariant -/

/-- The chunks on their way are the file's, there is one to wait for, what the agent has is
received, and what is answered as complete is delivered. -/
def Carrying (port : Port K) (slot : UInt32) (job : PutJob) (s : PutSystem K) : Prop :=
  match s.pc with
  | .idle last => last = some .complete → Delivered port job s.fs ∧ s.requests = []
  | .opening other => other = job ∧ ∀ ws, s.upload = some ws → Receiving port slot job s.fs ws
  | .waiting other _ _ inFlight => other = job ∧ inFlight ≠ [] ∧ (∀ ws, s.upload = some ws → Receiving port slot job s.fs ws) ∧
      ∀ id payload, (id, .upload (.writeChunk payload)) ∈ s.requests → FromFile job payload
  | .committing other => other = job ∧ job.size ≤ maxFile ∧ (∀ ws, s.upload = some ws → Receiving port slot job s.fs ws) ∧
      ∀ id size crc, (id, .upload (.writeComplete size crc)) ∈ s.replies → Delivered port job s.fs
  | .asking => True

/-- **An upload on its way**: it is unbroken and carries the file, or it will not be complete. -/
def Delivering (port : Port K) (slot : UInt32) (job : PutJob) (s : PutSystem K) : Prop :=
  (s.Good ∧ Carrying port slot job s) ∨ (s.Stuck ∧ s.pc ≠ .idle (some .complete))

/-- Another program leaves the upload's two files alone. -/
def LeavesAlone (port : Port K) (job : PutJob) (s : PutSystem K) : PutAct K → Prop
  | .elsewhere fs => fs (port.key job.path) = s.fs (port.key job.path) ∧
      ∀ ws, s.upload = some ws → fs (port.key ws.tempPath) = s.fs (port.key ws.tempPath)
  | _ => True

/-! ## The agent takes a request -/

theorem handle_pc {results : UploadResults} (h : s.handle port slot results = some s') : s'.pc = s.pc := by
  unfold PutSystem.handle at h
  split at h
  · cases h
  · obtain rfl := Option.some.inj h
    rfl
  · obtain rfl := Option.some.inj h
    rfl

theorem carrying_handle (hgood : s.Good) (hs : Carrying port slot job s) {results : UploadResults}
    (hwhole : WritesWhole s (.handle results)) (h : s.handle port slot results = some s') : Carrying port slot job s' := by
  have hpc' := handle_pc h
  unfold PutSystem.Good at hgood
  unfold Carrying at hs ⊢
  rw [hpc']
  cases hpc : s.pc with
  | idle last =>
    rw [hpc] at hs
    intro hlast
    rw [handle_nil (hs hlast).2] at h
    cases h
  | opening other =>
    rw [hpc] at hgood hs
    obtain ⟨-, ⟨hupload, hrequests, -⟩ | ⟨-, hrequests, -⟩ | ⟨-, -, -, -, hrequests, -⟩⟩ := hgood
    · obtain ⟨rfl, -⟩ := hs
      rw [handle_upload port slot hrequests] at h
      obtain rfl := Option.some.inj h
      refine ⟨rfl, fun ws hws => ?_⟩
      dsimp only at hws ⊢
      rw [hupload] at hws ⊢
      generalize hres : handleUpload port slot s.fs none s.requestId results (.openWrite other.opening) = res at hws ⊢
      obtain ⟨fs', upload', reply⟩ := res
      cases upload_effect hres with
      | refused => cases hws
      | opened _ finalPath tempPath _ hpath htemp _ =>
        obtain rfl := Option.some.inj hws
        exact receiving_opened hpath htemp
    · rw [handle_nil hrequests] at h
      cases h
    · rw [handle_nil hrequests] at h
      cases h
  | waiting other offset acked inFlight =>
    rw [hpc] at hgood hs
    obtain ⟨rfl, hwaits, hreceiving, hfile⟩ := hs
    obtain ⟨hsize, hoffset, ws, done, todo, start, hupload, hexpected, hreceived, hdone, htodo, hflight, hrequests,
      hreplies⟩ := hgood
    cases todo with
    | nil =>
      rw [handle_nil hrequests] at h
      cases h
    | cons chunk todo =>
      rw [List.map_cons, chunkRequest] at hrequests
      obtain ⟨hstart, hne, hlength, hrest⟩ := htodo
      have hend := hrest.le
      have hchunk : ws.received = UInt32.ofNat chunk.1 := by rw [hreceived, hstart]
      have hwritten : results.write.ok = true ∧ results.wrote = chunk.2.length := by
        unfold WritesWhole PutSystem.nextChunk at hwhole
        rw [hrequests] at hwhole
        simpa [(chunkPayload_fields chunk).1] using hwhole
      obtain ⟨-, -, -, -, hack⟩ :=
        (handleWriteChunk_next port s.fs results hsize hexpected hne hlength hchunk (by omega)).1 hwritten
      have hdrop := (chunkPayload_fields chunk).2.2
      have hmax : other.size < 2 ^ 31 := by
        unfold maxFile at hsize
        omega
      have hcount : ws.received.toNat = chunk.1 := by
        unfold chunkEnd at hend
        rw [hchunk, UInt32.toNat_ofNat_of_lt' (show chunk.1 < 2 ^ 32 by omega)]
      have hdata := hfile s.requestId (chunkPayload chunk) (by rw [hrequests]; exact List.mem_cons_self)
      unfold FromFile at hdata
      rw [hdrop, (chunkPayload_fields chunk).2.1, ← hchunk] at hdata
      rw [handle_upload port slot hrequests] at h
      obtain rfl := Option.some.inj h
      refine ⟨rfl, hwaits, fun ws' hws' => ?_, fun id payload hmem => hfile id payload ?_⟩
      rotate_left
      · rw [hrequests]
        exact List.mem_cons_of_mem _ hmem
      dsimp only at hws' ⊢
      rw [hupload] at hws' ⊢
      have hreply : (handleUpload port slot s.fs (some ws) s.requestId results (.writeChunk (chunkPayload chunk))).2.2 =
          .writeAck (UInt32.ofNat (chunkEnd chunk)) := hack
      generalize hres : handleUpload port slot s.fs (some ws) s.requestId results (.writeChunk (chunkPayload chunk)) = res
        at hws' hreply ⊢
      obtain ⟨fs', upload', reply⟩ := res
      cases upload_effect hres with
      | refused => cases hreply
      | broke => cases hreply
      | acked _ other hup _ _ =>
        obtain rfl := Option.some.inj hup
        obtain rfl := Option.some.inj hws'
        rw [hdrop]
        unfold chunkEnd at hend
        exact (hreceiving ws hupload).acked hdata (by omega)
  | committing other =>
    rw [hpc] at hgood hs
    obtain ⟨rfl, hmax, hreceiving, -⟩ := hs
    rcases hgood with ⟨-, hrequests, hreplies⟩ | ⟨-, hrequests, -⟩
    · rw [handle_upload port slot hrequests] at h
      obtain rfl := Option.some.inj h
      refine ⟨rfl, hmax, fun ws hws => ?_, fun id size crc hmem => ?_⟩
      · have hnone : (handleUpload port slot s.fs s.upload s.requestId results (.commit [])).2.1 = none :=
          handleCommit_closes _ _ _
        dsimp only at hws
        rw [hnone] at hws
        cases hws
      · dsimp only at hmem ⊢
        rw [hreplies, List.nil_append, List.mem_singleton] at hmem
        generalize hres : handleUpload port slot s.fs s.upload s.requestId results (.commit []) = res at hmem ⊢
        obtain ⟨fs', upload', reply⟩ := res
        cases upload_effect hres with
        | refused => cases hmem
        | dropped => cases hmem
        | unpromoted => cases hmem
        | completed _ ws hup hsize hcrc hstatus => exact (hreceiving ws hup).completed hmax hsize hcrc hstatus
    · rw [handle_nil hrequests] at h
      cases h
  | asking => trivial

/-! ## The client reads a reply -/

omit [DecidableEq K] in
theorem refillChunks_file (hsize : job.size ≤ maxFile) (room offset : ℕ) :
    ∀ chunk ∈ (refillChunks job room offset).1, FromFile job (chunkPayload chunk) := by
  induction room generalizing offset with
  | zero =>
    intro chunk hchunk
    cases hchunk
  | succ room ih =>
    rw [refillChunks]
    split
    · rename_i hmore
      dsimp only
      split
      · intro chunk hchunk
        cases hchunk
      · intro chunk hchunk
        rcases List.mem_cons.1 hchunk with rfl | hchunk
        · obtain ⟨-, hoffset, hdrop⟩ :=
            chunkPayload_fields (offset, (job.second.drop offset).take (min chunkSize (job.size - offset)))
          unfold maxFile at hsize
          unfold FromFile
          rw [hdrop, hoffset, UInt32.toNat_ofNat_of_lt' (show offset < 2 ^ 32 by omega)]
          dsimp only
          rw [List.length_take, List.take_eq_take_iff, List.length_drop]
          omega
        · exact ih _ chunk hchunk
    · intro chunk hchunk
      cases hchunk

omit [DecidableEq K] in
theorem refillChunks_some {room offset : ℕ} (hroom : 0 < room) (hmore : offset < job.size)
    (hwhole : (refillChunks job room offset).2 = true) : (refillChunks job room offset).1 ≠ [] := by
  cases room with
  | zero => cases hroom
  | succ room =>
    rw [refillChunks, if_pos hmore] at hwhole ⊢
    dsimp only at hwhole ⊢
    split at hwhole
    · cases hwhole
    · rename_i hsome
      rw [if_neg hsome]
      exact List.cons_ne_nil _ _

omit [DecidableEq K] in
theorem advance_pc (offset acked : ℕ) (inFlight : List ℕ) :
    (s.advance window job offset acked inFlight).pc ≠ .idle (some .complete) := by
  unfold PutSystem.advance
  split
  · dsimp only
    generalize (if inFlight.length ≤ max 1 window / 2 then max 1 window - inFlight.length else 0) = room
    split
    · exact fun h => by cases h
    · exact fun h => by cases h
  · exact fun h => by cases h

omit [DecidableEq K] in
/-- **The head of the loop** reads on in the file, or sends the commit. -/
theorem carrying_advance (s : PutSystem K) (hsize : job.size ≤ maxFile) (hreceiving : ∀ ws, s.upload = some ws → Receiving port slot job s.fs ws)
    (hfile : ∀ id payload, (id, .upload (.writeChunk payload)) ∈ s.requests → FromFile job payload)
    (hnone : ∀ id size crc, (id, .upload (.writeComplete size crc)) ∉ s.replies) {offset acked : ℕ} {inFlight : List ℕ}
    (hnext : inFlight = [] → offset = acked) : Carrying port slot job (s.advance window job offset acked inFlight) := by
  unfold PutSystem.advance
  split
  · rename_i hacked
    dsimp only
    have hroom : inFlight = [] → 0 < if inFlight.length ≤ max 1 window / 2 then max 1 window - inFlight.length else 0 := by
      rintro rfl
      rw [List.length_nil, if_pos (Nat.zero_le _)]
      omega
    generalize (if inFlight.length ≤ max 1 window / 2 then max 1 window - inFlight.length else 0) = room at hroom
    have hchunks := refillChunks_file hsize room offset
    split
    · rename_i hwhole
      refine ⟨rfl, fun hnil => ?_, hreceiving, fun id payload hmem => ?_⟩
      · obtain ⟨hempty, hends⟩ := List.append_eq_nil_iff.1 hnil
        have hoffset := hnext hempty
        exact refillChunks_some (hroom hempty) (by omega) hwhole (List.map_eq_nil_iff.1 hends)
      rcases List.mem_append.1 hmem with hmem | hmem
      · exact hfile id payload hmem
      · obtain ⟨chunk, hchunk, heq⟩ := List.mem_map.1 hmem
        simp only [Prod.mk.injEq, PutRequest.upload.injEq, UploadRequest.writeChunk.injEq] at heq
        rw [← heq.2]
        exact hchunks chunk hchunk
    · intro h
      cases h
  · exact ⟨rfl, hsize, hreceiving, fun id size crc hmem => absurd hmem (hnone id size crc)⟩

theorem chunkAck_not_complete (id other size crc : UInt32) (done : List (ℕ × Bytes)) :
    (id, PutReply.upload (.writeComplete size crc)) ∉ done.map (chunkAck other) := by
  intro hmem
  obtain ⟨chunk, -, heq⟩ := List.mem_map.1 hmem
  cases heq

omit [DecidableEq K] in
theorem carrying_expect (hgood : s.Good) (hs : Carrying port slot job s) (hbusy : ∀ last, s.pc ≠ .idle last)
    (h : s.expect window = some s') : Carrying port slot job s' := by
  unfold PutSystem.Good at hgood
  unfold Carrying at hs
  cases hpc : s.pc with
  | idle last => exact absurd hpc (hbusy last)
  | opening other =>
    rw [hpc] at hgood hs
    obtain ⟨rfl, hreceiving⟩ := hs
    obtain ⟨hsize, ⟨-, -, hreplies⟩ | ⟨-, -, status, native, detail, hreplies⟩ | ⟨ws, -, -, -, hrequests, hreplies⟩⟩ := hgood
    · rw [expect_nil hreplies] at h
      cases h
    · rw [expect_cons hreplies] at h
      obtain rfl := Option.some.inj h
      intro hlast
      cases hlast
    · rw [expect_cons hreplies] at h
      obtain rfl := Option.some.inj h
      unfold PutSystem.answer
      dsimp only
      rw [hpc]
      simp only [decide_true, Bool.and_self, if_true]
      refine carrying_advance { s with replies := [] } hsize hreceiving ?_ ?_ fun _ => rfl
      · intro id payload hmem
        dsimp only at hmem
        rw [hrequests] at hmem
        cases hmem
      · intro id size crc hmem
        cases hmem
  | waiting other offset acked inFlight =>
    rw [hpc] at hgood hs
    obtain ⟨rfl, -, hreceiving, hfile⟩ := hs
    obtain ⟨hsize, -, ws, done, todo, start, -, -, -, hdone, htodo, hflight, -, hreplies⟩ := hgood
    cases done with
    | nil =>
      rw [expect_nil hreplies] at h
      cases h
    | cons chunk done =>
      rw [expect_cons hreplies] at h
      obtain rfl := Option.some.inj h
      unfold PutSystem.answer
      dsimp only
      rw [hpc, hflight]
      simp only [List.cons_append, List.map_cons, if_true]
      refine carrying_advance { s with replies := done.map (chunkAck s.requestId) } hsize hreceiving hfile
        (fun id size crc => chunkAck_not_complete id s.requestId size crc done) fun hnil => ?_
      obtain ⟨rfl, rfl⟩ := List.append_eq_nil_iff.1 (List.map_eq_nil_iff.1 hnil)
      obtain rfl : start = offset := htodo
      exact hdone.2.2.2.symm
  | committing other =>
    rw [hpc] at hgood hs
    obtain ⟨rfl, -, -, hdelivered⟩ := hs
    rcases hgood with ⟨-, -, hreplies⟩ | ⟨-, hrequests, reply, hreplies⟩
    · rw [expect_nil hreplies] at h
      cases h
    · rw [expect_cons hreplies] at h
      obtain rfl := Option.some.inj h
      rw [hreplies] at hdelivered
      cases reply with
      | other =>
        unfold PutSystem.answer
        rw [show PutSystem.pc { s with replies := [] } = _ from hpc]
        intro hlast
        cases hlast
      | upload reply =>
        cases reply with
        | error status native detail =>
          intro hlast
          cases hlast
        | writeReady size crc =>
          unfold PutSystem.answer
          dsimp only
          rw [hpc]
          intro hlast
          cases hlast
        | writeAck received =>
          unfold PutSystem.answer
          dsimp only
          rw [hpc]
          intro hlast
          cases hlast
        | writeComplete size crc =>
          unfold PutSystem.answer
          dsimp only
          rw [hpc]
          dsimp only
          split
          · exact fun _ => ⟨hdelivered _ size crc List.mem_cons_self, hrequests⟩
          · intro hlast
            cases hlast
  | asking =>
    rw [hpc] at hgood
    exact hgood.elim

omit [DecidableEq K] in
/-- A broken upload does not end as complete. -/
theorem stuck_not_complete (hs : s.Stuck) (hbusy : ∀ last, s.pc ≠ .idle last) (h : s.expect window = some s') :
    s'.pc ≠ .idle (some .complete) := by
  unfold PutSystem.Stuck at hs
  cases hpc : s.pc with
  | idle last => exact absurd hpc (hbusy last)
  | opening other =>
    rw [hpc] at hs
    obtain ⟨-, ⟨hreplies, -⟩ | ⟨-, status, native, detail, hreplies⟩⟩ := hs
    · rw [expect_nil hreplies] at h
      cases h
    · rw [expect_cons hreplies] at h
      obtain rfl := Option.some.inj h
      exact fun hdone => by cases hdone
  | waiting other offset acked inFlight =>
    rw [hpc] at hs
    obtain ⟨-, -, -, done, bad, todo, -, hflight, status, native, detail, more, hreplies⟩ := hs
    cases done with
    | nil =>
      rw [expect_cons hreplies] at h
      obtain rfl := Option.some.inj h
      exact fun hdone => by cases hdone
    | cons chunk done =>
      rw [expect_cons hreplies] at h
      obtain rfl := Option.some.inj h
      unfold PutSystem.answer
      dsimp only
      rw [hpc, hflight]
      simp only [List.cons_append, List.map_cons, if_true]
      exact advance_pc _ _ _
  | committing other =>
    rw [hpc] at hs
    exact hs.elim
  | asking =>
    rw [hpc] at hs
    exact hs.elim

/-! ## Whole uploads -/

omit [DecidableEq K] in
theorem carrying_elsewhere (hs : Carrying port slot job s) {fs : Fs K} (hkept : LeavesAlone port job s (.elsewhere fs)) :
    Carrying port slot job { s with fs := fs } := by
  obtain ⟨hfinal, htemp⟩ := hkept
  have hreceiving : ∀ ws, s.upload = some ws → Receiving port slot job s.fs ws → Receiving port slot job fs ws :=
    fun ws hws h => h.of_same (htemp ws hws)
  have hdelivered : Delivered port job s.fs → Delivered port job fs := fun h => ⟨hfinal.trans h.file, h.size, h.crc⟩
  unfold Carrying at hs ⊢
  dsimp only
  cases hpc : s.pc with
  | idle last =>
    rw [hpc] at hs
    exact fun hlast => ⟨hdelivered (hs hlast).1, (hs hlast).2⟩
  | opening other =>
    rw [hpc] at hs
    exact ⟨hs.1, fun ws hws => hreceiving ws hws (hs.2 ws hws)⟩
  | waiting other offset acked inFlight =>
    rw [hpc] at hs
    exact ⟨hs.1, hs.2.1, fun ws hws => hreceiving ws hws (hs.2.2.1 ws hws), hs.2.2.2⟩
  | committing other =>
    rw [hpc] at hs
    exact ⟨hs.1, hs.2.1, fun ws hws => hreceiving ws hws (hs.2.2.1 ws hws),
      fun id size crc hmem => hdelivered (hs.2.2.2 id size crc hmem)⟩
  | asking => trivial

/-- **One step** of the client, the agent or another program. -/
theorem delivering_step (hs : Delivering port slot job s) {act : PutAct K} (hcall : act.inCall)
    (hkept : LeavesAlone port job s act) (h : putStep port slot window s act = some s') : Delivering port slot job s' := by
  cases act with
  | put _ => cases hcall
  | operation => cases hcall
  | handle results =>
    have hpc : s'.pc = s.pc := handle_pc h
    rcases hs with ⟨hgood, hcarrying⟩ | ⟨hstuck, hopen⟩
    · by_cases hwhole : WritesWhole s (.handle results)
      · exact .inl ⟨(good_handle hgood h).1 hwhole, carrying_handle hgood hcarrying hwhole h⟩
      · refine .inr ⟨(good_handle hgood h).2 hwhole, fun hdone => ?_⟩
        -- a complete upload has nothing more to be handled
        rw [hpc] at hdone
        unfold Carrying at hcarrying
        rw [hdone] at hcarrying
        have hnone : s.handle port slot results = none := handle_nil (hcarrying rfl).2 results
        have hsome : s.handle port slot results = some s' := h
        rw [hnone] at hsome
        cases hsome
    · exact .inr ⟨stuck_handle hstuck h, hpc ▸ hopen⟩
  | expect =>
    obtain ⟨hbusy, hexpect⟩ := expect_busy rfl h
    rcases hs with ⟨hgood, hcarrying⟩ | ⟨hstuck, -⟩
    · exact .inl ⟨good_expect hgood hbusy hexpect, carrying_expect hgood hcarrying hbusy hexpect⟩
    · exact .inr ⟨stuck_expect hstuck hbusy hexpect, stuck_not_complete hstuck hbusy hexpect⟩
  | elsewhere fs =>
    obtain rfl := Option.some.inj h
    rcases hs with ⟨hgood, hcarrying⟩ | ⟨hstuck, hopen⟩
    · exact .inl ⟨hgood, carrying_elsewhere hcarrying hkept⟩
    · exact .inr ⟨hstuck, hopen⟩

theorem delivering_run {as : List (PutAct K)} (hcall : ∀ act ∈ as, act.inCall) (hs : Delivering port slot job s)
    (hkept : Trace.Under (putStep port slot window) (LeavesAlone port job) s as)
    (h : exec (putStep port slot window) s as = some s') : Delivering port slot job s' := by
  have hunder : Trace.Under (putStep port slot window) (fun s act => act.inCall = true ∧ LeavesAlone port job s act) s as :=
    fun n hn m hm => ⟨hcall _ (List.getElem_mem hn), hkept n hn m hm⟩
  exact exec_inv_under (fun _ _ _ hs hc h' => delivering_step hs hc.1 hc.2 h') hs hunder h

omit [DecidableEq K] in
/-- A call begins on a connection with nothing on its way. -/
theorem delivering_put (fs : Fs K) (requestId : UInt32) (job : PutJob) :
    Delivering port slot job ((PutSystem.start fs none requestId).put job) := by
  refine .inl ⟨(put_start fs none requestId job).1 rfl, ?_⟩
  unfold PutSystem.put
  split
  · exact fun hlast => by cases hlast
  · split
    · exact fun hlast => by cases hlast
    · split
      · exact fun hlast => by cases hlast
      · split
        · exact fun hlast => by cases hlast
        · exact ⟨rfl, fun ws hws => by cases hws⟩

omit [DecidableEq K] in
/-- While the client waits, a request or a reply is on its way. -/
theorem delivering_goes_on (hs : Delivering port slot job s) :
    (∃ last, s.pc = .idle last) ∨ s.requests ≠ [] ∨ s.replies ≠ [] := by
  rcases hs with ⟨hgood, hcarrying⟩ | ⟨hstuck, -⟩
  · unfold PutSystem.Good at hgood
    unfold Carrying at hcarrying
    cases hpc : s.pc with
    | idle last => exact .inl ⟨last, rfl⟩
    | opening other =>
      rw [hpc] at hgood
      obtain ⟨-, ⟨-, hrequests, -⟩ | ⟨-, -, status, native, detail, hreplies⟩ | ⟨ws, -, -, -, -, hreplies⟩⟩ := hgood
      · exact .inr (.inl (by rw [hrequests]; exact List.cons_ne_nil _ _))
      · exact .inr (.inr (by rw [hreplies]; exact List.cons_ne_nil _ _))
      · exact .inr (.inr (by rw [hreplies]; exact List.cons_ne_nil _ _))
    | waiting other offset acked inFlight =>
      rw [hpc] at hgood hcarrying
      obtain ⟨-, -, ws, done, todo, start, -, -, -, -, -, hflight, hrequests, hreplies⟩ := hgood
      have hsome := hcarrying.2.1
      rw [hflight, ne_eq, List.map_eq_nil_iff, List.append_eq_nil_iff, not_and_or] at hsome
      rcases hsome with hdone | htodo
      · exact .inr (.inr (by rw [hreplies]; exact fun h => hdone (List.map_eq_nil_iff.1 h)))
      · exact .inr (.inl (by rw [hrequests]; exact fun h => htodo (List.map_eq_nil_iff.1 h)))
    | committing other =>
      rw [hpc] at hgood
      rcases hgood with ⟨-, hrequests, -⟩ | ⟨-, -, reply, hreplies⟩
      · exact .inr (.inl (by rw [hrequests]; exact List.cons_ne_nil _ _))
      · exact .inr (.inr (by rw [hreplies]; exact List.cons_ne_nil _ _))
    | asking =>
      rw [hpc] at hgood
      exact hgood.elim
  · unfold PutSystem.Stuck at hstuck
    cases hpc : s.pc with
    | idle last => exact .inl ⟨last, rfl⟩
    | opening other =>
      rw [hpc] at hstuck
      obtain ⟨-, ⟨-, payload, hrequests⟩ | ⟨-, status, native, detail, hreplies⟩⟩ := hstuck
      · exact .inr (.inl (by rw [hrequests]; exact List.cons_ne_nil _ _))
      · exact .inr (.inr (by rw [hreplies]; exact List.cons_ne_nil _ _))
    | waiting other offset acked inFlight =>
      rw [hpc] at hstuck
      obtain ⟨-, -, -, done, bad, todo, -, -, status, native, detail, more, hreplies⟩ := hstuck
      exact .inr (.inr (by rw [hreplies]; exact List.append_ne_nil_of_right_ne_nil _ (List.cons_ne_nil _ _)))
    | committing other =>
      rw [hpc] at hstuck
      exact hstuck.elim
    | asking =>
      rw [hpc] at hstuck
      exact hstuck.elim

/-- **An upload that the client takes for complete is delivered**: the final path holds the
chunks of the second reading, with the size and the CRC of the first, so that a file that was
read twice alike is there byte by byte. Until the client is through, one of the two sides can go on. -/
theorem put_delivers {fs : Fs K} {requestId : UInt32} {as : List (PutAct K)} (hcall : ∀ act ∈ as, act.inCall)
    (hkept : Trace.Under (putStep port slot window) (LeavesAlone port job) ((PutSystem.start fs none requestId).put job) as)
    (h : exec (putStep port slot window) (.start fs none requestId) (.put job :: as) = some s) :
    (s.pc = .idle (some .complete) → s.fs (port.key job.path) = some (.file job.sent) ∧ job.sent.length = job.size ∧
      crc32 job.sent = job.crc ∧ (job.second = job.first → s.fs (port.key job.path) = some (.file job.first))) ∧
    ((∃ last, s.pc = .idle last) ∨ s.requests ≠ [] ∨ s.replies ≠ []) := by
  have hs := delivering_run hcall (delivering_put fs requestId job) hkept h
  refine ⟨fun hdone => ?_, delivering_goes_on hs⟩
  have hdelivered : Delivered port job s.fs := by
    rcases hs with ⟨-, hcarrying⟩ | ⟨-, hopen⟩
    · unfold Carrying at hcarrying
      rw [hdone] at hcarrying
      exact (hcarrying rfl).1
    · exact absurd hdone hopen
  refine ⟨hdelivered.file, hdelivered.size, hdelivered.crc, fun hsame => ?_⟩
  have hsent : job.sent = job.first := by
    rw [PutJob.sent, hsame]
    exact List.take_length
  rw [← hsent]
  exact hdelivered.file

/-- OPEN_WRITE, the only chunk and the commit. -/
def deliveredRun : List (PutAct Bytes) :=
  [.handle (demoResults 0), .expect, .handle (demoResults 1), .expect, .handle (demoResults 0), .expect]

theorem put_delivers_demo : ∃ s, exec (putStep winPort 0 32) (.start noFiles none 7) (.put demoJob :: deliveredRun) = some s ∧
    s.pc = .idle (some .complete) ∧ s.fs (winPort.key (ascii "C:\\A")) = some (.file (ascii "P")) := by
  have hrun : (exec (putStep winPort 0 32) (.start noFiles none 7) (.put demoJob :: deliveredRun)).map (·.pc) =
      some (.idle (some .complete)) := by decide
  obtain ⟨s, hs, hpc⟩ := Option.map_eq_some_iff.1 hrun
  have hkept : Trace.Under (putStep winPort 0 32) (LeavesAlone winPort demoJob)
      ((PutSystem.start noFiles none 7).put demoJob) deliveredRun := by
    intro n hn m _
    have hnone : ∀ act ∈ deliveredRun, ∀ fs, act ≠ .elsewhere fs := by
      intro act hact fs
      simp only [deliveredRun, List.mem_cons, List.not_mem_nil, or_false] at hact
      rcases hact with rfl | rfl | rfl | rfl | rfl | rfl <;> exact fun h => by cases h
    have hact := hnone _ (List.getElem_mem hn)
    generalize deliveredRun[n] = act at hact
    cases act with
    | elsewhere fs => exact absurd rfl (hact fs)
    | put _ => trivial
    | operation => trivial
    | handle _ => trivial
    | expect => trivial
  exact ⟨s, hs, hpc, ((put_delivers (by decide) hkept hs).1 hpc).2.2.2 rfl⟩

end V9xRemote
