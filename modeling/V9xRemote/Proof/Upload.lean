import V9xRemote.Proof.Promote
import V9xRemote.Spec.Files

/-!
# The upload transaction

What the agent put into the temporary file is read off the conversation: the
acknowledged chunks, and what failed writes left between them. `upload_effect`
says once what a request can do; `Uploading` ties the write state and the file to
the conversation.
-/

namespace V9xRemote

open Bytes Trace

/-! ## The conversation -/

namespace Exchange

def chunk (e : Exchange) : Bytes :=
  match e.request with
  | .writeChunk payload => payload.drop 4
  | _ => []

/-- OPEN_WRITE was accepted. -/
def opens (e : Exchange) : Bool :=
  match e.reply with
  | .writeReady _ _ => true
  | _ => false

/-- The chunk was acknowledged. -/
def acks (e : Exchange) : Bool :=
  match e.reply with
  | .writeAck _ => true
  | _ => false

/-- The upload was answered as complete. -/
def completes (e : Exchange) : Bool :=
  match e.reply with
  | .writeComplete _ _ => true
  | _ => false

/-- The write of the chunk failed. -/
def fails (e : Exchange) : Bool :=
  match e.reply with
  | .error _ _ detail => detail == "upload write failed"
  | _ => false

/-- What a failed write left in the file. -/
def left (e : Exchange) : Bytes := if e.fails then e.chunk.take e.results.wrote else []

/-- What the exchange added to the file. -/
def stored (e : Exchange) : Bytes := if e.acks then e.chunk else e.left

end Exchange

/-- The exchanges since the last accepted OPEN_WRITE, newest first. -/
def transaction : List Exchange → List Exchange
  | [] => []
  | e :: log => if e.opens then [] else e :: transaction log

/-- The last accepted OPEN_WRITE. -/
def opening (log : List Exchange) : Option Exchange := log.find? Exchange.opens

/-- The chunks acknowledged in this transaction, in order. -/
def ackedChunks (log : List Exchange) : List Bytes :=
  ((transaction log).reverse.filter Exchange.acks).map Exchange.chunk

/-- What is in the temporary file. -/
def storedBytes (log : List Exchange) : Bytes := (transaction log).reverse.flatMap Exchange.stored

/-- No failed write of the transaction left bytes behind. -/
def CleanWrites (log : List Exchange) : Prop := ∀ e ∈ transaction log, e.left = []

instance (log : List Exchange) : Decidable (CleanWrites log) :=
  inferInstanceAs (Decidable (∀ e ∈ transaction log, e.left = []))

theorem stored_acks {e : Exchange} (h : e.acks = true) : e.stored = e.chunk ∧ e.left = [] := by
  have hf : e.fails = false := by
    unfold Exchange.acks at h
    unfold Exchange.fails
    split at h
    · rename_i hr; simp [hr]
    · exact absurd h (by simp)
  simp [Exchange.stored, Exchange.left, h, hf]

theorem stored_of_not_acks {e : Exchange} (h : e.acks = false) : e.stored = e.left := by
  simp [Exchange.stored, h]

/-- The acknowledged bytes are all that was stored exactly when nothing was left over. -/
theorem stored_eq_iff (l : List Exchange) :
    l.flatMap Exchange.stored = ((l.filter Exchange.acks).map Exchange.chunk).flatten ↔
      ∀ e ∈ l, e.left = [] := by
  have hle : ∀ l : List Exchange, ((l.filter Exchange.acks).map Exchange.chunk).flatten.length ≤
      (l.flatMap Exchange.stored).length := by
    intro l
    induction l with
    | nil => simp
    | cons e l ih =>
      cases ha : e.acks with
      | true => simp [ha, (stored_acks ha).1] at ih ⊢; omega
      | false => simp [ha] at ih ⊢; omega
  induction l with
  | nil => simp
  | cons e l ih =>
    rw [List.flatMap_cons, List.forall_mem_cons]
    refine Iff.trans ?_ (and_congr_right fun _ => ih)
    cases ha : e.acks with
    | true =>
      rw [List.filter_cons_of_pos ha, List.map_cons, List.flatten_cons, (stored_acks ha).1]
      simp [(stored_acks ha).2]
    | false =>
      rw [List.filter_cons_of_neg (by simp [ha]), stored_of_not_acks ha]
      constructor
      · intro h
        have hlen := congrArg List.length h
        rw [List.length_append] at hlen
        have hzero : e.left.length = 0 := by
          have := hle l
          omega
        have hnil : e.left = [] := List.eq_nil_of_length_eq_zero hzero
        exact ⟨hnil, by rw [hnil] at h; exact h⟩
      · rintro ⟨hnil, h⟩
        rw [hnil]; exact h

theorem storedBytes_eq_iff (log : List Exchange) :
    storedBytes log = (ackedChunks log).flatten ↔ CleanWrites log := by
  rw [storedBytes, ackedChunks, stored_eq_iff]
  simp [CleanWrites]

theorem transaction_cons {e : Exchange} (h : e.opens = false) (log : List Exchange) :
    transaction (e :: log) = e :: transaction log := by
  simp [transaction, h]

theorem opening_cons {e : Exchange} (h : e.opens = false) (log : List Exchange) :
    opening (e :: log) = opening log := by
  simp [opening, h]

theorem storedBytes_cons {e : Exchange} (h : e.opens = false) (log : List Exchange) :
    storedBytes (e :: log) = storedBytes log ++ e.stored := by
  simp [storedBytes, transaction_cons h]

theorem ackedChunks_acks {e : Exchange} (h : e.opens = false) (ha : e.acks = true) (log : List Exchange) :
    ackedChunks (e :: log) = ackedChunks log ++ [e.chunk] := by
  simp [ackedChunks, transaction_cons h, ha]

theorem ackedChunks_other {e : Exchange} (h : e.opens = false) (ha : e.acks = false)
    (log : List Exchange) : ackedChunks (e :: log) = ackedChunks log := by
  simp [ackedChunks, transaction_cons h, ha]

/-! ## What a request can do -/

variable {K : Type} [DecidableEq K] {port : Port K} {slot : UInt32}

/-- What a request does to the directory and the write state, and its reply. -/
inductive UploadEffect (port : Port K) (slot : UInt32) (fs : Fs K) (upload : Option WriteState)
    (requestId : UInt32) (r : UploadResults) :
    UploadRequest → Fs K → Option WriteState → UploadReply → Prop
  /-- nothing is done -/
  | refused (request : UploadRequest) (status native : UInt32) (detail : String)
      (hdetail : detail ≠ "upload write failed") :
      UploadEffect port slot fs upload requestId r request fs upload (.error status native detail)
  /-- the temporary file is created -/
  | opened (payload finalPath tempPath : Bytes) (hup : upload = none)
      (hpath : readPath payload 8 port.pathMax = some finalPath)
      (htemp : port.partPath finalPath slot requestId = some tempPath)
      (hdir : fs (port.key tempPath) ≠ some .dir) :
      UploadEffect port slot fs upload requestId r (.openWrite payload)
        (fs.put (port.key tempPath) (.file []))
        (some ⟨payload.readU32 0, payload.readU32 4, 0, crc32Begin, finalPath, tempPath⟩)
        (.writeReady (payload.readU32 0) (payload.readU32 4))
  /-- a chunk is written and acknowledged -/
  | acked (payload : Bytes) (ws : WriteState) (hup : upload = some ws)
      (hlen : (payload.drop 4).length ≤ fileChunkSize)
      (hfit : UInt32.ofNat (payload.drop 4).length ≤ ws.expectedSize - ws.received) :
      UploadEffect port slot fs upload requestId r (.writeChunk payload)
        (fs.append (port.key ws.tempPath) (payload.drop 4))
        (some { ws with
          runningCrc := crc32Update ws.runningCrc (payload.drop 4)
          received := ws.received + UInt32.ofNat (payload.drop 4).length })
        (.writeAck (ws.received + UInt32.ofNat (payload.drop 4).length))
  /-- the write of a chunk fails -/
  | broke (payload : Bytes) (ws : WriteState) (hup : upload = some ws) :
      UploadEffect port slot fs upload requestId r (.writeChunk payload)
        (fs.append (port.key ws.tempPath) ((payload.drop 4).take r.wrote)) upload
        (.error statusIoFailed r.write.error "upload write failed")
  /-- a commit that gives the temporary file up -/
  | dropped (payload : Bytes) (ws : WriteState) (status native : UInt32) (detail : String)
      (hup : upload = some ws) (hdetail : detail ≠ "upload write failed") :
      UploadEffect port slot fs upload requestId r (.commit payload)
        (fs.remove (port.key ws.tempPath) r.dropTemp) none (.error status native detail)
  /-- a commit whose promotion fails -/
  | unpromoted (payload : Bytes) (ws : WriteState) (hup : upload = some ws)
      (hstatus : (promoteTemp port fs ws.finalPath ws.tempPath r.promote).2.1 ≠ statusOk) :
      UploadEffect port slot fs upload requestId r (.commit payload)
        (promoteTemp port fs ws.finalPath ws.tempPath r.promote).1 none
        (.error (promoteTemp port fs ws.finalPath ws.tempPath r.promote).2.1
          (promoteTemp port fs ws.finalPath ws.tempPath r.promote).2.2 "upload final rename failed")
  /-- a commit that is answered as complete -/
  | completed (payload : Bytes) (ws : WriteState) (hup : upload = some ws)
      (hsize : ws.received = ws.expectedSize) (hcrc : crc32End ws.runningCrc = ws.expectedCrc)
      (hstatus : (promoteTemp port fs ws.finalPath ws.tempPath r.promote).2.1 = statusOk) :
      UploadEffect port slot fs upload requestId r (.commit payload)
        (promoteTemp port fs ws.finalPath ws.tempPath r.promote).1 none
        (.writeComplete ws.received (crc32End ws.runningCrc))

variable {fs fs' : Fs K} {upload upload' : Option WriteState} {requestId : UInt32} {r : UploadResults}
  {request : UploadRequest} {reply : UploadReply}

theorem openWrite_effect {payload : Bytes}
    (h : handleOpenWrite port slot fs upload requestId payload r = (fs', upload', reply)) :
    UploadEffect port slot fs upload requestId r (.openWrite payload) fs' upload' reply := by
  unfold handleOpenWrite at h
  split at h
  · cases h; exact .refused _ _ _ _ (by decide)
  split at h
  · cases h; exact .refused _ _ _ _ (by decide)
  rename_i finalPath hpath
  dsimp only at h
  split at h
  · cases h; exact .refused _ _ _ _ (by decide)
  rename_i tempPath htemp
  have hpath' : readPath payload 8 port.pathMax = some finalPath := by
    split at hpath
    · exact absurd hpath (by simp)
    · exact hpath
  have htemp' : port.partPath finalPath slot requestId = some tempPath := by
    split at htemp
    · exact absurd htemp (by simp)
    · exact htemp
  unfold Fs.create at h
  split at h
  · rename_i hcreate
    split at hcreate
    · cases hcreate
    · cases hcreate; cases h; exact .refused _ _ _ _ (by decide)
  · rename_i hcreate
    split at hcreate
    · rename_i hok
      simp only [Bool.and_eq_true, bne_iff_ne] at hok
      cases hcreate; cases h
      exact .opened payload finalPath tempPath rfl hpath' htemp' hok.2
    · cases hcreate

theorem writeChunk_effect {payload : Bytes}
    (h : handleWriteChunk port fs upload payload r = (fs', upload', reply)) :
    UploadEffect port slot fs upload requestId r (.writeChunk payload) fs' upload' reply := by
  unfold handleWriteChunk at h
  split at h
  · cases h; exact .refused _ _ _ _ (by decide)
  rename_i ws
  split at h
  · cases h; exact .refused _ _ _ _ (by decide)
  rename_i hlen
  dsimp only at h
  split at h
  · cases h; exact .refused _ _ _ _ (by decide)
  rename_i hfit
  split at h
  · cases h; exact .broke payload ws rfl
  · cases h
    simp only [Bool.or_eq_true, decide_eq_true_eq, not_or] at hlen
    refine .acked payload ws rfl ?_ (UInt32.not_lt.1 hfit)
    rw [List.length_drop]
    omega

theorem commit_effect {payload : Bytes}
    (h : handleCommit port fs upload payload r = (fs', upload', reply)) :
    UploadEffect port slot fs upload requestId r (.commit payload) fs' upload' reply := by
  unfold handleCommit commitClosed at h
  split at h
  · cases h; exact .refused _ _ _ _ (by decide)
  rename_i ws
  split at h
  · cases h; exact .refused _ _ _ _ (by decide)
  split at h
  · cases h; exact .dropped payload ws _ _ _ rfl (by decide)
  dsimp only at h
  split at h
  · cases h; exact .dropped payload ws _ _ _ rfl (by decide)
  rename_i hcheck
  simp only [Bool.or_eq_true, bne_iff_ne, not_or, not_not] at hcheck
  split at h
  · rename_i hstatus
    cases h
    exact .unpromoted payload ws rfl (by simpa using hstatus)
  · rename_i hstatus
    cases h
    exact .completed payload ws rfl hcheck.1 hcheck.2 (by simpa using hstatus)

/-- **Every request of an upload has one of these effects.** -/
theorem upload_effect (h : handleUpload port slot fs upload requestId r request = (fs', upload', reply)) :
    UploadEffect port slot fs upload requestId r request fs' upload' reply := by
  cases request with
  | openWrite payload => exact openWrite_effect h
  | writeChunk payload => exact writeChunk_effect h
  | commit payload => exact commit_effect h

end V9xRemote
