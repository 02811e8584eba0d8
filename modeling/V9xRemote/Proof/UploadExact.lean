import V9xRemote.Proof.Upload

/-!
# When a completed upload is what was sent

A write that fails half-way moves the file's own position but neither the offset
nor the CRC, so the chunk the client sends again follows what the first try left.
`commit_exact`: a completed upload is the acknowledged chunks exactly when no
failed write left anything.
-/

namespace V9xRemote

open Bytes Trace

variable {K : Type} [DecidableEq K] {port : Port K} {slot : UInt32}

/-- Size, CRC and path of the transaction's OPEN_WRITE. -/
def declared (port : Port K) (log : List Exchange) : Option (UInt32 × UInt32 × Bytes) :=
  (opening log).bind fun e =>
    match e.request with
    | .openWrite payload =>
      (readPath payload 8 port.pathMax).map fun path => (payload.readU32 0, payload.readU32 4, path)
    | _ => none

/-- An open upload, the conversation and the temporary file agree. -/
structure Uploading (port : Port K) (slot : UInt32) (fs : Fs K) (log : List Exchange) (ws : WriteState) :
    Prop where
  temp : fs (port.key ws.tempPath) = some (.file (storedBytes log))
  crc : ws.runningCrc = crc32Update crc32Begin (ackedChunks log).flatten
  received : ws.received.toNat = (ackedChunks log).flatten.length
  fits : ws.received ≤ ws.expectedSize
  opened : declared port log = some (ws.expectedSize, ws.expectedCrc, ws.finalPath)
  named : ∃ requestId, port.partPath ws.finalPath slot requestId = some ws.tempPath

/-- The invariant of a connection. -/
def UploadInv (port : Port K) (slot : UInt32) (s : UploadConn K) : Prop :=
  ∀ ws, s.upload = some ws → Uploading port slot s.fs s.log ws

theorem append_file {fs : Fs K} {k : K} {old : Bytes} (h : fs k = some (.file old)) (bytes : Bytes) :
    fs.append k bytes k = some (.file (old ++ bytes)) := by
  simp [Fs.append, h]

omit [DecidableEq K] in
/-- An error reply other than that of a failed write leaves the transaction's account alone. -/
theorem Uploading.refused {fs : Fs K} {log : List Exchange} {ws : WriteState} {request : UploadRequest}
    {results : UploadResults} {status native : UInt32} {detail : String}
    (h : Uploading port slot fs log ws) (hdetail : detail ≠ "upload write failed") :
    Uploading port slot fs (⟨request, results, .error status native detail⟩ :: log) ws := by
  have hopens : (⟨request, results, .error status native detail⟩ : Exchange).opens = false := rfl
  have hacks : (⟨request, results, .error status native detail⟩ : Exchange).acks = false := rfl
  have hstored : (⟨request, results, .error status native detail⟩ : Exchange).stored = [] := by
    rw [stored_of_not_acks hacks]
    simp [Exchange.left, Exchange.fails, hdetail]
  constructor
  · rw [storedBytes_cons hopens, hstored, List.append_nil]; exact h.temp
  · rw [ackedChunks_other hopens hacks]; exact h.crc
  · rw [ackedChunks_other hopens hacks]; exact h.received
  · exact h.fits
  · rw [declared, opening_cons hopens]; exact h.opened
  · exact h.named

/-- An acknowledged chunk. -/
theorem Uploading.acked {fs : Fs K} {log : List Exchange} {ws : WriteState} {payload : Bytes}
    {results : UploadResults} (h : Uploading port slot fs log ws)
    (hlen : (payload.drop 4).length ≤ fileChunkSize)
    (hfit : UInt32.ofNat (payload.drop 4).length ≤ ws.expectedSize - ws.received) :
    Uploading port slot (fs.append (port.key ws.tempPath) (payload.drop 4))
      (⟨.writeChunk payload, results, .writeAck (ws.received + UInt32.ofNat (payload.drop 4).length)⟩ :: log)
      { ws with
        runningCrc := crc32Update ws.runningCrc (payload.drop 4)
        received := ws.received + UInt32.ofNat (payload.drop 4).length } := by
  set e : Exchange :=
    ⟨.writeChunk payload, results, .writeAck (ws.received + UInt32.ofNat (payload.drop 4).length)⟩ with he
  have hopens : e.opens = false := rfl
  have hacks : e.acks = true := rfl
  have hchunk : e.chunk = payload.drop 4 := rfl
  have hsmall : (UInt32.ofNat (payload.drop 4).length).toNat = (payload.drop 4).length := by
    rw [UInt32.toNat_ofNat', Nat.mod_eq_of_lt]
    have : fileChunkSize < 2 ^ 32 := by decide
    omega
  -- nothing overflows below the declared size
  have hroom : (payload.drop 4).length ≤ ws.expectedSize.toNat - ws.received.toNat := by
    have hle := UInt32.le_iff_toNat_le.1 hfit
    rw [UInt32.toNat_sub_of_le _ _ h.fits, hsmall] at hle
    exact hle
  have hfits := UInt32.le_iff_toNat_le.1 h.fits
  have hsum : (ws.received + UInt32.ofNat (payload.drop 4).length).toNat =
      ws.received.toNat + (payload.drop 4).length := by
    rw [UInt32.toNat_add, hsmall, Nat.mod_eq_of_lt]
    have := ws.expectedSize.toNat_lt
    omega
  constructor
  · rw [storedBytes_cons hopens, (stored_acks hacks).1]
    exact append_file h.temp _
  · show crc32Update ws.runningCrc (payload.drop 4) = _
    rw [ackedChunks_acks hopens hacks, List.flatten_append, h.crc, crc32Update_append, hchunk]
    simp
  · show (ws.received + UInt32.ofNat (payload.drop 4).length).toNat = _
    rw [ackedChunks_acks hopens hacks, List.flatten_append, List.length_append, hsum, h.received, hchunk]
    simp
  · refine UInt32.le_iff_toNat_le.2 ?_
    show (ws.received + UInt32.ofNat (payload.drop 4).length).toNat ≤ ws.expectedSize.toNat
    omega
  · rw [declared, opening_cons hopens]; exact h.opened
  · exact h.named

/-- A failed write. -/
theorem Uploading.broke {fs : Fs K} {log : List Exchange} {ws : WriteState} {payload : Bytes}
    {results : UploadResults} (h : Uploading port slot fs log ws) :
    Uploading port slot (fs.append (port.key ws.tempPath) ((payload.drop 4).take results.wrote))
      (⟨.writeChunk payload, results, .error statusIoFailed results.write.error "upload write failed"⟩ :: log)
      ws := by
  set e : Exchange :=
    ⟨.writeChunk payload, results, .error statusIoFailed results.write.error "upload write failed"⟩ with he
  have hopens : e.opens = false := rfl
  have hacks : e.acks = false := rfl
  have hstored : e.stored = (payload.drop 4).take results.wrote := rfl
  constructor
  · rw [storedBytes_cons hopens, hstored]
    exact append_file h.temp _
  · rw [ackedChunks_other hopens hacks]; exact h.crc
  · rw [ackedChunks_other hopens hacks]; exact h.received
  · exact h.fits
  · rw [declared, opening_cons hopens]; exact h.opened
  · exact h.named

/-- A new transaction. -/
theorem Uploading.start {fs : Fs K} {log : List Exchange} {payload finalPath tempPath : Bytes}
    {results : UploadResults} {requestId : UInt32}
    (hpath : readPath payload 8 port.pathMax = some finalPath)
    (htemp : port.partPath finalPath slot requestId = some tempPath) :
    Uploading port slot (fs.put (port.key tempPath) (.file []))
      (⟨.openWrite payload, results, .writeReady (payload.readU32 0) (payload.readU32 4)⟩ :: log)
      ⟨payload.readU32 0, payload.readU32 4, 0, crc32Begin, finalPath, tempPath⟩ where
  temp := FileStore.put_same _ _ _
  crc := rfl
  received := rfl
  fits := UInt32.zero_le
  opened := by
    show (readPath payload 8 port.pathMax).map _ = _
    rw [hpath]; rfl
  named := ⟨requestId, htemp⟩

variable {s s' : UploadConn K} {as : List UploadAct}

/-- **One step keeps the invariant.** -/
theorem upload_step {a : UploadAct} (hs : UploadInv port slot s) (h : uploadStep port slot s a = some s') :
    UploadInv port slot s' := by
  cases a with
  | disconnect result =>
    simp only [uploadStep] at h
    split at h
    · exact absurd h (by simp)
    · obtain rfl := Option.some.inj h
      intro ws hws
      exact absurd hws (by simp)
  | request requestId request results sent =>
    simp only [uploadStep] at h
    split at h
    · generalize hres : handleUpload port slot s.fs s.upload requestId results request = res at h
      obtain ⟨fs', upload', reply⟩ := res
      obtain rfl := Option.some.inj h
      intro ws hws
      cases upload_effect hres with
      | refused _ _ _ _ hdetail => exact (hs ws hws).refused hdetail
      | opened payload finalPath tempPath hup hpath htemp =>
        obtain rfl := Option.some.inj hws
        exact Uploading.start hpath htemp
      | acked payload ws₀ hup hlen hfit =>
        obtain rfl := Option.some.inj hws
        exact (hs ws₀ hup).acked hlen hfit
      | broke payload ws₀ hup =>
        obtain rfl : ws₀ = ws := Option.some.inj (hup.symm.trans hws)
        exact (hs ws₀ hup).broke
      | dropped => exact absurd hws (by simp)
      | unpromoted => exact absurd hws (by simp)
      | completed => exact absurd hws (by simp)
    · exact absurd h (by simp)

/-- The invariant holds after every run. -/
theorem upload_run {fs₀ : Fs K} (h : exec (uploadStep port slot) (.start fs₀) as = some s) :
    UploadInv port slot s :=
  exec_inv (fun _ _ _ hs hstep => upload_step hs hstep) (by simp [UploadInv, UploadConn.start]) h

/-- What the claim of a completed upload is: the final path holds the acknowledged
chunks, with the declared size and CRC. -/
def ExactlyUploaded (port : Port K) (fs : Fs K) (log : List Exchange) : Prop :=
  ∃ size crc path bytes, declared port log = some (size, crc, path) ∧
    fs (port.key path) = some (.file bytes) ∧ bytes = (ackedChunks log).flatten ∧
    bytes.length = size.toNat ∧ crc32 bytes = crc

/-- What stands under the final path after a completed upload is what was stored. -/
theorem completed_stored {requestId : UInt32} {request : UploadRequest} {results : UploadResults}
    {sent : Bool} (hs : UploadInv port slot s)
    (h : uploadStep port slot s (.request requestId request results sent) = some s')
    (hc : s'.log.head?.any Exchange.completes = true) :
    ∃ size crc path, declared port s'.log = some (size, crc, path) ∧
      s'.fs (port.key path) = some (.file (storedBytes s'.log)) ∧
      (ackedChunks s'.log).flatten.length = size.toNat ∧ crc32 (ackedChunks s'.log).flatten = crc := by
  simp only [uploadStep] at h
  split at h
  · generalize hres : handleUpload port slot s.fs s.upload requestId results request = res at h
    obtain ⟨fs', upload', reply⟩ := res
    obtain rfl := Option.some.inj h
    simp only [List.head?_cons, Option.any_some, Exchange.completes] at hc
    cases upload_effect hres with
    | completed payload ws hup hsize hcrc hstatus =>
      have hu := hs ws hup
      obtain ⟨rid, hpart⟩ := hu.named
      obtain ⟨c, hc, hfinal⟩ := promoteTemp_ok
        (fun b hb => port.part_ne_backup _ _ _ _ _ hpart hb) hstatus
      obtain rfl := Option.some.inj (hu.temp.symm.trans hc)
      have hopens : (⟨.commit payload, results, .writeComplete ws.received (crc32End ws.runningCrc)⟩ :
        Exchange).opens = false := rfl
      have hacks : (⟨.commit payload, results, .writeComplete ws.received (crc32End ws.runningCrc)⟩ :
        Exchange).acks = false := rfl
      refine ⟨ws.expectedSize, ws.expectedCrc, ws.finalPath, ?_, ?_, ?_, ?_⟩
      · rw [declared, opening_cons hopens]; exact hu.opened
      · refine hfinal.trans (congrArg (fun bytes => some (Node.file bytes)) ?_)
        exact ((storedBytes_cons hopens s.log).trans (List.append_nil _)).symm
      · rw [ackedChunks_other hopens hacks, ← hu.received, hsize]
      · rw [ackedChunks_other hopens hacks, crc32, ← hu.crc, hcrc]
    | refused => exact absurd hc (by simp)
    | opened => exact absurd hc (by simp)
    | acked => exact absurd hc (by simp)
    | broke => exact absurd hc (by simp)
    | dropped => exact absurd hc (by simp)
    | unpromoted => exact absurd hc (by simp)
  · exact absurd h (by simp)

/-- **A completed upload is exactly the acknowledged chunks when, and only when, no
failed write of the transaction left bytes in the file.** -/
theorem commit_exact {fs₀ : Fs K} {requestId : UInt32} {request : UploadRequest} {results : UploadResults}
    {sent : Bool} (h : exec (uploadStep port slot) (.start fs₀) as = some s)
    (hstep : uploadStep port slot s (.request requestId request results sent) = some s')
    (hc : s'.log.head?.any Exchange.completes = true) :
    ExactlyUploaded port s'.fs s'.log ↔ CleanWrites s'.log := by
  obtain ⟨size, crc, path, hdecl, hfile, hsize, hcrc⟩ := completed_stored (upload_run h) hstep hc
  rw [← storedBytes_eq_iff]
  constructor
  · rintro ⟨size', crc', path', bytes, hdecl', hfile', hbytes, -, -⟩
    obtain ⟨-, -, rfl⟩ : size = size' ∧ crc = crc' ∧ path = path' := by
      simpa using hdecl.symm.trans hdecl'
    have : storedBytes s'.log = bytes := by simpa using hfile.symm.trans hfile'
    rw [this, hbytes]
  · intro heq
    exact ⟨size, crc, path, storedBytes s'.log, hdecl, hfile, heq, by rw [heq, hsize], by rw [heq, hcrc]⟩

/-- `commit_exact` of one agent. -/
def CommitExact (port : Port K) (slot : UInt32) : Prop :=
  ∀ fs₀ as s requestId request results sent s', exec (uploadStep port slot) (.start fs₀) as = some s →
    uploadStep port slot s (.request requestId request results sent) = some s' →
    s'.log.head?.any Exchange.completes = true →
    (ExactlyUploaded port s'.fs s'.log ↔ CleanWrites s'.log)

/-- **The upload transaction of both agents.** -/
theorem upload_transaction (slot : UInt32) (current : UInt8) :
    CommitExact winPort slot ∧ CommitExact (dosPort current) 0 :=
  ⟨fun _ _ _ _ _ _ _ _ => commit_exact, fun _ _ _ _ _ _ _ _ => commit_exact⟩

/-! ## A retried chunk -/

/-- Every call works, but a write puts only `wrote` bytes into the file. -/
def demoResults (wrote : ℕ) : UploadResults where
  create := callOk
  write := callOk
  wrote := wrote
  flush := callOk
  dropTemp := callOk
  promote := allOk

/-- OPEN_WRITE of four bytes to `C:\A`. -/
def demoOpen : Bytes :=
  writeU32 4 ++ writeU32 (crc32 (ascii "PING")) ++ [4, 0] ++ ascii "C:\\A"

def demoChunk : UploadRequest := .writeChunk (writeU32 0 ++ ascii "PING")

/-- The first try of the chunk writes two of its four bytes, the second all of them. -/
def retriedUpload : List UploadAct :=
  [.request 1 (.openWrite demoOpen) (demoResults 0) true, .request 2 demoChunk (demoResults 2) true,
    .request 3 demoChunk (demoResults 4) true]

/-- A completed run with a failed write that left bytes refutes the claim. -/
theorem not_exact_of_run (as : List UploadAct) (requestId : UInt32) (request : UploadRequest)
    (results : UploadResults) (sent : Bool)
    (hrun : ((exec (uploadStep port slot) (.start fun _ => none) as).bind fun s =>
      (uploadStep port slot s (.request requestId request results sent)).map fun s' =>
        (s'.log.head?.any Exchange.completes, decide (CleanWrites s'.log))) = some (true, false)) :
    ¬∀ as s requestId request results sent s',
      exec (uploadStep port slot) (.start fun _ => none) as = some s →
      uploadStep port slot s (.request requestId request results sent) = some s' →
      s'.log.head?.any Exchange.completes = true → ExactlyUploaded port s'.fs s'.log := by
  intro h
  obtain ⟨s, hs, hrest⟩ := Option.bind_eq_some_iff.1 hrun
  obtain ⟨s', hs', heq⟩ := Option.map_eq_some_iff.1 hrest
  obtain ⟨hc, hclean⟩ := Prod.mk.inj heq
  exact of_decide_eq_false hclean ((commit_exact hs hs' hc).1 (h _ s _ _ _ _ s' hs hs' hc))

/-- Both agents answer a retried chunk's upload as complete and leave six bytes. -/
theorem retried_upload_not_exact :
    (¬∀ as s requestId request results sent s',
      exec (uploadStep winPort 0) (.start fun _ => none) as = some s →
      uploadStep winPort 0 s (.request requestId request results sent) = some s' →
      s'.log.head?.any Exchange.completes = true → ExactlyUploaded winPort s'.fs s'.log) ∧
    ¬∀ as s requestId request results sent s',
      exec (uploadStep (dosPort 67) 0) (.start fun _ => none) as = some s →
      uploadStep (dosPort 67) 0 s (.request requestId request results sent) = some s' →
      s'.log.head?.any Exchange.completes = true → ExactlyUploaded (dosPort 67) s'.fs s'.log :=
  ⟨not_exact_of_run retriedUpload 4 (.commit []) (demoResults 0) true (by decide),
    not_exact_of_run retriedUpload 4 (.commit []) (demoResults 0) true (by decide)⟩

end V9xRemote
