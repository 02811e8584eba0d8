import V9xRemote.Proof.Exec
import V9xRemote.Spec.DosExec

/-!
# Executions of the DOS agent: their output, and the place they leave

The loop over the capture file sends and counts what the Windows agent would of the same reads
(`exec_output`). Behind an execution the current drive and its directory are as before where a
directory was entered, and where nothing was run; where none was named the command decides
(`dosExecute_place`).
-/

namespace V9xRemote

open Bytes

variable {F : Type} {dos : DosSystem F} {calls : DosExecCalls} {job : DosJob} {m : DosMachine F} {payload : Bytes}

/-! ## The capture file -/

/-- The stream behind one read that is sent. -/
def DosStream.next (limit : UInt32) (s : DosStream) (read : Bytes) : DosStream :=
  let readCount := UInt32.ofNat read.length
  let sendCount := ExecStream.sendCount ⟨s.total, s.sent, false⟩ limit readCount
  { s with
    total := s.total + readCount
    sent := s.sent + sendCount
    frames := s.frames ++ if sendCount = 0 then [] else [(ExecPipe.stdout.message, read.take sendCount.toNat)] }

theorem dosStreamReads_cons {limit : UInt32} {chunkSent : ℕ → Bool} (hsent : ∀ n, chunkSent n = true) (s : DosStream)
    (read : Bytes) (reads : List Bytes) :
    dosStreamReads limit chunkSent s (read :: reads) = dosStreamReads limit chunkSent (s.next limit read) reads := by
  rw [dosStreamReads]
  unfold DosStream.next
  dsimp only
  -- the source asks for room first, and counts what it sends only then
  by_cases hroom : s.sent < limit
  · have hcount : ExecStream.sendCount ⟨s.total, s.sent, false⟩ limit (UInt32.ofNat read.length) =
        if UInt32.ofNat read.length > limit - s.sent then limit - s.sent else UInt32.ofNat read.length :=
      if_neg (UInt32.not_le.2 hroom)
    rw [if_pos hroom, ← hcount, hsent, Bool.not_true, if_neg Bool.false_ne_true]
    by_cases hsend : ExecStream.sendCount ⟨s.total, s.sent, false⟩ limit (UInt32.ofNat read.length) = 0
    · rw [if_neg (not_not.2 hsend), if_pos hsend, List.append_nil, hsend, UInt32.add_zero]
    · rw [if_pos hsend, if_neg hsend]
  · have hcount : ExecStream.sendCount ⟨s.total, s.sent, false⟩ limit (UInt32.ofNat read.length) = 0 :=
      if_pos (UInt32.not_lt.1 hroom)
    rw [if_neg hroom, hcount, if_pos rfl, List.append_nil, UInt32.add_zero]

/-- The stream behind some reads. -/
structure DosStreamed (limit : UInt32) (reads : List Bytes) (s : DosStream) : Prop where
  total : s.total.toNat = reads.flatten.length
  sent : s.sent.toNat = min reads.flatten.length limit.toNat
  frames : s.frames = (Budget.cut limit.toNat reads).map fun piece => (ExecPipe.stdout.message, piece)
  flags : s.flags = execFlagPipeCapture

theorem DosStreamed.next {limit : UInt32} {reads : List Bytes} {read : Bytes} {s : DosStream} (h : DosStreamed limit reads s)
    (hsize : reads.flatten.length + read.length < 2 ^ 32) : DosStreamed limit (reads ++ [read]) (s.next limit read) := by
  have hread : (UInt32.ofNat read.length).toNat = read.length := by
    rw [UInt32.toNat_ofNat']
    omega
  have hlength : (reads ++ [read]).flatten.length = reads.flatten.length + read.length := by
    rw [List.flatten_append, List.length_append]
    simp
  have hcount := @toNat_sendCount ⟨s.total, s.sent, false⟩ limit (UInt32.ofNat read.length) _ h.sent
  have hlimit := limit.toNat_lt
  have hsum := h.sent
  have htotal := h.total
  rw [hread] at hcount
  unfold DosStream.next
  dsimp only
  set sendCount := ExecStream.sendCount ⟨s.total, s.sent, false⟩ limit (UInt32.ofNat read.length)
  constructor
  · show (s.total + UInt32.ofNat read.length).toNat = _
    rw [UInt32.toNat_add, hread, hlength]
    omega
  · show (s.sent + sendCount).toNat = _
    rw [UInt32.toNat_add, hcount, hlength]
    omega
  · rw [Budget.cut_snoc hcount, List.map_append, ← h.frames]
    by_cases hsend : sendCount = 0
    · have hnone : sendCount.toNat = 0 := congrArg UInt32.toNat hsend
      rw [if_pos hsend, if_pos hnone]
      rfl
    · have hsome : sendCount.toNat ≠ 0 := fun hzero => hsend (UInt32.toNat_inj.1 hzero)
      rw [if_neg hsend, if_neg hsome]
      rfl
  · exact h.flags

/-- **The loop over the capture file**, where every send succeeds. -/
theorem dosStreamReads_streamed {limit : UInt32} {chunkSent : ℕ → Bool} (hsent : ∀ n, chunkSent n = true) {s : DosStream}
    {before reads : List Bytes} (h : DosStreamed limit before s) (hsize : (before ++ reads).flatten.length < 2 ^ 32) :
    (dosStreamReads limit chunkSent s reads).2 = true ∧
      DosStreamed limit (before ++ reads) (dosStreamReads limit chunkSent s reads).1 := by
  induction reads generalizing s before with
  | nil =>
    rw [List.append_nil]
    exact ⟨rfl, h⟩
  | cons read reads ih =>
    have hsplit : before ++ read :: reads = (before ++ [read]) ++ reads := by simp
    rw [hsplit] at hsize ⊢
    rw [dosStreamReads_cons hsent]
    have hnext : before.flatten.length + read.length < 2 ^ 32 := by
      simp only [List.flatten_append, List.length_append, List.flatten_cons, List.flatten_nil, List.append_nil] at hsize
      omega
    exact ih (h.next hnext) hsize

/-- What the agent reads of a capture file, where it is there. -/
def captureReads : Option DosCapture → List Bytes
  | none => []
  | some file => file.reads

/-- `v9x_stream_output`: the frames, the total and the flag. -/
theorem dosStreamOutput_spec (limit : UInt32) {chunkSent : ℕ → Bool} (hsent : ∀ n, chunkSent n = true)
    (file : Option DosCapture) :
    (dosStreamOutput limit chunkSent execFlagPipeCapture file).2 = true ∧
      (dosStreamOutput limit chunkSent execFlagPipeCapture file).1.total.toNat = (captureReads file).flatten.length ∧
      (dosStreamOutput limit chunkSent execFlagPipeCapture file).1.frames =
        (Budget.cut limit.toNat (captureReads file)).map (fun piece => (ExecPipe.stdout.message, piece)) ∧
      (dosStreamOutput limit chunkSent execFlagPipeCapture file).1.flags =
        if limit.toNat < (captureReads file).flatten.length then execFlagPipeCapture ||| execFlagStdoutTruncated
        else execFlagPipeCapture := by
  cases file with
  | none => exact ⟨rfl, rfl, rfl, (if_neg (Nat.not_lt_zero _)).symm⟩
  | some file =>
    have hstart : DosStreamed limit [] ⟨0, 0, execFlagPipeCapture, []⟩ := ⟨rfl, (Nat.zero_min _).symm, rfl, rfl⟩
    obtain ⟨hall, hstream⟩ := dosStreamReads_streamed hsent hstart file.size
    rw [List.nil_append] at hstream
    unfold dosStreamOutput
    dsimp only
    split
    · rename_i hfail
      rw [hfail] at hall
      cases hall
    · rename_i s hs
      rw [hs] at hstream
      have hover : s.total > limit ↔ limit.toNat < (captureReads (some file)).flatten.length := by
        rw [gt_iff_lt, UInt32.lt_iff_toNat_lt, hstream.total]
        rfl
      refine ⟨rfl, ?_, ?_, ?_⟩
      · dsimp only
        split
        · exact hstream.total
        · exact hstream.total
      · dsimp only
        split
        · exact hstream.frames
        · exact hstream.frames
      · dsimp only
        by_cases h : s.total > limit
        · rw [if_pos h, if_pos (hover.1 h), ← hstream.flags]
        · rw [if_neg h, if_neg (mt hover.2 h), hstream.flags]

/-! ## What is sent and reported -/

/-- What a run of a job comes to. -/
theorem dosRunJob_cases (dos : DosSystem F) (calls : DosExecCalls) (job : DosJob) (m : DosMachine F) :
    (∃ native m', dosRunJob dos calls job m = dosCreateFailed native m') ∨
      ∃ m' exitCode, dosRunJob dos calls job m =
        ⟨m', execResultOk, exitCode, 0,
          (dosStreamOutput job.stdoutLimit calls.chunkSent execFlagPipeCapture (dos.capture m'.disk)).1,
          (dosStreamOutput job.stdoutLimit calls.chunkSent execFlagPipeCapture (dos.capture m'.disk)).2⟩ := by
  unfold dosRunJob
  split
  · exact Or.inl ⟨_, _, rfl⟩
  · split
    · exact Or.inl ⟨_, _, rfl⟩
    · dsimp only
      split
      · exact Or.inl ⟨_, _, rfl⟩
      · exact Or.inr ⟨_, _, rfl⟩

/-- What the agent reads of a job's output: nothing where it did not run. -/
def dosOutput (dos : DosSystem F) (calls : DosExecCalls) (job : DosJob) (m : DosMachine F) : List Bytes :=
  let outcome := dosRunJob dos calls job { m with disk := dos.removeOut m.disk }
  if outcome.result = execResultOk then captureReads (dos.capture outcome.machine.disk) else []

/-- Every frame of the execution is sent. -/
structure DosExecCalls.Sent (calls : DosExecCalls) : Prop where
  first : calls.firstSent = true
  chunk : ∀ n, calls.chunkSent n = true
  complete : calls.completeSent = true

theorem framesOf_map (message other : UInt16) (pieces : List Bytes) :
    framesOf message (pieces.map fun piece => (other, piece)) = if other = message then pieces else [] := by
  unfold framesOf
  rw [List.filterMap_map]
  split
  · rename_i hsame
    simp [hsame]
  · rename_i hother
    simp [hother]

theorem captureReads_chunks (file : Option DosCapture) {piece : Bytes} (h : piece ∈ captureReads file) :
    piece.length ≤ execChunk := by
  cases file with
  | none => cases h
  | some file => exact (file.chunks piece h).2

theorem captureReads_size (file : Option DosCapture) : (captureReads file).flatten.length < 2 ^ 32 := by
  cases file with
  | none => exact Nat.two_pow_pos 32
  | some file => exact file.size

/-- The stream of a job behind its run, and whether all of it was sent. -/
theorem dosRunJob_stream (hsent : calls.Sent) (m : DosMachine F) :
    (dosRunJob dos calls job { m with disk := dos.removeOut m.disk }).sent = true ∧
      (dosRunJob dos calls job { m with disk := dos.removeOut m.disk }).stream.total.toNat =
        (dosOutput dos calls job m).flatten.length ∧
      (dosRunJob dos calls job { m with disk := dos.removeOut m.disk }).stream.frames =
        (Budget.cut job.stdoutLimit.toNat (dosOutput dos calls job m)).map (fun piece => (ExecPipe.stdout.message, piece)) ∧
      (dosRunJob dos calls job { m with disk := dos.removeOut m.disk }).stream.flags =
        if job.stdoutLimit.toNat < (dosOutput dos calls job m).flatten.length then
          execFlagPipeCapture ||| execFlagStdoutTruncated
        else execFlagPipeCapture := by
  unfold dosOutput
  dsimp only
  obtain ⟨native, m', hrun⟩ | ⟨m', exitCode, hrun⟩ := dosRunJob_cases dos calls job { m with disk := dos.removeOut m.disk }
  · -- not run: nothing is read of a capture file, whether one is there or not
    rw [hrun]
    have hfailed : (dosCreateFailed native m').result ≠ execResultOk := by
      show execResultCreateFailed ≠ execResultOk
      decide
    rw [if_neg hfailed]
    exact ⟨rfl, rfl, rfl, (if_neg (Nat.not_lt_zero _)).symm⟩
  · rw [hrun, if_pos rfl]
    exact dosStreamOutput_spec job.stdoutLimit hsent.chunk (dos.capture m'.disk)

theorem dosOutput_capture (dos : DosSystem F) (calls : DosExecCalls) (job : DosJob) (m : DosMachine F) :
    ∃ file, dosOutput dos calls job m = captureReads file := by
  unfold dosOutput
  dsimp only
  split
  · exact ⟨_, rfl⟩
  · exact ⟨none, rfl⟩

/-- **The DOS agent's output**: what was read of the capture file is sent and reported as
standard output, and nothing as standard error. -/
theorem dosExecute_reports (hjob : dosReadJob payload = some job) (hsent : calls.Sent) (m : DosMachine F) :
    Reports (dosExecute dos calls payload m).frames .stdout job.stdoutLimit (dosOutput dos calls job m) ∧
      Reports (dosExecute dos calls payload m).frames .stderr job.stderrLimit [] := by
  obtain ⟨hall, htotal, hframes, hflags⟩ := @dosRunJob_stream _ dos calls job hsent m
  obtain ⟨file, hfile⟩ := dosOutput_capture dos calls job m
  have hsize := captureReads_size file
  unfold dosExecute
  rw [hjob]
  dsimp only
  rw [hsent.first, Bool.not_true, if_neg Bool.false_ne_true, hall, Bool.not_true, if_neg Bool.false_ne_true, hsent.complete,
    if_pos rfl]
  dsimp only
  have hpieces : ∀ message : UInt16, msgExecAcceptedType ≠ message →
      framesOf message ((msgExecAcceptedType, writeU32 calls.started) ::
        (dosRunJob dos calls job { m with disk := dos.removeOut m.disk }).stream.frames) =
      if ExecPipe.stdout.message = message then Budget.cut job.stdoutLimit.toNat (dosOutput dos calls job m) else [] := by
    intro message hne
    rw [hframes, ← framesOf_map message]
    simp [framesOf, hne]
  constructor
  · refine reports_of_complete rfl ?_ ?_ ?_ (hpieces _ (by decide)) (hpieces _ (by decide))
    · rw [htotal, hfile]
      omega
    · rw [hflags]
      split
      · rename_i hover
        exact iff_of_true (by decide) hover
      · rename_i hover
        exact iff_of_false (by decide) hover
    · intro piece hmem
      rw [hfile] at hmem
      exact captureReads_chunks file hmem
  · refine reports_of_complete rfl rfl ?_ (fun piece hmem => absurd hmem List.not_mem_nil) (hpieces _ (by decide))
      (hpieces _ (by decide))
    rw [hflags]
    split
    · exact iff_of_false (by decide) (Nat.not_lt_zero _)
    · exact iff_of_false (by decide) (Nat.not_lt_zero _)

/-- **Output of an execution**, on Windows and on DOS. -/
theorem exec_output :
    (∀ (job : ExecSlot) (calls : ExecutionCalls) (frames : List (UInt16 × Bytes)), calls.Sent →
      executionWorker job calls = some frames →
        ∀ pipe, Reports frames pipe (job.limit pipe) (pipeReads (pipeCalls calls pipe))) ∧
      ∀ (F : Type) (dos : DosSystem F) (calls : DosExecCalls) (payload : Bytes) (job : DosJob) (m : DosMachine F),
        calls.Sent → dosReadJob payload = some job →
          Reports (dosExecute dos calls payload m).frames .stdout job.stdoutLimit (dosOutput dos calls job m) ∧
            Reports (dosExecute dos calls payload m).frames .stderr job.stderrLimit [] := by
  constructor
  · intro job calls frames hsent hrun
    exact executionWorker_reports hsent hrun
  · intro F dos calls payload job m hsent hjob
    exact dosExecute_reports hjob hsent m

/-- A machine with the drives A:, C: and D:, each with its root alone; its commands write two
bytes, and do else what `place` says. -/
def dosRoots (place : DosMachine Bool → DosMachine Bool) : DosSystem Bool where
  hasDrive _ drive := drive.val ∈ [0, 2, 3]
  hasDir _ drive path := drive.val ∈ [0, 2, 3] ∧ path = []
  findDir _ name :=
    ((List.finRange 26).find? fun drive => drive.val ∈ [0, 2, 3] ∧ dosFullPath drive [] = name).map fun drive => (drive, [])
  findDir_full := by
    intro _ drive path h
    obtain ⟨hdrive, rfl⟩ := of_decide_eq_true h
    revert drive
    decide
  removeOut _ := false
  capture written := if written then some ⟨[[104, 105]], by decide, by decide⟩ else none
  system _ m := ({ place m with disk := true }, 0)

/-- An EXEC_REQUEST for a shell command, with room for one byte of output. -/
def dosRequest (command directory : Bytes) : Bytes :=
  [execModeShell, 0] ++ writeU16 0 ++ writeU32 0 ++ writeU32 1 ++ writeU32 1 ++ writeU16 0 ++
    writeU16 (UInt16.ofNat command.length) ++ command ++ writeU16 (UInt16.ofNat directory.length) ++ directory

/-- All frames are sent, and the current directory can be read. -/
def dosCallsSent : DosExecCalls := ⟨true, fun _ => true, true, true, 0, 0, 0⟩

/-- Three bytes are read, and the process ends. -/
def threeBytes : ExecutionCalls where
  started := 0
  gui := false
  launch := .created
  turns := [⟨.data ⟨[1, 2, 3], by decide⟩ true, .empty, false, 0, 0, .signaled⟩]
  rounds := [(.empty, .empty)]
  exitCode := .inl 0
  finished := 0

theorem exec_output_ran :
    (∃ frames, executionWorker ⟨false, false, 0, fun _ => 2⟩ threeBytes = some frames ∧
        Reports frames .stdout 2 [[1, 2, 3]]) ∧
      ∃ job, dosReadJob (dosRequest (ascii "VER") []) = some job ∧
        Reports (dosExecute (dosRoots id) dosCallsSent (dosRequest (ascii "VER") []) ⟨2, fun _ => [], false⟩).frames .stdout 1
          [[104, 105]] := by
  constructor
  · refine ⟨_, rfl, ?_⟩
    refine exec_output.1 ⟨false, false, 0, fun _ => 2⟩ threeBytes _ ⟨?_, ?_⟩ rfl .stdout
    · simp [threeBytes, ExecTurn.Sent, PipeCall.Sent]
    · simp [threeBytes, PipeCall.Sent]
  · refine ⟨_, rfl, ?_⟩
    exact (exec_output.2 Bool (dosRoots id) dosCallsSent (dosRequest (ascii "VER") []) _ ⟨2, fun _ => [], false⟩
      ⟨rfl, fun _ => rfl, rfl⟩ rfl).1

/-! ## The place -/

/-- The current drive is as before, and so is its current directory. -/
structure SamePlace (m m' : DosMachine F) : Prop where
  drive : m'.drive = m.drive
  cwd : m'.cwd m.drive = m.cwd m.drive

/-- A directory is named on another drive, which is there. -/
def NamesOtherDrive (dos : DosSystem F) (m : DosMachine F) (dir : Bytes) : Prop :=
  dir.at' 1 = 58 ∧ ∃ drive : Fin 26, UInt8.ofNat (65 + drive.val) = upper (dir.at' 0) ∧ dos.hasDrive m.disk drive = true ∧
    drive ≠ m.drive

theorem dosDriveNumber_index (letter : UInt8) : (dosDriveNumber letter - 1).toUInt8 = upper letter - 65 := by
  unfold dosDriveNumber
  rw [UInt32.add_sub_cancel]
  apply UInt8.toNat_inj.1
  have hletter := (upper letter).toNat_lt
  have hoffset : (65 : UInt32).toNat = 65 := rfl
  have hoffset8 : (65 : UInt8).toNat = 65 := rfl
  rw [UInt32.toNat_toUInt8, UInt32.toNat_sub, UInt8.toNat_toUInt32, UInt8.toNat_sub, hoffset, hoffset8]
  omega

theorem setDrive_cwd (number : UInt32) : (dos.setDrive number m).cwd = m.cwd := by
  unfold DosSystem.setDrive
  dsimp only
  split
  · split
    · rfl
    · rfl
  · rfl

theorem dosLetter_index (drive : Fin 26) : (upper (UInt8.ofNat (65 + drive.val)) - 65).toNat = drive.val := by
  revert drive
  decide

theorem dosLetter_ne_zero (drive : Fin 26) : UInt8.ofNat (65 + drive.val) ≠ 0 := by
  revert drive
  decide

/-- A drive that is there becomes the current one. -/
theorem setDrive_letter {drive : Fin 26} (h : dos.hasDrive m.disk drive = true) :
    dos.setDrive (dosDriveNumber (UInt8.ofNat (65 + drive.val))) m = { m with drive } := by
  have hindex : (dosDriveNumber (UInt8.ofNat (65 + drive.val)) - 1).toUInt8.toNat = drive.val := by
    rw [dosDriveNumber_index, dosLetter_index]
  unfold DosSystem.setDrive
  dsimp only
  have hlt := drive.isLt
  have hsame : (⟨(dosDriveNumber (UInt8.ofNat (65 + drive.val)) - 1).toUInt8.toNat, by omega⟩ : Fin 26) = drive :=
    Fin.ext hindex
  rw [dif_pos (by omega), hsame, if_pos h]

/-- The current drive stays, or the drive that is named becomes it. -/
theorem setDrive_drive (letter : UInt8) : (dos.setDrive (dosDriveNumber letter) m).drive = m.drive ∨
    ∃ drive : Fin 26, UInt8.ofNat (65 + drive.val) = upper letter ∧ dos.hasDrive m.disk drive = true ∧
      (dos.setDrive (dosDriveNumber letter) m).drive = drive := by
  unfold DosSystem.setDrive
  dsimp only
  split
  · rename_i hlt
    split
    · rename_i hthere
      refine Or.inr ⟨_, ?_, hthere, rfl⟩
      dsimp only
      rw [dosDriveNumber_index]
      apply UInt8.toNat_inj.1
      have hletter := (upper letter).toNat_lt
      have hoffset : (65 : UInt8).toNat = 65 := rfl
      rw [UInt8.toNat_ofNat', UInt8.toNat_sub, hoffset]
      omega
    · exact Or.inl rfl
  · exact Or.inl rfl

theorem dosGetcwd_some {readable : Bool} {saved : Bytes} (h : dosGetcwd readable m = some saved) :
    saved = dosFullPath m.drive (m.cwd m.drive) := by
  unfold dosGetcwd at h
  dsimp only at h
  split at h
  · exact (Option.some.inj h).symm
  · cases h

theorem chdir_failed {dir : Bytes} (h : (dos.chdir dir m).2 = false) : (dos.chdir dir m).1 = m := by
  unfold DosSystem.chdir at h ⊢
  split
  · rename_i hfind
    rw [hfind] at h
    cases h
  · rfl

/-- A directory that is not entered: the drive may have changed, to the one it names. -/
theorem dosPushd_missing {readable : Bool} {dir saved : Bytes} {m' : DosMachine F}
    (h : dosPushd dos readable dir m = (m', saved, false)) (hother : ¬ NamesOtherDrive dos m dir) : SamePlace m m' := by
  unfold dosPushd at h
  split at h
  · cases congrArg (fun r => r.2.2) h
  · split at h
    · obtain rfl : m = m' := congrArg Prod.fst h
      exact ⟨rfl, rfl⟩
    · dsimp only at h
      have hentered : (dos.chdir dir (if dir.at' 1 = 58 then dos.setDrive (dosDriveNumber (dir.at' 0)) m else m)).2 = false :=
        congrArg (fun r => r.2.2) h
      obtain rfl : _ = m' := congrArg Prod.fst h
      rw [chdir_failed hentered]
      split
      · rename_i hcolon
        rcases @setDrive_drive F dos m (dir.at' 0) with hdrive | ⟨drive, hletter, hthere, hdrive⟩
        · exact ⟨hdrive, congrFun (setDrive_cwd _) _⟩
        · -- the drive that it names is the current one
          have hsame : drive = m.drive := by
            by_contra hne
            exact hother ⟨hcolon, drive, hletter, hthere, hne⟩
          exact ⟨hdrive.trans hsame, congrFun (setDrive_cwd _) _⟩
      · exact ⟨rfl, rfl⟩

/-- A directory that is entered: the place is saved. -/
theorem dosPushd_entered {readable : Bool} {dir saved : Bytes} {m' : DosMachine F} (hdir : dir.at' 0 ≠ 0)
    (h : dosPushd dos readable dir m = (m', saved, true)) : saved = dosFullPath m.drive (m.cwd m.drive) := by
  unfold dosPushd at h
  rw [if_neg hdir] at h
  split at h
  · cases congrArg (fun r => r.2.2) h
  · rename_i path hpath
    obtain rfl : path = saved := congrArg (fun r => r.2.1) h
    exact dosGetcwd_some hpath

theorem dosPushd_unreadable {readable : Bool} {dir : Bytes} (hdir : dir.at' 0 ≠ 0) (h : dosGetcwd readable m = none) :
    dosPushd dos readable dir m = (m, [], false) := by
  unfold dosPushd
  rw [if_neg hdir, h]

/-- **The place is what was saved**, where its drive and directory are there. -/
theorem dosPopd_full {drive : Fin 26} {path : Bytes} (hdrive : dos.hasDrive m.disk drive = true)
    (hpath : dos.hasDir m.disk drive path = true) :
    (dosPopd dos (dosFullPath drive path) m).drive = drive ∧ (dosPopd dos (dosFullPath drive path) m).cwd drive = path := by
  have hletter : (dosFullPath drive path).at' 0 ≠ 0 := dosLetter_ne_zero drive
  have hcolon : (dosFullPath drive path).at' 1 = 58 := rfl
  have hdir := dos.findDir_full { m with drive } drive path hpath
  unfold dosPopd
  dsimp only
  rw [if_neg hletter, if_pos hcolon]
  have hset : dos.setDrive (dosDriveNumber ((dosFullPath drive path).at' 0)) m = { m with drive } := setDrive_letter hdrive
  rw [hset]
  unfold DosSystem.chdir
  rw [hdir]
  exact ⟨rfl, Function.update_self _ _ _⟩

/-! ## The request and its place -/

theorem execReadString_text {offset maximum next : ℕ} {text : Bytes}
    (h : execReadString payload offset maximum = some (text, next)) : 0 ∉ text := by
  unfold execReadString at h
  split at h
  · cases h
  · dsimp only at h
    split at h
    · cases h
    · split at h
      · cases h
      · rename_i hplain
        obtain ⟨rfl, -⟩ := Prod.mk.inj (Option.some.inj h)
        intro hzero
        exact hplain (List.any_eq_true.2 ⟨0, hzero, rfl⟩)

theorem dosReadJob_directory (h : dosReadJob payload = some job) (hdir : job.directory ≠ []) : job.directory.at' 0 ≠ 0 := by
  have hplain : 0 ∉ job.directory := by
    unfold dosReadJob at h
    split at h
    · cases h
    · dsimp only at h
      split at h
      · cases h
      · rw [Option.bind_eq_bind, Option.bind_eq_some_iff] at h
        obtain ⟨⟨application, next⟩, -, h⟩ := h
        rw [Option.bind_eq_some_iff] at h
        obtain ⟨⟨command, behind⟩, -, h⟩ := h
        rw [Option.bind_eq_some_iff] at h
        obtain ⟨⟨directory, offset⟩, hdirectory, h⟩ := h
        dsimp only at h
        split at h
        · cases h
        · rw [← Option.some.inj h]
          exact execReadString_text hdirectory
  intro hzero
  cases hjob : job.directory with
  | nil => exact hdir hjob
  | cons c rest =>
    rw [hjob] at hzero hplain
    exact hplain (List.mem_cons.2 (Or.inl hzero.symm))

/-- The machine when EXEC_ACCEPTED is sent. -/
def dosRunStart (dos : DosSystem F) (m : DosMachine F) : DosMachine F := { m with disk := dos.removeOut m.disk }

/-- The place an execution leaves is the one its run leaves. -/
theorem dosExecute_place_run (hjob : dosReadJob payload = some job) (hfirst : calls.firstSent = true) :
    (dosExecute dos calls payload m).machine.drive = (dosRunJob dos calls job (dosRunStart dos m)).machine.drive ∧
      (dosExecute dos calls payload m).machine.cwd = (dosRunJob dos calls job (dosRunStart dos m)).machine.cwd := by
  unfold dosExecute
  rw [hjob]
  dsimp only
  rw [hfirst, Bool.not_true, if_neg Bool.false_ne_true]
  split
  · exact ⟨rfl, rfl⟩
  · split
    · exact ⟨rfl, rfl⟩
    · exact ⟨rfl, rfl⟩

theorem samePlace_of_run (hjob : dosReadJob payload = some job) (hfirst : calls.firstSent = true)
    (h : SamePlace (dosRunStart dos m) (dosRunJob dos calls job (dosRunStart dos m)).machine) :
    SamePlace m (dosExecute dos calls payload m).machine := by
  obtain ⟨hdrive, hcwd⟩ := @dosExecute_place_run F dos calls job m payload hjob hfirst
  refine ⟨hdrive.trans h.drive, ?_⟩
  rw [hcwd]
  exact h.cwd

/-- A job that is not run for want of its directory. -/
theorem dosRunJob_missing {line saved : Bytes} {m' : DosMachine F} (hline : dosBuildCommandLine job dosCommandLineSize = some line)
    (hpush : dosPushd dos calls.cwdReadable job.directory m = (m', saved, false)) :
    (dosRunJob dos calls job m).machine = m' := by
  unfold dosRunJob
  rw [hline]
  dsimp only
  rw [hpush]
  rfl

/-- A job that is run: the machine behind the command, and behind `v9x_popd`. -/
theorem dosRunJob_run {line saved : Bytes} {m' : DosMachine F} (hline : dosBuildCommandLine job dosCommandLineSize = some line)
    (hpush : dosPushd dos calls.cwdReadable job.directory m = (m', saved, true)) :
    (dosRunJob dos calls job m).machine = dosPopd dos saved (dos.system line m').1 := by
  unfold dosRunJob
  rw [hline]
  dsimp only
  rw [hpush]
  dsimp only
  split
  · rfl
  · rfl

/-- **The place of a DOS execution.** A request that is refused, one whose acceptance is not
sent, one whose command line is too long or cannot be quoted and one for which the current
directory cannot be read leave it. So does one with a directory that is not entered, unless
that names another drive; and one with a directory that is entered, whatever its command did,
where the old drive and directory are still there. Without a directory it is the command's. -/
theorem dosExecute_place (dos : DosSystem F) (calls : DosExecCalls) (payload : Bytes) (m : DosMachine F) :
    ((dosReadJob payload = none ∨ calls.firstSent = false) → SamePlace m (dosExecute dos calls payload m).machine) ∧
      ∀ job, dosReadJob payload = some job → calls.firstSent = true →
        (dosBuildCommandLine job dosCommandLineSize = none → SamePlace m (dosExecute dos calls payload m).machine) ∧
        ∀ line, dosBuildCommandLine job dosCommandLineSize = some line →
          (job.directory = [] →
            (dosExecute dos calls payload m).machine.drive = (dos.system line (dosRunStart dos m)).1.drive ∧
              (dosExecute dos calls payload m).machine.cwd = (dos.system line (dosRunStart dos m)).1.cwd) ∧
          (job.directory ≠ [] → dosGetcwd calls.cwdReadable m = none →
            SamePlace m (dosExecute dos calls payload m).machine) ∧
          ∀ m' saved,
            (dosPushd dos calls.cwdReadable job.directory (dosRunStart dos m) = (m', saved, false) →
              ¬ NamesOtherDrive dos (dosRunStart dos m) job.directory → SamePlace m (dosExecute dos calls payload m).machine) ∧
            (job.directory ≠ [] →
              dosPushd dos calls.cwdReadable job.directory (dosRunStart dos m) = (m', saved, true) →
              dos.hasDrive (dos.system line m').1.disk m.drive = true →
              dos.hasDir (dos.system line m').1.disk m.drive (m.cwd m.drive) = true →
                SamePlace m (dosExecute dos calls payload m).machine) := by
  constructor
  · intro h
    unfold dosExecute
    split
    · -- refused: an error is sent, or not
      split
      · exact ⟨rfl, rfl⟩
      · split
        · exact ⟨rfl, rfl⟩
        · exact ⟨rfl, rfl⟩
    · rename_i job hjob
      have hfirst : calls.firstSent = false := h.resolve_left (by rw [hjob]; exact Option.some_ne_none job)
      rw [hfirst, Bool.not_false, if_pos rfl]
      exact ⟨rfl, rfl⟩
  · intro job hjob hfirst
    refine ⟨?_, ?_⟩
    · intro hline
      apply samePlace_of_run hjob hfirst
      unfold dosRunJob
      rw [hline]
      exact ⟨rfl, rfl⟩
    · intro line hline
      refine ⟨?_, ?_, ?_⟩
      · -- `v9x_popd` has nothing to go back to
        intro hnone
        obtain ⟨hdrive, hcwd⟩ := @dosExecute_place_run F dos calls job m payload hjob hfirst
        have hpush : dosPushd dos calls.cwdReadable job.directory (dosRunStart dos m) = (dosRunStart dos m, [], true) := by
          rw [hnone]
          rfl
        have hrun := dosRunJob_run hline hpush
        rw [hrun] at hdrive hcwd
        exact ⟨hdrive, hcwd⟩
      · intro hsome hcwd
        apply samePlace_of_run hjob hfirst
        have hpush : dosPushd dos calls.cwdReadable job.directory (dosRunStart dos m) = (dosRunStart dos m, [], false) :=
          dosPushd_unreadable (dosReadJob_directory hjob hsome) hcwd
        rw [dosRunJob_missing hline hpush]
        exact ⟨rfl, rfl⟩
      · intro m' saved
        refine ⟨?_, ?_⟩
        · intro hpush hother
          apply samePlace_of_run hjob hfirst
          rw [dosRunJob_missing hline hpush]
          exact dosPushd_missing hpush hother
        · -- the saved path is taken back behind the command, on the command's disk
          intro hsome hpush hdrive hdir
          apply samePlace_of_run hjob hfirst
          have hsaved := dosPushd_entered (dosReadJob_directory hjob hsome) hpush
          rw [dosRunJob_run hline hpush, hsaved]
          obtain ⟨hpopDrive, hpopCwd⟩ := dosPopd_full hdrive hdir
          exact ⟨hpopDrive, hpopCwd⟩

/-- The command changes the drive, and its directory is entered: the place is kept. -/
theorem dosExecute_place_root :
    SamePlace ⟨2, fun _ => [], false⟩
      (dosExecute (dosRoots fun m => { m with drive := 3 }) dosCallsSent (dosRequest (ascii "D:") (ascii "C:\\"))
        ⟨2, fun _ => [], false⟩).machine := by
  have hplace := (dosExecute_place (dosRoots fun m => { m with drive := 3 }) dosCallsSent (dosRequest (ascii "D:") (ascii "C:\\"))
    ⟨2, fun _ => [], false⟩).2 _ rfl rfl
  exact ((hplace.2 _ rfl).2.2 _ _).2 (List.cons_ne_nil _ _) rfl rfl rfl

/-- Without a directory a command changes the drive; and so does a directory that is missing
on another drive, without any command. -/
theorem dosExecute_moves :
    ¬ SamePlace ⟨2, fun _ => [], false⟩
        (dosExecute (dosRoots fun m => { m with drive := 3 }) dosCallsSent (dosRequest (ascii "D:") [])
          ⟨2, fun _ => [], false⟩).machine ∧
      ¬ SamePlace ⟨2, fun _ => [], false⟩
        (dosExecute (dosRoots id) dosCallsSent (dosRequest (ascii "VER") (ascii "D:\\NONE")) ⟨2, fun _ => [], false⟩).machine := by
  constructor
  · intro h
    have hdrive : (3 : Fin 26) = 2 := h.drive
    revert hdrive
    decide
  · intro h
    have hdrive : (3 : Fin 26) = 2 := h.drive
    revert hdrive
    decide

end V9xRemote
