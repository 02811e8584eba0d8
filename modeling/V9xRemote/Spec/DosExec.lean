import V9xRemote.Spec.Exec
import V9xRemote.Spec.Input

/-!
# Command execution on DOS (`src/guest-dos/exec_dos.c`)

The agent waits for the command: `system` runs it with its output in a file, which is read and
sent behind its end. The current drive and the current directory of each drive are the
machine's, so that a command changes them for the agent too.
-/

namespace V9xRemote

open Bytes

def execMaxApplication : ℕ := 259
def execMaxCommand : ℕ := 2047
def execMaxDirectory : ℕ := 259
def execMaxTimeout : UInt32 := 3600000
def execMaxOutput : UInt32 := 1048576

def execModeDirect : UInt8 := 0
def execModeShell : UInt8 := 1
def execOptionMask : UInt16 := 1

def msgExecAcceptedType : UInt16 := 0x8010

/-! ## The request -/

structure DosJob where
  mode : UInt8
  showWindow : UInt8
  options : UInt16
  timeoutMs : UInt32
  stdoutLimit : UInt32
  stderrLimit : UInt32
  application : Bytes
  command : Bytes
  directory : Bytes

/-- `v9x_read_string`: the text, and the offset behind it. -/
def execReadString (payload : Bytes) (offset maximum : ℕ) : Option (Bytes × ℕ) :=
  if offset > payload.length ∨ payload.length - offset < 2 then none
  else
    let stringLength := (payload.readU16 offset).toNat
    let offset := offset + 2
    if stringLength > maximum ∨ stringLength > payload.length - offset then none
    else
      let target := (payload.drop offset).take stringLength
      if target.any fun c => c == 0 || c > 0x7f then none else some (target, offset + stringLength)

/-- The request of `v9x_dos_execute`; `none` where it is refused. -/
def dosReadJob (payload : Bytes) : Option DosJob :=
  if payload.length < 22 then none
  else
    let mode := payload.at' 0
    let showWindow := payload.at' 1
    let options := payload.readU16 2
    let timeoutMs := payload.readU32 4
    let stdoutLimit := payload.readU32 8
    let stderrLimit := payload.readU32 12
    if options &&& ~~~execOptionMask ≠ 0 ∨ mode > execModeShell ∨ showWindow > 1 ∨ timeoutMs > execMaxTimeout ∨
        stdoutLimit > execMaxOutput ∨ stderrLimit > execMaxOutput then none
    else do
      let (application, offset) ← execReadString payload 16 execMaxApplication
      let (command, offset) ← execReadString payload offset execMaxCommand
      let (directory, offset) ← execReadString payload offset execMaxDirectory
      if offset ≠ payload.length ∨ (mode = execModeDirect ∧ application = []) ∨ (mode = execModeShell ∧ command = []) then
        none
      else some ⟨mode, showWindow, options, timeoutMs, stdoutLimit, stderrLimit, application, command, directory⟩

/-- `v9x_append_text`; `none` where the text does not fit. -/
def execAppendText (capacity : ℕ) : Bytes → Bytes → Option Bytes
  | target, [] => some target
  | target, c :: text => if target.length + 1 ≥ capacity then none else execAppendText capacity (target ++ [c]) text

/-- `V9X_DOS_EXEC_OUT`. -/
def dosExecOut : Bytes := ascii "C:\\V9XREMOT\\TEMP\\OUT.TMP"

/-- `v9x_build_command_line`. -/
def dosBuildCommandLine (job : DosJob) (capacity : ℕ) : Option Bytes := do
  let target ←
    if job.mode = execModeShell then execAppendText capacity [] job.command
    else if job.application.contains 34 then none
    else do
      let target ← execAppendText capacity [] [34]
      let target ← execAppendText capacity target job.application
      let target ← execAppendText capacity target [34]
      if job.command ≠ [] then do
        let target ← execAppendText capacity target (ascii " ")
        execAppendText capacity target job.command
      else some target
  let target ← execAppendText capacity target (ascii " > ")
  execAppendText capacity target dosExecOut

/-! ## Drives and directories -/

/-- The machine: the current drive, the current directory of each drive behind its root, and
what stands on the disks. -/
structure DosMachine (F : Type) where
  drive : Fin 26
  cwd : Fin 26 → Bytes
  disk : F

/-- What the reads of the capture file bring. A file has less than 2^32 bytes. -/
structure DosCapture where
  reads : List Bytes
  chunks : ∀ read ∈ reads, 0 < read.length ∧ read.length ≤ execChunk
  size : reads.flatten.length < 2 ^ 32

/-- The name of a directory with its drive and root. -/
def dosFullPath (drive : Fin 26) (path : Bytes) : Bytes := UInt8.ofNat (65 + drive.val) :: 58 :: 92 :: path

/-- What DOS does, as far as the agent meets it. -/
structure DosSystem (F : Type) where
  hasDrive : F → Fin 26 → Bool
  hasDir : F → Fin 26 → Bytes → Bool
  /-- what `chdir` makes of a name: a drive, and its new current directory -/
  findDir : DosMachine F → Bytes → Option (Fin 26 × Bytes)
  /-- A full name is that directory's, where there is one. -/
  findDir_full : ∀ m drive path, hasDir m.disk drive path = true → findDir m (dosFullPath drive path) = some (drive, path)
  /-- `remove` of the capture file -/
  removeOut : F → F
  /-- the capture file, where it can be opened -/
  capture : F → Option DosCapture
  /-- `system`, with what it returns -/
  system : Bytes → DosMachine F → DosMachine F × Int32

namespace DosSystem

variable {F : Type}

/-- `_dos_setdrive`. DOS takes the low byte of the number below, and ignores a drive that is not there. -/
def setDrive (dos : DosSystem F) (number : UInt32) (m : DosMachine F) : DosMachine F :=
  let index := (number - 1).toUInt8.toNat
  if h : index < 26 then
    if dos.hasDrive m.disk ⟨index, h⟩ then { m with drive := ⟨index, h⟩ } else m
  else m

/-- `chdir`, and whether it succeeds. It leaves the current drive. -/
def chdir (dos : DosSystem F) (dir : Bytes) (m : DosMachine F) : DosMachine F × Bool :=
  match dos.findDir m dir with
  | some (drive, path) => ({ m with cwd := Function.update m.cwd drive path }, true)
  | none => (m, false)

end DosSystem

variable {F : Type}

/-- `sizeof(saved_dir)`. -/
def dosSavedSize : ℕ := 260

/-- `getcwd` into `saved_dir`; `readable`: whether DOS gives the directory. -/
def dosGetcwd (readable : Bool) (m : DosMachine F) : Option Bytes :=
  let path := dosFullPath m.drive (m.cwd m.drive)
  if readable && decide (path.length < dosSavedSize) then some path else none

/-- The number of a drive letter. -/
def dosDriveNumber (letter : UInt8) : UInt32 := (upper letter).toUInt32 - 65 + 1

/-- `v9x_pushd`: the machine, what it saved, and whether it succeeds. -/
def dosPushd (dos : DosSystem F) (readable : Bool) (dir : Bytes) (m : DosMachine F) : DosMachine F × Bytes × Bool :=
  if dir.at' 0 = 0 then (m, [], true)
  else
    match dosGetcwd readable m with
    | none => (m, [], false)
    | some saved =>
      let m := if dir.at' 1 = 58 then dos.setDrive (dosDriveNumber (dir.at' 0)) m else m
      let (m, entered) := dos.chdir dir m
      (m, saved, entered)

/-- `v9x_popd`. -/
def dosPopd (dos : DosSystem F) (saved : Bytes) (m : DosMachine F) : DosMachine F :=
  if saved.at' 0 = 0 then m
  else
    let m := if saved.at' 1 = 58 then dos.setDrive (dosDriveNumber (saved.at' 0)) m else m
    (dos.chdir saved m).1

/-! ## The output -/

structure DosStream where
  total : UInt32
  sent : UInt32
  flags : UInt32
  frames : List (UInt16 × Bytes)

/-- The loop of `v9x_stream_output`, and whether its sends succeed; `chunkSent` says it of each. -/
def dosStreamReads (limit : UInt32) (chunkSent : ℕ → Bool) : DosStream → List Bytes → DosStream × Bool
  | s, [] => (s, true)
  | s, read :: reads =>
    let readCount := UInt32.ofNat read.length
    let s := { s with total := s.total + readCount }
    if s.sent < limit then
      let sendCount := if readCount > limit - s.sent then limit - s.sent else readCount
      if sendCount ≠ 0 then
        if !chunkSent s.frames.length then (s, false)
        else
          dosStreamReads limit chunkSent
            { s with
              sent := s.sent + sendCount
              frames := s.frames ++ [(ExecPipe.stdout.message, read.take sendCount.toNat)] } reads
      else dosStreamReads limit chunkSent s reads
    else dosStreamReads limit chunkSent s reads

/-- `v9x_stream_output`. -/
def dosStreamOutput (limit : UInt32) (chunkSent : ℕ → Bool) (flags : UInt32) (file : Option DosCapture) : DosStream × Bool :=
  match file with
  | none => (⟨0, 0, flags, []⟩, true)
  | some file =>
    match dosStreamReads limit chunkSent ⟨0, 0, flags, []⟩ file.reads with
    | (s, false) => (s, false)
    | (s, true) => (if s.total > limit then { s with flags := s.flags ||| execFlagStdoutTruncated } else s, true)

/-! ## The request's run -/

/-- What else an execution meets: whether its frames are sent, whether the current directory
can be read, and the error number and the ticks it reads. -/
structure DosExecCalls where
  /-- EXEC_ACCEPTED, or the error in its place -/
  firstSent : Bool
  chunkSent : ℕ → Bool
  completeSent : Bool
  cwdReadable : Bool
  errno : UInt32
  started : UInt32
  finished : UInt32

/-- The machine behind an execution, the frames it sent, and whether the agent goes on serving. -/
structure DosExecRun (F : Type) where
  machine : DosMachine F
  frames : List (UInt16 × Bytes)
  serving : Bool

/-- EINVAL. -/
def dosErrInvalid : UInt32 := 9

/-- `sizeof(command_line)`. -/
def dosCommandLineSize : ℕ := 2400

/-- What is run of a job, between EXEC_ACCEPTED and EXEC_COMPLETE. -/
structure DosOutcome (F : Type) where
  machine : DosMachine F
  result : UInt32
  exitCode : UInt32
  native : UInt32
  stream : DosStream
  sent : Bool

/-- Nothing was started. -/
def dosCreateFailed (native : UInt32) (m : DosMachine F) : DosOutcome F :=
  ⟨m, execResultCreateFailed, 0xffffffff, native, ⟨0, 0, execFlagPipeCapture, []⟩, true⟩

def dosRunJob (dos : DosSystem F) (calls : DosExecCalls) (job : DosJob) (m : DosMachine F) : DosOutcome F :=
  match dosBuildCommandLine job dosCommandLineSize with
  | none => dosCreateFailed dosErrInvalid m
  | some commandLine =>
    match dosPushd dos calls.cwdReadable job.directory m with
    | (m, _, false) => dosCreateFailed calls.errno m
    | (m, saved, true) =>
      let (m, status) := dos.system commandLine m
      let m := dosPopd dos saved m
      if status = -1 then dosCreateFailed calls.errno m
      else
        let (stream, sent) := dosStreamOutput job.stdoutLimit calls.chunkSent execFlagPipeCapture (dos.capture m.disk)
        ⟨m, execResultOk, status.toUInt32 &&& 0xff, 0, stream, sent⟩

/-- `v9x_dos_execute`. -/
def dosExecute (dos : DosSystem F) (calls : DosExecCalls) (payload : Bytes) (m : DosMachine F) : DosExecRun F :=
  match dosReadJob payload with
  | none =>
    match appendString responseSize (writeU32 statusInvalidPayload ++ writeU32 calls.errno)
        (ascii "invalid execution request") with
    | none => ⟨m, [], false⟩
    | some error => if calls.firstSent then ⟨m, [(msgErrorResponse, error)], true⟩ else ⟨m, [], false⟩
  | some job =>
    if !calls.firstSent then ⟨m, [], false⟩
    else
      let accepted := (msgExecAcceptedType, writeU32 calls.started)
      let outcome := dosRunJob dos calls job { m with disk := dos.removeOut m.disk }
      let machine := { outcome.machine with disk := dos.removeOut outcome.machine.disk }
      if !outcome.sent then ⟨machine, accepted :: outcome.stream.frames, false⟩
      else
        let complete := execComplete outcome.result outcome.exitCode outcome.native (calls.finished - calls.started)
          outcome.stream.total 0 outcome.stream.flags
        if calls.completeSent then ⟨machine, accepted :: outcome.stream.frames ++ [(msgExecCompleteType, complete)], true⟩
        else ⟨machine, accepted :: outcome.stream.frames, false⟩

end V9xRemote
