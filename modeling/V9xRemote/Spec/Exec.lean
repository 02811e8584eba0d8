import Mathlib.Logic.Function.Basic
import V9xRemote.Lib.Bytes

/-!
# Command execution (`src/guest/execute.c`)

The worker of an execution from the launch of the process on: the loop that sends what the
process has written, the reads behind its end, and EXEC_COMPLETE. What the system answers is
given turn by turn; `executionWorker` has a result where these are exactly the turns it takes.
-/

namespace V9xRemote

open Bytes

def execChunk : ℕ := 1024
def execEofGrace : UInt32 := 2000

def execResultOk : UInt32 := 0
def execResultCreateFailed : UInt32 := 1
def execResultTimeout : UInt32 := 2
def execResultCancelled : UInt32 := 3
def execResultInternal : UInt32 := 4

def execFlagStdoutTruncated : UInt32 := 0x01
def execFlagStderrTruncated : UInt32 := 0x02
def execFlagTimedOut : UInt32 := 0x04
def execFlagCancelled : UInt32 := 0x08
def execFlagPipeCapture : UInt32 := 0x10
def execFlagGuiWindow : UInt32 := 0x20
def execFlagDetached : UInt32 := 0x40
def execFlagOrphaned : UInt32 := 0x80

inductive ExecPipe
  | stdout
  | stderr
deriving DecidableEq, Repr

/-- `V9X_MSG_EXEC_STDOUT` and `V9X_MSG_EXEC_STDERR`. -/
def ExecPipe.message : ExecPipe → UInt16
  | stdout => 0x9010
  | stderr => 0x9011

def msgExecCompleteType : UInt16 := 0x8011

def ExecPipe.truncateFlag : ExecPipe → UInt32
  | stdout => execFlagStdoutTruncated
  | stderr => execFlagStderrTruncated

/-- What one `ReadFile` brings: no more than it is asked for, which is a buffer at most. -/
structure PipeData where
  bytes : Bytes
  fits : bytes.length ≤ execChunk

/-- What the system answers in one call of `v9x_send_pipe_data`. -/
inductive PipeCall
  /-- bytes are read; `sent`: where a frame is sent for them, whether that succeeds -/
  | data (read : PipeData) (sent : Bool)
  /-- nothing is there -/
  | empty
  /-- `PeekNamedPipe` or `ReadFile` fails, with ERROR_BROKEN_PIPE or otherwise -/
  | failed (broken : Bool)

/-- The part of `V9xExecSlot` that the loop uses. -/
structure ExecSlot where
  shell : Bool
  detach : Bool
  timeoutMs : UInt32
  limit : ExecPipe → UInt32

structure ExecStream where
  total : UInt32
  sentTotal : UInt32
  broken : Bool

/-- `total` behind a read. -/
def ExecStream.counted (stream : ExecStream) (readCount : UInt32) : UInt32 :=
  if 0xffffffff - stream.total < readCount then 0xffffffff else stream.total + readCount

/-- `send_count` of a read. -/
def ExecStream.sendCount (stream : ExecStream) (limit readCount : UInt32) : UInt32 :=
  if stream.sentTotal ≥ limit then 0
  else if readCount > limit - stream.sentTotal then limit - stream.sentTotal
  else readCount

/-- The worker: its streams, its flags and the frames it has sent. -/
structure ExecWorker where
  streams : ExecPipe → ExecStream
  flags : UInt32
  frames : List (UInt16 × Bytes)

namespace ExecWorker

/-- `v9x_send_pipe_data`, and whether it succeeds. -/
def sendPipeData (job : ExecSlot) (pipe : ExecPipe) (call : PipeCall) (worker : ExecWorker) : ExecWorker × Bool :=
  let stream := worker.streams pipe
  if stream.broken then (worker, true)
  else
    match call with
    | .failed broken => ({ worker with streams := Function.update worker.streams pipe { stream with broken } }, true)
    | .empty => (worker, true)
    | .data read sent =>
      let readCount := UInt32.ofNat read.bytes.length
      let total := stream.counted readCount
      let sendCount := stream.sendCount (job.limit pipe) readCount
      if sendCount ≠ 0 && !sent then
        ({ worker with streams := Function.update worker.streams pipe { stream with total } }, false)
      else
        ({ streams := Function.update worker.streams pipe { stream with total, sentTotal := stream.sentTotal + sendCount }
           flags := if sendCount ≠ readCount then worker.flags ||| pipe.truncateFlag else worker.flags
           frames :=
            if sendCount ≠ 0 then worker.frames ++ [(pipe.message, read.bytes.take sendCount.toNat)] else worker.frames },
          true)

end ExecWorker

/-! ## The loop while the process runs -/

inductive ExecWait
  | timeout
  | signaled
  | failed (native : UInt32)

/-- What the system answers in one turn: the pipes, whether another thread has cancelled, the
ticks at the two tests of the time, and the wait. -/
structure ExecTurn where
  stdout : PipeCall
  stderr : PipeCall
  cancel : Bool
  tick : UInt32
  eofTick : UInt32
  wait : ExecWait

structure ExecLoop where
  worker : ExecWorker
  result : UInt32
  native : UInt32
  /-- `eof_tick`, once `eof_seen` -/
  eofSeen : Option UInt32

namespace ExecLoop

def addFlag (s : ExecLoop) (flag : UInt32) : ExecLoop := { s with worker := { s.worker with flags := s.worker.flags ||| flag } }

/-- Both pipes of a shell are broken: the grace begins, or it is over. -/
def eof (job : ExecSlot) (s : ExecLoop) (eofTick : UInt32) : ExecLoop × Bool :=
  if job.shell && (s.worker.streams .stdout).broken && (s.worker.streams .stderr).broken then
    match s.eofSeen with
    | none => ({ s with eofSeen := some eofTick }, false)
    | some seen => if eofTick - seen ≥ execEofGrace then (s.addFlag execFlagOrphaned, true) else (s, false)
  else (s, false)

/-- One turn, and whether another follows. -/
def turn (job : ExecSlot) (started : UInt32) (s : ExecLoop) (t : ExecTurn) : ExecLoop × Bool :=
  let (worker, first) := s.worker.sendPipeData job .stdout t.stdout
  let (worker, both) := if first then worker.sendPipeData job .stderr t.stderr else (worker, false)
  let s := { s with worker }
  if !both || t.cancel then ({ s.addFlag execFlagCancelled with result := execResultCancelled }, false)
  else if job.timeoutMs ≠ 0 && t.tick - started ≥ job.timeoutMs then
    ({ s.addFlag execFlagTimedOut with result := execResultTimeout }, false)
  else
    let (s, ended) := s.eof job t.eofTick
    if ended then (s, false)
    else
      match t.wait with
      | .signaled => (s, false)
      | .failed native => ({ s with native, result := execResultInternal }, false)
      | .timeout => (s, true)

/-- The loop: its result where the turns are those it takes. -/
def run (job : ExecSlot) (started : UInt32) : ExecLoop → List ExecTurn → Option ExecLoop
  | _, [] => none
  | s, t :: turns =>
    match s.turn job started t with
    | (s, true) => run job started s turns
    | (s, false) => if turns.isEmpty then some s else none

end ExecLoop

/-! ## Behind the end of the process -/

/-- The drain: up to `left` rounds, until one brings nothing. -/
def execDrain (job : ExecSlot) : ℕ → ExecWorker → List (PipeCall × PipeCall) → Option ExecWorker
  | 0, worker, rounds => if rounds.isEmpty then some worker else none
  | _ + 1, _, [] => none
  | left + 1, worker, (stdout, stderr) :: rounds =>
    let after := ((worker.sendPipeData job .stdout stdout).1.sendPipeData job .stderr stderr).1
    if (worker.streams .stdout).total = (after.streams .stdout).total ∧
        (worker.streams .stderr).total = (after.streams .stderr).total then
      if rounds.isEmpty then some after else none
    else execDrain job left after rounds

/-! ## The worker -/

/-- How the launch ends. -/
inductive ExecLaunch
  | failed (native : UInt32)
  | created
deriving DecidableEq, Repr

/-- What the system answers during an execution. -/
structure ExecutionCalls where
  started : UInt32
  gui : Bool
  launch : ExecLaunch
  turns : List ExecTurn
  rounds : List (PipeCall × PipeCall)
  /-- the exit code, or the error of `GetExitCodeProcess` -/
  exitCode : UInt32 ⊕ UInt32
  finished : UInt32

/-- The payload of EXEC_COMPLETE. -/
def execComplete (result exitCode native elapsed stdoutTotal stderrTotal flags : UInt32) : Bytes :=
  writeU32 result ++ writeU32 exitCode ++ writeU32 native ++ writeU32 elapsed ++ writeU32 stdoutTotal ++
    writeU32 stderrTotal ++ writeU32 flags

/-- `complete_job`. -/
def ExecLoop.complete (s : ExecLoop) (exitCode elapsed : UInt32) : List (UInt16 × Bytes) :=
  s.worker.frames ++ [(msgExecCompleteType, execComplete s.result exitCode s.native elapsed (s.worker.streams .stdout).total
    (s.worker.streams .stderr).total s.worker.flags)]

/-- `v9x_execution_worker`: the frames it sends. -/
def executionWorker (job : ExecSlot) (calls : ExecutionCalls) : Option (List (UInt16 × Bytes)) :=
  let flags := if job.detach then execFlagDetached else execFlagPipeCapture
  let flags := if calls.gui then flags ||| execFlagGuiWindow else flags
  let start : ExecLoop := ⟨⟨fun _ => ⟨0, 0, false⟩, flags, []⟩, execResultInternal, 0, none⟩
  let elapsed := calls.finished - calls.started
  match calls.launch with
  | .failed native =>
    if calls.turns.isEmpty && calls.rounds.isEmpty then
      some ({ start with result := execResultCreateFailed, native }.complete 0xffffffff elapsed)
    else none
  | .created =>
    let start := { start with result := execResultOk }
    if job.detach then
      if calls.turns.isEmpty && calls.rounds.isEmpty then some (start.complete 0 elapsed) else none
    else do
      let s ← start.run job calls.started calls.turns
      let worker ← execDrain job 32 s.worker calls.rounds
      let s : ExecLoop := { s with worker }
      match calls.exitCode with
      | .inl code => some (s.complete code elapsed)
      | .inr native =>
        if s.native == 0 then some ({ s with native, result := execResultInternal }.complete 0xffffffff elapsed)
        else some (s.complete 0xffffffff elapsed)

end V9xRemote
