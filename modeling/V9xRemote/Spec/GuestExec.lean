import V9xRemote.Spec.DosExec
import V9xRemote.Spec.GuestFiles
import V9xRemote.Spec.Serve

/-!
# EXEC as the Windows agent answers it (`src/guest/protocol.c`, `src/guest/execute.c`)

From the request to the last frame: what is refused, what is accepted and then fails, and what
the worker sends. The DOS agent's is `dosExecute`.
-/

namespace V9xRemote

open Bytes

/-- What `v9x_application_kind` finds. -/
inductive AppKind
  | other
  | console
  | gui
deriving DecidableEq, Repr

/-- What `v9x_execution_prepare` meets. -/
structure PrepareCalls where
  /-- a slot of the pool was free -/
  free : Bool
  allowDosVm : Bool
  isNt : Bool
  kind : Bytes → AppKind
  /-- `CreateThread` succeeds -/
  thread : Bool

/-- A program that may not be started with `allow_dos_vm=0`. -/
def PrepareCalls.startsDosVm (calls : PrepareCalls) (job : DosJob) : Bool :=
  if calls.isNt then job.mode = execModeDirect ∧ calls.kind job.application = .other
  else job.mode = execModeShell ∨ calls.kind job.application ≠ .gui

/-- `v9x_execution_prepare`: the job, or a status. It reads the request as `v9x_dos_execute` does. -/
def executionPrepare (calls : PrepareCalls) (payload : Bytes) : Except UInt32 DosJob :=
  if payload.length < 22 then .error statusInvalidPayload
  else if !calls.free then .error statusBusy
  else
    match dosReadJob payload with
    | none => .error statusInvalidPayload
    | some job =>
      if !calls.allowDosVm && calls.startsDosVm job then .error statusUnsupportedOperation
      else if !calls.thread then .error statusCreateFailed
      else .ok job

/-- What the worker reads of its slot. -/
def DosJob.slot (job : DosJob) : ExecSlot where
  shell := job.mode = execModeShell
  detach := job.options &&& 1 ≠ 0
  timeoutMs := job.timeoutMs
  limit
    | .stdout => job.stdoutLimit
    | .stderr => job.stderrLimit

/-- `v9x_send_error`. -/
def sendError (native status : UInt32) (detail : String) : List AgentFrame :=
  match appendString responseSize (writeU32 status ++ writeU32 native) (ascii detail) with
  | none => []
  | some payload => [(msgErrorResponse, payload)]

/-- What the EXEC branch meets, its worker included. -/
structure WinExecCalls where
  prepare : PrepareCalls
  /-- `GetLastError`, where an error is sent -/
  native : UInt32
  tick : UInt32
  /-- `v9x_execution_resume` -/
  resume : Bool
  worker : ExecutionCalls

def ExecAnswer.frames (calls : WinExecCalls) : ExecAnswer → List AgentFrame
  | .accepted => [(msgExecAcceptedType, writeU32 calls.tick)]
  | .refused status detail => sendError calls.native status detail

/-- The frames of an EXEC, where all that are sent arrive. -/
def winExecFrames (calls : WinExecCalls) (payload : Bytes) : Option (List AgentFrame) :=
  let prepared := executionPrepare calls.prepare payload
  let status := match prepared with
    | .ok _ => statusOk
    | .error status => status
  let answers := (winExec ⟨fun _ _ => status, calls.prepare.isNt, true, true, calls.resume⟩ 0 payload).1
  let frames := answers.flatMap (ExecAnswer.frames calls)
  match prepared with
  | .error _ => some frames
  | .ok job => if calls.resume then (executionWorker job.slot calls.worker).map (frames ++ ·) else some frames

end V9xRemote
