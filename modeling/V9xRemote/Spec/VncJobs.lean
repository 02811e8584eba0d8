import V9xRemote.Lib.Trace

/-!
# The VNC server's two threads (`vnc_worker`, `vnc_job_*`, `vnc_serve`, `src/guest/vnc.c`)

The network thread hands the worker one job at a time, through `vnc_job` and two events that
reset themselves, and reads `vnc_job_result`. What both of them work on is the frame: the DIB
section, the reference frame, their size and what a capture notes about them. Here the two
run in any order, one access of a shared variable at a time, and what a job or an update
writes to the frame on its way is anything at all.

* `vncJobStep`: one step of one of them.
* The log, the jobs posted and the jobs finished stand beside the state; no step looks at
  them.
-/

namespace V9xRemote

/-- `VNC_JOB_CAPTURE`, `VNC_JOB_INIT` and `VNC_JOB_FREE`. -/
inductive VncJob
  | capture
  | init
  | free
deriving DecidableEq, Repr

/-- The calls of `vnc_job_run`: a session begins, the mode has changed, the server stops. -/
inductive VncErrand
  | session
  | resize
  | stop
deriving DecidableEq, Repr

def VncErrand.job : VncErrand → VncJob
  | session | resize => .init
  | stop => .free

namespace VncJobs

/-- Where `vnc_worker` is. -/
inductive Worker (F : Type*)
  /-- waits for `vnc_job_event` -/
  | waiting
  /-- woken, with the stall file perhaps still there -/
  | stalled
  /-- in the switch with the job it read (`none` for `0`), and the frame it found -/
  | running (job : Option VncJob) (found : Option F)
  /-- about to set `vnc_done_event` -/
  | signalling
  /-- its wait has failed -/
  | returned
deriving DecidableEq, Repr

/-- Where the network thread is. -/
inductive Network (F : Type*)
  /-- in the accept loop -/
  | accepting
  /-- `vnc_job_run`: waits for a capture still running -/
  | draining (errand : VncErrand)
  /-- `vnc_job_start`, between the store and `SetEvent`; `none` is the loop's capture -/
  | posting (errand : Option VncErrand)
  /-- `vnc_job_run`: waits for its own job -/
  | awaiting (errand : VncErrand)
  /-- `vnc_job_run`: reads the result -/
  | answered (errand : VncErrand)
  /-- `vnc_handshake` -/
  | greeting
  /-- the top of the session's loop -/
  | looping
  /-- a capture has been polled; its result is read -/
  | judging
  /-- `vnc_send_desktop_size` -/
  | sizing
  /-- from `vnc_detect_move` and `vnc_diff` to the end of `vnc_send_update`, with the frame found -/
  | updating (found : Option F)
  /-- the process has ended -/
  | ended (code : ℕ)
deriving DecidableEq, Repr

/-- Who was at the frame. -/
inductive User
  | job (job : VncJob)
  /-- `vnc_capture_full` is set for a full frame -/
  | arm
  | update
  /-- the size is sent -/
  | size
deriving DecidableEq, Repr

/-- One whole access of the frame: what it found and what it left. -/
structure Access (F : Type*) where
  who : User
  before : Option F
  after : Option F
deriving DecidableEq, Repr

end VncJobs

open VncJobs in
/-- Both threads, and the frame: `none` after `vnc_capture_free`. -/
structure VncJobs (F : Type*) where
  frame : Option F
  /-- `vnc_job`, with `none` for `0` -/
  job : Option VncJob
  result : ℤ
  pending : Bool
  jobEvent : Bool
  doneEvent : Bool
  worker : Worker F
  network : Network F
  /-- the jobs whose event has been set -/
  posted : List VncJob
  /-- the jobs the worker is through with, and their results -/
  finished : List (VncJob × ℤ)
  log : List (Access F)
deriving DecidableEq, Repr

/-- A step, with what the screen, the viewer and the timers decide. -/
inductive VncJobAct (F : Type*)
  /-- the wait for `vnc_job_event` ends -/
  | take
  /-- the wait for `vnc_job_event` fails -/
  | waitFailed
  /-- the stall file is there -/
  | linger
  /-- `vnc_job` is read -/
  | pick
  /-- a write of the job to the frame -/
  | touch (frame : Option F)
  /-- the job's last write, and its result -/
  | finish (frame : Option F) (result : ℤ)
  /-- `vnc_done_event` is set -/
  | signal
  /-- a client is accepted -/
  | connect
  /-- the server is asked to stop -/
  | stop
  /-- `vnc_job_poll` with no job pending -/
  | pollNone
  /-- `vnc_job_poll` takes `vnc_done_event` -/
  | pollDone
  /-- `vnc_job_poll` runs out of time -/
  | pollTimeout
  /-- `vnc_job_event` is set -/
  | setEvent
  /-- `vnc_job_run` returns -/
  | answer
  /-- the handshake is over -/
  | greet (ok : Bool)
  /-- the loop's messages and clipboard, where `false` ends the session -/
  | message (ok : Bool)
  /-- a capture is due; `some` where a full frame is wanted -/
  | start (armed : Option F)
  /-- the capture's result, with a viewer that takes DesktopSize, and one that waits for an update -/
  | judge (desktopSize wanted : Bool)
  /-- the new size is sent -/
  | sized (ok : Bool)
  /-- a write of the update to the frame -/
  | write (frame : F)
  /-- the update is out -/
  | sent (ok : Bool)
deriving DecidableEq, Repr

namespace VncJobs

variable {F : Type*}

/-- Whether a job can leave the frame like this on its way: a capture neither makes nor
frees one. -/
def touchOk (job : Option VncJob) (old new : Option F) : Bool :=
  match job with
  | some .capture => new.isSome == old.isSome
  | some .init | some .free => true
  | none => false

/-- Whether a job can end like this. `vnc_capture_init` frees what it has made before it
returns 0. -/
def finishOk (job : VncJob) (old new : Option F) (result : ℤ) : Bool :=
  match job with
  | .capture => new.isSome == old.isSome && (result == -1 || result == 0 || result == 1)
  | .init => (result == 1 && new.isSome) || (result == 0 && new.isNone)
  | .free => result == 1 && new.isNone

/-- `vnc_job_start` as far as `SetEvent`. -/
def store (s : VncJobs F) (errand : Option VncErrand) : VncJobs F :=
  { s with
    job := some ((errand.map VncErrand.job).getD .capture)
    pending := true
    network := .posting errand }

/-- An access of the frame by the network thread that leaves it as it was. -/
def read (s : VncJobs F) (who : User) : VncJobs F :=
  { s with log := s.log ++ [⟨who, s.frame, s.frame⟩] }

/-- `vnc_worker`. -/
def workerStep (s : VncJobs F) : VncJobAct F → Option (VncJobs F)
  | .take =>
    if s.worker matches .waiting then
      if s.jobEvent then some { s with jobEvent := false, worker := .stalled } else none
    else none
  | .waitFailed => if s.worker matches .waiting then some { s with worker := .returned } else none
  | .linger => if s.worker matches .stalled then some s else none
  | .pick => if s.worker matches .stalled then some { s with worker := .running s.job s.frame } else none
  | .touch frame =>
    match s.worker with
    | .running job _ => if touchOk job s.frame frame then some { s with frame := frame } else none
    | _ => none
  | .finish frame result =>
    match s.worker with
    | .running (some job) found =>
      if finishOk job s.frame frame result then
        some { s with
          frame := frame
          result := result
          worker := .signalling
          finished := s.finished ++ [(job, result)]
          log := s.log ++ [⟨.job job, found, frame⟩] }
      else none
    | .running none _ => some { s with result := 0, worker := .signalling }
    | _ => none
  | .signal => if s.worker matches .signalling then some { s with doneEvent := true, worker := .waiting } else none
  | _ => none

/-- `vnc_job_poll` has returned 1. -/
def polled (s : VncJobs F) : Option (VncJobs F) :=
  match s.network with
  | .draining errand => some (s.store (some errand))
  | .awaiting errand => some { s with network := .answered errand }
  | .looping => some { s with network := .judging }
  | _ => none

/-- The network thread: the accept loop, `vnc_job_run` and the session. -/
def networkStep (s : VncJobs F) : VncJobAct F → Option (VncJobs F)
  | .connect => if s.network matches .accepting then some { s with network := .draining .session } else none
  | .stop => if s.network matches .accepting then some { s with network := .draining .stop } else none
  | .pollNone =>
    match s.network with
    | .draining errand => if s.pending then none else some (s.store (some errand))
    | _ => none
  | .pollDone =>
    if s.pending && s.doneEvent then polled { s with pending := false, doneEvent := false } else none
  | .pollTimeout =>
    if s.pending && !s.doneEvent then
      match s.network with
      | .draining _ | .awaiting _ => some { s with network := .ended 10 }
      | .looping => some s
      | _ => none
    else none
  | .setEvent =>
    match s.network with
    | .posting errand =>
      some { s with
        jobEvent := true
        posted := s.posted ++ s.job.toList
        network := match errand with
          | some errand => .awaiting errand
          | none => .looping }
    | _ => none
  | .answer =>
    match s.network with
    | .answered .session => some { s with network := if s.result = 0 then .accepting else .greeting }
    | .answered .resize => some { s with network := if s.result = 0 then .accepting else .sizing }
    | .answered .stop => some { s with network := .ended 0 }
    | _ => none
  | .greet ok =>
    if s.network matches .greeting then some { s.read .size with network := if ok then .looping else .accepting }
    else none
  | .message ok =>
    if s.network matches .looping then some { s with network := if ok then .looping else .accepting } else none
  | .start armed =>
    if s.network matches .looping then
      if s.pending then none
      else
        match armed with
        | none => some (s.store none)
        | some frame =>
          if s.frame.isSome then
            some (store { s with frame := some frame, log := s.log ++ [⟨.arm, s.frame, some frame⟩] } none)
          else none
    else none
  | .judge desktopSize wanted =>
    if s.network matches .judging then
      if s.result < 0 then
        some { s with network := if desktopSize then .draining .resize else .accepting }
      else if s.result = 0 || !wanted then some { s with network := .looping }
      else some { s with network := .updating s.frame }
    else none
  | .sized ok =>
    if s.network matches .sizing then some { s.read .size with network := if ok then .looping else .accepting }
    else none
  | .write frame =>
    match s.network with
    | .updating _ => if s.frame.isSome then some { s with frame := some frame } else none
    | _ => none
  | .sent ok =>
    match s.network with
    | .updating found =>
      some { s with
        log := s.log ++ [⟨.update, found, s.frame⟩]
        network := if ok then .looping else .accepting }
    | _ => none
  | _ => none

end VncJobs

/-- Which thread a step is of. -/
def VncJobAct.ofWorker {F : Type*} : VncJobAct F → Bool
  | .take | .waitFailed | .linger | .pick | .touch _ | .finish _ _ | .signal => true
  | _ => false

/-- One step of either thread. `ExitProcess` stops them both. -/
def vncJobStep {F : Type*} (s : VncJobs F) (act : VncJobAct F) : Option (VncJobs F) :=
  if s.network matches .ended _ then none
  else if act.ofWorker then s.workerStep act
  else s.networkStep act

/-- The server before its first client. -/
def VncJobs.start (F : Type*) : VncJobs F :=
  ⟨none, none, 0, false, false, false, .waiting, .accepting, [], [], []⟩

end V9xRemote
