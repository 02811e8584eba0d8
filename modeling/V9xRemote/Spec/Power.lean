import V9xRemote.Spec.Promote

/-!
# Restarts and their proof

`src/guest/power.c` and the boot counter of `src/guest/agent.c`, with the hosts that
wait for a restart (`wait_for_reboot`, `mcp/v9x_mcp.py`). `powerStep` is one thing that
happens to the machine or to a host, in any order. Windows may restart at any time, so
what `ExitWindowsEx` achieved shows in whether an `osRestart` follows.
-/

namespace V9xRemote

open Bytes

def statusUnsupportedOperation : UInt32 := 3

/-- The parts of `V9xAgentState` a restart is proved with. -/
structure PowerAgent where
  bootCounter : UInt32
  pendingJob : Bytes
deriving DecidableEq, Repr

/-- BOOT.DAT and PENDING.DAT. -/
structure BootFiles where
  boot : Option Bytes
  pending : Option Bytes
deriving DecidableEq, Repr

/-! ## The agent's start -/

/-- What the system says to the calls of a start; `wroteBoot` is how much of the
counter `WriteFile` put into BOOT.DAT. -/
structure StartResults where
  openBoot : Bool
  readBoot : Bool
  wroteBoot : ℕ
  openPending : Bool
  readPending : Bool
deriving DecidableEq, Repr

/-- `v9x_increment_boot_counter`: BOOT.DAT afterwards, and the counter. -/
def incrementBootCounter (boot : Option Bytes) (r : StartResults) : Option Bytes × UInt32 :=
  if !r.openBoot then (boot, 0)
  else
    let old := boot.getD []
    let value := (if r.readBoot && 4 ≤ old.length then old.readU32 0 else 0) + 1
    (some ((writeU32 value).take r.wroteBoot), value)

/-- `v9x_load_pending_job`. -/
def loadPendingJob (pending : Option Bytes) (r : StartResults) : Bytes :=
  match pending with
  | none => []
  | some file =>
    if !r.openPending || !r.readPending then []
    else
      let job := file.take 63
      if job.any fun b => b == 0 || b > 0x7f then [] else job

/-- The start of the agent. -/
def startAgent (files : BootFiles) (r : StartResults) : BootFiles × PowerAgent :=
  let (boot, counter) := incrementBootCounter files.boot r
  (⟨boot, files.pending⟩, ⟨counter, loadPendingJob files.pending r⟩)

/-! ## REBOOT, SHUTDOWN and RESET -/

inductive PowerType
  | reboot
  | shutdown
  | reset
deriving DecidableEq, Repr

inductive PowerReply
  | error (status native : UInt32) (detail : String)
  | accepted (boot : UInt32) (job : Bytes)
deriving DecidableEq, Repr

/-- What the system says to the calls of a request. -/
structure PowerResults where
  /-- `v9x_platform_is_nt` -/
  nt : Bool
  /-- `v9x_execution_any_active` -/
  executing : Bool
  privilege : CallResult
  create : CallResult
  write : CallResult
  wrote : ℕ
  flush : CallResult
  /-- the reply went out -/
  sent : Bool
deriving DecidableEq, Repr

/-- `v9x_read_job`. -/
def readJob (payload : Bytes) : Option Bytes :=
  if payload.length < 3 then none
  else
    let jobLength := (payload.readU16 0).toNat
    if jobLength = 0 || jobLength > 63 || jobLength + 2 != payload.length then none
    else
      let job := payload.drop 2
      if job.any fun b => b == 0 || b > 0x7f then none else some job

/-- `v9x_persist_job`: PENDING.DAT afterwards, and the error. -/
def persistJob (pending : Option Bytes) (job : Bytes) (r : PowerResults) : Option Bytes × Option UInt32 :=
  if !r.create.ok then (pending, some r.create.error)
  else if !r.write.ok || r.wrote != job.length then (some (job.take r.wrote), some r.write.error)
  else if !r.flush.ok then (some job, some r.flush.error)
  else (some job, none)

/-- `v9x_handle_power_message` up to its reply. -/
def handlePowerMessage (files : BootFiles) (agent : PowerAgent) (type : PowerType) (payload : Bytes)
    (r : PowerResults) : BootFiles × PowerAgent × PowerReply :=
  if type = .reset && r.nt then
    (files, agent, .error statusUnsupportedOperation 0 "reset needs Windows 9x")
  else if r.executing then (files, agent, .error statusBusy 0 "execution active")
  else
    match readJob payload with
    | none => (files, agent, .error statusInvalidPayload 87 "invalid resume token")
    | some job =>
      if !r.privilege.ok then
        (files, agent, .error statusAccessDenied r.privilege.error "shutdown privilege unavailable")
      else
        match persistJob files.pending job r with
        | (pending, some native) =>
          ({ files with pending := pending }, agent,
            .error statusIoFailed native "resume token persistence failed")
        | (pending, none) =>
          ({ files with pending := pending }, { agent with pendingJob := job },
            .accepted agent.bootCounter job)

/-! ## The machine and its hosts -/

/-- A host in `wait_for_reboot`; `since` is how often Windows had been restarted when
the agent accepted the request. -/
structure RebootWait where
  oldBoot : UInt32
  job : Bytes
  since : ℕ
deriving DecidableEq, Repr

/-- The machine and its hosts: how often Windows was restarted, the boot counter each
open connection was greeted with, the waits, and each wait that returned with the
restarts at that time. -/
structure PowerState where
  restarts : ℕ
  files : BootFiles
  agent : Option PowerAgent
  conns : List UInt32
  waits : List RebootWait
  proven : List (RebootWait × ℕ)
deriving DecidableEq, Repr

/-- A machine that is off, with what is on its disk. -/
def PowerState.start (files : BootFiles) : PowerState := ⟨0, files, none, [], [], []⟩

inductive PowerAct
  /-- Windows starts again, whatever brought it down -/
  | osRestart
  /-- the agent's process ends: a tray restart, a hot update, a crash -/
  | agentEnds
  /-- an agent's process starts: at boot, or relaunched -/
  | agentStarts (results : StartResults)
  /-- a host connects and is greeted -/
  | connect
  /-- a host's request on an open connection -/
  | request (conn : ℕ) (type : PowerType) (payload : Bytes) (results : PowerResults)
  /-- one turn of a wait that reaches an agent -/
  | poll (wait : ℕ)
deriving DecidableEq, Repr

namespace PowerState

/-- A request; with the agent's acceptance the host goes on to wait. -/
def request (s : PowerState) (agent : PowerAgent) (oldBoot : UInt32) (type : PowerType) (payload : Bytes)
    (r : PowerResults) : PowerState :=
  match handlePowerMessage s.files agent type payload r with
  | (files, agent, .error _ _ _) => { s with files := files, agent := some agent }
  | (files, agent, .accepted _ job) =>
    { s with
      files := files, agent := some agent,
      waits := if r.sent && type != .shutdown then s.waits ++ [⟨oldBoot, job, s.restarts⟩] else s.waits }

/-- `wait_for_reboot`, one greeting. -/
def poll (s : PowerState) (agent : PowerAgent) (i : ℕ) (wait : RebootWait) : PowerState :=
  if agent.bootCounter != wait.oldBoot && agent.pendingJob == wait.job then
    { s with waits := s.waits.eraseIdx i, proven := s.proven ++ [(wait, s.restarts)] }
  else s

end PowerState

/-- **One thing that happens to the machine or a host.** -/
def powerStep (s : PowerState) : PowerAct → Option PowerState
  | .osRestart => some { s with restarts := s.restarts + 1, agent := none, conns := [] }
  | .agentEnds => some { s with agent := none, conns := [] }
  | .agentStarts r =>
    match s.agent with
    -- the mutex keeps a second agent out
    | some _ => none
    | none =>
      let (files, agent) := startAgent s.files r
      some { s with files := files, agent := some agent }
  | .connect =>
    match s.agent with
    | some agent => some { s with conns := s.conns ++ [agent.bootCounter] }
    | none => none
  | .request conn type payload r =>
    match s.agent, s.conns[conn]? with
    | some agent, some oldBoot => some (s.request agent oldBoot type payload r)
    | _, _ => none
  | .poll wait =>
    match s.agent, s.waits[wait]? with
    | some agent, some w => some (s.poll agent wait w)
    | _, _ => none

end V9xRemote
