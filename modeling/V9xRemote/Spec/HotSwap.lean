import V9xRemote.Lib.Bytes
import V9xRemote.Lib.FileStore

/-!
# The hot swap (`v9x_hotswap_run`, `src/guest/update.c`)

The swapper, one system call at a time. What the system answers is the action, so
a run that stops anywhere is a run that was cut off there. Logging, the registry
entry and the sleeps, which touch none of these files, are left out.
-/

namespace V9xRemote

/-- The files of `C:\V9XREMOTE` a swap works on. -/
inductive SwapFile
  /-- `V9XAGNT.EXE` -/
  | agent
  /-- `V9XAGNT.OLD` -/
  | agentOld
  /-- `V9XNEW.EXE` -/
  | agentNew
  /-- `V9XSHOT.EXE` -/
  | helper
  /-- `V9XSNEW.EXE` -/
  | helperNew
deriving DecidableEq, Repr

abbrev SwapDir := FileStore SwapFile Bytes

def hotswapWaitMs : ℕ := 120000
def hotswapPollMs : ℕ := 250

/-- The next call. -/
inductive SwapPc
  /-- `GetFileAttributesA` of the agent, after `waited` ms -/
  | probe (waited : ℕ)
  /-- `DeleteFileA` of the agent's old name -/
  | clearOld (waited : ℕ)
  /-- `MoveFileA` of the agent to its old name -/
  | setAside (waited : ℕ)
  /-- `OpenMutexA` of the agent's mutex, on NT -/
  | mutex (waited : ℕ)
  /-- `MoveFileA` back, the old agent being still there -/
  | putBack
  /-- `CopyFileA` of the new agent -/
  | copyAgent
  /-- `MoveFileA` back, the copy having failed -/
  | restore
  /-- `DeleteFileA` of the old agent -/
  | dropOld
  /-- `CopyFileA` of the new helper -/
  | copyHelper
  /-- `DeleteFileA` of the staged helper -/
  | dropHelperNew
  /-- `v9x_spawn` of the agent -/
  | relaunch
  | returned (code : ℕ)
deriving DecidableEq, Repr

/-- What the system says. -/
inductive SwapAct
  /-- to a call other than a copy: whether it lets it through (`OpenMutexA`: whether
  the mutex is still there) -/
  | call (ok : Bool)
  /-- the copy is done -/
  | copied
  /-- the copy fails and the target is as it was -/
  | uncopied
  /-- the copy fails and this is left at the target -/
  | copiedInto (left : Option Bytes)
deriving DecidableEq, Repr

structure Swap where
  dir : SwapDir
  pc : SwapPc

/-- Entry into `v9x_hotswap_run`. -/
def Swap.start (dir : SwapDir) : Swap := ⟨dir, .probe 0⟩

/-- A copy: the directory after it, and whether it worked. -/
def SwapDir.copy (dir : SwapDir) (source target : SwapFile) : SwapAct → Option (SwapDir × Bool)
  | .copied => (dir source).map fun image => (dir.put target image, true)
  | .uncopied => some (dir, false)
  | .copiedInto left => some (Function.update dir target left, false)
  | .call _ => none

/-- **One call of the swapper.** -/
def swapStep (isNt : Bool) (s : Swap) (a : SwapAct) : Option Swap :=
  match s.pc, a with
  | .probe waited, .call ok =>
    if ok && (s.dir .agent).isSome then some { s with pc := .clearOld waited }
    else some { s with pc := if isNt then .mutex waited else .copyAgent }
  | .clearOld waited, .call ok => some ⟨(s.dir.delete .agentOld ok).1, .setAside waited⟩
  | .setAside waited, .call ok =>
    match s.dir.move .agent .agentOld ok with
    | (dir, true) => some ⟨dir, if isNt then .mutex waited else .copyAgent⟩
    | (dir, false) =>
      some ⟨dir, if waited ≥ hotswapWaitMs then .returned 1 else .probe (waited + hotswapPollMs)⟩
  | .mutex waited, .call ok =>
    if !ok then some { s with pc := .copyAgent }
    else if waited ≥ hotswapWaitMs then some { s with pc := .putBack }
    else some { s with pc := .mutex (waited + hotswapPollMs) }
  | .putBack, .call ok => some ⟨(s.dir.move .agentOld .agent ok).1, .returned 1⟩
  | .copyAgent, a =>
    (s.dir.copy .agentNew .agent a).map fun out => ⟨out.1, if out.2 then .dropOld else .restore⟩
  | .restore, .call ok => some ⟨(s.dir.move .agentOld .agent ok).1, .returned 2⟩
  | .dropOld, .call ok => some ⟨(s.dir.delete .agentOld ok).1, .copyHelper⟩
  | .copyHelper, a =>
    (s.dir.copy .helperNew .helper a).map fun out => ⟨out.1, if out.2 then .dropHelperNew else .relaunch⟩
  | .dropHelperNew, .call ok => some ⟨(s.dir.delete .helperNew ok).1, .relaunch⟩
  | .relaunch, .call ok => some { s with pc := .returned (if ok then 0 else 3) }
  | _, _ => none

end V9xRemote
