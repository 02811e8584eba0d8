import V9xRemote.Spec.Power
import V9xRemote.Lib.Trace

/-!
# Reboot proof

A changed counter and the echoed token show a new agent, not a new Windows session:
the token stays in PENDING.DAT when the restart does not happen, and the counter
advances at every start of the agent. `RestartClear` says that no agent starts in a
Windows session whose agent accepted a request that is still waited for; then a wait
that returns has seen a restart. Each step that is not clear leads to a wait that
returns without one.
-/

namespace V9xRemote

open Bytes Trace

variable {s s' : PowerState} {a : PowerAct} {files : BootFiles}

/-! ## What a step can do -/

/-- A request leaves the counter, and adds at most one wait, with the token it carried. -/
theorem handlePowerMessage_cases (files : BootFiles) (agent : PowerAgent) (type : PowerType) (payload : Bytes)
    (r : PowerResults) :
    (∃ files' status native detail,
      handlePowerMessage files agent type payload r = (files', agent, .error status native detail)) ∨
    ∃ pending job, readJob payload = some job ∧ handlePowerMessage files agent type payload r =
      ({ files with pending := pending }, { agent with pendingJob := job }, .accepted agent.bootCounter job) := by
  unfold handlePowerMessage
  split
  · exact .inl ⟨_, _, _, _, rfl⟩
  split
  · exact .inl ⟨_, _, _, _, rfl⟩
  split
  · exact .inl ⟨_, _, _, _, rfl⟩
  rename_i job hjob
  split
  · exact .inl ⟨_, _, _, _, rfl⟩
  split
  · exact .inl ⟨_, _, _, _, rfl⟩
  · rename_i pending hpersist
    exact .inr ⟨pending, job, hjob, rfl⟩

/-- What a request does to the state. -/
structure RequestEffect (s : PowerState) (agent : PowerAgent) (oldBoot : UInt32) (payload : Bytes)
    (s' : PowerState) : Prop where
  restarts : s'.restarts = s.restarts
  conns : s'.conns = s.conns
  proven : s'.proven = s.proven
  agent : ∃ agent', s'.agent = some agent' ∧ agent'.bootCounter = agent.bootCounter
  waits : s'.waits = s.waits ∨
    ∃ job, readJob payload = some job ∧ s'.waits = s.waits ++ [⟨oldBoot, job, s.restarts⟩]

theorem request_effect (s : PowerState) (agent : PowerAgent) (oldBoot : UInt32) (type : PowerType)
    (payload : Bytes) (r : PowerResults) :
    RequestEffect s agent oldBoot payload (s.request agent oldBoot type payload r) := by
  unfold PowerState.request
  obtain ⟨files', status, native, detail, h⟩ | ⟨pending, job, hjob, h⟩ :=
    handlePowerMessage_cases s.files agent type payload r
  · rw [h]
    exact ⟨rfl, rfl, rfl, ⟨agent, rfl, rfl⟩, .inl rfl⟩
  · rw [h]
    refine ⟨rfl, rfl, rfl, ⟨_, rfl, rfl⟩, ?_⟩
    dsimp only
    split
    · exact .inr ⟨job, hjob, rfl⟩
    · exact .inl rfl

/-- What a step can do. -/
inductive PowerEffect (s : PowerState) : PowerAct → PowerState → Prop
  | osRestart : PowerEffect s .osRestart { s with restarts := s.restarts + 1, agent := none, conns := [] }
  | agentEnds : PowerEffect s .agentEnds { s with agent := none, conns := [] }
  | agentStarts (r : StartResults) (hoff : s.agent = none) :
    PowerEffect s (.agentStarts r)
      { s with files := (startAgent s.files r).1, agent := some (startAgent s.files r).2 }
  | connect (agent : PowerAgent) (hagent : s.agent = some agent) :
    PowerEffect s .connect { s with conns := s.conns ++ [agent.bootCounter] }
  | request (conn : ℕ) (type : PowerType) (payload : Bytes) (r : PowerResults) (agent : PowerAgent)
      (oldBoot : UInt32) (s' : PowerState) (hagent : s.agent = some agent) (hconn : oldBoot ∈ s.conns)
      (heffect : RequestEffect s agent oldBoot payload s') :
    PowerEffect s (.request conn type payload r) s'
  | proof (i : ℕ) (agent : PowerAgent) (w : RebootWait) (hagent : s.agent = some agent)
      (hw : w ∈ s.waits) (hboot : agent.bootCounter ≠ w.oldBoot) (hjob : agent.pendingJob = w.job) :
    PowerEffect s (.poll i) { s with waits := s.waits.eraseIdx i, proven := s.proven ++ [(w, s.restarts)] }
  | noProof (i : ℕ) : PowerEffect s (.poll i) s

theorem power_effect (h : powerStep s a = some s') : PowerEffect s a s' := by
  cases a with
  | osRestart => obtain rfl := Option.some.inj h; exact .osRestart
  | agentEnds => obtain rfl := Option.some.inj h; exact .agentEnds
  | agentStarts r =>
    simp only [powerStep] at h
    split at h
    · cases h
    rename_i hoff
    obtain rfl := Option.some.inj h
    exact .agentStarts r hoff
  | connect =>
    simp only [powerStep] at h
    split at h
    · rename_i agent hagent
      obtain rfl := Option.some.inj h
      exact .connect agent hagent
    · cases h
  | request conn type payload r =>
    simp only [powerStep] at h
    split at h
    · rename_i agent oldBoot hagent hconn
      obtain rfl := Option.some.inj h
      exact .request conn type payload r agent oldBoot _ hagent (List.mem_of_getElem? hconn)
        (request_effect s agent oldBoot type payload r)
    · cases h
  | poll i =>
    simp only [powerStep] at h
    split at h
    · rename_i agent w hagent hw
      obtain rfl := Option.some.inj h
      unfold PowerState.poll
      split
      · rename_i hproof
        obtain ⟨hboot, hjob⟩ : agent.bootCounter ≠ w.oldBoot ∧ agent.pendingJob = w.job := by
          simpa using hproof
        exact .proof i agent w hagent (List.mem_of_getElem? hw) hboot hjob
      · exact .noProof i
    · cases h

/-! ## Invariants -/

/-- In every run: each open connection was greeted by the agent that runs, and a wait's
request was accepted in this Windows session or an earlier one, with a token of its own. -/
structure PowerInv (s : PowerState) : Prop where
  off : s.agent = none → s.conns = []
  greeted : ∀ agent, s.agent = some agent → ∀ c ∈ s.conns, c = agent.bootCounter
  since : ∀ w ∈ s.waits, w.since ≤ s.restarts
  token : ∀ w ∈ s.waits, ∃ payload, readJob payload = some w.job

theorem powerInv_start : PowerInv (.start files) :=
  ⟨(fun _ => rfl), (fun _ h => by cases h), (fun _ h => by cases h), (fun _ h => by cases h)⟩

theorem powerInv_step (hs : PowerInv s) (h : powerStep s a = some s') : PowerInv s' := by
  cases power_effect h with
  | osRestart =>
    exact ⟨(fun _ => rfl), (fun _ h => by cases h), (fun w hw => Nat.le_succ_of_le (hs.since w hw)), hs.token⟩
  | agentEnds => exact ⟨(fun _ => rfl), (fun _ h => by cases h), hs.since, hs.token⟩
  | agentStarts r hoff =>
    refine ⟨(fun h => by cases h), (fun agent _ c hc => ?_), hs.since, hs.token⟩
    rw [hs.off hoff] at hc
    cases hc
  | connect agent hagent =>
    refine ⟨(fun hoff => ?_), (fun agent' hagent' c hc => ?_), hs.since, hs.token⟩
    · have := hagent.symm.trans hoff
      cases this
    · obtain rfl := Option.some.inj (hagent.symm.trans hagent')
      rcases List.mem_append.1 hc with hc | hc
      · exact hs.greeted agent hagent c hc
      · exact List.mem_singleton.1 hc
  | request conn type payload r agent oldBoot s' hagent hconn heffect =>
    obtain ⟨agent', hagent', hboot⟩ := heffect.agent
    refine ⟨(fun hoff => ?_), (fun b hb c hc => ?_), (fun w hw => ?_), (fun w hw => ?_)⟩
    · rw [hagent'] at hoff
      cases hoff
    · obtain rfl := Option.some.inj (hagent'.symm.trans hb)
      rw [heffect.conns] at hc
      exact (hs.greeted agent hagent c hc).trans hboot.symm
    · rw [heffect.restarts]
      rcases heffect.waits with hwaits | ⟨job, -, hwaits⟩
      · exact hs.since w (hwaits ▸ hw)
      · rw [hwaits] at hw
        rcases List.mem_append.1 hw with hw | hw
        · exact hs.since w hw
        · rw [List.mem_singleton.1 hw]
    · rcases heffect.waits with hwaits | ⟨job, hjob, hwaits⟩
      · exact hs.token w (hwaits ▸ hw)
      · rw [hwaits] at hw
        rcases List.mem_append.1 hw with hw | hw
        · exact hs.token w hw
        · rw [List.mem_singleton.1 hw]
          exact ⟨payload, hjob⟩
  | proof i agent w hagent hw hboot hjob =>
    exact ⟨hs.off, hs.greeted, fun w hw => hs.since w (List.mem_of_mem_eraseIdx hw),
      fun w hw => hs.token w (List.mem_of_mem_eraseIdx hw)⟩
  | noProof i => exact hs

/-- No agent starts in a Windows session in which a request was accepted that is still
waited for. -/
def RestartClear (s : PowerState) : PowerAct → Prop
  | .agentStarts _ => ∀ w ∈ s.waits, w.since < s.restarts
  | _ => True

instance (s : PowerState) : ∀ a, Decidable (RestartClear s a)
  | .agentStarts _ => inferInstanceAs (Decidable (∀ w ∈ s.waits, w.since < s.restarts))
  | .osRestart | .agentEnds | .connect | .request _ _ _ _ | .poll _ => inferInstanceAs (Decidable True)

/-- Under `RestartClear`: where Windows has not restarted since, the agent that accepted
is the one that runs, and every wait that returned has seen a restart. -/
structure ProofInv (s : PowerState) : Prop extends PowerInv s where
  same : ∀ w ∈ s.waits, w.since = s.restarts → ∀ agent, s.agent = some agent → agent.bootCounter = w.oldBoot
  proven : ∀ p ∈ s.proven, p.1.since < p.2

theorem proofInv_start : ProofInv (.start files) :=
  ⟨powerInv_start, (fun _ h => by cases h), (fun _ h => by cases h)⟩

theorem proofInv_step (hs : ProofInv s) (hc : RestartClear s a) (h : powerStep s a = some s') : ProofInv s' := by
  refine { powerInv_step hs.toPowerInv h with same := ?_, proven := ?_ }
  · intro w hw hsince b hb
    cases power_effect h with
    | osRestart => cases hb
    | agentEnds => cases hb
    | agentStarts r hoff =>
      have hlt := hc w hw
      exact absurd hsince (Nat.ne_of_lt hlt)
    | connect agent hagent => exact hs.same w hw hsince b hb
    | request conn type payload r agent oldBoot s' hagent hconn heffect =>
      obtain ⟨agent', hagent', hboot⟩ := heffect.agent
      obtain rfl := Option.some.inj (hagent'.symm.trans hb)
      rw [heffect.restarts] at hsince
      rw [hboot]
      rcases heffect.waits with hwaits | ⟨job, -, hwaits⟩
      · exact hs.same w (hwaits ▸ hw) hsince agent hagent
      · rw [hwaits] at hw
        rcases List.mem_append.1 hw with hw | hw
        · exact hs.same w hw hsince agent hagent
        · -- the request came on a connection this agent greeted
          rw [List.mem_singleton.1 hw]
          exact (hs.greeted agent hagent oldBoot hconn).symm
    | proof i agent w' hagent hw' hboot hjob =>
      exact hs.same w (List.mem_of_mem_eraseIdx hw) hsince b hb
    | noProof i => exact hs.same w hw hsince b hb
  · intro p hp
    cases power_effect h with
    | osRestart => exact hs.proven p hp
    | agentEnds => exact hs.proven p hp
    | agentStarts r hoff => exact hs.proven p hp
    | connect agent hagent => exact hs.proven p hp
    | request conn type payload r agent oldBoot s' hagent hconn heffect => exact hs.proven p (heffect.proven ▸ hp)
    | proof i agent w hagent hw hboot hjob =>
      rcases List.mem_append.1 hp with hp | hp
      · exact hs.proven p hp
      · obtain rfl := List.mem_singleton.1 hp
        -- the same session would mean the same agent, so the same counter
        rcases Nat.lt_or_eq_of_le (hs.since w hw) with hlt | heq
        · exact hlt
        · exact absurd (hs.same w hw heq agent hagent) hboot
    | noProof i => exact hs.proven p hp

/-- **Reboot proof, where it works.** In a run that meets `RestartClear` every wait that
returned was answered after a restart of Windows behind the acceptance. -/
theorem reboot_proof_sound {as : List PowerAct} (hc : Under powerStep RestartClear (.start files) as)
    (h : exec powerStep (.start files) as = some s) : ∀ p ∈ s.proven, p.1.since < p.2 :=
  (exec_inv_under (fun _ _ _ hs hc' h' => proofInv_step hs hc' h') proofInv_start hc h).proven

def powerDisk : BootFiles := ⟨none, none⟩

def startOk : StartResults := ⟨true, true, 4, true, true⟩

/-- A request whose calls all succeed. -/
def powerOk (job : Bytes) : PowerResults :=
  ⟨false, false, ⟨true, 0⟩, ⟨true, 0⟩, ⟨true, 0⟩, job.length, ⟨true, 0⟩, true⟩

def tokenDemo : Bytes := ascii "job-1"

/-- A restart that happens. -/
def restartRun : List PowerAct :=
  [.agentStarts startOk, .connect, .request 0 .reboot ([5, 0] ++ tokenDemo) (powerOk tokenDemo), .osRestart,
    .agentStarts startOk, .poll 0]

theorem reboot_proof_sound_demo : ∃ s, exec powerStep (.start powerDisk) restartRun = some s ∧
    s.proven ≠ [] ∧ ∀ p ∈ s.proven, p.1.since < p.2 := by
  have hrun : (exec powerStep (.start powerDisk) restartRun).map (·.proven) =
      some [(⟨1, tokenDemo, 0⟩, 1)] := by decide
  obtain ⟨s, hs, hproven⟩ := Option.map_eq_some_iff.1 hrun
  exact ⟨s, hs, by simp [hproven], reboot_proof_sound (by decide) hs⟩

/-! ## Where it does not -/

/-- Two starts whose calls succeed have different counters. -/
theorem incrementBootCounter_twice (boot : Option Bytes) :
    (incrementBootCounter (incrementBootCounter boot startOk).1 startOk).2 ≠ (incrementBootCounter boot startOk).2 := by
  have hfile : (incrementBootCounter boot startOk).1 = some (writeU32 (incrementBootCounter boot startOk).2) := rfl
  rw [hfile]
  generalize (incrementBootCounter boot startOk).2 = v
  have hread : (writeU32 v).readU32 0 = v := by simpa using readU32_writeU32 v []
  have hnext : (incrementBootCounter (some (writeU32 v)) startOk).2 = (writeU32 v).readU32 0 + 1 := rfl
  rw [hnext, hread]
  intro h
  have := congrArg UInt32.toNat h
  rw [UInt32.toNat_add, UInt32.toNat_one] at this
  have hv := v.toNat_lt
  omega

/-- An agent can be relaunched until its counter is another one. -/
theorem relaunch_changes_counter (s : PowerState) (k : UInt32) : ∃ bs t agent,
    exec powerStep s bs = some t ∧ t.agent = some agent ∧ agent.bootCounter ≠ k ∧ t.conns = [] ∧
      t.waits = s.waits ∧ t.restarts = s.restarts := by
  by_cases hk : (incrementBootCounter s.files.boot startOk).2 = k
  · refine ⟨[.agentEnds, .agentStarts startOk, .agentEnds, .agentStarts startOk], _, _, rfl, rfl, ?_, rfl, rfl, rfl⟩
    rw [← hk]
    exact incrementBootCounter_twice s.files.boot
  · exact ⟨[.agentEnds, .agentStarts startOk], _, _, rfl, rfl, hk, rfl, rfl, rfl⟩

/-- An agent with another counter that is asked for a restart with a wait's token
proves that wait's restart. -/
theorem same_token_proves {agent : PowerAgent} {w : RebootWait} (hagent : s.agent = some agent)
    (hconns : s.conns = []) (hw : w ∈ s.waits) (hboot : agent.bootCounter ≠ w.oldBoot)
    (htoken : ∃ payload, readJob payload = some w.job) :
    ∃ bs t, exec powerStep s bs = some t ∧ (w, s.restarts) ∈ t.proven := by
  obtain ⟨payload, hjob⟩ := htoken
  obtain ⟨i, hi, hget⟩ := List.getElem_of_mem hw
  -- a request whose reply is lost still leaves its token
  let r : PowerResults := { powerOk w.job with sent := false }
  have hreq : handlePowerMessage s.files agent .reboot payload r =
      ({ s.files with pending := some w.job }, { agent with pendingJob := w.job },
        .accepted agent.bootCounter w.job) := by
    simp [handlePowerMessage, hjob, r, powerOk, persistJob]
  refine ⟨[.connect, .request 0 .reboot payload r, .poll i],
    { s with
      files := { s.files with pending := some w.job }, agent := some { agent with pendingJob := w.job },
      conns := [agent.bootCounter], waits := s.waits.eraseIdx i, proven := s.proven ++ [(w, s.restarts)] }, ?_, ?_⟩
  · have hpoll : s.waits[i]? = some w := by rw [List.getElem?_eq_getElem hi, hget]
    simp [powerStep, hagent, hconns, PowerState.request, hreq, hpoll, PowerState.poll, r, hboot]
  · simp

/-- **A start that is not clear leads to a wait that returns without a restart.** -/
theorem unclear_start_proves {as : List PowerAct} (h : exec powerStep (.start files) as = some s)
    (hstep : powerStep s a = some s') (hc : ¬RestartClear s a) :
    ∃ w ∈ s.waits, ∃ bs t, exec powerStep s' bs = some t ∧ (w, w.since) ∈ t.proven := by
  have hinv := exec_inv (fun _ _ _ hs h' => powerInv_step hs h') powerInv_start h
  cases power_effect hstep with
  | agentStarts r hoff =>
    simp only [RestartClear, not_forall] at hc
    obtain ⟨w, hw, hlt⟩ := hc
    have hsince : w.since = s.restarts := Nat.le_antisymm (hinv.since w hw) (Nat.le_of_not_lt hlt)
    obtain ⟨bs, t, agent, hbs, hagent, hboot, hconns, hwaits, hrestarts⟩ := relaunch_changes_counter
      { s with files := (startAgent s.files r).1, agent := some (startAgent s.files r).2 } w.oldBoot
    obtain ⟨cs, u, hcs, hproven⟩ :=
      same_token_proves hagent hconns (hwaits ▸ hw : w ∈ t.waits) hboot (hinv.token w hw)
    refine ⟨w, hw, bs ++ cs, u, ?_, ?_⟩
    · rw [exec_append, hbs]
      exact hcs
    · rw [hsince]
      rw [hrestarts] at hproven
      exact hproven
  | osRestart | agentEnds | connect | request | proof | noProof => exact absurd trivial hc

/-- `ExitWindowsEx` fails and the owner restarts the agent from the tray. -/
def trayRun : List PowerAct :=
  [.agentStarts startOk, .connect, .request 0 .reboot ([5, 0] ++ tokenDemo) (powerOk tokenDemo), .agentEnds,
    .agentStarts startOk, .poll 0]

theorem tray_restart_passes_as_reboot : ¬∀ files as s, exec powerStep (.start files) as = some s →
    ∀ p ∈ s.proven, p.1.since < p.2 := by
  intro h
  have hrun : (exec powerStep (.start powerDisk) trayRun).map (·.proven) =
      some [(⟨1, tokenDemo, 0⟩, 0)] := by decide
  obtain ⟨s, hs, hproven⟩ := Option.map_eq_some_iff.1 hrun
  have := h powerDisk trayRun s hs (⟨1, tokenDemo, 0⟩, 0) (by simp [hproven])
  exact absurd this (by decide)

end V9xRemote
