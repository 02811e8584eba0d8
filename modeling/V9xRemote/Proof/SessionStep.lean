import V9xRemote.Lib.Trace
import V9xRemote.Spec.Remote

/-!
# What one step of a session can do

Six kinds of step touch the loopback connection or decide what goes into it; all
others are `Quiet`. `session_effect` says so once, and every invariant of a session
is a case analysis on it.
-/

namespace V9xRemote

namespace Pc

/-- Nothing of a batch is in hand. -/
def Idle : Pc → Prop
  | .batch _ _ => False
  | .feed _ _ _ _ => False
  | _ => True

/-- The session has ended. -/
def Stopped : Pc → Prop
  | .finished => True
  | .closing => True
  | .over => True
  | _ => False

theorem Stopped.idle {pc : Pc} (h : pc.Stopped) : pc.Idle := by
  cases pc <;> trivial

end Pc

variable {verify : Verify} {s s' : Session} {a : Act}

/-- The step sends nothing and takes up nothing to send: the connection, the
identity but for a forgotten machine id, the counter and the flag stay. -/
structure Quiet (s s' : Session) : Prop where
  tunnel : s'.tunnel = s.tunnel
  part : s'.part = s.part
  expected : s'.expected = s.expected
  paused : s'.paused = s.paused
  installId : s'.installId = s.installId
  nonce : s'.nonce = s.nonce
  session : s'.session = s.session
  machine : s'.remote.machine = s.remote.machine ∨ s'.remote.machine = []
  idle : s'.pc.Idle
  stopped : s.pc.Stopped → s'.pc.Stopped ∧ s'.reason = s.reason

/-- A step that changes neither identity, connection, counter nor flag and leads
from a running session to an idle point is quiet. -/
theorem quiet_of_eq (hpc : s'.pc.Idle) (hrun : ¬s.pc.Stopped) (ht : s'.tunnel = s.tunnel)
    (hp : s'.part = s.part) (he : s'.expected = s.expected) (hf : s'.paused = s.paused)
    (hi : s'.installId = s.installId) (hn : s'.nonce = s.nonce) (hs : s'.session = s.session)
    (hm : s'.remote.machine = s.remote.machine ∨ s'.remote.machine = []) : Quiet s s' :=
  ⟨ht, hp, he, hf, hi, hn, hs, hm, hpc, fun h => absurd h hrun⟩

namespace Session

theorem stop_quiet (hrun : ¬s.pc.Stopped) (reason : String) : Quiet s (s.stop reason) :=
  quiet_of_eq trivial hrun rfl rfl rfl rfl rfl rfl rfl (Or.inl rfl)

theorem closedByServer_quiet (hrun : ¬s.pc.Stopped) : Quiet s s.closedByServer :=
  quiet_of_eq trivial hrun rfl rfl rfl rfl rfl rfl rfl (Or.inl rfl)

/-- A call changes the point and the list of requests only. -/
theorem call_quiet {method op : String} {query body : Bytes} {next skip : Pc} (hn : next.Idle)
    (hs : skip.Idle) (hrun : ¬s.pc.Stopped) : Quiet s (s.call method op query body next skip) := by
  unfold call
  split
  · exact quiet_of_eq hn hrun rfl rfl rfl rfl rfl rfl rfl (Or.inl rfl)
  · exact quiet_of_eq hs hrun rfl rfl rfl rfl rfl rfl rfl (Or.inl rfl)

theorem enter_quiet (hrun : ¬s.pc.Stopped) (loopback : Bool) : Quiet s (s.enter loopback) := by
  unfold enter
  split
  · exact call_quiet trivial trivial hrun
  split
  · exact call_quiet trivial trivial hrun
  · exact call_quiet trivial trivial hrun

theorem accepted_quiet (hrun : ¬s.pc.Stopped) (response : Option HttpResponse) :
    Quiet s (s.accepted response) := by
  unfold accepted
  split
  · split
    · exact quiet_of_eq trivial hrun rfl rfl rfl rfl rfl rfl rfl (Or.inl rfl)
    · exact quiet_of_eq trivial hrun rfl rfl rfl rfl rfl rfl rfl (Or.inl rfl)
  · exact quiet_of_eq trivial hrun rfl rfl rfl rfl rfl rfl rfl (Or.inl rfl)

/-- Clearing the two progress flags before a quiet step keeps it quiet. -/
theorem quiet_of_cleared (h : Quiet { s with moved := false, fed := false } s') : Quiet s s' :=
  ⟨h.tunnel, h.part, h.expected, h.paused, h.installId, h.nonce, h.session, h.machine, h.idle, h.stopped⟩

theorem test_quiet (hrun : ¬s.pc.Stopped) : Quiet s s.test := by
  have hcleared : ¬({ s with moved := false, fed := false } : Session).pc.Stopped := hrun
  unfold test
  split
  · exact quiet_of_cleared (stop_quiet hcleared "paused")
  · exact quiet_of_cleared (call_quiet trivial trivial hcleared)

theorem upTry_quiet (hrun : ¬s.pc.Stopped) (bytes : Bytes) (tries : ℕ) :
    Quiet s (s.upTry bytes tries) := by
  unfold upTry
  dsimp only
  split
  · exact quiet_of_eq trivial hrun rfl rfl rfl rfl rfl rfl rfl (Or.inl rfl)
  · exact stop_quiet hrun "up-failed"

theorem drainResult_quiet (hrun : ¬s.pc.Stopped) {bytes : Option Bytes}
    (h : s.drainResult bytes = some s') : Quiet s s' := by
  unfold drainResult at h
  split at h
  · exact Option.some.inj h ▸ stop_quiet hrun "loopback-closed"
  split at h
  · exact Option.some.inj h ▸
      quiet_of_eq trivial hrun rfl rfl rfl rfl rfl rfl rfl (Or.inl rfl)
  split at h
  · exact absurd h (by simp)
  · exact Option.some.inj h ▸ upTry_quiet hrun _ 0

theorem upReply_quiet (hrun : ¬s.pc.Stopped) (bytes : Bytes) (tries : ℕ)
    (response : Option HttpResponse) : Quiet s (s.upReply bytes tries response) := by
  unfold upReply
  split
  · split
    · exact closedByServer_quiet hrun
    · exact quiet_of_eq trivial hrun rfl rfl rfl rfl rfl rfl rfl (Or.inl rfl)
  · split
    · exact stop_quiet hrun "up-failed"
    · exact upTry_quiet hrun bytes _

theorem beat_quiet (hrun : ¬s.pc.Stopped) (due : Bool) : Quiet s (s.beat due) := by
  unfold beat
  split
  · exact quiet_of_eq trivial hrun rfl rfl rfl rfl rfl rfl rfl (Or.inl rfl)
  split
  · exact quiet_of_eq trivial hrun rfl rfl rfl rfl rfl rfl rfl (Or.inl rfl)
  split
  · exact quiet_of_eq trivial hrun rfl rfl rfl rfl rfl rfl rfl (Or.inl rfl)
  · exact quiet_of_eq trivial hrun rfl rfl rfl rfl rfl rfl rfl (Or.inl rfl)

/-- A poll may forget the machine id; it never makes up another one. -/
theorem remotePoll_machine (r : Remote) (response : Option HttpResponse) :
    (remotePoll r response).2.machine = r.machine ∨ (remotePoll r response).2.machine = [] := by
  unfold remotePoll
  split
  · exact Or.inl rfl
  split
  · exact Or.inl rfl
  split
  · exact Or.inr rfl
  split
  · exact Or.inl rfl
  split
  · exact Or.inl rfl
  dsimp only
  split
  · exact Or.inl rfl
  · exact Or.inl rfl

theorem pollReply_quiet (hrun : ¬s.pc.Stopped) (response : Option HttpResponse) :
    Quiet s (s.pollReply response) := by
  have hm := remotePoll_machine s.remote response
  unfold pollReply
  dsimp only
  split
  · exact quiet_of_eq trivial hrun rfl rfl rfl rfl rfl rfl rfl hm
  split
  · exact quiet_of_eq trivial hrun rfl rfl rfl rfl rfl rfl rfl hm
  · exact quiet_of_eq trivial hrun rfl rfl rfl rfl rfl rfl rfl hm

theorem finish_quiet (s : Session) : Quiet s s.finish := by
  unfold finish sessionCall call
  dsimp only
  split
  · exact ⟨rfl, rfl, rfl, rfl, rfl, rfl, rfl, Or.inl rfl, trivial, fun _ => ⟨trivial, rfl⟩⟩
  split
  · exact ⟨rfl, rfl, rfl, rfl, rfl, rfl, rfl, Or.inl rfl, trivial, fun _ => ⟨trivial, rfl⟩⟩
  · exact ⟨rfl, rfl, rfl, rfl, rfl, rfl, rfl, Or.inl rfl, trivial, fun _ => ⟨trivial, rfl⟩⟩

end Session

/-- What a step does to the loopback connection. -/
inductive Effect (verify : Verify) (s : Session) : Act → Session → Prop
  /-- the owner turns the flag -/
  | tray : Effect verify s .tray { s with paused := !s.paused }
  /-- the server answers the `down` call with a batch -/
  | batch (response : HttpResponse) (hpc : s.pc = .down) :
      Effect verify s (.reply (some response)) { s with pc := .batch response.body 0 }
  /-- the next record of the batch passes the checks -/
  | accept (body : Bytes) (offset offset' : ℕ) (record : RelayRecord) (hpc : s.pc = .batch body offset)
      (hnext : relayNext body offset = .ok record offset') (hok : s.accepts verify record = true) :
      Effect verify s .next { s with pc := .feed body offset' record 0 }
  /-- `send` takes a piece of the record and leaves some -/
  | piece (body : Bytes) (offset : ℕ) (record : RelayRecord) (total count : ℕ)
      (hpc : s.pc = .feed body offset record total) (hcount : 0 < count)
      (hlt : total + count < record.length) :
      Effect verify s (.send (some count))
        { s with part := record.data.take (total + count), pc := .feed body offset record (total + count) }
  /-- `send` takes the rest of the record -/
  | whole (body : Bytes) (offset : ℕ) (record : RelayRecord) (total count : ℕ)
      (hpc : s.pc = .feed body offset record total) (hcount : 0 < count) :
      Effect verify s (.send (some count))
        { s with
          tunnel := s.tunnel ++ [record.data], part := [], expected := s.expected + 1,
          moved := true, fed := true, pc := .batch body offset }
  /-- `send` fails -/
  | broken (body : Bytes) (offset : ℕ) (record : RelayRecord) (total : ℕ)
      (hpc : s.pc = .feed body offset record total) :
      Effect verify s (.send none) (s.stop "loopback")
  /-- anything else -/
  | quiet (a : Act) (s' : Session) (hq : Quiet s s') (hsend : ∀ count, a ≠ .send count)
      (hfeed : ∀ body offset record total, s.pc ≠ .feed body offset record total) :
      Effect verify s a s'

theorem downReply_effect (hpc : s.pc = .down) (response : Option HttpResponse) :
    Effect verify s (.reply response) (s.downReply response) := by
  have hrun : ¬s.pc.Stopped := by rw [hpc]; exact id
  have hfeed : ∀ body offset record total, s.pc ≠ .feed body offset record total := by simp [hpc]
  have hdrain : Quiet s { s with pc := .drain } :=
    quiet_of_eq trivial hrun rfl rfl rfl rfl rfl rfl rfl (Or.inl rfl)
  unfold Session.downReply
  split
  · split
    · exact .quiet _ _ hdrain (by simp) hfeed
    split
    · exact .quiet _ _ (Session.closedByServer_quiet hrun) (by simp) hfeed
    · exact .batch _ hpc
  · exact .quiet _ _ hdrain (by simp) hfeed

theorem nextRecord_effect {body : Bytes} {offset : ℕ} (hpc : s.pc = .batch body offset) :
    Effect verify s .next (s.nextRecord verify body offset) := by
  have hrun : ¬s.pc.Stopped := by rw [hpc]; exact id
  have hfeed : ∀ body offset record total, s.pc ≠ .feed body offset record total := by simp [hpc]
  have hstop : Quiet s (s.stop "bad-signature") := Session.stop_quiet hrun _
  unfold Session.nextRecord
  split
  · exact .quiet _ _ (quiet_of_eq trivial hrun rfl rfl rfl rfl rfl rfl rfl (Or.inl rfl)) (by simp) hfeed
  · rename_i record offset' hnext
    split
    · rename_i hok
      exact .accept body offset offset' record hpc hnext hok
    · exact .quiet _ _ hstop (by simp) hfeed
  · exact .quiet _ _ hstop (by simp) hfeed

theorem sendPiece_effect {body : Bytes} {offset total : ℕ} {record : RelayRecord}
    (hpc : s.pc = .feed body offset record total) {count : Option ℕ}
    (h : s.sendPiece body offset record total count = some s') : Effect verify s (.send count) s' := by
  cases count with
  | none => exact Option.some.inj h ▸ .broken body offset record total hpc
  | some count =>
    simp only [Session.sendPiece] at h
    split at h
    · exact absurd h (by simp)
    rename_i hc
    simp only [Bool.or_eq_true, decide_eq_true_eq, not_or] at hc
    have hpos : 0 < count := Nat.pos_of_ne_zero hc.1
    split at h
    · rename_i hlt
      exact Option.some.inj h ▸ .piece body offset record total count hpc hpos hlt
    · exact Option.some.inj h ▸ .whole body offset record total count hpc hpos

/-- **Every step of a session has one of these effects.** -/
theorem session_effect (h : sessionStep verify s a = some s') : Effect verify s a s' := by
  cases a with
  | tray => exact Option.some.inj h ▸ .tray
  | enter loopback =>
    simp only [sessionStep] at h
    split at h
    · rename_i hpc
      exact Option.some.inj h ▸ .quiet _ _ (s.enter_quiet (by simp [hpc, Pc.Stopped]) loopback) (by simp)
        (by simp [hpc])
    · exact absurd h (by simp)
  | reply response =>
    simp only [sessionStep] at h
    split at h
    · rename_i hpc
      exact Option.some.inj h ▸ .quiet _ _ (Session.accepted_quiet (by simp [hpc, Pc.Stopped]) response)
        (by simp) (by simp [hpc])
    · rename_i hpc
      exact Option.some.inj h ▸ downReply_effect hpc response
    · rename_i hpc
      exact Option.some.inj h ▸
        .quiet _ _ (Session.upReply_quiet (by simp [hpc, Pc.Stopped]) _ _ response) (by simp) (by simp [hpc])
    · rename_i hpc
      exact Option.some.inj h ▸
        .quiet _ _ (Session.pollReply_quiet (by simp [hpc, Pc.Stopped]) response) (by simp) (by simp [hpc])
    · rename_i hpc
      exact Option.some.inj h ▸ .quiet _ _
        ⟨rfl, rfl, rfl, rfl, rfl, rfl, rfl, Or.inl rfl, trivial, fun _ => ⟨trivial, rfl⟩⟩ (by simp)
        (by simp [hpc])
    · exact absurd h (by simp)
  | test =>
    simp only [sessionStep] at h
    split at h
    · rename_i hpc
      exact Option.some.inj h ▸ .quiet _ _ (Session.test_quiet (by simp [hpc, Pc.Stopped])) (by simp)
        (by simp [hpc])
    · exact absurd h (by simp)
  | next =>
    simp only [sessionStep] at h
    split at h
    · rename_i hpc
      exact Option.some.inj h ▸ nextRecord_effect hpc
    · exact absurd h (by simp)
  | send count =>
    simp only [sessionStep] at h
    split at h
    · rename_i hpc
      exact sendPiece_effect hpc h
    · exact absurd h (by simp)
  | drained bytes =>
    simp only [sessionStep] at h
    split at h
    · rename_i hpc
      exact .quiet _ _ (Session.drainResult_quiet (by simp [hpc, Pc.Stopped]) h) (by simp) (by simp [hpc])
    · exact absurd h (by simp)
  | beat due =>
    simp only [sessionStep] at h
    split at h
    · rename_i hpc
      exact Option.some.inj h ▸ .quiet _ _ (Session.beat_quiet (by simp [hpc, Pc.Stopped]) due) (by simp)
        (by simp [hpc])
    · exact absurd h (by simp)
  | finish =>
    simp only [sessionStep] at h
    split at h
    · rename_i hpc
      exact Option.some.inj h ▸ .quiet _ _ (Session.finish_quiet s) (by simp) (by simp [hpc])
    · exact absurd h (by simp)

end V9xRemote
