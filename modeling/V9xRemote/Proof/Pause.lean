import V9xRemote.Proof.CommandIntegrity

/-!
# Pause

The flag is tested at the head of the loop only, so what the worker took up after
that test is still sent. `PauseClear` says when nothing is taken up; then a paused
session sends nothing, and each step that is not clear leads to a point from which
a paused session goes on to send.
-/

namespace V9xRemote

open Bytes Trace

namespace Session

/-- The record at `offset` of a batch would pass the checks. -/
def holds (verify : Verify) (s : Session) (body : Bytes) (offset : ℕ) : Bool :=
  match relayNext body offset with
  | .ok record _ => s.accepts verify record
  | _ => false

/-- The worker is past the flag test with a record to send. -/
def pending (verify : Verify) (s : Session) : Bool :=
  match s.pc with
  | .feed _ _ _ _ => true
  | .batch body offset => s.holds verify body offset
  | _ => false

end Session

/-- Pause is chosen while no record waits to be sent, and no batch whose first
record is acceptable arrives while paused. -/
def PauseClear (verify : Verify) (s : Session) : Act → Prop
  | .tray => s.paused = false → s.pending verify = false
  | .reply (some response) => s.paused = true → s.pc = .down → response.status = 200 →
      rtCiFind response.head (ascii "x-v9x-session-state: closed") = false →
      s.holds verify response.body 0 = false
  | _ => True

instance (verify : Verify) (s : Session) : ∀ a, Decidable (PauseClear verify s a)
  | .tray => inferInstanceAs (Decidable (s.paused = false → s.pending verify = false))
  | .reply (some response) => inferInstanceAs (Decidable (s.paused = true → s.pc = .down →
      response.status = 200 →
      rtCiFind response.head (ascii "x-v9x-session-state: closed") = false →
      s.holds verify response.body 0 = false))
  | .reply none | .enter _ | .test | .next | .send _ | .drained _ | .beat _ | .finish =>
    inferInstanceAs (Decidable True)

variable {verify : Verify} {s s' : Session} {as : List Act} {a : Act}

theorem pending_idle (h : s.pc.Idle) : s.pending verify = false := by
  unfold Session.pending
  split <;> simp_all [Pc.Idle]

/-- The flag is not part of what makes a record acceptable. -/
theorem pending_tray (s : Session) (paused : Bool) :
    ({ s with paused := paused } : Session).pending verify = s.pending verify := rfl

/-- Where a `down` reply with a batch leads. -/
theorem downReply_batch {response : HttpResponse} (hpc : s.pc = .down)
    (h : sessionStep verify s (.reply (some response)) = some { s with pc := .batch response.body 0 }) :
    response.status = 200 ∧ rtCiFind response.head (ascii "x-v9x-session-state: closed") = false := by
  simp only [sessionStep, hpc, Session.downReply, Option.some.injEq] at h
  split at h
  · simpa using congrArg Session.pc h
  rename_i hstatus
  split at h
  · simpa [Session.closedByServer] using congrArg Session.pc h
  rename_i hhead
  exact ⟨by simpa using hstatus, by simpa using hhead⟩

/-- **Under `PauseClear` a step keeps: paused, with nothing waiting to be sent.** -/
theorem pause_step (hs : s.paused = true → s.pending verify = false) (hc : PauseClear verify s a)
    (h : sessionStep verify s a = some s') : s'.paused = true → s'.pending verify = false := by
  cases session_effect h with
  | tray =>
    intro hp
    rw [pending_tray]
    exact hc (by simpa using hp)
  | batch response hpc =>
    intro hp
    obtain ⟨hstatus, hhead⟩ := downReply_batch hpc h
    exact hc hp hpc hstatus hhead
  | accept body offset offset' record hpc hnext hok =>
    intro hp
    have := hs hp
    rw [Session.pending, hpc] at this
    simp [Session.holds, hnext, hok] at this
  | piece body offset record total count hpc =>
    intro hp
    have := hs hp
    rw [Session.pending, hpc] at this
    exact absurd this (by simp)
  | whole body offset record total count hpc =>
    intro hp
    have := hs hp
    rw [Session.pending, hpc] at this
    exact absurd this (by simp)
  | broken body offset record total hpc => exact fun _ => pending_idle trivial
  | quiet _ _ hq => exact fun _ => pending_idle hq.idle

/-- With nothing waiting to be sent, a step sends nothing. -/
theorem nothing_sent (hs : s.pending verify = false) (h : sessionStep verify s a = some s') :
    (∀ count, a ≠ .send count) ∧ s'.tunnel = s.tunnel ∧ s'.part = s.part := by
  have hfeed : ∀ body offset record total, s.pc ≠ .feed body offset record total := by
    intro body offset record total hpc
    rw [Session.pending, hpc] at hs
    exact absurd hs (by simp)
  cases session_effect h with
  | tray => exact ⟨by simp, rfl, rfl⟩
  | batch => exact ⟨by simp, rfl, rfl⟩
  | accept => exact ⟨by simp, rfl, rfl⟩
  | piece _ _ _ _ _ hpc => exact absurd hpc (hfeed _ _ _ _)
  | whole _ _ _ _ _ hpc => exact absurd hpc (hfeed _ _ _ _)
  | broken _ _ _ _ hpc => exact absurd hpc (hfeed _ _ _ _)
  | quiet _ _ hq hsend => exact ⟨hsend, hq.tunnel, hq.part⟩

/-- **Pause, where it works.** In a run that meets `PauseClear` a paused session
sends nothing. -/
theorem pause_stops_commands {remote : Remote} {installId sessionId uuid : Bytes} {paused : Bool}
    (hc : Under (sessionStep verify) (PauseClear verify) (.start remote installId paused sessionId uuid) as)
    (h : exec (sessionStep verify) (.start remote installId paused sessionId uuid) as = some s)
    (hp : s.paused = true) (hstep : sessionStep verify s a = some s') :
    (∀ count, a ≠ .send count) ∧ s'.tunnel = s.tunnel ∧ s'.part = s.part := by
  have hinv : s.paused = true → s.pending verify = false :=
    exec_inv_under (I := fun s => s.paused = true → s.pending verify = false)
      (fun _ _ _ hs hc' h' => pause_step hs hc' h') (fun _ => rfl) hc h
  exact nothing_sent (hinv hp) hstep

/-- A pause in front of the flag test stops the session before it asks for a batch. -/
theorem pause_stops_commands_demo : ∃ s s',
    exec (sessionStep demoVerify) demoStart
      [.enter true, demoReply (ascii "[session]\nstatus=ok\n"), .tray] = some s ∧
    sessionStep demoVerify s .test = some s' ∧
    (∀ count, Act.test ≠ .send count) ∧ s'.tunnel = s.tunnel ∧ s'.part = s.part := by
  have hrun : (exec (sessionStep demoVerify) demoStart
      [.enter true, demoReply (ascii "[session]\nstatus=ok\n"), .tray]).map (fun s =>
        (s.paused, (sessionStep demoVerify s .test).isSome)) = some (true, true) := by
    decide +kernel
  obtain ⟨s, hs, heq⟩ := Option.map_eq_some_iff.1 hrun
  obtain ⟨hp, htest⟩ := Prod.mk.inj heq
  obtain ⟨s', hs'⟩ := Option.isSome_iff_exists.1 htest
  exact ⟨s, s', hs, hs', pause_stops_commands (by decide +kernel) hs hp hs'⟩

/-! ## Where it does not -/

/-- A record the parser answers is not empty. -/
theorem relayNext_length {batch : Bytes} {offset offset' : ℕ} {record : RelayRecord}
    (h : relayNext batch offset = .ok record offset') : 0 < record.length := by
  unfold relayNext at h
  split at h
  · cases h
  split at h
  · cases h
  split at h
  · cases h
  dsimp only at h
  split at h
  · cases h
  rename_i hlen
  simp only [Bool.or_eq_true, decide_eq_true_eq, not_or] at hlen
  obtain ⟨rfl, -⟩ := RelayNext.ok.inj h
  simp only [RelayRecord.length, List.length_take, List.length_drop]
  omega

/-- While a record is being sent, some of it is left. -/
theorem feed_left {s₀ : Session} (h₀ : s₀.pc = .entry) (h : exec (sessionStep verify) s₀ as = some s) :
    ∀ body offset record total, s.pc = .feed body offset record total → total < record.length := by
  refine exec_inv (I := fun s => ∀ body offset record total, s.pc = .feed body offset record total →
    total < record.length) ?_ (by simp [h₀]) h
  intro s a s' hs hstep body offset record total hpc
  cases session_effect hstep with
  | tray => exact hs _ _ _ _ hpc
  | batch => cases hpc
  | accept _ _ _ _ _ hnext => cases hpc; exact relayNext_length hnext
  | piece _ _ _ _ _ _ _ hlt => cases hpc; exact hlt
  | whole => cases hpc
  | broken => cases hpc
  | quiet _ _ hq =>
    have := hq.idle
    rw [hpc] at this
    exact this.elim

/-- What waits to be sent can be sent at once. -/
theorem pending_sends (hs : s.pending verify = true)
    (hleft : ∀ body offset record total, s.pc = .feed body offset record total → total < record.length) :
    ∃ bs t count t', exec (sessionStep verify) s bs = some t ∧ t.paused = s.paused ∧
      sessionStep verify t (.send (some count)) = some t' := by
  have hsend : ∀ (t : Session) body offset record total, t.pc = .feed body offset record total →
      total < record.length → ∃ t', sessionStep verify t (.send (some 1)) = some t' := by
    intro t body offset record total hpc hlt
    simp only [sessionStep, hpc, Session.sendPiece]
    rw [if_neg (by simp; omega)]
    split
    · exact ⟨_, rfl⟩
    · exact ⟨_, rfl⟩
  unfold Session.pending at hs
  split at hs
  · rename_i body offset record total hpc
    obtain ⟨t', ht'⟩ := hsend s _ _ _ _ hpc (hleft _ _ _ _ hpc)
    exact ⟨[], s, 1, t', rfl, rfl, ht'⟩
  · rename_i body offset hpc
    unfold Session.holds at hs
    split at hs
    · rename_i record offset' hnext
      have hfeed : sessionStep verify s .next = some { s with pc := .feed body offset' record 0 } := by
        simp only [sessionStep, hpc, Session.nextRecord, hnext, hs, if_true]
      obtain ⟨t', ht'⟩ := hsend { s with pc := .feed body offset' record 0 } _ _ _ _ rfl
        (relayNext_length hnext)
      exact ⟨[.next], { s with pc := .feed body offset' record 0 }, 1, t', by rw [exec_cons, hfeed]; rfl,
        rfl, ht'⟩
    · exact absurd hs (by simp)
  · exact absurd hs (by simp)

/-- **A step that is not clear leads to a paused session that can go on to send.** -/
theorem unclear_step_sends {s₀ : Session} (h₀ : s₀.pc = .entry)
    (h : exec (sessionStep verify) s₀ as = some s) (hstep : sessionStep verify s a = some s')
    (hc : ¬PauseClear verify s a) :
    ∃ bs t count t', exec (sessionStep verify) s' bs = some t ∧ t.paused = true ∧
      sessionStep verify t (.send (some count)) = some t' := by
  have hleft := feed_left h₀ (exec_snoc.2 ⟨s, h, hstep⟩)
  have hpend : s'.paused = true ∧ s'.pending verify = true := by
    cases a with
    | tray =>
      obtain rfl := Option.some.inj hstep
      simp only [PauseClear, Classical.not_imp, Bool.not_eq_false] at hc
      exact ⟨by simp [hc.1], hc.2⟩
    | reply response =>
      cases response with
      | none => exact absurd trivial hc
      | some response =>
        simp only [PauseClear, Classical.not_imp, Bool.not_eq_false] at hc
        obtain ⟨hp, hpc, hstatus, hhead, hholds⟩ := hc
        simp only [sessionStep, hpc, Session.downReply, hstatus, hhead, Option.some.injEq] at hstep
        obtain rfl := hstep
        exact ⟨hp, hholds⟩
    | enter | test | next | send | drained | beat | finish => exact absurd trivial hc
  obtain ⟨bs, t, count, t', hbs, hp, ht'⟩ := pending_sends hpend.2 hleft
  exact ⟨bs, t, count, t', hbs, hp.trans hpend.1, ht'⟩

/-- Pause is chosen while the `down` call is in flight. -/
def pausedRun : List Act :=
  [.enter true, demoReply (ascii "[session]\nstatus=ok\n"), .test, .tray, demoReply demoBatch, .next]

theorem pause_leaves_commands_running :
    ¬∀ as s a s', exec (sessionStep demoVerify) demoStart as = some s → s.paused = true →
      sessionStep demoVerify s a = some s' → s'.tunnel = s.tunnel ∧ s'.part = s.part := by
  intro h
  have hrun : (exec (sessionStep demoVerify) demoStart pausedRun).bind (fun s =>
      (sessionStep demoVerify s (.send (some 4))).map fun s' => (s.paused, s.tunnel, s'.tunnel)) =
        some (true, [], [ascii "PING"]) := by
    decide +kernel
  obtain ⟨s, hs, hrest⟩ := Option.bind_eq_some_iff.1 hrun
  obtain ⟨s', hs', heq⟩ := Option.map_eq_some_iff.1 hrest
  obtain ⟨hp, ht, ht'⟩ : s.paused = true ∧ s.tunnel = [] ∧ s'.tunnel = [ascii "PING"] := by
    simpa using heq
  have := (h pausedRun s _ s' hs hp hs').1
  rw [ht, ht'] at this
  exact absurd this (by simp)

end V9xRemote
