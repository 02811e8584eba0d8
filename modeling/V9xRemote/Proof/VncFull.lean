import V9xRemote.Spec.VncSession
import V9xRemote.Proof.VncFrame
import V9xRemote.Lib.Trace

/-!
# Full frames

A capture that is handed over while a full frame is wanted reads the whole screen. One that
was under way when the viewer asked does not, and its update is sent as the full frame all
the same. `VncClear` says that the capture taken for a full frame was handed over behind
the last such wish, or read the whole screen behind it; then every pixel of the update was
read behind the wish.
-/

namespace V9xRemote

open Trace

variable {s s' : VncState}

/-- A full update carries every pixel of the screen, each read after the frame was asked for. -/
def VncUpdate.Fresh (u : VncUpdate) : Prop :=
  ∀ row < u.height, ∀ column < u.width,
    (∃ x y width height, .tiles x y width height ∈ u.rects ∧ InRect row column (x, y, width, height)) ∧
      u.asked < u.time row column

/-- What a finished job returned. -/
def VncWorker.result? : VncWorker → Option ℤ
  | .done result => some result
  | _ => none

/-- The capture that is taken for a full frame was handed over, or read the whole screen at
once, after the viewer last asked for one. -/
def VncClear (s : VncState) : VncAct → Prop
  | .take _ => ∀ result ∈ s.worker.result?, 0 < result → s.updateWanted = true → s.fullWanted = true →
      s.asked < s.started ∨ s.fullRead.any (fun t => s.asked < t) = true
  | _ => True

instance (s : VncState) (act : VncAct) : Decidable (VncClear s act) := by
  cases act <;> unfold VncClear <;> infer_instance

/-- Every pixel was read no earlier than the whole screen was. -/
def VncState.ReadBehind (s : VncState) : Prop :=
  ∀ t ∈ s.fullRead, ∀ row < s.capture.height, ∀ column < s.capture.width, t ≤ s.capture.bitsTime row column

/-- What holds where the worker is. -/
def VncState.WorkerInv (s : VncState) : Prop :=
  match s.worker with
  | .idle => True
  | .queued => s.fullRead = none ∧ (s.fullWanted → s.asked < s.started → s.capture.captureFull = true)
  | .full => s.fullRead = none
  | .cursor => s.ReadBehind ∧ ∃ t ∈ s.fullRead, s.started < t
  | .returning result => s.ReadBehind ∧ (0 < result → s.fullWanted → s.asked < s.started → ∃ t ∈ s.fullRead, s.started < t)
  | .done result => s.ReadBehind ∧ (0 < result → s.fullWanted → s.asked < s.started → ∃ t ∈ s.fullRead, s.started < t)
  | _ => s.fullRead = none ∧ (s.fullWanted → ¬s.asked < s.started)

/-- The invariant of a session. -/
structure FreshInv (s : VncState) : Prop where
  asked : s.asked < s.clock
  started : s.started < s.clock
  worker : s.WorkerInv
  sent : ∀ u ∈ s.sent, u.full → u.Fresh

theorem freshInv_serve (left : VncState) (width height : ℕ) : FreshInv (.serve left width height) where
  asked := Nat.zero_lt_one
  started := Nat.zero_lt_one
  worker := trivial
  sent := fun _ hu => absurd hu List.not_mem_nil

/-! ## The worker -/

theorem WorkerInv.of_same (hs : s.WorkerInv) (hworker : s'.worker = s.worker) (hcapture : s'.capture = s.capture)
    (hread : s'.fullRead = s.fullRead) (hstarted : s'.started = s.started)
    (hfull : s'.fullWanted → s'.asked < s'.started → s.fullWanted ∧ s.asked < s.started) : s'.WorkerInv := by
  have hbehind : s.ReadBehind → s'.ReadBehind := by
    intro h
    unfold VncState.ReadBehind at h ⊢
    rwa [hread, hcapture]
  unfold VncState.WorkerInv at hs ⊢
  rw [hworker]
  split at hs
  · trivial
  · exact ⟨hread.trans hs.1, fun hw ha => hcapture ▸ hs.2 (hfull hw ha).1 (hfull hw ha).2⟩
  · exact hread.trans hs
  · exact ⟨hbehind hs.1, by rw [hread, hstarted]; exact hs.2⟩
  · refine ⟨hbehind hs.1, fun hpos hw ha => ?_⟩
    rw [hread, hstarted]
    exact hs.2 hpos (hfull hw ha).1 (hfull hw ha).2
  · refine ⟨hbehind hs.1, fun hpos hw ha => ?_⟩
    rw [hread, hstarted]
    exact hs.2 hpos (hfull hw ha).1 (hfull hw ha).2
  · exact ⟨hread.trans hs.1, fun hw ha => absurd (hfull hw ha).2 (hs.2 (hfull hw ha).1)⟩

/-- What a message does to the wish for a full frame, and that it leaves the capture alone. -/
structure MessageEffect (s s' : VncState) : Prop where
  worker : s'.worker = s.worker
  capture : s'.capture = s.capture
  fullRead : s'.fullRead = s.fullRead
  started : s'.started = s.started
  clock : s'.clock = s.clock
  sent : s'.sent = s.sent
  wish : (s'.fullWanted = s.fullWanted ∧ s'.asked = s.asked) ∨ s'.asked = s.clock

theorem message_effect (s : VncState) (message : VncMessage) : MessageEffect s (s.handleMessage message) := by
  cases message with
  | setPixelFormat format =>
    unfold VncState.handleMessage
    dsimp only
    split
    · exact ⟨rfl, rfl, rfl, rfl, rfl, rfl, Or.inl ⟨rfl, rfl⟩⟩
    · exact ⟨rfl, rfl, rfl, rfl, rfl, rfl, Or.inr rfl⟩
  | setEncodings encodings buffers =>
    unfold VncState.handleMessage VncState.setEncodings
    dsimp only
    split
    · exact ⟨rfl, rfl, rfl, rfl, rfl, rfl, Or.inr rfl⟩
    · exact ⟨rfl, rfl, rfl, rfl, rfl, rfl, Or.inl ⟨rfl, rfl⟩⟩
  | updateRequest incremental =>
    cases incremental with
    | true => exact ⟨rfl, rfl, rfl, rfl, rfl, rfl, Or.inl ⟨rfl, rfl⟩⟩
    | false => exact ⟨rfl, rfl, rfl, rfl, rfl, rfl, Or.inr rfl⟩
  | pointer x y => exact ⟨rfl, rfl, rfl, rfl, rfl, rfl, Or.inl ⟨rfl, rfl⟩⟩
  | other => exact ⟨rfl, rfl, rfl, rfl, rfl, rfl, Or.inl ⟨rfl, rfl⟩⟩
  | unknown => exact ⟨rfl, rfl, rfl, rfl, rfl, rfl, Or.inl ⟨rfl, rfl⟩⟩

/-! ## The network thread -/

/-- A full comparison takes every pixel over, with the time it was read. -/
theorem diff_all_time (c : VncCapture) {row column : ℕ} (hrow : row < c.height) (hcolumn : column < c.width) :
    (c.diff true).prevTime row column = c.bitsTime row column ∧
      (c.diff true).dirty (row / vncTile) (column / vncTile) = true := by
  have htile : row / vncTile < vncTiles c.height ∧ column / vncTile < vncTiles c.width :=
    ⟨div_tile_lt hrow, div_tile_lt hcolumn⟩
  have hchanged : c.changed true (row / vncTile) (column / vncTile) = true := by
    rw [VncCapture.changed, decide_eq_true htile]
    rfl
  refine ⟨?_, ?_⟩
  · unfold VncCapture.diff
    dsimp only
    rw [hchanged, if_pos (by simp [hrow, hcolumn])]
  · unfold VncCapture.diff
    dsimp only
    rw [if_pos htile, hchanged]

theorem posChecked_same (s : VncState) :
    s.posChecked.sent = s.sent ∧ s.posChecked.asked = s.asked ∧ s.posChecked.started = s.started ∧
      s.posChecked.clock = s.clock ∧ s.posChecked.capture = s.capture ∧ s.posChecked.worker = s.worker := by
  unfold VncState.posChecked
  split
  · split <;> exact ⟨rfl, rfl, rfl, rfl, rfl, rfl⟩
  · exact ⟨rfl, rfl, rfl, rfl, rfl, rfl⟩

theorem compared_same (s : VncState) :
    s.compared.sent = s.sent ∧ s.compared.asked = s.asked ∧ s.compared.started = s.started ∧
      s.compared.clock = s.clock ∧ s.compared.worker = s.worker := by
  unfold VncState.compared
  dsimp only
  split
  · obtain ⟨h1, h2, h3, h4, -, h5⟩ := posChecked_same
      { s with lastForeground := s.foreground, copyPending := none, capture := s.capture.diff s.fullWanted }
    exact ⟨h1, h2, h3, h4, h5⟩
  · obtain ⟨h1, h2, h3, h4, -, h5⟩ := posChecked_same { s.detectMove with capture := s.detectMove.capture.diff s.fullWanted }
    exact ⟨h1, h2, h3, h4, h5⟩

theorem mem_sendUpdate {full : Bool} {u : VncUpdate} (hu : u ∈ (s.sendUpdate full).sent) : u ∈ s.sent ∨
    u = ⟨s.capture.width, s.capture.height, s.format, s.encoding, s.updateRects, s.capture.prev, s.capture.prevTime, full,
      s.asked⟩ := by
  unfold VncState.sendUpdate at hu
  dsimp only at hu
  split at hu
  · exact Or.inl hu
  · exact (List.mem_append.1 hu).imp_right List.mem_singleton.1

/-- **A full update** carries every pixel, with the time the capture read it. -/
theorem sendUpdate_fresh (hfull : s.fullWanted = true)
    (hbehind : ∀ row < s.capture.height, ∀ column < s.capture.width, s.asked < s.capture.bitsTime row column) :
    ∀ u ∈ ({ s.compared with fullWanted := false }.sendUpdate s.fullWanted).sent, u ∉ s.sent → u.Fresh := by
  obtain ⟨hsent, hasked, -, -, -⟩ := compared_same s
  have hcapture : s.compared.capture = s.capture.diff true := by
    unfold VncState.compared
    dsimp only
    rw [if_pos hfull, (posChecked_same _).2.2.2.2.1, hfull]
  intro u hu hnew
  rcases mem_sendUpdate hu with hu | rfl
  · exact absurd (hsent ▸ hu) hnew
  intro row hrow column hcolumn
  dsimp only at hrow hcolumn ⊢
  rw [hcapture] at hrow hcolumn ⊢
  obtain ⟨htime, hdirty⟩ := diff_all_time s.capture hrow hcolumn
  refine ⟨?_, by rw [htime, hasked]; exact hbehind row hrow column hcolumn⟩
  obtain ⟨⟨x, y, width, height⟩, hrect, hin⟩ := (mem_dirtyRects_iff (c := s.capture.diff true) hrow hcolumn).2 hdirty
  refine ⟨x, y, width, height, ?_, hin⟩
  unfold VncState.updateRects
  refine List.mem_append_right _ (List.mem_map.2 ⟨(x, y, width, height), ?_, rfl⟩)
  exact hrect

/-! ## Steps -/

theorem freshInv_message (hs : FreshInv s) (message : VncMessage) :
    FreshInv { s.handleMessage message with clock := (s.handleMessage message).clock + 1 } := by
  have he := message_effect s message
  have hasked : (s.handleMessage message).asked ≤ s.clock := by
    rcases he.wish with ⟨-, h⟩ | h
    · exact h ▸ hs.asked.le
    · exact h.le
  refine { asked := ?_, started := ?_, worker := ?_, sent := ?_ }
  · dsimp only
    rw [he.clock]
    omega
  · dsimp only
    rw [he.clock, he.started]
    exact Nat.lt_succ_of_lt hs.started
  · refine WorkerInv.of_same hs.worker he.worker he.capture he.fullRead he.started fun hw ha => ?_
    rcases he.wish with ⟨hfull, hsame⟩ | hnew
    · exact ⟨hfull ▸ hw, by rw [← hsame, ← he.started]; exact ha⟩
    · -- a wish behind the start of the capture
      have hstarted := hs.started
      dsimp only at ha
      rw [hnew, he.started] at ha
      omega
  · dsimp only
    rw [he.sent]
    exact hs.sent

theorem freshInv_start (hs : FreshInv s) : FreshInv { s.startCapture with clock := s.clock + 1 } where
  asked := Nat.lt_succ_of_lt hs.asked
  started := Nat.lt_succ_self _
  worker := by
    refine ⟨rfl, fun hw _ => ?_⟩
    unfold VncState.startCapture
    dsimp only
    rw [if_pos (show s.fullWanted = true from hw)]
  sent := hs.sent

theorem FreshInv.idle (hs : FreshInv s) (hworker : s'.worker = .idle) (hasked : s'.asked = s.asked)
    (hstarted : s'.started = s.started) (hclock : s'.clock = s.clock) (hsent : ∀ u ∈ s'.sent, u.full → u.Fresh) :
    FreshInv { s' with clock := s'.clock + 1 } where
  asked := by
    dsimp only
    rw [hasked, hclock]
    exact Nat.lt_succ_of_lt hs.asked
  started := by
    dsimp only
    rw [hstarted, hclock]
    exact Nat.lt_succ_of_lt hs.started
  worker := by
    unfold VncState.WorkerInv
    dsimp only
    rw [hworker]
    trivial
  sent := hsent

/-- A frame that is taken for a full one was read behind the wish. -/
theorem read_behind (hs : FreshInv s) {result : ℤ} (hworker : s.worker = .done result) (hpos : 0 < result)
    (hfull : s.fullWanted = true) (hclear : s.asked < s.started ∨ s.fullRead.any (fun t => s.asked < t) = true) :
    ∀ row < s.capture.height, ∀ column < s.capture.width, s.asked < s.capture.bitsTime row column := by
  have hw := hs.worker
  unfold VncState.WorkerInv at hw
  rw [hworker] at hw
  obtain ⟨hbehind, hread⟩ := hw
  obtain ⟨t, ht, hlt⟩ : ∃ t ∈ s.fullRead, s.asked < t := by
    rcases hclear with hearlier | hany
    · obtain ⟨t, ht, hlt⟩ := hread hpos hfull hearlier
      exact ⟨t, ht, hearlier.trans hlt⟩
    · cases hr : s.fullRead with
      | none =>
        rw [hr] at hany
        cases hany
      | some t =>
        rw [hr] at hany
        exact ⟨t, rfl, of_decide_eq_true hany⟩
  intro row hrow column hcolumn
  exact lt_of_lt_of_le hlt (hbehind t ht row hrow column hcolumn)

theorem freshInv_take (hs : FreshInv s) {result : ℤ} (hworker : s.worker = .done result)
    (hclear : 0 < result → s.updateWanted = true → s.fullWanted = true →
      s.asked < s.started ∨ s.fullRead.any (fun t => s.asked < t) = true) (size : Option (ℕ × ℕ)) :
    FreshInv { s.take result size with clock := (s.take result size).clock + 1 } := by
  unfold VncState.take
  dsimp only
  split
  · split
    · exact hs.idle rfl rfl rfl rfl hs.sent
    split
    · exact hs.idle rfl rfl rfl rfl hs.sent
    · refine hs.idle rfl rfl rfl rfl fun u hu hfull => ?_
      rcases List.mem_append.1 hu with hu | hu
      · exact hs.sent u hu hfull
      · obtain rfl := List.mem_singleton.1 hu
        cases hfull
  split
  · exact hs.idle rfl rfl rfl rfl hs.sent
  rename_i hnot hgo
  simp only [Bool.or_eq_true, decide_eq_true_eq, not_or, Bool.not_eq_true', Bool.not_eq_false] at hgo
  obtain ⟨hne, hwanted⟩ := hgo
  have hpos : 0 < result := by omega
  obtain ⟨hsent, hasked, hstarted, hclock, hidle⟩ := compared_same { s with worker := .idle }
  unfold VncState.takeFrame
  split
  · exact hs.idle hidle hasked hstarted hclock (fun u hu => hs.sent u (hsent ▸ hu))
  refine hs.idle hidle hasked hstarted hclock fun u hu hfull => ?_
  by_cases hold : u ∈ s.sent
  · exact hs.sent u hold hfull
  cases hw : s.fullWanted with
  | true =>
    have hbehind := read_behind hs hworker hpos hw (hclear hpos hwanted hw)
    exact sendUpdate_fresh (s := { s with worker := .idle }) hw hbehind u hu hold
  | false =>
    rcases mem_sendUpdate hu with hu | rfl
    · exact absurd (hsent ▸ hu) hold
    · exact absurd (hw.symm.trans hfull) (by decide)

/-! ## The worker's steps -/

theorem freshInv_worker (hs : FreshInv s) (hclock : s'.clock = s.clock) (hasked : s'.asked = s.asked)
    (hstarted : s'.started = s.started) (hsent : s'.sent = s.sent) (hworker : s'.WorkerInv) :
    FreshInv { s' with clock := s'.clock + 1 } where
  asked := by
    dsimp only
    rw [hasked, hclock]
    exact Nat.lt_succ_of_lt hs.asked
  started := by
    dsimp only
    rw [hstarted, hclock]
    exact Nat.lt_succ_of_lt hs.started
  worker := hworker
  sent := by
    dsimp only
    rw [hsent]
    exact hs.sent

/-- Where no read of the whole screen is behind, none has to be kept. -/
theorem readBehind_of_none (h : s.fullRead = none) : s.ReadBehind := by
  intro t ht
  rw [h] at ht
  cases ht

theorem freshInv_failed (hs : FreshInv s) (hread : s.fullRead = none) :
    FreshInv { s.bltFailed with clock := s.bltFailed.clock + 1 } :=
  freshInv_worker hs rfl rfl rfl rfl ⟨readBehind_of_none hread, fun h => absurd h (by decide)⟩

theorem freshInv_begin (hs : FreshInv s) (hworker : s.worker = .queued) (switched sameSize dc : Bool) :
    FreshInv { s.begin switched sameSize dc with clock := (s.begin switched sameSize dc).clock + 1 } := by
  have hw := hs.worker
  unfold VncState.WorkerInv at hw
  rw [hworker] at hw
  obtain ⟨hread, hfull⟩ := hw
  -- a change of desktop only turns a sampled capture into a full one
  have hkept : s.capture.captureFull = true →
      (if switched then { s.capture with captureFull := true } else s.capture).captureFull = true := by
    intro hcapture
    split
    · rfl
    · exact hcapture
  unfold VncState.begin
  dsimp only
  generalize (if switched then { s.capture with captureFull := true } else s.capture) = c at hkept ⊢
  split
  · exact freshInv_worker hs rfl rfl rfl rfl ⟨readBehind_of_none hread, fun h => absurd h (by decide)⟩
  split
  · exact freshInv_worker hs rfl rfl rfl rfl ⟨readBehind_of_none hread, fun h => absurd h (by decide)⟩
  split
  · exact freshInv_worker hs rfl rfl rfl rfl hread
  · rename_i hsampled
    exact freshInv_worker hs rfl rfl rfl rfl ⟨hread, fun hw ha => hsampled (hkept (hfull hw ha))⟩

theorem freshInv_blt (hs : FreshInv s) {screen : Frame} {ok : Bool} (h : s.bltStep screen ok = some s') :
    FreshInv { s' with clock := s'.clock + 1 } := by
  have hw := hs.worker
  unfold VncState.WorkerInv at hw
  unfold VncState.bltStep at h
  split at h
  · rename_i hworker
    rw [hworker] at hw
    split at h
    · exact Option.some.inj h ▸ freshInv_failed hs hw
    · obtain rfl := Option.some.inj h
      refine freshInv_worker hs rfl rfl rfl rfl ⟨fun t ht row hrow column hcolumn => ?_, s.clock, rfl, hs.started⟩
      obtain rfl := Option.some.inj ht
      refine le_of_eq (Eq.symm (if_pos (decide_eq_true ⟨Nat.zero_le _, ?_, Nat.zero_le _, ?_⟩)))
      · rw [Nat.zero_add]
        exact hrow
      · rw [Nat.zero_add]
        exact hcolumn
  · rename_i phase band hworker
    rw [hworker] at hw
    split at h
    · exact Option.some.inj h ▸ freshInv_failed hs hw.1
    · obtain rfl := Option.some.inj h
      refine freshInv_worker hs rfl rfl rfl rfl ?_
      unfold VncState.WorkerInv
      dsimp only
      split_ifs
      · exact hw
      · exact hw
  · rename_i band tile run left hworker
    rw [hworker] at hw
    split at h
    · exact Option.some.inj h ▸ freshInv_failed hs hw.1
    · obtain rfl := Option.some.inj h
      exact freshInv_worker hs rfl rfl rfl rfl hw
  · cases h

/-- The cursor's step leaves the times and the wish alone. -/
theorem cursorStep_same (s : VncState) (grab : Option ((ℤ × ℤ) × Bool × VncCursor)) (drawn : Frame) :
    (s.cursorStep grab drawn).clock = s.clock ∧ (s.cursorStep grab drawn).asked = s.asked ∧
      (s.cursorStep grab drawn).started = s.started ∧ (s.cursorStep grab drawn).sent = s.sent ∧
      (s.cursorStep grab drawn).fullRead = s.fullRead ∧ (s.cursorStep grab drawn).fullWanted = s.fullWanted ∧
      (s.cursorStep grab drawn).capture.bitsTime = s.capture.bitsTime ∧
      (s.cursorStep grab drawn).capture.height = s.capture.height ∧
      (s.cursorStep grab drawn).capture.width = s.capture.width := by
  unfold VncState.cursorStep
  dsimp only
  split
  · unfold VncState.grabCursor
    split
    · exact ⟨rfl, rfl, rfl, rfl, rfl, rfl, rfl, rfl, rfl⟩
    split
    · exact ⟨rfl, rfl, rfl, rfl, rfl, rfl, rfl, rfl, rfl⟩
    · dsimp only
      split <;> exact ⟨rfl, rfl, rfl, rfl, rfl, rfl, rfl, rfl, rfl⟩
  · exact ⟨rfl, rfl, rfl, rfl, rfl, rfl, rfl, rfl, rfl⟩

theorem freshInv_cursor (hs : FreshInv s) (grab : Option ((ℤ × ℤ) × Bool × VncCursor)) (drawn : Frame)
    (hread : s.ReadBehind) (hfull : s.fullWanted → s.asked < s.started → ∃ t ∈ s.fullRead, s.started < t) :
    FreshInv { s.cursorStep grab drawn with clock := (s.cursorStep grab drawn).clock + 1 } := by
  obtain ⟨hclock, hasked, hstarted, hsent, hfullRead, hwanted, htime, hheight, hwidth⟩ := cursorStep_same s grab drawn
  refine freshInv_worker hs hclock hasked hstarted hsent ⟨?_, fun _ hw ha => ?_⟩
  · unfold VncState.ReadBehind at hread ⊢
    rwa [hfullRead, htime, hheight, hwidth]
  · rw [hfullRead, hstarted]
    rw [hwanted] at hw
    rw [hasked, hstarted] at ha
    exact hfull hw ha

/-- **One step keeps the invariant.** -/
theorem freshInv_step (hs : FreshInv s) {act : VncAct} (hclear : VncClear s act) (h : vncStep s act = some s') :
    FreshInv s' := by
  unfold vncStep at h
  split at h
  · cases h
  obtain ⟨t, ht, rfl⟩ := Option.map_eq_some_iff.1 h
  have hw := hs.worker
  unfold VncState.WorkerInv at hw
  cases act with
  | message message =>
    obtain rfl := Option.some.inj ht
    exact freshInv_message hs message
  | start =>
    simp only [vncAct] at ht
    split at ht
    · exact Option.some.inj ht ▸ freshInv_start hs
    · cases ht
  | take size =>
    simp only [vncAct] at ht
    split at ht
    · rename_i result hworker
      obtain rfl := Option.some.inj ht
      refine freshInv_take hs hworker (fun hpos => hclear result ?_ hpos) size
      rw [hworker]
      rfl
    · cases ht
  | fail =>
    obtain rfl := Option.some.inj ht
    exact freshInv_worker hs rfl rfl rfl rfl (WorkerInv.of_same hs.worker rfl rfl rfl rfl fun hw ha => ⟨hw, ha⟩)
  | begin switched sameSize dc =>
    simp only [vncAct] at ht
    split at ht
    · rename_i hworker
      exact Option.some.inj ht ▸ freshInv_begin hs hworker switched sameSize dc
    · cases ht
  | blt screen ok => exact freshInv_blt hs ht
  | compare position =>
    simp only [vncAct] at ht
    split at ht
    · rename_i phase hworker
      rw [hworker] at hw
      obtain rfl := Option.some.inj ht
      exact freshInv_worker hs rfl rfl rfl rfl hw
    · cases ht
  | cursor grab drawn =>
    simp only [vncAct] at ht
    split at ht
    · rename_i hworker
      rw [hworker] at hw
      exact Option.some.inj ht ▸ freshInv_cursor hs grab drawn hw.1 (fun _ _ => hw.2)
    · rename_i hworker
      rw [hworker] at hw
      exact Option.some.inj ht ▸ freshInv_cursor hs grab drawn (readBehind_of_none hw.1)
        (fun hfull ha => absurd ha (hw.2 hfull))
    · cases ht
  | finish foreground =>
    simp only [vncAct] at ht
    split at ht
    · rename_i result hworker
      rw [hworker] at hw
      obtain rfl := Option.some.inj ht
      exact freshInv_worker hs rfl rfl rfl rfl hw
    · cases ht

/-- **Full frames are read in full.** Where no full frame is made from a capture that was
under way when it was asked for, every pixel of a full update was read behind the wish. -/
theorem vnc_full_fresh {left : VncState} {width height : ℕ} {as : List VncAct}
    (hclear : Trace.Under vncStep VncClear (.serve left width height) as)
    (h : exec vncStep (.serve left width height) as = some s) :
    ∀ u ∈ s.sent, u.full = true → u.Fresh :=
  (exec_inv_under (fun _ _ _ hs hc h' => freshInv_step hs hc h') (freshInv_serve left width height) hclear h).sent

/-! ## Runs -/

/-- A server that has had no session. -/
def vncNoSession : VncState where
  capture := ⟨0, 0, fun _ _ => 0, fun _ _ => 0, fun _ _ => false, fun _ _ => false, fun _ _ => false, false, 0, none,
    fun _ _ => 0, fun _ _ => 0⟩
  worker := .idle
  format := vncDefaultFormat
  encoding := .raw
  useDesktopSize := false
  usePointerPos := false
  useCopyRect := false
  hasCursorInfo := false
  richCursor := false
  cursorReset := false
  cursorSerial := 0
  cursorSentSerial := 0
  cursor := ⟨0, 0, 0, 0, [], []⟩
  cursorAt := none
  posSent := (-1, -1)
  pointer := (-1, -1)
  updateWanted := false
  fullWanted := false
  copyPending := none
  foreground := none
  lastForeground := none
  closed := false
  sent := []
  clock := 0
  asked := 0
  started := 0
  fullRead := none

/-- A screen of one column, by the pixel of its first row. -/
def columnScreen (first : UInt32) : Frame := fun row _ => if row = 0 then first else 0

/-- A full frame is asked for and sent. -/
def fullFrameRun : List VncAct :=
  [.message (.updateRequest false), .start, .begin false true true, .blt (columnScreen 1) true,
    .cursor none (columnScreen 1), .finish none, .take none]

/-- A full frame; an update with nothing in it; then a full frame is asked for while a
sampled capture is under way, and the screen has changed in the row that it skips. -/
def staleFrameRun : List VncAct :=
  fullFrameRun ++
  [.message (.updateRequest true), .start, .begin false true true, .blt (columnScreen 1) true, .compare none,
    .blt (columnScreen 1) true, .cursor none (columnScreen 1), .finish none, .take none,
    .start, .begin false true true, .message (.updateRequest false), .blt (columnScreen 2) true, .compare none,
    .cursor none (columnScreen 1), .finish none, .take none]

theorem vnc_full_fresh_demo : ∃ s, exec vncStep (.serve vncNoSession 1 2) fullFrameRun = some s ∧
    s.sent.map (·.full) = [true] ∧ ∀ u ∈ s.sent, u.full = true → u.Fresh := by
  have hrun : (exec vncStep (.serve vncNoSession 1 2) fullFrameRun).map (fun s => s.sent.map (·.full)) = some [true] := by
    decide
  obtain ⟨s, hs, hsent⟩ := Option.map_eq_some_iff.1 hrun
  have hclear : Trace.Under vncStep VncClear (.serve vncNoSession 1 2) fullFrameRun := by decide
  exact ⟨s, hs, hsent, vnc_full_fresh hclear hs⟩

/-- **A sampled capture sent as the full frame**: the pixel of the first row is the one that
was read before the frame was asked for, though the screen has another one by then. -/
theorem sampled_answers_full : ∃ s u, exec vncStep (.serve vncNoSession 1 2) staleFrameRun = some s ∧ u ∈ s.sent ∧
    u.full = true ∧ u.frame 0 0 = 1 ∧ ¬u.Fresh := by
  have hrun : (exec vncStep (.serve vncNoSession 1 2) staleFrameRun).bind (fun s => s.sent[1]?.map fun u =>
      (u.full, u.height, u.width, u.frame 0 0, decide (u.asked < u.time 0 0))) = some (true, 2, 1, 1, false) := by
    decide
  obtain ⟨s, hs, hu⟩ := Option.bind_eq_some_iff.1 hrun
  obtain ⟨u, hmem, heq⟩ := Option.map_eq_some_iff.1 hu
  simp only [Prod.mk.injEq, decide_eq_false_iff_not] at heq
  obtain ⟨hfull, hheight, hwidth, hpixel, htime⟩ := heq
  refine ⟨s, u, hs, List.mem_of_getElem? hmem, hfull, hpixel, fun hfresh => htime ?_⟩
  exact (hfresh 0 (by omega) 0 (by omega)).2

end V9xRemote
