import V9xRemote.Proof.RelayText
import V9xRemote.Proof.SessionStep
import Mathlib.Data.Set.Defs

/-!
# A session feeds only what the operator signed for it

The server may answer anything at any time. `Fed` is what holds after every step:
what went into the loopback connection is the operator's chunks from the first one
on, and the counter stands at the next one.
-/

namespace V9xRemote

open Bytes Trace

/-- One signature the operator made. -/
structure Signing where
  machine : Bytes
  install : Bytes
  nonce : Bytes
  session : Bytes
  seq : UInt32
  data : Bytes
deriving DecidableEq, Repr

/-- The text that was signed. -/
def Signing.text (e : Signing) : Option Bytes :=
  relayMessage e.machine e.install e.nonce e.session e.seq e.data

/-- The server offers `data` somewhere in the bodies it sends. -/
def Offered (as : List Act) (data : Bytes) : Prop :=
  ∃ response, Act.reply (some response) ∈ as ∧
    ∃ offset record offset', relayNext response.body offset = .ok record offset' ∧ record.data = data

/-- What is assumed of the operator, of Ed25519 and of SHA-256 for a session that
starts at `s₀` and a run `as` of it. -/
structure Operator (verify : Verify) (signed : Set Signing) (s₀ : Session) (chunks : List Bytes)
    (as : List Act) : Prop where
  /-- whatever verifies under the operator's key was signed -/
  unforgeable : ∀ signature message, verify signature remotePublicKey message = true →
    ∃ e ∈ signed, e.text = some message
  /-- sequence number `i + 1` of this session was used for chunk `i` only -/
  numbered : ∀ e ∈ signed, e.machine = s₀.remote.machine → e.install = s₀.installId →
    e.nonce = s₀.nonce → e.session = s₀.session → ∃ i, e.seq.toNat = i + 1 ∧ chunks[i]? = some e.data
  few : chunks.length < 2 ^ 32
  /-- nothing the server offers collides with what was signed -/
  collisionFree : ∀ e ∈ signed, ∀ data, Offered as data → sha256 data = sha256 e.data → data = e.data

/-- What is true of the session after every step of a run. -/
structure Fed (s₀ : Session) (chunks : List Bytes) (as : List Act) (s : Session) : Prop where
  installId : s.installId = s₀.installId
  nonce : s.nonce = s₀.nonce
  session : s.session = s₀.session
  machine : s.remote.machine = s₀.remote.machine ∨ s.remote.machine = []
  tunnel : s.tunnel <+: chunks
  part : s.part <+: chunks.getD s.tunnel.length []
  expected : s.expected = UInt32.ofNat (s.tunnel.length + 1)
  /-- the batch in hand came from the server -/
  batch : ∀ body offset, s.pc = .batch body offset → ∃ r, Act.reply (some r) ∈ as ∧ r.body = body
  /-- the record in hand is the next chunk, and `part` is what was sent of it -/
  feed : ∀ body offset record total, s.pc = .feed body offset record total →
    (∃ r, Act.reply (some r) ∈ as ∧ r.body = body) ∧
      chunks[s.tunnel.length]? = some record.data ∧ s.part = record.data.take total
  /-- an incomplete chunk is one being sent, or the last one -/
  live : s.part ≠ [] → (∃ body offset record total, s.pc = .feed body offset record total) ∨
    (s.pc.Stopped ∧ s.reason = ascii "loopback")

variable {verify : Verify} {signed : Set Signing} {s₀ s s' : Session} {chunks : List Bytes}
  {as : List Act} {a : Act}

/-- The next chunk extends a prefix. -/
theorem prefix_snoc {l : List Bytes} {d : Bytes} (h : l <+: chunks) (hd : chunks[l.length]? = some d) :
    l ++ [d] <+: chunks := by
  obtain ⟨r, rfl⟩ := h
  cases r with
  | nil => simp at hd
  | cons x r =>
    have hx : x = d := by simpa using hd
    exact ⟨r, by rw [hx]; simp⟩

/-- A counter that stands at chunk `n + 1` names no other chunk. -/
theorem counter_inj {n i : ℕ} {q : UInt32} (hn : n < 2 ^ 32) (hq : q = UInt32.ofNat (n + 1))
    (hi : q.toNat = i + 1) : n = i := by
  rw [hq, UInt32.toNat_ofNat'] at hi
  omega

/-- **A record that passes the checks is the next chunk.** -/
theorem accepts_chunk (hop : Operator verify signed s₀ chunks as) (hs : Fed s₀ chunks as s)
    {record : RelayRecord} (hoff : Offered as record.data) (h : s.accepts verify record = true) :
    chunks[s.tunnel.length]? = some record.data := by
  simp only [Session.accepts, relayVerify, Bool.and_eq_true, beq_iff_eq] at h
  obtain ⟨hseq, h⟩ := h
  split at h
  · exact absurd h (by simp)
  rename_i message hmessage
  obtain ⟨e, he, htext⟩ := hop.unforgeable _ _ h
  obtain ⟨hm, hi, hn, hss, hq, hd⟩ := relayMessage_inj htext hmessage
  -- a forgotten machine id signs nothing
  have hmachine : e.machine = s₀.remote.machine := by
    rcases hs.machine with hs' | hs'
    · rw [hm, hs']
    · have := (relayMessage_some hmessage).1.machine
      rw [hs'] at this
      exact absurd this (by decide)
  obtain ⟨i, hei, hchunk⟩ := hop.numbered e he hmachine (hi.trans hs.installId) (hn.trans hs.nonce)
    (hss.trans hs.session)
  have hlen : s.tunnel.length < 2 ^ 32 := lt_of_le_of_lt hs.tunnel.length_le hop.few
  have hidx : s.tunnel.length = i :=
    counter_inj hlen (hq.trans (hseq.trans hs.expected)) hei
  rw [hidx, hchunk, hop.collisionFree e he record.data hoff hd.symm]

theorem fed_start (remote : Remote) (installId : Bytes) (paused : Bool) (sessionId uuid : Bytes)
    (chunks : List Bytes) (as : List Act) :
    Fed (.start remote installId paused sessionId uuid) chunks as
      (.start remote installId paused sessionId uuid) where
  installId := rfl
  nonce := rfl
  session := rfl
  machine := Or.inl rfl
  tunnel := List.nil_prefix
  part := List.nil_prefix
  expected := rfl
  batch := by simp [Session.start]
  feed := by simp [Session.start]
  live := by simp [Session.start]

/-- A quiet step keeps `Fed`. -/
theorem fed_quiet (hs : Fed s₀ chunks as s) (hq : Quiet s s')
    (hfeed : ∀ body offset record total, s.pc ≠ .feed body offset record total) :
    Fed s₀ chunks as s' where
  installId := hq.installId.trans hs.installId
  nonce := hq.nonce.trans hs.nonce
  session := hq.session.trans hs.session
  machine := by
    rcases hq.machine with hm | hm
    · rw [hm]; exact hs.machine
    · exact Or.inr hm
  tunnel := hq.tunnel ▸ hs.tunnel
  part := by rw [hq.part, hq.tunnel]; exact hs.part
  expected := by rw [hq.expected, hq.tunnel]; exact hs.expected
  batch := by
    intro body offset hpc
    have := hq.idle
    rw [hpc] at this
    exact this.elim
  feed := by
    intro body offset record total hpc
    have := hq.idle
    rw [hpc] at this
    exact this.elim
  live := by
    intro hp
    rw [hq.part] at hp
    rcases hs.live hp with ⟨body, offset, record, total, hpc⟩ | ⟨hstop, hreason⟩
    · exact absurd hpc (hfeed body offset record total)
    · obtain ⟨hstop', hreason'⟩ := hq.stopped hstop
      exact Or.inr ⟨hstop', hreason'.trans hreason⟩

/-- **One step keeps `Fed`.** -/
theorem fed_step (hop : Operator verify signed s₀ chunks as) (hs : Fed s₀ chunks as s) (ha : a ∈ as)
    (h : sessionStep verify s a = some s') : Fed s₀ chunks as s' := by
  cases session_effect h with
  | tray => exact ⟨hs.installId, hs.nonce, hs.session, hs.machine, hs.tunnel, hs.part, hs.expected,
      hs.batch, hs.feed, hs.live⟩
  | batch response hpc =>
    have hpart : s.part = [] := by
      by_contra hp
      rcases hs.live hp with ⟨body, offset, record, total, hpc'⟩ | ⟨hstop, -⟩
      · simp [hpc] at hpc'
      · rw [hpc] at hstop; exact hstop.elim
    refine ⟨hs.installId, hs.nonce, hs.session, hs.machine, hs.tunnel, hs.part, hs.expected, ?_, ?_, ?_⟩
    · intro body offset hbatch
      cases hbatch
      exact ⟨response, ha, rfl⟩
    · intro _ _ _ _ hfeed
      cases hfeed
    · exact fun hp => absurd hpart hp
  | accept body offset offset' record hpc hnext hok =>
    obtain ⟨r, hr, rfl⟩ := hs.batch body offset hpc
    have hoff : Offered as record.data := ⟨r, hr, offset, record, offset', hnext, rfl⟩
    have hchunk := accepts_chunk hop hs hoff hok
    have hpart : s.part = [] := by
      by_contra hp
      rcases hs.live hp with ⟨_, _, _, _, hpc'⟩ | ⟨hstop, -⟩
      · simp [hpc] at hpc'
      · rw [hpc] at hstop; exact hstop.elim
    refine ⟨hs.installId, hs.nonce, hs.session, hs.machine, hs.tunnel, hs.part, hs.expected, ?_, ?_, ?_⟩
    · intro _ _ hbatch
      cases hbatch
    · intro _ _ _ _ hfeed
      cases hfeed
      exact ⟨⟨r, hr, rfl⟩, hchunk, hpart⟩
    · exact fun hp => absurd hpart hp
  | piece body offset record total count hpc hcount hlt =>
    obtain ⟨hsrc, hchunk, -⟩ := hs.feed body offset record total hpc
    have hpart : record.data.take (total + count) <+: chunks.getD s.tunnel.length [] := by
      rw [List.getD_eq_getElem?_getD, hchunk]
      exact List.take_prefix _ _
    refine ⟨hs.installId, hs.nonce, hs.session, hs.machine, hs.tunnel, hpart, hs.expected, ?_, ?_, ?_⟩
    · intro _ _ hbatch
      cases hbatch
    · intro _ _ _ _ hfeed
      cases hfeed
      exact ⟨hsrc, hchunk, rfl⟩
    · exact fun _ => Or.inl ⟨_, _, _, _, rfl⟩
  | whole body offset record total count hpc hcount =>
    obtain ⟨hsrc, hchunk, -⟩ := hs.feed body offset record total hpc
    refine ⟨hs.installId, hs.nonce, hs.session, hs.machine, prefix_snoc hs.tunnel hchunk,
      List.nil_prefix, ?_, ?_, ?_, fun hp => absurd rfl hp⟩
    · show s.expected + 1 = _
      rw [hs.expected, List.length_append, List.length_singleton, UInt32.ofNat_add (_ + 1)]
      rfl
    · intro _ _ hbatch
      cases hbatch
      exact hsrc
    · intro _ _ _ _ hfeed
      cases hfeed
  | broken body offset record total hpc =>
    refine ⟨hs.installId, hs.nonce, hs.session, hs.machine, hs.tunnel, hs.part, hs.expected, ?_, ?_,
      fun _ => Or.inr ⟨trivial, rfl⟩⟩
    · intro _ _ hbatch
      cases hbatch
    · intro _ _ _ _ hfeed
      cases hfeed
  | quiet _ _ hq _ hfeed => exact fed_quiet hs hq hfeed

/-- `Fed` holds after every run. -/
theorem fed_run {remote : Remote} {installId sessionId uuid : Bytes} {paused : Bool}
    (hop : Operator verify signed (.start remote installId paused sessionId uuid) chunks as)
    (h : exec (sessionStep verify) (.start remote installId paused sessionId uuid) as = some s) :
    Fed (.start remote installId paused sessionId uuid) chunks as s :=
  exec_inv_under (fun _ _ _ hs ha hstep => fed_step hop hs ha hstep) (fed_start ..)
    (under_mem _ as) h

def demoSigning : Signing where
  machine := ascii "M-ABCDEF"
  install := ascii "01234567-89ab-cdef-0123-456789abcdef"
  nonce := ascii "00112233445566778899aabbccddeeff"
  session := ascii "f0f1f2f3f4f5f6f7f8f9fafbfcfdfeff"
  seq := 1
  data := ascii "PING"

def demoSignature : Bytes := List.replicate 64 7

/-- Ed25519 of an operator who signed `demoSigning` and nothing else. -/
def demoVerify : Verify := fun signature publicKey message =>
  signature == demoSignature && publicKey == remotePublicKey && demoSigning.text == some message

def demoRemote : Remote where
  server := ascii "http://relay"
  machine := demoSigning.machine
  secret := []
  nextPoll := 60
  sessionId := demoSigning.session
  sessionState := ascii "open"
  stop := false

def demoStart : Session :=
  .start demoRemote demoSigning.install false demoSigning.session (ascii "00112233-4455-6677-8899-aabbccddeeff")

/-- The server answers 200 with a body. -/
def demoReply (body : Bytes) : Act := .reply (some ⟨200, [], body⟩)

/-- A down batch with the signed chunk as its only record. -/
def demoBatch : Bytes :=
  ascii "V9XD" ++ writeU32 demoSigning.seq ++ writeU32 4 ++ demoSignature ++ demoSigning.data

def demoRun : List Act :=
  [.enter true, demoReply (ascii "[session]\nstatus=ok\n"), .test, demoReply demoBatch, .next, .send (some 3)]

theorem demo_records : ∀ body ∈ [ascii "[session]\nstatus=ok\n", demoBatch], ∀ offset ≤ body.length,
    (match relayNext body offset with
      | .ok record _ => record.data == demoSigning.data
      | _ => true) = true := by
  decide +kernel

theorem demo_offered {d : Bytes} (h : Offered demoRun d) : d = demoSigning.data := by
  obtain ⟨r, hr, offset, record, offset', hnext, rfl⟩ := h
  have hbody : r.body ∈ [ascii "[session]\nstatus=ok\n", demoBatch] := by
    simp only [demoRun, demoReply, List.mem_cons, Act.reply.injEq, Option.some.injEq, reduceCtorEq,
      List.not_mem_nil, or_false, false_or] at hr
    rcases hr with rfl | rfl
    · simp
    · simp
  have hle : offset ≤ r.body.length := by
    by_contra hlt
    rw [relayNext, if_pos (by omega)] at hnext
    cases hnext
  have := demo_records r.body hbody offset hle
  rw [hnext] at this
  exact beq_iff_eq.1 this

theorem demo_operator :
    Operator demoVerify {demoSigning} demoStart [demoSigning.data] demoRun where
  unforgeable := by
    intro signature message h
    simp only [demoVerify, Bool.and_eq_true, beq_iff_eq] at h
    exact ⟨demoSigning, rfl, h.2⟩
  numbered := by
    rintro e rfl - - - -
    exact ⟨0, rfl, rfl⟩
  few := by decide
  collisionFree := by
    rintro e rfl d hd -
    exact demo_offered hd

end V9xRemote
