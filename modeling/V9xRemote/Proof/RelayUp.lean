import V9xRemote.Spec.RelayUp
import V9xRemote.Proof.SessionStep

/-!
# The way up is exact

What a step of the agent's session does to its posts is `up_effect`, what the operator
makes of an answer is `pullAnswer_records`. `UpInv` says that a chunk number stands for
one chunk for good: the agent goes on to the next only when the server has it.
-/

namespace V9xRemote

open Bytes Trace

/-! ## The operator reads chunks -/

/-- A chunk is taken if it is the next. -/
def acceptChunk (s : RelayState) (p : UInt32 × Bytes) : RelayState :=
  if p.1.toNat = s.upAfter + 1 then { s with inbox := s.inbox ++ p.2, upAfter := p.1.toNat } else s

/-- The head of a record that is cut behind it. -/
theorem upRecord_take (seq : UInt32) (chunk rest : Bytes) (k : ℕ) :
    (upRecord seq chunk ++ rest).take (12 + k) =
      ascii "V9XU" ++ (writeU32 seq ++ (writeU32 (UInt32.ofNat chunk.length) ++ (chunk ++ rest).take k)) := by
  have hhead : upRecord seq chunk ++ rest =
      (ascii "V9XU" ++ (writeU32 seq ++ writeU32 (UInt32.ofNat chunk.length))) ++ (chunk ++ rest) := by
    simp [upRecord]
  have hlen : (ascii "V9XU" ++ (writeU32 seq ++ writeU32 (UInt32.ofNat chunk.length))).length = 12 := rfl
  rw [hhead, List.take_append, hlen, List.take_of_length_le (by omega), Nat.add_sub_cancel_left, List.append_assoc,
    List.append_assoc]

/-- **An answer that is cut anywhere is read as chunks that are whole in it.** -/
theorem upChunks_records (recs : List (UInt32 × Bytes)) (hsmall : ∀ p ∈ recs, p.2.length < 2 ^ 32) :
    ∀ (data : Bytes) (start cut : ℕ) (s : RelayState),
      data.drop start = ((recs.map fun p => upRecord p.1 p.2).flatten).take cut →
      ∃ n, (upChunks data start s).1 = (recs.take n).foldl acceptChunk s := by
  induction recs with
  | nil =>
    intro data start cut s hdata
    have hlen := congrArg List.length hdata
    rw [List.map_nil, List.flatten_nil, List.take_nil, List.length_nil, List.length_drop] at hlen
    refine ⟨0, ?_⟩
    rw [upChunks, if_neg (by omega)]
    rfl
  | cons p recs ih =>
    obtain ⟨seq, chunk⟩ := p
    intro data start cut s hdata
    have hchunk : chunk.length < 2 ^ 32 := hsmall _ List.mem_cons_self
    rw [List.map_cons, List.flatten_cons] at hdata
    dsimp only at hdata
    set rest := (recs.map fun p => upRecord p.1 p.2).flatten with hrest
    by_cases hhead : start + 12 ≤ data.length
    · obtain ⟨k, rfl⟩ : ∃ k, cut = 12 + k := by
        have hlen := congrArg List.length hdata
        rw [List.length_drop, List.length_take] at hlen
        exact Nat.exists_eq_add_of_le (by omega)
      rw [upRecord_take] at hdata
      have hmagic : (data.drop start).take 4 = ascii "V9XU" := by
        rw [hdata]
        exact List.take_left' rfl
      have hseq : data.readU32 (start + 4) = seq := by
        rw [← readU32_drop, hdata]
        exact (readU32_append_right (ascii "V9XU") _ 0).trans (readU32_writeU32 _ _)
      have hlength : (data.readU32 (start + 8)).toNat = chunk.length := by
        rw [← readU32_drop, hdata, ← List.append_assoc (ascii "V9XU")]
        have hat := (readU32_append_right (ascii "V9XU" ++ writeU32 seq) _ 0).trans
          (readU32_writeU32 (UInt32.ofNat chunk.length) ((chunk ++ rest).take k))
        exact (congrArg UInt32.toNat hat).trans (UInt32.toNat_ofNat_of_lt' hchunk)
      have hbody : data.drop (start + 12) = (chunk ++ rest).take k := by
        rw [← List.drop_drop, hdata, ← List.append_assoc, ← List.append_assoc]
        exact List.drop_left' rfl
      rw [upChunks, if_pos hhead, if_neg (not_not_intro hmagic)]
      dsimp only
      rw [hseq, hlength, hbody]
      by_cases hwhole : chunk.length ≤ k
      · have htake : ((chunk ++ rest).take k).take chunk.length = chunk := by
          rw [List.take_take, Nat.min_eq_left hwhole, List.take_left]
        have hnext : data.drop (start + 12 + chunk.length) = rest.take (k - chunk.length) := by
          rw [← List.drop_drop, hbody, List.drop_take, List.drop_left]
        rw [htake, if_neg (not_not_intro rfl)]
        obtain ⟨n, hn⟩ := ih (fun p hp => hsmall p (List.mem_cons_of_mem _ hp)) data _ _ (acceptChunk s (seq, chunk)) hnext
        exact ⟨n + 1, hn⟩
      · -- the chunk itself is cut
        refine ⟨0, ?_⟩
        rw [if_pos]
        · rfl
        · rw [List.length_take, List.length_take]
          omega
    · refine ⟨0, ?_⟩
      rw [upChunks, if_neg hhead]
      rfl

/-- What a poll leaves of the session, but for `closed`. -/
theorem pullAnswer_records (recs : List (UInt32 × Bytes)) (hsmall : ∀ p ∈ recs, p.2.length < 2 ^ 32) (s : RelayState)
    (status : ℕ) (state : Option PyStr) (cut : ℕ) :
    ∃ n, ((pullAnswer s status state (((recs.map fun p => upRecord p.1 p.2).flatten).take cut)).1.inbox,
        (pullAnswer s status state (((recs.map fun p => upRecord p.1 p.2).flatten).take cut)).1.upAfter) =
      (((recs.take n).foldl acceptChunk s).inbox, ((recs.take n).foldl acceptChunk s).upAfter) := by
  unfold pullAnswer
  split
  · exact ⟨0, rfl⟩
  obtain ⟨n, hn⟩ := upChunks_records recs hsmall _ 0 cut s List.drop_zero
  refine ⟨n, ?_⟩
  rw [← hn]
  split
  · rename_i heq
    rw [heq]
  · rename_i heq
    rw [heq]
    dsimp only
    split
    · rfl
    · rfl

/-! ## The agent posts chunks -/

variable {verify : Verify} {s s' : Session} {a : Act}

/-- The worker is not in an `up` call. -/
def Pc.NotUp : Pc → Prop
  | .up _ _ => False
  | _ => True

/-- A step that posts nothing and ends outside an `up` call. -/
structure NoPost (s s' : Session) : Prop where
  posts : s.posts s' = []
  seq : s'.upSeq = s.upSeq
  pc : s'.pc.NotUp
  stopped : s.pc.Stopped → s'.pc.Stopped

/-- A step that posts a chunk, or ends the session where its URL does not fit. -/
structure Posting (s : Session) (bytes : Bytes) (s' : Session) : Prop where
  seq : s'.upSeq = s.upSeq
  out : (∃ tries, s'.pc = .up bytes tries) ∧ s.posts s' = [(s.upSeq, bytes)] ∨
    s'.pc = .finished ∧ s.posts s' = []

theorem posts_of_eq (h : s'.requests = s.requests) : s.posts s' = [] := by
  rw [Session.posts, h, List.drop_length]
  rfl

theorem noPost_of_eq (hreq : s'.requests = s.requests) (hseq : s'.upSeq = s.upSeq) (hpc : s'.pc.NotUp)
    (hstop : s.pc.Stopped → s'.pc.Stopped) : NoPost s s' :=
  ⟨posts_of_eq hreq, hseq, hpc, hstop⟩

/-- What a step posts does not depend on the other fields it starts from. -/
theorem noPost_of_same {t : Session} (hreq : t.requests = s.requests) (hseq : t.upSeq = s.upSeq) (hpc : t.pc = s.pc)
    (h : NoPost t s') : NoPost s s' := by
  refine ⟨?_, h.seq.trans hseq, h.pc, fun hs => h.stopped (hpc ▸ hs)⟩
  have hposts := h.posts
  rwa [Session.posts, hreq, hseq] at hposts

theorem posts_append {method op : String} {query body : Bytes} (h : s'.requests = s.requests ++ [⟨method, op, query, body⟩]) :
    s.posts s' = if op = "up" then [(s.upSeq, body)] else [] := by
  rw [Session.posts, h, List.drop_left]
  split
  · rename_i hop
    simp [hop]
  · rename_i hop
    simp [hop]

namespace Session

/-- A call of another operation. -/
theorem call_noPost {method op : String} {query body : Bytes} {next skip : Pc} (hop : op ≠ "up") (hn : next.NotUp)
    (hk : skip.NotUp) (hstop : s.pc.Stopped → next.Stopped ∧ skip.Stopped) :
    NoPost s (s.call method op query body next skip) := by
  unfold call
  split
  · refine ⟨?_, rfl, hn, fun h => (hstop h).1⟩
    rw [posts_append rfl, if_neg hop]
  · exact noPost_of_eq rfl rfl hk fun h => (hstop h).2

theorem sessionCall_noPost {op : String} {extra : Bytes} (hop : op ≠ "up") : NoPost s (s.sessionCall op extra) :=
  call_noPost hop trivial trivial fun _ => ⟨trivial, trivial⟩

theorem enter_noPost (hrun : ¬s.pc.Stopped) (loopback : Bool) : NoPost s (s.enter loopback) := by
  unfold enter
  split
  · exact sessionCall_noPost (by decide)
  split
  · exact sessionCall_noPost (by decide)
  · exact call_noPost (by decide) trivial trivial fun h => absurd h hrun

theorem accepted_noPost (hrun : ¬s.pc.Stopped) (response : Option HttpResponse) : NoPost s (s.accepted response) := by
  have hstop : ∀ {P : Prop}, s.pc.Stopped → P := fun h => absurd h hrun
  unfold accepted
  split
  · split
    · exact noPost_of_eq rfl rfl trivial hstop
    · exact noPost_of_eq rfl rfl trivial hstop
  · exact noPost_of_eq rfl rfl trivial hstop

theorem test_noPost (hrun : ¬s.pc.Stopped) : NoPost s s.test := by
  unfold test
  split
  · exact noPost_of_eq rfl rfl trivial fun h => absurd h hrun
  · exact noPost_of_same (t := { s with moved := false, fed := false }) rfl rfl rfl
      (call_noPost (by decide) trivial trivial fun h => absurd h hrun)

theorem downReply_noPost (hrun : ¬s.pc.Stopped) (response : Option HttpResponse) : NoPost s (s.downReply response) := by
  have hstop : ∀ {P : Prop}, s.pc.Stopped → P := fun h => absurd h hrun
  unfold downReply
  split
  · split
    · exact noPost_of_eq rfl rfl trivial hstop
    split
    · exact noPost_of_eq rfl rfl trivial hstop
    · exact noPost_of_eq rfl rfl trivial hstop
  · exact noPost_of_eq rfl rfl trivial hstop

theorem nextRecord_noPost (hrun : ¬s.pc.Stopped) (body : Bytes) (offset : ℕ) :
    NoPost s (s.nextRecord verify body offset) := by
  have hstop : ∀ {P : Prop}, s.pc.Stopped → P := fun h => absurd h hrun
  unfold nextRecord
  split
  · exact noPost_of_eq rfl rfl trivial hstop
  · split
    · exact noPost_of_eq rfl rfl trivial hstop
    · exact noPost_of_eq rfl rfl trivial hstop
  · exact noPost_of_eq rfl rfl trivial hstop

theorem sendPiece_noPost (hrun : ¬s.pc.Stopped) {body : Bytes} {offset total : ℕ} {record : RelayRecord}
    {count : Option ℕ} (h : s.sendPiece body offset record total count = some s') : NoPost s s' := by
  have hstop : ∀ {P : Prop}, s.pc.Stopped → P := fun h => absurd h hrun
  cases count with
  | none => exact Option.some.inj h ▸ noPost_of_eq rfl rfl trivial hstop
  | some count =>
    simp only [sendPiece] at h
    split at h
    · cases h
    split at h
    · exact Option.some.inj h ▸ noPost_of_eq rfl rfl trivial hstop
    · exact Option.some.inj h ▸ noPost_of_eq rfl rfl trivial hstop

theorem beat_noPost (hrun : ¬s.pc.Stopped) (due : Bool) : NoPost s (s.beat due) := by
  have hstop : ∀ {P : Prop}, s.pc.Stopped → P := fun h => absurd h hrun
  unfold beat
  split
  · exact noPost_of_eq rfl rfl trivial hstop
  split
  · exact noPost_of_eq rfl rfl trivial hstop
  split
  · exact noPost_of_eq rfl rfl trivial hstop
  · exact noPost_of_eq rfl rfl trivial hstop

theorem pollReply_noPost (hrun : ¬s.pc.Stopped) (response : Option HttpResponse) : NoPost s (s.pollReply response) := by
  have hstop : ∀ {P : Prop}, s.pc.Stopped → P := fun h => absurd h hrun
  unfold pollReply
  dsimp only
  split
  · exact noPost_of_eq rfl rfl trivial hstop
  split
  · exact noPost_of_eq rfl rfl trivial hstop
  · exact noPost_of_eq rfl rfl trivial hstop

theorem finish_noPost (s : Session) : NoPost s s.finish := by
  unfold finish
  dsimp only
  split
  · exact noPost_of_eq rfl rfl trivial fun _ => trivial
  · exact noPost_of_same (t := { s with remoteSession := false }) rfl rfl rfl (sessionCall_noPost (by decide))

theorem upTry_posting (s : Session) (bytes : Bytes) (tries : ℕ) : Posting s bytes (s.upTry bytes tries) := by
  unfold upTry
  dsimp only
  split
  · exact ⟨rfl, .inl ⟨⟨tries, rfl⟩, by rw [posts_append rfl, if_pos rfl]⟩⟩
  · exact ⟨rfl, .inr ⟨rfl, posts_of_eq rfl⟩⟩

end Session

/-- What a step does to the posts. -/
inductive UpEffect (s : Session) (a : Act) (s' : Session) : Prop
  /-- the worker takes a chunk from the handlers and posts it -/
  | drained (bytes : Bytes) (hpc : s.pc.NotUp) (hrun : ¬s.pc.Stopped) (htakes : s.takes a = bytes)
      (hmax : bytes.length ≤ remoteUpMax) (h : Posting s bytes s')
  /-- a post is answered with 200 -/
  | confirmed (bytes : Bytes) (tries : ℕ) (hpc : s.pc = .up bytes tries) (hconf : s.confirms a = true)
      (htakes : s.takes a = []) (hposts : s.posts s' = [])
      (hnext : s'.pc = .finished ∨ s'.pc = .heartbeat ∧ s'.upSeq = s.upSeq + 1)
  /-- it is not, and the same chunk is posted again -/
  | retried (bytes : Bytes) (tries : ℕ) (hpc : s.pc = .up bytes tries) (htakes : s.takes a = []) (h : Posting s bytes s')
  /-- the flag changes -/
  | flag (htakes : s.takes a = []) (hposts : s.posts s' = []) (hseq : s'.upSeq = s.upSeq) (hpc : s'.pc = s.pc)
  /-- anything else -/
  | quiet (hpc : s.pc.NotUp) (htakes : s.takes a = []) (h : NoPost s s')

theorem upReply_effect {bytes : Bytes} {tries : ℕ} (hpc : s.pc = .up bytes tries) (response : Option HttpResponse) :
    UpEffect s (.reply response) (s.upReply bytes tries response) := by
  unfold Session.upReply
  split
  · rename_i r hr
    obtain ⟨rfl, hstatus⟩ := Option.filter_eq_some_iff.1 hr
    have hconf : s.confirms (.reply (some r)) = true := by
      simpa [Session.confirms, hpc] using hstatus
    split
    · exact .confirmed bytes tries hpc hconf rfl (posts_of_eq rfl) (.inl rfl)
    · exact .confirmed bytes tries hpc hconf rfl (posts_of_eq rfl) (.inr ⟨rfl, rfl⟩)
  · split
    · exact .retried bytes tries hpc rfl ⟨rfl, .inr ⟨rfl, posts_of_eq rfl⟩⟩
    · exact .retried bytes tries hpc rfl (s.upTry_posting bytes _)

theorem drainResult_effect (hpc : s.pc = .drain) {bytes : Option Bytes} (h : s.drainResult bytes = some s') :
    UpEffect s (.drained bytes) s' := by
  have hnot : s.pc.NotUp := by rw [hpc]; trivial
  have hrun : ¬s.pc.Stopped := by rw [hpc]; exact id
  have hstop : ∀ {P : Prop}, s.pc.Stopped → P := fun h => absurd h hrun
  unfold Session.drainResult at h
  split at h
  · obtain rfl := Option.some.inj h
    exact .quiet hnot rfl (noPost_of_eq rfl rfl trivial hstop)
  have htakes : ∀ bytes, s.takes (.drained (some bytes)) = bytes := fun bytes => by simp [Session.takes, hpc]
  split at h
  · rename_i hnil
    obtain rfl := Option.some.inj h
    exact .quiet hnot ((htakes _).trans hnil) (noPost_of_eq rfl rfl trivial hstop)
  split at h
  · cases h
  · rename_i hmax
    obtain rfl := Option.some.inj h
    exact .drained _ hnot hrun (htakes _) (Nat.le_of_not_lt hmax) (s.upTry_posting _ 0)

/-- **Every step of a session does one of these to its posts.** -/
theorem up_effect (h : sessionStep verify s a = some s') : UpEffect s a s' := by
  cases a with
  | tray =>
    obtain rfl := Option.some.inj h
    exact .flag rfl (posts_of_eq rfl) rfl rfl
  | enter loopback =>
    simp only [sessionStep] at h
    split at h
    · rename_i hpc
      exact Option.some.inj h ▸ .quiet (by rw [hpc]; trivial) rfl (s.enter_noPost (by rw [hpc]; exact id) loopback)
    · cases h
  | reply response =>
    have hreply : ∀ {t : Session}, s.pc.NotUp → NoPost s t → UpEffect s (.reply response) t :=
      fun hpc ht => .quiet hpc rfl ht
    simp only [sessionStep] at h
    split at h
    · rename_i hpc
      exact Option.some.inj h ▸ hreply (by rw [hpc]; trivial) (s.accepted_noPost (by rw [hpc]; exact id) response)
    · rename_i hpc
      exact Option.some.inj h ▸ hreply (by rw [hpc]; trivial) (s.downReply_noPost (by rw [hpc]; exact id) response)
    · rename_i hpc
      exact Option.some.inj h ▸ upReply_effect hpc response
    · rename_i hpc
      exact Option.some.inj h ▸ hreply (by rw [hpc]; trivial) (s.pollReply_noPost (by rw [hpc]; exact id) response)
    · rename_i hpc
      exact Option.some.inj h ▸ hreply (by rw [hpc]; trivial) (noPost_of_eq rfl rfl trivial fun _ => trivial)
    · cases h
  | test =>
    simp only [sessionStep] at h
    split at h
    · rename_i hpc
      exact Option.some.inj h ▸ .quiet (by rw [hpc]; trivial) rfl (s.test_noPost (by rw [hpc]; exact id))
    · cases h
  | next =>
    simp only [sessionStep] at h
    split at h
    · rename_i hpc
      exact Option.some.inj h ▸ .quiet (by rw [hpc]; trivial) rfl (s.nextRecord_noPost (by rw [hpc]; exact id) _ _)
    · cases h
  | send count =>
    simp only [sessionStep] at h
    split at h
    · rename_i hpc
      exact .quiet (by rw [hpc]; trivial) rfl (Session.sendPiece_noPost (by rw [hpc]; exact id) h)
    · cases h
  | drained bytes =>
    simp only [sessionStep] at h
    split at h
    · rename_i hpc
      exact drainResult_effect hpc h
    · cases h
  | beat due =>
    simp only [sessionStep] at h
    split at h
    · rename_i hpc
      exact Option.some.inj h ▸ .quiet (by rw [hpc]; trivial) rfl (s.beat_noPost (by rw [hpc]; exact id) due)
    · cases h
  | finish =>
    simp only [sessionStep] at h
    split at h
    · rename_i hpc
      exact Option.some.inj h ▸ .quiet (by rw [hpc]; trivial) rfl s.finish_noPost
    · cases h

/-! ## The whole system -/

/-- The number of the chunk at an index; they begin with 1. -/
def chunkSeq (k : ℕ) : UInt32 := UInt32.ofNat (k + 1)

/-- Below the counter's end a number is the chunk's own. -/
theorem chunkSeq_inj {k n : ℕ} (hk : k + 1 < 2 ^ 32) (h : chunkSeq k = chunkSeq n) : k ≤ n ∧ (n + 1 < 2 ^ 32 → k = n) := by
  have heq := congrArg UInt32.toNat h
  rw [chunkSeq, chunkSeq, UInt32.toNat_ofNat_of_lt' hk, UInt32.toNat_ofNat'] at heq
  constructor
  · have := Nat.mod_le (n + 1) (2 ^ 32)
    omega
  · intro hn
    rw [Nat.mod_eq_of_lt hn] at heq
    omega

/-- The system with the chunks the worker has taken from the handlers so far. -/
structure UpInv (s : UpSystem) (chunks : List Bytes) : Prop where
  output : s.output = chunks.flatten
  small : ∀ chunk ∈ chunks, chunk.length ≤ remoteUpMax
  /-- in an `up` call the last chunk is posted, under its number -/
  current : ∀ bytes tries, s.agent.pc = .up bytes tries →
    ∃ n, chunks.length = n + 1 ∧ chunks[n]? = some bytes ∧ s.agent.upSeq = chunkSeq n
  /-- between the calls of a running session the server has every chunk -/
  between : s.agent.pc.NotUp → ¬s.agent.pc.Stopped →
    s.agent.upSeq = chunkSeq chunks.length ∧ ∀ k < chunks.length, (s.stored (chunkSeq k)).isSome
  /-- it always has every chunk but the last -/
  confirmed : ∀ k, k + 1 < chunks.length → (s.stored (chunkSeq k)).isSome
  posted : ∀ p ∈ s.posted, ∃ k, p.1 = chunkSeq k ∧ chunks[k]? = some p.2
  stored : ∀ seq chunk, s.stored seq = some chunk → ∃ k, seq = chunkSeq k ∧ chunks[k]? = some chunk
  /-- a number that has not come round stands for its own chunk -/
  first : ∀ k chunk chunk', k + 1 < 2 ^ 32 → chunks[k]? = some chunk → s.stored (chunkSeq k) = some chunk' → chunk' = chunk
  received : s.operator.upAfter ≤ chunks.length ∧ s.consumed ++ s.operator.inbox = (chunks.take s.operator.upAfter).flatten

variable {t t' : UpSystem} {chunks : List Bytes}

theorem upInv_start (remote : Remote) (installId : Bytes) (paused : Bool) (sessionId uuid : Bytes)
    (session install nonce : PyVal) (timeout : ℚ) :
    UpInv (.start (.start remote installId paused sessionId uuid) (.opened session install nonce timeout)) [] where
  output := rfl
  small := fun _ h => by cases h
  current := fun _ _ h => by cases h
  between := fun _ _ => ⟨rfl, fun _ h => by cases h⟩
  confirmed := fun _ h => by cases h
  posted := fun _ h => by cases h
  stored := fun _ _ h => by cases h
  first := fun _ _ _ _ h => by cases h
  received := ⟨Nat.le_refl 0, rfl⟩

/-- A chunk the operator takes is the next one. -/
theorem acceptChunk_received (ht : UpInv t chunks) {p : UInt32 × Bytes} (hp : t.stored p.1 = some p.2) {r : RelayState}
    (hr : r.upAfter ≤ chunks.length ∧ t.consumed ++ r.inbox = (chunks.take r.upAfter).flatten) :
    (acceptChunk r p).upAfter ≤ chunks.length ∧
      t.consumed ++ (acceptChunk r p).inbox = (chunks.take (acceptChunk r p).upAfter).flatten := by
  unfold acceptChunk
  split
  · rename_i hnext
    obtain ⟨k, hseq, hget⟩ := ht.stored p.1 p.2 hp
    have hlt : r.upAfter + 1 < 2 ^ 32 := hnext ▸ p.1.toNat_lt
    have hnum : chunkSeq r.upAfter = chunkSeq k := by
      rw [← hseq, chunkSeq, ← hnext, UInt32.ofNat_toNat]
    have hle : r.upAfter < chunks.length := by
      have := (chunkSeq_inj hlt hnum).1
      obtain ⟨hk, -⟩ := List.getElem?_eq_some_iff.1 hget
      omega
    have hown : p.2 = chunks[r.upAfter] :=
      ht.first r.upAfter _ _ hlt (List.getElem?_eq_getElem hle) (by rw [hnum, ← hseq, hp])
    dsimp only
    refine ⟨hnext ▸ hle, ?_⟩
    rw [hnext, ← List.append_assoc, hr.2, List.take_add_one, List.getElem?_eq_getElem hle, List.flatten_append, hown]
    simp
  · exact hr

theorem acceptChunks_received (ht : UpInv t chunks) (recs : List (UInt32 × Bytes))
    (hrecs : ∀ p ∈ recs, t.stored p.1 = some p.2) {r : RelayState}
    (hr : r.upAfter ≤ chunks.length ∧ t.consumed ++ r.inbox = (chunks.take r.upAfter).flatten) :
    (recs.foldl acceptChunk r).upAfter ≤ chunks.length ∧
      t.consumed ++ (recs.foldl acceptChunk r).inbox = (chunks.take (recs.foldl acceptChunk r).upAfter).flatten := by
  induction recs generalizing r with
  | nil => exact hr
  | cons p recs ih =>
    exact ih (fun q hq => hrecs q (List.mem_cons_of_mem _ hq))
      (acceptChunk_received ht (hrecs p List.mem_cons_self) hr)

/-- What the server puts into an answer it has stored. -/
theorem mem_chosen {seqs : List UInt32} {p : UInt32 × Bytes} (hp : p ∈ t.chosen seqs) : t.stored p.1 = some p.2 := by
  obtain ⟨seq, -, hseq⟩ := List.mem_filterMap.1 hp
  obtain ⟨chunk, hchunk, rfl⟩ := Option.map_eq_some_iff.1 hseq
  exact hchunk

/-- The agent's step, by what it does to the posts. -/
theorem upInv_agent (ht : UpInv t chunks) {agent' : Session} (heffect : UpEffect t.agent a agent')
    (hguard : t.agent.confirms a = true → (t.stored t.agent.upSeq).isSome) :
    ∃ chunks', UpInv { t with
      agent := agent', output := t.output ++ t.agent.takes a, posted := t.posted ++ t.agent.posts agent' } chunks' := by
  cases heffect with
  | drained bytes hpc hrun htakes hmax hpost =>
    obtain ⟨hseq, hall⟩ := ht.between hpc hrun
    have hget : ∀ k chunk, chunks[k]? = some chunk → (chunks ++ [bytes])[k]? = some chunk := fun k chunk hk =>
      List.getElem?_append_left (List.getElem?_eq_some_iff.1 hk).1 ▸ hk
    refine ⟨chunks ++ [bytes], ?_⟩
    refine
      { output := ?_
        small := ?_
        current := ?_
        between := ?_
        confirmed := ?_
        posted := ?_
        stored := ?_
        first := ?_
        received := ?_ }
    · dsimp only
      rw [ht.output, htakes]
      simp
    · intro chunk hchunk
      rcases List.mem_append.1 hchunk with hchunk | hchunk
      · exact ht.small chunk hchunk
      · rw [List.mem_singleton.1 hchunk]
        exact hmax
    · intro bytes' tries' hpc'
      rcases hpost.out with ⟨⟨tries, hup⟩, -⟩ | ⟨hend, -⟩
      · obtain ⟨rfl, -⟩ := Pc.up.inj (hup.symm.trans hpc')
        exact ⟨chunks.length, by simp, by simp, hpost.seq.trans hseq⟩
      · have := hend.symm.trans hpc'
        cases this
    · intro hnot hrun'
      rcases hpost.out with ⟨⟨tries, hup⟩, -⟩ | ⟨hend, -⟩
      · dsimp only at hnot
        rw [hup] at hnot
        exact hnot.elim
      · dsimp only at hrun'
        rw [hend] at hrun'
        exact absurd trivial hrun'
    · intro k hk
      rw [List.length_append, List.length_singleton] at hk
      exact hall k (by omega)
    · intro p hp
      rcases List.mem_append.1 hp with hp | hp
      · obtain ⟨k, hk, hchunk⟩ := ht.posted p hp
        exact ⟨k, hk, hget k _ hchunk⟩
      · rcases hpost.out with ⟨-, hout⟩ | ⟨-, hout⟩
        · rw [hout, List.mem_singleton] at hp
          subst hp
          exact ⟨chunks.length, hseq, by simp⟩
        · rw [hout] at hp
          cases hp
    · intro seq chunk hstored
      obtain ⟨k, hk, hchunk⟩ := ht.stored seq chunk hstored
      exact ⟨k, hk, hget k _ hchunk⟩
    · intro k chunk chunk' hk hchunk hstored
      rcases Nat.lt_or_ge k chunks.length with hlt | hge
      · rw [List.getElem?_append_left hlt] at hchunk
        exact ht.first k chunk chunk' hk hchunk hstored
      · -- the new chunk's number has not been stored
        obtain ⟨n, hn, hget'⟩ := ht.stored _ _ hstored
        have hle := (chunkSeq_inj hk hn).1
        obtain ⟨hnlt, -⟩ := List.getElem?_eq_some_iff.1 hget'
        omega
    · obtain ⟨hle, heq⟩ := ht.received
      refine ⟨?_, ?_⟩
      · dsimp only
        rw [List.length_append]
        omega
      · dsimp only
        rw [heq, List.take_append_of_le_length hle]
  | confirmed bytes tries hpc hconf htakes hposts hnext =>
    obtain ⟨n, hlen, hget, hseq⟩ := ht.current bytes tries hpc
    have hlast := hguard hconf
    rw [hseq] at hlast
    have hall : ∀ k < chunks.length, (t.stored (chunkSeq k)).isSome := by
      intro k hk
      rcases Nat.lt_or_ge (k + 1) chunks.length with hlt | hge
      · exact ht.confirmed k hlt
      · obtain rfl : k = n := by omega
        exact hlast
    refine ⟨chunks, { ht with output := ?_, current := ?_, between := ?_, posted := ?_ }⟩
    · dsimp only
      rw [htakes, List.append_nil]
      exact ht.output
    · intro bytes' tries' hpc'
      rcases hnext with hend | ⟨hbeat, -⟩
      · have := hend.symm.trans hpc'
        cases this
      · have := hbeat.symm.trans hpc'
        cases this
    · intro hnot hrun'
      rcases hnext with hend | ⟨-, hup⟩
      · dsimp only at hrun'
        rw [hend] at hrun'
        exact absurd trivial hrun'
      · refine ⟨?_, hall⟩
        dsimp only
        rw [hup, hseq, hlen]
        exact (UInt32.ofNat_add (n + 1) 1).symm
    · dsimp only
      rw [hposts, List.append_nil]
      exact ht.posted
  | retried bytes tries hpc htakes hpost =>
    obtain ⟨n, hlen, hget, hseq⟩ := ht.current bytes tries hpc
    refine ⟨chunks, { ht with output := ?_, current := ?_, between := ?_, posted := ?_ }⟩
    · dsimp only
      rw [htakes, List.append_nil]
      exact ht.output
    · intro bytes' tries' hpc'
      rcases hpost.out with ⟨⟨tries'', hup⟩, -⟩ | ⟨hend, -⟩
      · obtain ⟨rfl, -⟩ := Pc.up.inj (hup.symm.trans hpc')
        exact ⟨n, hlen, hget, hpost.seq.trans hseq⟩
      · have := hend.symm.trans hpc'
        cases this
    · intro hnot hrun'
      rcases hpost.out with ⟨⟨tries'', hup⟩, -⟩ | ⟨hend, -⟩
      · dsimp only at hnot
        rw [hup] at hnot
        exact hnot.elim
      · dsimp only at hrun'
        rw [hend] at hrun'
        exact absurd trivial hrun'
    · intro p hp
      rcases List.mem_append.1 hp with hp | hp
      · exact ht.posted p hp
      · rcases hpost.out with ⟨-, hout⟩ | ⟨-, hout⟩
        · rw [hout, List.mem_singleton] at hp
          subst hp
          exact ⟨n, hseq, hget⟩
        · rw [hout] at hp
          cases hp
  | flag htakes hposts hseq hpc =>
    refine ⟨chunks, { ht with output := ?_, current := ?_, between := ?_, posted := ?_ }⟩
    · dsimp only
      rw [htakes, List.append_nil]
      exact ht.output
    · intro bytes tries hpc'
      obtain ⟨n, hlen, hget, hn⟩ := ht.current bytes tries (hpc.symm.trans hpc')
      exact ⟨n, hlen, hget, hseq.trans hn⟩
    · intro hnot hrun
      dsimp only at hnot hrun
      rw [hpc] at hnot hrun
      obtain ⟨hn, hall⟩ := ht.between hnot hrun
      exact ⟨hseq.trans hn, hall⟩
    · dsimp only
      rw [hposts, List.append_nil]
      exact ht.posted
  | quiet hpc htakes hno =>
    refine ⟨chunks, { ht with output := ?_, current := ?_, between := ?_, posted := ?_ }⟩
    · dsimp only
      rw [htakes, List.append_nil]
      exact ht.output
    · intro bytes tries hpc'
      have hnot := hno.pc
      dsimp only at hpc'
      rw [hpc'] at hnot
      exact hnot.elim
    · intro _ hrun
      obtain ⟨hn, hall⟩ := ht.between hpc fun hs => hrun (hno.stopped hs)
      exact ⟨hno.seq.trans hn, hall⟩
    · dsimp only
      rw [hno.posts, List.append_nil]
      exact ht.posted

/-- The server takes a chunk whose number it does not have. -/
theorem upInv_store (ht : UpInv t chunks) {p : UInt32 × Bytes} (hp : p ∈ t.posted) (hfree : t.stored p.1 = none) :
    UpInv { t with stored := t.stored.put p.1 p.2 } chunks := by
  obtain ⟨k, hk, hget⟩ := ht.posted p hp
  have hsome : ∀ seq, (t.stored seq).isSome → ((t.stored.put p.1 p.2) seq).isSome := by
    intro seq hseq
    by_cases heq : seq = p.1
    · rw [heq, FileStore.put_same]
      rfl
    · rwa [FileStore.put_ne _ _ heq]
  refine { ht with between := ?_, confirmed := ?_, stored := ?_, first := ?_ }
  · intro hnot hrun
    obtain ⟨hseq, hall⟩ := ht.between hnot hrun
    exact ⟨hseq, fun n hn => hsome _ (hall n hn)⟩
  · exact fun n hn => hsome _ (ht.confirmed n hn)
  · intro seq chunk hstored
    by_cases heq : seq = p.1
    · dsimp only at hstored
      rw [heq, FileStore.put_same] at hstored
      obtain rfl := Option.some.inj hstored
      exact ⟨k, heq.trans hk, hget⟩
    · dsimp only at hstored
      rw [FileStore.put_ne _ _ heq] at hstored
      exact ht.stored seq chunk hstored
  · intro n chunk chunk' hn hchunk hstored
    by_cases heq : chunkSeq n = p.1
    · dsimp only at hstored
      rw [heq, FileStore.put_same] at hstored
      obtain rfl := Option.some.inj hstored
      obtain ⟨hle, heq'⟩ := chunkSeq_inj hn (heq.trans hk)
      rcases Nat.lt_or_ge (k + 1) (2 ^ 32) with hlt | hge
      · obtain rfl := heq' hlt
        exact Option.some.inj (hget.symm.trans hchunk)
      · -- the number has come round, so its first chunk was confirmed
        obtain ⟨hklt, -⟩ := List.getElem?_eq_some_iff.1 hget
        have hconf := ht.confirmed n (by omega)
        rw [heq, hfree] at hconf
        cases hconf
    · dsimp only at hstored
      rw [FileStore.put_ne _ _ heq] at hstored
      exact ht.first n chunk chunk' hn hchunk hstored

/-- **One step keeps the invariant**, with the chunks taken so far. -/
theorem upInv_step (ht : ∃ chunks, UpInv t chunks) {act : UpAct} (h : upStep verify t act = some t') :
    ∃ chunks, UpInv t' chunks := by
  obtain ⟨chunks, ht⟩ := ht
  cases act with
  | agent a =>
    simp only [upStep] at h
    split at h
    · cases h
    rename_i hguard
    obtain ⟨agent', hstep, rfl⟩ := Option.map_eq_some_iff.1 h
    refine upInv_agent ht (up_effect hstep) fun hconf => ?_
    rw [hconf, Bool.true_and, Option.isNone_iff_eq_none] at hguard
    exact Option.isSome_iff_ne_none.2 hguard
  | store post =>
    simp only [upStep] at h
    split at h
    · rename_i seq chunk hpost
      split at h
      · obtain rfl := Option.some.inj h
        exact ⟨chunks, ht⟩
      · rename_i hfree
        obtain rfl := Option.some.inj h
        exact ⟨chunks, upInv_store ht (List.mem_of_getElem? hpost) hfree⟩
    · cases h
  | pull status state seqs cut =>
    simp only [upStep] at h
    split at h
    · obtain rfl := Option.some.inj h
      have hsmall : ∀ p ∈ t.chosen seqs, p.2.length < 2 ^ 32 := by
        intro p hp
        obtain ⟨k, -, hget⟩ := ht.stored _ _ (mem_chosen hp)
        have := ht.small _ (List.mem_of_getElem? hget)
        unfold remoteUpMax at this
        omega
      obtain ⟨n, hn⟩ := pullAnswer_records (t.chosen seqs) hsmall t.operator status state cut
      obtain ⟨hinbox, hafter⟩ := Prod.mk.inj hn
      have hreceived := acceptChunks_received ht ((t.chosen seqs).take n)
        (fun p hp => mem_chosen (List.mem_of_mem_take hp)) ht.received
      rw [← hinbox, ← hafter] at hreceived
      exact ⟨chunks, { ht with received := hreceived }⟩
    · cases h
  | take count =>
    simp only [upStep] at h
    split at h
    · cases h
    · obtain rfl := Option.some.inj h
      refine ⟨chunks, { ht with received := ⟨ht.received.1, ?_⟩ }⟩
      dsimp only
      rw [List.append_assoc, List.take_append_drop]
      exact ht.received.2

/-- **The relay's way up.** What the operator has received, with what is in its inbox, is
at every moment a prefix of what the agent's handlers wrote. -/
theorem relay_up_exact {remote : Remote} {installId sessionId uuid : Bytes} {paused : Bool}
    {session install nonce : PyVal} {timeout : ℚ} {as : List UpAct}
    (h : exec (upStep verify)
      (.start (.start remote installId paused sessionId uuid) (.opened session install nonce timeout)) as = some t) :
    t.consumed ++ t.operator.inbox <+: t.output := by
  obtain ⟨chunks, ht⟩ := exec_inv (I := fun t => ∃ chunks, UpInv t chunks) (fun _ _ _ ht h' => upInv_step ht h')
    ⟨[], upInv_start remote installId paused sessionId uuid session install nonce timeout⟩ h
  rw [ht.received.2, ht.output]
  exact (List.take_prefix _ _).flatten

/-- The reply is lost once, and the post is sent again; the operator polls twice. -/
def upRun : List UpAct :=
  [.agent (.enter true), .agent (.reply (some ⟨200, [], ascii "[session]\nstatus=ok\n"⟩)), .agent .test,
    .agent (.reply none), .agent (.drained (some (ascii "PONG"))), .store 0, .agent (.reply none), .store 1,
    .agent (.reply (some ⟨200, [], []⟩)), .pull 200 none [1, 1] 20, .take 3, .take 3]

def upDemoStart : UpSystem :=
  .start (.start ⟨ascii "http://relay", ascii "M-4F7K2Q", [], 60, [], [], false⟩ [] false [] [])
    (.opened .none .none .none 30)

theorem relay_up_exact_demo : ∃ t, exec (upStep fun _ _ _ => false) upDemoStart upRun = some t ∧
    t.consumed = ascii "PONG" ∧ t.consumed ++ t.operator.inbox <+: t.output := by
  have hrun : (exec (upStep fun _ _ _ => false) upDemoStart upRun).map (·.consumed) = some (ascii "PONG") := by
    decide +kernel
  obtain ⟨t, ht, hconsumed⟩ := Option.map_eq_some_iff.1 hrun
  exact ⟨t, ht, hconsumed, relay_up_exact ht⟩

end V9xRemote
