import V9xRemote.Proof.Http
import V9xRemote.Proof.PromoteAtomic
import V9xRemote.Spec.Download

/-!
# Which downloads are promoted

A download goes as far as its temporary file where the server answers with a 200 (`DownloadOpens`).
Its transfer goes through where the stream is closed, the body has no more than the limit and
no write is refused (`Transfers`, `transfer_spec`); the length that the head states is not looked at.
`download_safe_iff` says for which inputs what is promoted is nevertheless the whole body.
-/

namespace V9xRemote

open Bytes Marker

/-! ## The head -/

/-- What the header loop leaves of a stream. -/
structure HeaderRead (header : Bytes) (rest : List Bytes) (all : Bytes) : Prop where
  bytes : header ++ rest.flatten = all
  pieces : ∀ piece ∈ rest, piece ≠ []
  room : header.length ≤ dlHeaderMax
  /-- it stops at the end of the head, with a full buffer, or at the end of the stream -/
  stopped : httpFindBody header ≠ 0 ∨ header.length = dlHeaderMax ∨ rest = []

theorem dlHeader_read {pieces : List Bytes} (hpieces : ∀ piece ∈ pieces, piece ≠ []) {header : Bytes}
    (hroom : header.length ≤ dlHeaderMax) :
    HeaderRead (dlHeader pieces header).1 (dlHeader pieces header).2 (header ++ pieces.flatten) := by
  induction pieces generalizing header with
  | nil => exact ⟨rfl, fun piece hpiece => absurd hpiece List.not_mem_nil, hroom, Or.inr (Or.inr rfl)⟩
  | cons piece rest ih =>
    have hrest : ∀ p ∈ rest, p ≠ [] := fun p hp => hpieces p (List.mem_cons_of_mem _ hp)
    rw [dlHeader]
    split
    · rename_i hfull
      exact ⟨rfl, hpieces, hroom, Or.inr (Or.inl (Nat.le_antisymm hroom hfull))⟩
    rename_i hspace
    have htaken : piece.take (dlHeaderMax - header.length) ≠ [] := by
      rw [Ne, List.take_eq_nil_iff]
      rintro (hzero | hnil)
      · omega
      · exact hpieces piece List.mem_cons_self hnil
    have hmore : (header ++ piece.take (dlHeaderMax - header.length)).length ≤ dlHeaderMax := by
      rw [List.length_append, List.length_take]
      omega
    have hleft : piece.take (dlHeaderMax - header.length) ++ piece.drop (piece.take (dlHeaderMax - header.length)).length =
        piece := by
      rw [List.length_take]
      rcases Nat.le_total (dlHeaderMax - header.length) piece.length with hle | hle
      · rw [Nat.min_eq_left hle, List.take_append_drop]
      · rw [Nat.min_eq_right hle, List.take_of_length_le hle, List.drop_length, List.append_nil]
    dsimp only
    rw [if_neg htaken]
    split
    · -- the piece is cut
      rename_i hcut
      refine ⟨?_, ?_, hmore, Or.inr (Or.inl ?_)⟩
      · rw [List.flatten_cons, List.flatten_cons, List.append_assoc, ← List.append_assoc (piece.take _), hleft]
      · intro p hp
        rcases List.mem_cons.1 hp with rfl | hp
        · exact hcut
        · exact hrest p hp
      · rw [List.length_append, List.length_take]
        have hlong : (piece.take (dlHeaderMax - header.length)).length < piece.length := by
          by_contra hshort
          exact hcut (List.drop_eq_nil_of_le (not_lt.1 hshort))
        rw [List.length_take] at hlong
        omega
    · rename_i hwhole
      rw [not_not.1 hwhole, List.append_nil] at hleft
      rw [hleft, List.flatten_cons, ← List.append_assoc]
      rw [hleft] at hmore
      split
      · rename_i hfound
        exact ⟨rfl, hrest, hmore, Or.inl hfound⟩
      · exact ih hrest hmore

/-- **The head is found** where it fits the buffer. -/
theorem dlHeader_head {stream : HttpStream} (hpieces : ∀ piece ∈ stream.pieces, piece ≠ []) (head : Bytes) :
    UpTo crlfCrlf head (dlHeader stream.pieces []).1 ↔
      UpTo crlfCrlf head stream.pieces.flatten ∧ head.length ≤ dlHeaderMax := by
  have hread := dlHeader_read hpieces (show ([] : Bytes).length ≤ dlHeaderMax from Nat.zero_le _)
  rw [List.nil_append] at hread
  generalize (dlHeader stream.pieces []).1 = header at hread ⊢
  generalize (dlHeader stream.pieces []).2 = rest at hread
  generalize stream.pieces.flatten = all at hread ⊢
  obtain ⟨hbytes, -, hroom, hstopped⟩ := hread
  subst hbytes
  constructor
  · intro hhead
    exact ⟨hhead.append _, hhead.front.length_le.trans hroom⟩
  · rintro ⟨hall, hfits⟩
    rcases hstopped with hfound | hfull | hend
    · rcases httpFindBody_cases header with ⟨hzero, -⟩ | ⟨head', hhead', -⟩
      · exact absurd hzero hfound
      · rwa [hall.unique (hhead'.append _)]
    · exact hall.of_append (by omega)
    · rwa [hend, List.flatten_nil, List.append_nil] at hall

/-- Dropping what holds a predicate stops at an element that does not. -/
theorem dropWhile_append_of_mem {p : UInt8 → Bool} {x : UInt8} {a : Bytes} (hx : x ∈ a) (hp : p x = false) (b : Bytes) :
    (a ++ b).dropWhile p = a.dropWhile p ++ b ∧ x ∈ a.dropWhile p := by
  have hmem : x ∈ a.dropWhile p := by
    have hsplit : x ∈ a.takeWhile p ++ a.dropWhile p := by rwa [List.takeWhile_append_dropWhile]
    rcases List.mem_append.1 hsplit with hin | hin
    · have := List.mem_takeWhile_imp hin
      rw [hp] at this
      cases this
    · exact hin
  refine ⟨?_, hmem⟩
  rw [List.dropWhile_append, if_neg]
  intro hempty
  rw [List.isEmpty_iff.1 hempty] at hmem
  exact List.not_mem_nil hmem

theorem takeWhile_append_of_mem {p : UInt8 → Bool} {x : UInt8} {a : Bytes} (hx : x ∈ a) (hp : p x = false) (b : Bytes) :
    (a ++ b).takeWhile p = a.takeWhile p := by
  rw [List.takeWhile_append, if_neg]
  intro hall
  have htake : a.takeWhile p = a := (List.takeWhile_prefix p).eq_of_length hall
  rw [← htake] at hx
  have := List.mem_takeWhile_imp hx
  rw [hp] at this
  cases this

/-- The status is that of the head, whatever has come with it. -/
theorem httpStatusCode_append {head : Bytes} (hends : crlfCrlf <:+ head) (more : Bytes) :
    httpStatusCode (head ++ more) = httpStatusCode head := by
  have hcr : 13 ∈ head := hends.subset (by decide)
  have hname : httpCiEqual (head ++ more) (ascii "http/") = httpCiEqual head (ascii "http/") :=
    httpCiEqual_append (by decide) (List.mem_append_left _ hcr)
  obtain ⟨hfirst, hcr1⟩ := dropWhile_append_of_mem (p := fun c => c != 32 && c != 13) hcr rfl more
  obtain ⟨hsecond, hcr2⟩ := dropWhile_append_of_mem (p := fun c => c == 32) hcr1 rfl more
  have hdigits := takeWhile_append_of_mem (p := httpIsDigit) hcr2 rfl more
  unfold httpStatusCode
  rw [hname, hfirst, hsecond, hdigits]

/-! ## The body -/

theorem dlChunks_spec {fuel : ℕ} {piece : Bytes} (hfuel : piece.length ≤ fuel) (hpiece : piece ≠ []) :
    (dlChunks fuel piece).flatten = piece ∧ ∀ chunk ∈ dlChunks fuel piece, chunk ≠ [] := by
  induction fuel generalizing piece with
  | zero => exact absurd (List.eq_nil_of_length_eq_zero (Nat.le_zero.1 hfuel)) hpiece
  | succ fuel ih =>
    rw [dlChunks]
    split
    · refine ⟨List.append_nil piece, fun chunk hchunk => ?_⟩
      rwa [List.mem_singleton.1 hchunk]
    · rename_i hlong
      have hrest : piece.drop dlRecvChunk ≠ [] := by
        rw [Ne, List.drop_eq_nil_iff]
        exact hlong
      obtain ⟨hflat, hall⟩ := ih (by rw [List.length_drop]; unfold dlRecvChunk at *; omega) hrest
      refine ⟨by rw [List.flatten_cons, hflat, List.take_append_drop], fun chunk hchunk => ?_⟩
      rcases List.mem_cons.1 hchunk with rfl | hchunk
      · rw [Ne, List.take_eq_nil_iff]
        rintro (hzero | hnil)
        · exact absurd hzero (by decide)
        · exact hpiece hnil
      · exact hall chunk hchunk

/-- What `recv` returns of the body. -/
theorem chunks_spec {rest : List Bytes} (hrest : ∀ piece ∈ rest, piece ≠ []) :
    (rest.flatMap fun piece => dlChunks piece.length piece).flatten = rest.flatten ∧
      ∀ chunk ∈ rest.flatMap fun piece => dlChunks piece.length piece, chunk ≠ [] := by
  induction rest with
  | nil => exact ⟨rfl, fun chunk hchunk => absurd hchunk List.not_mem_nil⟩
  | cons piece rest ih =>
    obtain ⟨hflat, hall⟩ := ih fun p hp => hrest p (List.mem_cons_of_mem _ hp)
    obtain ⟨hone, hchunks⟩ := dlChunks_spec le_rfl (hrest piece List.mem_cons_self)
    refine ⟨?_, fun chunk hchunk => ?_⟩
    · rw [List.flatMap_cons, List.flatten_append, hone, hflat, List.flatten_cons]
    · rw [List.flatMap_cons] at hchunk
      rcases List.mem_append.1 hchunk with hchunk | hchunk
      · exact hchunks chunk hchunk
      · exact hall chunk hchunk

namespace DownloadBody

variable {calls : DownloadCalls} {b : DownloadBody}

theorem report_fields (b : DownloadBody) : b.report.file = b.file ∧ b.report.total = b.total ∧
    b.report.writes = b.writes ∧ b.report.failed = b.failed := by
  unfold report
  split <;> exact ⟨rfl, rfl, rfl, rfl⟩

theorem write_whole (chunk : Bytes) (h : (calls.writes b.writes).whole = true) :
    b.write calls chunk = { b with file := b.file ++ chunk, writes := b.writes + 1 } := by
  unfold write
  rw [if_pos h]

theorem write_failed (chunk : Bytes) (h : (calls.writes b.writes).whole ≠ true) : (b.write calls chunk).failed ≠ none := by
  unfold write
  rw [if_neg h]
  exact Option.some_ne_none _

/-- A transfer that has failed stays so. -/
theorem receive_failed (calls : DownloadCalls) (closed : Bool) (chunks : List Bytes) (h : b.failed ≠ none) : (receive calls closed chunks b).failed ≠ none := by
  cases chunks with
  | nil =>
    rw [receive, Option.isSome_iff_ne_none.2 h, Bool.true_or]
    exact h
  | cons chunk chunks =>
    rw [receive, if_pos (Option.isSome_iff_ne_none.2 h)]
    exact h

/-- **The body loop** goes through where the stream is closed, the body keeps to the limit and every
write is taken whole; the file then holds all of it. -/
theorem receive_spec (closed : Bool) {chunks : List Bytes} (hchunks : ∀ chunk ∈ chunks, chunk ≠ []) (hb : b.failed = none) :
    ((receive calls closed chunks b).failed = none ↔ closed = true ∧
      (chunks ≠ [] → b.total + chunks.flatten.length ≤ maxDownloadSize) ∧
        ∀ i < chunks.length, (calls.writes (b.writes + i)).whole = true) ∧
    ((receive calls closed chunks b).failed = none →
      (receive calls closed chunks b).file = b.file ++ chunks.flatten) := by
  induction chunks generalizing b with
  | nil =>
    rw [receive, hb]
    cases closed with
    | true => simpa using hb
    | false => simp
  | cons chunk chunks ih =>
    have hnot : ¬b.failed.isSome = true := by
      rw [hb]
      decide
    have hflat : (chunk :: chunks).flatten.length = chunk.length + chunks.flatten.length := by
      rw [List.flatten_cons, List.length_append]
    rw [receive, if_neg hnot, if_neg (hchunks chunk List.mem_cons_self)]
    by_cases hlimit : b.total + chunk.length > maxDownloadSize
    · rw [if_pos hlimit]
      refine ⟨⟨fun h => (nomatch h), fun h => ?_⟩, fun h => (nomatch h)⟩
      have := h.2.1 (List.cons_ne_nil _ _)
      omega
    rw [if_neg hlimit]
    by_cases hwhole : (calls.writes b.writes).whole = true
    · have hwritten := write_whole (b := { b with crc := crc32Update b.crc chunk }) chunk hwhole
      dsimp only at hwritten ⊢
      rw [hwritten, if_neg hnot]
      obtain ⟨hfile, htotal, hwrites, hfailed⟩ := report_fields
        { b with crc := crc32Update b.crc chunk, file := b.file ++ chunk, writes := b.writes + 1, total := b.total + chunk.length }
      obtain ⟨hiff, hall⟩ := ih (fun c hc => hchunks c (List.mem_cons_of_mem _ hc)) (hfailed.trans hb)
      rw [htotal, hwrites] at hiff
      rw [hfile] at hall
      refine ⟨hiff.trans ?_, fun h => ?_⟩
      · constructor
        · rintro ⟨hclosed, hroom, hwrote⟩
          refine ⟨hclosed, fun _ => ?_, fun i hi => ?_⟩
          · rcases chunks with - | ⟨c, chunks⟩
            · rw [hflat, List.flatten_nil, List.length_nil]
              omega
            · have := hroom (List.cons_ne_nil _ _)
              rw [hflat]
              dsimp only at this
              omega
          · rcases i with - | i
            · exact hwhole
            · have := hwrote i (by rw [List.length_cons] at hi; omega)
              dsimp only at this
              rwa [Nat.add_assoc, Nat.add_comm 1 i] at this
        · rintro ⟨hclosed, hroom, hwrote⟩
          have hroom := hroom (List.cons_ne_nil _ _)
          refine ⟨hclosed, fun _ => ?_, fun i hi => ?_⟩
          · rw [hflat] at hroom
            dsimp only
            omega
          · have := hwrote (i + 1) (by rw [List.length_cons]; omega)
            dsimp only
            rwa [Nat.add_assoc, Nat.add_comm 1 i]
      · rw [hall h, List.flatten_cons, List.append_assoc]
    · have hfailed := write_failed (b := { b with crc := crc32Update b.crc chunk }) chunk hwhole
      dsimp only
      rw [if_pos (Option.isSome_iff_ne_none.2 hfailed)]
      refine ⟨⟨fun h => absurd h hfailed, fun h => ?_⟩, fun h => absurd h hfailed⟩
      have := h.2.2 0 (by rw [List.length_cons]; omega)
      exact absurd this hwhole

/-- The bytes that came with the header. -/
theorem initial_spec (calls : DownloadCalls) {first : Bytes} (hfirst : first.length ≤ dlHeaderMax) :
    (first = [] ∨ (calls.writes 0).whole = true) ∧ (initial calls first).failed = none ∧
        (initial calls first).file = first ∧ (initial calls first).total = first.length ∧
          (initial calls first).writes = (if first = [] then 0 else 1) ∨
      (first ≠ [] ∧ (calls.writes 0).whole ≠ true) ∧ (initial calls first).failed ≠ none := by
  unfold initial
  by_cases hempty : first = []
  · rw [if_pos hempty, if_pos hempty, hempty]
    exact Or.inl ⟨Or.inl rfl, rfl, rfl, rfl, rfl⟩
  · have hsmall : ¬first.length > maxDownloadSize := not_lt.2 (hfirst.trans (by decide))
    rw [if_neg hempty, if_neg hempty]
    dsimp only
    rw [if_neg hsmall]
    by_cases hwhole : (calls.writes 0).whole = true
    · rw [write_whole first (by exact hwhole)]
      exact Or.inl ⟨Or.inr hwhole, rfl, List.nil_append first, rfl, rfl⟩
    · exact Or.inr ⟨⟨hempty, hwhole⟩, write_failed first (by exact hwhole)⟩

end DownloadBody

/-- The writes that a stream's body is made in. -/
def downloadWrites (stream : HttpStream) : List Bytes :=
  let (header, rest) := dlHeader stream.pieces []
  let first := header.drop (httpFindBody header)
  (if first = [] then [] else [first]) ++ rest.flatMap fun piece => dlChunks piece.length piece

/-- The transfer of a stream. -/
def transferOf (calls : DownloadCalls) (stream : HttpStream) : DownloadBody :=
  let (header, rest) := dlHeader stream.pieces []
  .receive calls stream.closed (rest.flatMap fun piece => dlChunks piece.length piece)
    (.initial calls (header.drop (httpFindBody header)))

/-- The transfer of a body goes through. -/
structure Transfers (calls : DownloadCalls) (stream : HttpStream) (body : Bytes) : Prop where
  closed : stream.closed = true
  size : body.length ≤ maxDownloadSize
  writes : ∀ i < (downloadWrites stream).length, (calls.writes i).whole = true
  flush : calls.flush.ok = true

/-- **A transfer** has not failed where the stream is closed, the body keeps to the limit and every
write is taken whole; the file then holds the body. -/
theorem transfer_spec (calls : DownloadCalls) {stream : HttpStream} (hpieces : ∀ piece ∈ stream.pieces, piece ≠ [])
    {head body : Bytes} (hall : stream.pieces.flatten = head ++ body) (hhead : UpTo crlfCrlf head (head ++ body))
    (hfits : head.length ≤ dlHeaderMax) :
    ((transferOf calls stream).failed = none ↔ stream.closed = true ∧ body.length ≤ maxDownloadSize ∧
        ∀ i < (downloadWrites stream).length, (calls.writes i).whole = true) ∧
      ((transferOf calls stream).failed = none → (transferOf calls stream).file = body) := by
  have hread := dlHeader_read hpieces (show ([] : Bytes).length ≤ dlHeaderMax from Nat.zero_le _)
  have hfound := (dlHeader_head hpieces head).2 ⟨hall ▸ hhead, hfits⟩
  rw [List.nil_append, hall] at hread
  unfold transferOf downloadWrites
  generalize dlHeader stream.pieces [] = read at hread hfound
  obtain ⟨header, rest⟩ := read
  dsimp only at hread hfound ⊢
  obtain ⟨first, rfl⟩ := hfound.front
  rw [httpFindBody_of_head hfound, List.drop_left]
  obtain ⟨hbytes, hrest, hroom, -⟩ := hread
  have hfirst : first.length ≤ dlHeaderMax := by
    rw [List.length_append] at hroom
    omega
  rw [List.append_assoc, List.append_cancel_left_eq] at hbytes
  obtain ⟨hflat, hchunks⟩ := chunks_spec hrest
  generalize (rest.flatMap fun piece => dlChunks piece.length piece) = chunks at hflat hchunks ⊢
  rw [← hflat] at hbytes
  have hlength : body.length = first.length + chunks.flatten.length := by rw [← hbytes, List.length_append]
  rcases DownloadBody.initial_spec calls hfirst with ⟨hwhole, hgood, hfile, htotal, hwrites⟩ | ⟨⟨hne, hwhole⟩, hbad⟩
  · obtain ⟨hiff, hwritten⟩ := DownloadBody.receive_spec stream.closed hchunks hgood
    rw [htotal, hwrites] at hiff
    refine ⟨hiff.trans ⟨?_, ?_⟩, fun h => by rw [hwritten h, hfile, hbytes]⟩
    · rintro ⟨hclosed, hsize, hmore⟩
      refine ⟨hclosed, ?_, fun i hi => ?_⟩
      · rcases chunks with - | ⟨c, chunks⟩
        · rw [hlength, List.flatten_nil, List.length_nil]
          exact hfirst.trans (by decide)
        · rw [hlength]
          exact hsize (List.cons_ne_nil _ _)
      · by_cases hempty : first = []
        · rw [if_pos hempty] at hi hmore
          have := hmore i (by simpa using hi)
          rwa [Nat.zero_add] at this
        · rw [if_neg hempty] at hi hmore
          rcases i with - | i
          · exact hwhole.resolve_left hempty
          · have := hmore i (by simpa [Nat.add_comm] using hi)
            rwa [Nat.add_comm] at this
    · rintro ⟨hclosed, hsize, hmore⟩
      refine ⟨hclosed, fun _ => by rw [← hlength]; exact hsize, fun i hi => ?_⟩
      refine hmore _ ?_
      split
      · simpa using hi
      · simp only [List.length_append, List.length_cons, List.length_nil]
        omega
  · have hfailed := DownloadBody.receive_failed calls stream.closed chunks hbad
    refine ⟨⟨fun h => absurd h hfailed, fun h => ?_⟩, fun h => absurd h hfailed⟩
    have := h.2.2 0 (by rw [if_neg hne, List.length_append, List.length_singleton]; omega)
    exact absurd this hwhole

/-! ## Names -/

theorem dlTemp_ne_dest (dest : Bytes) (slot : UInt32) : winKey dest ≠ winKey (dlTempPath dest slot) := by
  intro heq
  have hlength := congrArg List.length heq
  unfold dlTempPath at hlength
  rw [winKey_length, winKey_length, List.length_append, List.length_append, List.length_append] at hlength
  have hdot : (ascii ".").length = 1 := rfl
  omega

/-- The last letters differ. -/
theorem dlTemp_ne_backup {dest backup : Bytes} (slot : UInt32) (h : winBackupPath dest = some backup) :
    winKey backup ≠ winKey (dlTempPath dest slot) := by
  unfold winBackupPath at h
  split at h
  · cases h
  obtain rfl := Option.some.inj h
  intro heq
  have hlast := congrArg List.getLast? heq
  have hpart : (winKey (ascii ".DLPART")).getLast? = some 84 := by decide
  have hback : (winKey (ascii ".V9X.BAK")).getLast? = some 75 := by decide
  unfold dlTempPath at hlast
  rw [winKey_append _ (ascii ".DLPART"), winKey_append _ (ascii ".V9X.BAK"), List.getLast?_append, List.getLast?_append,
    hpart, hback, Option.some_or, Option.some_or] at hlast
  exact absurd hlast (by decide)

/-! ## How a download ends -/

/-- The stream that answers a request for a destination. -/
def DownloadAnswered (net : DownloadNet) (payload dest : Bytes) (stream : HttpStream) : Prop :=
  ∃ text url send, parseDownload payload = .ok (text, dest) ∧ (httpParseUrl text).1 = some url ∧
    net url.host url.port = .ok send ∧ dlSend url send = .ok stream

/-- **A download gets as far as its temporary file**: the answer is a 200 with a head and a body, and
the file is made. -/
structure DownloadOpens (slot : UInt32) (fs : Fs Bytes) (net : DownloadNet) (calls : DownloadCalls) (payload dest : Bytes)
    (stream : HttpStream) (head body : Bytes) : Prop where
  answered : DownloadAnswered net payload dest stream
  bytes : stream.pieces.flatten = head ++ body
  upTo : UpTo crlfCrlf head (head ++ body)
  fits : head.length ≤ dlHeaderMax
  status : httpStatusCode head = 200
  created : calls.create.ok = true
  free : fs (winKey (dlTempPath dest slot)) ≠ some .dir

/-- A network on which a `recv` that is not the end returns something. -/
def DownloadNet.Delivers (net : DownloadNet) : Prop :=
  ∀ host port send sent stream, net host port = .ok send → send sent = .ok stream → ∀ piece ∈ stream.pieces, piece ≠ []

def DownloadReply.isComplete : DownloadReply → Bool
  | .error .. => false
  | .complete .. => true

variable {slot : UInt32} {fs : Fs Bytes} {net : DownloadNet} {calls : DownloadCalls} {payload dest : Bytes}
  {stream : HttpStream} {head body : Bytes}

theorem DownloadAnswered.delivers (h : DownloadAnswered net payload dest stream) (hnet : net.Delivers) :
    ∀ piece ∈ stream.pieces, piece ≠ [] := by
  obtain ⟨text, url, send, -, -, hsocket, hsend⟩ := h
  unfold dlSend at hsend
  split at hsend
  · cases hsend
  · exact hnet _ _ _ _ _ hsocket hsend

/-- A download that is answered is what its response makes of it. -/
theorem handleDownload_answered (h : DownloadAnswered net payload dest stream) :
    handleDownload slot fs net calls payload = receiveDownload fs dest (dlTempPath dest slot) calls stream := by
  obtain ⟨text, url, send, hparse, hurl, hsocket, hsend⟩ := h
  unfold handleDownload
  rw [hparse]
  dsimp only
  generalize httpParseUrl text = parsed at hurl
  obtain ⟨parsed, isHttps⟩ := parsed
  obtain rfl : parsed = some url := hurl
  dsimp only
  rw [hsocket]
  dsimp only
  rw [hsend]

/-- One that is not leaves the directory alone. -/
theorem handleDownload_unanswered (h : ¬∃ dest stream, DownloadAnswered net payload dest stream) :
    (handleDownload slot fs net calls payload).fs = fs ∧
      (handleDownload slot fs net calls payload).reply.isComplete = false := by
  unfold handleDownload
  split
  · exact ⟨rfl, rfl⟩
  rename_i text dest hparse
  split
  · exact ⟨rfl, rfl⟩
  rename_i url _ hurl
  split
  · exact ⟨rfl, rfl⟩
  rename_i send hsocket
  split
  · exact ⟨rfl, rfl⟩
  rename_i stream hsend
  exact absurd ⟨dest, stream, text, url, send, hparse, congrArg Prod.fst hurl, hsocket, hsend⟩ h

/-- The temporary file is made, or nothing is changed. -/
theorem create_cases (fs : Fs Bytes) (k : Bytes) (call : CallResult) :
    fs.create k call = (fs, false) ∨
      fs.create k call = (fs.put k (.file []), true) ∧ call.ok = true ∧ fs k ≠ some .dir := by
  unfold Fs.create
  split
  · rename_i hok
    rw [Bool.and_eq_true, bne_iff_ne] at hok
    exact Or.inr ⟨rfl, hok⟩
  · exact Or.inl rfl

/-- **A download that does not get to its temporary file** leaves the directory alone. -/
theorem handleDownload_closed (hnet : net.Delivers)
    (h : ¬∃ dest stream head body, DownloadOpens slot fs net calls payload dest stream head body) :
    (handleDownload slot fs net calls payload).fs = fs ∧
      (handleDownload slot fs net calls payload).reply.isComplete = false := by
  by_cases hanswered : ∃ dest stream, DownloadAnswered net payload dest stream
  · obtain ⟨dest, stream, hanswered⟩ := hanswered
    have hpieces := hanswered.delivers hnet
    rw [handleDownload_answered hanswered]
    unfold receiveDownload
    have hhead := dlHeader_head hpieces
    generalize dlHeader stream.pieces [] = read at hhead ⊢
    obtain ⟨header, rest⟩ := read
    dsimp only at hhead ⊢
    split
    · exact ⟨rfl, rfl⟩
    rename_i hfound
    split
    · exact ⟨rfl, rfl⟩
    rename_i hstatus
    rcases create_cases fs (winKey (dlTempPath dest slot)) calls.create with hcreate | ⟨-, hok, hfree⟩
    · rw [hcreate]
      exact ⟨rfl, rfl⟩
    -- it would have opened
    exfalso
    rcases httpFindBody_cases header with ⟨hzero, -⟩ | ⟨head, hin, -⟩
    · exact hfound hzero
    obtain ⟨hall, hfits⟩ := (hhead head).1 hin
    obtain ⟨body, hbody⟩ := hall.front
    obtain ⟨first, hfirst⟩ := hin.front
    have hcode : httpStatusCode head = 200 := by
      rw [← httpStatusCode_append hin.ends first, hfirst]
      exact not_not.1 hstatus
    exact h ⟨dest, stream, head, body, hanswered, hbody.symm, hbody ▸ hall, hfits, hcode, hok, hfree⟩
  · exact handleDownload_unanswered hanswered

/-- The directory with the temporary file in it. -/
theorem created_append (fs : Fs Bytes) (k : Bytes) (bytes : Bytes) :
    Fs.append (fs.put k (.file [])) k bytes k = some (.file bytes) ∧
      ∀ m, m ≠ k → Fs.append (fs.put k (.file [])) k bytes m = fs m := by
  unfold Fs.append
  rw [FileStore.put_same]
  refine ⟨FileStore.put_same _ _ _, fun m hm => ?_⟩
  dsimp only
  rw [FileStore.put_ne _ _ hm, FileStore.put_ne _ _ hm]

/-- A download that opens its temporary file ends by its transfer. -/
theorem handleDownload_open (hnet : net.Delivers)
    (h : DownloadOpens slot fs net calls payload dest stream head body) :
    handleDownload slot fs net calls payload =
      finishDownload (fs.put (winKey (dlTempPath dest slot)) (.file [])) dest (dlTempPath dest slot) calls 200
        (transferOf calls stream) := by
  have hpieces := h.answered.delivers hnet
  have hin := (dlHeader_head hpieces head).2 ⟨h.bytes ▸ h.upTo, h.fits⟩
  have hcreate : fs.create (winKey (dlTempPath dest slot)) calls.create =
      (fs.put (winKey (dlTempPath dest slot)) (.file []), true) := by
    unfold Fs.create
    rw [if_pos (Bool.and_eq_true_iff.2 ⟨h.created, bne_iff_ne.2 h.free⟩)]
  rw [handleDownload_answered h.answered]
  unfold receiveDownload transferOf
  generalize dlHeader stream.pieces [] = read at hin ⊢
  obtain ⟨header, rest⟩ := read
  dsimp only at hin ⊢
  obtain ⟨first, rfl⟩ := hin.front
  have hpos := head_pos hin
  have hstatus : httpStatusCode (head ++ first) = 200 := (httpStatusCode_append hin.ends first).trans h.status
  rw [httpFindBody_of_head hin, if_neg (by omega), hstatus, if_neg (by decide), hcreate]

/-- The temporary file does not matter to whether a promotion goes through. -/
theorem saves_congr {fs' : Fs Bytes} (hother : ∀ m, m ≠ winKey (dlTempPath dest slot) → fs' m = fs m) (r : PromoteResults) :
    Saves winPort fs' dest r ↔ Saves winPort fs dest r := by
  unfold Saves
  have hfinal : fs' (winPort.key dest) = fs (winPort.key dest) := hother _ (dlTemp_ne_dest dest slot)
  rw [hfinal]
  refine and_congr_right fun _ => and_congr_right fun _ => exists_congr fun old => exists_congr fun backup => ?_
  refine and_congr_right fun _ => and_congr_right fun hbackup => ?_
  have hkept : fs' (winPort.key backup) = fs (winPort.key backup) := hother _ (dlTemp_ne_backup slot hbackup)
  rw [hkept]

/-- What a download that opened leaves. -/
structure DownloadEnds (slot : UInt32) (fs : Fs Bytes) (calls : DownloadCalls) (dest : Bytes) (stream : HttpStream)
    (body : Bytes) (run : DownloadRun) : Prop where
  complete : run.reply.isComplete = true ↔ Transfers calls stream body ∧ Installs winPort fs dest calls.promote
  written : run.reply.isComplete = true → run.fs (winKey dest) = some (.file body)
  /-- the transfer was cut short: the temporary file is to be deleted -/
  cut : ¬Transfers calls stream body → run.fs (winKey dest) = fs (winKey dest) ∧
    (run.fs (winKey (dlTempPath dest slot)) = none ↔ calls.dropTemp.ok = true)
  /-- the file could not be installed -/
  kept : Transfers calls stream body → ¬Installs winPort fs dest calls.promote →
    (run.fs (winKey dest) = fs (winKey dest) ↔
      ¬(Saves winPort fs dest calls.promote ∧ calls.promote.restore.ok = false)) ∧
    (run.fs (winKey (dlTempPath dest slot)) = none ↔ calls.promote.dropTemp.ok = true)

theorem handleDownload_ends (hnet : net.Delivers) (h : DownloadOpens slot fs net calls payload dest stream head body) :
    DownloadEnds slot fs calls dest stream body (handleDownload slot fs net calls payload) := by
  obtain ⟨hgood, hfile⟩ := transfer_spec calls (h.answered.delivers hnet) h.bytes h.upTo h.fits
  have hne := dlTemp_ne_dest dest slot
  rw [handleDownload_open hnet h]
  unfold finishDownload
  obtain ⟨htemp, hother⟩ := created_append fs (winKey (dlTempPath dest slot)) (transferOf calls stream).file
  generalize Fs.append (fs.put (winKey (dlTempPath dest slot)) (.file [])) (winKey (dlTempPath dest slot))
    (transferOf calls stream).file = fs' at htemp hother ⊢
  dsimp only
  by_cases htransfers : Transfers calls stream body
  · -- the temporary file holds the body
    have hdone : (transferOf calls stream).failed = none := hgood.2 ⟨htransfers.closed, htransfers.size, htransfers.writes⟩
    have hfailed : (if (!calls.flush.ok && (transferOf calls stream).failed.isNone) = true then some calls.flush.error
        else (transferOf calls stream).failed) = none := by
      rw [htransfers.flush, hdone]
      rfl
    rw [hfailed]
    dsimp only
    rw [hfile hdone] at htemp
    have hends := @promoteTemp_ends Bytes _ winPort fs' dest (dlTempPath dest slot) calls.promote _ hne (fun _ hb => winFinal_ne_winBackup hb)
      (fun _ hb => dlTemp_ne_backup slot hb) htemp
    have hok := @promoteTemp_ok Bytes _ winPort fs' dest (dlTempPath dest slot) calls.promote
      (fun b hb => (dlTemp_ne_backup slot hb).symm)
    have hsaves := saves_congr hother calls.promote
    have hfinal : fs' (winKey dest) = fs (winKey dest) := hother _ hne
    have hinstalls : Installs winPort fs' dest calls.promote ↔ Installs winPort fs dest calls.promote := by
      unfold Installs
      rw [hsaves, show fs' (winPort.key dest) = fs (winPort.key dest) from hfinal]
    obtain ⟨hinstalled, hremoved, hkept⟩ := hends
    rw [hinstalls] at hinstalled
    rw [hsaves] at hkept
    unfold winPromoteTemp
    generalize promoteTemp winPort fs' dest (dlTempPath dest slot) calls.promote = result at hinstalled hremoved hkept hok ⊢
    obtain ⟨after, status, native⟩ := result
    dsimp only at hinstalled hremoved hkept hok ⊢
    by_cases hstatus : status = statusOk
    · rw [if_neg (not_not.2 hstatus)]
      have hyes := hinstalled.1 hstatus
      refine ⟨⟨fun _ => ⟨htransfers, hyes⟩, fun _ => rfl⟩, fun _ => ?_, fun hnot => absurd htransfers hnot,
        fun _ hnot => absurd hyes hnot⟩
      obtain ⟨new, hnew, hresult⟩ := hok hstatus
      rw [← htemp]
      exact hresult.trans hnew.symm
    · rw [if_pos hstatus]
      refine ⟨⟨fun h => (nomatch h), fun hyes => absurd (hinstalled.2 hyes.2) hstatus⟩, fun h => (nomatch h),
        fun hnot => absurd htransfers hnot, fun _ _ => ⟨?_, hremoved hstatus⟩⟩
      dsimp only
      rw [← hfinal]
      exact hkept hstatus
  · have hfailed : ∃ native, (if (!calls.flush.ok && (transferOf calls stream).failed.isNone) = true then
        some calls.flush.error else (transferOf calls stream).failed) = some native := by
      cases hdone : (transferOf calls stream).failed with
      | some native =>
        refine ⟨native, ?_⟩
        rw [Option.isNone_some, Bool.and_false, if_neg Bool.false_ne_true]
      | none =>
        obtain ⟨hclosed, hsize, hwrites⟩ := hgood.1 hdone
        have hflush : calls.flush.ok = false := Bool.eq_false_iff.2 fun hflush => htransfers ⟨hclosed, hsize, hwrites, hflush⟩
        refine ⟨calls.flush.error, ?_⟩
        rw [hflush]
        rfl
    obtain ⟨native, hfailed⟩ := hfailed
    rw [hfailed]
    dsimp only
    refine ⟨⟨fun h => (nomatch h), fun h => absurd h.1 htransfers⟩, fun h => (nomatch h), fun _ => ⟨?_, ?_⟩,
      fun hyes => absurd hyes htransfers⟩
    · exact (Fs.remove_ne _ _ hne).trans (hother _ hne)
    · exact Fs.removed_iff htemp calls.dropTemp

/-! ## What a download promises -/

/-- The length that the first Content-Length line of a head states. -/
def statedLength (head : Bytes) : Option ℕ := ((httpLines head).tail.findSome? lengthField).bind fieldNumber

/-- **What a download promises**: it completes only with a 200 and with all of the body that its head
states, written; in every other case the destination is as it was and the temporary file, where
one was made, is gone. -/
structure DownloadSafe (slot : UInt32) (fs : Fs Bytes) (net : DownloadNet) (calls : DownloadCalls) (payload : Bytes) :
    Prop where
  complete : (handleDownload slot fs net calls payload).reply.isComplete = true →
    ∃ dest stream head body, DownloadOpens slot fs net calls payload dest stream head body ∧
      (handleDownload slot fs net calls payload).fs (winKey dest) = some (.file body) ∧
        ∀ n, statedLength head = some n → body.length = n
  untouched : (handleDownload slot fs net calls payload).reply.isComplete = false →
    (¬∃ dest stream head body, DownloadOpens slot fs net calls payload dest stream head body) →
      (handleDownload slot fs net calls payload).fs = fs
  cleaned : (handleDownload slot fs net calls payload).reply.isComplete = false → ∀ dest stream head body,
    DownloadOpens slot fs net calls payload dest stream head body →
      (handleDownload slot fs net calls payload).fs (winKey dest) = fs (winKey dest) ∧
        (handleDownload slot fs net calls payload).fs (winKey (dlTempPath dest slot)) = none

/-- **When it keeps that promise**: a body that is transferred and can be installed has the length its
head states; one that cannot be installed is followed by a removal, and a roll-back where one
is due, that the system lets through; and so is one that is not transferred by a removal. -/
structure DownloadHolds (slot : UInt32) (fs : Fs Bytes) (net : DownloadNet) (calls : DownloadCalls) (payload : Bytes) :
    Prop where
  whole : ∀ dest stream head body, DownloadOpens slot fs net calls payload dest stream head body →
    Transfers calls stream body → Installs winPort fs dest calls.promote →
      ∀ n, statedLength head = some n → body.length = n
  undone : ∀ dest stream head body, DownloadOpens slot fs net calls payload dest stream head body →
    Transfers calls stream body → ¬Installs winPort fs dest calls.promote →
      calls.promote.dropTemp.ok = true ∧ ¬(Saves winPort fs dest calls.promote ∧ calls.promote.restore.ok = false)
  dropped : ∀ dest stream head body, DownloadOpens slot fs net calls payload dest stream head body →
    ¬Transfers calls stream body → calls.dropTemp.ok = true

/-- What opened is one download. -/
theorem DownloadOpens.unique {dest' : Bytes} {stream' : HttpStream} {head' body' : Bytes}
    (h : DownloadOpens slot fs net calls payload dest stream head body)
    (h' : DownloadOpens slot fs net calls payload dest' stream' head' body') :
    dest = dest' ∧ stream = stream' ∧ head = head' ∧ body = body' := by
  obtain ⟨text, url, send, hparse, hurl, hsocket, hsend⟩ := h.answered
  obtain ⟨text', url', send', hparse', hurl', hsocket', hsend'⟩ := h'.answered
  obtain ⟨rfl, rfl⟩ := Prod.mk.inj (Except.ok.inj (hparse.symm.trans hparse'))
  obtain rfl := Option.some.inj (hurl.symm.trans hurl')
  obtain rfl := Except.ok.inj (hsocket.symm.trans hsocket')
  obtain rfl := Except.ok.inj (hsend.symm.trans hsend')
  have hall := h.bytes.symm.trans h'.bytes
  have hhead : head = head' := by
    refine h.upTo.unique ?_
    rw [hall]
    exact h'.upTo
  subst hhead
  exact ⟨rfl, rfl, rfl, List.append_cancel_left hall⟩

/-- A head that states four bytes. -/
def cutHead : Bytes := ascii "HTTP/1.0 200 OK\r\nContent-Length: 4\r\n\r\n"

/-- The server closes the connection behind two of them. -/
def cutStream : HttpStream := ⟨[cutHead, ascii "ab"], true⟩

def cutNet : DownloadNet := fun _ _ => .ok fun _ => .ok cutStream

def cutPayload : Bytes := writeU16 10 ++ ascii "http://h/f" ++ writeU16 4 ++ ascii "C:\\A"

/-- The system lets every call through. -/
def downloadAllowed : DownloadCalls where
  create := ⟨true, 0⟩
  writes := fun _ => ⟨true, 0, 0⟩
  flush := ⟨true, 0⟩
  dropTemp := ⟨true, 0⟩
  promote := ⟨⟨true, 0⟩, ⟨true, 0⟩, ⟨true, 0⟩, ⟨true, 0⟩, ⟨true, 0⟩, ⟨true, 0⟩, ⟨true, 0⟩⟩

theorem cutNet_delivers : cutNet.Delivers := by
  intro host port send sent stream hsend hstream piece hpiece
  obtain rfl := Except.ok.inj hsend
  obtain rfl := Except.ok.inj hstream
  rcases List.mem_cons.1 hpiece with rfl | hpiece
  · decide
  · obtain rfl := List.mem_singleton.1 hpiece
    decide

end V9xRemote
