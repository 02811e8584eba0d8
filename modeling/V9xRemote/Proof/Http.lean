import V9xRemote.Lib.Marker
import V9xRemote.Spec.Http

/-!
# HTTP responses

What `httpRequest` makes of a response depends on the bytes that come and on how they end, not
on how they are cut (`http_segmentation`). `httpVerdict` is that function; the receive loop
reaches it because what it knows of the head, `httpParts`, stays the same once the head is there.
-/

namespace V9xRemote

open Bytes Marker

/-! ## What the client receives -/

theorem httpFindBodyFrom_le (buffer : Bytes) (position : ℕ) :
    httpFindBodyFrom position buffer ≤ position + buffer.length := by
  induction buffer generalizing position with
  | nil => exact Nat.zero_le _
  | cons c rest ih =>
    have hrest := ih (position + 1)
    rw [List.length_cons]
    unfold httpFindBodyFrom
    split
    · rename_i hend
      have hlength : (ascii "\r\n\r\n").length ≤ (c :: rest).length := (List.isPrefixOf_iff_prefix.1 hend).length_le
      have hfour : (ascii "\r\n\r\n").length = 4 := rfl
      rw [hfour, List.length_cons] at hlength
      omega
    · omega

theorem httpBodyStart_le {received : Bytes} {bodyStart expected : ℕ} (h : bodyStart ≤ received.length) :
    (httpBodyStart received bodyStart expected).1 ≤ received.length := by
  unfold httpBodyStart
  split
  · exact h
  · split
    · exact Nat.zero_le _
    · have hle := httpFindBodyFrom_le received 0
      rwa [Nat.zero_add] at hle

/-- What the loop leaves lies in the buffer, and so does the head. -/
theorem httpReceive_fits {capacity : ℕ} {closed : Bool} (pieces : List Bytes) {received : Bytes} {bodyStart : ℕ}
    (expected : ℕ) (h : received.length ≤ capacity) (hstart : bodyStart ≤ received.length) :
    (httpReceive capacity closed pieces received bodyStart expected).buffer.length ≤ capacity ∧
      ∀ parts, (httpReceive capacity closed pieces received bodyStart expected).parts = some parts →
        parts.1 ≤ (httpReceive capacity closed pieces received bodyStart expected).buffer.length := by
  have hdone : ∀ parts : ℕ × ℕ, some (bodyStart, expected) = some parts → parts.1 ≤ received.length := by
    rintro _ ⟨⟩
    exact hstart
  induction pieces generalizing received bodyStart expected with
  | nil =>
    unfold httpReceive
    split
    · exact ⟨h, nofun⟩
    · split
      · exact ⟨h, hdone⟩
      · exact ⟨h, nofun⟩
  | cons piece rest ih =>
    have hmore : (received ++ piece.take (capacity - received.length)).length ≤ capacity := by
      rw [List.length_append, List.length_take]
      omega
    have hlonger : received.length ≤ (received ++ piece.take (capacity - received.length)).length := by
      rw [List.length_append]
      omega
    have hnext := @httpBodyStart_le (received ++ piece.take (capacity - received.length)) bodyStart expected
      (hstart.trans hlonger)
    unfold httpReceive
    split
    · exact ⟨h, nofun⟩
    dsimp only
    split
    · exact ⟨h, hdone⟩
    split
    · refine ⟨hmore, ?_⟩
      rintro _ ⟨⟩
      exact hnext
    · refine ih _ hmore hnext ?_
      rintro _ ⟨⟩
      exact hnext

theorem httpResponseOf_fits {received : Bytes} {bodyStart expected : ℕ} {response : HttpResult}
    (h : httpResponseOf received bodyStart expected = some response) (hstart : bodyStart ≤ received.length) :
    response.bodyOffset + response.bodyLength ≤ received.length := by
  unfold httpResponseOf at h
  dsimp only at h
  split at h
  · cases h
  · rename_i hgood
    obtain rfl := Option.some.inj h
    dsimp only
    split
    · rename_i hexpected
      have hall : ¬received.length - bodyStart < expected := fun hshort => hgood (Or.inr (Or.inr ⟨hexpected, hshort⟩))
      omega
    · omega

/-- **A response lies in what was received**, and that in the buffer. -/
theorem httpRequest_fits (net : HttpNet) (request : HttpRequest) (capacity : ℕ) :
    (httpRequest net request capacity).1.length ≤ capacity ∧
      ∀ response, (httpRequest net request capacity).2 = some response →
        response.bodyOffset + response.bodyLength ≤ (httpRequest net request capacity).1.length := by
  unfold httpRequest
  split
  · exact ⟨Nat.zero_le _, nofun⟩
  split
  · exact ⟨Nat.zero_le _, nofun⟩
  split
  · exact ⟨Nat.zero_le _, nofun⟩
  rename_i stream _
  obtain ⟨hfits, hparts⟩ := @httpReceive_fits capacity stream.closed stream.pieces [] 0 httpNoLength (Nat.zero_le _)
    (Nat.zero_le _)
  refine ⟨hfits, fun response hresponse => ?_⟩
  obtain ⟨parts, hsome, hof⟩ := Option.bind_eq_some_iff.1 hresponse
  exact httpResponseOf_fits hof (hparts parts hsome)

/-! ## The head -/

/-- What the head of a response ends with. -/
def crlfCrlf : Bytes := ascii "\r\n\r\n"

theorem crlfCrlf_ne : crlfCrlf ≠ [] := by decide

theorem httpFindBodyFrom_cases (buffer : Bytes) (position : ℕ) :
    httpFindBodyFrom position buffer = 0 ∧ Missing crlfCrlf buffer ∨
      ∃ head, UpTo crlfCrlf head buffer ∧ httpFindBodyFrom position buffer = position + head.length := by
  induction buffer generalizing position with
  | nil => exact Or.inl ⟨rfl, missing_nil crlfCrlf_ne⟩
  | cons c rest ih =>
    unfold httpFindBodyFrom
    split
    · rename_i hhere
      obtain ⟨behind, hbehind⟩ := List.isPrefixOf_iff_prefix.1 hhere
      exact Or.inr ⟨crlfCrlf, UpTo.here hbehind.symm, rfl⟩
    · rename_i hnot
      have hnot : ¬crlfCrlf <+: c :: rest := fun hfront => hnot (List.isPrefixOf_iff_prefix.2 hfront)
      rcases ih (position + 1) with ⟨hzero, hmissing⟩ | ⟨head, hhead, hlength⟩
      · exact Or.inl ⟨hzero, hmissing.cons crlfCrlf_ne hnot⟩
      · refine Or.inr ⟨c :: head, hhead.cons crlfCrlf_ne hnot, ?_⟩
        rw [hlength, List.length_cons]
        omega

theorem head_pos {head all : Bytes} (h : UpTo crlfCrlf head all) : 4 ≤ head.length := h.ends.length_le

/-- **Where the body starts**: behind the shortest part that ends with an empty line. -/
theorem httpFindBody_cases (buffer : Bytes) :
    httpFindBody buffer = 0 ∧ Missing crlfCrlf buffer ∨
      ∃ head, UpTo crlfCrlf head buffer ∧ httpFindBody buffer = head.length := by
  rcases httpFindBodyFrom_cases buffer 0 with h | ⟨head, hhead, hlength⟩
  · exact Or.inl h
  · exact Or.inr ⟨head, hhead, hlength.trans (Nat.zero_add _)⟩

theorem httpFindBody_of_head {head all : Bytes} (h : UpTo crlfCrlf head all) : httpFindBody all = head.length := by
  rcases httpFindBody_cases all with ⟨-, hmissing⟩ | ⟨head', hhead', hlength⟩
  · exact absurd h.ends (hmissing head h.front)
  · rw [hlength, h.unique hhead']

theorem take_head {head all : Bytes} (h : UpTo crlfCrlf head all) : all.take head.length = head :=
  (List.prefix_iff_eq_take.1 h.front).symm

/-- What the loop knows of the head of what has come: where the body starts and how long it is. -/
def httpParts (received : Bytes) : ℕ × ℕ := httpBodyStart received 0 httpNoLength

theorem httpParts_missing {received : Bytes} (h : Missing crlfCrlf received) : httpParts received = (0, httpNoLength) := by
  rcases httpFindBody_cases received with ⟨hzero, -⟩ | ⟨head, hhead, -⟩
  · unfold httpParts httpBodyStart
    rw [if_neg (not_not.2 rfl), if_pos hzero]
  · exact absurd hhead.ends (h head hhead.front)

theorem httpParts_head {head received : Bytes} (h : UpTo crlfCrlf head received) :
    httpParts received = (head.length, httpContentLength head) := by
  have hstart := httpFindBody_of_head h
  have hpos := head_pos h
  unfold httpParts httpBodyStart
  rw [if_neg (not_not.2 rfl), if_neg (by omega), hstart, take_head h]

/-- **What is known of the head stays**: the loop looks for it only until it is there. -/
theorem httpBodyStart_parts (received more : Bytes) :
    httpBodyStart (received ++ more) (httpParts received).1 (httpParts received).2 = httpParts (received ++ more) := by
  rcases httpFindBody_cases received with ⟨-, hmissing⟩ | ⟨head, hhead, -⟩
  · rw [httpParts_missing hmissing]
    rfl
  · have hpos := head_pos hhead
    rw [httpParts_head hhead, httpParts_head (hhead.append more), httpBodyStart, if_pos (by dsimp only; omega)]

/-! ## The receive loop -/

/-- The break condition of the loop, of what has come. -/
def HttpWhole (received : Bytes) : Prop :=
  (httpParts received).1 ≠ 0 ∧ (httpParts received).2 ≠ httpNoLength ∧
    received.length - (httpParts received).1 ≥ (httpParts received).2

instance (received : Bytes) : Decidable (HttpWhole received) := inferInstanceAs (Decidable (_ ∧ _ ∧ _))

/-- A response that is whole has its head. -/
theorem HttpWhole.head {received : Bytes} (h : HttpWhole received) : ∃ head, UpTo crlfCrlf head received := by
  rcases httpFindBody_cases received with ⟨-, hmissing⟩ | ⟨head, hhead, -⟩
  · rw [HttpWhole, httpParts_missing hmissing] at h
    exact absurd rfl h.1
  · exact ⟨head, hhead⟩

theorem HttpWhole.parts {received : Bytes} (h : HttpWhole received) (more : Bytes) :
    httpParts (received ++ more) = httpParts received := by
  obtain ⟨head, hhead⟩ := h.head
  rw [httpParts_head hhead, httpParts_head (hhead.append more)]

/-- A response that is whole stays whole. -/
theorem HttpWhole.append {received : Bytes} (h : HttpWhole received) (more : Bytes) : HttpWhole (received ++ more) := by
  unfold HttpWhole
  rw [h.parts more, List.length_append]
  obtain ⟨hstart, hlength, henough⟩ := h
  exact ⟨hstart, hlength, by omega⟩

/-- The same bytes lie in the buffer, whether a piece was cut by its end or not. -/
theorem taken_flatten {capacity : ℕ} {received : Bytes} (piece more : Bytes) (hroom : received.length ≤ capacity) :
    (received ++ piece.take (capacity - received.length) ++ more).take capacity =
        (received ++ (piece ++ more)).take capacity ∧
      (received ++ piece.take (capacity - received.length) ++ more = received ++ (piece ++ more) ∨
        capacity ≤ (received ++ piece.take (capacity - received.length)).length ∧
          capacity ≤ (received ++ (piece ++ more)).length) := by
  rcases Nat.le_total piece.length (capacity - received.length) with hle | hle
  · rw [List.take_of_length_le hle, List.append_assoc]
    exact ⟨rfl, Or.inl rfl⟩
  · have hlength : (received ++ piece.take (capacity - received.length)).length = capacity := by
      rw [List.length_append, List.length_take]
      omega
    refine ⟨?_, Or.inr ⟨le_of_eq hlength.symm, ?_⟩⟩
    · rw [List.take_left' hlength, List.take_append, List.take_of_length_le hroom, List.take_append_of_le_length hle]
    · rw [List.length_append, List.length_append]
      omega

/-- **The receive loop**, whatever the pieces: it ends in a part of the buffer that is whole, or with
a full buffer, or at the end of the stream. -/
theorem httpReceive_eq {capacity : ℕ} {closed : Bool} {pieces : List Bytes} (hpieces : ∀ piece ∈ pieces, piece ≠ [])
    {received : Bytes} (hroom : received.length ≤ capacity) (hpart : ¬HttpWhole received) :
    (HttpWhole ((received ++ pieces.flatten).take capacity) →
      ∃ buffer, buffer <+: (received ++ pieces.flatten).take capacity ∧ HttpWhole buffer ∧
        httpReceive capacity closed pieces received (httpParts received).1 (httpParts received).2 =
          ⟨buffer, some (httpParts buffer)⟩) ∧
    (¬HttpWhole ((received ++ pieces.flatten).take capacity) →
      httpReceive capacity closed pieces received (httpParts received).1 (httpParts received).2 =
        if (received ++ pieces.flatten).length ≥ capacity then ⟨(received ++ pieces.flatten).take capacity, none⟩
        else ⟨received ++ pieces.flatten, if closed then some (httpParts (received ++ pieces.flatten)) else none⟩) := by
  induction pieces generalizing received with
  | nil =>
    rw [List.flatten_nil, List.append_nil, List.take_of_length_le hroom]
    refine ⟨fun hwhole => absurd hwhole hpart, fun _ => ?_⟩
    rw [httpReceive]
    split
    · rfl
    · cases closed <;> rfl
  | cons piece rest ih =>
    have hrest : ∀ p ∈ rest, p ≠ [] := fun p hp => hpieces p (List.mem_cons_of_mem _ hp)
    by_cases hfull : received.length ≥ capacity
    · -- the buffer is full
      have htake : (received ++ (piece :: rest).flatten).take capacity = received := by
        rw [← Nat.le_antisymm hroom hfull, List.take_left]
      rw [htake]
      refine ⟨fun hwhole => absurd hwhole hpart, fun _ => ?_⟩
      rw [httpReceive, if_pos hfull, if_pos (by rw [List.length_append]; omega)]
    · have htaken : piece.take (capacity - received.length) ≠ [] := by
        rw [Ne, List.take_eq_nil_iff]
        rintro (hzero | hnil)
        · omega
        · exact hpieces piece List.mem_cons_self hnil
      rw [httpReceive, if_neg hfull]
      dsimp only
      rw [if_neg htaken, httpBodyStart_parts]
      have hsame := taken_flatten piece rest.flatten hroom
      rw [List.flatten_cons]
      have hlonger : (received ++ piece.take (capacity - received.length)).length ≤ capacity := by
        rw [List.length_append, List.length_take]
        omega
      generalize hnext : received ++ piece.take (capacity - received.length) = next at hsame hlonger ⊢
      have hfront : next <+: (received ++ (piece ++ rest.flatten)).take capacity := by
        rw [← hsame.1]
        exact List.prefix_take_iff.2 ⟨List.prefix_append _ _, hlonger⟩
      by_cases hwhole : HttpWhole next
      · have hall : HttpWhole ((received ++ (piece ++ rest.flatten)).take capacity) := by
          obtain ⟨more, hmore⟩ := hfront
          exact hmore ▸ hwhole.append more
        refine ⟨fun _ => ⟨next, hfront, hwhole, ?_⟩, fun hnot => absurd hall hnot⟩
        rw [if_pos (show _ ∧ _ ∧ _ from hwhole)]
      · obtain ⟨hyes, hno⟩ := ih hrest hlonger hwhole
        rw [hsame.1] at hyes hno
        rw [if_neg (show ¬(_ ∧ _ ∧ _) from hwhole)]
        refine ⟨hyes, fun hnot => ?_⟩
        rw [hno hnot]
        rcases hsame.2 with heq | ⟨hcut, hlong⟩
        · rw [heq]
        · rw [if_pos (by rw [List.length_append]; omega), if_pos hlong]

/-! ## Outcomes -/

/-- What a response is worth: a function of the bytes that come and of how they end. -/
def httpVerdict (capacity : ℕ) (closed : Bool) (all : Bytes) : Except HttpError (ℕ × Bytes) :=
  let (start, expected) := httpParts (all.take capacity)
  let status := httpStatusCode (all.take start)
  if HttpWhole (all.take capacity) then
    if status = 0 then .error .invalidData else .ok (status, (all.drop start).take expected)
  else if all.length ≥ capacity then .error .insufficientBuffer
  else if !closed then .error .socket
  else if start = 0 ∨ status = 0 ∨ expected ≠ httpNoLength then .error .invalidData
  else .ok (status, all.drop start)

/-- The empty buffer is not whole. -/
theorem not_whole_nil : ¬HttpWhole [] := fun h => h.1 rfl

theorem httpRequest_of_stream {net : HttpNet} {request : HttpRequest} {stream : HttpStream}
    (hstream : httpStream net request = .ok stream) (capacity : ℕ) :
    httpRequest net request capacity =
      ((httpReceive capacity stream.closed stream.pieces [] 0 httpNoLength).buffer,
        (httpReceive capacity stream.closed stream.pieces [] 0 httpNoLength).parts.bind fun parts =>
          httpResponseOf (httpReceive capacity stream.closed stream.pieces [] 0 httpNoLength).buffer parts.1 parts.2) := by
  unfold httpStream at hstream
  unfold httpRequest
  split at hstream
  · cases hstream
  split at hstream
  · cases hstream
  split at hstream
  · cases hstream
  obtain rfl := Except.ok.inj hstream
  rfl

/-- **The verdict is what a request comes to.** -/
theorem httpOutcome_eq {net : HttpNet} {request : HttpRequest} {stream : HttpStream}
    (hstream : httpStream net request = .ok stream) (hpieces : ∀ piece ∈ stream.pieces, piece ≠ []) (capacity : ℕ) :
    httpOutcome net request capacity = httpVerdict capacity stream.closed stream.pieces.flatten := by
  have hgot := httpRequest_of_stream hstream capacity
  obtain ⟨hyes, hno⟩ := @httpReceive_eq capacity stream.closed stream.pieces hpieces [] (Nat.zero_le _) not_whole_nil
  rw [List.nil_append, show httpParts [] = (0, httpNoLength) from rfl] at hyes hno
  unfold httpOutcome httpVerdict
  rw [hstream, hgot]
  dsimp only
  generalize stream.pieces.flatten = all at hyes hno ⊢
  by_cases hwhole : HttpWhole (all.take capacity)
  · obtain ⟨buffer, hfront, hbuffer, hreceive⟩ := hyes hwhole
    obtain ⟨more, hmore⟩ := hfront
    obtain ⟨behind, hall⟩ : ∃ behind, all = buffer ++ behind := by
      obtain ⟨tail, htail⟩ := List.take_prefix capacity all
      exact ⟨more ++ tail, by rw [← List.append_assoc, hmore, htail]⟩
    have hparts : httpParts (all.take capacity) = httpParts buffer := by rw [← hmore, hbuffer.parts]
    obtain ⟨hstart, hlength, henough⟩ := hbuffer
    have htake : all.take (httpParts buffer).1 = buffer.take (httpParts buffer).1 := by
      rw [hall, List.take_append_of_le_length]
      obtain ⟨head, hhead⟩ := HttpWhole.head ⟨hstart, hlength, henough⟩
      rw [httpParts_head hhead]
      exact hhead.front.length_le
    have hbody : (all.drop (httpParts buffer).1).take (httpParts buffer).2 =
        (buffer.drop (httpParts buffer).1).take (httpParts buffer).2 := by
      rw [hall, List.drop_append, List.take_append_of_le_length]
      rw [List.length_drop]
      exact henough
    rw [hreceive, if_pos hwhole, hparts, htake, hbody]
    simp only [Option.bind_some, httpResponseOf]
    by_cases hstatus : httpStatusCode (buffer.take (httpParts buffer).1) = 0
    · rw [if_pos hstatus, if_pos (Or.inr (Or.inl hstatus))]
      rfl
    · rw [if_neg hstatus, if_neg, if_pos hlength]
      rintro (hzero | hzero | ⟨-, hshort⟩)
      · exact hstart hzero
      · exact hstatus hzero
      · exact absurd henough (not_le.2 hshort)
  rw [hno hwhole, if_neg hwhole]
  by_cases hfull : all.length ≥ capacity
  · rw [if_pos hfull, if_pos hfull]
    have hbuffer : (all.take capacity).length ≥ capacity := by
      rw [List.length_take]
      omega
    simp only [Option.bind_none, httpReceiveError, Option.isSome_none, Bool.false_eq_true, if_false]
    rw [if_pos hbuffer]
  · rw [if_neg hfull, if_neg hfull]
    have htake : all.take capacity = all := List.take_of_length_le (by omega)
    rw [htake] at hwhole ⊢
    cases stream.closed with
    | false =>
      simp only [Bool.false_eq_true, if_false, Option.bind_none, httpReceiveError, Option.isSome_none, Bool.not_false, if_true]
      rw [if_neg hfull]
    | true =>
      simp only [if_true, Option.bind_some, httpResponseOf, Bool.not_true, Bool.false_eq_true, if_false]
      by_cases hstart : (httpParts all).1 = 0
      · rw [if_pos (Or.inl hstart), if_pos (Or.inl hstart)]
        rfl
      by_cases hstatus : httpStatusCode (all.take (httpParts all).1) = 0
      · rw [if_pos (Or.inr (Or.inl hstatus)), if_pos (Or.inr (Or.inl hstatus))]
        rfl
      by_cases hlength : (httpParts all).2 = httpNoLength
      · have hgood : ¬((httpParts all).1 = 0 ∨ httpStatusCode (all.take (httpParts all).1) = 0 ∨
            (httpParts all).2 ≠ httpNoLength ∧ all.length - (httpParts all).1 < (httpParts all).2) := by
          rintro (h | h | ⟨h, -⟩)
          · exact hstart h
          · exact hstatus h
          · exact h hlength
        have hgood' : ¬((httpParts all).1 = 0 ∨ httpStatusCode (all.take (httpParts all).1) = 0 ∨
            (httpParts all).2 ≠ httpNoLength) := by
          rintro (h | h | h)
          · exact hstart h
          · exact hstatus h
          · exact h hlength
        have hdrop : (all.drop (httpParts all).1).take (all.length - (httpParts all).1) = all.drop (httpParts all).1 :=
          List.take_of_length_le (by rw [List.length_drop])
        rw [if_neg hgood, if_neg hgood', if_neg (not_not.2 hlength)]
        dsimp only
        rw [hdrop]
      · -- a length that was given and not reached
        have hshort : all.length - (httpParts all).1 < (httpParts all).2 :=
          not_le.1 fun henough => hwhole ⟨hstart, hlength, henough⟩
        rw [if_pos (Or.inr (Or.inr ⟨hlength, hshort⟩)), if_pos (Or.inr (Or.inr hlength))]
        rfl

/-! ## Content-Length -/

/-- The lines of a head, each without its CRLF. -/
def httpLines : Bytes → List Bytes
  | [] => [[]]
  | c :: rest =>
    match httpLines rest with
    | [] => [[c]]
    | line :: lines =>
      -- the LF behind a CR stands at the front of the next line and goes with it
      if c = 13 ∧ rest.head? = some 10 then [] :: line.tail :: lines else (c :: line) :: lines

def contentLengthName : Bytes := ascii "content-length:"

/-- The value of a line with the name, in any case. -/
def lengthField (line : Bytes) : Option Bytes :=
  if httpCiEqual line contentLengthName then some (line.drop contentLengthName.length) else none

/-- The number a value begins with, behind blanks. -/
def fieldNumber (value : Bytes) : Option ℕ :=
  let digits := (value.dropWhile (· == 32)).takeWhile httpIsDigit
  if digits = [] then none else some (undecimal digits)

/-- The numbers the code can hold. -/
def lengthNumber (value : Bytes) : Option ℕ := (fieldNumber value).bind fun n => if n ≤ 4294967289 then some n else none

/-- The length that the first such line of a head gives. -/
def headLength (head : Bytes) : Option ℕ := ((httpLines head).tail.findSome? lengthField).bind lengthNumber

/-- What follows a line: nothing, or the CR of its end. -/
def LineEnd (t : Bytes) : Prop := t = [] ∨ t.head? = some 13

theorem LineEnd.dropWhile {t : Bytes} (h : LineEnd t) : t.dropWhile (· == 32) = t := by
  rcases h with rfl | h
  · rfl
  · rcases t with - | ⟨c, t⟩
    · rfl
    · obtain rfl := Option.some.inj h
      rfl

theorem LineEnd.takeWhile {t : Bytes} (h : LineEnd t) : t.takeWhile httpIsDigit = [] := by
  rcases h with rfl | h
  · rfl
  · rcases t with - | ⟨c, t⟩
    · rfl
    · obtain rfl := Option.some.inj h
      rfl

/-- The digits of a value are not continued behind its line. -/
theorem digits_of_line {t : Bytes} (h : LineEnd t) (value : Bytes) :
    ((value ++ t).dropWhile (· == 32)).takeWhile httpIsDigit = (value.dropWhile (· == 32)).takeWhile httpIsDigit := by
  have hdrop : (value ++ t).dropWhile (· == 32) = value.dropWhile (· == 32) ++ t := by
    rw [List.dropWhile_append]
    split
    · rename_i hempty
      rw [h.dropWhile, List.isEmpty_iff.1 hempty, List.nil_append]
    · rfl
  rw [hdrop, List.takeWhile_append]
  split
  · rename_i hall
    rw [h.takeWhile, List.append_nil, (List.takeWhile_prefix _).eq_of_length hall]
  · rfl

/-- The digits of a number, from one on. -/
def foldDigits (value : ℕ) (digits : Bytes) : ℕ := digits.foldl (fun n b => 10 * n + (b.toNat - 48)) value

theorem le_foldDigits (value : ℕ) (digits : Bytes) : value ≤ foldDigits value digits := by
  induction digits generalizing value with
  | nil => exact le_rfl
  | cons d digits ih =>
    have := ih (10 * value + (d.toNat - 48))
    unfold foldDigits at this ⊢
    rw [List.foldl_cons]
    omega

/-- **The digits of a length**: the number, unless it passes the last one the code can hold. -/
theorem httpLengthDigits_eq {value : ℕ} (hvalue : value ≤ 4294967289) (any : Bool) (s : Bytes) :
    httpLengthDigits value any s =
      if any = false ∧ s.takeWhile httpIsDigit = [] then httpNoLength
      else if foldDigits value (s.takeWhile httpIsDigit) ≤ 4294967289 then foldDigits value (s.takeWhile httpIsDigit)
      else httpNoLength := by
  induction s generalizing value any with
  | nil =>
    have hfold : foldDigits value [] = value := rfl
    rw [httpLengthDigits, List.takeWhile_nil, hfold, if_pos hvalue]
    cases any <;> rfl
  | cons c rest ih =>
    rw [httpLengthDigits]
    by_cases hdigit : httpIsDigit c = true
    · have htake : (c :: rest).takeWhile httpIsDigit = c :: rest.takeWhile httpIsDigit := List.takeWhile_cons_of_pos hdigit
      have hfold : foldDigits value (c :: rest.takeWhile httpIsDigit) =
          foldDigits (10 * value + (c.toNat - 48)) (rest.takeWhile httpIsDigit) := rfl
      have hc : c.toNat ≤ 57 := by
        unfold httpIsDigit at hdigit
        rw [Bool.and_eq_true, decide_eq_true_eq, decide_eq_true_eq] at hdigit
        exact UInt8.le_iff_toNat_le.1 hdigit.2
      rw [if_pos hdigit, htake, hfold]
      have hsome : ¬(any = false ∧ c :: rest.takeWhile httpIsDigit = []) := fun h => by cases h.2
      have hmore : ¬(true = false ∧ rest.takeWhile httpIsDigit = []) := fun h => by cases h.1
      rw [if_neg hsome]
      by_cases hlarge : value > 429496728
      · have := le_foldDigits (10 * value + (c.toNat - 48)) (rest.takeWhile httpIsDigit)
        rw [if_pos hlarge, if_neg (by omega)]
      · rw [if_neg hlarge, Nat.mul_comm value 10, ih (by omega), if_neg hmore]
    · have htake : (c :: rest).takeWhile httpIsDigit = [] := List.takeWhile_cons_of_neg hdigit
      have hfold : foldDigits value [] = value := rfl
      rw [if_neg hdigit, htake, hfold, if_pos hvalue]
      cases any <;> rfl

theorem lengthDigits_of_line {t : Bytes} (h : LineEnd t) (value : Bytes) :
    httpLengthDigits 0 false ((value ++ t).dropWhile (· == 32)) = (lengthNumber value).getD httpNoLength := by
  rw [httpLengthDigits_eq (Nat.zero_le _), digits_of_line h]
  unfold lengthNumber fieldNumber
  dsimp only
  by_cases hnone : (value.dropWhile (· == 32)).takeWhile httpIsDigit = []
  · rw [if_pos ⟨rfl, hnone⟩, if_pos hnone]
    rfl
  · rw [if_neg fun h => hnone h.2, if_neg hnone, Option.bind_some]
    have hfold : foldDigits 0 ((value.dropWhile (· == 32)).takeWhile httpIsDigit) =
        undecimal ((value.dropWhile (· == 32)).takeWhile httpIsDigit) := rfl
    rw [hfold]
    split <;> rfl

/-- A control character has no upper case. -/
theorem lower_eq_control {c k : UInt8} (hk : k < 32) (h : lower c = k) : c = k := by
  unfold lower at h
  split at h
  · rename_i hupper
    have h1 := UInt8.le_iff_toNat_le.1 hupper.1
    have h2 := UInt8.le_iff_toNat_le.1 hupper.2
    have h3 := UInt8.lt_iff_toNat_lt.1 hk
    rw [← h, UInt8.toNat_add] at h3
    simp only [UInt8.reduceToNat] at h1 h2 h3
    omega
  · exact h

/-- What stands behind a CR is not compared with a name that has none. -/
theorem httpCiEqual_append {name s t : Bytes} (hname : 13 ∉ name) (h : 13 ∈ s ++ t.take 1) :
    httpCiEqual (s ++ t) name = httpCiEqual s name := by
  unfold httpCiEqual
  rw [List.map_append, Bool.eq_iff_iff, List.isPrefixOf_iff_prefix, List.isPrefixOf_iff_prefix]
  refine ⟨fun hlong => ?_, fun hshort => hshort.trans (List.prefix_append _ _)⟩
  rcases Nat.lt_or_ge (s.map lower).length name.length with hlt | hle
  · -- the CR would be in the name
    have hfront : (s ++ t.take 1).map lower <+: s.map lower ++ t.map lower := by
      rw [List.map_append, List.map_take]
      exact (List.prefix_append_right_inj _).2 (List.take_prefix 1 _)
    have hcr : (s ++ t.take 1).map lower <+: name := by
      apply List.prefix_of_prefix_length_le hfront hlong
      rw [List.length_map] at hlt ⊢
      rw [List.length_append, List.length_take]
      omega
    exact absurd (hcr.subset (List.mem_map.2 ⟨13, h, rfl⟩)) hname
  · exact List.prefix_of_prefix_length_le hlong (List.prefix_append _ _) hle

/-- A name stands at the front of a text where it stands at the front of its line. -/
theorem httpCiEqual_line {name : Bytes} (hname : 13 ∉ name) {line t : Bytes} (ht : LineEnd t) :
    httpCiEqual (line ++ t) name = httpCiEqual line name := by
  rcases ht with rfl | ht
  · rw [List.append_nil]
  · apply httpCiEqual_append hname
    apply List.mem_append_right
    cases t with
    | nil => cases ht
    | cons c t => exact Option.some.inj ht ▸ List.mem_cons_self

/-- **The length the code finds** is that of the first line with the name. -/
theorem httpContentLength_lines (s : Bytes) : ∃ line lines t, httpLines s = line :: lines ∧ s = line ++ t ∧ LineEnd t ∧
    httpContentLength s = ((lines.findSome? lengthField).bind lengthNumber).getD httpNoLength := by
  induction s with
  | nil => exact ⟨[], [], [], rfl, rfl, Or.inl rfl, rfl⟩
  | cons c rest ih =>
    obtain ⟨line, lines, t, hlines, hrest, ht, hlength⟩ := ih
    rw [httpLines, hlines, httpContentLength]
    dsimp only
    by_cases hend : c = 13 ∧ rest.head? = some 10
    · obtain ⟨rfl, hlf⟩ := hend
      -- the line that follows begins behind the LF
      obtain ⟨line', rfl⟩ : ∃ line', line = 10 :: line' := by
        rcases line with - | ⟨d, line'⟩
        · rw [hrest, List.nil_append] at hlf
          rcases ht with rfl | ht
          · cases hlf
          · rw [hlf] at ht
            cases ht
        · rw [hrest, List.cons_append, List.head?_cons] at hlf
          exact ⟨line', by rw [Option.some.inj hlf]⟩
      rw [if_pos ⟨rfl, hlf⟩, List.tail_cons]
      refine ⟨[], line' :: lines, 13 :: rest, rfl, rfl, Or.inr rfl, ?_⟩
      have hmatch : httpCiEqual (13 :: rest) httpLengthName = httpCiEqual line' contentLengthName := by
        rw [hrest, ← httpCiEqual_line (show 13 ∉ contentLengthName by decide) ht]
        rfl
      rw [hmatch, List.findSome?_cons]
      by_cases hname : httpCiEqual line' contentLengthName = true
      · have hvalue : (13 :: rest).drop httpLengthName.length = line'.drop contentLengthName.length ++ t := by
          have hlong : contentLengthName.length ≤ line'.length := by
            have := (List.isPrefixOf_iff_prefix.1 hname).length_le
            rwa [List.length_map] at this
          rw [hrest, ← List.drop_append_of_le_length hlong]
          rfl
        rw [if_pos hname, lengthField, if_pos hname, hvalue, lengthDigits_of_line ht]
        rfl
      · rw [if_neg hname, lengthField, if_neg hname, hlength]
    · rw [if_neg hend]
      refine ⟨c :: line, lines, t, rfl, by rw [hrest]; rfl, ht, ?_⟩
      rw [if_neg, hlength]
      intro hmatch
      obtain ⟨more, hmore⟩ := List.isPrefixOf_iff_prefix.1 hmatch
      rw [show httpLengthName = 13 :: 10 :: contentLengthName from rfl, List.map_cons] at hmore
      rcases rest with - | ⟨d, rest⟩
      · exact absurd (List.cons.inj hmore).2 (List.cons_ne_nil _ _)
      · have hc : 13 = lower c := (List.cons.inj hmore).1
        have hd : 10 = lower d := (List.cons.inj (List.cons.inj hmore).2).1
        refine hend ⟨lower_eq_control (by decide) hc.symm, ?_⟩
        rw [List.head?_cons, lower_eq_control (by decide) hd.symm]

theorem httpContentLength_eq (head : Bytes) : httpContentLength head = (headLength head).getD httpNoLength := by
  obtain ⟨line, lines, t, hlines, -, -, hlength⟩ := httpContentLength_lines head
  rw [hlength, headLength, hlines, List.tail_cons]

theorem headLength_lt {head : Bytes} {n : ℕ} (h : headLength head = some n) : n < httpNoLength := by
  obtain ⟨value, -, hvalue⟩ := Option.bind_eq_some_iff.1 h
  obtain ⟨number, -, hvalue⟩ := Option.bind_eq_some_iff.1 hvalue
  split at hvalue
  · rename_i hle
    obtain rfl := Option.some.inj hvalue
    exact lt_of_le_of_lt hle (by decide)
  · cases hvalue

/-! ## Segmentation -/

/-- One stream, cut in two ways, with one end. A `recv` that is not the end returns something. -/
structure HttpStream.Recut (a b : HttpStream) : Prop where
  closed : a.closed = b.closed
  bytes : a.pieces.flatten = b.pieces.flatten
  left : ∀ piece ∈ a.pieces, piece ≠ []
  right : ∀ piece ∈ b.pieces, piece ≠ []

/-- **What a body has to be**: the bytes its head counts, all of them, or everything up to the
close. -/
def HttpDelivered (stream : HttpStream) (status : ℕ) (body : Bytes) : Prop :=
  ∃ head rest, stream.pieces.flatten = head ++ rest ∧ UpTo crlfCrlf head (head ++ rest) ∧ status = httpStatusCode head ∧
    (∀ n, headLength head = some n → n ≤ rest.length ∧ body = rest.take n) ∧
      (headLength head = none → stream.closed = true ∧ body = rest)

theorem httpParts_length {head received : Bytes} (h : UpTo crlfCrlf head received) :
    httpParts received = (head.length, (headLength head).getD httpNoLength) := by
  rw [httpParts_head h, httpContentLength_eq]

/-- **A verdict in favour** gives the body of the whole stream. -/
theorem httpVerdict_ok {capacity status : ℕ} {body : Bytes} {stream : HttpStream}
    (h : httpVerdict capacity stream.closed stream.pieces.flatten = .ok (status, body)) : HttpDelivered stream status body := by
  unfold HttpDelivered
  generalize stream.pieces.flatten = all at h ⊢
  unfold httpVerdict at h
  dsimp only at h
  by_cases hwhole : HttpWhole (all.take capacity)
  · rw [if_pos hwhole] at h
    obtain ⟨head, hhead⟩ := hwhole.head
    have hall : UpTo crlfCrlf head all := by
      have := hhead.append (all.drop capacity)
      rwa [List.take_append_drop] at this
    obtain ⟨rest, rfl⟩ := hall.front
    obtain ⟨-, hknown, henough⟩ := hwhole
    rw [httpParts_length hhead] at h hknown henough
    dsimp only at h hknown henough
    rw [List.take_left, List.drop_left] at h
    split at h
    · cases h
    · obtain ⟨rfl, rfl⟩ := Prod.mk.inj (Except.ok.inj h)
      refine ⟨head, rest, rfl, hall, rfl, fun n hn => ?_, fun hnone => ?_⟩
      · rw [hn, Option.getD_some] at henough ⊢
        refine ⟨?_, rfl⟩
        have hshort : ((head ++ rest).take capacity).length ≤ (head ++ rest).length := by
          rw [List.length_take]
          exact Nat.min_le_right _ _
        rw [List.length_append] at hshort
        omega
      · rw [hnone] at hknown
        exact absurd rfl hknown
  · rw [if_neg hwhole] at h
    split at h
    · cases h
    rename_i hroom
    rw [List.take_of_length_le (by omega)] at h
    split at h
    · cases h
    rename_i hclosed
    split at h
    · cases h
    rename_i hgood
    obtain ⟨hstart, hgood⟩ := not_or.1 hgood
    obtain ⟨-, hlength⟩ := not_or.1 hgood
    rcases httpFindBody_cases all with ⟨-, hmissing⟩ | ⟨head, hhead, -⟩
    · rw [httpParts_missing hmissing] at hstart
      exact absurd rfl hstart
    · obtain ⟨rest, rfl⟩ := hhead.front
      rw [httpParts_length hhead] at h hlength
      dsimp only at h hlength
      rw [List.take_left, List.drop_left] at h
      obtain ⟨rfl, rfl⟩ := Prod.mk.inj (Except.ok.inj h)
      refine ⟨head, rest, rfl, hhead, rfl, fun n hn => ?_, fun _ => ⟨by simpa using hclosed, rfl⟩⟩
      rw [hn, Option.getD_some] at hlength
      exact absurd (not_not.1 hlength) (headLength_lt hn).ne

/-- A request gets as far with either cut. -/
theorem httpStream_recut {net net' : HttpNet}
    (hcut : ∀ host port sent, Option.Rel HttpStream.Recut (net host port sent) (net' host port sent)) (request : HttpRequest) :
    (∃ error, httpStream net request = .error error ∧ httpStream net' request = .error error) ∨
      ∃ stream stream', httpStream net request = .ok stream ∧ httpStream net' request = .ok stream' ∧ stream.Recut stream' := by
  unfold httpStream
  split
  · exact Or.inl ⟨_, rfl, rfl⟩
  split
  · exact Or.inl ⟨_, rfl, rfl⟩
  rename_i url _ _ head _
  have hrel := hcut url.host url.port (head ++ request.body.getD [])
  generalize net url.host url.port (head ++ request.body.getD []) = stream? at hrel ⊢
  generalize net' url.host url.port (head ++ request.body.getD []) = stream?' at hrel ⊢
  cases hrel with
  | none => exact Or.inl ⟨_, rfl, rfl⟩
  | some hrecut => exact Or.inr ⟨_, _, rfl, rfl, hrecut⟩

/-- **Segmentation.** However a response is cut, a request comes to the same error, or to the same
status and the same body; the body is whole; and nothing lies outside the buffer. -/
theorem http_segmentation {net net' : HttpNet}
    (hcut : ∀ host port sent, Option.Rel HttpStream.Recut (net host port sent) (net' host port sent)) (request : HttpRequest)
    (capacity : ℕ) :
    httpOutcome net request capacity = httpOutcome net' request capacity ∧
    (∀ status body, httpOutcome net request capacity = .ok (status, body) →
      ∃ stream, httpStream net request = .ok stream ∧ HttpDelivered stream status body) ∧
    (httpRequest net request capacity).1.length ≤ capacity ∧
    ∀ response, (httpRequest net request capacity).2 = some response →
      response.bodyOffset + response.bodyLength ≤ (httpRequest net request capacity).1.length := by
  obtain ⟨hfits, hinside⟩ := httpRequest_fits net request capacity
  rcases httpStream_recut hcut request with ⟨error, hleft, hright⟩ | ⟨stream, stream', hleft, hright, hrecut⟩
  · have hboth : httpOutcome net request capacity = .error error ∧ httpOutcome net' request capacity = .error error := by
      unfold httpOutcome
      rw [hleft, hright]
      exact ⟨rfl, rfl⟩
    refine ⟨hboth.1.trans hboth.2.symm, fun status body hok => ?_, hfits, hinside⟩
    rw [hboth.1] at hok
    cases hok
  · have hone := httpOutcome_eq hleft hrecut.left capacity
    have htwo := httpOutcome_eq hright hrecut.right capacity
    refine ⟨?_, fun status body hok => ⟨stream, hleft, ?_⟩, hfits, hinside⟩
    · rw [hone, htwo, hrecut.closed, hrecut.bytes]
    · rw [hone] at hok
      exact httpVerdict_ok hok

/-- A response of two bytes, in one piece. -/
def shortReply : HttpStream := ⟨[ascii "HTTP/1.0 200 OK\r\nCONTENT-LENGTH: 2\r\n\r\nok!"], false⟩

/-- The same, byte by byte. -/
def shortReplyBytes : HttpStream := ⟨(ascii "HTTP/1.0 200 OK\r\nCONTENT-LENGTH: 2\r\n\r\nok!").map fun b => [b], false⟩

def shortRequest : HttpRequest := ⟨ascii "GET", ascii "http://host/file", none, none⟩

theorem http_segmentation_demo :
    httpOutcome (fun _ _ _ => some shortReply) shortRequest 64 = .ok (200, ascii "ok") ∧
    httpOutcome (fun _ _ _ => some shortReply) shortRequest 64 =
      httpOutcome (fun _ _ _ => some shortReplyBytes) shortRequest 64 := by
  have hcut : shortReply.Recut shortReplyBytes := by
    refine ⟨rfl, ?_, ?_, ?_⟩
    · decide
    · intro piece hpiece
      obtain rfl := List.mem_singleton.1 hpiece
      decide
    · intro piece hpiece
      obtain ⟨b, -, rfl⟩ := List.mem_map.1 hpiece
      exact List.cons_ne_nil _ _
  exact ⟨by decide, (http_segmentation (fun _ _ _ => .some hcut) shortRequest 64).1⟩

end V9xRemote
