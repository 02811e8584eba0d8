import Mathlib.Logic.Relation
import V9xRemote.Lib.Arrivals

/-!
# Programs that talk on a connection

A `Talk` sends, receives so many elements at a time, and ends with a result or drops the
connection. There are three ways to run one: on a stream that is all there (`exchange`), on one
that arrives in pieces while sends may fail (`run`), and against another program (`Meet.Step`).

* `run_some`, `run_none`: what `run` does is what `exchange` does with what arrives in time.
* `meet_ends`: where one order of two programs' steps comes to an end, every order can.
-/

namespace Arrival

variable {α : Type*}

/-- What arrives before the first silence. -/
def inTime : List (Arrival α) → List α
  | [] => []
  | .piece data :: rest => data ++ inTime rest
  | .silence :: _ => []

/-- Read exactly so many elements, call after call: `none` where the stream ends or falls silent
before. -/
def takeInTime : ℕ → List (Arrival α) → Option (List α × List (Arrival α))
  | 0, arrivals => some ([], arrivals)
  | _ + 1, [] => none
  | _ + 1, .silence :: _ => none
  | n + 1, .piece data :: rest =>
    if data.length ≤ n + 1 then (takeInTime (n + 1 - data.length) rest).map fun r => (data ++ r.1, r.2)
    else some (data.take (n + 1), .piece (data.drop (n + 1)) :: rest)

theorem inTime_nil : inTime ([] : List (Arrival α)) = [] := rfl

theorem inTime_piece (data : List α) (rest : List (Arrival α)) : inTime (.piece data :: rest) = data ++ inTime rest := rfl

theorem inTime_silence (rest : List (Arrival α)) : inTime (.silence :: rest) = [] := rfl

theorem takeInTime_zero (arrivals : List (Arrival α)) : takeInTime 0 arrivals = some ([], arrivals) := by
  cases arrivals <;> rfl

theorem takeInTime_nil (n : ℕ) : takeInTime (n + 1) ([] : List (Arrival α)) = none := rfl

theorem takeInTime_silence (n : ℕ) (rest : List (Arrival α)) : takeInTime (n + 1) (.silence :: rest) = none := rfl

theorem takeInTime_piece (n : ℕ) (data : List α) (rest : List (Arrival α)) : takeInTime (n + 1) (.piece data :: rest) =
    if data.length ≤ n + 1 then (takeInTime (n + 1 - data.length) rest).map fun r => (data ++ r.1, r.2)
    else some (data.take (n + 1), .piece (data.drop (n + 1)) :: rest) := rfl

/-- **What is read** is the front of what arrives in time. -/
theorem takeInTime_some {n : ℕ} {arrivals rest : List (Arrival α)} {data : List α}
    (h : takeInTime n arrivals = some (data, rest)) :
    inTime arrivals = data ++ inTime rest ∧ sent arrivals = data ++ sent rest ∧ data.length = n := by
  induction arrivals generalizing n data with
  | nil =>
    cases n with
    | zero => simp_all [takeInTime_zero]
    | succ n => simp [takeInTime_nil] at h
  | cons arrival arrivals ih =>
    cases n with
    | zero =>
      simp only [takeInTime_zero, Option.some.injEq, Prod.mk.injEq] at h
      obtain ⟨rfl, rfl⟩ := h
      simp
    | succ n =>
      cases arrival with
      | silence => simp [takeInTime_silence] at h
      | piece piece =>
        rw [takeInTime_piece] at h
        split at h
        · obtain ⟨⟨more, rest'⟩, hmore, heq⟩ := Option.map_eq_some_iff.1 h
          simp only [Prod.mk.injEq] at heq
          obtain ⟨rfl, rfl⟩ := heq
          obtain ⟨htime, hsent, hlength⟩ := ih hmore
          refine ⟨?_, ?_, ?_⟩
          · rw [inTime_piece, htime, List.append_assoc]
          · rw [sent_piece, hsent, List.append_assoc]
          · rw [List.length_append, hlength]
            omega
        · simp only [Option.some.injEq, Prod.mk.injEq] at h
          obtain ⟨rfl, rfl⟩ := h
          refine ⟨?_, ?_, ?_⟩
          · rw [inTime_piece, inTime_piece, ← List.append_assoc, List.take_append_drop]
          · rw [sent_piece, sent_piece, ← List.append_assoc, List.take_append_drop]
          · rw [List.length_take]
            omega

/-- **Nothing is read** exactly where too little arrives in time. -/
theorem takeInTime_none {n : ℕ} {arrivals : List (Arrival α)} :
    takeInTime n arrivals = none ↔ (inTime arrivals).length < n := by
  induction arrivals generalizing n with
  | nil => cases n <;> simp [takeInTime_zero, takeInTime_nil, inTime_nil]
  | cons arrival arrivals ih =>
    cases n with
    | zero => simp [takeInTime_zero]
    | succ n =>
      cases arrival with
      | silence => simp [takeInTime_silence, inTime_silence]
      | piece piece =>
        simp only [takeInTime_piece, inTime_piece, List.length_append]
        split
        · rw [Option.map_eq_none_iff, ih]
          omega
        · simp only [reduceCtorEq, false_iff]
          omega

/-- Enough arrives in time. -/
theorem takeInTime_append {n : ℕ} {arrivals : List (Arrival α)} {data rest : List α} (hn : data.length = n)
    (h : inTime arrivals = data ++ rest) : ∃ left, takeInTime n arrivals = some (data, left) ∧ inTime left = rest := by
  cases htake : takeInTime n arrivals with
  | none =>
    rw [takeInTime_none, h, List.length_append] at htake
    omega
  | some r =>
    obtain ⟨data', left⟩ := r
    obtain ⟨htime, -, hlength⟩ := takeInTime_some htake
    rw [h] at htime
    obtain ⟨rfl, rfl⟩ := List.append_inj htime (by omega)
    exact ⟨left, rfl, rfl⟩

theorem inTime_eq_sent {arrivals : List (Arrival α)} (hnone : .silence ∉ arrivals) : inTime arrivals = sent arrivals := by
  induction arrivals with
  | nil => rfl
  | cons arrival arrivals ih =>
    obtain ⟨hhead, htail⟩ := not_or.1 (mt List.mem_cons.2 hnone)
    cases arrival with
    | silence => exact absurd rfl hhead
    | piece data => rw [inTime_piece, sent_piece, ih htail]

theorem takeInTime_noSilence {n : ℕ} {arrivals rest : List (Arrival α)} {data : List α}
    (h : takeInTime n arrivals = some (data, rest)) (hnone : .silence ∉ arrivals) : .silence ∉ rest := by
  induction arrivals generalizing n data with
  | nil =>
    cases n with
    | zero => simp_all [takeInTime_zero]
    | succ n => simp [takeInTime_nil] at h
  | cons arrival arrivals ih =>
    obtain ⟨hhead, htail⟩ := not_or.1 (mt List.mem_cons.2 hnone)
    cases n with
    | zero =>
      simp only [takeInTime_zero, Option.some.injEq, Prod.mk.injEq] at h
      rwa [← h.2]
    | succ n =>
      cases arrival with
      | silence => exact absurd rfl hhead
      | piece piece =>
        rw [takeInTime_piece] at h
        split at h
        · obtain ⟨⟨more, rest'⟩, hmore, heq⟩ := Option.map_eq_some_iff.1 h
          simp only [Prod.mk.injEq] at heq
          obtain ⟨-, rfl⟩ := heq
          exact ih hmore htail
        · simp only [Option.some.injEq, Prod.mk.injEq] at h
          obtain ⟨-, rfl⟩ := h
          simp [htail]

end Arrival

open Arrival

/-- A program that sends and receives, and ends with a result or drops the connection. -/
inductive Talk (α β : Type)
  | done (result : β)
  | drop
  | send (data : List α) (next : Talk α β)
  | recv (count : ℕ) (next : List α → Talk α β)

namespace Talk

variable {α β γ : Type}

def bind : Talk α β → (β → Talk α γ) → Talk α γ
  | done result, f => f result
  | drop, _ => drop
  | send data next, f => send data (bind next f)
  | recv count next, f => recv count fun data => bind (next data) f

instance : Monad (Talk α) where
  pure := done
  bind := bind

/-- Send, and go on. -/
def say (data : List α) : Talk α Unit := send data (done ())

/-- Receive so many. -/
def hear (count : ℕ) : Talk α (List α) := recv count done

@[simp] theorem pure_eq (result : β) : (pure result : Talk α β) = done result := rfl

@[simp] theorem done_bind (result : β) (f : β → Talk α γ) : (done result >>= f) = f result := rfl

@[simp] theorem drop_bind (f : β → Talk α γ) : (drop >>= f) = drop := rfl

@[simp] theorem say_bind (data : List α) (f : Unit → Talk α γ) : (say data >>= f) = send data (f ()) := rfl

@[simp] theorem hear_bind (count : ℕ) (f : List α → Talk α γ) : (hear count >>= f) = recv count f := rfl

theorem bind_assoc {δ : Type} (t : Talk α β) (f : β → Talk α γ) (g : γ → Talk α δ) :
    (t >>= f) >>= g = t >>= fun b => f b >>= g := by
  induction t with
  | done result => rfl
  | drop => rfl
  | send data next ih => exact congrArg (send data) ih
  | recv count next ih => exact congrArg (recv count) (funext ih)

/-! ## On a stream -/

/-- A program on a stream that is all there: its result, what it sends, and what it leaves. -/
def exchange : Talk α β → List α → Option (β × List α × List α)
  | done result, input => some (result, [], input)
  | drop, _ => none
  | send data next, input => (exchange next input).map fun (result, written, rest) => (result, data ++ written, rest)
  | recv count next, input => if count ≤ input.length then exchange (next (input.take count)) (input.drop count) else none

/-- The end of a run: the result, what was sent, and what has not been read. -/
structure End (α β : Type) where
  result : Option β
  written : List α
  rest : List (Arrival α)

/-- A program on a stream that arrives in pieces; `room` is how much gets through before the
connection breaks. -/
def run : Talk α β → ℕ → List (Arrival α) → End α β
  | done result, _, arrivals => ⟨some result, [], arrivals⟩
  | drop, _, arrivals => ⟨none, [], arrivals⟩
  | send data next, room, arrivals =>
    if data.length ≤ room then
      let rest := run next (room - data.length) arrivals
      { rest with written := data ++ rest.written }
    else ⟨none, data.take room, arrivals⟩
  | recv count next, room, arrivals =>
    match takeInTime count arrivals with
    | none => ⟨none, [], arrivals⟩
    | some (data, rest) => run (next data) room rest

theorem exchange_done_eq (result : β) (input : List α) : exchange (done result) input = some (result, [], input) := rfl

theorem exchange_drop_eq (input : List α) : exchange (drop : Talk α β) input = none := rfl

theorem exchange_send_eq (data : List α) (next : Talk α β) (input : List α) : exchange (send data next) input =
    (exchange next input).map fun (result, written, rest) => (result, data ++ written, rest) := rfl

theorem exchange_recv_eq (count : ℕ) (next : List α → Talk α β) (input : List α) : exchange (recv count next) input =
    if count ≤ input.length then exchange (next (input.take count)) (input.drop count) else none := rfl

theorem run_done_eq (result : β) (room : ℕ) (arrivals : List (Arrival α)) :
    run (done result) room arrivals = ⟨some result, [], arrivals⟩ := rfl

theorem run_drop_eq (room : ℕ) (arrivals : List (Arrival α)) : run (drop : Talk α β) room arrivals = ⟨none, [], arrivals⟩ := rfl

theorem run_send_eq (data : List α) (next : Talk α β) (room : ℕ) (arrivals : List (Arrival α)) :
    run (send data next) room arrivals = if data.length ≤ room then
      { run next (room - data.length) arrivals with written := data ++ (run next (room - data.length) arrivals).written }
      else ⟨none, data.take room, arrivals⟩ := rfl

theorem run_recv_eq (count : ℕ) (next : List α → Talk α β) (room : ℕ) (arrivals : List (Arrival α)) :
    run (recv count next) room arrivals = match takeInTime count arrivals with
      | none => ⟨none, [], arrivals⟩
      | some (data, rest) => run (next data) room rest := by
  rw [run]

theorem exchange_recv {count : ℕ} {next : List α → Talk α β} {data rest : List α} (h : data.length = count) :
    exchange (recv count next) (data ++ rest) = exchange (next data) rest := by
  subst h
  rw [exchange_recv_eq, if_pos (by rw [List.length_append]; omega), List.take_left, List.drop_left]

theorem exchange_recv_some {count : ℕ} {next : List α → Talk α β} {input : List α} {out : β × List α × List α}
    (h : exchange (recv count next) input = some out) :
    ∃ data rest, data.length = count ∧ input = data ++ rest ∧ exchange (next data) rest = some out := by
  rw [exchange_recv_eq] at h
  split at h
  · next hcount => exact ⟨_, _, List.length_take_of_le hcount, (List.take_append_drop _ _).symm, h⟩
  · exact absurd h (by simp)

theorem exchange_bind (t : Talk α β) (f : β → Talk α γ) (input : List α) :
    exchange (t >>= f) input = (exchange t input).bind fun (result, written, rest) =>
      (exchange (f result) rest).map fun (result, more, rest) => (result, written ++ more, rest) := by
  induction t generalizing input with
  | done result =>
    change exchange (f result) input = _
    simp [exchange_done_eq]
  | drop => rfl
  | send data next ih =>
    change exchange (send data (next >>= f)) input = _
    simp only [exchange_send_eq, ih]
    cases hnext : exchange next input with
    | none => rfl
    | some out =>
      simp only [Option.map_some, Option.bind_some, Option.map_map]
      congr 1
      funext more
      simp
  | recv count next ih =>
    change exchange (recv count fun data => next data >>= f) input = _
    rw [exchange_recv_eq, exchange_recv_eq]
    split
    · exact ih _ _
    · rfl

theorem exchange_bind_some {t : Talk α β} {f : β → Talk α γ} {input written rest : List α} {result : γ} :
    exchange (t >>= f) input = some (result, written, rest) ↔ ∃ first said middle more,
      exchange t input = some (first, said, middle) ∧ exchange (f first) middle = some (result, more, rest) ∧
        written = said ++ more := by
  rw [exchange_bind, Option.bind_eq_some_iff]
  constructor
  · rintro ⟨⟨first, said, middle⟩, hfirst, hmap⟩
    obtain ⟨⟨result', more, rest'⟩, hmore, heq⟩ := Option.map_eq_some_iff.1 hmap
    simp only [Prod.mk.injEq] at heq
    obtain ⟨rfl, rfl, rfl⟩ := heq
    exact ⟨first, said, middle, more, hfirst, hmore, rfl⟩
  · rintro ⟨first, said, middle, more, hfirst, hmore, rfl⟩
    refine ⟨(first, said, middle), hfirst, ?_⟩
    simp only [hmore, Option.map_some]

theorem exchange_say {data input : List α} : exchange (say data) input = some ((), data, input) := by
  simp [say, exchange_send_eq, exchange_done_eq]

theorem exchange_hear {count : ℕ} {input data written rest : List α} :
    exchange (hear count) input = some (data, written, rest) ↔ data.length = count ∧ written = [] ∧ input = data ++ rest := by
  constructor
  · intro h
    obtain ⟨data', rest', hcount, rfl, hdone⟩ := exchange_recv_some h
    simp only [exchange_done_eq, Option.some.injEq, Prod.mk.injEq] at hdone
    obtain ⟨rfl, rfl, rfl⟩ := hdone
    exact ⟨hcount, rfl, rfl⟩
  · rintro ⟨hcount, rfl, rfl⟩
    exact exchange_recv hcount

/-- **A result** is that of the stream, and all that was sent got through. -/
theorem run_some {t : Talk α β} {room : ℕ} {arrivals : List (Arrival α)} {result : β}
    (h : (t.run room arrivals).result = some result) :
    t.exchange (inTime arrivals) = some (result, (t.run room arrivals).written, inTime (t.run room arrivals).rest) ∧
      (t.run room arrivals).written.length ≤ room := by
  induction t generalizing room arrivals with
  | done r => simp_all [run_done_eq, exchange_done_eq]
  | drop => simp [run_drop_eq] at h
  | send data next ih =>
    by_cases hroom : data.length ≤ room
    · simp only [run_send_eq, if_pos hroom] at h ⊢
      obtain ⟨hexchange, hlength⟩ := ih h
      rw [exchange_send_eq, hexchange]
      exact ⟨rfl, by rw [List.length_append]; omega⟩
    · simp [run_send_eq, hroom] at h
  | recv count next ih =>
    cases htake : takeInTime count arrivals with
    | none => simp [run_recv_eq, htake] at h
    | some r =>
      obtain ⟨data, rest⟩ := r
      obtain ⟨htime, -, hlength⟩ := takeInTime_some htake
      simp only [run_recv_eq, htake] at h ⊢
      rw [htime, exchange_recv hlength]
      exact ih data h

/-- **Where the stream has a result**, and there is room for what is sent, so has the run. -/
theorem run_of_exchange {t : Talk α β} {room : ℕ} {arrivals : List (Arrival α)} {result : β} {written rest : List α}
    (h : t.exchange (inTime arrivals) = some (result, written, rest)) (hroom : written.length ≤ room) :
    (t.run room arrivals).result = some result ∧ (t.run room arrivals).written = written ∧
      inTime (t.run room arrivals).rest = rest := by
  induction t generalizing room arrivals written with
  | done r => simp_all [run_done_eq, exchange_done_eq]
  | drop => simp [exchange_drop_eq] at h
  | send data next ih =>
    obtain ⟨⟨r, more, left⟩, hmore, heq⟩ := Option.map_eq_some_iff.1 h
    simp only [Prod.mk.injEq] at heq
    obtain ⟨rfl, rfl, rfl⟩ := heq
    rw [List.length_append] at hroom
    have hleft : more.length ≤ room - data.length := by omega
    obtain ⟨hresult, hwritten, hrest⟩ := ih hmore hleft
    simp only [run_send_eq, if_pos (show data.length ≤ room by omega)]
    exact ⟨hresult, congrArg (data ++ ·) hwritten, hrest⟩
  | recv count next ih =>
    rw [exchange_recv_eq] at h
    split at h
    · next hcount =>
      have hsplit : inTime arrivals = (inTime arrivals).take count ++ (inTime arrivals).drop count :=
        (List.take_append_drop _ _).symm
      obtain ⟨left, htake, htime⟩ := takeInTime_append (List.length_take_of_le hcount) hsplit
      simp only [run_recv_eq, htake]
      exact ih _ (by rwa [htime]) hroom
    · exact absurd h (by simp)

/-- **What is read** is the front of what arrives. -/
theorem run_read (t : Talk α β) (room : ℕ) (arrivals : List (Arrival α)) : ∃ read,
    inTime arrivals = read ++ inTime (t.run room arrivals).rest ∧ sent arrivals = read ++ sent (t.run room arrivals).rest := by
  induction t generalizing room arrivals with
  | done result => exact ⟨[], rfl, rfl⟩
  | drop => exact ⟨[], rfl, rfl⟩
  | send data next ih =>
    by_cases hroom : data.length ≤ room
    · simp only [run_send_eq, if_pos hroom]
      exact ih _ _
    · simp only [run_send_eq, if_neg hroom]
      exact ⟨[], rfl, rfl⟩
  | recv count next ih =>
    cases htake : takeInTime count arrivals with
    | none =>
      simp only [run_recv_eq, htake]
      exact ⟨[], rfl, rfl⟩
    | some r =>
      obtain ⟨data, rest⟩ := r
      obtain ⟨htime, hsent, -⟩ := takeInTime_some htake
      obtain ⟨read, hread, hread'⟩ := ih data room rest
      simp only [run_recv_eq, htake]
      refine ⟨data ++ read, ?_, ?_⟩
      · rw [htime, hread, List.append_assoc]
      · rw [hsent, hread', List.append_assoc]

theorem run_noSilence (t : Talk α β) (room : ℕ) {arrivals : List (Arrival α)} (hnone : .silence ∉ arrivals) :
    .silence ∉ (t.run room arrivals).rest := by
  induction t generalizing room arrivals with
  | done result => exact hnone
  | drop => exact hnone
  | send data next ih =>
    by_cases hroom : data.length ≤ room
    · simp only [run_send_eq, if_pos hroom]
      exact ih _ hnone
    · simp only [run_send_eq, if_neg hroom]
      exact hnone
  | recv count next ih =>
    cases htake : takeInTime count arrivals with
    | none =>
      simp only [run_recv_eq, htake]
      exact hnone
    | some r =>
      simp only [run_recv_eq, htake]
      exact ih _ _ (takeInTime_noSilence htake hnone)

/-- A program that begins to read, and has a result, has read something. -/
theorem run_recv_lt {count : ℕ} (hcount : 0 < count) {next : List α → Talk α β} {room : ℕ} {arrivals : List (Arrival α)}
    {result : β} (h : ((recv count next).run room arrivals).result = some result) :
    (sent ((recv count next).run room arrivals).rest).length < (sent arrivals).length := by
  cases htake : takeInTime count arrivals with
  | none => simp [run_recv_eq, htake] at h
  | some r =>
    obtain ⟨data, rest⟩ := r
    obtain ⟨-, hsent, hlength⟩ := takeInTime_some htake
    obtain ⟨read, -, hread⟩ := (next data).run_read room rest
    simp only [run_recv_eq, htake]
    rw [hsent, hread, List.length_append, List.length_append]
    omega

/-- Two programs, one behind the other. -/
theorem run_bind (t : Talk α β) (f : β → Talk α γ) (room : ℕ) (arrivals : List (Arrival α)) :
    (t >>= f).run room arrivals =
      match (t.run room arrivals).result with
      | none => ⟨none, (t.run room arrivals).written, (t.run room arrivals).rest⟩
      | some result =>
        let next := (f result).run (room - (t.run room arrivals).written.length) (t.run room arrivals).rest
        { next with written := (t.run room arrivals).written ++ next.written } := by
  induction t generalizing room arrivals with
  | done result => rfl
  | drop => rfl
  | send data next ih =>
    change (send data (next >>= f)).run room arrivals = _
    by_cases hroom : data.length ≤ room
    · simp only [run_send_eq, if_pos hroom, ih]
      cases hresult : (next.run (room - data.length) arrivals).result with
      | none => rfl
      | some result => simp only [List.append_assoc, List.length_append, Nat.sub_sub]
    · simp only [run_send_eq, if_neg hroom]
  | recv count next ih =>
    change (recv count fun data => next data >>= f).run room arrivals = _
    cases htake : takeInTime count arrivals with
    | none => simp only [run_recv_eq, htake]
    | some r => simp only [run_recv_eq, htake, ih]

/-! ## Two programs -/

/-- Two programs, and what is on its way to each. -/
structure Meet (α β γ : Type) where
  left : Talk α β
  right : Talk α γ
  toLeft : List α
  toRight : List α

/-- One of them sends, or receives what has come. -/
inductive Meet.Step : Meet α β γ → Meet α β γ → Prop
  | leftSend {data next right toLeft toRight} :
    Step ⟨send data next, right, toLeft, toRight⟩ ⟨next, right, toLeft, toRight ++ data⟩
  | leftRecv {count next right data come toLeft toRight} (hcount : data.length = count) (hcome : come = data ++ toLeft) :
    Step ⟨recv count next, right, come, toRight⟩ ⟨next data, right, toLeft, toRight⟩
  | rightSend {data next left toLeft toRight} :
    Step ⟨left, send data next, toLeft, toRight⟩ ⟨left, next, toLeft ++ data, toRight⟩
  | rightRecv {count next left data come toLeft toRight} (hcount : data.length = count) (hcome : come = data ++ toRight) :
    Step ⟨left, recv count next, toLeft, come⟩ ⟨left, next data, toLeft, toRight⟩

namespace Meet

variable {left : Talk α β} {right : Talk α γ} {toLeft toRight data : List α} {last : Meet α β γ}

/-- The left one says something while nothing else is on its way. -/
theorem left_says {f : Unit → Talk α β} (h : Relation.ReflTransGen Step ⟨f (), right, toLeft, data⟩ last) :
    Relation.ReflTransGen Step ⟨say data >>= f, right, toLeft, []⟩ last :=
  .head .leftSend h

theorem right_says {f : Unit → Talk α γ} (h : Relation.ReflTransGen Step ⟨left, f (), data, toRight⟩ last) :
    Relation.ReflTransGen Step ⟨left, say data >>= f, [], toRight⟩ last :=
  .head .rightSend h

/-- The left one hears all that is on its way. -/
theorem left_hears {count : ℕ} {f : List α → Talk α β} (hcount : data.length = count)
    (h : Relation.ReflTransGen Step ⟨f data, right, [], toRight⟩ last) :
    Relation.ReflTransGen Step ⟨hear count >>= f, right, data, toRight⟩ last :=
  .head (.leftRecv hcount (List.append_nil data).symm) h

theorem right_hears {count : ℕ} {f : List α → Talk α γ} (hcount : data.length = count)
    (h : Relation.ReflTransGen Step ⟨left, f data, toLeft, []⟩ last) :
    Relation.ReflTransGen Step ⟨left, hear count >>= f, toLeft, data⟩ last :=
  .head (.rightRecv hcount (List.append_nil data).symm) h

end Meet

/-- **Steps of both programs** can be taken in either order. -/
theorem Meet.diamond {s a b : Meet α β γ} (ha : Step s a) (hb : Step s b) : a = b ∨ ∃ c, Step a c ∧ Step b c := by
  cases ha with
  | leftSend =>
    cases hb with
    | leftSend => exact .inl rfl
    | rightSend => exact .inr ⟨_, .rightSend, .leftSend⟩
    | rightRecv hcount hcome =>
      subst hcome
      exact .inr ⟨_, .rightRecv hcount (List.append_assoc _ _ _), .leftSend⟩
  | leftRecv hcount hcome =>
    subst hcome
    cases hb with
    | leftRecv hcount' hcome' =>
      obtain ⟨rfl, rfl⟩ := List.append_inj hcome' (by omega)
      exact .inl rfl
    | rightSend => exact .inr ⟨_, .rightSend, .leftRecv hcount (List.append_assoc _ _ _)⟩
    | rightRecv hcount' hcome' => exact .inr ⟨_, .rightRecv hcount' hcome', .leftRecv hcount rfl⟩
  | rightSend =>
    cases hb with
    | leftSend => exact .inr ⟨_, .leftSend, .rightSend⟩
    | leftRecv hcount hcome =>
      subst hcome
      exact .inr ⟨_, .leftRecv hcount (List.append_assoc _ _ _), .rightSend⟩
    | rightSend => exact .inl rfl
  | rightRecv hcount hcome =>
    subst hcome
    cases hb with
    | leftSend => exact .inr ⟨_, .leftSend, .rightRecv hcount (List.append_assoc _ _ _)⟩
    | leftRecv hcount' hcome' => exact .inr ⟨_, .leftRecv hcount' hcome', .rightRecv hcount rfl⟩
    | rightRecv hcount' hcome' =>
      obtain ⟨rfl, rfl⟩ := List.append_inj hcome' (by omega)
      exact .inl rfl

/-- **The order of steps does not matter**: where one order comes to an end, every order can. -/
theorem meet_ends {s last s' : Meet α β γ} (h : Relation.ReflTransGen Meet.Step s last) (hlast : ∀ t, ¬ Meet.Step last t)
    (h' : Relation.ReflTransGen Meet.Step s s') : Relation.ReflTransGen Meet.Step s' last := by
  have hjoin : Relation.Join (Relation.ReflTransGen Meet.Step) last s' := by
    refine Relation.church_rosser ?_ h h'
    intro a b c hb hc
    rcases Meet.diamond hb hc with rfl | ⟨d, hbd, hcd⟩
    · exact ⟨b, .refl, .refl⟩
    · exact ⟨d, .single hbd, .single hcd⟩
  obtain ⟨d, hd, hd'⟩ := hjoin
  -- the end has no step of its own
  rcases Relation.ReflTransGen.cases_head hd with rfl | ⟨t, ht, -⟩
  · exact hd'
  · exact absurd ht (hlast t)

end Talk
