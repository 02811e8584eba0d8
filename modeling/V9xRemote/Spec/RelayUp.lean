import V9xRemote.Spec.Remote
import V9xRemote.Spec.RelaySession
import V9xRemote.Lib.FileStore

/-!
# The way up: from the agent's handlers to the operator

The agent's session, the server's chunks and one operator. The agent's `up` posts may
reach the server at any later time, more than once or not at all; the server keeps the
first chunk of a number and answers a post with 200 only once it has one. It answers an
operator's poll with any of its chunks, in any order and cut anywhere.
-/

namespace V9xRemote

open Bytes

/-- A chunk as the server's answer to a poll has it. -/
def upRecord (seq : UInt32) (chunk : Bytes) : Bytes :=
  ascii "V9XU" ++ (writeU32 seq ++ (writeU32 (UInt32.ofNat chunk.length) ++ chunk))

/-- The agent, what its worker took from the handlers, its posts, the server's chunks,
the operator and what its caller has received. -/
structure UpSystem where
  agent : Session
  output : Bytes
  posted : List (UInt32 × Bytes)
  stored : FileStore UInt32 Bytes
  operator : RelayState
  consumed : Bytes

inductive UpAct
  /-- a step of the agent's session -/
  | agent (a : Act)
  /-- a post reaches the server -/
  | store (post : ℕ)
  /-- a poll of the operator's is answered: with which chunks, and cut where -/
  | pull (status : ℕ) (state : Option PyStr) (seqs : List UInt32) (cut : ℕ)
  /-- `recv` returns at most so many bytes -/
  | take (count : ℕ)

/-- What the worker takes from the handlers in this step. -/
def Session.takes (s : Session) : Act → Bytes
  | .drained (some bytes) => match s.pc with
    | .drain => bytes
    | _ => []
  | _ => []

/-- The step is the answer 200 to an `up` post. -/
def Session.confirms (s : Session) : Act → Bool
  | .reply (some response) => match s.pc with
    | .up _ _ => response.status == 200
    | _ => false
  | _ => false

/-- The `up` posts between two states, with the number each carries. -/
def Session.posts (s s' : Session) : List (UInt32 × Bytes) :=
  ((s'.requests.drop s.requests.length).filter (·.op = "up")).map fun request => (s.upSeq, request.body)

namespace UpSystem

def start (agent : Session) (operator : RelayState) : UpSystem := ⟨agent, [], [], fun _ => none, operator, []⟩

/-- The chunks the server puts into an answer. -/
def chosen (s : UpSystem) (seqs : List UInt32) : List (UInt32 × Bytes) :=
  seqs.filterMap fun seq => (s.stored seq).map fun chunk => (seq, chunk)

/-- The server's answer to a poll. -/
def answer (s : UpSystem) (seqs : List UInt32) (cut : ℕ) : Bytes :=
  ((s.chosen seqs).map fun p => upRecord p.1 p.2).flatten.take cut

end UpSystem

/-- **One step of the agent, the server or the operator.** -/
def upStep (verify : Verify) (s : UpSystem) : UpAct → Option UpSystem
  | .agent a =>
    if s.agent.confirms a && (s.stored s.agent.upSeq).isNone then none
    else (sessionStep verify s.agent a).map fun agent =>
      { s with
        agent := agent, output := s.output ++ s.agent.takes a, posted := s.posted ++ s.agent.posts agent }
  | .store post =>
    match s.posted[post]? with
    | some (seq, chunk) =>
      match s.stored seq with
      | some _ => some s
      | none => some { s with stored := s.stored.put seq chunk }
    | none => none
  | .pull status state seqs cut =>
    if s.operator.inbox = [] then
      some { s with operator := (pullAnswer s.operator status state (s.answer seqs cut)).1 }
    else none
  | .take count =>
    if s.operator.inbox = [] then none
    else
      some { s with
        operator := { s.operator with inbox := s.operator.inbox.drop count },
        consumed := s.consumed ++ s.operator.inbox.take count }

end V9xRemote
