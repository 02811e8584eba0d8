import V9xRemote.Spec.Python

/-!
# A relay session's state (`RelaySession`, `mcp/v9x_relay.py`)

The fields of a session on the operator's side, and what it makes of a signed batch and
of the server's answers.
-/

namespace V9xRemote

open Bytes

def relayError (text : String) : PyExc := ⟨.relayError, text⟩

/-- ConnectionError and `socket.timeout`, as any OSError. -/
def connectionError (text : String) : PyExc := ⟨.osError, text⟩

def pipelineWindow : ℕ := 32
def relayGroup : ℕ := 4
def relayRecordHead : ℕ := 76

/-- `RelaySession`. -/
structure RelayState where
  session : PyVal
  installId : PyVal
  nonce : PyVal
  pending : Bytes
  inbox : Bytes
  downSeq : ℤ
  upAfter : ℕ
  closed : Bool
  timeout : ℚ

/-- A session the machine has taken. -/
def RelayState.opened (session installId nonce : PyVal) (timeout : ℚ) : RelayState where
  session := session
  installId := installId
  nonce := nonce
  pending := []
  inbox := []
  downSeq := 1
  upAfter := 0
  closed := false
  timeout := max timeout 30

/-! ## Down -/

/-- The end of a group of at most so many records. -/
def groupEnd (batch : Bytes) : ℕ → ℕ → Except PyExc ℕ
  | 0, stop => .ok stop
  | count + 1, stop =>
    if stop < batch.length then do
      let head ← unpackFrom batch (stop + 8) 4
      groupEnd batch count (stop + relayRecordHead + (head.readU32 0).toNat)
    else .ok stop

/-- `answer.get("next_seq") == next_seq`. -/
def carriesNext (answer : PyArgs) (nextSeq : ℤ) : Bool :=
  match PyArgs.get? answer "next_seq" with
  | .int n => n == nextSeq
  | .bool b => (if b then 1 else 0) == nextSeq
  | .float (.finite q) => q == nextSeq
  | _ => false

/-! ## Up -/

/-- The chunks of an `up` answer from `start` on, put into the inbox in turn. -/
def upChunks (data : Bytes) (start : ℕ) (s : RelayState) : RelayState × Except PyExc Unit :=
  if start + 12 ≤ data.length then
    if (data.drop start).take 4 ≠ ascii "V9XU" then (s, .error (connectionError "malformed relay reply"))
    else
      let seq := (data.readU32 (start + 4)).toNat
      let length := (data.readU32 (start + 8)).toNat
      let chunk := (data.drop (start + 12)).take length
      if chunk.length ≠ length then (s, .error (connectionError "truncated relay reply"))
      else
        upChunks data (start + 12 + length)
          (if seq = s.upAfter + 1 then { s with inbox := s.inbox ++ chunk, upAfter := seq } else s)
  else (s, .ok ())
termination_by data.length - start

/-- `_pull` from the server's answer on. -/
def pullAnswer (s : RelayState) (status : ℕ) (state : Option PyStr) (data : Bytes) : RelayState × Except PyExc Unit :=
  if status ≠ 200 then (s, .error (connectionError "relay server error while reading"))
  else
    match upChunks data 0 s with
    | (s, .error exc) => (s, .error exc)
    | (s, .ok ()) =>
      let word := state.getD (pyStr "open")
      if (word = pyStr "closed" || word = pyStr "refused") && s.inbox = [] then
        ({ s with closed := true }, .error (connectionError "relay session closed"))
      else (s, .ok ())

end V9xRemote
