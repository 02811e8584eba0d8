import V9xRemote.Spec.McpWorld

/-!
# Relay sessions on the host (`mcp/v9x_relay.py`)

`RelayConfig` and `RelaySession`, one answer of the server or of the signing tool at a
time. What the session sends is not kept: the server's answers do not depend on it here.
-/

namespace V9xRemote

open Bytes Dialogue Mcp

def relayOpenWait : ℚ := 150
/-! ## The server -/

/-- `RelayConfig.request`: status, session headers and body. -/
def relayRequest (event : HttpAnswer → McpEvent) : Mcp (ℕ × Option PyStr × Option PyStr × Bytes) := do
  let answer ← http
  Prog.note (event answer)
  match answer with
  | .reply status state reason body => pure (status, state, reason, body)
  | .unreachable text => Prog.raise (relayError text)
  | .invalid text => Prog.raise (valueError text)
  | .broken text => Prog.raise ⟨.httpException, text⟩

/-- What `RelayConfig.json` makes of an answer. -/
def relayValue (env : McpEnv) (status : ℕ) (body : Bytes) : Except PyExc PyArgs :=
  match env.jsonLoads body with
  | .invalid => .error (relayError "something other than JSON")
  | .tooDeep => .error ⟨.recursionError, "maximum recursion depth exceeded"⟩
  | .value (.dict fields) =>
    if status ≠ 200 || !(PyArgs.getD fields "success" (.bool false)).truthy then
      .error (relayError "relay server error")
    else .ok fields
  -- `value.get` is asked of anything else
  | .value _ => .error (attributeError "object has no attribute 'get'")

/-- `RelayConfig.json`. -/
def relayJson (env : McpEnv) (event : HttpAnswer → McpEvent) : Mcp PyArgs := do
  let (status, _, _, body) ← relayRequest event
  Prog.lift (relayValue env status body)

/-- `RelayConfig.check`: the operator's key, the signing key and the signer. -/
def relayCheck (env : McpEnv) : Mcp Unit := do
  if !env.operatorKeySet then
    Prog.raise (relayError "no operator key")
  let keyThere ← test
  if !keyThere then
    Prog.raise (relayError "no relay signing key")
  let signerThere ← test
  if !signerThere then
    Prog.raise (relayError "v9xsign.exe not found")

/-! ## A session -/

def PyVal.isText (v : PyVal) (text : String) : Bool :=
  match v with
  | .str s => s == pyStr text
  | _ => false

/-- `_close_quietly`'s call. -/
def closeQuietly : Mcp Unit :=
  except (do
    let _ ← relayRequest .closing
    pure ()) (· == .relayError) fun _ => pure ()

/-- One turn of the wait for the machine. -/
def pollSession (env : McpEnv) (deadline : ℚ) (state : PyArgs) : Mcp (PyArgs ⊕ PyArgs) := do
  let now ← Prog.lift (PyArgs.item state "state")
  if now.isText "pending" then do
    let t ← monotonic
    if t < deadline then do
      let _ ← monotonic
      let state ← relayJson env .operator
      return .inl state
    else return .inr state
  else return .inr state

/-- `RelaySession.__init__`. -/
def openSession (env : McpEnv) (openWait timeout : ℚ) : Mcp RelayState := do
  relayCheck env
  let opened ← relayJson env .operator
  let session ← Prog.lift (PyArgs.item opened "session")
  let installId ← Prog.lift (PyArgs.item opened "install_id")
  let now ← monotonic
  let state ← Prog.loop (pollSession env (now + openWait)) env.fuel opened
  let word ← Prog.lift (PyArgs.item state "state")
  if !word.isText "open" then do
    closeQuietly
    Prog.raise (relayError "the machine did not take the session")
  let nonce ← Prog.lift (PyArgs.item state "nonce")
  return .opened session installId nonce timeout

def setSession (s : RelayState) : Mcp Unit := Prog.modify fun st => { st with session := some s }

/-- `RelaySession.close`. -/
def closeSession (s : RelayState) : Mcp Unit := do
  if !s.closed then do
    setSession { s with closed := true }
    closeQuietly

/-- `sendall`. -/
def sessionSend (s : RelayState) (data : Bytes) : Mcp Unit := do
  if s.closed then
    Prog.raise (connectionError "relay session is closed")
  setSession { s with pending := s.pending ++ data }

/-! ## Down: signing and posting -/

/-- One `down` call: a few records. -/
def postGroup (env : McpEnv) (batch : Bytes) (nextSeq : ℤ) (sent : ℕ × Option PyArgs) :
    Mcp ((ℕ × Option PyArgs) ⊕ Option PyArgs) := do
  if sent.1 < batch.length then do
    let stop ← Prog.lift (groupEnd batch relayGroup sent.1)
    let answer ← relayJson env fun r => .down r (if stop < batch.length then none else some nextSeq)
    return .inl (stop, some answer)
  else return .inr sent.2

/-- The strings of a command line. -/
def commandStrings (ids : List PyVal) : Except PyExc Unit :=
  if ids.all fun v => match v with | .str _ => true | _ => false then .ok ()
  else .error (typeError "expected str, bytes or os.PathLike object")

/-- A run of the signing tool: what it wrote, and the next sequence number. -/
def signPending (env : McpEnv) (s : RelayState) : Mcp (Bytes × ℤ) := do
  Prog.note (.sessionIds [s.installId, s.nonce, s.session])
  Prog.lift (commandStrings [s.installId, s.nonce, s.session])
  let result ← sign
  Prog.note (.signer result)
  match result with
  | .timedOut => Prog.raise ⟨.timeoutExpired, "timed out after 60 seconds"⟩
  | .failed failure => Prog.raise failure.exc
  | .ended returncode stdout => do
    if returncode ≠ 0 then
      Prog.raise (relayError "v9xsign failed")
    let nextSeq ← Prog.lift (pyInt env.texts (.str stdout))
    let batch ← readFile
    Prog.note (.batch batch)
    return (batch, nextSeq)

/-- `_flush`. -/
def sessionFlush (env : McpEnv) (s : RelayState) : Mcp RelayState := do
  if s.pending = [] then return s
  else do
    if s.closed then
      Prog.raise (connectionError "relay session is closed")
    setSession { s with pending := [] }
    -- the input for the signing tool
    call
    let (batch, nextSeq) ← signPending env s
    let answer ← Prog.loop (postGroup env batch nextSeq) env.fuel (0, none)
    match answer with
    | none => Prog.raise ⟨.unboundLocalError, "answer"⟩
    | some answer => do
      setSession { s with pending := [], downSeq := nextSeq }
      if !carriesNext answer nextSeq then
        Prog.raise (relayError "relay server lost track of the sequence")
      return { s with pending := [], downSeq := nextSeq }

/-! ## Up -/

/-- `_pull`. -/
def sessionPull (s : RelayState) : Mcp RelayState := do
  let (status, state, _, data) ← relayRequest .up
  let (s, result) := pullAnswer s status state data
  setSession s
  Prog.lift result
  return s

/-- One turn of `recv`'s wait. -/
def sessionAwait (deadline : ℚ) (s : RelayState) : Mcp (RelayState ⊕ RelayState) := do
  if s.inbox ≠ [] then return .inr s
  else do
    let t ← monotonic
    if deadline - t ≤ 0 then
      Prog.raise (connectionError "timed out waiting for the agent through the relay")
    let s ← sessionPull s
    return .inl s

/-- `recv`. -/
def sessionRecv (env : McpEnv) (s : RelayState) (count : ℕ) : Mcp Bytes := do
  let s ← sessionFlush env s
  let now ← monotonic
  let s ← Prog.loop (sessionAwait (now + s.timeout)) env.fuel s
  setSession { s with inbox := s.inbox.drop count }
  return s.inbox.take count

end V9xRemote
