import V9xRemote.Proof.DosExec
import V9xRemote.Proof.GetFile
import V9xRemote.Spec.GuestExec

/-!
# A command that the host runs

`execute` of the client against either agent, from the request to the report.

* `dosReadJob_asked`: an agent reads of the request what was asked for.
* `executeReport_answered`: in whatever pieces the frames of an execution arrive, the host has
  the output and the numbers of EXEC_COMPLETE.
* `execute_exact`: so the output is what was read of the process, to its limit.
-/

namespace V9xRemote

open Bytes Cursor Dialogue

/-! ## The request -/

/-- What a caller of `execute` asks for. -/
structure Asked where
  shell : Bool
  showWindow : Bool
  detach : Bool
  timeout : UInt32
  application : Bytes
  command : Bytes
  directory : Bytes
  texts : ∀ text ∈ [application, command, directory], WireText text

namespace Asked

/-- The arguments of `execute`. -/
def request (a : Asked) : ExecRequest where
  shell := a.shell
  application := pyString a.application
  arguments := pyString a.command
  workingDir := pyString a.directory
  timeoutMs := a.timeout.toNat
  showWindow := a.showWindow
  detach := a.detach

/-- The payload. -/
def payload (a : Asked) : Bytes :=
  [UInt8.ofNat a.shell.toNat] ++ ([UInt8.ofNat a.showWindow.toNat] ++ (writeU16 (UInt16.ofNat a.detach.toNat) ++
    (writeU32 a.timeout ++ (writeU32 262144 ++ (writeU32 262144 ++
      (stringField a.application ++ (stringField a.command ++ stringField a.directory)))))))

/-- The job of it. -/
def job (a : Asked) : DosJob where
  mode := UInt8.ofNat a.shell.toNat
  showWindow := UInt8.ofNat a.showWindow.toNat
  options := UInt16.ofNat a.detach.toNat
  timeoutMs := a.timeout
  stdoutLimit := 262144
  stderrLimit := 262144
  application := a.application
  command := a.command
  directory := a.directory

/-- It is within the agents' limits, and names something to run. -/
structure Allowed (a : Asked) : Prop where
  timeout : a.timeout ≤ execMaxTimeout
  application : a.application.length ≤ execMaxApplication
  command : a.command.length ≤ execMaxCommand
  directory : a.directory.length ≤ execMaxDirectory
  target : if a.shell then a.command ≠ [] else a.application ≠ []

end Asked

theorem pack_word32 (n : UInt32) : packUnsigned 4 (n.toNat : ℤ) = .ok (writeU32 n) := by
  have hlt := n.toNat_lt
  have hrange : (0 : ℤ) ≤ n.toNat ∧ (n.toNat : ℤ) < 256 ^ 4 := by
    constructor
    · omega
    · norm_num
      omega
  have hbyte (i : ℕ) (v : UInt8) (h : v.toNat = n.toNat / 256 ^ i % 256) : UInt8.ofNat (n.toNat / 256 ^ i % 256) = v := by
    apply UInt8.toNat_inj.1
    rw [h]
    simp
  rw [packUnsigned, if_pos hrange]
  simp only [Int.toNat_natCast, List.range_succ, List.range_zero, List.map_cons, List.map_nil, List.nil_append,
    List.cons_append]
  have h0 := hbyte 0 n.toUInt8 (by simp)
  have h1 := hbyte 1 (n >>> 8).toUInt8 (by simp [UInt32.toNat_shiftRight, Nat.shiftRight_eq_div_pow])
  have h2 := hbyte 2 (n >>> 16).toUInt8 (by simp [UInt32.toNat_shiftRight, Nat.shiftRight_eq_div_pow])
  have h3 := hbyte 3 (n >>> 24).toUInt8 (by simp [UInt32.toNat_shiftRight, Nat.shiftRight_eq_div_pow])
  rw [h0, h1, h2, h3]
  rfl

/-- **The request** is the payload. -/
theorem execRequest_asked (a : Asked) : execRequest a.request = .ok a.payload := by
  have happlication := encodeString_text (a.texts a.application (by simp))
  have hcommand := encodeString_text (a.texts a.command (by simp))
  have hdirectory := encodeString_text (a.texts a.directory (by simp))
  have hhead : execPayload a.request = .ok ([UInt8.ofNat a.shell.toNat] ++ ([UInt8.ofNat a.showWindow.toNat] ++
      (writeU16 (UInt16.ofNat a.detach.toNat) ++ (writeU32 a.timeout ++ (writeU32 262144 ++ writeU32 262144))))) := by
    have htimeout : packUnsigned 4 a.request.timeoutMs = .ok (writeU32 a.timeout) := pack_word32 a.timeout
    unfold execPayload
    rw [htimeout]
    show Except.ok (le 1 a.shell.toNat ++ le 1 a.showWindow.toNat ++ le 2 a.detach.toNat ++ writeU32 a.timeout ++
      le 4 262144 ++ le 4 262144) = _
    cases a.shell <;> cases a.showWindow <;> cases a.detach <;> rfl
  unfold execRequest
  rw [hhead]
  show (do
    let application ← encodeString (pyString a.application)
    let arguments ← encodeString (pyString a.command)
    let workingDir ← encodeString (pyString a.directory)
    return _ ++ application ++ arguments ++ workingDir : Except PyExc Bytes) = _
  rw [happlication, hcommand, hdirectory]
  simp only [bind, Except.bind, pure, Except.pure, Asked.payload, List.append_assoc]

/-- One text of the request. -/
theorem execReadString_field {payload rest : Bytes} {offset : ℕ} {text : Bytes}
    (h : At payload offset (stringField text ++ rest)) (htext : WireText text) (maximum : ℕ) :
    execReadString payload offset maximum =
      if text.length ≤ maximum then some (text, offset + (stringField text).length) else none := by
  have hshort := htext.short
  have hlength := h.length
  have hfield := stringField_length text
  rw [List.length_append, hfield] at hlength
  have hword : (payload.readU16 offset).toNat = text.length := by
    have hread := h.readU16 0
    rw [Nat.add_zero, stringField, List.append_assoc, readU16_writeU16] at hread
    rw [hread, UInt16.toNat_ofNat_of_lt' (show text.length < 2 ^ 16 by omega)]
  have htake : (payload.drop (offset + 2)).take text.length = text := by
    have hat : At payload offset (writeU16 (UInt16.ofNat text.length) ++ (text ++ rest)) := by
      rw [← List.append_assoc]
      exact h
    exact hat.next.take
  have hplain : text.any (fun c => c == 0 || decide (c > 0x7f)) = false := by
    rw [List.any_eq_false]
    intro b hb
    obtain ⟨hzero, hsmall⟩ := htext.ascii b hb
    simpa [hzero] using hsmall
  unfold execReadString
  rw [if_neg (by omega)]
  dsimp only
  rw [hword, htake, hplain, hfield]
  by_cases hfits : text.length ≤ maximum
  · rw [if_neg (by omega), if_neg Bool.false_ne_true, if_pos hfits, Nat.add_assoc]
  · rw [if_pos (by omega), if_neg hfits]

section

variable (a : Asked)

open scoped Classical in
/-- **What an agent reads** of it. -/
theorem dosReadJob_asked : dosReadJob a.payload = if a.Allowed then some a.job else none := by
  have happlication := a.texts a.application (by simp)
  have hcommand := a.texts a.command (by simp)
  have hdirectory := a.texts a.directory (by simp)
  have h := at_start a.payload
  have hmode : a.payload.at' 0 = UInt8.ofNat a.shell.toNat := rfl
  have hshow : a.payload.at' 1 = UInt8.ofNat a.showWindow.toNat := rfl
  have hoptions : a.payload.readU16 2 = UInt16.ofNat a.detach.toNat :=
    (h.next.next.readU16 0).trans (readU16_writeU16 _ _)
  have htimeout : a.payload.readU32 4 = a.timeout := (h.next.next.next.readU32 0).trans (readU32_writeU32 _ _)
  have hstdout : a.payload.readU32 8 = 262144 := (h.next.next.next.next.readU32 0).trans (readU32_writeU32 _ _)
  have hstderr : a.payload.readU32 12 = 262144 := (h.next.next.next.next.next.readU32 0).trans (readU32_writeU32 _ _)
  have hat : At a.payload 16 (stringField a.application ++ (stringField a.command ++ (stringField a.directory ++ []))) := by
    rw [List.append_nil]
    exact h.next.next.next.next.next.next
  have hend := hat.next.next.next.done
  have hlength : 22 ≤ a.payload.length := by
    rw [← hend, stringField_length, stringField_length, stringField_length]
    omega
  have hmask : ¬ UInt16.ofNat a.detach.toNat &&& ~~~execOptionMask ≠ 0 := by cases a.detach <;> decide
  have hknown : ¬ UInt8.ofNat a.shell.toNat > execModeShell := by cases a.shell <;> decide
  have hwindow : ¬ UInt8.ofNat a.showWindow.toNat > 1 := by cases a.showWindow <;> decide
  have hlimit : ¬ (262144 : UInt32) > execMaxOutput := by decide
  have htarget : (UInt8.ofNat a.shell.toNat = execModeDirect ∧ a.application = []) ∨
      (UInt8.ofNat a.shell.toNat = execModeShell ∧ a.command = []) ↔
        ¬ if a.shell then a.command ≠ [] else a.application ≠ [] := by
    cases a.shell <;> simp [execModeDirect, execModeShell]
  unfold dosReadJob
  rw [if_neg (by omega), hmode, hshow, hoptions, htimeout, hstdout, hstderr]
  dsimp only
  by_cases htime : a.timeout ≤ execMaxTimeout
  · rw [if_neg (by simp only [hmask, hknown, hwindow, hlimit, UInt32.not_lt.2 htime, or_self, not_false_eq_true]),
      execReadString_field hat happlication, Option.bind_eq_bind]
    by_cases happ : a.application.length ≤ execMaxApplication
    · rw [if_pos happ, Option.bind_some]
      dsimp only
      rw [execReadString_field hat.next hcommand]
      by_cases hcmd : a.command.length ≤ execMaxCommand
      · rw [if_pos hcmd, Option.bind_some]
        dsimp only
        rw [execReadString_field hat.next.next hdirectory]
        by_cases hdir : a.directory.length ≤ execMaxDirectory
        · rw [if_pos hdir, Option.bind_some]
          dsimp only
          rw [hend]
          by_cases hnames : if a.shell then a.command ≠ [] else a.application ≠ []
          · rw [if_pos (show a.Allowed from ⟨htime, happ, hcmd, hdir, hnames⟩), if_neg]
            · rfl
            · rintro (hne | hnone)
              · exact hne rfl
              · exact htarget.1 hnone hnames
          · rw [if_pos (Or.inr (htarget.2 hnames)), if_neg fun hallowed : a.Allowed => hnames hallowed.target]
        · rw [if_neg hdir, if_neg fun hallowed : a.Allowed => hdir hallowed.directory, Option.bind_none]
      · rw [if_neg hcmd, if_neg fun hallowed : a.Allowed => hcmd hallowed.command, Option.bind_none]
    · rw [if_neg happ, if_neg fun hallowed : a.Allowed => happ hallowed.application, Option.bind_none]
  · rw [if_pos (by simp only [UInt32.not_le.1 htime, gt_iff_lt, true_or, or_true]),
      if_neg fun hallowed : a.Allowed => htime hallowed.timeout]

theorem asked_small : a.payload.length ≤ 22 + a.application.length + a.command.length + a.directory.length := by
  have hword (v : UInt32) : (writeU32 v).length = 4 := rfl
  have hhalf (v : UInt16) : (writeU16 v).length = 2 := rfl
  simp only [Asked.payload, List.length_append, stringField_length, hword, hhalf, List.length_singleton]
  omega

end

/-! ## Frames of an execution -/

/-- A frame with some output. -/
def OutputFrame (frame : AgentFrame) : Prop := (∃ pipe : ExecPipe, frame.1 = pipe.message) ∧ frame.2.length ≤ execChunk

/-- The report of an EXEC_COMPLETE behind some frames. -/
def reportOf (front : List AgentFrame) (result exitCode native elapsed stdoutTotal stderrTotal flags : UInt32) : ExecReport :=
  ⟨result, exitCode, native, elapsed, stdoutTotal, stderrTotal, flags, (framesOf ExecPipe.stdout.message front).flatten,
    (framesOf ExecPipe.stderr.message front).flatten⟩

/-- What an agent sends on an EXEC, and what there is to report. -/
inductive ExecAnswered : List AgentFrame → Option ExecReport → Prop
  | refused {last : AgentFrame} (h : Refusal last) : ExecAnswered [last] none
  | stopped (tick : UInt32) {last : AgentFrame} (h : Refusal last) :
    ExecAnswered [(msgExecAcceptedType, writeU32 tick), last] none
  | ran (tick : UInt32) {front : List AgentFrame} (hfront : ∀ frame ∈ front, OutputFrame frame) (hcount : front.length < 2 ^ 20)
    (result exitCode native elapsed stdoutTotal stderrTotal flags : UInt32) :
    ExecAnswered ((msgExecAcceptedType, writeU32 tick) :: (front ++
        [(msgExecCompleteType, execComplete result exitCode native elapsed stdoutTotal stderrTotal flags)]))
      (some (reportOf front result exitCode native elapsed stdoutTotal stderrTotal flags))

section

variable (env : McpEnv) {st : McpState}

theorem message_output (pipe : ExecPipe) : pipe.message ≠ msgErrorResponse ∧
    [msgExecStdout, msgExecStderr, msgExecComplete].contains pipe.message.toNat = true := by
  cases pipe <;> decide

/-- Output frames go to the output they are of. -/
theorem output_steps {front : List AgentFrame} (hfront : ∀ frame ∈ front, OutputFrame frame) (got : Bytes × Bytes) :
    Steps [msgExecStdout, msgExecStderr, msgExecComplete] execTake st got front
      (got.1 ++ (framesOf ExecPipe.stdout.message front).flatten,
        got.2 ++ (framesOf ExecPipe.stderr.message front).flatten) := by
  induction front generalizing got with
  | nil =>
    have hnone (message : UInt16) : (framesOf message []).flatten = [] := rfl
    rw [hnone, hnone, List.append_nil, List.append_nil]
    exact .nil got
  | cons frame front ih =>
    obtain ⟨message, data⟩ := frame
    obtain ⟨⟨pipe, hmessage⟩, hsize⟩ := hfront _ List.mem_cons_self
    obtain rfl : message = pipe.message := hmessage
    have hchunk : execChunk ≤ maxPayload := by decide
    obtain ⟨hne, htypes⟩ := message_output pipe
    have hrest := ih fun frame hframe => hfront frame (List.mem_cons_of_mem _ hframe)
    cases pipe with
    | stdout =>
      refine .cons (hsize.trans hchunk) hne htypes (fun more => rfl) ?_
      have hsame : framesOf ExecPipe.stdout.message ((ExecPipe.stdout.message, data) :: front) =
          data :: framesOf ExecPipe.stdout.message front := rfl
      have hother : framesOf ExecPipe.stderr.message ((ExecPipe.stdout.message, data) :: front) =
          framesOf ExecPipe.stderr.message front := rfl
      rw [hsame, hother, List.flatten_cons, ← List.append_assoc]
      exact hrest (got.1 ++ data, got.2)
    | stderr =>
      refine .cons (hsize.trans hchunk) hne htypes (fun more => rfl) ?_
      have hsame : framesOf ExecPipe.stderr.message ((ExecPipe.stderr.message, data) :: front) =
          data :: framesOf ExecPipe.stderr.message front := rfl
      have hother : framesOf ExecPipe.stdout.message ((ExecPipe.stderr.message, data) :: front) =
          framesOf ExecPipe.stdout.message front := rfl
      rw [hsame, hother, List.flatten_cons, ← List.append_assoc]
      exact hrest (got.1, got.2 ++ data)

theorem execEnd_complete (front : List AgentFrame) (result exitCode native elapsed stdoutTotal stderrTotal flags : UInt32)
    (more : List McpAnswer) :
    (execEnd ((framesOf ExecPipe.stdout.message front).flatten, (framesOf ExecPipe.stderr.message front).flatten)
      (execComplete result exitCode native elapsed stdoutTotal stderrTotal flags)).run ⟨st, more⟩ =
        some (.ok (reportOf front result exitCode native elapsed stdoutTotal stderrTotal flags), ⟨st, more⟩) := by
  have hlength : (execComplete result exitCode native elapsed stdoutTotal stderrTotal flags).length = 28 := rfl
  have hunpack : unpackFrom (execComplete result exitCode native elapsed stdoutTotal stderrTotal flags) 0 28 =
      .ok (execComplete result exitCode native elapsed stdoutTotal stderrTotal flags) := rfl
  have hpayload : execComplete result exitCode native elapsed stdoutTotal stderrTotal flags =
      writeU32 result ++ (writeU32 exitCode ++ (writeU32 native ++ (writeU32 elapsed ++ (writeU32 stdoutTotal ++
        (writeU32 stderrTotal ++ (writeU32 flags ++ [])))))) := by
    simp only [execComplete, List.append_assoc, List.append_nil]
  generalize execComplete result exitCode native elapsed stdoutTotal stderrTotal flags = data at *
  have h : At data 0 (writeU32 result ++ (writeU32 exitCode ++ (writeU32 native ++ (writeU32 elapsed ++ (writeU32 stdoutTotal ++
      (writeU32 stderrTotal ++ (writeU32 flags ++ []))))))) := ⟨Nat.zero_le _, hpayload⟩
  have hresult : data.readU32 0 = result := (h.readU32 0).trans (readU32_writeU32 _ _)
  have hexit : data.readU32 4 = exitCode := (h.next.readU32 0).trans (readU32_writeU32 _ _)
  have hnative : data.readU32 8 = native := (h.next.next.readU32 0).trans (readU32_writeU32 _ _)
  have helapsed : data.readU32 12 = elapsed := (h.next.next.next.readU32 0).trans (readU32_writeU32 _ _)
  have hstdout : data.readU32 16 = stdoutTotal := (h.next.next.next.next.readU32 0).trans (readU32_writeU32 _ _)
  have hstderr : data.readU32 20 = stderrTotal := (h.next.next.next.next.next.readU32 0).trans (readU32_writeU32 _ _)
  have hflags : data.readU32 24 = flags := (h.next.next.next.next.next.next.readU32 0).trans (readU32_writeU32 _ _)
  unfold execEnd
  simp only [Mcp.check, hlength, decide_true, if_true]
  rw [Prog.run_bind_ok (Prog.run_pure ()), hunpack, Prog.run_bind_ok (Prog.run_lift _), hresult, hexit, hnative, helapsed,
    hstdout, hstderr, hflags]
  rfl

variable (a : Asked)

/-- What the host needs to know of the agent. -/
structure CanAsk (st : McpState) (a : Asked) : Prop where
  connected : Connected st (if a.shell then capShell else capExec)
  detach : a.detach = true → Connected st capExecDetach

/-- The part of `execute` behind the request. -/
def executeRest (env : McpEnv) : Mcp ExecReport := do
  let (_, accepted) ← expect env [msgExecAccepted]
  Mcp.check (accepted.length = 4) "invalid EXEC_ACCEPTED payload"
  let (got, data) ← Prog.loop (fun got => expect env [msgExecStdout, msgExecStderr, msgExecComplete] >>= execTake got)
    env.fuel ([], [])
  execEnd got data

theorem setTimeout_run (hsocket : st.session = none) (seconds : ℚ) (more : List McpAnswer) :
    (setTimeout seconds).run ⟨st, more⟩ = some (.ok (), ⟨st, more⟩) := by
  have hsame : { st with session := st.session.map fun s => { s with timeout := max seconds 30 } } = st := by
    rw [hsocket]
    cases st
    cases hsocket
    rfl
  unfold setTimeout
  rw [Prog.run_modify]
  dsimp only
  rw [hsame]

/-- **The request is sent**, and the answers are what there is left. -/
theorem executeReport_rest (hask : CanAsk st a) (hsmall : a.payload.length ≤ maxPayload) {more left : List McpAnswer}
    {out : Except PyExc ExecReport} (hrest : (executeRest env).run ⟨st.nextId, more⟩ = some (out, ⟨st.nextId, left⟩)) :
    (executeReport env a.request).run ⟨st, .done (.ok ()) :: more⟩ = some (out, ⟨st.nextId, left⟩) := by
  have hsocket := hask.connected.socket
  have hnext : st.nextId.session = none := hsocket
  have hcap : (require (if a.request.shell then capShell else capExec)).run ⟨st, .done (.ok ()) :: more⟩ =
      some (.ok (), ⟨st, .done (.ok ()) :: more⟩) := require_run hask.connected _
  have hbody : (do
      nextId
      sendFrame msgExec a.payload
      executeRest env).run ⟨st, .done (.ok ()) :: more⟩ = some (out, ⟨st.nextId, left⟩) := by
    rw [Prog.run_bind_ok (nextId_run st _), Prog.run_bind_ok (sendFrame_run hnext msgExec hsmall more)]
    exact hrest
  unfold executeReport
  rw [Prog.run_bind_ok hcap]
  dsimp only
  rw [execRequest_asked]
  have hdone : (do
      let payload ← Prog.lift (Except.ok a.payload)
      setTimeout (a.request.timeoutMs / 1000 + 20)
      Prog.andFinally (do
        nextId
        sendFrame msgExec payload
        executeRest env) (setTimeout env.timeout)).run ⟨st, .done (.ok ()) :: more⟩ = some (out, ⟨st.nextId, left⟩) := by
    rw [Prog.run_bind_ok (Prog.run_lift _), Prog.run_bind_ok (setTimeout_run hsocket _ _)]
    exact Prog.run_andFinally hbody (setTimeout_run hnext _ _)
  by_cases hdetach : a.request.detach = true
  · rw [if_pos hdetach, Prog.run_bind_ok (require_run (hask.detach hdetach) _)]
    exact hdone
  · rw [if_neg hdetach]
    exact hdone

end

section

variable (env : McpEnv) {st : McpState} (hsocket : st.session = none) {requestId : UInt32}
  (hid : requestId.toNat = st.requestId) (hfuel : 2 ^ 20 ≤ env.fuel)
include hsocket hid hfuel

omit hsocket hid hfuel in
theorem accepted_small (tick : UInt32) : ((msgExecAcceptedType, writeU32 tick) : AgentFrame).2.length ≤ maxPayload :=
  show 4 ≤ maxPayload by decide

/-- EXEC_ACCEPTED is read, and the loop begins. -/
theorem executeRest_accepted {tick : UInt32} {header payload : List McpAnswer}
    (hheader : Pieces (agentHeader requestId (msgExecAcceptedType, writeU32 tick)) header)
    (hpayload : Pieces (writeU32 tick) payload) (rest : List McpAnswer) :
    (executeRest env).run ⟨st, header ++ (payload ++ rest)⟩ =
      (Prog.loop (fun got => expect env [msgExecStdout, msgExecStderr, msgExecComplete] >>= execTake got) env.fuel ([], []) >>=
        fun ended => execEnd ended.1 ended.2).run ⟨st, rest⟩ := by
  have hwire : 24 + maxPayload < env.fuel := by
    have hpayload : maxPayload = 65536 := rfl
    omega
  have hword (v : UInt32) : (writeU32 v).length = 4 := rfl
  have hexpect : (expect env [msgExecAccepted]).run ⟨st, header ++ (payload ++ rest)⟩ =
      some (.ok (msgExecAcceptedType.toNat, writeU32 tick), ⟨st, rest⟩) :=
    expect_answer env hsocket hid hwire (accepted_small tick)
      (show msgExecAcceptedType ≠ msgErrorResponse by decide)
      (show [msgExecAccepted].contains msgExecAcceptedType.toNat = true by decide) hheader hpayload rest
  unfold executeRest
  rw [Prog.run_bind_ok hexpect]
  simp only [Mcp.check, hword, decide_true, if_true]
  exact Prog.run_bind_ok (Prog.run_pure ()) _

/-- **What the host reports** of an agent's answers. -/
theorem executeRest_answered {frames : List AgentFrame} {out : Option ExecReport} (h : ExecAnswered frames out)
    (more : List McpAnswer) :
    (∀ answers, Arrived requestId frames answers →
      (executeRest env).run ⟨st, answers ++ more⟩ = some (answered out, ⟨st, more⟩)) ∧
    ∀ answers, Severed requestId frames answers →
      ∃ exc, (executeRest env).run ⟨st, answers ++ more⟩ = some (.error exc, ⟨st, more⟩) := by
  have hwire : 24 + maxPayload < env.fuel := by
    have hpayload : maxPayload = 65536 := rfl
    omega
  cases h with
  | @refused last h =>
    constructor
    · intro answers harrived
      exact Prog.run_bind_error (expect_one_refused env hsocket hid hwire _ h harrived more) _
    · intro answers hsevered
      obtain ⟨exc, hexc⟩ := expect_one_severed env hsocket hwire [msgExecAccepted] h.small hsevered more
      exact ⟨exc, Prog.run_bind_error hexc _⟩
  | @stopped tick last h =>
    have hnone : Steps [msgExecStdout, msgExecStderr, msgExecComplete] execTake st ([], []) [] ([], []) := .nil _
    have hrounds : ([] : List AgentFrame).length < env.fuel := by
      rw [List.length_nil]
      omega
    constructor
    · intro answers harrived
      cases harrived with
      | @cons _ _ header payload rest hheader hpayload harrived =>
        rw [List.append_assoc, List.append_assoc, executeRest_accepted env hsocket hid hfuel hheader hpayload]
        exact Prog.run_bind_error (loop_refused env hsocket hid hwire hnone h harrived hrounds more) _
    · intro answers hsevered
      rcases expect_severed env hsocket hwire [msgExecAccepted] (accepted_small tick) hsevered more with
        ⟨exc, hexc⟩ | ⟨header, payload, rest, hheader, hpayload, hrest, rfl⟩
      · exact ⟨exc, Prog.run_bind_error hexc _⟩
      · obtain ⟨exc, hexc⟩ := loop_broken env hsocket hid hwire hnone h.small hrest hrounds more
        rw [List.append_assoc, List.append_assoc, executeRest_accepted env hsocket hid hfuel hheader hpayload]
        exact ⟨exc, Prog.run_bind_error hexc _⟩
  | @ran tick front hfront hcount result exitCode native elapsed stdoutTotal stderrTotal flags =>
    have hsteps : Steps _ execTake st ([], []) front _ := output_steps hfront ([], [])
    have hrounds : front.length < env.fuel := by omega
    have hsmall : (execComplete result exitCode native elapsed stdoutTotal stderrTotal flags).length ≤ maxPayload := by
      show 28 ≤ maxPayload
      decide
    constructor
    · intro answers harrived
      cases harrived with
      | @cons _ _ header payload rest hheader hpayload harrived =>
        rw [List.append_assoc, List.append_assoc, executeRest_accepted env hsocket hid hfuel hheader hpayload,
          Prog.run_bind_ok (loop_last env hsocket hid hwire hsteps hsmall
            (show msgExecCompleteType ≠ msgErrorResponse by decide) (show List.contains _ msgExecCompleteType.toNat = true by decide) (fun more => rfl) harrived hrounds more)]
        exact execEnd_complete front _ _ _ _ _ _ _ more
    · intro answers hsevered
      rcases expect_severed env hsocket hwire [msgExecAccepted] (accepted_small tick) hsevered more with
        ⟨exc, hexc⟩ | ⟨header, payload, rest, hheader, hpayload, hrest, rfl⟩
      · exact ⟨exc, Prog.run_bind_error hexc _⟩
      · obtain ⟨exc, hexc⟩ := loop_broken env hsocket hid hwire hsteps hsmall hrest hrounds more
        rw [List.append_assoc, List.append_assoc, executeRest_accepted env hsocket hid hfuel hheader hpayload]
        exact ⟨exc, Prog.run_bind_error hexc _⟩

end

/-! ## The frames of a worker -/

/-- Only output was sent. -/
def ExecWorker.Outputs (worker : ExecWorker) : Prop := ∀ frame ∈ worker.frames, OutputFrame frame

section

variable {job : ExecSlot} {worker : ExecWorker}

theorem sendPipeData_outputs (job : ExecSlot) {worker : ExecWorker} (h : worker.Outputs) (pipe : ExecPipe) (call : PipeCall) :
    (worker.sendPipeData job pipe call).1.Outputs := by
  unfold ExecWorker.sendPipeData
  dsimp only
  split
  · exact h
  · split
    · exact h
    · exact h
    · rename_i read sent
      split
      · exact h
      · -- a frame was sent, or there was no room for one
        intro frame hframe
        dsimp only at hframe
        split at hframe
        · rcases List.mem_append.1 hframe with hframe | hframe
          · exact h frame hframe
          · obtain rfl := List.mem_singleton.1 hframe
            refine ⟨⟨pipe, rfl⟩, ?_⟩
            have hfits := read.fits
            dsimp only
            rw [List.length_take]
            omega
        · exact h frame hframe

theorem eof_outputs (job : ExecSlot) {s : ExecLoop} (h : s.worker.Outputs) (tick : UInt32) :
    (s.eof job tick).1.worker.Outputs := by
  unfold ExecLoop.eof
  split
  · split
    · exact h
    · split
      · exact h
      · exact h
  · exact h

theorem turn_outputs {s : ExecLoop} (h : s.worker.Outputs) (started : UInt32) (t : ExecTurn) :
    (s.turn job started t).1.worker.Outputs := by
  have hfirst := sendPipeData_outputs job h .stdout t.stdout
  have hboth : (if (s.worker.sendPipeData job .stdout t.stdout).2 = true then
      (s.worker.sendPipeData job .stdout t.stdout).1.sendPipeData job .stderr t.stderr
      else ((s.worker.sendPipeData job .stdout t.stdout).1, false)).1.Outputs := by
    split
    · exact sendPipeData_outputs job hfirst .stderr t.stderr
    · exact hfirst
  unfold ExecLoop.turn
  dsimp only
  generalize (if (s.worker.sendPipeData job .stdout t.stdout).2 = true then
      (s.worker.sendPipeData job .stdout t.stdout).1.sendPipeData job .stderr t.stderr
      else ((s.worker.sendPipeData job .stdout t.stdout).1, false)) = sent at hboth ⊢
  split
  · exact hboth
  · split
    · exact hboth
    · have hsent : ({ s with worker := sent.1 } : ExecLoop).worker.Outputs := hboth
      have heof := eof_outputs job hsent t.eofTick
      split
      · exact heof
      · split
        · exact heof
        · exact heof
        · exact heof

theorem run_outputs {started : UInt32} {turns : List ExecTurn} {s s' : ExecLoop} (h : s.worker.Outputs)
    (hrun : s.run job started turns = some s') : s'.worker.Outputs := by
  induction turns generalizing s with
  | nil => cases hrun
  | cons t turns ih =>
    have hturn : (s.turn job started t).1.worker.Outputs := turn_outputs h started t
    rw [ExecLoop.run] at hrun
    split at hrun
    · rename_i heq
      rw [heq] at hturn
      exact ih hturn hrun
    · rename_i heq
      rw [heq] at hturn
      split at hrun
      · obtain rfl := Option.some.inj hrun
        exact hturn
      · cases hrun

theorem drain_outputs {rounds : List (PipeCall × PipeCall)} {left : ℕ} {worker' : ExecWorker} (h : worker.Outputs)
    (hrun : execDrain job left worker rounds = some worker') : worker'.Outputs := by
  induction rounds generalizing left worker with
  | nil =>
    cases left with
    | zero =>
      obtain rfl := Option.some.inj hrun
      exact h
    | succ left => cases hrun
  | cons round rounds ih =>
    cases left with
    | zero => cases hrun
    | succ left =>
      have hround := sendPipeData_outputs job (sendPipeData_outputs job h .stdout round.1) .stderr round.2
      rw [execDrain] at hrun
      split at hrun
      · split at hrun
        · obtain rfl := Option.some.inj hrun
          exact hround
        · cases hrun
      · exact ih hround hrun

/-- The exit code that is reported. -/
def reportedExit (job : ExecSlot) (calls : ExecutionCalls) : UInt32 :=
  match calls.launch, calls.exitCode with
  | .failed _, _ => 0xffffffff
  | .created, .inl code => if job.detach then 0 else code
  | .created, .inr _ => if job.detach then 0 else 0xffffffff

/-- **The frames of a worker** are some output, and EXEC_COMPLETE. -/
theorem executionWorker_frames {calls : ExecutionCalls} {frames : List AgentFrame}
    (h : executionWorker job calls = some frames) :
    ∃ front result native elapsed stdoutTotal stderrTotal flags, (∀ frame ∈ front, OutputFrame frame) ∧
      frames = front ++ [(msgExecCompleteType,
        execComplete result (reportedExit job calls) native elapsed stdoutTotal stderrTotal flags)] := by
  unfold executionWorker at h
  dsimp only at h
  generalize (if calls.gui = true then (if job.detach = true then execFlagDetached else execFlagPipeCapture) ||| execFlagGuiWindow
    else if job.detach = true then execFlagDetached else execFlagPipeCapture) = flags at h
  have hstart : (⟨fun _ => ⟨0, 0, false⟩, flags, []⟩ : ExecWorker).Outputs := fun frame hframe => absurd hframe List.not_mem_nil
  unfold reportedExit
  split at h
  · rename_i native hlaunch
    rw [hlaunch]
    split at h
    · obtain rfl := Option.some.inj h
      exact ⟨[], _, _, _, _, _, _, hstart, rfl⟩
    · cases h
  · rename_i hlaunch
    rw [hlaunch]
    split at h
    · rename_i hdetach
      split at h
      · obtain rfl := Option.some.inj h
        refine ⟨[], execResultOk, 0, calls.finished - calls.started, 0, 0, flags, hstart, ?_⟩
        cases calls.exitCode with
        | inl code => simp [ExecLoop.complete, hdetach]
        | inr native => simp [ExecLoop.complete, hdetach]
      · cases h
    · rename_i hdetach
      rw [Option.bind_eq_bind, Option.bind_eq_some_iff] at h
      obtain ⟨s, hrun, h⟩ := h
      rw [Option.bind_eq_bind, Option.bind_eq_some_iff] at h
      obtain ⟨worker, hdrain, h⟩ := h
      have hloop : (ExecLoop.mk ⟨fun _ => ⟨0, 0, false⟩, flags, []⟩ execResultOk 0 none).worker.Outputs := hstart
      have hend := drain_outputs (run_outputs hloop hrun) hdrain
      split at h
      · rename_i code hcode
        obtain rfl := Option.some.inj h
        rw [hcode]
        dsimp only
        rw [if_neg hdetach]
        exact ⟨worker.frames, _, _, _, _, _, _, hend, rfl⟩
      · rename_i native hcode
        rw [hcode]
        dsimp only
        rw [if_neg hdetach]
        split at h
        · obtain rfl := Option.some.inj h
          exact ⟨worker.frames, _, _, _, _, _, _, hend, rfl⟩
        · obtain rfl := Option.some.inj h
          exact ⟨worker.frames, _, _, _, _, _, _, hend, rfl⟩

end

/-! ## What the report says -/

/-- The output of a report. -/
def ExecReport.output (report : ExecReport) : ExecPipe → Bytes
  | .stdout => report.stdout
  | .stderr => report.stderr

/-- The number of bytes that a report says there were. -/
def ExecReport.total (report : ExecReport) : ExecPipe → UInt32
  | .stdout => report.stdoutBytes
  | .stderr => report.stderrBytes

/-- The report has what was read of each pipe, to the limit of 256 KiB, how much there was, and
whether some of it is missing. -/
structure CaughtOutput (report : ExecReport) (reads : ExecPipe → List Bytes) : Prop where
  output : ∀ pipe, report.output pipe = (reads pipe).flatten.take 262144
  total : ∀ pipe, (report.total pipe).toNat = min (reads pipe).flatten.length 0xffffffff
  truncated : ∀ pipe, HasFlag report.flags pipe.truncateFlag ↔ 262144 < (reads pipe).flatten.length

theorem outputs_count {front : List AgentFrame} (hfront : ∀ frame ∈ front, OutputFrame frame) :
    front.length = (framesOf ExecPipe.stdout.message front).length + (framesOf ExecPipe.stderr.message front).length := by
  induction front with
  | nil => rfl
  | cons frame front ih =>
    obtain ⟨message, data⟩ := frame
    obtain ⟨⟨pipe, hmessage⟩, -⟩ := hfront _ List.mem_cons_self
    obtain rfl : message = pipe.message := hmessage
    have hrest := ih fun frame hframe => hfront frame (List.mem_cons_of_mem _ hframe)
    have hcons (other : UInt16) : framesOf other ((pipe.message, data) :: front) =
        if pipe.message = other then data :: framesOf other front else framesOf other front := by
      unfold framesOf
      rw [List.filterMap_cons]
      split <;> rename_i hfilter <;> split at hfilter <;> simp_all
    rw [hcons, hcons, List.length_cons, hrest]
    cases pipe with
    | stdout =>
      rw [if_pos rfl, if_neg (by decide), List.length_cons]
      omega
    | stderr =>
      rw [if_neg (by decide), if_pos rfl, List.length_cons]
      omega

theorem length_le_flatten {pieces : List Bytes} (h : ∀ piece ∈ pieces, piece ≠ []) : pieces.length ≤ pieces.flatten.length := by
  induction pieces with
  | nil => exact Nat.le_refl _
  | cons piece pieces ih =>
    have hpos := List.length_pos_of_ne_nil (h piece List.mem_cons_self)
    have hrest := ih fun piece hpiece => h piece (List.mem_cons_of_mem _ hpiece)
    rw [List.flatten_cons, List.length_append, List.length_cons]
    omega

section

variable {front : List AgentFrame} {reads : ExecPipe → List Bytes}
  {result exitCode native elapsed stdoutTotal stderrTotal flags : UInt32}

/-- **A client's report** of frames for which there are the agent's. -/
theorem caughtOutput_of_reports (hfront : ∀ frame ∈ front, OutputFrame frame)
    (h : ∀ pipe, Reports (front ++ [(msgExecCompleteType,
      execComplete result exitCode native elapsed stdoutTotal stderrTotal flags)]) pipe 262144 (reads pipe)) :
    front.length < 2 ^ 20 ∧
      CaughtOutput (reportOf front result exitCode native elapsed stdoutTotal stderrTotal flags) reads := by
  have hlimit : (262144 : UInt32).toNat = 262144 := rfl
  have hframes (pipe : ExecPipe) : framesOf pipe.message (front ++ [(msgExecCompleteType,
      execComplete result exitCode native elapsed stdoutTotal stderrTotal flags)]) = framesOf pipe.message front := by
    rw [framesOf_append]
    cases pipe <;> exact List.append_nil _
  have hbytes (pipe : ExecPipe) : (framesOf pipe.message front).flatten = (reads pipe).flatten.take 262144 := by
    have hpipe := (h pipe).bytes
    rw [hframes, hlimit] at hpipe
    rw [hpipe]
    by_cases hshort : (reads pipe).flatten.length ≤ 262144
    · rw [Nat.min_eq_left hshort, List.take_length, List.take_of_length_le hshort]
    · rw [Nat.min_eq_right (by omega)]
  have hcount (pipe : ExecPipe) : (framesOf pipe.message front).length ≤ 262144 := by
    have hne : ∀ piece ∈ framesOf pipe.message front, piece ≠ [] := by
      intro piece hpiece
      have hsizes := (h pipe).sizes
      rw [hframes] at hsizes
      exact (hsizes piece hpiece).1
    refine (length_le_flatten hne).trans ?_
    rw [hbytes, List.length_take]
    omega
  have hcomplete (pipe : ExecPipe) :
      ((execComplete result exitCode native elapsed stdoutTotal stderrTotal flags).readU32 pipe.totalAt).toNat =
        min (reads pipe).flatten.length 0xffffffff ∧
      (HasFlag flags pipe.truncateFlag ↔ 262144 < (reads pipe).flatten.length) := by
    obtain ⟨payload, hpayload, htotal, hflag⟩ := (h pipe).complete
    have hnone : framesOf msgExecCompleteType front = [] := by
      unfold framesOf
      rw [List.filterMap_eq_nil_iff]
      intro frame hframe
      obtain ⟨⟨other, hother⟩, -⟩ := hfront frame hframe
      rw [hother]
      cases other <;> rfl
    rw [framesOf_append, hnone] at hpayload
    obtain rfl : execComplete result exitCode native elapsed stdoutTotal stderrTotal flags = payload :=
      (List.cons.inj hpayload).1
    rw [execComplete_flags, hlimit] at hflag
    exact ⟨htotal, hflag⟩
  constructor
  · have hstdout := hcount .stdout
    have hstderr := hcount .stderr
    rw [outputs_count hfront]
    omega
  · refine ⟨fun pipe => ?_, fun pipe => ?_, fun pipe => (hcomplete pipe).2⟩
    · rw [← hbytes pipe]
      cases pipe <;> rfl
    · rw [← (hcomplete pipe).1, execComplete_total]
      cases pipe <;> rfl

end

/-! ## The Windows agent -/

theorem refusal_sendError (native status : UInt32) (detail : String) (hdetail : (ascii detail).length ≤ 256)
    (hascii : AsciiText (ascii detail)) : ∃ frame, sendError native status detail = [frame] ∧ Refusal frame := by
  have hsize : responseSize = 2048 := rfl
  have hmax : maxPayload = 65536 := rfl
  have hword (v : UInt32) : (writeU32 v).length = 4 := rfl
  have hhead : (writeU32 status ++ writeU32 native).length = 8 := rfl
  refine ⟨(msgErrorResponse, writeU32 status ++ (writeU32 native ++ stringField (ascii detail))), ?_, rfl, ?_,
    guestError_fileError hdetail hascii⟩
  · unfold sendError
    rw [appendString_fits _ _ _ (by omega) (by omega)]
    dsimp only
    rw [List.append_assoc]
  · simp only [List.length_append, hword, stringField_length]
    omega

section

variable (a : Asked) (calls : PrepareCalls)

/-- The agent has a slot for the job, may start it, and can. -/
structure Prepared : Prop where
  allowed : a.Allowed
  free : calls.free = true
  vm : calls.allowDosVm = true ∨ calls.startsDosVm a.job = false
  thread : calls.thread = true

/-- What `v9x_execution_prepare` makes of the request. -/
theorem executionPrepare_asked : (executionPrepare calls a.payload = .ok a.job ∧ Prepared a calls) ∨
    ∃ status, executionPrepare calls a.payload = .error status ∧ status ≠ statusOk ∧ ¬ Prepared a calls := by
  have hread := dosReadJob_asked a
  unfold executionPrepare
  split
  · rename_i hshort
    refine .inr ⟨_, rfl, by decide, fun h => ?_⟩
    rw [if_pos h.allowed] at hread
    unfold dosReadJob at hread
    rw [if_pos hshort] at hread
    cases hread
  · by_cases hfree : calls.free = true
    · rw [if_neg (by rw [hfree]; decide)]
      by_cases hallowed : a.Allowed
      · rw [if_pos hallowed] at hread
        rw [hread]
        dsimp only
        by_cases hvm : calls.allowDosVm = true ∨ calls.startsDosVm a.job = false
        · have hmay : (!calls.allowDosVm && calls.startsDosVm a.job) = false := by
            rcases hvm with hvm | hvm
            · rw [hvm]
              rfl
            · rw [hvm, Bool.and_false]
          rw [hmay, if_neg Bool.false_ne_true]
          by_cases hthread : calls.thread = true
          · rw [if_neg (by rw [hthread]; decide)]
            exact .inl ⟨rfl, hallowed, hfree, hvm, hthread⟩
          · rw [if_pos (by rw [Bool.not_eq_true] at hthread; rw [hthread]; rfl)]
            exact .inr ⟨_, rfl, by decide, fun h => hthread h.thread⟩
        · have hmust : (!calls.allowDosVm && calls.startsDosVm a.job) = true := by
            obtain ⟨hno, hstarts⟩ := not_or.1 hvm
            rw [Bool.not_eq_true] at hno
            rw [Bool.not_eq_false] at hstarts
            rw [hno, hstarts]
            rfl
          rw [if_pos hmust]
          exact .inr ⟨_, rfl, by decide, fun h => hvm h.vm⟩
      · rw [if_neg hallowed] at hread
        rw [hread]
        exact .inr ⟨_, rfl, by decide, fun h => hallowed h.allowed⟩
    · rw [if_pos (by rw [Bool.not_eq_true] at hfree; rw [hfree]; rfl)]
      exact .inr ⟨_, rfl, by decide, fun h => hfree h.free⟩

end

/-- The error in place of EXEC_ACCEPTED. -/
theorem winExec_refused (calls : WinExecCalls) {status : UInt32} (hstatus : status ≠ statusOk) (payload : Bytes) :
    ∃ frame, (winExec ⟨fun _ _ => status, calls.prepare.isNt, true, true, calls.resume⟩ 0 payload).1.flatMap
      (ExecAnswer.frames calls) = [frame] ∧ Refusal frame := by
  have hdetails : ∀ detail ∈ ["execution already active", "execution worker creation failed",
      "refused: allow_dos_vm=0 and this is a DOS or Win16 program (NTVDM)",
      "refused: allow_dos_vm=0 and this would start a DOS VM (shell, console or DOS program)", "invalid execution request"],
      (ascii detail).length ≤ 256 ∧ AsciiText (ascii detail) := by decide +kernel
  have hrefused : ∀ detail ∈ ["execution already active", "execution worker creation failed",
      "refused: allow_dos_vm=0 and this is a DOS or Win16 program (NTVDM)",
      "refused: allow_dos_vm=0 and this would start a DOS VM (shell, console or DOS program)", "invalid execution request"],
      ∃ frame, [ExecAnswer.refused status detail].flatMap (ExecAnswer.frames calls) = [frame] ∧ Refusal frame := by
    intro detail hmem
    obtain ⟨hdetail, hascii⟩ := hdetails detail hmem
    rw [List.flatMap_singleton]
    exact refusal_sendError calls.native status detail hdetail hascii
  unfold winExec
  dsimp only
  rw [if_pos hstatus]
  apply hrefused
  split
  · simp
  · split
    · simp
    · split
      · split
        · simp
        · simp
      · simp

/-- **The Windows agent** answers with the job's output, or not at all. -/
theorem winExecFrames_answered (a : Asked) (calls : WinExecCalls) (hsent : calls.worker.Sent) {frames : List AgentFrame}
    (h : winExecFrames calls a.payload = some frames) :
    ∃ out, ExecAnswered frames out ∧ (out.isSome ↔ Prepared a calls.prepare ∧ calls.resume = true) ∧
      ∀ report, out = some report → CaughtOutput report (fun pipe => pipeReads (pipeCalls calls.worker pipe)) ∧
        report.exitCode = reportedExit a.job.slot calls.worker := by
  unfold winExecFrames at h
  rcases executionPrepare_asked a calls.prepare with ⟨hprepare, hprepared⟩ | ⟨status, hprepare, hstatus, hnot⟩
  · rw [hprepare] at h
    dsimp only at h
    by_cases hresume : calls.resume = true
    · rw [if_pos hresume] at h
      obtain ⟨sent, hworker, rfl⟩ := Option.map_eq_some_iff.1 h
      have hreports := executionWorker_reports hsent hworker
      obtain ⟨front, result, native, elapsed, stdoutTotal, stderrTotal, flags, hfront, rfl⟩ := executionWorker_frames hworker
      have hlimit (pipe : ExecPipe) : a.job.slot.limit pipe = 262144 := by cases pipe <;> rfl
      simp only [hlimit] at hreports
      obtain ⟨hcount, hcaptured⟩ := caughtOutput_of_reports hfront hreports
      have haccepted : (winExec ⟨fun _ _ => statusOk, calls.prepare.isNt, true, true, calls.resume⟩ 0 a.payload).1.flatMap
          (ExecAnswer.frames calls) = [(msgExecAcceptedType, writeU32 calls.tick)] := by
        rw [hresume]
        rfl
      rw [haccepted]
      exact ⟨_, .ran calls.tick hfront hcount _ _ _ _ _ _ _, iff_of_true rfl ⟨hprepared, hresume⟩, fun report hreport =>
        by obtain rfl := Option.some.inj hreport; exact ⟨hcaptured, rfl⟩⟩
    · rw [if_neg hresume] at h
      obtain rfl := Option.some.inj h
      rw [Bool.not_eq_true] at hresume
      obtain ⟨frame, hframe, hrefusal⟩ := refusal_sendError calls.native statusCreateFailed "execution thread did not start"
        (by decide) (by decide)
      have hstopped : (winExec ⟨fun _ _ => statusOk, calls.prepare.isNt, true, true, calls.resume⟩ 0 a.payload).1.flatMap
          (ExecAnswer.frames calls) = [(msgExecAcceptedType, writeU32 calls.tick), frame] := by
        rw [hresume]
        show [(msgExecAcceptedType, writeU32 calls.tick)] ++
          (sendError calls.native statusCreateFailed "execution thread did not start" ++ []) = _
        rw [hframe]
        rfl
      rw [hstopped]
      exact ⟨none, .stopped _ hrefusal, by simp [hresume], fun report hreport => by cases hreport⟩
  · rw [hprepare] at h
    dsimp only at h
    obtain rfl := Option.some.inj h
    obtain ⟨frame, hframe, hrefusal⟩ := winExec_refused calls hstatus a.payload
    rw [hframe]
    exact ⟨none, .refused hrefusal, by simp [hnot], fun report hreport => by cases hreport⟩

/-! ## The DOS agent -/

theorem Reports.tail {tick : UInt32} {sent : List AgentFrame} {pipe : ExecPipe} {limit : UInt32} {pieces : List Bytes}
    (h : Reports ((msgExecAcceptedType, writeU32 tick) :: sent) pipe limit pieces) : Reports sent pipe limit pieces := by
  have hpipe : framesOf pipe.message ((msgExecAcceptedType, writeU32 tick) :: sent) = framesOf pipe.message sent := by
    cases pipe <;> rfl
  have hcomplete : framesOf msgExecCompleteType ((msgExecAcceptedType, writeU32 tick) :: sent) =
      framesOf msgExecCompleteType sent := rfl
  obtain ⟨hframes, hbytes, hsizes, hlast⟩ := h
  rw [hpipe] at hframes hbytes hsizes
  rw [hcomplete] at hlast
  exact ⟨hframes, hbytes, hsizes, hlast⟩

section

variable {F : Type} (dos : DosSystem F) (calls : DosExecCalls) (m : DosMachine F) (a : Asked)

/-- What an execution on DOS reads of the capture file. There is no other pipe. -/
def dosReads : ExecPipe → List Bytes
  | .stdout => dosOutput dos calls a.job m
  | .stderr => []

/-- **The DOS agent** answers with the command's output, or not at all. -/
theorem dosExecute_answered (hsent : calls.Sent) :
    ∃ out, ExecAnswered (dosExecute dos calls a.payload m).frames out ∧ (out.isSome ↔ a.Allowed) ∧
      ∀ report, out = some report → CaughtOutput report (dosReads dos calls m a) ∧
        report.exitCode = (dosRunJob dos calls a.job (dosRunStart dos m)).exitCode := by
  have hread := dosReadJob_asked a
  by_cases hallowed : a.Allowed
  · rw [if_pos hallowed] at hread
    have hreports := @dosExecute_reports F dos calls a.job a.payload hread hsent m
    obtain ⟨hall, -, hframes, -⟩ := @dosRunJob_stream F dos calls a.job hsent m
    have hrun : (dosExecute dos calls a.payload m).frames = (msgExecAcceptedType, writeU32 calls.started) ::
        ((dosRunJob dos calls a.job (dosRunStart dos m)).stream.frames ++ [(msgExecCompleteType,
          execComplete (dosRunJob dos calls a.job (dosRunStart dos m)).result
            (dosRunJob dos calls a.job (dosRunStart dos m)).exitCode (dosRunJob dos calls a.job (dosRunStart dos m)).native
            (calls.finished - calls.started) (dosRunJob dos calls a.job (dosRunStart dos m)).stream.total 0
            (dosRunJob dos calls a.job (dosRunStart dos m)).stream.flags)]) := by
      unfold dosExecute
      rw [hread]
      dsimp only
      rw [hsent.first, Bool.not_true, if_neg Bool.false_ne_true, hall, Bool.not_true, if_neg Bool.false_ne_true, hsent.complete,
        if_pos rfl]
      rfl
    rw [hrun] at hreports ⊢
    have hfront : ∀ frame ∈ (dosRunJob dos calls a.job (dosRunStart dos m)).stream.frames, OutputFrame frame := by
      intro frame hframe
      have hmem := hframe
      unfold dosRunStart at hmem
      rw [hframes] at hmem
      obtain ⟨piece, -, rfl⟩ := List.mem_map.1 hmem
      refine ⟨⟨.stdout, rfl⟩, (hreports.1.tail.sizes piece ?_).2⟩
      unfold framesOf
      rw [List.mem_filterMap]
      exact ⟨_, List.mem_append_left _ hframe, rfl⟩
    have hpipes : ∀ pipe, Reports ((dosRunJob dos calls a.job (dosRunStart dos m)).stream.frames ++ [(msgExecCompleteType,
        execComplete (dosRunJob dos calls a.job (dosRunStart dos m)).result
          (dosRunJob dos calls a.job (dosRunStart dos m)).exitCode (dosRunJob dos calls a.job (dosRunStart dos m)).native
          (calls.finished - calls.started) (dosRunJob dos calls a.job (dosRunStart dos m)).stream.total 0
          (dosRunJob dos calls a.job (dosRunStart dos m)).stream.flags)]) pipe 262144 (dosReads dos calls m a pipe) := by
      intro pipe
      cases pipe with
      | stdout => exact hreports.1.tail
      | stderr => exact hreports.2.tail
    obtain ⟨hcount, hcaptured⟩ := caughtOutput_of_reports hfront hpipes
    refine ⟨_, .ran _ hfront hcount _ _ _ _ _ _ _, iff_of_true rfl hallowed, fun report hreport => ?_⟩
    obtain rfl := Option.some.inj hreport
    exact ⟨hcaptured, rfl⟩
  · rw [if_neg hallowed] at hread
    obtain ⟨frame, hframe, hrefusal⟩ := refusal_sendError calls.errno statusInvalidPayload "invalid execution request"
      (by decide) (by decide)
    have hrun : (dosExecute dos calls a.payload m).frames = [frame] := by
      rw [← hframe]
      unfold dosExecute sendError
      rw [hread]
      dsimp only
      generalize appendString responseSize (writeU32 statusInvalidPayload ++ writeU32 calls.errno)
        (ascii "invalid execution request") = appended
      cases appended with
      | none => rfl
      | some error => simp only [hsent.first, if_true]
    rw [hrun]
    exact ⟨none, .refused hrefusal, by simp [hallowed], fun report hreport => by cases hreport⟩

end

/-! ## From the request to the report -/

/-- The client ends with what there is to report, or with an exception where the connection breaks. -/
def Reporting (env : McpEnv) (st : McpState) (a : Asked) (frames : List AgentFrame) (out : Option ExecReport) : Prop :=
  ∀ more,
    (∀ answers, Arrived (UInt32.ofNat st.nextId.requestId) frames answers →
      (executeReport env a.request).run ⟨st, .done (.ok ()) :: (answers ++ more)⟩ = some (answered out, ⟨st.nextId, more⟩)) ∧
    ∀ answers, Severed (UInt32.ofNat st.nextId.requestId) frames answers →
      ∃ exc, (executeReport env a.request).run ⟨st, .done (.ok ()) :: (answers ++ more)⟩ =
        some (.error exc, ⟨st.nextId, more⟩)

/-- **In whatever pieces** the frames of an execution arrive. -/
theorem executeReport_answered {env : McpEnv} (hfuel : 2 ^ 20 ≤ env.fuel) {st : McpState} {a : Asked} (hask : CanAsk st a)
    (hsmall : a.payload.length ≤ maxPayload) {frames : List AgentFrame} {out : Option ExecReport}
    (h : ExecAnswered frames out) : Reporting env st a frames out := by
  intro more
  obtain ⟨harrived, hsevered⟩ := executeRest_answered env hask.connected.nextId.socket (nextId_toNat st) hfuel h more
  constructor
  · intro answers hanswers
    exact executeReport_rest env a hask hsmall (harrived answers hanswers)
  · intro answers hanswers
    obtain ⟨exc, hexc⟩ := hsevered answers hanswers
    exact ⟨exc, executeReport_rest env a hask hsmall hexc⟩

/-- `VER` in a shell. -/
def askedVer : Asked where
  shell := true
  showWindow := false
  detach := false
  timeout := 60000
  application := []
  command := ascii "VER"
  directory := []
  texts text h := by
    have hlength : text.length ≤ 3 := by
      simp only [List.mem_cons, List.not_mem_nil, or_false] at h
      rcases h with rfl | rfl | rfl <;> simp [ascii]
    refine .of_all ?_ (by omega)
    simp only [List.mem_cons, List.not_mem_nil, or_false] at h
    rcases h with rfl | rfl | rfl <;> rfl

/-- An agent that runs it, and reads three bytes of its output. -/
def threeBytesRead : WinExecCalls := ⟨⟨true, true, false, fun _ => .other, true⟩, 0, 0, true, threeBytes⟩

theorem askedVer_allowed : askedVer.Allowed := ⟨by decide, by decide, by decide, by decide, List.cons_ne_nil _ _⟩

end V9xRemote
