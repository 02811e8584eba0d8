import V9xRemote.Lib.Dialogue
import V9xRemote.Proof.Responses
import V9xRemote.Proof.Serve
import V9xRemote.Spec.GuestFiles
import V9xRemote.Spec.McpTransfer

/-!
# An agent's frames at the host

A client on a TCP socket reads a frame's header and then its payload, each in as many calls of
`recv` as it takes. `Pieces` is what these calls bring of some bytes, `Cut` is a connection that
ends on the way. `Arrived` and `Severed` say the same of an agent's frames.

* `recvFrame_arrived`, `recvFrame_severed`: a frame is read, or there is an exception.
* `expect_answer`, `expect_refused`: and what `expect` makes of it.
* `guestError_fileError`: an agent's error is the host's `V9xGuestError`.
* `loop_last`, `loop_refused`, `loop_broken`: a loop that takes frame after frame, to its last.
-/

namespace V9xRemote

open Bytes Cursor Dialogue

/-! ## Bytes in pieces -/

/-- The pieces in which a socket brings some bytes. -/
inductive Pieces : Bytes → List McpAnswer → Prop
  | nil : Pieces [] []
  | cons {piece rest : Bytes} {answers : List McpAnswer} (hne : piece ≠ []) (h : Pieces rest answers) :
    Pieces (piece ++ rest) (.data (.ok piece) :: answers)

theorem Pieces.length_le {data : Bytes} {answers : List McpAnswer} (h : Pieces data answers) :
    answers.length ≤ data.length := by
  induction h with
  | nil => simp
  | cons hne h ih =>
    have := List.length_pos_of_ne_nil hne
    simp only [List.length_cons, List.length_append]
    omega

theorem Pieces.eq_nil {data : Bytes} {answers : List McpAnswer} (h : Pieces data answers) (hnil : data.length = 0) :
    answers = [] := by
  have := h.length_le
  exact List.length_eq_zero_iff.1 (by omega)

/-- What `recv` says where there is no more: the peer has closed, or there is an error. -/
def IsEnd (answer : McpAnswer) : Prop := answer = .data (.ok []) ∨ ∃ failure, answer = .data (.error failure)

/-- A connection that ends before the last of some bytes. -/
def Cut (data : Bytes) (answers : List McpAnswer) : Prop :=
  ∃ front left pieces last, data = front ++ left ∧ left ≠ [] ∧ Pieces front pieces ∧ IsEnd last ∧
    answers = pieces ++ [last]

section

variable (env : McpEnv) {st : McpState} (hsocket : st.session = none)
include hsocket

theorem sockRecv_data (count : ℕ) (piece : Bytes) (more : List McpAnswer) :
    (sockRecv env count).run ⟨st, .data (.ok piece) :: more⟩ = some (.ok (piece.take count), ⟨st, more⟩) := by
  rw [sockRecv, Prog.run_bind_ok Prog.run_get]
  dsimp only
  rw [hsocket]
  rfl

theorem sockRecv_failed (count : ℕ) (failure : OsFailure) (more : List McpAnswer) :
    (sockRecv env count).run ⟨st, .data (.error failure) :: more⟩ = some (.error failure.exc, ⟨st, more⟩) := by
  rw [sockRecv, Prog.run_bind_ok Prog.run_get]
  dsimp only
  rw [hsocket]
  rfl

theorem sockSend_done (data : Bytes) (more : List McpAnswer) :
    (sockSend data).run ⟨st, .done (.ok ()) :: more⟩ = some (.ok (), ⟨st, more⟩) := by
  rw [sockSend, Prog.run_bind_ok Prog.run_get]
  dsimp only
  rw [hsocket]
  rfl

/-- One turn of `read_exact`. -/
theorem readMore_piece {piece : Bytes} (hne : piece ≠ []) (front : Bytes) (left : ℕ) (more : List McpAnswer) :
    (readMore env (front, piece.length + left)).run ⟨st, .data (.ok piece) :: more⟩ =
      some (.ok (.inl (front ++ piece, left)), ⟨st, more⟩) := by
  have hpos := List.length_pos_of_ne_nil hne
  unfold readMore
  dsimp only
  rw [if_neg (by omega), Prog.run_bind_ok (sockRecv_data env hsocket _ piece more), List.take_of_length_le (by omega)]
  simp only [Mcp.check, hne, ne_eq, not_false_eq_true, decide_true, if_true]
  rw [Prog.run_bind_ok (Prog.run_pure ()), Nat.add_sub_cancel_left]
  rfl

theorem readMore_end {last : McpAnswer} (hend : IsEnd last) (front : Bytes) {left : ℕ} (hleft : 0 < left)
    (more : List McpAnswer) :
    ∃ exc, (readMore env (front, left)).run ⟨st, last :: more⟩ = some (.error exc, ⟨st, more⟩) := by
  unfold readMore
  dsimp only
  rw [if_neg (by omega)]
  rcases hend with rfl | ⟨failure, rfl⟩
  · rw [Prog.run_bind_ok (sockRecv_data env hsocket _ [] more), List.take_nil]
    exact ⟨_, rfl⟩
  · exact ⟨_, Prog.run_bind_error (sockRecv_failed env hsocket _ failure more) _⟩

theorem readMore_pieces {data : Bytes} {answers : List McpAnswer} (h : Pieces data answers) (front : Bytes) (left fuel : ℕ)
    (more : List McpAnswer) :
    (Prog.loop (readMore env) (answers.length + fuel) (front, data.length + left)).run ⟨st, answers ++ more⟩ =
      (Prog.loop (readMore env) fuel (front ++ data, left)).run ⟨st, more⟩ := by
  induction h generalizing front with
  | nil => simp
  | @cons piece rest answers hne h ih =>
    rw [List.length_append, Nat.add_assoc, List.length_cons, Nat.add_right_comm, List.cons_append,
      Prog.run_loop_again (readMore_piece env hsocket hne front _ _), ih, List.append_assoc]

/-- **What comes in pieces** is read. -/
theorem readExact_pieces {data : Bytes} {answers : List McpAnswer} (h : Pieces data answers)
    (hfuel : data.length < env.fuel) (more : List McpAnswer) :
    (readExact env data.length).run ⟨st, answers ++ more⟩ = some (.ok data, ⟨st, more⟩) := by
  have hlength := h.length_le
  obtain ⟨fuel, hfuel⟩ : ∃ fuel, env.fuel = answers.length + (fuel + 1) := ⟨env.fuel - answers.length - 1, by omega⟩
  rw [readExact, hfuel]
  exact (readMore_pieces env hsocket h [] 0 (fuel + 1) more).trans (Prog.run_loop_end (Prog.run_pure _) fuel)

/-- **What is cut** raises. -/
theorem readExact_cut {data : Bytes} {answers : List McpAnswer} (h : Cut data answers) (hfuel : data.length < env.fuel)
    (more : List McpAnswer) :
    ∃ exc, (readExact env data.length).run ⟨st, answers ++ more⟩ = some (.error exc, ⟨st, more⟩) := by
  obtain ⟨front, left, pieces, last, rfl, hleft, hpieces, hend, rfl⟩ := h
  have hlength := hpieces.length_le
  rw [List.length_append] at hfuel ⊢
  obtain ⟨fuel, hfuel⟩ : ∃ fuel, env.fuel = pieces.length + (fuel + 1) := ⟨env.fuel - pieces.length - 1, by omega⟩
  obtain ⟨exc, hexc⟩ := readMore_end env hsocket hend ([] ++ front) (List.length_pos_of_ne_nil hleft) more
  refine ⟨exc, ?_⟩
  rw [readExact, hfuel, List.append_assoc]
  exact (readMore_pieces env hsocket hpieces [] left.length (fuel + 1) ([last] ++ more)).trans (Prog.run_loop_error hexc fuel)

end

/-! ## Frames -/

/-- The header of an agent's frame. -/
def agentHeader (requestId : UInt32) (frame : AgentFrame) : Bytes :=
  encodeHeader ⟨protocolVersion, frame.1, requestId, 0, UInt32.ofNat frame.2.length, 0⟩

theorem agentFrame_length (requestId : UInt32) (frame : AgentFrame) :
    (agentFrame requestId frame).length = 24 + frame.2.length := List.length_append

/-- An agent's frames, as they arrive. -/
inductive Arrived (requestId : UInt32) : List AgentFrame → List McpAnswer → Prop
  | nil : Arrived requestId [] []
  | cons {frame : AgentFrame} {frames : List AgentFrame} {header payload answers : List McpAnswer}
    (hheader : Pieces (agentHeader requestId frame) header) (hpayload : Pieces frame.2 payload)
    (h : Arrived requestId frames answers) : Arrived requestId (frame :: frames) (header ++ (payload ++ answers))

/-- The connection ends on the way. -/
inductive Severed (requestId : UInt32) : List AgentFrame → List McpAnswer → Prop
  | header {frame : AgentFrame} {frames : List AgentFrame} {header : List McpAnswer}
    (hheader : Cut (agentHeader requestId frame) header) : Severed requestId (frame :: frames) header
  | payload {frame : AgentFrame} {frames : List AgentFrame} {header payload : List McpAnswer}
    (hheader : Pieces (agentHeader requestId frame) header) (hpayload : Cut frame.2 payload) :
    Severed requestId (frame :: frames) (header ++ payload)
  | later {frame : AgentFrame} {frames : List AgentFrame} {header payload answers : List McpAnswer}
    (hheader : Pieces (agentHeader requestId frame) header) (hpayload : Pieces frame.2 payload)
    (h : Severed requestId frames answers) : Severed requestId (frame :: frames) (header ++ (payload ++ answers))

theorem pieces_whole {data : Bytes} (h : data ≠ []) : Pieces data [.data (.ok data)] := by
  have h := Pieces.cons h .nil
  rwa [List.append_nil] at h

/-- Some frames may arrive. -/
theorem exists_arrived (requestId : UInt32) (frames : List AgentFrame) : ∃ answers, Arrived requestId frames answers := by
  induction frames with
  | nil => exact ⟨[], .nil⟩
  | cons frame frames ih =>
    obtain ⟨answers, h⟩ := ih
    have hheader := pieces_whole (show agentHeader requestId frame ≠ [] from List.cons_ne_nil _ _)
    by_cases hempty : frame.2 = []
    · have hpayload : Pieces frame.2 [] := by
        rw [hempty]
        exact .nil
      exact ⟨_, .cons hheader hpayload h⟩
    · exact ⟨_, .cons hheader (pieces_whole hempty) h⟩

/-- What the host reads of a header. -/
theorem agentHeader_read (requestId : UInt32) {frame : AgentFrame} (hsize : frame.2.length ≤ maxPayload) :
    (agentHeader requestId frame).take 4 = wireMagic ∧ (agentHeader requestId frame).readU16 6 = frame.1 ∧
      (agentHeader requestId frame).readU32 8 = requestId ∧
      ((agentHeader requestId frame).readU32 16).toNat = frame.2.length ∧ (agentHeader requestId frame).readU32 20 = 0 := by
  have hdecode := decodeHeader_encodeHeader ⟨protocolVersion, frame.1, requestId, 0, UInt32.ofNat frame.2.length, 0⟩
  unfold decodeHeader at hdecode
  split at hdecode
  · exact absurd hdecode (by simp)
  simp only [Option.some.injEq, FrameHeader.mk.injEq] at hdecode
  obtain ⟨-, htype, hid, -, hlength, hreserved⟩ := hdecode
  have hmax : maxPayload = 65536 := rfl
  have hsmall : frame.2.length < 2 ^ 32 := by omega
  refine ⟨rfl, htype, hid, ?_, hreserved⟩
  have hread : (agentHeader requestId frame).readU32 16 = UInt32.ofNat frame.2.length := hlength
  rw [hread, UInt32.toNat_ofNat_of_lt' hsmall]

/-- **An ERROR_RESPONSE** for the host. -/
def guestRefusal : PyExc := ⟨.v9xGuestError, "guest error"⟩

theorem fileError_eq {status native : UInt32} {detail : String} (hdetail : (ascii detail).length ≤ 256) :
    fileError status native detail =
      [(msgErrorResponse, writeU32 status ++ (writeU32 native ++ stringField (ascii detail)))] := by
  have hsize : fileResponseSize = 16384 := rfl
  have hhead : (writeU32 status ++ writeU32 native).length = 8 := rfl
  unfold fileError
  rw [appendString_fits _ _ _ (by omega) (by omega)]
  dsimp only
  rw [List.append_assoc]

theorem guestError_fileError {status native : UInt32} {detail : Bytes} (hdetail : detail.length ≤ 256)
    (hascii : AsciiText detail) :
    guestError (writeU32 status ++ (writeU32 native ++ stringField detail)) = .ok guestRefusal := by
  have hword (v : UInt32) : (writeU32 v).length = 4 := rfl
  have hlength : (writeU32 status ++ (writeU32 native ++ stringField detail)).length = 10 + detail.length := by
    simp only [List.length_append, hword, stringField_length]
    omega
  have hat : At (writeU32 status ++ (writeU32 native ++ stringField detail)) 8 (stringField detail ++ []) := by
    rw [List.append_nil]
    exact (at_start _).next.next
  have hunpack : ∃ head, unpackFrom (writeU32 status ++ (writeU32 native ++ stringField detail)) 0 8 = .ok head :=
    ⟨_, if_pos (by omega)⟩
  obtain ⟨head, hhead⟩ := hunpack
  simp only [guestError, if_neg (show ¬ 10 + detail.length < 10 by omega), hlength, hhead, parseString_at hat (by omega),
    if_pos hascii, bind, Except.bind, pure, Except.pure]
  rfl

/-- An ERROR_RESPONSE that the host takes for one. -/
structure Refusal (frame : AgentFrame) : Prop where
  type : frame.1 = msgErrorResponse
  small : frame.2.length ≤ maxPayload
  guest : guestError frame.2 = .ok guestRefusal

theorem refusal_fileError (status native : UInt32) (detail : String) (hdetail : (ascii detail).length ≤ 256)
    (hascii : AsciiText (ascii detail)) : ∃ frame, fileError status native detail = [frame] ∧ Refusal frame := by
  have hmax : maxPayload = 65536 := rfl
  have hword (v : UInt32) : (writeU32 v).length = 4 := rfl
  refine ⟨_, fileError_eq hdetail, rfl, ?_, guestError_fileError hdetail hascii⟩
  simp only [List.length_append, hword, stringField_length]
  omega

section

variable (env : McpEnv) {st : McpState} (hsocket : st.session = none)
include hsocket

/-- **A frame that arrives** is read. -/
theorem recvFrame_arrived {requestId : UInt32} {frame : AgentFrame} (hsize : frame.2.length ≤ maxPayload)
    {header payload : List McpAnswer} (hheader : Pieces (agentHeader requestId frame) header)
    (hpayload : Pieces frame.2 payload) (hfuel : 24 + frame.2.length < env.fuel) (more : List McpAnswer) :
    (recvFrame env).run ⟨st, header ++ (payload ++ more)⟩ =
      some (.ok (frame.1.toNat, requestId.toNat, frame.2), ⟨st, more⟩) := by
  obtain ⟨hmagic, htype, hid, hlength, hreserved⟩ := agentHeader_read requestId hsize
  have htwentyFour : (agentHeader requestId frame).length = 24 := rfl
  have hread := readExact_pieces env hsocket hheader (by omega) (payload ++ more)
  rw [htwentyFour] at hread
  unfold recvFrame
  rw [Prog.run_bind_ok hread]
  have hunpack : unpackFrom (agentHeader requestId frame) 0 24 = .ok (agentHeader requestId frame) := rfl
  rw [hunpack, Prog.run_bind_ok (Prog.run_lift _)]
  simp only [hmagic, htype, hid, hlength, hreserved, Mcp.check, decide_true, if_true, hsize]
  rw [Prog.run_bind_ok (Prog.run_pure ()), Prog.run_bind_ok (Prog.run_pure ()), Prog.run_bind_ok (Prog.run_pure ())]
  by_cases hempty : frame.2.length = 0
  · rw [if_pos hempty, hpayload.eq_nil hempty, List.length_eq_zero_iff.1 hempty]
    rfl
  · rw [if_neg hempty, Prog.run_bind_ok (readExact_pieces env hsocket hpayload (by omega) more)]
    rfl

theorem recvFrame_cut {requestId : UInt32} {frame : AgentFrame} {header : List McpAnswer}
    (hheader : Cut (agentHeader requestId frame) header) (hfuel : 24 < env.fuel) (more : List McpAnswer) :
    ∃ exc, (recvFrame env).run ⟨st, header ++ more⟩ = some (.error exc, ⟨st, more⟩) := by
  have htwentyFour : (agentHeader requestId frame).length = 24 := rfl
  obtain ⟨exc, hexc⟩ := readExact_cut env hsocket hheader (by omega) more
  rw [htwentyFour] at hexc
  exact ⟨exc, Prog.run_bind_error hexc _⟩

theorem recvFrame_short {requestId : UInt32} {frame : AgentFrame} (hsize : frame.2.length ≤ maxPayload)
    {header payload : List McpAnswer} (hheader : Pieces (agentHeader requestId frame) header) (hpayload : Cut frame.2 payload)
    (hfuel : 24 + frame.2.length < env.fuel) (more : List McpAnswer) :
    ∃ exc, (recvFrame env).run ⟨st, header ++ payload ++ more⟩ = some (.error exc, ⟨st, more⟩) := by
  obtain ⟨hmagic, htype, hid, hlength, hreserved⟩ := agentHeader_read requestId hsize
  have htwentyFour : (agentHeader requestId frame).length = 24 := rfl
  have hread := readExact_pieces env hsocket hheader (by omega) (payload ++ more)
  rw [htwentyFour] at hread
  -- there is a byte that did not come
  have hsome : frame.2.length ≠ 0 := by
    obtain ⟨front, left, pieces, last, hdata, hleft, -⟩ := hpayload
    have := List.length_pos_of_ne_nil hleft
    rw [hdata, List.length_append]
    omega
  obtain ⟨exc, hexc⟩ := readExact_cut env hsocket hpayload (by omega) more
  refine ⟨exc, ?_⟩
  unfold recvFrame
  rw [List.append_assoc, Prog.run_bind_ok hread]
  have hunpack : unpackFrom (agentHeader requestId frame) 0 24 = .ok (agentHeader requestId frame) := rfl
  rw [hunpack, Prog.run_bind_ok (Prog.run_lift _)]
  simp only [hmagic, hlength, hreserved, Mcp.check, decide_true, if_true, hsize]
  rw [Prog.run_bind_ok (Prog.run_pure ()), Prog.run_bind_ok (Prog.run_pure ()), Prog.run_bind_ok (Prog.run_pure ()),
    if_neg hsome, Prog.run_bind_error hexc]

variable {requestId : UInt32} (hid : requestId.toNat = st.requestId) (hfuel : 24 + maxPayload < env.fuel)
include hid hfuel

/-- **A response that is waited for.** -/
theorem expect_answer {types : List ℕ} {frame : AgentFrame} (hsize : frame.2.length ≤ maxPayload)
    (hne : frame.1 ≠ msgErrorResponse) (htypes : types.contains frame.1.toNat = true) {header payload : List McpAnswer}
    (hheader : Pieces (agentHeader requestId frame) header) (hpayload : Pieces frame.2 payload) (more : List McpAnswer) :
    (expect env types).run ⟨st, header ++ (payload ++ more)⟩ = some (.ok (frame.1.toNat, frame.2), ⟨st, more⟩) := by
  have hother : frame.1.toNat ≠ msgError := fun h => hne (UInt16.toNat_inj.1 h)
  unfold expect
  rw [Prog.run_bind_ok (recvFrame_arrived env hsocket hsize hheader hpayload (by omega) more)]
  dsimp only
  rw [Prog.run_bind_ok Prog.run_get]
  simp only [hid, Mcp.check, decide_true, if_true, if_neg hother, htypes]
  rfl

/-- **An error in its place.** -/
theorem expect_refused (types : List ℕ) {frame : AgentFrame} (hsize : frame.2.length ≤ maxPayload)
    (herror : frame.1 = msgErrorResponse) (hguest : guestError frame.2 = .ok guestRefusal) {header payload : List McpAnswer}
    (hheader : Pieces (agentHeader requestId frame) header) (hpayload : Pieces frame.2 payload) (more : List McpAnswer) :
    (expect env types).run ⟨st, header ++ (payload ++ more)⟩ = some (.error guestRefusal, ⟨st, more⟩) := by
  have hthis : frame.1.toNat = msgError := by rw [herror]; rfl
  unfold expect
  rw [Prog.run_bind_ok (recvFrame_arrived env hsocket hsize hheader hpayload (by omega) more)]
  dsimp only
  rw [Prog.run_bind_ok Prog.run_get]
  simp only [hid, Mcp.check, decide_true, if_true, hthis, hguest]
  rfl

omit hid in
/-- **A response that does not come whole.** -/
theorem expect_severed (types : List ℕ) {frame : AgentFrame} (hsize : frame.2.length ≤ maxPayload) {frames : List AgentFrame}
    {answers : List McpAnswer} (h : Severed requestId (frame :: frames) answers) (more : List McpAnswer) :
    (∃ exc, (expect env types).run ⟨st, answers ++ more⟩ = some (.error exc, ⟨st, more⟩)) ∨
      ∃ header payload rest, Pieces (agentHeader requestId frame) header ∧ Pieces frame.2 payload ∧
        Severed requestId frames rest ∧ answers = header ++ (payload ++ rest) := by
  cases h with
  | header hheader =>
    obtain ⟨exc, hexc⟩ := recvFrame_cut env hsocket hheader (by omega) more
    exact .inl ⟨exc, Prog.run_bind_error hexc _⟩
  | payload hheader hpayload =>
    obtain ⟨exc, hexc⟩ := recvFrame_short env hsocket hsize hheader hpayload (by omega) more
    exact .inl ⟨exc, Prog.run_bind_error hexc _⟩
  | later hheader hpayload h => exact .inr ⟨_, _, _, hheader, hpayload, h, rfl⟩

theorem expect_one {types : List ℕ} {frame : AgentFrame} (hsize : frame.2.length ≤ maxPayload)
    (hne : frame.1 ≠ msgErrorResponse) (htypes : types.contains frame.1.toNat = true) {answers : List McpAnswer}
    (h : Arrived requestId [frame] answers) (more : List McpAnswer) :
    (expect env types).run ⟨st, answers ++ more⟩ = some (.ok (frame.1.toNat, frame.2), ⟨st, more⟩) := by
  cases h with
  | @cons _ _ header payload nothing hheader hpayload hnothing =>
    cases hnothing
    rw [List.append_assoc, List.append_assoc, List.nil_append]
    exact expect_answer env hsocket hid hfuel hsize hne htypes hheader hpayload more

theorem expect_one_refused (types : List ℕ) {frame : AgentFrame} (hrefusal : Refusal frame) {answers : List McpAnswer}
    (h : Arrived requestId [frame] answers) (more : List McpAnswer) :
    (expect env types).run ⟨st, answers ++ more⟩ = some (.error guestRefusal, ⟨st, more⟩) := by
  cases h with
  | @cons _ _ header payload nothing hheader hpayload hnothing =>
    cases hnothing
    rw [List.append_assoc, List.append_assoc, List.nil_append]
    exact expect_refused env hsocket hid hfuel types hrefusal.small hrefusal.type hrefusal.guest hheader hpayload more

omit hid in
theorem expect_one_severed (types : List ℕ) {frame : AgentFrame} (hsize : frame.2.length ≤ maxPayload)
    {answers : List McpAnswer} (h : Severed requestId [frame] answers) (more : List McpAnswer) :
    ∃ exc, (expect env types).run ⟨st, answers ++ more⟩ = some (.error exc, ⟨st, more⟩) := by
  rcases expect_severed env hsocket hfuel types hsize h more with hexc | ⟨header, payload, nothing, -, -, hnothing, -⟩
  · exact hexc
  · cases hnothing

end

/-! ## Loops over frames -/

/-- What the turns of a loop make of some frames, one each. -/
inductive Steps {α β : Type} (types : List ℕ) (turn : β → ℕ × Bytes → Mcp (β ⊕ α)) (st : McpState) :
    β → List AgentFrame → β → Prop
  | nil (b : β) : Steps types turn st b [] b
  | cons {b b' b'' : β} {frame : AgentFrame} {frames : List AgentFrame} (hsize : frame.2.length ≤ maxPayload)
    (hne : frame.1 ≠ msgErrorResponse) (htypes : types.contains frame.1.toNat = true)
    (hturn : ∀ more, (turn b (frame.1.toNat, frame.2)).run ⟨st, more⟩ = some (.ok (.inl b'), ⟨st, more⟩))
    (h : Steps types turn st b' frames b'') : Steps types turn st b (frame :: frames) b''

section

variable {α β : Type} (env : McpEnv) {types : List ℕ} {turn : β → ℕ × Bytes → Mcp (β ⊕ α)} {st : McpState}
  (hsocket : st.session = none) {requestId : UInt32} (hid : requestId.toNat = st.requestId)
  (hfuel : 24 + maxPayload < env.fuel) {b b' : β} {frames : List AgentFrame}
include hsocket hid hfuel

theorem loop_arrived (h : Steps types turn st b frames b') {tail : List AgentFrame} {answers : List McpAnswer}
    (harrived : Arrived requestId (frames ++ tail) answers) : ∃ rest, Arrived requestId tail rest ∧ ∀ fuel more,
      (Prog.loop (fun b => expect env types >>= turn b) (frames.length + fuel) b).run ⟨st, answers ++ more⟩ =
        (Prog.loop (fun b => expect env types >>= turn b) fuel b').run ⟨st, rest ++ more⟩ := by
  induction h generalizing answers with
  | nil b => exact ⟨answers, harrived, fun fuel more => by simp⟩
  | cons hsize hne htypes hturn h ih =>
    cases harrived with
    | @cons _ _ header payload left hheader hpayload harrived =>
      obtain ⟨rest, hrest, hrun⟩ := ih harrived
      refine ⟨rest, hrest, fun fuel more => ?_⟩
      have hexpect := expect_answer env hsocket hid hfuel hsize hne htypes hheader hpayload (left ++ more)
      rw [List.length_cons, Nat.add_right_comm, List.append_assoc, List.append_assoc,
        Prog.run_loop_again ((Prog.run_bind_ok hexpect _).trans (hturn _)), hrun]

theorem loop_severed (h : Steps types turn st b frames b') {tail : List AgentFrame} {answers : List McpAnswer}
    (hsevered : Severed requestId (frames ++ tail) answers) (more : List McpAnswer) :
    (∃ exc, ∀ fuel,
      (Prog.loop (fun b => expect env types >>= turn b) (frames.length + (fuel + 1)) b).run ⟨st, answers ++ more⟩ =
        some (.error exc, ⟨st, more⟩)) ∨
      ∃ rest, Severed requestId tail rest ∧ ∀ fuel,
        (Prog.loop (fun b => expect env types >>= turn b) (frames.length + fuel) b).run ⟨st, answers ++ more⟩ =
          (Prog.loop (fun b => expect env types >>= turn b) fuel b').run ⟨st, rest ++ more⟩ := by
  induction h generalizing answers with
  | nil b => exact .inr ⟨answers, hsevered, fun fuel => by simp⟩
  | @cons b b₁ b₂ frame frames hsize hne htypes hturn h ih =>
    rcases expect_severed env hsocket hfuel types hsize hsevered more with ⟨exc, hexc⟩ | ⟨header, payload, left, hheader,
      hpayload, hleft, rfl⟩
    · refine .inl ⟨exc, fun fuel => ?_⟩
      rw [List.length_cons, Nat.add_right_comm]
      exact Prog.run_loop_error (Prog.run_bind_error hexc _) _
    · have hexpect := expect_answer env hsocket hid hfuel hsize hne htypes hheader hpayload (left ++ more)
      have hturns (fuel : ℕ) : (Prog.loop (fun b => expect env types >>= turn b) ((frame :: frames).length + fuel) b).run
          ⟨st, header ++ (payload ++ left) ++ more⟩ =
            (Prog.loop (fun b => expect env types >>= turn b) (frames.length + fuel) b₁).run ⟨st, left ++ more⟩ := by
        rw [List.length_cons, Nat.add_right_comm, List.append_assoc, List.append_assoc,
          Prog.run_loop_again ((Prog.run_bind_ok hexpect _).trans (hturn _))]
      rcases ih hleft with ⟨exc, hexc⟩ | ⟨rest, hrest, hrun⟩
      · exact .inl ⟨exc, fun fuel => (hturns _).trans (hexc fuel)⟩
      · exact .inr ⟨rest, hrest, fun fuel => (hturns fuel).trans (hrun fuel)⟩

/-- **A loop that comes to its last frame.** -/
theorem loop_last (h : Steps types turn st b frames b') {last : AgentFrame} (hsize : last.2.length ≤ maxPayload)
    (hne : last.1 ≠ msgErrorResponse) (htype : types.contains last.1.toNat = true) {a : α}
    (hend : ∀ more, (turn b' (last.1.toNat, last.2)).run ⟨st, more⟩ = some (.ok (.inr a), ⟨st, more⟩))
    {answers : List McpAnswer} (harrived : Arrived requestId (frames ++ [last]) answers) {fuel : ℕ}
    (hrounds : frames.length < fuel) (more : List McpAnswer) :
    (Prog.loop (fun b => expect env types >>= turn b) fuel b).run ⟨st, answers ++ more⟩ = some (.ok a, ⟨st, more⟩) := by
  obtain ⟨left, rfl⟩ : ∃ left, fuel = frames.length + (left + 1) := ⟨fuel - frames.length - 1, by omega⟩
  obtain ⟨rest, hrest, hrun⟩ := loop_arrived env hsocket hid hfuel h harrived
  cases hrest with
  | @cons _ _ header payload nothing hheader hpayload hnothing =>
    cases hnothing
    have hexpect := expect_answer env hsocket hid hfuel hsize hne htype hheader hpayload more
    rw [hrun, List.append_assoc, List.append_assoc, List.nil_append]
    exact Prog.run_loop_end ((Prog.run_bind_ok hexpect _).trans (hend more)) left

/-- **A loop that comes to an error.** -/
theorem loop_refused (h : Steps types turn st b frames b') {last : AgentFrame} (hrefusal : Refusal last)
    {answers : List McpAnswer} (harrived : Arrived requestId (frames ++ [last]) answers) {fuel : ℕ}
    (hrounds : frames.length < fuel) (more : List McpAnswer) :
    (Prog.loop (fun b => expect env types >>= turn b) fuel b).run ⟨st, answers ++ more⟩ =
      some (.error guestRefusal, ⟨st, more⟩) := by
  obtain ⟨left, rfl⟩ : ∃ left, fuel = frames.length + (left + 1) := ⟨fuel - frames.length - 1, by omega⟩
  obtain ⟨rest, hrest, hrun⟩ := loop_arrived env hsocket hid hfuel h harrived
  cases hrest with
  | @cons _ _ header payload nothing hheader hpayload hnothing =>
    cases hnothing
    have hexpect := expect_refused env hsocket hid hfuel types hrefusal.small hrefusal.type hrefusal.guest hheader hpayload more
    rw [hrun, List.append_assoc, List.append_assoc, List.nil_append]
    exact Prog.run_loop_error (Prog.run_bind_error hexpect _) left

/-- **A loop whose connection breaks.** -/
theorem loop_broken (h : Steps types turn st b frames b') {last : AgentFrame} (hsize : last.2.length ≤ maxPayload)
    {answers : List McpAnswer} (hsevered : Severed requestId (frames ++ [last]) answers) {fuel : ℕ}
    (hrounds : frames.length < fuel) (more : List McpAnswer) :
    ∃ exc, (Prog.loop (fun b => expect env types >>= turn b) fuel b).run ⟨st, answers ++ more⟩ =
      some (.error exc, ⟨st, more⟩) := by
  obtain ⟨left, rfl⟩ : ∃ left, fuel = frames.length + (left + 1) := ⟨fuel - frames.length - 1, by omega⟩
  rcases loop_severed env hsocket hid hfuel h hsevered more with ⟨exc, hexc⟩ | ⟨rest, hrest, hrun⟩
  · exact ⟨exc, hexc left⟩
  · rcases expect_severed env hsocket hfuel types hsize hrest more with
      ⟨exc, hexc⟩ | ⟨header, payload, nothing, -, -, hnothing, -⟩
    · exact ⟨exc, (hrun _).trans (Prog.run_loop_error (Prog.run_bind_error hexc _) left)⟩
    · cases hnothing

end

/-! ## Requests -/

/-- The id of the next request. -/
def McpState.nextId (st : McpState) : McpState := { st with requestId := st.requestId % 0x7FFFFFFE + 1 }

/-- A client on a TCP socket that knows what its agent can do. -/
structure Connected (st : McpState) (capability : UInt32) : Prop where
  socket : st.session = none
  hello : ∃ hello, st.hello = some hello ∧ hello.capabilities &&& capability ≠ 0

theorem Connected.nextId {st : McpState} {capability : UInt32} (h : Connected st capability) :
    Connected st.nextId capability := ⟨h.socket, h.hello⟩

theorem require_run {st : McpState} {capability : UInt32} (h : Connected st capability) (more : List McpAnswer) :
    (require capability).run ⟨st, more⟩ = some (.ok (), ⟨st, more⟩) := by
  obtain ⟨hello, hhello, hcap⟩ := h.hello
  have hfound : clientHello.run ⟨st, more⟩ = some (.ok hello, ⟨st, more⟩) := by
    rw [clientHello, Prog.run_bind_ok Prog.run_get]
    dsimp only
    rw [hhello]
    rfl
  rw [require, Prog.run_bind_ok hfound]
  simp only [Mcp.check, bne_iff_ne.2 hcap, if_true]
  rfl

theorem sendFrame_run {st : McpState} (hsocket : st.session = none) (type : ℕ) {payload : Bytes}
    (hsize : payload.length ≤ maxPayload) (more : List McpAnswer) :
    (sendFrame type payload).run ⟨st, .done (.ok ()) :: more⟩ = some (.ok (), ⟨st, more⟩) := by
  unfold sendFrame
  simp only [Mcp.check, hsize, decide_true, if_true]
  rw [Prog.run_bind_ok (Prog.run_pure ()), Prog.run_bind_ok Prog.run_get]
  exact sockSend_done hsocket _ more

theorem nextId_toNat (st : McpState) : (UInt32.ofNat st.nextId.requestId).toNat = st.nextId.requestId := by
  have hlt : st.nextId.requestId < 2 ^ 32 := by
    show st.requestId % 0x7FFFFFFE + 1 < 2 ^ 32
    omega
  exact UInt32.toNat_ofNat_of_lt' hlt

theorem nextId_run (st : McpState) (more : List McpAnswer) : nextId.run ⟨st, more⟩ = some (.ok (), ⟨st.nextId, more⟩) := rfl

/-- A client that may do everything. -/
def demoClient : McpState :=
  ⟨[], 7832, true, .none, none, 41, some ⟨256, 0xffffffff, 65536, 1, 7832, 0x101, ascii "dev", ⟨[], true, 640, 480, 8, [], [], []⟩⟩⟩

def demoEnv : McpEnv :=
  ⟨2 ^ 32, ⟨fun _ => none, fun _ => none⟩, fun _ => .invalid, id, fun _ _ => false, fun _ _ => false, fun _ => false, [], 7832, 15,
    none, 3, false, .none, false⟩

/-- What the host gets, or `V9xGuestError`. -/
def answered {α : Type} : Option α → Except PyExc α
  | some a => .ok a
  | none => .error guestRefusal

end V9xRemote
