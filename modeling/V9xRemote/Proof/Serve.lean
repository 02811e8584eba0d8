import V9xRemote.Spec.Serve
import V9xRemote.Lib.Cursor

/-!
# The connection gate

`gate` says what a connection is for, on the bytes that are sent: the frames at their front,
each with the decision on it, as far as the connection goes on. Both loops serve exactly that,
whatever the pieces (`winServe_gate`, `dosServe_gate`).
-/

namespace V9xRemote

open Bytes Arrival Cursor

/-! ## Headers -/

@[simp] theorem encodeHeader_length (header : FrameHeader) : (encodeHeader header).length = headerSize := rfl

/-- **A header reads back as it was written.** -/
theorem decodeHeader_encodeHeader (header : FrameHeader) : decodeHeader (encodeHeader header) = some header := by
  have h4 := (at_start (encodeHeader header)).next
  have h6 := h4.next
  have h8 := h6.next
  have h12 := h8.next
  have h16 := h12.next
  have h20 := h16.next
  have hmagic : ¬((encodeHeader header).at' 0 ≠ 86 ∨ (encodeHeader header).at' 1 ≠ 57 ∨ (encodeHeader header).at' 2 ≠ 88 ∨
      (encodeHeader header).at' 3 ≠ 82) := by
    rintro (h | h | h | h) <;> exact h rfl
  have hversion : (encodeHeader header).readU16 4 = header.version := (h4.readU16 0).trans (readU16_writeU16 _ _)
  have htype : (encodeHeader header).readU16 6 = header.type := (h6.readU16 0).trans (readU16_writeU16 _ _)
  have hid : (encodeHeader header).readU32 8 = header.requestId := (h8.readU32 0).trans (readU32_writeU32 _ _)
  have hflags : (encodeHeader header).readU32 12 = header.flags := (h12.readU32 0).trans (readU32_writeU32 _ _)
  have hpayload : (encodeHeader header).readU32 16 = header.payloadLength := (h16.readU32 0).trans (readU32_writeU32 _ _)
  have hreserved : (encodeHeader header).readU32 20 = header.reserved := by
    refine (h20.readU32 0).trans ?_
    rw [← List.append_nil (writeU32 header.reserved)]
    exact readU32_writeU32 _ _
  unfold decodeHeader
  rw [if_neg hmagic, hversion, htype, hid, hflags, hpayload, hreserved]

/-- **The bytes of a header** are what it is written as. -/
theorem encodeHeader_decodeHeader {head : Bytes} {header : FrameHeader} (hlength : head.length = headerSize)
    (h : decodeHeader head = some header) : head = encodeHeader header := by
  have hsize : headerSize = 24 := rfl
  have hcut : ∀ i k, head.drop i = (head.drop i).take k ++ head.drop (i + k) := fun i k => by
    rw [← List.drop_drop, List.take_append_drop]
  have hmagic : head.take 4 = [head.at' 0, head.at' 1, head.at' 2, head.at' 3] := by
    match head, hlength with
    | b0 :: b1 :: b2 :: b3 :: rest, _ => rfl
  unfold decodeHeader at h
  split at h
  · cases h
  · rename_i hgood
    obtain rfl := Option.some.inj h
    simp only [not_or, not_not] at hgood
    obtain ⟨h0, h1, h2, h3⟩ := hgood
    rw [h0, h1, h2, h3] at hmagic
    have hlast : (head.drop 20).take 4 = head.drop 20 := List.take_of_length_le (by rw [List.length_drop]; omega)
    unfold encodeHeader
    dsimp only
    rw [writeU16_readU16 (by omega), writeU16_readU16 (by omega), writeU32_readU32 (by omega), writeU32_readU32 (by omega),
      writeU32_readU32 (by omega), writeU32_readU32 (by omega), hlast, ← hcut 16 4, ← hcut 12 4, ← hcut 8 4, ← hcut 6 2,
      ← hcut 4 2, ← hmagic, List.take_append_drop]

/-- A header that a frame may have. -/
def FrameHeader.Good (header : FrameHeader) : Prop :=
  header.payloadLength ≤ maxPayloadSize ∧ header.reserved = 0 ∧ header.requestId ≠ 0

instance (header : FrameHeader) : Decidable header.Good := inferInstanceAs (Decidable (_ ∧ _ ∧ _))

theorem not_good_iff (header : FrameHeader) :
    (header.payloadLength > maxPayloadSize ∨ header.reserved ≠ 0 ∨ header.requestId = 0) ↔ ¬header.Good := by
  unfold FrameHeader.Good
  rw [not_and_or, not_and_or, not_not, UInt32.not_le]

/-! ## The gate -/

/-- The frame at the front of a stream: its header, its payload and what follows. -/
def firstFrame (bytes : Bytes) : Option (FrameHeader × Bytes × Bytes) :=
  if bytes.length < headerSize then none
  else
    (decodeHeader (bytes.take headerSize)).bind fun header =>
      if header.Good ∧ header.payloadLength.toNat ≤ (bytes.drop headerSize).length then
        some (header, (bytes.drop headerSize).take header.payloadLength.toNat,
          (bytes.drop headerSize).drop header.payloadLength.toNat)
      else none

/-- A frame as it is sent. -/
def frameBytes (header : FrameHeader) (payload : Bytes) : Bytes := encodeHeader header ++ payload

theorem firstFrame_iff {bytes : Bytes} {header : FrameHeader} {payload rest : Bytes} :
    firstFrame bytes = some (header, payload, rest) ↔
      bytes = frameBytes header payload ++ rest ∧ header.Good ∧ payload.length = header.payloadLength.toNat := by
  unfold firstFrame frameBytes
  constructor
  · intro h
    split at h
    · cases h
    · rename_i hlong
      obtain ⟨found, hfound, hrest⟩ := Option.bind_eq_some_iff.1 h
      split at hrest
      · rename_i hfits
        obtain ⟨rfl, hpair⟩ := Prod.mk.inj (Option.some.inj hrest)
        obtain ⟨rfl, rfl⟩ := Prod.mk.inj hpair
        have hhead : bytes.take headerSize = encodeHeader found := by
          refine encodeHeader_decodeHeader ?_ hfound
          rw [List.length_take]
          omega
        refine ⟨?_, hfits.1, ?_⟩
        · rw [← hhead, List.append_assoc, List.take_append_drop, List.take_append_drop]
        · rw [List.length_take, Nat.min_eq_left hfits.2]
      · cases hrest
  · rintro ⟨rfl, hgood, hlength⟩
    have htake : (encodeHeader header ++ payload ++ rest).take headerSize = encodeHeader header := by
      rw [List.append_assoc]
      exact List.take_left' (encodeHeader_length header)
    have hdrop : (encodeHeader header ++ payload ++ rest).drop headerSize = payload ++ rest := by
      rw [List.append_assoc]
      exact List.drop_left' (encodeHeader_length header)
    have hlong : ¬(encodeHeader header ++ payload ++ rest).length < headerSize := by
      rw [List.length_append, List.length_append, encodeHeader_length]
      omega
    have hfits : header.payloadLength.toNat ≤ (payload ++ rest).length := by
      rw [List.length_append]
      omega
    rw [if_neg hlong, htake, hdrop, decodeHeader_encodeHeader, Option.bind_some, if_pos ⟨hgood, hfits⟩, ← hlength,
      List.take_left, List.drop_left]

/-- What two agents may differ in: the handlers they have, and what goes through. -/
structure ServeGate where
  dispatch : FrameHeader → ServeDecision
  goes : ℕ → ServeDecision → FrameHeader → Bytes → Bool

/-- A HELLO that may be accepted: its version range holds ours and its label is ASCII. -/
structure HelloPayload (header : FrameHeader) (payload : Bytes) : Prop where
  type : header.type = msgHelloRequest
  fixed : 6 ≤ payload.length
  range : payload.readU16 0 ≤ protocolVersion ∧ protocolVersion ≤ payload.readU16 2
  label : (payload.readU16 4).toNat + 6 = payload.length
  ascii : ∀ c ∈ payload.drop 6, c ≠ 0 ∧ c ≤ 0x7f

/-- The decision on a frame, by whether there was a handshake. -/
def ServeGate.decision (G : ServeGate) (handshaken : Bool) (header : FrameHeader) (payload : Bytes) : ServeDecision :=
  if handshaken then G.dispatch header else winHello header payload

/-- Whether the connection goes on after a frame. -/
def ServeGate.goesOn (G : ServeGate) (n : ℕ) (handshaken : Bool) (header : FrameHeader) (payload : Bytes) : Bool :=
  (handshaken || winHello header payload == .hello) && G.goes n (G.decision handshaken header payload) header payload

theorem firstFrame_lt {bytes rest payload : Bytes} {header : FrameHeader}
    (h : firstFrame bytes = some (header, payload, rest)) : rest.length < bytes.length := by
  have hsize : headerSize = 24 := rfl
  rw [(firstFrame_iff.1 h).1, frameBytes, List.length_append, List.length_append, encodeHeader_length]
  omega

/-- **The gate**: the frames that are served of a stream. -/
def gate (G : ServeGate) (n : ℕ) (handshaken : Bool) (bytes : Bytes) : List ServedFrame :=
  match _h : firstFrame bytes with
  | none => []
  | some (header, payload, rest) =>
    ⟨header, payload, G.decision handshaken header payload⟩ ::
      if G.goesOn n handshaken header payload then gate G (n + 1) true rest else []
termination_by bytes.length
decreasing_by exact firstFrame_lt _h

theorem gate_none (G : ServeGate) (n : ℕ) (handshaken : Bool) {bytes : Bytes} (h : firstFrame bytes = none) :
    gate G n handshaken bytes = [] := by
  rw [gate]
  split
  · rfl
  · rename_i hsome
    rw [h] at hsome
    cases hsome

/-- **A frame at the front** is served, and what follows as far as the connection goes on. -/
theorem gate_some (G : ServeGate) (n : ℕ) (handshaken : Bool) {bytes payload rest : Bytes} {header : FrameHeader}
    (h : firstFrame bytes = some (header, payload, rest)) :
    gate G n handshaken bytes = ⟨header, payload, G.decision handshaken header payload⟩ ::
      if G.goesOn n handshaken header payload then gate G (n + 1) true rest else [] := by
  rw [gate]
  split
  · rename_i hnone
    rw [h] at hnone
    cases hnone
  · rename_i header' payload' rest' hsome
    obtain ⟨rfl, hpair⟩ := Prod.mk.inj (Option.some.inj (h.symm.trans hsome))
    obtain ⟨rfl, rfl⟩ := Prod.mk.inj hpair
    rfl

/-! ## The loops -/

/-- What both loops read of a frame. -/
def readFrame (arrivals : List (Arrival UInt8)) : Option (FrameHeader × Bytes × List (Arrival UInt8)) :=
  (takeExact headerSize arrivals).bind fun head =>
    (decodeHeader head.1).bind fun header =>
      if header.Good then (takeExact header.payloadLength.toNat head.2).map fun payload => (header, payload) else none

/-- **Reading does not depend on the pieces.** -/
theorem firstFrame_sent (arrivals : List (Arrival UInt8)) :
    firstFrame (sent arrivals) = (readFrame arrivals).map fun r => (r.1, r.2.1, sent r.2.2) := by
  unfold readFrame firstFrame
  cases hhead : takeExact headerSize arrivals with
  | none =>
    rw [if_pos (takeExact_none.1 hhead)]
    rfl
  | some pair =>
    obtain ⟨head, afterHead⟩ := pair
    obtain ⟨hsent, hlength⟩ := takeExact_some hhead
    have hlong : ¬(sent arrivals).length < headerSize := by
      rw [hsent, List.length_append]
      omega
    rw [if_neg hlong, hsent, List.take_left' hlength, List.drop_left' hlength, Option.bind_some]
    dsimp only
    cases decodeHeader head with
    | none => rfl
    | some header =>
      rw [Option.bind_some, Option.bind_some]
      by_cases hgood : header.Good
      · rw [if_pos hgood]
        cases hpayload : takeExact header.payloadLength.toNat afterHead with
        | none =>
          have hshort := takeExact_none.1 hpayload
          rw [if_neg fun h => by omega]
          rfl
        | some pair =>
          obtain ⟨payload, rest⟩ := pair
          obtain ⟨hsent', hlength'⟩ := takeExact_some hpayload
          have hfits : header.payloadLength.toNat ≤ (sent afterHead).length := by
            rw [hsent', List.length_append]
            omega
          rw [if_pos ⟨hgood, hfits⟩, hsent', List.take_left' hlength', List.drop_left' hlength']
          rfl
      · rw [if_neg hgood, if_neg fun h => hgood h.1]
        rfl

theorem readFrame_some {arrivals rest : List (Arrival UInt8)} {header : FrameHeader} {payload : Bytes}
    (h : readFrame arrivals = some (header, payload, rest)) : .silence ∉ arrivals → .silence ∉ rest := by
  intro hnone
  obtain ⟨⟨head, afterHead⟩, hhead, h⟩ := Option.bind_eq_some_iff.1 h
  obtain ⟨found, -, h⟩ := Option.bind_eq_some_iff.1 h
  split at h
  · obtain ⟨⟨payload', rest'⟩, hpayload, heq⟩ := Option.map_eq_some_iff.1 h
    obtain rfl : rest' = rest := (Prod.mk.inj (Prod.mk.inj heq).2).2
    exact takeExact_noSilence hpayload (takeExact_noSilence hhead hnone)
  · cases h

def winGate (env : ServeEnv) : ServeGate := ⟨winDispatch, winGoes env⟩

def dosGate (env : ServeEnv) : ServeGate := ⟨dosDispatch, dosGoes env⟩

/-- **One round of the Windows loop.** -/
theorem winServe_round (env : ServeEnv) (n : ℕ) (handshaken : Bool) (arrivals : List (Arrival UInt8)) :
    winServe env n handshaken arrivals =
      if env.idleLimit && silent arrivals then ⟨[], true⟩
      else
        match readFrame arrivals with
        | none => ⟨[], decide ((sent arrivals).length < headerSize)⟩
        | some (header, payload, rest) =>
          if (winGate env).goesOn n handshaken header payload then
            ⟨⟨header, payload, (winGate env).decision handshaken header payload⟩ :: (winServe env (n + 1) true rest).frames,
              (winServe env (n + 1) true rest).result⟩
          else ⟨[⟨header, payload, (winGate env).decision handshaken header payload⟩], false⟩ := by
  rw [winServe]
  split
  · rfl
  unfold readFrame
  split
  · rename_i hnone
    rw [hnone, decide_eq_true (takeExact_none.1 hnone)]
    rfl
  rename_i head afterHead hhead
  have hlong : decide ((sent arrivals).length < headerSize) = false := by
    rw [decide_eq_false_iff_not, ← takeExact_none, hhead]
    exact Option.some_ne_none _
  rw [hhead, Option.bind_some, hlong]
  dsimp only
  cases decodeHeader head with
  | none => rfl
  | some header =>
    rw [Option.bind_some]
    dsimp only
    by_cases hgood : header.Good
    · rw [if_neg (mt (not_good_iff header).1 (not_not.2 hgood)), if_pos hgood]
      split
      · rename_i hnone
        rw [hnone]
        rfl
      · rename_i payload rest hpayload
        rw [hpayload, Option.map_some]
        dsimp only
        unfold ServeGate.goesOn ServeGate.decision winGate
        cases handshaken with
        | true =>
          cases hgoes : winGoes env n (winDispatch header) header payload <;> simp [hgoes]
        | false =>
          by_cases hhello : winHello header payload = .hello
          · cases hgoes : winGoes env n .hello header payload <;> simp [hhello, hgoes]
          · simp [hhello]
    · rw [if_pos ((not_good_iff header).2 hgood), if_neg hgood]

/-- What the Windows loop serves in one round. -/
theorem winServe_frames (env : ServeEnv) (n : ℕ) (handshaken : Bool) (arrivals : List (Arrival UInt8)) :
    (winServe env n handshaken arrivals).frames =
      if env.idleLimit && silent arrivals then []
      else
        match readFrame arrivals with
        | none => []
        | some (header, payload, rest) =>
          ⟨header, payload, (winGate env).decision handshaken header payload⟩ ::
            if (winGate env).goesOn n handshaken header payload then (winServe env (n + 1) true rest).frames else [] := by
  rw [winServe_round]
  split
  · rfl
  · cases readFrame arrivals with
    | none => rfl
    | some frame =>
      dsimp only
      split <;> rfl

theorem dosHello_eq (header : FrameHeader) (payload : Bytes) : dosHello header payload = winHello header payload := rfl

/-- **One round of the DOS loop.** -/
theorem dosServe_round (env : ServeEnv) (n : ℕ) (handshaken : Bool) (arrivals : List (Arrival UInt8)) :
    dosServe env n handshaken arrivals =
      match readFrame arrivals with
      | none => []
      | some (header, payload, rest) =>
        ⟨header, payload, (dosGate env).decision handshaken header payload⟩ ::
          if (dosGate env).goesOn n handshaken header payload then dosServe env (n + 1) true rest else [] := by
  rw [dosServe]
  unfold readFrame
  split
  · rename_i hnone
    rw [hnone]
    rfl
  rename_i head afterHead hhead
  rw [hhead, Option.bind_some]
  dsimp only
  cases decodeHeader head with
  | none => rfl
  | some header =>
    rw [Option.bind_some]
    dsimp only
    by_cases hgood : header.Good
    · rw [if_neg (mt (not_good_iff header).1 (not_not.2 hgood)), if_pos hgood]
      split
      · rename_i hnone
        rw [hnone]
        rfl
      · rename_i payload rest hpayload
        rw [hpayload, Option.map_some]
        dsimp only
        unfold ServeGate.goesOn ServeGate.decision dosGate
        cases handshaken with
        | true =>
          cases hgoes : dosGoes env n (dosDispatch header) header payload <;> simp [hgoes]
        | false =>
          by_cases hhello : winHello header payload = .hello
          · cases hgoes : dosGoes env n .hello header payload <;> simp [dosHello_eq, hhello, hgoes]
          · simp [dosHello_eq, hhello]
    · rw [if_pos ((not_good_iff header).2 hgood), if_neg hgood]

theorem readFrame_lt {arrivals rest : List (Arrival UInt8)} {header : FrameHeader} {payload : Bytes}
    (h : readFrame arrivals = some (header, payload, rest)) : (sent rest).length < (sent arrivals).length := by
  have hfirst := firstFrame_sent arrivals
  rw [h, Option.map_some] at hfirst
  exact firstFrame_lt hfirst

theorem gate_sent (G : ServeGate) (n : ℕ) (handshaken : Bool) (arrivals : List (Arrival UInt8)) :
    gate G n handshaken (sent arrivals) =
      match readFrame arrivals with
      | none => []
      | some (header, payload, rest) =>
        ⟨header, payload, G.decision handshaken header payload⟩ ::
          if G.goesOn n handshaken header payload then gate G (n + 1) true (sent rest) else [] := by
  have hfirst := firstFrame_sent arrivals
  cases hread : readFrame arrivals with
  | none =>
    rw [hread] at hfirst
    exact gate_none G n handshaken hfirst
  | some frame =>
    rw [hread] at hfirst
    exact gate_some G n handshaken hfirst

/-- **The DOS loop is the gate**, whatever the pieces. -/
theorem dosServe_gate (env : ServeEnv) (n : ℕ) (handshaken : Bool) (arrivals : List (Arrival UInt8)) :
    dosServe env n handshaken arrivals = gate (dosGate env) n handshaken (sent arrivals) := by
  induction hlength : (sent arrivals).length using Nat.strong_induction_on generalizing n handshaken arrivals with
  | _ length ih =>
    rw [dosServe_round, gate_sent]
    cases hread : readFrame arrivals with
    | none => rfl
    | some frame =>
      obtain ⟨header, payload, rest⟩ := frame
      have hlt := readFrame_lt hread
      dsimp only
      rw [ih _ (hlength ▸ hlt) (n + 1) true rest rfl]

/-- **The Windows loop is the gate** where no silence is counted. -/
theorem winServe_gate (env : ServeEnv) (n : ℕ) (handshaken : Bool) (arrivals : List (Arrival UInt8))
    (hidle : env.idleLimit = false ∨ .silence ∉ arrivals) :
    (winServe env n handshaken arrivals).frames = gate (winGate env) n handshaken (sent arrivals) := by
  induction hlength : (sent arrivals).length using Nat.strong_induction_on generalizing n handshaken arrivals with
  | _ length ih =>
    have hgoing : (env.idleLimit && silent arrivals) = false := by
      rcases hidle with hidle | hnone
      · rw [hidle, Bool.false_and]
      · rw [not_silent hnone, Bool.and_false]
    rw [winServe_frames, gate_sent, hgoing, if_neg Bool.false_ne_true]
    cases hread : readFrame arrivals with
    | none => rfl
    | some frame =>
      obtain ⟨header, payload, rest⟩ := frame
      have hlt := readFrame_lt hread
      dsimp only
      rw [ih _ (hlength ▸ hlt) (n + 1) true rest (hidle.imp_right (readFrame_some hread)) rfl]

/-- **A silence ends the connection** as the end of the stream does. -/
theorem winServe_heard (env : ServeEnv) (n : ℕ) (handshaken : Bool) (arrivals : List (Arrival UInt8)) :
    ∃ heard, heard <+: sent arrivals ∧ (winServe env n handshaken arrivals).frames = gate (winGate env) n handshaken heard := by
  induction hlength : (sent arrivals).length using Nat.strong_induction_on generalizing n handshaken arrivals with
  | _ length ih =>
    have hnil : gate (winGate env) n handshaken [] = [] := gate_none _ _ _ rfl
    have hround := winServe_frames env n handshaken arrivals
    by_cases hidle : (env.idleLimit && silent arrivals) = true
    · rw [if_pos hidle] at hround
      exact ⟨[], List.nil_prefix, hround.trans hnil.symm⟩
    · rw [if_neg hidle] at hround
      cases hread : readFrame arrivals with
      | none =>
        rw [hread] at hround
        exact ⟨[], List.nil_prefix, hround.trans hnil.symm⟩
      | some frame =>
        obtain ⟨header, payload, rest⟩ := frame
        rw [hread] at hround
        dsimp only at hround
        have hlt := readFrame_lt hread
        obtain ⟨heard, hprefix, hheard⟩ := ih _ (hlength ▸ hlt) (n + 1) true rest rfl
        have hfirst := firstFrame_sent arrivals
        rw [hread, Option.map_some] at hfirst
        obtain ⟨hbytes, hgood, hpayload⟩ := firstFrame_iff.1 hfirst
        refine ⟨frameBytes header payload ++ heard, ?_, ?_⟩
        · rw [hbytes]
          exact (List.prefix_append_right_inj _).2 hprefix
        · have hcut : firstFrame (frameBytes header payload ++ heard) = some (header, payload, heard) :=
            firstFrame_iff.2 ⟨rfl, hgood, hpayload⟩
          rw [hround, hheard, gate_some _ _ _ hcut]

/-- **The Windows loop does not depend on the pieces.** -/
theorem winServe_pieces (env : ServeEnv) (n : ℕ) (handshaken : Bool) {a b : List (Arrival UInt8)} (hsent : sent a = sent b)
    (hidle : env.idleLimit = false ∨ (.silence ∉ a ∧ .silence ∉ b)) :
    winServe env n handshaken a = winServe env n handshaken b := by
  induction hlength : (sent a).length using Nat.strong_induction_on generalizing n handshaken a b with
  | _ length ih =>
    have hgoing : (env.idleLimit && silent a) = false ∧ (env.idleLimit && silent b) = false := by
      rcases hidle with hidle | ⟨ha, hb⟩
      · rw [hidle]
        exact ⟨rfl, rfl⟩
      · rw [not_silent ha, not_silent hb, Bool.and_false]
        exact ⟨rfl, rfl⟩
    have hreads := (firstFrame_sent a).symm.trans ((congrArg firstFrame hsent).trans (firstFrame_sent b))
    rw [winServe_round, winServe_round env n handshaken b, hgoing.1, hgoing.2, hsent]
    cases ha : readFrame a with
    | none =>
      rw [ha] at hreads
      rw [Option.map_eq_none_iff.1 hreads.symm]
    | some frame =>
      obtain ⟨header, payload, rest⟩ := frame
      rw [ha] at hreads
      obtain ⟨⟨header', payload', rest'⟩, hb, heq⟩ := Option.map_eq_some_iff.1 hreads.symm
      obtain ⟨rfl, hpair⟩ := Prod.mk.inj heq
      obtain ⟨rfl, hrest⟩ := Prod.mk.inj hpair
      have hlt := readFrame_lt ha
      have hidle' := hidle.imp_right fun h => And.intro (readFrame_some ha h.1) (readFrame_some hb h.2)
      rw [hb]
      dsimp only
      rw [ih _ (hlength ▸ hlt) (n + 1) true hrest.symm hidle' rfl]

/-! ## What the gate lets through -/

/-- Frames as they are sent, one after the other. -/
def wires (frames : List ServedFrame) : Bytes := frames.flatMap fun f => frameBytes f.header f.payload

theorem wires_cons (f : ServedFrame) (frames : List ServedFrame) :
    wires (f :: frames) = frameBytes f.header f.payload ++ wires frames := List.flatMap_cons

/-- A header that ends the connection, on the wire. -/
def BadHeader (head : Bytes) : Prop :=
  head.take 4 ≠ ascii "V9XR" ∨ head.readU32 16 > maxPayloadSize ∨ head.readU32 20 ≠ 0 ∨ head.readU32 8 = 0

theorem not_badHeader {header : FrameHeader} (h : header.Good) (rest : Bytes) : ¬BadHeader (encodeHeader header ++ rest) := by
  have hstart := at_start (encodeHeader header ++ rest)
  have hread : ∀ k, k + 4 ≤ headerSize → (encodeHeader header ++ rest).readU32 k = (encodeHeader header).readU32 k := by
    intro k hk
    unfold Bytes.readU32 Bytes.at'
    simp only [List.getD_eq_getElem?_getD]
    rw [List.getElem?_append_left (by rw [encodeHeader_length]; omega),
      List.getElem?_append_left (by rw [encodeHeader_length]; omega),
      List.getElem?_append_left (by rw [encodeHeader_length]; omega),
      List.getElem?_append_left (by rw [encodeHeader_length]; omega)]
  have hsize : headerSize = 24 := rfl
  have hdecode := decodeHeader_encodeHeader header
  unfold decodeHeader at hdecode
  split at hdecode
  · cases hdecode
  have hfields := Option.some.inj hdecode
  have hid : (encodeHeader header).readU32 8 = header.requestId := congrArg FrameHeader.requestId hfields
  have hpayload : (encodeHeader header).readU32 16 = header.payloadLength := congrArg FrameHeader.payloadLength hfields
  have hreserved : (encodeHeader header).readU32 20 = header.reserved := congrArg FrameHeader.reserved hfields
  unfold BadHeader
  rw [hread 16 (by omega), hread 20 (by omega), hread 8 (by omega), hid, hpayload, hreserved]
  rintro (hmagic | hbad)
  · exact hmagic rfl
  · exact (not_good_iff header).1 hbad h

/-- A HELLO is accepted exactly where it may be. -/
theorem winHello_iff {header : FrameHeader} {payload : Bytes} (hlength : payload.length = header.payloadLength.toNat) :
    winHello header payload = .hello ↔ HelloPayload header payload := by
  have hsix : (6 : UInt32).toNat = 6 := rfl
  have hshort : header.payloadLength < 6 ↔ payload.length < 6 := by
    rw [UInt32.lt_iff_toNat_lt, hlength, hsix]
  have hlabel : (payload.readU16 4).toUInt32 + 6 = header.payloadLength ↔ (payload.readU16 4).toNat + 6 = payload.length := by
    have hword := (payload.readU16 4).toNat_lt
    rw [← UInt32.toNat_inj, UInt32.toNat_add, UInt16.toNat_toUInt32, hsix, hlength, Nat.mod_eq_of_lt (by omega)]
  have hascii : isAsciiText (payload.drop 6) = true ↔ ∀ c ∈ payload.drop 6, c ≠ 0 ∧ c ≤ 0x7f := by
    unfold isAsciiText
    simp only [List.all_eq_true, Bool.and_eq_true, bne_iff_ne, decide_eq_true_eq]
  unfold winHello
  constructor
  · intro h
    split at h
    · cases h
    rename_i htype
    split at h
    · cases h
    rename_i hrange
    split at h
    · cases h
    rename_i htext
    rw [not_or, not_not, hshort, not_lt] at htype
    rw [not_or, gt_iff_lt, UInt16.not_lt, UInt16.not_lt] at hrange
    rw [not_or, not_not, hlabel, Bool.not_eq_true', Bool.not_eq_false, hascii] at htext
    exact ⟨htype.1, htype.2, hrange, htext.1, htext.2⟩
  · rintro ⟨htype, hfixed, hrange, htext, hall⟩
    rw [if_neg, if_neg, if_neg]
    · rw [not_or, not_not, hlabel, Bool.not_eq_true', Bool.not_eq_false, hascii]
      exact ⟨htext, hall⟩
    · rw [not_or, gt_iff_lt, UInt16.not_lt, UInt16.not_lt]
      exact hrange
    · rw [not_or, not_not, hshort, not_lt]
      exact ⟨htype, hfixed⟩

theorem winHello_cases (header : FrameHeader) (payload : Bytes) :
    winHello header payload = .hello ∨ ∃ status detail, winHello header payload = .refuse status detail := by
  unfold winHello
  split
  · exact Or.inr ⟨_, _, rfl⟩
  split
  · exact Or.inr ⟨_, _, rfl⟩
  split
  · exact Or.inr ⟨_, _, rfl⟩
  · exact Or.inl rfl

/-- **A served frame**, in its place: where it stands in the stream, what is decided on it, and
what follows. -/
theorem gate_split {G : ServeGate} {n : ℕ} {handshaken : Bool} {bytes : Bytes} {before after : List ServedFrame}
    {f : ServedFrame} (h : gate G n handshaken bytes = before ++ f :: after) :
    ∃ rest, bytes = wires before ++ (frameBytes f.header f.payload ++ rest) ∧ f.header.Good ∧
      f.payload.length = f.header.payloadLength.toNat ∧
        f.decision = G.decision (handshaken || !before.isEmpty) f.header f.payload ∧
          after = if G.goesOn (n + before.length) (handshaken || !before.isEmpty) f.header f.payload then
            gate G (n + before.length + 1) true rest else [] := by
  induction before generalizing n handshaken bytes with
  | nil =>
    cases hfirst : firstFrame bytes with
    | none =>
      rw [gate_none G n handshaken hfirst] at h
      cases h
    | some frame =>
      obtain ⟨header, payload, rest⟩ := frame
      obtain ⟨hbytes, hgood, hlength⟩ := firstFrame_iff.1 hfirst
      rw [gate_some G n handshaken hfirst] at h
      obtain ⟨rfl, hafter⟩ := List.cons.inj h
      refine ⟨rest, hbytes, hgood, hlength, ?_, ?_⟩
      · rw [List.isEmpty_nil, Bool.not_true, Bool.or_false]
      · rw [List.isEmpty_nil, Bool.not_true, Bool.or_false]
        exact hafter.symm
  | cons g before ih =>
    cases hfirst : firstFrame bytes with
    | none =>
      rw [gate_none G n handshaken hfirst] at h
      cases h
    | some frame =>
      obtain ⟨header, payload, rest⟩ := frame
      obtain ⟨hbytes, hgood, hlength⟩ := firstFrame_iff.1 hfirst
      rw [gate_some G n handshaken hfirst] at h
      obtain ⟨rfl, hmore⟩ := List.cons.inj h
      split at hmore
      · obtain ⟨rest', hrest, hgood', hlength', hdecision, hafter⟩ := ih hmore
        have hcount : n + (before.length + 1) = n + 1 + before.length := by omega
        refine ⟨rest', ?_, hgood', hlength', ?_, ?_⟩
        · rw [hbytes, hrest, wires_cons, List.append_assoc]
        · rw [List.isEmpty_cons, Bool.not_false, Bool.or_true]
          exact hdecision
        · rw [List.isEmpty_cons, Bool.not_false, Bool.or_true, List.length_cons, hcount]
          exact hafter
      · exact absurd hmore.symm (List.append_ne_nil_of_right_ne_nil _ (List.cons_ne_nil _ _))

/-- **What a connection serves** of the bytes that its client sends. -/
structure Gated (G : ServeGate) (bytes : Bytes) (frames : List ServedFrame) : Prop where
  /-- The frames stand at the front of the stream, whole. -/
  wire : ∃ rest, bytes = wires frames ++ rest
  good : ∀ f ∈ frames, f.header.Good ∧ f.payload.length = f.header.payloadLength.toNat
  /-- Nothing is served from a bad header on. -/
  bad : ∀ k rest, bytes = wires (frames.take k) ++ rest → BadHeader rest → frames.length ≤ k
  /-- No handler before a HELLO that was answered. -/
  handled : ∀ before f after handler, frames = before ++ f :: after → f.decision = .handle handler →
    ∃ g ∈ before, g.decision = .hello ∧ HelloPayload g.header g.payload
  /-- A first frame that is no HELLO gets one error, and the connection ends. -/
  first : ∀ f after, frames = f :: after → ¬HelloPayload f.header f.payload →
    (∃ status detail, f.decision = .refuse status detail) ∧ after = []
  /-- A later frame of another version gets an error, and the connection goes on. -/
  later : ∀ before f after, frames = before ++ f :: after → before ≠ [] → f.header.version ≠ protocolVersion →
    f.decision = .refuse statusUnsupportedVersion "unsupported frame version" ∧
      (G.goes before.length f.decision f.header f.payload = true → ∀ rest, bytes = wires before ++ (frameBytes f.header f.payload ++ rest) →
        after = gate G (before.length + 1) true rest)

theorem gate_gated {G : ServeGate} (hversion : ∀ header, header.version ≠ protocolVersion →
    G.dispatch header = .refuse statusUnsupportedVersion "unsupported frame version") (bytes : Bytes) :
    Gated G bytes (gate G 0 false bytes) where
  wire := by
    rcases List.eq_nil_or_concat (gate G 0 false bytes) with hnil | ⟨before, f, hlast⟩
    · rw [hnil]
      exact ⟨bytes, rfl⟩
    · rw [List.concat_eq_append] at hlast
      obtain ⟨rest, hbytes, -⟩ := gate_split hlast
      refine ⟨rest, ?_⟩
      rw [hlast, wires, List.flatMap_append, List.flatMap_singleton, List.append_assoc]
      exact hbytes
  good := by
    intro f hf
    obtain ⟨before, after, hsplit⟩ := List.append_of_mem hf
    obtain ⟨rest, -, hgood, hlength, -⟩ := gate_split hsplit
    exact ⟨hgood, hlength⟩
  bad := by
    intro k rest hbytes hbad
    by_contra hlong
    have hlt : k < (gate G 0 false bytes).length := not_le.1 hlong
    have hsplit : gate G 0 false bytes = (gate G 0 false bytes).take k ++ (gate G 0 false bytes)[k] ::
        (gate G 0 false bytes).drop (k + 1) := by
      rw [← List.drop_eq_getElem_cons hlt, List.take_append_drop]
    obtain ⟨rest', hbytes', hgood, -⟩ := gate_split hsplit
    obtain rfl := List.append_cancel_left (hbytes.symm.trans hbytes')
    rw [frameBytes, List.append_assoc] at hbad
    exact not_badHeader hgood _ hbad
  handled := by
    intro before f after handler hsplit hhandle
    cases before with
    | nil =>
      -- the first frame is not handed to a handler
      obtain ⟨rest, -, -, -, hdecision, -⟩ := gate_split hsplit
      have hfirst : f.decision = winHello f.header f.payload := hdecision
      rcases winHello_cases f.header f.payload with h | ⟨status, detail, h⟩
      · exact absurd (hhandle.symm.trans (hfirst.trans h)) nofun
      · exact absurd (hhandle.symm.trans (hfirst.trans h)) nofun
    | cons g before =>
      obtain ⟨rest, -, -, hlength, hdecision, hafter⟩ := @gate_split G 0 false bytes [] (before ++ f :: after) g hsplit
      split at hafter
      · rename_i hgoes
        have hhello : winHello g.header g.payload = .hello := by
          unfold ServeGate.goesOn at hgoes
          simp only [List.isEmpty_nil, Bool.not_true, Bool.or_false, Bool.false_or, Bool.and_eq_true, beq_iff_eq] at hgoes
          exact hgoes.1
        exact ⟨g, List.mem_cons_self, hdecision.trans hhello, (winHello_iff hlength).1 hhello⟩
      · exact absurd hafter (List.append_ne_nil_of_right_ne_nil _ (List.cons_ne_nil _ _))
  first := by
    intro f after hsplit hnot
    obtain ⟨rest, -, -, hlength, hdecision, hafter⟩ := @gate_split G 0 false bytes [] after f hsplit
    have hhello : winHello f.header f.payload ≠ .hello := fun h => hnot ((winHello_iff hlength).1 h)
    obtain ⟨status, detail, hrefuse⟩ := (winHello_cases f.header f.payload).resolve_left hhello
    refine ⟨⟨status, detail, hdecision.trans hrefuse⟩, hafter.trans (if_neg ?_)⟩
    unfold ServeGate.goesOn
    simp only [List.isEmpty_nil, Bool.not_true, Bool.or_false, Bool.false_or, Bool.and_eq_true, beq_iff_eq]
    exact fun h => hhello h.1
  later := by
    intro before f after hsplit hbefore hother
    have hnonempty : (!before.isEmpty) = true := by
      rw [Bool.not_eq_true', List.isEmpty_eq_false_iff]
      exact hbefore
    obtain ⟨rest, hbytes, -, -, hdecision, hafter⟩ := gate_split hsplit
    rw [hnonempty, Bool.or_true] at hdecision hafter
    have hrefused : f.decision = .refuse statusUnsupportedVersion "unsupported frame version" :=
      hdecision.trans (hversion f.header hother)
    refine ⟨hrefused, fun hgoes rest' hbytes' => ?_⟩
    obtain rfl := List.append_cancel_left (List.append_cancel_left (hbytes.symm.trans hbytes'))
    rw [hafter, Nat.zero_add, if_pos]
    unfold ServeGate.goesOn
    rw [Bool.true_or, Bool.true_and, ← hdecision]
    exact hgoes

theorem winDispatch_version {header : FrameHeader} (h : header.version ≠ protocolVersion) :
    winDispatch header = .refuse statusUnsupportedVersion "unsupported frame version" := if_pos h

theorem dosDispatch_version {header : FrameHeader} (h : header.version ≠ protocolVersion) :
    dosDispatch header = .refuse statusUnsupportedVersion "unsupported frame version" := if_pos h

/-! ## The two agents -/

/-- A message type that only the Windows agent implements. -/
def windowsOnly (type : UInt16) : Bool :=
  isToolsMessage type ||
    [msgRebootRequest, msgShutdownRequest, msgResetRequest, msgUpdateRequest, msgScreenshotRequest, msgInputRequest,
      msgDownloadRequest, msgInventoryRequest].contains type

/-- **For any other type** the agents dispatch alike. -/
theorem dispatch_eq {header : FrameHeader} (h : windowsOnly header.type = false) : winDispatch header = dosDispatch header := by
  simp only [windowsOnly, Bool.or_eq_false_iff, List.contains_eq_mem, List.mem_cons, List.not_mem_nil, or_false,
    decide_eq_false_iff_not, not_or] at h
  obtain ⟨htools, hreboot, hshutdown, hreset, hupdate, hshot, hinput, hdownload, hinventory⟩ := h
  unfold winDispatch dosDispatch
  simp only [htools, hreboot, hshutdown, hreset, hupdate, hshot, hinput, hdownload, hinventory, Bool.false_eq_true, false_and,
    or_self, if_false]

/-- The same frame, with the same decision where both agents implement its type. -/
structure SameDecision (f g : ServedFrame) : Prop where
  header : f.header = g.header
  payload : f.payload = g.payload
  decision : windowsOnly f.header.type = false → f.decision = g.decision

theorem decision_eq (env : ServeEnv) (handshaken : Bool) {header : FrameHeader} (payload : Bytes)
    (h : windowsOnly header.type = false) :
    (winGate env).decision handshaken header payload = (dosGate env).decision handshaken header payload := by
  cases handshaken with
  | false => rfl
  | true => exact dispatch_eq h

/-- **The agents decide alike**, where what they answer goes through on the one as on the other. -/
theorem gates_agree (env : ServeEnv) (hgoes : ∀ n handshaken header payload,
      winGoes env n ((winGate env).decision handshaken header payload) header payload =
        dosGoes env n ((dosGate env).decision handshaken header payload) header payload)
    (n : ℕ) (handshaken : Bool) (bytes : Bytes) :
    List.Forall₂ SameDecision (gate (winGate env) n handshaken bytes) (gate (dosGate env) n handshaken bytes) := by
  induction hlength : bytes.length using Nat.strong_induction_on generalizing n handshaken bytes with
  | _ length ih =>
    cases hfirst : firstFrame bytes with
    | none =>
      rw [gate_none _ _ _ hfirst, gate_none _ _ _ hfirst]
      exact .nil
    | some frame =>
      obtain ⟨header, payload, rest⟩ := frame
      have hsame : (winGate env).goesOn n handshaken header payload = (dosGate env).goesOn n handshaken header payload := by
        unfold ServeGate.goesOn
        exact congrArg _ (hgoes n handshaken header payload)
      rw [gate_some _ _ _ hfirst, gate_some _ _ _ hfirst, hsame]
      refine .cons ⟨rfl, rfl, decision_eq env handshaken payload⟩ ?_
      split
      · exact ih _ (hlength ▸ firstFrame_lt hfirst) (n + 1) true rest rfl
      · exact .nil

/-- Everything goes through. -/
def serveSampleEnv : ServeEnv := ⟨true, fun _ => true, fun _ => ⟨fun _ _ => statusOk, false, true, true, true⟩, fun _ _ _ _ => true⟩

/-- A HELLO with the label `v9x`, a PING, and a frame of another protocol. -/
def serveSample : Bytes :=
  frameBytes ⟨protocolVersion, msgHelloRequest, 1, 0, 9, 0⟩ (writeU16 0x0100 ++ writeU16 0x0100 ++ writeU16 3 ++ ascii "v9x") ++
    frameBytes ⟨protocolVersion, msgPingRequest, 2, 0, 0, 0⟩ [] ++ ascii "GET / HTTP/1.0\r\nHost: v9x\r\n\r\n"

end V9xRemote
