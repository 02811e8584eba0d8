import V9xRemote.Proof.VncDes
import V9xRemote.Proof.VncFormat
import V9xRemote.Proof.VncMirror
import V9xRemote.Spec.VncWire

/-!
# What a viewer sends is what is handled

* `vncHandleMessage_wire`: `vnc_handle_message` has a message exactly where the stream begins with
  the bytes of that message.
* `vnc_messages_exact`: so what a session handles is what was sent, message for message, up to
  the first bytes that are none.
* `vnc_gate`: nothing is said of the machine, and nothing handled, before the right response.
* `vnc_handshake_meets`: a viewer that knows the password is let in and told what the machine
  is, whatever the order in which the two of them and the network get on.
-/

namespace V9xRemote

open Bytes Arrival

/-! ## Numbers on the wire -/

theorem toNat_vncU16 (s : Bytes) (i : ℕ) : (vncU16 s i).toNat = (s.at' i).toNat * 2 ^ 8 + (s.at' (i + 1)).toNat := by
  have h1 := (s.at' (i + 1)).toNat_lt
  have hor := Nat.two_pow_add_eq_or_of_lt (i := 8) h1 (s.at' i).toNat
  unfold vncU16
  rw [UInt32.toNat_or, toNat_shiftLeft_byte _ (by decide), UInt8.toNat_toUInt32, show (8 : UInt32).toNat = 8 from rfl, ← hor,
    Nat.mul_comm]

theorem toNat_vncU32 (s : Bytes) (i : ℕ) : (vncU32 s i).toNat =
    (((s.at' i).toNat * 2 ^ 8 + (s.at' (i + 1)).toNat) * 2 ^ 8 + (s.at' (i + 2)).toNat) * 2 ^ 8 + (s.at' (i + 3)).toNat := by
  have hor : ∀ a b c d : UInt32, a ||| b ||| c ||| d = d ||| c ||| b ||| a := fun a b c d => by ac_rfl
  have hread : vncU32 s i = Bytes.readU32 [s.at' (i + 3), s.at' (i + 2), s.at' (i + 1), s.at' i] 0 := hor _ _ _ _
  have hword := toNat_readU32 [s.at' (i + 3), s.at' (i + 2), s.at' (i + 1), s.at' i] 0
  rw [hread, hword]
  change (s.at' (i + 3)).toNat + 2 ^ 8 * (s.at' (i + 2)).toNat + 2 ^ 16 * (s.at' (i + 1)).toNat + 2 ^ 24 * (s.at' i).toNat = _
  omega

theorem vncPut16_bytes (a b : UInt8) : vncPut16 ((a.toNat * 2 ^ 8 + b.toNat : ℕ) : ℤ) = [a, b] := by
  have ha := a.toNat_lt
  have hb := b.toNat_lt
  simp only [vncPut16, List.cons.injEq, and_true, ← UInt8.toNat_inj, UInt8.toNat_ofNat']
  omega

theorem vncPut32_bytes (a b c d : UInt8) :
    vncPut32 ((((a.toNat * 2 ^ 8 + b.toNat) * 2 ^ 8 + c.toNat) * 2 ^ 8 + d.toNat : ℕ) : ℤ) = [a, b, c, d] := by
  have ha := a.toNat_lt
  have hb := b.toNat_lt
  have hc := c.toNat_lt
  have hd := d.toNat_lt
  simp only [vncPut32, List.cons.injEq, and_true, ← UInt8.toNat_inj, UInt8.toNat_ofNat']
  refine ⟨?_, ?_, ?_, ?_⟩ <;> omega

theorem vncU16_put {value : ℕ} (h : value < 2 ^ 16) (rest : Bytes) : (vncU16 (vncPut16 value ++ rest) 0).toNat = value := by
  rw [toNat_vncU16]
  simp only [vncPut16, at', List.cons_append, List.getD_cons_zero, List.getD_cons_succ, UInt8.toNat_ofNat']
  omega

theorem vncU32_put (value : ℤ) (rest : Bytes) :
    (vncU32 (vncPut32 value ++ rest) 0).toNat = (value % 2 ^ 32).toNat := by
  rw [toNat_vncU32]
  simp only [vncPut32, at', List.cons_append, List.getD_cons_zero, List.getD_cons_succ, UInt8.toNat_ofNat']
  omega

/-- A word behind other bytes. -/
theorem vncU32_behind {head : Bytes} {n : ℕ} (hn : head.length = n) {value : ℕ} (hvalue : value < 2 ^ 32) (rest : Bytes) :
    (vncU32 (head ++ (vncPut32 value ++ rest)) n).toNat = value := by
  have hput := vncU32_put value rest
  have hat : ∀ i, at' (head ++ (vncPut32 value ++ rest)) (n + i) = at' (vncPut32 value ++ rest) i := by
    intro i
    rw [← hn, at'_append_right]
  have h0 := hat 0
  rw [Nat.add_zero] at h0
  rw [toNat_vncU32] at hput
  rw [toNat_vncU32, h0, hat, hat, hat, hput]
  omega

/-- The bytes of a word, and the word. -/
theorem vncPut32_vncU32 (a b c d : UInt8) : vncPut32 (vncU32 [a, b, c, d] 0).toNat = [a, b, c, d] := by
  rw [toNat_vncU32]
  exact vncPut32_bytes a b c d

theorem vncPut16_vncU16 (a b : UInt8) : vncPut16 (vncU16 [a, b] 0).toNat = [a, b] := by
  rw [toNat_vncU16]
  exact vncPut16_bytes a b

theorem vncLong_put {value : ℤ} (hlow : -2 ^ 31 ≤ value) (hhigh : value < 2 ^ 31) (rest : Bytes) :
    vncLong (vncU32 (vncPut32 value ++ rest) 0) = value := by
  unfold vncLong
  rw [vncU32_put]
  split <;> omega

theorem vncLong_bounds (word : UInt32) : -2 ^ 31 ≤ vncLong word ∧ vncLong word < 2 ^ 31 := by
  have hword := word.toNat_lt
  unfold vncLong
  split <;> omega

theorem vncPut32_mod (value : ℤ) : vncPut32 (value - 2 ^ 32) = vncPut32 value := by
  simp only [vncPut32, List.cons.injEq, and_true, ← UInt8.toNat_inj, UInt8.toNat_ofNat']
  refine ⟨?_, ?_, ?_, ?_⟩ <;> omega

/-- The bytes of a `long`. -/
theorem vncPut32_vncLong (word : UInt32) : vncPut32 (vncLong word) = vncPut32 word.toNat := by
  unfold vncLong
  split
  · rfl
  · exact vncPut32_mod _

/-! ## Messages -/

theorem four_bytes {s : Bytes} (h : s.length = 4) : ∃ a b c d, s = [a, b, c, d] := by
  match s, h with
  | [a, b, c, d], _ => exact ⟨a, b, c, d, rfl⟩

theorem five_bytes {s : Bytes} (h : s.length = 5) : ∃ a b c d e, s = [a, b, c, d, e] := by
  match s, h with
  | [a, b, c, d, e], _ => exact ⟨a, b, c, d, e, rfl⟩

theorem seven_bytes {s : Bytes} (h : s.length = 7) : ∃ a b c d e f g, s = [a, b, c, d, e, f, g] := by
  match s, h with
  | [a, b, c, d, e, f, g], _ => exact ⟨a, b, c, d, e, f, g, rfl⟩

theorem vncSkip_exchange (length : ℕ) (input : Bytes) :
    (vncSkip length).exchange input = if length ≤ input.length then some ((), [], input.drop length) else none := by
  induction length using Nat.strong_induction_on generalizing input with
  | _ length ih =>
    have hsize : vncInSize = 1024 := rfl
    rw [vncSkip]
    by_cases hzero : length = 0
    · subst hzero
      simp [Talk.exchange]
    · rw [dif_neg hzero, Talk.hear_bind, Talk.exchange, ih _ (by omega), List.length_drop, List.drop_drop,
        show min length vncInSize + (length - min length vncInSize) = length by omega]
      by_cases hpart : min length vncInSize ≤ input.length
      · rw [if_pos hpart]
        congr 1
        exact propext (by omega)
      · rw [if_neg hpart, if_neg (by omega)]

/-- The encodings are those of the message. -/
theorem vncEncodings_some {count : ℕ} {input : Bytes} {encodings : List ℤ} {written rest : Bytes}
    (h : (vncEncodings count).exchange input = some (encodings, written, rest)) :
    written = [] ∧ encodings.length = count ∧ (∀ e ∈ encodings, -2 ^ 31 ≤ e ∧ e < 2 ^ 31) ∧
      input = encodings.flatMap vncPut32 ++ rest := by
  induction count generalizing input encodings written rest with
  | zero =>
    simp only [vncEncodings, Talk.pure_eq, Talk.exchange, Option.some.injEq, Prod.mk.injEq] at h
    obtain ⟨rfl, rfl, rfl⟩ := h
    simp
  | succ count ih =>
    simp only [vncEncodings, Talk.hear_bind] at h
    obtain ⟨word, left, hword, rfl, hnext⟩ := Talk.exchange_recv_some h
    rw [Talk.exchange_bind] at hnext
    obtain ⟨⟨more, w, r⟩, hmore, heq⟩ := Option.bind_eq_some_iff.1 hnext
    simp only [Talk.pure_eq, Talk.exchange, Option.map_some, Option.some.injEq, Prod.mk.injEq] at heq
    obtain ⟨rfl, rfl, rfl⟩ := heq
    obtain ⟨rfl, rfl, hbounds, rfl⟩ := ih hmore
    obtain ⟨a, b, c, d, rfl⟩ := four_bytes hword
    refine ⟨rfl, rfl, ?_, ?_⟩
    · intro e he
      rcases List.mem_cons.1 he with rfl | he
      · exact vncLong_bounds _
      · exact hbounds e he
    · rw [List.flatMap_cons, vncPut32_vncLong, vncPut32_vncU32, List.append_assoc]

theorem vncEncodings_wire {encodings : List ℤ} (h : ∀ e ∈ encodings, -2 ^ 31 ≤ e ∧ e < 2 ^ 31) (rest : Bytes) :
    (vncEncodings encodings.length).exchange (encodings.flatMap vncPut32 ++ rest) = some (encodings, [], rest) := by
  induction encodings with
  | nil => rfl
  | cons e encodings ih =>
    obtain ⟨hlow, hhigh⟩ := h e List.mem_cons_self
    have hword := vncLong_put hlow hhigh []
    rw [List.append_nil] at hword
    simp only [List.length_cons, vncEncodings, Talk.hear_bind, List.flatMap_cons, List.append_assoc]
    rw [Talk.exchange_recv (show (vncPut32 e).length = 4 from rfl), Talk.exchange_bind,
      ih fun e he => h e (List.mem_cons_of_mem _ he)]
    simp only [Option.bind_some, Talk.pure_eq, Talk.exchange, Option.map_some, hword]
    rfl

theorem vncHandleFormat_some {input : Bytes} {e : VncInput} {written rest : Bytes}
    (h : vncHandleFormat.exchange input = some (e, written, rest)) :
    written = [] ∧ ∃ body, e.Wire (0 :: body) ∧ input = body ++ rest := by
  simp only [vncHandleFormat, Talk.hear_bind, Talk.pure_eq] at h
  obtain ⟨body, left, hbody, rfl, hnext⟩ := Talk.exchange_recv_some h
  split at hnext
  · simp [Talk.exchange] at hnext
  · next hformat =>
    simp only [Talk.exchange, Option.some.injEq, Prod.mk.injEq] at hnext
    obtain ⟨rfl, rfl, rfl⟩ := hnext
    refine ⟨rfl, body, ⟨body.take 3, ?_, ?_, hformat, ?_⟩, rfl⟩
    · rw [List.length_take, hbody]
      rfl
    · rw [List.length_drop, hbody]
    · rw [List.cons_append, List.take_append_drop]

theorem vncHandleEncodings_some {input : Bytes} {e : VncInput} {written rest : Bytes}
    (h : vncHandleEncodings.exchange input = some (e, written, rest)) :
    written = [] ∧ ∃ body, e.Wire (2 :: body) ∧ input = body ++ rest := by
  simp only [vncHandleEncodings, Talk.hear_bind, Talk.pure_eq] at h
  obtain ⟨head, left, hhead, rfl, hnext⟩ := Talk.exchange_recv_some h
  obtain ⟨padding, a, b, rfl⟩ := List.length_eq_three.1 hhead
  rw [Talk.exchange_bind] at hnext
  obtain ⟨⟨encodings, w, r⟩, hencodings, heq⟩ := Option.bind_eq_some_iff.1 hnext
  simp only [Talk.exchange, Option.map_some, Option.some.injEq, Prod.mk.injEq] at heq
  obtain ⟨rfl, rfl, rfl⟩ := heq
  obtain ⟨rfl, hlength, hbounds, rfl⟩ := vncEncodings_some hencodings
  have hcount : vncU16 [padding, a, b] 1 = vncU16 [a, b] 0 := rfl
  refine ⟨rfl, padding :: a :: b :: encodings.flatMap vncPut32, ⟨padding, ?_, hbounds, ?_⟩, rfl⟩
  · rw [hlength]
    exact vncU16_lt _ _
  · rw [hlength, hcount, vncPut16_vncU16]
    rfl

theorem vncHandleCutText_some {input : Bytes} {e : VncInput} {written rest : Bytes}
    (h : vncHandleCutText.exchange input = some (e, written, rest)) :
    written = [] ∧ ∃ body, e.Wire (6 :: body) ∧ input = body ++ rest := by
  simp only [vncHandleCutText, Talk.hear_bind, Talk.pure_eq] at h
  obtain ⟨head, left, hhead, rfl, hnext⟩ := Talk.exchange_recv_some h
  obtain ⟨p, q, r, a, b, c, d, rfl⟩ := seven_bytes hhead
  have hword : vncPut32 (vncU32 [p, q, r, a, b, c, d] 3).toNat = [a, b, c, d] := vncPut32_vncU32 a b c d
  generalize (vncU32 [p, q, r, a, b, c, d] 3).toNat = count at hnext hword
  by_cases hmax : count > maxCutText
  · simp [hmax, Talk.exchange] at hnext
  rw [if_neg hmax] at hnext
  by_cases hlarge : count > clipMax
  · rw [if_pos hlarge, Talk.exchange_bind, vncSkip_exchange] at hnext
    split at hnext
    · next hlength =>
      simp only [Option.bind_some, Talk.exchange, Option.map_some, Option.some.injEq, Prod.mk.injEq] at hnext
      obtain ⟨rfl, rfl, rfl⟩ := hnext
      refine ⟨rfl, [p, q, r, a, b, c, d] ++ left.take count, ⟨[p, q, r], left.take count, rfl,
        List.length_take_of_le hlength, hlarge, Nat.le_of_not_lt hmax, ?_⟩, ?_⟩
      · rw [hword]
        rfl
      · rw [List.append_assoc, List.take_append_drop]
    · simp at hnext
  · rw [if_neg hlarge] at hnext
    obtain ⟨text, left, htext, rfl, hend⟩ := Talk.exchange_recv_some hnext
    simp only [Talk.exchange, Option.some.injEq, Prod.mk.injEq] at hend
    obtain ⟨rfl, rfl, rfl⟩ := hend
    refine ⟨rfl, [p, q, r, a, b, c, d] ++ text, ⟨[p, q, r], rfl, by omega, ?_⟩, (List.append_assoc _ _ _).symm⟩
    rw [htext, hword]
    rfl

/-- **A message is handled** only where the stream begins with it. -/
theorem wire_of_exchange {input : Bytes} {e : VncInput} {written rest : Bytes}
    (h : vncHandleMessage.exchange input = some (e, written, rest)) :
    written = [] ∧ ∃ block, e.Wire block ∧ input = block ++ rest := by
  simp only [vncHandleMessage, Talk.hear_bind, Talk.pure_eq] at h
  obtain ⟨type, left, htype, rfl, hnext⟩ := Talk.exchange_recv_some h
  obtain ⟨type, rfl⟩ := List.length_eq_one_iff.1 htype
  change (if type = 0 then _ else if type = 2 then _ else if type = 3 then _ else if type = 4 then _ else
    if type = 5 then _ else if type = 6 then _ else Talk.drop : Talk UInt8 VncInput).exchange left = _ at hnext
  have hbody : (written = [] ∧ ∃ body, e.Wire (type :: body) ∧ left = body ++ rest) →
      written = [] ∧ ∃ block, e.Wire block ∧ [type] ++ left = block ++ rest := by
    rintro ⟨hwritten, body, hwire, rfl⟩
    exact ⟨hwritten, type :: body, hwire, rfl⟩
  apply hbody
  split at hnext
  · next h0 =>
    subst h0
    exact vncHandleFormat_some hnext
  split at hnext
  · next h2 =>
    subst h2
    exact vncHandleEncodings_some hnext
  split at hnext
  · next h3 =>
    subst h3
    obtain ⟨body, left, hlength, rfl, hend⟩ := Talk.exchange_recv_some hnext
    simp only [Talk.exchange, Option.some.injEq, Prod.mk.injEq] at hend
    obtain ⟨rfl, rfl, rfl⟩ := hend
    obtain ⟨flag, area, rfl⟩ := List.exists_cons_of_length_eq_add_one hlength
    exact ⟨rfl, flag :: area, ⟨flag, area, Nat.succ.inj hlength, rfl, rfl⟩, rfl⟩
  split at hnext
  · next h4 =>
    subst h4
    obtain ⟨body, left, hlength, rfl, hend⟩ := Talk.exchange_recv_some hnext
    simp only [Talk.exchange, Option.some.injEq, Prod.mk.injEq] at hend
    obtain ⟨rfl, rfl, rfl⟩ := hend
    obtain ⟨flag, p, q, a, b, c, d, rfl⟩ := seven_bytes hlength
    have hword : vncPut32 (vncU32 [flag, p, q, a, b, c, d] 3).toNat = [a, b, c, d] := vncPut32_vncU32 a b c d
    refine ⟨rfl, [flag, p, q, a, b, c, d], ⟨flag, [p, q], rfl, rfl, ?_⟩, rfl⟩
    rw [hword]
    rfl
  split at hnext
  · next h5 =>
    subst h5
    obtain ⟨body, left, hlength, rfl, hend⟩ := Talk.exchange_recv_some hnext
    simp only [Talk.exchange, Option.some.injEq, Prod.mk.injEq] at hend
    obtain ⟨rfl, rfl, rfl⟩ := hend
    obtain ⟨buttons, a, b, c, d, rfl⟩ := five_bytes hlength
    have hx : vncPut16 (vncU16 [buttons, a, b, c, d] 1).toNat = [a, b] := vncPut16_vncU16 a b
    have hy : vncPut16 (vncU16 [buttons, a, b, c, d] 3).toNat = [c, d] := vncPut16_vncU16 c d
    refine ⟨rfl, [buttons, a, b, c, d], ⟨vncU16_lt _ _, vncU16_lt _ _, ?_⟩, rfl⟩
    rw [hx, hy]
    rfl
  split at hnext
  · next h6 =>
    subst h6
    exact vncHandleCutText_some hnext
  · simp [Talk.exchange] at hnext

/-- **A message at the front** of the stream is handled. -/
theorem exchange_of_wire {e : VncInput} {block : Bytes} (h : e.Wire block) (rest : Bytes) :
    vncHandleMessage.exchange (block ++ rest) = some (e, [], rest) := by
  have htype : ∀ (type : UInt8) (left : Bytes), vncHandleMessage.exchange (type :: left) =
      (if type = 0 then vncHandleFormat else if type = 2 then vncHandleEncodings else if type = 3 then
        (do let body ← Talk.hear 9; pure (.updateRequest (at' body 0 != 0))) else if type = 4 then
        (do let body ← Talk.hear 7; pure (.key (at' body 0 != 0) (vncU32 body 3))) else if type = 5 then
        (do let body ← Talk.hear 5; pure (.pointer (at' body 0) (vncU16 body 1).toNat (vncU16 body 3).toNat))
        else if type = 6 then vncHandleCutText else Talk.drop).exchange left := fun type left =>
    Talk.exchange_recv (show [type].length = 1 from rfl)
  cases e with
  | setPixelFormat format =>
    obtain ⟨padding, hpadding, hformat, hok, rfl⟩ := h
    have hdrop : (padding ++ format).drop 3 = format := by rw [← hpadding, List.drop_left]
    rw [List.cons_append, List.cons_append, htype, if_pos rfl]
    unfold vncHandleFormat
    rw [Talk.hear_bind, Talk.exchange_recv (by rw [List.length_append, hpadding, hformat]), hdrop, if_neg hok]
    rfl
  | setEncodings encodings =>
    obtain ⟨padding, hlength, hbounds, rfl⟩ := h
    have hcount : (vncU16 (padding :: vncPut16 encodings.length) 1).toNat = encodings.length := by
      have hput := vncU16_put hlength []
      rwa [List.append_nil] at hput
    rw [List.cons_append, List.cons_append, htype, if_neg (by decide), if_pos rfl]
    unfold vncHandleEncodings
    rw [Talk.hear_bind, List.append_assoc, Talk.exchange_recv (show (padding :: vncPut16 encodings.length).length = 3 from rfl),
      hcount, Talk.exchange_bind, vncEncodings_wire hbounds]
    rfl
  | updateRequest incremental =>
    obtain ⟨flag, area, harea, rfl, rfl⟩ := h
    rw [List.cons_append, htype, if_neg (by decide), if_neg (by decide), if_pos rfl]
    exact Talk.exchange_recv (by rw [List.length_cons, harea])
  | key down keysym =>
    obtain ⟨flag, padding, hpadding, rfl, rfl⟩ := h
    have hword : (vncU32 (flag :: padding ++ (vncPut32 keysym.toNat ++ [])) 3).toNat = keysym.toNat :=
      vncU32_behind (congrArg (· + 1) hpadding) keysym.toNat_lt []
    rw [List.append_nil] at hword
    rw [List.cons_append, List.cons_append, htype, if_neg (by decide), if_neg (by decide), if_neg (by decide), if_pos rfl]
    simp only [Talk.hear_bind, Talk.pure_eq]
    rw [Talk.exchange_recv (by rw [List.length_append, List.length_cons, hpadding]; rfl),
      UInt32.toNat_inj.1 hword]
    rfl
  | pointer buttons x y =>
    obtain ⟨hx, hy, rfl⟩ := h
    have hleft : (vncU16 (buttons :: vncPut16 x ++ vncPut16 y) 1).toNat = x := vncU16_put hx (vncPut16 y)
    have hright : (vncU16 (buttons :: vncPut16 x ++ vncPut16 y) 3).toNat = y := by
      have hput := vncU16_put hy []
      rwa [List.append_nil] at hput
    rw [List.cons_append, List.cons_append, htype, if_neg (by decide), if_neg (by decide), if_neg (by decide),
      if_neg (by decide), if_pos rfl]
    simp only [Talk.hear_bind, Talk.pure_eq]
    rw [Talk.exchange_recv (show (buttons :: vncPut16 x ++ vncPut16 y).length = 5 from rfl), hleft, hright]
    rfl
  | cutText text =>
    obtain ⟨padding, hpadding, hlength, rfl⟩ := h
    have hsmall : text.length < 2 ^ 32 := lt_of_le_of_lt hlength (by decide)
    have hword : (vncU32 (padding ++ (vncPut32 text.length ++ [])) 3).toNat = text.length :=
      vncU32_behind hpadding hsmall []
    rw [List.append_nil] at hword
    rw [List.cons_append, List.cons_append, List.cons_append, htype, if_neg (by decide), if_neg (by decide),
      if_neg (by decide), if_neg (by decide), if_neg (by decide), if_pos rfl]
    unfold vncHandleCutText
    rw [Talk.hear_bind, List.append_assoc, Talk.exchange_recv (by rw [List.length_append, hpadding]; rfl)]
    dsimp only
    have hmax : ¬ text.length > maxCutText := Nat.not_lt.2 (hlength.trans (by decide))
    rw [hword, if_neg hmax, if_neg (Nat.not_lt.2 hlength), Talk.hear_bind, Talk.exchange_recv rfl]
    rfl
  | skipped count =>
    obtain ⟨padding, text, hpadding, rfl, hlarge, hmax, rfl⟩ := h
    have hsmall : text.length < 2 ^ 32 := lt_of_le_of_lt hmax (by decide)
    have hword : (vncU32 (padding ++ (vncPut32 text.length ++ [])) 3).toNat = text.length :=
      vncU32_behind hpadding hsmall []
    rw [List.append_nil] at hword
    rw [List.cons_append, List.cons_append, List.cons_append, htype, if_neg (by decide), if_neg (by decide),
      if_neg (by decide), if_neg (by decide), if_neg (by decide), if_pos rfl]
    unfold vncHandleCutText
    rw [Talk.hear_bind, List.append_assoc, Talk.exchange_recv (by rw [List.length_append, hpadding]; rfl)]
    dsimp only
    rw [hword, if_neg (Nat.not_lt.2 hmax), if_pos hlarge, Talk.exchange_bind, vncSkip_exchange,
      if_pos (by rw [List.length_append]; omega), List.drop_left]
    rfl

/-- **A message**, and what it is read from. -/
theorem vncHandleMessage_wire {input rest : Bytes} {e : VncInput} :
    vncHandleMessage.exchange input = some (e, [], rest) ↔ ∃ block, e.Wire block ∧ input = block ++ rest := by
  constructor
  · intro h
    exact (wire_of_exchange h).2
  · rintro ⟨block, hwire, rfl⟩
    exact exchange_of_wire hwire rest

theorem vncMessages_none {arrivals : List (Arrival UInt8)} (h : (vncHandleMessage.run 0 (vncAwait arrivals)).result = none) :
    vncMessages arrivals = ([], vncAwait arrivals) := by
  rw [vncMessages]
  split
  · rfl
  · next input heq =>
    rw [h] at heq
    exact absurd heq (by simp)

theorem vncMessages_some {arrivals : List (Arrival UInt8)} {input : VncInput}
    (h : (vncHandleMessage.run 0 (vncAwait arrivals)).result = some input) :
    vncMessages arrivals = (input :: (vncMessages (vncHandleMessage.run 0 (vncAwait arrivals)).rest).1,
      (vncMessages (vncHandleMessage.run 0 (vncAwait arrivals)).rest).2) := by
  rw [vncMessages]
  split
  · next heq =>
    rw [h] at heq
    exact absurd heq (by simp)
  · next input' heq =>
    rw [h] at heq
    rw [Option.some.inj heq]

/-- One message of a connection. -/
theorem vncHandleMessage_run {arrivals : List (Arrival UInt8)} {e : VncInput}
    (h : (vncHandleMessage.run 0 arrivals).result = some e) :
    ∃ block, e.Wire block ∧ sent arrivals = block ++ sent (vncHandleMessage.run 0 arrivals).rest := by
  obtain ⟨hexchange, -⟩ := Talk.run_some h
  obtain ⟨-, block, hwire, hblock⟩ := wire_of_exchange hexchange
  obtain ⟨read, hread, hsent⟩ := vncHandleMessage.run_read 0 arrivals
  rw [hblock] at hread
  obtain rfl := List.append_cancel_right hread
  exact ⟨block, hwire, hsent⟩

/-- **What is handled** is what was sent, message for message, and what is left does not begin
with a message that comes in time. -/
theorem handled_wire (arrivals : List (Arrival UInt8)) :
    ∃ blocks : List Bytes, List.Forall₂ VncInput.Wire blocks (vncMessages arrivals).1 ∧
      sent arrivals = blocks.flatten ++ sent (vncMessages arrivals).2 ∧
      ∀ e block rest, VncInput.Wire block e → inTime (vncMessages arrivals).2 ≠ block ++ rest := by
  induction hn : (sent arrivals).length using Nat.strong_induction_on generalizing arrivals with
  | _ n ih =>
    cases hresult : (vncHandleMessage.run 0 (vncAwait arrivals)).result with
    | none =>
      rw [vncMessages_none hresult]
      refine ⟨[], .nil, (sent_vncAwait arrivals).symm, ?_⟩
      intro e block rest hwire htime
      have hrun := Talk.run_of_exchange (t := vncHandleMessage) (by rw [htime]; exact exchange_of_wire hwire rest)
        (Nat.zero_le 0)
      rw [hrun.1] at hresult
      exact absurd hresult (by simp)
    | some e =>
      obtain ⟨block, hwire, hsent⟩ := vncHandleMessage_run hresult
      have hlt := vncHandleMessage_lt hresult
      rw [sent_vncAwait] at hsent hlt
      obtain ⟨blocks, hblocks, hrest, hleft⟩ := ih _ (hn ▸ hlt) _ rfl
      rw [vncMessages_some hresult]
      refine ⟨block :: blocks, .cons hwire hblocks, ?_, hleft⟩
      rw [hsent, hrest, List.flatten_cons, List.append_assoc]

theorem vncAwait_noSilence {arrivals : List (Arrival UInt8)} (h : .silence ∉ arrivals) : .silence ∉ vncAwait arrivals := by
  induction arrivals with
  | nil => exact h
  | cons arrival arrivals ih =>
    obtain ⟨hhead, htail⟩ := not_or.1 (mt List.mem_cons.2 h)
    match arrival with
    | .silence => exact absurd rfl hhead
    | .piece [] => exact ih htail
    | .piece (c :: data) => exact h

/-- **What is sent** in one go is handled. -/
theorem sent_handled {blocks : List Bytes} {events : List VncInput} (h : List.Forall₂ VncInput.Wire blocks events)
    {arrivals : List (Arrival UInt8)} (hnone : .silence ∉ arrivals) {tail : Bytes} (hsent : sent arrivals = blocks.flatten ++ tail) :
    events <+: (vncMessages arrivals).1 := by
  induction h generalizing arrivals with
  | nil => exact List.nil_prefix
  | @cons block e blocks events hwire _ ih =>
    have hawait := vncAwait_noSilence hnone
    have htime : inTime (vncAwait arrivals) = block ++ (blocks.flatten ++ tail) := by
      rw [inTime_eq_sent hawait, sent_vncAwait, hsent, List.flatten_cons, List.append_assoc]
    have hexchange : vncHandleMessage.exchange (inTime (vncAwait arrivals)) = some (e, [], blocks.flatten ++ tail) := by
      rw [htime]
      exact exchange_of_wire hwire _
    obtain ⟨hresult, -, hrest⟩ := Talk.run_of_exchange hexchange (Nat.zero_le 0)
    have hquiet := Talk.run_noSilence vncHandleMessage 0 hawait
    rw [vncMessages_some hresult]
    refine List.cons_prefix_cons.2 ⟨rfl, ih hquiet ?_⟩
    rw [← inTime_eq_sent hquiet, hrest]

/-- **The messages of a connection**: what is handled is what was sent, in its order, none left
out and none twice, up to the first bytes that are no message or do not come in time; and what is
sent in one go, whatever the pieces it arrives in, is handled. -/
theorem vnc_messages_exact (arrivals : List (Arrival UInt8)) :
    (∃ blocks : List Bytes, List.Forall₂ VncInput.Wire blocks (vncMessages arrivals).1 ∧
      sent arrivals = blocks.flatten ++ sent (vncMessages arrivals).2 ∧
      ∀ e block rest, VncInput.Wire block e → inTime (vncMessages arrivals).2 ≠ block ++ rest) ∧
    ∀ (blocks : List Bytes) (events : List VncInput) (tail : Bytes), List.Forall₂ VncInput.Wire blocks events →
      .silence ∉ arrivals → sent arrivals = blocks.flatten ++ tail → events <+: (vncMessages arrivals).1 :=
  ⟨handled_wire arrivals, fun _ _ _ h hnone hsent => sent_handled h hnone hsent⟩

theorem handleMessage_open {e : VncInput} {block : Bytes} (h : e.Wire block) (buffers : Bool) (s : VncState) :
    (s.handleMessage (e.message buffers)).closed = s.closed := by
  cases e with
  | setPixelFormat format =>
    obtain ⟨-, -, -, hformat, -⟩ := h
    cases haccepted : vncSetPixelFormat format with
    | none => exact absurd haccepted hformat
    | some accepted => simp [VncInput.message, VncState.handleMessage, haccepted, VncState.wantFull]
  | setEncodings encodings =>
    simp only [VncInput.message, VncState.handleMessage, VncState.setEncodings, VncState.wantFull]
    split <;> rfl
  | updateRequest incremental => cases incremental <;> rfl
  | key down keysym => rfl
  | pointer buttons x y => rfl
  | cutText text => rfl
  | skipped count => rfl

/-- **The session stays open** under all that is handled: it ends where the reader drops the
connection, and not before. -/
theorem vncMessages_open (arrivals : List (Arrival UInt8)) (buffers : Bool) (s : VncState) :
    ((vncMessages arrivals).1.foldl (fun s e => s.handleMessage (e.message buffers)) s).closed = s.closed := by
  obtain ⟨blocks, hblocks, -⟩ := handled_wire arrivals
  generalize (vncMessages arrivals).1 = events at hblocks
  induction hblocks generalizing s with
  | nil => rfl
  | cons hwire _ ih => rw [List.foldl_cons, ih, handleMessage_open hwire]

/-! ## The gate -/

/-- What the server says of the security type, and what a viewer answers. -/
def vncOffer (password : Bytes) (minor : ℤ) : Bytes :=
  if minor < 7 then vncPut32 (vncSecurityType password).toNat else [1, vncSecurityType password]

def vncChoice (password : Bytes) (minor : ℤ) : Bytes := if minor < 7 then [] else [vncSecurityType password]

/-- What the server says in the check, and the viewer's answer. -/
def vncVerdict (password challenge : Bytes) (minor : ℤ) : Bytes :=
  if password.at' 0 ≠ 0 then challenge ++ vncPut32 0 else if minor ≥ 8 then vncPut32 0 else []

def vncAnswer (password challenge : Bytes) : Bytes :=
  if password.at' 0 ≠ 0 then vncAuthResponse (some password) challenge else []

/-- What lets a viewer in: a version, the security type, the right response, and the flag of ClientInit. -/
def vncEntry (password challenge version : Bytes) (shared : UInt8) : Bytes :=
  version ++ (vncChoice password (vncMinor version) ++ (vncAnswer password challenge ++ [shared]))

theorem vncSecurity_some {password input written rest : Bytes} {minor : ℤ} {u : Unit} :
    (vncSecurity password minor).exchange input = some (u, written, rest) ↔
      written = vncOffer password minor ∧ input = vncChoice password minor ++ rest := by
  unfold vncSecurity vncOffer vncChoice
  by_cases hminor : minor < 7
  · simp only [if_pos hminor, Talk.exchange_say, Option.some.injEq, Prod.mk.injEq, true_and, List.nil_append]
    exact and_congr eq_comm Iff.rfl
  · simp only [if_neg hminor, Talk.exchange_bind_some, Talk.exchange_say, Talk.exchange_hear, Option.some.injEq,
      Prod.mk.injEq]
    constructor
    · rintro ⟨-, _, _, more, ⟨-, rfl, rfl⟩, ⟨choice, _, middle, last, ⟨hchoice, rfl, rfl⟩, hend, rfl⟩, rfl⟩
      obtain ⟨type, rfl⟩ := List.length_eq_one_iff.1 hchoice
      split at hend
      · simp [Talk.exchange] at hend
      · next htype =>
        simp only [Talk.pure_eq, Talk.exchange, Option.some.injEq, Prod.mk.injEq, true_and] at hend
        obtain ⟨rfl, rfl⟩ := hend
        have htype' : type = vncSecurityType password := not_not.1 htype
        exact ⟨rfl, by rw [htype']⟩
    · rintro ⟨rfl, rfl⟩
      refine ⟨(), _, _, [], ⟨trivial, rfl, rfl⟩, ⟨[vncSecurityType password], [], rest, [], ⟨rfl, rfl, rfl⟩, ?_, rfl⟩, rfl⟩
      rw [if_neg (by simp [at'])]
      rfl

theorem vncAuthResponse_length (password : Option Bytes) (challenge : Bytes) : (vncAuthResponse password challenge).length = 16 := rfl

theorem vncCheck_some {password challenge input written rest : Bytes} {minor : ℤ} {u : Unit} :
    (vncCheck password challenge minor).exchange input = some (u, written, rest) ↔
      written = vncVerdict password challenge minor ∧ input = vncAnswer password challenge ++ rest := by
  unfold vncCheck vncVerdict vncAnswer
  by_cases hpassword : password.at' 0 ≠ 0
  · simp only [if_pos hpassword, vncAuthenticate, Talk.exchange_bind_some, Talk.exchange_say, Talk.exchange_hear,
      Option.some.injEq, Prod.mk.injEq]
    constructor
    · rintro ⟨-, _, _, more, ⟨-, rfl, rfl⟩, ⟨response, _, middle, last, ⟨hlength, rfl, rfl⟩, hend, rfl⟩, rfl⟩
      split at hend
      · next hright =>
        simp only [Talk.exchange_say, Option.some.injEq, Prod.mk.injEq, true_and] at hend
        obtain ⟨rfl, rfl⟩ := hend
        exact ⟨rfl, by rw [hright]⟩
      · simp [Talk.exchange] at hend
    · rintro ⟨rfl, rfl⟩
      refine ⟨(), _, _, vncPut32 0, ⟨trivial, rfl, rfl⟩, ⟨_, [], rest, vncPut32 0, ⟨vncAuthResponse_length _ _, rfl, rfl⟩, ?_, rfl⟩,
        rfl⟩
      rw [if_pos rfl, Talk.exchange_say]
  · simp only [if_neg hpassword]
    split
    · simp only [Talk.exchange_say, Option.some.injEq, Prod.mk.injEq, true_and, List.nil_append]
      exact and_congr eq_comm Iff.rfl
    · simp only [Talk.pure_eq, Talk.exchange, Option.some.injEq, Prod.mk.injEq, true_and, List.nil_append]
      exact and_congr eq_comm Iff.rfl

/-- What the server says until it has checked the password. -/
def vncGreeting (password challenge version : Bytes) : Bytes :=
  ascii "RFB 003.008\n" ++ (vncOffer password (vncMinor version) ++ vncVerdict password challenge (vncMinor version))

/-- **The viewer is let in** exactly where its stream begins with an entry. -/
theorem vncShake_some {password challenge input written rest : Bytes} {u : Unit} :
    (vncShake password challenge).exchange input = some (u, written, rest) ↔
      ∃ version shared, version.length = 12 ∧ version.take 8 = ascii "RFB 003." ∧
        written = vncGreeting password challenge version ∧ input = vncEntry password challenge version shared ++ rest := by
  unfold vncShake
  simp only [Talk.exchange_bind_some, Talk.exchange_say, Talk.exchange_hear, Option.some.injEq, Prod.mk.injEq]
  constructor
  · rintro ⟨-, _, _, more, ⟨-, rfl, rfl⟩, ⟨version, _, middle, last, ⟨hversion, rfl, rfl⟩, hend, rfl⟩, rfl⟩
    split at hend
    · simp [Talk.exchange] at hend
    · next hprefix =>
      simp only [Talk.exchange_bind_some, vncSecurity_some, vncCheck_some, Talk.exchange_hear, Talk.pure_eq, Talk.exchange,
        Option.some.injEq, Prod.mk.injEq] at hend
      obtain ⟨-, _, _, _, ⟨rfl, rfl⟩, ⟨-, _, _, _, ⟨rfl, rfl⟩, ⟨shared, _, _, _, ⟨hshared, rfl, rfl⟩, ⟨-, rfl, rfl⟩, rfl⟩, rfl⟩,
        rfl⟩ := hend
      obtain ⟨shared, rfl⟩ := List.length_eq_one_iff.1 hshared
      refine ⟨version, shared, hversion, not_not.1 hprefix, ?_, ?_⟩
      · simp only [vncGreeting, List.append_nil]
      · simp only [vncEntry, List.append_assoc]
  · rintro ⟨version, shared, hversion, hprefix, rfl, rfl⟩
    refine ⟨(), _, _, vncOffer password (vncMinor version) ++ vncVerdict password challenge (vncMinor version),
      ⟨trivial, rfl, rfl⟩, ?_, rfl⟩
    refine ⟨version, [], vncChoice password (vncMinor version) ++ (vncAnswer password challenge ++ ([shared] ++ rest)),
      vncOffer password (vncMinor version) ++ vncVerdict password challenge (vncMinor version), ⟨hversion, rfl, ?_⟩, ?_, rfl⟩
    · simp only [vncEntry, List.append_assoc]
    rw [if_neg (not_not.2 hprefix)]
    simp only [Talk.exchange_bind_some, vncSecurity_some, vncCheck_some, Talk.exchange_hear, Talk.pure_eq, Talk.exchange,
      Option.some.injEq, Prod.mk.injEq]
    exact ⟨(), _, _, _, ⟨rfl, rfl⟩, ⟨(), _, _, [], ⟨rfl, rfl⟩, ⟨[shared], [], rest, [], ⟨rfl, rfl, rfl⟩, ⟨trivial, rfl, rfl⟩, rfl⟩,
      (List.append_nil _).symm⟩, rfl⟩

/-- Where the viewer is not let in, the machine has no part in what happens. -/
theorem vncConnection_refused {password challenge : Bytes} {room : ℕ} {arrivals : List (Arrival UInt8)}
    (h : ((vncShake password challenge).run room arrivals).result = none) (width height : ℕ) (computer : Option Bytes) :
    vncConnection password challenge width height computer room arrivals =
      (((vncShake password challenge).run room arrivals).written, none) := by
  unfold vncConnection vncHandshake
  simp only [Talk.run_bind, h, Option.map_none]

/-- **Nothing before the password**: where a viewer's bytes do not begin with an entry (the version,
the security type, the response of the password to this challenge, and the flag), no message of it
is handled, and what it is sent would be the same for any other machine. Where they do, and the
connection holds, it is let in, and what is handled is the rest of what it sends. -/
theorem vnc_gate (password challenge : Bytes) (width height : ℕ) (computer : Option Bytes) (room : ℕ)
    (arrivals : List (Arrival UInt8)) :
    (¬ (∃ version shared rest, version.length = 12 ∧ version.take 8 = ascii "RFB 003." ∧
        inTime arrivals = vncEntry password challenge version shared ++ rest) →
      (vncConnection password challenge width height computer room arrivals).2 = none ∧
        ∀ width' height' computer', vncConnection password challenge width' height' computer' room arrivals =
          vncConnection password challenge width height computer room arrivals) ∧
    ∀ version shared rest, version.length = 12 → version.take 8 = ascii "RFB 003." →
      inTime arrivals = vncEntry password challenge version shared ++ rest →
      (vncGreeting password challenge version ++ vncServerInit width height computer).length ≤ room →
      ∃ left, inTime left = rest ∧ vncConnection password challenge width height computer room arrivals =
        (vncGreeting password challenge version ++ vncServerInit width height computer, some (vncMessages left).1) := by
  constructor
  · intro hentry
    have hnone : ((vncShake password challenge).run room arrivals).result = none := by
      cases hresult : ((vncShake password challenge).run room arrivals).result with
      | none => rfl
      | some u =>
        obtain ⟨version, shared, hversion, hprefix, -, hinput⟩ := vncShake_some.1 (Talk.run_some hresult).1
        exact absurd ⟨version, shared, _, hversion, hprefix, hinput⟩ hentry
    refine ⟨?_, ?_⟩
    · rw [vncConnection_refused hnone]
    · intro width' height' computer'
      rw [vncConnection_refused hnone, vncConnection_refused hnone]
  · intro version shared rest hversion hprefix htime hroom
    have hshake : (vncShake password challenge).exchange (inTime arrivals) =
        some ((), vncGreeting password challenge version, rest) :=
      vncShake_some.2 ⟨version, shared, hversion, hprefix, rfl, htime⟩
    have hhandshake : (vncHandshake password challenge width height computer).exchange (inTime arrivals) =
        some ((), vncGreeting password challenge version ++ vncServerInit width height computer, rest) :=
      Talk.exchange_bind_some.2 ⟨(), _, _, _, hshake, Talk.exchange_say, rfl⟩
    obtain ⟨hresult, hwritten, hrest⟩ := Talk.run_of_exchange hhandshake hroom
    refine ⟨_, hrest, ?_⟩
    unfold vncConnection
    simp only [hresult, hwritten, Option.map_some]

/-! ## The server and a viewer -/

theorem vncNumber_put16 {n : ℕ} (h : n < 2 ^ 16) : vncNumber (vncPut16 n) = n := by
  simp only [vncNumber, vncPut16, List.foldl_cons, List.foldl_nil, UInt8.toNat_ofNat']
  omega

theorem vncNumber_put32 {n : ℕ} (h : n < 2 ^ 32) : vncNumber (vncPut32 n) = n := by
  simp only [vncNumber, vncPut32, List.foldl_cons, List.foldl_nil, UInt8.toNat_ofNat']
  omega

/-- The viewer's response is the server's. -/
theorem vncViewerResponse_eq (password : Bytes) {challenge : Bytes} (h : challenge.length = 16) :
    vncViewerResponse (cstr password) challenge = vncAuthResponse (some password) challenge := by
  have hkey : Des.bits (vncAuthKey 8 (some password)) = vncViewerKey (cstr password) := by
    rw [vncAuthKey_eq 8 le_rfl, bits_reversed]
    rfl
  have hlength : (vncAuthKey 8 (some password)).length = 8 := by
    rw [vncAuthKey_eq 8 le_rfl, List.length_map, List.length_take, List.length_append, List.length_replicate]
    omega
  have hhalf : ∀ half : Bytes, half.length = 8 →
      Des.bytes (Des.encipher (vncViewerKey (cstr password)) (Des.bits half)) = vncDesEncrypt (vncAuthKey 8 (some password)) half := by
    intro half hlen
    rw [← hkey, ← vncDesEncrypt_eq hlength hlen, Des.bytes_bits]
  unfold vncViewerResponse vncAuthResponse
  rw [hhalf _ (by rw [List.length_take, h]; rfl), hhalf _ (by rw [List.length_drop, h])]

theorem vncSecurityType_cases (password : Bytes) :
    (password.at' 0 ≠ 0 ∧ vncSecurityType password = 2) ∨ (¬ password.at' 0 ≠ 0 ∧ vncSecurityType password = 1) := by
  unfold vncSecurityType
  by_cases h : password.at' 0 ≠ 0
  · exact .inl ⟨h, if_pos h⟩
  · exact .inr ⟨h, if_neg h⟩

variable {β γ : Type} {last : Talk.Meet UInt8 β γ}

theorem vncViewerChoice_eq (password : Bytes) : vncViewerChoice [vncSecurityType password] =
    Talk.say [vncSecurityType password] >>= fun _ => pure (vncSecurityType password).toNat := by
  rcases vncSecurityType_cases password with ⟨-, htype⟩ | ⟨-, htype⟩
  · rw [htype]
    rfl
  · rw [htype]
    rfl

/-- They settle the security type. -/
theorem security_meets {minor : ℕ} (password : Bytes) {f : Unit → Talk UInt8 β} {g : ℕ → Talk UInt8 γ}
    (h : Relation.ReflTransGen Talk.Meet.Step ⟨f (), g (vncSecurityType password).toNat, [], []⟩ last) :
    Relation.ReflTransGen Talk.Meet.Step ⟨vncSecurity password minor >>= f, vncViewerSecurity minor >>= g, [], []⟩ last := by
  unfold vncSecurity vncViewerSecurity
  by_cases hminor : minor < 7
  · have htype := vncNumber_put32 (lt_trans (vncSecurityType password).toNat_lt (by decide))
    rw [if_pos (by omega), if_pos hminor, Talk.bind_assoc]
    refine Talk.Meet.left_says (Talk.Meet.right_hears rfl ?_)
    rwa [Talk.pure_eq, Talk.done_bind, htype]
  · have hchoice : ¬ at' [vncSecurityType password] 0 ≠ vncSecurityType password := by simp [at']
    rw [if_neg (by omega), if_neg hminor, Talk.bind_assoc, Talk.bind_assoc]
    refine Talk.Meet.left_says ?_
    -- the count of types, and then the types
    refine .head (.rightRecv (show [1].length = 1 from rfl) (show _ = [1] ++ [vncSecurityType password] from rfl)) ?_
    refine .head (.rightRecv (show [vncSecurityType password].length = vncNumber [1] from rfl) (List.append_nil _).symm) ?_
    change Relation.ReflTransGen Talk.Meet.Step ⟨_, vncViewerChoice [vncSecurityType password] >>= g, [], []⟩ last
    rw [vncViewerChoice_eq, Talk.bind_assoc]
    refine Talk.Meet.right_says (Talk.Meet.left_hears rfl ?_)
    rw [if_neg hchoice]
    exact h

/-- They get through the check. -/
theorem check_meets {minor : ℕ} (password : Bytes) {challenge : Bytes} (hchallenge : challenge.length = 16)
    {f : Unit → Talk UInt8 β} {g : Unit → Talk UInt8 γ}
    (h : Relation.ReflTransGen Talk.Meet.Step ⟨f (), g (), [], []⟩ last) :
    Relation.ReflTransGen Talk.Meet.Step ⟨vncCheck password challenge minor >>= f,
      vncViewerCheck minor (cstr password) (vncSecurityType password).toNat >>= g, [], []⟩ last := by
  have hresult : ¬ vncNumber (vncPut32 0) ≠ 0 := by decide
  have hresponse := vncViewerResponse_eq password hchallenge
  rcases vncSecurityType_cases password with ⟨hpassword, htype⟩ | ⟨hpassword, htype⟩
  · have hleft : vncCheck password challenge minor = vncAuthenticate password challenge minor := if_pos hpassword
    have hright : vncViewerCheck minor (cstr password) (vncSecurityType password).toNat = Talk.hear 16 >>= fun challenge =>
        Talk.say (vncViewerResponse (cstr password) challenge) >>= fun _ => vncViewerResult := by
      rw [htype]
      exact if_pos rfl
    rw [hleft, hright, vncAuthenticate, Talk.bind_assoc, Talk.bind_assoc]
    refine Talk.Meet.left_says (Talk.Meet.right_hears hchallenge ?_)
    change Relation.ReflTransGen Talk.Meet.Step
      ⟨_, Talk.say (vncViewerResponse (cstr password) challenge) >>= fun _ => vncViewerResult >>= g, [], []⟩ last
    rw [hresponse]
    refine Talk.Meet.right_says (Talk.Meet.left_hears rfl ?_)
    rw [if_pos rfl, vncViewerResult, Talk.bind_assoc]
    refine Talk.Meet.left_says (Talk.Meet.right_hears rfl ?_)
    rw [if_neg hresult]
    exact h
  · have hleft : vncCheck password challenge minor = if (minor : ℤ) ≥ 8 then Talk.say (vncPut32 0) else pure () :=
      if_neg hpassword
    have hright : vncViewerCheck minor (cstr password) (vncSecurityType password).toNat =
        if 8 ≤ minor then vncViewerResult else pure () := by
      rw [htype]
      exact if_neg (by decide)
    rw [hleft, hright]
    by_cases hminor : 8 ≤ minor
    · rw [if_pos (by omega), if_pos hminor, vncViewerResult, Talk.bind_assoc]
      refine Talk.Meet.left_says (Talk.Meet.right_hears rfl ?_)
      rw [if_neg hresult]
      exact h
    · rw [if_neg (by omega), if_neg hminor]
      exact h

/-- What is said of the machine, read by the viewer. -/
theorem vncServerInit_read {width height : ℕ} (hwidth : width < 2 ^ 16) (hheight : height < 2 ^ 16) {computer : Option Bytes}
    (hname : (vncName computer).length < 2 ^ 32) : ∃ init : Bytes, init.length = 24 ∧
      vncServerInit width height computer = init ++ vncName computer ∧ vncNumber (init.drop 20) = (vncName computer).length ∧
      vncNumber (init.take 2) = width ∧ vncNumber ((init.drop 2).take 2) = height ∧
      vncReadFormat ((init.drop 4).take 16) = vncDefaultFormat :=
  ⟨_, rfl, rfl, vncNumber_put32 hname, vncNumber_put16 hwidth, vncNumber_put16 hheight, rfl⟩

/-- **A viewer that knows the password is let in**: in whatever order the server, the viewer and the
network get on, they can always go on until both are through, nothing is left on its way, and the
viewer has the machine's size, pixel format and name. -/
theorem vnc_handshake_meets {minor : ℕ} (hminor : minor = 3 ∨ minor = 7 ∨ minor = 8) (password : Bytes)
    (values : Fin 4 → UInt32) {width height : ℕ} (hwidth : width < 2 ^ 16) (hheight : height < 2 ^ 16)
    {computer : Option Bytes} (hname : (computer.getD []).length ≤ 60) (shared : UInt8) {s' : Talk.Meet UInt8 Unit VncHello}
    (h : Relation.ReflTransGen Talk.Meet.Step
      ⟨vncHandshake password (vncMakeChallenge values) width height computer, vncViewerShake minor (cstr password) shared, [], []⟩ s') :
    Relation.ReflTransGen Talk.Meet.Step s'
      ⟨.done (), .done ⟨width, height, vncDefaultFormat, vncName computer⟩, [], []⟩ := by
  have hbytes : (vncName computer).length < 2 ^ 32 := by
    have hlength : (vncName computer).length = 4 + (computer.getD []).length := List.length_append
    omega
  obtain ⟨init, hinit, hserver, hlength, hw, hh, hformat⟩ := vncServerInit_read hwidth hheight hbytes
  have hchallenge : (vncMakeChallenge values).length = 16 := rfl
  have hversion : vncMinor (ascii "RFB 003.00" ++ [UInt8.ofNat (48 + minor), 10]) = minor := by
    rcases hminor with rfl | rfl | rfl <;> rfl
  have hprefix : (ascii "RFB 003.00" ++ [UInt8.ofNat (48 + minor), 10]).take 8 = ascii "RFB 003." := rfl
  have htype : ¬ ((vncSecurityType password).toNat ≠ 1 ∧ (vncSecurityType password).toNat ≠ 2) := by
    rcases vncSecurityType_cases password with ⟨-, htype⟩ | ⟨-, htype⟩ <;> simp [htype]
  refine Talk.meet_ends ?_ ?_ h
  · unfold vncHandshake vncShake vncViewerShake
    rw [Talk.bind_assoc]
    refine Talk.Meet.left_says (Talk.Meet.right_hears rfl ?_)
    rw [if_neg (by decide), Talk.bind_assoc]
    refine Talk.Meet.right_says (Talk.Meet.left_hears rfl ?_)
    rw [if_neg (not_not.2 hprefix), hversion, Talk.bind_assoc]
    refine security_meets password ?_
    rw [if_neg htype, Talk.bind_assoc]
    refine check_meets password hchallenge ?_
    rw [Talk.bind_assoc]
    refine Talk.Meet.right_says (Talk.Meet.left_hears rfl ?_)
    -- the last words come in one piece, and are read in two
    refine .head .leftSend ?_
    refine .head (.rightRecv hinit hserver) ?_
    refine .head (.rightRecv hlength.symm (List.append_nil _).symm) ?_
    rw [← hw, ← hh, ← hformat]
    exact .refl
  · intro t ht
    cases ht

theorem vnc_handshake_meets_viewer : Relation.ReflTransGen Talk.Meet.Step
    ⟨vncHandshake (ascii "secret") (vncMakeChallenge fun _ => 7) 640 480 (some (ascii "PC")),
      vncViewerShake 8 (cstr (ascii "secret")) 1, [], []⟩
    ⟨.done (), .done ⟨640, 480, vncDefaultFormat, vncName (some (ascii "PC"))⟩, [], []⟩ :=
  vnc_handshake_meets (.inr (.inr rfl)) (ascii "secret") (fun _ => 7) (by decide) (by decide) (by decide) 1 .refl

end V9xRemote
