import V9xRemote.Spec.Relay

/-!
# The signed text determines what was signed

Every field of the canonical text but the sequence number has a fixed length, and
the sequence number stands before a tail of fixed length, so two signed texts that
are equal agree in every field.
-/

namespace V9xRemote

open Bytes

/-! ## Lowercase hex -/

/-- The value of a lowercase hex digit. -/
def unhexDigit (c : UInt8) : UInt8 := if c ≤ 57 then c - 48 else c - 87

theorem relayHex_cons (b : UInt8) (bs : Bytes) :
    relayHex (b :: bs) =
      relayHexDigits.at' (b >>> 4).toNat :: relayHexDigits.at' (b &&& 0x0F).toNat :: relayHex bs := rfl

theorem relayHex_length (bs : Bytes) : (relayHex bs).length = 2 * bs.length := by
  induction bs with
  | nil => rfl
  | cons b bs ih => simp only [relayHex_cons, List.length_cons, ih]; omega

theorem relayHexDigit_lower : ∀ n : Fin 16, relayIsLowerHex (relayHexDigits.at' n) = true := by decide

theorem highDigit_lt (b : UInt8) : (b >>> 4).toNat < 16 := by
  have hb := b.toNat_lt
  rw [UInt8.toNat_shiftRight, Nat.shiftRight_eq_div_pow, show (4 : UInt8).toNat % 8 = 4 from rfl]
  omega

theorem lowDigit_lt (b : UInt8) : (b &&& 0x0F).toNat < 16 := by
  rw [UInt8.toNat_and]
  exact Nat.and_lt_two_pow _ (by decide : (0x0F : UInt8).toNat < 2 ^ 4)

/-- Lowercase hex holds nothing else. -/
theorem relayHex_lower (bytes : Bytes) : ∀ x ∈ relayHex bytes, relayIsLowerHex x = true := by
  intro x hx
  obtain ⟨b, -, hx⟩ := List.mem_flatMap.1 hx
  rcases List.mem_cons.1 hx with rfl | hx
  · exact relayHexDigit_lower ⟨_, highDigit_lt b⟩
  · rw [List.mem_singleton.1 hx]
    exact relayHexDigit_lower ⟨_, lowDigit_lt b⟩

theorem unhex_pairs : ∀ n : Fin 256,
    let b := UInt8.ofNat n.val
    unhexDigit (relayHexDigits.at' (b >>> 4).toNat) <<< 4 |||
      unhexDigit (relayHexDigits.at' (b &&& 0x0F).toNat) = b := by
  decide +kernel

/-- The two digits of a byte give the byte back. -/
theorem unhex_pair (b : UInt8) :
    unhexDigit (relayHexDigits.at' (b >>> 4).toNat) <<< 4 |||
      unhexDigit (relayHexDigits.at' (b &&& 0x0F).toNat) = b := by
  have h := unhex_pairs ⟨b.toNat, b.toNat_lt⟩
  simpa only [UInt8.ofNat_toNat] using h

theorem relayHex_injective : Function.Injective relayHex := by
  intro as
  induction as with
  | nil =>
    intro bs h
    cases bs with
    | nil => rfl
    | cons b bs => simp [relayHex] at h
  | cons a as ih =>
    intro bs h
    cases bs with
    | nil => simp [relayHex] at h
    | cons b bs =>
      rw [relayHex_cons, relayHex_cons] at h
      obtain ⟨hhi, h⟩ := List.cons.inj h
      obtain ⟨hlo, h⟩ := List.cons.inj h
      have hab : a = b := by rw [← unhex_pair a, hhi, hlo, unhex_pair b]
      rw [hab, ih h]

/-! ## The fields -/

/-- The fields a signed text is made of are well formed. -/
structure RelayFields (machine install nonce session : Bytes) : Prop where
  machine : machine.length = relayMachineLength
  install : install.length = relayInstallLength
  nonce : nonce.length = relayHexIdLength
  session : session.length = relayHexIdLength

/-- What `v9x_relay_message` answers, it answers for valid fields. -/
theorem relayMessage_accepted {machine install nonce session data t : Bytes} {seq : UInt32}
    (h : relayMessage machine install nonce session seq data = some t) :
    (relayMachineValid machine = true ∧ relayInstallValid install = true ∧ relayHexIdValid nonce = true ∧
      relayHexIdValid session = true) ∧ t = relayText machine install nonce session seq data := by
  unfold relayMessage at h
  split at h
  · exact absurd h (by simp)
  rename_i hv
  simp only [Bool.or_eq_true, Bool.not_eq_true', not_or, Bool.not_eq_false] at hv
  obtain ⟨⟨⟨hm, hi⟩, hn⟩, hs⟩ := hv
  dsimp only at h
  split at h
  · exact ⟨⟨hm, hi, hn, hs⟩, (Option.some.inj h).symm⟩
  · exact absurd h (by simp)

/-- The fields of an answer have their lengths. -/
theorem relayMessage_some {machine install nonce session data t : Bytes} {seq : UInt32}
    (h : relayMessage machine install nonce session seq data = some t) :
    RelayFields machine install nonce session ∧ t = relayText machine install nonce session seq data := by
  obtain ⟨⟨hm, hi, hn, hs⟩, htext⟩ := relayMessage_accepted h
  simp only [relayMachineValid, relayInstallValid, relayHexIdValid, Bool.and_eq_true, beq_iff_eq] at hm hi hn hs
  exact ⟨⟨hm.1.2, hi.1, hn.1, hs.1⟩, htext⟩

/-- Equal texts with the same label before a field of the same length agree in the
field and after it. -/
theorem field_inj {label x y r r' : Bytes} (hlen : x.length = y.length)
    (h : label ++ (x ++ r) = label ++ (y ++ r')) : x = y ∧ r = r' :=
  List.append_inj (List.append_cancel_left h) hlen

/-- **The canonical text determines machine, install id, nonce, session, sequence
number and the digest of the data.** -/
theorem relayMessage_inj {m i n s d m' i' n' s' d' t : Bytes} {q q' : UInt32}
    (h : relayMessage m i n s q d = some t) (h' : relayMessage m' i' n' s' q' d' = some t) :
    m = m' ∧ i = i' ∧ n = n' ∧ s = s' ∧ q = q' ∧ sha256 d = sha256 d' := by
  obtain ⟨hf, rfl⟩ := relayMessage_some h
  obtain ⟨hf', heq⟩ := relayMessage_some h'
  simp only [relayText, List.append_assoc] at heq
  obtain ⟨hm, heq⟩ := field_inj (hf.machine.trans hf'.machine.symm) heq
  obtain ⟨hi, heq⟩ := field_inj (hf.install.trans hf'.install.symm) heq
  obtain ⟨hn, heq⟩ := field_inj (hf.nonce.trans hf'.nonce.symm) heq
  obtain ⟨hs, heq⟩ := field_inj (hf.session.trans hf'.session.symm) heq
  -- the sequence number is what stands before a tail of fixed length
  obtain ⟨hq, heq⟩ := List.append_inj' (List.append_cancel_left heq) (by
    simp only [List.length_append, relayHex_length, sha256_length])
  have hd := (List.append_inj' (List.append_cancel_left heq) rfl).1
  exact ⟨hm, hi, hn, hs, UInt32.toNat_inj.1 (decimal_injective hq), relayHex_injective hd⟩

/-! ## What the validators accept -/

/-- `M-` and six characters of the Crockford set. -/
def MachineForm (machine : Bytes) : Prop :=
  ∃ body : Bytes, machine = ascii "M-" ++ body ∧ body.length = 6 ∧ ∀ c ∈ body, c ∈ relayCrockford

/-- Groups of 8, 4, 4, 4 and 12 hex digits of either case, joined by `-`. -/
def InstallForm (install : Bytes) : Prop :=
  ∃ a b c d e : Bytes, install = a ++ 45 :: (b ++ 45 :: (c ++ 45 :: (d ++ 45 :: e))) ∧
    a.length = 8 ∧ b.length = 4 ∧ c.length = 4 ∧ d.length = 4 ∧ e.length = 12 ∧
    ∀ x ∈ a ++ b ++ c ++ d ++ e, relayIsHex x = true

/-- Exactly 32 lowercase hex digits. -/
def HexIdForm (id : Bytes) : Prop := id.length = 32 ∧ ∀ c ∈ id, relayIsLowerHex c = true

theorem relayMachineValid_iff (machine : Bytes) : relayMachineValid machine = true ↔ MachineForm machine := by
  simp only [relayMachineValid, Bool.and_eq_true, beq_iff_eq, List.all_eq_true, List.contains_iff_mem,
    relayMachineLength]
  constructor
  · rintro ⟨⟨hhead, hlen⟩, hbody⟩
    refine ⟨machine.drop 2, ?_, by rw [List.length_drop, hlen], hbody⟩
    rw [← hhead, List.take_append_drop]
  · rintro ⟨body, rfl, hlen, hbody⟩
    have hhead : (ascii "M-").length = 2 := rfl
    refine ⟨⟨List.take_left' hhead, ?_⟩, ?_⟩
    · rw [List.length_append, hhead, hlen]
    · rwa [List.drop_left' hhead]

theorem relayHexIdValid_iff (id : Bytes) : relayHexIdValid id = true ↔ HexIdForm id := by
  simp only [relayHexIdValid, HexIdForm, Bool.and_eq_true, beq_iff_eq, List.all_eq_true, relayHexIdLength]

/-- What the byte at index `i` of an install id has to be. -/
def installByte (i : ℕ) (x : UInt8) : Bool := if i = 8 ∨ i = 13 ∨ i = 18 ∨ i = 23 then x == 45 else relayIsHex x

theorem range_all_zipIdx (s : Bytes) (f : ℕ → UInt8 → Bool) :
    ((List.range s.length).all fun i => f i (s.at' i)) = s.zipIdx.all fun p => f p.2 p.1 := by
  rw [Bool.eq_iff_iff, List.all_eq_true, List.all_eq_true]
  constructor
  · rintro h ⟨x, i⟩ hx
    have hget := List.mem_zipIdx_iff_getElem?.1 hx
    have hi : i < s.length := (List.getElem?_eq_some_iff.1 hget).1
    have := h i (List.mem_range.2 hi)
    rwa [at', List.getD_eq_getElem?_getD, hget] at this
  · intro h i hi
    have hget := List.getElem?_eq_getElem (List.mem_range.1 hi)
    rw [at', List.getD_eq_getElem?_getD, hget]
    exact h (_, i) (List.mem_zipIdx_iff_getElem?.2 hget)

/-- A group of an install id starting at `k`, free of hyphen places, is a group of hex digits. -/
theorem group_all (s : Bytes) (k : ℕ) (h : ∀ i, k ≤ i → i < k + s.length → ¬(i = 8 ∨ i = 13 ∨ i = 18 ∨ i = 23)) :
    ((s.zipIdx k).all fun p => installByte p.2 p.1) = s.all relayIsHex := by
  induction s generalizing k with
  | nil => rfl
  | cons x s ih =>
    rw [List.zipIdx_cons, List.all_cons, List.all_cons, installByte, if_neg (h k le_rfl (by simp)),
      ih (k + 1) fun i hi hlt => h i (by omega) (by rw [List.length_cons]; omega)]

/-- Five groups of the right lengths with a byte between each two. -/
theorem groups_valid {a b c d e : Bytes} (ha : a.length = 8) (hb : b.length = 4) (hc : c.length = 4)
    (hd : d.length = 4) (he : e.length = 12) (w x y z : UInt8) :
    relayInstallValid (a ++ w :: (b ++ x :: (c ++ y :: (d ++ z :: e)))) =
      (a.all relayIsHex && w == 45 && b.all relayIsHex && x == 45 && c.all relayIsHex && y == 45 &&
        d.all relayIsHex && z == 45 && e.all relayIsHex) := by
  have hlen : (a ++ w :: (b ++ x :: (c ++ y :: (d ++ z :: e)))).length = relayInstallLength := by
    simp only [List.length_append, List.length_cons, ha, hb, hc, hd, he, relayInstallLength]
  have hrange := range_all_zipIdx (a ++ w :: (b ++ x :: (c ++ y :: (d ++ z :: e)))) installByte
  rw [hlen] at hrange
  have free : ∀ (s : Bytes) (k : ℕ), (∀ i, k ≤ i → i < k + s.length → ¬(i = 8 ∨ i = 13 ∨ i = 18 ∨ i = 23)) →
      ((s.zipIdx k).all fun p => installByte p.2 p.1) = s.all relayIsHex := group_all
  unfold relayInstallValid
  rw [hlen, beq_self_eq_true, Bool.true_and]
  refine hrange.trans ?_
  simp only [List.zipIdx_append, List.zipIdx_cons, List.all_append, List.all_cons, ha, hb, hc, hd]
  rw [free a 0, free b, free c, free d, free e]
  · simp [installByte, Bool.and_assoc]
  all_goals
    intro i hi hlt
    omega

/-- A text of `n + 1 + m` bytes is `n` bytes, a byte and `m` bytes. -/
theorem split_byte {s : Bytes} {n m : ℕ} (h : s.length = n + 1 + m) :
    ∃ a w r, s = a ++ w :: r ∧ a.length = n ∧ r.length = m := by
  cases hdrop : s.drop n with
  | nil =>
    have := congrArg List.length hdrop
    rw [List.length_drop, List.length_nil] at this
    omega
  | cons w r =>
    have hr := congrArg List.length hdrop
    rw [List.length_drop, List.length_cons] at hr
    refine ⟨s.take n, w, r, ?_, ?_, by omega⟩
    · rw [← hdrop, List.take_append_drop]
    · rw [List.length_take]; omega

theorem relayInstallValid_iff (install : Bytes) : relayInstallValid install = true ↔ InstallForm install := by
  constructor
  · intro h
    have hlen : install.length = 36 := by
      simp only [relayInstallValid, Bool.and_eq_true, beq_iff_eq] at h
      exact h.1
    obtain ⟨a, w, r, rfl, ha, hr⟩ := split_byte (n := 8) (m := 27) hlen
    obtain ⟨b, x, r, rfl, hb, hr⟩ := split_byte (n := 4) (m := 22) hr
    obtain ⟨c, y, r, rfl, hc, hr⟩ := split_byte (n := 4) (m := 17) hr
    obtain ⟨d, z, e, rfl, hd, he⟩ := split_byte (n := 4) (m := 12) hr
    rw [groups_valid ha hb hc hd he] at h
    simp only [Bool.and_eq_true, beq_iff_eq, List.all_eq_true] at h
    obtain ⟨⟨⟨⟨⟨⟨⟨⟨hxa, rfl⟩, hxb⟩, rfl⟩, hxc⟩, rfl⟩, hxd⟩, rfl⟩, hxe⟩ := h
    refine ⟨a, b, c, d, e, rfl, ha, hb, hc, hd, he, fun v hv => ?_⟩
    simp only [List.mem_append] at hv
    rcases hv with (((hv | hv) | hv) | hv) | hv
    · exact hxa v hv
    · exact hxb v hv
    · exact hxc v hv
    · exact hxd v hv
    · exact hxe v hv
  · rintro ⟨a, b, c, d, e, rfl, ha, hb, hc, hd, he, hhex⟩
    rw [groups_valid ha hb hc hd he]
    simp only [List.mem_append] at hhex
    simp only [beq_self_eq_true, Bool.and_true, Bool.and_eq_true, List.all_eq_true]
    exact ⟨⟨⟨⟨fun x hx => hhex x (by simp [hx]), fun x hx => hhex x (by simp [hx])⟩,
      fun x hx => hhex x (by simp [hx])⟩, fun x hx => hhex x (by simp [hx])⟩, fun x hx => hhex x (by simp [hx])⟩

/-! ## The field structure -/

/-- A field value with none of the bytes that structure the text: no line feed, no
`=` and no NUL. -/
def FieldSafe (s : Bytes) : Prop := (10 : UInt8) ∉ s ∧ (61 : UInt8) ∉ s ∧ (0 : UInt8) ∉ s

theorem fieldSafe_of {s : Bytes} (ok : UInt8 → Bool) (h10 : ok 10 = false) (h61 : ok 61 = false)
    (h0 : ok 0 = false) (h : ∀ c ∈ s, ok c = true) : FieldSafe s := by
  refine ⟨fun hc => ?_, fun hc => ?_, fun hc => ?_⟩
  · exact absurd (h _ hc) (by rw [h10]; decide)
  · exact absurd (h _ hc) (by rw [h61]; decide)
  · exact absurd (h _ hc) (by rw [h0]; decide)

theorem HexIdForm.safe {id : Bytes} (h : HexIdForm id) : FieldSafe id :=
  fieldSafe_of relayIsLowerHex (by decide) (by decide) (by decide) h.2

theorem MachineForm.safe {machine : Bytes} (h : MachineForm machine) : FieldSafe machine := by
  obtain ⟨body, rfl, -, hbody⟩ := h
  refine fieldSafe_of (fun c => c == 77 || c == 45 || relayCrockford.contains c)
    (by decide) (by decide) (by decide) fun c hc => ?_
  rcases List.mem_append.1 hc with hc | hc
  · have hhead : c = 77 ∨ c = 45 := by simpa [ascii] using hc
    rcases hhead with rfl | rfl <;> decide
  · simp [hbody c hc]

theorem InstallForm.safe {install : Bytes} (h : InstallForm install) : FieldSafe install := by
  obtain ⟨a, b, c, d, e, rfl, -, -, -, -, -, hhex⟩ := h
  refine fieldSafe_of (fun c => c == 45 || relayIsHex c) (by decide) (by decide) (by decide) fun v hv => ?_
  by_cases hdash : v = 45
  · simp [hdash]
  · have := hhex v (by
      simp only [List.mem_append, List.mem_cons, hdash, false_or] at hv ⊢
      tauto)
    simp [this]

theorem MachineForm.length {machine : Bytes} (h : MachineForm machine) : machine.length = relayMachineLength := by
  obtain ⟨body, rfl, hlen, -⟩ := h
  rw [List.length_append, hlen]
  rfl

theorem InstallForm.length {install : Bytes} (h : InstallForm install) : install.length = relayInstallLength := by
  obtain ⟨a, b, c, d, e, rfl, ha, hb, hc, hd, he, -⟩ := h
  simp only [List.length_append, List.length_cons, ha, hb, hc, hd, he, relayInstallLength]

/-- The text of well-formed fields leaves room for its NUL in the caller's buffer. -/
theorem relayText_length_lt {machine install nonce session : Bytes} (hm : machine.length = relayMachineLength)
    (hi : install.length = relayInstallLength) (hn : nonce.length = relayHexIdLength)
    (hs : session.length = relayHexIdLength) (seq : UInt32) (data : Bytes) :
    (relayText machine install nonce session seq data).length < relayMessageMax := by
  have hseq : (decimal seq.toNat).length ≤ 10 := decimal_length (k := 9) (by have := seq.toNat_lt; omega)
  have hlabels : (ascii "V9XRELAY1\nmachine=").length + (ascii "\ninstall=").length + (ascii "\nnonce=").length +
      (ascii "\nsession=").length + (ascii "\nseq=").length + (ascii "\nsha256=").length +
      (ascii "\n").length = 57 := by decide
  simp only [relayText, List.length_append, hm, hi, hn, hs, relayHex_length, sha256_length, relayMachineLength,
    relayInstallLength, relayHexIdLength, relayMessageMax]
  omega

theorem decimalAux_digits (fuel n : ℕ) (acc : Bytes) {b : UInt8} (hb : b ∈ decimalAux fuel n acc) :
    b ∈ acc ∨ 48 ≤ b.toNat := by
  induction fuel generalizing n acc with
  | zero => exact .inl hb
  | succ fuel ih =>
    have hdigit : ∀ {x : UInt8}, x ∈ UInt8.ofNat (48 + n % 10) :: acc → x ∈ acc ∨ 48 ≤ x.toNat := by
      intro x hx
      rcases List.mem_cons.1 hx with rfl | hx
      · exact .inr (by rw [digit_toNat]; omega)
      · exact .inl hx
    unfold decimalAux at hb
    dsimp only at hb
    split at hb
    · exact hdigit hb
    · rcases ih _ _ hb with hb | hb
      · exact hdigit hb
      · exact .inr hb

theorem zero_notMem_relayHex (bs : Bytes) : (0 : UInt8) ∉ relayHex bs := fun h =>
  absurd (relayHex_lower bs 0 h) (by decide)

/-- The length `v9x_relay_message` counted is the one its reader sees. -/
theorem zero_notMem_relayText {machine install nonce session : Bytes} (hm : FieldSafe machine)
    (hi : FieldSafe install) (hn : FieldSafe nonce) (hs : FieldSafe session) (seq : UInt32) (data : Bytes) :
    (0 : UInt8) ∉ relayText machine install nonce session seq data := by
  have hseq : (0 : UInt8) ∉ decimal seq.toNat := by
    intro h
    rcases decimalAux_digits _ _ _ h with h | h
    · exact absurd h (by simp)
    · exact absurd h (by decide)
  have hlabels : [ascii "V9XRELAY1\nmachine=", ascii "\ninstall=", ascii "\nnonce=", ascii "\nsession=",
      ascii "\nseq=", ascii "\nsha256=", ascii "\n"].all (fun label => !label.contains 0) = true := by decide
  simp only [List.all_cons, Bool.and_eq_true, Bool.not_eq_true', List.contains_eq_mem,
    decide_eq_false_iff_not] at hlabels
  obtain ⟨h1, h2, h3, h4, h5, h6, h7, -⟩ := hlabels
  simp only [relayText, List.mem_append, h1, h2, h3, h4, h5, h6, h7, hm.2.2, hi.2.2, hn.2.2, hs.2.2, hseq,
    zero_notMem_relayHex, or_self, not_false_eq_true]

/-- The fields `v9x_relay_message` accepts. -/
structure RelayForm (machine install nonce session : Bytes) : Prop where
  machine : MachineForm machine
  install : InstallForm install
  nonce : HexIdForm nonce
  session : HexIdForm session

/-- The test on the length refuses no well-formed argument. -/
theorem relayMessage_eq_some_iff {machine install nonce session data t : Bytes} {seq : UInt32} :
    relayMessage machine install nonce session seq data = some t ↔
      RelayForm machine install nonce session ∧ t = relayText machine install nonce session seq data := by
  constructor
  · intro h
    obtain ⟨⟨hm, hi, hn, hs⟩, htext⟩ := relayMessage_accepted h
    refine ⟨?_, htext⟩
    exact ⟨(relayMachineValid_iff _).1 hm, (relayInstallValid_iff _).1 hi, (relayHexIdValid_iff _).1 hn,
      (relayHexIdValid_iff _).1 hs⟩
  · rintro ⟨hf, rfl⟩
    have hlt := relayText_length_lt hf.machine.length hf.install.length hf.nonce.1 hf.session.1 seq data
    unfold relayMessage
    rw [(relayMachineValid_iff _).2 hf.machine, (relayInstallValid_iff _).2 hf.install,
      (relayHexIdValid_iff _).2 hf.nonce, (relayHexIdValid_iff _).2 hf.session]
    simp only [Bool.not_true, Bool.or_self, Bool.false_eq_true, if_false, hlt, if_true]

/-- **A signed text belongs to one tuple of arguments.** `v9x_relay_message` accepts the
well-formed fields and no others, no accepted field holds a byte of the structure, the
text and its NUL fit the caller's buffer, and equal texts come from equal tuples. -/
theorem relay_message_tight :
    (∀ (machine install nonce session data t : Bytes) (seq : UInt32),
      relayMessage machine install nonce session seq data = some t ↔
        RelayForm machine install nonce session ∧ t = relayText machine install nonce session seq data) ∧
    (∀ (machine install nonce session data t : Bytes) (seq : UInt32),
      relayMessage machine install nonce session seq data = some t →
        t.length < relayMessageMax ∧ (0 : UInt8) ∉ t ∧
          FieldSafe machine ∧ FieldSafe install ∧ FieldSafe nonce ∧ FieldSafe session) ∧
    (∀ (machine install nonce session data machine' install' nonce' session' data' t : Bytes) (seq seq' : UInt32),
      relayMessage machine install nonce session seq data = some t →
        relayMessage machine' install' nonce' session' seq' data' = some t →
          machine = machine' ∧ install = install' ∧ nonce = nonce' ∧ session = session' ∧ seq = seq' ∧
            sha256 data = sha256 data') := by
  refine ⟨fun _ _ _ _ _ _ _ => relayMessage_eq_some_iff, ?_, fun _ _ _ _ _ _ _ _ _ _ _ _ _ => relayMessage_inj⟩
  intro machine install nonce session data t seq h
  obtain ⟨hf, rfl⟩ := relayMessage_eq_some_iff.1 h
  have hlt := relayText_length_lt hf.machine.length hf.install.length hf.nonce.1 hf.session.1 seq data
  have hzero := zero_notMem_relayText hf.machine.safe hf.install.safe hf.nonce.safe hf.session.safe seq data
  exact ⟨hlt, hzero, hf.machine.safe, hf.install.safe, hf.nonce.safe, hf.session.safe⟩

/-- Well-formed fields are accepted with their canonical text. -/
theorem relay_message_tight_demo :
    relayMessage (ascii "M-4F7K2Q") (ascii "0F8E3C2A-1b4d-4e6f-8a9b-0c1d2e3f4a5b")
        (ascii "00112233445566778899aabbccddeeff") (ascii "ffeeddccbbaa99887766554433221100") 42 [] =
      some (relayText (ascii "M-4F7K2Q") (ascii "0F8E3C2A-1b4d-4e6f-8a9b-0c1d2e3f4a5b")
        (ascii "00112233445566778899aabbccddeeff") (ascii "ffeeddccbbaa99887766554433221100") 42 []) := by
  refine (relay_message_tight.1 _ _ _ _ _ _ _).2 ⟨⟨?_, ?_, ?_, ?_⟩, rfl⟩
  · exact (relayMachineValid_iff _).1 (by decide)
  · exact (relayInstallValid_iff _).1 (by decide)
  · exact (relayHexIdValid_iff _).1 (by decide)
  · exact (relayHexIdValid_iff _).1 (by decide)

end V9xRemote
