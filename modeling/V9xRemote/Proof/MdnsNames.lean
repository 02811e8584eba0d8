import V9xRemote.Spec.Mdns

/-!
# The names of an mDNS packet

`NameAt`: the labels of a name, by its bytes and its pointers. Reading a name ends whatever
the pointers do, since each jump is counted and each label fills the buffer.
-/

namespace V9xRemote

open Bytes

variable {packet name : Bytes} {place jumps : ℕ} {after : Option ℕ}

/-- Where a compression pointer points. -/
def pointerTarget (high low : UInt8) : ℕ := (high.toNat - 192) * 256 + low.toNat

/-- **A name of the packet**: from this place on, with so many jumps, these labels, and the end of the name in
place. -/
inductive NameAt (packet : Bytes) : ℕ → ℕ → List Bytes → ℕ → Prop
  | root {place : ℕ} (h : packet[place]? = some 0) : NameAt packet place 0 [] (place + 1)
  | label {place jumps : ℕ} {labels : List Bytes} {last : ℕ} {size : UInt8} (hsize : packet[place]? = some size)
    (hpos : size ≠ 0) (hshort : size.toNat < 64) (hinside : place + 1 + size.toNat ≤ packet.length)
    (hrest : NameAt packet (place + 1 + size.toNat) jumps labels last) :
    NameAt packet place jumps ((packet.drop (place + 1)).take size.toNat :: labels) last
  | pointer {place jumps : ℕ} {labels : List Bytes} {later : ℕ} {high low : UInt8} (hhigh : packet[place]? = some high)
    (hpointer : 192 ≤ high.toNat) (hlow : packet[place + 1]? = some low)
    (hrest : NameAt packet (pointerTarget high low) jumps labels later) :
    NameAt packet place (jumps + 1) labels (place + 2)

theorem sizedLabel_length {size : ℕ} (h : place + 1 + size ≤ packet.length) :
    ((packet.drop (place + 1)).take size).length = size := by
  rw [List.length_take, List.length_drop]
  omega

/-- A name at a zero byte is the root's. -/
theorem NameAt.at_root {labels : List Bytes} {last : ℕ} (h : NameAt packet place jumps labels last)
    (hzero : packet[place]? = some 0) : jumps = 0 ∧ labels = [] ∧ last = place + 1 := by
  cases h with
  | root => exact ⟨rfl, rfl, rfl⟩
  | label hsize hpos =>
    rw [hzero] at hsize
    exact absurd (Option.some.inj hsize).symm hpos
  | pointer hhigh hpointer =>
    rw [hzero] at hhigh
    obtain rfl := Option.some.inj hhigh
    exact absurd hpointer (by decide)

/-- A name at a size is the label of that size and what is behind it. -/
theorem NameAt.at_label {labels : List Bytes} {last : ℕ} {size : UInt8} (h : NameAt packet place jumps labels last)
    (hsize : packet[place]? = some size) (hpos : size ≠ 0) (hshort : size.toNat < 192) :
    size.toNat < 64 ∧ place + 1 + size.toNat ≤ packet.length ∧
      ∃ rest, labels = (packet.drop (place + 1)).take size.toNat :: rest ∧
        NameAt packet (place + 1 + size.toNat) jumps rest last := by
  cases h with
  | root hzero =>
    rw [hsize] at hzero
    exact absurd (Option.some.inj hzero) hpos
  | label hsize' hpos' hlabel hinside hrest =>
    rw [hsize] at hsize'
    obtain rfl := Option.some.inj hsize'
    exact ⟨hlabel, hinside, _, rfl, hrest⟩
  | pointer hhigh hpointer =>
    rw [hsize] at hhigh
    obtain rfl := Option.some.inj hhigh
    omega

/-- A name at a pointer is the name where that points. -/
theorem NameAt.at_pointer {labels : List Bytes} {last : ℕ} {high : UInt8} (h : NameAt packet place jumps labels last)
    (hhigh : packet[place]? = some high) (hpointer : 192 ≤ high.toNat) :
    ∃ more low later, jumps = more + 1 ∧ packet[place + 1]? = some low ∧ last = place + 2 ∧
      NameAt packet (pointerTarget high low) more labels later := by
  cases h with
  | root hzero =>
    rw [hhigh] at hzero
    obtain rfl := Option.some.inj hzero
    exact absurd hpointer (by decide)
  | label hsize hpos hlabel =>
    rw [hhigh] at hsize
    obtain rfl := Option.some.inj hsize
    omega
  | pointer hhigh' hpointer' hlow hrest =>
    rw [hhigh] at hhigh'
    obtain rfl := Option.some.inj hhigh'
    exact ⟨_, _, _, rfl, hlow, rfl, hrest⟩

/-- There is one name at a place. -/
theorem NameAt.unique {jumps' : ℕ} {labels labels' : List Bytes} {last last' : ℕ}
    (h : NameAt packet place jumps labels last) (h' : NameAt packet place jumps' labels' last') :
    jumps = jumps' ∧ labels = labels' ∧ last = last' := by
  induction h generalizing jumps' labels' last' with
  | root hzero =>
    obtain ⟨rfl, rfl, rfl⟩ := h'.at_root hzero
    exact ⟨rfl, rfl, rfl⟩
  | label hsize hpos hshort hinside hrest ih =>
    obtain ⟨-, -, rest, rfl, hrest'⟩ := h'.at_label hsize hpos (by omega)
    obtain ⟨rfl, rfl, rfl⟩ := ih hrest'
    exact ⟨rfl, rfl, rfl⟩
  | pointer hhigh hpointer hlow hrest ih =>
    obtain ⟨more, low, later, rfl, hlow', rfl, hrest'⟩ := h'.at_pointer hhigh hpointer
    rw [hlow] at hlow'
    obtain rfl := Option.some.inj hlow'
    obtain ⟨rfl, rfl, -⟩ := ih hrest'
    exact ⟨rfl, rfl, rfl⟩

/-- No label of a name is empty. -/
theorem NameAt.nonempty {labels : List Bytes} {last : ℕ} (h : NameAt packet place jumps labels last) :
    ∀ label ∈ labels, label ≠ [] := by
  induction h with
  | root => exact fun label h => absurd h List.not_mem_nil
  | @label place jumps labels last size hsize hpos hshort hinside hrest ih =>
    intro l hl
    rcases List.mem_cons.1 hl with rfl | hl
    · apply List.ne_nil_of_length_pos
      have hnat : size.toNat ≠ 0 := fun hzero => hpos (UInt8.toNat_inj.1 hzero)
      rw [sizedLabel_length hinside]
      omega
    · exact ih l hl
  | pointer hhigh hpointer hlow hrest ih => exact ih

/-! ## Dotted text -/

/-- A label behind a text. -/
def dotAdd (text label : Bytes) : Bytes := (if text.length ≠ 0 then text ++ [46] else text) ++ label

/-- Labels behind a text. -/
def dotLabelsFrom (text : Bytes) (labels : List Bytes) : Bytes := labels.foldl dotAdd text

/-- A label behind a text has its dot, unless it is the first. -/
theorem dotAdd_length (text label : Bytes) :
    (dotAdd text label).length = text.length + (if text.length = 0 then 0 else 1) + label.length := by
  rw [dotAdd, List.length_append]
  by_cases hempty : text.length = 0
  · rw [if_neg (not_not.2 hempty), if_pos hempty, Nat.add_zero]
  · rw [if_pos hempty, if_neg hempty, List.length_append, List.length_singleton]

theorem dotAdd_length_le (text label : Bytes) : text.length + label.length ≤ (dotAdd text label).length := by
  rw [dotAdd_length]
  omega

theorem dotLabelsFrom_length_le (text : Bytes) (labels : List Bytes) :
    text.length ≤ (dotLabelsFrom text labels).length := by
  induction labels generalizing text with
  | nil => exact le_rfl
  | cons label labels ih =>
    have hstep := dotAdd_length_le text label
    have hrest := ih (dotAdd text label)
    rw [dotLabelsFrom, List.foldl_cons, ← dotLabelsFrom]
    omega

/-! ## One round of the reading -/

theorem byte_some {i : ℕ} {b : UInt8} (h : packet[i]? = some b) : mdnsByte packet i = .ok b.toNat := by
  rw [mdnsByte, h]

theorem namePut_room {ch : UInt8} (h : name.length < mdnsNameMax) : mdnsNamePut name ch = .ok (name ++ [ch]) := if_pos h

theorem copyLabel_eq (label place : ℕ) (name : Bytes) (hinside : place + label ≤ packet.length)
    (hroom : name.length + label ≤ mdnsNameMax) :
    mdnsCopyLabel packet label place name = .ok (name ++ (packet.drop place).take label) := by
  induction label generalizing place name with
  | zero =>
    rw [mdnsCopyLabel, List.take_zero, List.append_nil]
  | succ label ih =>
    have hlt : place < packet.length := by omega
    have hput : mdnsNamePut name packet[place] = .ok (name ++ [packet[place]]) := namePut_room (by omega)
    rw [mdnsCopyLabel, byte_some (List.getElem?_eq_getElem hlt)]
    simp only [bind, Except.bind, UInt8.ofNat_toNat, hput]
    rw [ih (place + 1) _ (by omega) (by rw [List.length_append, List.length_singleton]; omega),
      List.drop_eq_getElem_cons hlt, List.take_succ_cons, List.append_assoc, List.singleton_append]

/-- The two high bits of a length. -/
theorem size_bits : (List.range 256).all fun n =>
    (n &&& 0xc0 == 0xc0) == decide (192 ≤ n) && (n &&& 0xc0 == 0) == decide (n < 64) := by decide +kernel

theorem size_pointer (b : UInt8) : b.toNat &&& 0xc0 = 0xc0 ↔ 192 ≤ b.toNat := by
  have hall := List.all_eq_true.1 size_bits b.toNat (List.mem_range.2 b.toNat_lt)
  simp only [Bool.and_eq_true, beq_iff_eq] at hall
  rw [← beq_iff_eq, hall.1, decide_eq_true_eq]

theorem size_label (b : UInt8) : b.toNat &&& 0xc0 = 0 ↔ b.toNat < 64 := by
  have hall := List.all_eq_true.1 size_bits b.toNat (List.mem_range.2 b.toNat_lt)
  simp only [Bool.and_eq_true, beq_iff_eq] at hall
  rw [← beq_iff_eq, hall.2, decide_eq_true_eq]

theorem pointerTarget_eq {high : UInt8} (low : UInt8) (h : 192 ≤ high.toNat) :
    ((high.toNat &&& 0x3f) <<< 8) ||| low.toNat = pointerTarget high low := by
  have hmod : high.toNat &&& 0x3f = high.toNat % 64 := Nat.and_two_pow_sub_one_eq_mod high.toNat 6
  have hhigh := high.toNat_lt
  have hlow := low.toNat_lt
  rw [← Nat.shiftLeft_add_eq_or_of_lt hlow, hmod, Nat.shiftLeft_eq, pointerTarget]
  omega

theorem readFrom_outside (h : packet.length ≤ place) : mdnsReadFrom packet place jumps after name = .error .refused := by
  rw [mdnsReadFrom, if_pos h]
  rfl

theorem readFrom_root (h : packet[place]? = some 0) (hname : name.length < mdnsNameMax) :
    mdnsReadFrom packet place jumps after name = .ok (name, after.getD (place + 1)) := by
  have hplace : place < packet.length := (List.getElem?_eq_some_iff.1 h).1
  rw [mdnsReadFrom, if_neg (by omega), byte_some h]
  simp only [bind, Except.bind, UInt8.toNat_zero, if_true, if_pos hname]
  rfl

theorem readFrom_pointer {high low : UInt8} (hhigh : packet[place]? = some high) (hpointer : 192 ≤ high.toNat)
    (hlow : packet[place + 1]? = some low) (hjumps : jumps + 1 ≤ 16) :
    mdnsReadFrom packet place jumps after name =
      mdnsReadFrom packet (pointerTarget high low) (jumps + 1) (some (after.getD (place + 2))) name := by
  have hplace : place + 1 < packet.length := (List.getElem?_eq_some_iff.1 hlow).1
  have hzero : high.toNat ≠ 0 := by omega
  rw [mdnsReadFrom, if_neg (by omega), byte_some hhigh]
  simp only [bind, Except.bind]
  rw [if_neg hzero, if_pos ((size_pointer high).2 hpointer), dif_neg (by omega), byte_some hlow]
  dsimp only
  rw [pointerTarget_eq low hpointer]

theorem readFrom_pointer_refused {high : UInt8} (hhigh : packet[place]? = some high) (hpointer : 192 ≤ high.toNat)
    (hbad : packet.length ≤ place + 1 ∨ 16 < jumps + 1) :
    mdnsReadFrom packet place jumps after name = .error .refused := by
  have hplace : place < packet.length := (List.getElem?_eq_some_iff.1 hhigh).1
  have hzero : high.toNat ≠ 0 := by omega
  rw [mdnsReadFrom, if_neg (by omega), byte_some hhigh]
  simp only [bind, Except.bind]
  rw [if_neg hzero, if_pos ((size_pointer high).2 hpointer), dif_pos hbad]
  rfl

theorem readFrom_size_refused {size : UInt8} (hsize : packet[place]? = some size) (hpos : size ≠ 0)
    (hshort : size.toNat < 192) (hbad : 64 ≤ size.toNat ∨ packet.length < place + 1 + size.toNat ∨
      mdnsNameMax ≤ name.length + size.toNat + 1) :
    mdnsReadFrom packet place jumps after name = .error .refused := by
  have hplace : place < packet.length := (List.getElem?_eq_some_iff.1 hsize).1
  have hzero : size.toNat ≠ 0 := fun hzero => hpos (UInt8.toNat_inj.1 hzero)
  rw [mdnsReadFrom, if_neg (by omega), byte_some hsize]
  simp only [bind, Except.bind]
  rw [if_neg hzero, if_neg (mt (size_pointer size).1 (by omega))]
  by_cases hlabel : size.toNat &&& 0xc0 ≠ 0 ∨ place + 1 + size.toNat > packet.length
  · rw [if_pos hlabel]
    rfl
  · rw [if_neg hlabel, dif_pos ?_]
    · rfl
    · rw [ne_eq, size_label] at hlabel
      omega

theorem readFrom_label {size : UInt8} (hsize : packet[place]? = some size) (hpos : size ≠ 0) (hshort : size.toNat < 64)
    (hinside : place + 1 + size.toNat ≤ packet.length) (hroom : name.length + size.toNat + 1 < mdnsNameMax) :
    mdnsReadFrom packet place jumps after name = mdnsReadFrom packet (place + 1 + size.toNat) jumps after
      (dotAdd name ((packet.drop (place + 1)).take size.toNat)) := by
  have hplace : place < packet.length := (List.getElem?_eq_some_iff.1 hsize).1
  have hzero : size.toNat ≠ 0 := fun hzero => hpos (UInt8.toNat_inj.1 hzero)
  have hlabel := sizedLabel_length hinside
  have hgrows := dotAdd_length_le name ((packet.drop (place + 1)).take size.toNat)
  have hcopy : mdnsCopyLabel packet size.toNat (place + 1) (if name.length ≠ 0 then name ++ [46] else name) =
      .ok (dotAdd name ((packet.drop (place + 1)).take size.toNat)) := by
    apply copyLabel_eq _ _ _ hinside
    split_ifs
    · rw [List.length_append, List.length_singleton]
      omega
    · omega
  rw [mdnsReadFrom, if_neg (by omega), byte_some hsize]
  simp only [bind, Except.bind]
  have hgood : ¬(size.toNat &&& 0xc0 ≠ 0 ∨ place + 1 + size.toNat > packet.length) := by
    rw [ne_eq, size_label]
    omega
  rw [if_neg hzero, if_neg (mt (size_pointer size).1 (by omega)), if_neg hgood, dif_neg (by omega)]
  by_cases hempty : name.length ≠ 0
  · rw [if_pos hempty] at hcopy
    rw [if_pos hempty, namePut_room (by omega)]
    dsimp only
    rw [hcopy]
    dsimp only
    rw [dif_pos (by omega)]
  · rw [if_neg hempty] at hcopy
    rw [if_neg hempty]
    simp only [pure, Except.pure]
    rw [hcopy]
    dsimp only
    rw [dif_pos (by omega)]

/-! ## The whole name -/

/-- A name that the reading takes: it has no more jumps left than it makes, and its text fits. -/
def NameFits (jumps more : ℕ) (text : Bytes) : Prop := jumps + more ≤ 16 ∧ text.length < mdnsNameMax

/-- What reading a name comes to: its text and its end, or refused where there is no name that fits. -/
def NameRead (packet : Bytes) (place jumps : ℕ) (after : Option ℕ) (name : Bytes) : Prop :=
  (∃ more labels last, NameAt packet place more labels last ∧ NameFits jumps more (dotLabelsFrom name labels) ∧
    mdnsReadFrom packet place jumps after name = .ok (dotLabelsFrom name labels, after.getD last)) ∨
  (mdnsReadFrom packet place jumps after name = .error .refused ∧
    ∀ more labels last, NameAt packet place more labels last → ¬NameFits jumps more (dotLabelsFrom name labels))

theorem nameRead_outside (h : packet.length ≤ place) : NameRead packet place jumps after name := by
  refine Or.inr ⟨readFrom_outside h, ?_⟩
  intro more labels last hat
  have hnone : packet[place]? = none := List.getElem?_eq_none h
  cases hat with
  | root h | label h | pointer h =>
    rw [hnone] at h
    exact absurd h (by simp)

/-- **A label**: the reading goes on behind it, and the text grows. -/
theorem nameRead_label {size : UInt8} (hsize : packet[place]? = some size) (hpos : size ≠ 0) (hlabel : size.toNat < 64)
    (hinside : place + 1 + size.toNat ≤ packet.length) (hroom : name.length + size.toNat + 1 < mdnsNameMax)
    (h : NameRead packet (place + 1 + size.toNat) jumps after
      (dotAdd name ((packet.drop (place + 1)).take size.toNat))) : NameRead packet place jumps after name := by
  unfold NameRead
  rw [readFrom_label hsize hpos hlabel hinside hroom]
  rcases h with ⟨more, labels, last, hat, hfits, hread⟩ | ⟨hread, hnone⟩
  · exact Or.inl ⟨more, _ :: labels, last, .label hsize hpos hlabel hinside hat, hfits, hread⟩
  · refine Or.inr ⟨hread, ?_⟩
    intro more labels last hat
    obtain ⟨-, -, rest, rfl, hrest⟩ := hat.at_label hsize hpos (by omega)
    exact hnone _ _ _ hrest

/-- A size of no label that fits. -/
theorem nameRead_size {size : UInt8} (hsize : packet[place]? = some size) (hpos : size ≠ 0) (hshort : size.toNat < 192)
    (hbad : ¬(size.toNat < 64 ∧ place + 1 + size.toNat ≤ packet.length ∧ name.length + size.toNat + 1 < mdnsNameMax)) :
    NameRead packet place jumps after name := by
  refine Or.inr ⟨readFrom_size_refused hsize hpos hshort (by omega), ?_⟩
  rintro more labels last hat ⟨-, htext⟩
  obtain ⟨hlabel, hinside, rest, rfl, -⟩ := hat.at_label hsize hpos hshort
  -- the text has the room for the dot, or has only this label, which is short
  have hgrown : (dotAdd name ((packet.drop (place + 1)).take size.toNat)).length < mdnsNameMax :=
    (dotLabelsFrom_length_le _ rest).trans_lt htext
  rw [dotAdd_length, sizedLabel_length hinside] at hgrown
  have hmax : mdnsNameMax = 256 := rfl
  split_ifs at hgrown <;> omega

/-- **A pointer**: the reading goes on where it points, with one jump fewer. -/
theorem nameRead_pointer {high low : UInt8} (hhigh : packet[place]? = some high) (hpointer : 192 ≤ high.toNat)
    (hlow : packet[place + 1]? = some low) (hleft : jumps + 1 ≤ 16)
    (h : NameRead packet (pointerTarget high low) (jumps + 1) (some (after.getD (place + 2))) name) :
    NameRead packet place jumps after name := by
  unfold NameRead
  rw [readFrom_pointer hhigh hpointer hlow hleft]
  rcases h with ⟨more, labels, last, hat, ⟨hcount, htext⟩, hread⟩ | ⟨hread, hnone⟩
  · exact Or.inl ⟨more + 1, labels, place + 2, .pointer hhigh hpointer hlow hat, ⟨by omega, htext⟩, hread⟩
  · refine Or.inr ⟨hread, ?_⟩
    rintro _ labels last hat ⟨hcount, htext⟩
    obtain ⟨more, low', later, rfl, hlow', rfl, hrest⟩ := hat.at_pointer hhigh hpointer
    rw [hlow] at hlow'
    obtain rfl := Option.some.inj hlow'
    exact hnone _ _ _ hrest ⟨by omega, htext⟩

/-- A pointer that is cut off, or is one too many. -/
theorem nameRead_pointer_bad {high : UInt8} (hhigh : packet[place]? = some high) (hpointer : 192 ≤ high.toNat)
    (hbad : ¬(place + 1 < packet.length ∧ jumps + 1 ≤ 16)) : NameRead packet place jumps after name := by
  refine Or.inr ⟨readFrom_pointer_refused hhigh hpointer (by omega), ?_⟩
  rintro _ labels last hat ⟨hcount, -⟩
  obtain ⟨more, low, later, rfl, hlow, rfl, hrest⟩ := hat.at_pointer hhigh hpointer
  have hinside : place + 1 < packet.length := (List.getElem?_eq_some_iff.1 hlow).1
  omega

/-- **Reading a name ends**, whatever its pointers do: a jump leaves fewer of them, a label less room. -/
theorem readFrom_spec (hname : name.length < mdnsNameMax) (hjumps : jumps ≤ 16) :
    NameRead packet place jumps after name := by
  induction hn : (16 - jumps) * (mdnsNameMax + 1) + (mdnsNameMax - name.length) using Nat.strong_induction_on
    generalizing place jumps after name with
  | _ n ih =>
    rcases Nat.lt_or_ge place packet.length with hplace | hplace
    · obtain ⟨size, hsize⟩ : ∃ size, packet[place]? = some size := ⟨_, List.getElem?_eq_getElem hplace⟩
      by_cases hroot : size = 0
      · subst hroot
        left
        exact ⟨0, [], place + 1, .root hsize, ⟨hjumps, hname⟩, readFrom_root hsize hname⟩
      rcases Nat.lt_or_ge size.toNat 192 with hshort | hpointer
      · by_cases hgood : size.toNat < 64 ∧ place + 1 + size.toNat ≤ packet.length ∧
            name.length + size.toNat + 1 < mdnsNameMax
        · obtain ⟨hlabel, hinside, hroom⟩ := hgood
          have hpos : size.toNat ≠ 0 := fun hzero => hroot (UInt8.toNat_inj.1 hzero)
          have hgrown := dotAdd_length name ((packet.drop (place + 1)).take size.toNat)
          rw [sizedLabel_length hinside] at hgrown
          apply nameRead_label hsize hroot hlabel hinside hroom
          apply ih _ ?_ ?_ hjumps rfl
          · split_ifs at hgrown <;> omega
          · split_ifs at hgrown <;> omega
        · exact nameRead_size hsize hroot hshort hgood
      · by_cases hgood : place + 1 < packet.length ∧ jumps + 1 ≤ 16
        · obtain ⟨hinside, hleft⟩ := hgood
          have hproduct : (16 - (jumps + 1)) * (mdnsNameMax + 1) + (mdnsNameMax + 1) =
              (16 - jumps) * (mdnsNameMax + 1) := by
            rw [← Nat.succ_mul]
            congr 1
            omega
          apply nameRead_pointer hsize hpointer (List.getElem?_eq_getElem hinside) hleft
          apply ih _ ?_ hname hleft rfl
          omega
        · exact nameRead_pointer_bad hsize hpointer hgood
    · exact nameRead_outside hplace

end V9xRemote
