import Mathlib.Algebra.Order.BigOperators.Group.List
import V9xRemote.Spec.McpDiscovery
import V9xRemote.Proof.Lists
import V9xRemote.Proof.Mdns

/-!
# mDNS announcements decode to what was announced

The host takes each name and each record off the front of what is left of the packet. A
response of what the agent describes fits the packet, and its records are read back.
-/

namespace V9xRemote

open Bytes Cursor

/-- A text whose bytes are its code points. -/
def pyText (s : Bytes) : PyStr := s.map UInt8.toNat

/-! ## Words -/

variable {packet rest : Bytes} {offset : ℕ}

theorem readBe16_be16 {value : ℕ} (h : value < 65536) (rest : Bytes) : readBe16 (be16 value ++ rest) 0 = value := by
  have hhigh : (UInt8.ofNat (value / 256)).toNat = value / 256 := UInt8.toNat_ofNat_of_lt' (by
    show value / 256 < 256
    omega)
  have hlow : (UInt8.ofNat value).toNat = value % 256 := UInt8.toNat_ofNat'
  have hread : readBe16 (be16 value ++ rest) 0 = (UInt8.ofNat (value / 256)).toNat * 256 + (UInt8.ofNat value).toNat := rfl
  rw [hread, hhigh, hlow]
  omega

theorem readBe32_be32 {value : ℕ} (h : value < 2 ^ 32) (rest : Bytes) : readBe32 (be32 value ++ rest) 0 = value := by
  have hhigh : readBe16 (be16 (value / 65536 % 65536) ++ (be16 (value % 65536) ++ rest)) 0 = value / 65536 % 65536 :=
    readBe16_be16 (Nat.mod_lt _ (by omega)) _
  have hlow : readBe16 (be16 (value % 65536) ++ rest) 0 = value % 65536 := readBe16_be16 (Nat.mod_lt _ (by omega)) rest
  have hread : readBe32 (be32 value ++ rest) 0 =
      readBe16 (be16 (value / 65536 % 65536) ++ (be16 (value % 65536) ++ rest)) 0 * 65536 +
        readBe16 (be16 (value % 65536) ++ rest) 0 := rfl
  rw [hread, hhigh, hlow]
  omega

/-! ## Names -/

theorem labelBytes_length (label : Bytes) : (labelBytes label).length = 1 + label.length := by
  rw [labelBytes, List.length_cons, Nat.add_comm]

/-- What stands at a label. -/
structure LabelAt (packet : Bytes) (offset : ℕ) (label rest : Bytes) : Prop where
  more : offset < packet.length
  length : (packet.at' offset).toNat = label.length
  room : offset + 1 + label.length ≤ packet.length
  text : (packet.drop (offset + 1)).take label.length = label
  next : At packet (offset + 1 + label.length) rest

theorem labelAt {label : Bytes} (h : At packet offset (labelBytes label ++ rest)) (hshort : label.length ≤ 255) :
    LabelAt packet offset label rest := by
  have hcons : At packet offset ([UInt8.ofNat label.length] ++ (label ++ rest)) := h
  have hfirst : packet.at' offset = UInt8.ofNat label.length := h.at' 0
  exact
    { more := h.more (List.cons_ne_nil _ _)
      length := by
        rw [hfirst]
        exact UInt8.toNat_ofNat_of_lt' (by show label.length < 256; omega)
      room := hcons.next.room
      text := hcons.next.take
      next := hcons.next.next }

/-- **The labels of a name are read back.** -/
theorem mdnsLabels_at {labels : List Bytes} (h : At packet offset (nameBytes labels ++ rest))
    (hlabels : ∀ l ∈ labels, LabelOk l) :
    mdnsLabels packet 0 offset none = .ok (labels, offset + (nameBytes labels).length) := by
  induction labels generalizing offset with
  | nil =>
    have hmore : ¬offset ≥ packet.length := not_le.2 (h.more (by exact List.cons_ne_nil _ _))
    have hzero : packet.at' offset = 0 := h.at' 0
    rw [mdnsLabels, if_neg hmore, hzero]
    rfl
  | cons label labels ih =>
    obtain ⟨hpos, hshort⟩ := hlabels label List.mem_cons_self
    have hname : nameBytes (label :: labels) = labelBytes label ++ nameBytes labels := by
      rw [nameBytes, nameBytes, List.flatMap_cons, List.append_assoc]
    rw [hname, List.append_assoc] at h
    have hat := labelAt h (by omega)
    have hrest := ih hat.next fun l hl => hlabels l (List.mem_cons_of_mem _ hl)
    have hwhole : ¬(decide (label.length ≥ 64) || decide (offset + 1 + label.length > packet.length)) = true := by
      have := hat.room
      rw [Bool.or_eq_true, decide_eq_true_eq, decide_eq_true_eq]
      omega
    rw [mdnsLabels, if_neg (not_le.2 hat.more)]
    dsimp only
    rw [hat.length, if_neg (by omega), if_neg (by omega), if_neg hwhole, hrest, hat.text, hname, List.length_append,
      labelBytes_length, ← Nat.add_assoc, ← Nat.add_assoc]

/-- The text of a name. -/
def nameText (labels : List Bytes) : PyStr := ((labels.map asciiReplace).intersperse [46]).flatten

theorem dnsReadName_at {labels : List Bytes} (h : At packet offset (nameBytes labels ++ rest))
    (hlabels : ∀ l ∈ labels, LabelOk l) :
    dnsReadName packet offset = .ok (nameText labels, offset + (nameBytes labels).length) := by
  unfold dnsReadName
  rw [mdnsLabels_at h hlabels]
  rfl

/-! ## Texts -/

/-- **The texts are read back.** -/
theorem mdnsTexts_at {texts : List Bytes} (h : At packet offset (texts.flatMap labelBytes))
    (htexts : ∀ text ∈ texts, 0 < text.length ∧ text.length ≤ 255) : mdnsTexts packet offset = .ok texts := by
  induction texts generalizing offset with
  | nil => rw [mdnsTexts, if_pos (Nat.le_of_eq h.done.symm)]
  | cons text texts ih =>
    obtain ⟨hpos, hshort⟩ := htexts text List.mem_cons_self
    rw [List.flatMap_cons] at h
    have hat := labelAt h hshort
    have hrest := ih hat.next fun t ht => htexts t (List.mem_cons_of_mem _ ht)
    rw [mdnsTexts, if_neg (not_le.2 hat.more)]
    dsimp only
    rw [hat.length, if_neg (not_lt.2 hat.room), hrest, hat.text]
    dsimp only
    rw [if_neg (by omega)]

/-! ## Records -/

variable {service : MdnsService}

/-- The name that a record is about. -/
def MdnsWant.name (service : MdnsService) : MdnsWant → PyStr
  | .service => pyText mdnsServiceName
  | .enum => pyText mdnsEnumName
  | .srv => pyText (service.instanceName ++ ascii "." ++ mdnsServiceName)
  | .txt => pyText (service.instanceName ++ ascii "." ++ mdnsServiceName)
  | .a => pyText (service.host ++ ascii ".local")

/-- What a record announces. -/
def MdnsWant.read (service : MdnsService) : MdnsWant → DnsData
  | .service => .pointer (pyText (service.instanceName ++ ascii "." ++ mdnsServiceName))
  | .enum => .pointer (pyText mdnsServiceName)
  | .srv => .service 0 0 service.port.toNat (pyText (service.host ++ ascii ".local"))
  | .txt => .texts (service.txt.map asciiReplace)
  | .a => .address (inetNtoa service.address)

/-- **A record as the host should see it.** -/
def announced (service : MdnsService) (legacy goodbye : Bool) (which : MdnsWant) : DnsRecord where
  name := which.name service
  type := which.type
  klass := 1
  cacheFlush := (which = .srv ∨ which = .txt ∨ which = .a) ∧ !legacy
  ttl := mdnsTtl which.ttl legacy goodbye
  data := which.read service

/-- Names without a byte above 127. -/
structure MdnsService.Plain (service : MdnsService) : Prop where
  instanceName : ∀ c ∈ service.instanceName, c < 128
  host : ∀ c ∈ service.host, c < 128

theorem asciiReplace_plain {text : Bytes} (h : ∀ c ∈ text, c < 128) : asciiReplace text = pyText text :=
  List.map_congr_left fun c hc => if_pos (h c hc)

theorem nameText_service : nameText serviceLabels = pyText mdnsServiceName := by decide

theorem nameText_enum : nameText enumLabels = pyText mdnsEnumName := by decide

theorem nameText_instance (h : service.Plain) :
    nameText (service.instanceName :: serviceLabels) = pyText (service.instanceName ++ ascii "." ++ mdnsServiceName) := by
  have hcons : nameText (service.instanceName :: serviceLabels) =
      asciiReplace service.instanceName ++ 46 :: nameText serviceLabels := rfl
  rw [hcons, nameText_service, asciiReplace_plain h.instanceName, pyText, pyText, pyText, List.map_append, List.map_append,
    List.append_assoc]
  rfl

theorem nameText_host (h : service.Plain) :
    nameText [service.host, ascii "local"] = pyText (service.host ++ ascii ".local") := by
  have hcons : nameText [service.host, ascii "local"] = asciiReplace service.host ++ pyText (ascii ".local") := rfl
  rw [hcons, asciiReplace_plain h.host, pyText, pyText, pyText, List.map_append]

theorem nameText_owner (h : service.Plain) (which : MdnsWant) : nameText (which.owner service) = which.name service := by
  cases which with
  | service => exact nameText_service
  | enum => exact nameText_enum
  | srv => exact nameText_instance h
  | txt => exact nameText_instance h
  | a => exact nameText_host h

theorem serviceLabels_labels : ∀ l ∈ serviceLabels, LabelOk l := by
  unfold LabelOk
  decide

theorem instanceLabels_labels (h : service.Good) : ∀ l ∈ service.instanceName :: serviceLabels, LabelOk l :=
  List.forall_mem_cons.2 ⟨h.instanceName, serviceLabels_labels⟩

theorem hostLabels_labels (h : service.Good) : ∀ l ∈ [service.host, ascii "local"], LabelOk l :=
  List.forall_mem_cons.2 ⟨h.host, localLabels_ok⟩

theorem owner_labels (h : service.Good) (which : MdnsWant) : ∀ l ∈ which.owner service, LabelOk l := by
  cases which with
  | service => exact serviceLabels_labels
  | enum => exact enumLabels_ok
  | srv => exact instanceLabels_labels h
  | txt => exact instanceLabels_labels h
  | a => exact hostLabels_labels h

/-- **The data of a record is read back.** -/
theorem dnsData_at (h : service.Good) (hplain : service.Plain) {which : MdnsWant}
    (hat : At packet offset (which.data service ++ rest)) :
    dnsData packet (which.data service) which.type offset (which.data service).length = .ok (which.read service) := by
  unfold dnsData
  cases which with
  | service =>
    have hname := dnsReadName_at hat (instanceLabels_labels h)
    rw [nameText_instance hplain] at hname
    rw [if_neg (by decide), if_pos (by rfl), hname]
    rfl
  | enum =>
    have hname := dnsReadName_at hat serviceLabels_labels
    rw [nameText_service] at hname
    rw [if_neg (by decide), if_pos (by rfl), hname]
    rfl
  | srv =>
    have hport := service.port.toNat_lt
    have hhead : At packet offset ((be16 0 ++ (be16 0 ++ be16 service.port.toNat)) ++
        (nameBytes [service.host, ascii "local"] ++ rest)) := hat
    have hname := dnsReadName_at hhead.next (hostLabels_labels h)
    rw [nameText_host hplain] at hname
    have hunpack := unpackFrom_at hhead
    have hsix : (be16 0 ++ (be16 0 ++ be16 service.port.toNat)).length = 6 := rfl
    rw [hsix] at hname hunpack
    have hread : readBe16 (be16 0 ++ (be16 0 ++ be16 service.port.toNat)) 4 = service.port.toNat :=
      readBe16_be16 (by omega) []
    have hlong : ¬(MdnsWant.data service .srv).length < 7 := by
      have hsplit : (MdnsWant.data service .srv).length =
          (nameBytes [service.host, ascii "local"]).length + 6 := rfl
      rw [hsplit, nameBytes, List.length_append, List.length_singleton]
      omega
    rw [if_neg (by decide), if_neg (by decide), if_pos (by rfl), if_neg hlong]
    have hpriority : readBe16 (be16 0 ++ (be16 0 ++ be16 service.port.toNat)) 0 = 0 :=
      readBe16_be16 (by omega) (be16 0 ++ be16 service.port.toNat)
    have hweight : readBe16 (be16 0 ++ (be16 0 ++ be16 service.port.toNat)) 2 = 0 :=
      readBe16_be16 (by omega) (be16 service.port.toNat)
    simp only [bind, Except.bind, pure, Except.pure, hunpack, hname, hread, hpriority, hweight, MdnsWant.read]
  | txt =>
    have htexts := mdnsTexts_at (at_start _) h.txt
    rw [if_neg (by decide), if_neg (by decide), if_neg (by decide), if_pos (by rfl)]
    unfold MdnsWant.data
    rw [htexts]
    rfl
  | a =>
    have hfour : (MdnsWant.data service .a).length = 4 := h.address
    rw [if_pos (by rfl), if_neg (not_not.2 hfour)]
    rfl

theorem klass_mod (which : MdnsWant) (legacy : Bool) : which.klass legacy % 0x8000 = 1 := by
  cases which <;> cases legacy <;> rfl

theorem klass_flush (which : MdnsWant) (legacy : Bool) : decide (which.klass legacy ≥ 0x8000) =
    decide ((which = .srv ∨ which = .txt ∨ which = .a) ∧ (!legacy) = true) := by
  cases which <;> cases legacy <;> rfl

/-- **A record is read back.** -/
theorem dnsRecord_at (h : service.Good) (hplain : service.Plain) {legacy goodbye : Bool} {which : MdnsWant}
    (hshort : (which.data service).length < 65536) (hat : At packet offset (recordBytes service legacy goodbye which ++ rest)) :
    dnsRecord packet offset =
      .ok (announced service legacy goodbye which, offset + (recordBytes service legacy goodbye which).length) := by
  have hklass : which.klass legacy < 65536 := by cases which <;> cases legacy <;> decide
  have htype : which.type < 65536 := by cases which <;> decide
  have httl : mdnsTtl which.ttl legacy goodbye < 2 ^ 32 := by
    cases which <;> cases legacy <;> cases goodbye <;> decide
  unfold recordBytes at hat ⊢
  rw [List.append_assoc] at hat
  have hname := dnsReadName_at hat (owner_labels h which)
  rw [nameText_owner hplain] at hname
  have hbehind := hat.next
  have hlength : ∀ data : Bytes, (be16 which.type ++ (be16 (which.klass legacy) ++ (be32 (mdnsTtl which.ttl legacy goodbye) ++
      (be16 data.length ++ data)))).length = 10 + data.length := by
    intro data
    simp only [List.length_append, be16_length, be32_length]
    omega
  rw [List.length_append, hlength, ← Nat.add_assoc, ← Nat.add_assoc]
  generalize offset + (nameBytes (which.owner service)).length = place at hname hbehind ⊢
  -- the ten bytes before the data
  obtain ⟨head, hten, hword, hhead⟩ : ∃ head : Bytes, head.length = 10 ∧
      (readBe16 head 0 = which.type ∧ readBe16 head 2 = which.klass legacy ∧
        readBe32 head 4 = mdnsTtl which.ttl legacy goodbye ∧ readBe16 head 8 = (which.data service).length) ∧
      At packet place (head ++ (which.data service ++ rest)) := by
    refine ⟨be16 which.type ++ (be16 (which.klass legacy) ++ (be32 (mdnsTtl which.ttl legacy goodbye) ++
      be16 (which.data service).length)), rfl, ⟨readBe16_be16 htype _, ?_, ?_, readBe16_be16 hshort []⟩, ?_⟩
    · exact readBe16_be16 hklass (be32 (mdnsTtl which.ttl legacy goodbye) ++ be16 (which.data service).length)
    · exact readBe32_be32 httl (be16 (which.data service).length)
    simp only [List.append_assoc] at hbehind ⊢
    exact hbehind
  have hdata := hhead.next
  have hroom := hhead.room
  have hroom' := hdata.room
  have hunpack := unpackFrom_at hhead
  have htake := hdata.take
  rw [hten] at hdata hroom hroom' hunpack htake
  have hread := dnsData_at h hplain hdata
  obtain ⟨h0, h2, h4, h8⟩ := hword
  have hfits : ¬place + 10 > packet.length := by omega
  have hfits' : ¬place + 10 + (which.data service).length > packet.length := by omega
  unfold dnsRecord
  simp only [bind, Except.bind, pure, Except.pure, hname, hfits, hunpack, h0, h2, h4, h8, hfits', htake, hread,
    klass_mod, klass_flush, if_false]
  rfl

/-! ## Packets -/

theorem headerBytes_read {id answers additionals : ℕ} (hid : id < 65536) (hanswers : answers < 65536)
    (hadditionals : additionals < 65536) :
    readBe16 (headerBytes id answers additionals) 0 = id ∧ readBe16 (headerBytes id answers additionals) 2 = 0x8400 ∧
      readBe16 (headerBytes id answers additionals) 4 = 0 ∧ readBe16 (headerBytes id answers additionals) 6 = answers ∧
        readBe16 (headerBytes id answers additionals) 8 = 0 ∧
          readBe16 (headerBytes id answers additionals) 10 = additionals := by
  refine ⟨readBe16_be16 hid _, ?_, ?_, ?_, ?_, ?_⟩
  · exact readBe16_be16 (by omega) (be16 0 ++ (be16 answers ++ (be16 0 ++ be16 additionals)))
  · exact readBe16_be16 (by omega) (be16 answers ++ (be16 0 ++ be16 additionals))
  · exact readBe16_be16 hanswers (be16 0 ++ be16 additionals)
  · exact readBe16_be16 (by omega) (be16 additionals)
  · exact readBe16_be16 hadditionals []

theorem mdnsChosen_length (set : UInt32) : (mdnsChosen set).length ≤ 5 := List.length_filter_le _ _

/-- **A response is read back.** -/
theorem parseDnsPacket_response (h : service.Good) (hplain : service.Plain) (wants : UInt32) {id : ℕ}
    (legacy goodbye : Bool) (hid : id < 65536) (hshort : ∀ which : MdnsWant, (which.data service).length < 65536) :
    parseDnsPacket (responseBytes service wants id legacy goodbye) =
      .ok ⟨id, true, (mdnsChosen wants ++ mdnsChosen (mdnsExtra wants)).map (announced service legacy goodbye)⟩ := by
  have hanswers : (mdnsChosen wants).length < 65536 := Nat.lt_of_le_of_lt (mdnsChosen_length _) (by decide)
  have hadditionals : (mdnsChosen (mdnsExtra wants)).length < 65536 :=
    Nat.lt_of_le_of_lt (mdnsChosen_length _) (by decide)
  obtain ⟨h0, h2, h4, h6, h8, h10⟩ := headerBytes_read hid hanswers hadditionals
  have hbegin : At (responseBytes service wants id legacy goodbye) 0
      (headerBytes id (mdnsChosen wants).length (mdnsChosen (mdnsExtra wants)).length ++
        ((mdnsChosen wants ++ mdnsChosen (mdnsExtra wants)).flatMap (recordBytes service legacy goodbye) ++ [])) := by
    rw [List.flatMap_append, List.append_nil]
    exact at_start _
  generalize responseBytes service wants id legacy goodbye = packet at hbegin ⊢
  have hlength : (headerBytes id (mdnsChosen wants).length (mdnsChosen (mdnsExtra wants)).length).length = 12 := rfl
  have hunpack := unpackFrom_at hbegin
  have hroom := hbegin.room
  have hrecords := hbegin.next
  rw [hlength] at hunpack hroom hrecords
  rw [Nat.zero_add] at hroom hrecords
  have hparsed := parseEntries_at (recordBytes service legacy goodbye) (announced service legacy goodbye) hrecords
    fun which _ _ _ hat => dnsRecord_at h hplain (hshort which) hat
  rw [List.length_append] at hparsed
  have hnone : parseEntries (mdnsQuestion packet) 0 12 = .ok ([], 12) := rfl
  have hlong : ¬packet.length < 12 := not_lt.2 hroom
  unfold parseDnsPacket
  simp only [bind, Except.bind, pure, Except.pure, hlong, hunpack, h0, h2, h4, h6, h8, h10, hnone, Nat.add_zero, hparsed,
    if_false]
  rfl

/-! ## Room -/

/-- Texts that leave room for the rest of a response. -/
structure MdnsService.Small (service : MdnsService) : Prop where
  count : service.txt.length ≤ 6
  txt : ∀ text ∈ service.txt, text.length ≤ 63

/-- The longest a record is. -/
def MdnsWant.longest : MdnsWant → ℕ
  | .service => 121
  | .enum => 64
  | .srv => 175
  | .txt => 483
  | .a => 86

theorem texts_length {texts : List Bytes} (h : ∀ text ∈ texts, text.length ≤ 63) :
    (texts.flatMap labelBytes).length ≤ 64 * texts.length := by
  induction texts with
  | nil => exact le_rfl
  | cons text texts ih =>
    have hfirst := h text List.mem_cons_self
    have hrest := ih fun t ht => h t (List.mem_cons_of_mem _ ht)
    rw [List.flatMap_cons, List.length_append, labelBytes_length, List.length_cons]
    omega

theorem nameBytes_cons (label : Bytes) (labels : List Bytes) :
    (nameBytes (label :: labels)).length = 1 + label.length + (nameBytes labels).length := by
  rw [nameBytes, nameBytes, List.flatMap_cons, List.length_append, List.length_append, List.length_append,
    labelBytes_length, Nat.add_assoc]

theorem recordBytes_longest (h : service.Good) (hsmall : service.Small) (legacy goodbye : Bool) (which : MdnsWant) :
    (recordBytes service legacy goodbye which).length ≤ which.longest ∧ (which.data service).length < 65536 := by
  have hinstance := h.instanceName.2
  have hhost := h.host.2
  have htexts := texts_length hsmall.txt
  have hcount := hsmall.count
  have haddress := h.address
  have hservice : (nameBytes serviceLabels).length = 23 := rfl
  have henum : (nameBytes enumLabels).length = 30 := rfl
  have hlocal : (nameBytes [ascii "local"]).length = 7 := rfl
  unfold recordBytes
  simp only [List.length_append, be16_length, be32_length]
  cases which with
  | service =>
    simp only [MdnsWant.owner, MdnsWant.data, MdnsWant.longest, nameBytes_cons, hservice]
    omega
  | enum =>
    simp only [MdnsWant.owner, MdnsWant.data, MdnsWant.longest, hservice, henum]
    omega
  | srv =>
    simp only [MdnsWant.owner, MdnsWant.data, MdnsWant.longest, nameBytes_cons, hservice, hlocal, List.length_append,
      be16_length]
    omega
  | txt =>
    simp only [MdnsWant.owner, MdnsWant.data, MdnsWant.longest, nameBytes_cons, hservice]
    omega
  | a =>
    simp only [MdnsWant.owner, MdnsWant.data, MdnsWant.longest, nameBytes_cons, hlocal]
    omega

/-- No record is written twice. -/
theorem chosen_longest (wants : UInt32) : ((mdnsChosen (wants &&& mdnsWantAll) ++
    mdnsChosen (mdnsExtra (wants &&& mdnsWantAll))).map MdnsWant.longest).sum ≤ 929 := by
  have hall : ∀ n < 32, ((mdnsChosen (UInt32.ofNat n) ++ mdnsChosen (mdnsExtra (UInt32.ofNat n))).map
      MdnsWant.longest).sum ≤ 929 := by decide
  have hmask : (wants &&& mdnsWantAll).toNat < 32 := by
    have hle : wants.toNat &&& mdnsWantAll.toNat ≤ mdnsWantAll.toNat := Nat.and_le_right
    have hvalue : mdnsWantAll.toNat = 31 := rfl
    rw [UInt32.toNat_and]
    omega
  have h := hall _ hmask
  rwa [UInt32.ofNat_toNat] at h

/-- **A response fits the packet.** -/
theorem responseBytes_length (h : service.Good) (hsmall : service.Small) (wants : UInt32) (id : ℕ)
    (legacy goodbye : Bool) :
    (responseBytes service (wants &&& mdnsWantAll) id legacy goodbye).length ≤ mdnsPacketMax := by
  have hrecords : ((mdnsChosen (wants &&& mdnsWantAll) ++ mdnsChosen (mdnsExtra (wants &&& mdnsWantAll))).flatMap
      (recordBytes service legacy goodbye)).length ≤ 929 := by
    rw [List.length_flatMap]
    refine Nat.le_trans (List.sum_le_sum fun which _ => ?_) (chosen_longest wants)
    exact (recordBytes_longest h hsmall legacy goodbye which).1
  have hheader : (headerBytes id (mdnsChosen (wants &&& mdnsWantAll)).length
      (mdnsChosen (mdnsExtra (wants &&& mdnsWantAll))).length).length = 12 := rfl
  have hmax : mdnsPacketMax = 1024 := rfl
  rw [List.flatMap_append] at hrecords
  rw [responseBytes, List.length_append, hheader]
  omega

/-! ## What the agent describes -/

section

variable {target text : Bytes} {capacity : ℕ}

theorem mdnsAppend_le (text : Bytes) (h : target.length < capacity) : (mdnsAppend target capacity text).length < capacity := by
  rw [mdnsAppend, List.length_append, List.length_take]
  omega

theorem le_mdnsAppend (target text : Bytes) (capacity : ℕ) : target.length ≤ (mdnsAppend target capacity text).length := by
  rw [mdnsAppend, List.length_append]
  omega

theorem mdnsAppend_mem {c : UInt8} (h : c ∈ mdnsAppend target capacity text) : c ∈ target ∨ c ∈ text := by
  rw [mdnsAppend, List.mem_append] at h
  exact h.imp_right List.mem_of_mem_take

end

theorem mdnsPlain_lt {ch : UInt8} (h : mdnsPlain ch = true) : ch < 128 := by
  simp only [mdnsPlain, Bool.or_eq_true, Bool.and_eq_true, decide_eq_true_eq, beq_iff_eq, UInt8.le_iff_toNat_le,
    ← UInt8.toNat_inj] at h
  rw [UInt8.lt_iff_toNat_lt]
  have h90 : (90 : UInt8).toNat = 90 := rfl
  have h122 : (122 : UInt8).toNat = 122 := rfl
  have h57 : (57 : UInt8).toNat = 57 := rfl
  have h45 : (45 : UInt8).toNat = 45 := rfl
  have h128 : (128 : UInt8).toNat = 128 := rfl
  omega

/-- An install id is plain. -/
theorem idValid_plain {text : Bytes} (h : idValid text = true) :
    text.length = installIdLength ∧ ∀ c ∈ text, mdnsPlain c = true := by
  unfold idValid at h
  rw [Bool.and_eq_true, beq_iff_eq, List.all_eq_true] at h
  obtain ⟨hlength, hall⟩ := h
  refine ⟨hlength, fun c hc => ?_⟩
  obtain ⟨i, hi, hget⟩ := List.getElem_of_mem hc
  have hch : text.at' i = c := by
    unfold Bytes.at'
    rw [List.getD_eq_getElem?_getD, List.getElem?_eq_getElem hi, Option.getD_some, hget]
  have hi' := hall i (List.mem_range.2 (by omega))
  dsimp only at hi'
  rw [hch] at hi'
  split at hi'
  · rw [beq_iff_eq.1 hi']
    decide
  · simp only [Bool.or_eq_true, Bool.and_eq_true, decide_eq_true_eq, UInt8.le_iff_toNat_le] at hi'
    simp only [mdnsPlain, Bool.or_eq_true, Bool.and_eq_true, decide_eq_true_eq, UInt8.le_iff_toNat_le]
    have h57 : (57 : UInt8).toNat = 57 := rfl
    have h102 : (102 : UInt8).toNat = 102 := rfl
    have h122 : (122 : UInt8).toNat = 122 := rfl
    have h70 : (70 : UInt8).toNat = 70 := rfl
    have h90 : (90 : UInt8).toNat = 90 := rfl
    omega

theorem ascii_V9X : ∀ c ∈ ascii "V9X", mdnsPlain c = true := List.all_eq_true.1 (by decide)

theorem mdnsInstance_plain {name id8 : Bytes} (h : ∀ c ∈ id8, mdnsPlain c = true) :
    ∀ c ∈ mdnsInstance name id8, mdnsPlain c = true := by
  have hshown : ∀ c ∈ (name.take 40).map fun ch => if mdnsPlain ch then ch else 45, mdnsPlain c = true := by
    intro c hc
    obtain ⟨ch, -, rfl⟩ := List.mem_map.1 hc
    split
    · rename_i hplain
      exact hplain
    · decide
  intro c hc
  unfold mdnsInstance at hc
  dsimp only at hc
  rcases mdnsAppend_mem hc with hc | hc
  · rw [List.mem_append, List.mem_singleton] at hc
    rcases hc with hc | rfl
    · split at hc
      · rcases mdnsAppend_mem hc with hc | hc
        · exact absurd hc List.not_mem_nil
        · exact ascii_V9X c hc
      · exact hshown c hc
    · decide
  · exact h c hc

theorem mdnsInstance_length (name id8 : Bytes) : LabelOk (mdnsInstance name id8) := by
  have hshown : ∀ shown : Bytes, shown.length ≤ 40 → LabelOk (mdnsAppend (shown ++ [45]) 64 id8) := by
    intro shown hlength
    have hone : (shown ++ [45]).length = shown.length + 1 := List.length_append
    have hroom : (shown ++ [45]).length < 64 := by omega
    have hle := mdnsAppend_le id8 hroom
    have hge := le_mdnsAppend (shown ++ [45]) id8 64
    exact ⟨by omega, by omega⟩
  unfold mdnsInstance
  dsimp only
  split
  · exact hshown _ (by decide)
  · exact hshown _ (by rw [List.length_map]; exact List.length_take_le _ _)

variable (agent : MdnsAgent) (address : UInt32)

theorem id8_plain : ∀ c ∈ agent.installId.take 8, mdnsPlain c = true := fun c hc =>
  (idValid_plain agent.valid).2 c (List.mem_of_mem_take hc)

/-- The length of a text. -/
theorem mdnsAppend_size {key : Bytes} (text : Bytes) (h : 0 < key.length ∧ key.length ≤ 63) :
    0 < (mdnsAppend key 64 text).length ∧ (mdnsAppend key 64 text).length ≤ 63 := by
  have hle : (mdnsAppend key 64 text).length < 64 := mdnsAppend_le text (by omega)
  have hge := le_mdnsAppend key text 64
  exact ⟨by omega, by omega⟩

theorem mdnsDescribe_txt : ∀ text ∈ (mdnsDescribe agent address).txt, 0 < text.length ∧ text.length ≤ 63 := by
  have hkey : ∀ key ∈ [ascii "id=", ascii "ver=", ascii "build=", ascii "dos=1", ascii "dos=0", ascii "os=", ascii "name="],
      0 < (mdnsAppend [] 64 key).length ∧ (mdnsAppend [] 64 key).length ≤ 63 := by decide
  simp only [List.forall_mem_cons] at hkey
  obtain ⟨hid, hver, hbuild, hdos, hnodos, hos, hname, -⟩ := hkey
  unfold mdnsDescribe mdnsDecimal
  simp only [List.forall_mem_cons]
  refine ⟨mdnsAppend_size _ hid, mdnsAppend_size _ hver, mdnsAppend_size _ hbuild, ?_,
    mdnsAppend_size _ (mdnsAppend_size _ (mdnsAppend_size _ hos)), mdnsAppend_size _ hname, List.forall_mem_nil _⟩
  split
  · exact hdos
  · exact hnodos

/-- **What the agent describes** can be announced. -/
theorem mdnsDescribe_good : (mdnsDescribe agent address).Good ∧ (mdnsDescribe agent address).Plain ∧
    (mdnsDescribe agent address).Small := by
  have hfour : (mdnsAppend [] 16 (ascii "v9x-")).length = 4 := rfl
  have hfourPlain : ∀ c ∈ mdnsAppend [] 16 (ascii "v9x-"), c < 128 := by decide +kernel
  have htxt := mdnsDescribe_txt agent address
  have hle : (mdnsDescribe agent address).host.length < 16 := mdnsAppend_le (agent.installId.take 8) (by omega)
  have hge : _ ≤ (mdnsDescribe agent address).host.length :=
    le_mdnsAppend (mdnsAppend [] 16 (ascii "v9x-")) (agent.installId.take 8) 16
  have hinstance : ∀ c ∈ (mdnsDescribe agent address).instanceName, c < 128 := fun c hc =>
    mdnsPlain_lt (mdnsInstance_plain (id8_plain agent) c hc)
  refine ⟨?_, ⟨hinstance, fun c hc => ?_⟩, ⟨le_rfl, fun text htext => (htxt text htext).2⟩⟩
  · exact
      { instanceName := mdnsInstance_length _ _
        host := ⟨by omega, by omega⟩
        address := rfl
        some := List.cons_ne_nil _ _
        count := show 6 ≤ 8 by decide
        txt := fun text htext => ⟨(htxt text htext).1, Nat.le_trans (htxt text htext).2 (by omega)⟩ }
  · rcases mdnsAppend_mem hc with hc | hc
    · exact hfourPlain c hc
    · exact mdnsPlain_lt (id8_plain agent c hc)

/-- An agent on a computer whose name has a byte above 127. -/
def announcingAgent : MdnsAgent where
  installId := ascii "1a2b3c4d-1111-4222-8333-123456789abc"
  valid := by decide
  computer := some ⟨[87, 73, 200, 57, 56], by decide, by decide +kernel⟩
  version := 0x0a04
  allowDosVm := true
  listenPort := 9869
  build := ascii "local"

end V9xRemote
