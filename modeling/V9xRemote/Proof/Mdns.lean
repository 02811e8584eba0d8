import V9xRemote.Spec.Mdns

/-!
# What an mDNS response is written as

`Puts`: a part of the writer puts certain bytes behind what is written. A record's length is
stored over two of them when its data is there, and so are the counts of a response.
-/

namespace V9xRemote

open Bytes Checked

/-! ## What is written -/

/-- Bytes behind what is written. -/
def MdnsWriter.put (w : MdnsWriter) (bytes : Bytes) : MdnsWriter :=
  { w with
    out := w.out.take w.offset ++ (bytes ++ w.out.drop (w.offset + bytes.length))
    offset := w.offset + bytes.length }

/-- There is room for so many bytes. -/
structure MdnsWriter.Room (w : MdnsWriter) (count : ℕ) : Prop where
  going : w.failed = false
  fits : w.offset + count ≤ w.capacity
  inside : w.capacity ≤ w.out.length

variable {α β : Type} {w : MdnsWriter}

theorem put_nil (w : MdnsWriter) : w.put [] = w := by
  unfold MdnsWriter.put
  rw [List.nil_append, List.length_nil, Nat.add_zero, List.take_append_drop]

theorem MdnsWriter.Room.le {a b : ℕ} (h : w.Room b) (hab : a ≤ b) : w.Room a :=
  ⟨h.going, by have := h.fits; omega, h.inside⟩

theorem put_length {bytes : Bytes} (h : w.Room bytes.length) : (w.put bytes).out.length = w.out.length := by
  have hfits := h.fits
  have hinside := h.inside
  unfold MdnsWriter.put
  dsimp only
  rw [List.length_append, List.length_append, List.length_take, List.length_drop]
  omega

theorem put_put {a b : Bytes} (h : w.Room (a ++ b).length) : (w.put a).put b = w.put (a ++ b) := by
  have hfits := h.fits
  have hinside := h.inside
  rw [List.length_append] at hfits
  have hfront : (w.out.take w.offset ++ a).length = w.offset + a.length := by
    rw [List.length_append, List.length_take]
    omega
  have htake : (w.out.take w.offset ++ (a ++ w.out.drop (w.offset + a.length))).take (w.offset + a.length) =
      w.out.take w.offset ++ a := by
    rw [← List.append_assoc]
    exact List.take_left' hfront
  have hdrop : (w.out.take w.offset ++ (a ++ w.out.drop (w.offset + a.length))).drop (w.offset + a.length + b.length) =
      w.out.drop (w.offset + (a ++ b).length) := by
    rw [← List.append_assoc, ← List.drop_drop, List.drop_left' hfront, List.drop_drop, List.length_append, Nat.add_assoc]
  unfold MdnsWriter.put
  dsimp only
  rw [htake, hdrop, List.length_append, List.append_assoc, List.append_assoc, Nat.add_assoc]

theorem room_put {a b : Bytes} (h : w.Room (a ++ b).length) : (w.put a).Room b.length := by
  have hlength : (w.put a).out.length = w.out.length := put_length (h.le (by rw [List.length_append]; omega))
  have hfits := h.fits
  rw [List.length_append] at hfits
  refine ⟨h.going, ?_, ?_⟩
  · change w.offset + a.length + b.length ≤ w.capacity
    omega
  · rw [hlength]
    exact h.inside

/-- A part of the writer that puts these bytes, and ends with this value. -/
def Puts (p : Mdns α) (bytes : Bytes) (a : α) : Prop :=
  ∀ w : MdnsWriter, w.Room bytes.length → Post p w (fun r w' => r = a ∧ w' = w.put bytes) fun _ _ => False

theorem puts_pure (a : α) : Puts (pure a : Mdns α) [] a := fun w _ => post_pure.2 ⟨rfl, (put_nil w).symm⟩

/-- **One part after another.** -/
theorem Puts.bind {p : Mdns α} {f : α → Mdns β} {x y : Bytes} {a : α} {b : β} (hp : Puts p x a) (hf : Puts (f a) y b) :
    Puts (p >>= f) (x ++ y) b := by
  intro w h
  rw [post_bind]
  refine (hp w (h.le (by rw [List.length_append]; omega))).imp ?_ fun _ _ h => h
  rintro _ _ ⟨rfl, rfl⟩
  rw [← put_put h]
  exact hf (w.put x) (room_put h)

theorem post_mdnsStore {index value : ℕ} {R : Empty → MdnsWriter → Prop} (h : index < w.out.length) :
    Post (mdnsStore index value) w (fun _ w' => w' = { w with out := w.out.set index (UInt8.ofNat value) }) R := by
  unfold mdnsStore
  rw [post_bind, post_get, post_bind, post_check, post_modify]
  exact ⟨h, rfl⟩

theorem puts_put8 (value : ℕ) : Puts (mdnsPut8 value) [UInt8.ofNat value] () := by
  intro w h
  have hfits := h.fits
  have hinside := h.inside
  rw [List.length_singleton] at hfits
  have hlt : w.offset < w.out.length := by omega
  unfold mdnsPut8
  rw [post_bind, post_get, post_ite]
  refine ⟨fun hfull => by omega, fun _ => ?_⟩
  rw [post_bind]
  refine (post_mdnsStore hlt).imp ?_ fun _ _ h => h
  rintro _ _ rfl
  rw [post_modify]
  refine ⟨rfl, ?_⟩
  unfold MdnsWriter.put
  rw [List.set_eq_take_append_cons_drop, if_pos hlt]
  rfl

/-- A big-endian half word. -/
def be16 (value : ℕ) : Bytes := [UInt8.ofNat (value / 256), UInt8.ofNat value]

def be32 (value : ℕ) : Bytes := be16 (value / 65536 % 65536) ++ be16 (value % 65536)

@[simp] theorem be16_length (value : ℕ) : (be16 value).length = 2 := rfl

@[simp] theorem be32_length (value : ℕ) : (be32 value).length = 4 := rfl

theorem puts_put16 (value : ℕ) : Puts (mdnsPut16 value) (be16 value) () :=
  (puts_put8 (value / 256)).bind (puts_put8 value)

theorem puts_put32 (value : ℕ) : Puts (mdnsPut32 value) (be32 value) () :=
  (puts_put16 (value / 65536 % 65536)).bind (puts_put16 (value % 65536))

theorem puts_putBytes (text : Bytes) : Puts (mdnsPutBytes text) text () := by
  induction text with
  | nil => exact puts_pure ()
  | cons c rest ih =>
    have hbyte : UInt8.ofNat c.toNat = c := UInt8.ofNat_toNat
    have hput := puts_put8 c.toNat
    rw [hbyte] at hput
    exact hput.bind ih

/-! ## Names -/

/-- A label of a name. -/
def LabelOk (label : Bytes) : Prop := 0 < label.length ∧ label.length ≤ 63

def labelBytes (label : Bytes) : Bytes := UInt8.ofNat label.length :: label

/-- A name as it is written. -/
def nameBytes (labels : List Bytes) : Bytes := labels.flatMap labelBytes ++ [0]

theorem puts_putLabel {label : Bytes} (h : LabelOk label) : Puts (mdnsPutLabel label) (labelBytes label) () := by
  obtain ⟨hpos, hshort⟩ := h
  intro w hroom
  unfold mdnsPutLabel
  rw [post_ite]
  exact ⟨fun hbad => by omega, fun _ => (puts_put8 label.length).bind (puts_putBytes label) w hroom⟩

/-- The labels of a dotted name. -/
def dotLabels (label : Bytes) : Bytes → List Bytes
  | [] => [label]
  | c :: rest => if c = 46 then label :: dotLabels [] rest else dotLabels (label ++ [c]) rest

theorem puts_putDotted {label dotted : Bytes} (h : ∀ l ∈ dotLabels label dotted, LabelOk l) :
    Puts (mdnsPutDotted label dotted) ((dotLabels label dotted).flatMap labelBytes) () := by
  induction dotted generalizing label with
  | nil =>
    have hone : (dotLabels label []).flatMap labelBytes = labelBytes label := List.append_nil _
    rw [hone]
    exact puts_putLabel (h label List.mem_cons_self)
  | cons c rest ih =>
    unfold dotLabels at h ⊢
    unfold mdnsPutDotted
    by_cases hdot : c = 46
    · rw [if_pos hdot] at h ⊢
      rw [if_pos hdot, List.flatMap_cons]
      exact (puts_putLabel (h label List.mem_cons_self)).bind (ih fun l hl => h l (List.mem_cons_of_mem _ hl))
    · rw [if_neg hdot] at h ⊢
      rw [if_neg hdot]
      exact ih h

theorem puts_putName {first : Option Bytes} {dotted : Bytes} (hfirst : ∀ l ∈ first, LabelOk l)
    (h : ∀ l ∈ dotLabels [] dotted, LabelOk l) :
    Puts (mdnsPutName first dotted) (nameBytes (first.toList ++ dotLabels [] dotted)) () := by
  have hrest : Puts (mdnsPutDotted [] dotted >>= fun _ => mdnsPut8 0)
      ((dotLabels [] dotted).flatMap labelBytes ++ [0]) () := (puts_putDotted h).bind (puts_put8 0)
  unfold mdnsPutName nameBytes
  cases first with
  | none => exact hrest
  | some label =>
    rw [Option.toList_some, List.singleton_append, List.flatMap_cons, List.append_assoc]
    refine (puts_putLabel (hfirst label rfl)).bind ?_
    exact hrest

/-! ## Records -/

def serviceLabels : List Bytes := [ascii "_v9xremote", ascii "_tcp", ascii "local"]

def enumLabels : List Bytes := [ascii "_services", ascii "_dns-sd", ascii "_udp", ascii "local"]

/-- The labels of the name that a record is about. -/
def MdnsWant.owner (service : MdnsService) : MdnsWant → List Bytes
  | .service => serviceLabels
  | .enum => enumLabels
  | .srv => service.instanceName :: serviceLabels
  | .txt => service.instanceName :: serviceLabels
  | .a => [service.host, ascii "local"]

/-- A service that a response can be made of. -/
structure MdnsService.Good (service : MdnsService) : Prop where
  instanceName : LabelOk service.instanceName
  host : LabelOk service.host
  address : service.address.length = 4
  some : service.txt ≠ []
  count : service.txt.length ≤ mdnsMaxTxt
  txt : ∀ text ∈ service.txt, 0 < text.length ∧ text.length ≤ 255

/-- The data of a record, as it is written. -/
def MdnsWant.data (service : MdnsService) : MdnsWant → Bytes
  | .service => nameBytes (service.instanceName :: serviceLabels)
  | .enum => nameBytes serviceLabels
  | .srv => be16 0 ++ (be16 0 ++ (be16 service.port.toNat ++ nameBytes [service.host, ascii "local"]))
  | .txt => service.txt.flatMap labelBytes
  | .a => service.address

/-- A record, as it is written. -/
def recordBytes (service : MdnsService) (legacy goodbye : Bool) (which : MdnsWant) : Bytes :=
  nameBytes (which.owner service) ++ (be16 which.type ++ (be16 (which.klass legacy) ++
    (be32 (mdnsTtl which.ttl legacy goodbye) ++ (be16 (which.data service).length ++ which.data service))))

variable {service : MdnsService}

theorem serviceLabels_ok : ∀ l ∈ dotLabels [] mdnsServiceName, LabelOk l := by
  unfold LabelOk
  decide

theorem enumLabels_ok : ∀ l ∈ dotLabels [] mdnsEnumName, LabelOk l := by
  unfold LabelOk
  decide

theorem localLabels_ok : ∀ l ∈ dotLabels [] (ascii "local"), LabelOk l := by
  unfold LabelOk
  decide

theorem puts_putOwner (h : service.Good) (which : MdnsWant) :
    Puts (mdnsPutOwner service which) (nameBytes (which.owner service)) () := by
  have hnone : ∀ l ∈ (none : Option Bytes), LabelOk l := nofun
  have hinstance : ∀ l ∈ some service.instanceName, LabelOk l := by
    rintro _ ⟨⟩
    exact h.instanceName
  have hhost : ∀ l ∈ some service.host, LabelOk l := by
    rintro _ ⟨⟩
    exact h.host
  cases which with
  | service => exact puts_putName hnone serviceLabels_ok
  | enum => exact puts_putName hnone enumLabels_ok
  | srv => exact puts_putName hinstance serviceLabels_ok
  | txt => exact puts_putName hinstance serviceLabels_ok
  | a => exact puts_putName hhost localLabels_ok

theorem puts_putTexts {texts : List Bytes} (h : ∀ text ∈ texts, text.length ≤ 255) :
    Puts (mdnsPutTexts texts) (texts.flatMap labelBytes) () := by
  induction texts with
  | nil => exact puts_pure ()
  | cons text rest ih =>
    have hshort := h text List.mem_cons_self
    unfold mdnsPutTexts
    rw [Nat.min_eq_left hshort, List.take_of_length_le hshort, List.flatMap_cons]
    refine (puts_put8 text.length).bind ?_
    refine (puts_putBytes text).bind ?_
    exact ih fun t ht => h t (List.mem_cons_of_mem _ ht)

theorem puts_putData (h : service.Good) (which : MdnsWant) : Puts (mdnsPutData service which) (which.data service) () := by
  have hnone : ∀ l ∈ (none : Option Bytes), LabelOk l := nofun
  have hinstance : ∀ l ∈ some service.instanceName, LabelOk l := by
    rintro _ ⟨⟩
    exact h.instanceName
  have hhost : ∀ l ∈ some service.host, LabelOk l := by
    rintro _ ⟨⟩
    exact h.host
  cases which with
  | service => exact puts_putName hinstance serviceLabels_ok
  | enum => exact puts_putName hnone serviceLabels_ok
  | srv =>
    exact (puts_put16 0).bind ((puts_put16 0).bind ((puts_put16 service.port.toNat).bind (puts_putName hhost localLabels_ok)))
  | txt =>
    unfold mdnsPutData
    dsimp only
    rw [if_neg h.some, List.take_of_length_le h.count]
    exact puts_putTexts fun text htext => (h.txt text htext).2
  | a =>
    have hbytes : (List.range 4).map service.address.at' = service.address := by
      have hlength := h.address
      match service.address, hlength with
      | [b0, b1, b2, b3], _ => rfl
    unfold mdnsPutData
    dsimp only
    rw [hbytes]
    exact puts_putBytes service.address

/-- A byte that was put is stored again. -/
theorem put_set {a b : Bytes} {c x : UInt8} (h : w.Room (a ++ c :: b).length) :
    { w.put (a ++ c :: b) with out := (w.put (a ++ c :: b)).out.set (w.offset + a.length) x } = w.put (a ++ x :: b) := by
  have hfits := h.fits
  have hinside := h.inside
  have hsame : (a ++ c :: b).length = (a ++ x :: b).length := by
    rw [List.length_append, List.length_append, List.length_cons, List.length_cons]
  rw [List.length_append] at hfits
  have hfront : (w.out.take w.offset ++ a).length = w.offset + a.length := by
    rw [List.length_append, List.length_take]
    omega
  unfold MdnsWriter.put
  dsimp only
  rw [hsame]
  congr 1
  rw [List.append_assoc, ← List.append_assoc, List.set_append_right _ _ (by omega), hfront, Nat.sub_self,
    List.cons_append, List.set_cons_zero, List.append_assoc, List.append_assoc]
  rfl

theorem Room.store {a b : Bytes} {c : UInt8} (h : w.Room (a ++ c :: b).length) :
    w.offset + a.length < (w.put (a ++ c :: b)).out.length := by
  have hfits := h.fits
  have hinside := h.inside
  rw [put_length h]
  rw [List.length_append, List.length_cons] at hfits
  omega

/-- **A part of a program** that puts bytes, behind others. -/
theorem Puts.step {p : Mdns α} {f : α → Mdns β} {x done : Bytes} {a : α} {Q : β → MdnsWriter → Prop}
    {R : Empty → MdnsWriter → Prop} (hp : Puts p x a) (hroom : w.Room (done ++ x).length)
    (hf : Post (f a) (w.put (done ++ x)) Q R) : Post (p >>= f) (w.put done) Q R := by
  rw [post_bind]
  refine (hp (w.put done) (room_put hroom)).imp ?_ fun _ _ h => h.elim
  rintro _ _ ⟨rfl, rfl⟩
  rw [put_put hroom]
  exact hf

/-- **A record**: its length is stored before its data when that is written. -/
theorem puts_putRecord (h : service.Good) (legacy goodbye : Bool) (which : MdnsWant) :
    Puts (mdnsPutRecord service which legacy goodbye) (recordBytes service legacy goodbye which) () := by
  intro w hroom
  have hbytes : recordBytes service legacy goodbye which =
      [] ++ nameBytes (which.owner service) ++ be16 which.type ++ be16 (which.klass legacy) ++
        be32 (mdnsTtl which.ttl legacy goodbye) ++ (be16 (which.data service).length ++ which.data service) := by
    simp only [recordBytes, List.nil_append, List.append_assoc]
  rw [hbytes] at hroom ⊢
  have hle : ∀ {part rest : Bytes}, w.Room (part ++ rest).length → w.Room part.length := fun h =>
    h.le (by rw [List.length_append]; omega)
  have hlength : ∀ {part : Bytes}, w.Room (part ++ (be16 (which.data service).length ++ which.data service)).length →
      w.Room (part ++ be16 0).length := fun h => h.le (by
    simp only [List.length_append, be16_length]
    omega)
  have hall : ∀ {part : Bytes}, w.Room (part ++ (be16 (which.data service).length ++ which.data service)).length →
      w.Room (part ++ be16 0 ++ which.data service).length := fun h => h.le (by
    simp only [List.length_append, be16_length]
    omega)
  nth_rewrite 1 [← put_nil w]
  unfold mdnsPutRecord
  refine (puts_putOwner h which).step (hle (hle (hle (hle hroom)))) ?_
  refine (puts_put16 which.type).step (hle (hle (hle hroom))) ?_
  refine (puts_put16 (which.klass legacy)).step (hle (hle hroom)) ?_
  refine (puts_put32 (mdnsTtl which.ttl legacy goodbye)).step (hle hroom) ?_
  generalize [] ++ nameBytes (which.owner service) ++ be16 which.type ++ be16 (which.klass legacy) ++
    be32 (mdnsTtl which.ttl legacy goodbye) = done at hroom ⊢
  rw [post_bind, post_get]
  refine (puts_put16 0).step (hlength hroom) ?_
  rw [post_bind, post_get]
  refine (puts_putData h which).step (hall hroom) ?_
  rw [post_bind, post_get]
  generalize which.data service = data at hroom hall ⊢
  have hroom' := hall hroom
  have hgoing : (w.put (done ++ be16 0 ++ data)).failed = false := hroom.going
  have hplace : (w.put done).offset = w.offset + done.length := rfl
  have hsize : (w.put (done ++ be16 0 ++ data)).offset - (w.put (done ++ be16 0)).offset = data.length := by
    have hsplit : (done ++ be16 0 ++ data).length = (done ++ be16 0).length + data.length := List.length_append
    change w.offset + (done ++ be16 0 ++ data).length - (w.offset + (done ++ be16 0).length) = data.length
    omega
  rw [hgoing, hsize, hplace, Bool.not_false, if_pos rfl, post_bind]
  have hzeros : done ++ be16 0 ++ data = done ++ 0 :: (0 :: data) := List.append_assoc _ _ _
  rw [hzeros] at hroom' ⊢
  refine (post_mdnsStore (Room.store hroom')).imp ?_ fun _ _ h => h
  rintro _ _ rfl
  -- the high byte is stored, the low one is next
  rw [put_set hroom']
  have hhigh : done ++ UInt8.ofNat (data.length / 256) :: (0 :: data) =
      (done ++ [UInt8.ofNat (data.length / 256)]) ++ 0 :: data := (List.append_assoc done [_] (0 :: data)).symm
  have hnext : w.offset + done.length + 1 = w.offset + (done ++ [UInt8.ofNat (data.length / 256)]).length := by
    rw [List.length_append, List.length_singleton, Nat.add_assoc]
  have hroom'' : w.Room ((done ++ [UInt8.ofNat (data.length / 256)]) ++ 0 :: data).length :=
    hroom'.le (by simp only [List.length_append, List.length_cons, List.length_nil]; omega)
  rw [hhigh, hnext]
  refine (post_mdnsStore (Room.store hroom'')).imp ?_ fun _ _ h => h
  rintro _ _ rfl
  rw [put_set hroom'']
  refine ⟨rfl, congrArg w.put ?_⟩
  rw [List.append_assoc]
  rfl

/-! ## A response -/

/-- The records of a set, in their order. -/
def mdnsChosen (set : UInt32) : List MdnsWant := mdnsOrder.filter fun which => set &&& which.bit ≠ 0

theorem puts_emitFrom (h : service.Good) (set : UInt32) (legacy goodbye : Bool) (count : ℕ) (order : List MdnsWant) :
    Puts (mdnsEmitFrom service set legacy goodbye count order)
      ((order.filter fun which => set &&& which.bit ≠ 0).flatMap (recordBytes service legacy goodbye))
      (count + (order.filter fun which => set &&& which.bit ≠ 0).length) := by
  induction order generalizing count with
  | nil => exact puts_pure count
  | cons which rest ih =>
    unfold mdnsEmitFrom
    by_cases hin : set &&& which.bit ≠ 0
    · have hyes : (which :: rest).filter (fun which => set &&& which.bit ≠ 0) =
          which :: rest.filter fun which => set &&& which.bit ≠ 0 := List.filter_cons_of_pos (decide_eq_true hin)
      rw [if_pos hin, hyes, List.flatMap_cons, List.length_cons, ← Nat.add_assoc, Nat.add_right_comm]
      exact (puts_putRecord h legacy goodbye which).bind (ih (count + 1))
    · have hno : (which :: rest).filter (fun which => set &&& which.bit ≠ 0) =
          rest.filter fun which => set &&& which.bit ≠ 0 :=
        List.filter_cons_of_neg (by rw [decide_eq_false hin]; exact Bool.false_ne_true)
      rw [if_neg hin, hno]
      exact ih count

theorem puts_emit (h : service.Good) (set : UInt32) (legacy goodbye : Bool) :
    Puts (mdnsEmit service set legacy goodbye) ((mdnsChosen set).flatMap (recordBytes service legacy goodbye))
      (mdnsChosen set).length := by
  have hput := puts_emitFrom h set legacy goodbye 0 mdnsOrder
  rw [Nat.zero_add] at hput
  exact hput

/-- The header of a response. -/
def headerBytes (id answers additionals : ℕ) : Bytes :=
  be16 id ++ (be16 0x8400 ++ (be16 0 ++ (be16 answers ++ (be16 0 ++ be16 additionals))))

/-- A response, as it is written. -/
def responseBytes (service : MdnsService) (wants : UInt32) (id : ℕ) (legacy goodbye : Bool) : Bytes :=
  headerBytes id (mdnsChosen wants).length (mdnsChosen (mdnsExtra wants)).length ++
    ((mdnsChosen wants).flatMap (recordBytes service legacy goodbye) ++
      (mdnsChosen (mdnsExtra wants)).flatMap (recordBytes service legacy goodbye))

/-- A writer at the start of its buffer. -/
def MdnsWriter.start (out : Bytes) (capacity : ℕ) : MdnsWriter := ⟨out, capacity, 0, false⟩

/-- **A response that fits its buffer** is written there, behind nothing and before what was
there. -/
theorem post_buildResponse (h : service.Good) {wants : UInt32} (id : UInt16) {legacy goodbye : Bool} {out : Bytes}
    {capacity : ℕ} (hwants : wants &&& mdnsWantAll ≠ 0) (hinside : capacity ≤ out.length)
    (hfits : (responseBytes service (wants &&& mdnsWantAll) (if legacy then id.toNat else 0) legacy goodbye).length ≤
      capacity) :
    Post (mdnsBuildResponse service wants id legacy goodbye) (MdnsWriter.start out capacity)
      (fun length w => length =
          (responseBytes service (wants &&& mdnsWantAll) (if legacy then id.toNat else 0) legacy goodbye).length ∧
        w.out = responseBytes service (wants &&& mdnsWantAll) (if legacy then id.toNat else 0) legacy goodbye ++
          out.drop length)
      fun _ _ => False := by
  have hbuild : ∀ wants, mdnsBuildResponse service wants id legacy goodbye =
      if wants &&& mdnsWantAll = 0 then pure 0 else do
        mdnsPut16 (if legacy then id.toNat else 0)
        mdnsPut16 0x8400
        mdnsPut16 0
        mdnsPut16 0
        mdnsPut16 0
        mdnsPut16 0
        let answers ← mdnsEmit service (wants &&& mdnsWantAll) legacy goodbye
        let additionals ← mdnsEmit service (mdnsExtra (wants &&& mdnsWantAll)) legacy goodbye
        let writer ← get
        if writer.failed then return 0
        else
          mdnsStore 6 (answers / 256)
          mdnsStore 7 answers
          mdnsStore 10 (additionals / 256)
          mdnsStore 11 additionals
          let writer ← get
          return writer.offset := fun _ => rfl
  rw [hbuild, if_neg hwants]
  unfold responseBytes headerBytes at hfits ⊢
  generalize (if legacy then id.toNat else 0) = idValue at hfits ⊢
  have hanswers := puts_emit h (wants &&& mdnsWantAll) legacy goodbye
  have hadditionals := puts_emit h (mdnsExtra (wants &&& mdnsWantAll)) legacy goodbye
  generalize (mdnsChosen (wants &&& mdnsWantAll)).flatMap (recordBytes service legacy goodbye) = answers
    at hfits hanswers ⊢
  generalize (mdnsChosen (mdnsExtra (wants &&& mdnsWantAll))).flatMap (recordBytes service legacy goodbye) = additionals
    at hfits hadditionals ⊢
  generalize (mdnsChosen (wants &&& mdnsWantAll)).length = answerCount at hfits hanswers ⊢
  generalize (mdnsChosen (mdnsExtra (wants &&& mdnsWantAll))).length = additionalCount at hfits hadditionals ⊢
  generalize hdone : [] ++ be16 idValue ++ be16 0x8400 ++ be16 0 ++ be16 0 ++ be16 0 ++ be16 0 ++ answers ++ additionals =
    done
  have hlength : done.length = (be16 idValue ++ (be16 0x8400 ++ (be16 0 ++ (be16 answerCount ++ (be16 0 ++
      be16 additionalCount)))) ++ (answers ++ additionals)).length := by
    rw [← hdone]
    simp only [List.length_append, List.length_nil, be16_length]
    omega
  have hroom : (MdnsWriter.start out capacity).Room done.length :=
    ⟨rfl, by rw [hlength]; exact Nat.le_trans (Nat.le_of_eq (Nat.zero_add _)) hfits, hinside⟩
  have hle : ∀ {part rest : Bytes}, (MdnsWriter.start out capacity).Room (part ++ rest).length →
      (MdnsWriter.start out capacity).Room part.length := fun h => h.le (by rw [List.length_append]; omega)
  rw [← hdone] at hroom
  rw [← put_nil (MdnsWriter.start out capacity)]
  refine (puts_put16 idValue).step (hle (hle (hle (hle (hle (hle (hle hroom))))))) ?_
  refine (puts_put16 0x8400).step (hle (hle (hle (hle (hle (hle hroom)))))) ?_
  refine (puts_put16 0).step (hle (hle (hle (hle (hle hroom))))) ?_
  refine (puts_put16 0).step (hle (hle (hle (hle hroom)))) ?_
  refine (puts_put16 0).step (hle (hle (hle hroom))) ?_
  refine (puts_put16 0).step (hle (hle hroom)) ?_
  refine hanswers.step (hle hroom) ?_
  refine hadditionals.step hroom ?_
  rw [hdone] at hroom ⊢
  have hgoing : ((MdnsWriter.start out capacity).put done).failed = false := rfl
  have hout : ((MdnsWriter.start out capacity).put done).out = done ++ out.drop done.length := by
    unfold MdnsWriter.put MdnsWriter.start
    dsimp only
    rw [List.take_zero, List.nil_append, Nat.zero_add]
  have hoffset : ((MdnsWriter.start out capacity).put done).offset = done.length := Nat.zero_add _
  have hlong : 12 ≤ ((MdnsWriter.start out capacity).put done).out.length := by
    rw [hout, ← hdone]
    simp only [List.length_append, List.length_nil, be16_length]
    omega
  have hpatched : (((((MdnsWriter.start out capacity).put done).out.set 6 (UInt8.ofNat (answerCount / 256))).set 7
      (UInt8.ofNat answerCount)).set 10 (UInt8.ofNat (additionalCount / 256))).set 11 (UInt8.ofNat additionalCount) =
      be16 idValue ++ (be16 0x8400 ++ (be16 0 ++ (be16 answerCount ++ (be16 0 ++ be16 additionalCount)))) ++
        (answers ++ additionals) ++ out.drop done.length := by
    rw [hout, ← hdone, List.append_assoc _ answers, List.append_assoc _ (answers ++ additionals)]
    rfl
  rw [post_bind, post_get, hgoing, if_neg Bool.false_ne_true, ← hlength]
  generalize (MdnsWriter.start out capacity).put done = w at hoffset hlong hpatched ⊢
  rw [post_bind]
  refine (post_mdnsStore (by omega)).imp ?_ fun _ _ h => h
  rintro _ _ rfl
  rw [post_bind]
  refine (post_mdnsStore (by rw [List.length_set]; omega)).imp ?_ fun _ _ h => h
  rintro _ _ rfl
  rw [post_bind]
  refine (post_mdnsStore (by rw [List.length_set, List.length_set]; omega)).imp ?_ fun _ _ h => h
  rintro _ _ rfl
  rw [post_bind]
  refine (post_mdnsStore (by rw [List.length_set, List.length_set, List.length_set]; omega)).imp ?_ fun _ _ h => h
  rintro _ _ rfl
  rw [post_bind, post_get, post_pure]
  refine ⟨hoffset, ?_⟩
  dsimp only
  rw [hpatched, hoffset]

end V9xRemote
