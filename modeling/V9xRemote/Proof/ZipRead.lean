import V9xRemote.Spec.ZipRead
import V9xRemote.Proof.InflateStream

/-!
# What is extracted from an archive

An archive that opens has a directory of whole records. `ZipExtracts` says what makes an entry
one whose bytes can be had; extraction ends on every entry, never leaves the archive and the
output, and is successful exactly for these, with these bytes.
-/

namespace V9xRemote

open Bytes Checked

variable {σ : Type} {s : σ} {data : Bytes}

/-! ## Accesses -/

section

variable {ε α : Type} {R : ZipStatus → σ → Prop}

theorem post_sum32 {a b : ℕ} {Q : ℕ → σ → Prop} : Post (sum32 a b) s Q R ↔ a + b < 2 ^ 32 ∧ Q (a + b) s := by
  rw [sum32, post_bind, post_check, post_pure]

theorem post_sub32 {a b : ℕ} {Q : ℕ → σ → Prop} : Post (sub32 a b) s Q R ↔ b ≤ a ∧ Q (a - b) s := by
  rw [sub32, post_bind, post_check, post_pure]

theorem post_zipRead8 {i : ℕ} {Q : UInt8 → σ → Prop} :
    Post (zipRead8 data i) s Q R ↔ i < data.length ∧ Q (data.at' i) s := by
  rw [zipRead8, post_bind, post_check, post_pure]

theorem post_zipRead16 {record field : ℕ} {Q : UInt16 → σ → Prop} : Post (zipRead16 data record field) s Q R ↔
    record + field + 2 ≤ data.length ∧ Q (data.readU16 (record + field)) s := by
  rw [zipRead16, post_bind, post_check, post_pure]

theorem post_zipRead32 {record field : ℕ} {Q : UInt32 → σ → Prop} : Post (zipRead32 data record field) s Q R ↔
    record + field + 4 ≤ data.length ∧ Q (data.readU32 (record + field)) s := by
  rw [zipRead32, post_bind, post_check, post_pure]

end

/-! ## The directory -/

/-- The entry of the record at an offset. -/
def centralEntry (data : Bytes) (offset index : ℕ) : ZipEntry where
  index := index
  flags := data.readU16 (offset + 8)
  method := data.readU16 (offset + 10)
  nameLength := (data.readU16 (offset + 28)).toNat
  name := offset + zipCentralFixed
  crc32 := data.readU32 (offset + 16)
  compressedSize := (data.readU32 (offset + 20)).toNat
  uncompressedSize := (data.readU32 (offset + 24)).toNat
  localOffset := (data.readU32 (offset + 42)).toNat

/-- The fixed part, and the name, the extra field and the comment. -/
def centralLength (data : Bytes) (offset : ℕ) : ℕ :=
  zipCentralFixed + (data.readU16 (offset + 28)).toNat + (data.readU16 (offset + 30)).toNat +
    (data.readU16 (offset + 32)).toNat

/-- A whole record, before `stop`. -/
structure CentralRecord (data : Bytes) (offset stop : ℕ) : Prop where
  fixed : offset + zipCentralFixed ≤ stop
  room : offset + centralLength data offset ≤ stop
  signature : data.readU32 offset = zipCentralSignature
  disk : data.readU16 (offset + 34) = 0
  small : (centralEntry data offset 0).compressedSize ≠ zipU32Saturated.toNat ∧
    (centralEntry data offset 0).uncompressedSize ≠ zipU32Saturated.toNat ∧
      (centralEntry data offset 0).localOffset ≠ zipU32Saturated.toNat

/-- **A record is read** where it is whole. -/
theorem post_zipReadCentral {offset stop index : ℕ} (hdata : data.length < 2 ^ 32) (hstop : stop ≤ data.length) :
    Post (zipReadCentral data offset stop index) s
      (fun r s' => s' = s ∧ CentralRecord data offset stop ∧
        r = (centralEntry data offset index, offset + centralLength data offset))
      (fun _ s' => s' = s ∧ ¬CentralRecord data offset stop) := by
  have hfixed : zipCentralFixed = 46 := rfl
  unfold zipReadCentral
  rw [post_ite]
  refine ⟨fun hpast => ?_, fun hpast => ?_⟩
  · exact post_stop.2 ⟨rfl, fun h => by have := h.fixed; omega⟩
  rw [post_bind, post_sub32]
  refine ⟨by omega, ?_⟩
  rw [post_ite]
  refine ⟨fun hshort => post_stop.2 ⟨rfl, fun h => by have := h.fixed; omega⟩, fun hshort => ?_⟩
  rw [post_bind, post_zipRead32]
  refine ⟨by omega, ?_⟩
  rw [post_ite, Nat.add_zero]
  refine ⟨fun hsig => post_stop.2 ⟨rfl, fun h => hsig h.signature⟩, fun hsig => ?_⟩
  simp only [post_bind, post_zipRead16, post_sum32]
  have h28 := (data.readU16 (offset + 28)).toNat_lt
  have h30 := (data.readU16 (offset + 30)).toNat_lt
  have h32 := (data.readU16 (offset + 32)).toNat_lt
  refine ⟨by omega, by omega, by omega, by omega, by omega, by omega, ?_⟩
  change Post (if stop - offset < centralLength data offset then _ else _) s _ _
  rw [post_ite]
  refine ⟨fun hroom => post_stop.2 ⟨rfl, fun h => by have := h.room; omega⟩, fun hroom => ?_⟩
  have hlength : zipCentralFixed ≤ centralLength data offset := by
    unfold centralLength
    omega
  simp only [zipEntryFields, post_bind, post_zipRead16, post_zipRead32, post_pure]
  refine ⟨by omega, by omega, by omega, by omega, by omega, by omega, by omega, by omega, ?_⟩
  rw [post_ite]
  refine ⟨fun hdisk => post_stop.2 ⟨rfl, fun h => hdisk h.disk⟩, fun hdisk => ?_⟩
  rw [post_ite]
  refine ⟨fun hlarge => post_stop.2 ⟨rfl, fun h => ?_⟩, fun hsmall => ?_⟩
  · rcases hlarge with hlarge | hlarge | hlarge
    · exact h.small.1 hlarge
    · exact h.small.2.1 hlarge
    · exact h.small.2.2 hlarge
  rw [post_bind, post_sum32, post_pure]
  rw [not_or, not_or] at hsmall
  have hend : offset + centralLength data offset ≤ stop := by omega
  refine ⟨lt_of_le_of_lt hend (lt_of_le_of_lt hstop hdata), rfl, ⟨by omega, hend, not_not.1 hsig, not_not.1 hdisk, hsmall⟩, rfl⟩

/-- Where a record of the directory starts. -/
def centralOffset (data : Bytes) (start : ℕ) : ℕ → ℕ
  | 0 => start
  | i + 1 => centralOffset data start i + centralLength data (centralOffset data start i)

/-- Whole records from the `i`th on, the last of which ends the directory. -/
def CentralRun (data : Bytes) (start stop i left : ℕ) : Prop :=
  (∀ j, i ≤ j → j < i + left → CentralRecord data (centralOffset data start j) stop) ∧
    centralOffset data start (i + left) = stop

theorem centralRun_cons {start stop i left : ℕ} : CentralRun data start stop i (left + 1) ↔
    CentralRecord data (centralOffset data start i) stop ∧ CentralRun data start stop (i + 1) left := by
  have hsum : i + (left + 1) = i + 1 + left := by omega
  unfold CentralRun
  rw [hsum]
  constructor
  · rintro ⟨hall, hend⟩
    exact ⟨hall i le_rfl (by omega), fun j hj hlt => hall j (by omega) hlt, hend⟩
  · rintro ⟨hfirst, hall, hend⟩
    refine ⟨fun j hj hlt => ?_, hend⟩
    rcases Nat.eq_or_lt_of_le hj with rfl | hj
    · exact hfirst
    · exact hall j hj hlt

/-- **The walk** comes to the record that is asked for, or reads them all. -/
theorem post_zipWalkFrom {start stop index : ℕ} (hdata : data.length < 2 ^ 32) (hstop : stop ≤ data.length)
    (left i : ℕ) (last : Option ZipEntry) :
    Post (zipWalkFrom data stop index left i (centralOffset data start i) last) s
      (fun r s' => s' = s ∧
        (i ≤ index → index < i + left → r = some (centralEntry data (centralOffset data start index) index)) ∧
          (i + left ≤ index → CentralRun data start stop i left))
      (fun _ s' => s' = s ∧ ¬CentralRun data start stop i left) := by
  induction left generalizing i last with
  | zero =>
    rw [zipWalkFrom, post_ite]
    refine ⟨fun hend => post_stop.2 ⟨rfl, fun h => hend h.2⟩, fun hend => post_pure.2 ⟨rfl, fun _ _ => by omega, fun _ => ?_⟩⟩
    exact ⟨fun j hj hlt => by omega, not_not.1 hend⟩
  | succ left ih =>
    rw [zipWalkFrom, post_bind]
    refine (post_zipReadCentral hdata hstop).imp ?_ ?_
    · rintro ⟨entry, next⟩ s' ⟨rfl, hrecord, hread⟩
      obtain ⟨rfl, rfl⟩ := Prod.mk.inj hread
      rw [post_ite]
      refine ⟨fun hindex => post_pure.2 ⟨rfl, fun _ _ => by rw [hindex], fun hpast => by omega⟩, fun hindex => ?_⟩
      refine (ih (i + 1) _).imp ?_ ?_
      · rintro r s' ⟨rfl, hfound, hall⟩
        refine ⟨rfl, fun hlow hhigh => hfound (by omega) (by omega), fun hpast => ?_⟩
        exact centralRun_cons.2 ⟨hrecord, hall (by omega)⟩
      · rintro e s' ⟨rfl, hnot⟩
        exact ⟨rfl, fun h => hnot (centralRun_cons.1 h).2⟩
    · rintro e s' ⟨rfl, hnot⟩
      exact ⟨rfl, fun h => hnot (centralRun_cons.1 h).1⟩

/-- An archive that opens: its directory lies in it and is made of whole records. -/
structure ZipArchive.Opened (archive : ZipArchive) (data : Bytes) : Prop where
  same : archive.data = data
  inside : archive.directoryOffset + archive.directorySize ≤ data.length
  records : CentralRun data archive.directoryOffset (archive.directoryOffset + archive.directorySize) 0 archive.entryCount

/-- **The search for the end record** stays in the archive. -/
theorem post_zipFindEnd {floor position : ℕ} (hfloor : floor ≤ position) (hroom : position + zipEndFixed ≤ data.length) :
    Post (zipFindEnd data floor position) s (fun found s' => s' = s ∧ found + zipEndFixed ≤ data.length)
      (fun _ s' => s' = s) := by
  have hfixed : zipEndFixed = 22 := rfl
  have hat : ∀ position, position + zipEndFixed ≤ data.length → ∀ {Q : Bool → σ → Prop} {R : ZipStatus → σ → Prop},
      (∀ found, Q found s) → Post (zipEndAt data position) s Q R := by
    intro position hposition Q R hQ
    rw [zipEndAt, post_bind, post_zipRead32]
    refine ⟨by omega, ?_⟩
    rw [post_ite]
    refine ⟨fun _ => post_pure.2 (hQ _), fun _ => ?_⟩
    simp only [post_bind, post_zipRead16, post_sub32, post_pure]
    exact ⟨by omega, by omega, by omega, hQ _⟩
  induction position with
  | zero =>
    rw [zipFindEnd, post_bind]
    refine hat 0 hroom fun found => ?_
    rw [post_ite]
    refine ⟨fun _ => post_pure.2 ⟨rfl, hroom⟩, fun _ => ?_⟩
    rw [post_bind, post_check]
    exact ⟨by omega, post_stop.2 rfl⟩
  | succ position ih =>
    rw [zipFindEnd, post_bind]
    refine hat (position + 1) hroom fun found => ?_
    rw [post_ite]
    refine ⟨fun _ => post_pure.2 ⟨rfl, hroom⟩, fun _ => ?_⟩
    rw [post_ite]
    exact ⟨fun _ => post_stop.2 rfl, fun hne => ih (by omega) (by omega)⟩

/-- **Opening** ends on every buffer, and an archive that opens has a sound directory. -/
theorem post_zipOpen (hdata : data.length < 2 ^ 32) :
    Post (zipOpen data) s (fun archive s' => s' = s ∧ archive.Opened data) (fun _ s' => s' = s) := by
  have hfixed : zipEndFixed = 22 := rfl
  unfold zipOpen
  rw [post_ite]
  refine ⟨fun _ => post_stop.2 rfl, fun hlong => ?_⟩
  rw [post_bind, post_sub32]
  refine ⟨by omega, ?_⟩
  rw [post_bind]
  have hfloor : (if data.length > zipEndSearch then data.length - zipEndSearch else 0) ≤ data.length - zipEndFixed := by
    have hsearch : zipEndSearch = 65557 := rfl
    split <;> omega
  refine (post_zipFindEnd hfloor (by omega)).imp ?_ (fun _ _ h => h)
  rintro position s' ⟨rfl, hposition⟩
  simp only [post_bind, post_zipRead16, post_zipRead32]
  refine ⟨by omega, by omega, by omega, by omega, ?_⟩
  rw [post_ite]
  refine ⟨fun _ => post_stop.2 rfl, fun _ => ?_⟩
  simp only [post_bind, post_zipRead16]
  refine ⟨by omega, by omega, ?_⟩
  rw [post_ite]
  refine ⟨fun _ => post_stop.2 rfl, fun _ => ?_⟩
  rw [post_ite]
  refine ⟨fun _ => post_stop.2 rfl, fun hbefore => ?_⟩
  rw [post_bind, post_sub32]
  refine ⟨by omega, ?_⟩
  rw [post_ite]
  refine ⟨fun _ => post_stop.2 rfl, fun hroom => ?_⟩
  rw [post_bind, zipWalk, post_bind, post_sum32]
  have hinside : (data.readU32 (position + 16)).toNat + (data.readU32 (position + 12)).toNat ≤ data.length := by omega
  refine ⟨lt_of_le_of_lt hinside hdata, ?_⟩
  refine (post_zipWalkFrom hdata hinside _ 0 none).imp ?_ ?_
  · rintro r s' ⟨rfl, -, hall⟩
    exact post_pure.2 ⟨rfl, rfl, hinside, hall (Nat.zero_add _).le⟩
  · rintro e s' ⟨rfl, -⟩
    rfl

/-! ## One entry -/

/-- The indexed entry of the directory. -/
def ZipArchive.entry (archive : ZipArchive) (index : ℕ) : ZipEntry :=
  centralEntry archive.data (centralOffset archive.data archive.directoryOffset index) index

/-- The local header with its name and extra field. -/
def localLength (data : Bytes) (offset : ℕ) : ℕ :=
  zipLocalFixed + (data.readU16 (offset + 26)).toNat + (data.readU16 (offset + 28)).toNat

/-- So many bytes of the archive. -/
def bytesAt (data : Bytes) (offset length : ℕ) : Bytes := (data.drop offset).take length

/-- The local header of an entry agrees with it, and its data lies before the directory. -/
structure ZipLocal (archive : ZipArchive) (entry : ZipEntry) : Prop where
  inside : entry.localOffset + localLength archive.data entry.localOffset + entry.compressedSize ≤ archive.directoryOffset
  signature : archive.data.readU32 entry.localOffset = zipLocalSignature
  unencrypted : archive.data.readU16 (entry.localOffset + 6) &&& zipFlagsEncrypted = 0
  method : archive.data.readU16 (entry.localOffset + 8) = entry.method
  nameLength : (archive.data.readU16 (entry.localOffset + 26)).toNat = entry.nameLength
  name : bytesAt archive.data (entry.localOffset + zipLocalFixed) entry.nameLength =
    bytesAt archive.data entry.name entry.nameLength

/-- The data of an entry, behind its local header. -/
def zipData (archive : ZipArchive) (entry : ZipEntry) : Bytes :=
  bytesAt archive.data (entry.localOffset + localLength archive.data entry.localOffset) entry.compressedSize

/-- What an entry's data stands for: itself, or what it inflates to. -/
def ZipContent (entry : ZipEntry) (packed bytes : Bytes) : Prop :=
  if entry.method = zipMethodStored then entry.compressedSize = entry.uncompressedSize ∧ bytes = packed
  else Deflate.inflate packed = some bytes ∧ bytes.length = entry.uncompressedSize

/-- The bytes that can be had of an entry, in a buffer of some capacity. -/
structure ZipExtracts (archive : ZipArchive) (entry : ZipEntry) (capacity : ℕ) (bytes : Bytes) : Prop where
  unencrypted : entry.flags &&& zipFlagsEncrypted = 0
  method : entry.method = zipMethodStored ∨ entry.method = zipMethodDeflate
  fits : entry.uncompressedSize ≤ capacity
  header : ZipLocal archive entry
  content : ZipContent entry (zipData archive entry) bytes
  crc : crc32 bytes = entry.crc32

/-! ## The local header -/

theorem bytesAt_get {offset length i : ℕ} (hi : i < length) (hroom : offset + length ≤ data.length) :
    (bytesAt data offset length)[i]? = some (data.at' (offset + i)) := by
  have hlt : offset + i < data.length := by omega
  rw [bytesAt, List.getElem?_take_of_lt hi, List.getElem?_drop, at', List.getD_eq_getElem?_getD, List.getElem?_eq_getElem hlt,
    Option.getD_some]

theorem bytesAt_length {offset length : ℕ} (hroom : offset + length ≤ data.length) :
    (bytesAt data offset length).length = length := by
  rw [bytesAt, List.length_take, List.length_drop]
  omega

/-- **The names are compared** byte by byte. -/
theorem post_zipCompareName {here there length : ℕ} (hhere : here + length ≤ data.length)
    (hthere : there + length ≤ data.length) :
    Post (zipCompareName data here there length) s
      (fun _ s' => s' = s ∧ bytesAt data here length = bytesAt data there length)
      (fun _ s' => s' = s ∧ bytesAt data here length ≠ bytesAt data there length) := by
  have hloop : Post (zipCompareName data here there length) s
      (fun _ s' => s' = s ∧ ∀ j < length, data.at' (here + j) = data.at' (there + j))
      (fun _ s' => s' = s ∧ bytesAt data here length ≠ bytesAt data there length) := by
    refine post_foldlM_range (I := fun i _ s' => s' = s ∧ ∀ j < i, data.at' (here + j) = data.at' (there + j)) length ?_
      ⟨rfl, fun j hj => by omega⟩
    rintro i hi - s' ⟨rfl, hsame⟩
    simp only [post_bind, post_zipRead8]
    refine ⟨by omega, by omega, ?_⟩
    rw [post_ite]
    refine ⟨fun hdiffer => post_stop.2 ⟨rfl, fun hall => hdiffer ?_⟩, fun heq => post_pure.2 ⟨rfl, fun j hj => ?_⟩⟩
    · have hget : (bytesAt data here length)[i]? = (bytesAt data there length)[i]? := by rw [hall]
      rw [bytesAt_get hi hhere, bytesAt_get hi hthere] at hget
      exact Option.some.inj hget
    · rcases Nat.lt_succ_iff_lt_or_eq.1 hj with hj | rfl
      · exact hsame j hj
      · exact not_not.1 heq
  refine hloop.imp (fun _ s' h => ⟨h.1, ?_⟩) (fun _ _ h => h)
  refine List.ext_getElem? fun i => ?_
  by_cases hi : i < length
  · rw [bytesAt_get hi hhere, bytesAt_get hi hthere, h.2 i hi]
  · rw [List.getElem?_eq_none (by rw [bytesAt_length hhere]; omega),
      List.getElem?_eq_none (by rw [bytesAt_length hthere]; omega)]

/-- **The local header is checked** against its entry. -/
theorem post_zipExtractLocal {archive : ZipArchive} {entry : ZipEntry} (hdata : archive.data.length < 2 ^ 32)
    (hdirectory : archive.directoryOffset ≤ archive.data.length)
    (hname : entry.name + entry.nameLength ≤ archive.data.length) :
    Post (zipExtractLocal archive entry) s
      (fun offset s' => s' = s ∧ ZipLocal archive entry ∧
        offset = entry.localOffset + localLength archive.data entry.localOffset)
      (fun _ s' => s' = s ∧ ¬ZipLocal archive entry) := by
  have hfixed : zipLocalFixed = 30 := rfl
  have h26 := (archive.data.readU16 (entry.localOffset + 26)).toNat_lt
  have h28 := (archive.data.readU16 (entry.localOffset + 28)).toNat_lt
  have hheader : zipLocalFixed + (archive.data.readU16 (entry.localOffset + 26)).toNat +
      (archive.data.readU16 (entry.localOffset + 28)).toNat = localLength archive.data entry.localOffset := rfl
  unfold zipExtractLocal
  rw [post_ite]
  refine ⟨fun hpast => post_stop.2 ⟨rfl, fun h => by have := h.inside; omega⟩, fun hpast => ?_⟩
  rw [post_bind, post_sub32]
  refine ⟨by omega, ?_⟩
  rw [post_ite]
  refine ⟨fun hshort => post_stop.2 ⟨rfl, fun h => by have := h.inside; omega⟩, fun hshort => ?_⟩
  rw [post_bind, post_zipRead32]
  refine ⟨by omega, ?_⟩
  rw [post_ite, Nat.add_zero]
  refine ⟨fun hsig => post_stop.2 ⟨rfl, fun h => hsig h.signature⟩, fun hsig => ?_⟩
  simp only [post_bind, post_zipRead16, post_sum32]
  refine ⟨by omega, by omega, by omega, by omega, ?_⟩
  change Post (if archive.directoryOffset - entry.localOffset < localLength archive.data entry.localOffset then _ else _) s _ _
  rw [post_ite]
  refine ⟨fun hroom => post_stop.2 ⟨rfl, fun h => by have := h.inside; omega⟩, fun hroom => ?_⟩
  rw [post_bind, post_zipRead16]
  refine ⟨by omega, ?_⟩
  rw [post_ite]
  refine ⟨fun hflags => post_stop.2 ⟨rfl, fun h => hflags h.unencrypted⟩, fun hflags => ?_⟩
  rw [post_bind, post_zipRead16]
  refine ⟨by omega, ?_⟩
  rw [post_ite]
  refine ⟨fun hmethod => post_stop.2 ⟨rfl, fun h => hmethod h.method⟩, fun hmethod => ?_⟩
  rw [post_ite]
  refine ⟨fun hnames => post_stop.2 ⟨rfl, fun h => hnames h.nameLength⟩, fun hnames => ?_⟩
  rw [not_not] at hnames
  have hlocal : entry.localOffset + zipLocalFixed + entry.nameLength ≤ archive.data.length := by omega
  rw [post_bind]
  refine (post_zipCompareName hlocal hname).imp ?_ ?_
  · rintro - s' ⟨rfl, hsame⟩
    rw [post_bind, post_sub32]
    refine ⟨by omega, ?_⟩
    rw [post_ite]
    refine ⟨fun hcut => post_stop.2 ⟨rfl, fun h => by have := h.inside; omega⟩, fun hfits => ?_⟩
    rw [post_sum32]
    refine ⟨by omega, rfl, ⟨by omega, not_not.1 hsig, not_not.1 hflags, not_not.1 hmethod, hnames, hsame⟩, rfl⟩
  · rintro e s' ⟨rfl, hdiffer⟩
    exact ⟨rfl, fun h => hdiffer h.name⟩

/-! ## The data -/

theorem bytesAt_succ {offset length : ℕ} (hroom : offset + length < data.length) :
    bytesAt data offset (length + 1) = bytesAt data offset length ++ [data.at' (offset + length)] := by
  rw [bytesAt, bytesAt, List.take_add_one, List.getElem?_drop, at', List.getD_eq_getElem?_getD,
    List.getElem?_eq_getElem hroom]
  rfl

/-- **Stored data is copied** into the output. -/
theorem post_zipCopy {offset length : ℕ} {out : ZipOutput} {R : ZipStatus → ZipOutput → Prop}
    (hdata : data.length < 2 ^ 32) (hroom : offset + length ≤ data.length) (hfits : length ≤ out.buffer.length) :
    Post (zipCopy data offset length) out
      (fun _ out' => out'.buffer.length = out.buffer.length ∧ out'.length = length ∧
        out'.buffer.take length = bytesAt data offset length) R := by
  unfold zipCopy
  rw [post_bind]
  refine (post_foldlM_range (I := fun i _ (out' : ZipOutput) => out'.buffer.length = out.buffer.length ∧
    out'.buffer.take i = bytesAt data offset i) length ?_ ⟨rfl, rfl⟩).imp (fun _ out' h => post_modify.2 ⟨h.1, rfl, h.2⟩) fun _ _ h => h
  rintro i hi - out' ⟨hlength, hsame⟩
  simp only [post_bind, post_sum32, post_zipRead8, post_get, post_check, post_modify]
  refine ⟨by omega, by omega, by omega, by rw [List.length_set, hlength], ?_⟩
  have hlt : i < out'.buffer.length := by omega
  rw [bytesAt_succ (by omega), ← hsame, List.take_add_one, List.take_set_of_le le_rfl, List.getElem?_set_self hlt]
  rfl

/-- **Deflated data** is decoded into the front of the output. -/
theorem post_zipInflate {scratch : InflateScratch} {offset length capacity : ℕ} {out : ZipOutput}
    {R : ZipStatus → ZipOutput → Prop} (hroom : offset + length ≤ data.length) (hfits : capacity ≤ out.buffer.length) :
    Post (zipInflate scratch data offset length capacity) out
      (fun status out' => out'.buffer.length = out.buffer.length ∧ out'.length ≤ capacity ∧
        ∀ o, (status = .ok ∧ out'.buffer.take out'.length = o) ↔
          (Deflate.inflate (bytesAt data offset length) = some o ∧ o.length ≤ capacity)) R := by
  obtain ⟨r, hr, hlength, hposition, hok⟩ := inflate_eq_rfc (bytesAt data offset length) (out.buffer.take capacity)
  have hcapacity : (out.buffer.take capacity).length = capacity := by
    rw [List.length_take]
    omega
  rw [hcapacity] at hlength hposition hok
  unfold zipInflate
  simp only [post_bind, post_check, post_get]
  refine ⟨hroom, hfits, ?_⟩
  rw [← bytesAt, hr scratch]
  simp only [post_bind, post_modify, post_pure]
  refine ⟨?_, hposition, fun o => ?_⟩
  · rw [List.length_append, List.length_drop]
    omega
  · rw [List.take_append_of_le_length (by omega)]
    exact hok o

theorem zipContent_unique {entry : ZipEntry} {packed a b : Bytes} (ha : ZipContent entry packed a)
    (hb : ZipContent entry packed b) : a = b := by
  unfold ZipContent at ha hb
  split at ha
  · rename_i hstored
    rw [if_pos hstored] at hb
    rw [ha.2, hb.2]
  · rename_i hdeflate
    rw [if_neg hdeflate] at hb
    exact Option.some.inj (ha.1.symm.trans hb.1)

/-- **An entry's data** gives its content. -/
theorem post_zipUnpack {scratch : InflateScratch} {entry : ZipEntry} {offset : ℕ} {out : ZipOutput}
    (hdata : data.length < 2 ^ 32) (hroom : offset + entry.compressedSize ≤ data.length)
    (hfits : entry.uncompressedSize ≤ out.buffer.length) :
    Post (zipUnpack scratch data entry offset) out
      (fun _ out' => out'.buffer.length = out.buffer.length ∧ out'.length ≤ out.buffer.length ∧
        ZipContent entry (bytesAt data offset entry.compressedSize) (out'.buffer.take out'.length))
      (fun _ out' => out'.buffer.length = out.buffer.length ∧
        ∀ bytes, ¬ZipContent entry (bytesAt data offset entry.compressedSize) bytes) := by
  unfold zipUnpack
  rw [post_ite]
  refine ⟨fun hstored => ?_, fun hdeflate => ?_⟩
  · rw [post_ite]
    have hcontent : ∀ bytes, ZipContent entry (bytesAt data offset entry.compressedSize) bytes ↔
        entry.compressedSize = entry.uncompressedSize ∧ bytes = bytesAt data offset entry.compressedSize := fun bytes => by
      rw [ZipContent, if_pos hstored]
    refine ⟨fun hsize => post_stop.2 ⟨rfl, fun bytes h => hsize ((hcontent bytes).1 h).1⟩, fun hsize => ?_⟩
    rw [not_not] at hsize
    refine (post_zipCopy hdata hroom (by omega)).imp ?_ fun _ _ h => h
    rintro - out' ⟨hbuffer, hlength, hcopied⟩
    exact ⟨hbuffer, by omega, (hcontent _).2 ⟨hsize, by rw [hlength, hcopied]⟩⟩
  · have hcontent : ∀ bytes, ZipContent entry (bytesAt data offset entry.compressedSize) bytes ↔
        Deflate.inflate (bytesAt data offset entry.compressedSize) = some bytes ∧ bytes.length = entry.uncompressedSize :=
      fun bytes => by rw [ZipContent, if_neg hdeflate]
    rw [post_bind]
    refine (post_zipInflate hroom hfits).imp ?_ fun _ _ h => h
    rintro status out' ⟨hbuffer, hlength, hok⟩
    -- a status other than OK leaves no content
    have hnone : status ≠ .ok → ∀ bytes, ¬ZipContent entry (bytesAt data offset entry.compressedSize) bytes := by
      intro hstatus bytes h
      obtain ⟨hinflate, hsize⟩ := (hcontent bytes).1 h
      exact hstatus ((hok bytes).2 ⟨hinflate, hsize.le⟩).1
    rw [post_ite]
    refine ⟨fun hfull => post_stop.2 ⟨hbuffer, hnone (by rw [hfull]; decide)⟩, fun _ => ?_⟩
    rw [post_ite]
    refine ⟨fun hbad => post_stop.2 ⟨hbuffer, hnone hbad⟩, fun hgood => ?_⟩
    rw [not_not] at hgood
    obtain ⟨hinflate, -⟩ := (hok _).1 ⟨hgood, rfl⟩
    have htaken : (out'.buffer.take out'.length).length = out'.length := by
      rw [List.length_take]
      omega
    rw [post_bind, post_get, post_ite]
    refine ⟨fun hsize => post_stop.2 ⟨hbuffer, fun bytes h => ?_⟩, fun hsize => post_pure.2 ⟨hbuffer, by omega, ?_⟩⟩
    · obtain ⟨hinflate', hsize'⟩ := (hcontent bytes).1 h
      rw [hinflate] at hinflate'
      rw [← Option.some.inj hinflate', htaken] at hsize'
      exact hsize hsize'
    · exact (hcontent _).2 ⟨hinflate, htaken.trans (not_not.1 hsize)⟩

theorem post_zipCheckCrc {entry : ZipEntry} {out : ZipOutput} (hlength : out.length ≤ out.buffer.length) :
    Post (zipCheckCrc entry) out (fun _ out' => out' = out ∧ crc32 (out.buffer.take out.length) = entry.crc32)
      (fun _ out' => out' = out ∧ crc32 (out.buffer.take out.length) ≠ entry.crc32) := by
  unfold zipCheckCrc
  simp only [post_bind, post_get, post_check]
  refine ⟨hlength, ?_⟩
  rw [post_ite]
  exact ⟨fun hbad => post_stop.2 ⟨rfl, hbad⟩, fun hgood => post_pure.2 ⟨rfl, not_not.1 hgood⟩⟩

/-! ## Extraction -/

/-- The name of a directory's entry lies in the archive. -/
theorem ZipArchive.Opened.entry_name {archive : ZipArchive} (h : archive.Opened data) {index : ℕ}
    (hindex : index < archive.entryCount) :
    (archive.entry index).name + (archive.entry index).nameLength ≤ archive.data.length := by
  have hrecord := h.records.1 index (Nat.zero_le _) (by omega)
  have hroom := hrecord.room
  have hinside := h.inside
  rw [ZipArchive.entry, h.same]
  unfold centralLength at hroom
  simp only [centralEntry]
  omega

/-- **An entry of the directory** is the record at its place. -/
theorem post_zipEntryAt {archive : ZipArchive} {index : ℕ} (hdata : data.length < 2 ^ 32) (hopened : archive.Opened data) :
    Post (zipEntryAt archive index) s
      (fun found s' => s' = s ∧ index < archive.entryCount ∧ found = some (archive.entry index))
      (fun _ s' => s' = s ∧ archive.entryCount ≤ index) := by
  have hsame := hopened.same
  have hinside := hopened.inside
  unfold zipEntryAt
  rw [post_ite]
  refine ⟨fun hpast => post_stop.2 ⟨rfl, hpast⟩, fun hindex => ?_⟩
  rw [zipWalk, post_bind, post_sum32]
  refine ⟨lt_of_le_of_lt hinside hdata, ?_⟩
  rw [hsame]
  refine (post_zipWalkFrom hdata hinside _ 0 none).imp ?_ ?_
  · rintro found s' ⟨rfl, hfound, -⟩
    refine ⟨rfl, not_le.1 hindex, ?_⟩
    rw [ZipArchive.entry, hsame]
    exact hfound (Nat.zero_le _) (by omega)
  · rintro e s' ⟨-, hnot⟩
    exact absurd hopened.records hnot

/-- **Extraction**, on an archive that opened. -/
theorem post_zipExtract {scratch : InflateScratch} {archive : ZipArchive} {index : ℕ} {out : ZipOutput}
    (hdata : data.length < 2 ^ 32) (hopened : archive.Opened data) :
    Post (zipExtract scratch archive index) out
      (fun _ out' => out'.buffer.length = out.buffer.length ∧ out'.length ≤ out.buffer.length ∧
        index < archive.entryCount ∧
          ZipExtracts archive (archive.entry index) out.buffer.length (out'.buffer.take out'.length))
      (fun _ out' => out'.buffer.length = out.buffer.length ∧
        ¬(index < archive.entryCount ∧ ∃ bytes, ZipExtracts archive (archive.entry index) out.buffer.length bytes)) := by
  have hsame := hopened.same
  have hinside := hopened.inside
  unfold zipExtract
  rw [post_bind, post_modify, post_bind]
  refine (post_zipEntryAt hdata hopened).imp ?_ ?_
  swap
  · rintro e out' ⟨rfl, hpast⟩
    exact ⟨rfl, fun h => absurd h.1 (not_lt.2 hpast)⟩
  rintro found out' ⟨rfl, hlt, rfl⟩
  dsimp only
  have hentry := hopened.entry_name hlt
  generalize archive.entry index = entry at hentry ⊢
  rw [post_ite]
  refine ⟨fun hflags => post_stop.2 ⟨rfl, fun ⟨_, _, h⟩ => hflags h.unencrypted⟩, fun hflags => ?_⟩
  rw [post_ite]
  refine ⟨fun hmethod => post_stop.2 ⟨rfl, fun ⟨_, _, h⟩ => ?_⟩, fun hmethod => ?_⟩
  · rcases h.method with h | h
    · exact hmethod.1 h
    · exact hmethod.2 h
  rw [post_bind, post_get, post_ite]
  refine ⟨fun hsmall => post_stop.2 ⟨rfl, fun ⟨_, _, h⟩ => not_lt.2 h.fits hsmall⟩, fun hfits => ?_⟩
  have hroomy : entry.uncompressedSize ≤ out.buffer.length := not_lt.1 hfits
  have harchive : archive.data.length < 2 ^ 32 := by rw [hsame]; exact hdata
  have hdirectory : archive.directoryOffset ≤ archive.data.length := by rw [hsame]; omega
  rw [post_bind]
  refine (post_zipExtractLocal harchive hdirectory hentry).imp ?_ ?_
  swap
  · rintro e out' ⟨rfl, hnot⟩
    exact ⟨rfl, fun ⟨_, _, h⟩ => hnot h.header⟩
  rintro offset out' ⟨rfl, hheader, rfl⟩
  have hroom : entry.localOffset + localLength archive.data entry.localOffset + entry.compressedSize ≤
      archive.data.length := hheader.inside.trans hdirectory
  rw [post_bind]
  have hbuffer : entry.uncompressedSize ≤ (ZipOutput.mk out.buffer 0).buffer.length := hroomy
  refine (post_zipUnpack harchive hroom hbuffer).imp ?_ ?_
  swap
  · rintro e out' ⟨hbuffer, hnone⟩
    exact ⟨hbuffer, fun ⟨_, bytes, h⟩ => hnone bytes h.content⟩
  rintro - out' ⟨hbuffer, hlength, hcontent⟩
  refine (post_zipCheckCrc (by rw [hbuffer]; exact hlength)).imp ?_ ?_
  · rintro - out'' ⟨rfl, hcrc⟩
    have hmethods : entry.method = zipMethodStored ∨ entry.method = zipMethodDeflate := by
      by_contra hneither
      exact hmethod (not_or.1 hneither)
    exact ⟨hbuffer, hlength, hlt, not_not.1 hflags, hmethods, hroomy, hheader, hcontent, hcrc⟩
  · rintro e out'' ⟨rfl, hbad⟩
    refine ⟨hbuffer, fun ⟨_, bytes, h⟩ => hbad ?_⟩
    rw [zipContent_unique hcontent h.content]
    exact h.crc

theorem zipExtract_scratch (scratch scratch' : InflateScratch) (archive : ZipArchive) (index : ℕ) :
    zipExtract scratch archive index = zipExtract scratch' archive index := by
  have hinflate : zipInflate scratch = zipInflate scratch' := by
    funext data offset length capacity
    unfold zipInflate
    simp only [inflate_scratch scratch scratch']
  unfold zipExtract zipUnpack
  rw [hinflate]

/-- **Extraction is sound.** From an archive that opened, it ends on every index, capacity and
scratch state, within the archive, the output and 32 bits; and it is successful exactly for an
entry that `ZipExtracts` allows, with these bytes and their number. -/
theorem zip_extract_iff (data : Bytes) (hdata : data.length < 2 ^ 32) (archive : ZipArchive)
    (hopen : zipOpen data () = some (.ok archive, ())) (index : ℕ) (output : ZipOutput) :
    ∃ result output', (∀ scratch, zipExtract scratch archive index output = some (result, output')) ∧
      output'.buffer.length = output.buffer.length ∧
        ∀ bytes, (result = .ok () ∧ output'.buffer.take output'.length = bytes ∧ output'.length = bytes.length) ↔
          (index < archive.entryCount ∧ ZipExtracts archive (archive.entry index) output.buffer.length bytes) := by
  have hopened : archive.Opened data := by
    have hpost := post_zipOpen (s := ()) hdata
    unfold Post at hpost
    rw [hopen] at hpost
    exact hpost.2
  let scratch : InflateScratch := ⟨⟨fun _ => 0, fun _ => 0⟩, ⟨fun _ => 0, fun _ => 0⟩, fun _ => 0⟩
  have hpost := @post_zipExtract data scratch archive index output hdata hopened
  unfold Post at hpost
  cases hrun : zipExtract scratch archive index output with
  | none =>
    rw [hrun] at hpost
    exact hpost.elim
  | some pair =>
    obtain ⟨result, output'⟩ := pair
    rw [hrun] at hpost
    refine ⟨result, output', fun scratch' => by rw [zipExtract_scratch scratch' scratch, hrun], ?_⟩
    cases result with
    | error e =>
      obtain ⟨hbuffer, hnot⟩ := hpost
      exact ⟨hbuffer, fun bytes => iff_of_false (fun h => by cases h.1) fun h => hnot ⟨h.1, bytes, h.2⟩⟩
    | ok value =>
      obtain ⟨hbuffer, hlength, hindex, hextracts⟩ := hpost
      refine ⟨hbuffer, fun bytes => ⟨?_, fun h => ?_⟩⟩
      · rintro ⟨-, rfl, -⟩
        exact ⟨hindex, hextracts⟩
      · have hbytes := zipContent_unique hextracts.content h.2.content
        refine ⟨rfl, hbytes, ?_⟩
        rw [← hbytes, List.length_take]
        omega

/-- An archive of one stored file `A` that holds two bytes. -/
def zipSample : Bytes :=
  [80, 75, 3, 4, 20, 0, 0, 0, 0, 0, 0, 0, 217, 36, 172, 42, 147, 216, 2, 0, 0, 0, 2, 0, 0, 0, 1,
    0, 0, 0, 65, 104, 105, 80, 75, 1, 2, 20, 0, 20, 0, 0, 0, 0, 0, 0, 0, 217, 36, 172, 42, 147,
    216, 2, 0, 0, 0, 2, 0, 0, 0, 1, 0, 0, 0, 0, 0, 0, 0, 0, 0, 0, 0, 128, 1, 0, 0, 0, 0, 65, 80,
    75, 5, 6, 0, 0, 0, 0, 1, 0, 1, 0, 47, 0, 0, 0, 33, 0, 0, 0, 0, 0]

theorem zipSample_open : zipOpen zipSample () = some (.ok ⟨zipSample, 33, 47, 1⟩, ()) := by
  rfl

theorem zip_extract_iff_demo : ∃ result output',
    (∀ scratch, zipExtract scratch ⟨zipSample, 33, 47, 1⟩ 0 ⟨[0, 0, 0], 0⟩ = some (result, output')) ∧
      output'.buffer.length = 3 ∧
        ∀ bytes, (result = .ok () ∧ output'.buffer.take output'.length = bytes ∧ output'.length = bytes.length) ↔
          (0 < 1 ∧ ZipExtracts ⟨zipSample, 33, 47, 1⟩ ((ZipArchive.mk zipSample 33 47 1).entry 0) 3 bytes) :=
  zip_extract_iff zipSample (by decide) _ zipSample_open 0 _

end V9xRemote
