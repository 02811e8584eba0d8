import V9xRemote.Proof.Http
import V9xRemote.Spec.SelfUpdate
import V9xRemote.Proof.UpdateRelease
import V9xRemote.Proof.ZipRead

/-!
# Self-update runs only what was signed

What the network sends is only looked at through `suReply`. A run that writes or starts anything
has a package that `SuPackage` describes: its release text is signed, says its length and
hash, and has the version that was offered and that is newer. Until the package is unpacked a
run is `Idle`; what it does from there on is `Staged` from that package.
-/

namespace V9xRemote

open Bytes Checked

/-- The body of the reply to a request, where its status is 200. -/
def suReply (world : SuWorld) (request : SuRequest) (url : Bytes) (capacity : ℕ) : Option Bytes :=
  let got := httpRequest (world.http request) ⟨ascii "GET", url, none, none⟩ (capacity - 1)
  got.2.bind fun response =>
    if response.status = 200 then some ((got.1.drop response.bodyOffset).take response.bodyLength) else none

/-! ## States -/

/-- The three buffers are there. -/
structure SuReady (s : SuState) : Prop where
  buffer : s.buffer.length = suTextMax
  signedText : s.signedText.length = suTextMax
  zipBuffer : s.zipBuffer.length = suZipMax + 16384

/-- Nothing is written and nothing is started. -/
structure SuState.Idle (s : SuState) (folder : List (Bytes × Bytes)) : Prop where
  folder : s.folder = folder
  events : ∀ image, .started image ∉ s.events

/-- A body that stands in its buffer. -/
structure SuState.Holds (s : SuState) (body : SuBody) (text : Bytes) : Prop where
  inside : body.offset + body.length ≤ (s.load body.place).length
  text : ((s.load body.place).drop body.offset).take body.length = text

theorem SuState.Holds.length {s : SuState} {body : SuBody} {text : Bytes} (h : s.Holds body text) :
    text.length = body.length := by
  rw [← h.text, List.length_take, List.length_drop]
  have hinside := h.inside
  omega

@[simp] theorem SuState.load_store (s : SuState) (b : SuBuffer) (bytes : Bytes) : (s.store b bytes).load b = bytes := by
  cases b <;> rfl

theorem SuReady.store {s : SuState} (h : SuReady s) {b : SuBuffer} {bytes : Bytes}
    (hlength : bytes.length = (s.load b).length) : SuReady (s.store b bytes) := by
  cases b with
  | text => exact ⟨hlength.trans h.buffer, h.signedText, h.zipBuffer⟩
  | zip => exact ⟨h.buffer, h.signedText, hlength.trans h.zipBuffer⟩

theorem SuReady.load_text {s : SuState} (h : SuReady s) : (s.load .text).length = suTextMax := h.buffer

theorem SuReady.load_zip {s : SuState} (h : SuReady s) : (s.load .zip).length = suZipMax + 16384 := h.zipBuffer

variable {s : SuState} {folder : List (Bytes × Bytes)} {world : SuWorld}

theorem SuState.Idle.store (h : s.Idle folder) (b : SuBuffer) (bytes : Bytes) : (s.store b bytes).Idle folder := by
  cases b <;> exact ⟨h.folder, h.events⟩

theorem SuState.Idle.did (h : s.Idle folder) {e : SuEvent} (he : ∀ image, e ≠ .started image) : (s.did e).Idle folder :=
  ⟨h.folder, fun image hmem => (List.mem_append.1 hmem).elim (h.events image) fun hlast =>
    he image (List.mem_singleton.1 hlast).symm⟩

theorem suFile_cons (name bytes wanted : Bytes) (rest : List (Bytes × Bytes)) :
    suFile world ((name, bytes) :: rest) wanted =
      if world.sameFile name wanted then some bytes else suFile world rest wanted := by
  unfold suFile
  rw [List.find?_cons]
  cases world.sameFile name wanted <;> rfl

/-! ## Steps -/

variable {α : Type}

/-- **A run that fails** shows or records it, and ends with 1. -/
theorem post_suFail {text : String} {Q : α → SuState → Prop} {R : ℕ → SuState → Prop}
    (h : ∀ e, (∀ image, e ≠ .started image) → R 1 (s.did e)) : Post (suFail world text) s Q R := by
  unfold suFail
  rw [post_bind, post_modify, post_stop]
  refine h _ ?_
  cases world.quiet <;> exact nofun

theorem post_suFail_idle {text : String} {Q : α → SuState → Prop} (h : s.Idle folder) :
    Post (suFail world text) s Q (fun _ s' => s'.Idle folder) :=
  post_suFail fun _ he => h.did he

/-- A byte behind a body does not change it. -/
theorem take_drop_set_append {received rest : Bytes} {offset length : ℕ} (h : offset + length ≤ received.length) :
    (((received ++ rest).set (offset + length) 0).drop offset).take length = (received.drop offset).take length := by
  have hbehind : offset + length - offset = length := by omega
  have hinside : length ≤ (received.drop offset).length := by
    rw [List.length_drop]
    omega
  rw [List.drop_set, if_neg (by omega), hbehind, List.take_set_of_le le_rfl, List.drop_append_of_le_length (by omega),
    List.take_append_of_le_length hinside]

/-- **A request** fills its buffer; the body is the reply's. -/
theorem post_suGet {request : SuRequest} {url : Bytes} {place : SuBuffer} {capacity : ℕ} {R : ℕ → SuState → Prop}
    (hready : SuReady s) (hidle : s.Idle folder) (hcapacity : 0 < capacity) (hroom : (s.load place).length = capacity) :
    Post (suGet world request url place capacity) s
      (fun got s' => SuReady s' ∧ s'.Idle folder ∧ ∀ body, got = some body →
        ∃ text, suReply world request url capacity = some text ∧ s'.Holds body text) R := by
  obtain ⟨hfits, hinside⟩ := httpRequest_fits (world.http request) ⟨ascii "GET", url, none, none⟩ (capacity - 1)
  unfold suGet
  have hreply : suReply world request url capacity =
    (httpRequest (world.http request) ⟨ascii "GET", url, none, none⟩ (capacity - 1)).2.bind fun response =>
      if response.status = 200 then
        some (((httpRequest (world.http request) ⟨ascii "GET", url, none, none⟩ (capacity - 1)).1.drop
          response.bodyOffset).take response.bodyLength)
      else none := rfl
  generalize httpRequest (world.http request) ⟨ascii "GET", url, none, none⟩ (capacity - 1) = got at hfits hinside hreply ⊢
  dsimp only
  rw [post_bind, post_get, post_bind, post_check]
  refine ⟨by omega, ?_⟩
  rw [post_bind, post_modify]
  have hlength : (got.1 ++ (s.load place).drop got.1.length).length = (s.load place).length := by
    rw [List.length_append, List.length_drop]
    omega
  have hready' := hready.store hlength
  have hidle' := hidle.store place (got.1 ++ (s.load place).drop got.1.length)
  cases hgot : got.2 with
  | none => exact post_pure.2 ⟨hready', hidle', nofun⟩
  | some response =>
    have hresponse := hinside response hgot
    dsimp only
    rw [post_ite]
    refine ⟨fun _ => post_pure.2 ⟨hready', hidle', nofun⟩, fun hstatus => ?_⟩
    rw [post_bind, post_get, post_bind, post_check, SuState.load_store]
    refine ⟨by omega, ?_⟩
    rw [post_bind, post_modify, post_pure, SuState.load_store]
    have hset : ((got.1 ++ (s.load place).drop got.1.length).set (response.bodyOffset + response.bodyLength) 0).length =
        ((s.store place (got.1 ++ (s.load place).drop got.1.length)).load place).length := by
      rw [List.length_set, SuState.load_store]
    refine ⟨hready'.store hset, hidle'.store _ _, ?_⟩
    rintro _ ⟨⟩
    refine ⟨(got.1.drop response.bodyOffset).take response.bodyLength, ?_, ?_, ?_⟩
    · rw [hreply, hgot, Option.bind_some, if_pos (not_not.1 hstatus)]
    · rw [SuState.load_store, List.length_set]
      dsimp only
      omega
    · rw [SuState.load_store]
      exact take_drop_set_append hresponse

theorem post_suBody {body : SuBody} {text : Bytes} {Q : Bytes → SuState → Prop} {R : ℕ → SuState → Prop}
    (h : s.Holds body text) : Post (suBody body) s Q R ↔ Q text s := by
  unfold suBody
  rw [post_bind, post_get, post_bind, post_check, post_pure, h.text]
  exact and_iff_right h.inside

/-- The value of a key in a text, as a C string. -/
def suValueOf (text : Bytes) (sect key : String) (capacity : ℕ) : Option Bytes :=
  (updateIniRead text text.length (ascii sect) (ascii key) capacity).map cstr

theorem post_suValue {body : SuBody} {text : Bytes} {sect key : String} {capacity : ℕ} {Q : Option Bytes → SuState → Prop}
    {R : ℕ → SuState → Prop} (h : s.Holds body text) :
    Post (suValue body sect key capacity) s Q R ↔ Q (suValueOf text sect key capacity) s := by
  unfold suValue
  rw [post_bind, post_suBody h, post_pure]
  rfl

/-! ## The offer and the release -/

/-- What the server offers. -/
def SuOffered (world : SuWorld) (offer : SuOffer) : Prop :=
  ∃ text, suReply world .offer (suCheckUrl world.server) suTextMax = some text ∧
    suValueOf text "update" "latest" 24 = some offer.latest ∧
      suValueOf text "update" "signed" httpMaxPath = some offer.signed ∧
        suValueOf text "package" "url" httpMaxPath = some offer.packageUrl

/-- **Asking** writes nothing and ends with what the server offers. -/
theorem post_suAsk (hready : SuReady s) (hidle : s.Idle folder) :
    Post (suAsk world) s (fun offer s' => SuReady s' ∧ s'.Idle folder ∧ SuOffered world offer)
      (fun _ s' => s'.Idle folder) := by
  unfold suAsk
  rw [post_bind]
  refine (post_suGet hready hidle (by decide) hready.load_text).imp ?_ fun _ _ h => h
  rintro (- | body) s' ⟨hready, hidle, hreply⟩
  · exact post_suFail_idle hidle
  obtain ⟨text, hreply, hholds⟩ := hreply body rfl
  dsimp only
  rw [post_bind, post_suValue hholds]
  cases suValueOf text "update" "status" 24 with
  | none => exact post_suFail_idle hidle
  | some status =>
    dsimp only
    rw [post_ite]
    refine ⟨fun _ => ?_, fun _ => ?_⟩
    · unfold suNoUpdate
      rw [post_bind, post_modify, post_stop]
      refine hidle.did ?_
      cases world.quiet <;> exact nofun
    · simp only [post_bind, post_suValue hholds]
      split
      · rename_i hlatest hsigned hurl _ _
        simp only [post_bind, post_suValue hholds, post_modify, post_pure]
        exact ⟨⟨hready.buffer, hready.signedText, hready.zipBuffer⟩, ⟨hidle.folder, hidle.events⟩, text, hreply, hlatest,
          hsigned, hurl⟩
      · exact post_suFail_idle hidle

/-- A release text that was sent for an offer: it has the signed form and its signed part is
signed, says these fields, has the version that was offered, and a newer one than this agent's. -/
structure SuReleased (world : SuWorld) (Signed : Bytes → Prop) (offer : SuOffer) (info : ReleaseInfo)
    (text signed hex : Bytes) : Prop where
  sent : suReply world .release offer.signed suTextMax = some text
  form : ReleaseForm text signed hex
  good : Signed signed
  fields : ReleaseSays signed updateApp updateFamily info
  offered : info.version = offer.latest
  newer : updateVersionCompare info.version agentVersionText = 1

variable {Signed : Bytes → Prop}

/-- **The signature decides**: a run gets past the release file with a signed one only. -/
theorem post_suRelease {offer : SuOffer} (hlstrcmp : ∀ a b, world.lstrcmp a b = true → a = b)
    (hsigned : ∀ signature message, world.verify signature releasePublicKey message = true → Signed message)
    (hready : SuReady s) (hidle : s.Idle folder) :
    Post (suRelease world offer) s
      (fun info s' => SuReady s' ∧ s'.Idle folder ∧ ∃ text signed hex, SuReleased world Signed offer info text signed hex)
      (fun _ s' => s'.Idle folder) := by
  unfold suRelease
  rw [post_bind]
  refine (post_suGet hready hidle (by decide) hready.load_text).imp ?_ fun _ _ h => h
  rintro (- | body) s' ⟨hready, hidle, hreply⟩
  · exact post_suFail_idle hidle
  obtain ⟨text, hreply, hholds⟩ := hreply body rfl
  have hlength := hholds.length
  dsimp only
  rw [post_ite]
  refine ⟨fun _ => post_suFail_idle hidle, fun hshort => ?_⟩
  unfold suCopySigned
  have hfits : text.length < s'.signedText.length := by
    rw [hready.signedText]
    omega
  simp only [post_bind, post_suBody hholds, post_get, post_check, post_modify]
  refine ⟨hfits, ?_⟩
  -- the copy is what was sent
  rw [← hlength, List.take_left]
  have hready' : SuReady { s' with signedText := text ++ 0 :: s'.signedText.drop (text.length + 1) } := by
    refine ⟨hready.buffer, ?_, hready.zipBuffer⟩
    dsimp only
    rw [List.length_append, List.length_cons, List.length_drop, hready.signedText] at *
    omega
  have hidle' : SuState.Idle { s' with signedText := text ++ 0 :: s'.signedText.drop (text.length + 1) } folder :=
    ⟨hidle.folder, hidle.events⟩
  cases hread : (releaseVerify world.verify releasePublicKey text).bind fun covered =>
      releaseRead text covered updateApp updateFamily with
  | none => exact post_suFail_idle hidle'
  | some info =>
    dsimp only
    rw [post_ite]
    refine ⟨fun _ => post_suFail_idle hidle', fun hsame => post_pure.2 ⟨hready', hidle', ?_⟩⟩
    rw [not_or, not_or, Bool.not_eq_true', Bool.not_eq_false, not_not] at hsame
    obtain ⟨covered, hverify, hfields⟩ := Option.bind_eq_some_iff.1 hread
    obtain ⟨signed, hex, hform, hgood, rfl⟩ := (releaseVerify_iff world.verify releasePublicKey text covered).1 hverify
    have hsays := (((release_accepted_iff world.verify releasePublicKey text).2 signed hex hform updateApp updateFamily).1
      info).1 hfields
    exact ⟨text, signed, hex, hreply, hform, hsigned _ _ hgood, hsays.1, hlstrcmp _ _ hsame.1, hsame.2.1⟩

/-! ## The package -/

theorem post_suNotes {url : Bytes} {R : ℕ → SuState → Prop} (hready : SuReady s) (hidle : s.Idle folder) :
    Post (suNotes world url) s (fun _ s' => SuReady s' ∧ s'.Idle folder) R := by
  unfold suNotes
  rw [post_ite]
  refine ⟨fun _ => post_pure.2 ⟨hready, hidle⟩, fun _ => ?_⟩
  rw [post_bind]
  refine (post_suGet hready hidle (by decide) hready.load_text).imp ?_ fun _ _ h => h
  rintro (- | body) s' ⟨hready, hidle, hreply⟩
  · exact post_pure.2 ⟨hready, hidle⟩
  obtain ⟨text, -, hholds⟩ := hreply body rfl
  dsimp only
  rw [post_bind, post_suBody hholds, post_pure]
  exact ⟨hready, hidle⟩

theorem post_suConfirm {info : ReleaseInfo} {notes : Bytes} (hready : SuReady s) (hidle : s.Idle folder) :
    Post (suConfirm world info notes) s (fun _ s' => SuReady s' ∧ s'.Idle folder) (fun _ s' => s'.Idle folder) := by
  unfold suConfirm
  rw [post_ite]
  refine ⟨fun _ => post_pure.2 ⟨hready, hidle⟩, fun _ => ?_⟩
  rw [post_bind, post_modify, post_ite]
  have hasked : (s.did (.question (suQuestion info.version notes))).Idle folder := hidle.did nofun
  exact ⟨fun _ => post_stop.2 hasked, fun _ => post_pure.2 ⟨⟨hready.buffer, hready.signedText, hready.zipBuffer⟩, hasked⟩⟩

/-- A package that a run may install: its length and its hash stand in a signed release text. -/
def SuPackage (world : SuWorld) (Signed : Bytes → Prop) (package : Bytes) : Prop :=
  ∃ offer info text signed hex, SuOffered world offer ∧ SuReleased world Signed offer info text signed hex ∧
    suReply world .package offer.packageUrl (suZipMax + 16384) = some package ∧
      package.length = info.size.toNat ∧ sha256 package = info.sha256

/-- **The length and the hash decide.** -/
theorem post_suPackage {offer : SuOffer} {info : ReleaseInfo} (hready : SuReady s) (hidle : s.Idle folder) :
    Post (suPackage world offer info) s
      (fun body s' => SuReady s' ∧ s'.Idle folder ∧ ∃ package, s'.Holds body package ∧
        suReply world .package offer.packageUrl (suZipMax + 16384) = some package ∧
          package.length = info.size.toNat ∧ sha256 package = info.sha256)
      (fun _ s' => s'.Idle folder) := by
  unfold suPackage
  rw [post_ite]
  refine ⟨fun _ => post_suFail_idle hidle, fun _ => ?_⟩
  rw [post_bind]
  refine (post_suGet hready hidle (by decide) hready.load_zip).imp ?_ fun _ _ h => h
  rintro (- | body) s' ⟨hready, hidle, hreply⟩
  · exact post_suFail_idle hidle
  obtain ⟨package, hreply, hholds⟩ := hreply body rfl
  dsimp only
  rw [post_bind, post_suBody hholds, post_ite]
  refine ⟨fun _ => post_suFail_idle hidle, fun hsame => post_pure.2 ⟨hready, hidle, package, hholds, hreply, ?_⟩⟩
  rw [not_or, not_not, not_not] at hsame
  exact ⟨hholds.length.trans hsame.1, hsame.2⟩

/-! ## Unpacking -/

/-- The content of an entry, under its name. -/
structure SuEntry (archive : ZipArchive) (index : ℕ) (name bytes : Bytes) : Prop where
  listed : index < archive.entryCount
  named : name = bytesAt archive.data (archive.entry index).name (archive.entry index).nameLength
  content : ZipExtracts archive (archive.entry index) ((archive.entry index).uncompressedSize + 1) bytes

/-- Every new file of the folder holds what the disk took of the content of an entry. -/
def SuState.Unpacked (s : SuState) (world : SuWorld) (archive : ZipArchive) (folder : List (Bytes × Bytes)) : Prop :=
  ∃ files, s.folder = files ++ folder ∧ ∀ file ∈ files, ∃ index data taken,
    SuEntry archive index file.1 data ∧ world.disk index file.1 data = some taken ∧ file.2 = data.take taken

/-- What would be started is the content of an entry. -/
def SuState.SetupFrom (s : SuState) (world : SuWorld) (archive : ZipArchive) : Prop :=
  ∃ index name image, SuEntry archive index name image ∧ world.sameFile name suSetup = true ∧
    suFile world s.folder suSetup = some image

/-- A call of the zip reader, by what it ends with. -/
theorem post_suZip {σ α : Type} {p : Zip σ α} {t : σ} {P : α → σ → Prop} {E : ZipStatus → σ → Prop}
    {Q : Option (α × σ) → SuState → Prop} {R : ℕ → SuState → Prop} (hp : Post p t P E)
    (hok : ∀ a t', p t = some (.ok a, t') → P a t' → Q (some (a, t')) s) (hstop : Q none s) : Post (suZip p t) s Q R := by
  unfold Post at hp
  unfold suZip
  rcases hrun : p t with - | ⟨e | a, t'⟩ <;> rw [hrun] at hp
  · exact hp.elim
  · exact post_pure.2 hstop
  · exact post_pure.2 (hok a t' hrun hp)

theorem entry_size_lt {archive : ZipArchive} {data : Bytes} (hopened : archive.Opened data) {index : ℕ}
    (hindex : index < archive.entryCount) : (archive.entry index).uncompressedSize + 1 < 2 ^ 32 := by
  have hsmall := (hopened.records.1 index (Nat.zero_le _) (by omega)).small.2.1
  have hword : (archive.entry index).uncompressedSize < 2 ^ 32 :=
    UInt32.toNat_lt (archive.data.readU32 (centralOffset archive.data archive.directoryOffset index + 24))
  have hsat : zipU32Saturated.toNat = 2 ^ 32 - 1 := rfl
  have hne : (archive.entry index).uncompressedSize ≠ zipU32Saturated.toNat := by
    rw [← hopened.same] at hsmall
    exact hsmall
  omega

variable {archive : ZipArchive} {data : Bytes}

/-- **One file**: the disk gets the content of the entry. -/
theorem post_suUnpackEntry {index : ℕ} {name : Bytes} {R : ℕ → SuState → Prop} (hdata : data.length < 2 ^ 32)
    (hopened : archive.Opened data) (hindex : index < archive.entryCount)
    (hname : name = bytesAt archive.data (archive.entry index).name (archive.entry index).nameLength) :
    Post (suUnpackEntry world archive index name (archive.entry index)) s
      (fun whole s' => s'.events = s.events ∧ ((whole = false ∧ s'.folder = s.folder) ∨
        ∃ bytes taken, SuEntry archive index name bytes ∧ world.disk index name bytes = some taken ∧
          s'.folder = (name, bytes.take taken) :: s.folder ∧ (whole = true → bytes.take taken = bytes))) R := by
  unfold suUnpackEntry
  rw [post_bind, post_check]
  refine ⟨entry_size_lt hopened hindex, ?_⟩
  rw [post_ite]
  refine ⟨fun _ => post_pure.2 ⟨rfl, Or.inl ⟨rfl, rfl⟩⟩, fun _ => ?_⟩
  rw [post_bind]
  refine post_suZip (post_zipExtract hdata hopened) ?_ (post_pure.2 ⟨rfl, Or.inl ⟨rfl, rfl⟩⟩)
  rintro - output - ⟨hbuffer, hlength, -, hextracts⟩
  dsimp only at hbuffer hlength hextracts ⊢
  rw [List.length_replicate] at hbuffer hlength hextracts
  rw [post_bind, post_check]
  refine ⟨by omega, ?_⟩
  generalize output.buffer.take output.length = bytes at hextracts ⊢
  unfold suWriteFile
  cases htaken : world.disk index name bytes with
  | none => exact post_pure.2 ⟨rfl, Or.inl ⟨rfl, rfl⟩⟩
  | some taken =>
    dsimp only
    rw [post_bind, post_modify, post_pure]
    exact ⟨rfl, Or.inr ⟨bytes, taken, ⟨hindex, hname, hextracts⟩, htaken, rfl, fun hwhole =>
      List.take_of_length_le (of_decide_eq_true hwhole)⟩⟩

/-- **The loop over the entries**: every file is an entry's, and once SETUP.EXE is found it
stays one. -/
theorem post_suUnpackFrom {R : ℕ → SuState → Prop} (hsetup : ∀ name, world.lstrcmpi name suSetup = true → world.sameFile name suSetup = true)
    (hdata : data.length < 2 ^ 32) (hopened : archive.Opened data) (left index : ℕ) (found : Bool)
    (hfiles : s.Unpacked world archive folder) (hfound : found = true → s.SetupFrom world archive) :
    Post (suUnpackFrom world archive left index found) s
      (fun r s' => s'.events = s.events ∧ s'.Unpacked world archive folder ∧ (r = some true → s'.SetupFrom world archive)) R := by
  induction left generalizing s index found with
  | zero => exact post_pure.2 ⟨rfl, hfiles, fun h => hfound (Option.some.inj h)⟩
  | succ left ih =>
    have hnone : s.events = s.events ∧ s.Unpacked world archive folder ∧
        ((none : Option Bool) = some true → s.SetupFrom world archive) := ⟨rfl, hfiles, nofun⟩
    unfold suUnpackFrom
    rw [post_bind]
    refine post_suZip (post_zipEntryAt hdata hopened) ?_ (post_pure.2 hnone)
    rintro _ - - ⟨-, hindex, rfl⟩
    dsimp only
    unfold suEntryName
    rw [post_bind, post_bind, post_check, post_pure]
    refine ⟨hopened.entry_name hindex, ?_⟩
    rw [post_ite]
    refine ⟨fun _ => ih (index + 1) found hfiles hfound, fun _ => ?_⟩
    rw [post_ite]
    refine ⟨fun _ => post_pure.2 hnone, fun _ => ?_⟩
    rw [post_bind]
    refine (post_suUnpackEntry hdata hopened hindex rfl).imp ?_ fun _ _ h => h
    rintro whole s' ⟨hevents, hwrote⟩
    have hfiles' : s'.Unpacked world archive folder := by
      obtain ⟨files, hfolder, hall⟩ := hfiles
      rcases hwrote with ⟨-, hsame⟩ | ⟨bytes, taken, hentry, hdisk, hnew, -⟩
      · exact ⟨files, hsame.trans hfolder, hall⟩
      · refine ⟨(_, bytes.take taken) :: files, by rw [hnew, hfolder]; rfl, ?_⟩
        rintro file (- | ⟨-, hmem⟩)
        · exact ⟨index, bytes, taken, hentry, hdisk, rfl⟩
        · exact hall file hmem
    rw [post_ite]
    refine ⟨fun _ => post_pure.2 ⟨hevents, hfiles', nofun⟩, fun hwhole => ?_⟩
    rw [Bool.not_eq_true', Bool.not_eq_false] at hwhole
    rcases hwrote with ⟨hfalse, -⟩ | ⟨bytes, taken, hentry, -, hnew, hall⟩
    · exact absurd (hwhole.symm.trans hfalse) (by decide)
    rw [hall hwhole] at hnew
    refine (ih (s := s') (index + 1) _ hfiles' ?_).imp ?_ fun _ _ h => h
    · intro hnow
      by_cases hsame : world.sameFile (bytesAt archive.data (archive.entry index).name (archive.entry index).nameLength) suSetup = true
      · refine ⟨index, _, bytes, hentry, hsame, ?_⟩
        rw [hnew, suFile_cons, if_pos hsame]
      · -- the file that was found before is still there
        rcases (Bool.or_eq_true _ _).mp hnow with hbefore | hname
        · obtain ⟨i, n, image, hbefore, hnamed, hfile⟩ := hfound hbefore
          refine ⟨i, n, image, hbefore, hnamed, ?_⟩
          rw [hnew, suFile_cons, if_neg hsame]
          exact hfile
        · exact absurd (hsetup _ hname) hsame
    · rintro r s'' ⟨hevents', hrest⟩
      exact ⟨hevents'.trans hevents, hrest⟩

/-- A run that unpacked a package: its files, and what it starts, are the package's. -/
def SuState.Staged (s : SuState) (world : SuWorld) (Signed : Bytes → Prop) (folder : List (Bytes × Bytes)) : Prop :=
  ∃ package archive, SuPackage world Signed package ∧ zipOpen package () = some (.ok archive, ()) ∧
    s.Unpacked world archive folder ∧ ∀ image, .started image ∈ s.events →
      ∃ index name, SuEntry archive index name image ∧ world.sameFile name suSetup = true

theorem SuState.Staged.did (h : s.Staged world Signed folder) {e : SuEvent} (he : ∀ image, e ≠ .started image) :
    (s.did e).Staged world Signed folder := by
  obtain ⟨package, archive, hpackage, hopen, hfiles, hstarted⟩ := h
  refine ⟨package, archive, hpackage, hopen, hfiles, fun image hmem => ?_⟩
  rcases List.mem_append.1 hmem with hold | hlast
  · exact hstarted image hold
  · exact absurd (List.mem_singleton.1 hlast).symm (he image)

/-- **Staging** starts the setup that was unpacked. -/
theorem post_suStage {body : SuBody} {package : Bytes} (hsetup : ∀ name, world.lstrcmpi name suSetup = true → world.sameFile name suSetup = true)
    (hpackage : SuPackage world Signed package) (hidle : s.Idle folder) (hholds : s.Holds body package) :
    Post (suStage world body) s (fun _ s' => s'.Staged world Signed folder)
      (fun _ s' => s'.Idle folder ∨ s'.Staged world Signed folder) := by
  have hdata : package.length < 2 ^ 32 := by
    obtain ⟨offer, info, text, signed, hex, -, -, -, hlength, -⟩ := hpackage
    rw [hlength]
    exact info.size.toNat_lt
  unfold suStage suUnpack
  rw [post_bind, post_bind, post_suBody hholds, post_bind]
  refine post_suZip (post_zipOpen hdata) ?_ ?_
  swap
  · exact post_pure.2 ((post_suFail_idle hidle).imp (fun _ _ h => h) fun _ _ => Or.inl)
  rintro archive _ hopen ⟨-, hopened⟩
  dsimp only
  refine (post_suUnpackFrom hsetup hdata hopened _ 0 false ⟨[], hidle.folder, nofun⟩ nofun).imp ?_ fun _ _ h => h
  rintro found s' ⟨hevents, hfiles, hfound⟩
  have hstaged : s'.Staged world Signed folder :=
    ⟨package, archive, hpackage, hopen, hfiles, fun image hmem => absurd (hevents ▸ hmem) (hidle.events image)⟩
  split
  · obtain ⟨index, name, image, hentry, hnamed, hfile⟩ := hfound rfl
    have hran : (s'.did (.started image)).Staged world Signed folder := by
      refine ⟨package, archive, hpackage, hopen, hfiles, fun other hmem => ?_⟩
      rcases List.mem_append.1 hmem with hold | hlast
      · exact absurd (hevents ▸ hold) (hidle.events other)
      · obtain rfl : other = image := by simpa using List.mem_singleton.1 hlast
        exact ⟨index, name, hentry, hnamed⟩
    unfold suRunSetup
    rw [post_bind, post_bind, post_get, hfile]
    dsimp only
    rw [post_bind, post_modify, post_pure]
    split
    · exact post_pure.2 hran
    · exact post_suFail fun _ he => Or.inr (hran.did he)
  · exact post_suFail fun _ he => Or.inr (hstaged.did he)

theorem post_suDone {R : ℕ → SuState → Prop} (h : s.Staged world Signed folder) :
    Post (suDone world) s (fun _ s' => s'.Staged world Signed folder) R := by
  unfold suDone
  rw [post_ite]
  refine ⟨fun _ => ?_, fun _ => ?_⟩
  · rw [post_modify]
    exact h.did nofun
  · rw [post_bind, post_modify, post_ite]
    refine ⟨fun _ => ?_, fun _ => ?_⟩
    · rw [post_modify]
      refine SuState.Staged.did (h.did ?_) ?_ <;> exact nofun
    · rw [post_pure]
      exact h.did nofun

theorem post_suWork (hlstrcmp : ∀ a b, world.lstrcmp a b = true → a = b)
    (hsetup : ∀ name, world.lstrcmpi name suSetup = true → world.sameFile name suSetup = true)
    (hsigned : ∀ signature message, world.verify signature releasePublicKey message = true → Signed message)
    (hidle : s.Idle folder) :
    Post (suWork world) s (fun _ _ => False) (fun _ s' => s'.Idle folder ∨ s'.Staged world Signed folder) := by
  unfold suWork
  rw [post_ite]
  refine ⟨fun _ => (post_suFail_idle hidle).imp (fun _ _ h => h) fun _ _ => Or.inl, fun _ => ?_⟩
  rw [post_ite]
  refine ⟨fun _ => (post_suFail_idle hidle).imp (fun _ _ h => h) fun _ _ => Or.inl, fun _ => ?_⟩
  rw [post_bind, post_modify, post_bind]
  have hready : SuReady { s with
      buffer := List.replicate suTextMax 0
      signedText := List.replicate suTextMax 0
      zipBuffer := List.replicate (suZipMax + 16384) 0 } :=
    ⟨List.length_replicate, List.length_replicate, List.length_replicate⟩
  refine (post_suAsk hready ⟨hidle.folder, hidle.events⟩).imp ?_ fun _ _ => Or.inl
  rintro offer s1 ⟨hready, hidle, hoffered⟩
  rw [post_bind]
  refine (post_suRelease hlstrcmp hsigned hready hidle).imp ?_ fun _ _ => Or.inl
  rintro info s2 ⟨hready, hidle, text, signed, hex, hreleased⟩
  rw [post_bind]
  refine (post_suNotes hready hidle).imp ?_ fun _ _ h => h
  rintro notes s3 ⟨hready, hidle⟩
  rw [post_bind]
  refine (post_suConfirm hready hidle).imp ?_ fun _ _ => Or.inl
  rintro - s4 ⟨hready, hidle⟩
  rw [post_bind]
  refine (post_suPackage hready hidle).imp ?_ fun _ _ => Or.inl
  rintro body s5 ⟨-, hidle, package, hholds, hreply, hlength, hhash⟩
  rw [post_bind]
  refine (post_suStage hsetup ⟨offer, info, text, signed, hex, hoffered, hreleased, hreply, hlength, hhash⟩ hidle hholds).imp
    ?_ fun _ _ h => h
  rintro - s6 hstaged
  rw [post_bind]
  exact (post_suDone hstaged).imp (fun _ _ h => post_stop.2 (Or.inr h)) fun _ _ h => h

/-- **Self-update runs only what was signed.** Whatever the server and the network send, a run
comes to its end, and either writes nothing and starts nothing, or it unpacked a package as
`SuPackage` says, and its files and the setup that it starts are entries of that package. -/
theorem self_update_signed (world : SuWorld) (Signed : Bytes → Prop) (hlstrcmp : ∀ a b, world.lstrcmp a b = true → a = b)
    (hsetup : ∀ name, world.lstrcmpi name suSetup = true → world.sameFile name suSetup = true)
    (hsigned : ∀ signature message, world.verify signature releasePublicKey message = true → Signed message)
    (folder : List (Bytes × Bytes)) :
    ∃ code s', suWork world ⟨[], [], [], [], folder, []⟩ = some (.error code, s') ∧
      (s'.Idle folder ∨ s'.Staged world Signed folder) := by
  have hpost := @post_suWork ⟨[], [], [], [], folder, []⟩ folder world Signed hlstrcmp hsetup hsigned ⟨rfl, nofun⟩
  unfold Post at hpost
  cases hrun : suWork world ⟨[], [], [], [], folder, []⟩ with
  | none =>
    rw [hrun] at hpost
    exact hpost.elim
  | some out =>
    obtain ⟨result, s'⟩ := out
    rw [hrun] at hpost
    cases result with
    | ok value => exact hpost.elim
    | error code => exact ⟨code, s', rfl, hpost⟩

/-- A package of one stored file, SETUP.EXE. -/
def suSamplePackage : Bytes :=
  [80, 75, 3, 4, 20, 0, 0, 0, 0, 0, 0, 0, 33, 0, 93, 155, 176, 143, 2, 0, 0, 0, 2, 0, 0, 0, 9, 0, 0, 0, 83, 69, 84,
    85, 80, 46, 69, 88, 69, 77, 90, 80, 75, 1, 2, 20, 3, 20, 0, 0, 0, 0, 0, 0, 0, 33, 0, 93, 155, 176, 143, 2, 0, 0,
    0, 2, 0, 0, 0, 9, 0, 0, 0, 0, 0, 0, 0, 0, 0, 0, 0, 128, 1, 0, 0, 0, 0, 83, 69, 84, 85, 80, 46, 69, 88, 69, 80, 75,
    5, 6, 0, 0, 0, 0, 1, 0, 1, 0, 55, 0, 0, 0, 41, 0, 0, 0, 0, 0]

def suSampleSigned : Bytes :=
  ascii "[V9xRemoteRelease]\nSchema=1\nApp=v9x-remote-agent\nVersion=0.14.0\n[Family.win32]\nFile=v9x.zip\nSize=118\nSha256=138dc03e77eb1f63901f09f18ede8ed5eea22b9008b701a894e0f89979236508\n"

/-- A server that offers this package, to a machine that says yes. -/
def suSampleWorld : SuWorld where
  winsock := true
  memory := true
  quiet := true
  server := ascii "http://server"
  http := fun request _ _ _ =>
    let body := match request with
      | .offer => ascii "[update]\nstatus=update\nlatest=0.14.0\nsigned=http://server/s\n[package]\nurl=http://server/z\nfile=V9X.ZIP\nsha256=138dc03e"
      | .release => suSampleSigned ++ ascii "[Signature]\nEd25519=" ++ List.replicate 128 48
      | .notes => []
      | .package => suSamplePackage
    some ⟨[ascii "HTTP/1.0 200 OK\r\n\r\n" ++ body], true⟩
  verify := fun _ publicKey message => publicKey == releasePublicKey && message == suSampleSigned
  lstrcmp := fun a b => a == b
  lstrcmpi := fun a b => a.map lower == b.map lower
  sameFile := fun a b => a.map lower == b.map lower
  yes := fun _ => true
  entryMemory := fun _ => true
  scratch := fun _ => ⟨⟨fun _ => 0, fun _ => 0⟩, ⟨fun _ => 0, fun _ => 0⟩, fun _ => 0⟩
  disk := fun _ _ data => some data.length
  run := fun _ => some 0
  restart := false

theorem self_update_signed_demo : ∃ code s', suWork suSampleWorld ⟨[], [], [], [], [], []⟩ = some (.error code, s') ∧
    (s'.Idle [] ∨ s'.Staged suSampleWorld (fun message => message = suSampleSigned) []) := by
  refine self_update_signed suSampleWorld _ (fun _ _ h => eq_of_beq h) (fun _ h => h) (fun _ message h => ?_) []
  have hgood : (releasePublicKey == releasePublicKey && message == suSampleSigned) = true := h
  rw [Bool.and_eq_true] at hgood
  exact eq_of_beq hgood.2

end V9xRemote
