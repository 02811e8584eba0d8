import V9xRemote.Spec.Http
import V9xRemote.Spec.Responses
import V9xRemote.Spec.UpdateRelease
import V9xRemote.Spec.ZipRead
import V9xRemote.Spec.Sha256

/-!
# `SETUP.EXE /update` (`src/setup/selfupdate.c`)

The child's work as one program over its two buffers, the files of `C:\V9XREMOTE\UPDATE` and
what it does that others see; it stops with an exit code. Everything outside is in `SuWorld`:
the network, the person at the machine, the disk and the new package's setup.
-/

namespace V9xRemote

open Bytes Checked

def updateApp : Bytes := ascii "v9x-remote-agent"
def updateFamily : Bytes := ascii "win32"

/-- `V9X_RELEASE_PUBLIC_KEY`. -/
def releasePublicKey : Bytes :=
  [0x98, 0x40, 0x6c, 0x96, 0x34, 0x64, 0x8a, 0x37, 0x3f, 0xd8, 0xa1, 0x47, 0x44, 0xc9, 0x2a, 0xb8,
    0x26, 0x15, 0x19, 0x83, 0xcc, 0xae, 0xf0, 0x8d, 0xb4, 0x1b, 0x03, 0x7c, 0xda, 0xde, 0xf3, 0x17]

def suTextMax : ℕ := 65536
def suZipMax : ℕ := 16 * 1024 * 1024
def suSetup : Bytes := ascii "SETUP.EXE"

/-! ## The world -/

/-- The four requests, in their order. -/
inductive SuRequest
  | offer
  | release
  | notes
  | package
deriving DecidableEq, Repr

/-- What the program does not decide. `lstrcmp` and `lstrcmpi` say that two texts compare equal,
`sameFile` that two names are of one file of the folder. -/
structure SuWorld where
  winsock : Bool
  memory : Bool
  quiet : Bool
  /-- The server of AGENT.INI, or its default. -/
  server : Bytes
  http : SuRequest → HttpNet
  verify : Verify
  lstrcmp : Bytes → Bytes → Bool
  lstrcmpi : Bytes → Bytes → Bool
  sameFile : Bytes → Bytes → Bool
  /-- The answer to the question. -/
  yes : Bytes → Bool
  /-- Whether there is memory for an entry. -/
  entryMemory : ℕ → Bool
  /-- What `inflate_state` holds before an entry. -/
  scratch : ℕ → InflateScratch
  /-- The bytes the disk takes of a file: `none` where it is not created. -/
  disk : ℕ → Bytes → Bytes → Option ℕ
  /-- The exit code of a program: `none` where it does not start. -/
  run : Bytes → Option ℕ
  restart : Bool

/-- What others see of a run. -/
inductive SuEvent
  /-- UPDATE.INI in TEMP: status, latest, message. -/
  | record (status : String) (latest : Bytes) (message : String)
  | message (text : String)
  | question (text : Bytes)
  /-- SETUP.EXE is started, with what the file holds. -/
  | started (image : Bytes)
  | restarted
deriving DecidableEq, Repr

/-- The state of a run. The folder has the newest file first. -/
structure SuState where
  buffer : Bytes
  signedText : Bytes
  zipBuffer : Bytes
  latest : Bytes
  folder : List (Bytes × Bytes)
  events : List SuEvent
deriving DecidableEq, Repr

abbrev Su (α : Type) : Type := Checked SuState ℕ α

/-- The buffer that a response is read into. -/
inductive SuBuffer
  | text
  | zip
deriving DecidableEq, Repr

def SuState.load (s : SuState) : SuBuffer → Bytes
  | .text => s.buffer
  | .zip => s.zipBuffer

def SuState.store (s : SuState) (b : SuBuffer) (bytes : Bytes) : SuState :=
  match b with
  | .text => { s with buffer := bytes }
  | .zip => { s with zipBuffer := bytes }

def SuState.did (s : SuState) (e : SuEvent) : SuState := { s with events := s.events ++ [e] }

/-- What a file of the folder holds. -/
def suFile (world : SuWorld) (folder : List (Bytes × Bytes)) (name : Bytes) : Option Bytes :=
  (folder.find? fun file => world.sameFile file.1 name).map (·.2)

/-! ## Texts -/

/-- `v9x_su_copy`. -/
def suCopy (source : Bytes) (capacity : ℕ) : Bytes := source.take (capacity - 1)

/-- `v9x_su_append`. -/
def suAppend (target source : Bytes) (capacity : ℕ) : Bytes := target ++ source.take (capacity - 1 - target.length)

/-- `v9x_su_fail`. -/
def suFail {α : Type} (world : SuWorld) (text : String) : Su α := do
  modify fun s => s.did (if world.quiet then .record "failed" s.latest text else .message text)
  stop 1

/-! ## Downloads -/

/-- A body: its place in a buffer. -/
structure SuBody where
  place : SuBuffer
  offset : ℕ
  length : ℕ
deriving DecidableEq, Repr

/-- `v9x_su_get`: `none` for 0. -/
def suGet (world : SuWorld) (request : SuRequest) (url : Bytes) (place : SuBuffer) (capacity : ℕ) :
    Su (Option SuBody) := do
  let got := httpRequest (world.http request) ⟨ascii "GET", url, none, none⟩ (capacity - 1)
  let s ← get
  check (got.1.length ≤ (s.load place).length)
  modify fun s => s.store place (got.1 ++ (s.load place).drop got.1.length)
  match got.2 with
  | none => return none
  | some response =>
    if response.status ≠ 200 then return none
    else
      let s ← get
      check (response.bodyOffset + response.bodyLength < (s.load place).length)
      modify fun s => s.store place ((s.load place).set (response.bodyOffset + response.bodyLength) 0)
      return some ⟨place, response.bodyOffset, response.bodyLength⟩

/-- The bytes of a body, as its buffer holds them now. -/
def suBody (body : SuBody) : Su Bytes := do
  let s ← get
  check (body.offset + body.length ≤ (s.load body.place).length)
  return ((s.load body.place).drop body.offset).take body.length

/-- `v9x_update_ini_value` on a body, as a C string. -/
def suValue (body : SuBody) (sect key : String) (capacity : ℕ) : Su (Option Bytes) := do
  let text ← suBody body
  return (updateIniRead text text.length (ascii sect) (ascii key) capacity).map cstr

/-! ## The package -/

/-- A call of the zip reader: `none` for any status but OK. -/
def suZip {σ α : Type} (p : Zip σ α) (s : σ) : Su (Option (α × σ)) :=
  match p s with
  | none => do
    check False
    return none
  | some (.error _, _) => return none
  | some (.ok a, s) => return some (a, s)

/-- `v9x_su_write_file`, into the folder. -/
def suWriteFile (world : SuWorld) (index : ℕ) (name data : Bytes) : Su Bool := do
  match world.disk index name data with
  | none => return false
  | some taken =>
    modify fun s => { s with folder := (name, data.take taken) :: s.folder }
    return data.length ≤ taken

/-- One file of the package. -/
def suUnpackEntry (world : SuWorld) (archive : ZipArchive) (index : ℕ) (name : Bytes) (entry : ZipEntry) :
    Su Bool := do
  check (entry.uncompressedSize + 1 < 2 ^ 32)
  if !world.entryMemory index then return false
  else
    match ← suZip (zipExtract (world.scratch index) archive index) ⟨List.replicate (entry.uncompressedSize + 1) 0, 0⟩ with
    | none => return false
    | some (_, output) =>
      check (output.length ≤ output.buffer.length)
      suWriteFile world index name (output.buffer.take output.length)

/-- The name of an entry. -/
def suEntryName (archive : ZipArchive) (entry : ZipEntry) : Su Bytes := do
  check (entry.name + entry.nameLength ≤ archive.data.length)
  return (archive.data.drop entry.name).take entry.nameLength

/-- The loop of `v9x_su_unpack`: `none` for 0, else `*found_setup`. -/
def suUnpackFrom (world : SuWorld) (archive : ZipArchive) : ℕ → ℕ → Bool → Su (Option Bool)
  | 0, _, found => return some found
  | left + 1, index, found => do
    match ← suZip (zipEntryAt archive index) () with
    | none => return none
    | some (none, _) => do
      check False
      return none
    | some (some entry, _) =>
      let name ← suEntryName archive entry
      -- a folder
      if name.getLast? = some 47 then suUnpackFrom world archive left (index + 1) found
      else if !zipNameIsSafe name 64 then return none
      else
        let whole ← suUnpackEntry world archive index name entry
        if !whole then return none
        else suUnpackFrom world archive left (index + 1) (found || world.lstrcmpi name suSetup)

/-- `v9x_su_unpack`. -/
def suUnpack (world : SuWorld) (body : SuBody) : Su (Option Bool) := do
  let data ← suBody body
  match ← suZip (zipOpen data) () with
  | none => return none
  | some (archive, _) => suUnpackFrom world archive archive.entryCount 0 false

/-! ## The work -/

/-- What an offer of an update says. -/
structure SuOffer where
  latest : Bytes
  signed : Bytes
  packageUrl : Bytes
  file : Bytes
  notes : Bytes
deriving DecidableEq, Repr

def suCheckUrl (server : Bytes) : Bytes :=
  suAppend (suCopy server httpMaxPath)
    (ascii "/index.php?bt_type=v9xu_check&app=" ++ updateApp ++ ascii "&family=" ++ updateFamily ++
      ascii "&version=" ++ agentVersionText) httpMaxPath

/-- There is no update: exit 3, or 1 with somebody at the machine. -/
def suNoUpdate {α : Type} (world : SuWorld) (status : Bytes) : Su α := do
  let current := world.lstrcmp status (ascii "current")
  let text := if current then "This is the newest version of the V9x Remote Agent."
    else "No update is available for this agent right now."
  modify fun s => s.did (if world.quiet then .record (if current then "current" else "none") s.latest text else .message text)
  stop (if world.quiet then 3 else 1)

/-- 1. Ask. -/
def suAsk (world : SuWorld) : Su SuOffer := do
  match ← suGet world .offer (suCheckUrl world.server) .text suTextMax with
  | none => suFail world "The update server could not be reached. Check that this computer can open web sites (plain http) and try again."
  | some body =>
    match ← suValue body "update" "status" 24 with
    | none => suFail world "The update server sent a reply this version does not understand."
    | some status =>
      if !world.lstrcmp status (ascii "update") then suNoUpdate world status
      else
        let latest ← suValue body "update" "latest" 24
        let signed ← suValue body "update" "signed" httpMaxPath
        let url ← suValue body "package" "url" httpMaxPath
        let file ← suValue body "package" "file" 96
        let sha256 ← suValue body "package" "sha256" 80
        match latest, signed, url, file, sha256 with
        | some latest, some signed, some url, some file, some _ =>
          let notes ← suValue body "update" "notes" httpMaxPath
          modify fun s => { s with latest := suCopy latest 24 }
          return ⟨latest, signed, url, file, notes.getD []⟩
        | _, _, _, _, _ =>
          suFail world "The update server announced an update without a signed release file, so it cannot be checked. Try again later."

/-- The copy into `signed_text`. -/
def suCopySigned (body : SuBody) : Su Unit := do
  let text ← suBody body
  let s ← get
  check (text.length < s.signedText.length)
  modify fun s => { s with signedText := text ++ 0 :: s.signedText.drop (text.length + 1) }

/-- 2. The signed release file. -/
def suRelease (world : SuWorld) (offer : SuOffer) : Su ReleaseInfo := do
  match ← suGet world .release offer.signed .text suTextMax with
  | none => suFail world "The signed release file could not be downloaded."
  | some body =>
    if body.length ≥ suTextMax then suFail world "The signed release file could not be downloaded."
    else
      suCopySigned body
      let s ← get
      let text := s.signedText.take body.length
      match (releaseVerify world.verify releasePublicKey text).bind fun covered =>
          releaseRead text covered updateApp updateFamily with
      | none => suFail world "The release file's signature is not valid. Nothing was downloaded or changed."
      | some info =>
        if !world.lstrcmp info.version offer.latest ∨ updateVersionCompare info.version agentVersionText ≠ 1 ∨
            !world.lstrcmpi info.file offer.file then
          suFail world "The signed release does not match what the server offered, or is not newer than this version. Nothing was changed."
        else return info

/-- The release notes, best effort. -/
def suNotes (world : SuWorld) (url : Bytes) : Su Bytes := do
  if url = [] then return []
  else
    match ← suGet world .notes url .text suTextMax with
    | none => return []
    | some body =>
      let text ← suBody body
      let notes := suCopy (cstr text) (1600 - 4)
      return if body.length ≥ 1600 - 4 then suAppend notes (ascii "...") 1600 else notes

def suQuestion (version notes : Bytes) : Bytes :=
  ([version, ascii " is available (this is " ++ agentVersionText ++ ascii ").\r\n\r\n"] ++
    (if notes ≠ [] then [notes, ascii "\r\n\r\n"] else []) ++
      [ascii "Download and install it now? The new version takes over when Windows next restarts; settings and the install ID are kept."]).foldl
    (fun text piece => suAppend text piece 2400) (suCopy (ascii "Version ") 2400)

/-- 3. The question. -/
def suConfirm (world : SuWorld) (info : ReleaseInfo) (notes : Bytes) : Su Unit := do
  if world.quiet then return ()
  else
    modify fun s => s.did (.question (suQuestion info.version notes))
    if !world.yes (suQuestion info.version notes) then stop 2 else return ()

/-- 4. The package, against the signed size and SHA-256. -/
def suPackage (world : SuWorld) (offer : SuOffer) (info : ReleaseInfo) : Su SuBody := do
  if info.size.toNat > suZipMax then suFail world "The update is larger than this version can install."
  else
    match ← suGet world .package offer.packageUrl .zip (suZipMax + 16384) with
    | none => suFail world "The update could not be downloaded. Nothing was changed."
    | some body =>
      let data ← suBody body
      if body.length ≠ info.size.toNat ∨ sha256 data ≠ info.sha256 then
        suFail world "The downloaded update does not match the signed release (size or SHA-256). Nothing was changed."
      else return body

/-- `v9x_su_run_wait` on the unpacked setup. -/
def suRunSetup (world : SuWorld) : Su (Option ℕ) := do
  let s ← get
  match suFile world s.folder suSetup with
  | none => return none
  | some image =>
    modify fun s => s.did (.started image)
    return world.run image

/-- 5. Unpack and stage. -/
def suStage (world : SuWorld) (body : SuBody) : Su Unit := do
  match ← suUnpack world body with
  | some true =>
    match ← suRunSetup world with
    | some 0 => return ()
    | _ => suFail world "The new version's setup reported a problem. The running agent has not been changed; see C:\\V9XREMOTE\\UPDATE."
  | _ => suFail world "The update package could not be unpacked. Nothing was changed."

/-- The end of a run that staged an update. -/
def suDone (world : SuWorld) : Su Unit := do
  if world.quiet then
    modify fun s => s.did (.record "staged" s.latest
      "The update is staged (V9XNEW.EXE, V9XSNEW.EXE) and takes over at the next restart or hot update.")
  else
    modify fun s => s.did
      (.message "The update is installed and takes over when Windows restarts.\r\n\r\nRestart Windows now?")
    if world.restart then modify fun s => s.did .restarted else return ()

/-- `v9x_su_work`: it stops with the exit code. -/
def suWork (world : SuWorld) : Su Unit := do
  if !world.winsock then suFail world "Windows networking (Winsock) is not available."
  else if !world.memory then suFail world "Not enough memory to check for updates."
  else
    modify fun s => { s with
      buffer := List.replicate suTextMax 0
      signedText := List.replicate suTextMax 0
      zipBuffer := List.replicate (suZipMax + 16384) 0 }
    let offer ← suAsk world
    let info ← suRelease world offer
    let notes ← suNotes world offer.notes
    suConfirm world info notes
    let body ← suPackage world offer info
    suStage world body
    suDone world
    stop 0

end V9xRemote
