import Mathlib.Data.List.DropRight
import V9xRemote.Lib.Pieces
import V9xRemote.Spec.InstallId
import V9xRemote.Spec.IniRepair
import V9xRemote.Spec.Mdns

/-!
# The configuration of the DOS agent (`src/guest-dos/config.c`)

AGENT.INI is opened as a text: the runtime reads a CRLF as a line feed and takes the byte 0x1A
for the end of the file, and writes a line feed as a CRLF. A write that does not get onto the
disk is left out.
-/

namespace V9xRemote

open Bytes Pieces

/-! ## Text files -/

/-- What is read of a file. -/
def dosRead : Bytes → Bytes
  | [] => []
  | c :: rest =>
    if c = 26 then []
    else if c = 13 ∧ rest.head? = some 10 then dosRead rest
    else c :: dosRead rest

/-- What is written for a text. -/
def dosWrite (text : Bytes) : Bytes := text.flatMap fun c => if c = 10 then [13, 10] else [c]

/-- `char line[160]`. -/
def dosLineSize : ℕ := 160

/-- What `fgets` gives, until it gives nothing. -/
def dosFgets (text : Bytes) : List Bytes := buffered 10 (dosLineSize - 1) [] text

/-- `atoi`, in 32 bits. -/
def dosAtoi (text : Bytes) : Int32 :=
  let text := text.dropWhile fun c => c = 32 ∨ (9 ≤ c ∧ c ≤ 13)
  let sign := text.head?
  let digits := if sign = some 43 ∨ sign = some 45 then text.tail else text
  let value := (digits.takeWhile fun c => 48 ≤ c ∧ c ≤ 57).foldl
    (fun (value : Int32) c => value * 10 + (Int32.ofNat c.toNat - 48)) 0
  if sign = some 45 then -value else value

/-! ## Loading -/

def defaultPort : UInt16 := 9869

/-- `sizeof(dos->allowed_client)`. -/
def dosClientSize : ℕ := 16

/-- What `V9xDos` holds of the configuration. -/
structure DosAgent where
  listenPort : UInt16
  allowedClient : Bytes
  installId : Bytes
deriving DecidableEq, Repr

/-- `v9x_trim`. -/
def dosTrim (text : Bytes) : Bytes :=
  (text.dropWhile iniIsBlank).rdropWhile fun c => c == 13 || c == 10 || c == 32 || c == 9

/-- `v9x_key_matches`. -/
def dosKeyMatches : Bytes → Bytes → Bool
  | line, [] => line.at' 0 == 61 || line.at' 0 == 32 || line.at' 0 == 9
  | line, c :: key => lower (line.at' 0) == lower c && dosKeyMatches line.tail key

/-- `v9x_value_of`. -/
def dosValueOf (line : Bytes) : Bytes := (line.dropWhile (· != 61)).tail.dropWhile iniIsBlank

/-- A piece of the file in `v9x_dos_load_config`. -/
def dosLoadLine (dos : DosAgent) (line : Bytes) : DosAgent :=
  let trimmed := dosTrim (cstr line)
  if trimmed.at' 0 = 0 ∨ trimmed.at' 0 = 59 ∨ trimmed.at' 0 = 35 ∨ trimmed.at' 0 = 91 then dos
  else if dosKeyMatches trimmed (ascii "port") then
    let port := dosAtoi (dosValueOf trimmed)
    if 0 < port ∧ port < 65536 then { dos with listenPort := UInt16.ofInt port.toInt } else dos
  else if dosKeyMatches trimmed (ascii "allowed_client") then
    { dos with allowedClient := (dosValueOf trimmed).take (dosClientSize - 1) }
  else if dosKeyMatches trimmed (ascii "install_id") then
    let value := dosValueOf trimmed
    if idValid value then { dos with installId := value.map lower } else dos
  else dos

/-- `v9x_dos_load_config` in an agent whose id is `installId`; `none` is a file that is not there. -/
def dosLoadConfig (installId : Bytes) (file : Option Bytes) : DosAgent :=
  let dos : DosAgent := ⟨defaultPort, [], installId⟩
  match file with
  | none => dos
  | some content => (dosFgets (dosRead content)).foldl dosLoadLine dos

/-! ## The install id -/

/-- What differs between the starts: the sources of the id, and whether AGENT.INI can be opened
for writing. -/
structure DosFresh where
  /-- `time(0)`. -/
  time : UInt32
  bootCounter : UInt32
  /-- The address of the pool. -/
  address : UInt32
  /-- `*bios_ticks` and `clock()`, round by round. -/
  rounds : Vector (UInt32 × UInt32) 8
  opens : Bool
deriving DecidableEq, Repr

/-- `v9x_dos_generate_id`. -/
def dosGenerateId (fresh : DosFresh) : Bytes :=
  let pool := idMix (idMix (idMix idBegin fresh.time) fresh.bootCounter) fresh.address
  idFinish (fresh.rounds.toList.foldl (fun pool round => idMix (idMix pool round.1) round.2) pool)

/-- The file behind the lines that `v9x_dos_ensure_install_id` adds. -/
def dosSaveId (fresh : DosFresh) (file : Option Bytes) (id : Bytes) : Option Bytes :=
  if fresh.opens then
    let header := if file.isSome then [] else dosWrite (ascii "[agent]\n")
    some (file.getD [] ++ header ++ dosWrite (ascii "\ninstall_id=" ++ id ++ ascii "\n"))
  else file

/-- What a start leaves: the agent, AGENT.INI, and the events of the log with their details. -/
structure DosStarted where
  dos : DosAgent
  file : Option Bytes
  events : List (Bytes × Bytes)
deriving DecidableEq, Repr

/-- `v9x_dos_ensure_install_id`. -/
def dosEnsureInstallId (fresh : DosFresh) (dos : DosAgent) (file : Option Bytes) : DosStarted :=
  if idValid dos.installId then ⟨dos, file, []⟩
  else
    let id := dosGenerateId fresh
    ⟨{ dos with installId := id }, dosSaveId fresh file id,
      [(if fresh.opens then ascii "install-id-created" else ascii "install-id-unsaved", id)]⟩

/-- The start in `main`, from the configuration to the id: `g_dos` is cleared. -/
def dosStart (file : Option Bytes) (fresh : DosFresh) : DosStarted :=
  let started := dosEnsureInstallId fresh (dosLoadConfig [] file) file
  { started with events := (ascii "agent-start", []) :: started.events }

/-- AGENT.INI after a row of starts. -/
def dosStarts (file : Option Bytes) (starts : List DosFresh) : Option Bytes :=
  starts.foldl (fun file fresh => (dosStart file fresh).file) file

end V9xRemote
