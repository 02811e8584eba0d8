import V9xRemote.Lib.Bytes
import V9xRemote.Lib.FileStore

/-!
# Promotion of a finished upload (`v9x_promote_temp`)

The agent for Windows (`src/guest/files.c`) and the one for DOS
(`src/guest-dos/files_dos.c`) promote a temporary file by the same calls. What
differs (the staging names, the file system's own name comparison, error numbers)
is a `Port`. `promoteTemp` is the function; `promoteStep` is the same code one
file-system call at a time, for threads that share a directory.
-/

namespace V9xRemote

/-- What a name of the file system stands for. -/
inductive Node
  | file (bytes : Bytes)
  | dir
deriving DecidableEq, Repr

def Node.isDir : Node → Bool
  | .file _ => false
  | .dir => true

abbrev Fs (K : Type) := FileStore K Node

/-- What the system says to a call: whether it lets it through, and the error
number it gives where the call fails. -/
structure CallResult where
  ok : Bool
  error : UInt32
deriving DecidableEq, Repr

namespace Fs

variable {K : Type} [DecidableEq K]

/-- `GetFileAttributesA` / `_dos_getfileattr`: whether it is a directory. -/
def attributes (fs : Fs K) (k : K) (r : CallResult) : Option Bool :=
  if r.ok then (fs k).map Node.isDir else none

/-- `DeleteFileA` / `remove`: never a directory. -/
def remove (fs : Fs K) (k : K) (r : CallResult) : Fs K :=
  (fs.delete k (r.ok && fs k != some .dir)).1

/-- `MoveFileA` / `rename`: never onto an existing name. -/
def rename (fs : Fs K) (a b : K) (r : CallResult) : Fs K × Bool := fs.move a b r.ok

/-- `CreateFileA` with `CREATE_ALWAYS` / `open` with `O_CREAT | O_TRUNC`. -/
def create (fs : Fs K) (k : K) (r : CallResult) : Fs K × Bool :=
  if r.ok && fs k != some .dir then (fs.put k (.file []), true) else (fs, false)

/-- Bytes written at the end of an open file. -/
def append (fs : Fs K) (k : K) (bytes : Bytes) : Fs K :=
  match fs k with
  | some (.file old) => fs.put k (.file (old ++ bytes))
  | _ => fs

end Fs

/-! ## Status codes (`include/v9xremote/status.h`) -/

def statusOk : UInt32 := 0
def statusInvalidPayload : UInt32 := 4
def statusLimitExceeded : UInt32 := 5
def statusBusy : UInt32 := 6
def statusNotFound : UInt32 := 7
def statusAccessDenied : UInt32 := 8
def statusIoFailed : UInt32 := 11
def statusCrcMismatch : UInt32 := 14

/-- What an agent's upload code takes from its platform. -/
structure Port (K : Type) where
  /-- the file a path names -/
  key : Bytes → K
  /-- the longest upload path -/
  pathMax : ℕ
  /-- the temporary file of an upload to `path`, by connection index and request id -/
  partPath : Bytes → UInt32 → UInt32 → Option Bytes
  backupPath : Bytes → Option Bytes
  /-- `v9x_file_status` -/
  fileStatus : UInt32 → UInt32
  /-- the file is flushed before a commit -/
  flushes : Bool
  errInvalid : UInt32
  errHandle : UInt32
  errTooLarge : UInt32
  errCrc : UInt32
  errDenied : UInt32
  /-- the two staging files of an upload are different files -/
  part_ne_backup : ∀ path slot requestId temp backup, partPath path slot requestId = some temp →
    backupPath path = some backup → key temp ≠ key backup
  /-- no error is reported as a success -/
  fileStatus_ne : ∀ native, fileStatus native ≠ statusOk

/-- What the system says to the calls of one promotion. -/
structure PromoteResults where
  attributes : CallResult
  dropBackup : CallResult
  saveOld : CallResult
  install : CallResult
  restore : CallResult
  dropTemp : CallResult
  dropOld : CallResult
deriving DecidableEq, Repr

variable {K : Type} [DecidableEq K]

/-- The second half of `v9x_promote_temp`; `backup` is set when `backed_up`. -/
def promoteInstall (port : Port K) (fs : Fs K) (final temp : Bytes) (backup : Option Bytes)
    (r : PromoteResults) : Fs K × UInt32 × UInt32 :=
  match fs.rename (port.key temp) (port.key final) r.install with
  | (fs, false) =>
    let fs := match backup with
      | some backup => (fs.rename (port.key backup) (port.key final) r.restore).1
      | none => fs
    (fs.remove (port.key temp) r.dropTemp, statusIoFailed, r.install.error)
  | (fs, true) =>
    let fs := match backup with
      | some backup => fs.remove (port.key backup) r.dropOld
      | none => fs
    (fs, statusOk, 0)

/-- `v9x_promote_temp`: the directory it leaves, the status and `*native_error`. -/
def promoteTemp (port : Port K) (fs : Fs K) (final temp : Bytes) (r : PromoteResults) :
    Fs K × UInt32 × UInt32 :=
  match fs.attributes (port.key final) r.attributes with
  | none => promoteInstall port fs final temp none r
  | some isDir =>
    match if isDir then none else port.backupPath final with
    | none => (fs.remove (port.key temp) r.dropTemp, statusAccessDenied, port.errDenied)
    | some backup =>
      let fs := fs.remove (port.key backup) r.dropBackup
      match fs.rename (port.key final) (port.key backup) r.saveOld with
      | (fs, false) =>
        (fs.remove (port.key temp) r.dropTemp, port.fileStatus r.saveOld.error, r.saveOld.error)
      | (fs, true) => promoteInstall port fs final temp (some backup) r

/-! ## One call at a time -/

/-- The next file-system call of `v9x_promote_temp`. -/
inductive PromotePc
  | attributes
  | dropBackup (backup : Bytes)
  | saveOld (backup : Bytes)
  | install (backup : Option Bytes)
  | restore (backup : Bytes) (native : UInt32)
  | dropTemp (status native : UInt32)
  | dropOld (backup : Bytes)
  | done (status native : UInt32)
deriving DecidableEq, Repr

/-- One call, with what the system says to it. -/
def promoteStep (port : Port K) (final temp : Bytes) (fs : Fs K) (r : CallResult) :
    PromotePc → Option (Fs K × PromotePc)
  | .attributes =>
    match fs.attributes (port.key final) r with
    | none => some (fs, .install none)
    | some isDir =>
      match if isDir then none else port.backupPath final with
      | none => some (fs, .dropTemp statusAccessDenied port.errDenied)
      | some backup => some (fs, .dropBackup backup)
  | .dropBackup backup => some (fs.remove (port.key backup) r, .saveOld backup)
  | .saveOld backup =>
    match fs.rename (port.key final) (port.key backup) r with
    | (fs, false) => some (fs, .dropTemp (port.fileStatus r.error) r.error)
    | (fs, true) => some (fs, .install (some backup))
  | .install backup =>
    match fs.rename (port.key temp) (port.key final) r, backup with
    | (fs, false), some backup => some (fs, .restore backup r.error)
    | (fs, false), none => some (fs, .dropTemp statusIoFailed r.error)
    | (fs, true), some backup => some (fs, .dropOld backup)
    | (fs, true), none => some (fs, .done statusOk 0)
  | .restore backup native =>
    some ((fs.rename (port.key backup) (port.key final) r).1, .dropTemp statusIoFailed native)
  | .dropTemp status native => some (fs.remove (port.key temp) r, .done status native)
  | .dropOld backup => some (fs.remove (port.key backup) r, .done statusOk 0)
  | .done _ _ => none

end V9xRemote
