import V9xRemote.Spec.Files
import V9xRemote.Lib.NameTree
import Mathlib.Data.List.DropRight

/-!
# FILE_DELETE (`v9x_handle_delete`, `src/guest/tools.c`)

`DeleteEnv` is what the handler asks the system before it deletes anything,
`DeleteAnswers` what the system says to the calls on files. `DeleteCount.removed`
adds the paths whose removal the system let through, newest first. The event log is
left out.
-/

namespace V9xRemote

open Bytes

def maxPath : ℕ := 260
def deleteDepthMax : ℕ := 24
def deleteRecursive : UInt32 := 1
def deleteForce : UInt32 := 2

def errorNoMoreFiles : UInt32 := 18
def errorFilenameExcedRange : UInt32 := 206

/-- FILE_ATTRIBUTE_DIRECTORY. -/
def attributeDirectory : UInt32 := 0x10

/-- FILE_ATTRIBUTE_READONLY, _HIDDEN and _SYSTEM. -/
def attributesProtecting : UInt32 := 0x07

def pathSep : UInt8 := 92

/-! ## The path -/

/-- What `GetFullPathNameA` gives: a path from a drive's root, or a UNC path. -/
def IsFullPath (text : Bytes) : Prop :=
  (∃ drive, [drive, 58, pathSep] <+: text) ∨ [pathSep, pathSep] <+: text

/-- A full path. -/
structure FullPath where
  text : Bytes
  isFull : IsFullPath text

structure DeleteEnv where
  /-- `GetFullPathNameA`, `none` where it fails -/
  getFullPathName : Bytes → Option FullPath
  /-- `GetLastError` where the full path cannot be used -/
  lastError : UInt32
  /-- `GetWindowsDirectoryA`, empty where it fails -/
  windowsDir : Bytes
  /-- `GetSystemDirectoryA`, empty where it fails -/
  systemDir : Bytes

def agentDir : Bytes := ascii "C:\\V9XREMOTE"

/-- `v9x_tools_string`: a string of at least one byte at `offset`, and the offset behind it. -/
def toolsString (payload : Bytes) (offset maximum : ℕ) : Option (Bytes × ℕ) :=
  if offset > payload.length || payload.length - offset < 2 then none
  else
    let count := (payload.readU16 offset).toNat
    if count = 0 || count > maximum || count > payload.length - (offset + 2) then none
    else
      let text := (payload.drop (offset + 2)).take count
      if text.any fun ch => ch == 0 || ch > 0x7f then none else some (text, offset + 2 + count)

/-- The flags and the path of a request. -/
def parseDelete (payload : Bytes) : Option (UInt32 × Bytes) :=
  if payload.length < 4 then none
  else
    match toolsString payload 4 (maxPath - 1) with
    | some (requested, offset) =>
      if offset ≠ payload.length then none else some (payload.readU32 0, requested)
    | none => none

/-- Separators at the end go, down to a root's three characters. -/
def stripSeparators (full : Bytes) : Bytes := full.take 3 ++ (full.drop 3).rdropWhile (· == pathSep)

/-- The full path of a request, where the handler can use it. -/
def deletePath (env : DeleteEnv) (requested : Bytes) : Option Bytes :=
  match env.getFullPathName requested with
  | some full =>
    if full.text.length ≥ maxPath then none else some (stripSeparators full.text)
  | none => none

/-- `v9x_tools_covers`, behind the character `prev` of `outer`. -/
def toolsCoversFrom (prev : UInt8) : Bytes → Bytes → Bool
  | [], [] => true
  | [], ch :: _ => prev == pathSep || ch == pathSep
  | _ :: _, [] => false
  | o :: outer, i :: inner => if upper o = upper i then toolsCoversFrom o outer inner else false

/-- `v9x_tools_covers`: true if `outer` is `inner` or one of its parent directories. -/
def toolsCovers (outer inner : Bytes) : Bool := toolsCoversFrom 0 outer inner

/-- A drive or share root, by its text. -/
def isRootPath (full : Bytes) : Bool :=
  full.length ≤ 3 || (full.at' 0 == pathSep && full.at' 1 == pathSep)

/-- The handler's refusal. -/
def deleteRefused (env : DeleteEnv) (full : Bytes) : Bool :=
  isRootPath full || (env.windowsDir != [] && toolsCovers full env.windowsDir) ||
    (env.systemDir != [] && toolsCovers full env.systemDir) || toolsCovers full agentDir

/-! ## Deleting -/

/-- What the system says to the calls on files. The flag of the two removals is
whether the attributes were set to normal before. -/
structure DeleteAnswers where
  /-- `GetFileAttributesA` -/
  attributes : Bytes → Except UInt32 UInt32
  /-- `FindFirstFileA` and `FindNextFileA`: names with their attributes -/
  find : Bytes → Except UInt32 (List (Bytes × UInt32))
  /-- `DeleteFileA` -/
  deleteFile : Bytes → Bool → CallResult
  /-- `RemoveDirectoryA` -/
  removeDirectory : Bytes → Bool → CallResult

/-- `V9xDeleteCount`. -/
structure DeleteCount where
  files : UInt32
  directories : UInt32
  nativeError : UInt32
  removed : List Bytes
deriving DecidableEq, Repr

/-- `v9x_delete_file`; `error` is its failure. -/
def deleteFile (answers : DeleteAnswers) (path : Bytes) (attributes : UInt32) (force : Bool)
    (count : DeleteCount) : Except DeleteCount DeleteCount :=
  let result := answers.deleteFile path (force && attributes &&& attributesProtecting != 0)
  if !result.ok then .error { count with nativeError := result.error }
  else .ok { count with files := count.files + 1, removed := path :: count.removed }

/-- `RemoveDirectoryA` and what the callers do with its answer. -/
def removeDirectory (answers : DeleteAnswers) (path : Bytes) (force : Bool)
    (count : DeleteCount) : Except DeleteCount DeleteCount :=
  let result := answers.removeDirectory path force
  if !result.ok then .error { count with nativeError := result.error }
  else .ok { count with directories := count.directories + 1, removed := path :: count.removed }

/-- `.` and `..`. -/
def isDotName (name : Bytes) : Bool := name == ascii "." || name == ascii ".."

/-- One entry of `v9x_delete_tree`'s walk; `descend` is the walk of a directory. -/
def deleteEntry (answers : DeleteAnswers) (force : Bool)
    (descend : Bytes → DeleteCount → Except DeleteCount DeleteCount) (path : Bytes)
    (count : DeleteCount) (entry : Bytes × UInt32) : Except DeleteCount DeleteCount :=
  if isDotName entry.1 then .ok count
  else if path.length + 1 + entry.1.length ≥ maxPath then
    .error { count with nativeError := errorFilenameExcedRange }
  else if entry.2 &&& attributeDirectory != 0 then descend (path ++ pathSep :: entry.1) count
  else deleteFile answers (path ++ pathSep :: entry.1) entry.2 force count

/-- What `v9x_delete_tree` does with the entries `FindFirstFileA` and `FindNextFileA` give. -/
def deleteEntries (answers : DeleteAnswers) (force : Bool)
    (descend : Bytes → DeleteCount → Except DeleteCount DeleteCount) (path : Bytes)
    (count : DeleteCount) : Except DeleteCount DeleteCount :=
  match answers.find path with
  | .error native =>
    if native != errorFileNotFound && native != errorNoMoreFiles then
      .error { count with nativeError := native }
    else .ok { count with nativeError := native }
  | .ok entries => entries.foldlM (deleteEntry answers force descend path) count

/-- `v9x_delete_tree`, with `levels` directories left before it is too deep. -/
def deleteTree (answers : DeleteAnswers) (force : Bool) :
    ℕ → Bytes → DeleteCount → Except DeleteCount DeleteCount
  | 0, _, count => .error { count with nativeError := errorFilenameExcedRange }
  | levels + 1, path, count =>
    if path.length + 2 ≥ maxPath then .error { count with nativeError := errorFilenameExcedRange }
    else
      match deleteEntries answers force (deleteTree answers force levels) path count with
      | .error count => .error count
      | .ok count => removeDirectory answers path force count

inductive DeleteReply
  | error (status native : UInt32) (detail : String)
  | deleted (files directories : UInt32)
deriving DecidableEq, Repr

/-- The call the handler deletes with. -/
def deleteTarget (answers : DeleteAnswers) (flags : UInt32) (full : Bytes) (attributes : UInt32) :
    Except DeleteCount DeleteCount :=
  let force := flags &&& deleteForce != 0
  let count : DeleteCount := ⟨0, 0, 0, []⟩
  if attributes &&& attributeDirectory = 0 then deleteFile answers full attributes force count
  else if flags &&& deleteRecursive != 0 then
    deleteTree answers force (deleteDepthMax + 1) full count
  else removeDirectory answers full force count

/-- What a failed delete says. -/
def deleteDetail (flags attributes : UInt32) (count : DeleteCount) : String :=
  if count.files + count.directories != 0 then "delete stopped part way (some entries removed)"
  else if attributes &&& attributeDirectory != 0 && flags &&& deleteRecursive == 0 then
    "directory not empty or in use (use -Recurse)"
  else "delete failed (read-only or in use? -Force clears attributes)"

/-- `v9x_handle_delete`: the reply and the paths removed. `winFileStatus` is also
`v9x_tools_status`. -/
def handleDelete (env : DeleteEnv) (answers : DeleteAnswers) (payload : Bytes) : DeleteReply × List Bytes :=
  match parseDelete payload with
  | none => (.error statusInvalidPayload errorInvalidParameter "invalid delete request", [])
  | some (flags, requested) =>
    match deletePath env requested with
    | none => (.error statusInvalidPayload env.lastError "delete path could not be resolved", [])
    | some full =>
      if deleteRefused env full then
        (.error statusAccessDenied errorAccessDenied
          "refused: a root, the Windows or system directory, the agent folder, or a folder containing one", [])
      else
        match answers.attributes full with
        | .error native => (.error (winFileStatus native) native "delete target not found", [])
        | .ok attributes =>
          match deleteTarget answers flags full attributes with
          | .error count =>
            (.error (winFileStatus count.nativeError) count.nativeError (deleteDetail flags attributes count),
              count.removed)
          | .ok count => (.deleted count.files count.directories, count.removed)

/-! ## Names -/

/-- An entry of a directory with its two names. -/
structure DirEntry where
  dir : List Bytes
  long : Bytes
  short : Bytes
deriving DecidableEq, Repr

/-- A volume's entries, its drives being the entries of `[]`. Either name of an entry
names it, in any case of the letters. -/
def volumeLookup (entries : List DirEntry) : NameTree.Lookup Bytes Bytes := fun dir name =>
  (entries.find? fun entry =>
    entry.dir = dir && (name.map upper = entry.long.map upper || name.map upper = entry.short.map upper)).map
    DirEntry.long

/-- One component of a path being resolved: dots step nowhere or up. -/
def pushComponent (names : List Bytes) (name : Bytes) : List Bytes :=
  if name = ascii "." then names else if name = ascii ".." then names.dropLast else names ++ [name]

/-- The path of `names` on a drive, with a separator at its end or without. -/
def drivePath (drive : UInt8) (names : List Bytes) (closed : Bool) : FullPath :=
  ⟨[drive, 58, pathSep] ++ (names.intersperse [pathSep]).flatten ++
      (if closed && names != [] then [pathSep] else []),
    Or.inl ⟨drive, by rw [List.append_assoc]; exact List.prefix_append _ _⟩⟩

/-- `GetFullPathNameA` as documented, with `names` the current directory of the
current drive: either separator, repeated or not, and dots are resolved, and short
names stay as they are. -/
def winFullPathName (drive : UInt8) (names : List Bytes) (requested : Bytes) : Option FullPath :=
  let text := requested.map fun ch => if ch = 47 then pathSep else ch
  let resolved (drive : UInt8) (names : List Bytes) (rest : Bytes) : FullPath :=
    drivePath drive ((NameTree.components pathSep rest).foldl pushComponent names)
      (rest.getLast? = some pathSep)
  if h : [pathSep, pathSep] <+: text then some ⟨text, Or.inr h⟩
  else
    match text with
    | [] => none
    | d :: 58 :: rest =>
      if rest.head? = some pathSep || upper d ≠ upper drive then some (resolved d [] rest)
      else some (resolved d names rest)
    | ch :: rest => some (if ch = pathSep then resolved drive [] rest else resolved drive names (ch :: rest))

end V9xRemote
