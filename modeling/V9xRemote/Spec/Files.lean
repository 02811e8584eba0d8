import V9xRemote.Spec.Upload
import Mathlib.Data.List.TakeWhile

/-!
# The upload handlers of both agents

`winPort` is `src/guest/files.c`, `dosPort` is `src/guest-dos/files_dos.c`: what
each takes from its platform, and the handlers of `Spec.Upload` at these values.
-/

namespace V9xRemote

open Bytes

def filePathMax : ℕ := 230

def errorFileNotFound : UInt32 := 2
def errorAccessDenied : UInt32 := 5
def errorInvalidData : UInt32 := 13
def errorInvalidParameter : UInt32 := 87

/-! ## Windows -/

/-- Win32 compares names without case and takes either separator. -/
def winKey (path : Bytes) : Bytes := path.map fun b => if b = 47 then 92 else upper b

theorem winKey_append (a b : Bytes) : winKey (a ++ b) = winKey a ++ winKey b := List.map_append

/-- `v9x_make_part_path`: `<path>.<slot>.<request id>.PART`. -/
def winPartPath (path : Bytes) (slotIndex requestId : UInt32) : Option Bytes :=
  if path.length > filePathMax then none
  else some (path ++ ascii "." ++ decimal slotIndex.toNat ++ ascii "." ++ decimal requestId.toNat ++
    ascii ".PART")

/-- `v9x_make_backup_path`. -/
def winBackupPath (path : Bytes) : Option Bytes :=
  if path.length > filePathMax then none else some (path ++ ascii ".V9X.BAK")

/-- `v9x_file_status`: ERROR_FILE_NOT_FOUND, ERROR_PATH_NOT_FOUND, ERROR_ACCESS_DENIED,
ERROR_SHARING_VIOLATION. -/
def winFileStatus (native : UInt32) : UInt32 :=
  if native = 2 || native = 3 then statusNotFound
  else if native = 5 || native = 32 then statusAccessDenied
  else statusIoFailed

/-- The last letters differ. -/
theorem winPart_ne_winBackup (path : Bytes) (slot requestId : UInt32) (temp backup : Bytes)
    (ht : winPartPath path slot requestId = some temp) (hb : winBackupPath path = some backup) :
    winKey temp ≠ winKey backup := by
  unfold winPartPath at ht
  unfold winBackupPath at hb
  split at ht
  · exact absurd ht (by simp)
  rename_i hlen
  rw [if_neg hlen] at hb
  obtain rfl := Option.some.inj ht
  obtain rfl := Option.some.inj hb
  intro h
  have hlast := congrArg List.getLast? h
  have hpart : (winKey (ascii ".PART")).getLast? = some 84 := by decide
  have hback : (winKey (ascii ".V9X.BAK")).getLast? = some 75 := by decide
  rw [winKey_append _ (ascii ".PART"), winKey_append _ (ascii ".V9X.BAK"), List.getLast?_append,
    List.getLast?_append, hpart, hback, Option.some_or, Option.some_or] at hlast
  exact absurd hlast (by decide)

def winPort : Port Bytes where
  key := winKey
  pathMax := filePathMax
  partPath := winPartPath
  backupPath := winBackupPath
  fileStatus := winFileStatus
  flushes := true
  errInvalid := 87
  errHandle := 6
  errTooLarge := 223
  errCrc := 23
  errDenied := 5
  part_ne_backup := winPart_ne_winBackup
  fileStatus_ne := by
    intro native
    unfold winFileStatus
    split
    · decide
    split <;> decide

def winHandleOpenWrite := handleOpenWrite winPort
def winHandleWriteChunk := handleWriteChunk winPort
def winHandleCommit := handleCommit winPort
def winPromoteTemp := promoteTemp winPort

/-! ## DOS -/

/-- A file as DOS names it: drive, directory, and the padded name's two parts. -/
structure DosName where
  drive : UInt8
  dir : Bytes
  base : Bytes
  ext : Bytes
deriving DecidableEq, Repr

def isSeparator (b : UInt8) : Bool := b == 92 || b == 47

/-- `v9x_dir_prefix`: up to and including the last separator. -/
def dirPrefix (path : Bytes) : Bytes := (path.reverse.dropWhile fun b => !isSeparator b).reverse

/-- What follows the last separator. -/
def lastName (path : Bytes) : Bytes := (path.reverse.takeWhile fun b => !isSeparator b).reverse

/-- A leading `X:`, and the rest. -/
def splitDrive (current : UInt8) : Bytes → UInt8 × Bytes
  | d :: 58 :: rest => (upper d, rest)
  | path => (current, path)

/-- The file a path names: case does not count, nor what goes beyond eight
characters of name and three of extension. `current` is the current drive. -/
def dosKey (current : UInt8) (path : Bytes) : DosName :=
  let (drive, rest) := splitDrive current path
  let name := (lastName rest).map upper
  { drive := drive
    dir := (dirPrefix rest).map fun b => if b = 47 then 92 else upper b
    base := (name.takeWhile (· ≠ 46)).take 8
    ext := (((name.dropWhile (· ≠ 46)).drop 1).takeWhile (· ≠ 46)).take 3 }

/-- `v9x_make_sibling`. -/
def makeSibling (finalPath name : Bytes) : Option Bytes :=
  let dir := dirPrefix finalPath
  if dir.length + 16 ≥ 260 then none else some (dir ++ name)

theorem lastName_append (a : Bytes) {n : Bytes} (hn : n.all fun b => !isSeparator b) :
    lastName (a ++ n) = lastName a ++ n := by
  have hall : ∀ x ∈ n.reverse, (!isSeparator x) = true := by
    simpa [List.all_eq_true] using hn
  rw [lastName, List.reverse_append, List.takeWhile_append_of_pos hall, List.reverse_append,
    List.reverse_reverse]
  rfl

theorem dirPrefix_append_lastName (path : Bytes) : dirPrefix path ++ lastName path = path := by
  rw [dirPrefix, lastName, ← List.reverse_append, List.takeWhile_append_dropWhile, List.reverse_reverse]

def dosPartName : Bytes := ascii "V9XUP.TMP"
def dosBakName : Bytes := ascii "V9XUP.BAK"

theorem lastName_dirPrefix (path : Bytes) : lastName (dirPrefix path) = [] := by
  rw [lastName, dirPrefix, List.reverse_reverse, List.takeWhile_eq_nil_iff.2]
  · rfl
  · intro hpos
    simpa using List.dropWhile_get_zero_not (fun b => !isSeparator b) path.reverse hpos

/-- A drive in front does not reach into a last name without a colon. -/
theorem splitDrive_append (current : UInt8) (dir : Bytes) {n : Bytes} (hdir : lastName dir = [])
    (hn : 58 ∉ n) :
    splitDrive current (dir ++ n) = ((splitDrive current dir).1, (splitDrive current dir).2 ++ n) ∧
      lastName (splitDrive current dir).2 = [] := by
  match dir, hdir with
  | [], _ =>
    refine ⟨?_, rfl⟩
    match n, hn with
    | [], _ => rfl
    | [_], _ => rfl
    | a :: b :: n, hn =>
      have hb : b ≠ 58 := fun h => hn (by simp [h])
      simp [splitDrive, hb]
  | [x], hdir =>
    refine ⟨?_, by simpa [splitDrive] using hdir⟩
    match n, hn with
    | [], _ => rfl
    | a :: n, hn =>
      have ha : a ≠ 58 := fun h => hn (by simp [h])
      simp [splitDrive, ha]
  | x :: y :: rest, hdir =>
    by_cases hy : y = 58
    · subst hy
      refine ⟨rfl, ?_⟩
      show lastName rest = []
      rw [lastName, List.reverse_eq_nil_iff] at hdir ⊢
      rw [List.reverse_cons, List.reverse_cons] at hdir
      cases hr : rest.reverse with
      | nil => rfl
      | cons z zs =>
        rw [hr, List.cons_append, List.cons_append, List.takeWhile_cons] at hdir
        rw [List.takeWhile_cons]
        split at hdir
        · exact absurd hdir (by simp)
        · rename_i hz
          rw [if_neg hz]
    · simp [splitDrive, hy, hdir]

/-- The DOS name of a sibling is the sibling's own 8.3 name in the same directory. -/
theorem dosKey_sibling (current : UInt8) (path : Bytes) {n : Bytes} (hn : n.all fun b => !isSeparator b)
    (hcolon : 58 ∉ n) :
    (dosKey current (dirPrefix path ++ n)).base = ((n.map upper).takeWhile (· ≠ 46)).take 8 ∧
      (dosKey current (dirPrefix path ++ n)).ext =
        ((((n.map upper).dropWhile (· ≠ 46)).drop 1).takeWhile (· ≠ 46)).take 3 := by
  obtain ⟨hsplit, hlast⟩ := splitDrive_append current (dirPrefix path) (lastName_dirPrefix path) hcolon
  have hname : lastName ((splitDrive current (dirPrefix path)).2 ++ n) = n := by
    rw [lastName_append _ hn, hlast, List.nil_append]
  unfold dosKey
  rw [hsplit]
  dsimp only
  rw [hname]
  exact ⟨rfl, rfl⟩

theorem makeSibling_some {path n out : Bytes} (h : makeSibling path n = some out) :
    out = dirPrefix path ++ n := by
  unfold makeSibling at h
  dsimp only at h
  split at h
  · exact absurd h (by simp)
  · exact (Option.some.inj h).symm

/-- The extensions differ. -/
theorem dosPart_ne_dosBak (current : UInt8) (path temp backup : Bytes)
    (ht : makeSibling path dosPartName = some temp) (hb : makeSibling path dosBakName = some backup) :
    dosKey current temp ≠ dosKey current backup := by
  obtain rfl := makeSibling_some ht
  obtain rfl := makeSibling_some hb
  intro h
  have hext := congrArg DosName.ext h
  rw [(dosKey_sibling current path (by decide) (by decide)).2,
    (dosKey_sibling current path (by decide) (by decide)).2] at hext
  exact absurd hext (by decide)

/-- `v9x_file_status`: ENOENT, EACCES. -/
def dosFileStatus (err : UInt32) : UInt32 :=
  if err = 1 then statusNotFound else if err = 6 then statusAccessDenied else statusIoFailed

/-- The error numbers are the C library's EINVAL, EBADF and EACCES. -/
def dosPort (current : UInt8) : Port DosName where
  key := dosKey current
  pathMax := filePathMax
  partPath := fun path _ _ => makeSibling path dosPartName
  backupPath := fun path => makeSibling path dosBakName
  fileStatus := dosFileStatus
  flushes := false
  errInvalid := 9
  errHandle := 4
  errTooLarge := 0
  errCrc := 0
  errDenied := 6
  part_ne_backup := fun path _ _ temp backup => dosPart_ne_dosBak current path temp backup
  fileStatus_ne := by
    intro native
    unfold dosFileStatus
    split
    · decide
    split <;> decide

def dosHandleOpenWrite (current : UInt8) := handleOpenWrite (dosPort current) 0
def dosHandleWriteChunk (current : UInt8) := handleWriteChunk (dosPort current)
def dosHandleCommit (current : UInt8) := handleCommit (dosPort current)
def dosPromoteTemp (current : UInt8) := promoteTemp (dosPort current)

end V9xRemote
