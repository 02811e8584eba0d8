import V9xRemote.Spec.Delete

/-!
# What FILE_DELETE can remove

`delete_guard_iff`: whatever the system answers, a request removes no root, no
protected directory and no directory that holds one, exactly when its full path, if it
names such a directory, has a protected directory's own spelling. The guard compares
texts: `toolsCovers_iff` says which.
-/

namespace V9xRemote

open Bytes NameTree

/-! ## The guard's texts -/

/-- `full` is `dir`, or a front of it up to a separator, but for the case of letters. -/
def NamedAs (full dir : Bytes) : Prop :=
  full.map upper = dir.map upper ∨ full.map upper ++ [pathSep] <+: dir.map upper

theorem upper_eq_pathSep {ch : UInt8} : upper ch = pathSep ↔ ch = pathSep := by
  unfold upper pathSep
  split
  · rename_i h
    have h1 : 97 ≤ ch.toNat := h.1
    have h2 : ch.toNat ≤ 122 := h.2
    constructor
    · intro heq
      have := congrArg UInt8.toNat heq
      rw [UInt8.toNat_sub_of_le _ _ (by rw [UInt8.le_iff_toNat_le]; exact Nat.le_trans (by decide) h1)] at this
      have : ch.toNat - 32 = 92 := this
      omega
    · rintro rfl
      exact absurd h1 (by decide)
  · exact Iff.rfl

/-- The loop compares without case, and looks at what stands at the cut. -/
theorem toolsCoversFrom_iff (prev : UInt8) (outer inner : Bytes) :
    toolsCoversFrom prev outer inner = true ↔
      ∃ rest, inner.map upper = outer.map upper ++ rest ∧
        (rest = [] ∨ rest.head? = some pathSep ∨ outer.getLast?.getD prev = pathSep) := by
  induction outer generalizing prev inner with
  | nil =>
    cases inner with
    | nil => simp [toolsCoversFrom]
    | cons ch inner => simp [toolsCoversFrom, upper_eq_pathSep, or_comm]
  | cons o outer ih =>
    cases inner with
    | nil => simp [toolsCoversFrom]
    | cons i inner =>
      rw [toolsCoversFrom]
      split
      · rename_i heq
        rw [ih]
        have hlast : (o :: outer).getLast?.getD prev = outer.getLast?.getD o := by
          cases outer with
          | nil => rfl
          | cons b outer => simp [List.getLast?_cons]
        simp [heq, hlast]
      · rename_i hne
        simp only [Bool.false_eq_true, List.map_cons, List.cons_append, List.cons.injEq, false_iff]
        rintro ⟨rest, ⟨heq, -⟩, -⟩
        exact hne heq.symm

/-- **The guard compares texts.** -/
theorem toolsCovers_iff {outer inner : Bytes} (hne : outer ≠ []) (hlast : outer.getLast? ≠ some pathSep) :
    toolsCovers outer inner = true ↔ NamedAs outer inner := by
  obtain ⟨last, hl⟩ := Option.ne_none_iff_exists'.1 (fun h => hne (List.getLast?_eq_none_iff.1 h))
  have hsep : outer.getLast?.getD 0 ≠ pathSep := by
    rw [hl, Option.getD_some]
    rintro rfl
    exact hlast hl
  rw [toolsCovers, toolsCoversFrom_iff, NamedAs]
  constructor
  · rintro ⟨rest, heq, rfl | hhead | h⟩
    · exact Or.inl (by simpa using heq.symm)
    · obtain ⟨tail, rfl⟩ := List.head?_eq_some_iff.1 hhead
      exact Or.inr ⟨tail, by rw [heq, List.append_assoc]; rfl⟩
    · exact absurd h hsep
  · rintro (heq | ⟨tail, heq⟩)
    · exact ⟨[], by simpa using heq.symm, Or.inl rfl⟩
    · exact ⟨pathSep :: tail, by rw [← heq, List.append_assoc]; rfl, Or.inr (Or.inl rfl)⟩

variable {env : DeleteEnv} {answers : DeleteAnswers} {full requested : Bytes}

/-- The directories the handler looks after. -/
def protectedDirs (env : DeleteEnv) : List Bytes := [env.windowsDir, env.systemDir, agentDir].filter (· ≠ [])

theorem stripSeparators_last {text : Bytes} (h : 3 < (stripSeparators text).length) :
    (text.drop 3).rdropWhile (· == pathSep) ≠ [] ∧ (stripSeparators text).getLast? ≠ some pathSep := by
  have hne : (text.drop 3).rdropWhile (· == pathSep) ≠ [] := by
    intro hnil
    rw [stripSeparators, hnil, List.append_nil] at h
    have := List.length_take_le 3 text
    omega
  refine ⟨hne, ?_⟩
  rw [stripSeparators, List.getLast?_append_of_ne_nil _ hne, List.getLast?_eq_some_getLast hne]
  intro hsep
  exact List.rdropWhile_last_not _ _ hne (by simpa using hsep)

theorem not_isRootPath (h : isRootPath full = false) : 3 < full.length := by
  simp only [isRootPath, Bool.or_eq_false_iff, decide_eq_false_iff_not, not_le] at h
  exact h.1

/-- **What the handler refuses.** -/
theorem deleteRefused_iff (env : DeleteEnv) (text : Bytes) :
    deleteRefused env (stripSeparators text) = true ↔
      isRootPath (stripSeparators text) = true ∨ ∃ dir ∈ protectedDirs env, NamedAs (stripSeparators text) dir := by
  rw [deleteRefused]
  cases hroot : isRootPath (stripSeparators text) with
  | true => simp
  | false =>
    have hlen := not_isRootPath hroot
    have hne : stripSeparators text ≠ [] := List.ne_nil_of_length_pos (by omega)
    have hcov : ∀ inner, toolsCovers (stripSeparators text) inner = true ↔ NamedAs (stripSeparators text) inner :=
      fun _ => toolsCovers_iff hne (stripSeparators_last hlen).2
    have hagent : agentDir ≠ [] := by decide
    by_cases hw : env.windowsDir = [] <;> by_cases hs : env.systemDir = [] <;>
      simp [protectedDirs, hcov, hw, hs, hagent, or_assoc]

/-! ## What a delete removes -/

/-- `path` itself or a path below it. -/
def Under (path q : Bytes) : Prop := q = path ∨ ∃ more, q = path ++ pathSep :: more

theorem Under.trans {path more q : Bytes} (h : Under (path ++ pathSep :: more) q) : Under path q := by
  obtain rfl | ⟨rest, rfl⟩ := h
  · exact Or.inr ⟨more, rfl⟩
  · exact Or.inr ⟨more ++ pathSep :: rest, by simp⟩

/-- The count a deletion ends with, done or failed. -/
def outcome : Except DeleteCount DeleteCount → DeleteCount
  | .error count => count
  | .ok count => count

/-- What is removed beyond `count` is under `path`. -/
def RemovesUnder (path : Bytes) (count : DeleteCount) (result : Except DeleteCount DeleteCount) : Prop :=
  ∀ q ∈ (outcome result).removed, q ∈ count.removed ∨ Under path q

variable {path : Bytes} {count : DeleteCount} {force : Bool}

theorem RemovesUnder.stop (native : UInt32) :
    RemovesUnder path count (.error { count with nativeError := native }) :=
  fun _ hq => Or.inl hq

theorem deleteFile_under (attributes : UInt32) :
    RemovesUnder path count (deleteFile answers path attributes force count) := by
  intro q hq
  unfold deleteFile at hq
  dsimp only at hq
  split at hq
  · exact Or.inl hq
  · obtain rfl | hq := List.mem_cons.1 hq
    · exact Or.inr (Or.inl rfl)
    · exact Or.inl hq

theorem removeDirectory_under : RemovesUnder path count (removeDirectory answers path force count) := by
  intro q hq
  unfold removeDirectory at hq
  dsimp only at hq
  split at hq
  · exact Or.inl hq
  · obtain rfl | hq := List.mem_cons.1 hq
    · exact Or.inr (Or.inl rfl)
    · exact Or.inl hq

/-- One entry of a walk. -/
theorem deleteEntry_under {descend : Bytes → DeleteCount → Except DeleteCount DeleteCount}
    (hdescend : ∀ path count, RemovesUnder path count (descend path count)) (entry : Bytes × UInt32) :
    RemovesUnder path count (deleteEntry answers force descend path count entry) := by
  intro q hq
  unfold deleteEntry at hq
  split at hq
  · exact Or.inl hq
  split at hq
  · exact RemovesUnder.stop _ q hq
  split at hq
  · exact (hdescend _ _ q hq).imp_right Under.trans
  · exact (deleteFile_under _ q hq).imp_right Under.trans

/-- The entries of a directory, one after the other until one fails. -/
theorem foldEntries_under {descend : Bytes → DeleteCount → Except DeleteCount DeleteCount}
    (hdescend : ∀ path count, RemovesUnder path count (descend path count)) (entries : List (Bytes × UInt32)) :
    RemovesUnder path count (entries.foldlM (deleteEntry answers force descend path) count) := by
  induction entries generalizing count with
  | nil => exact fun q hq => Or.inl hq
  | cons entry entries ih =>
    have hentry : RemovesUnder path count (deleteEntry answers force descend path count entry) :=
      deleteEntry_under hdescend entry
    rw [List.foldlM_cons]
    cases hres : deleteEntry answers force descend path count entry with
    | error stopped =>
      rw [hres] at hentry
      exact hentry
    | ok next =>
      rw [hres] at hentry
      intro q hq
      obtain hnext | hunder := ih q hq
      · exact hentry q hnext
      · exact Or.inr hunder

theorem deleteEntries_under {descend : Bytes → DeleteCount → Except DeleteCount DeleteCount}
    (hdescend : ∀ path count, RemovesUnder path count (descend path count)) :
    RemovesUnder path count (deleteEntries answers force descend path count) := by
  unfold deleteEntries
  split
  · split
    · exact RemovesUnder.stop _
    · exact fun _ hq => Or.inl hq
  · exact foldEntries_under hdescend _

/-- **A recursive delete stays in its directory.** -/
theorem deleteTree_under (levels : ℕ) (path : Bytes) (count : DeleteCount) :
    RemovesUnder path count (deleteTree answers force levels path count) := by
  induction levels generalizing path count with
  | zero => exact RemovesUnder.stop _
  | succ levels ih =>
    have hentries : RemovesUnder path count
        (deleteEntries answers force (deleteTree answers force levels) path count) := deleteEntries_under ih
    unfold deleteTree
    split
    · exact RemovesUnder.stop _
    split
    · rename_i stopped hres
      rwa [hres] at hentries
    · rename_i emptied hres
      rw [hres] at hentries
      intro q hq
      obtain hin | hself := removeDirectory_under q hq
      · exact hentries q hin
      · exact Or.inr hself

theorem deleteTarget_under (flags attributes : UInt32) (full : Bytes) {q : Bytes}
    (hq : q ∈ (outcome (deleteTarget answers flags full attributes)).removed) : Under full q := by
  have hnone : q ∉ (⟨0, 0, 0, []⟩ : DeleteCount).removed := List.not_mem_nil
  unfold deleteTarget at hq
  dsimp only at hq
  split at hq
  · exact (deleteFile_under _ q hq).resolve_left hnone
  split at hq
  · exact (deleteTree_under _ _ _ q hq).resolve_left hnone
  · exact (removeDirectory_under q hq).resolve_left hnone

/-- **An accepted delete removes nothing but its target and what is below it.** -/
theorem handleDelete_under {payload q : Bytes} (hq : q ∈ (handleDelete env answers payload).2) :
    ∃ flags requested full, parseDelete payload = some (flags, requested) ∧
      deletePath env requested = some full ∧ deleteRefused env full = false ∧ Under full q := by
  unfold handleDelete at hq
  split at hq
  · exact absurd hq List.not_mem_nil
  rename_i flags requested hparse
  split at hq
  · exact absurd hq List.not_mem_nil
  rename_i full hfull
  split at hq
  · exact absurd hq List.not_mem_nil
  rename_i hrefused
  split at hq
  · exact absurd hq List.not_mem_nil
  rename_i attributes _
  refine ⟨flags, requested, full, hparse, hfull, by simpa using hrefused, ?_⟩
  split at hq
  · rename_i stopped hres
    exact deleteTarget_under flags attributes full (by rwa [hres])
  · rename_i done hres
    exact deleteTarget_under flags attributes full (by rwa [hres])

/-! ## What the names stand for -/

section Guard

variable (lookup : Lookup Bytes Bytes)

/-- The object is one of the handler's directories or holds one. -/
def HoldsProtected (env : DeleteEnv) (object : List Bytes) : Prop :=
  ∃ dir ∈ protectedDirs env, ∃ place, resolve lookup pathSep dir = some place ∧ object <+: place

/-- A drive's root, one of the handler's directories, or a directory that holds one. -/
def MustStay (env : DeleteEnv) (object : List Bytes) : Prop :=
  object.length ≤ 1 ∨ HoldsProtected lookup env object

/-- The objects a request removes. -/
def removedObjects (env : DeleteEnv) (answers : DeleteAnswers) (payload : Bytes) : List (List Bytes) :=
  (handleDelete env answers payload).2.filterMap (resolve lookup pathSep)

/-- `GetFileAttributesA` tells that what holds a protected directory is a directory. -/
def ReportsDirectories (env : DeleteEnv) (answers : DeleteAnswers) : Prop :=
  ∀ path attributes object, answers.attributes path = .ok attributes →
    resolve lookup pathSep path = some object → HoldsProtected lookup env object →
    attributes &&& attributeDirectory ≠ 0

/-- The request's full path, if it names a protected directory or one that holds one,
does so by a protected directory's own spelling (or it is a root's, or too long for
the recursive walk). -/
def PlainlyNamed (env : DeleteEnv) (payload : Bytes) : Prop :=
  ∀ flags requested full object, parseDelete payload = some (flags, requested) →
    deletePath env requested = some full → isRootPath full = false →
    (flags &&& deleteRecursive ≠ 0 → full.length + 2 < maxPath) →
    resolve lookup pathSep full = some object → HoldsProtected lookup env object →
    ∃ dir ∈ protectedDirs env, NamedAs full dir

variable {lookup}

theorem resolve_under {q : Bytes} {object : List Bytes} (hunder : Under full q)
    (h : resolve lookup pathSep q = some object) :
    ∃ target, resolve lookup pathSep full = some target ∧ target <+: object := by
  obtain rfl | ⟨more, rfl⟩ := hunder
  · exact ⟨object, h, List.prefix_rfl⟩
  · exact resolve_append h

theorem deletePath_cases (h : deletePath env requested = some full) :
    ∃ path : FullPath, full = stripSeparators path.text ∧ path.text.length < maxPath := by
  unfold deletePath at h
  split at h
  · rename_i path _
    split at h
    · cases h
    · exact ⟨path, (Option.some.inj h).symm, by omega⟩
  · cases h

/-- A path that is not a root's text names no root. -/
theorem not_root_object {object : List Bytes} (hpath : deletePath env requested = some full)
    (hroot : isRootPath full = false) (h : resolve lookup pathSep full = some object) : 1 < object.length := by
  obtain ⟨path, rfl, -⟩ := deletePath_cases hpath
  have hlen := not_isRootPath hroot
  obtain ⟨hne, hlast⟩ := stripSeparators_last hlen
  obtain ⟨drive, rest, htext⟩ | ⟨rest, htext⟩ := path.isFull
  · -- the drive's component, and one from behind its separator
    have hfull : stripSeparators path.text = [drive, 58] ++ pathSep :: rest.rdropWhile (· == pathSep) := by
      rw [stripSeparators, ← htext]; rfl
    have hrest : (path.text.drop 3).rdropWhile (· == pathSep) = rest.rdropWhile (· == pathSep) := by
      rw [← htext]; rfl
    rw [hrest] at hne
    have hdrive : components pathSep [drive, 58] ≠ [] := components_ne_nil ⟨58, by simp, by decide⟩
    have hbelow : components pathSep (rest.rdropWhile (· == pathSep)) ≠ [] :=
      components_ne_nil ⟨_, List.getLast_mem hne, by simpa using List.rdropWhile_last_not _ _ hne⟩
    rw [resolve_length h, hfull, components_append, List.length_append]
    have h1 := List.length_pos_of_ne_nil hdrive
    have h2 := List.length_pos_of_ne_nil hbelow
    omega
  · -- a UNC path is refused
    exfalso
    have hfull : stripSeparators path.text = pathSep :: pathSep :: (stripSeparators path.text).drop 2 := by
      rw [stripSeparators, ← htext]
      rfl
    rw [hfull] at hroot
    simp [isRootPath, Bytes.at'] at hroot

/-- A file system that lets everything through and whose directories are empty. -/
def yieldingAnswers : DeleteAnswers where
  attributes _ := .ok attributeDirectory
  find _ := .ok [(ascii ".", attributeDirectory), (ascii "..", attributeDirectory)]
  deleteFile _ _ := ⟨true, 0⟩
  removeDirectory _ _ := ⟨true, 0⟩

theorem yielding_removes {payload : Bytes} {flags : UInt32} (hparse : parseDelete payload = some (flags, requested))
    (hpath : deletePath env requested = some full) (hrefused : deleteRefused env full = false)
    (hlen : flags &&& deleteRecursive ≠ 0 → full.length + 2 < maxPath) :
    (handleDelete env yieldingAnswers payload).2 = [full] := by
  have htarget : ∃ count, deleteTarget yieldingAnswers flags full attributeDirectory = .ok count ∧
      count.removed = [full] := by
    by_cases hrec : flags &&& deleteRecursive = 0
    · exact ⟨⟨0, 1, 0, [full]⟩, by simp [deleteTarget, hrec, removeDirectory, yieldingAnswers, attributeDirectory], rfl⟩
    · have hwalk : deleteEntries yieldingAnswers (flags &&& deleteForce != 0)
          (deleteTree yieldingAnswers (flags &&& deleteForce != 0) deleteDepthMax) full ⟨0, 0, 0, []⟩ =
            .ok ⟨0, 0, 0, []⟩ := rfl
      have hshort : ¬full.length + 2 ≥ maxPath := by have := hlen hrec; omega
      refine ⟨⟨0, 1, 0, [full]⟩, ?_, rfl⟩
      rw [deleteTarget, if_neg (by decide), if_pos (by simpa using hrec), deleteTree, if_neg hshort, hwalk]
      rfl
  obtain ⟨count, hcount, hremoved⟩ := htarget
  simp only [handleDelete, hparse, hpath, hrefused, Bool.false_eq_true, if_false]
  rw [show yieldingAnswers.attributes full = .ok attributeDirectory from rfl]
  simp only [hcount, hremoved]

/-- A directory whose path is too long for the walk stays. -/
theorem long_path_stays {payload : Bytes} {flags : UInt32} {object : List Bytes}
    (hreports : ReportsDirectories lookup env answers) (hparse : parseDelete payload = some (flags, requested))
    (hpath : deletePath env requested = some full) (hrefused : deleteRefused env full = false)
    (hrec : flags &&& deleteRecursive ≠ 0) (hlong : maxPath ≤ full.length + 2)
    (hobject : resolve lookup pathSep full = some object) (hholds : HoldsProtected lookup env object) :
    (handleDelete env answers payload).2 = [] := by
  simp only [handleDelete, hparse, hpath, hrefused, Bool.false_eq_true, if_false]
  cases hattr : answers.attributes full with
  | error native => rfl
  | ok attributes =>
    have hdir := hreports full attributes object hattr hobject hholds
    have htarget : deleteTarget answers flags full attributes = .error ⟨0, 0, errorFilenameExcedRange, []⟩ := by
      rw [deleteTarget, if_neg hdir, if_pos (by simpa using hrec), deleteTree, if_pos hlong]
    simp only [htarget]

/-- **FILE_DELETE's guard.** Whatever the file system says, a request removes no
drive root, no protected directory and none that holds one, exactly when its path is
plainly named. -/
theorem delete_guard_iff (lookup : Lookup Bytes Bytes) (env : DeleteEnv) (payload : Bytes) :
    (∀ answers, ReportsDirectories lookup env answers →
        ∀ object ∈ removedObjects lookup env answers payload, ¬MustStay lookup env object) ↔
      PlainlyNamed lookup env payload := by
  constructor
  · intro hsafe flags requested full object hparse hpath hroot hlen hobject hholds
    by_contra hplain
    obtain ⟨path, rfl, -⟩ := deletePath_cases hpath
    have hrefused : deleteRefused env (stripSeparators path.text) = false := by
      rw [← Bool.not_eq_true, deleteRefused_iff]
      rintro (h | h)
      · exact absurd (hroot.symm.trans h) (by decide)
      · exact hplain h
    have hreports : ReportsDirectories lookup env yieldingAnswers := by
      rintro _ attributes _ hattr - -
      obtain rfl := Except.ok.inj hattr
      decide
    refine hsafe yieldingAnswers hreports object ?_ (Or.inr hholds)
    rw [removedObjects, yielding_removes hparse hpath hrefused hlen]
    simp [hobject]
  · intro hplain answers hreports object hremoved hmust
    obtain ⟨q, hq, hobject⟩ := List.mem_filterMap.1 hremoved
    obtain ⟨flags, requested, full, hparse, hpath, hrefused, hunder⟩ := handleDelete_under hq
    obtain ⟨target, htarget, hbelow⟩ := resolve_under hunder hobject
    obtain ⟨path, rfl, -⟩ := deletePath_cases hpath
    rw [← Bool.not_eq_true, deleteRefused_iff, not_or] at hrefused
    have hroot : isRootPath (stripSeparators path.text) = false := by simpa using hrefused.1
    obtain hlen | ⟨dir, hdir, place, hplace, hin⟩ := hmust
    · have := not_root_object hpath hroot htarget
      have := hbelow.length_le
      omega
    · have hholds : HoldsProtected lookup env target := ⟨dir, hdir, place, hplace, hbelow.trans hin⟩
      by_cases hlen : flags &&& deleteRecursive ≠ 0 → (stripSeparators path.text).length + 2 < maxPath
      · exact hrefused.2 (hplain flags requested _ target hparse hpath hroot hlen htarget hholds)
      · obtain ⟨hrec, hlong⟩ := Classical.not_imp.1 hlen
        have hnone := long_path_stays hreports hparse hpath
          (by rw [← Bool.not_eq_true, deleteRefused_iff, not_or]; exact hrefused) hrec (by omega) htarget hholds
        rw [hnone] at hq
        exact absurd hq List.not_mem_nil

end Guard

/-! ## The agent folder's second name -/

/-- `C:\V9XREMOTE` with one file in it, its short name being `V9XREM~1`. -/
def demoVolume : List DirEntry :=
  [⟨[], ascii "C:", ascii "C:"⟩,
    ⟨[ascii "C:"], ascii "WINDOWS", ascii "WINDOWS"⟩,
    ⟨[ascii "C:", ascii "WINDOWS"], ascii "SYSTEM", ascii "SYSTEM"⟩,
    ⟨[ascii "C:"], ascii "V9XREMOTE", ascii "V9XREM~1"⟩,
    ⟨[ascii "C:", ascii "V9XREMOTE"], ascii "AGENT.INI", ascii "AGENT.INI"⟩]

def demoDeleteEnv : DeleteEnv where
  getFullPathName := winFullPathName 67 [ascii "WINDOWS"]
  lastError := 0
  windowsDir := ascii "C:\\WINDOWS"
  systemDir := ascii "C:\\WINDOWS\\SYSTEM"

/-- The folder lists its file, and every call works. -/
def demoDeleteAnswers : DeleteAnswers where
  attributes _ := .ok attributeDirectory
  find _ := .ok [(ascii ".", attributeDirectory), (ascii "..", attributeDirectory), (ascii "AGENT.INI", 0x20)]
  deleteFile _ _ := ⟨true, 0⟩
  removeDirectory _ _ := ⟨true, 0⟩

def deletePayload (flags : UInt32) (path : Bytes) : Bytes :=
  writeU32 flags ++ [UInt8.ofNat path.length, 0] ++ path

/-- Any spelling by case, separators and dots is refused. -/
example : (handleDelete demoDeleteEnv demoDeleteAnswers
    (deletePayload deleteRecursive (ascii "../v9xremote//temp/.././"))).2 = [] := by
  decide

/-- A recursive delete of the short name removes the agent folder. -/
theorem short_name_removes_agent_dir :
    ¬∀ answers, ReportsDirectories (volumeLookup demoVolume) demoDeleteEnv answers →
      ∀ object ∈ removedObjects (volumeLookup demoVolume) demoDeleteEnv answers
        (deletePayload deleteRecursive (ascii "C:\\V9XREM~1")),
        ¬MustStay (volumeLookup demoVolume) demoDeleteEnv object := by
  intro h
  have hreports : ReportsDirectories (volumeLookup demoVolume) demoDeleteEnv demoDeleteAnswers := by
    rintro _ attributes _ hattr - -
    obtain rfl := Except.ok.inj hattr
    decide
  have hremoved : removedObjects (volumeLookup demoVolume) demoDeleteEnv demoDeleteAnswers
      (deletePayload deleteRecursive (ascii "C:\\V9XREM~1")) =
        [[ascii "C:", ascii "V9XREMOTE"], [ascii "C:", ascii "V9XREMOTE", ascii "AGENT.INI"]] := by
    decide
  refine h demoDeleteAnswers hreports [ascii "C:", ascii "V9XREMOTE"] (by rw [hremoved]; exact List.mem_cons_self) ?_
  exact Or.inr ⟨agentDir, by decide, [ascii "C:", ascii "V9XREMOTE"], by decide, List.prefix_rfl⟩

end V9xRemote
