import V9xRemote.Proof.UploadExact

/-!
# What a DOS upload leaves of the file it replaces

The staging names V9XUP.TMP and V9XUP.BAK are fixed names in the destination's own
directory. `dos_upload_recoverable`: an upload that does not complete leaves the
old file under the final path or its backup path, unless the final path is one of
the two names.
-/

namespace V9xRemote

open Bytes Trace

/-- The file a final path names, and its two staging files. -/
abbrev dosFinal (current : UInt8) (path : Bytes) : DosName := (dosPort current).key path
abbrev dosTemp (current : UInt8) (path : Bytes) : DosName :=
  (dosPort current).key (dirPrefix path ++ dosPartName)
abbrev dosBackup (current : UInt8) (path : Bytes) : DosName :=
  (dosPort current).key (dirPrefix path ++ dosBakName)

/-- The conversation is one upload to `path`: its first exchange is an OPEN_WRITE
that names it, and none after that is accepted. -/
def OneUpload (path : Bytes) : List Exchange → Prop
  | [] => False
  | [e] => ∃ payload, e.request = .openWrite payload ∧ readPath payload 8 filePathMax = some path
  | e :: log => e.opens = false ∧ OneUpload path log

/-- **What is asked of an upload to `path` in a directory**: whenever it is over
without having been answered as complete, what was under the path is there or
under its backup path. -/
def Recoverable (current : UInt8) (fs₀ : Fs DosName) (path : Bytes) : Prop :=
  ∀ as s old, exec (uploadStep (dosPort current) 0) (.start fs₀) as = some s → OneUpload path s.log →
    s.upload = none → (∀ e ∈ s.log, e.completes = false) → fs₀ (dosFinal current path) = some old →
    s.fs (dosFinal current path) = some old ∨ s.fs (dosBackup current path) = some old

/-- The path names no file, or another one than the two staging names; or no upload
there can start, the temporary name being a directory's. -/
def StagingClear (current : UInt8) (fs₀ : Fs DosName) (path : Bytes) : Prop :=
  (∀ bytes, fs₀ (dosFinal current path) ≠ some (.file bytes)) ∨
    (dosFinal current path ≠ dosTemp current path ∧ dosFinal current path ≠ dosBackup current path) ∨
    fs₀ (dosTemp current path) = some .dir

/-- A path OPEN_WRITE can name. -/
structure Nameable (path : Bytes) : Prop where
  pos : 0 < path.length
  short : path.length ≤ filePathMax
  text : ∀ b ∈ path, b ≠ 0 ∧ b ≤ 0x7f

variable {current : UInt8} {path : Bytes} {fs₀ : Fs DosName}

theorem dirPrefix_length_le (path : Bytes) : (dirPrefix path).length ≤ path.length := by
  have := congrArg List.length (dirPrefix_append_lastName path)
  rw [List.length_append] at this
  omega

theorem makeSibling_short (hp : path.length ≤ filePathMax) (n : Bytes) :
    makeSibling path n = some (dirPrefix path ++ n) := by
  have := dirPrefix_length_le path
  have : filePathMax = 230 := rfl
  unfold makeSibling
  rw [if_neg (by omega)]

theorem dosTemp_ne_dosBackup (hp : path.length ≤ filePathMax) :
    dosTemp current path ≠ dosBackup current path :=
  dosPart_ne_dosBak current path _ _ (makeSibling_short hp _) (makeSibling_short hp _)

/-! ## A clear path -/

/-- The promotion of an upload to `path` keeps what was there. -/
def PromotionKeeps (current : UInt8) (path : Bytes) (old : Node) : Prop :=
  ∀ (fs : Fs DosName) (r : PromoteResults), dosFinal current path ≠ dosTemp current path →
    fs (dosFinal current path) = some old →
    (promoteTemp (dosPort current) fs path (dirPrefix path ++ dosPartName) r).2.1 ≠ statusOk →
    (promoteTemp (dosPort current) fs path (dirPrefix path ++ dosPartName) r).1 (dosFinal current path) =
        some old ∨
      (promoteTemp (dosPort current) fs path (dirPrefix path ++ dosPartName) r).1 (dosBackup current path) =
        some old

/-- What holds of an upload to `path`: the old file is untouched until the upload is
over, and then under one of the two names. -/
structure Kept (current : UInt8) (path : Bytes) (old : Node) (s : UploadConn DosName) : Prop where
  uploading : ∀ ws, s.upload = some ws → ws.finalPath = path ∧
    ws.tempPath = dirPrefix path ++ dosPartName ∧
      dosFinal current path ≠ dosTemp current path ∧ PromotionKeeps current path old ∧
        s.fs (dosFinal current path) = some old
  ended : s.upload = none → (∃ e ∈ s.log, e.completes = true) ∨
    s.fs (dosFinal current path) = some old ∨ s.fs (dosBackup current path) = some old

theorem promotionKeeps_ne {old : Node} (hp : path.length ≤ filePathMax)
    (hfb : dosFinal current path ≠ dosBackup current path) : PromotionKeeps current path old := by
  intro fs r hft hold h
  have hb : ∀ b, (dosPort current).backupPath path = some b → b = dirPrefix path ++ dosBakName :=
    fun b hb => makeSibling_some hb
  have hfb' : ∀ b, (dosPort current).backupPath path = some b →
      (dosPort current).key path ≠ (dosPort current).key b := by
    intro b hb'
    rw [hb b hb']; exact hfb
  have hbt : ∀ b, (dosPort current).backupPath path = some b →
      (dosPort current).key b ≠ (dosPort current).key (dirPrefix path ++ dosPartName) := by
    intro b hb'
    rw [hb b hb']; exact (dosTemp_ne_dosBackup hp).symm
  rcases promoteTemp_keeps hft hfb' hbt hold h with hk | ⟨b, hb', hk⟩
  · exact Or.inl hk
  · obtain rfl := hb b hb'
    exact Or.inr hk

theorem promotionKeeps_dir : PromotionKeeps current path .dir :=
  fun _ _ hft hdir _ => Or.inl (promoteTemp_dir hft hdir)

theorem append_ne {K : Type} [DecidableEq K] (fs : Fs K) {k m : K} (bytes : Bytes) (h : m ≠ k) :
    fs.append k bytes m = fs m := by
  rcases hk : fs k with _ | ⟨old | _⟩
  · simp [Fs.append, hk]
  · simp [Fs.append, hk, FileStore.put_ne fs _ h]
  · simp [Fs.append, hk]

/-- A request after the first one keeps `Kept`. -/
theorem kept_effect {old : Node} {s : UploadConn DosName}
    {requestId : UInt32} {r : UploadResults} {request : UploadRequest} {fs' : Fs DosName}
    {upload' : Option WriteState} {reply : UploadReply} (phase : ConnPhase) (hs : Kept current path old s)
    (h : UploadEffect (dosPort current) 0 s.fs s.upload requestId r request fs' upload' reply)
    (hopens : (⟨request, r, reply⟩ : Exchange).opens = false) :
    Kept current path old ⟨fs', upload', ⟨request, r, reply⟩ :: s.log, phase⟩ := by
  have hended : s.upload = none → (∃ e ∈ (⟨request, r, reply⟩ : Exchange) :: s.log, e.completes = true) ∨
      s.fs (dosFinal current path) = some old ∨ s.fs (dosBackup current path) = some old := by
    intro hup
    rcases hs.ended hup with ⟨e, he, hc⟩ | hk
    · exact Or.inl ⟨e, List.mem_cons_of_mem _ he, hc⟩
    · exact Or.inr hk
  cases h with
  | refused => exact ⟨hs.uploading, hended⟩
  | opened => exact absurd hopens (by simp [Exchange.opens])
  | acked payload ws hup =>
    obtain ⟨hfinal, htemp, hne, hkeep, hold⟩ := hs.uploading ws hup
    refine ⟨?_, by simp⟩
    rintro _ ⟨⟩
    refine ⟨hfinal, htemp, hne, hkeep, ?_⟩
    rw [htemp]
    exact (append_ne _ _ hne).trans hold
  | broke payload ws hup =>
    obtain ⟨hfinal, htemp, hne, hkeep, hold⟩ := hs.uploading ws hup
    refine ⟨?_, by simp [hup]⟩
    intro ws' hws'
    obtain rfl := Option.some.inj (hup.symm.trans hws')
    refine ⟨hfinal, htemp, hne, hkeep, ?_⟩
    rw [htemp]
    exact (append_ne _ _ hne).trans hold
  | dropped payload ws _ _ _ hup =>
    obtain ⟨-, htemp, hne, -, hold⟩ := hs.uploading ws hup
    refine ⟨by simp, fun _ => Or.inr (Or.inl ?_)⟩
    rw [htemp]
    exact (Fs.remove_ne _ _ hne).trans hold
  | unpromoted payload ws hup hstatus =>
    obtain ⟨hfinal, htemp, hne, hkeep, hold⟩ := hs.uploading ws hup
    refine ⟨by simp, fun _ => Or.inr ?_⟩
    rw [hfinal, htemp] at hstatus ⊢
    exact hkeep _ _ hne hold hstatus
  | completed payload ws hup =>
    exact ⟨by simp, fun _ => Or.inl ⟨_, List.mem_cons_self, rfl⟩⟩

/-- The OPEN_WRITE of an upload to `path`. -/
theorem kept_open {old : Node} {s : UploadConn DosName} {requestId : UInt32} {r : UploadResults}
    {payload : Bytes} {fs' : Fs DosName} {upload' : Option WriteState} {reply : UploadReply}
    (phase : ConnPhase) (hp : path.length ≤ filePathMax) (hup : s.upload = none)
    (hold : s.fs (dosFinal current path) = some old)
    (hopen : s.fs (dosTemp current path) ≠ some .dir →
      dosFinal current path ≠ dosTemp current path ∧ PromotionKeeps current path old)
    (hpath : readPath payload 8 filePathMax = some path)
    (h : UploadEffect (dosPort current) 0 s.fs s.upload requestId r (.openWrite payload) fs' upload' reply) :
    Kept current path old ⟨fs', upload', ⟨.openWrite payload, r, reply⟩ :: s.log, phase⟩ := by
  cases h with
  | refused => exact ⟨by simp [hup], fun _ => Or.inr (Or.inl hold)⟩
  | opened _ finalPath tempPath _ hpath' htemp hdir =>
    obtain rfl : path = finalPath := Option.some.inj (hpath.symm.trans hpath')
    obtain rfl : dirPrefix path ++ dosPartName = tempPath :=
      Option.some.inj ((makeSibling_short hp _).symm.trans htemp)
    obtain ⟨hne, hkeep⟩ := hopen hdir
    refine ⟨?_, by simp⟩
    rintro _ ⟨⟩
    exact ⟨rfl, rfl, hne, hkeep, (FileStore.put_ne _ _ hne).trans hold⟩

/-- Before the first request nothing has happened; after it the upload is kept. -/
structure KeptInv (current : UInt8) (fs₀ : Fs DosName) (path : Bytes) (old : Node)
    (s : UploadConn DosName) : Prop where
  fresh : s.log = [] → s.fs = fs₀ ∧ s.upload = none
  kept : OneUpload path s.log → Kept current path old s

theorem kept_step {old : Node} (hp : path.length ≤ filePathMax)
    (hold : fs₀ (dosFinal current path) = some old)
    (hopen : fs₀ (dosTemp current path) ≠ some .dir →
      dosFinal current path ≠ dosTemp current path ∧ PromotionKeeps current path old)
    {s s' : UploadConn DosName} {a : UploadAct} (hs : KeptInv current fs₀ path old s)
    (h : uploadStep (dosPort current) 0 s a = some s') : KeptInv current fs₀ path old s' := by
  cases a with
  | disconnect result =>
    simp only [uploadStep] at h
    split at h
    · exact absurd h (by simp)
    obtain rfl := Option.some.inj h
    constructor
    · intro hlog
      obtain ⟨hfs, hup⟩ := hs.fresh hlog
      exact ⟨by simp [filesDisconnect, hup, hfs], rfl⟩
    · intro hone
      have hk := hs.kept hone
      refine ⟨by simp, fun _ => ?_⟩
      cases hup : s.upload with
      | none => exact hk.ended hup
      | some ws =>
        obtain ⟨-, htemp, hne, -, hold'⟩ := hk.uploading ws hup
        refine Or.inr (Or.inl ?_)
        simp only [filesDisconnect, htemp]
        exact (Fs.remove_ne _ _ hne).trans hold'
  | request requestId request results sent =>
    simp only [uploadStep] at h
    split at h
    · generalize hres : handleUpload (dosPort current) 0 s.fs s.upload requestId results request = res at h
      obtain ⟨fs', upload', reply⟩ := res
      obtain rfl := Option.some.inj h
      have heff := upload_effect hres
      refine ⟨by simp, fun hone => ?_⟩
      cases hlog : s.log with
      | nil =>
        obtain ⟨rfl, hup⟩ := hs.fresh hlog
        simp only [hlog, OneUpload] at hone
        obtain ⟨payload, rfl, hpath⟩ := hone
        have := kept_open (if sent then .serving else .ending) hp hup hold hopen hpath heff
        rwa [hlog] at this
      | cons e log =>
        simp only [hlog, OneUpload] at hone
        have hk := kept_effect (if sent then .serving else .ending)
          (hs.kept (by rw [hlog]; exact hone.2)) heff hone.1
        rwa [hlog] at hk
    · exact absurd h (by simp)

/-- **A clear path is recoverable.** -/
theorem recoverable_of_clear (hp : path.length ≤ filePathMax) (h : StagingClear current fs₀ path) :
    Recoverable current fs₀ path := by
  intro as s old hrun hone hup hnc hold
  have hopen : fs₀ (dosTemp current path) ≠ some .dir →
      dosFinal current path ≠ dosTemp current path ∧ PromotionKeeps current path old := by
    intro hdir
    rcases h with hfile | ⟨hft, hfb⟩ | hdir'
    · obtain rfl : old = .dir := by
        cases old with
        | file bytes => exact absurd hold (hfile bytes)
        | dir => rfl
      refine ⟨?_, promotionKeeps_dir⟩
      intro heq
      rw [heq] at hold
      exact hdir hold
    · exact ⟨hft, promotionKeeps_ne hp hfb⟩
    · exact absurd hdir' hdir
  have hinv : KeptInv current fs₀ path old s :=
    exec_inv (fun _ _ _ hs hstep => kept_step hp hold hopen hs hstep)
      ⟨fun _ => ⟨rfl, rfl⟩, by simp [UploadConn.start, OneUpload]⟩ hrun
  rcases (hinv.kept hone).ended hup with ⟨e, he, hc⟩ | hk
  · exact absurd (hnc e he) (by simp [hc])
  · exact hk

/-! ## A path that is a staging name -/

/-- OPEN_WRITE of an empty file to `path`. -/
def emptyOpen (path : Bytes) : Bytes := List.replicate 8 0 ++ [UInt8.ofNat path.length, 0] ++ path

theorem readPath_emptyOpen (hp : Nameable path) : readPath (emptyOpen path) 8 filePathMax = some path := by
  have hlen : (emptyOpen path).length = 10 + path.length := by simp [emptyOpen]; omega
  have hmax : filePathMax = 230 := rfl
  have hshort := hp.short
  have hpos := hp.pos
  have hword : ((emptyOpen path).readU16 8).toNat = path.length := by
    have hbyte : ∀ n < 231, ((UInt8.ofNat n).toUInt16 ||| ((0 : UInt8).toUInt16 <<< 8)).toNat = n := by
      decide +kernel
    exact hbyte path.length (by omega)
  have hdrop : (emptyOpen path).drop (8 + 2) = path := by simp [emptyOpen]
  have htext : path.any (fun b => b == 0 || decide (b > 0x7f)) = false := by
    rw [List.any_eq_false]
    intro b hb
    obtain ⟨h0, h1⟩ := hp.text b hb
    simpa [h0] using h1
  unfold readPath
  rw [if_neg (by simp only [Bool.or_eq_true, decide_eq_true_eq]; omega)]
  dsimp only
  rw [hword, if_neg (by simp only [Bool.or_eq_true, decide_eq_true_eq, bne_iff_ne]; omega), hdrop, htext]
  rfl

/-- The upload of an empty file where every call works. -/
def emptyUpload (path : Bytes) : List UploadAct :=
  [.request 1 (.openWrite (emptyOpen path)) (demoResults 0) true,
    .request 2 (.commit []) (demoResults 0) true]

theorem emptyOpen_size (path : Bytes) :
    (emptyOpen path).readU32 0 = 0 ∧ (emptyOpen path).readU32 4 = 0 := by
  constructor <;> simp [emptyOpen, readU32, at', List.replicate]

/-- The first step of `emptyUpload`. -/
theorem emptyUpload_open (hp : Nameable path) (hdir : fs₀ (dosTemp current path) ≠ some .dir) :
    handleUpload (dosPort current) 0 fs₀ none 1 (demoResults 0) (.openWrite (emptyOpen path)) =
      (fs₀.put (dosTemp current path) (.file []),
        some ⟨0, 0, 0, crc32Begin, path, dirPrefix path ++ dosPartName⟩, .writeReady 0 0) := by
  have hlen : ¬(emptyOpen path).length < 10 := by simp [emptyOpen]
  have hpart : (dosPort current).partPath path 0 1 = some (dirPrefix path ++ dosPartName) :=
    makeSibling_short hp.short _
  have hcreate : Fs.create fs₀ (dosTemp current path) callOk =
      (fs₀.put (dosTemp current path) (.file []), true) := by
    simp [Fs.create, callOk, hdir]
  have hmax : (dosPort current).pathMax = filePathMax := rfl
  obtain ⟨hsize, hcrc⟩ := emptyOpen_size path
  simp only [handleUpload, handleOpenWrite, if_neg hlen, hmax, readPath_emptyOpen hp, hsize, hcrc,
    if_neg (by decide : ¬(0 : UInt32) > maxFileSize), hpart, demoResults, hcreate]

/-- The promotion at its commit. -/
abbrev emptyPromotion (current : UInt8) (fs₀ : Fs DosName) (path : Bytes) : Fs DosName × UInt32 × UInt32 :=
  promoteTemp (dosPort current) (fs₀.put (dosTemp current path) (.file [])) path
    (dirPrefix path ++ dosPartName) allOk

/-- The second step, when the promotion fails. -/
theorem emptyUpload_commit (hstatus : (emptyPromotion current fs₀ path).2.1 ≠ statusOk) :
    handleUpload (dosPort current) 0 (fs₀.put (dosTemp current path) (.file []))
        (some ⟨0, 0, 0, crc32Begin, path, dirPrefix path ++ dosPartName⟩) 2 (demoResults 0) (.commit []) =
      ((emptyPromotion current fs₀ path).1, none, .error (emptyPromotion current fs₀ path).2.1
        (emptyPromotion current fs₀ path).2.2 "upload final rename failed") := by
  have hcheck : ((0 : UInt32) != 0 || crc32End crc32Begin != 0) = false := by decide
  have hfail : ((emptyPromotion current fs₀ path).2.1 != statusOk) = true := by simpa using hstatus
  simp only [handleUpload, handleCommit, commitClosed, List.length_nil, ne_eq, not_true_eq_false, if_false,
    dosPort, Bool.false_and, Bool.false_eq_true, hcheck]
  exact if_pos hfail

/-- An upload of an empty file whose promotion fails and leaves nothing of a file
under either name refutes recovery. -/
theorem not_recoverable {old : Bytes} (hp : Nameable path) (hdir : fs₀ (dosTemp current path) ≠ some .dir)
    (hold : fs₀ (dosFinal current path) = some (.file old))
    (hstatus : (emptyPromotion current fs₀ path).2.1 ≠ statusOk)
    (hfinal : (emptyPromotion current fs₀ path).1 (dosFinal current path) = none)
    (hback : (emptyPromotion current fs₀ path).1 (dosBackup current path) ≠ some (.file old)) :
    ¬Recoverable current fs₀ path := by
  intro h
  have hrun : exec (uploadStep (dosPort current) 0) (.start fs₀) (emptyUpload path) =
      some ⟨(emptyPromotion current fs₀ path).1, none,
        [⟨.commit [], demoResults 0, .error (emptyPromotion current fs₀ path).2.1
            (emptyPromotion current fs₀ path).2.2 "upload final rename failed"⟩,
          ⟨.openWrite (emptyOpen path), demoResults 0, .writeReady 0 0⟩], .serving⟩ := by
    simp only [emptyUpload, exec_cons, exec_nil, uploadStep, UploadConn.start, emptyUpload_open hp hdir,
      Option.bind_some, if_true, emptyUpload_commit hstatus]
  rcases h _ _ _ hrun ⟨rfl, emptyOpen path, rfl, readPath_emptyOpen hp⟩ rfl (by
    intro e he
    simp only [List.mem_cons, List.not_mem_nil, or_false] at he
    rcases he with rfl | rfl <;> rfl) hold with hk | hk
  · exact absurd (hfinal.symm.trans hk) (by simp)
  · exact hback hk

/-- **A path that is a staging name is not recoverable.** -/
theorem clear_of_recoverable (hp : Nameable path) (h : Recoverable current fs₀ path) :
    StagingClear current fs₀ path := by
  by_contra hclear
  simp only [StagingClear, not_or, not_forall, not_not] at hclear
  obtain ⟨⟨old, hold⟩, hnames, hdir⟩ := hclear
  have hback : (dosPort current).backupPath path = some (dirPrefix path ++ dosBakName) :=
    makeSibling_short hp.short _
  have hbt : dosTemp current path ≠ dosBackup current path := dosTemp_ne_dosBackup hp.short
  by_cases hft : dosFinal current path = dosTemp current path
  · have hnew : (fs₀.put (dosTemp current path) (.file [])) (dosFinal current path) = some (.file []) := by
      rw [hft]; exact FileStore.put_same _ _ _
    have hfb : dosFinal current path ≠ dosBackup current path := by rw [hft]; exact hbt
    obtain ⟨hstatus, hfinal, hgone⟩ := promoteTemp_onto_temp hback hft hfb hnew
    exact not_recoverable hp hdir hold hstatus hfinal (hgone old) h
  · have hfb : dosFinal current path = dosBackup current path := by
      by_contra hfb
      exact hnames ⟨hft, hfb⟩
    have hold' : (fs₀.put (dosTemp current path) (.file [])) (dosFinal current path) = some (.file old) :=
      (FileStore.put_ne _ _ hft).trans hold
    obtain ⟨hstatus, hfinal⟩ := promoteTemp_onto_backup (dirPrefix path ++ dosPartName) hback hfb hold'
    refine not_recoverable hp hdir hold hstatus hfinal ?_ h
    rw [← hfb, hfinal]
    simp

/-- **DOS uploads.** For every path a client can name and every directory: whatever
fails, an upload that does not complete leaves the old file under the path or its
backup path exactly when the path is clear of the staging names; and one that is
answered as complete leaves exactly the uploaded bytes when, and only when, no
failed write left any. -/
theorem dos_upload_recoverable (current : UInt8) (fs₀ : Fs DosName) {path : Bytes} (hp : Nameable path) :
    (Recoverable current fs₀ path ↔ StagingClear current fs₀ path) ∧ CommitExact (dosPort current) 0 :=
  ⟨⟨clear_of_recoverable hp, recoverable_of_clear hp.short⟩, fun _ _ _ _ _ _ _ _ => commit_exact⟩

/-! ## A client's own V9XUP.BAK -/

def bakPath : Bytes := ascii "C:\\DATA\\V9XUP.BAK"

/-- A directory with one file, the one under `bakPath`. -/
def bakDir : Fs DosName := FileStore.put (fun _ => none) (dosFinal 67 bakPath) (.file (ascii "KEEP"))

theorem bakPath_nameable : Nameable bakPath := ⟨by decide +kernel, by decide +kernel, by decide +kernel⟩

theorem dos_upload_recoverable_demo :
    (Recoverable 67 bakDir bakPath ↔ StagingClear 67 bakDir bakPath) ∧ CommitExact (dosPort 67) 0 :=
  dos_upload_recoverable 67 bakDir bakPath_nameable

/-- An upload to an existing `V9XUP.BAK` loses it. -/
theorem bakPath_not_recoverable : ¬Recoverable 67 bakDir bakPath := by
  intro h
  rcases clear_of_recoverable bakPath_nameable h with hfile | ⟨-, hname⟩ | hdir
  · exact hfile (ascii "KEEP") (FileStore.put_same _ _ _)
  · exact hname (by decide)
  · exact absurd hdir (by decide)

end V9xRemote
