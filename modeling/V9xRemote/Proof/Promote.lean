import V9xRemote.Lib.Trace
import V9xRemote.Spec.Promote

/-!
# What a promotion leaves

`promoteTemp_ok` and `promoteTemp_keeps` say what stands under the final path
after a success and after a failure; `promoteTemp_run` connects the function with
its version of one call at a time.
-/

namespace V9xRemote

open Trace

variable {K : Type} [DecidableEq K] {port : Port K} {fs : Fs K} {final temp : Bytes}

namespace Fs

theorem remove_ne (fs : Fs K) {k m : K} (r : CallResult) (h : m ≠ k) : fs.remove k r m = fs m :=
  FileStore.delete_ne fs _ h

/-- A removed name is free or was not removed. -/
theorem remove_same (fs : Fs K) (k : K) (r : CallResult) : fs.remove k r k = none ∨ fs.remove k r k = fs k :=
  FileStore.delete_same fs k _

theorem remove_none {fs : Fs K} {k m : K} (r : CallResult) (h : fs m = none) : fs.remove k r m = none := by
  by_cases hmk : m = k
  · subst hmk
    rcases fs.remove_same m r with hr | hr
    · exact hr
    · rw [hr, h]
  · rw [fs.remove_ne r hmk, h]

/-- A directory is not removed. -/
theorem remove_dir {fs : Fs K} {k : K} (r : CallResult) (h : fs k = some .dir) : fs.remove k r = fs := by
  simp [remove, FileStore.delete, h]

/-- A call the system refuses removes nothing. -/
theorem remove_refused (fs : Fs K) (k : K) {r : CallResult} (hr : r.ok = false) : fs.remove k r = fs := by
  simp [remove, FileStore.delete, hr]

/-- A file is removed where the system allows it. -/
theorem remove_file {fs : Fs K} {k : K} {r : CallResult} {b : Bytes} (h : fs k = some (.file b))
    (hr : r.ok = true) : fs.remove k r = fs.erase k := by
  simp [remove, FileStore.delete, h, hr]

theorem rename_ok {fs : Fs K} {a b : K} {r : CallResult} {c : Node} (ha : fs a = some c)
    (hb : fs b = none) (hr : r.ok = true) : fs.rename a b r = ((fs.erase a).put b c, true) := by
  simp [rename, FileStore.move, ha, hb, hr]

theorem rename_absent {fs : Fs K} {a : K} (b : K) (r : CallResult) (ha : fs a = none) :
    fs.rename a b r = (fs, false) := by
  simp [rename, FileStore.move, ha]

/-- A rename that works. -/
theorem rename_true {fs fs₁ : Fs K} {a b : K} {r : CallResult} (h : fs.rename a b r = (fs₁, true)) :
    fs b = none ∧ ∃ c, fs a = some c ∧ fs₁ b = some c ∧ fs₁ a = none ∧
      ∀ m, m ≠ a → m ≠ b → fs₁ m = fs m := by
  obtain ⟨hb, c, ha, hb', ha'⟩ := FileStore.move_true (congrArg Prod.snd h)
  have hfst : (FileStore.move fs a b r.ok).1 = fs₁ := congrArg Prod.fst h
  rw [hfst] at hb' ha'
  exact ⟨hb, c, ha, hb', ha', fun m hma hmb => hfst ▸ fs.move_ne r.ok hma hmb⟩

/-- Only a rename the system lets through works. -/
theorem rename_true_ok {fs fs₁ : Fs K} {a b : K} {r : CallResult} (h : fs.rename a b r = (fs₁, true)) :
    r.ok = true := by
  rcases FileStore.move_cases fs a b r.ok with hm | ⟨hok, -⟩
  · rw [rename, hm] at h
    cases h
  · exact hok

/-- A rename that fails. -/
theorem rename_false {fs fs₁ : Fs K} {a b : K} {r : CallResult} (h : fs.rename a b r = (fs₁, false)) :
    fs₁ = fs := by
  rw [← FileStore.move_false (congrArg Prod.snd h)]
  exact (congrArg Prod.fst h).symm

end Fs

/-- What the second half leaves when it succeeds. -/
theorem promoteInstall_ok {backup : Option Bytes} {r : PromoteResults}
    (hb : ∀ b, backup = some b → port.key final ≠ port.key b)
    (h : (promoteInstall port fs final temp backup r).2.1 = statusOk) :
    ∃ c, fs (port.key temp) = some c ∧
      (promoteInstall port fs final temp backup r).1 (port.key final) = some c := by
  unfold promoteInstall at h ⊢
  split
  · rename_i fs₁ hmove
    rw [hmove] at h
    exact absurd h (show ¬statusIoFailed = statusOk by decide)
  · rename_i fs₁ hmove
    obtain ⟨-, c, hc, hfinal, -⟩ := Fs.rename_true hmove
    refine ⟨c, hc, ?_⟩
    cases backup with
    | none => exact hfinal
    | some b => exact (fs₁.remove_ne r.dropOld (hb b rfl)).trans hfinal

/-- The second half leaves the saved file under one of its two names when it fails. -/
theorem promoteInstall_keeps {backup : Option Bytes} {r : PromoteResults} {old : Node}
    (hft : port.key final ≠ port.key temp) (hbt : ∀ b, backup = some b → port.key b ≠ port.key temp)
    (hold : match backup with
      | none => fs (port.key final) = some old
      | some b => fs (port.key b) = some old)
    (h : (promoteInstall port fs final temp backup r).2.1 ≠ statusOk) :
    (promoteInstall port fs final temp backup r).1 (port.key final) = some old ∨
      ∃ b, backup = some b ∧ (promoteInstall port fs final temp backup r).1 (port.key b) = some old := by
  unfold promoteInstall at h ⊢
  split
  · rename_i fs₁ hmove
    obtain rfl := Fs.rename_false hmove
    cases backup with
    | none => exact Or.inl ((fs₁.remove_ne r.dropTemp hft).trans hold)
    | some b =>
      dsimp only at hold ⊢
      -- the roll-back either works or changes nothing
      rcases fs₁.move_cases (port.key b) (port.key final) r.restore.ok with hr | ⟨-, -, c, hc, hr⟩
      · refine Or.inr ⟨b, rfl, ?_⟩
        rw [Fs.remove_ne _ _ (hbt b rfl), Fs.rename, hr]
        exact hold
      · refine Or.inl ?_
        rw [Fs.remove_ne _ _ hft, Fs.rename, hr, ← hold, hc]
        exact FileStore.put_same _ _ _
  · rename_i fs₁ hmove
    rw [hmove] at h
    exact absurd rfl h

/-- What `v9x_promote_temp` does up to its second half. -/
theorem promoteTemp_cases (port : Port K) (fs : Fs K) (final temp : Bytes) (r : PromoteResults) :
    promoteTemp port fs final temp r = promoteInstall port fs final temp none r ∨
    promoteTemp port fs final temp r =
      (fs.remove (port.key temp) r.dropTemp, statusAccessDenied, port.errDenied) ∨
    ∃ b, port.backupPath final = some b ∧ fs (port.key final) ≠ some .dir ∧
      (promoteTemp port fs final temp r =
          ((fs.remove (port.key b) r.dropBackup).remove (port.key temp) r.dropTemp,
            port.fileStatus r.saveOld.error, r.saveOld.error) ∨
        ∃ fs₁, (fs.remove (port.key b) r.dropBackup).rename (port.key final) (port.key b) r.saveOld =
            (fs₁, true) ∧
          promoteTemp port fs final temp r = promoteInstall port fs₁ final temp (some b) r) := by
  unfold promoteTemp
  split
  · exact Or.inl rfl
  rename_i isDir hattr
  split
  · exact Or.inr (Or.inl rfl)
  rename_i b hback
  have hbp : isDir = false ∧ port.backupPath final = some b := by
    split at hback
    · exact absurd hback (by simp)
    · rename_i hdir
      exact ⟨by simpa using hdir, hback⟩
  have hfile : fs (port.key final) ≠ some .dir := by
    intro hdir
    unfold Fs.attributes at hattr
    split at hattr
    · rw [hdir] at hattr
      exact absurd (hbp.1.symm.trans (Option.some.inj hattr).symm) (by decide)
    · exact absurd hattr (by simp)
  refine Or.inr (Or.inr ⟨b, hbp.2, hfile, ?_⟩)
  dsimp only
  split
  · rename_i fs₁ hmove
    exact Or.inl (by rw [Fs.rename_false hmove])
  · rename_i fs₁ hmove
    exact Or.inr ⟨fs₁, hmove, rfl⟩

/-- **A promotion that succeeds leaves the temporary file's content under the final path.** -/
theorem promoteTemp_ok {r : PromoteResults}
    (hnames : ∀ b, port.backupPath final = some b → port.key temp ≠ port.key b)
    (h : (promoteTemp port fs final temp r).2.1 = statusOk) :
    ∃ c, fs (port.key temp) = some c ∧ (promoteTemp port fs final temp r).1 (port.key final) = some c := by
  rcases promoteTemp_cases port fs final temp r with hp | hp | ⟨b, hb, -, hp | ⟨fs₁, hmove, hp⟩⟩
  · rw [hp] at h ⊢
    exact promoteInstall_ok (by simp) h
  · rw [hp] at h
    exact absurd h (show ¬statusAccessDenied = statusOk by decide)
  · rw [hp] at h
    exact absurd h (port.fileStatus_ne _)
  · obtain ⟨hfree, old, hold, -, hgone, hother⟩ := Fs.rename_true hmove
    have hfb : port.key final ≠ port.key b := by
      intro hc
      rw [hc, hfree] at hold
      exact absurd hold (by simp)
    rw [hp] at h ⊢
    obtain ⟨c, hc, hres⟩ := promoteInstall_ok (by rintro _ ⟨⟩; exact hfb) h
    -- the old file left the final path, so the temporary file is another one
    have htf : port.key temp ≠ port.key final := by
      intro heq
      rw [heq, hgone] at hc
      exact absurd hc (by simp)
    have htb := hnames b hb
    refine ⟨c, ?_, hres⟩
    rw [← hc, hother _ htf htb, Fs.remove_ne _ _ htb]

/-- **A promotion that fails leaves the old file under the final path or its backup**,
when neither staging name is the final path's own. -/
theorem promoteTemp_keeps {r : PromoteResults} {old : Node} (hft : port.key final ≠ port.key temp)
    (hfb : ∀ b, port.backupPath final = some b → port.key final ≠ port.key b)
    (hbt : ∀ b, port.backupPath final = some b → port.key b ≠ port.key temp)
    (hold : fs (port.key final) = some old) (h : (promoteTemp port fs final temp r).2.1 ≠ statusOk) :
    (promoteTemp port fs final temp r).1 (port.key final) = some old ∨
      ∃ b, port.backupPath final = some b ∧ (promoteTemp port fs final temp r).1 (port.key b) = some old := by
  rcases promoteTemp_cases port fs final temp r with hp | hp | ⟨b, hb, -, hp | ⟨fs₁, hmove, hp⟩⟩
  · rw [hp] at h ⊢
    rcases promoteInstall_keeps hft (by simp) hold h with hk | ⟨b, hb, -⟩
    · exact Or.inl hk
    · cases hb
  · rw [hp]
    exact Or.inl ((Fs.remove_ne _ _ hft).trans hold)
  · rw [hp]
    exact Or.inl ((Fs.remove_ne _ _ hft).trans ((Fs.remove_ne _ _ (hfb b hb)).trans hold))
  · obtain ⟨-, c, hc, hsaved, -⟩ := Fs.rename_true hmove
    rw [Fs.remove_ne _ _ (hfb b hb), hold] at hc
    obtain rfl := Option.some.inj hc
    rw [hp] at h ⊢
    rcases promoteInstall_keeps hft (by rintro _ ⟨⟩; exact hbt b hb) hsaved h with hk | ⟨b', hb', hk⟩
    · exact Or.inl hk
    · cases hb'
      exact Or.inr ⟨b, hb, hk⟩

/-- A directory under the final path stays. -/
theorem promoteTemp_dir {r : PromoteResults} (hft : port.key final ≠ port.key temp)
    (hdir : fs (port.key final) = some .dir) :
    (promoteTemp port fs final temp r).1 (port.key final) = some .dir := by
  rcases promoteTemp_cases port fs final temp r with hp | hp | ⟨b, -, hfile, -⟩
  · rw [hp]
    have hstatus : (promoteInstall port fs final temp none r).2.1 ≠ statusOk := by
      intro hok
      unfold promoteInstall at hok
      split at hok
      · exact absurd hok (show ¬statusIoFailed = statusOk by decide)
      · rename_i hmove
        rw [(Fs.rename_true hmove).1] at hdir
        exact absurd hdir (by simp)
    rcases promoteInstall_keeps hft (by simp) hdir hstatus with hk | ⟨b, hb, -⟩
    · exact hk
    · cases hb
  · rw [hp]
    exact (Fs.remove_ne _ _ hft).trans hdir
  · exact absurd hdir hfile

/-! ## Staging names that are the final path's own -/

/-- The system lets every call through. -/
def callOk : CallResult := ⟨true, 0⟩

def allOk : PromoteResults := ⟨callOk, callOk, callOk, callOk, callOk, callOk, callOk⟩

/-- Onto its own backup name: the old file is removed as an old backup. -/
theorem promoteTemp_onto_backup (temp : Bytes) {b old : Bytes} (hback : port.backupPath final = some b)
    (hfb : port.key final = port.key b) (hold : fs (port.key final) = some (.file old)) :
    (promoteTemp port fs final temp allOk).2.1 ≠ statusOk ∧
      (promoteTemp port fs final temp allOk).1 (port.key final) = none := by
  have hattr : fs.attributes (port.key final) callOk = some false := by
    simp [Fs.attributes, callOk, hold, Node.isDir]
  have hremove : fs.remove (port.key b) callOk = fs.erase (port.key final) := by
    rw [← hfb]
    exact Fs.remove_file hold rfl
  have hrename : Fs.rename (fs.erase (port.key final)) (port.key final) (port.key b) callOk =
      (fs.erase (port.key final), false) :=
    Fs.rename_absent _ _ (FileStore.erase_same _ _)
  have heq : promoteTemp port fs final temp allOk =
      (Fs.remove (fs.erase (port.key final)) (port.key temp) callOk, port.fileStatus 0, 0) := by
    simp only [promoteTemp, allOk, hattr, Bool.false_eq_true, if_false, hback, hremove, hrename]
    rfl
  rw [heq]
  exact ⟨port.fileStatus_ne 0, Fs.remove_none _ (FileStore.erase_same _ _)⟩

/-- Onto its own temporary name: the new file is moved away and back, and then
removed as the temporary one. -/
theorem promoteTemp_onto_temp {b new : Bytes} (hback : port.backupPath final = some b)
    (hft : port.key final = port.key temp) (hfb : port.key final ≠ port.key b)
    (hnew : fs (port.key final) = some (.file new)) :
    (promoteTemp port fs final temp allOk).2.1 ≠ statusOk ∧
      (promoteTemp port fs final temp allOk).1 (port.key final) = none ∧
      ∀ bytes, (promoteTemp port fs final temp allOk).1 (port.key b) ≠ some (.file bytes) := by
  have hattr : fs.attributes (port.key final) callOk = some false := by
    simp [Fs.attributes, callOk, hnew, Node.isDir]
  set fs₁ := fs.remove (port.key b) callOk with hfs₁
  have hfinal : fs₁ (port.key final) = some (.file new) := (Fs.remove_ne _ _ hfb).trans hnew
  have hb : fs₁ (port.key b) = none ∨ fs₁ (port.key b) = some .dir := by
    rcases hk : fs (port.key b) with _ | ⟨bytes | _⟩
    · exact Or.inl (Fs.remove_none _ hk)
    · exact Or.inl (by rw [hfs₁, Fs.remove_file hk rfl]; exact FileStore.erase_same _ _)
    · exact Or.inr (by rw [hfs₁, Fs.remove_dir _ hk, hk])
  rcases hb with hb | hb
  · -- away, and back over the failed install
    have hsave := Fs.rename_ok (r := callOk) hfinal hb rfl
    set fs₂ := FileStore.put (FileStore.erase fs₁ (port.key final)) (port.key b) (.file new) with hfs₂
    have hgone : fs₂ (port.key final) = none :=
      (FileStore.put_ne _ _ hfb).trans (FileStore.erase_same _ _)
    have hsaved : fs₂ (port.key b) = some (.file new) := FileStore.put_same _ _ _
    have hinstall : Fs.rename fs₂ (port.key temp) (port.key final) callOk = (fs₂, false) :=
      Fs.rename_absent _ _ (hft ▸ hgone)
    have hrestore := Fs.rename_ok (r := callOk) hsaved hgone rfl
    have heq : promoteTemp port fs final temp allOk =
        (Fs.remove ((fs₂.erase (port.key b)).put (port.key final) (.file new)) (port.key temp) callOk,
          statusIoFailed, 0) := by
      simp only [promoteTemp, promoteInstall, allOk, hattr, Bool.false_eq_true, if_false, hback, ← hfs₁,
        hsave, hinstall, hrestore]
      rfl
    rw [heq]
    refine ⟨(by decide : statusIoFailed ≠ statusOk), ?_, ?_⟩
    · rw [hft, Fs.remove_file (b := new) (by rw [← hft]; exact FileStore.put_same _ _ _) rfl]
      exact FileStore.erase_same _ _
    · intro bytes hbytes
      dsimp only at hbytes
      rw [Fs.remove_ne _ _ (hft ▸ hfb.symm), FileStore.put_ne _ _ hfb.symm, FileStore.erase_same] at hbytes
      exact absurd hbytes (by simp)
  · -- a directory under the backup name cannot be moved onto
    have hsave : fs₁.rename (port.key final) (port.key b) callOk = (fs₁, false) :=
      FileStore.move_onto _ _ hb
    have heq : promoteTemp port fs final temp allOk =
        (fs₁.remove (port.key temp) callOk, port.fileStatus 0, 0) := by
      simp only [promoteTemp, allOk, hattr, Bool.false_eq_true, if_false, hback, ← hfs₁, hsave]
      rfl
    rw [heq]
    refine ⟨port.fileStatus_ne 0, ?_, ?_⟩
    · rw [hft, Fs.remove_file (b := new) (hft ▸ hfinal) rfl]
      exact FileStore.erase_same _ _
    · intro bytes hbytes
      dsimp only at hbytes
      rw [Fs.remove_ne _ _ (hft ▸ hfb.symm), hb] at hbytes
      exact absurd hbytes (by simp)

/-! ## One call at a time -/

/-- What `promoteStep` works on. -/
abbrev PromoteState (K : Type) := Fs K × PromotePc

/-- The step of one promotion that runs alone. -/
def promoteAlone (port : Port K) (final temp : Bytes) (s : PromoteState K) (r : CallResult) :
    Option (PromoteState K) :=
  promoteStep port final temp s.1 r s.2

theorem promoteInstall_run (port : Port K) (fs : Fs K) (final temp : Bytes) (backup : Option Bytes)
    (r : PromoteResults) : ∃ rs fs' status native,
    exec (promoteAlone port final temp) (fs, .install backup) rs = some (fs', .done status native) ∧
      promoteInstall port fs final temp backup r = (fs', status, native) := by
  unfold promoteInstall
  split
  · rename_i fs₁ hmove
    cases backup with
    | none => exact ⟨[r.install, r.dropTemp], _, _, _, by simp [promoteAlone, promoteStep, hmove], rfl⟩
    | some b =>
      exact ⟨[r.install, r.restore, r.dropTemp], _, _, _, by simp [promoteAlone, promoteStep, hmove], rfl⟩
  · rename_i fs₁ hmove
    cases backup with
    | none => exact ⟨[r.install], _, _, _, by simp [promoteAlone, promoteStep, hmove], rfl⟩
    | some b =>
      exact ⟨[r.install, r.dropOld], _, _, _, by simp [promoteAlone, promoteStep, hmove], rfl⟩

/-- **The function is its calls, one after the other.** -/
theorem promoteTemp_run (port : Port K) (fs : Fs K) (final temp : Bytes) (r : PromoteResults) :
    ∃ rs fs' status native,
      exec (promoteAlone port final temp) (fs, .attributes) rs = some (fs', .done status native) ∧
        promoteTemp port fs final temp r = (fs', status, native) := by
  unfold promoteTemp
  split
  · rename_i hattr
    obtain ⟨rs, fs', status, native, hrun, hval⟩ := promoteInstall_run port fs final temp none r
    exact ⟨r.attributes :: rs, fs', status, native, by simp [promoteAlone, promoteStep, hattr, ← hrun], hval⟩
  rename_i isDir hattr
  split
  · rename_i hback
    exact ⟨[r.attributes, r.dropTemp], _, _, _, by simp [promoteAlone, promoteStep, hattr, hback], rfl⟩
  rename_i b hback
  dsimp only
  split
  · rename_i fs₁ hmove
    exact ⟨[r.attributes, r.dropBackup, r.saveOld, r.dropTemp], _, _, _,
      by simp [promoteAlone, promoteStep, hattr, hback, hmove], rfl⟩
  · rename_i fs₁ hmove
    obtain ⟨rs, fs', status, native, hrun, hval⟩ := promoteInstall_run port fs₁ final temp (some b) r
    exact ⟨r.attributes :: r.dropBackup :: r.saveOld :: rs, fs', status, native,
      by simp [promoteAlone, promoteStep, hattr, hback, hmove, ← hrun], hval⟩

end V9xRemote
