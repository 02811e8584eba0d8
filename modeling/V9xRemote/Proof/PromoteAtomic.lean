import V9xRemote.Proof.Promote
import V9xRemote.Spec.Files

/-!
# One promotion is atomic

Whatever the system refuses, a promotion leaves the new file or the old one under the final path;
only a roll-back that is refused leaves the old file under its backup name instead.
-/

namespace V9xRemote

open Bytes

variable {K : Type} [DecidableEq K] {port : Port K} {fs : Fs K} {final temp : Bytes} {r : PromoteResults}

/-- **What a promotion may leave** of a directory `fs`. -/
structure PromotionAtomic (port : Port K) (fs : Fs K) (final temp : Bytes) (r : PromoteResults) (fs' : Fs K)
    (status : UInt32) : Prop where
  /-- after a success the final path holds what the temporary file held -/
  installed : status = statusOk → ∃ new, fs (port.key temp) = some new ∧ fs' (port.key final) = some new
  /-- after an error it holds what it held, or nothing: then the roll-back was refused, and the
  backup holds what it held -/
  kept : status ≠ statusOk → fs' (port.key final) = fs (port.key final) ∨
    r.restore.ok = false ∧ fs' (port.key final) = none ∧ ∃ backup old, port.backupPath final = some backup ∧
      fs (port.key final) = some old ∧ fs' (port.key backup) = some old

/-- The second half, when it fails: nothing was installed, and a saved file is moved back. -/
theorem promoteInstall_error {backup : Option Bytes}
    (h : (promoteInstall port fs final temp backup r).2.1 ≠ statusOk) :
    (promoteInstall port fs final temp backup r).1 =
      Fs.remove (match backup with
        | some b => (fs.rename (port.key b) (port.key final) r.restore).1
        | none => fs) (port.key temp) r.dropTemp := by
  unfold promoteInstall at h ⊢
  split
  · rename_i fs₁ hmove
    obtain rfl := Fs.rename_false hmove
    cases backup <;> rfl
  · rename_i fs₁ hmove
    rw [hmove] at h
    exact absurd rfl h

/-- A saved file comes back, unless the system refuses. -/
theorem restore_cases {b final : K} {old : Node} (hsaved : fs b = some old) (hfree : fs final = none)
    (restore : CallResult) : (fs.rename b final restore).1 final = some old ∨
      restore.ok = false ∧ (fs.rename b final restore).1 = fs := by
  cases hok : restore.ok with
  | true =>
    rw [Fs.rename_ok hsaved hfree hok]
    exact Or.inl (FileStore.put_same _ _ _)
  | false =>
    refine Or.inr ⟨rfl, ?_⟩
    rcases fs.move_cases b final restore.ok with hmove | ⟨hallowed, -⟩
    · rw [Fs.rename, hmove]
    · rw [hok] at hallowed
      exact absurd hallowed Bool.false_ne_true

/-- An error leaves the final path as it was, up to a refused roll-back. -/
theorem promoteTemp_error (hft : port.key final ≠ port.key temp)
    (hfb : ∀ b, port.backupPath final = some b → port.key final ≠ port.key b)
    (hbt : ∀ b, port.backupPath final = some b → port.key b ≠ port.key temp)
    (h : (promoteTemp port fs final temp r).2.1 ≠ statusOk) :
    (promoteTemp port fs final temp r).1 (port.key final) = fs (port.key final) ∨
      r.restore.ok = false ∧ (promoteTemp port fs final temp r).1 (port.key final) = none ∧
        ∃ backup old, port.backupPath final = some backup ∧ fs (port.key final) = some old ∧
          (promoteTemp port fs final temp r).1 (port.key backup) = some old := by
  rcases promoteTemp_cases port fs final temp r with hp | hp | ⟨b, hb, -, hp | ⟨fs₁, hmove, hp⟩⟩
  · rw [hp] at h ⊢
    rw [promoteInstall_error h]
    exact Or.inl (Fs.remove_ne _ _ hft)
  · rw [hp]
    exact Or.inl (Fs.remove_ne _ _ hft)
  · rw [hp]
    refine Or.inl ?_
    exact (Fs.remove_ne _ _ hft).trans (Fs.remove_ne _ _ (hfb b hb))
  · -- the old file was moved aside
    obtain ⟨-, old, hold, hsaved, hfree, -⟩ := Fs.rename_true hmove
    rw [Fs.remove_ne _ _ (hfb b hb)] at hold
    rw [hp] at h ⊢
    rw [promoteInstall_error h, hold]
    dsimp only
    rw [Fs.remove_ne _ _ hft]
    rcases restore_cases hsaved hfree r.restore with hback | ⟨hrefused, hsame⟩
    · exact Or.inl hback
    · refine Or.inr ⟨hrefused, ?_, b, old, hb, rfl, ?_⟩
      · rw [hsame]
        exact hfree
      · rw [Fs.remove_ne _ _ (hbt b hb), hsame]
        exact hsaved

/-! ## Exactly when -/

/-- The old file can be moved aside: it is a file, and the backup's name is free or is made free. -/
def Saves (port : Port K) (fs : Fs K) (final : Bytes) (r : PromoteResults) : Prop :=
  r.attributes.ok = true ∧ r.saveOld.ok = true ∧ ∃ old backup, fs (port.key final) = some (.file old) ∧
    port.backupPath final = some backup ∧
      (fs (port.key backup) = none ∨ r.dropBackup.ok = true ∧ ∃ bytes, fs (port.key backup) = some (.file bytes))

/-- The new file can be installed: nothing stands at the final path, or what stands there is saved. -/
def Installs (port : Port K) (fs : Fs K) (final : Bytes) (r : PromoteResults) : Prop :=
  r.install.ok = true ∧ (fs (port.key final) = none ∨ Saves port fs final r)

theorem Fs.removed_iff {k : K} {bytes : Bytes} (h : fs k = some (.file bytes)) (call : CallResult) :
    fs.remove k call k = none ↔ call.ok = true := by
  constructor
  · intro hnone
    by_contra hrefused
    rw [Fs.remove_refused fs k (Bool.eq_false_iff.2 hrefused), h] at hnone
    cases hnone
  · intro hok
    rw [Fs.remove_file h hok]
    exact FileStore.erase_same _ _

/-- A backup's name is free once it was removed. -/
theorem Fs.freed_iff (k : K) (call : CallResult) : fs.remove k call k = none ↔
    fs k = none ∨ call.ok = true ∧ ∃ bytes, fs k = some (.file bytes) := by
  cases hk : fs k with
  | none => exact ⟨fun _ => Or.inl rfl, fun _ => Fs.remove_none call hk⟩
  | some node =>
    cases node with
    | dir =>
      rw [Fs.remove_dir call hk, hk]
      simp
    | file bytes => simp [Fs.removed_iff hk call]

theorem Fs.rename_refused {a b : K} {call : CallResult} (h : fs b ≠ none ∨ call.ok = false) :
    fs.rename a b call = (fs, false) := by
  rcases fs.move_cases a b call.ok with hmove | ⟨hok, hfree, -⟩
  · exact hmove
  · rcases h with h | h
    · exact absurd hfree h
    · rw [h] at hok
      cases hok

/-- The second half with nothing saved. -/
theorem promoteInstall_none {new : Bytes} (port : Port K) {fs : Fs K} (final : Bytes) {temp : Bytes} (r : PromoteResults)
    (htemp : fs (port.key temp) = some (.file new)) :
    (promoteInstall port fs final temp none r).2.1 = statusOk ∧ fs (port.key final) = none ∧ r.install.ok = true ∨
      (promoteInstall port fs final temp none r).2.1 ≠ statusOk ∧
        (promoteInstall port fs final temp none r).1 = fs.remove (port.key temp) r.dropTemp ∧
          ¬(fs (port.key final) = none ∧ r.install.ok = true) := by
  by_cases hgood : fs (port.key final) = none ∧ r.install.ok = true
  · refine Or.inl ⟨?_, hgood⟩
    unfold promoteInstall
    rw [Fs.rename_ok htemp hgood.1 hgood.2]
  · have hrefused : fs (port.key final) ≠ none ∨ r.install.ok = false := by
      rcases Classical.em (fs (port.key final) = none) with hfree | hbusy
      · exact Or.inr (Bool.eq_false_iff.2 fun hok => hgood ⟨hfree, hok⟩)
      · exact Or.inl hbusy
    refine Or.inr ⟨?_, ?_, hgood⟩
    · unfold promoteInstall
      rw [Fs.rename_refused hrefused]
      exact show statusIoFailed ≠ statusOk by decide
    · unfold promoteInstall
      rw [Fs.rename_refused hrefused]

/-- **When a promotion succeeds, and what it leaves when it does not**: the temporary file is gone
where its removal is let through, and the final path is as it was unless a saved file is not
let back. -/
structure PromoteEnds (port : Port K) (fs : Fs K) (final temp : Bytes) (r : PromoteResults)
    (result : Fs K × UInt32 × UInt32) : Prop where
  installed : result.2.1 = statusOk ↔ Installs port fs final r
  removed : result.2.1 ≠ statusOk → (result.1 (port.key temp) = none ↔ r.dropTemp.ok = true)
  kept : result.2.1 ≠ statusOk →
    (result.1 (port.key final) = fs (port.key final) ↔ ¬(Saves port fs final r ∧ r.restore.ok = false))

/-- It ends in the removal of the temporary file, with nothing saved. -/
theorem promoteEnds_plain {new : Bytes} {result : Fs K × UInt32 × UInt32} {fs' : Fs K}
    (hft : port.key final ≠ port.key temp) (hnot : ¬Installs port fs final r) (hsaves : ¬Saves port fs final r)
    (htemp : fs' (port.key temp) = some (.file new)) (hfinal : fs' (port.key final) = fs (port.key final))
    (hstatus : result.2.1 ≠ statusOk) (hleft : result.1 = fs'.remove (port.key temp) r.dropTemp) :
    PromoteEnds port fs final temp r result where
  installed := ⟨fun hok => absurd hok hstatus, fun hyes => absurd hyes hnot⟩
  removed := fun _ => by
    rw [hleft]
    exact Fs.removed_iff htemp r.dropTemp
  kept := fun _ => by
    rw [hleft, Fs.remove_ne _ _ hft, hfinal]
    exact ⟨fun _ hlost => hsaves hlost.1, fun _ => rfl⟩

/-- Nothing stands at the final path. -/
theorem promoteEnds_free {new : Bytes} (hft : port.key final ≠ port.key temp)
    (htemp : fs (port.key temp) = some (.file new)) (hfinal : fs (port.key final) = none) :
    PromoteEnds port fs final temp r (promoteTemp port fs final temp r) := by
  have hsaves : ¬Saves port fs final r := by
    rintro ⟨-, -, old, backup, hold, -⟩
    rw [hfinal] at hold
    cases hold
  have hattributes : fs.attributes (port.key final) r.attributes = none := by
    unfold Fs.attributes
    rw [hfinal]
    split <;> rfl
  have hpromote : promoteTemp port fs final temp r = promoteInstall port fs final temp none r := by
    unfold promoteTemp
    rw [hattributes]
  rw [hpromote]
  rcases promoteInstall_none port final r htemp with ⟨hok, hfree, hcall⟩ | ⟨hbad, hleft, hrefused⟩
  · exact ⟨⟨fun _ => ⟨hcall, Or.inl hfree⟩, fun _ => hok⟩, fun hbad => absurd hok hbad, fun hbad => absurd hok hbad⟩
  · have hnot : ¬Installs port fs final r := fun hyes => hrefused ⟨hfinal, hyes.1⟩
    exact promoteEnds_plain hft hnot hsaves htemp rfl hbad hleft

/-- The old file is moved aside. -/
theorem promoteEnds_saved {new : Bytes} (hft : port.key final ≠ port.key temp)
    (hfb : ∀ b, port.backupPath final = some b → port.key final ≠ port.key b)
    (hbt : ∀ b, port.backupPath final = some b → port.key b ≠ port.key temp)
    (htemp : fs (port.key temp) = some (.file new)) (hsaves : Saves port fs final r) :
    PromoteEnds port fs final temp r (promoteTemp port fs final temp r) := by
  obtain ⟨hattr, hmoved, old, backup, hold, hbackup, hfree⟩ := id hsaves
  have hattributes : fs.attributes (port.key final) r.attributes = some false := by
    unfold Fs.attributes
    rw [if_pos hattr, hold]
    rfl
  have hgone : fs.remove (port.key backup) r.dropBackup (port.key backup) = none := (Fs.freed_iff _ _).2 hfree
  have hthere : fs.remove (port.key backup) r.dropBackup (port.key final) = some (.file old) :=
    (Fs.remove_ne _ _ (hfb backup hbackup)).trans hold
  have hne := hfb backup hbackup
  have hnt := hbt backup hbackup
  obtain ⟨saved, hrename, hsavedFinal, hsavedBackup, hsavedTemp⟩ : ∃ saved : Fs K,
      (fs.remove (port.key backup) r.dropBackup).rename (port.key final) (port.key backup) r.saveOld = (saved, true) ∧
        saved (port.key final) = none ∧ saved (port.key backup) = some (.file old) ∧
          saved (port.key temp) = some (.file new) := by
    refine ⟨_, Fs.rename_ok hthere hgone hmoved, ?_, FileStore.put_same _ _ _, ?_⟩
    · rw [FileStore.put_ne _ _ hne, FileStore.erase_same]
    · rw [FileStore.put_ne _ _ hnt.symm, FileStore.erase_ne _ hft.symm, Fs.remove_ne _ _ hnt.symm, htemp]
  have hpromote : promoteTemp port fs final temp r = promoteInstall port saved final temp (some backup) r := by
    unfold promoteTemp
    rw [hattributes]
    dsimp only
    rw [if_neg (by decide), hbackup]
    dsimp only
    rw [hrename]
  rw [hpromote]
  cases hinstall : r.install.ok with
  | true =>
    have hok : (promoteInstall port saved final temp (some backup) r).2.1 = statusOk := by
      unfold promoteInstall
      rw [Fs.rename_ok hsavedTemp hsavedFinal hinstall]
    exact ⟨⟨fun _ => ⟨hinstall, Or.inr hsaves⟩, fun _ => hok⟩, fun hbad => absurd hok hbad, fun hbad => absurd hok hbad⟩
  | false =>
    have hmove : saved.rename (port.key temp) (port.key final) r.install = (saved, false) :=
      Fs.rename_refused (Or.inr hinstall)
    have hbad : (promoteInstall port saved final temp (some backup) r).2.1 ≠ statusOk := by
      unfold promoteInstall
      rw [hmove]
      exact show statusIoFailed ≠ statusOk by decide
    have hleft : (promoteInstall port saved final temp (some backup) r).1 =
        (saved.rename (port.key backup) (port.key final) r.restore).1.remove (port.key temp) r.dropTemp :=
      promoteInstall_error hbad
    refine ⟨⟨fun hok => absurd hok hbad, fun hyes => ?_⟩, fun _ => ?_, fun _ => ?_⟩
    · rw [hyes.1] at hinstall
      cases hinstall
    · rw [hleft]
      exact Fs.removed_iff ((saved.move_ne r.restore.ok hnt.symm hft.symm).trans hsavedTemp) r.dropTemp
    · rw [hleft, Fs.remove_ne _ _ hft, hold]
      rcases restore_cases hsavedBackup hsavedFinal r.restore with hback | ⟨hrefused, hsame⟩
      · refine ⟨fun _ hlost => ?_, fun _ => hback⟩
        -- a roll-back that is refused changes nothing
        rw [Fs.rename_refused (Or.inr hlost.2)] at hback
        exact absurd (hsavedFinal.symm.trans hback) (by simp)
      · rw [hsame, hsavedFinal]
        exact ⟨fun h => (nomatch h), fun hnot => absurd ⟨hsaves, hrefused⟩ hnot⟩

/-- Something stands at the final path and is not moved aside. -/
theorem promoteEnds_stuck {new : Bytes} (hft : port.key final ≠ port.key temp)
    (hfb : ∀ b, port.backupPath final = some b → port.key final ≠ port.key b)
    (hbt : ∀ b, port.backupPath final = some b → port.key b ≠ port.key temp)
    (htemp : fs (port.key temp) = some (.file new)) (hfinal : fs (port.key final) ≠ none)
    (hsaves : ¬Saves port fs final r) : PromoteEnds port fs final temp r (promoteTemp port fs final temp r) := by
  have hnot : ¬Installs port fs final r := by
    rintro ⟨-, hfree | hyes⟩
    · exact hfinal hfree
    · exact hsaves hyes
  unfold promoteTemp
  split
  · -- its attributes cannot be read
    rcases promoteInstall_none port final r htemp with ⟨-, hfree, -⟩ | ⟨hbad, hleft, -⟩
    · exact absurd hfree hfinal
    · exact promoteEnds_plain hft hnot hsaves htemp rfl hbad hleft
  rename_i isDir hattributes
  split
  · exact promoteEnds_plain hft hnot hsaves htemp rfl (show statusAccessDenied ≠ statusOk by decide) rfl
  rename_i backup hbackup
  have hdir : isDir = false ∧ port.backupPath final = some backup := by
    cases isDir with
    | true => cases hbackup
    | false => exact ⟨rfl, hbackup⟩
  obtain ⟨hok, old, hold⟩ : r.attributes.ok = true ∧ ∃ old, fs (port.key final) = some (.file old) := by
    unfold Fs.attributes at hattributes
    split at hattributes
    · rename_i hok
      refine ⟨hok, ?_⟩
      obtain ⟨node, hnode, hkind⟩ := Option.map_eq_some_iff.1 hattributes
      cases node with
      | file old => exact ⟨old, hnode⟩
      | dir =>
        rw [hdir.1] at hkind
        cases hkind
    · cases hattributes
  have hrefused : fs.remove (port.key backup) r.dropBackup (port.key backup) ≠ none ∨ r.saveOld.ok = false := by
    rcases Classical.em (r.saveOld.ok = true) with hmoved | hstuck
    · exact Or.inl fun hfree => hsaves ⟨hok, hmoved, old, backup, hold, hdir.2, (Fs.freed_iff _ _).1 hfree⟩
    · exact Or.inr (Bool.eq_false_iff.2 hstuck)
  dsimp only
  rw [Fs.rename_refused hrefused]
  have htemp' := (Fs.remove_ne fs r.dropBackup (hbt backup hdir.2).symm).trans htemp
  exact promoteEnds_plain hft hnot hsaves htemp' (Fs.remove_ne _ _ (hfb backup hdir.2)) (port.fileStatus_ne _) rfl

/-- **How a promotion ends**, whatever the system says. -/
theorem promoteTemp_ends {new : Bytes} (hft : port.key final ≠ port.key temp)
    (hfb : ∀ b, port.backupPath final = some b → port.key final ≠ port.key b)
    (hbt : ∀ b, port.backupPath final = some b → port.key b ≠ port.key temp)
    (htemp : fs (port.key temp) = some (.file new)) :
    PromoteEnds port fs final temp r (promoteTemp port fs final temp r) := by
  by_cases hfinal : fs (port.key final) = none
  · exact promoteEnds_free hft htemp hfinal
  · by_cases hsaves : Saves port fs final r
    · exact promoteEnds_saved hft hfb hbt htemp hsaves
    · exact promoteEnds_stuck hft hfb hbt htemp hfinal hsaves

/-! ## On Windows -/

theorem winKey_length (path : Bytes) : (winKey path).length = path.length := List.length_map _

theorem winFinal_ne_winBackup {b : Bytes} (h : winBackupPath final = some b) : winKey final ≠ winKey b := by
  intro heq
  have hlength := congrArg List.length heq
  unfold winBackupPath at h
  split at h
  · exact absurd h (by simp)
  · obtain rfl := Option.some.inj h
    rw [winKey_length, winKey_length, List.length_append] at hlength
    exact absurd hlength (by simp [ascii])

/-- The temporary file of an upload is none of the two others. -/
theorem winPart_ne_winFinal {slot requestId : UInt32} (h : winPartPath final slot requestId = some temp) :
    winKey final ≠ winKey temp := by
  intro heq
  have hlength := congrArg List.length heq
  have hdot : (ascii ".PART").length = 5 := rfl
  unfold winPartPath at h
  split at h
  · exact absurd h (by simp)
  · obtain rfl := Option.some.inj h
    rw [winKey_length, winKey_length, List.length_append, List.length_append, List.length_append, List.length_append,
      List.length_append, hdot] at hlength
    omega

/-- **A promotion is atomic**, for three different files. -/
theorem promotion_atomic (fs : Fs Bytes) {final temp : Bytes} (r : PromoteResults)
    (hft : winKey final ≠ winKey temp) (hbt : ∀ b, winBackupPath final = some b → winKey b ≠ winKey temp) :
    PromotionAtomic winPort fs final temp r (winPromoteTemp fs final temp r).1 (winPromoteTemp fs final temp r).2.1 where
  installed h := promoteTemp_ok (fun b hb => (hbt b hb).symm) h
  kept h := promoteTemp_error hft (fun _ hb => winFinal_ne_winBackup hb) hbt h

/-- An old file, and an upload to its path. -/
def promotionStore : Fs Bytes := fun k =>
  if k = ascii "C:\\A" then some (.file [1]) else if k = ascii "C:\\A.0.7.PART" then some (.file [2]) else none

/-- The old file is moved aside, and no later call goes through. -/
def promotionRefused : PromoteResults :=
  ⟨callOk, callOk, callOk, ⟨false, 5⟩, ⟨false, 5⟩, ⟨false, 5⟩, ⟨false, 5⟩⟩

theorem promotion_atomic_demo : PromotionAtomic winPort promotionStore (ascii "C:\\A") (ascii "C:\\A.0.7.PART")
    promotionRefused (winPromoteTemp promotionStore (ascii "C:\\A") (ascii "C:\\A.0.7.PART") promotionRefused).1
      statusIoFailed := by
  have hpart : winPartPath (ascii "C:\\A") 0 7 = some (ascii "C:\\A.0.7.PART") := by decide
  exact promotion_atomic promotionStore promotionRefused (winPart_ne_winFinal hpart) fun b hb =>
    (winPart_ne_winBackup _ 0 7 _ b hpart hb).symm

end V9xRemote
