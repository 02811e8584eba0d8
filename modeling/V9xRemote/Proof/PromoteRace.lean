import V9xRemote.Proof.Promote
import V9xRemote.Spec.Files

/-!
# Promotions of several connections to one final path

The backup name depends on the final path only, so connections that promote to one
path share both names. `race_safe_iff`: something good is left under them exactly
when every delete that took the last copy away was followed by an install.
-/

namespace V9xRemote

open Bytes Trace

variable {K : Type} [DecidableEq K] {ι : Type} [DecidableEq ι] {port : Port K}

/-- Several promotions to one path, with temporary names of their own. -/
structure Promotions (port : Port K) (ι : Type) where
  final : Bytes
  backup : Bytes
  temp : ι → Bytes
  backupPath_final : port.backupPath final = some backup
  final_ne_backup : port.key final ≠ port.key backup
  temp_ne_final : ∀ i, port.key (temp i) ≠ port.key final
  temp_ne_backup : ∀ i, port.key (temp i) ≠ port.key backup
  temp_inj : ∀ i j, port.key (temp i) = port.key (temp j) → i = j

namespace Promotions

variable (p : Promotions port ι)

def finalKey : K := port.key p.final
def backupKey : K := port.key p.backup
def tempKey (i : ι) : K := port.key (p.temp i)

end Promotions

/-- The shared directory, and where each connection is. -/
structure Race (K ι : Type) where
  fs : Fs K
  pc : ι → PromotePc

/-- One file-system call of connection `i`. -/
def raceStep (p : Promotions port ι) (s : Race K ι) (a : ι × CallResult) : Option (Race K ι) :=
  (promoteStep port p.final (p.temp a.1) s.fs a.2 (s.pc a.1)).map fun out =>
    ⟨out.1, Function.update s.pc a.1 out.2⟩

/-- Every connection at its first call. -/
def Race.start (fs : Fs K) : Race K ι := ⟨fs, fun _ => .attributes⟩

variable {p : Promotions port ι} {s s' : Race K ι} {a : ι × CallResult}

/-- A backup path the code works with is the one of the final path. -/
def PromotePc.BackupIs (backup : Bytes) : PromotePc → Prop
  | .dropBackup b => b = backup
  | .saveOld b => b = backup
  | .install (some b) => b = backup
  | .restore b _ => b = backup
  | .dropOld b => b = backup
  | _ => True

/-- What one call does to the shared directory. -/
inductive RaceEffect (p : Promotions port ι) (s : Race K ι) (a : ι × CallResult) : Fs K → Prop
  | same : RaceEffect p s a s.fs
  /-- `DeleteFile` of the backup, before the old file is saved or after the install -/
  | drops (hpc : (∃ b, s.pc a.1 = .dropBackup b) ∨ ∃ b, s.pc a.1 = .dropOld b) :
      RaceEffect p s a (s.fs.remove p.backupKey a.2)
  | saves (fs' : Fs K) (hmove : s.fs.rename p.finalKey p.backupKey a.2 = (fs', true)) : RaceEffect p s a fs'
  | installs (fs' : Fs K) (hpc : ∃ b, s.pc a.1 = .install b)
      (hmove : s.fs.rename (p.tempKey a.1) p.finalKey a.2 = (fs', true)) : RaceEffect p s a fs'
  | restores (fs' : Fs K) (hmove : s.fs.rename p.backupKey p.finalKey a.2 = (fs', true)) : RaceEffect p s a fs'
  | dropsTemp : RaceEffect p s a (s.fs.remove (p.tempKey a.1) a.2)

/-- **Every call of a promotion has one of these effects**, and goes on with the
same backup path. -/
theorem race_effect (hs : ∀ i, (s.pc i).BackupIs p.backup) (h : raceStep p s a = some s') :
    RaceEffect p s a s'.fs ∧ ∀ i, (s'.pc i).BackupIs p.backup := by
  obtain ⟨i, r⟩ := a
  obtain ⟨⟨fs', pc'⟩, hstep, rfl⟩ := Option.map_eq_some_iff.1 h
  have hupd : pc'.BackupIs p.backup → ∀ j, ((Function.update s.pc i pc') j).BackupIs p.backup := by
    intro hpc' j
    by_cases hj : j = i
    · subst hj; simpa using hpc'
    · simpa [hj] using hs j
  have hi := hs i
  unfold promoteStep at hstep
  split at hstep
  · split at hstep
    · cases hstep; exact ⟨.same, hupd trivial⟩
    split at hstep
    · cases hstep; exact ⟨.same, hupd trivial⟩
    · rename_i hb
      cases hstep
      refine ⟨.same, hupd ?_⟩
      split at hb
      · cases hb
      · exact Option.some.inj (hb.symm.trans p.backupPath_final)
  · rename_i b hpc
    cases hstep
    rw [hpc] at hi
    obtain rfl : b = p.backup := hi
    exact ⟨.drops (Or.inl ⟨_, hpc⟩), hupd rfl⟩
  · rename_i b hpc
    rw [hpc] at hi
    obtain rfl : b = p.backup := hi
    split at hstep
    · rename_i hmove
      cases hstep
      exact ⟨Fs.rename_false hmove ▸ .same, hupd trivial⟩
    · rename_i hmove
      cases hstep
      exact ⟨.saves _ hmove, hupd rfl⟩
  · rename_i b hpc
    rw [hpc] at hi
    split at hstep
    · rename_i hmove
      cases hstep
      exact ⟨Fs.rename_false hmove ▸ .same, hupd hi⟩
    · rename_i hmove
      cases hstep
      exact ⟨Fs.rename_false hmove ▸ .same, hupd trivial⟩
    · rename_i hmove
      cases hstep
      exact ⟨.installs _ ⟨_, hpc⟩ hmove, hupd hi⟩
    · rename_i hmove
      cases hstep
      exact ⟨.installs _ ⟨_, hpc⟩ hmove, hupd trivial⟩
  · rename_i b native hpc
    rw [hpc] at hi
    obtain rfl : b = p.backup := hi
    cases hstep
    refine ⟨?_, hupd trivial⟩
    rcases hmove : s.fs.rename p.backupKey p.finalKey r with ⟨fs₁, _ | _⟩
    · have : (s.fs.rename (port.key p.backup) (port.key p.final) r).1 = s.fs :=
        (congrArg Prod.fst hmove).trans (Fs.rename_false hmove)
      simpa only [this] using RaceEffect.same
    · have : (s.fs.rename (port.key p.backup) (port.key p.final) r).1 = fs₁ := congrArg Prod.fst hmove
      simpa only [this] using RaceEffect.restores _ hmove
  · cases hstep
    exact ⟨.dropsTemp, hupd trivial⟩
  · rename_i b hpc
    cases hstep
    rw [hpc] at hi
    obtain rfl : b = p.backup := hi
    exact ⟨.drops (Or.inr ⟨_, hpc⟩), hupd trivial⟩
  · cases hstep

/-! ## Good copies -/

/-- The old file, or a whole upload. -/
def Good (old : Node) (upload : ι → Bytes) (c : Node) : Prop := c = old ∨ ∃ i, c = .file (upload i)

/-- A good copy stands under the final path or the backup path. -/
def Safe (p : Promotions port ι) (old : Node) (upload : ι → Bytes) (s : Race K ι) : Prop :=
  ∃ c, Good old upload c ∧ (s.fs p.finalKey = some c ∨ s.fs p.backupKey = some c)

/-- A delete of the backup that takes effect while no file is at the final path. -/
def breaksRace (p : Promotions port ι) (s : Race K ι) (a : ι × CallResult) : Prop :=
  ((∃ b, s.pc a.1 = .dropBackup b) ∨ ∃ b, s.pc a.1 = .dropOld b) ∧ a.2.ok = true ∧
    s.fs p.finalKey = none ∧ ∃ bytes, s.fs p.backupKey = some (.file bytes)

/-- A temporary file that is moved to the final path. -/
def mendsRace (p : Promotions port ι) (s : Race K ι) (a : ι × CallResult) : Prop :=
  (∃ b, s.pc a.1 = .install b) ∧ a.2.ok = true ∧ s.fs p.finalKey = none ∧ s.fs (p.tempKey a.1) ≠ none

/-- What holds of the shared directory throughout; a stale backup from before may
stand only beside the final path's file. -/
structure RaceInv (p : Promotions port ι) (old : Node) (upload : ι → Bytes) (s : Race K ι) : Prop where
  pcs : ∀ i, (s.pc i).BackupIs p.backup
  final : ∀ c, s.fs p.finalKey = some c → Good old upload c
  temp : ∀ i c, s.fs (p.tempKey i) = some c → c = .file (upload i)
  stale : ∀ c, s.fs p.backupKey = some c → s.fs p.finalKey = none → Good old upload c

variable {old : Node} {upload : ι → Bytes}

omit [DecidableEq K] [DecidableEq ι] in
/-- Under the invariant any file under either name will do. -/
theorem safe_iff (hs : RaceInv p old upload s) :
    Safe p old upload s ↔ s.fs p.finalKey ≠ none ∨ s.fs p.backupKey ≠ none := by
  constructor
  · rintro ⟨c, -, hc | hc⟩
    · exact Or.inl (by simp [hc])
    · exact Or.inr (by simp [hc])
  · intro h
    cases hf : s.fs p.finalKey with
    | some c => exact ⟨c, hs.final c hf, Or.inl hf⟩
    | none =>
      obtain ⟨c, hc⟩ := Option.ne_none_iff_exists'.1 (h.resolve_left (fun hne => hne hf))
      exact ⟨c, hs.stale c hc hf, Or.inr hc⟩

/-- **One call keeps the invariant.** -/
theorem race_inv_step (hs : RaceInv p old upload s) (h : raceStep p s a = some s') :
    RaceInv p old upload s' := by
  obtain ⟨heff, hpcs⟩ := race_effect hs.pcs h
  have hfb : p.finalKey ≠ p.backupKey := p.final_ne_backup
  have htf : ∀ i, p.tempKey i ≠ p.finalKey := p.temp_ne_final
  have htb : ∀ i, p.tempKey i ≠ p.backupKey := p.temp_ne_backup
  generalize hfs : s'.fs = fs' at heff
  cases heff with
  | same => exact ⟨hpcs, hfs ▸ hs.final, hfs ▸ hs.temp, hfs ▸ hs.stale⟩
  | drops =>
    have hfinal := Fs.remove_ne s.fs a.2 hfb
    refine ⟨hpcs, ?_, ?_, ?_⟩
    · intro c hc
      rw [hfs, hfinal] at hc
      exact hs.final c hc
    · intro i c hc
      rw [hfs, Fs.remove_ne _ _ (htb i)] at hc
      exact hs.temp i c hc
    · intro c hc hf
      rw [hfs] at hc hf
      rw [hfinal] at hf
      rcases Fs.remove_same s.fs p.backupKey a.2 with hr | hr
      · exact absurd (hr.symm.trans hc) (by simp)
      · exact hs.stale c (hr ▸ hc) hf
  | saves _ hmove =>
    obtain ⟨-, c₀, hc₀, hb, hf, hother⟩ := Fs.rename_true hmove
    refine ⟨hpcs, ?_, ?_, ?_⟩
    · intro c hc
      rw [hfs, hf] at hc
      exact absurd hc (by simp)
    · intro i c hc
      rw [hfs, hother _ (htf i) (htb i)] at hc
      exact hs.temp i c hc
    · intro c hc _
      rw [hfs, hb] at hc
      obtain rfl := Option.some.inj hc
      exact hs.final _ hc₀
  | installs _ _ hmove =>
    obtain ⟨-, c₀, hc₀, hf, ht, hother⟩ := Fs.rename_true hmove
    refine ⟨hpcs, ?_, ?_, ?_⟩
    · intro c hc
      rw [hfs, hf] at hc
      obtain rfl := Option.some.inj hc
      exact Or.inr ⟨a.1, hs.temp a.1 _ hc₀⟩
    · intro i c hc
      rw [hfs] at hc
      by_cases hi : i = a.1
      · rw [hi, ht] at hc
        exact absurd hc (by simp)
      · have hne : p.tempKey i ≠ p.tempKey a.1 := fun heq => hi (p.temp_inj _ _ heq)
        rw [hother _ hne (htf i)] at hc
        exact hs.temp i c hc
    · intro c _ hf'
      rw [hfs, hf] at hf'
      exact absurd hf' (by simp)
  | restores _ hmove =>
    obtain ⟨hfree, c₀, hc₀, hf, hb, hother⟩ := Fs.rename_true hmove
    refine ⟨hpcs, ?_, ?_, ?_⟩
    · intro c hc
      rw [hfs, hf] at hc
      obtain rfl := Option.some.inj hc
      exact hs.stale _ hc₀ hfree
    · intro i c hc
      rw [hfs, hother _ (htb i) (htf i)] at hc
      exact hs.temp i c hc
    · intro c hc _
      rw [hfs, hb] at hc
      exact absurd hc (by simp)
  | dropsTemp =>
    have hfinal := Fs.remove_ne s.fs a.2 (htf a.1).symm
    have hback := Fs.remove_ne s.fs a.2 (htb a.1).symm
    refine ⟨hpcs, ?_, ?_, ?_⟩
    · intro c hc
      rw [hfs, hfinal] at hc
      exact hs.final c hc
    · intro i c hc
      rw [hfs] at hc
      by_cases hi : p.tempKey i = p.tempKey a.1
      · rcases Fs.remove_same s.fs (p.tempKey a.1) a.2 with hr | hr
        · rw [hi, hr] at hc
          exact absurd hc (by simp)
        · rw [hi, hr, ← hi] at hc
          exact hs.temp i c hc
      · rw [Fs.remove_ne _ _ hi] at hc
        exact hs.temp i c hc
    · intro c hc hf
      rw [hfs] at hc hf
      exact hs.stale c (hback ▸ hc) (hfinal ▸ hf)

/-- A file under either name. -/
def Held (p : Promotions port ι) (s : Race K ι) : Prop := s.fs p.finalKey ≠ none ∨ s.fs p.backupKey ≠ none

/-- A delete of the backup is the removal of the shared name. -/
theorem race_drop (hs : ∀ i, (s.pc i).BackupIs p.backup) (h : raceStep p s a = some s')
    (hpc : (∃ b, s.pc a.1 = .dropBackup b) ∨ ∃ b, s.pc a.1 = .dropOld b) :
    s'.fs = s.fs.remove p.backupKey a.2 := by
  have hi := hs a.1
  obtain ⟨out, hstep, rfl⟩ := Option.map_eq_some_iff.1 h
  rcases hpc with ⟨b, hpc⟩ | ⟨b, hpc⟩
  · rw [hpc] at hi hstep
    obtain rfl : b = p.backup := hi
    exact (congrArg Prod.fst (Option.some.inj hstep)).symm
  · rw [hpc] at hi hstep
    obtain rfl : b = p.backup := hi
    exact (congrArg Prod.fst (Option.some.inj hstep)).symm

theorem race_breaks (hs : RaceInv p old upload s) (h : raceStep p s a = some s') (hb : breaksRace p s a) :
    ¬Held p s' := by
  obtain ⟨hpc, hok, hfinal, bytes, hback⟩ := hb
  have hfb : p.finalKey ≠ p.backupKey := p.final_ne_backup
  rw [Held, race_drop hs.pcs h hpc, Fs.remove_file hback hok]
  rintro (hf | hbk)
  · exact hf ((FileStore.erase_ne _ hfb).trans hfinal)
  · exact hbk (FileStore.erase_same _ _)

theorem race_mends (h : raceStep p s a = some s') (hm : mendsRace p s a) : Held p s' := by
  obtain ⟨⟨b, hpc⟩, hok, hfinal, htemp⟩ := hm
  obtain ⟨c, hc⟩ := Option.ne_none_iff_exists'.1 htemp
  have hmove : s.fs.rename (port.key (p.temp a.1)) (port.key p.final) a.2 =
      ((s.fs.erase (p.tempKey a.1)).put p.finalKey c, true) := Fs.rename_ok hc hfinal hok
  obtain ⟨out, hstep, rfl⟩ := Option.map_eq_some_iff.1 h
  rw [hpc] at hstep
  have hout : out.1 = (s.fs.erase (p.tempKey a.1)).put p.finalKey c := by
    cases b with
    | none =>
      simp only [promoteStep, hmove, Option.some.injEq] at hstep
      exact (congrArg Prod.fst hstep).symm
    | some b =>
      simp only [promoteStep, hmove, Option.some.injEq] at hstep
      exact (congrArg Prod.fst hstep).symm
  refine Or.inl ?_
  show out.1 p.finalKey ≠ none
  rw [hout, FileStore.put_same]
  simp

theorem race_keeps (hs : RaceInv p old upload s) (h : raceStep p s a = some s') (hb : ¬breaksRace p s a)
    (hm : ¬mendsRace p s a) : Held p s' ↔ Held p s := by
  obtain ⟨heff, -⟩ := race_effect hs.pcs h
  have hfb : p.finalKey ≠ p.backupKey := p.final_ne_backup
  unfold Held
  generalize s'.fs = fs' at heff
  cases heff with
  | same => exact Iff.rfl
  | drops hpc =>
    rw [Fs.remove_ne s.fs a.2 hfb]
    by_cases hf : s.fs p.finalKey = none
    · -- with the final path free the delete takes nothing away, or it would be a break
      have hsame : s.fs.remove p.backupKey a.2 p.backupKey = s.fs p.backupKey := by
        rcases hk : s.fs p.backupKey with _ | ⟨bytes | _⟩
        · exact Fs.remove_none _ hk
        · rw [Fs.remove_refused, hk]
          by_contra hok
          exact hb ⟨hpc, by simpa using hok, hf, bytes, hk⟩
        · rw [Fs.remove_dir _ hk, hk]
      rw [hsame]
    · simp [hf]
  | saves _ hmove =>
    obtain ⟨-, c, hc, hback, -⟩ := Fs.rename_true hmove
    simp [hc, hback]
  | installs _ hpc hmove =>
    obtain ⟨hf, c, hc, -⟩ := Fs.rename_true hmove
    exact absurd ⟨hpc, Fs.rename_true_ok hmove, hf, by simp [hc]⟩ hm
  | restores _ hmove =>
    obtain ⟨-, c, hc, hf, -⟩ := Fs.rename_true hmove
    simp [hc, hf]
  | dropsTemp =>
    have htf : p.finalKey ≠ p.tempKey a.1 := (p.temp_ne_final a.1).symm
    have htb : p.backupKey ≠ p.tempKey a.1 := (p.temp_ne_backup a.1).symm
    rw [Fs.remove_ne s.fs a.2 htf, Fs.remove_ne s.fs a.2 htb]

/-- **Promotions to one path.** Any number of connections promote verified uploads
to one path, their calls in any order and with any of them failing. Then the old
file or a whole upload is left under the final path or the backup path exactly when
every delete of the backup that took effect while the final path was free was
followed by a move of a temporary file to the final path. -/
theorem race_safe_iff {p : Promotions winPort ι} {fs₀ : Fs Bytes} {s : Race Bytes ι}
    {as : List (ι × CallResult)} (hold : fs₀ p.finalKey = some old)
    (htemp : ∀ i, fs₀ (p.tempKey i) = some (.file (upload i)))
    (h : exec (raceStep p) (.start fs₀) as = some s) :
    Safe p old upload s ↔ Healed (raceStep p) (breaksRace p) (mendsRace p) (.start fs₀) as := by
  have h₀ : RaceInv p old upload (.start fs₀) := by
    refine ⟨fun _ => trivial, ?_, ?_, ?_⟩
    · intro c hc
      exact Or.inl (Option.some.inj (hold.symm.trans hc)).symm
    · intro i c hc
      exact (Option.some.inj ((htemp i).symm.trans hc)).symm
    · intro c _ hf
      exact absurd (hold.symm.trans hf) (by simp)
  have hinv : RaceInv p old upload s := exec_inv (fun _ _ _ hs hstep => race_inv_step hs hstep) h₀ h
  rw [safe_iff hinv]
  refine holds_iff_healed (fun _ _ _ hs hstep => race_inv_step hs hstep)
    (fun _ _ _ hs hstep hb => race_breaks hs hstep hb) (fun _ _ _ _ hstep hm => race_mends hstep hm)
    (fun _ _ _ hs hstep hb hm => race_keeps hs hstep hb hm) h₀ (Or.inl ?_) h
  show fs₀ p.finalKey ≠ none
  rw [hold]; simp

/-! ## Two connections -/

def demoPromotions : Promotions winPort Bool where
  final := ascii "C:\\A"
  backup := ascii "C:\\A.V9X.BAK"
  temp := fun i => if i then ascii "C:\\A.1.1.PART" else ascii "C:\\A.0.1.PART"
  backupPath_final := by decide
  final_ne_backup := by decide
  temp_ne_final := by decide
  temp_ne_backup := by decide
  temp_inj := by decide

def demoUpload (i : Bool) : Bytes := if i then ascii "TWO" else ascii "ONE"

/-- The old file and both verified uploads. -/
def demoFs : Fs Bytes :=
  FileStore.put (FileStore.put (FileStore.put (fun _ => none) demoPromotions.finalKey (.file (ascii "OLD")))
    (demoPromotions.tempKey false) (.file (demoUpload false)))
    (demoPromotions.tempKey true) (.file (demoUpload true))

/-- Both see the old file; the first saves it, the second deletes it as an old backup,
and then the first one's install fails. -/
def lossyRace : List (Bool × CallResult) :=
  [(false, callOk), (true, callOk), (false, callOk), (false, callOk), (true, callOk), (true, callOk),
    (true, callOk), (false, ⟨false, 5⟩), (false, callOk), (false, callOk)]

theorem race_safe_iff_demo : ∃ s, exec (raceStep demoPromotions) (.start demoFs) lossyRace = some s ∧
    (Safe demoPromotions (.file (ascii "OLD")) demoUpload s ↔
      Healed (raceStep demoPromotions) (breaksRace demoPromotions) (mendsRace demoPromotions) (.start demoFs)
        lossyRace) := by
  have hrun : (exec (raceStep demoPromotions) (.start demoFs) lossyRace).isSome = true := by decide
  obtain ⟨s, hs⟩ := Option.isSome_iff_exists.1 hrun
  exact ⟨s, hs, race_safe_iff (by decide) (by decide) hs⟩

/-- One failing call, and both connections end with nothing left. -/
theorem race_loses_the_old_file :
    ¬∀ as s, exec (raceStep demoPromotions) (.start demoFs) as = some s →
      (∀ i, ∃ status native, s.pc i = .done status native) →
      Safe demoPromotions (.file (ascii "OLD")) demoUpload s := by
  intro h
  have hrun : (exec (raceStep demoPromotions) (.start demoFs) lossyRace).map (fun s =>
      (s.fs demoPromotions.finalKey, s.fs demoPromotions.backupKey, s.pc false, s.pc true)) =
        some (none, none, .done statusIoFailed 5, .done statusIoFailed 0) := by
    decide
  obtain ⟨s, hs, heq⟩ := Option.map_eq_some_iff.1 hrun
  simp only [Prod.mk.injEq] at heq
  obtain ⟨hf, hb, h0, h1⟩ := heq
  have hdone : ∀ i, ∃ status native, s.pc i = .done status native := by
    intro i
    cases i with
    | false => exact ⟨_, _, h0⟩
    | true => exact ⟨_, _, h1⟩
  obtain ⟨c, -, hc | hc⟩ := h _ s hs hdone
  · exact absurd (hf.symm.trans hc) (by simp)
  · exact absurd (hb.symm.trans hc) (by simp)

end V9xRemote
