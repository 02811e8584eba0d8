import V9xRemote.Lib.Trace
import V9xRemote.Spec.HotSwap

/-!
# When a cut-off hot swap leaves an agent

`hotswap_whole_iff`: a run, cut off anywhere, leaves a complete agent exactly when
every call that took the agent away was followed by one that put a whole one there.
-/

namespace V9xRemote

open Trace

/-- The old agent or the new one. -/
def WholeAgent (oldImage newImage image : Bytes) : Prop := image = oldImage ∨ image = newImage

instance (oldImage newImage image : Bytes) : Decidable (WholeAgent oldImage newImage image) :=
  inferInstanceAs (Decidable (_ ∨ _))

/-- `V9XAGNT.EXE` is there and complete. -/
def AgentWhole (oldImage newImage : Bytes) (s : Swap) : Prop :=
  ∃ image, s.dir .agent = some image ∧ WholeAgent oldImage newImage image

/-- The agent is renamed away, or a failing copy leaves something else than an agent. -/
def TakesAgent (oldImage newImage : Bytes) (s : Swap) (a : SwapAct) : Prop :=
  (∃ waited, s.pc = .setAside waited ∧ a = .call true ∧ s.dir .agent ≠ none ∧ s.dir .agentOld = none) ∨
    ∃ left, s.pc = .copyAgent ∧ a = .copiedInto left ∧
      ∀ image, left = some image → ¬WholeAgent oldImage newImage image

/-- The new agent is copied, or a whole old one is renamed back. -/
def PutsAgent (oldImage newImage : Bytes) (s : Swap) (a : SwapAct) : Prop :=
  (s.pc = .copyAgent ∧ (a = .copied ∨
      ∃ image, a = .copiedInto (some image) ∧ WholeAgent oldImage newImage image)) ∨
    ((s.pc = .putBack ∨ s.pc = .restore) ∧ a = .call true ∧ s.dir .agent = none ∧
      ∃ image, s.dir .agentOld = some image ∧ WholeAgent oldImage newImage image)

variable {isNt : Bool} {oldImage newImage : Bytes} {s s' : Swap} {a : SwapAct}

/-- What a call does to the agent's two names and the staged copy. -/
inductive SwapEffect (oldImage newImage : Bytes) (s : Swap) (a : SwapAct) (dir : SwapDir) : Prop
  /-- the agent stays -/
  | keeps (hagent : dir .agent = s.dir .agent) (hnew : dir .agentNew = s.dir .agentNew)
      (htakes : ¬TakesAgent oldImage newImage s a) (hputs : ¬PutsAgent oldImage newImage s a)
  /-- the agent is renamed to its old name -/
  | setsAside (hagent : dir .agent = none) (hnew : dir .agentNew = s.dir .agentNew)
      (htakes : TakesAgent oldImage newImage s a) (hputs : ¬PutsAgent oldImage newImage s a)
  /-- a rename back to a free name -/
  | putsBack (image : Bytes) (hfree : s.dir .agent = none) (hagent : dir .agent = some image)
      (hnew : dir .agentNew = s.dir .agentNew) (htakes : ¬TakesAgent oldImage newImage s a)
      (hputs : PutsAgent oldImage newImage s a ↔ WholeAgent oldImage newImage image)
  /-- the copy is done -/
  | copies (hagent : dir .agent = s.dir .agentNew) (hnew : dir .agentNew = s.dir .agentNew)
      (htakes : ¬TakesAgent oldImage newImage s a) (hputs : PutsAgent oldImage newImage s a)
  /-- the copy fails and leaves something -/
  | spoils (left : Option Bytes) (hagent : dir .agent = left) (hnew : dir .agentNew = s.dir .agentNew)
      (hpc : s.pc = .copyAgent) (ha : a = .copiedInto left)

/-- A rename back, at `putBack` or `restore`. -/
theorem putBack_effect (hpc : s.pc = .putBack ∨ s.pc = .restore) (ok : Bool) :
    SwapEffect oldImage newImage s (.call ok) (s.dir.move .agentOld .agent ok).1 := by
  have htakes : ¬TakesAgent oldImage newImage s (.call ok) := by
    rintro (⟨waited, hpc', -⟩ | ⟨left, -, ha, -⟩)
    · rcases hpc with hpc | hpc <;> simp [hpc] at hpc'
    · cases ha
  rcases s.dir.move_cases .agentOld .agent ok with hm | ⟨rfl, hfree, image, hold, hm⟩
  · rw [hm]
    refine .keeps rfl rfl htakes ?_
    rintro (⟨-, ha | ⟨_, ha, -⟩⟩ | ⟨-, ha, hfree, image, hold, -⟩)
    · cases ha
    · cases ha
    · obtain rfl : ok = true := by simpa using ha
      have := congrArg Prod.snd hm
      simp [FileStore.move, hold, hfree] at this
  · rw [hm]
    dsimp only
    refine .putsBack image hfree (FileStore.put_same _ _ _) ?_ htakes ?_
    · exact (FileStore.put_ne _ _ (by decide)).trans (FileStore.erase_ne _ (by decide))
    · constructor
      · rintro (⟨-, ha | ⟨_, ha, -⟩⟩ | ⟨-, -, -, image', hold', hwhole⟩)
        · cases ha
        · cases ha
        · obtain rfl := Option.some.inj (hold.symm.trans hold')
          exact hwhole
      · exact fun hwhole => Or.inr ⟨hpc, rfl, hfree, image, hold, hwhole⟩

/-- A call at a point that neither takes nor puts an agent. -/
theorem keeps_of_pc {dir : SwapDir} (hagent : dir .agent = s.dir .agent)
    (hnew : dir .agentNew = s.dir .agentNew) (h1 : ∀ waited, s.pc ≠ .setAside waited)
    (h2 : s.pc ≠ .copyAgent) (h3 : s.pc ≠ .putBack) (h4 : s.pc ≠ .restore) :
    SwapEffect oldImage newImage s a dir := by
  refine .keeps hagent hnew ?_ ?_
  · rintro (⟨waited, hpc, -⟩ | ⟨_, hpc, -⟩)
    · exact h1 waited hpc
    · exact h2 hpc
  · rintro (⟨hpc, -⟩ | ⟨hpc | hpc, -⟩)
    · exact h2 hpc
    · exact h3 hpc
    · exact h4 hpc

theorem setAside_effect (oldImage newImage : Bytes) {waited : ℕ} (hpc : s.pc = .setAside waited) (ok : Bool) :
    SwapEffect oldImage newImage s (.call ok) (s.dir.move .agent .agentOld ok).1 := by
  have hputs : ¬PutsAgent oldImage newImage s (.call ok) := by
    rintro (⟨hpc', -⟩ | ⟨hpc' | hpc', -⟩) <;> simp [hpc] at hpc'
  rcases s.dir.move_cases .agent .agentOld ok with hm | ⟨rfl, hfree, image, hagent, hm⟩
  · rw [hm]
    refine .keeps rfl rfl ?_ hputs
    · rintro (⟨_, -, ha, hsome, hfree⟩ | ⟨_, -, ha, -⟩)
      · obtain rfl : ok = true := by simpa using ha
        obtain ⟨image, himage⟩ := Option.ne_none_iff_exists'.1 hsome
        have := congrArg Prod.snd hm
        simp [FileStore.move, himage, hfree] at this
      · cases ha
  · rw [hm]
    dsimp only
    refine .setsAside ?_ ?_ (Or.inl ⟨waited, hpc, rfl, by simp [hagent], hfree⟩) hputs
    · exact (FileStore.put_ne _ _ (by decide)).trans (FileStore.erase_same _ _)
    · exact (FileStore.put_ne _ _ (by decide)).trans (FileStore.erase_ne _ (by decide))

/-- A copy changes its target only. -/
theorem copy_ne {dir : SwapDir} {source target m : SwapFile} {out : SwapDir × Bool}
    (h : dir.copy source target a = some out) (hm : m ≠ target) : out.1 m = dir m := by
  cases a with
  | call ok => cases h
  | copied =>
    obtain ⟨image, -, rfl⟩ := Option.map_eq_some_iff.1 h
    exact FileStore.put_ne dir image hm
  | uncopied => obtain rfl := Option.some.inj h; rfl
  | copiedInto left => obtain rfl := Option.some.inj h; simp [hm]

theorem copyAgent_effect (hpc : s.pc = .copyAgent) {out : SwapDir × Bool}
    (h : s.dir.copy .agentNew .agent a = some out) : SwapEffect oldImage newImage s a out.1 := by
  cases a with
  | call ok => cases h
  | copied =>
    obtain ⟨image, himage, rfl⟩ := Option.map_eq_some_iff.1 h
    refine .copies ?_ (copy_ne h (by decide)) ?_ (Or.inl ⟨hpc, Or.inl rfl⟩)
    · rw [himage]; exact FileStore.put_same s.dir SwapFile.agent image
    · rintro (⟨_, hpc', -⟩ | ⟨_, -, ha, -⟩)
      · simp [hpc] at hpc'
      · cases ha
  | uncopied =>
    obtain rfl := Option.some.inj h
    refine .keeps rfl rfl ?_ ?_
    · rintro (⟨_, hpc', -⟩ | ⟨_, -, ha, -⟩)
      · simp [hpc] at hpc'
      · cases ha
    · rintro (⟨-, ha | ⟨_, ha, -⟩⟩ | ⟨hpc' | hpc', -⟩)
      · cases ha
      · cases ha
      · simp [hpc] at hpc'
      · simp [hpc] at hpc'
  | copiedInto left =>
    obtain rfl := Option.some.inj h
    exact .spoils left (by simp) (by simp) hpc rfl

/-- **Every call of the swapper has one of these effects.** -/
theorem swap_effect (oldImage newImage : Bytes) (h : swapStep isNt s a = some s') : SwapEffect oldImage newImage s a s'.dir := by
  unfold swapStep at h
  split at h
  · rename_i hpc
    split at h
    · obtain rfl := Option.some.inj h
      exact keeps_of_pc rfl rfl (by simp [hpc]) (by simp [hpc]) (by simp [hpc]) (by simp [hpc])
    · obtain rfl := Option.some.inj h
      exact keeps_of_pc rfl rfl (by simp [hpc]) (by simp [hpc]) (by simp [hpc]) (by simp [hpc])
  · rename_i hpc
    obtain rfl := Option.some.inj h
    exact keeps_of_pc (FileStore.delete_ne _ _ (by decide)) (FileStore.delete_ne _ _ (by decide))
      (by simp [hpc]) (by simp [hpc]) (by simp [hpc]) (by simp [hpc])
  · rename_i waited ok hpc
    have heff := setAside_effect oldImage newImage hpc ok
    split at h
    · rename_i dir hm
      obtain rfl := Option.some.inj h
      rwa [hm] at heff
    · rename_i dir hm
      obtain rfl := Option.some.inj h
      rwa [hm] at heff
  · rename_i hpc
    split at h
    · obtain rfl := Option.some.inj h
      exact keeps_of_pc rfl rfl (by simp [hpc]) (by simp [hpc]) (by simp [hpc]) (by simp [hpc])
    split at h
    · obtain rfl := Option.some.inj h
      exact keeps_of_pc rfl rfl (by simp [hpc]) (by simp [hpc]) (by simp [hpc]) (by simp [hpc])
    · obtain rfl := Option.some.inj h
      exact keeps_of_pc rfl rfl (by simp [hpc]) (by simp [hpc]) (by simp [hpc]) (by simp [hpc])
  · rename_i ok hpc
    obtain rfl := Option.some.inj h
    exact putBack_effect (Or.inl hpc) ok
  · rename_i hpc
    obtain ⟨out, hout, rfl⟩ := Option.map_eq_some_iff.1 h
    exact copyAgent_effect hpc hout
  · rename_i ok hpc
    obtain rfl := Option.some.inj h
    exact putBack_effect (Or.inr hpc) ok
  · rename_i hpc
    obtain rfl := Option.some.inj h
    exact keeps_of_pc (FileStore.delete_ne _ _ (by decide)) (FileStore.delete_ne _ _ (by decide))
      (by simp [hpc]) (by simp [hpc]) (by simp [hpc]) (by simp [hpc])
  · rename_i hpc
    obtain ⟨out, hout, rfl⟩ := Option.map_eq_some_iff.1 h
    exact keeps_of_pc (copy_ne hout (by decide)) (copy_ne hout (by decide)) (by simp [hpc]) (by simp [hpc]) (by simp [hpc]) (by simp [hpc])
  · rename_i hpc
    obtain rfl := Option.some.inj h
    exact keeps_of_pc (FileStore.delete_ne _ _ (by decide)) (FileStore.delete_ne _ _ (by decide))
      (by simp [hpc]) (by simp [hpc]) (by simp [hpc]) (by simp [hpc])
  · rename_i hpc
    obtain rfl := Option.some.inj h
    exact keeps_of_pc rfl rfl (by simp [hpc]) (by simp [hpc]) (by simp [hpc]) (by simp [hpc])
  · cases h

/-- **A cut-off hot swap.** Starting with the old agent in place and the new one
staged, with any calls failing and the run cut off anywhere, `V9XAGNT.EXE` is there
and complete exactly when every call that took it away was followed by one that put
a whole agent there. -/
theorem hotswap_whole_iff {dir : SwapDir} {as : List SwapAct} (hold : dir .agent = some oldImage)
    (hnew : dir .agentNew = some newImage) (h : exec (swapStep isNt) (.start dir) as = some s) :
    AgentWhole oldImage newImage s ↔
      Healed (swapStep isNt) (TakesAgent oldImage newImage) (PutsAgent oldImage newImage) (.start dir) as := by
  refine holds_iff_healed (I := fun s => s.dir .agentNew = some newImage) ?_ ?_ ?_ ?_ hnew
    ⟨oldImage, hold, Or.inl rfl⟩ h
  · intro s a s' hs hstep
    cases swap_effect oldImage newImage hstep with
    | keeps _ hn => exact hn.trans hs
    | setsAside _ hn => exact hn.trans hs
    | putsBack _ _ _ hn => exact hn.trans hs
    | copies _ hn => exact hn.trans hs
    | spoils _ _ hn => exact hn.trans hs
  · rintro s a s' - hstep hb ⟨image, himage, hwhole⟩
    cases swap_effect oldImage newImage hstep with
    | keeps _ _ ht => exact ht hb
    | setsAside ha => exact absurd (ha.symm.trans himage) (by simp)
    | putsBack _ _ _ _ ht => exact ht hb
    | copies _ _ ht => exact ht hb
    | spoils left ha _ hpc hact =>
      rcases hb with ⟨_, hpc', -⟩ | ⟨left', -, hact', hnot⟩
      · simp [hpc] at hpc'
      · obtain rfl : left = left' := by simpa [hact] using hact'
        exact hnot image (ha.symm.trans himage) hwhole
  · intro s a s' hs hstep hm
    cases swap_effect oldImage newImage hstep with
    | keeps _ _ _ hp => exact absurd hm hp
    | setsAside _ _ _ hp => exact absurd hm hp
    | putsBack image _ ha _ _ hp => exact ⟨image, ha, hp.1 hm⟩
    | copies ha => exact ⟨newImage, ha.trans hs, Or.inr rfl⟩
    | spoils left ha _ hpc hact =>
      rcases hm with ⟨-, hact' | ⟨image, hact', hwhole⟩⟩ | ⟨hpc' | hpc', -⟩
      · exact absurd (hact.symm.trans hact') (by simp)
      · obtain rfl : left = some image := by simpa [hact] using hact'
        exact ⟨image, ha, hwhole⟩
      · simp [hpc] at hpc'
      · simp [hpc] at hpc'
  · intro s a s' hs hstep hb hm
    unfold AgentWhole
    cases swap_effect oldImage newImage hstep with
    | keeps ha => rw [ha]
    | setsAside _ _ ht => exact absurd ht hb
    | putsBack image hfree ha _ _ hp =>
      -- a rename back of something else than an agent
      rw [hfree, ha]
      simp [show ¬WholeAgent oldImage newImage image from fun hw => hm (hp.2 hw)]
    | copies _ _ _ hp => exact absurd hp hm
    | spoils left _ _ hpc hact =>
      refine absurd (Or.inr ⟨left, hpc, hact, fun image hleft hwhole => hm (Or.inl ⟨hpc, Or.inr ⟨image, ?_, hwhole⟩⟩)⟩) hb
      rw [hact, hleft]

/-! ## A swap that is cut off -/

def demoSwapDir : SwapDir
  | .agent => some (Bytes.ascii "OLD")
  | .agentNew => some (Bytes.ascii "NEW")
  | _ => none

/-- A whole swap, in which every call works. -/
def wholeSwap : List SwapAct := [.call true, .call true, .call true, .copied, .call true, .uncopied, .call true]

theorem hotswap_whole_iff_demo : ∃ s, exec (swapStep false) (.start demoSwapDir) wholeSwap = some s ∧
    (AgentWhole (Bytes.ascii "OLD") (Bytes.ascii "NEW") s ↔
      Healed (swapStep false) (TakesAgent (Bytes.ascii "OLD") (Bytes.ascii "NEW"))
        (PutsAgent (Bytes.ascii "OLD") (Bytes.ascii "NEW")) (.start demoSwapDir) wholeSwap) := by
  have hrun : (exec (swapStep false) (.start demoSwapDir) wholeSwap).isSome = true := by decide
  obtain ⟨s, hs⟩ := Option.isSome_iff_exists.1 hrun
  exact ⟨s, hs, hotswap_whole_iff rfl rfl hs⟩

/-- Cut off between the rename and the copy, every call having worked. -/
theorem hotswap_cut_off : ¬∀ as s, exec (swapStep false) (.start demoSwapDir) as = some s →
    AgentWhole (Bytes.ascii "OLD") (Bytes.ascii "NEW") s := by
  intro h
  have hrun : (exec (swapStep false) (.start demoSwapDir) [.call true, .call true, .call true]).map
      (fun s => s.dir .agent) = some none := by
    decide
  obtain ⟨s, hs, hagent⟩ := Option.map_eq_some_iff.1 hrun
  obtain ⟨image, himage, -⟩ := h _ s hs
  exact absurd (hagent.symm.trans himage) (by simp)

end V9xRemote
