import V9xRemote.Lib.Trace
import V9xRemote.Spec.VncKeys

/-!
# When the end of a session releases every key

The table of held keys has one entry for a virtual key, a keyboard may have two such
keys. `vnc_keys_released_iff`: every injected press is followed by its release
exactly when no event left a press of the other one outstanding for good.
-/

namespace V9xRemote

open Trace

/-- After every press of the key there is a release of it. -/
def Released (log : List KeyInject) (vk : UInt8) (extended : Bool) : Prop :=
  ∀ l₁ l₂, log = l₁ ++ ⟨vk, extended, true⟩ :: l₂ → ⟨vk, extended, false⟩ ∈ l₂

/-- The key is down, as the system sees it. -/
def held (log : List KeyInject) (vk : UInt8) (extended : Bool) : Bool :=
  log.foldl (fun h e => if e.vk = vk ∧ e.extended = extended then e.down else h) false

theorem held_snoc (log : List KeyInject) (e : KeyInject) (vk : UInt8) (extended : Bool) :
    held (log ++ [e]) vk extended =
      if e.vk = vk ∧ e.extended = extended then e.down else held log vk extended := by
  rw [held, List.foldl_append]; rfl

/-- One more event. -/
theorem released_snoc (log : List KeyInject) (e : KeyInject) (vk : UInt8) (extended : Bool) :
    Released (log ++ [e]) vk extended ↔
      if e.vk = vk ∧ e.extended = extended then e.down = false else Released log vk extended := by
  have hsplit : ∀ l₁ l₂ (p : KeyInject), log ++ [e] = l₁ ++ p :: l₂ →
      (l₂ = [] ∧ e = p) ∨ ∃ l₃, l₂ = l₃ ++ [e] ∧ log = l₁ ++ p :: l₃ := by
    intro l₁ l₂ p h
    induction l₂ using List.reverseRecOn with
    | nil => exact Or.inl ⟨rfl, (List.append_inj' h rfl).2 |> List.cons.inj |>.1⟩
    | append_singleton l₃ x =>
      have h' : log ++ [e] = (l₁ ++ p :: l₃) ++ [x] := by rw [h]; simp
      obtain ⟨hlog, hx⟩ := List.append_inj' h' rfl
      exact Or.inr ⟨l₃, by rw [(List.cons.inj hx).1], hlog⟩
  split
  · rename_i hkey
    obtain ⟨hvk, hext⟩ := hkey
    constructor
    · intro h
      by_contra hdown
      have he : e = ⟨vk, extended, true⟩ := by
        cases e; simp_all
      exact absurd (h log [] (by rw [he])) (by simp)
    · intro hdown l₁ l₂ h
      rcases hsplit l₁ l₂ _ h with ⟨-, he⟩ | ⟨l₃, rfl, -⟩
      · rw [he] at hdown
        exact absurd hdown (by simp)
      · have he : e = ⟨vk, extended, false⟩ := by
          cases e; simp_all
        simp [he]
  · rename_i hkey
    constructor
    · intro h l₁ l₂ hlog
      have hmem := h l₁ (l₂ ++ [e]) (by rw [hlog]; simp)
      rcases List.mem_append.1 hmem with hmem | hmem
      · exact hmem
      · have he := List.mem_singleton.1 hmem
        exact absurd ⟨by rw [← he], by rw [← he]⟩ hkey
    · intro h l₁ l₂ hlog
      rcases hsplit l₁ l₂ _ hlog with ⟨-, he⟩ | ⟨l₃, rfl, hlog'⟩
      · exact absurd ⟨by rw [he], by rw [he]⟩ hkey
      · exact List.mem_append_left _ (h l₁ l₃ hlog')

theorem released_iff_held (log : List KeyInject) (vk : UInt8) (extended : Bool) :
    Released log vk extended ↔ held log vk extended = false := by
  induction log using List.reverseRecOn with
  | nil => exact ⟨fun _ => rfl, fun _ l₁ l₂ h => absurd h (by simp)⟩
  | append_singleton log e ih =>
    rw [released_snoc, held_snoc]
    split
    · exact Iff.rfl
    · exact ih

/-! ## What an event does -/

/-- The key `vnc_key` is called for. -/
def calledFor (s : VncKeys) (e : KeyEvent) : Option (UInt8 × Bool) :=
  let (vk, extended) := vncMapped e.keysym
  if vk ≠ 0 then if e.down || s.keysDown vk then some (vk, extended) else none
  else if e.keysym < 0x20 || e.keysym > 0xff || e.scan = 0xffff then none
  else
    let vk := (e.scan &&& 0xff).toUInt8
    if e.down || s.keysDown vk then some (vk, false) else none

variable {s : VncKeys} {e : KeyEvent} {vk : UInt8} {extended : Bool}

/-- A press between a press and a release of Shift. -/
def VncKeys.shifted (s : VncKeys) (vk : UInt8) : VncKeys :=
  ((s.inject vkShift false true).key vk false true).inject vkShift false false

/-- **An event does nothing, or makes the one call, or presses with a Shift of its own.** -/
theorem keyEvent_cases (s : VncKeys) (e : KeyEvent) :
    (calledFor s e = none ∧ vncKeyEvent s e = s) ∨
      ∃ vk extended, calledFor s e = some (vk, extended) ∧
        (vncKeyEvent s e = s.key vk extended e.down ∨
          (extended = false ∧ e.down = true ∧ vncKeyEvent s e = s.shifted vk)) := by
  unfold calledFor vncKeyEvent
  generalize vncMapped e.keysym = mapped
  obtain ⟨vk, extended⟩ := mapped
  dsimp only
  by_cases hvk : vk ≠ 0
  · rw [if_pos hvk, if_pos hvk]
    split
    · exact Or.inr ⟨vk, extended, rfl, Or.inl rfl⟩
    · exact Or.inl ⟨rfl, rfl⟩
  rw [if_neg hvk, if_neg hvk]
  by_cases hrange : (e.keysym < 0x20 || e.keysym > 0xff) = true
  · rw [if_pos (by simp [hrange]), if_pos hrange]
    exact Or.inl ⟨rfl, rfl⟩
  by_cases hscan : e.scan = 0xffff
  · rw [if_pos (by simp [hscan]), if_neg hrange, if_pos hscan]
    exact Or.inl ⟨rfl, rfl⟩
  rw [if_neg (by simp only [Bool.not_eq_true] at hrange; simp [hrange, hscan]), if_neg hrange, if_neg hscan]
  cases hdown : e.down with
  | false =>
    simp only [Bool.not_false, if_true, Bool.false_or]
    split
    · exact Or.inr ⟨_, _, rfl, Or.inl rfl⟩
    · exact Or.inl ⟨rfl, rfl⟩
  | true =>
    simp only [Bool.not_true, Bool.false_eq_true, if_false, Bool.true_or, if_true]
    split
    · exact Or.inr ⟨_, _, rfl, Or.inr ⟨rfl, trivial, rfl⟩⟩
    · exact Or.inr ⟨_, _, rfl, Or.inl rfl⟩

theorem vncKeyMap_entries : ∀ x ∈ vncKeyMap, x.2.1 ≠ 0 ∧ (x.2.1 = vkShift → x.2.2 = false) := by
  -- a test of the list: a search over all entries there could be does not end
  have hall : vncKeyMap.all (fun x => decide (x.2.1 ≠ 0) && (decide (x.2.1 ≠ vkShift) || !x.2.2)) = true := by decide
  intro x hx
  have h := List.all_eq_true.1 hall x hx
  simp only [Bool.and_eq_true, decide_eq_true_eq, Bool.or_eq_true, Bool.not_eq_true'] at h
  exact ⟨h.1, fun hshift => h.2.resolve_left fun hne => hne hshift⟩

/-- No keysym names an extended Shift. -/
theorem vncMapped_shift (keysym : UInt32) (h : (vncMapped keysym).1 = vkShift) :
    (vncMapped keysym).2 = false := by
  unfold vncMapped at h ⊢
  cases hfind : vncKeyMap.find? (·.1 = keysym) with
  | none =>
    simp only [hfind, Option.map_none, Option.getD_none] at h ⊢
    split
    · rfl
    split
    · rfl
    · rfl
  | some x =>
    obtain ⟨hne, hshift⟩ := vncKeyMap_entries x (List.mem_of_find?_eq_some hfind)
    simp only [hfind, Option.map_some, Option.getD_some, hne, decide_false, Bool.false_and,
      Bool.false_eq_true, if_false] at h ⊢
    exact hshift h

theorem calledFor_shift (h : calledFor s e = some (vkShift, extended)) : extended = false := by
  unfold calledFor at h
  have hm := vncMapped_shift e.keysym
  generalize vncMapped e.keysym = mapped at h hm
  obtain ⟨vk, ext⟩ := mapped
  dsimp only at h hm
  split at h
  · split at h
    · obtain ⟨rfl, rfl⟩ := Prod.mk.inj (Option.some.inj h)
      exact hm rfl
    · cases h
  split at h
  · cases h
  split at h
  · exact (Prod.mk.inj (Option.some.inj h)).2.symm
  · cases h

/-! ## What the table knows -/

/-- Every held key of this virtual key is the one the table will release. -/
def Tracked (vk : UInt8) (s : VncKeys) : Prop :=
  ∀ extended, held s.injected vk extended = true →
    vk ≠ 0 ∧ s.keysDown vk = true ∧ s.keysExtended vk = extended

/-- The event acts on `vk` while the other key of that virtual key is held, or it
presses virtual key 0, which is never released. -/
def Crosses (vk : UInt8) (s : VncKeys) (e : KeyEvent) : Prop :=
  ∃ extended, calledFor s e = some (vk, extended) ∧
    (held s.injected vk (!extended) = true ∨ (vk = 0 ∧ e.down = true))

/-- The event acts on `vk` otherwise. -/
def Settles (vk : UInt8) (s : VncKeys) (e : KeyEvent) : Prop :=
  ∃ extended, calledFor s e = some (vk, extended) ∧
    ¬(held s.injected vk (!extended) = true ∨ (vk = 0 ∧ e.down = true))

/-- Shift is tracked throughout, and never held as an extended key. -/
structure ShiftInv (s : VncKeys) : Prop where
  plain : held s.injected vkShift true = false
  tracked : Tracked vkShift s

theorem held_key (s : VncKeys) (vk v : UInt8) (extended x down : Bool) :
    held (s.key vk extended down).injected v x =
      if vk = v ∧ extended = x then down else held s.injected v x :=
  held_snoc _ _ _ _

/-- After a call for its own virtual key. -/
theorem tracked_key_same (s : VncKeys) (vk : UInt8) (extended down : Bool) :
    Tracked vk (s.key vk extended down) ↔
      ¬(held s.injected vk (!extended) = true ∨ (vk = 0 ∧ down = true)) := by
  have hdown : (s.key vk extended down).keysDown vk = down := by simp [VncKeys.key]
  have hext : (s.key vk extended down).keysExtended vk = extended := by simp [VncKeys.key]
  constructor
  · rintro h (hother | ⟨hzero, hpress⟩)
    · have hx := (h (!extended) (by rw [held_key]; simp [hother])).2.2
      rw [hext] at hx
      cases extended <;> simp at hx
    · exact (h extended (by rw [held_key]; simp [hpress])).1 hzero
  · intro h x hx
    rw [held_key] at hx
    split at hx
    · rename_i hkey
      exact ⟨fun hzero => h (Or.inr ⟨hzero, hx⟩), by rw [hdown, hx], by rw [hext, hkey.2]⟩
    · rename_i hkey
      have hne : x = !extended := by
        cases x <;> cases extended <;> simp_all
      exact absurd (Or.inl (hne ▸ hx)) h

/-- A call for another virtual key. -/
theorem tracked_key_ne (s : VncKeys) {vk v : UInt8} (hv : v ≠ vk) (extended down : Bool) :
    Tracked v (s.key vk extended down) ↔ Tracked v s := by
  have hheld : ∀ x, held (s.key vk extended down).injected v x = held s.injected v x := by
    intro x
    rw [held_key, if_neg (fun h => hv h.1.symm)]
  have hdown : (s.key vk extended down).keysDown v = s.keysDown v := by simp [VncKeys.key, hv]
  have hext : (s.key vk extended down).keysExtended v = s.keysExtended v := by simp [VncKeys.key, hv]
  unfold Tracked
  simp only [hheld, hdown, hext]

/-- A press with a Shift of its own leaves the keys other than Shift as a press does. -/
theorem held_shifted_ne (s : VncKeys) {v : UInt8} (hv : v ≠ vkShift) (vk : UInt8) (x : Bool) :
    held (s.shifted vk).injected v x = held (s.key vk false true).injected v x := by
  have hshift : ∀ y, ¬(vkShift = v ∧ y = x) := fun y h => hv h.1.symm
  show held (((s.injected ++ [_]) ++ [_]) ++ [_]) v x = held (s.injected ++ [_]) v x
  rw [held_snoc, if_neg (hshift _), held_snoc, held_snoc s.injected, if_neg (hshift _), held_snoc]

theorem tracked_shifted_ne (s : VncKeys) {v : UInt8} (hv : v ≠ vkShift) (vk : UInt8) :
    Tracked v (s.shifted vk) ↔ Tracked v (s.key vk false true) := by
  unfold Tracked
  simp only [held_shifted_ne s hv]
  exact Iff.rfl

theorem shiftInv_shifted {vk : UInt8} (hs : ShiftInv s) : ShiftInv (s.shifted vk) := by
  have hheld : ∀ x, held (s.shifted vk).injected vkShift x = false := by
    intro x
    show held (((s.injected ++ [_]) ++ [_]) ++ [_]) vkShift x = false
    rw [held_snoc]
    cases x with
    | false => simp
    | true =>
      rw [if_neg (by simp), held_snoc, if_neg (by simp), held_snoc, if_neg (by simp)]
      exact hs.plain
  exact ⟨hheld true, fun x hx => absurd (hx.symm.trans (hheld x)) (by simp)⟩

/-- **One event keeps the invariant.** -/
theorem shiftInv_step (hs : ShiftInv s) (e : KeyEvent) : ShiftInv (vncKeyEvent s e) := by
  rcases keyEvent_cases s e with ⟨-, heq⟩ | ⟨vk, extended, hcall, heq | ⟨-, -, heq⟩⟩
  · rw [heq]; exact hs
  · rw [heq]
    by_cases hvk : vk = vkShift
    · subst hvk
      obtain rfl := calledFor_shift hcall
      refine ⟨?_, ?_⟩
      · rw [held_key]; simpa using hs.plain
      · rw [tracked_key_same]
        rintro (h | ⟨h, -⟩)
        · rw [Bool.not_false, hs.plain] at h
          exact absurd h (by simp)
        · exact absurd h (by decide)
    · refine ⟨?_, (tracked_key_ne s (Ne.symm hvk) _ _).2 hs.tracked⟩
      rw [held_key, if_neg (fun h => hvk h.1)]
      exact hs.plain
  · rw [heq]; exact shiftInv_shifted hs

/-- What an event does to `Tracked`. -/
theorem tracked_step (hs : ShiftInv s) (vk : UInt8) (e : KeyEvent) :
    (Crosses vk s e → ¬Tracked vk (vncKeyEvent s e)) ∧ (Settles vk s e → Tracked vk (vncKeyEvent s e)) ∧
      (¬Crosses vk s e → ¬Settles vk s e → (Tracked vk (vncKeyEvent s e) ↔ Tracked vk s)) := by
  rcases keyEvent_cases s e with ⟨hcall, heq⟩ | ⟨v, extended, hcall, hact⟩
  · refine ⟨?_, ?_, ?_⟩
    · rintro ⟨_, hc, -⟩; simp [hcall] at hc
    · rintro ⟨_, hc, -⟩; simp [hcall] at hc
    · intro _ _; rw [heq]
  by_cases hv : vk = v
  · subst hv
    have hiff : Tracked vk (vncKeyEvent s e) ↔
        ¬(held s.injected vk (!extended) = true ∨ (vk = 0 ∧ e.down = true)) := by
      rcases hact with heq | ⟨rfl, hdown, heq⟩
      · rw [heq]; exact tracked_key_same _ _ _ _
      · by_cases hshift : vk = vkShift
        · subst hshift
          rw [heq]
          refine ⟨fun _ => ?_, fun _ => (shiftInv_shifted hs).tracked⟩
          rintro (h | ⟨h, -⟩)
          · rw [Bool.not_false, hs.plain] at h
            exact absurd h (by simp)
          · exact absurd h (by decide)
        · rw [heq, tracked_shifted_ne s hshift, hdown]
          exact tracked_key_same _ _ _ _
    refine ⟨?_, ?_, ?_⟩
    · rintro ⟨x, hc, hcross⟩ ht
      obtain rfl : extended = x := by simpa [hcall] using hc
      exact hiff.1 ht hcross
    · rintro ⟨x, hc, hsettle⟩
      obtain rfl : extended = x := by simpa [hcall] using hc
      exact hiff.2 hsettle
    · intro hc hset
      by_cases hcross : held s.injected vk (!extended) = true ∨ (vk = 0 ∧ e.down = true)
      · exact absurd ⟨extended, hcall, hcross⟩ hc
      · exact absurd ⟨extended, hcall, hcross⟩ hset
  · have hkeep : Tracked vk (vncKeyEvent s e) ↔ Tracked vk s := by
      rcases hact with heq | ⟨rfl, -, heq⟩
      · rw [heq]; exact tracked_key_ne s hv _ _
      · rw [heq]
        by_cases hshift : vk = vkShift
        · subst hshift
          exact ⟨fun _ => hs.tracked, fun _ => (shiftInv_shifted hs).tracked⟩
        · rw [tracked_shifted_ne s hshift]
          exact tracked_key_ne s hv _ _
    have hno : ∀ x, calledFor s e ≠ some (vk, x) := by
      intro x hc
      rw [hcall] at hc
      exact hv (Prod.mk.inj (Option.some.inj hc)).1.symm
    exact ⟨fun ⟨x, hc, _⟩ => absurd hc (hno x), fun ⟨x, hc, _⟩ => absurd hc (hno x), fun _ _ => hkeep⟩

/-! ## The end of the session -/

/-- What is held after a key of the table was released. -/
theorem held_releaseKey (s : VncKeys) (v vk : UInt8) (x : Bool) :
    held (vncReleaseKey s v).injected vk x =
      (held s.injected vk x && !(v == vk && s.keysDown vk && s.keysExtended vk == x)) := by
  unfold vncReleaseKey
  by_cases hv : v = vk
  · subst hv
    cases hd : s.keysDown v with
    | false => simp
    | true =>
      rw [if_pos rfl, held_key]
      by_cases hx : s.keysExtended v = x
      · simp [hx]
      · simp [hx]
  · split
    · rw [held_key, if_neg (fun h => hv h.1)]
      simp [hv]
    · simp [hv]

theorem releaseKey_ne (s : VncKeys) {v vk : UInt8} (hv : v ≠ vk) :
    (vncReleaseKey s v).keysDown vk = s.keysDown vk ∧
      (vncReleaseKey s v).keysExtended vk = s.keysExtended vk := by
  unfold vncReleaseKey
  split
  · simp [VncKeys.key, hv.symm]
  · exact ⟨rfl, rfl⟩

theorem releaseKey_same (s : VncKeys) (v : UInt8) : (vncReleaseKey s v).keysDown v = false := by
  unfold vncReleaseKey
  split
  · simp [VncKeys.key]
  · rename_i h
    simpa using h

/-- What is held after the loop. -/
theorem held_releaseKeys (vks : List UInt8) (s : VncKeys) (vk : UInt8) (x : Bool) :
    held (vks.foldl vncReleaseKey s).injected vk x =
      (held s.injected vk x && !(decide (vk ∈ vks) && s.keysDown vk && s.keysExtended vk == x)) := by
  induction vks generalizing s with
  | nil => simp
  | cons v vks ih =>
    rw [List.foldl_cons, ih, held_releaseKey]
    by_cases hv : v = vk
    · subst hv
      simp [releaseKey_same]
    · obtain ⟨hd, hx⟩ := releaseKey_ne s hv
      rw [hd, hx, beq_false_of_ne hv]
      simp [Ne.symm hv]

theorem mem_releaseLoop (vk : UInt8) :
    vk ∈ (List.range 255).map (fun n => UInt8.ofNat (n + 1)) ↔ vk ≠ 0 := by
  simp only [List.mem_map, List.mem_range]
  constructor
  · rintro ⟨n, hn, rfl⟩ h
    have := congrArg UInt8.toNat h
    rw [UInt8.toNat_ofNat'] at this
    simp at this
    omega
  · intro h
    have hpos : vk.toNat ≠ 0 := fun h0 => h (UInt8.toNat_inj.1 h0)
    have := vk.toNat_lt
    refine ⟨vk.toNat - 1, by omega, ?_⟩
    rw [Nat.sub_add_cancel (by omega), UInt8.ofNat_toNat]

/-- **After the release loop a key is up exactly when the table tracked it.** -/
theorem released_iff_tracked (s : VncKeys) :
    (∀ vk extended, Released (vncReleaseAll s).injected vk extended) ↔ ∀ vk, Tracked vk s := by
  refine forall_congr' fun vk => forall_congr' fun x => ?_
  rw [released_iff_held, vncReleaseAll, held_releaseKeys]
  simp only [mem_releaseLoop]
  cases hh : held s.injected vk x with
  | false => simp
  | true => simp [and_assoc]

/-- **VNC keys.** For every sequence of KeyEvent messages and every layout: after the
end of the session each injected press is followed by its release exactly when, for
each virtual key, every event that acted on it while its other key was held (or that
pressed virtual key 0) was followed by one that acted on it otherwise. -/
theorem vnc_keys_released_iff (extended : UInt8 → Bool) (events : List KeyEvent) :
    (∀ vk x, Released (vncReleaseAll (events.foldl vncKeyEvent (.start extended))).injected vk x) ↔
      ∀ vk, Healed (fun s e => some (vncKeyEvent s e)) (Crosses vk) (Settles vk) (.start extended) events := by
  have h₀ : ShiftInv (.start extended) := ⟨rfl, fun _ h => absurd h (by simp [held, VncKeys.start])⟩
  rw [released_iff_tracked]
  refine forall_congr' fun vk => ?_
  refine holds_iff_healed (I := ShiftInv) ?_ ?_ ?_ ?_ h₀
    (fun _ h => absurd h (by simp [held, VncKeys.start])) (exec_total _ _ _)
  · rintro s e _ hs ⟨⟩
    exact shiftInv_step hs e
  · rintro s e _ hs ⟨⟩
    exact (tracked_step hs vk e).1
  · rintro s e _ hs ⟨⟩
    exact (tracked_step hs vk e).2.1
  · rintro s e _ hs ⟨⟩
    exact (tracked_step hs vk e).2.2

/-- Home and the keypad's Home are pressed together. -/
def homeKeys : List KeyEvent := [⟨true, 0xff50, 0xffff, false⟩, ⟨true, 0xff95, 0xffff, false⟩]

/-- The extended Home stays down. -/
theorem home_key_stuck :
    ¬∀ vk x, Released (vncReleaseAll (homeKeys.foldl vncKeyEvent (.start fun _ => false))).injected vk x := by
  intro h
  have hstuck : held (vncReleaseAll (homeKeys.foldl vncKeyEvent (.start fun _ => false))).injected 0x24 true =
      true := by
    decide +kernel
  exact absurd ((released_iff_held _ _ _).1 (h 0x24 true)) (by simp [hstuck])

end V9xRemote
