import Mathlib.Data.List.Flatten
import V9xRemote.Lib.InPlace
import V9xRemote.Proof.VncFull

/-!
# Copies of moved windows

`vnc_detect_move` moves the pixels of a window inside `vnc_prev`, row by row, and the
viewer is told to copy the rectangle as it stood. The order of the rows and of the pixels
in a row makes the two the same (`applyCopy_moved`); the tiles of the update are all that
then differs from the frame the update is made from (`copyRect_exact`).
-/

namespace V9xRemote

open InPlace

variable {s s' : VncState} {copy : VncCapture.Copy}

/-! ## The order of a copy -/

/-- Where a pixel of the copy goes, and where it comes from. -/
def VncCapture.Copy.places (copy : VncCapture.Copy) (p : ℕ × ℕ) : Move (ℕ × ℕ) :=
  ((copy.y + p.1, copy.x + p.2), (copy.srcY + p.1, copy.srcX + p.2))

theorem foldl_move {α : Type} (copy : VncCapture.Copy) (order : List (ℕ × ℕ)) (frame : ℕ → ℕ → α) :
    Function.uncurry (order.foldl copy.move frame) = moveAll (order.map copy.places) (Function.uncurry frame) := by
  induction order generalizing frame with
  | nil => rfl
  | cons p rest ih =>
    have hmove : Function.uncurry (copy.move frame p) = InPlace.move (Function.uncurry frame) (copy.places p) := by
      funext q
      simp only [Function.uncurry, VncCapture.Copy.move, InPlace.move, Function.update_apply, VncCapture.Copy.places,
        Prod.ext_iff]
    rw [List.foldl_cons, ih, hmove]
    rfl

/-- No pixel is written twice, nor before it is read: rows are moved from the side the
window moves towards, and so are the pixels of a row that stays where it is. -/
theorem order_apart (copy : VncCapture.Copy) : (copy.order.map copy.places).Pairwise Apart := by
  rw [List.pairwise_map]
  unfold VncCapture.Copy.order
  dsimp only
  refine List.pairwise_flatMap.2 ⟨fun row _ => ?_, ?_⟩
  · rw [List.pairwise_map]
    split
    · refine List.pairwise_lt_range.imp fun hlt => ?_
      simp only [Apart, VncCapture.Copy.places, ne_eq, Prod.mk.injEq]
      omega
    · refine (List.pairwise_reverse.2 List.pairwise_lt_range).imp fun hlt => ?_
      simp only [Apart, VncCapture.Copy.places, ne_eq, Prod.mk.injEq]
      omega
  · -- whole rows: only the row numbers matter
    have hrows : ∀ {i j : ℕ}, copy.y + i ≠ copy.y + j → copy.y + i ≠ copy.srcY + j →
        ∀ columns : List ℕ, ∀ p ∈ columns.map fun column => (i, column), ∀ q ∈ columns.map fun column => (j, column),
          Apart (copy.places p) (copy.places q) := by
      intro i j hne hsrc columns p hp q hq
      obtain ⟨_, -, rfl⟩ := List.mem_map.1 hp
      obtain ⟨_, -, rfl⟩ := List.mem_map.1 hq
      exact ⟨fun h => hne (congrArg Prod.fst h), fun h => hsrc (congrArg Prod.fst h)⟩
    generalize (if copy.y < copy.srcY ∨ (copy.y = copy.srcY ∧ copy.x < copy.srcX) then List.range copy.w
      else (List.range copy.w).reverse) = columns
    split
    · refine (List.pairwise_reverse.2 List.pairwise_lt_range).imp fun hlt => hrows ?_ ?_ columns <;> omega
    · refine List.pairwise_lt_range.imp fun hlt => hrows ?_ ?_ columns <;> omega

theorem mem_order {row column : ℕ} : (row, column) ∈ copy.order ↔ row < copy.h ∧ column < copy.w := by
  unfold VncCapture.Copy.order
  dsimp only
  split <;> split <;> simp [List.mem_flatMap]

/-- **A pixel of the target is the one its source had before.** -/
theorem applyCopy_moved (c : VncCapture) (copy : VncCapture.Copy) {row column : ℕ} (hrow : row < copy.h)
    (hcolumn : column < copy.w) :
    (c.applyCopy copy).prev (copy.y + row) (copy.x + column) = c.prev (copy.srcY + row) (copy.srcX + column) := by
  have hmem : copy.places (row, column) ∈ copy.order.map copy.places :=
    List.mem_map.2 ⟨_, mem_order.2 ⟨hrow, hcolumn⟩, rfl⟩
  have hmoved : moveAll _ (Function.uncurry c.prev) _ = _ := moveAll_moved (order_apart copy) hmem
  rw [← foldl_move] at hmoved
  exact hmoved

/-- The other pixels are kept. -/
theorem applyCopy_kept (c : VncCapture) (copy : VncCapture.Copy) {row column : ℕ}
    (hout : ¬InRect row column (copy.x, copy.y, copy.w, copy.h)) :
    (c.applyCopy copy).prev row column = c.prev row column := by
  have hother : ∀ m ∈ copy.order.map copy.places, m.1 ≠ (row, column) := by
    intro m hm heq
    obtain ⟨⟨i, j⟩, hp, rfl⟩ := List.mem_map.1 hm
    obtain ⟨hi, hj⟩ := mem_order.1 hp
    obtain ⟨rfl, rfl⟩ := Prod.mk.inj heq
    refine hout ⟨Nat.le_add_right _ _, ?_, Nat.le_add_right _ _, ?_⟩ <;> dsimp only <;> omega
  have hkept : moveAll _ (Function.uncurry c.prev) _ = _ := moveAll_other hother
  rw [← foldl_move] at hkept
  exact hkept

/-! ## Copies that are found -/

/-- What a copy has to be for a viewer that shows `before` to show `after` behind it: inside
the screen at both ends, and made as if all at once. -/
structure CopyExact (width height : ℕ) (copy : VncCapture.Copy) (before after : Frame) : Prop where
  target : copy.x + copy.w ≤ width ∧ copy.y + copy.h ≤ height
  source : copy.srcX + copy.w ≤ width ∧ copy.srcY + copy.h ≤ height
  moved : ∀ row < copy.h, ∀ column < copy.w,
    after (copy.y + row) (copy.x + column) = before (copy.srcY + row) (copy.srcX + column)
  kept : ∀ row column, ¬InRect row column (copy.x, copy.y, copy.w, copy.h) → after row column = before row column

/-- **Both ends of a copy lie in the screen**, wherever the window was and is. -/
theorem findCopy_inside {c : VncCapture} {was now : VncRect} (h : c.findCopy was now = some copy) :
    (copy.x + copy.w ≤ c.width ∧ copy.y + copy.h ≤ c.height) ∧
      copy.srcX + copy.w ≤ c.width ∧ copy.srcY + copy.h ≤ c.height := by
  unfold VncCapture.findCopy at h
  dsimp only at h
  split at h
  · rename_i hfound
    obtain ⟨-, -, -, hw, hh⟩ := hfound
    unfold vncCopyMin at hw hh
    obtain rfl := Option.some.inj h
    dsimp only
    refine ⟨⟨?_, ?_⟩, ?_, ?_⟩ <;> omega
  · cases h

/-- What `vnc_detect_move` leaves where it finds a copy. -/
theorem detectMove_copy (h : s.detectMove.copyPending = some copy) :
    s.detectMove.capture = s.capture.applyCopy copy ∧ ∃ was now, s.capture.findCopy was now = some copy := by
  unfold VncState.detectMove at h ⊢
  dsimp only at h ⊢
  rw [h]
  refine ⟨rfl, ?_⟩
  split at h
  · rename_i was now _ _
    split at h
    · exact ⟨_, _, h⟩
    · cases h
  · cases h

theorem detectMove_exact (h : s.detectMove.copyPending = some copy) :
    CopyExact s.capture.width s.capture.height copy s.capture.prev s.detectMove.capture.prev := by
  obtain ⟨hcapture, was, now, hfound⟩ := detectMove_copy h
  obtain ⟨htarget, hsource⟩ := findCopy_inside hfound
  rw [hcapture]
  exact ⟨htarget, hsource, fun _ hrow _ hcolumn => applyCopy_moved _ _ hrow hcolumn,
    fun _ _ hout => applyCopy_kept _ _ hout⟩

/-! ## Copies that are sent -/

/-- `vnc_diff` changes only pixels of the tiles it marks. -/
theorem diff_kept (c : VncCapture) (all : Bool) {row column : ℕ} (hrow : row < c.height) (hcolumn : column < c.width)
    (hclean : (c.diff all).dirty (row / vncTile) (column / vncTile) = false) :
    (c.diff all).prev row column = c.prev row column := by
  unfold VncCapture.diff at hclean ⊢
  dsimp only at hclean ⊢
  rw [if_pos ⟨div_tile_lt hrow, div_tile_lt hcolumn⟩] at hclean
  rw [hclean, Bool.and_false]
  rfl

/-- A copy that is pending behind the comparison was found by it. -/
theorem compared_copy (h : s.compared.copyPending = some copy) :
    s.detectMove.copyPending = some copy ∧ s.compared.capture = s.detectMove.capture.diff false := by
  have hchecked : ∀ t : VncState, t.posChecked.copyPending = t.copyPending ∧ t.posChecked.capture = t.capture := by
    intro t
    unfold VncState.posChecked
    split
    · split <;> exact ⟨rfl, rfl⟩
    · exact ⟨rfl, rfl⟩
  unfold VncState.compared at h ⊢
  dsimp only at h ⊢
  rw [(hchecked _).1] at h
  rw [(hchecked _).2]
  cases hfull : s.fullWanted with
  | true =>
    rw [hfull] at h
    cases h
  | false =>
    rw [hfull] at h
    exact ⟨h, rfl⟩

/-- Only a step that takes a finished capture sends anything. -/
theorem act_sent {act : VncAct} (h : vncAct s act = some s') :
    s'.sent = s.sent ∨ ∃ size result, act = .take size ∧ s.worker = .done result ∧ s' = s.take result size := by
  cases act with
  | message message =>
    obtain rfl := Option.some.inj h
    exact Or.inl (message_effect s message).sent
  | start =>
    simp only [vncAct] at h
    split at h
    · exact Or.inl (Option.some.inj h ▸ rfl)
    · cases h
  | take size =>
    simp only [vncAct] at h
    split at h
    · rename_i result hworker
      exact Or.inr ⟨size, result, rfl, hworker, (Option.some.inj h).symm⟩
    · cases h
  | fail => exact Or.inl (Option.some.inj h ▸ rfl)
  | begin switched sameSize dc =>
    simp only [vncAct] at h
    split at h
    · obtain rfl := Option.some.inj h
      unfold VncState.begin
      dsimp only
      split_ifs <;> exact Or.inl rfl
    · cases h
  | blt screen ok =>
    simp only [vncAct, VncState.bltStep] at h
    split at h
    · split at h <;> exact Or.inl (Option.some.inj h ▸ rfl)
    · split at h <;> exact Or.inl (Option.some.inj h ▸ rfl)
    · split at h <;> exact Or.inl (Option.some.inj h ▸ rfl)
    · cases h
  | compare position =>
    simp only [vncAct] at h
    split at h
    · exact Or.inl (Option.some.inj h ▸ rfl)
    · cases h
  | cursor grab drawn =>
    simp only [vncAct] at h
    split at h
    · exact Or.inl (Option.some.inj h ▸ (cursorStep_same s grab drawn).2.2.2.1)
    · exact Or.inl (Option.some.inj h ▸ (cursorStep_same s grab drawn).2.2.2.1)
    · cases h
  | finish foreground =>
    simp only [vncAct] at h
    split at h
    · exact Or.inl (Option.some.inj h ▸ rfl)
    · cases h

theorem sendUpdate_sent (s : VncState) (full : Bool) :
    (s.sendUpdate full).sent = s.sent ∨
      ∃ update : VncUpdate, (s.sendUpdate full).sent = s.sent ++ [update] ∧ update.rects = s.updateRects ∧
        update.frame = s.capture.prev := by
  unfold VncState.sendUpdate
  dsimp only
  split
  · exact Or.inl rfl
  · exact Or.inr ⟨_, rfl, rfl, rfl⟩

/-- What a finished capture sends: the new screen size, or an update of the comparison. -/
theorem take_sent (s : VncState) (result : ℤ) (size : Option (ℕ × ℕ)) :
    (s.take result size).sent = s.sent ∨
      ∃ update : VncUpdate, (s.take result size).sent = s.sent ++ [update] ∧
        ((∃ width height, update.rects = [.desktopSize width height]) ∨
          ∃ t : VncState, t.detectMove.copyPending = s.detectMove.copyPending ∧
            t.detectMove.capture = s.detectMove.capture ∧
            update.rects = t.compared.updateRects ∧ update.frame = t.compared.capture.prev) := by
  unfold VncState.take
  dsimp only
  split
  · split
    · exact Or.inl rfl
    split
    · exact Or.inl rfl
    · exact Or.inr ⟨_, rfl, Or.inl ⟨_, _, rfl⟩⟩
  split
  · exact Or.inl rfl
  unfold VncState.takeFrame
  -- the job is over before the comparison begins
  have hidle : ({ s with worker := .idle } : VncState).compared.sent = s.sent := (compared_same _).1
  split
  · exact Or.inl hidle
  · rcases sendUpdate_sent { ({ s with worker := .idle } : VncState).compared with fullWanted := false }
      ({ s with worker := .idle } : VncState).fullWanted with hsame | ⟨update, hsent, hrects, hframe⟩
    · exact Or.inl (hsame.trans hidle)
    · refine Or.inr ⟨update, hsent.trans (congrArg (· ++ [update]) hidle), Or.inr ⟨{ s with worker := .idle }, ?_⟩⟩
      exact ⟨rfl, rfl, hrects, hframe⟩

/-- The copy of an update is the one that is pending. -/
theorem pending_of_mem (h : .copy copy ∈ s.updateRects) : s.copyPending = some copy := by
  unfold VncState.updateRects at h
  rcases List.mem_append.1 h with h | h
  · rcases List.mem_append.1 h with h | h
    · rcases List.mem_append.1 h with h | h
      · obtain ⟨pending, hpending, heq⟩ := Option.map_eq_some_iff.1 (Option.mem_toList.1 h)
        rw [VncUpdateRect.copy.inj heq] at hpending
        exact hpending
      · split at h
        · cases List.mem_singleton.1 h
        · cases h
    · split at h
      · split at h
        · cases List.mem_singleton.1 h
        · cases h
      · cases h
  · obtain ⟨_, -, heq⟩ := List.mem_map.1 h
    cases heq

theorem tiles_mem {rect : ℕ × ℕ × ℕ × ℕ} (h : rect ∈ s.capture.dirtyRects) :
    .tiles rect.1 rect.2.1 rect.2.2.1 rect.2.2.2 ∈ s.updateRects :=
  List.mem_append_right _ (List.mem_map.2 ⟨rect, h, rfl⟩)

/-- **Every CopyRect is exact.** An update that carries one is made by a comparison that
moved the pixels of the viewer's frame the way the viewer will; where the update sends no
tiles, the frame it is made from is what the viewer then has. -/
theorem copyRect_exact {act : VncAct} {update : VncUpdate} (h : vncStep s act = some s')
    (hsent : s'.sent = s.sent ++ [update]) (hcopy : .copy copy ∈ update.rects) :
    CopyExact s.capture.width s.capture.height copy s.capture.prev s.detectMove.capture.prev ∧
      ∀ row < s.capture.height, ∀ column < s.capture.width,
        (∀ x y width height, .tiles x y width height ∈ update.rects → ¬InRect row column (x, y, width, height)) →
          update.frame row column = s.detectMove.capture.prev row column := by
  unfold vncStep at h
  split at h
  · cases h
  obtain ⟨t, ht, rfl⟩ := Option.map_eq_some_iff.1 h
  have hsent : t.sent = s.sent ++ [update] := hsent
  have hsame : t.sent ≠ s.sent := fun hkept =>
    List.cons_ne_nil update [] (List.self_eq_append_right.1 (hkept.symm.trans hsent))
  obtain ⟨size, result, rfl, -, rfl⟩ := (act_sent ht).resolve_left hsame
  obtain ⟨sent, hlast, hmade⟩ := (take_sent s result size).resolve_left hsame
  obtain rfl : sent = update := List.singleton_inj.1 (List.append_cancel_left (hlast.symm.trans hsent))
  obtain ⟨u, hpending, hcapture, hrects, hframe⟩ := hmade.resolve_left fun ⟨_, _, hsize⟩ => by
    rw [hsize] at hcopy
    cases List.mem_singleton.1 hcopy
  rw [hrects] at hcopy
  obtain ⟨hfound, hdiff⟩ := compared_copy (pending_of_mem hcopy)
  have hfound := hpending.symm.trans hfound
  rw [hcapture] at hdiff
  refine ⟨detectMove_exact hfound, fun row hrow column hcolumn hout => ?_⟩
  have hsize : s.detectMove.capture.height = s.capture.height ∧ s.detectMove.capture.width = s.capture.width := by
    rw [(detectMove_copy hfound).1]
    exact ⟨rfl, rfl⟩
  have hrow : row < s.detectMove.capture.height := hsize.1.symm ▸ hrow
  have hcolumn : column < s.detectMove.capture.width := hsize.2.symm ▸ hcolumn
  rw [hframe, hdiff]
  refine diff_kept _ false hrow hcolumn (Bool.eq_false_iff.2 fun hdirty => ?_)
  -- a dirty tile is sent
  obtain ⟨rect, hrect, hin⟩ := (mem_dirtyRects_iff (c := s.detectMove.capture.diff false) hrow hcolumn).2 hdirty
  rw [← hdiff] at hrect
  exact hout _ _ _ _ (hrects ▸ tiles_mem hrect) hin

/-! ## A window that moves -/

/-- A window of 40 by 32 pixels has moved 8 to the right, and a capture has read nothing new. -/
def movedWindow : VncState :=
  { vncNoSession with
    capture :=
      { vncNoSession.capture with
        width := 64
        height := 32
        prev := fun _ column => column.toUInt32 }
    worker := .done 1
    useCopyRect := true
    updateWanted := true
    foreground := some (1, ⟨8, 0, 48, 32⟩)
    lastForeground := some (1, ⟨0, 0, 40, 32⟩) }

/-- The pixels of the window lie over one another before and behind the move. -/
theorem copyRect_exact_demo : ∃ s' update, vncStep movedWindow (.take none) = some s' ∧ s'.sent = [update] ∧
    update.rects = [.copy ⟨8, 0, 40, 32, 0, 0⟩] ∧
    CopyExact 64 32 ⟨8, 0, 40, 32, 0, 0⟩ movedWindow.capture.prev movedWindow.detectMove.capture.prev := by
  have hrun : (vncStep movedWindow (.take none)).map (fun s => s.sent.map (·.rects)) =
      some [[.copy ⟨8, 0, 40, 32, 0, 0⟩]] := by
    decide
  obtain ⟨s', hs', hsent⟩ := Option.map_eq_some_iff.1 hrun
  obtain ⟨update, hupdate, hrects⟩ := List.map_eq_singleton_iff.1 hsent
  have hcopy : .copy ⟨8, 0, 40, 32, 0, 0⟩ ∈ update.rects := hrects ▸ List.mem_singleton_self _
  exact ⟨s', update, hs', hupdate, hrects, (copyRect_exact hs' hupdate hcopy).1⟩

end V9xRemote
