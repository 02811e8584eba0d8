import V9xRemote.Spec.Screenshot

/-!
# What a screenshot request leaves at its path

`screenshot_safe_iff`: whichever of its deletes the system lets through, a request
keeps the file that was there when it ends before the destination is created, and
answers only for a file that is there, exactly when `ScreenSpares` holds.
-/

namespace V9xRemote

variable {K : Type} [DecidableEq K]

/-- The request gets as far as the capture helper, for this path. -/
def ScreenAccepted (payload : Bytes) (r : ScreenResults) (path : Bytes) (options : ShotOptions) : Prop :=
  screenPath payload = some (path, options) ∧ asciiPathEqual path screenCapture = false ∧
    asciiPathEqual path screenMetadata = false ∧ r.executionActive = false ∧ r.desktopReady = true

/-- The image the helper's run gives. -/
def helperImage (env : ScreenEnv K) (r : ScreenResults) (options : ShotOptions) :
    Except ScreenFailure (ScreenImage × UInt32) :=
  match r.helper with
  | .notStarted native => .error ⟨native, shotxfOk⟩
  | .ran _ _ (some native) => .error ⟨native, shotxfOk⟩
  | .ran capture metadata none => screenImage env r options capture metadata

/-- The helper brings a usable image and the destination can be created. -/
def ReachesDestination (env : ScreenEnv K) (r : ScreenResults) (options : ShotOptions) : Prop :=
  (∃ image, helperImage env r options = .ok image) ∧ r.create.ok = true

/-- The destination is created, written and flushed. -/
def CompletesDestination (env : ScreenEnv K) (r : ScreenResults) (options : ShotOptions) : Prop :=
  ReachesDestination env r options ∧ r.write.ok = true ∧ r.flush.ok = true

/-- The path names one of the helper's own two files. -/
def NamesExchangeFile (env : ScreenEnv K) (path : Bytes) : Prop :=
  env.key path = env.key screenCapture ∨ env.key path = env.key screenMetadata

/-- An accepted request that does not get to create its destination finds no file
there, and one that completes it does not name an exchange file. -/
def ScreenSpares (env : ScreenEnv K) (fs : FileStore K Bytes) (payload : Bytes) (r : ScreenResults) : Prop :=
  ∀ path options, ScreenAccepted payload r path options →
    (¬ReachesDestination env r options → fs (env.key path) = none) ∧
      (CompletesDestination env r options → ¬NamesExchangeFile env path)

/-- A request that ends before the destination was created leaves a file that was
there unchanged. -/
def KeepsExisting (env : ScreenEnv K) (fs : FileStore K Bytes) (payload : Bytes) (run : ScreenRun K) : Prop :=
  run.created = false → ∀ path options, screenPath payload = some (path, options) →
    ∀ bytes, fs (env.key path) = some bytes → run.fs (env.key path) = some bytes

/-- The file a response speaks of is there, with the size and CRC-32 it states. -/
def AnswersExactly (env : ScreenEnv K) (run : ScreenRun K) : Prop :=
  ∀ width height sourceBpp fileBytes crc path,
    run.reply = .response width height sourceBpp fileBytes crc path →
      ∃ bytes, run.fs (env.key path) = some bytes ∧ bytes.length = fileBytes.toNat ∧ crc32 bytes = crc

variable {env : ScreenEnv K} {fs : FileStore K Bytes} {payload path : Bytes} {options : ShotOptions}
  {r : ScreenResults} {d : ScreenDeletes}

/-! ## The cleanup -/

/-- The exchange files apart, the cleanup of a success leaves every name. -/
theorem screenCleanup_success (h : ¬NamesExchangeFile env path) (other : Bytes) :
    screenCleanup env d other true fs (env.key path) = fs (env.key path) := by
  rw [NamesExchangeFile, not_or] at h
  simp only [screenCleanup, if_true]
  exact (FileStore.delete_ne _ _ h.2).trans (FileStore.delete_ne _ _ h.1)

theorem delete_none {fs : FileStore K Bytes} {n : K} (m : K) (allow : Bool) (h : fs n = none) :
    (fs.delete m allow).1 n = none := by
  rcases fs.delete_cases m allow with hd | ⟨-, -, hd⟩
  · rw [hd]; exact h
  · rw [hd]
    by_cases hm : n = m
    · exact hm ▸ FileStore.erase_same fs n
    · exact (FileStore.erase_ne fs hm).trans h

theorem delete_allowed (fs : FileStore K Bytes) (n : K) : (fs.delete n true).1 n = none := by
  unfold FileStore.delete
  split
  · exact FileStore.erase_same _ _
  · rename_i h
    simpa using h

/-- Every delete goes through. -/
def deletesAllowed : ScreenDeletes := ⟨true, true, true, true, true⟩

/-- The cleanup of a failure takes the file at the path. -/
theorem screenCleanup_failure (fs : FileStore K Bytes) :
    screenCleanup env deletesAllowed path false fs (env.key path) = none :=
  delete_none _ _ (delete_none _ _ (delete_allowed fs (env.key path)))

/-- The cleanup takes the exchange files. -/
theorem screenCleanup_exchange (success : Bool) (h : NamesExchangeFile env path) :
    screenCleanup env deletesAllowed path success fs (env.key path) = none := by
  unfold screenCleanup
  rcases h with h | h
  · rw [h]; exact delete_none _ _ (delete_allowed _ _)
  · rw [h]; exact delete_allowed _ _

/-! ## One request -/

/-- How a request ends that has got to the helper. -/
inductive CaptureEnd (env : ScreenEnv K) (path : Bytes) (options : ShotOptions) (r : ScreenResults)
    (d : ScreenDeletes) (run : ScreenRun K) : Prop
  /-- before its destination is created -/
  | stops (fs : FileStore K Bytes) (failure : ScreenFailure) (hreach : ¬ReachesDestination env r options)
      (hrun : run = ⟨screenCleanup env d path false fs, false, screenFailed failure⟩)
  /-- with its destination created, and an error -/
  | spoils (fs : FileStore K Bytes) (failure : ScreenFailure) (hreach : ReachesDestination env r options)
      (hcomplete : ¬CompletesDestination env r options) (hrun : run = ⟨fs, true, screenFailed failure⟩)
  /-- with the image written -/
  | completes (fs : FileStore K Bytes) (image : ScreenImage) (sourceBpp : UInt32)
      (hcomplete : CompletesDestination env r options)
      (hrun : run = ⟨screenCleanup env d path true (fs.put (env.key path) image.bytes), true,
        .response image.width image.height sourceBpp (UInt32.ofNat image.bytes.length) (crc32 image.bytes) path⟩)

/-- What the helper leaves is what is read. -/
theorem helperImage_of_ok {fs' : FileStore K Bytes} (h : runScreenHelper env fs r.helper d = (fs', none)) :
    helperImage env r options =
      screenImage env r options (fs' (env.key screenCapture)) (fs' (env.key screenMetadata)) := by
  unfold runScreenHelper at h
  unfold helperImage
  cases hr : r.helper with
  | notStarted native => simp [hr] at h
  | ran capture metadata native =>
    simp only [hr, Prod.mk.injEq] at h
    obtain ⟨rfl, rfl⟩ := h
    simp [Function.update_of_ne env.key_ne]

theorem helperImage_of_error {fs' : FileStore K Bytes} {native : UInt32}
    (h : runScreenHelper env fs r.helper d = (fs', some native)) :
    helperImage env r options = .error ⟨native, shotxfOk⟩ := by
  unfold runScreenHelper at h
  unfold helperImage
  cases hr : r.helper with
  | notStarted native' =>
    simp only [hr, Prod.mk.injEq, Option.some.injEq] at h
    rw [h.2]
  | ran capture metadata native' =>
    simp only [hr, Prod.mk.injEq] at h
    obtain ⟨-, rfl⟩ := h
    rfl

/-- A path fits the response. -/
theorem screenPath_length (h : screenPath payload = some (path, options)) : path.length ≤ 259 := by
  unfold screenPath at h
  split at h
  · cases h
  dsimp only at h
  split at h
  · cases h
  rename_i hlen
  split at h
  · cases h
  split at h
  · cases h
  · obtain ⟨rfl, -⟩ := Prod.mk.inj (Option.some.inj h)
    simp only [Bool.or_eq_true, decide_eq_true_eq, not_or, not_lt] at hlen
    exact (List.length_take_le _ _).trans hlen.2

/-- Writing the destination works when its calls do. -/
theorem writeScreen_cases (r : ScreenResults) (image : Bytes) (hlen : path.length ≤ 259) :
    (∃ bytes failure, writeScreen r image path = (bytes, some failure) ∧ ¬(r.write.ok = true ∧ r.flush.ok = true)) ∨
      (writeScreen r image path = (image, none) ∧ r.write.ok = true ∧ r.flush.ok = true) := by
  unfold writeScreen
  by_cases hwrite : r.write.ok = true
  · by_cases hflush : r.flush.ok = true
    · right
      have hfits : ¬20 + 2 + path.length > screenResponseSize := by
        have : screenResponseSize = 320 := rfl
        omega
      simp [hwrite, hflush, hfits]
    · left
      simp [hwrite, hflush]
  · left
    simp [hwrite]

theorem captureLocked_end (fs : FileStore K Bytes) (d : ScreenDeletes) (hlen : path.length ≤ 259) :
    CaptureEnd env path options r d (captureLocked env fs path options r d) := by
  unfold captureLocked
  split
  · rename_i fs' native hhelper
    refine .stops fs' _ ?_ rfl
    rintro ⟨⟨image, himage⟩, -⟩
    rw [helperImage_of_error hhelper] at himage
    cases himage
  rename_i fs' hhelper
  have himage : helperImage env r options =
      screenImage env r options (fs' (env.key screenCapture)) (fs' (env.key screenMetadata)) :=
    helperImage_of_ok hhelper
  split
  · rename_i failure hfail
    refine .stops fs' failure ?_ rfl
    rintro ⟨⟨image, hok⟩, -⟩
    rw [himage, hfail] at hok
    cases hok
  rename_i image sourceBpp hok
  split
  · rename_i hcreate
    refine .stops fs' _ ?_ rfl
    rintro ⟨-, h⟩
    simp [h] at hcreate
  rename_i hcreate
  have hreach : ReachesDestination env r options := ⟨⟨_, himage.trans hok⟩, by simpa using hcreate⟩
  rcases writeScreen_cases r image.bytes hlen with ⟨bytes, failure, hw, hnot⟩ | ⟨hw, hdone⟩
  · rw [hw]
    exact .spoils _ failure hreach (fun h => hnot h.2) rfl
  · rw [hw]
    exact .completes fs' image sourceBpp ⟨hreach, hdone⟩ rfl

theorem screenFailed_ne (failure : ScreenFailure) (width height sourceBpp fileBytes crc : UInt32) (path : Bytes) :
    screenFailed failure ≠ .response width height sourceBpp fileBytes crc path := by
  unfold screenFailed
  split <;> exact ScreenReply.noConfusion

/-- **A request ends before the helper and changes nothing, or is accepted.** -/
theorem captureScreenshot_cases (env : ScreenEnv K) (fs : FileStore K Bytes) (payload : Bytes) (r : ScreenResults)
    (d : ScreenDeletes) :
    ((∃ status native detail, captureScreenshot env fs payload r d = ⟨fs, false, .error status native detail⟩) ∧
        ∀ path options, ¬ScreenAccepted payload r path options) ∨
      ∃ path options, ScreenAccepted payload r path options ∧
        captureScreenshot env fs payload r d = captureLocked env fs path options r d := by
  unfold captureScreenshot
  cases hpath : screenPath payload with
  | none => exact Or.inl ⟨⟨_, _, _, rfl⟩, fun path options h => absurd (hpath.symm.trans h.1) (by simp)⟩
  | some request =>
    obtain ⟨path, options⟩ := request
    have hsame : ∀ path' options', ScreenAccepted payload r path' options' → path' = path := fun path' options' h =>
      (Prod.mk.inj (Option.some.inj (h.1.symm.trans hpath))).1
    by_cases hreserved : (asciiPathEqual path screenCapture || asciiPathEqual path screenMetadata) = true
    · refine Or.inl ⟨⟨_, _, _, if_pos hreserved⟩, fun path' options' h => ?_⟩
      obtain rfl := hsame path' options' h
      simp [h.2.1, h.2.2.1] at hreserved
    by_cases hactive : r.executionActive = true
    · refine Or.inl ⟨⟨statusBusy, 0, "execution active", by simp [hreserved, hactive]⟩, fun path' options' h => ?_⟩
      simp [h.2.2.2.1] at hactive
    by_cases hready : r.desktopReady = true
    · refine Or.inr ⟨path, options, ⟨hpath, ?_, ?_, ?_, hready⟩, ?_⟩
      · simp only [Bool.or_eq_true, not_or, Bool.not_eq_true] at hreserved; exact hreserved.1
      · simp only [Bool.or_eq_true, not_or, Bool.not_eq_true] at hreserved; exact hreserved.2
      · simpa using hactive
      · simp [hreserved, hactive, hready]
    · refine Or.inl ⟨⟨statusBusy, 0, "desktop not ready for screenshot", by simp [hreserved, hactive, hready]⟩,
        fun path' options' h => ?_⟩
      exact hready h.2.2.2.2

/-- **A screenshot's destination.** For every request and everything the helper and the
file system do: whichever deletes go through, a file that was there is kept when the
destination is not created, and a response speaks of a file that is there, exactly
when `ScreenSpares` holds. -/
theorem screenshot_safe_iff (env : ScreenEnv K) (fs : FileStore K Bytes) (payload : Bytes) (r : ScreenResults) :
    (∀ d, KeepsExisting env fs payload (captureScreenshot env fs payload r d) ∧
        AnswersExactly env (captureScreenshot env fs payload r d)) ↔
      ScreenSpares env fs payload r := by
  constructor
  · intro hsafe path options hacc
    obtain ⟨hkeeps, hanswers⟩ := hsafe deletesAllowed
    rcases captureScreenshot_cases env fs payload r deletesAllowed with ⟨-, hnot⟩ | ⟨path', options', hacc', hrun⟩
    · exact absurd hacc (hnot path options)
    obtain ⟨rfl, rfl⟩ := Prod.mk.inj (Option.some.inj (hacc.1.symm.trans hacc'.1))
    rw [hrun] at hkeeps hanswers
    rcases captureLocked_end fs deletesAllowed (screenPath_length hacc.1) with
      ⟨fs', failure, hreach, hend⟩ | ⟨fs', failure, hreach, hcomplete, hend⟩ | ⟨fs', image, sourceBpp, hcomplete, hend⟩
    · refine ⟨fun _ => ?_, fun hcomplete => absurd hcomplete.1 hreach⟩
      rw [hend] at hkeeps
      cases hfile : fs (env.key path) with
      | none => rfl
      | some bytes =>
        -- the cleanup has deleted it
        have hkept := hkeeps rfl path options hacc.1 bytes hfile
        exact absurd (screenCleanup_failure fs' |>.symm.trans hkept) (by simp)
    · exact ⟨fun hnot => absurd hreach hnot, fun h => absurd h hcomplete⟩
    · refine ⟨fun hnot => absurd hcomplete.1 hnot, fun _ hexchange => ?_⟩
      rw [hend] at hanswers
      obtain ⟨bytes, hfile, -⟩ := hanswers _ _ _ _ _ _ rfl
      exact absurd ((screenCleanup_exchange true hexchange).symm.trans hfile) (by simp)
  · intro hspares d
    rcases captureScreenshot_cases env fs payload r d with ⟨⟨status, native, detail, hrun⟩, -⟩ | ⟨path, options, hacc, hrun⟩
    · rw [hrun]
      exact ⟨fun _ _ _ _ _ h => h, fun _ _ _ _ _ _ h => by cases h⟩
    obtain ⟨hfree, hplain⟩ := hspares path options hacc
    rw [hrun]
    rcases captureLocked_end fs d (screenPath_length hacc.1) with
      ⟨fs', failure, hreach, hend⟩ | ⟨fs', failure, hreach, hcomplete, hend⟩ | ⟨fs', image, sourceBpp, hcomplete, hend⟩
    · rw [hend]
      refine ⟨?_, fun _ _ _ _ _ _ h => absurd h (screenFailed_ne _ _ _ _ _ _ _)⟩
      rintro - path' options' hpath' bytes hfile
      obtain ⟨rfl, rfl⟩ := Prod.mk.inj (Option.some.inj (hacc.1.symm.trans hpath'))
      exact absurd ((hfree hreach).symm.trans hfile) (by simp)
    · rw [hend]
      exact ⟨fun h => Bool.noConfusion h, fun _ _ _ _ _ _ h => absurd h (screenFailed_ne _ _ _ _ _ _ _)⟩
    · rw [hend]
      refine ⟨fun h => Bool.noConfusion h, ?_⟩
      intro width height bpp fileBytes crc path' hreply
      cases hreply
      refine ⟨image.bytes, ?_, ?_, rfl⟩
      · exact (screenCleanup_success (hplain hcomplete) path).trans (FileStore.put_same _ _ _)
      · rw [UInt32.toNat_ofNat', Nat.mod_eq_of_lt image.fits]

/-! ## A destroyed file and a missing one -/

/-- Win32's names, and a transform that is not asked for. -/
def demoScreenEnv : ScreenEnv Bytes where
  key := winKey
  key_ne := by decide
  apply _ _ := .error shotxfBadOptions

/-- A screen of one pixel. -/
def demoBmp : Bytes :=
  [66, 77] ++ Bytes.writeU32 58 ++ [0, 0, 0, 0] ++ Bytes.writeU32 54 ++ Bytes.writeU32 40 ++ Bytes.writeU32 1 ++
    Bytes.writeU32 1 ++ [1, 0, 24, 0] ++ List.replicate 24 0 ++ [10, 20, 30, 0]

def demoScreenMetadata : Bytes :=
  Bytes.writeU32 0x31533956 ++ Bytes.writeU32 1 ++ Bytes.writeU32 1 ++ Bytes.writeU32 24 ++ Bytes.writeU32 58

/-- Every call works. -/
def demoScreenResults : ScreenResults where
  executionActive := false
  desktopReady := true
  helper := .ran (some demoBmp) (some demoScreenMetadata) none
  openMetadata := ⟨true, 0⟩
  readMetadata := ⟨true, 0⟩
  openCapture := ⟨true, 0⟩
  allocImage := true
  readCapture := ⟨true, 0⟩
  allocShaped := true
  allocWork := true
  create := ⟨true, 0⟩
  write := ⟨true, 0⟩
  wrote := 0
  flush := ⟨true, 0⟩

def screenPayload (path : Bytes) : Bytes := [UInt8.ofNat path.length, 0] ++ path

def demoFiles : FileStore Bytes Bytes :=
  FileStore.put (fun _ => none) (winKey (Bytes.ascii "C:\\A.BMP")) (Bytes.ascii "mine")

/-- A helper that cannot be started costs the file at the path; a path with forward
slashes to the helper's metadata is answered for a file that is gone. -/
theorem screenshot_destination_lost :
    (¬∀ payload r d, KeepsExisting demoScreenEnv demoFiles payload (captureScreenshot demoScreenEnv demoFiles payload r d)) ∧
      ¬∀ payload r d, AnswersExactly demoScreenEnv (captureScreenshot demoScreenEnv demoFiles payload r d) := by
  constructor
  · intro h
    have hrun := h (screenPayload (Bytes.ascii "C:\\A.BMP")) { demoScreenResults with helper := .notStarted 2 }
      deletesAllowed (by decide) (Bytes.ascii "C:\\A.BMP") shotOptionsNone (by decide) (Bytes.ascii "mine") (by decide)
    exact absurd hrun (by decide)
  · intro h
    obtain ⟨bytes, hfile, -⟩ := h (screenPayload (Bytes.ascii "C:/V9XREMOTE/TEMP/CAPTURE.DAT")) demoScreenResults
      deletesAllowed 1 1 24 58 (crc32 demoBmp) (Bytes.ascii "C:/V9XREMOTE/TEMP/CAPTURE.DAT") (by decide +kernel)
    have hgone : (captureScreenshot demoScreenEnv demoFiles (screenPayload (Bytes.ascii "C:/V9XREMOTE/TEMP/CAPTURE.DAT"))
        demoScreenResults deletesAllowed).fs (winKey (Bytes.ascii "C:/V9XREMOTE/TEMP/CAPTURE.DAT")) = none := by
      decide +kernel
    exact absurd (hgone.symm.trans hfile) (by simp)

end V9xRemote
