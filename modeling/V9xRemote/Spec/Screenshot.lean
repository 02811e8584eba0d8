import V9xRemote.Spec.Upload
import V9xRemote.Spec.Files

/-!
# Screenshots (`v9x_capture_screenshot`, `src/guest/screenshot.c`)

One request, on a store of files that `key` reads names into. The transform
`v9x_shotxf_apply` is a parameter: whatever it makes of a capture is written, sent and
summed in the same way. Log lines and the lock around the helper are left out.
-/

namespace V9xRemote

open Bytes

def screenMaxBytes : UInt32 := 16777216
def screenCapture : Bytes := ascii "C:\\V9XREMOTE\\TEMP\\CAPTURE.$$$"
def screenMetadata : Bytes := ascii "C:\\V9XREMOTE\\TEMP\\CAPTURE.DAT"
def screenResponseSize : ℕ := 320

def errorNotEnoughMemory : UInt32 := 8

/-! ## The options -/

/-- `V9xShotOptions`. -/
structure ShotOptions where
  flags : UInt32
  x : UInt32
  y : UInt32
  width : UInt32
  height : UInt32
  scalePercent : UInt32
deriving DecidableEq, Repr

def shotOptionsSize : ℕ := 24
def shotKnownFlags : UInt32 := 3

def shotxfOk : UInt16 := 0
def shotxfBadOptions : UInt16 := 2

/-- `v9x_shot_options_decode`. -/
def shotOptionsDecode (data : Bytes) : Option ShotOptions :=
  if data.length ≠ shotOptionsSize then none
  else some ⟨data.readU32 0, data.readU32 4, data.readU32 8, data.readU32 12, data.readU32 16, data.readU32 20⟩

/-- `v9x_shot_options_active`. -/
def shotOptionsActive (options : ShotOptions) : Bool :=
  options.flags != 0 || (options.width != 0 && options.height != 0) ||
    (options.scalePercent != 0 && options.scalePercent != 100)

structure ShotPlan where
  regionX : UInt32
  regionY : UInt32
  regionWidth : UInt32
  regionHeight : UInt32
  outputWidth : UInt32
  outputHeight : UInt32
deriving DecidableEq, Repr

/-- A side of the output. -/
def shotScaled (region scale : UInt32) : UInt32 :=
  let scaled := (region * scale + 99) / 100
  if scaled = 0 then 1 else scaled

/-- `v9x_shotxf_plan`. -/
def shotxfPlan (options : ShotOptions) (screenWidth screenHeight : UInt32) : Except UInt16 ShotPlan :=
  let scale := if options.scalePercent = 0 then 100 else options.scalePercent
  if options.flags &&& ~~~shotKnownFlags != 0 || scale > 100 || screenWidth == 0 || screenHeight == 0 ||
      screenWidth > 4096 || screenHeight > 4096 then .error shotxfBadOptions
  else if options.width = 0 || options.height = 0 then
    .ok ⟨0, 0, screenWidth, screenHeight, shotScaled screenWidth scale, shotScaled screenHeight scale⟩
  else if options.x ≥ screenWidth || options.y ≥ screenHeight then .error shotxfBadOptions
  else
    let regionWidth := min options.width (screenWidth - options.x)
    let regionHeight := min options.height (screenHeight - options.y)
    .ok ⟨options.x, options.y, regionWidth, regionHeight, shotScaled regionWidth scale, shotScaled regionHeight scale⟩

/-! ## The request -/

def shotOptionsNone : ShotOptions := ⟨0, 0, 0, 0, 0, 0⟩

/-- `v9x_screen_path`. -/
def screenPath (payload : Bytes) : Option (Bytes × ShotOptions) :=
  if payload.length < 3 then none
  else
    let pathLength := (payload.readU16 0).toNat
    if pathLength = 0 || pathLength > 259 then none
    else
      let options :=
        if pathLength + 2 + shotOptionsSize = payload.length then shotOptionsDecode (payload.drop (2 + pathLength))
        else if pathLength + 2 ≠ payload.length then none
        else some shotOptionsNone
      match options with
      | none => none
      | some options =>
        let path := (payload.drop 2).take pathLength
        if path.any fun ch => ch == 0 || ch > 0x7f then none else some (path, options)

/-- `v9x_ascii_path_equal`. -/
def asciiPathEqual (left right : Bytes) : Bool := left.map upper == right.map upper

/-! ## Capturing -/

/-- The image to write, with what the response says of it. -/
structure ScreenImage where
  bytes : Bytes
  width : UInt32
  height : UInt32
  /-- a buffer's length is a DWORD -/
  fits : bytes.length < 2 ^ 32

structure ScreenEnv (K : Type) where
  /-- how the file system reads a name -/
  key : Bytes → K
  key_ne : key screenCapture ≠ key screenMetadata
  /-- `v9x_shotxf_apply` -/
  apply : Bytes → ShotOptions → Except UInt16 ScreenImage

/-- What becomes of the capture helper. -/
inductive HelperRun
  /-- `CreateProcessA` fails -/
  | notStarted (native : UInt32)
  /-- It leaves these at its two files; `native` where it fails or times out. -/
  | ran (capture metadata : Option Bytes) (native : Option UInt32)
deriving DecidableEq, Repr

/-- What the system says to a request, its deletes apart. -/
structure ScreenResults where
  executionActive : Bool
  desktopReady : Bool
  helper : HelperRun
  openMetadata : CallResult
  readMetadata : CallResult
  openCapture : CallResult
  allocImage : Bool
  readCapture : CallResult
  allocShaped : Bool
  allocWork : Bool
  create : CallResult
  write : CallResult
  /-- how many bytes a failing `v9x_write_all` wrote -/
  wrote : ℕ
  flush : CallResult
deriving DecidableEq, Repr

/-- Which of the request's `DeleteFileA` calls the system lets through: those before
the helper, and those of the cleanup. -/
structure ScreenDeletes where
  oldCapture : Bool
  oldMetadata : Bool
  path : Bool
  capture : Bool
  metadata : Bool
deriving DecidableEq, Repr

/-- `native_error` and `shaped_status` at the cleanup. -/
structure ScreenFailure where
  native : UInt32
  shapedStatus : UInt16
deriving DecidableEq, Repr

variable {K : Type} [DecidableEq K]

/-- `v9x_run_screen_helper`. -/
def runScreenHelper (env : ScreenEnv K) (fs : FileStore K Bytes) (helper : HelperRun) (d : ScreenDeletes) :
    FileStore K Bytes × Option UInt32 :=
  let fs := (fs.delete (env.key screenCapture) d.oldCapture).1
  let fs := (FileStore.delete fs (env.key screenMetadata) d.oldMetadata).1
  match helper with
  | .notStarted native => (fs, some native)
  | .ran capture metadata native =>
    (Function.update (Function.update fs (env.key screenCapture) capture) (env.key screenMetadata) metadata,
      native)

/-- A file opened for reading. -/
def openRead (file : Option Bytes) (result : CallResult) : Except UInt32 Bytes :=
  if !result.ok then .error result.error
  else
    match file with
    | some bytes => .ok bytes
    | none => .error errorFileNotFound

/-- Width, height, bits per pixel and size, from the helper's metadata. -/
def readScreenMetadata (r : ScreenResults) (file : Option Bytes) : Except UInt32 (UInt32 × UInt32 × UInt32 × UInt32) :=
  match openRead file r.openMetadata with
  | .error native => .error native
  | .ok metadata =>
    if UInt32.ofNat metadata.length != 20 then .error 0
    else if !r.readMetadata.ok then .error r.readMetadata.error
    else if metadata.readU32 0 != 0x31533956 then .error errorInvalidData
    else
      let width := metadata.readU32 4
      let height := metadata.readU32 8
      let fileBytes := metadata.readU32 16
      if width == 0 || height == 0 || width > 4096 || height > 4096 || fileBytes < 54 ||
          fileBytes > screenMaxBytes + 54 then .error errorInvalidData
      else .ok (width, height, metadata.readU32 12, fileBytes)

theorem take_fits (bytes : Bytes) (n : UInt32) : (bytes.take n.toNat).length < 2 ^ 32 :=
  Nat.lt_of_le_of_lt (List.length_take_le _ _) n.toNat_lt

/-- The helper's image, checked against its metadata. -/
def readScreenCapture (r : ScreenResults) (file : Option Bytes) (width height fileBytes : UInt32) :
    Except UInt32 ScreenImage :=
  match openRead file r.openCapture with
  | .error native => .error native
  | .ok capture =>
    let actualBytes := UInt32.ofNat capture.length
    if actualBytes != fileBytes || actualBytes == 0xffffffff then .error errorInvalidData
    else if !r.allocImage then .error errorNotEnoughMemory
    else if !r.readCapture.ok then .error r.readCapture.error
    else
      let image : Bytes := capture.take fileBytes.toNat
      if image.at' 0 != 66 || image.at' 1 != 77 || image.readU32 2 != fileBytes ||
          image.readU32 18 != width || image.readU32 22 != height then .error errorInvalidData
      else .ok ⟨image, width, height, take_fits _ _⟩

/-- Crop, scale and repack, where the options ask for it. -/
def shapeScreen (env : ScreenEnv K) (r : ScreenResults) (options : ShotOptions) (image : ScreenImage) :
    Except ScreenFailure ScreenImage :=
  if !shotOptionsActive options then .ok image
  else
    match shotxfPlan options image.width image.height with
    | .error status => .error ⟨errorInvalidParameter, status⟩
    | .ok _ =>
      if !r.allocShaped || !r.allocWork then .error ⟨errorNotEnoughMemory, shotxfOk⟩
      else
        match env.apply image.bytes options with
        | .error status => .error ⟨errorInvalidData, status⟩
        | .ok shaped => .ok shaped

/-- From the helper's files to the image to write, with the screen's bits per pixel. -/
def screenImage (env : ScreenEnv K) (r : ScreenResults) (options : ShotOptions) (capture metadata : Option Bytes) :
    Except ScreenFailure (ScreenImage × UInt32) :=
  match readScreenMetadata r metadata with
  | .error native => .error ⟨native, shotxfOk⟩
  | .ok (width, height, sourceBpp, fileBytes) =>
    match readScreenCapture r capture width height fileBytes with
    | .error native => .error ⟨native, shotxfOk⟩
    | .ok image =>
      match shapeScreen env r options image with
      | .error failure => .error failure
      | .ok shaped => .ok (shaped, sourceBpp)

/-! ## The request's run -/

inductive ScreenReply
  | error (status native : UInt32) (detail : String)
  | response (width height sourceBpp fileBytes crc : UInt32) (path : Bytes)
deriving DecidableEq, Repr

/-- The files when the reply is sent, and whether the destination was created. -/
structure ScreenRun (K : Type) where
  fs : FileStore K Bytes
  created : Bool
  reply : ScreenReply

/-- The exits behind `cleanup`. -/
def screenFailed (failure : ScreenFailure) : ScreenReply :=
  if failure.shapedStatus = shotxfBadOptions then
    .error statusInvalidPayload errorInvalidParameter
      "invalid screenshot options (unknown flag, scale over 100 or region off screen)"
  else .error statusIoFailed failure.native "screenshot helper failed"

/-- The deletes of `cleanup`. -/
def screenCleanup (env : ScreenEnv K) (d : ScreenDeletes) (path : Bytes) (success : Bool)
    (fs : FileStore K Bytes) : FileStore K Bytes :=
  let fs := if success then fs else (fs.delete (env.key path) d.path).1
  let fs := (FileStore.delete fs (env.key screenCapture) d.capture).1
  (FileStore.delete fs (env.key screenMetadata) d.metadata).1

/-- The destination written and flushed: its contents, and what failed. -/
def writeScreen (r : ScreenResults) (image path : Bytes) : Bytes × Option ScreenFailure :=
  if !r.write.ok then (image.take r.wrote, some ⟨r.write.error, shotxfOk⟩)
  else if !r.flush.ok then (image, some ⟨r.flush.error, shotxfOk⟩)
  else if 20 + 2 + path.length > screenResponseSize then (image, some ⟨0, shotxfOk⟩)
  else (image, none)

/-- `v9x_capture_screenshot` from the lock on. -/
def captureLocked (env : ScreenEnv K) (fs : FileStore K Bytes) (path : Bytes) (options : ShotOptions)
    (r : ScreenResults) (d : ScreenDeletes) : ScreenRun K :=
  match runScreenHelper env fs r.helper d with
  | (fs, some native) => ⟨screenCleanup env d path false fs, false, screenFailed ⟨native, shotxfOk⟩⟩
  | (fs, none) =>
    match screenImage env r options (fs (env.key screenCapture)) (fs (env.key screenMetadata)) with
    | .error failure => ⟨screenCleanup env d path false fs, false, screenFailed failure⟩
    | .ok (image, sourceBpp) =>
      if !r.create.ok then
        ⟨screenCleanup env d path false fs, false, screenFailed ⟨r.create.error, shotxfOk⟩⟩
      else
        match writeScreen r image.bytes path with
        | (bytes, some failure) =>
          ⟨screenCleanup env d path false (fs.put (env.key path) bytes), true, screenFailed failure⟩
        | (bytes, none) =>
          ⟨screenCleanup env d path true (fs.put (env.key path) bytes), true,
            .response image.width image.height sourceBpp (UInt32.ofNat image.bytes.length)
              (crc32 image.bytes) path⟩

/-- `v9x_capture_screenshot`. -/
def captureScreenshot (env : ScreenEnv K) (fs : FileStore K Bytes) (payload : Bytes) (r : ScreenResults)
    (d : ScreenDeletes) : ScreenRun K :=
  match screenPath payload with
  | none => ⟨fs, false, .error statusInvalidPayload errorInvalidParameter "invalid screenshot path"⟩
  | some (path, options) =>
    if asciiPathEqual path screenCapture || asciiPathEqual path screenMetadata then
      ⟨fs, false, .error statusInvalidPayload errorInvalidParameter "screenshot path is reserved"⟩
    else if r.executionActive then ⟨fs, false, .error statusBusy 0 "execution active"⟩
    else if !r.desktopReady then ⟨fs, false, .error statusBusy 0 "desktop not ready for screenshot"⟩
    else captureLocked env fs path options r d

end V9xRemote
