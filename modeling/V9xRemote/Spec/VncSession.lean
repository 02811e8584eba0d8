import V9xRemote.Spec.VncFrame

/-!
# A session of the VNC server (`vnc_serve`, `src/guest/vnc.c`)

The network thread, which handles messages, hands captures to the worker and sends
updates, and the worker, which reads the screen one `BitBlt` at a time while messages go
on arriving. `vncStep` is one of these; what the screen shows and what the system answers
comes with the step. Every step takes one tick of a clock; the times at which frames are
asked for and captures are handed over stand beside the state.
-/

namespace V9xRemote

open Bytes

/-! ## Messages -/

def vncEncRaw : ℤ := 0
def vncEncCopyRect : ℤ := 1
def vncEncHextile : ℤ := 5
def vncEncZrle : ℤ := 16
def vncEncDesktopSize : ℤ := -223
def vncEncPointerPos : ℤ := -232
def vncEncRichCursor : ℤ := -239

/-- How the tiles of an update are encoded. -/
inductive VncEncoding
  | raw
  | hextile
  | zrle
deriving DecidableEq, Repr

/-- A message of the viewer. -/
inductive VncMessage
  /-- SetPixelFormat -/
  | setPixelFormat (format : Bytes)
  /-- SetEncodings, and whether there is memory for ZRLE -/
  | setEncodings (encodings : List ℤ) (buffers : Bool)
  /-- FramebufferUpdateRequest -/
  | updateRequest (incremental : Bool)
  /-- PointerEvent -/
  | pointer (x y : ℕ)
  /-- KeyEvent or ClientCutText -/
  | other
  /-- a message of an unknown type -/
  | unknown
deriving DecidableEq, Repr

/-! ## The state -/

/-- The shape `vnc_grab_cursor` leaves. -/
structure VncCursor where
  w : ℕ
  h : ℕ
  hotX : ℕ
  hotY : ℕ
  rgb : List UInt32
  mask : List Bool
deriving DecidableEq, Repr

/-- A rectangle of an update. -/
inductive VncUpdateRect
  | copy (copy : VncCapture.Copy)
  | shape (cursor : VncCursor)
  | position (x y : ℤ)
  | tiles (x y width height : ℕ)
  | desktopSize (width height : ℕ)
deriving DecidableEq, Repr

/-- A FramebufferUpdate, with what it is made from: the format and encoding, the reference
frame (`vnc_prev`), and when each of its pixels was read. `full` and `asked` are what the
viewer wanted and when it last asked for a full frame. -/
structure VncUpdate where
  width : ℕ
  height : ℕ
  format : VncFormat
  encoding : VncEncoding
  rects : List VncUpdateRect
  frame : Frame
  time : FrameTimes
  full : Bool
  asked : ℕ

/-- The capture job, and where the worker is in it. -/
inductive VncWorker
  | idle
  /-- handed over -/
  | queued
  /-- reads the whole screen -/
  | full
  /-- reads a row of each band -/
  | sampling (phase band : ℕ)
  /-- looks for tiles that have changed -/
  | comparing (phase : ℕ)
  /-- reads the runs of suspect tiles -/
  | reading (left : List (ℕ × ℕ × ℕ))
  /-- draws or grabs the cursor -/
  | cursor
  | returning (result : ℤ)
  | done (result : ℤ)
deriving DecidableEq, Repr

structure VncState where
  capture : VncCapture
  worker : VncWorker
  format : VncFormat
  encoding : VncEncoding
  useDesktopSize : Bool
  usePointerPos : Bool
  useCopyRect : Bool
  /-- GetCursorInfo is there -/
  hasCursorInfo : Bool
  richCursor : Bool
  cursorReset : Bool
  cursorSerial : ℕ
  cursorSentSerial : ℕ
  cursor : VncCursor
  cursorAt : Option (ℤ × ℤ)
  posSent : ℤ × ℤ
  pointer : ℤ × ℤ
  updateWanted : Bool
  fullWanted : Bool
  copyPending : Option VncCapture.Copy
  foreground : Option (ℕ × VncRect)
  lastForeground : Option (ℕ × VncRect)
  closed : Bool
  sent : List VncUpdate
  clock : ℕ
  /-- when a full frame was last asked for -/
  asked : ℕ
  /-- when the capture was handed over -/
  started : ℕ
  /-- when it read the whole screen at once -/
  fullRead : Option ℕ

namespace VncState

/-! ## The network thread -/

/-- A full frame is to be sent. -/
def wantFull (s : VncState) : VncState := { s with fullWanted := true, asked := s.clock }

/-- The viewer's first of ZRLE and Hextile. -/
def chooseEncoding (buffers : Bool) : List ℤ → VncEncoding
  | [] => .raw
  | encoding :: rest =>
    if encoding = vncEncHextile then .hextile
    else if encoding = vncEncZrle && buffers then .zrle
    else chooseEncoding buffers rest

/-- SetEncodings. -/
def setEncodings (s : VncState) (encodings : List ℤ) (buffers : Bool) : VncState :=
  let rich := encodings.contains vncEncRichCursor && s.hasCursorInfo
  let s := if rich != s.richCursor then { s with richCursor := rich }.wantFull else s
  { s with
    encoding := chooseEncoding buffers encodings
    useDesktopSize := encodings.contains vncEncDesktopSize
    usePointerPos := encodings.contains vncEncPointerPos
    useCopyRect := encodings.contains vncEncCopyRect
    cursorReset := true }

/-- `vnc_pointer_event`, without the mouse. -/
def pointerEvent (s : VncState) (x y : ℕ) : VncState :=
  { s with pointer := (if x ≥ s.capture.width then s.capture.width - 1 else x,
      if y ≥ s.capture.height then s.capture.height - 1 else y) }

/-- `vnc_handle_message`. -/
def handleMessage (s : VncState) : VncMessage → VncState
  | .setPixelFormat format =>
    match vncSetPixelFormat format with
    | none => { s with closed := true }
    | some format => { s with format := format }.wantFull
  | .setEncodings encodings buffers => s.setEncodings encodings buffers
  | .updateRequest incremental =>
    let s := { s with updateWanted := true }
    if incremental then s else s.wantFull
  | .pointer x y => s.pointerEvent x y
  | .other => s
  | .unknown => { s with closed := true }

/-- `vnc_capture_init` with a new screen size. -/
def init (s : VncState) (width height : ℕ) : VncState :=
  { s with
    capture :=
      { s.capture with
        width := width
        height := height
        bits := fun _ _ => 0
        prev := fun _ _ => 0
        captureFull := true
        cursorArea := none
        dirty := fun _ _ => false } }

/-- `vnc_serve` up to its loop, behind what earlier sessions left. -/
def serve (left : VncState) (width height : ℕ) : VncState :=
  { left with
    worker := .idle
    format := vncDefaultFormat
    encoding := .raw
    useDesktopSize := false
    usePointerPos := false
    useCopyRect := false
    richCursor := false
    cursorSentSerial := left.cursorSerial
    posSent := (-1, -1)
    pointer := (-1, -1)
    updateWanted := false
    fullWanted := true
    copyPending := none
    lastForeground := none
    closed := false
    sent := []
    clock := 1
    asked := 0
    started := 0
    fullRead := none }.init width height

/-- `vnc_cursor_shape_due`. -/
def shapeDue (s : VncState) : Bool := s.richCursor && s.cursorSerial != s.cursorSentSerial

/-- `vnc_cursor_pos_due`. -/
def posDue (s : VncState) : Bool :=
  match s.cursorAt with
  | some position => s.usePointerPos && position != s.posSent && position != s.pointer
  | none => false

/-- What `vnc_cursor_pos_due` writes down. -/
def posChecked (s : VncState) : VncState :=
  match s.cursorAt with
  | some position => if s.usePointerPos && position == s.pointer then { s with posSent := position } else s
  | none => s

/-- `vnc_detect_move`. -/
def detectMove (s : VncState) : VncState :=
  let copy := match s.foreground, s.lastForeground with
    | some (window, now), some (last, was) =>
      if s.useCopyRect && window = last then s.capture.findCopy was now else none
    | _, _ => none
  { s with
    capture := match copy with
      | some copy => s.capture.applyCopy copy
      | none => s.capture
    copyPending := copy
    lastForeground := s.foreground }

/-- The rectangles `vnc_send_update` sends. -/
def updateRects (s : VncState) : List VncUpdateRect :=
  (s.copyPending.map .copy).toList ++ (if s.shapeDue then [.shape s.cursor] else []) ++
    (match s.cursorAt with
      | some (x, y) => if s.posDue then [.position x y] else []
      | none => []) ++
    s.capture.dirtyRects.map fun (x, y, width, height) => .tiles x y width height

/-- `vnc_send_update`. -/
def sendUpdate (s : VncState) (full : Bool) : VncState :=
  let update : VncUpdate := ⟨s.capture.width, s.capture.height, s.format, s.encoding, s.updateRects, s.capture.prev,
    s.capture.prevTime, full, s.asked⟩
  { s with
    sent := if s.updateRects = [] then s.sent else s.sent ++ [update]
    copyPending := none
    cursorSentSerial := if s.shapeDue then s.cursorSerial else s.cursorSentSerial
    posSent := if s.posDue then s.cursorAt.getD s.posSent else s.posSent }

/-- `vnc_send_desktop_size`. -/
def sendDesktopSize (s : VncState) : VncState :=
  { s with
    sent := s.sent ++ [⟨s.capture.width, s.capture.height, s.format, s.encoding,
      [.desktopSize s.capture.width s.capture.height], s.capture.prev, s.capture.prevTime, false, s.asked⟩] }

/-- A finished capture, compared with what the viewer has. -/
def compared (s : VncState) : VncState :=
  let moved := if s.fullWanted then { s with lastForeground := s.foreground, copyPending := none } else s.detectMove
  { moved with capture := moved.capture.diff s.fullWanted }.posChecked

/-- It is sent where there is something to send. -/
def takeFrame (s : VncState) : VncState :=
  if !s.compared.capture.anyDirty && s.compared.copyPending.isNone && !s.compared.shapeDue && !s.compared.posDue then
    s.compared
  else { { s.compared with fullWanted := false }.sendUpdate s.fullWanted with updateWanted := false }

/-- The loop's turn with a finished job: `init` is the size after a change of mode, where
the worker gets through. -/
def take (s : VncState) (result : ℤ) (size : Option (ℕ × ℕ)) : VncState :=
  let s := { s with worker := .idle }
  if result < 0 then
    if !s.useDesktopSize then { s with closed := true }
    else
      match size with
      | none => { s with closed := true }
      | some (width, height) => { (s.init width height).sendDesktopSize with updateWanted := false, fullWanted := true }
  else if result = 0 || !s.updateWanted then s
  else s.takeFrame

/-- A capture is handed to the worker. -/
def startCapture (s : VncState) : VncState :=
  { s with
    capture := if s.fullWanted then { s.capture with captureFull := true } else s.capture
    worker := .queued
    started := s.clock
    fullRead := none }

/-! ## The worker -/

/-- `VNC_JOB_CAPTURE` up to the first read: whether the desktop has changed, whether the
screen has the size it had, and whether there is a device context. -/
def begin (s : VncState) (switched sameSize dc : Bool) : VncState :=
  let c := if switched then { s.capture with captureFull := true } else s.capture
  if !sameSize then { s with capture := c, worker := .returning (-1) }
  else if !dc then { s with capture := c, worker := .returning 0 }
  else if c.captureFull then { s with capture := { c with captureFull := false }, worker := .full }
  else
    { s with
      capture := { c with sampleStep := c.sampleStep + 1, suspect := fun _ _ => false }
      worker := .sampling c.phase 0 }

/-- A read that fails: the next capture is a full one. -/
def bltFailed (s : VncState) : VncState :=
  { s with capture := { s.capture with captureFull := true }, worker := .returning 0 }

/-- One `BitBlt` from what the screen shows. -/
def bltStep (s : VncState) (screen : Frame) (ok : Bool) : Option VncState :=
  match s.worker with
  | .full =>
    if !ok then some s.bltFailed
    else some { s with capture := s.capture.readAll s.clock screen, worker := .cursor, fullRead := some s.clock }
  | .sampling phase band =>
    if !ok then some s.bltFailed
    else some
      { s with
        capture := s.capture.blt s.clock screen 0 (s.capture.sampleRow phase band) s.capture.width 1
        worker := if band + 1 < vncTiles s.capture.height then .sampling phase (band + 1) else .comparing phase }
  | .reading ((band, tile, run) :: left) =>
    if !ok then some s.bltFailed
    else some { s with capture := s.capture.readRun s.clock screen band tile run, worker := .reading left }
  | _ => none

/-- The tiles to read, with where the cursor is. -/
def compareStep (s : VncState) (phase : ℕ) (position : Option (ℤ × ℤ)) : VncState :=
  let c := { s.capture with suspect := s.capture.sampled phase }
  let c := if s.richCursor then c else c.suspectCursor (if s.hasCursorInfo then position else none)
  { s with capture := c, worker := .reading c.suspectRuns }

/-- `vnc_grab_cursor`: where the cursor is, whether it is another one, and its shape. -/
def grabCursor (s : VncState) (grab : Option ((ℤ × ℤ) × Bool × VncCursor)) : VncState :=
  if !s.hasCursorInfo then s
  else
    match grab with
    | none => s
    | some (position, changed, cursor) =>
      let s := { s with cursorAt := some position }
      if s.cursorReset || changed then
        { s with cursorReset := false, cursorSerial := s.cursorSerial + 1, cursor := cursor }
      else { s with cursorReset := false }

/-- The end of a capture: the cursor is grabbed, or drawn into the frame (`drawn`). -/
def cursorStep (s : VncState) (grab : Option ((ℤ × ℤ) × Bool × VncCursor)) (drawn : Frame) : VncState :=
  let s := if s.richCursor then { s with capture := { s.capture with cursorArea := none } }.grabCursor grab
    else { s with capture := { s.capture with bits := drawn } }
  { s with worker := .returning 1 }

end VncState

/-! ## Steps -/

inductive VncAct
  /-- a message of the viewer -/
  | message (message : VncMessage)
  /-- the network thread hands a capture over -/
  | start
  /-- it takes a finished one -/
  | take (size : Option (ℕ × ℕ))
  /-- the connection breaks -/
  | fail
  | begin (switched sameSize dc : Bool)
  | blt (screen : Frame) (ok : Bool)
  | compare (position : Option (ℤ × ℤ))
  | cursor (grab : Option ((ℤ × ℤ) × Bool × VncCursor)) (drawn : Frame)
  /-- the foreground window is noted, and the job is done -/
  | finish (foreground : Option (ℕ × VncRect))

/-- One step, before the clock ticks. -/
def vncAct (s : VncState) : VncAct → Option VncState
  | .message message => some (s.handleMessage message)
  | .start => if s.worker = .idle ∧ s.updateWanted then some s.startCapture else none
  | .take size =>
    match s.worker with
    | .done result => some (s.take result size)
    | _ => none
  | .fail => some { s with closed := true }
  | .begin switched sameSize dc => if s.worker = .queued then some (s.begin switched sameSize dc) else none
  | .blt screen ok => s.bltStep screen ok
  | .compare position =>
    match s.worker with
    | .comparing phase => some (s.compareStep phase position)
    | _ => none
  | .cursor grab drawn =>
    match s.worker with
    | .cursor => some (s.cursorStep grab drawn)
    | .reading [] => some (s.cursorStep grab drawn)
    | _ => none
  | .finish foreground =>
    match s.worker with
    | .returning result => some { s with foreground := foreground, worker := .done result }
    | _ => none

/-- **One step of the network thread or the worker.** -/
def vncStep (s : VncState) (act : VncAct) : Option VncState :=
  if s.closed then none else (vncAct s act).map fun s => { s with clock := s.clock + 1 }

end V9xRemote
