import V9xRemote.Lib.Deflate
import V9xRemote.Spec.VncDeflate
import V9xRemote.Spec.VncSession
import V9xRemote.Spec.VncZrle

/-!
# The VNC server and a viewer (`src/guest/vnc.c`)

The bytes of a FramebufferUpdate, with the encoders and the one zlib stream of the
connection, and a viewer that reads them by the rules of RFB. `linkStep` is a step of the
session with what it writes read at once.
-/

namespace V9xRemote

open Bytes Raster

/-! ## What the server writes -/

/-- `vnc_put16`. -/
def vncPut16 (value : ℤ) : Bytes := [UInt8.ofNat (value / 2 ^ 8 % 2 ^ 8).toNat, UInt8.ofNat (value % 2 ^ 8).toNat]

/-- `vnc_put32`. -/
def vncPut32 (value : ℤ) : Bytes :=
  [UInt8.ofNat (value / 2 ^ 24 % 2 ^ 8).toNat, UInt8.ofNat (value / 2 ^ 16 % 2 ^ 8).toNat,
    UInt8.ofNat (value / 2 ^ 8 % 2 ^ 8).toNat, UInt8.ofNat (value % 2 ^ 8).toNat]

/-- `vnc_rect_header`. -/
def vncRectHeader (x y width height encoding : ℤ) : Bytes :=
  vncPut16 x ++ vncPut16 y ++ vncPut16 width ++ vncPut16 height ++ vncPut32 encoding

/-- `VNC_CURSOR_MAX`. -/
def vncCursorMax : ℕ := 64

namespace VncFormat

/-- `vnc_encode_raw`. -/
def encodeRaw (f : VncFormat) (frame : Frame) (x y width height : ℕ) : Bytes :=
  (raster width height fun row column => f.translate (frame (y + row) (x + column))).flatMap f.storePixel

/-- A byte of a cursor's mask: eight columns, the first in the highest bit. -/
def maskByte (cursor : VncCursor) (row byte : ℕ) : UInt8 :=
  (List.range 8).foldl
    (fun bits bit =>
      if 8 * byte + bit < cursor.w && cursor.mask.getD (row * cursor.w + (8 * byte + bit)) false then
        bits ||| UInt8.ofNat (0x80 >>> bit)
      else bits)
    0

/-- `vnc_send_cursor_shape` behind its header. -/
def encodeShape (f : VncFormat) (cursor : VncCursor) : Bytes :=
  ((List.range (cursor.w * cursor.h)).flatMap fun i => f.storePixel (f.translate (cursor.rgb.getD i 0))) ++
    raster ((cursor.w + 7) / 8) cursor.h (maskByte cursor)

/-- `vnc_encode_zrle`: none where the compressor has too little room. -/
def sendZrle (f : VncFormat) (frame : Frame) (stream : VncDeflate) (x y width height : ℕ) : Option (VncDeflate × Bytes) :=
  (f.encodeZrle frame x y width height).bind fun tiles =>
    let (stream, packed) :=
      vncDeflateSync stream tiles.flatten (vncDeflateBound (UInt32.ofNat vncZrleRawCap)).toNat
    packed.map fun packed => (stream, vncPut32 packed.length ++ packed)

end VncFormat

namespace VncState

/-- A rectangle of an update, and the stream behind it. -/
def rectBytes (s : VncState) (stream : VncDeflate) : VncUpdateRect → Option (VncDeflate × Bytes)
  | .copy copy =>
    some (stream, vncRectHeader copy.x copy.y copy.w copy.h vncEncCopyRect ++ vncPut16 copy.srcX ++ vncPut16 copy.srcY)
  | .shape cursor =>
    some (stream, vncRectHeader cursor.hotX cursor.hotY cursor.w cursor.h vncEncRichCursor ++ s.format.encodeShape cursor)
  | .position x y => some (stream, vncRectHeader x y 0 0 vncEncPointerPos)
  | .tiles x y width height =>
    match s.encoding with
    | .zrle =>
      (s.format.sendZrle s.capture.prev stream x y width height).map fun (stream, bytes) =>
        (stream, vncRectHeader x y width height vncEncZrle ++ bytes)
    | .hextile =>
      some (stream, vncRectHeader x y width height vncEncHextile ++
        (s.format.encodeHextile s.capture.prev x y width height).flatMap (·.written))
    | .raw =>
      some (stream, vncRectHeader x y width height vncEncRaw ++ s.format.encodeRaw s.capture.prev x y width height)
  | .desktopSize width height => some (stream, vncRectHeader 0 0 width height vncEncDesktopSize)

def rectsBytes (s : VncState) : VncDeflate → List VncUpdateRect → Option (VncDeflate × Bytes)
  | stream, [] => some (stream, [])
  | stream, rect :: rest =>
    (s.rectBytes stream rect).bind fun (stream, bytes) =>
      (rectsBytes s stream rest).map fun (stream, more) => (stream, bytes ++ more)

/-- A tile whose left neighbour is not dirty, where it has one. -/
def startsRun (dirty : ℕ → Bool) (column : ℕ) : Bool := dirty column && (column == 0 || !dirty (column - 1))

/-- `rects` of `vnc_send_update`, counted before any of them is written. -/
def rectCount (s : VncState) : ℕ :=
  ((List.range (vncTiles s.capture.height)).map fun row =>
      ((List.range (vncTiles s.capture.width)).filter (startsRun (s.capture.dirty row))).length).sum +
    ((if s.shapeDue then 1 else 0) + (if s.posDue then 1 else 0) + if s.copyPending.isSome then 1 else 0)

/-- What `vnc_send_update` writes. -/
def updateBytes (s : VncState) (stream : VncDeflate) : Option (VncDeflate × Bytes) :=
  if s.rectCount = 0 then some (stream, [])
  else
    (s.rectsBytes stream s.updateRects).map fun (stream, bytes) => (stream, [0, 0] ++ vncPut16 s.rectCount ++ bytes)

/-- What `vnc_send_desktop_size` writes. -/
def desktopSizeBytes (s : VncState) : Bytes :=
  [0, 0] ++ vncPut16 1 ++ vncRectHeader 0 0 s.capture.width s.capture.height vncEncDesktopSize

/-- What `takeFrame` writes. -/
def takeFrameBytes (s : VncState) (stream : VncDeflate) : Option (VncDeflate × Bytes) :=
  if !s.compared.capture.anyDirty && s.compared.copyPending.isNone && !s.compared.shapeDue && !s.compared.posDue then
    some (stream, [])
  else { s.compared with fullWanted := false }.updateBytes stream

/-- What `take` writes. -/
def takeBytes (s : VncState) (stream : VncDeflate) (result : ℤ) (size : Option (ℕ × ℕ)) : Option (VncDeflate × Bytes) :=
  let s := { s with worker := .idle }
  if result < 0 then
    if !s.useDesktopSize then some (stream, [])
    else
      match size with
      | none => some (stream, [])
      | some (width, height) => some (stream, (s.init width height).desktopSizeBytes)
  else if result = 0 || !s.updateWanted then some (stream, [])
  else s.takeFrameBytes stream

/-- What a step writes of FramebufferUpdates. -/
def actBytes (s : VncState) (stream : VncDeflate) : VncAct → Option (VncDeflate × Bytes)
  | .take size =>
    match s.worker with
    | .done result => s.takeBytes stream result size
    | _ => some (stream, [])
  | _ => some (stream, [])

end VncState

/-! ## What a viewer reads (RFB) -/

def takeU16 : Bytes → Option (ℕ × Bytes)
  | a :: b :: s => some (a.toNat * 2 ^ 8 + b.toNat, s)
  | _ => none

def takeU32 : Bytes → Option (ℕ × Bytes)
  | a :: b :: c :: d :: s => some (((a.toNat * 2 ^ 8 + b.toNat) * 2 ^ 8 + c.toNat) * 2 ^ 8 + d.toNat, s)
  | _ => none

/-- The header of a rectangle. -/
structure VncRectHead where
  x : ℕ
  y : ℕ
  width : ℕ
  height : ℕ
  encoding : ℤ

def readRectHead (s : Bytes) : Option (VncRectHead × Bytes) :=
  (takeU16 s).bind fun (x, s) => (takeU16 s).bind fun (y, s) => (takeU16 s).bind fun (width, s) =>
    (takeU16 s).bind fun (height, s) => (takeU32 s).map fun (encoding, s) =>
      (⟨x, y, width, height, if encoding < 2 ^ 31 then encoding else (encoding : ℤ) - 2 ^ 32⟩, s)

/-- A viewer: the screen it takes the server to have, the format it asked for, what its zlib
stream has given, and the pixels it has been sent. -/
structure VncViewer where
  width : ℕ
  height : ℕ
  format : VncFormat
  zlib : Option Bytes
  pixels : ℕ → ℕ → Option ℕ

namespace VncViewer

/-- A picture is put in its place. -/
def paint (v : VncViewer) (x y width height : ℕ) (picture : VncFormat.Picture) : VncViewer :=
  { v with
    pixels := fun row column =>
      if x ≤ column ∧ column < x + width ∧ y ≤ row ∧ row < y + height then some (picture (row - y) (column - x))
      else v.pixels row column }

/-- Pixels it has are copied, all at once. -/
def copy (v : VncViewer) (x y width height srcX srcY : ℕ) : VncViewer :=
  { v with
    pixels := fun row column =>
      if x ≤ column ∧ column < x + width ∧ y ≤ row ∧ row < y + height then
        v.pixels (srcY + (row - y)) (srcX + (column - x))
      else v.pixels row column }

/-- The header of a zlib stream: Deflate with a window of 32 KiB at most, no dictionary, and a check. -/
def zlibHeader (cmf flg : UInt8) : Bool :=
  cmf.toNat % 16 == 8 && decide (cmf.toNat / 16 ≤ 7) && flg &&& 0x20 == 0 && (cmf.toNat * 256 + flg.toNat) % 31 == 0

/-- The blocks of a piece, which ends at a sync flush, over what there is. An empty final block
stands in for the pieces to come. -/
def inflateMore (out piece : Bytes) : Option Bytes := (Deflate.blocks out (Deflate.bits (piece ++ [0x03, 0x00]))).map Prod.fst

/-- The next piece of the stream, and what is new behind it. -/
def inflatePiece (v : VncViewer) (piece : Bytes) : Option (VncViewer × Bytes) :=
  match v.zlib with
  | some out => (inflateMore out piece).map fun all => ({ v with zlib := some all }, all.drop out.length)
  | none =>
    match piece with
    | cmf :: flg :: piece =>
      if zlibHeader cmf flg then (inflateMore [] piece).map fun all => ({ v with zlib := some all }, all) else none
    | _ => none

/-- A rectangle in ZRLE: its length, and a piece of the stream that has its pixels and no more. -/
def readZrleRect (v : VncViewer) (x y width height : ℕ) (s : Bytes) : Option (VncViewer × Bytes) :=
  (takeU32 s).bind fun (length, s) =>
    if length ≤ s.length then
      (v.inflatePiece (s.take length)).bind fun (v, raw) =>
        (v.format.readZrle width height raw).bind fun (picture, rest) =>
          if rest = [] then some (v.paint x y width height picture, s.drop length) else none
    else none

/-- A CopyRect, from inside the screen. -/
def readCopyRect (v : VncViewer) (x y width height : ℕ) (s : Bytes) : Option (VncViewer × Bytes) :=
  (takeU16 s).bind fun (srcX, s) => (takeU16 s).bind fun (srcY, s) =>
    if srcX + width ≤ v.width ∧ srcY + height ≤ v.height then some (v.copy x y width height srcX srcY, s) else none

/-- A rectangle of pixels. -/
def readPixelRect (v : VncViewer) (r : VncRectHead) (s : Bytes) : Option (VncViewer × Bytes) :=
  if v.width < r.x + r.width ∨ v.height < r.y + r.height then none
  else if r.encoding = vncEncCopyRect then v.readCopyRect r.x r.y r.width r.height s
  else if r.encoding = vncEncRaw then
    (v.format.takePixels (r.height * r.width) s).map fun (pixels, s) =>
      (v.paint r.x r.y r.width r.height fun row column => pixels.getD (row * r.width + column) 0, s)
  else if r.encoding = vncEncHextile then
    (v.format.readHextile r.width r.height s).map fun (picture, s) => (v.paint r.x r.y r.width r.height picture, s)
  else if r.encoding = vncEncZrle then v.readZrleRect r.x r.y r.width r.height s
  else none

/-- A rectangle behind its header. A new screen size leaves no pixel known. -/
def readRectBody (v : VncViewer) (r : VncRectHead) (s : Bytes) : Option (VncViewer × Bytes) :=
  if r.encoding = vncEncPointerPos then some (v, s)
  else if r.encoding = vncEncRichCursor then
    let size := r.width * r.height * v.format.pixelBytes + (r.width + 7) / 8 * r.height
    if size ≤ s.length then some (v, s.drop size) else none
  else if r.encoding = vncEncDesktopSize then
    some ({ v with width := r.width, height := r.height, pixels := fun _ _ => none }, s)
  else v.readPixelRect r s

def readRect (v : VncViewer) (s : Bytes) : Option (VncViewer × Bytes) :=
  (readRectHead s).bind fun (r, s) => v.readRectBody r s

def readRects : ℕ → VncViewer → Bytes → Option (VncViewer × Bytes)
  | 0, v, s => some (v, s)
  | n + 1, v, s => (v.readRect s).bind fun (v, s) => readRects n v s

/-- A FramebufferUpdate, and nothing behind it. -/
def readUpdate (v : VncViewer) : Bytes → Option VncViewer
  | 0 :: _ :: s =>
    (takeU16 s).bind fun (count, s) =>
      (readRects count v s).bind fun (v, rest) => if rest = [] then some v else none
  | _ => none

/-- What a step has written: an update, or nothing. -/
def read (v : VncViewer) (s : Bytes) : Option VncViewer := if s = [] then some v else v.readUpdate s

/-- What the viewer does with a message of its own. Behind a change of format it has been sent
nothing yet. -/
def asked (v : VncViewer) : VncAct → VncViewer
  | .message (.setPixelFormat format) =>
    match vncSetPixelFormat format with
    | some format => { v with format := format, pixels := fun _ _ => none }
    | none => v
  | _ => v

end VncViewer

/-! ## Both of them -/

/-- The zlib stream is the session's: `vnc_deflate_init` starts it before the first use. -/
structure VncLink where
  session : VncState
  stream : VncDeflate
  viewer : VncViewer

/-- A session and its viewer at the start; `head` is what the hash table held. -/
def VncLink.serve (head : ℕ → ℕ) (left : VncState) (width height : ℕ) : VncLink :=
  ⟨.serve left width height, vncDeflateInit head, ⟨width, height, vncDefaultFormat, none, fun _ _ => none⟩⟩

/-- **One step of the session**, with what it writes. None where the session has no such step, or
the viewer cannot read it. -/
def linkStep (l : VncLink) (act : VncAct) : Option VncLink :=
  (vncStep l.session act).bind fun session =>
    (l.session.actBytes l.stream act).bind fun (stream, bytes) =>
      ((l.viewer.asked act).read bytes).map fun viewer => ⟨session, stream, viewer⟩

end V9xRemote
