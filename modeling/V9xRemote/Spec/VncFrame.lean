import V9xRemote.Lib.Runs
import V9xRemote.Spec.VncFormat

/-!
# Captures of the VNC server (`src/guest/vnc.c`)

The frame read from the screen (`vnc_bits`), the frame the viewer has (`vnc_prev`), the
tiles, and what is done to them: the reads of a capture, `vnc_diff` and the copy of a
moved window. Beside each frame stands the time each of its pixels was read.
-/

namespace V9xRemote

open Runs

/-- Pixels by row and column. -/
abbrev Frame := ℕ → ℕ → UInt32

/-- Tiles by row and column. -/
abbrev TileMask := ℕ → ℕ → Bool

/-- When a pixel was read, by row and column. -/
abbrev FrameTimes := ℕ → ℕ → ℕ

def vncTile : ℕ := 16
def vncCopyMin : ℤ := 32

/-- The tiles a length takes. -/
def vncTiles (length : ℕ) : ℕ := (length + vncTile - 1) / vncTile

/-- `RECT`. -/
structure VncRect where
  left : ℤ
  top : ℤ
  right : ℤ
  bottom : ℤ
deriving DecidableEq, Repr

structure VncCapture where
  width : ℕ
  height : ℕ
  bits : Frame
  prev : Frame
  dirty : TileMask
  readMask : TileMask
  suspect : TileMask
  captureFull : Bool
  sampleStep : ℕ
  /-- `vnc_cursor_area` while it is valid -/
  cursorArea : Option VncRect
  bitsTime : FrameTimes
  prevTime : FrameTimes

namespace VncCapture

/-- A read of the screen into `vnc_bits`. -/
def blt (c : VncCapture) (now : ℕ) (screen : Frame) (x y width height : ℕ) : VncCapture :=
  let inside row column := decide (y ≤ row ∧ row < y + height ∧ x ≤ column ∧ column < x + width)
  { c with
    bits := fun row column => if inside row column then screen row column else c.bits row column
    bitsTime := fun row column => if inside row column then now else c.bitsTime row column }

def vncSampleOrder : List ℕ := [0, 8, 4, 12, 2, 10, 6, 14, 1, 9, 5, 13, 3, 11, 7, 15]

/-- The phase of the next sampled capture. -/
def phase (c : VncCapture) : ℕ := vncSampleOrder.getD (c.sampleStep % 16) 0

/-- The row a band is sampled at. -/
def sampleRow (c : VncCapture) (phase band : ℕ) : ℕ :=
  if band * vncTile + phase ≥ c.height then c.height - 1 else band * vncTile + phase

/-- The columns, or rows, of a tile. -/
def tileEnd (first bound : ℕ) : ℕ := if first + vncTile > bound then bound else first + vncTile

/-- The tiles that changed last time, and those whose sampled row has changed. -/
def sampled (c : VncCapture) (phase : ℕ) : TileMask := fun band tile =>
  c.dirty band tile || (List.range (tileEnd (tile * vncTile) c.width - tile * vncTile)).any fun i =>
    c.bits (c.sampleRow phase band) (tile * vncTile + i) != c.prev (c.sampleRow phase band) (tile * vncTile + i)

/-- `vnc_suspect_rect`. -/
def suspectRect (c : VncCapture) (area : VncRect) : VncCapture :=
  let left := max area.left 0
  let top := max area.top 0
  let right := min area.right c.width
  let bottom := min area.bottom c.height
  if left ≥ right || top ≥ bottom then c
  else
    { c with
      suspect := fun row column => c.suspect row column ||
        decide (top / vncTile ≤ row ∧ row ≤ (bottom - 1) / vncTile ∧
          left / vncTile ≤ column ∧ column ≤ (right - 1) / vncTile) }

/-- 32 pixels to either side of the cursor. -/
def cursorRect (x y : ℤ) : VncRect := ⟨x - 32, y - 32, x + 32, y + 32⟩

/-- Where a cursor drawn into the frame was, and where it is now. -/
def suspectCursor (c : VncCapture) (position : Option (ℤ × ℤ)) : VncCapture :=
  let c := match c.cursorArea with
    | some area => c.suspectRect area
    | none => c
  match position with
  | some (x, y) => { c with cursorArea := some (cursorRect x y) }.suspectRect (cursorRect x y)
  | none => c

/-- The runs of suspect tiles: band, first tile, how many. -/
def suspectRuns (c : VncCapture) : List (ℕ × ℕ × ℕ) :=
  (List.range (vncTiles c.height)).flatMap fun band =>
    (runs (c.suspect band) (vncTiles c.width)).map fun run => (band, run)

/-- The rectangle of a run of tiles: x, y, width, height. -/
def runRect (c : VncCapture) (band tile run : ℕ) : ℕ × ℕ × ℕ × ℕ :=
  (tile * vncTile, band * vncTile,
    if (tile + run) * vncTile > c.width then c.width - tile * vncTile else run * vncTile,
    if band * vncTile + vncTile > c.height then c.height - band * vncTile else vncTile)

/-- The read of a run of suspect tiles. -/
def readRun (c : VncCapture) (now : ℕ) (screen : Frame) (band tile run : ℕ) : VncCapture :=
  let (x, y, width, height) := c.runRect band tile run
  { c.blt now screen x y width height with
    readMask := fun row column => c.readMask row column || decide (row = band ∧ tile ≤ column ∧ column < tile + run) }

/-- The read of the whole screen. -/
def readAll (c : VncCapture) (now : ℕ) (screen : Frame) : VncCapture :=
  { c.blt now screen 0 0 c.width c.height with
    readMask := fun row column =>
      c.readMask row column || decide (row < vncTiles c.height ∧ column < vncTiles c.width) }

/-- A pixel of a tile differs between the two frames. -/
def differs (c : VncCapture) (row column : ℕ) : Bool :=
  (List.range (tileEnd (row * vncTile) c.height - row * vncTile)).any fun j =>
    (List.range (tileEnd (column * vncTile) c.width - column * vncTile)).any fun i =>
      c.bits (row * vncTile + j) (column * vncTile + i) != c.prev (row * vncTile + j) (column * vncTile + i)

/-- Whether `vnc_diff` takes a tile for changed. -/
def changed (c : VncCapture) (all : Bool) (row column : ℕ) : Bool :=
  decide (row < vncTiles c.height ∧ column < vncTiles c.width) &&
    (all || (c.readMask row column && c.differs row column))

/-- `vnc_diff`: each tile on its own. -/
def diff (c : VncCapture) (all : Bool) : VncCapture :=
  let inScreen row column := decide (row < c.height ∧ column < c.width)
  { c with
    dirty := fun row column =>
      if row < vncTiles c.height ∧ column < vncTiles c.width then c.changed all row column else c.dirty row column
    readMask := fun row column =>
      if row < vncTiles c.height ∧ column < vncTiles c.width then false else c.readMask row column
    prev := fun row column =>
      if inScreen row column && c.changed all (row / vncTile) (column / vncTile) then c.bits row column
      else c.prev row column
    prevTime := fun row column =>
      if inScreen row column && c.changed all (row / vncTile) (column / vncTile) then c.bitsTime row column
      else c.prevTime row column }

/-- What `vnc_diff` returns is above zero. -/
def anyDirty (c : VncCapture) : Bool :=
  (List.range (vncTiles c.height)).any fun row => (List.range (vncTiles c.width)).any fun column => c.dirty row column

/-- The rectangles of an update: each run of dirty tiles. -/
def dirtyRects (c : VncCapture) : List (ℕ × ℕ × ℕ × ℕ) :=
  (List.range (vncTiles c.height)).flatMap fun row =>
    (runs (c.dirty row) (vncTiles c.width)).map fun run => c.runRect row run.1 run.2

/-! ## Copies -/

/-- `vnc_copy_x` to `vnc_copy_src_y`. -/
structure Copy where
  x : ℕ
  y : ℕ
  w : ℕ
  h : ℕ
  srcX : ℕ
  srcY : ℕ
deriving DecidableEq, Repr

/-- Where `vnc_detect_move` finds a copy for a window that moved from one place to another. -/
def findCopy (c : VncCapture) (was now : VncRect) : Option Copy :=
  let dx := now.left - was.left
  let dy := now.top - was.top
  let x0 := max (max now.left 0) dx
  let y0 := max (max now.top 0) dy
  let x1 := min (min now.right c.width) (c.width + dx)
  let y1 := min (min now.bottom c.height) (c.height + dy)
  if now.right - now.left = was.right - was.left ∧ now.bottom - now.top = was.bottom - was.top ∧
      (now.left ≠ was.left ∨ now.top ≠ was.top) ∧ x1 - x0 ≥ vncCopyMin ∧ y1 - y0 ≥ vncCopyMin then
    some ⟨x0.toNat, y0.toNat, (x1 - x0).toNat, (y1 - y0).toNat, (x0 - dx).toNat, (y0 - dy).toNat⟩
  else none

/-- The pixels of a copy in the order they are moved: rows from the bottom where the window
moved down, and each row from its end where its target lies behind its source. -/
def Copy.order (copy : Copy) : List (ℕ × ℕ) :=
  let rows := if copy.y > copy.srcY then (List.range copy.h).reverse else List.range copy.h
  let columns :=
    if copy.y < copy.srcY ∨ (copy.y = copy.srcY ∧ copy.x < copy.srcX) then List.range copy.w
    else (List.range copy.w).reverse
  rows.flatMap fun row => columns.map fun column => (row, column)

/-- One pixel of `vnc_move_bytes`. -/
def Copy.move {α : Type} (copy : Copy) (frame : ℕ → ℕ → α) (p : ℕ × ℕ) : ℕ → ℕ → α :=
  fun row column =>
    if row = copy.y + p.1 ∧ column = copy.x + p.2 then frame (copy.srcY + p.1) (copy.srcX + p.2) else frame row column

/-- The copy inside `vnc_prev`. -/
def applyCopy (c : VncCapture) (copy : Copy) : VncCapture :=
  { c with
    prev := copy.order.foldl copy.move c.prev
    prevTime := copy.order.foldl copy.move c.prevTime }

end VncCapture

end V9xRemote
