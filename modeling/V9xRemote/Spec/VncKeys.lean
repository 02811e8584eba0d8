import Mathlib.Tactic.Common
import Mathlib.Logic.Function.Basic

/-!
# Keyboard input of the VNC server (`src/guest/vnc.c`)

`vncKeyEvent` and `vncReleaseAll`, with the key events they inject. What the system
says (`VkKeyScanA`, `GetAsyncKeyState`) comes with each message. Scan codes and the
mouse are left out.
-/

namespace V9xRemote

/-- One `keybd_event`. -/
structure KeyInject where
  vk : UInt8
  extended : Bool
  down : Bool
deriving DecidableEq, Repr

/-- `vnc_keys_down`, `vnc_keys_extended`, and what was injected, oldest first. -/
structure VncKeys where
  keysDown : UInt8 → Bool
  keysExtended : UInt8 → Bool
  injected : List KeyInject

/-- At the start of a session. -/
def VncKeys.start (extended : UInt8 → Bool) : VncKeys := ⟨fun _ => false, extended, []⟩

/-- A KeyEvent message, with the answer of `VkKeyScanA` to its character and whether
a Shift key is down. -/
structure KeyEvent where
  down : Bool
  keysym : UInt32
  scan : UInt16
  shiftHeld : Bool
deriving DecidableEq, Repr

def vkShift : UInt8 := 0x10
def vkNumpad0 : UInt8 := 0x60
def vkF1 : UInt8 := 0x70

/-- `vnc_key_map`: keysym, virtual key, extended. -/
def vncKeyMap : List (UInt32 × UInt8 × Bool) :=
  [(0xff08, 0x08, false), (0xff09, 0x09, false), (0xfe20, 0x09, false), (0xff0d, 0x0d, false),
   (0xff13, 0x13, false), (0xff14, 0x91, false), (0xff1b, 0x1b, false), (0xffff, 0x2e, true),
   (0xff50, 0x24, true), (0xff51, 0x25, true), (0xff52, 0x26, true), (0xff53, 0x27, true),
   (0xff54, 0x28, true), (0xff55, 0x21, true), (0xff56, 0x22, true), (0xff57, 0x23, true),
   (0xff61, 0x2c, true), (0xff63, 0x2d, true), (0xff67, 0x5d, true), (0xff7f, 0x90, false),
   (0xff8d, 0x0d, true),
   (0xff95, 0x24, false), (0xff96, 0x25, false), (0xff97, 0x26, false), (0xff98, 0x27, false),
   (0xff99, 0x28, false), (0xff9a, 0x21, false), (0xff9b, 0x22, false), (0xff9c, 0x23, false),
   (0xff9d, 0x0c, false), (0xff9e, 0x2d, false), (0xff9f, 0x2e, false),
   (0xffaa, 0x6a, false), (0xffab, 0x6b, false), (0xffac, 0x6c, false), (0xffad, 0x6d, false),
   (0xffae, 0x6e, false), (0xffaf, 0x6f, true),
   (0xffe1, 0x10, false), (0xffe2, 0x10, false), (0xffe3, 0x11, false), (0xffe4, 0x11, true),
   (0xffe5, 0x14, false),
   (0xffe7, 0x12, false), (0xffe8, 0x12, true), (0xffe9, 0x12, false), (0xffea, 0x12, true),
   (0xffeb, 0x5b, true), (0xffec, 0x5c, true)]

/-- The key a keysym names without the layout; virtual key 0 is none. -/
def vncMapped (keysym : UInt32) : UInt8 × Bool :=
  let (vk, extended) := ((vncKeyMap.find? (·.1 = keysym)).map (·.2)).getD (0, false)
  if vk = 0 && keysym ≥ 0xffb0 && keysym ≤ 0xffb9 then (vkNumpad0 + (keysym - 0xffb0).toUInt8, extended)
  else if vk = 0 && keysym ≥ 0xffbe && keysym ≤ 0xffc9 then (vkF1 + (keysym - 0xffbe).toUInt8, extended)
  else (vk, extended)

namespace VncKeys

/-- A `keybd_event` of its own. -/
def inject (s : VncKeys) (vk : UInt8) (extended down : Bool) : VncKeys :=
  { s with injected := s.injected ++ [⟨vk, extended, down⟩] }

/-- `vnc_key`. -/
def key (s : VncKeys) (vk : UInt8) (extended down : Bool) : VncKeys where
  keysDown := Function.update s.keysDown vk down
  keysExtended := Function.update s.keysExtended vk extended
  injected := s.injected ++ [⟨vk, extended, down⟩]

end VncKeys

/-- `vnc_key_event`. -/
def vncKeyEvent (s : VncKeys) (e : KeyEvent) : VncKeys :=
  let (vk, extended) := vncMapped e.keysym
  if vk ≠ 0 then if e.down || s.keysDown vk then s.key vk extended e.down else s
  else if e.keysym < 0x20 || e.keysym > 0xff then s
  else if e.scan = 0xffff then s
  else
    let vk := (e.scan &&& 0xff).toUInt8
    if !e.down then if s.keysDown vk then s.key vk false false else s
    else
      let needShift := e.scan &&& 0x100 ≠ 0
      if needShift && !e.shiftHeld then
        ((s.inject vkShift false true).key vk false true).inject vkShift false false
      else s.key vk false true

/-- One turn of the loop of `vnc_release_all`. -/
def vncReleaseKey (s : VncKeys) (vk : UInt8) : VncKeys :=
  if s.keysDown vk then s.key vk (s.keysExtended vk) false else s

/-- `vnc_release_all`. -/
def vncReleaseAll (s : VncKeys) : VncKeys :=
  ((List.range 255).map fun n => UInt8.ofNat (n + 1)).foldl vncReleaseKey s

end V9xRemote
