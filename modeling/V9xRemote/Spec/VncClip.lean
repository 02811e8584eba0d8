import V9xRemote.Lib.Bytes

/-!
# The clipboard of a VNC session (`src/guest/vnc.c`)

Viewer text goes from the network thread to the clipboard thread, which puts it on the Windows
clipboard and then looks whether the clipboard has changed. `clipStep` is one turn of either
thread, or another program's change of the clipboard. What the system answers is an event's
own; the clipboard itself keeps, beside its text, whether that came from the viewer.
-/

namespace V9xRemote

open Bytes

/-- `VNC_CLIP_MAX`. -/
def clipMax : ℕ := 262144
/-- `VNC_MAX_CUT_TEXT`. -/
def maxCutText : ℕ := 1048576
/-- `VNC_CLIP_POLL_MS`. -/
def clipPollMs : UInt32 := 500

/-! ## Texts -/

/-- `vnc_clip_digest`. -/
def clipDigest (text : Bytes) : UInt32 :=
  text.foldl (fun hash c => if c = 13 ∨ c = 0 then hash else (hash ^^^ c.toUInt32) * 16777619) 2166136261

/-- The first pass of `vnc_clip_apply_in`: how much is allocated. -/
def clipSize (text : Bytes) : UInt32 :=
  text.foldl (fun size c => if c = 13 ∨ c = 0 then size else size + if c = 10 then 2 else 1) 1

/-- The second: what is written there. -/
def clipWrite (text : Bytes) : Bytes :=
  text.foldl (fun target c => if c = 13 ∨ c = 0 then target else (if c = 10 then target ++ [13] else target) ++ [c]) [] ++ [0]

/-- The loop of `vnc_clip_poll_out` over a block, behind what it has copied. -/
def clipCopy : Bytes → Bytes → Bytes
  | [], out => out
  | c :: source, out =>
    if c ≠ 0 ∧ out.length < clipMax then clipCopy source (if c ≠ 13 then out ++ [c] else out) else out

/-! ## The state -/

/-- CF_TEXT on the clipboard: its block, and the viewer's text where `vnc_clip_apply_in` put it
there. -/
structure ClipText where
  memory : Bytes
  viewer : Option Bytes
deriving DecidableEq, Repr

/-- The clipboard, and the variables of `vnc.c` about it. A buffer is there while its flag is set. -/
structure VncClip where
  clipboard : Option ClipText
  /-- `vnc_clip_recv` -/
  recv : Option Bytes
  /-- `vnc_clip_in` -/
  incoming : Option Bytes
  /-- `vnc_clip_out` -/
  outgoing : Option Bytes
  reset : Bool
  hash : UInt32
  primed : Bool
  polled : UInt32
  session : Bool
  /-- the clipboard thread is behind `vnc_clip_apply_in` -/
  applied : Bool
deriving DecidableEq, Repr

/-- What the system answers when the clipboard is set; `slack` is what a block has beyond its size. -/
structure ClipSetting where
  allocated : Bool
  locked : Bool
  opened : Bool
  set : Bool
  slack : Bytes
deriving DecidableEq, Repr

/-- What the system answers to a look. -/
structure ClipLook where
  tick : UInt32
  polledTick : UInt32
  /-- another program changes the clipboard before it is opened -/
  change : Option (Option Bytes)
  opened : Bool
  /-- `GetClipboardData` -/
  data : Bool
  /-- `GlobalLock` -/
  locked : Bool
deriving DecidableEq, Repr

namespace VncClip

/-- Another program sets the clipboard. -/
def change (memory : Option Bytes) (s : VncClip) : VncClip := { s with clipboard := memory.map fun memory => ⟨memory, none⟩ }

/-- `vnc_clip_apply_in`. -/
def applyIn (r : ClipSetting) (s : VncClip) : VncClip :=
  match s.incoming with
  | none => s
  | some text =>
    if !r.allocated || !r.locked || !r.opened then { s with incoming := none }
    else
      { s with
        clipboard := if r.set then some ⟨clipWrite text ++ r.slack, some text⟩ else none
        hash := clipDigest text
        primed := true
        incoming := none }

/-- The end of `vnc_clip_poll_out`: what it found is compared, and queued where it is new. -/
def found (text : Bytes) (s : VncClip) : VncClip :=
  let hash := clipDigest text
  if !s.primed then { s with hash, primed := true }
  else if hash = s.hash then s
  else if text.length = 0 then { s with hash }
  else { s with hash, outgoing := some text }

/-- What is read of the open clipboard. -/
def readText (look : ClipLook) (s : VncClip) : Bytes :=
  match s.clipboard with
  | none => []
  | some text => if look.data && look.locked then clipCopy text.memory [] else []

/-- `vnc_clip_reset` is taken. -/
def takeReset (s : VncClip) : VncClip := if s.reset then { s with reset := false, primed := false } else s

/-- `vnc_clip_poll_out`. -/
def pollOut (look : ClipLook) (s : VncClip) : VncClip :=
  let s := s.takeReset
  if s.primed && look.tick - s.polled < clipPollMs then s
  else
    let s := { s with polled := look.polledTick }
    if s.outgoing.isSome then s
    else if s.clipboard.isNone then s.found []
    else
      let s := match look.change with
        | some memory => s.change memory
        | none => s
      if !look.opened then s else s.found (s.readText look)

end VncClip

inductive ClipEvent
  | sessionStart
  | sessionEnd
  /-- a ClientCutText has come -/
  | cutText (text : Bytes)
  /-- `vnc_clip_hand_over` -/
  | handOver
  /-- the queued text is sent -/
  | sent
  /-- another program changes the clipboard -/
  | guest (memory : Option Bytes)
  | apply (r : ClipSetting)
  | poll (look : ClipLook)
deriving DecidableEq, Repr

/-- **One event.** -/
def clipStep (s : VncClip) : ClipEvent → Option VncClip
  | .sessionStart => if s.session then none else some { s with recv := none, reset := true, outgoing := none, session := true }
  | .sessionEnd => if s.session then some { s with session := false } else none
  | .cutText text =>
    if !s.session then none
    else if text.length > maxCutText then some { s with session := false }
    else if text.length > clipMax then some s
    else some { s with recv := some text }
  | .handOver =>
    if !s.session then none
    else if s.recv.isNone || s.incoming.isSome then some s
    else some { s with incoming := s.recv, recv := none }
  | .sent => if s.session && s.outgoing.isSome then some { s with outgoing := none } else none
  | .guest memory => some (s.change memory)
  | .apply r => if s.session && !s.applied then some { s.applyIn r with applied := true } else none
  | .poll look => if s.applied then some { s.pollOut look with applied := false } else none

/-- The service has started; another program may have set the clipboard. -/
def clipStart (memory : Option Bytes) : VncClip where
  clipboard := memory.map fun memory => ⟨memory, none⟩
  recv := none
  incoming := none
  outgoing := none
  reset := false
  hash := 0
  primed := false
  polled := 0
  session := false
  applied := false

end V9xRemote
