import V9xRemote.Lib.Reading
import V9xRemote.Spec.Promote
import V9xRemote.Spec.Responses
import V9xRemote.Spec.Files
import V9xRemote.Spec.VncKeys

/-!
# Input injection (`src/guest/input.c`)

An INPUT request is a number of records, each an opcode and its fields. `inputValidate` walks
them once without acting, `inputApply` walks them again and injects. A read outside the payload
is stuck. `long` has 32 bits; what Windows makes of a key stands in `InputKeys`.
-/

namespace V9xRemote

open Bytes Checked

/-- The opcodes `V9X_INPUT_OP_*`. -/
inductive InputOp
  | mouseMove
  | mouseButton
  | mouseWheel
  | key
  | type
  | delay
  | mouseMoveRelative
deriving DecidableEq, Repr

def InputOp.ofByte (opcode : UInt8) : Option InputOp :=
  if opcode = 1 then some .mouseMove
  else if opcode = 2 then some .mouseButton
  else if opcode = 3 then some .mouseWheel
  else if opcode = 4 then some .key
  else if opcode = 5 then some .type
  else if opcode = 6 then some .delay
  else if opcode = 7 then some .mouseMoveRelative
  else none

def inputRelativeStep : Int32 := 4
def inputButtonLeft : UInt8 := 0
def inputButtonRight : UInt8 := 1
def inputButtonMiddle : UInt8 := 2
def inputMaxActions : ℕ := 256
def inputMaxDelayMs : ℕ := 10000
def inputResponseSize : ℕ := 16

/-- What is injected, and the waits between. -/
inductive InputEvent
  /-- `SetCursorPos` -/
  | cursor (x y : Int32)
  /-- `mouse_event` -/
  | mouse (flags dx dy data : UInt32)
  /-- `keybd_event` -/
  | key (vk scan : UInt8) (flags : UInt32)
  /-- `Sleep` -/
  | sleep (ms : UInt32)
deriving DecidableEq, Repr

/-- `MapVirtualKeyA` to a scan code, and `VkKeyScanA`. -/
structure InputKeys where
  scan : UInt8 → UInt32
  ofChar : UInt8 → Int16

/-! ## Validation -/

/-- `v9x_input_validate`, for the `count` records from `offset` on. -/
def inputValidateFrom (payload : Bytes) : (count offset : ℕ) → Bool
  | 0, offset => offset == payload.length
  | count + 1, offset =>
    if offset + 1 > payload.length then false
    else
      let opcode := payload.at' offset
      let offset := offset + 1
      match InputOp.ofByte opcode with
      | some .mouseMove | some .mouseMoveRelative =>
        if offset + 8 > payload.length then false else inputValidateFrom payload count (offset + 8)
      | some .mouseButton =>
        if offset + 2 > payload.length then false
        else if payload.at' offset > inputButtonMiddle ∨ payload.at' (offset + 1) > 1 then false
        else inputValidateFrom payload count (offset + 2)
      | some .mouseWheel =>
        if offset + 2 > payload.length then false else inputValidateFrom payload count (offset + 2)
      | some .key =>
        if offset + 2 > payload.length then false
        else if payload.at' offset = 0 ∨ payload.at' (offset + 1) > 1 then false
        else inputValidateFrom payload count (offset + 2)
      | some .type =>
        if offset + 2 > payload.length then false
        else
          let textLength := (payload.readU16 offset).toNat
          let offset := offset + 2
          if offset + textLength > payload.length then false else inputValidateFrom payload count (offset + textLength)
      | some .delay =>
        if offset + 2 > payload.length then false
        else if (payload.readU16 offset).toNat > inputMaxDelayMs then false
        else inputValidateFrom payload count (offset + 2)
      | none => false

/-- `v9x_input_validate`. -/
def inputValidate (payload : Bytes) (count : ℕ) : Bool := inputValidateFrom payload count 2

/-! ## Injection -/

/-- `v9x_read_s32`. -/
def inputReadS32 (source : Bytes) (i : ℕ) : Int32 := (source.readU32 i).toInt32

/-- `v9x_read_s16`. -/
def inputReadS16 (source : Bytes) (i : ℕ) : ℤ :=
  let raw := (source.readU16 i).toNat
  if raw ≥ 0x8000 then (raw : ℤ) - 0x10000 else raw

def mouseEventMove : UInt32 := 0x0001
def mouseEventLeftDown : UInt32 := 0x0002
def mouseEventLeftUp : UInt32 := 0x0004
def mouseEventRightDown : UInt32 := 0x0008
def mouseEventRightUp : UInt32 := 0x0010
def mouseEventMiddleDown : UInt32 := 0x0020
def mouseEventMiddleUp : UInt32 := 0x0040
def mouseEventWheel : UInt32 := 0x0800
def wheelDelta : ℤ := 120
def keyEventKeyUp : UInt32 := 0x0002
def vkTab : UInt8 := 0x09
def vkReturn : UInt8 := 0x0D
def vkControl : UInt8 := 0x11
def vkMenu : UInt8 := 0x12

/-- `v9x_input_mouse_button`. -/
def inputMouseButton (button down : UInt8) : List InputEvent :=
  let flags :=
    if button = inputButtonLeft then (if down ≠ 0 then mouseEventLeftDown else mouseEventLeftUp)
    else if button = inputButtonRight then (if down ≠ 0 then mouseEventRightDown else mouseEventRightUp)
    else if down ≠ 0 then mouseEventMiddleDown else mouseEventMiddleUp
  [.mouse flags 0 0 0]

/-- `v9x_input_step`. -/
def inputStep (remaining : Int32) : Int32 :=
  if remaining > inputRelativeStep then inputRelativeStep
  else if remaining < -inputRelativeStep then -inputRelativeStep
  else remaining

theorem inputStep_toInt (d : Int32) : (inputStep d).toInt = max (-4) (min 4 d.toInt) := by
  have hfour : inputRelativeStep.toInt = 4 := rfl
  have hminus : (-inputRelativeStep).toInt = -4 := rfl
  rw [inputStep]
  split
  · rename_i hlarge
    have hlt := Int32.lt_iff_toInt_lt.1 hlarge
    omega
  · rename_i hsmall
    have hle : ¬inputRelativeStep.toInt < d.toInt := fun h => hsmall (Int32.lt_iff_toInt_lt.2 h)
    split
    · rename_i hless
      have hlt := Int32.lt_iff_toInt_lt.1 hless
      omega
    · rename_i hmore
      have hge : ¬d.toInt < (-inputRelativeStep).toInt := fun h => hmore (Int32.lt_iff_toInt_lt.2 h)
      omega

/-- A step does not overflow, from the most negative distance either. -/
theorem inputStep_rest (d : Int32) : (d - inputStep d).toInt = d.toInt - (inputStep d).toInt := by
  have hstep := inputStep_toInt d
  have hlow := Int32.le_toInt d
  have hhigh := Int32.toInt_lt d
  rw [Int32.toInt_sub]
  exact Int.bmod_eq_of_le (by omega) (by omega)

/-- What is left gets smaller, unless nothing was left. -/
theorem inputStep_measure (d : Int32) : (d - inputStep d).toInt.natAbs ≤ d.toInt.natAbs ∧
    (d ≠ 0 → (d - inputStep d).toInt.natAbs < d.toInt.natAbs) := by
  rw [inputStep_rest, inputStep_toInt]
  refine ⟨by omega, fun h => ?_⟩
  have hne : d.toInt ≠ 0 := fun hzero => h (Int32.toInt_inj.1 hzero)
  omega

/-- `v9x_input_mouse_relative`. -/
def inputMouseRelative (dx dy : Int32) : List InputEvent :=
  if dx ≠ 0 ∨ dy ≠ 0 then
    .mouse mouseEventMove (inputStep dx).toUInt32 (inputStep dy).toUInt32 0 ::
      inputMouseRelative (dx - inputStep dx) (dy - inputStep dy)
  else []
termination_by dx.toInt.natAbs + dy.toInt.natAbs
decreasing_by
  rename_i hmore
  have hx := inputStep_measure dx
  have hy := inputStep_measure dy
  rcases hmore with hmore | hmore
  · exact Nat.add_lt_add_of_lt_of_le (hx.2 hmore) hy.1
  · exact Nat.add_lt_add_of_le_of_lt hx.1 (hy.2 hmore)

/-- `v9x_input_key`. -/
def inputKey (keys : InputKeys) (vk down : UInt8) : List InputEvent :=
  [.key vk (keys.scan vk).toUInt8 (if down ≠ 0 then 0 else keyEventKeyUp)]

/-- `v9x_input_type_char`. -/
def inputTypeChar (keys : InputKeys) (character : UInt8) : List InputEvent :=
  if character = 10 ∨ character = 13 then inputKey keys vkReturn 1 ++ inputKey keys vkReturn 0
  else if character = 9 then inputKey keys vkTab 1 ++ inputKey keys vkTab 0
  else
    let scanResult := keys.ofChar character
    if scanResult = -1 then []
    else
      let vk := scanResult.toUInt16.toUInt8
      let modifiers := (scanResult.toUInt16 >>> 8).toUInt8
      (if modifiers &&& 1 ≠ 0 then inputKey keys vkShift 1 else []) ++
        (if modifiers &&& 2 ≠ 0 then inputKey keys vkControl 1 else []) ++
        (if modifiers &&& 4 ≠ 0 then inputKey keys vkMenu 1 else []) ++
        inputKey keys vk 1 ++ inputKey keys vk 0 ++
        (if modifiers &&& 4 ≠ 0 then inputKey keys vkMenu 0 else []) ++
        (if modifiers &&& 2 ≠ 0 then inputKey keys vkControl 0 else []) ++
        (if modifiers &&& 1 ≠ 0 then inputKey keys vkShift 0 else [])

/-- The offset in the payload, and what was injected so far. -/
structure InputRun where
  offset : ℕ
  events : List InputEvent
deriving DecidableEq, Repr

/-- So many bytes from the offset on are read. -/
def inputRead (payload : Bytes) (count : ℕ) : Checked InputRun Empty Unit := do
  let run ← get
  check (run.offset + count ≤ payload.length)

/-- Inject, and go on behind what was read. -/
def inputInject (events : List InputEvent) (count : ℕ) : Checked InputRun Empty Unit :=
  modify fun run => ⟨run.offset + count, run.events ++ events⟩

/-- One turn of the loop, which comes to the opcode. -/
def inputApplyTurn (keys : InputKeys) (payload : Bytes) : Checked InputRun Empty UInt8 := do
  inputRead payload 1
  let run ← get
  let opcode := payload.at' run.offset
  let offset := run.offset + 1
  inputInject [] 1
  match InputOp.ofByte opcode with
  | some .mouseMove =>
    inputRead payload 8
    inputInject [.cursor (inputReadS32 payload offset) (inputReadS32 payload (offset + 4))] 8
  | some .mouseMoveRelative =>
    inputRead payload 8
    inputInject (inputMouseRelative (inputReadS32 payload offset) (inputReadS32 payload (offset + 4))) 8
  | some .mouseButton =>
    inputRead payload 2
    inputInject (inputMouseButton (payload.at' offset) (payload.at' (offset + 1))) 2
  | some .mouseWheel =>
    inputRead payload 2
    inputInject [.mouse mouseEventWheel 0 0 (Int32.ofInt (inputReadS16 payload offset * wheelDelta)).toUInt32] 2
  | some .key =>
    inputRead payload 2
    inputInject (inputKey keys (payload.at' offset) (payload.at' (offset + 1))) 2
  | some .type =>
    inputRead payload 2
    let textLength := (payload.readU16 offset).toNat
    inputInject [] 2
    inputRead payload textLength
    inputInject ((List.range textLength).flatMap fun character => inputTypeChar keys (payload.at' (offset + 2 + character)))
      textLength
  | some .delay =>
    inputRead payload 2
    inputInject [.sleep (payload.readU16 offset).toUInt32] 2
  | none => pure ()
  return opcode

/-- `v9x_input_apply`, with the opcodes that it came to. -/
def inputApply (keys : InputKeys) (payload : Bytes) : (count : ℕ) → Checked InputRun Empty (List UInt8)
  | 0 => return []
  | count + 1 => do
    let opcode ← inputApplyTurn keys payload
    let opcodes ← inputApply keys payload count
    return opcode :: opcodes

/-! ## The request -/

def msgErrorResponse : UInt16 := 0x8FFF
def msgInputResponseType : UInt16 := 0x8060

/-- A frame that is sent. -/
structure InputFrame where
  type : UInt16
  payload : Bytes
deriving DecidableEq, Repr

/-- `v9x_input_error`: no frame where the detail does not fit into the response. -/
def inputError (status native : UInt32) (detail : Bytes) : Option InputFrame :=
  (appendString inputResponseSize (writeU32 status ++ writeU32 native) detail).map (InputFrame.mk msgErrorResponse)

/-- `v9x_handle_input`: the frame, and what was injected. `cursor` is `GetCursorPos`. -/
def handleInput (keys : InputKeys) (cursor : List InputEvent → Option (UInt32 × UInt32)) (payload : Bytes) :
    Option (Option InputFrame × List InputEvent) :=
  if payload.length < 2 then
    some (inputError statusInvalidPayload errorInvalidParameter (ascii "input payload too short"), [])
  else
    let count := (payload.readU16 0).toNat
    if count > inputMaxActions then
      some (inputError statusLimitExceeded errorInvalidParameter (ascii "too many input actions"), [])
    else if !inputValidate payload count then
      some (inputError statusInvalidPayload errorInvalidParameter (ascii "malformed input actions"), [])
    else
      match inputApply keys payload count ⟨2, []⟩ with
      | some (.ok _, run) =>
        let place := (cursor run.events).getD (0, 0)
        some (some ⟨msgInputResponseType, writeU32 (UInt32.ofNat count) ++ writeU32 place.1 ++ writeU32 place.2⟩,
          run.events)
      | _ => none

end V9xRemote
