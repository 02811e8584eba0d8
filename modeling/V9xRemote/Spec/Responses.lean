import V9xRemote.Lib.Bytes

/-!
# Responses of the agent (`src/guest/protocol.c`, `src/common/bounds.c`)

HELLO and INFO, as far as the payload that is sent. A text is what stands in its buffer
before the NUL. What the system answers stands beside the agent's state.
-/

namespace V9xRemote

open Bytes

/-- A `char` buffer's text: it has no NUL and leaves room for one. -/
structure CText (size : ℕ) where
  text : Bytes
  length_lt : text.length < size
  noNul : ∀ b ∈ text, b ≠ 0

/-- `v9x_append_string`, behind what is written; `none` where it does not fit. -/
def appendString (capacity : ℕ) (target text : Bytes) : Option Bytes :=
  let length := min text.length 65535
  if target.length > capacity ∨ capacity - target.length < length + 2 then none
  else some (target ++ (writeU16 (UInt16.ofNat length) ++ text.take length))

/-- Several strings, one after the other. -/
def appendStrings (capacity : ℕ) : Bytes → List Bytes → Option Bytes
  | target, [] => some target
  | target, text :: texts => do
    let target ← appendString capacity target text
    appendStrings capacity target texts

def protocolVersion : UInt16 := 0x0100
def maxPayloadSize : UInt32 := 65536
def responseSize : ℕ := 2048
def infoFlagExtended : UInt32 := 1

/-- `v9x_append_decimal`. -/
def appendDecimal (target : Bytes) (value : UInt32) : Bytes := target ++ decimal value.toNat

/-- What of `V9xAgentState` the responses hold; `capabilities` is `v9x_capabilities`. -/
structure AgentIdentity where
  build : CText 256
  capabilities : UInt32
  bootCounter : UInt32
  startTick : UInt32
  winsockVersion : UInt16
  pendingJob : CText 64
  listenPort : UInt16
  listenAddress : CText 16
  allowedClient : CText 16
  installId : CText 37

/-- What the system answers. -/
structure AgentSystem where
  tick : UInt32
  /-- `GetVersion` -/
  version : UInt32
  computer : CText 64
  systemDirectory : CText 260
  windowsDirectory : CText 260
  currentDirectory : CText 260
  desktopReady : Bool
  screenWidth : UInt32
  screenHeight : UInt32
  bitsPerPixel : UInt32

/-- The desktop's state and the screen. -/
def desktopBytes (system : AgentSystem) : Bytes :=
  [if system.desktopReady then 1 else 0, 0] ++ writeU16 0 ++ writeU32 system.screenWidth ++
    writeU32 system.screenHeight ++ writeU32 system.bitsPerPixel

/-- `v9x_send_hello`: the payload; `none` where nothing is sent. -/
def sendHello (agent : AgentIdentity) (system : AgentSystem) : Option Bytes := do
  let head := writeU16 protocolVersion ++ writeU16 0 ++ writeU32 agent.capabilities ++ writeU32 maxPayloadSize ++
    writeU32 agent.bootCounter ++ writeU16 agent.listenPort ++ writeU16 agent.winsockVersion
  let out ← appendStrings responseSize head [agent.build.text, agent.pendingJob.text]
  appendStrings responseSize (out ++ desktopBytes system) [agent.listenAddress.text, agent.allowedClient.text]

/-- `windows_version`. -/
def windowsVersion (version : UInt32) : Bytes :=
  appendDecimal (appendDecimal (ascii "Windows ") (version &&& 0xff) ++ ascii ".") ((version >>> 8) &&& 0xff)

def agentVersionText : Bytes := ascii "0.13.1"

/-- `v9x_send_info`: the payload; `none` where an error is sent in its place. -/
def sendInfo (agent : AgentIdentity) (system : AgentSystem) (flags : UInt32) : Option Bytes := do
  let head := writeU32 agent.bootCounter ++ writeU32 (system.tick - agent.startTick) ++ writeU32 agent.capabilities ++
    writeU16 agent.listenPort ++ writeU16 agent.winsockVersion ++ writeU32 system.version
  let out ← appendStrings responseSize head
    [agentVersionText, agent.build.text, system.computer.text, windowsVersion system.version,
      system.systemDirectory.text, system.windowsDirectory.text, system.currentDirectory.text, agent.pendingJob.text]
  let out ← appendStrings responseSize (out ++ desktopBytes system) [agent.listenAddress.text, agent.allowedClient.text]
  if flags &&& infoFlagExtended != 0 then appendString responseSize out agent.installId.text else return out

end V9xRemote
