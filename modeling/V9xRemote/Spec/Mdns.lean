import V9xRemote.Lib.Checked
import V9xRemote.Spec.Responses

/-!
# mDNS announcements (`src/common/mdns.c`, `src/guest/discovery.c`)

What the agent announces, and the writer of a response. A program that stores outside of its
buffer is stuck.
-/

namespace V9xRemote

open Bytes Checked

def mdnsServiceName : Bytes := ascii "_v9xremote._tcp.local"
def mdnsEnumName : Bytes := ascii "_services._dns-sd._udp.local"
def mdnsMaxTxt : ℕ := 8
def mdnsPacketMax : ℕ := 1024
def mdnsTtlHost : ℕ := 120
def mdnsTtlOther : ℕ := 4500
def mdnsTtlLegacy : ℕ := 10

/-- `V9xMdnsService`; `txt` is the texts in use. -/
structure MdnsService where
  instanceName : Bytes
  host : Bytes
  port : UInt16
  address : Bytes
  txt : List Bytes
deriving DecidableEq, Repr

/-! ## What is announced -/

def installIdLength : ℕ := 36

/-- `v9x_id_valid`. -/
def idValid (text : Bytes) : Bool :=
  text.length == installIdLength &&
    (List.range installIdLength).all fun i =>
      let ch := text.at' i
      if i = 8 ∨ i = 13 ∨ i = 18 ∨ i = 23 then ch == 45
      else (48 ≤ ch && ch ≤ 57) || (97 ≤ ch && ch ≤ 102) || (65 ≤ ch && ch ≤ 70)

/-- What of the agent's configuration and of the system is announced. The install id is the one
that `v9x_install_id_ensure` leaves. -/
structure MdnsAgent where
  installId : Bytes
  valid : idValid installId = true
  /-- `GetComputerNameA`, `none` where it fails. -/
  computer : Option (CText 16)
  /-- `GetVersion`. -/
  version : UInt32
  allowDosVm : Bool
  listenPort : UInt16
  /-- `V9X_BUILD_ID`. -/
  build : Bytes

/-- `v9x_mdns_append`. -/
def mdnsAppend (target : Bytes) (capacity : ℕ) (text : Bytes) : Bytes :=
  target ++ text.take (capacity - 1 - target.length)

/-- `v9x_mdns_decimal`. -/
def mdnsDecimal (target : Bytes) (capacity value : ℕ) : Bytes := mdnsAppend target capacity (decimal value)

/-- A byte of the computer name that may stand in an instance name. -/
def mdnsPlain (ch : UInt8) : Bool :=
  (65 ≤ ch && ch ≤ 90) || (97 ≤ ch && ch ≤ 122) || (48 ≤ ch && ch ≤ 57) || ch == 45

/-- The instance name, from the computer's name and `id8`. -/
def mdnsInstance (name id8 : Bytes) : Bytes :=
  let shown := (name.take 40).map fun ch => if mdnsPlain ch then ch else 45
  let shown := if shown = [] then mdnsAppend [] 40 (ascii "V9X") else shown
  mdnsAppend (shown ++ [45]) 64 id8

/-- `v9x_mdns_describe`, and the address that `v9x_mdns_set_address` puts in. -/
def mdnsDescribe (agent : MdnsAgent) (address : UInt32) : MdnsService :=
  let id8 := agent.installId.take 8
  let name := (agent.computer.map CText.text).getD []
  let os := mdnsDecimal (mdnsAppend [] 64 (ascii "os=")) 64 (agent.version &&& 0xff).toNat
  { instanceName := mdnsInstance name id8
    host := mdnsAppend (mdnsAppend [] 16 (ascii "v9x-")) 16 id8
    port := agent.listenPort
    address := writeU32 address
    txt :=
      [mdnsAppend (mdnsAppend [] 64 (ascii "id=")) 64 agent.installId,
        mdnsAppend (mdnsAppend [] 64 (ascii "ver=")) 64 agentVersionText,
        mdnsAppend (mdnsAppend [] 64 (ascii "build=")) 64 agent.build,
        mdnsAppend [] 64 (if agent.allowDosVm then ascii "dos=1" else ascii "dos=0"),
        mdnsDecimal (mdnsAppend os 64 (ascii ".")) 64 ((agent.version >>> 8) &&& 0xff).toNat,
        mdnsAppend (mdnsAppend [] 64 (ascii "name=")) 64 name] }

/-! ## The writer -/

/-- `V9xMdnsWriter`, with the buffer itself. -/
structure MdnsWriter where
  out : Bytes
  capacity : ℕ
  offset : ℕ
  failed : Bool
deriving DecidableEq, Repr

abbrev Mdns (α : Type) : Type := Checked MdnsWriter Empty α

/-- A store into the buffer. -/
def mdnsStore (index value : ℕ) : Mdns Unit := do
  let writer ← get
  check (index < writer.out.length)
  modify fun writer => { writer with out := writer.out.set index (UInt8.ofNat value) }

/-- `v9x_mdns_put8`. -/
def mdnsPut8 (value : ℕ) : Mdns Unit := do
  let writer ← get
  if writer.offset ≥ writer.capacity then modify fun writer => { writer with failed := true }
  else
    mdnsStore writer.offset value
    modify fun writer => { writer with offset := writer.offset + 1 }

/-- `v9x_mdns_put16`. -/
def mdnsPut16 (value : ℕ) : Mdns Unit := do
  mdnsPut8 (value / 256)
  mdnsPut8 value

/-- `v9x_mdns_put32`. -/
def mdnsPut32 (value : ℕ) : Mdns Unit := do
  mdnsPut16 (value / 65536 % 65536)
  mdnsPut16 (value % 65536)

/-- The bytes of a text. -/
def mdnsPutBytes : Bytes → Mdns Unit
  | [] => pure ()
  | c :: rest => do
    mdnsPut8 c.toNat
    mdnsPutBytes rest

/-- `v9x_mdns_put_label`. -/
def mdnsPutLabel (text : Bytes) : Mdns Unit := do
  if text.length = 0 ∨ text.length > 63 then modify fun writer => { writer with failed := true }
  else
    mdnsPut8 text.length
    mdnsPutBytes text

/-- The loop over a dotted name, with the label from `start` on. -/
def mdnsPutDotted (label : Bytes) : Bytes → Mdns Unit
  | [] => mdnsPutLabel label
  | c :: rest =>
    if c = 46 then do
      mdnsPutLabel label
      mdnsPutDotted [] rest
    else mdnsPutDotted (label ++ [c]) rest

/-- `v9x_mdns_put_name`. -/
def mdnsPutName (first : Option Bytes) (dotted : Bytes) : Mdns Unit := do
  match first with
  | some label => mdnsPutLabel label
  | none => pure ()
  mdnsPutDotted [] dotted
  mdnsPut8 0

/-! ## Records -/

/-- The records, in the order in which they are written. -/
inductive MdnsWant
  | service
  | enum
  | srv
  | txt
  | a
deriving DecidableEq, Repr

/-- `V9X_MDNS_WANT_*`. -/
def MdnsWant.bit : MdnsWant → UInt32
  | .service => 0x01
  | .enum => 0x02
  | .srv => 0x04
  | .txt => 0x08
  | .a => 0x10

def mdnsWantAll : UInt32 := 0x1f

def mdnsOrder : List MdnsWant := [.service, .enum, .srv, .txt, .a]

/-- `V9X_MDNS_TYPE_*` of a record. -/
def MdnsWant.type : MdnsWant → ℕ
  | .service => 12
  | .enum => 12
  | .srv => 33
  | .txt => 16
  | .a => 1

/-- `v9x_mdns_ttl`. -/
def mdnsTtl (ttl : ℕ) (legacy goodbye : Bool) : ℕ :=
  if goodbye then 0 else if legacy && ttl > mdnsTtlLegacy then mdnsTtlLegacy else ttl

/-- The class of a record: unique ones have the cache-flush bit. -/
def MdnsWant.klass (which : MdnsWant) (legacy : Bool) : ℕ :=
  if (which = .srv ∨ which = .txt ∨ which = .a) ∧ !legacy then 0x8001 else 1

def MdnsWant.ttl (which : MdnsWant) : ℕ := if which = .srv ∨ which = .a then mdnsTtlHost else mdnsTtlOther

/-- The name of a record. -/
def mdnsPutOwner (service : MdnsService) : MdnsWant → Mdns Unit
  | .service => mdnsPutName none mdnsServiceName
  | .enum => mdnsPutName none mdnsEnumName
  | .srv => mdnsPutName (some service.instanceName) mdnsServiceName
  | .txt => mdnsPutName (some service.instanceName) mdnsServiceName
  | .a => mdnsPutName (some service.host) (ascii "local")

/-- The texts, one after the other. -/
def mdnsPutTexts : List Bytes → Mdns Unit
  | [] => pure ()
  | text :: rest => do
    mdnsPut8 (min text.length 255)
    mdnsPutBytes (text.take 255)
    mdnsPutTexts rest

/-- The data of a record. -/
def mdnsPutData (service : MdnsService) : MdnsWant → Mdns Unit
  | .service => mdnsPutName (some service.instanceName) mdnsServiceName
  | .enum => mdnsPutName none mdnsServiceName
  | .srv => do
    mdnsPut16 0
    mdnsPut16 0
    mdnsPut16 service.port.toNat
    mdnsPutName (some service.host) (ascii "local")
  | .txt => do
    if service.txt = [] then mdnsPut8 0 else pure ()
    mdnsPutTexts (service.txt.take mdnsMaxTxt)
  | .a => mdnsPutBytes ((List.range 4).map service.address.at')

/-- `v9x_mdns_record`. -/
def mdnsPutRecord (service : MdnsService) (which : MdnsWant) (legacy goodbye : Bool) : Mdns Unit := do
  mdnsPutOwner service which
  mdnsPut16 which.type
  mdnsPut16 (which.klass legacy)
  mdnsPut32 (mdnsTtl which.ttl legacy goodbye)
  let writer ← get
  let lengthAt := writer.offset
  mdnsPut16 0
  let writer ← get
  let start := writer.offset
  mdnsPutData service which
  let writer ← get
  if !writer.failed then
    mdnsStore lengthAt ((writer.offset - start) / 256)
    mdnsStore (lengthAt + 1) (writer.offset - start)
  else pure ()

/-- The loop of `v9x_mdns_emit`, with `count`. -/
def mdnsEmitFrom (service : MdnsService) (set : UInt32) (legacy goodbye : Bool) (count : ℕ) : List MdnsWant → Mdns ℕ
  | [] => return count
  | which :: rest => do
    if set &&& which.bit ≠ 0 then
      mdnsPutRecord service which legacy goodbye
      mdnsEmitFrom service set legacy goodbye (count + 1) rest
    else mdnsEmitFrom service set legacy goodbye count rest

/-- `v9x_mdns_emit`. -/
def mdnsEmit (service : MdnsService) (set : UInt32) (legacy goodbye : Bool) : Mdns ℕ :=
  mdnsEmitFrom service set legacy goodbye 0 mdnsOrder

/-- What goes along with the wanted records. -/
def mdnsExtra (wants : UInt32) : UInt32 :=
  if wants &&& (MdnsWant.service.bit ||| MdnsWant.srv.bit ||| MdnsWant.txt.bit) ≠ 0 then
    (MdnsWant.srv.bit ||| MdnsWant.txt.bit ||| MdnsWant.a.bit) &&& ~~~wants
  else 0

/-- `v9x_mdns_build_response`: the length, on a writer at the start of its buffer. -/
def mdnsBuildResponse (service : MdnsService) (wants : UInt32) (id : UInt16) (legacy goodbye : Bool) : Mdns ℕ := do
  let wants := wants &&& mdnsWantAll
  if wants = 0 then return 0
  else
    let extra := mdnsExtra wants
    mdnsPut16 (if legacy then id.toNat else 0)
    mdnsPut16 0x8400
    mdnsPut16 0
    mdnsPut16 0
    mdnsPut16 0
    mdnsPut16 0
    let answers ← mdnsEmit service wants legacy goodbye
    let additionals ← mdnsEmit service extra legacy goodbye
    let writer ← get
    if writer.failed then return 0
    else
      mdnsStore 6 (answers / 256)
      mdnsStore 7 answers
      mdnsStore 10 (additionals / 256)
      mdnsStore 11 additionals
      let writer ← get
      return writer.offset

/-!
# mDNS queries (`v9x_mdns_parse_query` in `src/common/mdns.c`)

A name is read into dotted text and compared as a C string. An access outside of the packet
or of the name's buffer ends with `fault`, a `return 0` with `refused`.
-/

def mdnsNameMax : ℕ := 256

inductive MdnsStop
  | fault
  | refused
deriving DecidableEq, Repr

/-- `V9xMdnsQuery`. -/
structure MdnsQuery where
  id : UInt16
  wants : UInt32
  unicast : Bool
deriving DecidableEq, Repr

/-- A byte of the packet. -/
def mdnsByte (packet : Bytes) (i : ℕ) : Except MdnsStop ℕ :=
  match packet[i]? with
  | some b => .ok b.toNat
  | none => .error .fault

/-- A big-endian half word of the packet. -/
def mdnsWord (packet : Bytes) (i : ℕ) : Except MdnsStop ℕ := do
  let high ← mdnsByte packet i
  let low ← mdnsByte packet (i + 1)
  return (high <<< 8) ||| low

/-! ## Names -/

/-- `v9x_mdns_lower`. -/
def mdnsLower (ch : UInt8) : UInt8 := if 65 ≤ ch ∧ ch ≤ 90 then ch + 32 else ch

/-- `v9x_mdns_same`: behind its bytes a text has its NUL. -/
def mdnsSame : Bytes → Bytes → Bool
  | [], right => right.at' 0 == 0
  | ch :: left, right =>
    if ch ≠ 0 ∧ mdnsLower ch = mdnsLower (right.at' 0) then mdnsSame left right.tail
    else ch == 0 && right.at' 0 == 0

/-- `v9x_mdns_join`. -/
def mdnsJoin (first rest : Bytes) : Bytes :=
  let target := (cstr first).take (mdnsNameMax - 2) ++ [46]
  target ++ rest.take (mdnsNameMax - 1 - target.length)

/-- A byte stored into the name's buffer. -/
def mdnsNamePut (name : Bytes) (ch : UInt8) : Except MdnsStop Bytes :=
  if name.length < mdnsNameMax then .ok (name ++ [ch]) else .error .fault

/-- The loop that copies a label. -/
def mdnsCopyLabel (packet : Bytes) : ℕ → ℕ → Bytes → Except MdnsStop Bytes
  | 0, _, name => .ok name
  | label + 1, place, name => do
    let ch ← mdnsByte packet place
    let name ← mdnsNamePut name (UInt8.ofNat ch)
    mdnsCopyLabel packet label (place + 1) name

/-- The loop of `v9x_mdns_read_name`: `after` is where the name ends in place once it has
jumped. The text, and the offset behind the name. -/
def mdnsReadFrom (packet : Bytes) (place jumps : ℕ) (after : Option ℕ) (name : Bytes) :
    Except MdnsStop (Bytes × ℕ) := do
  if place ≥ packet.length then throw .refused
  else
    let label ← mdnsByte packet place
    if label = 0 then
      if name.length < mdnsNameMax then return (name, after.getD (place + 1)) else throw .fault
    else if label &&& 0xc0 = 0xc0 then
      if h : place + 1 ≥ packet.length ∨ jumps + 1 > 16 then throw .refused
      else
        let low ← mdnsByte packet (place + 1)
        mdnsReadFrom packet (((label &&& 0x3f) <<< 8) ||| low) (jumps + 1) (some (after.getD (place + 2))) name
    else if label &&& 0xc0 ≠ 0 ∨ place + 1 + label > packet.length then throw .refused
    else if h : name.length + label + 1 ≥ mdnsNameMax then throw .refused
    else
      let dotted ← if name.length ≠ 0 then mdnsNamePut name 46 else pure name
      let next ← mdnsCopyLabel packet label (place + 1) dotted
      -- a label is not empty
      if h : name.length < next.length then mdnsReadFrom packet (place + 1 + label) jumps after next else throw .fault
termination_by (16 - jumps, mdnsNameMax - name.length)

/-- `v9x_mdns_read_name`. -/
def mdnsReadNameText (packet : Bytes) (offset : ℕ) : Except MdnsStop (Bytes × ℕ) := mdnsReadFrom packet offset 0 none []

/-! ## Questions -/

/-- What a question of this name and type asks for. -/
def mdnsQuestionWants (service : MdnsService) (name : Bytes) (type : ℕ) : UInt32 :=
  if mdnsSame name mdnsServiceName then
    if type = MdnsWant.service.type ∨ type = 255 then MdnsWant.service.bit else 0
  else if mdnsSame name mdnsEnumName then
    if type = MdnsWant.enum.type ∨ type = 255 then MdnsWant.enum.bit else 0
  else if mdnsSame name (mdnsJoin service.instanceName mdnsServiceName) then
    (if type = MdnsWant.srv.type ∨ type = 255 then MdnsWant.srv.bit else 0) |||
      (if type = MdnsWant.txt.type ∨ type = 255 then MdnsWant.txt.bit else 0)
  else if mdnsSame name (mdnsJoin service.host (ascii "local")) then
    if type = MdnsWant.a.type ∨ type = 255 then MdnsWant.a.bit else 0
  else 0

/-- The loop over the questions: so many are left. -/
def mdnsQuestions (packet : Bytes) (service : MdnsService) : ℕ → ℕ → MdnsQuery → Except MdnsStop MdnsQuery
  | 0, _, query => .ok query
  | left + 1, offset, query => do
    let (name, offset) ← mdnsReadNameText packet offset
    if offset + 4 > packet.length then throw .refused
    else
      let type ← mdnsWord packet offset
      let klass ← mdnsWord packet (offset + 2)
      if klass &&& 0x7fff ≠ 1 ∧ klass &&& 0x7fff ≠ 255 then mdnsQuestions packet service left (offset + 4) query
      else
        mdnsQuestions packet service left (offset + 4)
          { query with
            wants := query.wants ||| mdnsQuestionWants service name type
            unicast := query.unicast || decide (klass &&& 0x8000 ≠ 0) }

/-- `v9x_mdns_parse_query`. -/
def mdnsParseQuery (packet : Bytes) (service : MdnsService) : Except MdnsStop MdnsQuery := do
  if packet.length < 12 then throw .refused
  else
    let flags ← mdnsByte packet 2
    if flags &&& 0x80 ≠ 0 then throw .refused
    else if flags &&& 0x78 ≠ 0 then throw .refused
    else
      let id ← mdnsWord packet 0
      let questions ← mdnsWord packet 4
      mdnsQuestions packet service questions 12 ⟨UInt16.ofNat id, 0, false⟩

end V9xRemote
