import V9xRemote.Spec.McpCodec

/-!
# mDNS answers on the host (`mcp/v9x_mcp.py`)

`parse_mdns_packet` and `fold_mdns_replies`. DNS is big-endian.
-/

namespace V9xRemote

open Bytes

def mdnsService : Bytes := ascii "_v9xremote._tcp.local"

/-- A big-endian 16-bit field. -/
def readBe16 (s : Bytes) (i : ℕ) : ℕ := (s.at' i).toNat * 256 + (s.at' (i + 1)).toNat

/-- A big-endian 32-bit field. -/
def readBe32 (s : Bytes) (i : ℕ) : ℕ := readBe16 s i * 65536 + readBe16 s (i + 2)

/-- The labels of a name from `offset` on, after `jumps` pointers, and the offset
behind the name; `ended` is set at the first pointer. -/
def mdnsLabels (packet : Bytes) (jumps offset : ℕ) (ended : Option ℕ) : Except PyExc (List Bytes × ℕ) :=
  if offset ≥ packet.length then .error (v9xFail "truncated DNS name")
  else
    let length := (packet.at' offset).toNat
    if length = 0 then .ok ([], ended.getD (offset + 1))
    else if length ≥ 192 then
      if offset + 1 ≥ packet.length || jumps + 1 > 16 then .error (v9xFail "invalid DNS compression pointer")
      else
        mdnsLabels packet (jumps + 1) ((length - 192) * 256 + (packet.at' (offset + 1)).toNat)
          (some (ended.getD (offset + 2)))
    else if length ≥ 64 || offset + 1 + length > packet.length then .error (v9xFail "invalid DNS label")
    else
      match mdnsLabels packet jumps (offset + 1 + length) ended with
      | .error x => .error x
      | .ok (labels, behind) => .ok ((packet.drop (offset + 1)).take length :: labels, behind)
termination_by (17 - jumps, packet.length - offset)
decreasing_by
  · left; simp_all; omega
  · right; simp_all; omega

/-- `mdns_read_name`. -/
def mdnsReadName (packet : Bytes) (offset : ℕ) : Except PyExc (Bytes × ℕ) := do
  let (labels, behind) ← mdnsLabels packet 0 offset none
  return ((labels.intersperse (ascii ".")).flatten, behind)

inductive MdnsData
  | address (a : Bytes)
  | pointer (name : Bytes)
  | service (port : ℕ) (target : Bytes)
  | texts (ts : List Bytes)
  | other
deriving DecidableEq, Repr

structure MdnsRecord where
  name : Bytes
  type : ℕ
  ttl : ℕ
  data : MdnsData
deriving DecidableEq, Repr

/-- The strings of a TXT record, from `start` on. -/
def mdnsTexts (rdata : Bytes) (start : ℕ) : Except PyExc (List Bytes) :=
  if start ≥ rdata.length then .ok []
  else
    let size := (rdata.at' start).toNat
    if start + 1 + size > rdata.length then .error (v9xFail "invalid DNS TXT record")
    else
      match mdnsTexts rdata (start + 1 + size) with
      | .error x => .error x
      | .ok rest => .ok (if size = 0 then rest else (rdata.drop (start + 1)).take size :: rest)
termination_by rdata.length - start

/-- A record's data. -/
def mdnsData (packet rdata : Bytes) (rtype offset length : ℕ) : Except PyExc MdnsData := do
  if rtype = 1 then
    if length ≠ 4 then
      throw (v9xFail "invalid DNS A record")
    return .address rdata
  else if rtype = 12 then
    let (name, _) ← mdnsReadName packet offset
    return .pointer name
  else if rtype = 33 then
    if length < 7 then
      throw (v9xFail "invalid DNS SRV record")
    let head ← unpackFrom packet offset 6
    let (target, _) ← mdnsReadName packet (offset + 6)
    return .service (readBe16 head 4) target
  else if rtype = 16 then
    let texts ← mdnsTexts rdata 0
    return .texts texts
  else return .other

def mdnsRecord (packet : Bytes) (offset : ℕ) : Except PyExc (MdnsRecord × ℕ) := do
  let (name, offset) ← mdnsReadName packet offset
  if offset + 10 > packet.length then
    throw (v9xFail "truncated DNS record")
  let head ← unpackFrom packet offset 10
  let length := readBe16 head 8
  if offset + 10 + length > packet.length then
    throw (v9xFail "truncated DNS record data")
  let data ← mdnsData packet ((packet.drop (offset + 10)).take length) (readBe16 head 0) (offset + 10) length
  return (⟨name, readBe16 head 0, readBe32 head 4, data⟩, offset + 10 + length)

/-- A question: its name, and four bytes. -/
def mdnsQuestion (packet : Bytes) (offset : ℕ) : Except PyExc (Bytes × ℕ) := do
  let (name, offset) ← mdnsReadName packet offset
  return (name, offset + 4)

structure MdnsPacket where
  isResponse : Bool
  records : List MdnsRecord
deriving DecidableEq, Repr

/-- `parse_mdns_packet`. -/
def parseMdnsPacket (packet : Bytes) : Except PyExc MdnsPacket := do
  if packet.length < 12 then
    throw (v9xFail "truncated DNS header")
  let head ← unpackFrom packet 0 12
  let (_, offset) ← parseEntries (mdnsQuestion packet) (readBe16 head 4) 12
  let (records, _) ← parseEntries (mdnsRecord packet) (readBe16 head 6 + readBe16 head 8 + readBe16 head 10) offset
  return ⟨readBe16 head 2 ≥ 32768, records⟩

/-- An agent that answered. -/
structure FoundAgent where
  installId : Bytes
  address : Bytes
  port : ℕ
deriving DecidableEq, Repr

/-- ASCII lower case of a text. -/
def lowerText (s : Bytes) : Bytes := s.map lower

/-- The last entry of a name in an association list that grows at its end. -/
def lastOf {α : Type} (entries : List (Bytes × α)) (key : Bytes) : Option α :=
  ((entries.reverse.find? fun entry => entry.1 = key).map (·.2))

/-- `fold_mdns_replies`, with a source's address as it is given: the agents whose
service pointer stands, in the order in which it came. -/
def foldMdnsReplies (replies : List (Bytes × MdnsPacket)) : List FoundAgent :=
  let records := replies.flatMap fun reply => reply.2.records.map fun record => (reply.1, record)
  let instances := records.foldl (fun (found : List (Bytes × Bytes)) (source, record) =>
    match record.data with
    | .pointer name =>
      if record.type = 12 && lowerText record.name = mdnsService then
        if record.ttl = 0 then found.filter fun entry => entry.1 ≠ lowerText name
        else if found.any fun entry => entry.1 = lowerText name then
          found.map fun entry => if entry.1 = lowerText name then (entry.1, source) else entry
        else found ++ [(lowerText name, source)]
      else found
    | _ => found) []
  let services := records.filterMap fun (_, record) =>
    match record.data with
    | .service port target => some (lowerText record.name, port, target)
    | _ => none
  let texts := records.filterMap fun (_, record) =>
    match record.data with
    | .texts ts => some (lowerText record.name, ts)
    | _ => none
  let addresses := records.filterMap fun (_, record) =>
    match record.data with
    | .address a => if record.ttl = 0 then none else some (lowerText record.name, a)
    | _ => none
  instances.map fun (key, source) =>
    let service := lastOf services key
    let fields := ((lastOf texts key).getD []).filterMap fun entry =>
      let name := entry.takeWhile (· != 61)
      if name.length < entry.length && name ≠ [] then some (name, entry.drop (name.length + 1)) else none
    ⟨(lastOf fields (ascii "id")).getD [],
      ((service.map fun s => s.2).bind fun target => lastOf addresses (lowerText target)).getD source,
      (service.map fun s => s.1).getD 9869⟩

/-!
# mDNS packets on the host, field by field (`mcp/v9x_mcp.py`)

`parse_mdns_packet` with all that it returns. A text is its code points; `MdnsPacket` is what
of this the discovery of agents uses.
-/

/-- `.decode("ascii", "replace")`. -/
def asciiReplace (s : Bytes) : PyStr := s.map fun b => if b < 128 then b.toNat else 0xFFFD

/-- `mdns_read_name`. -/
def dnsReadName (packet : Bytes) (offset : ℕ) : Except PyExc (PyStr × ℕ) := do
  let (labels, behind) ← mdnsLabels packet 0 offset none
  return (((labels.map asciiReplace).intersperse [46]).flatten, behind)

/-- The `data` of a record. -/
inductive DnsData
  | address (text : PyStr)
  | pointer (name : PyStr)
  | service (priority weight port : ℕ) (target : PyStr)
  | texts (ts : List PyStr)
  | hex (text : PyStr)
deriving DecidableEq, Repr

structure DnsRecord where
  name : PyStr
  type : ℕ
  klass : ℕ
  cacheFlush : Bool
  ttl : ℕ
  data : DnsData
deriving DecidableEq, Repr

/-- `socket.inet_ntoa`. -/
def inetNtoa (rdata : Bytes) : PyStr := ((rdata.map fun b => (decimal b.toNat).map UInt8.toNat).intersperse [46]).flatten

/-- `bytes.hex`. -/
def hexOf (rdata : Bytes) : PyStr :=
  rdata.flatMap fun b => [b.toNat / 16, b.toNat % 16].map fun d => if d < 10 then 48 + d else 87 + d

def dnsData (packet rdata : Bytes) (rtype offset length : ℕ) : Except PyExc DnsData := do
  if rtype = 1 then
    if length ≠ 4 then
      throw (v9xFail "invalid DNS A record")
    return .address (inetNtoa rdata)
  else if rtype = 12 then
    let (name, _) ← dnsReadName packet offset
    return .pointer name
  else if rtype = 33 then
    if length < 7 then
      throw (v9xFail "invalid DNS SRV record")
    let head ← unpackFrom packet offset 6
    let (target, _) ← dnsReadName packet (offset + 6)
    return .service (readBe16 head 0) (readBe16 head 2) (readBe16 head 4) target
  else if rtype = 16 then
    let texts ← mdnsTexts rdata 0
    return .texts (texts.map asciiReplace)
  else return .hex (hexOf rdata)

def dnsRecord (packet : Bytes) (offset : ℕ) : Except PyExc (DnsRecord × ℕ) := do
  let (name, offset) ← dnsReadName packet offset
  if offset + 10 > packet.length then
    throw (v9xFail "truncated DNS record")
  let head ← unpackFrom packet offset 10
  let rclass := readBe16 head 2
  let length := readBe16 head 8
  if offset + 10 + length > packet.length then
    throw (v9xFail "truncated DNS record data")
  let data ← dnsData packet ((packet.drop (offset + 10)).take length) (readBe16 head 0) (offset + 10) length
  return (⟨name, readBe16 head 0, rclass % 0x8000, rclass ≥ 0x8000, readBe32 head 4, data⟩, offset + 10 + length)

structure DnsPacket where
  id : ℕ
  isResponse : Bool
  records : List DnsRecord
deriving DecidableEq, Repr

/-- `parse_mdns_packet`. -/
def parseDnsPacket (packet : Bytes) : Except PyExc DnsPacket := do
  if packet.length < 12 then
    throw (v9xFail "truncated DNS header")
  let head ← unpackFrom packet 0 12
  let (_, offset) ← parseEntries (mdnsQuestion packet) (readBe16 head 4) 12
  let (records, _) ← parseEntries (dnsRecord packet) (readBe16 head 6 + readBe16 head 8 + readBe16 head 10) offset
  return ⟨readBe16 head 0, readBe16 head 2 ≥ 0x8000, records⟩

end V9xRemote
