import V9xRemote.Spec.Inflate
import V9xRemote.Spec.Upload

/-!
# Zip reading (`src/common/zipread.c`)

One archive in one buffer. Every read is checked to lie in the archive, every write to lie in
the output, and every sum and difference of sizes and offsets to stay in 32 bits: a program
that does not keep to this is stuck. A pointer into the archive is its offset.
-/

namespace V9xRemote

open Bytes Checked

inductive ZipStatus
  | noEnd
  | badEnd
  | multiDisk
  | zip64
  | badCentral
  | badIndex
  | notFound
  | duplicate
  | unsafeName
  | encrypted
  | badMethod
  | badLocal
  | nameMismatch
  | outputFull
  | badData
  | badSize
  | badCrc
deriving DecidableEq, Repr

def zipEndSignature : UInt32 := 0x06054B50
def zipEndFixed : ℕ := 22
def zipEndSearch : ℕ := 65557
def zipCentralSignature : UInt32 := 0x02014B50
def zipCentralFixed : ℕ := 46
def zipLocalSignature : UInt32 := 0x04034B50
def zipLocalFixed : ℕ := 30
def zipFlagsEncrypted : UInt16 := 0x2041
def zipMethodStored : UInt16 := 0
def zipMethodDeflate : UInt16 := 8
def zipU16Saturated : UInt16 := 0xFFFF
def zipU32Saturated : UInt32 := 0xFFFFFFFF

/-- `struct v9x_zip`; the length is the data's. -/
structure ZipArchive where
  data : Bytes
  directoryOffset : ℕ
  directorySize : ℕ
  entryCount : ℕ
deriving DecidableEq, Repr

/-- `struct v9x_zip_entry`, the name by its place in the archive. -/
structure ZipEntry where
  index : ℕ
  flags : UInt16
  method : UInt16
  nameLength : ℕ
  name : ℕ
  crc32 : UInt32
  compressedSize : ℕ
  uncompressedSize : ℕ
  localOffset : ℕ
deriving DecidableEq, Repr

abbrev Zip (σ α : Type) : Type := Checked σ ZipStatus α

variable {σ : Type}

/-! ## Accesses -/

/-- A sum of `v9x_u32` that does not wrap. -/
def sum32 (a b : ℕ) : Zip σ ℕ := do
  check (a + b < 2 ^ 32)
  return a + b

/-- A difference of `v9x_u32` that does not wrap. -/
def sub32 (a b : ℕ) : Zip σ ℕ := do
  check (b ≤ a)
  return a - b

def zipRead8 (data : Bytes) (offset : ℕ) : Zip σ UInt8 := do
  check (offset < data.length)
  return data.at' offset

/-- `v9x_zip_read16` at a field of a record. -/
def zipRead16 (data : Bytes) (record field : ℕ) : Zip σ UInt16 := do
  check (record + field + 2 ≤ data.length)
  return data.readU16 (record + field)

/-- `v9x_zip_read32` at a field of a record. -/
def zipRead32 (data : Bytes) (record field : ℕ) : Zip σ UInt32 := do
  check (record + field + 4 ≤ data.length)
  return data.readU32 (record + field)

/-! ## The directory -/

/-- The fields of a central record. -/
def zipEntryFields (data : Bytes) (record index : ℕ) : Zip σ ZipEntry := do
  let flags ← zipRead16 data record 8
  let method ← zipRead16 data record 10
  let crc32 ← zipRead32 data record 16
  let compressedSize ← zipRead32 data record 20
  let uncompressedSize ← zipRead32 data record 24
  let nameLength ← zipRead16 data record 28
  let localOffset ← zipRead32 data record 42
  return ⟨index, flags, method, nameLength.toNat, record + zipCentralFixed, crc32, compressedSize.toNat,
    uncompressedSize.toNat, localOffset.toNat⟩

/-- `v9x_zip_read_central`: the entry, and where the next record starts. -/
def zipReadCentral (data : Bytes) (offset stop index : ℕ) : Zip σ (ZipEntry × ℕ) := do
  if offset > stop then Checked.stop .badCentral
  else
    let room ← sub32 stop offset
    if room < zipCentralFixed then Checked.stop .badCentral
    else
      let signature ← zipRead32 data offset 0
      if signature ≠ zipCentralSignature then Checked.stop .badCentral
      else
        let nameLength ← zipRead16 data offset 28
        let extraLength ← zipRead16 data offset 30
        let commentLength ← zipRead16 data offset 32
        let length ← sum32 zipCentralFixed nameLength.toNat
        let length ← sum32 length extraLength.toNat
        let length ← sum32 length commentLength.toNat
        if room < length then Checked.stop .badCentral
        else
          let entry ← zipEntryFields data offset index
          let disk ← zipRead16 data offset 34
          if disk ≠ 0 then Checked.stop .multiDisk
          else if entry.compressedSize = zipU32Saturated.toNat ∨ entry.uncompressedSize = zipU32Saturated.toNat ∨
              entry.localOffset = zipU32Saturated.toNat then
            Checked.stop .zip64
          else
            let next ← sum32 offset length
            return (entry, next)

/-- The loop of `v9x_zip_walk`, with the entry it read last. -/
def zipWalkFrom (data : Bytes) (stop index : ℕ) : ℕ → ℕ → ℕ → Option ZipEntry → Zip σ (Option ZipEntry)
  | 0, _, offset, last => if offset ≠ stop then Checked.stop .badCentral else pure last
  | left + 1, i, offset, _ => do
    let (entry, next) ← zipReadCentral data offset stop i
    if i = index then return some entry
    else zipWalkFrom data stop index left (i + 1) next (some entry)

/-- `v9x_zip_walk`. -/
def zipWalk (archive : ZipArchive) (index : ℕ) : Zip σ (Option ZipEntry) := do
  let stop ← sum32 archive.directoryOffset archive.directorySize
  zipWalkFrom archive.data stop index archive.entryCount 0 archive.directoryOffset none

/-- Whether an end record stands at a position: its comment runs to the end of the buffer. -/
def zipEndAt (data : Bytes) (position : ℕ) : Zip σ Bool := do
  let signature ← zipRead32 data position 0
  if signature ≠ zipEndSignature then return false
  else
    let comment ← zipRead16 data position 20
    let room ← sub32 data.length position
    let room ← sub32 room zipEndFixed
    return comment.toNat = room

/-- The search backwards for the end record. -/
def zipFindEnd (data : Bytes) (floor : ℕ) : ℕ → Zip σ ℕ
  | 0 => do
    if ← zipEndAt data 0 then return 0
    else
      check (0 = floor)
      Checked.stop .noEnd
  | position + 1 => do
    if ← zipEndAt data (position + 1) then return position + 1
    else if position + 1 = floor then Checked.stop .noEnd
    else zipFindEnd data floor position

/-- `v9x_zip_open`. -/
def zipOpen (data : Bytes) : Zip σ ZipArchive := do
  if data.length < zipEndFixed then Checked.stop .noEnd
  else
    let floor := if data.length > zipEndSearch then data.length - zipEndSearch else 0
    let last ← sub32 data.length zipEndFixed
    let position ← zipFindEnd data floor last
    let entriesHere ← zipRead16 data position 8
    let entriesTotal ← zipRead16 data position 10
    let directorySize ← zipRead32 data position 12
    let directoryOffset ← zipRead32 data position 16
    if entriesTotal = zipU16Saturated ∨ entriesHere = zipU16Saturated ∨ directorySize = zipU32Saturated ∨
        directoryOffset = zipU32Saturated then
      Checked.stop .zip64
    else
      let thisDisk ← zipRead16 data position 4
      let startDisk ← zipRead16 data position 6
      if thisDisk ≠ 0 ∨ startDisk ≠ 0 ∨ entriesHere ≠ entriesTotal then Checked.stop .multiDisk
      else if directoryOffset.toNat > position then Checked.stop .badEnd
      else
        let room ← sub32 position directoryOffset.toNat
        if room < directorySize.toNat then Checked.stop .badEnd
        else
          let archive : ZipArchive := ⟨data, directoryOffset.toNat, directorySize.toNat, entriesTotal.toNat⟩
          let _ ← zipWalk archive archive.entryCount
          return archive

/-- `v9x_zip_entry_at`. -/
def zipEntryAt (archive : ZipArchive) (index : ℕ) : Zip σ (Option ZipEntry) :=
  if index ≥ archive.entryCount then Checked.stop .badIndex else zipWalk archive index

/-! ## Extraction -/

/-- The caller's output: the buffer, and what is stored in `output_length`. -/
structure ZipOutput where
  buffer : Bytes
  length : ℕ
deriving DecidableEq, Repr

/-- The local name against the central one, byte by byte. -/
def zipCompareName (data : Bytes) (here there : ℕ) (length : ℕ) : Zip σ Unit :=
  (List.range length).foldlM
    (fun _ i => do
      let a ← zipRead8 data (here + i)
      let b ← zipRead8 data (there + i)
      if a ≠ b then Checked.stop .nameMismatch else return ())
    ()

/-- The stored data, byte by byte. -/
def zipCopy (data : Bytes) (offset length : ℕ) : Zip ZipOutput Unit := do
  (List.range length).foldlM
    (fun _ i => do
      let from' ← sum32 offset i
      let b ← zipRead8 data from'
      let out ← get
      check (i < out.buffer.length)
      modify fun out => { out with buffer := out.buffer.set i b })
    ()
  modify fun out => { out with length := length }

/-- `v9x_inflate_with_state` into the first `capacity` bytes of the output. -/
def zipInflate (scratch : InflateScratch) (data : Bytes) (offset length capacity : ℕ) : Zip ZipOutput InflateStatus := do
  check (offset + length ≤ data.length)
  let out ← get
  check (capacity ≤ out.buffer.length)
  match inflateWithState scratch ((data.drop offset).take length) (out.buffer.take capacity) with
  | none => do
    check False
    return .ok
  | some r => do
    modify fun out => ⟨r.output ++ out.buffer.drop capacity, r.outputLength⟩
    return r.status

/-- The data at its place, stored or deflated. -/
def zipUnpack (scratch : InflateScratch) (data : Bytes) (entry : ZipEntry) (offset : ℕ) : Zip ZipOutput Unit := do
  if entry.method = zipMethodStored then
    if entry.compressedSize ≠ entry.uncompressedSize then Checked.stop .badSize
    else zipCopy data offset entry.compressedSize
  else
    let status ← zipInflate scratch data offset entry.compressedSize entry.uncompressedSize
    if status = .outputFull then Checked.stop .badSize
    else if status ≠ .ok then Checked.stop .badData
    else
      let out ← get
      if out.length ≠ entry.uncompressedSize then Checked.stop .badSize else return ()

/-- The CRC of what was written. -/
def zipCheckCrc (entry : ZipEntry) : Zip ZipOutput Unit := do
  let out ← get
  check (out.length ≤ out.buffer.length)
  if crc32 (out.buffer.take out.length) ≠ entry.crc32 then Checked.stop .badCrc else return ()

/-- The middle of `v9x_zip_extract`: the local header; where the data starts. -/
def zipExtractLocal (archive : ZipArchive) (entry : ZipEntry) : Zip σ ℕ := do
  if entry.localOffset > archive.directoryOffset then Checked.stop .badLocal
  else
    let room ← sub32 archive.directoryOffset entry.localOffset
    if room < zipLocalFixed then Checked.stop .badLocal
    else
      let signature ← zipRead32 archive.data entry.localOffset 0
      if signature ≠ zipLocalSignature then Checked.stop .badLocal
      else
        let nameLength ← zipRead16 archive.data entry.localOffset 26
        let extraLength ← zipRead16 archive.data entry.localOffset 28
        let headerLength ← sum32 zipLocalFixed nameLength.toNat
        let headerLength ← sum32 headerLength extraLength.toNat
        if room < headerLength then Checked.stop .badLocal
        else
          let flags ← zipRead16 archive.data entry.localOffset 6
          if flags &&& zipFlagsEncrypted ≠ 0 then Checked.stop .encrypted
          else
            let method ← zipRead16 archive.data entry.localOffset 8
            if method ≠ entry.method then Checked.stop .badLocal
            else if nameLength.toNat ≠ entry.nameLength then Checked.stop .nameMismatch
            else
              zipCompareName archive.data (entry.localOffset + zipLocalFixed) entry.name entry.nameLength
              let room ← sub32 room headerLength
              if room < entry.compressedSize then Checked.stop .badLocal
              else sum32 entry.localOffset headerLength

/-- `v9x_zip_extract`. -/
def zipExtract (scratch : InflateScratch) (archive : ZipArchive) (index : ℕ) : Zip ZipOutput Unit := do
  modify fun out => { out with length := 0 }
  match ← zipEntryAt archive index with
  | none => check False
  | some entry =>
    if entry.flags &&& zipFlagsEncrypted ≠ 0 then Checked.stop .encrypted
    else if entry.method ≠ zipMethodStored ∧ entry.method ≠ zipMethodDeflate then Checked.stop .badMethod
    else
      let out ← get
      if out.buffer.length < entry.uncompressedSize then Checked.stop .outputFull
      else
        let offset ← zipExtractLocal archive entry
        zipUnpack scratch archive.data entry offset
        zipCheckCrc entry

/-! ## Names -/

/-- `v9x_zip_ascii_upper`. -/
def zipAsciiUpper (c : UInt8) : UInt8 := if 97 ≤ c ∧ c ≤ 122 then c - 32 else c

/-- `v9x_zip_is_device`: the device names of Windows 9x, with any extension. -/
def zipIsDevice (name : Bytes) : Bool :=
  let stem : Bytes := (name.takeWhile (· ≠ 46)).map zipAsciiUpper
  (["CON", "PRN", "AUX", "NUL", "CLOCK$"].any fun device => stem == ascii device) ||
    (stem.length == 4 && 49 ≤ stem.at' 3 && stem.at' 3 ≤ 57 &&
      (stem.take 3 == ascii "COM" || stem.take 3 == ascii "LPT"))

/-- A byte that no name may hold. -/
def zipNameByteBad (c : UInt8) : Bool := c ≤ 32 || c > 126 || c ∈ ascii "/\\:*?\"<>|"

/-- `v9x_zip_name_is_safe`. -/
def zipNameIsSafe (name : Bytes) (maxLength : ℕ) : Bool :=
  name.length != 0 && name.length ≤ maxLength && !name.any zipNameByteBad && !((name.zip name.tail).contains (46, 46)) &&
    name.getLast? != some 46 && !zipIsDevice name

/-! ## Lookup -/

/-- `V9X_ZIP_NAME_MAX_8_3`. -/
def zipNameMax83 : ℕ := 12

/-- `v9x_zip_same_name`, from an index on. -/
def zipSameName (data : Bytes) (here : ℕ) (wanted : Bytes) : ℕ → ℕ → Zip σ Bool
  | 0, _ => return true
  | left + 1, i => do
    let a ← zipRead8 data (here + i)
    check (i < wanted.length)
    if zipAsciiUpper a ≠ zipAsciiUpper (wanted.at' i) then return false
    else zipSameName data here wanted left (i + 1)

/-- The loop of `v9x_zip_find`. The caller's entry is what the state holds. -/
def zipFindFrom (archive : ZipArchive) (wanted : Bytes) : ℕ → ℕ → ℕ → Zip (Option ZipEntry) Unit
  | 0, _, found => if found = 0 then Checked.stop .notFound else return ()
  | left + 1, index, found => do
    match ← zipWalk archive index with
    | none => check False
    | some candidate =>
      if candidate.nameLength ≠ wanted.length then zipFindFrom archive wanted left (index + 1) found
      else
        let same ← zipSameName archive.data candidate.name wanted wanted.length 0
        if !same then zipFindFrom archive wanted left (index + 1) found
        else if found + 1 > 1 then Checked.stop .duplicate
        else
          modify fun _ => some candidate
          zipFindFrom archive wanted left (index + 1) (found + 1)

/-- `v9x_zip_find`. -/
def zipFind (archive : ZipArchive) (name : Bytes) : Zip (Option ZipEntry) Unit :=
  let wanted := name.cstr.take (zipNameMax83 + 1)
  if !zipNameIsSafe wanted zipNameMax83 then Checked.stop .unsafeName
  else zipFindFrom archive wanted archive.entryCount 0 0

end V9xRemote
