import Kitrove.Release.Intake
import Mathlib.Data.List.Perm.Basic

/-! The envelope of a release ZIP: its end record, its central records and its local records. -/

namespace Kitrove

open Slices

def endBytes : Nat := 22

def centralBytes : Nat := 46

def localBytes : Nat := 30

def utf8Flag : UInt16 := (1 : UInt16) <<< (11 : UInt16)

inductive ArchiveEntryKind where
  | file
  | directory
  | link
  | special
  deriving DecidableEq

structure ZipEntryRecord where
  name : Bytes
  flags : UInt16
  compression : UInt16
  crc32 : UInt32
  compressedSize : Nat
  expandedSize : Nat
  localStart : Nat
  data : Nat × Nat
  mode : Option UInt32
  kind : ArchiveEntryKind
  deriving DecidableEq

structure ZipEndRecord where
  entries : Nat
  centralStart : Nat
  centralEnd : Nat
  deriving DecidableEq

section Readers

def invalidZip {α : Type} (value : Option α) : Intake α := okOr value .invalidZip

def leU16 (bytes : Bytes) (offset : Nat) : Intake UInt16 := do
  let stop ← plus offset 2
  let _ ← invalidZip (get bytes offset stop)
  pure (u16At bytes offset)

def leU32 (bytes : Bytes) (offset : Nat) : Intake UInt32 := do
  let stop ← plus offset 4
  let _ ← invalidZip (get bytes offset stop)
  pure (u32At bytes offset)

def endSignature : Bytes := ascii "PK" ++ [5, 6]

def centralSignature : Bytes := ascii "PK" ++ [1, 2]

def localSignature : Bytes := ascii "PK" ++ [3, 4]

def zipEntryMode (system : UInt16) (attributes : UInt32) : Intake (Option UInt32) :=
  if system = 3 then pure (if attributes ≠ 0 then some (attributes >>> 16) else none)
  else if system = 0 then do
    -- DOS writers may retain Unix regular-file bits, which must not hide a link or a special file
    refuse (attributes &&& 0xffff &&& ~~~ 0x21 ≠ 0 ∨
      ¬ ((attributes >>> 16) &&& 0o170000 = 0 ∨ (attributes >>> 16) &&& 0o170000 = 0o100000))
      .invalidZip
    let mode : UInt32 := if attributes &&& 1 ≠ 0 then 0o100444 else 0o100664
    pure (if attributes ≠ 0 then some mode else none)
  else throw (.refused .invalidZip)

def entryKind (name : Bytes) (mode : Option UInt32) : ArchiveEntryKind :=
  let slash := (ascii "/").isSuffixOf name
  match mode.map fun value => value &&& 0o170000 with
  | some kind =>
    if kind = 0o120000 then .link
    else if kind = 0o040000 ∧ slash then .directory
    else if kind = 0 ∨ kind = 0o100000 then .file
    else .special
  | none => if slash then .directory else .file

/-- On machines whose words hold 64 bits, where the numbers of the record fit. -/
def parseEndRecord (bytes : Bytes) : Intake ZipEndRecord := do
  let stop ← invalidZip (checkedSub bytes.length endBytes)
  let record ← slice bytes stop bytes.length
  let entries := (← leU16 record 8).toNat
  let centralSize := (← leU32 record 12).toNat
  let centralStart := (← leU32 record 16).toNat
  let centralEnd ← invalidZip (checkedAdd centralStart centralSize)
  refuse (get record 0 4 ≠ some endSignature) .invalidZip
  refuse ((← leU16 record 4) ≠ 0) .invalidZip
  refuse ((← leU16 record 6) ≠ 0) .invalidZip
  refuse (entries ≠ (← leU16 record 10).toNat) .invalidZip
  refuse (entries = 65535 ∨ entries > applicationArchiveLimits.maxEntries) .invalidZip
  refuse ((← leU16 record 20) ≠ 0) .invalidZip
  refuse (centralSize > applicationArchiveLimits.maxZipCentralDirectoryBytes ∨ centralEnd ≠ stop)
    .invalidZip
  pure ⟨entries, centralStart, centralEnd⟩

/-- What one central record is refused for. -/
def refuseCentral (compression : UInt16) (condition : Bool) : Intake Unit :=
  refuse condition
    (if compression = 0 ∨ compression = 8 then .invalidZip else .unsupportedCompression)

/-- The central record at the cursor, and where the next one starts. -/
def parseCentralRecord (bytes : Bytes) (centralEnd cursor : Nat) : Intake (ZipEntryRecord × Nat) := do
  let fixedEnd ← invalidZip ((checkedAdd cursor centralBytes).filter fun position =>
    position ≤ centralEnd)
  let fixed ← slice bytes cursor fixedEnd
  refuse (get fixed 0 4 ≠ some centralSignature) .invalidZip
  let flags ← leU16 fixed 8
  let compression ← leU16 fixed 10
  let compressedSize := (← leU32 fixed 20).toNat
  let expandedSize := (← leU32 fixed 24).toNat
  let nameLen := (← leU16 fixed 28).toNat
  let extraLen := (← leU16 fixed 30).toNat
  let commentLen := (← leU16 fixed 32).toNat
  let localStart := (← leU32 fixed 42).toNat
  let variableEnd ← invalidZip <|
    (((checkedAdd fixedEnd nameLen).bind fun position => checkedAdd position extraLen).bind
      fun position => checkedAdd position commentLen).filter fun position => position ≤ centralEnd
  refuseCentral compression (flags &&& ~~~ utf8Flag ≠ 0 ∨ ¬ (compression = 0 ∨ compression = 8) ∨
    (compression = 0 ∧ compressedSize ≠ expandedSize) ∨
    nameLen > applicationArchiveLimits.maxPathBytes ∨ compressedSize = 4294967295 ∨
    expandedSize = 4294967295 ∨ localStart = 4294967295)
  refuseCentral compression ((← leU16 fixed 34) ≠ 0 ∨ extraLen ≠ 0 ∨ commentLen ≠ 0)
  let nameEnd ← plus fixedEnd nameLen
  let name ← slice bytes fixedEnd nameEnd
  let madeBy := (← leU16 fixed 4) >>> 8
  let external ← leU32 fixed 38
  let mode ← zipEntryMode madeBy external
  let kind := entryKind name mode
  let crc32 ← leU32 fixed 16
  pure (⟨name, flags, compression, crc32, compressedSize, expandedSize, localStart, (0, 0), mode,
    kind⟩, variableEnd)

def parseCentralLoop (bytes : Bytes) (centralEnd : Nat) : Nat → Nat →
    Intake (List ZipEntryRecord × Nat)
  | 0, cursor => pure ([], cursor)
  | entries + 1, cursor => do
    let (record, next) ← parseCentralRecord bytes centralEnd cursor
    let (records, stop) ← parseCentralLoop bytes centralEnd entries next
    pure (record :: records, stop)

def parseCentralRecords (bytes : Bytes) (zipEnd : ZipEndRecord) : Intake (List ZipEntryRecord) := do
  let (records, cursor) ← parseCentralLoop bytes zipEnd.centralEnd zipEnd.entries zipEnd.centralStart
  refuse (cursor ≠ zipEnd.centralEnd) .invalidZip
  pure records

/-- The data of the local record that a central record stands for. -/
def parseLocalRecord (bytes : Bytes) (centralStart : Nat) (record : ZipEntryRecord)
    (expectedStart : Nat) : Intake (Nat × Nat) := do
  let localStart := record.localStart
  refuse (localStart ≠ expectedStart) .invalidZip
  let fixedEnd ← invalidZip ((checkedAdd localStart localBytes).filter fun position =>
    position ≤ centralStart)
  let fixed ← slice bytes localStart fixedEnd
  let nameLen := (← leU16 fixed 26).toNat
  let extraLen := (← leU16 fixed 28).toNat
  let dataStart ← invalidZip <|
    ((checkedAdd fixedEnd nameLen).bind fun position => checkedAdd position extraLen).filter
      fun position => position ≤ centralStart
  let dataEnd ← invalidZip ((checkedAdd dataStart record.compressedSize).filter fun position =>
    position ≤ centralStart)
  refuse (get fixed 0 4 ≠ some localSignature) .invalidZip
  refuse ((← leU16 fixed 6) ≠ record.flags) .invalidZip
  refuse ((← leU16 fixed 8) ≠ record.compression) .invalidZip
  refuse ((← leU32 fixed 14) ≠ record.crc32) .invalidZip
  refuse ((← leU32 fixed 18).toNat ≠ record.compressedSize) .invalidZip
  refuse ((← leU32 fixed 22).toNat ≠ record.expandedSize) .invalidZip
  refuse (extraLen ≠ 0) .invalidZip
  let nameEnd ← plus fixedEnd nameLen
  refuse (get bytes fixedEnd nameEnd ≠ some record.name) .invalidZip
  pure (dataStart, dataEnd)

/-- The local record of one index, after those with smaller starts. -/
def validateLocalStep (bytes : Bytes) (centralStart : Nat) (s : List ZipEntryRecord × Nat)
    (i : Nat) : Intake (List ZipEntryRecord × Nat) := do
  let record ← index s.1 i
  let data ← parseLocalRecord bytes centralStart record s.2
  pure (s.1.set i { record with data }, data.2)

/-- The indices by the starts of their records. A start that two records have is refused in either
order, so that it does not matter that the source sorts unstably. -/
def localOrder (records : List ZipEntryRecord) : List Nat :=
  (List.range records.length).mergeSort fun i j =>
    (records[i]?.map ZipEntryRecord.localStart).getD 0 ≤
      (records[j]?.map ZipEntryRecord.localStart).getD 0

def validateLocalRecords (bytes : Bytes) (zipEnd : ZipEndRecord) (records : List ZipEntryRecord) :
    Intake (List ZipEntryRecord) := do
  let (records, expectedStart) ←
    (localOrder records).foldlM (validateLocalStep bytes zipEnd.centralStart) (records, 0)
  refuse (expectedStart ≠ zipEnd.centralStart) .invalidZip
  pure records

/-- The three passes before the library reads the archive again. -/
def readZipEnvelope (bytes : Bytes) : Intake (List ZipEntryRecord) := do
  let zipEnd ← parseEndRecord bytes
  let records ← parseCentralRecords bytes zipEnd
  validateLocalRecords bytes zipEnd records

end Readers

end Kitrove
