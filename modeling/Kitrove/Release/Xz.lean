import Kitrove.Release.Intake

/-! The envelope of a release XZ: its index, its block headers, and the chunks of its blocks. -/

namespace Kitrove

open Slices

section Readers

def invalidXz {α : Type} (value : Option α) : Intake α := okOr value .invalidXz

def parseXzVliLoop : Bytes → Nat → Nat → Intake (Nat × Nat)
  | [], _, _ => throw (.refused .invalidXz)
  | byte :: bytes, index, value => do
    let part ← invalidXz (checkedShl (byte &&& 0x7f).toNat (index * 7))
    let value ← invalidXz (checkedAdd value part)
    if byte &&& 0x80 = 0 then
      if index ≠ 0 ∧ byte = 0 then throw (.refused .invalidXz) else pure (value, index + 1)
    else parseXzVliLoop bytes (index + 1) value

/-- A number of up to nine bytes with seven bits each, and how many bytes it takes. -/
def parseXzVli (bytes : Bytes) : Intake (Nat × Nat) := parseXzVliLoop (bytes.take 9) 0 0

def beU16 (bytes : Bytes) (position : Nat) : Intake Nat := do
  let stop ← invalidXz (checkedAdd position 2)
  let value ← invalidXz (get bytes position stop)
  let high ← index value 0
  let low ← index value 1
  pure (high.toNat * 256 + low.toNat)

/-- The sizes behind the control byte of a chunk: where its data start, and how many bytes it has. -/
def scanLzma2Sizes (bytes : Bytes) (control : UInt8) (position : Nat) : Intake (Nat × Nat) :=
  if control = 1 ∨ control = 2 then do
    let size ← beU16 bytes position
    let position ← plus position 2
    pure (position, size + 1)
  else if 0x80 ≤ control then do
    let position ← invalidXz (checkedAdd position 2)
    let size ← beU16 bytes position
    let position ← plus position 2
    let position ← invalidXz (if 0xc0 ≤ control then checkedAdd position 1 else some position)
    pure (position, size + 1)
  else throw (.refused .invalidXz)

/-- One chunk of an LZMA2 stream: where the stream ends, or where the next chunk starts. -/
def scanLzma2Chunk (bytes : Bytes) (payloadEnd position : Nat) : Intake (Nat ⊕ Nat) := do
  let control ← invalidXz (bytes[position]?.filter fun _ => position < payloadEnd)
  let position ← plus position 1
  if control = 0 then pure (.inl position)
  else do
    let (position, payloadSize) ← scanLzma2Sizes bytes control position
    let next ← invalidXz ((checkedAdd position payloadSize).filter fun position =>
      position ≤ payloadEnd)
    pure (.inr next)

def scanLzma2Loop (bytes : Bytes) (payloadEnd : Nat) : Nat → Nat → Intake Nat
  | 0, _ => throw .outOfFuel
  | fuel + 1, position => do
    match ← scanLzma2Chunk bytes payloadEnd position with
    | .inl stop => pure stop
    | .inr next => scanLzma2Loop bytes payloadEnd fuel next

/-- The physical end of one LZMA2 stream. Each chunk is a step forward, so that the loop ends. -/
def scanLzma2Stream (bytes : Bytes) (position payloadEnd : Nat) : Intake Nat :=
  scanLzma2Loop bytes payloadEnd (payloadEnd - position + 1) position

def lzma2DictionarySize (property : UInt8) : Intake Nat := do
  refuse (property > 40) .invalidXz
  pure (if property = 40 then 4294967295
    else (2 ||| (property &&& 1).toNat) * 2 ^ (property.toNat / 2 + 11))

def parseXzHeaderVli (header : Bytes) (position fieldsEnd : Nat) : Intake (Nat × Nat) := do
  let remaining ← invalidXz (get header position fieldsEnd)
  let (value, consumed) ← parseXzVli remaining
  let position ← invalidXz ((checkedAdd position consumed).filter fun position =>
    position ≤ fieldsEnd)
  pure (value, position)

/-- What the last filter must be: LZMA2, with a dictionary within the limit. -/
def requireLzma2 (filterId : Nat) (properties : Bytes) : Intake Unit := do
  refuse (filterId ≠ 0x21 ∨ properties.length ≠ 1) .invalidXz
  let property ← index properties 0
  let dictionary ← lzma2DictionarySize property
  refuse (dictionary > applicationArchiveLimits.maxXzDictionaryBytes) .invalidXz

def parseXzFilters (header : Bytes) (fieldsEnd : Nat) : Nat → Nat → Intake Nat
  | 0, position => pure position
  | later + 1, position => do
    let (filterId, position) ← parseXzHeaderVli header position fieldsEnd
    let (propertiesSize, position) ← parseXzHeaderVli header position fieldsEnd
    let propertiesEnd ← invalidXz ((checkedAdd position propertiesSize).filter fun stop =>
      stop ≤ fieldsEnd)
    let properties ← invalidXz (get header position propertiesEnd)
    if later = 0 then requireLzma2 filterId properties
    parseXzFilters header fieldsEnd later propertiesEnd

def skipPresent (header : Bytes) (fieldsEnd position : Nat) (present : Bool) : Intake Nat :=
  if present then do
    let (_, position) ← parseXzHeaderVli header position fieldsEnd
    pure position
  else pure position

def validateXzBlockHeader (bytes : Bytes) (blockStart unpaddedSize : Nat) : Intake Unit := do
  let encodedSize ← invalidXz bytes[blockStart]?
  refuse (encodedSize = 0) .invalidXz
  let headerSize ← invalidXz ((checkedMul (encodedSize.toNat + 1) 4).filter fun size =>
    size ≤ unpaddedSize)
  let fieldsEnd ← invalidXz ((checkedSub headerSize 4).filter fun stop => 4 ≤ stop)
  let headerEnd ← invalidXz (checkedAdd blockStart headerSize)
  let header ← invalidXz (get bytes blockStart headerEnd)
  let flags ← index header 1
  refuse (flags &&& 0x3c ≠ 0) .invalidXz
  let position ← [decide (flags &&& 0x40 ≠ 0), decide (flags &&& 0x80 ≠ 0)].foldlM
    (skipPresent header fieldsEnd) 2
  let filters := (flags &&& 3).toNat + 1
  let position ← parseXzFilters header fieldsEnd filters position
  let padding ← slice header position fieldsEnd
  refuse (padding.any fun byte => byte ≠ 0) .invalidXz
  let blockEnd ← invalidXz (checkedAdd blockStart unpaddedSize)
  let payloadEnd ← invalidXz (checkedSub blockEnd 8)
  let stop ← scanLzma2Stream bytes headerEnd payloadEnd
  refuse (stop ≠ payloadEnd) .invalidXz

/-- One record of the index, and the block that it is about. -/
def preflightXzBlock (bytes indexRecords : Bytes) (s : Nat × Nat) : Intake (Nat × Nat) := do
  let (recordPosition, blockPosition) := s
  let rest ← slice indexRecords recordPosition indexRecords.length
  let (unpaddedSize, consumed) ← parseXzVli rest
  let recordPosition ← invalidXz (checkedAdd recordPosition consumed)
  let rest ← slice indexRecords recordPosition indexRecords.length
  let (_, consumed) ← parseXzVli rest
  let recordPosition ← invalidXz (checkedAdd recordPosition consumed)
  validateXzBlockHeader bytes blockPosition unpaddedSize
  let paddedSize ← invalidXz ((checkedAdd unpaddedSize 3).map fun size => size / 4 * 4)
  let blockPosition ← invalidXz (checkedAdd blockPosition paddedSize)
  pure (recordPosition, blockPosition)

def preflightXzBlocks (bytes indexRecords : Bytes) : Nat → Nat × Nat → Intake (Nat × Nat)
  | 0, s => pure s
  | blocks + 1, s => do
    let s ← preflightXzBlock bytes indexRecords s
    preflightXzBlocks bytes indexRecords blocks s

def headerBytes : Nat := 12

def footerBytes : Nat := 12

def xzMagic : Bytes := [0xfd] ++ ascii "7zXZ" ++ [0]

def preflightXzEnvelope (bytes : Bytes) : Intake Unit := do
  let footerStart ← invalidXz (checkedSub bytes.length footerBytes)
  let footer ← slice bytes footerStart bytes.length
  refuse (get bytes 0 6 ≠ some xzMagic ∨ get bytes 6 8 ≠ some [0, 4] ∨
    get footer 8 10 ≠ some [0, 4] ∨ get footer 10 12 ≠ some (ascii "YZ")) .invalidXz
  let encoded ← slice footer 4 8
  let backwardSize := littleEndian encoded
  let indexSize ← invalidXz ((checkedMul (backwardSize + 1) 4).filter fun size =>
    size ≤ applicationArchiveLimits.maxXzIndexBytes)
  let indexStart ← invalidXz ((checkedSub footerStart indexSize).filter fun start =>
    headerBytes ≤ start)
  refuse (bytes[indexStart]? ≠ some 0) .invalidXz
  let recordsStart ← plus indexStart 1
  let indexRecords ← slice bytes recordsStart footerStart
  let (blocks, recordPosition) ← parseXzVli indexRecords
  refuse (blocks > applicationArchiveLimits.maxXzBlocks) .invalidXz
  let (recordPosition, blockPosition) ←
    preflightXzBlocks bytes indexRecords blocks (recordPosition, headerBytes)
  let indexCrcStart ← invalidXz (checkedSub indexRecords.length 4)
  refuse (blockPosition ≠ indexStart ∨ recordPosition > indexCrcStart) .invalidXz
  let padding ← slice indexRecords recordPosition indexCrcStart
  refuse (padding.any fun byte => byte ≠ 0) .invalidXz

end Readers

end Kitrove
