import Kitrove.Sync.Plan

/-! The documents of the retained base: the record of one generation, and the pointer that
selects it. -/

namespace Kitrove

/-- The hashed identity of a remote. -/
structure RemoteKey where
  digest : Digest
  deriving DecidableEq

def RemoteKey.asStr (key : RemoteKey) : Bytes := ascii "remote:blake3:" ++ key.digest.hex

/-- Evidence for the last accepted snapshot of one remote. -/
structure SyncBaseRecord where
  schemaVersion : UInt32
  remoteKey : RemoteKey
  snapshotDigest : SnapshotDigest
  manifestRevision : Revision
  backendRevision : RemoteRevision
  objects : OrdSet ObjectDescriptor
  deriving DecidableEq

structure SyncBasePointer where
  schemaVersion : UInt32
  remoteKey : RemoteKey
  generation : ContentHash
  deriving DecidableEq

/-- The JSON library at the types of the retained base. -/
structure BaseCodec where
  encodeRecord : SyncBaseRecord → Option Bytes
  decodeRecord : Bytes → Option SyncBaseRecord
  encodePointer : SyncBasePointer → Option Bytes
  decodePointer : Bytes → Option SyncBasePointer

structure BaseCodec.Lawful (codec : BaseCodec) : Prop where
  record : ∀ value text, codec.encodeRecord value = some text →
    codec.decodeRecord (text ++ [newline]) = some value
  pointer : ∀ value text, codec.encodePointer value = some text →
    codec.decodePointer (text ++ [newline]) = some value

section Descriptors

def emptyObject : SnapshotError :=
  ⟨"sync_objects.empty_object", "object descriptor encoded length must be non-zero"⟩

/-- Checks one descriptor against the bytes and the roots of those before it. -/
def validateDescriptor (limits : SyncLimits) (state : Nat × OrdSet PortablePath)
    (object : ObjectDescriptor) : Except SnapshotError (Nat × OrdSet PortablePath) := do
  let (total, roots) := state
  refuseIf (object.encodedLen = 0) emptyObject
  refuseIf (object.encodedLen > limits.maxObjectBytes)
    ⟨"sync_objects.object_bytes_exceeded",
      "one object descriptor exceeds the configured byte limit"⟩
  let total := total + object.encodedLen.toNat
  refuseIf (total ≥ 2 ^ 64)
    (totalBytesExceeded "aggregate object descriptor bytes overflow the configured limit")
  refuseIf (total > limits.maxTotalObjectBytes.toNat)
    (totalBytesExceeded "aggregate object descriptor bytes exceed the configured limit")
  refuseIf (roots.contains object.root)
    ⟨"sync_objects.duplicate_root", "multiple object descriptors claim one portable root"⟩
  pure (total, roots.insert object.root)

def validateDescriptors (objects : OrdSet ObjectDescriptor) (limits : SyncLimits) :
    Except SnapshotError Unit := do
  refuseIf (objects.size > limits.maxObjectCount.toNat) objectCountExceeded
  let _ ← objects.toList.foldlM (validateDescriptor limits) (0, ∅)

end Descriptors

namespace SyncBaseRecord

def tooLarge : SnapshotError :=
  ⟨"sync_base.too_large", "sync base exceeds the configured control-document limit"⟩

/-- The identity of a generation, from the exact text of its record. -/
def generationIdForJson (blake3 : Bytes → Digest) (record : Bytes) : ContentHash :=
  ContentHash.ofDigest
    (blake3 (ascii "kitrove-sync-base-generation-v1" ++ [0] ++ bigEndian64 record.length ++ record))

def new (remoteKey : RemoteKey) (snapshotDigest : SnapshotDigest) (manifestRevision : Revision)
    (backendRevision : RemoteRevision) (objects : OrdSet ObjectDescriptor) (limits : SyncLimits) :
    Except SnapshotError SyncBaseRecord := do
  validateDescriptors objects limits
  pure ⟨1, remoteKey, snapshotDigest, manifestRevision, backendRevision, objects⟩

variable (codec : BaseCodec)

def fromJson (input : Bytes) (limits : SyncLimits) : Except SnapshotError SyncBaseRecord := do
  refuseIf (input.length > limits.maxControlBytes.toNat) tooLarge
  match codec.decodeRecord input with
  | none => throw ⟨"sync_base.invalid_json", "sync base is not valid strict JSON"⟩
  | some value => do
    refuseIf (value.schemaVersion ≠ 1)
      ⟨"sync_base.unsupported_version", "sync base schema version is unsupported"⟩
    new value.remoteKey value.snapshotDigest value.manifestRevision value.backendRevision
      value.objects limits

def toJson (record : SyncBaseRecord) (limits : SyncLimits) : Except SnapshotError Bytes := do
  validateDescriptors record.objects limits
  match codec.encodeRecord record with
  | none => throw ⟨"sync_base.serialize", "sync base serialization failed"⟩
  | some encoded => do
    let encoded := encoded ++ [newline]
    refuseIf (encoded.length > limits.maxControlBytes.toNat) tooLarge
    pure encoded

end SyncBaseRecord

namespace SyncBasePointer

def malformed : SnapshotError :=
  ⟨"sync_base_pointer.invalid",
    "sync base selector is not valid bounded canonical version-1 JSON"⟩

def new (remoteKey : RemoteKey) (generation : ContentHash) : SyncBasePointer :=
  ⟨1, remoteKey, generation⟩

variable (codec : BaseCodec)

def toJson (pointer : SyncBasePointer) : Except SnapshotError Bytes :=
  match codec.encodePointer pointer with
  | none => .error malformed
  | some text => .ok (text ++ [newline])

def fromJson (input : Bytes) (limits : SyncLimits) : Except SnapshotError SyncBasePointer := do
  refuseIf (input.length > limits.maxControlBytes.toNat) malformed
  match codec.decodePointer input with
  | none => throw malformed
  | some wire => do
    refuseIf (wire.schemaVersion ≠ 1) malformed
    let pointer := new wire.remoteKey wire.generation
    let encoded ← pointer.toJson codec
    refuseIf (encoded ≠ input) malformed
    pure pointer

end SyncBasePointer

end Kitrove
