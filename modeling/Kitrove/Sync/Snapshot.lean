import Kitrove.Merge.Objects
import Kitrove.Model.Codec

/-! The portable snapshot envelope: its construction, its encoding and its strict decoding. -/

namespace Kitrove

open Std

structure SnapshotError where
  code : String
  message : String
  deriving DecidableEq

section Catalog

def objectCatalogMismatch : SnapshotError :=
  ⟨"sync_snapshot.object_catalog_mismatch",
    "snapshot object catalog does not exactly match manifest authority"⟩

/-- What the manifest says of the object at a root. -/
abbrev ExpectedObjects := OrdMap PortablePath (SnapshotObjectKind × ContentHash)

def insertExpectedObject (expected : ExpectedObjects) (root : PortablePath)
    (kind : SnapshotObjectKind) (hash : ContentHash) : Except SnapshotError ExpectedObjects :=
  if expected.contains root then
    .error ⟨"sync_snapshot.duplicate_object_root",
      "manifest object references claim one portable root more than once"⟩
  else .ok (expected.insert root (kind, hash))

def expectPortable (expected : ExpectedObjects) (portable : PortableContent) :
    Except SnapshotError ExpectedObjects :=
  match portableSnapshotObjectKind portable.format with
  | none =>
    .error ⟨"sync_snapshot.object_format_unsupported",
      "snapshot manifest references an unsupported portable object format"⟩
  | some kind => insertExpectedObject expected portable.root kind portable.objectHash

def expectNative (expected : ExpectedObjects) (variant : NativeVariant) :
    Except SnapshotError ExpectedObjects :=
  match nativeSnapshotObjectKind variant.format with
  | none =>
    .error ⟨"sync_snapshot.object_format_unsupported",
      "snapshot manifest references an unsupported native object format"⟩
  | some kind => insertExpectedObject expected variant.root kind variant.objectHash

def expectAsset (expected : ExpectedObjects) (asset : Asset) :
    Except SnapshotError ExpectedObjects := do
  let expected ← asset.portable.toList.foldlM expectPortable expected
  asset.nativeVariants.values.foldlM expectNative expected

def expectedObjects (m : EnvironmentManifest) : Except SnapshotError ExpectedObjects :=
  m.assets.values.foldlM expectAsset ∅

def totalBytesExceeded (message : String) : SnapshotError :=
  ⟨"sync_objects.total_bytes_exceeded", message⟩

/-- Takes one descriptor out of what is expected, and counts its bytes. -/
def takeObject (limits : SyncLimits) (state : Nat × ExpectedObjects) (object : ObjectDescriptor) :
    Except SnapshotError (Nat × ExpectedObjects) := do
  let (total, expected) := state
  refuseIf (object.encodedLen > limits.maxObjectBytes)
    ⟨"sync_objects.object_bytes_exceeded",
      "one object descriptor exceeds the configured byte limit"⟩
  let total := total + object.encodedLen.toNat
  refuseIf (total ≥ 2 ^ 64)
    (totalBytesExceeded "aggregate object descriptor bytes overflow the configured limit")
  refuseIf (total > limits.maxTotalObjectBytes.toNat)
    (totalBytesExceeded "aggregate object descriptor bytes exceed the configured limit")
  refuseIf (expected[object.root]? ≠ some (object.kind, object.objectHash)) objectCatalogMismatch
  pure (total, expected.erase object.root)

def objectCountExceeded : SnapshotError :=
  ⟨"sync_objects.count_exceeded", "object descriptor count exceeds the configured limit"⟩

def validateObjectCatalog (m : EnvironmentManifest) (objects : OrdSet ObjectDescriptor)
    (limits : SyncLimits) : Except SnapshotError Unit := do
  refuseIf (objects.size > limits.maxObjectCount.toNat) objectCountExceeded
  let expected ← expectedObjects m
  let (_, left) ← objects.toList.foldlM (takeObject limits) (0, expected)
  refuseIf (!left.isEmpty) objectCatalogMismatch

/-- The components that a manifest declares. -/
def componentCountOf (m : EnvironmentManifest) : Nat :=
  m.assets.size + m.packs.size + m.profiles.size + m.requiredBindings.size +
    (m.assets.values.map fun asset => asset.portable.isSome.toNat + asset.nativeVariants.size).sum

def validateComponentCount (m : EnvironmentManifest) (limits : SyncLimits) :
    Except SnapshotError Unit :=
  refuseIf (componentCountOf m > limits.maxComponents.toNat)
    ⟨"sync_snapshot.component_limit_exceeded",
      "snapshot semantic component count exceeds the configured limit"⟩

end Catalog

section Digest

def snapshotFrame : Bytes := ascii "kitrove-portable-snapshot-v1" ++ [0]

/-- `hash_text`. -/
def hashedText (value : Bytes) : Bytes := littleEndian64 value.length ++ value

def hashedObject (object : ObjectDescriptor) : Bytes :=
  [object.kind.tag] ++ hashedText object.root.bytes ++ hashedText object.objectHash.bytes ++
    littleEndian64 object.encodedLen.toNat

/-- What the digest of a snapshot is taken of. -/
def snapshotPreimage (manifestToml : Bytes) (manifestRevision : Revision) (lockJson : Bytes)
    (lockDigest : ContentHash) (objects : OrdSet ObjectDescriptor) : Bytes :=
  snapshotFrame ++ hashedText manifestToml ++ hashedText manifestRevision.bytes ++
    hashedText lockJson ++ hashedText lockDigest.bytes ++ littleEndian64 objects.size ++
    objects.toList.flatMap hashedObject

end Digest

/-- A canonical portable snapshot. -/
structure PortableSnapshot where
  manifest : EnvironmentManifest
  manifestToml : Bytes
  manifestRevision : Revision
  lockfile : Lockfile
  lockJson : Bytes
  lockDigest : ContentHash
  objects : OrdSet ObjectDescriptor
  snapshotDigest : SnapshotDigest
  deriving DecidableEq

/-- The envelope as it is stored, its descriptors in order. -/
structure PersistedSnapshot where
  schemaVersion : UInt32
  manifestToml : Bytes
  manifestRevision : Revision
  lockJson : Bytes
  lockDigest : ContentHash
  objects : List ObjectDescriptor
  snapshotDigest : SnapshotDigest
  deriving DecidableEq

/-- The libraries with the JSON library at the type of the envelope. -/
structure SnapshotCodec extends AuthorityCodec where
  encodeEnvelope : PersistedSnapshot → Option Bytes
  decodeEnvelope : Bytes → Option PersistedSnapshot

structure SnapshotCodec.Lawful (codec : SnapshotCodec) : Prop extends
    codec.toAuthorityCodec.Lawful where
  envelope : ∀ p text, codec.encodeEnvelope p = some text → codec.decodeEnvelope text = some p
  envelope_newline : ∀ p text, codec.decodeEnvelope text = some p →
    codec.decodeEnvelope (text ++ [newline]) = some p

section Envelope

variable (blake3 : Bytes → Digest) (codec : SnapshotCodec)

def manifestInvalid : SnapshotError :=
  ⟨"sync_snapshot.manifest_invalid", "snapshot manifest authority is invalid"⟩

def manifestTooLarge : SnapshotError :=
  ⟨"sync_snapshot.manifest_too_large", "snapshot manifest exceeds the configured byte limit"⟩

def lockDerivationFailed : SnapshotError :=
  ⟨"sync_snapshot.lock_derivation_failed",
    "snapshot lockfile could not be derived from manifest authority"⟩

def lockTooLarge : SnapshotError :=
  ⟨"sync_snapshot.lock_too_large", "snapshot lockfile exceeds the configured byte limit"⟩

def lockInvalid : SnapshotError :=
  ⟨"sync_snapshot.lock_invalid", "snapshot lockfile is invalid"⟩

def snapshotTooLarge : SnapshotError :=
  ⟨"sync_snapshot.too_large", "snapshot envelope exceeds the configured byte limit"⟩

/-- `map_err` to a fixed error. -/
def orElseError {ε α : Type} (result : Except ε α) (error : SnapshotError) :
    Except SnapshotError α :=
  result.mapError fun _ => error

def PortableSnapshot.persisted (s : PortableSnapshot) : PersistedSnapshot where
  schemaVersion := 1
  manifestToml := s.manifestToml
  manifestRevision := s.manifestRevision
  lockJson := s.lockJson
  lockDigest := s.lockDigest
  objects := s.objects.toList
  snapshotDigest := s.snapshotDigest

/-- The only canonical text of a snapshot. -/
def PortableSnapshot.toJson (s : PortableSnapshot) (limits : SyncLimits) :
    Except SnapshotError Bytes := do
  validateObjectCatalog s.manifest s.objects limits
  match codec.encodeEnvelope s.persisted with
  | none => throw ⟨"sync_snapshot.serialize", "snapshot envelope serialization failed"⟩
  | some encoded => do
    let encoded := encoded ++ [newline]
    refuseIf (encoded.length > limits.maxSnapshotBytes.toNat) snapshotTooLarge
    pure encoded

def PortableSnapshot.new (manifest : EnvironmentManifest) (objects : OrdSet ObjectDescriptor)
    (limits : SyncLimits) : Except SnapshotError PortableSnapshot := do
  orElseError (manifest.validate blake3) manifestInvalid
  validateComponentCount manifest limits
  let manifestToml ← orElseError (manifest.toToml blake3 codec.toAuthorityCodec) manifestInvalid
  refuseIf (manifestToml.length > limits.maxManifestBytes.toNat) manifestTooLarge
  let manifestRevision ←
    orElseError (deriveManifestRevision blake3 codec.toAuthorityCodec manifest) manifestInvalid
  let lockfile ← orElseError (deriveLockfile blake3 manifest) lockDerivationFailed
  let lockJson ← orElseError (lockfile.toJson blake3 codec.toAuthorityCodec) lockDerivationFailed
  refuseIf (lockJson.length > limits.maxLockBytes.toNat) lockTooLarge
  validateObjectCatalog manifest objects limits
  let lockDigest := ContentHash.ofDigest (blake3 lockJson)
  let snapshot : PortableSnapshot :=
    { manifest, manifestToml, manifestRevision, lockfile, lockJson, lockDigest, objects
      snapshotDigest := SnapshotDigest.ofDigest
        (blake3 (snapshotPreimage manifestToml manifestRevision lockJson lockDigest objects)) }
  let _ ← snapshot.toJson codec limits
  pure snapshot

/-- The checks of a stored envelope that come before the snapshot is built again. -/
def checkPersisted (persisted : PersistedSnapshot) (limits : SyncLimits) :
    Except SnapshotError Unit := do
  refuseIf (persisted.schemaVersion ≠ 1)
    ⟨"sync_snapshot.unsupported_version", "snapshot envelope schema version is unsupported"⟩
  refuseIf (persisted.manifestToml.length > limits.maxManifestBytes.toNat) manifestTooLarge
  refuseIf (persisted.lockJson.length > limits.maxLockBytes.toNat) lockTooLarge
  refuseIf (persisted.objects.length > limits.maxObjectCount.toNat) objectCountExceeded
  refuseIf ((OrdMap.setOf persisted.objects).size ≠ persisted.objects.length)
    ⟨"sync_objects.duplicate_descriptor", "snapshot contains a duplicate object descriptor"⟩

/-- The checks of a stored envelope against the snapshot built from its manifest. -/
def checkRebuilt (persisted : PersistedSnapshot) (snapshot : PortableSnapshot) :
    Except SnapshotError Unit := do
  refuseIf (snapshot.manifestRevision ≠ persisted.manifestRevision)
    ⟨"sync_snapshot.manifest_revision_mismatch",
      "snapshot manifest revision does not match its canonical bytes"⟩
  let suppliedLock ←
    orElseError (Lockfile.fromJson blake3 codec.toAuthorityCodec persisted.lockJson) lockInvalid
  let suppliedJson ←
    orElseError (suppliedLock.toJson blake3 codec.toAuthorityCodec) lockInvalid
  refuseIf (suppliedJson ≠ persisted.lockJson)
    ⟨"sync_snapshot.lock_noncanonical", "snapshot lockfile bytes are not canonical"⟩
  refuseIf (snapshot.lockfile ≠ suppliedLock)
    ⟨"sync_snapshot.lock_mismatch", "snapshot lockfile does not match manifest authority"⟩
  refuseIf (snapshot.lockDigest ≠ persisted.lockDigest)
    ⟨"sync_snapshot.lock_digest_mismatch",
      "snapshot lock digest does not match its canonical bytes"⟩
  refuseIf (snapshot.snapshotDigest ≠ persisted.snapshotDigest)
    ⟨"sync_snapshot.digest_mismatch", "snapshot digest does not match the canonical envelope"⟩

/-- Reads one strict canonical version-1 envelope. -/
def PortableSnapshot.fromJson (input : Bytes) (limits : SyncLimits) :
    Except SnapshotError PortableSnapshot := do
  refuseIf (input.length > limits.maxSnapshotBytes.toNat) snapshotTooLarge
  match codec.decodeEnvelope input with
  | none =>
    throw ⟨"sync_snapshot.invalid_json", "snapshot envelope is not valid strict JSON"⟩
  | some persisted => do
    checkPersisted persisted limits
    let manifest ← orElseError
      (EnvironmentManifest.fromToml blake3 codec.toAuthorityCodec persisted.manifestToml)
      manifestInvalid
    let manifestToml ←
      orElseError (manifest.toToml blake3 codec.toAuthorityCodec) manifestInvalid
    refuseIf (manifestToml ≠ persisted.manifestToml)
      ⟨"sync_snapshot.manifest_noncanonical", "snapshot manifest bytes are not canonical"⟩
    let snapshot ← PortableSnapshot.new blake3 codec manifest (OrdMap.setOf persisted.objects) limits
    checkRebuilt blake3 codec persisted snapshot
    let encoded ← snapshot.toJson codec limits
    refuseIf (encoded ≠ input)
      ⟨"sync_snapshot.noncanonical", "snapshot envelope JSON is not canonical"⟩
    pure snapshot

end Envelope

end Kitrove
