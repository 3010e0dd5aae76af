import Kitrove.Model.Asset

/-! The vocabulary of synchronization: limits, conflicts and object descriptors. -/

namespace Kitrove

open Std

def maxSupportedSyncComponents : Nat := 65536

/-- The limits of one request, non-zero and consistent with each other. -/
structure SyncLimits where
  maxSnapshotBytes : UInt64
  maxControlBytes : UInt64
  maxManifestBytes : UInt64
  maxLockBytes : UInt64
  maxObjectCount : UInt64
  maxObjectBytes : UInt64
  maxTotalObjectBytes : UInt64
  maxConflicts : UInt64
  maxComponents : UInt64
  maxBackendHistory : UInt64
  nonzero : 0 ∉ [maxSnapshotBytes, maxControlBytes, maxManifestBytes, maxLockBytes,
    maxObjectCount, maxObjectBytes, maxTotalObjectBytes, maxConflicts, maxComponents,
    maxBackendHistory]
  components : maxComponents.toNat ≤ maxSupportedSyncComponents
  totals : maxObjectBytes ≤ maxTotalObjectBytes
  snapshot : min (maxManifestBytes.toNat + maxLockBytes.toNat) (2 ^ 64 - 1) ≤
    maxSnapshotBytes.toNat

def SyncLimits.default : SyncLimits where
  maxSnapshotBytes := 256 * 1024 * 1024
  maxControlBytes := 4 * 1024 * 1024
  maxManifestBytes := 4 * 1024 * 1024
  maxLockBytes := 4 * 1024 * 1024
  maxObjectCount := 4096
  maxObjectBytes := 16 * 1024 * 1024
  maxTotalObjectBytes := 240 * 1024 * 1024
  maxConflicts := 1024
  maxComponents := 65536
  maxBackendHistory := 4096
  nonzero := by decide +kernel
  components := by decide +kernel
  totals := by decide +kernel
  snapshot := by decide +kernel

inductive SyncConflictCode where
  | divergentComponent
  | deletionUnsupported
  | componentUnsupported
  | bootstrapAmbiguous
  deriving DecidableEq

def SyncConflictCode.asStr : SyncConflictCode → Bytes
  | .divergentComponent => ascii "sync.divergent_component"
  | .deletionUnsupported => ascii "sync.deletion_unsupported"
  | .componentUnsupported => ascii "sync.component_unsupported"
  | .bootstrapAmbiguous => ascii "sync.bootstrap_ambiguous"

inductive SyncConflictSubject where
  | assetKind (asset : AssetId)
  | portable (asset : AssetId)
  | native (asset : AssetId) (harness : HarnessId)
  | pack (pack : AssetId)
  | profile (profile : ProfileId)
  | requiredBinding (binding : BindingName)
  | bootstrap
  deriving DecidableEq

structure SyncConflict where
  code : SyncConflictCode
  subject : SyncConflictSubject
  deriving DecidableEq

inductive SnapshotObjectKind where
  | portableSkillTree
  | nativeSkillObject
  | nativeExtensionObject
  | portableInstruction
  | nativeInstruction
  | portablePromptCommand
  | nativePromptCommand
  | portableAgent
  | nativeAgent
  | portableMcp
  | nativeMcp
  deriving DecidableEq

/-- The tag of a kind in a snapshot's preimage; the derived order is that of the tags. -/
def SnapshotObjectKind.tag : SnapshotObjectKind → UInt8
  | .portableSkillTree => 1
  | .nativeSkillObject => 2
  | .nativeExtensionObject => 3
  | .portableInstruction => 4
  | .nativeInstruction => 5
  | .portablePromptCommand => 6
  | .nativePromptCommand => 7
  | .portableAgent => 8
  | .nativeAgent => 9
  | .portableMcp => 10
  | .nativeMcp => 11

theorem SnapshotObjectKind.tag_injective {a b : SnapshotObjectKind} (h : a.tag = b.tag) :
    a = b := by
  cases a <;> cases b <;> first | rfl | (exact absurd h (by decide))

/-- A bounded reference to an immutable object that is not empty. -/
structure ObjectDescriptor where
  kind : SnapshotObjectKind
  root : PortablePath
  objectHash : ContentHash
  encodedLen : UInt64
  nonempty : encodedLen ≠ 0
  deriving DecidableEq

namespace ObjectDescriptor

/-- The derived order goes field by field. -/
def key (d : ObjectDescriptor) : List Bytes :=
  [[d.kind.tag], d.root.bytes, d.objectHash.bytes, bigEndian64 d.encodedLen.toNat]

theorem key_injective {a b : ObjectDescriptor} (h : a.key = b.key) : a = b := by
  simp only [key, List.cons.injEq, and_true] at h
  obtain ⟨hkind, hroot, hhash, hlen⟩ := h
  have hkind := SnapshotObjectKind.tag_injective hkind
  have hroot := Name.ext_bytes hroot
  have hhash := Name.ext_bytes hhash
  have hlen : a.encodedLen = b.encodedLen :=
    UInt64.toNat_inj.mp (bigEndian64_injective a.encodedLen.toNat_lt b.encodedLen.toNat_lt hlen)
  cases a
  cases b
  congr

instance : Ord ObjectDescriptor := ⟨compareOn key⟩

instance : TransOrd ObjectDescriptor := inferInstanceAs (TransCmp (compareOn key))

instance : LawfulEqOrd ObjectDescriptor := lawfulEqCmp_compareOn fun _ _ h => key_injective h

end ObjectDescriptor

end Kitrove
