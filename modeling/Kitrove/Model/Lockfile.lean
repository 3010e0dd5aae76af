import Kitrove.Model.Manifest

/-! The generated lockfile of a manifest. -/

namespace Kitrove

open Std

structure ResolvedSource where
  source : Source
  revision : Revision
  contentHash : ContentHash
  deriving DecidableEq

structure LockedAsset where
  id : AssetId
  kind : AssetKind
  contentHash : ContentHash
  portableProvenance : Option ProvenanceId
  nativeProvenance : OrdMap HarnessId ProvenanceId
  provenance : OrdMap ProvenanceId ComponentProvenance
  compatibility : OrdMap HarnessId FidelityResult
  deriving DecidableEq

structure LockedPack where
  id : AssetId
  resolvedSource : ResolvedSource
  contentHash : ContentHash
  members : OrdMap AssetId ContentHash
  compatibility : OrdMap HarnessId FidelityResult
  deriving DecidableEq

/-- The resolution of every source, at schema version 1. -/
structure Lockfile where
  assets : OrdMap AssetId LockedAsset
  packs : OrdMap AssetId LockedPack
  deriving DecidableEq

section Validation

variable (blake3 : Bytes → Digest) (l : Lockfile)

def validateLockedAsset (entry : AssetId × LockedAsset) : Except ValidationError Unit := do
  let (id, asset) := entry
  refuseIf (id ≠ asset.id)
    ⟨"lockfile.asset_key_mismatch",
      ascii "asset map key " ++ id.bytes ++ ascii " does not match embedded id " ++ asset.id.bytes⟩
  refuseIf (asset.kind = .pack)
    ⟨"lockfile.pack_in_asset_map",
      ascii "pack " ++ id.bytes ++ ascii " must be declared in the first-class packs map"⟩
  let referenced := asset.portableProvenance.toList ++ asset.nativeProvenance.values
  refuseIf (referenced.any fun provenance => !asset.provenance.contains provenance)
    ⟨"lockfile.provenance_missing", ascii "a locked component references missing provenance"⟩
  refuseIf (asset.provenance.toList.any fun (id, record) =>
      id ≠ record.provenanceId blake3 || !referenced.contains id)
    ⟨"lockfile.provenance_invalid", ascii "locked provenance is mismatched or unreferenced"⟩

def validateLockedMember (member : AssetId × ContentHash) : Except ValidationError Unit := do
  let (id, revision) := member
  let expected :=
    (l.assets[id]?.map LockedAsset.contentHash).or (l.packs[id]?.map LockedPack.contentHash)
  refuseIf expected.isNone
    ⟨"lockfile.unknown_pack_member", ascii "a locked pack references an unknown member"⟩
  refuseIf (expected ≠ some revision)
    ⟨"lockfile.pack_member_revision_mismatch",
      ascii "a locked pack member revision does not match locked authority"⟩

def validateLockedPack (entry : AssetId × LockedPack) : Except ValidationError Unit := do
  let (id, pack) := entry
  refuseIf (pack.resolvedSource.source = .authoredPack ∧
      (pack.resolvedSource.revision, pack.resolvedSource.contentHash) ≠
        Pack.authoredSourceResolution blake3 pack.id)
    ⟨"lockfile.authored_pack_resolution_invalid",
      ascii "locked authored pack resolution does not match its declaration"⟩
  refuseIf (id ≠ pack.id)
    ⟨"lockfile.pack_key_mismatch",
      ascii "pack map key " ++ id.bytes ++ ascii " does not match embedded id " ++ pack.id.bytes⟩
  refuseIf (l.assets.contains id)
    ⟨"lockfile.duplicate_identity", id.bytes ++ ascii " is locked as both an asset and a pack"⟩
  refuseIf pack.members.isEmpty
    ⟨"lockfile.pack_empty", ascii "a locked pack requires at least one exact member revision"⟩
  pack.members.toList.forM (validateLockedMember l)

def lockedPackDepthExceeded : ValidationError :=
  ⟨"lockfile.pack_depth_limit_exceeded",
    ascii "locked pack dependency graph exceeds the compiled depth limit"⟩

def lockedPackCycle : ValidationError :=
  ⟨"lockfile.pack_cycle", ascii "locked pack dependency graph contains a cycle"⟩

def lockedPackCycleReaches (id : AssetId) : ValidationError :=
  ⟨"lockfile.pack_cycle", ascii "locked pack dependency cycle reaches " ++ id.bytes⟩

def nestedLockedPacks : AssetId → List AssetId := nestedMembers l.packs LockedPack.members

/-- Verifies the invariants that go across the records of a lockfile. -/
def Lockfile.validate : Except ValidationError Unit := do
  l.assets.toList.forM (validateLockedAsset blake3)
  refuseIf ((l.packs.values.map fun pack => pack.members.size).sum > maxPackMemberEdges)
    ⟨"lockfile.pack_member_limit_exceeded",
      ascii "locked pack member graph exceeds the compiled limit"⟩
  l.packs.toList.forM (validateLockedPack blake3 l)
  validateGraphDepth (nestedLockedPacks l) lockedPackDepthExceeded lockedPackCycle l.packs.keys
  rejectCycles (nestedLockedPacks l) lockedPackDepthExceeded lockedPackCycleReaches l.packs.keys

end Validation

def Asset.locked (asset : Asset) : LockedAsset where
  id := asset.id
  kind := asset.kind
  contentHash := asset.contentHash
  portableProvenance := asset.portable.map PortableContent.provenance
  nativeProvenance := asset.nativeVariants.map fun _ variant => variant.provenance
  provenance := asset.provenance
  compatibility := asset.compatibility

def Pack.locked (pack : Pack) : LockedPack where
  id := pack.id
  resolvedSource := ⟨pack.source, pack.revision, pack.exactSourceHash⟩
  contentHash := pack.contentHash
  members := pack.members
  compatibility := pack.compatibility

def deriveLockfile (blake3 : Bytes → Digest) (m : EnvironmentManifest) :
    Except ValidationError Lockfile := do
  m.validate blake3
  let lockfile : Lockfile :=
    { assets := m.assets.map fun _ asset => asset.locked
      packs := m.packs.map fun _ pack => pack.locked }
  lockfile.validate blake3
  pure lockfile

end Kitrove
