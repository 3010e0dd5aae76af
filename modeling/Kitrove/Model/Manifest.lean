import Kitrove.Model.Packs

/-! The environment manifest, its cross-record validation, and the refresh of its packs. -/

namespace Kitrove

open Std

structure Profile where
  id : ProfileId
  extends' : Option ProfileId
  assets : OrdSet AssetId
  targets : OrdSet HarnessId
  deriving DecidableEq

/-- The desired portable environment, at schema version 1. -/
structure EnvironmentManifest where
  assets : OrdMap AssetId Asset
  packs : PackMap
  profiles : OrdMap ProfileId Profile
  requiredBindings : OrdSet BindingName
  deriving DecidableEq

section Validation

variable (blake3 : Bytes → Digest) (m : EnvironmentManifest)

/-- The provenance that the components of an asset reference. -/
def referencedProvenance (portable : Option PortableContent)
    (variants : OrdMap HarnessId NativeVariant) : OrdSet ProvenanceId :=
  OrdMap.setOf ((portable.map PortableContent.provenance).toList ++
    variants.values.map NativeVariant.provenance)

def validateAsset (entry : AssetId × Asset) : Except ValidationError Unit := do
  let (id, asset) := entry
  refuseIf (id ≠ asset.id)
    ⟨"manifest.asset_key_mismatch",
      ascii "asset map key " ++ id.bytes ++ ascii " does not match embedded id " ++ asset.id.bytes⟩
  refuseIf (asset.kind = .pack)
    ⟨"manifest.pack_in_asset_map",
      ascii "pack " ++ id.bytes ++ ascii " must be declared in the first-class packs map"⟩
  asset.requiredBindings.toList.forM fun binding =>
    refuseIf (!m.requiredBindings.contains binding)
      ⟨"manifest.undeclared_binding",
        ascii "asset " ++ id.bytes ++ ascii " requires undeclared binding " ++ binding.bytes⟩
  asset.nativeVariants.toList.forM fun (harness, variant) =>
    refuseIf (harness ≠ variant.harness)
      ⟨"manifest.native_variant_key_mismatch",
        ascii "native variant key " ++ harness.asStr ++ ascii " does not match embedded harness " ++
          variant.harness.asStr⟩
  asset.provenance.toList.forM fun (provenanceId, provenance) =>
    refuseIf (provenanceId ≠ provenance.provenanceId blake3)
      ⟨"manifest.provenance_key_mismatch",
        ascii "asset provenance map key does not match the complete provenance identity"⟩
  let referenced := referencedProvenance asset.portable asset.nativeVariants
  refuseIf (referenced.toList.any fun id => !asset.provenance.contains id)
    ⟨"manifest.provenance_missing", ascii "an asset component references missing provenance"⟩
  refuseIf (asset.provenance.keys.any fun id => !referenced.contains id)
    ⟨"manifest.provenance_unreferenced", ascii "an asset contains unreferenced provenance"⟩
  refuseIf (asset.contentHash ≠ asset.expectedContentHash blake3)
    ⟨"manifest.asset_content_hash_mismatch",
      ascii "asset content hash does not match its complete revision"⟩

def validatePack (entry : AssetId × Pack) : Except ValidationError Unit := do
  let (id, pack) := entry
  refuseIf (pack.source = .authoredPack ∧
      (pack.revision, pack.exactSourceHash) ≠ Pack.authoredSourceResolution blake3 pack.id)
    ⟨"manifest.authored_pack_resolution_invalid",
      ascii "authored pack resolution does not match its declaration"⟩
  refuseIf (id ≠ pack.id)
    ⟨"manifest.pack_key_mismatch",
      ascii "pack map key " ++ id.bytes ++ ascii " does not match embedded id " ++ pack.id.bytes⟩
  refuseIf (m.assets.contains id)
    ⟨"manifest.duplicate_identity", id.bytes ++ ascii " is declared as both an asset and a pack"⟩
  pack.requiredBindings.toList.forM fun binding =>
    refuseIf (!m.requiredBindings.contains binding)
      ⟨"manifest.undeclared_binding",
        ascii "pack " ++ id.bytes ++ ascii " requires undeclared binding " ++ binding.bytes⟩
  refuseIf pack.members.isEmpty packEmpty
  pack.members.keys.forM fun member =>
    refuseIf (!m.assets.contains member && !m.packs.contains member)
      ⟨"manifest.unknown_pack_member", ascii "a pack references an unknown member"⟩

def packDepthExceeded : ValidationError :=
  ⟨"manifest.pack_depth_limit_exceeded",
    ascii "pack dependency graph exceeds the compiled depth limit"⟩

def packCycle : ValidationError :=
  ⟨"manifest.pack_cycle", ascii "pack dependency graph contains a cycle"⟩

def packCycleReaches (id : AssetId) : ValidationError :=
  ⟨"manifest.pack_cycle", ascii "pack dependency cycle reaches " ++ id.bytes⟩

def nestedPacks (packs : PackMap) : AssetId → List AssetId := nestedMembers packs Pack.members

def validatePackGraphDepth (packs : PackMap) : Except ValidationError Unit :=
  validateGraphDepth (nestedPacks packs) packDepthExceeded packCycle packs.keys

def rejectPackCycles (packs : PackMap) : Except ValidationError Unit :=
  rejectCycles (nestedPacks packs) packDepthExceeded packCycleReaches packs.keys

/-- What a pack derives from a member; a member that is neither asset nor pack is passed over. -/
def memberMetadata (member : AssetId) (revision : ContentHash) :
    Except ValidationError (Option PackMemberMetadata) :=
  match m.assets[member]? with
  | some asset => do
    refuseIf (revision ≠ asset.contentHash)
      ⟨"manifest.pack_member_revision_mismatch",
        ascii "a pack member revision does not match asset authority"⟩
    pure (some
      ⟨member, revision, asset.compatibility, asset.contentClass, asset.requiredBindings⟩)
  | none =>
    match m.packs[member]? with
    | some nested => do
      refuseIf (revision ≠ nested.contentHash)
        ⟨"manifest.pack_member_revision_mismatch",
          ascii "a pack member revision does not match nested pack authority"⟩
      pure (some
        ⟨member, revision, nested.compatibility, nested.contentClass, nested.requiredBindings⟩)
    | none => pure none

def validatePackRevision (pack : Pack) : Except ValidationError Unit := do
  let members ← pack.members.toList.mapM fun (member, revision) =>
    memberMetadata m member revision
  let derived ← derivePackFields (members.filterMap id)
  refuseIf (pack.compatibility ≠ derived.compatibility)
    ⟨"manifest.pack_compatibility_mismatch",
      ascii "pack compatibility is not the exact member aggregate"⟩
  refuseIf (pack.contentClass ≠ derived.contentClass)
    ⟨"manifest.pack_content_class_mismatch",
      ascii "pack content class is not the exact member maximum"⟩
  refuseIf (pack.requiredBindings ≠ derived.requiredBindings)
    ⟨"manifest.pack_bindings_mismatch",
      ascii "pack binding requirements are not the exact member union"⟩
  refuseIf (pack.contentHash ≠ pack.expectedContentHash blake3)
    ⟨"manifest.pack_content_hash_mismatch",
      ascii "pack content hash does not match its complete aggregate revision"⟩

def validateProfile (entry : ProfileId × Profile) : Except ValidationError Unit := do
  let (id, profile) := entry
  refuseIf (id ≠ profile.id)
    ⟨"manifest.profile_key_mismatch",
      ascii "profile map key " ++ id.bytes ++ ascii " does not match embedded id " ++
        profile.id.bytes⟩
  match profile.extends' with
  | some parent =>
    refuseIf (!m.profiles.contains parent)
      ⟨"manifest.unknown_profile_parent",
        ascii "profile " ++ id.bytes ++ ascii " extends unknown profile " ++ parent.bytes⟩
  | none => pure ()
  profile.assets.toList.forM fun asset =>
    refuseIf (!m.assets.contains asset && !m.packs.contains asset)
      ⟨"manifest.unknown_profile_asset",
        ascii "profile " ++ id.bytes ++ ascii " references unknown asset or pack " ++ asset.bytes⟩

def profileCycleReaches (id : ProfileId) : ValidationError :=
  ⟨"manifest.profile_cycle", ascii "profile inheritance cycle reaches " ++ id.bytes⟩

/-- Follows the parents of a profile; a chain longer than the profiles there are has a cycle. -/
def walkProfiles (visited : OrdSet ProfileId) :
    Nat → OrdSet ProfileId → Option ProfileId → Except ValidationError (OrdSet ProfileId)
  | _, visiting, none => pure visiting
  | 0, _, some id => throw (profileCycleReaches id)
  | fuel + 1, visiting, some id =>
    if visited.contains id then pure visiting
    else if visiting.contains id then throw (profileCycleReaches id)
    else
      walkProfiles visited fuel (visiting.insert id)
        (m.profiles[id]?.bind fun profile => profile.extends')

def rejectProfileCycles : Except ValidationError Unit := do
  let _ ← m.profiles.keys.foldlM (fun visited root => do
    let visiting ← walkProfiles m visited (m.profiles.size + 1) ∅ (some root)
    pure (visited ∪ visiting)) ∅
  pure ()

/-- Verifies the invariants that go across the records of a manifest. -/
def EnvironmentManifest.validate : Except ValidationError Unit := do
  m.assets.toList.forM (validateAsset blake3 m)
  validatePackMemberBudget m.packs "manifest.pack_member_limit_exceeded"
  m.packs.toList.forM (validatePack blake3 m)
  validatePackGraphDepth m.packs
  rejectPackCycles m.packs
  m.packs.values.forM (validatePackRevision blake3 m)
  m.profiles.toList.forM (validateProfile m)
  rejectProfileCycles m

end Validation

section Refresh

structure RefreshState where
  packs : PackMap
  visiting : OrdSet AssetId
  visited : OrdSet AssetId

variable (blake3 : Bytes → Digest) (assets : OrdMap AssetId Asset)

/-- What a pack derives from a member at its present revision. -/
def refreshedMember (packs : PackMap) (member : AssetId) :
    Except ValidationError PackMemberMetadata :=
  match assets[member]? with
  | some asset => do
    refuseIf (asset.contentHash ≠ asset.expectedContentHash blake3)
      ⟨"manifest.pack_member_invalid",
        ascii "a pack member asset has invalid revision authority"⟩
    pure ⟨member, asset.contentHash, asset.compatibility, asset.contentClass,
      asset.requiredBindings⟩
  | none =>
    match packs[member]? with
    | some pack =>
      pure ⟨member, pack.contentHash, pack.compatibility, pack.contentClass,
        pack.requiredBindings⟩
    | none =>
      throw ⟨"manifest.unknown_pack_member", ascii "a pack references an unknown member"⟩

/-- A pack with the fields its members' metadata give it. -/
def Pack.derived (pack : Pack) (members : List PackMemberMetadata)
    (derived : DerivedPackFields) : Pack :=
  Pack.refreshContentHash blake3 { pack with
    members := OrdMap.mapOf (members.map fun member => (member.id, member.revision))
    compatibility := derived.compatibility
    contentClass := derived.contentClass
    requiredBindings := derived.requiredBindings }

/-- Refreshes a pack's members before it, with `remaining` levels left below the depth limit. -/
def refresh : Nat → AssetId → StateT RefreshState (Except ValidationError) Unit
  | 0, id => do
    let s ← get
    if s.visited.contains id then pure () else throw packDepthExceeded
  | remaining + 1, id => do
    let s ← get
    if s.visited.contains id then pure ()
    else if s.visiting.contains id then throw packCycle
    else
      set { s with visiting := s.visiting.insert id }
      match s.packs[id]? with
      | none => throw ⟨"manifest.pack_missing", ascii "selected pack is missing"⟩
      | some pack =>
        if pack.members.isEmpty then throw packEmpty
        pack.members.keys.forM fun member => do
          if (← get).packs.contains member then refresh remaining member
        let members ← pack.members.keys.mapM fun member => do
          refreshedMember blake3 assets (← get).packs member
        let derived ← derivePackFields members
        modify fun s =>
          { packs := s.packs.modify id fun pack => pack.derived blake3 members derived
            visiting := s.visiting.erase id
            visited := s.visited.insert id }

/-- Derives every pack again from the exact revisions of its members, then validates. -/
def EnvironmentManifest.refreshPackRevisions (m : EnvironmentManifest) :
    Except ValidationError EnvironmentManifest := do
  validatePackMemberBudget m.packs "manifest.pack_member_limit_exceeded"
  validatePackGraphDepth m.packs
  let (_, s) ← (m.packs.keys.forM fun id => refresh blake3 m.assets maxPackGraphDepth id).run
    ⟨m.packs, ∅, ∅⟩
  let refreshed := { m with packs := s.packs }
  refreshed.validate blake3
  pure refreshed

end Refresh

end Kitrove
