import Kitrove.Model.Fidelity

/-! Assets and packs: their components, their provenance and the identities of their
complete revisions. -/

namespace Kitrove

inductive AssetKind where
  | skill
  | instruction
  | agent
  | command
  | hook
  | mcp
  | plugin
  | extension
  | pack
  deriving DecidableEq

def AssetKind.tag : AssetKind → UInt8
  | .skill => 0
  | .instruction => 1
  | .agent => 2
  | .command => 3
  | .hook => 4
  | .mcp => 5
  | .plugin => 6
  | .extension => 7
  | .pack => 8

inductive Source where
  | authoredPack
  | harness (harness : HarnessId) (origin : PortablePath)
  | local' (path : PortablePath)
  | git (repository : RepositoryUrl) (subdirectory : Option PortablePath)
  deriving DecidableEq

/-- `hash_source`. -/
def Source.record : Source → Bytes
  | .authoredPack => [3]
  | .harness harnessId origin => 0 :: textRecord harnessId.asStr ++ textRecord origin.bytes
  | .local' path => 1 :: textRecord path.bytes
  | .git repository subdirectory =>
    2 :: textRecord repository.bytes ++ optionalRecord (subdirectory.map Name.bytes)

/-- Immutable source evidence; only a harness source has an origin scope. -/
structure ComponentProvenance where
  source : Source
  revision : Revision
  exactSourceHash : ContentHash
  originScope : Option HarnessScope
  scope : source ≠ .authoredPack ∧
    (originScope.isSome = true ↔ ∃ harnessId origin, source = .harness harnessId origin)
  deriving DecidableEq

structure PortableContent where
  format : Bytes
  root : PortablePath
  objectHash : ContentHash
  provenance : ProvenanceId
  deriving DecidableEq

structure NativeVariant where
  harness : HarnessId
  format : Bytes
  root : PortablePath
  objectHash : ContentHash
  contentClass : ContentClass
  provenance : ProvenanceId
  deriving DecidableEq

structure Asset where
  id : AssetId
  kind : AssetKind
  contentHash : ContentHash
  provenance : OrdMap ProvenanceId ComponentProvenance
  portable : Option PortableContent
  nativeVariants : OrdMap HarnessId NativeVariant
  compatibility : OrdMap HarnessId FidelityResult
  contentClass : ContentClass
  requiredBindings : OrdSet BindingName
  deriving DecidableEq

/-- An aggregate that keeps one pack identity over its members' revisions. -/
structure Pack where
  id : AssetId
  source : Source
  revision : Revision
  exactSourceHash : ContentHash
  contentHash : ContentHash
  members : OrdMap AssetId ContentHash
  compatibility : OrdMap HarnessId FidelityResult
  contentClass : ContentClass
  requiredBindings : OrdSet BindingName
  deriving DecidableEq

section Revisions

/-- `hash_fidelity`. -/
def FidelityResult.record (result : FidelityResult) : Bytes :=
  [result.fidelity.tag] ++
    countRecord result.reasons.length ++
    (result.reasons.flatMap fun reason => textRecord reason.code ++ textRecord reason.message) ++
    countRecord result.evidence.length ++
    (result.evidence.flatMap fun item => textRecord item.kind ++ textRecord item.detail) ++
    countRecord result.blockedRequirements.length ++
    (result.blockedRequirements.flatMap fun
      | .binding name => 0 :: textRecord name.bytes
      | .executableTrust => [1]) ++
    textRecord result.adapterVersion ++ optionalRecord result.harnessVersion

variable (blake3 : Bytes → Digest)

def ComponentProvenance.provenanceId (provenance : ComponentProvenance) : ProvenanceId :=
  ProvenanceId.ofDigest <| blake3 <|
    ascii "kitrove-component-provenance-v1" ++ [0] ++ provenance.source.record ++
      textRecord provenance.revision.bytes ++ textRecord provenance.exactSourceHash.bytes ++
      optionalRecord (provenance.originScope.map HarnessScope.asStr)

def compatibilityRecord (compatibility : OrdMap HarnessId FidelityResult) : Bytes :=
  countRecord compatibility.size ++
    compatibility.toList.flatMap fun (harness, result) =>
      textRecord harness.asStr ++ result.record

def bindingsRecord (bindings : OrdSet BindingName) : Bytes :=
  countRecord bindings.size ++ bindings.toList.flatMap fun binding => textRecord binding.bytes

def Asset.expectedContentHash (asset : Asset) : ContentHash :=
  ContentHash.ofDigest <| blake3 <|
    ascii "kitrove-asset-revision-v3" ++ [0] ++ textRecord asset.id.bytes ++ [asset.kind.tag] ++
      countRecord asset.provenance.size ++
      (asset.provenance.toList.flatMap fun (id, record) =>
        textRecord id.bytes ++ textRecord (record.provenanceId blake3).bytes) ++
      (match asset.portable with
        | some portable =>
          1 :: textRecord portable.format ++ textRecord portable.root.bytes ++
            textRecord portable.objectHash.bytes ++ textRecord portable.provenance.bytes
        | none => [0]) ++
      countRecord asset.nativeVariants.size ++
      (asset.nativeVariants.toList.flatMap fun (harness, variant) =>
        textRecord harness.asStr ++ textRecord variant.harness.asStr ++
          textRecord variant.format ++ textRecord variant.root.bytes ++
          textRecord variant.objectHash.bytes ++ [variant.contentClass.tag] ++
          textRecord variant.provenance.bytes) ++
      compatibilityRecord asset.compatibility ++ [asset.contentClass.tag] ++
      bindingsRecord asset.requiredBindings

def Asset.refreshContentHash (asset : Asset) : Asset :=
  { asset with contentHash := asset.expectedContentHash blake3 }

/-- The fixed revision of an authored pack declaration. -/
def authoredPackRevision : Revision := ⟨ascii "authored-pack-v1", by decide +kernel, by decide +kernel⟩

def Pack.authoredSourceResolution (id : AssetId) : Revision × ContentHash :=
  (authoredPackRevision,
    ContentHash.ofDigest <| blake3 <|
      ascii "kitrove-authored-pack-declaration-v1" ++ [0] ++ textRecord id.bytes)

def Pack.expectedContentHash (pack : Pack) : ContentHash :=
  ContentHash.ofDigest <| blake3 <|
    ascii "kitrove-pack-revision-v1" ++ [0] ++ textRecord pack.id.bytes ++ pack.source.record ++
      textRecord pack.revision.bytes ++ textRecord pack.exactSourceHash.bytes ++
      countRecord pack.members.size ++
      (pack.members.toList.flatMap fun (id, revision) =>
        textRecord id.bytes ++ textRecord revision.bytes) ++
      compatibilityRecord pack.compatibility ++ [pack.contentClass.tag] ++
      bindingsRecord pack.requiredBindings

def Pack.refreshContentHash (pack : Pack) : Pack :=
  { pack with contentHash := pack.expectedContentHash blake3 }

end Revisions

end Kitrove
