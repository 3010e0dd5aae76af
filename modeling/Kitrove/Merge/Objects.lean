import Kitrove.Model.Lockfile
import Kitrove.Model.Sync

/-! The verified objects that a merge derives from, and the check of a manifest against
them. -/

namespace Kitrove

open Std

structure SemanticMergeError where
  code : String
  message : String
  deriving DecidableEq

inductive TierOneHarness where
  | claude
  | codex
  | pi
  | openCode
  deriving DecidableEq

def TierOneHarness.id : TierOneHarness → HarnessId
  | .claude => .claude
  | .codex => .codex
  | .pi => .pi
  | .openCode => .openCode

def tierOneHarnesses : List TierOneHarness := [.claude, .codex, .pi, .openCode]

/-- The portable skill support that each tier-one adapter declares. -/
structure TierOneCapabilities where
  skill : TierOneHarness → FidelityResult
  portable : ∀ harness, (skill harness).fidelity = .portable

def portableSkillFormat : Bytes := ascii "agent-skills/v1"
def nativeSkillFormat : Bytes := ascii "kitrove-native-skill-object/v1"
def nativeExtensionFormat : Bytes := ascii "kitrove-native-pi-extension-object/v1"

/-- The envelope kind of a supported portable format. -/
def portableSnapshotObjectKind (format : Bytes) : Option SnapshotObjectKind :=
  if format = portableSkillFormat then some .portableSkillTree
  else if format = ascii "kitrove-instruction/v1" then some .portableInstruction
  else if format = ascii "kitrove-prompt-command/v1" then some .portablePromptCommand
  else if format = ascii "kitrove-agent/v1" then some .portableAgent
  else if format = ascii "kitrove-mcp-server/v1" then some .portableMcp
  else none

/-- The envelope kind of a supported native format. -/
def nativeSnapshotObjectKind (format : Bytes) : Option SnapshotObjectKind :=
  if format = nativeSkillFormat then some .nativeSkillObject
  else if format = nativeExtensionFormat then some .nativeExtensionObject
  else if format = ascii "kitrove-native-instruction-region/v1" then some .nativeInstruction
  else if format = ascii "kitrove-native-prompt-command/v1" then some .nativePromptCommand
  else if format = ascii "kitrove-native-agent/v1" then some .nativeAgent
  else if format = ascii "kitrove-native-mcp-entry/v1" then some .nativeMcp
  else none

section Objects

/-- A captured directory, by its files' bytes. -/
structure CapturedTree where
  hash : ContentHash
  files : OrdMap PortablePath Bytes
  deriving DecidableEq

structure StoredSkillTree where
  metadataJson : Bytes
  tree : CapturedTree
  deriving DecidableEq

structure NativeSkillObject where
  hash : ContentHash
  metadataJson : Bytes
  tree : CapturedTree
  deriving DecidableEq

inductive NativeExtensionLayout where
  | standalone
  | directory
  deriving DecidableEq

structure NativeExtensionObject where
  harness : HarnessId
  hash : ContentHash
  metadataJson : Bytes
  tree : CapturedTree
  layout : NativeExtensionLayout
  nativeId : Bytes
  entrypoint : Bytes
  deriving DecidableEq

/-- A document object by its kind, its identity, its encoding and the text it shows. -/
structure VerifiedDocumentObject where
  kind : SnapshotObjectKind
  objectHash : ContentHash
  encoded : Option Bytes
  text : Option Bytes
  deriving DecidableEq

/-- How objects are read: the document parser and the risk assessors, `none` where they fail. -/
structure ObjectAnalysis where
  /-- The native-only fields of a skill document. -/
  nativeFields : Bytes → Option (List Bytes)
  portableTreeRisk : CapturedTree → Option ContentClass
  nativeSkillRisk : NativeSkillObject → Option ContentClass
  nativeExecutableTreeRisk : CapturedTree → Option ContentClass
  extensionObservation : ComponentProvenance → NativeExtensionObject → Option ContentHash
  containsCredential : Bytes → Bool

structure VerifiedSkillObjectCatalog where
  portable : OrdMap ContentHash StoredSkillTree
  native : OrdMap ContentHash NativeSkillObject
  nativeExtensions : OrdMap ContentHash NativeExtensionObject
  documents : OrdMap ContentHash VerifiedDocumentObject
  portable_hash : ∀ (hash : ContentHash) object, portable[hash]? = some object →
    object.tree.hash = hash
  native_hash : ∀ (hash : ContentHash) object, native[hash]? = some object → object.hash = hash
  extension_hash : ∀ (hash : ContentHash) object, nativeExtensions[hash]? = some object →
    object.hash = hash
  document_hash : ∀ (hash : ContentHash) object, documents[hash]? = some object →
    object.objectHash = hash

end Objects

namespace VerifiedSkillObjectCatalog

variable (objects : VerifiedSkillObjectCatalog)

def objectMissing (message : String) : SemanticMergeError := ⟨"sync_merge.object_missing", message⟩

def findPortable (hash : ContentHash) : Except SemanticMergeError StoredSkillTree :=
  match objects.portable[hash]? with
  | some object => .ok object
  | none =>
    .error (objectMissing "a merged portable component is missing its verified object")

def findNative (hash : ContentHash) : Except SemanticMergeError NativeSkillObject :=
  match objects.native[hash]? with
  | some object => .ok object
  | none => .error (objectMissing "a merged native component is missing its verified object")

def findNativeExtension (hash : ContentHash) : Except SemanticMergeError NativeExtensionObject :=
  match objects.nativeExtensions[hash]? with
  | some object => .ok object
  | none =>
    .error (objectMissing "a merged native extension component is missing its verified object")

def findDocument (hash : ContentHash) : Except SemanticMergeError VerifiedDocumentObject :=
  match objects.documents[hash]? with
  | some object => .ok object
  | none => .error (objectMissing "a merged document component is missing its verified object")

def objectCountError : SemanticMergeError :=
  ⟨"sync_objects.count_exceeded", "verified merge object count exceeds the configured limit"⟩

def totalObjectError : SemanticMergeError :=
  ⟨"sync_objects.total_bytes_exceeded",
    "verified merge object bytes exceed the configured aggregate limit"⟩

/-- The metadata and the files together, within 64 bits. -/
def objectBytes (metadataJson : Bytes) (tree : CapturedTree) : Except SemanticMergeError Nat :=
  let total := metadataJson.length + (tree.files.values.map List.length).sum
  if total < 2 ^ 64 then .ok total else .error totalObjectError

def documentObjectBytes (object : VerifiedDocumentObject) : Except SemanticMergeError Nat :=
  match object.encoded with
  | some encoded => .ok encoded.length
  | none =>
    .error ⟨"sync_merge.object_invalid",
      "a verified document object could not be serialized canonically"⟩

def chargeObject (limits : SyncLimits) (total : Nat) (bytes : Except SemanticMergeError Nat) :
    Except SemanticMergeError Nat := do
  let bytes ← bytes
  refuseIf (bytes > limits.maxObjectBytes.toNat)
    ⟨"sync_objects.object_bytes_exceeded",
      "one verified merge object exceeds the configured byte limit"⟩
  refuseIf (total + bytes > limits.maxTotalObjectBytes.toNat) totalObjectError
  pure (total + bytes)

def validateLimits (limits : SyncLimits) : Except SemanticMergeError Unit := do
  refuseIf (objects.portable.size + objects.native.size + objects.nativeExtensions.size +
      objects.documents.size > limits.maxObjectCount.toNat) objectCountError
  let _ ← ((objects.portable.values.map fun o => objectBytes o.metadataJson o.tree) ++
    (objects.native.values.map fun o => objectBytes o.metadataJson o.tree) ++
    (objects.nativeExtensions.values.map fun o => objectBytes o.metadataJson o.tree) ++
    objects.documents.values.map documentObjectBytes).foldlM (chargeObject limits) 0
  pure ()

end VerifiedSkillObjectCatalog

section Risk

variable (blake3 : Bytes → Digest) (analysis : ObjectAnalysis)
  (objects : VerifiedSkillObjectCatalog)

def skillPath : PortablePath := ⟨ascii "SKILL.md", by decide +kernel, by decide +kernel⟩

/-- The risk of a portable skill tree whose document is portable. -/
def portableSkillClass (missing invalid fields risk : String) (object : StoredSkillTree) :
    Except SemanticMergeError ContentClass :=
  match object.tree.files[skillPath]? with
  | none => .error ⟨"sync_merge.portable_document_missing", missing⟩
  | some document =>
    match analysis.nativeFields document with
    | none => .error ⟨"sync_merge.portable_document_invalid", invalid⟩
    | some nativeFields => do
      refuseIf (nativeFields ≠ []) ⟨"sync_merge.portable_document_invalid", fields⟩
      match analysis.portableTreeRisk object.tree with
      | none => .error ⟨"sync_merge.derived_risk_invalid", risk⟩
      | some contentClass => .ok contentClass

def extensionShapeInvalid (message : String) : SemanticMergeError :=
  ⟨"sync_merge.extension_shape_invalid", message⟩

/-- The compatibility of a native extension: blocked for its own harness, nowhere else. -/
def extensionCompatibility (nativeHash : ContentHash) :
    Except ValidationError (OrdMap HarnessId FidelityResult) :=
  OrdMap.buildM (tierOneHarnesses.map TierOneHarness.id) fun harness => do
    let result ← FidelityResult.new <|
      if harness = .pi then
        ⟨.blocked,
          [⟨ascii "extension.executable_trust_required",
            ascii "native extension installation requires explicit machine-local executable trust"⟩],
          [⟨ascii "native.object_hash", nativeHash.bytes⟩], [.executableTrust],
          ascii "pi-native-extensions/1", none⟩
      else
        ⟨.unsupported,
          [⟨ascii "extension.native_only",
            ascii "the native Pi extension has no reviewed representation for this harness"⟩],
          [⟨ascii "native.format", nativeExtensionFormat⟩], [],
          ascii "kitrove-native-extension-matrix/1", none⟩
    pure (some result)

def extensionRoot (id : AssetId) (hash : ContentHash) : Except SemanticMergeError PortablePath :=
  match stripPrefix contentHashQualifier hash.bytes with
  | none => .error (extensionShapeInvalid "invalid object hash")
  | some suffix =>
    match Name.parse .path (ascii "assets/" ++ id.bytes ++ ascii "/native/pi/" ++ suffix) with
    | none => .error (extensionShapeInvalid "native extension object root is invalid")
    | some root => .ok root

def validateExtensionSnapshotAsset (asset : Asset) : Except SemanticMergeError Unit := do
  refuseIf (asset.portable.isSome || asset.nativeVariants.size ≠ 1 ||
      !asset.requiredBindings.isEmpty || asset.provenance.size ≠ 1)
    (extensionShapeInvalid
      "a native extension must contain only one Pi native component and its provenance")
  match asset.nativeVariants[HarnessId.pi]? with
  | none =>
    .error (extensionShapeInvalid "a native extension must contain one Pi native component")
  | some native => do
    refuseIf (native.format ≠ nativeExtensionFormat || native.harness ≠ .pi)
      ⟨"sync_merge.extension_format_invalid",
        "the native extension component format or harness is invalid"⟩
    let object ← objects.findNativeExtension native.objectHash
    refuseIf (object.harness ≠ .pi || object.hash ≠ native.objectHash)
      ⟨"sync_merge.native_harness_mismatch",
        "snapshot native extension object does not match manifest authority"⟩
    let expectedRoot ← extensionRoot asset.id object.hash
    refuseIf (native.root ≠ expectedRoot)
      (extensionShapeInvalid "native extension object root does not match derived authority")
    match asset.provenance[native.provenance]? with
    | none =>
      .error ⟨"sync_merge.extension_provenance_invalid",
        "native extension provenance is missing"⟩
    | some provenance => do
      refuseIf (provenance.exactSourceHash ≠ object.tree.hash ||
          (analysis.extensionObservation provenance object).map Name.bytes ≠
            some provenance.revision.bytes)
        ⟨"sync_merge.extension_provenance_invalid",
          "native extension provenance does not match verified Pi source authority"⟩
      match analysis.nativeExecutableTreeRisk object.tree with
      | none =>
        .error ⟨"sync_merge.derived_risk_invalid",
          "snapshot native extension risk could not be recomputed"⟩
      | some contentClass => do
        refuseIf (native.contentClass ≠ .executable || asset.contentClass ≠ .executable ||
            contentClass ≠ .executable)
          ⟨"sync_merge.derived_risk_mismatch",
            "snapshot native extension risk does not match verified objects"⟩
        match extensionCompatibility object.hash with
        | .error _ =>
          .error ⟨"sync_merge.derived_fidelity_invalid",
            "snapshot native extension fidelity could not be recomputed"⟩
        | .ok expectedCompatibility =>
          refuseIf (asset.compatibility ≠ expectedCompatibility)
            ⟨"sync_merge.derived_fidelity_mismatch",
              "snapshot native extension fidelity does not match verified objects"⟩

def documentFormatInvalid : SemanticMergeError :=
  ⟨"sync_merge.document_format_invalid",
    "snapshot document object does not match manifest authority"⟩

def documentRiskMismatch : SemanticMergeError :=
  ⟨"sync_merge.derived_risk_mismatch",
    "snapshot document object risk does not match manifest authority"⟩

def documentKinds : AssetKind → Option (SnapshotObjectKind × SnapshotObjectKind)
  | .instruction => some (.portableInstruction, .nativeInstruction)
  | .command => some (.portablePromptCommand, .nativePromptCommand)
  | .agent => some (.portableAgent, .nativeAgent)
  | .mcp => some (.portableMcp, .nativeMcp)
  | _ => none

def rejectDocumentCredentials (object : VerifiedDocumentObject) :
    Except SemanticMergeError Unit :=
  refuseIf (object.kind ∉ [.portableMcp, .nativeMcp] &&
      object.text.any analysis.containsCredential)
    ⟨"sync_merge.credential_content",
      "snapshot document object contains credential-shaped content"⟩

/-- The object of a document component, of the kind its asset and its format have. -/
def validateDocumentComponent (objectHash : ContentHash) (expected : SnapshotObjectKind)
    (formatKind : Option SnapshotObjectKind) : Except SemanticMergeError Unit := do
  let object ← objects.findDocument objectHash
  refuseIf (object.kind ≠ expected || formatKind ≠ some object.kind) documentFormatInvalid
  rejectDocumentCredentials analysis object

def validateDocumentSnapshotAsset (asset : Asset) : Except SemanticMergeError Unit :=
  match documentKinds asset.kind with
  | none =>
    if asset.portable.isNone && asset.nativeVariants.isEmpty then
      refuseIf (asset.contentClass ≠ .dataOnly) documentRiskMismatch
    else .error documentFormatInvalid
  | some (portableKind, nativeKind) => do
    refuseIf (asset.contentClass ≠ .agentActive ||
        asset.nativeVariants.values.any fun native => native.contentClass ≠ .agentActive)
      documentRiskMismatch
    match asset.portable with
    | some portable =>
      validateDocumentComponent analysis objects portable.objectHash portableKind
        (portableSnapshotObjectKind portable.format)
    | none => pure ()
    asset.nativeVariants.values.forM fun native =>
      validateDocumentComponent analysis objects native.objectHash nativeKind
        (nativeSnapshotObjectKind native.format)

/-- The class of a native skill component, which the manifest must state. -/
def nativeSnapshotClass (native : NativeVariant) : Except SemanticMergeError ContentClass := do
  let object ← objects.findNative native.objectHash
  match analysis.nativeSkillRisk object with
  | none =>
    .error ⟨"sync_merge.derived_risk_invalid",
      "snapshot native object risk could not be recomputed"⟩
  | some nativeClass => do
    refuseIf (native.contentClass ≠ nativeClass)
      ⟨"sync_merge.derived_risk_mismatch",
        "snapshot native object risk does not match manifest authority"⟩
    pure nativeClass

def validateSkillSnapshotAsset (asset : Asset) : Except SemanticMergeError Unit := do
  let portableClass ←
    match asset.portable with
    | none => pure ContentClass.dataOnly
    | some portable => do
      let object ← objects.findPortable portable.objectHash
      portableSkillClass analysis "snapshot portable skill object is missing SKILL.md"
        "snapshot portable skill document is invalid"
        "snapshot portable skill document contains native-only fields"
        "snapshot portable object risk could not be recomputed" object
  let contentClass ← asset.nativeVariants.values.foldlM (fun contentClass native => do
    pure (contentClass.max (← nativeSnapshotClass analysis objects native)))
    (ContentClass.dataOnly.max portableClass)
  refuseIf (asset.contentClass ≠ contentClass)
    ⟨"sync_merge.derived_risk_mismatch",
      "snapshot asset risk does not match verified objects"⟩

def validateSnapshotAsset (asset : Asset) : Except SemanticMergeError Unit :=
  if asset.kind = .extension then validateExtensionSnapshotAsset analysis objects asset
  else do
    refuseIf (asset.nativeVariants.values.any fun native => native.format = nativeExtensionFormat)
      ⟨"sync_merge.extension_kind_invalid",
        "native extension object authority requires Extension asset kind"⟩
    if asset.kind ≠ .skill then validateDocumentSnapshotAsset analysis objects asset
    else validateSkillSnapshotAsset analysis objects asset

/-- Computes the credential and executable risk of every asset again. -/
def validateManifestObjectRisk (m : EnvironmentManifest) (limits : SyncLimits) :
    Except SemanticMergeError Unit := do
  objects.validateLimits limits
  match m.validate blake3 with
  | .error _ =>
    .error ⟨"sync_merge.manifest_invalid",
      "snapshot risk validation requires validated manifest authority"⟩
  | .ok () => m.assets.values.forM (validateSnapshotAsset analysis objects)

end Risk

end Kitrove
