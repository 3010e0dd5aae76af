import Kitrove.Materialization.Receipts
import Kitrove.Skills.Risk

/-! Planning to apply a portable skill to a directory it owns whole, and to remove it again. -/

namespace Kitrove.Materialization

open Std InstructionApply Skills

inductive DestinationObservation where
  | absent
  | present (layout : SkillSourceLayout) (renderedHash : ContentHash)
  | unsafeEntry
  deriving DecidableEq

structure RenderedSkill where
  layout : SkillSourceLayout
  documentName : Bytes
  packageName : AssetId
  tree : Skills.CapturedTree
  renderedHash : ContentHash

def RenderedSkill.containsExecutableMode (rendered : RenderedSkill) : Bool :=
  rendered.tree.files.values.any fun file => file.mode == .executable

structure ApplyPlan where
  policy : TargetPolicy
  assetId : AssetId
  harness : HarnessId
  scope : HarnessScope
  destination : NormalizedDestination
  relativeDestination : PortablePath
  receiptId : ReceiptId
  manifestRevision : Revision
  disposition : ApplyDisposition
  observedReceipt : Option DeploymentReceipt
  observedDestination : DestinationObservation
  rendered : RenderedSkill
  proposedReceipt : DeploymentReceipt
  proposedLocalState : LocalState
  observedLocalStateText : Bytes
  digest : ContentHash

variable (lib : ApplyLibraries)

section Rendering

/-- Applies one adapter policy to a verified portable object. -/
def renderPortableSkill (object : Skills.StoredSkillTree) (policy : TargetPolicy) :
    Except MaterializationError RenderedSkill := do
  refuseIf (policy.policyLine.harness ≠ policy.harness)
    ⟨"materialization.policy_invalid",
      "the selected target policy line does not belong to its harness"⟩
  refuseIf (policy.layout ≠ .directory ∨ policy.documentName.bytes ≠ ascii "SKILL.md")
    ⟨"materialization.layout_unsupported",
      "the selected target layout is not supported for materialization"⟩
  match object.tree.files[policy.documentName]? with
  | none =>
    throw ⟨"materialization.document_missing",
      "the portable object has no target principal document"⟩
  | some document => do
    let parsed ← (parseSkillDocument lib.readYaml (ascii "rendered/SKILL.md")
      document.bytes).mapError fun _ =>
        ⟨"materialization.document_invalid", "the portable principal document is invalid"⟩
    pure
      { layout := policy.layout
        documentName := policy.documentName.bytes
        packageName := parsed.manifest.name
        tree := object.tree
        renderedHash :=
          hashSkillSource lib.blake3 policy.layout policy.documentName.bytes object.tree }

/-- What a capture observes of a destination that holds exactly the rendered content. -/
def RenderedSkill.observed (blake3 : Bytes → Digest) (rendered : RenderedSkill) :
    DestinationObservation :=
  .present rendered.layout
    (hashSkillSource blake3 rendered.layout rendered.documentName rendered.tree)

end Rendering

section Authority

def executableBlocked : MaterializationError :=
  ⟨"apply.executable_blocked",
    "executable assets require a later trust workflow before materialization"⟩

/-- The asset, once its content, its bindings and its compatibility permit materialization. -/
def authorizedSkill (manifest : EnvironmentManifest) (assetId : AssetId) (object : Skills.StoredSkillTree)
    (policy : TargetPolicy) : Except MaterializationError Asset := do
  match manifest.assets[assetId]? with
  | none =>
    throw ⟨"apply.asset_missing", "the selected asset is not present in manifest authority"⟩
  | some asset => do
    let observedClass ← (assessPortableTreeRisk object.tree).mapError fun _ =>
      ⟨"apply.credential_blocked", "credential-like portable content cannot be materialized"⟩
    refuseIf (observedClass = .executable) executableBlocked
    refuseIf (asset.contentClass = .executable) executableBlocked
    refuseIf (!asset.requiredBindings.isEmpty)
      ⟨"apply.bindings_unresolved", "the selected asset requires unresolved local bindings"⟩
    match asset.compatibility[policy.harness]? with
    | none =>
      throw ⟨"apply.compatibility_missing",
        "the selected asset has no target compatibility result"⟩
    | some compatibility => do
      refuseIf (compatibility.fidelity ∉ [.native, .portable, .adapted])
        ⟨"apply.compatibility_blocked",
          "the selected target fidelity does not permit materialization"⟩
      refuseIf (compatibility.adapterVersion ≠ policy.adapterVersion)
        ⟨"apply.adapter_version_mismatch",
          "the selected target policy differs from manifest compatibility authority"⟩
      pure asset

def checkPortable (asset : Asset) (object : Skills.StoredSkillTree) : Except MaterializationError Unit :=
  match asset.portable with
  | none =>
    throw ⟨"apply.portable_missing", "the selected asset has no portable object authority"⟩
  | some portable =>
    refuseIf (portable.format ≠ ascii "agent-skills/v1" ∨ portable.objectHash ≠ object.tree.hash)
      ⟨"apply.portable_mismatch",
        "the supplied portable object does not match manifest authority"⟩

/-- What planning settles before it looks at the receipts. -/
structure SkillTarget where
  asset : Asset
  rendered : RenderedSkill
  destination : NormalizedDestination
  relativeDestination : PortablePath
  manifestRevision : Revision

def skillTarget (manifest : EnvironmentManifest) (assetId : AssetId) (object : Skills.StoredSkillTree)
    (policy : TargetPolicy) (anchor : Bytes) : Except MaterializationError SkillTarget := do
  let asset ← authorizedSkill manifest assetId object policy
  let rendered ← renderPortableSkill lib object policy
  checkPortable asset object
  let destination ← resolveTargetDestination lib.paths anchor policy rendered.packageName
  let relativeDestination ← relativeDestinationOf
    (policy.relativeRoot.bytes ++ ascii "/" ++ rendered.packageName.bytes)
    ⟨"apply.destination_invalid", "the selected relative destination is invalid"⟩
  refuseIf rendered.containsExecutableMode
    ⟨"apply.executable_mode_blocked",
      "portable output with executable mode requires a later trust workflow"⟩
  let manifestRevision ← (deriveManifestRevision lib.blake3 lib.authority manifest).mapError fun _ =>
    ⟨"apply.manifest_revision_invalid", "manifest revision authority could not be derived"⟩
  pure { asset, rendered, destination, relativeDestination, manifestRevision }

end Authority

section Planning

def receiptsForDestination (localState : LocalState) (harness : HarnessId) (scope : HarnessScope)
    (destination : NormalizedDestination) : List (ReceiptId × DeploymentReceipt) :=
  OrdMap.selected localState.receipts fun receipt =>
    receipt.harness = harness ∧ receipt.scope = scope ∧ receipt.destination = destination

/-- The one receipt of the destination, which must be the asset's. -/
def observedSkillReceipt (localState : LocalState) (assetId : AssetId) (policy : TargetPolicy)
    (destination : NormalizedDestination) :
    Except MaterializationError (Option DeploymentReceipt) := do
  let matching := receiptsForDestination localState policy.harness policy.scope destination
  refuseIf (matching.length > 1)
    ⟨"apply.receipt_ambiguous", "multiple receipts claim the selected destination"⟩
  let observedReceipt := matching.head?.map Prod.snd
  refuseIf (observedReceipt.any fun receipt => receipt.assetId ≠ assetId)
    ⟨"apply.destination_owned_by_other_asset",
      "the selected destination is owned by another asset"⟩
  pure observedReceipt

/-- What is to be done with the destination, and the hash it had before. -/
def skillDisposition (policy : TargetPolicy) (target : SkillTarget) :
    Option DeploymentReceipt → DestinationObservation →
      Except MaterializationError (ApplyDisposition × Option ContentHash)
  | none, .absent => pure (.install, none)
  | none, .present _ _ =>
    throw ⟨"apply.destination_unmanaged", "an unmanaged destination is never overwritten"⟩
  | _, .unsafeEntry =>
    throw ⟨"apply.destination_unsafe",
      "the selected destination could not be inspected safely"⟩
  | some receipt, .absent => pure (.restore, receipt.priorHash)
  | some receipt, .present layout renderedHash => do
    refuseIf (layout ≠ target.rendered.layout)
      ⟨"apply.destination_layout_modified",
        "the managed destination layout changed after materialization"⟩
    refuseIf (renderedHash ≠ receipt.renderedHash)
      ⟨"apply.destination_modified", "the managed destination changed after materialization"⟩
    if receipt.sourceHash = target.asset.contentHash ∧
        receipt.renderedHash = target.rendered.renderedHash ∧
        receipt.adapterVersion = policy.adapterVersion ∧
        receipt.environmentRevision = target.manifestRevision then
      pure (.noOp, receipt.priorHash)
    else pure (.managedUpdate, some receipt.renderedHash)

def DestinationObservation.record : DestinationObservation → Bytes
  | .absent => [0]
  | .unsafeEntry => [1]
  | .present layout renderedHash => [2, layout.tag] ++ textRecord renderedHash.bytes

def planDigestFailed : MaterializationError :=
  ⟨"apply.plan_digest_failed", "the apply plan digest could not be derived"⟩

def receiptRecord (receipt : DeploymentReceipt) : Except MaterializationError Bytes :=
  match lib.encodeReceipt receipt with
  | none => throw planDigestFailed
  | some encoded => pure (textRecord encoded)

def observedReceiptRecord : Option DeploymentReceipt → Except MaterializationError Bytes
  | some receipt => do
    let encoded ← receiptRecord lib receipt
    pure (1 :: encoded)
  | none => pure [0]

def applyPlanDigest (assetId : AssetId) (policy : TargetPolicy) (destination : NormalizedDestination)
    (manifestRevision : Revision) (disposition : ApplyDisposition)
    (observedReceipt : Option DeploymentReceipt) (destinationObservation : DestinationObservation)
    (proposedReceipt : DeploymentReceipt) (observedLocalStateText proposedLocalStateText : Bytes) :
    Except MaterializationError ContentHash := do
  let observed ← observedReceiptRecord lib observedReceipt
  let proposed ← receiptRecord lib proposedReceipt
  pure (.ofDigest (lib.blake3 (ascii "kitrove-apply-plan-v1" ++ [0] ++
    [assetId.bytes, policy.harness.asStr, policy.scope.asStr, policy.policyLine.asStr,
      policy.relativeRoot.bytes, policy.documentName.bytes, policy.adapterVersion, policy.evidence,
      destination.text, manifestRevision.bytes].flatMap textRecord ++
    [disposition.tag] ++ observed ++ destinationObservation.record ++ proposed ++
    [(contentDigest lib.blake3 observedLocalStateText).bytes,
      (contentDigest lib.blake3 proposedLocalStateText).bytes].flatMap textRecord)))

def proposedStateText (localState : LocalState) : Except MaterializationError Bytes :=
  (localState.toJson lib.states).mapError fun _ =>
    ⟨"apply.local_state_serialize",
      "the proposed machine-local state could not be serialized"⟩

def proposedSkillReceipt (assetId : AssetId) (policy : TargetPolicy) (target : SkillTarget)
    (priorHash : Option ContentHash) : DeploymentReceipt :=
  wholeTargetReceipt assetId policy.harness policy.scope target.destination
    target.asset.contentHash target.rendered.renderedHash priorHash policy.adapterVersion
    target.manifestRevision

/-- The plan for a target from the receipts and the observed destination. -/
def planSkillTarget (assetId : AssetId) (policy : TargetPolicy) (target : SkillTarget)
    (localState : LocalState) (localStateText : Bytes)
    (destinationObservation : DestinationObservation) : Except MaterializationError ApplyPlan := do
  let observedReceipt ← observedSkillReceipt localState assetId policy target.destination
  let (disposition, priorHash) ← skillDisposition policy target observedReceipt
    destinationObservation
  let proposedReceipt := proposedSkillReceipt assetId policy target priorHash
  let receiptId ← (proposedReceipt.receiptId lib.blake3).mapError fun _ =>
    ⟨"apply.receipt_invalid", "the proposed receipt is invalid"⟩
  let proposedLocalState := withReceipt localState receiptId proposedReceipt
  let proposedLocalStateText ← proposedStateText lib proposedLocalState
  let digest ← applyPlanDigest lib assetId policy target.destination target.manifestRevision
    disposition observedReceipt destinationObservation proposedReceipt localStateText
    proposedLocalStateText
  pure
    { policy
      assetId
      harness := policy.harness
      scope := policy.scope
      destination := target.destination
      relativeDestination := target.relativeDestination
      receiptId
      manifestRevision := target.manifestRevision
      disposition
      observedReceipt
      observedDestination := destinationObservation
      rendered := target.rendered
      proposedReceipt
      proposedLocalState
      observedLocalStateText := localStateText
      digest }

/-- Plans one receipt-backed apply. -/
def planSkillApply (manifest : EnvironmentManifest) (assetId : AssetId) (object : Skills.StoredSkillTree)
    (policy : TargetPolicy) (anchor localStateText : Bytes)
    (destinationObservation : DestinationObservation) : Except MaterializationError ApplyPlan := do
  (manifest.validate lib.blake3).mapError fun _ =>
    ⟨"apply.manifest_invalid", "manifest authority is invalid"⟩
  let localState ← (LocalState.fromJson lib.states localStateText).mapError fun _ =>
    ⟨"apply.local_state_invalid", "machine-local state is invalid"⟩
  validateLocalReceipts lib.blake3 localState
  let target ← skillTarget lib manifest assetId object policy anchor
  planSkillTarget lib assetId policy target localState localStateText destinationObservation

def removalUnavailable : MaterializationError :=
  ⟨"remove.skill_authority_unavailable",
    "skill removal requires one present exact receipt-backed destination"⟩

def DestinationObservation.isPresent : DestinationObservation → Bool
  | .present _ _ => true
  | .absent | .unsafeEntry => false

/-- Plans the removal of one receipt-backed skill; its portable authority stays. -/
def planSkillRemoval (manifest : EnvironmentManifest) (assetId : AssetId) (object : Skills.StoredSkillTree)
    (policy : TargetPolicy) (anchor localStateText : Bytes)
    (destinationObservation : DestinationObservation) : Except MaterializationError ApplyPlan := do
  let plan ← planSkillApply lib manifest assetId object policy anchor localStateText
    destinationObservation
  refuseIf (plan.disposition ∉ [.noOp, .managedUpdate] ∨ !plan.observedDestination.isPresent)
    removalUnavailable
  match plan.observedReceipt with
  | none => throw removalUnavailable
  | some observedReceipt => do
    refuseIf ((observedReceipt.receiptId lib.blake3).toOption ≠ some plan.receiptId ∨
        plan.proposedLocalState.receipts[plan.receiptId]? ≠ some plan.proposedReceipt)
      removalUnavailable
    let proposedLocalState := withoutReceipt plan.proposedLocalState plan.receiptId
    let proposedLocalStateText ← proposedStateText lib proposedLocalState
    let digest ← applyPlanDigest lib plan.assetId plan.policy plan.destination
      plan.manifestRevision .remove plan.observedReceipt plan.observedDestination observedReceipt
      plan.observedLocalStateText proposedLocalStateText
    pure
      { plan with
        disposition := .remove
        proposedReceipt := observedReceipt
        proposedLocalState
        digest }

end Planning

end Kitrove.Materialization
