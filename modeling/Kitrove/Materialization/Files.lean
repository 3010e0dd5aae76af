import Kitrove.Agents.Stored
import Kitrove.Materialization.Receipts
import Kitrove.Mcp.Credential

/-! Planning to apply a prompt command or an agent to a file it owns whole. -/

namespace Kitrove.Materialization

open Std InstructionApply

section Observations

/-- The exact state of one whole-file destination. -/
structure FileObservation (Policy FileName : Type) where
  policy : Policy
  name : FileName
  destination : NormalizedDestination
  content : Option Bytes
  mode : RegularFileMode

def FileObservation.contentHash {Policy FileName : Type} (blake3 : Bytes → Digest) (domain : Bytes)
    (observation : FileObservation Policy FileName) : Option ContentHash :=
  observation.content.map fun bytes => hashExactFileTarget blake3 domain bytes observation.mode

structure RenderedFile where
  bytes : Bytes
  mode : RegularFileMode
  contentHash : ContentHash

structure FileApplyPlan (Policy FileName : Type) where
  policy : Policy
  assetId : AssetId
  destination : NormalizedDestination
  relativeDestination : PortablePath
  manifestRevision : Revision
  disposition : ApplyDisposition
  observation : FileObservation Policy FileName
  rendered : RenderedFile
  observedReceipt : Option DeploymentReceipt
  proposedReceipt : DeploymentReceipt
  proposedLocalState : LocalState
  observedLocalStateText : Bytes
  digest : ContentHash

/-- The words that tell the errors of one kind of file from those of another. -/
structure FileWords where
  code : String
  kind : String
  noun : String
  asNoun : String
  subject : String

def FileWords.error (words : FileWords) (code message : String) : MaterializationError :=
  ⟨words.code ++ "." ++ code, message⟩

def FileWords.invalidState (words : FileWords) : MaterializationError :=
  words.error "local_state_invalid" "machine-local receipt authority is invalid"

def FileWords.invalidManifest (words : FileWords) : MaterializationError :=
  words.error "manifest_invalid" "manifest authority is invalid"

end Observations

variable (lib : ApplyLibraries) (words : FileWords)

section Authority

/-- What is asked of manifest, policy and observation before the receipts are read. -/
def checkFileAuthority (manifest : EnvironmentManifest) (policyValid : Except AdapterError Unit)
    (observed : Bool) : Except MaterializationError Unit := do
  (manifest.validate lib.blake3).mapError fun _ => words.invalidManifest
  policyValid.mapError fun _ =>
    words.error "policy_invalid" (words.kind ++ " target policy is invalid")
  refuseIf (!observed) (words.error "observation_mismatch"
    ("the destination observation does not match " ++ words.subject ++ " target authority"))

def readLocalState (localStateText : Bytes) : Except MaterializationError LocalState := do
  let localState ← (LocalState.fromJson lib.states localStateText).mapError fun _ =>
    words.invalidState
  validateLocalReceipts lib.blake3 localState
  pure localState

/-- The asset, once its kind, its compatibility and its portable object permit the policy. -/
def authorizedFile (kind : AssetKind) (format : Bytes) (objectHash : ContentHash)
    (manifest : EnvironmentManifest) (assetId : AssetId) (harness : HarnessId)
    (adapterVersion : Bytes) : Except MaterializationError Asset := do
  match manifest.assets[assetId]? with
  | none =>
    throw (words.error "asset_missing" ("the selected " ++ words.kind ++ " asset is not present"))
  | some asset => do
    refuseIf (asset.kind ≠ kind ∨ asset.contentClass ≠ .agentActive ∨
        !asset.requiredBindings.isEmpty)
      (words.error "asset_unsupported"
        ("the selected asset cannot be materialized as " ++ words.asNoun))
    match asset.compatibility[harness]? with
    | none =>
      throw (words.error "compatibility_missing"
        "the selected asset has no target compatibility result")
    | some compatibility => do
      refuseIf (compatibility.fidelity ∉ [.native, .portable, .adapted] ∨
          compatibility.adapterVersion ≠ adapterVersion)
        (words.error "compatibility_blocked"
          ("target compatibility does not authorize this " ++ words.kind ++ " policy"))
      match asset.portable with
      | none =>
        throw (words.error "portable_missing"
          ("the selected asset has no portable " ++ words.kind ++ " authority"))
      | some portable => do
        refuseIf (portable.format ≠ format ∨ portable.objectHash ≠ objectHash)
          (words.error "portable_mismatch"
            ("the supplied " ++ words.kind ++ " object does not match manifest authority"))
        pure asset

end Authority

section Receipts

/-- What a receipt of the file would record. -/
structure FileRequest where
  assetId : AssetId
  harness : HarnessId
  scope : HarnessScope
  destination : NormalizedDestination
  sourceHash : ContentHash
  renderedHash : ContentHash
  adapterVersion : Bytes
  manifestRevision : Revision

def FileRequest.receipt (request : FileRequest) (priorHash : Option ContentHash) :
    DeploymentReceipt :=
  wholeTargetReceipt request.assetId request.harness request.scope request.destination
    request.sourceHash request.renderedHash priorHash request.adapterVersion request.manifestRevision

/-- The one receipt of the destination, which must be the asset's for this harness alone. -/
def observedFileReceipt (localState : LocalState) (request : FileRequest) :
    Except MaterializationError (Option DeploymentReceipt) := do
  let matching := localState.receipts.values.filter fun receipt =>
    receipt.destination = request.destination
  refuseIf (matching.length > 1) (words.error "receipt_ambiguous"
    ("multiple receipts claim the selected " ++ words.kind ++ " destination"))
  let observedReceipt := matching.head?
  refuseIf (observedReceipt.any fun receipt => receipt.assetId ≠ request.assetId ∨
      receipt.harness ≠ request.harness ∨ receipt.scope ≠ request.scope ∨
      receipt.target ≠ .wholeTarget ∨ !receipt.sharedWith.isEmpty)
    (words.error "destination_owned_by_other_asset"
      ("the selected " ++ words.kind ++ " destination is owned by other authority"))
  pure observedReceipt

/-- What is to be done with the file, and the hash it had before. -/
def fileDisposition (request : FileRequest) : Option DeploymentReceipt → Option ContentHash →
    Except MaterializationError (ApplyDisposition × Option ContentHash)
  | none, none => pure (.install, none)
  | none, some _ =>
    throw (words.error "destination_unmanaged"
      ("an unmanaged " ++ words.kind ++ " file is never overwritten"))
  | some receipt, none => pure (.restore, receipt.priorHash)
  | some receipt, some observedHash => do
    refuseIf (observedHash ≠ receipt.renderedHash) (words.error "destination_modified"
      ("the managed " ++ words.kind ++ " file changed after materialization"))
    if receipt.sourceHash = request.sourceHash ∧ receipt.renderedHash = request.renderedHash ∧
        receipt.adapterVersionFor request.harness = some request.adapterVersion ∧
        receipt.environmentRevision = request.manifestRevision then
      pure (.noOp, receipt.priorHash)
    else pure (.managedUpdate, some receipt.renderedHash)

/-- The state without the observed receipt. -/
def dropObserved (localState : LocalState) :
    Option DeploymentReceipt → Except MaterializationError LocalState
  | none => pure localState
  | some receipt => do
    let receiptId ← (receipt.receiptId lib.blake3).mapError fun _ => words.invalidState
    pure (withoutReceipt localState receiptId)

structure FileTransition where
  observedReceipt : Option DeploymentReceipt
  disposition : ApplyDisposition
  proposedReceipt : DeploymentReceipt
  receiptId : ReceiptId
  proposedLocalState : LocalState
  proposedLocalStateText : Bytes

def planFileReceipt (localState : LocalState) (request : FileRequest)
    (observedHash : Option ContentHash) : Except MaterializationError FileTransition := do
  let observedReceipt ← observedFileReceipt words localState request
  let (disposition, priorHash) ← fileDisposition words request observedReceipt observedHash
  let proposedReceipt := request.receipt priorHash
  let remaining ← dropObserved lib words localState observedReceipt
  let receiptId ← (proposedReceipt.receiptId lib.blake3).mapError fun _ => words.invalidState
  let proposedLocalState := withReceipt remaining receiptId proposedReceipt
  let proposedLocalStateText ← (proposedLocalState.toJson lib.states).mapError fun _ =>
    words.invalidState
  pure { observedReceipt, disposition, proposedReceipt, receiptId, proposedLocalState,
         proposedLocalStateText }

def optionalHashRecord : Option ContentHash → Bytes
  | some hash => 1 :: textRecord hash.bytes
  | none => [0]

end Receipts

section Planning

/-- What planning settles of a file before it looks at the receipts. -/
structure FileTarget where
  asset : Asset
  bytes : Bytes
  relativeDestination : PortablePath
  manifestRevision : Revision

/-- What the planners of two kinds of files do not have in common. -/
structure FilePlanner (Policy FileName : Type) where
  words : FileWords
  targetDomain : Bytes
  planDomain : Bytes
  assetId : AssetId
  policy : Policy
  harness : HarnessId
  scope : HarnessScope
  adapterVersion : Bytes
  policyFields : List Bytes
  nameBytes : FileName → Bytes
  tags : Bytes
  authority : Policy → FileName → Except MaterializationError Unit
  target : Except MaterializationError FileTarget

variable {Policy FileName : Type} (planner : FilePlanner Policy FileName)

def FilePlanner.rendered (observation : FileObservation Policy FileName) (target : FileTarget) :
    RenderedFile where
  bytes := target.bytes
  mode := observation.mode
  contentHash := hashExactFileTarget lib.blake3 planner.targetDomain target.bytes observation.mode

def FilePlanner.request (observation : FileObservation Policy FileName) (target : FileTarget) :
    FileRequest where
  assetId := planner.assetId
  harness := planner.harness
  scope := planner.scope
  destination := observation.destination
  sourceHash := target.asset.contentHash
  renderedHash := (planner.rendered lib observation target).contentHash
  adapterVersion := planner.adapterVersion
  manifestRevision := target.manifestRevision

/-- The digest over the fields of a plan, the tags of its policy, its disposition, the observed hash
and the permissions. -/
def FilePlanner.digest (observation : FileObservation Policy FileName) (localStateText : Bytes)
    (target : FileTarget) (transition : FileTransition) : ContentHash :=
  .ofDigest (lib.blake3 (planner.planDomain ++
    ([planner.assetId.bytes, planner.harness.asStr, planner.scope.asStr] ++ planner.policyFields ++
      [planner.nameBytes observation.name, observation.destination.text,
        target.manifestRevision.bytes, (planner.rendered lib observation target).contentHash.bytes,
        transition.receiptId.bytes, (contentDigest lib.blake3 localStateText).bytes,
        (contentDigest lib.blake3 transition.proposedLocalStateText).bytes]).flatMap textRecord ++
    planner.tags ++ [transition.disposition.tag] ++
    optionalHashRecord (observation.contentHash lib.blake3 planner.targetDomain) ++
    (planner.rendered lib observation target).mode.record))

def FilePlanner.plan (observation : FileObservation Policy FileName) (localStateText : Bytes)
    (target : FileTarget) (transition : FileTransition) : FileApplyPlan Policy FileName where
  policy := planner.policy
  assetId := planner.assetId
  destination := observation.destination
  relativeDestination := target.relativeDestination
  manifestRevision := target.manifestRevision
  disposition := transition.disposition
  observation := observation
  rendered := planner.rendered lib observation target
  observedReceipt := transition.observedReceipt
  proposedReceipt := transition.proposedReceipt
  proposedLocalState := transition.proposedLocalState
  observedLocalStateText := localStateText
  digest := planner.digest lib observation localStateText target transition

/-- Plans one ownership-safe apply to a whole file. -/
def planFileApply (observation : FileObservation Policy FileName) (localStateText : Bytes) :
    Except MaterializationError (FileApplyPlan Policy FileName) := do
  planner.authority observation.policy observation.name
  let localState ← readLocalState lib planner.words localStateText
  let target ← planner.target
  let transition ← planFileReceipt lib planner.words localState
    (planner.request lib observation target)
    (observation.contentHash lib.blake3 planner.targetDomain)
  pure (planner.plan lib observation localStateText target transition)

def renderFailed : MaterializationError :=
  words.error "render_failed" ("the " ++ words.noun ++ " could not be rendered without semantic loss")

def credentialShapedContent : MaterializationError :=
  words.error "credential_shaped_content"
    ("credential-shaped " ++ words.kind ++ " authority cannot be materialized")

def fileDestinationInvalid : MaterializationError :=
  words.error "destination_invalid" ("the " ++ words.kind ++ " destination is invalid")

def fileManifestRevision (manifest : EnvironmentManifest) : Except MaterializationError Revision :=
  (deriveManifestRevision lib.blake3 lib.authority manifest).mapError fun _ => words.invalidManifest

end Planning

section PromptCommands

structure StoredPromptCommand where
  command : Prompts.PromptCommand
  objectHash : ContentHash

def storedPromptCommandFormat : Bytes := ascii "kitrove-prompt-command/v1"

abbrev PromptCommandDestinationObservation :=
  FileObservation PromptCommandTargetPolicy Prompts.PromptCommandName

abbrev PromptCommandApplyPlan := FileApplyPlan PromptCommandTargetPolicy Prompts.PromptCommandName

def promptWords : FileWords where
  code := "command_apply"
  kind := "prompt-command"
  noun := "prompt command"
  asNoun := "a prompt command"
  subject := "command"

def promptCommandDialect : HarnessId → Option Prompts.NativePromptDialect
  | .claude => some .claudeLegacy
  | .pi => some .piLatest
  | .openCode => some .openCodeV2
  | .codex | .other _ => none

def requireDialect (harness : HarnessId) :
    Except MaterializationError Prompts.NativePromptDialect :=
  match promptCommandDialect harness with
  | none =>
    throw (promptWords.error "dialect_unsupported"
      "the target has no supported prompt-command dialect")
  | some dialect => pure dialect

def promptTarget (manifest : EnvironmentManifest) (assetId : AssetId) (object : StoredPromptCommand)
    (policy : PromptCommandTargetPolicy) : Except MaterializationError FileTarget := do
  let asset ← authorizedFile promptWords .command storedPromptCommandFormat object.objectHash manifest
    assetId policy.harness policy.adapterVersion
  refuseIf (Mcp.containsCredentialShapedText object.command.body.text ||
      object.command.description.any fun description =>
        Mcp.containsCredentialShapedText description.text.bytes)
    (credentialShapedContent promptWords)
  let dialect ← requireDialect policy.harness
  let bytes ← (Prompts.renderNativePromptCommand lib.readScalar lib.blake3 dialect
    object.command).mapError fun _ => renderFailed promptWords
  let relativeDestination ← relativeDestinationOf
    (policy.relativeRoot.bytes ++ ascii "/" ++ object.command.name.bytes ++ ascii ".md")
    (fileDestinationInvalid promptWords)
  let manifestRevision ← fileManifestRevision lib promptWords manifest
  pure { asset, bytes, relativeDestination, manifestRevision }

def promptPlanner (manifest : EnvironmentManifest) (assetId : AssetId) (object : StoredPromptCommand)
    (policy : PromptCommandTargetPolicy) :
    FilePlanner PromptCommandTargetPolicy Prompts.PromptCommandName where
  words := promptWords
  targetDomain := ascii "kitrove-prompt-command-target-v1" ++ [0]
  planDomain := ascii "kitrove-prompt-command-apply-plan-v1" ++ [0]
  assetId := assetId
  policy := policy
  harness := policy.harness
  scope := policy.scope
  adapterVersion := policy.adapterVersion
  policyFields :=
    [policy.policyLine.asStr, policy.relativeRoot.bytes, policy.adapterVersion, policy.evidence]
  nameBytes := Prompts.PromptCommandName.bytes
  tags := [TargetAnchor.tag policy.anchor]
  authority observed name := checkFileAuthority lib promptWords manifest policy.validate
    (observed = policy ∧ name = object.command.name)
  target := promptTarget lib manifest assetId object policy

def planPromptCommandApply (manifest : EnvironmentManifest) (assetId : AssetId)
    (object : StoredPromptCommand) (policy : PromptCommandTargetPolicy)
    (observation : PromptCommandDestinationObservation) (localStateText : Bytes) :
    Except MaterializationError PromptCommandApplyPlan :=
  planFileApply lib (promptPlanner lib manifest assetId object policy) observation localStateText

end PromptCommands

section AgentFiles

abbrev AgentDestinationObservation := FileObservation AgentTargetPolicy Agents.AgentName

abbrev AgentApplyPlan := FileApplyPlan AgentTargetPolicy Agents.AgentName

def agentWords : FileWords where
  code := "agent_apply"
  kind := "agent"
  noun := "agent"
  asNoun := "an agent"
  subject := "agent"

def agentDocumentExtension : Agents.NativeAgentDialect → Bytes
  | .claudeCurrent | .openCodeCurrent => ascii "md"
  | .codexCurrent => ascii "toml"

def agentTarget (manifest : EnvironmentManifest) (assetId : AssetId) (object : Agents.StoredAgent)
    (policy : AgentTargetPolicy) : Except MaterializationError FileTarget := do
  let asset ← authorizedFile agentWords .agent Agents.storedFormat object.objectHash manifest assetId
    policy.harness policy.adapterVersion
  refuseIf (Mcp.containsCredentialShapedText object.agent.description.text.bytes ||
      Mcp.containsCredentialShapedText object.agent.instructions.text.bytes)
    (credentialShapedContent agentWords)
  let bytes ← (Agents.renderNativeAgent lib.agents policy.dialect object.agent).mapError fun _ =>
    renderFailed agentWords
  let relativeDestination ← relativeDestinationOf
    (policy.relativeRoot.bytes ++ ascii "/" ++ object.agent.name.bytes ++ ascii "." ++
      agentDocumentExtension policy.dialect)
    (fileDestinationInvalid agentWords)
  let manifestRevision ← fileManifestRevision lib agentWords manifest
  pure { asset, bytes, relativeDestination, manifestRevision }

def agentPlanner (manifest : EnvironmentManifest) (assetId : AssetId) (object : Agents.StoredAgent)
    (policy : AgentTargetPolicy) : FilePlanner AgentTargetPolicy Agents.AgentName where
  words := agentWords
  targetDomain := ascii "kitrove-agent-target-v1" ++ [0]
  planDomain := ascii "kitrove-agent-apply-plan-v1" ++ [0]
  assetId := assetId
  policy := policy
  harness := policy.harness
  scope := policy.scope
  adapterVersion := policy.adapterVersion
  policyFields :=
    [policy.policyLine.asStr, policy.relativeRoot.bytes, policy.adapterVersion, policy.evidence]
  nameBytes := Agents.AgentName.bytes
  tags := [TargetAnchor.tag policy.anchor, policy.discovery.tag, policy.dialect.tag]
  authority observed name := checkFileAuthority lib agentWords manifest policy.validate
    (observed = policy ∧ name = object.agent.name)
  target := agentTarget lib manifest assetId object policy

def planAgentApply (manifest : EnvironmentManifest) (assetId : AssetId)
    (object : Agents.StoredAgent) (policy : AgentTargetPolicy)
    (observation : AgentDestinationObservation) (localStateText : Bytes) :
    Except MaterializationError AgentApplyPlan :=
  planFileApply lib (agentPlanner lib manifest assetId object policy) observation localStateText

end AgentFiles

end Kitrove.Materialization
