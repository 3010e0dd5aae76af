import Kitrove.Instructions.Document
import Kitrove.Model.LocalState

/-! Planning to materialise one standing instruction as a managed region of a shared document. -/

namespace Kitrove.InstructionApply

open Std Kitrove

structure ApplyError where
  code : String
  message : String
  deriving DecidableEq, Repr

namespace ApplyError

def localStateInvalid : ApplyError :=
  ⟨"instruction_apply.local_state_invalid", "machine-local receipt authority is invalid"⟩

def renderFailed : ApplyError :=
  ⟨"instruction_apply.render_failed",
    "the managed instruction document could not be rendered within bounds"⟩

def sharedBatchRequired : ApplyError :=
  ⟨"instruction_apply.shared_batch_required",
    "a shared instruction receipt requires atomic multi-target planning"⟩

def regionUnmanaged : ApplyError :=
  ⟨"instruction_apply.region_unmanaged",
    "an unmanaged instruction region is never claimed or overwritten"⟩

def regionModified : ApplyError :=
  ⟨"instruction_apply.region_modified",
    "the managed instruction region changed after materialization"⟩

def destinationOwnedWhole : ApplyError :=
  ⟨"instruction_apply.destination_owned_whole",
    "a whole-target receipt owns the selected instruction document"⟩

def regionOwnedOtherTarget : ApplyError :=
  ⟨"instruction_apply.region_owned_other_target",
    "the selected instruction region is owned by another target set"⟩

def destinationInvalid : ApplyError :=
  ⟨"instruction.destination_invalid",
    "instruction target is not a supported normalized destination"⟩

def documentInvalid : ApplyError :=
  ⟨"instruction.document_invalid",
    "instruction document contains invalid managed-region structure"⟩

end ApplyError

open ApplyError

/-- The permissions of a regular file. -/
structure RegularFileMode where
  unixMode : Option UInt32
  readonly : Bool
  deriving DecidableEq

namespace RegularFileMode

def conservative (unix : Bool) : RegularFileMode := ⟨if unix then some 0o600 else none, false⟩

def isValidForPlatform (unix : Bool) (mode : RegularFileMode) : Bool :=
  if unix then mode.unixMode.any fun bits => bits ≤ 0o777 && mode.readonly == (bits &&& 0o222 == 0)
  else mode.unixMode.isNone

def record (mode : RegularFileMode) : Bytes :=
  match mode.unixMode with
  | some bits => 1 :: (List.range 4).map fun i => UInt8.ofNat (bits.toNat / 256 ^ (3 - i))
  | none => [0, if mode.readonly then 1 else 0]

end RegularFileMode

/-- A file's text with its permissions. -/
@[ext] structure Document where
  text : Bytes
  mode : RegularFileMode
  deriving DecidableEq

inductive InstructionTargetAnchor where
  | scope
  | harnessConfiguration
  deriving DecidableEq

structure InstructionTargetPolicy where
  harness : HarnessId
  scope : HarnessScope
  policyLine : Bytes
  anchor : InstructionTargetAnchor
  relativeDocument : PortablePath
  adapterVersion : Bytes
  evidence : Bytes
  deriving DecidableEq

inductive ApplyDisposition where
  | install
  | noOp
  | restore
  | managedUpdate
  | remove
  deriving DecidableEq, Repr

def ApplyDisposition.tag : ApplyDisposition → UInt8
  | install => 0
  | noOp => 1
  | restore => 2
  | managedUpdate => 3
  | remove => 4

/-- What the manifest and the object store say of the instruction, once validated. -/
structure InstructionSource where
  contentHash : ContentHash
  manifestRevision : Revision
  body : InstructionBody

structure InstructionApplyPlan where
  policy : InstructionTargetPolicy
  assetId : AssetId
  manifestRevision : Revision
  disposition : ApplyDisposition
  destination : NormalizedDestination
  document : Option Document
  rendered : Document
  regionHash : ContentHash
  observedReceipt : Option DeploymentReceipt
  proposedReceipt : DeploymentReceipt
  proposedLocalState : LocalState
  observedLocalStateText : Bytes
  digest : ContentHash
  deriving DecidableEq

/-- What planning reads apart from the document and the machine-local state: the validated
source of an instruction, the strict check of the receipts, and where a document lies. -/
structure PlanEnvironment where
  blake3 : Bytes → Digest
  states : LocalStateCodec
  limits : InstructionLimits
  unix : Bool
  source : AssetId → InstructionTargetPolicy → Except ApplyError InstructionSource
  receiptsValid : Bytes → Bool
  destinationOf : PortablePath → Option NormalizedDestination

section Hashes

variable (blake3 : Bytes → Digest)

def hashInstructionDocument (input : Bytes) : ContentHash :=
  ContentHash.ofDigest (blake3
    (ascii "kitrove-instruction-document-v1" ++ [0] ++ bigEndian64 input.length ++ input))

def hashManagedRegion (input : Bytes) : ContentHash :=
  ContentHash.ofDigest (blake3
    (ascii "kitrove-managed-instruction-region-v1" ++ [0] ++ bigEndian64 input.length ++ input))

end Hashes

section Planning

def matchingRegionReceipts (state : LocalState) (assetId : AssetId)
    (policy : InstructionTargetPolicy) (destination : NormalizedDestination) :
    Except ApplyError (Option DeploymentReceipt) := do
  let here := state.receipts.values.filter fun receipt =>
    receipt.scope = policy.scope ∧ receipt.destination = destination
  refuseIf (here.any fun receipt => receipt.target == .wholeTarget) destinationOwnedWhole
  let owned := here.filter fun receipt =>
    receipt.target = .managedInstructionRegion ∧ receipt.assetId = assetId
  refuseIf (owned.length > 1) localStateInvalid
  refuseIf (owned.head?.any fun receipt => !receipt.consumers.contains policy.harness)
    regionOwnedOtherTarget
  pure owned.head?

/-- What is to be done with the region, and the hash it had before. -/
def dispositionOf (observed : Option DeploymentReceipt) (region : Option ContentHash)
    (source : InstructionSource) (regionHash : ContentHash) (policy : InstructionTargetPolicy) :
    Except ApplyError (ApplyDisposition × Option ContentHash) :=
  match observed, region with
  | none, none => .ok (.install, none)
  | none, some _ => .error regionUnmanaged
  | some receipt, none => .ok (.restore, receipt.priorHash)
  | some receipt, some current =>
    if current ≠ receipt.renderedHash then .error regionModified
    else if receipt.sourceHash = source.contentHash ∧ receipt.renderedHash = regionHash ∧
        receipt.adapterVersionFor policy.harness = some policy.adapterVersion ∧
        receipt.environmentRevision = source.manifestRevision then
      .ok (.noOp, receipt.priorHash)
    else .ok (.managedUpdate, some receipt.renderedHash)

def applyDigest (blake3 : Bytes → Digest) (assetId : AssetId) (policy : InstructionTargetPolicy)
    (destination : NormalizedDestination) (document : Option Document)
    (manifestRevision : Revision) (disposition : ApplyDisposition) (rendered : Document)
    (regionHash : ContentHash) (receiptId : ReceiptId) (observedState proposedState : Bytes) :
    ContentHash :=
  ContentHash.ofDigest (blake3
    (ascii "kitrove-instruction-apply-plan-v1" ++ [0] ++
      [assetId.bytes, policy.harness.asStr, policy.scope.asStr, policy.policyLine,
        policy.relativeDocument.bytes, policy.adapterVersion, policy.evidence, destination.text,
        manifestRevision.bytes, (hashInstructionDocument blake3 rendered.text).bytes,
        regionHash.bytes, receiptId.bytes, (contentDigest blake3 observedState).bytes,
        (contentDigest blake3 proposedState).bytes].flatMap textRecord ++
      [match policy.anchor with
        | .scope => 0
        | .harnessConfiguration => 1, disposition.tag] ++
      rendered.mode.record ++
      match document with
      | some observed => 1 :: (hashInstructionDocument blake3 observed.text).bytes
      | none => [0]))

def proposedReceipt (assetId : AssetId) (policy : InstructionTargetPolicy)
    (destination : NormalizedDestination) (source : InstructionSource) (regionHash : ContentHash)
    (priorHash : Option ContentHash) : DeploymentReceipt where
  assetId := assetId
  harness := policy.harness
  scope := policy.scope
  destination := destination
  target := .managedInstructionRegion
  logicalKey := none
  sharedWith := ∅
  sharedAdapterVersions := ∅
  sourceHash := source.contentHash
  renderedHash := regionHash
  documentHash := none
  priorHash := priorHash
  adapterVersion := policy.adapterVersion
  environmentRevision := source.manifestRevision

def orInvalidState {ε α : Type} (r : Except ε α) : Except ApplyError α :=
  r.mapError fun _ => localStateInvalid

/-- The machine-local state with the new receipt in place of the observed one. -/
def replaceReceipt (blake3 : Bytes → Digest) (state : LocalState)
    (observed : Option DeploymentReceipt) (receiptId : ReceiptId) (proposed : DeploymentReceipt) :
    Except ApplyError LocalState := do
  let receipts ← match observed with
    | none => pure state.receipts
    | some receipt => do
      let oldId ← orInvalidState (receipt.receiptId blake3)
      pure (state.receipts.erase oldId)
  pure { state with receipts := receipts.insert receiptId proposed }

variable (env : PlanEnvironment)

/-- The hash of the asset's region in the observed document, where it has one. -/
def observedRegion (assetId : AssetId) (document : Option Document) :
    Except ApplyError (Option ContentHash) :=
  match document with
  | none => .ok none
  | some observed => do
    let parsed ← (inspectManagedDocument env.limits observed.text).mapError fun _ => documentInvalid
    pure ((parsed.region ⟨assetId.bytes, assetId.valid⟩).map fun region =>
      hashManagedRegion env.blake3 (slice observed.text region.range))

/-- `plan_instruction_apply` on the observed document and the machine-local state. -/
def planInstructionApply (assetId : AssetId) (policy : InstructionTargetPolicy)
    (document : Option Document) (stateText : Bytes) : Except ApplyError InstructionApplyPlan := do
  let destination ← match env.destinationOf policy.relativeDocument with
    | none => .error destinationInvalid
    | some destination => .ok destination
  let region ← observedRegion env assetId document
  let source ← env.source assetId policy
  refuseIf (!env.receiptsValid stateText) localStateInvalid
  let state ← orInvalidState (LocalState.fromJson env.states stateText)
  let observed ← matchingRegionReceipts state assetId policy destination
  refuseIf (observed.any fun receipt => !receipt.sharedWith.isEmpty) sharedBatchRequired
  let name : AssetName := ⟨assetId.bytes, assetId.valid⟩
  let regionText ← (renderManagedRegion name source.body).mapError fun _ => renderFailed
  let regionHash := hashManagedRegion env.blake3 regionText
  let original := (document.map Document.text).getD []
  let renderedText ← (upsertManagedRegion env.limits original name source.body).mapError
    fun _ => renderFailed
  let mode := (document.map Document.mode).getD (RegularFileMode.conservative env.unix)
  let rendered : Document := ⟨renderedText, mode⟩
  let (disposition, priorHash) ← dispositionOf observed region source regionHash policy
  let proposed := proposedReceipt assetId policy destination source regionHash priorHash
  let receiptId ← orInvalidState (proposed.receiptId env.blake3)
  let proposedState ← replaceReceipt env.blake3 state observed receiptId proposed
  let proposedText ← orInvalidState (proposedState.toJson env.states)
  pure
    { policy
      assetId
      manifestRevision := source.manifestRevision
      disposition
      destination
      document
      rendered
      regionHash
      observedReceipt := observed
      proposedReceipt := proposed
      proposedLocalState := proposedState
      observedLocalStateText := stateText
      digest := applyDigest env.blake3 assetId policy destination document
        source.manifestRevision disposition rendered regionHash receiptId stateText proposedText }

end Planning

end Kitrove.InstructionApply
