import Kitrove.Model.Fidelity
import Kitrove.Model.Identity

/-! The machine-local state: the receipts of what was materialised, the packs that own them,
the decisions about executable content, and the identity of a receipt. -/

namespace Kitrove

open Std

/-- The canonical text of an absolute destination. -/
structure NormalizedDestination where
  text : Bytes
  deriving DecidableEq

inductive BindingResolver where
  | environment (variable' : Bytes)
  | command (program : Bytes) (arguments : List Bytes)
  deriving DecidableEq

structure MachineConfig where
  id : MachineId
  activeProfile : Option ProfileId
  enabledTargets : OrdSet HarnessId
  harnessRoots : OrdMap HarnessId Bytes
  deriving DecidableEq

/-- The unit of ownership within a destination. -/
inductive ReceiptTarget where
  | wholeTarget
  | managedInstructionRegion
  | managedMcpEntry
  deriving DecidableEq

/-- Evidence that one materialised destination is owned. -/
structure DeploymentReceipt where
  assetId : AssetId
  harness : HarnessId
  scope : HarnessScope
  destination : NormalizedDestination
  target : ReceiptTarget
  logicalKey : Option Bytes
  sharedWith : OrdSet HarnessId
  sharedAdapterVersions : OrdMap HarnessId Bytes
  sourceHash : ContentHash
  renderedHash : ContentHash
  documentHash : Option ContentHash
  priorHash : Option ContentHash
  adapterVersion : Bytes
  environmentRevision : Revision
  deriving DecidableEq

inductive TrustDecision where
  | trusted (rationale : Bytes)
  | denied (rationale : Bytes)
  deriving DecidableEq

structure ScanRecord where
  harness : HarnessId
  observedAt : Bytes
  discoveredAssets : UInt32
  deriving DecidableEq

structure PackApplicationClaim where
  packId : AssetId
  packRevision : ContentHash
  scope : HarnessScope
  targetAnchor : NormalizedDestination
  targets : OrdSet HarnessId
  receipts : OrdSet ReceiptId
  deriving DecidableEq

/-- The machine-local state, at schema version 1. -/
structure LocalState where
  machine : MachineConfig
  bindings : OrdMap BindingName BindingResolver
  receipts : OrdMap ReceiptId DeploymentReceipt
  packApplications : OrdMap PackApplicationId PackApplicationClaim
  trust : OrdMap ContentHash TrustDecision
  scans : List ScanRecord
  deriving DecidableEq

/-- The JSON library at the machine-local state. -/
structure LocalStateCodec where
  encode : LocalState → Option Bytes
  decode : Bytes → Option LocalState

/-- The library round-trips its values, and a newline after a document is not part of it. -/
structure LocalStateCodec.Lawful (codec : LocalStateCodec) : Prop where
  decode_encode : ∀ state text, codec.encode state = some text →
    codec.decode (text ++ [newline]) = some state

section Digests

def contentDigest (blake3 : Bytes → Digest) (text : Bytes) : ContentHash :=
  ContentHash.ofDigest (blake3 text)

theorem contentDigest_injective {blake3 : Bytes → Digest} {a b : Bytes}
    (h : contentDigest blake3 a = contentDigest blake3 b) : blake3 a = blake3 b := by
  have hbytes := List.append_cancel_left (congrArg Name.bytes h)
  generalize blake3 a = x at hbytes
  generalize blake3 b = y at hbytes
  cases x
  cases y
  congr

end Digests

namespace LocalState

variable (codec : LocalStateCodec)

def fromJson (input : Bytes) : Except ValidationError LocalState :=
  match codec.decode input with
  | none => .error ⟨"local_state.invalid_json", ascii "invalid JSON"⟩
  | some state => .ok state

def toJson (state : LocalState) : Except ValidationError Bytes :=
  match codec.encode state with
  | none => .error ⟨"local_state.serialize", ascii "serialization failed"⟩
  | some encoded => .ok (encoded ++ [newline])

variable {codec} {state : LocalState} {text : Bytes}

theorem fromJson_toJson (hc : codec.Lawful) (h : state.toJson codec = .ok text) :
    fromJson codec text = .ok state := by
  unfold toJson at h
  cases he : codec.encode state with
  | none => rw [he] at h; contradiction
  | some encoded =>
    rw [he] at h
    obtain rfl := Except.ok.inj h
    rw [fromJson, hc.decode_encode state encoded he]

end LocalState

section Receipts

def maxAdditionalReceiptConsumers : Nat := 3

def maxPortableMcpServerNameBytes : Nat := 63

def isPortableMcpServerName (value : Bytes) : Bool :=
  value.length ≤ maxPortableMcpServerNameBytes &&
    (value.head?.any fun b => 0x61 ≤ b && b ≤ 0x7A) && value.getLast? != some 0x2D &&
    !(value.zip value.tail).any (fun pair => pair.1 == 0x2D && pair.2 == 0x2D) &&
    value.all fun b => lowercaseOrDigit b || b == 0x2D

namespace DeploymentReceipt

/-- Every harness that one materialisation serves. -/
def consumers (receipt : DeploymentReceipt) : List HarnessId :=
  receipt.harness :: receipt.sharedWith.toList

def adapterVersionFor (receipt : DeploymentReceipt) (harness : HarnessId) : Option Bytes :=
  if harness = receipt.harness then some receipt.adapterVersion
  else receipt.sharedAdapterVersions[harness]?

def receiptIdFields (receipt : DeploymentReceipt) : Bytes :=
  [receipt.assetId.bytes, receipt.harness.asStr, receipt.scope.asStr,
    receipt.destination.text].flatMap textRecord

def validateAuthority (receipt : DeploymentReceipt) : Except ValidationError Unit := do
  let isMcpEntry := receipt.target == .managedMcpEntry
  let hasStructuredAuthority := receipt.logicalKey.isSome || receipt.documentHash.isSome
  refuseIf ((isMcpEntry && (receipt.logicalKey.isNone || receipt.documentHash.isNone)) ||
      (!isMcpEntry && hasStructuredAuthority))
    ⟨"receipt.structured_authority_invalid",
      ascii "only managed MCP entry receipts require a logical key and document identity"⟩
  refuseIf (receipt.logicalKey.any fun key => !isPortableMcpServerName key)
    ⟨"receipt.logical_key_invalid",
      ascii "structured receipt key is not a conservative MCP identifier"⟩
  let shared := !receipt.sharedWith.isEmpty || !receipt.sharedAdapterVersions.isEmpty
  refuseIf (isMcpEntry && shared)
    ⟨"receipt.mcp_consumers_invalid",
      ascii "one managed MCP entry receipt has exactly one harness consumer"⟩
  refuseIf (receipt.target == .wholeTarget && shared)
    ⟨"receipt.shared_whole_target",
      ascii "whole-target receipts cannot declare additional harness consumers"⟩
  refuseIf (receipt.sharedWith.size > maxAdditionalReceiptConsumers)
    ⟨"receipt.consumer_limit", ascii "receipt declares too many additional harness consumers"⟩
  refuseIf (receipt.sharedAdapterVersions.keys != receipt.sharedWith.toList ||
      receipt.sharedAdapterVersions.values.any List.isEmpty)
    ⟨"receipt.consumer_versions_invalid",
      ascii "shared receipt consumers require exact adapter-policy version evidence"⟩
  refuseIf (receipt.sharedWith.contains receipt.harness ||
      receipt.sharedWith.toList.head?.any fun consumer => compare consumer receipt.harness == .lt)
    ⟨"receipt.consumers_noncanonical",
      ascii "additional receipt consumers must be unique and ordered after the primary harness"⟩

/-- The text a receipt's identity is the digest of. -/
def receiptIdPreimage (receipt : DeploymentReceipt) : Bytes :=
  match receipt.target with
  | .wholeTarget => ascii "kitrove-receipt-id-v1" ++ [0] ++ receipt.receiptIdFields
  | .managedInstructionRegion =>
    ascii "kitrove-receipt-id-v2" ++ [0] ++ receipt.receiptIdFields ++
      ascii "managed_instruction_region" ++ [0] ++ countRecord receipt.sharedWith.size ++
      receipt.sharedWith.toList.flatMap fun consumer => textRecord consumer.asStr
  | .managedMcpEntry =>
    ascii "kitrove-receipt-id-v2" ++ [0] ++ receipt.receiptIdFields ++
      ascii "managed_mcp_entry" ++ [0] ++ textRecord (receipt.logicalKey.getD []) ++
      countRecord receipt.sharedWith.size ++
      receipt.sharedWith.toList.flatMap fun consumer => textRecord consumer.asStr

/-- The stable identity of a materialised destination. -/
def receiptId (blake3 : Bytes → Digest) (receipt : DeploymentReceipt) :
    Except ValidationError ReceiptId := do
  receipt.validateAuthority
  pure (ReceiptId.ofDigest (blake3 receipt.receiptIdPreimage))

end DeploymentReceipt

end Receipts

end Kitrove
