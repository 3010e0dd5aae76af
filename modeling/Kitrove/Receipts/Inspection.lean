import Kitrove.Receipts.Envelope
import Mathlib.Data.List.Dedup

/-! The receipts of an envelope, each on the valid or the invalid side: first on its own, then by
the destinations that the valid ones claim. -/

namespace Kitrove

open Std

inductive FindingSeverity where
  | informational
  | attention
  deriving DecidableEq

inductive FindingSubject where
  | report
  | harness (harness : HarnessId)
  | receipt (receiptId : ReceiptId)
  | destination (harness : HarnessId) (scope : HarnessScope) (destination : NormalizedDestination)
  deriving DecidableEq

structure ScanFinding where
  code : String
  severity : FindingSeverity
  subject : FindingSubject
  action : String
  deriving DecidableEq

structure InspectedReceipt where
  receiptId : ReceiptId
  receipt : DeploymentReceipt
  deriving DecidableEq

structure InvalidReceipt where
  receiptId : Option ReceiptId
  scope : ReceiptInvalidityScope
  finding : ScanFinding
  deriving DecidableEq

structure ReceiptInspection where
  valid : List InspectedReceipt
  invalid : List InvalidReceipt
  deriving DecidableEq

instance : Ord NormalizedDestination := ⟨compareOn NormalizedDestination.text⟩

instance : TransOrd NormalizedDestination :=
  inferInstanceAs (TransCmp (compareOn NormalizedDestination.text))

instance : LawfulEqOrd NormalizedDestination :=
  lawfulEqCmp_compareOn fun a b h => by
    cases a
    cases b
    congr

section Findings

def invalidReceiptFinding (receiptId : Option ReceiptId) (scope : ReceiptInvalidityScope) :
    ScanFinding :=
  let subject := match scope with
    | .destination harness scope destination => .destination harness scope destination
    | .harnessScope harness _ | .harness harness => .harness harness
    | .report => match receiptId with
      | some receiptId => .receipt receiptId
      | none => .report
  ⟨"scan.receipt_invalid", .attention, subject,
    "repair or remove the invalid machine-local receipt before trusting ownership absence"⟩

def conflictingReceiptFinding (harness : HarnessId) (scope : HarnessScope)
    (destination : NormalizedDestination) : ScanFinding :=
  ⟨"scan.receipt_conflict", .attention, .destination harness scope destination,
    "retain exactly one valid receipt claim for this managed destination"⟩

end Findings

section Own

def validAdapterVersion (value : Bytes) : Bool :=
  1 ≤ value.length && value.length ≤ 128 && value.all fun b => 0x20 ≤ b && b < 0x7F

def validEnvironmentRevision (value : Bytes) : Bool :=
  match stripPrefix (ascii "manifest:blake3:") value with
  | some digest => digest.length = 64 && digest.all lowercaseHex
  | none => false

variable (json : StateJson) (blake3 : Bytes → Digest)

def invalidRecord (receiptId : Option ReceiptId) (scope : ReceiptInvalidityScope) :
    InvalidReceipt ⊕ InspectedReceipt :=
  .inl ⟨receiptId, scope, invalidReceiptFinding receiptId scope⟩

/-- `inspect_receipt`: the side that a record belongs to on its own. -/
def inspectReceipt (key raw : Bytes) : InvalidReceipt ⊕ InspectedReceipt :=
  let receiptId := Name.parse .receipt key
  let scope := recoverScope json raw
  let parsed := if rejectDuplicateKeys json raw then json.receipt raw else none
  match parsed, receiptId with
  | some receipt, some stored =>
    match receipt.receiptId blake3 with
    | .ok recomputed =>
      if stored ≠ recomputed ∨ validAdapterVersion receipt.adapterVersion = false ∨
          validEnvironmentRevision receipt.environmentRevision.bytes = false then
        invalidRecord receiptId scope
      else .inr ⟨stored, receipt⟩
    | .error _ => invalidRecord receiptId scope
  | _, _ => invalidRecord receiptId scope

def inspectRecord (record : RawReceiptRecord) : InvalidReceipt ⊕ InspectedReceipt :=
  match record.raw with
  | some raw => inspectReceipt json blake3 record.key raw
  | none => invalidRecord (Name.parse .receipt record.key) .report

def pushRecord (sides : ReceiptInspection) (record : RawReceiptRecord) : ReceiptInspection :=
  match inspectRecord json blake3 record with
  | .inl invalid => { sides with invalid := sides.invalid ++ [invalid] }
  | .inr receipt => { sides with valid := sides.valid ++ [receipt] }

end Own

section Claims

structure DestinationClaim where
  receiptId : ReceiptId
  target : ReceiptTarget
  region : Option Bytes

def InspectedReceipt.region (record : InspectedReceipt) : Option Bytes :=
  match record.receipt.target with
  | .wholeTarget => none
  | .managedInstructionRegion => some record.receipt.assetId.bytes
  | .managedMcpEntry => record.receipt.logicalKey

def InspectedReceipt.claim (record : InspectedReceipt) : DestinationClaim :=
  ⟨record.receiptId, record.receipt.target, record.region⟩

/-- `claims.entry(destination).or_default().push(claim)`. -/
def pushClaim (claims : OrdMap NormalizedDestination (List DestinationClaim))
    (record : InspectedReceipt) : OrdMap NormalizedDestination (List DestinationClaim) :=
  claims.insert record.receipt.destination
    (claims[record.receipt.destination]?.getD [] ++ [record.claim])

/-- The receipts that one destination's claims put in conflict. -/
def claimConflicts (claims : List DestinationClaim) : List ReceiptId :=
  if claims.length < 2 then []
  else if claims.any fun claim => claim.target = .wholeTarget then
    claims.map DestinationClaim.receiptId
  else if (claims.map DestinationClaim.target).dedup.length > 1 then
    claims.map DestinationClaim.receiptId
  else
    let regions := claims.map DestinationClaim.region
    (claims.filter fun claim => regions.count claim.region > 1).map DestinationClaim.receiptId

def destinationConflicts (valid : List InspectedReceipt) : OrdSet ReceiptId :=
  (valid.foldl pushClaim ∅).values.foldl
    (fun conflicts claims => (claimConflicts claims).foldl (fun conflicts id => conflicts.insert id)
      conflicts) ∅

def conflictingReceipt (record : InspectedReceipt) : InvalidReceipt :=
  let receipt := record.receipt
  ⟨some record.receiptId, .destination receipt.harness receipt.scope receipt.destination,
    conflictingReceiptFinding receipt.harness receipt.scope receipt.destination⟩

/-- A valid record is retained, or demoted when `conflicts.remove` finds it. -/
def demoteRecord (s : OrdSet ReceiptId × ReceiptInspection) (record : InspectedReceipt) :
    OrdSet ReceiptId × ReceiptInspection :=
  let (conflicts, sides) := s
  if record.receiptId ∈ conflicts then
    (conflicts.erase record.receiptId,
      { sides with invalid := sides.invalid ++ [conflictingReceipt record] })
  else (conflicts, { sides with valid := sides.valid ++ [record] })

def rejectDuplicateDestinationClaims (sides : ReceiptInspection) : ReceiptInspection :=
  (sides.valid.foldl demoteRecord (destinationConflicts sides.valid, ⟨[], sides.invalid⟩)).2

end Claims

section Inspection

def invalidityKey : ReceiptInvalidityScope → Bytes × Bytes × Bytes × Bytes
  | .destination harness scope destination =>
    ([0], harness.asStr, scope.asStr, destination.text)
  | .harnessScope harness scope => ([1], harness.asStr, scope.asStr, [])
  | .harness harness => ([2], harness.asStr, [], [])
  | .report => ([3], [], [], [])

def compareOption : Option ReceiptId → Option ReceiptId → Ordering
  | none, none => .eq
  | none, some _ => .lt
  | some _, none => .gt
  | some a, some b => compare a b

def invalidReceiptOrder (left right : InvalidReceipt) : Ordering :=
  let l := invalidityKey left.scope
  let r := invalidityKey right.scope
  (compare l.1 r.1).then <| (compare l.2.1 r.2.1).then <| (compare l.2.2.1 r.2.2.1).then <|
    (compare l.2.2.2 r.2.2.2).then <| compareOption left.receiptId right.receiptId

variable (json : StateJson) (blake3 : Bytes → Digest)

def validateRaw (decodes : Bytes → Bool) (raw : Bytes) : Except AdapterError Unit :=
  if rejectDuplicateKeys json raw && decodes raw then pure () else throw invalidEnvelope

/-- The fields of an envelope apart from its receipts. -/
def validateEnvelope (envelope : RawEnvelope) : Except AdapterError Unit := do
  validateRaw json json.schemaVersion envelope.schemaVersion
  validateRaw json json.machine envelope.machine
  validateRaw json json.bindings envelope.bindings
  envelope.packApplications.forM (validateRaw json json.packApplications)
  validateRaw json json.trust envelope.trust
  validateRaw json json.scans envelope.scans

def inspectReceipts (records : List RawReceiptRecord) : ReceiptInspection :=
  let sides := rejectDuplicateDestinationClaims
    (records.foldl (pushRecord json blake3) ⟨[], []⟩)
  ⟨sides.valid.mergeSort fun left right => (compare left.receiptId right.receiptId).isLE,
    sides.invalid.mergeSort fun left right => (invalidReceiptOrder left right).isLE⟩

/-- What `inspect_json` does with an envelope once it is read. -/
def inspectEnvelope (envelope : RawEnvelope) : Except AdapterError ReceiptInspection := do
  validateEnvelope json envelope
  pure (inspectReceipts json blake3 envelope.receipts)

def inspectJsonBounded (maxInputBytes maxReceipts maxReceiptBytes : Nat) (input : Bytes) :
    Except AdapterError ReceiptInspection :=
  if input.length > maxInputBytes then throw invalidEnvelope
  else match readEnvelope json maxReceipts maxReceiptBytes input with
    | none => throw invalidEnvelope
    | some envelope => inspectEnvelope json blake3 envelope

def inspectJson (input : Bytes) : Except AdapterError ReceiptInspection :=
  inspectJsonBounded json blake3 defaultMaxInputBytes defaultMaxReceipts defaultMaxReceiptBytes input

end Inspection

end Kitrove
