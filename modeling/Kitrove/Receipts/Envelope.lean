import Kitrove.Model.Destination

/-! The strict envelope of the machine-local state, and what a receipt in it says before it is
trusted. -/

namespace Kitrove

/-- A JSON value as its text has it: the members of an object in their order, repeated keys
included. -/
inductive JsonTree where
  | null
  | bool (value : Bool)
  | number (text : Bytes)
  | string (value : Bytes)
  | array (items : List JsonTree)
  | object (members : List (Bytes × JsonTree))

/-- The JSON library at the text of one value. -/
structure StateJson where
  members : Bytes → Option (List (Bytes × Bytes))
  tree : Bytes → Option JsonTree
  schemaVersion : Bytes → Bool
  machine : Bytes → Bool
  bindings : Bytes → Bool
  packApplications : Bytes → Bool
  trust : Bytes → Bool
  scans : Bytes → Bool
  receipt : Bytes → Option DeploymentReceipt

structure AdapterError where
  code : String
  message : String
  deriving DecidableEq

def invalidEnvelope : AdapterError :=
  ⟨"scan.local_state_invalid",
    "the machine-local state envelope is invalid and cannot provide ownership evidence"⟩

def defaultMaxInputBytes : Nat := 32 * 1024 * 1024

def defaultMaxReceipts : Nat := 4096

def defaultMaxReceiptBytes : Nat := 1024 * 1024

structure RawReceiptRecord where
  key : Bytes
  raw : Option Bytes
  deriving DecidableEq

structure RawEnvelope where
  schemaVersion : Bytes
  machine : Bytes
  bindings : Bytes
  receipts : List RawReceiptRecord
  packApplications : Option Bytes
  trust : Bytes
  scans : Bytes

section Reader

variable (json : StateJson) (maxReceipts maxReceiptBytes : Nat)

/-- `ReceiptMapVisitor`. -/
def readReceiptMap : List (Bytes × Bytes) → List Bytes → List RawReceiptRecord →
    Option (List RawReceiptRecord)
  | [], _, records => some records
  | (key, raw) :: rest, seen, records =>
    if seen.contains key then none
    else if maxReceipts ≤ records.length then none
    else readReceiptMap rest (key :: seen) (records ++
      [⟨key, if raw.length ≤ maxReceiptBytes then some raw else none⟩])

/-- The fields that have been read so far. -/
structure EnvelopeFields where
  schemaVersion : Option Bytes
  machine : Option Bytes
  bindings : Option Bytes
  receipts : Option (List RawReceiptRecord)
  packApplications : Option Bytes
  trust : Option Bytes
  scans : Option Bytes

def EnvelopeFields.empty : EnvelopeFields := ⟨none, none, none, none, none, none, none⟩

def visitEnvelopeField (fields : EnvelopeFields) (key raw : Bytes) : Option EnvelopeFields :=
  if key = ascii "schema_version" then some { fields with schemaVersion := raw }
  else if key = ascii "machine" then some { fields with machine := raw }
  else if key = ascii "bindings" then some { fields with bindings := raw }
  else if key = ascii "receipts" then do
    let members ← json.members raw
    let receipts ← readReceiptMap maxReceipts maxReceiptBytes members [] []
    pure { fields with receipts := receipts }
  else if key = ascii "pack_applications" then some { fields with packApplications := raw }
  else if key = ascii "trust" then some { fields with trust := raw }
  else if key = ascii "scans" then some { fields with scans := raw }
  else none

/-- `EnvelopeVisitor`. -/
def readEnvelopeFields : List (Bytes × Bytes) → List Bytes → EnvelopeFields → Option EnvelopeFields
  | [], _, fields => some fields
  | (key, raw) :: rest, seen, fields => do
    if seen.contains key then none
    else
      let fields ← visitEnvelopeField json maxReceipts maxReceiptBytes fields key raw
      readEnvelopeFields rest (key :: seen) fields

def readEnvelope (input : Bytes) : Option RawEnvelope := do
  let members ← json.members input
  let fields ← readEnvelopeFields json maxReceipts maxReceiptBytes members [] .empty
  let schemaVersion ← fields.schemaVersion
  let machine ← fields.machine
  let bindings ← fields.bindings
  let receipts ← fields.receipts
  let trust ← fields.trust
  let scans ← fields.scans
  pure ⟨schemaVersion, machine, bindings, receipts, fields.packApplications, trust, scans⟩

end Reader

section Duplicates

mutual

/-- `DuplicateFree`. -/
def JsonTree.duplicateFree : JsonTree → Bool
  | .array items => duplicateFreeItems items
  | .object members => duplicateFreeMembers [] members
  | .null | .bool _ | .number _ | .string _ => true

def duplicateFreeItems : List JsonTree → Bool
  | [] => true
  | item :: items => item.duplicateFree && duplicateFreeItems items

def duplicateFreeMembers (seen : List Bytes) : List (Bytes × JsonTree) → Bool
  | [] => true
  | (key, value) :: members =>
    !seen.contains key && value.duplicateFree && duplicateFreeMembers (key :: seen) members

end

def rejectDuplicateKeys (json : StateJson) (input : Bytes) : Bool :=
  match json.tree input with
  | none => false
  | some tree => tree.duplicateFree

end Duplicates

/-- The part of the ownership that a malformed receipt may be about. -/
inductive ReceiptInvalidityScope where
  | destination (harness : HarnessId) (scope : HarnessScope) (destination : NormalizedDestination)
  | harnessScope (harness : HarnessId) (scope : HarnessScope)
  | harness (harness : HarnessId)
  | report
  deriving DecidableEq

section Scope

def HarnessId.parse (value : Bytes) : Option HarnessId :=
  if value = ascii "claude" then some .claude
  else if value = ascii "codex" then some .codex
  else if value = ascii "pi" then some .pi
  else if value = ascii "opencode" then some .openCode
  else (Name.parse .community value).map .other

def JsonTree.asStr : JsonTree → Option Bytes
  | .string value => some value
  | _ => none

def scopeOfStr (value : Bytes) : Option HarnessScope :=
  if value = ascii "user" then some .user
  else if value = ascii "project" then some .project
  else none

/-- What the members of a receipt say about its owner. -/
structure ReceiptScope where
  seen : List Bytes
  harness : Option HarnessId
  scope : Option HarnessScope
  destination : Option NormalizedDestination
  mayHaveSharedAuthority : Bool

def sharedTarget (value : JsonTree) : Bool :=
  value.asStr.any fun target =>
    target = ascii "managed_instruction_region" || target = ascii "managed_mcp_entry"

/-- `value.as_array().is_none_or(|consumers| !consumers.is_empty())`. -/
def nonemptyArray : JsonTree → Bool
  | .array items => !items.isEmpty
  | _ => true

def nonemptyObject : JsonTree → Bool
  | .object members => !members.isEmpty
  | _ => true

/-- One round of `ReceiptScopeVisitor`: a field that stands twice is not known. -/
def visitReceiptMember (s : ReceiptScope) (key : Bytes) (value : JsonTree) : ReceiptScope :=
  if key = ascii "harness" then
    if s.seen.contains key then { s with harness := none }
    else { s with seen := key :: s.seen, harness := value.asStr.bind HarnessId.parse }
  else if key = ascii "scope" then
    if s.seen.contains key then { s with scope := none }
    else { s with seen := key :: s.seen, scope := value.asStr.bind scopeOfStr }
  else if key = ascii "destination" then
    if s.seen.contains key then { s with destination := none }
    else { s with
      seen := key :: s.seen
      destination := value.asStr.bind fun text => (NormalizedDestination.parse text).toOption }
  else if key = ascii "target" then
    { s with mayHaveSharedAuthority := s.mayHaveSharedAuthority || sharedTarget value }
  else if key = ascii "logical_key" ∨ key = ascii "document_hash" then
    { s with mayHaveSharedAuthority := true }
  else if key = ascii "shared_with" then
    { s with mayHaveSharedAuthority := s.mayHaveSharedAuthority || nonemptyArray value }
  else if key = ascii "shared_adapter_versions" then
    { s with mayHaveSharedAuthority := s.mayHaveSharedAuthority || nonemptyObject value }
  else s

def recoveredScope : Option HarnessId → Option HarnessScope → Option NormalizedDestination →
    ReceiptInvalidityScope
  | some harness, some scope, some destination => .destination harness scope destination
  | some harness, some scope, none => .harnessScope harness scope
  | some harness, none, _ => .harness harness
  | none, _, _ => .report

def recoverScope (json : StateJson) (raw : Bytes) : ReceiptInvalidityScope :=
  match json.tree raw with
  | some (.object members) =>
    let s := members.foldl (fun s member => visitReceiptMember s member.1 member.2)
      ⟨[], none, none, none, false⟩
    if s.mayHaveSharedAuthority then .report
    else recoveredScope s.harness s.scope s.destination
  | _ => .report

end Scope

end Kitrove
