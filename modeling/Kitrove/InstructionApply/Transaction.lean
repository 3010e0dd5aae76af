import Kitrove.InstructionApply.Plan
import Kitrove.Storage.GuardedJournalAtomicity

/-! Committing one instruction plan: the new document and the new machine-local state are staged
behind a journal, installed one after the other, and everything staged is removed. -/

namespace Kitrove.InstructionApply

open Crash Kitrove

structure TransactionError where
  code : String
  message : String
  deriving DecidableEq, Repr

namespace TransactionError

def recoveryConflict : TransactionError :=
  ⟨"instruction_apply.recovery_conflict", "instruction recovery requires attention"⟩

def journalInvalid : TransactionError :=
  ⟨"instruction_apply.journal_invalid", "instruction recovery journal authority is invalid"⟩

def storageFailed : TransactionError :=
  ⟨"instruction_apply.storage_failed", "instruction transaction storage failed"⟩

def planStale : TransactionError :=
  ⟨"instruction_apply.plan_stale", "standing-instruction authority changed after planning"⟩

def planStaleAfterPreparation : TransactionError :=
  ⟨"instruction_apply.plan_stale",
    "standing-instruction authority changed after transaction preparation"⟩

def localStateMissing : TransactionError :=
  ⟨"instruction_apply.local_state_missing", "machine-local state authority is missing"⟩

def ofMutation (e : ObjectMutationError) : TransactionError := ⟨e.code, e.message⟩

def ofPlan (e : ApplyError) : TransactionError := ⟨e.code, e.message⟩

def ofJournal : GuardedJournalError TransactionError → TransactionError
  | .storage => storageFailed
  | .authority e => e

end TransactionError

open TransactionError

inductive JournalPhase where
  | preparing
  | prepared
  | targetCommitted
  | stateCommitted
  deriving DecidableEq, Repr

def JournalPhase.next : JournalPhase → Option JournalPhase
  | preparing => some prepared
  | prepared => some targetCommitted
  | targetCommitted => some stateCommitted
  | stateCommitted => none

inductive StoredDisposition where
  | install
  | restore
  | managedUpdate
  deriving DecidableEq, Repr

namespace StoredDisposition

def tag : StoredDisposition → UInt8
  | install => 0
  | restore => 1
  | managedUpdate => 2

def fromPlan : ApplyDisposition → Except TransactionError StoredDisposition
  | .install => .ok .install
  | .restore => .ok .restore
  | .managedUpdate => .ok .managedUpdate
  | .remove | .noOp => .error TransactionError.journalInvalid

end StoredDisposition

structure InstructionApplyJournal where
  schemaVersion : UInt32
  phase : JournalPhase
  transactionDigest : ContentHash
  planDigest : ContentHash
  assetId : AssetId
  manifestRevision : Revision
  destination : NormalizedDestination
  relativeDocument : PortablePath
  disposition : StoredDisposition
  oldDocumentHash : Option ContentHash
  newDocumentHash : ContentHash
  newRegionHash : ContentHash
  oldStateHash : ContentHash
  newStateHash : ContentHash
  mode : RegularFileMode
  observedReceipt : Option DeploymentReceipt
  proposedReceipt : DeploymentReceipt
  deriving DecidableEq

inductive CommitOutcome where
  | committed
  | noOp
  | recovered
  deriving DecidableEq, Repr

inductive RecoveryOutcome where
  | absent
  | aborted
  | completed
  deriving DecidableEq, Repr

def maxControlBytes : Nat := 32 * 1024 * 1024

/-- What a transaction uses besides planning: the JSON library, and whether the platform
exchanges files. -/
structure ApplyEnvironment extends PlanEnvironment where
  encodeReceipt : DeploymentReceipt → Option Bytes
  encodeJournal : InstructionApplyJournal → Option Bytes
  decodeJournal : Bytes → Option InstructionApplyJournal
  exchange : Bool

/-- The JSON library round-trips its values. -/
structure ApplyEnvironment.Lawful (env : ApplyEnvironment) : Prop where
  journal : ∀ journal text, env.encodeJournal journal = some text →
    env.decodeJournal (text ++ [newline]) = some journal

/-- The files of one transaction: `state.json`, the journal and the shared document, each with
the staging and backup file of its guarded replacement. -/
structure ApplyStore where
  state : Slots Bytes
  journal : Slots Bytes
  target : Slots Document
  deriving DecidableEq

namespace ApplyStore

def stateFiles : Lens ApplyStore (Slots Bytes) where
  get s := s.state
  set files s := { s with state := files }
  get_set _ _ := rfl
  set_get _ := rfl
  set_set _ _ _ := rfl

def journalFiles : Lens ApplyStore (Slots Bytes) where
  get s := s.journal
  set files s := { s with journal := files }
  get_set _ _ := rfl
  set_get _ := rfl
  set_set _ _ _ := rfl

def targetFiles : Lens ApplyStore (Slots Document) where
  get s := s.target
  set files s := { s with target := files }
  get_set _ _ := rfl
  set_get _ := rfl
  set_set _ _ _ := rfl

variable (s : ApplyStore)

@[simp] theorem stateFiles_get : stateFiles.get s = s.state := rfl
@[simp] theorem journalFiles_get : journalFiles.get s = s.journal := rfl
@[simp] theorem targetFiles_get : targetFiles.get s = s.target := rfl
@[simp] theorem stateFiles_set (files : Slots Bytes) :
    stateFiles.set files s = ⟨files, s.journal, s.target⟩ := rfl
@[simp] theorem journalFiles_set (files : Slots Bytes) :
    journalFiles.set files s = ⟨s.state, files, s.target⟩ := rfl
@[simp] theorem targetFiles_set (files : Slots Document) :
    targetFiles.set files s = ⟨s.state, s.journal, files⟩ := rfl

end ApplyStore

abbrev ApplyProgram (α : Type) := Program ApplyStore TransactionError α

section Journal

variable (env : ApplyEnvironment)

def receiptRecord (receipt : Option DeploymentReceipt) : Except TransactionError Bytes :=
  match receipt with
  | none => .ok [0]
  | some receipt =>
    match env.encodeReceipt receipt with
    | none => .error TransactionError.journalInvalid
    | some encoded => .ok (1 :: textRecord (contentDigest env.blake3 encoded).bytes)

/-- The identity of a transaction; it does not depend on the phase. -/
def transactionDigest (journal : InstructionApplyJournal) : Except TransactionError ContentHash := do
  let observed ← receiptRecord env journal.observedReceipt
  let proposed ← receiptRecord env (some journal.proposedReceipt)
  pure (ContentHash.ofDigest (env.blake3
    (ascii "kitrove-instruction-apply-transaction-v1" ++ [0] ++
      [journal.planDigest.bytes, journal.assetId.bytes, journal.manifestRevision.bytes,
        journal.destination.text, journal.relativeDocument.bytes, journal.newDocumentHash.bytes,
        journal.newRegionHash.bytes, journal.oldStateHash.bytes,
        journal.newStateHash.bytes].flatMap textRecord ++
      optionalRecord (journal.oldDocumentHash.map Name.bytes) ++ [journal.disposition.tag] ++
      journal.mode.record ++ observed ++ proposed)))

def receiptShape (journal : InstructionApplyJournal) : Bool :=
  journal.proposedReceipt.assetId = journal.assetId &&
    journal.proposedReceipt.destination = journal.destination &&
    journal.proposedReceipt.target = .managedInstructionRegion &&
    journal.proposedReceipt.sharedWith.isEmpty &&
    journal.proposedReceipt.renderedHash = journal.newRegionHash &&
    journal.proposedReceipt.environmentRevision = journal.manifestRevision &&
    (journal.proposedReceipt.receiptId env.blake3).toOption.isSome

def dispositionShape (journal : InstructionApplyJournal) : Bool :=
  match journal.disposition, journal.observedReceipt with
  | .install, none => journal.proposedReceipt.priorHash.isNone
  | .restore, some observed =>
    journal.oldDocumentHash.isNone && journal.proposedReceipt.priorHash = observed.priorHash
  | .managedUpdate, some observed =>
    journal.oldDocumentHash.isSome && journal.proposedReceipt.priorHash = some observed.renderedHash
  | _, _ => false

def unchangedStateIsRestore (journal : InstructionApplyJournal) : Bool :=
  journal.disposition = .restore && journal.observedReceipt = some journal.proposedReceipt

def observedReceiptShape (journal : InstructionApplyJournal) (receipt : DeploymentReceipt) : Bool :=
  receipt.assetId = journal.assetId && receipt.destination = journal.destination &&
    receipt.target = .managedInstructionRegion && receipt.sharedWith.isEmpty &&
    receipt.harness = journal.proposedReceipt.harness &&
    receipt.scope = journal.proposedReceipt.scope &&
    (receipt.receiptId env.blake3).toOption.isSome

def validateJournal (journal : InstructionApplyJournal) : Except TransactionError Unit := do
  refuseIf (journal.schemaVersion ≠ 1 ||
    (journal.oldStateHash = journal.newStateHash && !unchangedStateIsRestore journal) ||
    !journal.mode.isValidForPlatform env.unix || !receiptShape env journal ||
    !dispositionShape journal) TransactionError.journalInvalid
  let digest ← transactionDigest env journal
  refuseIf (digest ≠ journal.transactionDigest) TransactionError.journalInvalid
  refuseIf (journal.observedReceipt.any fun receipt => !observedReceiptShape env journal receipt)
    TransactionError.journalInvalid

def journalText (journal : InstructionApplyJournal) : Except TransactionError Bytes :=
  match env.encodeJournal journal with
  | none => .error TransactionError.journalInvalid
  | some text => .ok (text ++ [newline])

def parseJournal (text : Bytes) : Except TransactionError InstructionApplyJournal :=
  match env.decodeJournal text with
  | none => .error TransactionError.journalInvalid
  | some journal => do
    validateJournal env journal
    pure journal

def validTransition (old next : InstructionApplyJournal) : Bool :=
  match old.phase.next with
  | none => false
  | some phase => { old with phase := phase } == next

def journalFormat : JournalFormat Bytes InstructionApplyJournal TransactionError :=
  ⟨parseJournal env, validTransition, TransactionError.journalInvalid⟩

def orConflict {ε α : Type} (r : Except ε α) : Except TransactionError α :=
  r.mapError fun _ => recoveryConflict

/-- The receipts that are left once those of the transaction are set aside. -/
def otherReceipts (state : LocalState) (oldId : Option ReceiptId) (newId : ReceiptId) :
    LocalState :=
  { state with receipts := (match oldId with
      | none => state.receipts
      | some id => state.receipts.erase id).erase newId }

def validateStateTransition (oldText newText : Bytes) (journal : InstructionApplyJournal) :
    Except TransactionError Unit := do
  refuseIf (contentDigest env.blake3 oldText ≠ journal.oldStateHash ||
    contentDigest env.blake3 newText ≠ journal.newStateHash) recoveryConflict
  let old ← orConflict (LocalState.fromJson env.states oldText)
  let new ← orConflict (LocalState.fromJson env.states newText)
  let newId ← orConflict (journal.proposedReceipt.receiptId env.blake3)
  refuseIf (old.receipts.contains newId && journal.observedReceipt.isNone) recoveryConflict
  refuseIf (new.receipts[newId]? ≠ some journal.proposedReceipt) recoveryConflict
  let oldId ← match journal.observedReceipt with
    | none => pure none
    | some receipt => do
      let oldId ← orConflict (receipt.receiptId env.blake3)
      refuseIf (old.receipts[oldId]? ≠ some receipt) recoveryConflict
      pure (some oldId)
  refuseIf (otherReceipts old oldId newId ≠ otherReceipts new oldId newId) recoveryConflict

def validateNewState (text : Bytes) (journal : InstructionApplyJournal) :
    Except TransactionError Unit := do
  refuseIf (contentDigest env.blake3 text ≠ journal.newStateHash) recoveryConflict
  let state ← orConflict (LocalState.fromJson env.states text)
  let receiptId ← orConflict (journal.proposedReceipt.receiptId env.blake3)
  refuseIf (state.receipts[receiptId]? ≠ some journal.proposedReceipt) recoveryConflict

def validateTargetAnchor (journal : InstructionApplyJournal) : Except TransactionError Unit :=
  refuseIf (env.destinationOf journal.relativeDocument ≠ some journal.destination) recoveryConflict

/-- `journal_from_plan`, with the placeholder digest it is built from. -/
def journalFromPlan (plan : InstructionApplyPlan) (oldState newState : Bytes) :
    Except TransactionError InstructionApplyJournal := do
  let disposition ← StoredDisposition.fromPlan plan.disposition
  let draft : InstructionApplyJournal :=
    { schemaVersion := 1
      phase := .preparing
      transactionDigest := contentDigest env.blake3 (ascii "pending")
      planDigest := plan.digest
      assetId := plan.assetId
      manifestRevision := plan.manifestRevision
      destination := plan.destination
      relativeDocument := plan.policy.relativeDocument
      disposition
      oldDocumentHash := plan.document.map fun document =>
        hashInstructionDocument env.blake3 document.text
      newDocumentHash := hashInstructionDocument env.blake3 plan.rendered.text
      newRegionHash := plan.regionHash
      oldStateHash := contentDigest env.blake3 oldState
      newStateHash := contentDigest env.blake3 newState
      mode := plan.rendered.mode
      observedReceipt := plan.observedReceipt
      proposedReceipt := plan.proposedReceipt }
  let digest ← transactionDigest env draft
  let journal := { draft with transactionDigest := digest }
  validateJournal env journal
  validateStateTransition env oldState newState journal
  pure journal

end Journal

section Operations

variable (env : ApplyEnvironment)

/-- Documents are measured by their text. -/
def documentPlatform (exchange : Bool) : TextPlatform Document :=
  ⟨fun document => document.text.length, exchange⟩

def textPlatform : TextPlatform Bytes := ⟨List.length, env.exchange⟩

/-- Removes a file whose text is as expected; an absent one stays absent. -/
def removeIfMatches {τ : Type} (p : TextPlatform τ) (path : SlotName) (maxBytes : Nat)
    (expected : τ → Bool) : TextProgram τ Unit := do
  match ← Program.inspect (·.get path) with
  | none => pure ()
  | some text =>
    Program.require (decide (p.len text ≤ maxBytes) && expected text)
      ObjectMutationError.existingConflict
    Slots.remove path

def onState {α : Type} (m : TextProgram Bytes α) : ApplyProgram α :=
  Program.zoom ApplyStore.stateFiles (m.mapError ofMutation)

def onJournal {α : Type} (m : TextProgram Bytes α) : ApplyProgram α :=
  Program.zoom ApplyStore.journalFiles (m.mapError ofMutation)

def onTarget {α : Type} (m : TextProgram Document α) : ApplyProgram α :=
  Program.zoom ApplyStore.targetFiles (m.mapError ofMutation)

def readState (path : SlotName) : ApplyProgram (Option Bytes) :=
  onState (readText (textPlatform env) path maxControlBytes)

def readTarget (path : SlotName) : ApplyProgram (Option Document) :=
  onTarget (readText (documentPlatform env.exchange) path env.limits.maxDocumentBytes)

def inspectJournal : ApplyProgram (Option InstructionApplyJournal) :=
  Program.zoom ApplyStore.journalFiles
    ((GuardedJournal.inspect (textPlatform env) (journalFormat env) maxControlBytes).mapError
      ofJournal)

def reconcileJournal : ApplyProgram Unit :=
  Program.zoom ApplyStore.journalFiles
    ((GuardedJournal.reconcile (textPlatform env) (journalFormat env) maxControlBytes).mapError
      ofJournal)

def installInitialJournal (journal : InstructionApplyJournal) : ApplyProgram Unit := do
  match ← inspectJournal env with
  | some _ => Program.fail recoveryConflict
  | none =>
    let text ← Program.ofExcept (journalText env journal)
    onJournal (stageText (textPlatform env) .destination text maxControlBytes)

def advanceJournal (journal : InstructionApplyJournal) (next : JournalPhase) :
    ApplyProgram InstructionApplyJournal := do
  Program.require (journal.phase.next == some next) TransactionError.journalInvalid
  let journal := { journal with phase := next }
  let text ← Program.ofExcept (journalText env journal)
  onJournal (stageText (textPlatform env) .staging text maxControlBytes)
  reconcileJournal env
  pure journal

def documentHash (document : Document) : ContentHash :=
  hashInstructionDocument env.blake3 document.text

def isDocument (hash : Option ContentHash) (document : Document) : Bool :=
  hash == some (documentHash env document)

def isState (hash : ContentHash) (text : Bytes) : Bool := contentDigest env.blake3 text == hash

def isTransactionJournal (journal : InstructionApplyJournal) (text : Bytes) : Bool :=
  match parseJournal env text with
  | .ok candidate => candidate.transactionDigest == journal.transactionDigest
  | .error _ => false

/-- Removes what a transaction staged and kept, and last its journal. -/
def cleanup (journal : InstructionApplyJournal) : ApplyProgram Unit := do
  onTarget (removeIfMatches (documentPlatform env.exchange) .staging env.limits.maxDocumentBytes
    fun document => isDocument env (some journal.newDocumentHash) document ||
      isDocument env journal.oldDocumentHash document)
  onTarget (removeIfMatches (documentPlatform env.exchange) .backup env.limits.maxDocumentBytes
    (isDocument env journal.oldDocumentHash))
  onState (removeIfMatches (textPlatform env) .staging maxControlBytes
    fun text => isState env journal.oldStateHash text || isState env journal.newStateHash text)
  onState (removeIfMatches (textPlatform env) .backup maxControlBytes
    (isState env journal.oldStateHash))
  onJournal (removeIfMatches (textPlatform env) .staging maxControlBytes
    (isTransactionJournal env journal))
  onJournal (removeIfMatches (textPlatform env) .backup maxControlBytes
    (isTransactionJournal env journal))
  onJournal (removeIfMatches (textPlatform env) .destination maxControlBytes
    (isTransactionJournal env journal))

/-- Continues only with a file that is there. -/
def present {α : Type} (read : ApplyProgram (Option α)) : ApplyProgram α := do
  match ← read with
  | none => Program.fail recoveryConflict
  | some value => pure value

def validateStagedAuthority (journal : InstructionApplyJournal) : ApplyProgram Unit := do
  let target ← present (readTarget env .staging)
  let state ← present (readState env .staging)
  Program.require (isDocument env (some journal.newDocumentHash) target &&
    target.mode == journal.mode && isState env journal.newStateHash state) recoveryConflict
  let current ← present (readState env .destination)
  Program.ofExcept (validateStateTransition env current state journal)

inductive RecoveryDirection where
  | forward
  | abort
  deriving DecidableEq

/-- Whether a recovery completes the transaction or undoes it. -/
def recoveryDirection (journal : InstructionApplyJournal) (state : Bytes)
    (target : Option Document) : ApplyProgram RecoveryDirection :=
  if target.map (documentHash env) = journal.oldDocumentHash ∧
      contentDigest env.blake3 state = journal.oldStateHash ∧
      (journal.phase = .preparing ∨ journal.phase = .prepared) then do
    if journal.phase = .prepared then validateStagedAuthority env journal
    pure .abort
  else if journal.phase = .preparing then Program.fail recoveryConflict
  else pure .forward

def proveTargetInstall (journal : InstructionApplyJournal) : ApplyProgram Unit := do
  let staged ← readTarget env .staging
  Program.require (staged.all (isDocument env journal.oldDocumentHash)) recoveryConflict

def resumeIncompleteTarget (journal : InstructionApplyJournal) : ApplyProgram Unit := do
  Program.require journal.oldDocumentHash.isSome recoveryConflict
  let old ← present (readTarget env .backup)
  let new ← present (readTarget env .staging)
  Program.require (isDocument env journal.oldDocumentHash old &&
    isDocument env (some journal.newDocumentHash) new) recoveryConflict
  onTarget (installStagedTextGuarded (documentPlatform env.exchange) (some old) new
    env.limits.maxDocumentBytes)

/-- Brings the machine-local state to its new text. -/
def completeState (journal : InstructionApplyJournal) (current : Bytes) : ApplyProgram Unit :=
  if journal.oldStateHash = journal.newStateHash then
    Program.ofExcept (validateNewState env current journal)
  else if contentDigest env.blake3 current = journal.oldStateHash then do
    let staged ← present (readState env .staging)
    Program.require (isState env journal.newStateHash staged) recoveryConflict
    Program.ofExcept (validateStateTransition env current staged journal)
    onState (installStagedTextGuarded (textPlatform env) (some current) staged maxControlBytes)
  else if contentDigest env.blake3 current = journal.newStateHash then
    Program.ofExcept (validateNewState env current journal)
  else Program.fail recoveryConflict

def completeTransaction (journal : InstructionApplyJournal) (state : Bytes)
    (target : Option Document) : ApplyProgram Unit := do
  if target.map (documentHash env) ≠ some journal.newDocumentHash then
    resumeIncompleteTarget env journal
  else proveTargetInstall env journal
  let installed ← readTarget env .destination
  Program.require (installed.map (documentHash env) == some journal.newDocumentHash)
    recoveryConflict
  completeState env journal state
  cleanup env journal

/-- Takes a recovery in its direction. -/
def finishRecovery (journal : InstructionApplyJournal) (state : Bytes) (target : Option Document) :
    RecoveryDirection → ApplyProgram RecoveryOutcome
  | .abort => do
    cleanup env journal
    pure .aborted
  | .forward => do
    completeTransaction env journal state target
    pure .completed

/-- `recover_locked`, behind `recover_instruction_apply`. -/
def recover : ApplyProgram RecoveryOutcome := do
  match ← inspectJournal env with
  | none => pure .absent
  | some journal =>
    Program.ofExcept (validateTargetAnchor env journal)
    let state ← present (readState env .destination)
    let target ← readTarget env .destination
    let direction ← recoveryDirection env journal state target
    reconcileJournal env
    let reread ← inspectJournal env
    Program.require (reread == some journal) recoveryConflict
    finishRecovery env journal state target direction

/-- What a commit carries from the moment it decides to apply a plan. -/
structure PreparedApply where
  old : Option Document
  new : Document
  oldState : Bytes
  newState : Bytes
  journal : InstructionApplyJournal
  deriving DecidableEq

/-- `refresh_plan`: plans again from the files as they are. -/
def refreshPlan (plan : InstructionApplyPlan) : ApplyProgram InstructionApplyPlan := do
  match ← readState env .destination with
  | none => Program.fail localStateMissing
  | some state =>
    let document ← readTarget env .destination
    Program.ofExcept ((planInstructionApply env.toPlanEnvironment plan.assetId plan.policy document
      state).mapError ofPlan)

def prepareCommit (plan : InstructionApplyPlan) : ApplyProgram (CommitOutcome ⊕ PreparedApply) := do
  let recovered ← recover env
  let refreshed ← refreshPlan env plan
  if refreshed.digest ≠ plan.digest then
    if recovered = .completed ∧ refreshed.disposition = .noOp then pure (.inl .recovered)
    else Program.fail planStale
  else if refreshed.disposition = .noOp then pure (.inl .noOp)
  else
    let newState ← Program.ofExcept
      (orConflict (refreshed.proposedLocalState.toJson env.states))
    let journal ← Program.ofExcept
      (journalFromPlan env refreshed refreshed.observedLocalStateText newState)
    pure (.inr ⟨refreshed.document, refreshed.rendered, refreshed.observedLocalStateText, newState,
      journal⟩)

/-- Applies a plan once its journal is known. -/
def commitApply (plan : InstructionApplyPlan) (c : PreparedApply) : ApplyProgram CommitOutcome := do
  installInitialJournal env c.journal
  Program.require (c.new.mode.isValidForPlatform env.unix)
    (ofMutation ObjectMutationError.controlFileInvalid)
  onTarget (stageText (documentPlatform env.exchange) .staging c.new env.limits.maxDocumentBytes)
  onState (stageText (textPlatform env) .staging c.newState maxControlBytes)
  let journal ← advanceJournal env c.journal .prepared
  let revalidated ← refreshPlan env plan
  Program.require (revalidated.digest == plan.digest) planStaleAfterPreparation
  onTarget (installStagedTextGuardedFromOld (documentPlatform env.exchange) c.old c.new
    env.limits.maxDocumentBytes)
  let journal ← advanceJournal env journal .targetCommitted
  onState (installStagedTextGuarded (textPlatform env) (some c.oldState) c.newState maxControlBytes)
  let journal ← advanceJournal env journal .stateCommitted
  cleanup env journal
  pure .committed

/-- `commit_instruction_apply`. -/
def commit (plan : InstructionApplyPlan) : ApplyProgram CommitOutcome := do
  match ← prepareCommit env plan with
  | .inl outcome => pure outcome
  | .inr c => commitApply env plan c

end Operations

end Kitrove.InstructionApply
