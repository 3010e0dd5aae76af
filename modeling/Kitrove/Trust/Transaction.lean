import Kitrove.Storage.GuardedControl
import Kitrove.Storage.GuardedJournalAtomicity
import Kitrove.Storage.PrivateText
import Kitrove.Trust.Plan

/-! Committing one decision about an executable object: the new machine-local state is staged,
the journal is made durable, the state is replaced and the journal removed. -/

namespace Kitrove.ExecutableTrust

open Crash Kitrove

structure TransactionError where
  code : String
  message : String
  deriving DecidableEq, Repr

namespace TransactionError

def recoveryConflict : TransactionError :=
  ⟨"trust.recovery_conflict", "machine-local trust recovery requires attention"⟩

def journalInvalid : TransactionError :=
  ⟨"trust.journal_invalid", "the executable trust recovery journal is invalid"⟩

def recoveryIo : TransactionError :=
  ⟨"trust.recovery_io", "machine-local trust recovery storage failed"⟩

def localStateMissing : TransactionError :=
  ⟨"trust.local_state_missing", "machine-local state authority is missing"⟩

def localStateInvalid : TransactionError :=
  ⟨"trust.local_state_invalid", "machine-local state authority is invalid"⟩

def planStale : TransactionError :=
  ⟨"trust.plan_stale", "executable trust authority changed after planning"⟩

def transactionPathInvalid : TransactionError :=
  ⟨"trust.transaction_path_invalid", "the executable trust transaction path is invalid"⟩

def ofMutation (e : ObjectMutationError) : TransactionError := ⟨e.code, e.message⟩

def ofPlan (e : ExecutableTrustError) : TransactionError := ⟨e.code, e.message⟩

def ofControl : GuardedControlError TransactionError → TransactionError
  | .storage e => ofMutation e
  | .authority e => e

def ofJournal : GuardedJournalError TransactionError → TransactionError
  | .storage => recoveryIo
  | .authority e => e

end TransactionError

open TransactionError

inductive TrustJournalPhase where
  | prepared
  | stateCommitted
  deriving DecidableEq, Repr

structure TrustJournal where
  schemaVersion : UInt32
  phase : TrustJournalPhase
  planDigest : ContentHash
  assetId : AssetId
  objectHash : ContentHash
  manifestRevision : Revision
  disposition : ExecutableTrustDisposition
  oldDecision : Option ExecutableTrustDecision
  newDecision : ExecutableTrustDecision
  oldStateHash : ContentHash
  newStateHash : ContentHash
  stagingState : PortablePath
  deriving DecidableEq

inductive CommitOutcome where
  | committed
  | noOp
  | recovered
  deriving DecidableEq, Repr

inductive RecoveryOutcome where
  | absent
  | aborted
  | completed
  deriving DecidableEq, Repr

def maxControlBytes : Nat := 32 * 1024 * 1024

/-- What a trust transaction uses: the digest, the JSON library, whether the platform
exchanges files, and the checked manifest and object of an asset. -/
structure TrustEnvironment where
  blake3 : Bytes → Digest
  states : LocalStateCodec
  encodeJournal : TrustJournal → Option Bytes
  decodeJournal : Bytes → Option TrustJournal
  exchange : Bool
  authority : AssetId → Except ExecutableTrustError (Revision × ContentHash)

/-- The JSON library round-trips its values. -/
structure TrustEnvironment.Lawful (env : TrustEnvironment) : Prop where
  states : env.states.Lawful
  journal : ∀ journal text, env.encodeJournal journal = some text →
    env.decodeJournal (text ++ [newline]) = some journal

/-- The files of one transaction: `state.json` and the journal, each with the staging and
backup file of its guarded replacement. -/
structure TrustStore where
  state : Slots Bytes
  journal : Slots Bytes
  deriving DecidableEq

namespace TrustStore

def stateFiles : Lens TrustStore (Slots Bytes) where
  get s := s.state
  set files s := { s with state := files }
  get_set _ _ := rfl
  set_get _ := rfl
  set_set _ _ _ := rfl

def journalFiles : Lens TrustStore (Slots Bytes) where
  get s := s.journal
  set files s := { s with journal := files }
  get_set _ _ := rfl
  set_get _ := rfl
  set_set _ _ _ := rfl

@[simp] theorem stateFiles_get (s : TrustStore) : stateFiles.get s = s.state := rfl
@[simp] theorem stateFiles_set (s : TrustStore) (files : Slots Bytes) :
    stateFiles.set files s = ⟨files, s.journal⟩ := rfl
@[simp] theorem journalFiles_get (s : TrustStore) : journalFiles.get s = s.journal := rfl
@[simp] theorem journalFiles_set (s : TrustStore) (files : Slots Bytes) :
    journalFiles.set files s = ⟨s.state, files⟩ := rfl

end TrustStore

abbrev TrustProgram (α : Type) := Program TrustStore TransactionError α

section Journal

variable (env : TrustEnvironment)

def stagingStatePath (digest : ContentHash) : Except TransactionError PortablePath :=
  match stripPrefix contentHashQualifier digest.bytes with
  | none => .error TransactionError.journalInvalid
  | some token =>
    match Name.parse .path (ascii ".kitrove/trust-staging/" ++ token ++ ascii ".json") with
    | none => .error transactionPathInvalid
    | some path => .ok path

def dispositionMatches (journal : TrustJournal) : Bool :=
  match journal.disposition with
  | .first => journal.oldDecision.isNone
  | .replace => journal.oldDecision.isSome && journal.oldDecision != some journal.newDecision
  | .noOp => false

def validateJournal (journal : TrustJournal) : Except TransactionError Unit := do
  let stagingState ← stagingStatePath journal.planDigest
  let expectedDigest := trustPlanDigestFromHashes env.blake3 journal.assetId journal.objectHash
    journal.newDecision journal.disposition journal.manifestRevision journal.oldStateHash
    journal.newStateHash
  refuseIf (journal.schemaVersion ≠ 1 || journal.stagingState ≠ stagingState ||
    journal.oldStateHash = journal.newStateHash || !dispositionMatches journal ||
    expectedDigest ≠ journal.planDigest) TransactionError.journalInvalid

def journalText (journal : TrustJournal) : Except TransactionError Bytes :=
  match env.encodeJournal journal with
  | none => .error TransactionError.journalInvalid
  | some text => .ok (text ++ [newline])

def parseTrustJournal (encoded : Bytes) : Except TransactionError TrustJournal :=
  match env.decodeJournal encoded with
  | none => .error TransactionError.journalInvalid
  | some journal => do
    validateJournal env journal
    let text ← journalText env journal
    refuseIf (text ≠ encoded) TransactionError.journalInvalid
    pure journal

def validTrustJournalTransition (old next : TrustJournal) : Bool :=
  old.phase == .prepared && { old with phase := .stateCommitted } == next

def journalFormat : JournalFormat Bytes TrustJournal TransactionError :=
  ⟨parseTrustJournal env, validTrustJournalTransition, TransactionError.journalInvalid⟩

end Journal

section Operations

variable (env : TrustEnvironment)

def onState {α : Type} (m : TextProgram Bytes α) : TrustProgram α :=
  Program.zoom TrustStore.stateFiles (m.mapError ofMutation)

def onJournal {α : Type} (m : TextProgram Bytes α) : TrustProgram α :=
  Program.zoom TrustStore.journalFiles (m.mapError ofMutation)

def readState (path : SlotName) : TrustProgram (Option Bytes) :=
  onState (readText (bytePlatform env.exchange) path maxControlBytes)

def inspectTrustJournal : TrustProgram (Option TrustJournal) :=
  Program.zoom TrustStore.journalFiles
    ((GuardedJournal.inspect (bytePlatform env.exchange) (journalFormat env)
      maxControlBytes).mapError ofJournal)

def reconcileTrustJournal : TrustProgram Unit :=
  Program.zoom TrustStore.journalFiles
    ((GuardedJournal.reconcile (bytePlatform env.exchange) (journalFormat env)
      maxControlBytes).mapError ofJournal)

def inspectTrustState (journal : TrustJournal) : TrustProgram (Option Bytes) :=
  Program.zoom TrustStore.stateFiles
    ((GuardedControl.inspect (bytePlatform env.exchange) (contentDigest env.blake3)
      (some journal.oldStateHash) journal.newStateHash maxControlBytes
      recoveryConflict).mapError ofControl)

def reconcileTrustState (journal : TrustJournal) : TrustProgram Unit :=
  Program.zoom TrustStore.stateFiles
    ((GuardedControl.reconcile (bytePlatform env.exchange) (contentDigest env.blake3)
      ⟨some journal.oldStateHash, journal.newStateHash, false⟩ maxControlBytes
      recoveryConflict).mapError ofControl)

/-- The decision a state records for an object. -/
def stateDecision (stateText : Bytes) (objectHash : ContentHash) :
    Except TransactionError (Option ExecutableTrustDecision) := do
  let state ← (LocalState.fromJson env.states stateText).mapError fun _ => recoveryConflict
  pure (state.trust[objectHash]?.map ExecutableTrustDecision.ofRecord)

def validateNewDecision (newState : Bytes) (journal : TrustJournal) :
    Except TransactionError Unit := do
  let decision ← stateDecision env newState journal.objectHash
  refuseIf (decision ≠ some journal.newDecision) recoveryConflict

def validateDecisionTransition (oldState newState : Bytes) (journal : TrustJournal) :
    Except TransactionError Unit := do
  let old ← (LocalState.fromJson env.states oldState).mapError fun _ => recoveryConflict
  let new ← (LocalState.fromJson env.states newState).mapError fun _ => recoveryConflict
  let oldDecision ← stateDecision env oldState journal.objectHash
  let newDecision ← stateDecision env newState journal.objectHash
  refuseIf (oldDecision ≠ journal.oldDecision || newDecision ≠ some journal.newDecision)
    recoveryConflict
  refuseIf ({ old with trust := old.trust.erase journal.objectHash } ≠
    { new with trust := new.trust.erase journal.objectHash }) recoveryConflict

structure InspectedTrustRecovery where
  journal : TrustJournal
  state : Bytes
  direction : RecoveryOutcome
  deriving DecidableEq

/-- Decides what a recovery would do, without changing a file. -/
def inspectRecovery : TrustProgram (Option InspectedTrustRecovery) := do
  match ← inspectTrustJournal env with
  | none => pure none
  | some journal =>
    match ← inspectTrustState env journal with
    | none => Program.fail recoveryConflict
    | some current =>
      if contentDigest env.blake3 current = journal.newStateHash then
        Program.ofExcept (validateNewDecision env current journal)
        pure (some ⟨journal, current, .completed⟩)
      else if contentDigest env.blake3 current = journal.oldStateHash ∧
          journal.phase = .prepared then
        match ← readState env .staging with
        | none => Program.fail recoveryConflict
        | some staged =>
          Program.require (contentDigest env.blake3 staged == journal.newStateHash)
            recoveryConflict
          Program.ofExcept (validateDecisionTransition env current staged journal)
          pure (some ⟨journal, current, .aborted⟩)
      else Program.fail recoveryConflict

/-- Removes the staged state, the pending journal and the journal, in this order. -/
def cleanupTransactionFiles : TrustProgram Unit := do
  onState (Slots.remove .staging)
  onJournal (Slots.remove .staging)
  onJournal (Slots.remove .destination)

def recoverLockedInner (expected : InspectedTrustRecovery) : TrustProgram RecoveryOutcome := do
  match ← inspectRecovery env with
  | none => Program.fail recoveryConflict
  | some current =>
    Program.require (current == expected) recoveryConflict
    reconcileTrustJournal env
    reconcileTrustState env current.journal
    cleanupTransactionFiles
    pure current.direction

/-- `recover_locked`, behind `recover_executable_trust`. -/
def recover : TrustProgram RecoveryOutcome := do
  match ← inspectRecovery env with
  | none => pure .absent
  | some recovery => recoverLockedInner env recovery

/-- What a commit carries from the moment its pending journal is staged. -/
structure PreparedChange where
  oldState : Bytes
  newState : Bytes
  journal : TrustJournal
  preparedText : Bytes
  deriving DecidableEq

def initialJournal (plan : ExecutableTrustPlan) (oldDecision : Option ExecutableTrustDecision)
    (oldState newState : Bytes) (stagingState : PortablePath) : TrustJournal where
  schemaVersion := 1
  phase := .prepared
  planDigest := plan.digest
  assetId := plan.assetId
  objectHash := plan.objectHash
  manifestRevision := plan.manifestRevision
  disposition := plan.disposition
  oldDecision := oldDecision
  newDecision := plan.decision
  oldStateHash := contentDigest env.blake3 oldState
  newStateHash := contentDigest env.blake3 newState
  stagingState := stagingState

/-- Stages the new state and the journal that announces it. -/
def stageChange (refreshed : ExecutableTrustPlan) (currentState : Bytes) :
    TrustProgram PreparedChange := do
  let newState ← Program.ofExcept
    ((refreshed.proposedLocalState.toJson env.states).mapError fun _ =>
      TransactionError.localStateInvalid)
  let stagingState ← Program.ofExcept (stagingStatePath refreshed.digest)
  let oldDecision ← Program.ofExcept (stateDecision env currentState refreshed.objectHash)
  let journal := initialJournal env refreshed oldDecision currentState newState stagingState
  let preparedText ← Program.ofExcept (journalText env journal)
  onState (stagePrivateText (bytePlatform env.exchange) .staging newState maxControlBytes)
  onJournal (stagePrivateText (bytePlatform env.exchange) .staging preparedText maxControlBytes)
  pure ⟨currentState, newState, journal, preparedText⟩

/-- Makes the journal durable, replaces the state, and removes the journal. -/
def commitChange (change : PreparedChange) : TrustProgram CommitOutcome := do
  onJournal (installStagedTextGuarded (bytePlatform env.exchange) none change.preparedText
    maxControlBytes)
  onState (installStagedTextGuarded (bytePlatform env.exchange) (some change.oldState)
    change.newState maxControlBytes)
  let committedText ← Program.ofExcept
    (journalText env { change.journal with phase := .stateCommitted })
  onJournal (stagePrivateText (bytePlatform env.exchange) .staging committedText maxControlBytes)
  onJournal (installStagedTextGuarded (bytePlatform env.exchange) (some change.preparedText)
    committedText maxControlBytes)
  cleanupTransactionFiles
  pure .committed

/-- Refreshes the plan, and stages the change where one is left to make. -/
def prepareCommit (plan : ExecutableTrustPlan) : TrustProgram (CommitOutcome ⊕ PreparedChange) := do
  let recovered ← recover env
  match ← readState env .destination with
  | none => Program.fail localStateMissing
  | some currentState =>
    let refreshed ← Program.ofExcept ((planExecutableTrust env.blake3 env.states env.authority
      currentState plan.assetId plan.decision).mapError ofPlan)
    if refreshed.digest ≠ plan.digest then
      if recovered = .completed ∧ refreshed.disposition = .noOp then pure (.inl .recovered)
      else Program.fail planStale
    else if refreshed.disposition = .noOp then pure (.inl .noOp)
    else
      let change ← stageChange env refreshed currentState
      pure (.inr change)

/-- `commit_executable_trust`. -/
def commit (plan : ExecutableTrustPlan) : TrustProgram CommitOutcome := do
  match ← prepareCommit env plan with
  | .inl outcome => pure outcome
  | .inr change => commitChange env change

end Operations

end Kitrove.ExecutableTrust
