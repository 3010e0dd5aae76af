import Kitrove.Batch.Transaction

/-! Recovering a stopped atomic apply batch from its journal alone: the machine state
decides the direction, and every participant is then completed or rolled back. -/

namespace Kitrove

open Crash AtomicApplyBatchTransactionError

inductive AtomicApplyBatchRecoveryOutcome where
  | noJournal
  | rolledBack
  | completed
  deriving DecidableEq, Repr

inductive RecoveryDirection where
  | forward
  | rollback
  deriving DecidableEq, Repr

section Participants

variable {τ C H R A : Type} [DecidableEq H] (env : BatchEnvironment τ C H R A)

/-- Reads a participant's path; only a skill tolerates an entry it cannot capture. -/
def readParticipant (participant : ParticipantAuthority H) (index : Nat) (path : SlotName) :
    BatchProgram τ C R (Option C) := do
  let content ← Program.inspect fun s => (s.targets index).get path
  match participant.kind.target with
  | .exactText =>
    Program.require (content.all fun text => (env.view.hash text).isSome) recoveryBlocked
    pure content
  | .skill | .extension => pure content

def expectedHash (participant : ParticipantAuthority H) (old : Bool) :
    Except AtomicApplyBatchTransactionError H :=
  if old then
    match participant.oldTargetHash with
    | none => .error recoveryBlocked
    | some hash => .ok hash
  else .ok participant.newTargetHash

def participantMatches (participant : ParticipantAuthority H) (index : Nat) (path : SlotName)
    (old : Bool) : BatchProgram τ C R Bool := do
  let content ← readParticipant env participant index path
  match content with
  | none => pure false
  | some content =>
    let expected ← Program.ofExcept (expectedHash participant old)
    pure (env.view.hash content == some expected)

def participantIsNew (participant : ParticipantAuthority H) (index : Nat) (path : SlotName) :
    BatchProgram τ C R Bool :=
  participantMatches env participant index path false

def participantIsOld (participant : ParticipantAuthority H) (index : Nat) (path : SlotName) :
    BatchProgram τ C R Bool :=
  if participant.oldTargetHash.isNone then pure false
  else participantMatches env participant index path true

def participantIsMissing (participant : ParticipantAuthority H) (index : Nat)
    (path : SlotName) : BatchProgram τ C R Bool := do
  let content ← Program.inspect fun s => (s.targets index).get path
  match participant.kind.target with
  | .skill => pure content.isNone
  | .extension | .exactText =>
    Program.require (content.all fun entry => (env.view.hash entry).isSome) recoveryBlocked
    pure content.isNone

def recoveryIdentity (participant : ParticipantAuthority H) (index : Nat) (path : SlotName)
    (old : Bool) : BatchProgram τ C R (ApplyTargetIdentity C H) := do
  let expected ← Program.ofExcept (expectedHash participant old)
  let content ← Program.inspect fun s => (s.targets index).get path
  match participant.kind.target with
  | .skill => pure (.skill expected)
  | .extension =>
    Program.require (content.any fun entry => env.view.hash entry == some expected)
      recoveryBlocked
    pure (.extension expected)
  | .exactText =>
    match content with
    | none => Program.fail recoveryBlocked
    | some text =>
      Program.require (env.view.hash text == some expected) recoveryBlocked
      pure (.exactText text)

end Participants

section Recovery

variable {τ C H R A : Type} [DecidableEq τ] [DecidableEq C] [DecidableEq H] [DecidableEq R]
  [DecidableEq A] (env : BatchEnvironment τ C H R A)

namespace AtomicApplyBatchJournalCursor

def read : BatchProgram τ C R (Option (AtomicApplyBatchJournalCursor τ H R A)) := do
  let encoded ← (Program.zoom BatchStore.journalFiles
    (readText env.platform .destination maxBatchJournalBytes)).mapError fun _ => storageFailed
  match encoded with
  | none => pure none
  | some encoded =>
    let journal ← (Program.ofExcept (parseJournal env.format encoded)).mapError
      fun _ => storageFailed
    pure (some ⟨journal, encoded⟩)

/-- Settles the journal files and reads the journal they hold. -/
def load : BatchProgram τ C R (Option (AtomicApplyBatchJournalCursor τ H R A)) := do
  (Program.zoom BatchStore.journalFiles
    (GuardedJournal.reconcile env.platform (batchJournalFormat env.format)
      maxBatchJournalBytes)).mapError fun _ => storageFailed
  read env

end AtomicApplyBatchJournalCursor

def requiredState : BatchProgram τ C R τ := do
  let text ← onState storageFailed (readText env.platform .destination maxControlBytes)
  match text with
  | none => Program.fail storageFailed
  | some text => pure text

/-- Which way a batch is recovered. Identical old and new state bytes are resolved
toward rollback before the durable state phase. -/
def recoveryDirection (journal : AtomicApplyBatchJournal H R A) (currentHash : H) :
    Except AtomicApplyBatchTransactionError RecoveryDirection :=
  let stateIsOld := currentHash == journal.oldStateHash
  let stateIsNew := currentHash == journal.newStateHash
  let statePhaseCommitted := journal.phase == .stateCommitted || journal.phase == .verified
  if stateIsNew && statePhaseCommitted then .ok .forward
  else if stateIsOld && !statePhaseCommitted then .ok .rollback
  else if stateIsNew then .ok .forward
  else .error recoveryBlocked

def clearExactRecoveryPath (participant : ParticipantAuthority H) (index : Nat)
    (path : SlotName) (old : Bool) : BatchProgram τ C R Unit := do
  let missing ← participantIsMissing env participant index path
  if missing then pure ()
  else do
    let identity ← recoveryIdentity env participant index path old
    onTarget index recoveryBlocked (ApplyTarget.removeExact env.view path identity)

def clearRecoveryStaging (participant : ParticipantAuthority H) (index : Nat) :
    BatchProgram τ C R Unit :=
  if participant.disposition ≠ .remove then
    clearExactRecoveryPath env participant index .staging false
  else pure ()

def cleanupRecoveryParticipant (item : BatchParticipantJournal H × Nat) :
    BatchProgram τ C R Unit := do
  clearRecoveryStaging env item.1.toParticipantAuthority item.2
  clearExactRecoveryPath env item.1.toParticipantAuthority item.2 .backup true

def cleanupRecoveryState (newStateHash : H) : BatchProgram τ C R Unit := do
  let staged ← onState recoveryBlocked (readText env.platform .staging maxControlBytes)
  match staged with
  | none => pure ()
  | some text =>
    if env.digest text = newStateHash then onState recoveryBlocked (Slots.remove .staging)
    else Program.fail recoveryBlocked

def cleanupRecoveryArtifacts (cursor : AtomicApplyBatchJournalCursor τ H R A) :
    BatchProgram τ C R Unit := do
  cursor.journal.participants.zipIdx.foldlM (fun _ item => cleanupRecoveryParticipant env item) ()
  cleanupRecoveryState env cursor.journal.newStateHash
  cursor.removeTerminal

def completeParticipant (item : BatchParticipantJournal H × Nat) : BatchProgram τ C R Unit := do
  let participant := item.1.toParticipantAuthority
  if participant.disposition = .remove then
    let missing ← participantIsMissing env participant item.2 .destination
    Program.require missing recoveryBlocked
  else
    let new ← participantIsNew env participant item.2 .destination
    if new then pure ()
    else do
      let missing ← participantIsMissing env participant item.2 .destination
      Program.require missing recoveryBlocked
      let staged ← participantIsNew env participant item.2 .staging
      Program.require staged recoveryBlocked
      let identity ← recoveryIdentity env participant item.2 .staging false
      onTarget item.2 recoveryBlocked (ApplyTarget.install env.view identity)

def verifyParticipant (cursor : AtomicApplyBatchJournalCursor τ H R A) (index : Nat) :
    BatchProgram τ C R (AtomicApplyBatchJournalCursor τ H R A) :=
  if cursor.journal.participants[index]?.map (·.progress) = some .committed then
    cursor.transitionParticipant env index .verified
  else pure cursor

def commitRecoveredState (cursor : AtomicApplyBatchJournalCursor τ H R A) :
    BatchProgram τ C R (AtomicApplyBatchJournalCursor τ H R A) :=
  if cursor.journal.phase = .newTargetsCommitted then cursor.transitionPhase env .stateCommitted
  else pure cursor

def verifyRecovered (cursor : AtomicApplyBatchJournalCursor τ H R A) :
    BatchProgram τ C R (AtomicApplyBatchJournalCursor τ H R A) :=
  if cursor.journal.phase = .stateCommitted then do
    let cursor ← (List.range cursor.journal.participants.length).foldlM (verifyParticipant env)
      cursor
    cursor.transitionPhase env .verified
  else pure cursor

def recoverForward (cursor : AtomicApplyBatchJournalCursor τ H R A) :
    BatchProgram τ C R Unit := do
  let revision ← Program.inspect fun s => s.manifestRevision
  Program.require (revision == some cursor.journal.manifestRevision) recoveryBlocked
  cursor.journal.participants.zipIdx.foldlM (fun _ item => completeParticipant env item) ()
  let cursor ← commitRecoveredState env cursor
  let cursor ← verifyRecovered env cursor
  Program.require (cursor.journal.phase == .verified) recoveryBlocked
  cleanupRecoveryArtifacts env cursor

/-- Records a participant's progress unless it is recorded already. -/
def recordProgress (cursor : AtomicApplyBatchJournalCursor τ H R A)
    (progress next : ParticipantProgress) (index : Nat) :
    BatchProgram τ C R (AtomicApplyBatchJournalCursor τ H R A) :=
  if progress ≠ next then cursor.transitionParticipant env index next else pure cursor

/-- Puts the old content of a missing destination back from the backup. -/
def restoreParticipant (cursor : AtomicApplyBatchJournalCursor τ H R A)
    (participant : ParticipantAuthority H) (progress : ParticipantProgress) (index : Nat) :
    BatchProgram τ C R (AtomicApplyBatchJournalCursor τ H R A) := do
  let cursor ← recordProgress env cursor progress .restorePending index
  let identity ← recoveryIdentity env participant index .backup true
  onTarget index recoveryBlocked (ApplyTarget.restoreQuarantined env.view identity)
  cursor.transitionParticipant env index .rolledBack

/-- Rolls back a participant whose old content is at the destination or in the backup. -/
def rollbackDisplaced (cursor : AtomicApplyBatchJournalCursor τ H R A)
    (participant : ParticipantAuthority H) (progress : ParticipantProgress) (index : Nat) :
    BatchProgram τ C R (AtomicApplyBatchJournalCursor τ H R A) := do
  let old ← participantIsOld env participant index .destination
  if old then cursor.transitionParticipant env index .rolledBack
  else do
    let missing ← participantIsMissing env participant index .destination
    Program.require missing recoveryBlocked
    restoreParticipant env cursor participant progress index

/-- Removes the new content a commit may have put at the destination. -/
def removeInstalled (participant : ParticipantAuthority H) (index : Nat)
    (destinationIsNew : Bool) : BatchProgram τ C R Unit := do
  if destinationIsNew then
    let identity ← recoveryIdentity env participant index .destination false
    onTarget index recoveryBlocked (ApplyTarget.removeExact env.view .destination identity)
  else
    let missing ← participantIsMissing env participant index .destination
    if missing then pure ()
    else do
      let old ← participantIsOld env participant index .destination
      Program.require old recoveryBlocked

/-- What remains to roll back once the new content is not at the destination. -/
def rollbackUninstalled (cursor : AtomicApplyBatchJournalCursor τ H R A)
    (participant : ParticipantAuthority H) (progress : ParticipantProgress) (index : Nat) :
    BatchProgram τ C R (AtomicApplyBatchJournalCursor τ H R A) :=
  if participant.disposition = .managedUpdate then
    rollbackDisplaced env cursor participant progress index
  else cursor.transitionParticipant env index .rolledBack

def rollbackInstalled (cursor : AtomicApplyBatchJournalCursor τ H R A)
    (participant : ParticipantAuthority H) (progress : ParticipantProgress) (index : Nat) :
    BatchProgram τ C R (AtomicApplyBatchJournalCursor τ H R A) := do
  let destinationIsNew ← participantIsNew env participant index .destination
  if progress = .commitPending ∨ progress = .committed ∨ progress = .removePending then
    let cursor ← recordProgress env cursor progress .removePending index
    removeInstalled env participant index destinationIsNew
    let cursor ← cursor.transitionParticipant env index .removed
    rollbackUninstalled env cursor participant .removed index
  else do
    Program.require (!destinationIsNew) recoveryBlocked
    rollbackUninstalled env cursor participant progress index

def rollbackParticipant (cursor : AtomicApplyBatchJournalCursor τ H R A) (index : Nat) :
    BatchProgram τ C R (AtomicApplyBatchJournalCursor τ H R A) := do
  match cursor.journal.participants[index]? with
  | none => Program.fail recoveryBlocked
  | some participant =>
    if participant.progress = .rolledBack then pure cursor
    else
      match participant.disposition with
      | .noOp =>
        let new ← participantIsNew env participant.toParticipantAuthority index .destination
        Program.require new recoveryBlocked
        cursor.transitionParticipant env index .rolledBack
      | .remove =>
        rollbackDisplaced env cursor participant.toParticipantAuthority participant.progress index
      | .install | .restore | .managedUpdate =>
        rollbackInstalled env cursor participant.toParticipantAuthority participant.progress index

def beginRollback (cursor : AtomicApplyBatchJournalCursor τ H R A) :
    BatchProgram τ C R (AtomicApplyBatchJournalCursor τ H R A) :=
  if cursor.journal.phase ≠ .rollingBack then cursor.transitionPhase env .rollingBack
  else pure cursor

def recoverRollback (cursor : AtomicApplyBatchJournalCursor τ H R A) :
    BatchProgram τ C R Unit := do
  if cursor.journal.phase = .rolledBack then cleanupRecoveryArtifacts env cursor
  else do
    let cursor ← beginRollback env cursor
    let cursor ← (List.range cursor.journal.participants.length).reverse.foldlM
      (rollbackParticipant env) cursor
    let cursor ← cursor.transitionPhase env .rolledBack
    cleanupRecoveryArtifacts env cursor

/-- Resolves an interrupted atomic batch solely from its journal authority. -/
def recoverAtomicApplyBatch : BatchProgram τ C R AtomicApplyBatchRecoveryOutcome := do
  match ← AtomicApplyBatchJournalCursor.load env with
  | none => pure .noJournal
  | some preliminary =>
    match ← AtomicApplyBatchJournalCursor.load env with
    | none => Program.fail recoveryBlocked
    | some cursor =>
      Program.require (cursor.encoded == preliminary.encoded) recoveryBlocked
      let currentState ← requiredState env
      let direction ← Program.ofExcept
        (recoveryDirection cursor.journal (env.digest currentState))
      match direction with
      | .forward =>
        recoverForward env cursor
        pure .completed
      | .rollback =>
        recoverRollback env cursor
        pure .rolledBack

end Recovery

end Kitrove
