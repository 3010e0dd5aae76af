import Kitrove.Batch.Target
import Kitrove.Batch.Transition

/-! Committing an atomic apply batch: every participant is staged, the old targets are
quarantined, the new ones installed, the machine state replaced, and each step is
recorded in the batch journal before it is taken. -/

namespace Kitrove

open Crash

structure AtomicApplyBatchTransactionError where
  code : String
  message : String
  deriving DecidableEq, Repr

namespace AtomicApplyBatchTransactionError

def storageFailed : AtomicApplyBatchTransactionError :=
  ⟨"apply.batch_storage_failed", "atomic batch authority could not be read safely"⟩

def staleManifest : AtomicApplyBatchTransactionError :=
  ⟨"apply.batch_manifest_stale",
    "manifest or source-object authority changed after batch planning"⟩

def staleTarget : AtomicApplyBatchTransactionError :=
  ⟨"apply.batch_target_stale", "a target changed after batch planning"⟩

def verificationFailed : AtomicApplyBatchTransactionError :=
  ⟨"apply.batch_verification_failed",
    "atomic batch target or machine state failed exact verification"⟩

def recoveryBlocked : AtomicApplyBatchTransactionError :=
  ⟨"apply.batch_recovery_blocked", "atomic batch recovery authority is incomplete or changed"⟩

end AtomicApplyBatchTransactionError

open AtomicApplyBatchTransactionError

def maxControlBytes : Nat := 32 * 1024 * 1024

/-- The files of one batch: the manifest revision of the environment, the journal, the
machine state, and the destination, staging and backup of each participant. -/
structure BatchStore (τ C R : Type) where
  manifestRevision : Option R
  journal : Slots τ
  state : Slots τ
  targets : Nat → Slots C

namespace BatchStore

variable {τ C R : Type}

def journalFiles : Lens (BatchStore τ C R) (Slots τ) where
  get s := s.journal
  set files s := { s with journal := files }
  get_set _ _ := rfl
  set_get _ := rfl
  set_set _ _ _ := rfl

def stateFiles : Lens (BatchStore τ C R) (Slots τ) where
  get s := s.state
  set files s := { s with state := files }
  get_set _ _ := rfl
  set_get _ := rfl
  set_set _ _ _ := rfl

def targetFiles (index : Nat) : Lens (BatchStore τ C R) (Slots C) where
  get s := s.targets index
  set files s := { s with targets := Function.update s.targets index files }
  get_set _ _ := Function.update_self ..
  set_get s := by rw [Function.update_eq_self]
  set_set _ _ _ := by simp only [Function.update_idem]

variable {s : BatchStore τ C R} {files : Slots C} {texts : Slots τ} {i k : Nat}

@[simp] theorem targetFiles_get : (targetFiles i).get s = s.targets i := rfl

@[simp] theorem targetFiles_set_self : ((targetFiles i).set files s).targets i = files :=
  Function.update_self ..

theorem targetFiles_set_ne (h : k ≠ i) : ((targetFiles i).set files s).targets k = s.targets k :=
  Function.update_of_ne h ..

@[simp] theorem targetFiles_set_state : ((targetFiles i).set files s).state = s.state := rfl

@[simp] theorem stateFiles_get : stateFiles.get s = s.state := rfl

@[simp] theorem stateFiles_set_state : (stateFiles.set texts s).state = texts := rfl

@[simp] theorem stateFiles_set_targets : (stateFiles.set texts s).targets = s.targets := rfl

end BatchStore

structure AtomicApplyItem (C : Type) where
  kind : ParticipantKind
  disposition : StoredDisposition
  observed : Option C
  rendered : Option C

structure AtomicApplyBatchPlan (τ C R A : Type) where
  identity : A
  manifestRevision : R
  observedLocalStateText : τ
  proposedLocalStateText : τ
  items : List (AtomicApplyItem C)

/-- The stores a batch runs on, with its checks of authority that only read. -/
structure BatchEnvironment (τ C H R A : Type) where
  platform : TextPlatform τ
  format : BatchFormat H R A τ
  view : ContentView C H
  digest : τ → H
  revalidateLockedAuthority : AtomicApplyBatchPlan τ C R A → BatchStore τ C R → Bool
  verifyBatch : AtomicApplyBatchPlan τ C R A → BatchStore τ C R → Bool

abbrev BatchProgram (τ C R α : Type) :=
  Program (BatchStore τ C R) AtomicApplyBatchTransactionError α

structure AtomicApplyBatchJournalCursor (τ H R A : Type) where
  journal : AtomicApplyBatchJournal H R A
  encoded : τ

section Items

variable {τ C H R A : Type} (env : BatchEnvironment τ C H R A)

def observedTargetHash (item : AtomicApplyItem C) :
    Except AtomicApplyBatchJournalError (Option H) :=
  match item.observed with
  | none => .ok none
  | some content =>
    match env.view.hash content with
    | none => .error journalInvalid
    | some hash => .ok (some hash)

def proposedTargetHash (item : AtomicApplyItem C) : Except AtomicApplyBatchJournalError H :=
  if item.disposition = .remove then .ok env.format.absentTargetHash
  else
    match item.rendered.bind env.view.hash with
    | none => .error journalInvalid
    | some hash => .ok hash

def participantAuthority (item : AtomicApplyItem C) :
    Except AtomicApplyBatchJournalError (ParticipantAuthority H) := do
  let oldTargetHash ← observedTargetHash env item
  let newTargetHash ← proposedTargetHash env item
  pure ⟨item.kind, item.disposition, oldTargetHash, newTargetHash⟩

def initialJournal [DecidableEq H] (plan : AtomicApplyBatchPlan τ C R A) :
    Except AtomicApplyBatchJournalError (AtomicApplyBatchJournal H R A) := do
  let participants ← plan.items.mapM fun item => do
    let authority ← participantAuthority env item
    pure { authority with progress := ParticipantProgress.unstaged }
  let journal : AtomicApplyBatchJournal H R A :=
    { manifestRevision := plan.manifestRevision
      oldStateHash := env.digest plan.observedLocalStateText
      newStateHash := env.digest plan.proposedLocalStateText
      identity := plan.identity
      phase := .preparing
      participants := participants }
  validateJournal env.format journal
  pure journal

def newIdentity (item : AtomicApplyItem C) :
    Except AtomicApplyBatchTransactionError (ApplyTargetIdentity C H) :=
  match item.rendered with
  | none => .error staleManifest
  | some content =>
    match item.kind.target, env.view.hash content with
    | .skill, some hash => .ok (.skill hash)
    | .extension, some hash => .ok (.extension hash)
    | .exactText, _ => .ok (.exactText content)
    | _, none => .error staleManifest

/-- The identity of an item's old content, for an extension as captured where it stands. -/
def oldIdentity [DecidableEq H] (item : AtomicApplyItem C)
    (missing : AtomicApplyBatchTransactionError) (found : Option C) :
    Except AtomicApplyBatchTransactionError (ApplyTargetIdentity C H) :=
  match item.observed with
  | none => .error missing
  | some content =>
    match item.kind.target, env.view.hash content with
    | .skill, some hash => .ok (.skill hash)
    | .extension, some hash =>
      if found.bind env.view.hash = some hash then .ok (.extension hash) else .error missing
    | .exactText, _ => .ok (.exactText content)
    | _, none => .error missing

end Items

section Cursor

variable {τ C H R A : Type} [DecidableEq τ] [DecidableEq H] (env : BatchEnvironment τ C H R A)

namespace AtomicApplyBatchJournalCursor

/-- Writes the journal of a prepared plan where none is. -/
def install (plan : AtomicApplyBatchPlan τ C R A) :
    BatchProgram τ C R (AtomicApplyBatchJournalCursor τ H R A) := do
  let journal ← (Program.ofExcept (initialJournal env plan)).mapError fun _ => storageFailed
  let encoded ← (Program.ofExcept (journal.encoded env.platform.len env.format)).mapError
    fun _ => storageFailed
  (Program.zoom BatchStore.journalFiles
    (replaceTextAtomicallyGuarded env.platform none encoded maxBatchJournalBytes)).mapError
      fun _ => storageFailed
  pure ⟨journal, encoded⟩

def persistTransition (cursor : AtomicApplyBatchJournalCursor τ H R A)
    (transition : AtomicApplyBatchJournal H R A →
      Except AtomicApplyBatchJournalError (AtomicApplyBatchJournal H R A)) :
    BatchProgram τ C R (AtomicApplyBatchJournalCursor τ H R A) := do
  let next ← (Program.ofExcept (transition cursor.journal)).mapError fun _ => storageFailed
  let encoded ← (Program.ofExcept (next.encoded env.platform.len env.format)).mapError
    fun _ => storageFailed
  (Program.zoom BatchStore.journalFiles
    (replaceTextAtomicallyGuarded env.platform (some cursor.encoded) encoded
      maxBatchJournalBytes)).mapError fun _ => storageFailed
  pure ⟨next, encoded⟩

def transitionParticipant (cursor : AtomicApplyBatchJournalCursor τ H R A) (index : Nat)
    (progress : ParticipantProgress) :
    BatchProgram τ C R (AtomicApplyBatchJournalCursor τ H R A) :=
  persistTransition env cursor fun journal => journal.transitionParticipant index progress

def transitionPhase (cursor : AtomicApplyBatchJournalCursor τ H R A)
    (phase : AtomicApplyBatchPhase) :
    BatchProgram τ C R (AtomicApplyBatchJournalCursor τ H R A) :=
  persistTransition env cursor fun journal => journal.transitionPhase phase

omit [DecidableEq τ] [DecidableEq H] in
def removeTerminal (cursor : AtomicApplyBatchJournalCursor τ H R A) : BatchProgram τ C R Unit := do
  Program.require (cursor.journal.phase == .verified || cursor.journal.phase == .rolledBack)
    storageFailed
  Program.zoom BatchStore.journalFiles (Slots.remove .destination)
  Program.zoom BatchStore.journalFiles (Slots.remove .staging)

end AtomicApplyBatchJournalCursor

end Cursor

section Commit

variable {τ C H R A : Type} [DecidableEq τ] [DecidableEq C] [DecidableEq H]
  (env : BatchEnvironment τ C H R A)

open AtomicApplyBatchJournalCursor

/-- Runs a target operation on participant `index`, keeping nothing of its error. -/
def onTarget {α : Type} (index : Nat) (e : AtomicApplyBatchTransactionError)
    (m : TargetProgram C α) : BatchProgram τ C R α :=
  (Program.zoom (BatchStore.targetFiles index) m).mapError fun _ => e

def onState {α : Type} (e : AtomicApplyBatchTransactionError) (m : TextProgram τ α) :
    BatchProgram τ C R α :=
  (Program.zoom BatchStore.stateFiles m).mapError fun _ => e

def resetIncompleteStagedText (p : TextPlatform τ) (expected : τ) (maxBytes : Nat) :
    TextProgram τ Unit := do
  match ← readText p .staging maxBytes with
  | none => pure ()
  | some current => if current = expected then pure () else Slots.remove .staging

def stageTarget (item : AtomicApplyItem C) (index : Nat) : BatchProgram τ C R Unit := do
  if item.disposition.materializesTarget then
    let identity ← Program.ofExcept (newIdentity env item)
    match item.rendered with
    | none => Program.fail staleManifest
    | some content => onTarget index storageFailed (ApplyTarget.stage env.view content identity)
  else pure ()

def stageItem (cursor : AtomicApplyBatchJournalCursor τ H R A) (item : AtomicApplyItem C × Nat) :
    BatchProgram τ C R (AtomicApplyBatchJournalCursor τ H R A) := do
  let cursor ← cursor.transitionParticipant env item.2 .stagingPending
  stageTarget env item.1 item.2
  cursor.transitionParticipant env item.2 .prepared

def quarantineItem (cursor : AtomicApplyBatchJournalCursor τ H R A)
    (item : AtomicApplyItem C × Nat) :
    BatchProgram τ C R (AtomicApplyBatchJournalCursor τ H R A) := do
  if item.1.disposition.requiresQuarantine then
    let cursor ← cursor.transitionParticipant env item.2 .quarantinePending
    let found ← Program.inspect fun s => (s.targets item.2).destination
    let identity ← Program.ofExcept (oldIdentity env item.1 staleTarget found)
    onTarget item.2 storageFailed (ApplyTarget.quarantine env.view identity)
    cursor.transitionParticipant env item.2 .quarantined
  else
    pure cursor

def installItem (cursor : AtomicApplyBatchJournalCursor τ H R A)
    (item : AtomicApplyItem C × Nat) :
    BatchProgram τ C R (AtomicApplyBatchJournalCursor τ H R A) := do
  if item.1.disposition = .remove then
    let cursor ← cursor.transitionParticipant env item.2 .commitPending
    cursor.transitionParticipant env item.2 .committed
  else if item.1.disposition = .noOp then
    let identity ← Program.ofExcept (newIdentity env item.1)
    onTarget item.2 storageFailed (ApplyTarget.clearStaging env.view identity)
    cursor.transitionParticipant env item.2 .committed
  else
    let identity ← Program.ofExcept (newIdentity env item.1)
    let cursor ← cursor.transitionParticipant env item.2 .commitPending
    onTarget item.2 storageFailed (ApplyTarget.install env.view identity)
    cursor.transitionParticipant env item.2 .committed

def removeVerifiedBackup (item : AtomicApplyItem C) (index : Nat) : BatchProgram τ C R Unit := do
  if item.disposition.requiresQuarantine then
    let found ← Program.inspect fun s => (s.targets index).backup
    let identity ← Program.ofExcept (oldIdentity env item verificationFailed found)
    onTarget index storageFailed (ApplyTarget.removeExact env.view .backup identity)
  else pure ()

def clearVerifiedStaging (item : AtomicApplyItem C) (index : Nat) : BatchProgram τ C R Unit := do
  if item.disposition.materializesTarget then
    let identity ← Program.ofExcept (newIdentity env item)
    onTarget index storageFailed (ApplyTarget.clearStaging env.view identity)
  else pure ()

def cleanupVerifiedItem (item : AtomicApplyItem C × Nat) : BatchProgram τ C R Unit := do
  removeVerifiedBackup env item.1 item.2
  clearVerifiedStaging env item.1 item.2

def cleanupVerifiedBatch (plan : AtomicApplyBatchPlan τ C R A)
    (cursor : AtomicApplyBatchJournalCursor τ H R A) : BatchProgram τ C R Unit := do
  plan.items.zipIdx.foldlM (fun _ item => cleanupVerifiedItem env item) ()
  onState storageFailed (Slots.remove .staging)
  cursor.removeTerminal

/-- Commits every participant and the final machine state as one recoverable batch. -/
def commitLockedBatch (plan : AtomicApplyBatchPlan τ C R A) : BatchProgram τ C R Unit := do
  let cursor ← AtomicApplyBatchJournalCursor.install env plan
  let cursor ← plan.items.zipIdx.foldlM (stageItem env) cursor
  onState storageFailed
    (resetIncompleteStagedText env.platform plan.proposedLocalStateText maxControlBytes)
  onState storageFailed
    (stageText env.platform .staging plan.proposedLocalStateText maxControlBytes)
  let cursor ← cursor.transitionPhase env .prepared
  let current ← Program.inspect fun s => env.revalidateLockedAuthority plan s
  Program.require current staleManifest
  let cursor ← cursor.transitionPhase env .quarantiningOldTargets
  let cursor ← plan.items.zipIdx.foldlM (quarantineItem env) cursor
  let cursor ← cursor.transitionPhase env .oldTargetsQuarantined
  let cursor ← cursor.transitionPhase env .committingNewTargets
  let cursor ← plan.items.zipIdx.foldlM (installItem env) cursor
  let cursor ← cursor.transitionPhase env .newTargetsCommitted
  onState storageFailed
    (installStagedTextGuarded env.platform (some plan.observedLocalStateText)
      plan.proposedLocalStateText maxControlBytes)
  let cursor ← cursor.transitionPhase env .stateCommitted
  let verified ← Program.inspect fun s => env.verifyBatch plan s
  Program.require verified verificationFailed
  let cursor ← plan.items.zipIdx.foldlM
    (fun cursor item => cursor.transitionParticipant env item.2 .verified) cursor
  let cursor ← cursor.transitionPhase env .verified
  cleanupVerifiedBatch env plan cursor

end Commit

end Kitrove
