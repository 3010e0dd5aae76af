import Kitrove.Storage.GuardedJournalAtomicity

/-! The durable journal of an atomic apply batch: its phases, the progress of each
participant, the steps it may take, and the text it is stored as. -/

namespace Kitrove

open Crash

inductive AtomicApplyBatchPhase where
  | preparing
  | prepared
  | quarantiningOldTargets
  | oldTargetsQuarantined
  | committingNewTargets
  | newTargetsCommitted
  | stateCommitted
  | verified
  | rollingBack
  | rolledBack
  deriving DecidableEq, Repr

inductive ParticipantKind where
  | skill
  | extension
  | instruction
  | promptCommand
  | agent
  | mcp
  deriving DecidableEq, Repr

inductive StoredDisposition where
  | install
  | noOp
  | restore
  | managedUpdate
  | remove
  deriving DecidableEq, Repr

namespace StoredDisposition

def requiresQuarantine (d : StoredDisposition) : Bool := d == managedUpdate || d == remove

def materializesTarget (d : StoredDisposition) : Bool := d != remove

end StoredDisposition

inductive ParticipantProgress where
  | unstaged
  | stagingPending
  | prepared
  | quarantinePending
  | quarantined
  | commitPending
  | committed
  | verified
  | removePending
  | removed
  | restorePending
  | rolledBack
  deriving DecidableEq, Repr

structure AtomicApplyBatchJournalError where
  code : String
  message : String
  deriving DecidableEq, Repr

def journalInvalid : AtomicApplyBatchJournalError :=
  ⟨"apply.batch_journal_invalid", "atomic apply batch journal authority is invalid"⟩

def journalStorageFailed : AtomicApplyBatchJournalError :=
  ⟨"apply.batch_journal_storage_failed",
    "atomic apply batch journal could not be stored safely"⟩

def maxBatchParticipants : Nat := 4096

def maxBatchJournalBytes : Nat := 8 * 1024 * 1024

/-- What a participant's journal entry says apart from its progress. -/
structure ParticipantAuthority (H : Type) where
  kind : ParticipantKind
  disposition : StoredDisposition
  oldTargetHash : Option H
  newTargetHash : H
  deriving DecidableEq, Repr

structure BatchParticipantJournal (H : Type) extends ParticipantAuthority H where
  progress : ParticipantProgress
  deriving DecidableEq, Repr

/-- What a batch's journal says apart from its phase and its participants; `identity`
stands for the batch digest, the profile, and every path and asset the batch names. -/
structure BatchAuthority (H R A : Type) where
  manifestRevision : R
  oldStateHash : H
  newStateHash : H
  identity : A
  deriving DecidableEq, Repr

structure AtomicApplyBatchJournal (H R A : Type) extends BatchAuthority H R A where
  phase : AtomicApplyBatchPhase
  participants : List (BatchParticipantJournal H)
  deriving DecidableEq, Repr

def validPhaseTransition : AtomicApplyBatchPhase → AtomicApplyBatchPhase → Bool
  | .preparing, .prepared
  | .prepared, .quarantiningOldTargets
  | .quarantiningOldTargets, .oldTargetsQuarantined
  | .oldTargetsQuarantined, .committingNewTargets
  | .committingNewTargets, .newTargetsCommitted
  | .newTargetsCommitted, .stateCommitted
  | .stateCommitted, .verified
  | .preparing, .rollingBack
  | .prepared, .rollingBack
  | .quarantiningOldTargets, .rollingBack
  | .oldTargetsQuarantined, .rollingBack
  | .committingNewTargets, .rollingBack
  | .newTargetsCommitted, .rollingBack
  | .rollingBack, .rolledBack => true
  | _, _ => false

def validRollbackTransition (disposition : StoredDisposition) :
    ParticipantProgress → ParticipantProgress → Bool
  | .unstaged, .rolledBack | .stagingPending, .rolledBack | .prepared, .rolledBack => true
  | .commitPending, .removePending | .removePending, .removed | .committed, .removePending =>
    disposition != .noOp
  | .quarantinePending, .rolledBack => disposition.requiresQuarantine
  | .quarantinePending, .restorePending | .quarantined, .restorePending
  | .restorePending, .rolledBack => disposition.requiresQuarantine
  | .commitPending, .restorePending | .committed, .restorePending => disposition == .remove
  | .commitPending, .rolledBack => disposition == .install || disposition == .restore
  | .committed, .rolledBack => disposition == .noOp
  | .removed, .restorePending => disposition == .managedUpdate
  | .removed, .rolledBack => disposition != .managedUpdate
  | _, _ => false

def validParticipantTransition (phase : AtomicApplyBatchPhase) (disposition : StoredDisposition)
    (old next : ParticipantProgress) : Bool :=
  match phase with
  | .preparing =>
    match old, next with
    | .unstaged, .stagingPending | .stagingPending, .prepared => true
    | _, _ => false
  | .quarantiningOldTargets =>
    (match old, next with
      | .prepared, .quarantinePending | .quarantinePending, .quarantined => true
      | _, _ => false) && disposition.requiresQuarantine
  | .committingNewTargets =>
    (match old, next with
      | .prepared, .commitPending | .quarantined, .commitPending | .commitPending, .committed =>
        true
      | _, _ => false) ||
    (disposition == .noOp && old == .prepared && next == .committed)
  | .stateCommitted => old == .committed && next == .verified
  | .rollingBack => validRollbackTransition disposition old next
  | .prepared | .oldTargetsQuarantined | .newTargetsCommitted | .verified | .rolledBack => false

def validRollbackProgress (disposition : StoredDisposition) (progress : ParticipantProgress) :
    Bool :=
  match disposition with
  | .managedUpdate =>
    match progress with
    | .unstaged | .stagingPending | .prepared | .quarantinePending | .quarantined
    | .commitPending | .committed | .removePending | .removed | .restorePending
    | .rolledBack => true
    | _ => false
  | .remove =>
    match progress with
    | .unstaged | .stagingPending | .prepared | .quarantinePending | .quarantined
    | .commitPending | .committed | .restorePending | .rolledBack => true
    | _ => false
  | .install | .restore =>
    match progress with
    | .unstaged | .stagingPending | .prepared | .commitPending | .committed | .removePending
    | .removed | .rolledBack => true
    | _ => false
  | .noOp =>
    match progress with
    | .unstaged | .stagingPending | .prepared | .committed | .rolledBack => true
    | _ => false

def validProgress (phase : AtomicApplyBatchPhase) (disposition : StoredDisposition)
    (progress : ParticipantProgress) : Bool :=
  match phase with
  | .preparing => progress == .unstaged || progress == .stagingPending || progress == .prepared
  | .prepared => progress == .prepared
  | .quarantiningOldTargets =>
    progress == .prepared || progress == .quarantinePending || progress == .quarantined
  | .oldTargetsQuarantined =>
    match progress with
    | .quarantined => disposition.requiresQuarantine
    | .prepared => !disposition.requiresQuarantine
    | _ => false
  | .committingNewTargets =>
    progress == .prepared || progress == .quarantined || progress == .commitPending ||
      progress == .committed
  | .newTargetsCommitted | .stateCommitted => progress == .committed || progress == .verified
  | .verified => progress == .verified
  | .rollingBack => validRollbackProgress disposition progress
  | .rolledBack => progress == .rolledBack

/-- How journals are written as text and read back, and what the rest of a batch's
authority is checked against. -/
structure BatchFormat (H R A τ : Type) where
  encode : AtomicApplyBatchJournal H R A → τ
  decode : τ → Option (AtomicApplyBatchJournal H R A)
  decode_encode : ∀ journal, decode (encode journal) = some journal
  absentTargetHash : H
  validIdentity : BatchAuthority H R A → List (ParticipantAuthority H) → Bool

section Journal

variable {H R A τ : Type} [DecidableEq H]

def validHashAuthority (absent : H) (participant : ParticipantAuthority H) : Bool :=
  match participant.disposition with
  | .install | .restore => participant.oldTargetHash.isNone
  | .noOp => participant.oldTargetHash == some participant.newTargetHash
  | .managedUpdate => participant.oldTargetHash.any fun old => old != participant.newTargetHash
  | .remove =>
    (match participant.kind with
      | .skill | .extension | .promptCommand | .agent => true
      | .instruction | .mcp => false) &&
    participant.oldTargetHash.isSome && participant.newTargetHash == absent

def validateJournal (format : BatchFormat H R A τ) (journal : AtomicApplyBatchJournal H R A) :
    Except AtomicApplyBatchJournalError Unit :=
  if journal.participants.isEmpty || journal.participants.length > maxBatchParticipants then
    .error journalInvalid
  else if journal.participants.any fun participant =>
      !validHashAuthority format.absentTargetHash participant.toParticipantAuthority ||
        !validProgress journal.phase participant.disposition participant.progress then
    .error journalInvalid
  else if !format.validIdentity journal.toBatchAuthority
      (journal.participants.map (·.toParticipantAuthority)) then
    .error journalInvalid
  else
    .ok ()

def parseJournal (format : BatchFormat H R A τ) (encoded : τ) :
    Except AtomicApplyBatchJournalError (AtomicApplyBatchJournal H R A) :=
  match format.decode encoded with
  | none => .error journalInvalid
  | some journal => do
    validateJournal format journal
    pure journal

namespace AtomicApplyBatchJournal

def transitionPhase (journal : AtomicApplyBatchJournal H R A) (next : AtomicApplyBatchPhase) :
    Except AtomicApplyBatchJournalError (AtomicApplyBatchJournal H R A) :=
  if validPhaseTransition journal.phase next then .ok { journal with phase := next }
  else .error journalInvalid

def transitionParticipant (journal : AtomicApplyBatchJournal H R A) (index : Nat)
    (next : ParticipantProgress) :
    Except AtomicApplyBatchJournalError (AtomicApplyBatchJournal H R A) :=
  match journal.participants[index]? with
  | none => .error journalInvalid
  | some participant =>
    if validParticipantTransition journal.phase participant.disposition participant.progress
        next then
      .ok { journal with
        participants := journal.participants.set index { participant with progress := next } }
    else .error journalInvalid

def encoded (len : τ → Nat) (format : BatchFormat H R A τ)
    (journal : AtomicApplyBatchJournal H R A) : Except AtomicApplyBatchJournalError τ := do
  validateJournal format journal
  let text := format.encode journal
  if len text > maxBatchJournalBytes then .error journalInvalid else .ok text

end AtomicApplyBatchJournal

/-- The second list with each entry's progress taken over from the first. -/
def withProgress : List (BatchParticipantJournal H) → List (BatchParticipantJournal H) →
    List (BatchParticipantJournal H)
  | next :: nexts, participant :: participants =>
    { participant with progress := next.progress } :: withProgress nexts participants
  | _, participants => participants

variable [DecidableEq R] [DecidableEq A]

def sameTransitionAuthority (old next : AtomicApplyBatchJournal H R A) : Bool :=
  { old with
    phase := next.phase, participants := withProgress next.participants old.participants } == next

def validJournalTransition (old next : AtomicApplyBatchJournal H R A) : Bool :=
  if !sameTransitionAuthority old next then false
  else if old.phase ≠ next.phase then
    ((old.participants.zip next.participants).all fun pair =>
      pair.1.progress == pair.2.progress) && validPhaseTransition old.phase next.phase
  else
    match (old.participants.zip next.participants).filter fun pair =>
        pair.1.progress != pair.2.progress with
    | [(oldParticipant, nextParticipant)] =>
      validParticipantTransition old.phase oldParticipant.disposition oldParticipant.progress
        nextParticipant.progress
    | _ => false

/-- The journal format guarded replacement reads a batch journal with. -/
def batchJournalFormat (format : BatchFormat H R A τ) :
    JournalFormat τ (AtomicApplyBatchJournal H R A) AtomicApplyBatchJournalError :=
  ⟨parseJournal format, validJournalTransition, journalInvalid⟩

end Journal

end Kitrove
