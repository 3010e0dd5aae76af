import Kitrove.Batch.Atomicity

/-! Every journal a batch writes is valid and one step after the journal it replaces, and
only a journal over the size limit cannot be written. -/

namespace Kitrove

open Crash AtomicApplyBatchTransactionError

section Plans

variable {τ C H R A : Type} [DecidableEq H]

namespace AtomicApplyBatchJournal

def stageForward (journal : AtomicApplyBatchJournal H R A) (index : Nat) :
    Except AtomicApplyBatchJournalError (AtomicApplyBatchJournal H R A) := do
  let journal ← journal.transitionParticipant index .stagingPending
  journal.transitionParticipant index .prepared

def quarantineForward (journal : AtomicApplyBatchJournal H R A) (index : Nat) :
    Except AtomicApplyBatchJournalError (AtomicApplyBatchJournal H R A) := do
  if (journal.participants[index]?.any fun p => p.disposition.requiresQuarantine) then
    let journal ← journal.transitionParticipant index .quarantinePending
    journal.transitionParticipant index .quarantined
  else pure journal

def commitForward (journal : AtomicApplyBatchJournal H R A) (index : Nat) :
    Except AtomicApplyBatchJournalError (AtomicApplyBatchJournal H R A) := do
  if (journal.participants[index]?.any fun p => p.disposition == .noOp) then
    journal.transitionParticipant index .committed
  else
    let journal ← journal.transitionParticipant index .commitPending
    journal.transitionParticipant index .committed

def validateForwardPath (format : BatchFormat H R A τ) (journal : AtomicApplyBatchJournal H R A) :
    Except AtomicApplyBatchJournalError (AtomicApplyBatchJournal H R A) := do
  let indices := List.range journal.participants.length
  let journal ← indices.foldlM stageForward journal
  let journal ← journal.transitionPhase .prepared
  let journal ← journal.transitionPhase .quarantiningOldTargets
  let journal ← indices.foldlM quarantineForward journal
  let journal ← journal.transitionPhase .oldTargetsQuarantined
  let journal ← journal.transitionPhase .committingNewTargets
  let journal ← indices.foldlM commitForward journal
  let journal ← journal.transitionPhase .newTargetsCommitted
  let journal ← journal.transitionPhase .stateCommitted
  let journal ← indices.foldlM (fun journal index => journal.transitionParticipant index .verified)
    journal
  let journal ← journal.transitionPhase .verified
  validateJournal format journal
  pure journal

end AtomicApplyBatchJournal

/-- What planning checks of a batch's journal: its forward path, and the text at its end. -/
def validatePreparedPlan (env : BatchEnvironment τ C H R A) (plan : AtomicApplyBatchPlan τ C R A) :
    Except AtomicApplyBatchJournalError Unit := do
  let journal ← initialJournal env plan
  let journal ← journal.validateForwardPath env.format
  let _ ← journal.encoded env.platform.len env.format
  pure ()

end Plans

section Files

variable {τ C H R A : Type} [DecidableEq H] [DecidableEq R] [DecidableEq A]

/-- What the journal files hold: nothing, one valid journal, or a valid journal and the
valid journal one step later that is to replace it. -/
inductive JournalFiles (format : BatchFormat H R A τ) (files : Slots τ) : Prop
  | absent : files = ⟨none, none, none⟩ → JournalFiles format files
  | single (text : τ) (journal : AtomicApplyBatchJournal H R A) :
      parseJournal format text = .ok journal →
      (files = ⟨none, some text, none⟩ ∨ files = ⟨some text, none, none⟩) →
      JournalFiles format files
  | replacing (oldText newText : τ) (old new : AtomicApplyBatchJournal H R A) :
      parseJournal format oldText = .ok old → parseJournal format newText = .ok new →
      validJournalTransition old new = true →
      (files = ⟨some oldText, some newText, none⟩ ∨ files = ⟨some newText, some oldText, none⟩ ∨
        files = ⟨none, some newText, some oldText⟩ ∨
        files = ⟨some newText, none, some oldText⟩) →
      JournalFiles format files

variable [DecidableEq τ] [DecidableEq C] {b : PreparedBatch τ C H R A} {s : BatchStore τ C R}

omit [DecidableEq τ] [DecidableEq C] in
theorem PreparedBatch.Recoverable.journalFiles (h : b.Recoverable s) :
    JournalFiles b.env.format s.journal := by
  cases h with
  | settled cursor h => exact .single _ _ h.parsed (.inr h.files)
  | installing text hparse _ hfiles => exact .single _ _ hparse (.inl hfiles)
  | untouched hs => exact .absent (hs ▸ b.start_journal)
  | finished hfiles => exact .absent hfiles
  | between r hr =>
    have hreplacing := @JournalFiles.replacing _ _ _ _ _ _ _ b.env.format s.journal r.oldText
      r.newText r.old r.new r.parse_old r.parse_new r.valid
    generalize s.journal = files at hr hreplacing
    rcases hr with hr | hr
    · cases hr with
      | untouched => exact .single _ _ r.parse_old (.inr rfl)
      | displaced => exact hreplacing (.inr (.inr (.inl rfl)))
    · cases hr with
      | staged => exact hreplacing (.inl rfl)
      | exchanged => exact hreplacing (.inr (.inl rfl))
      | installed => exact hreplacing (.inr (.inr (.inr rfl)))
      | settled => exact .single _ _ r.parse_new (.inr rfl)

theorem PreparedBatch.recoverable_of_mem (b : PreparedBatch τ C H R A)
    {l k : List (BatchStore τ C R)}
    (hl : (commitLockedBatch b.env b.plan).Interrupted b.start l)
    (hk : (recoverAtomicApplyBatch b.env).Attempts (l.getLastD b.start) k) :
    ∀ t ∈ b.start :: (l ++ k), b.Recoverable t := by
  have hcommit := mem_of_isChain ((PreparedBatch.commitLockedBatch_upholds b).interrupted hl)
  have hstop : b.Recoverable (l.getLastD b.start) :=
    getLastD_of_forall (.untouched rfl) hcommit
  have hchain := hk.chain (G := fun _ _ => True) hstop fun t ht =>
    ⟨_, _, (PreparedBatch.recoverAtomicApplyBatch_upholds ht).mono (fun _ _ hu => ⟨trivial, hu⟩)
      (fun _ _ => id) (fun _ _ => id)⟩
  have hrecover := mem_of_isChain (hchain.imp fun _ _ hu => hu.2)
  intro t ht
  rcases List.mem_cons.mp ht with rfl | ht
  · exact .untouched rfl
  · rcases List.mem_append.mp ht with ht | ht
    · exact hcommit t ht
    · exact hrecover t ht

/-- In every run of a commit and of its recoveries, the journals written are valid and one
valid step apart, no chain of steps leads back, and the journal never fails a run from a
state in which every journal that may be written next is within the limit. -/
theorem batchJournal_steps (b : PreparedBatch τ C H R A) {l k : List (BatchStore τ C R)}
    (hl : (commitLockedBatch b.env b.plan).Interrupted b.start l)
    (hk : (recoverAtomicApplyBatch b.env).Attempts (l.getLastD b.start) k) :
    (∀ t ∈ b.start :: (l ++ k), JournalFiles b.env.format t.journal) ∧
    (∀ j j' : AtomicApplyBatchJournal H R A, j ≠ j' →
      ¬ (Relation.ReflTransGen (fun old next => validJournalTransition old next = true) j j' ∧
        Relation.ReflTransGen (fun old next => validJournalTransition old next = true) j' j)) ∧
    ((commitLockedBatch b.env b.plan b.start).result = .error storageFailed → b.Ready →
      ¬ b.Within ((commitLockedBatch b.env b.plan).final b.start)) ∧
    (∀ t ∈ b.start :: (l ++ k), (recoverAtomicApplyBatch b.env t).result = .error storageFailed →
      (∃ text ∈ t.state.destination, b.env.platform.len text ≤ maxControlBytes) →
      ¬ b.Within ((recoverAtomicApplyBatch b.env).final t)) := by
  have hall := b.recoverable_of_mem hl hk
  refine ⟨fun t ht => (hall t ht).journalFiles, fun _ _ => validJournalTransition_acyclic,
    fun hr hready => ?_, fun t ht hr hreadable => ?_⟩
  · have hrefused := (PreparedBatch.commitLockedBatch_upholds b).failed hr
    exact (hrefused rfl).resolve_right fun hno => hno hready
  · have hblocked := (PreparedBatch.recoverAtomicApplyBatch_upholds (hall t ht)).failed hr
    obtain ⟨text, htext, hlen⟩ := hreadable
    cases hblocked with
    | journal hno => exact hno
    | state _ hno => exact absurd hlen (hno text htext)
    | staged he => exact absurd he (by decide)

end Files

section Sample

/-- The sample commit is stopped once the machine state is installed, and its recovery once. -/
theorem batchJournal_steps_sample :
    ((sampleBatch true).start :: (sampleStop true 57 ++ sampleRecovery true 57 3)).Forall fun t =>
      JournalFiles (sampleBatch true).env.format t.journal := by
  rw [List.forall_iff_forall_mem]
  exact (batchJournal_steps (sampleBatch true) (sampleStop_interrupted true 57)
    (sampleRecovery_attempts true 57 3)).1

/-- How a phase is written in the journal's text. -/
def AtomicApplyBatchPhase.text : AtomicApplyBatchPhase → String
  | .preparing => "preparing"
  | .prepared => "prepared"
  | .quarantiningOldTargets => "quarantining_old_targets"
  | .oldTargetsQuarantined => "old_targets_quarantined"
  | .committingNewTargets => "committing_new_targets"
  | .newTargetsCommitted => "new_targets_committed"
  | .stateCommitted => "state_committed"
  | .verified => "verified"
  | .rollingBack => "rolling_back"
  | .rolledBack => "rolled_back"

def ParticipantProgress.text : ParticipantProgress → String
  | .unstaged => "unstaged"
  | .stagingPending => "staging_pending"
  | .prepared => "prepared"
  | .quarantinePending => "quarantine_pending"
  | .quarantined => "quarantined"
  | .commitPending => "commit_pending"
  | .committed => "committed"
  | .verified => "verified"
  | .removePending => "remove_pending"
  | .removed => "removed"
  | .restorePending => "restore_pending"
  | .rolledBack => "rolled_back"

/-- The bytes of a journal's text whose authority alone takes `authorityBytes`. -/
def journalBytes (authorityBytes : Nat) : SampleText → Nat
  | .journal j =>
    authorityBytes + j.phase.text.utf8ByteSize +
      (j.participants.map fun p => p.progress.text.utf8ByteSize).sum
  | .state _ => 0

/-- The sample batch with so many bytes of paths that its first journal has 8 MiB. -/
def longBatch : PreparedBatch SampleText Nat Nat Nat Unit :=
  { sampleBatch true with
    env := { sampleEnvironment true with
      platform := ⟨journalBytes (maxBatchJournalBytes - 25), true⟩ }
    initial := by decide +kernel }

/-- Planning accepts the batch, and its first journal is written; the next one is valid and
one valid step away, but it is over the limit, and neither the commit nor a recovery goes on. -/
theorem longBatch_stuck :
    validatePreparedPlan longBatch.env longBatch.plan = .ok () ∧
    (commitLockedBatch longBatch.env longBatch.plan longBatch.start).result =
      .error storageFailed ∧
    ((commitLockedBatch longBatch.env longBatch.plan).final longBatch.start).journal =
      ⟨some (.journal sampleJournal), none, none⟩ ∧
    (∃ next, sampleJournal.transitionParticipant 0 .stagingPending = .ok next ∧
      validateJournal longBatch.env.format next = .ok () ∧
      validJournalTransition sampleJournal next = true ∧
      next.encoded longBatch.env.platform.len longBatch.env.format = .error journalInvalid) ∧
    (recoverAtomicApplyBatch longBatch.env
      ((commitLockedBatch longBatch.env longBatch.plan).final longBatch.start)).result =
        .error storageFailed := by
  refine ⟨by decide +kernel, by decide +kernel, by decide +kernel, ?_, by decide +kernel⟩
  let staging : BatchParticipantJournal Nat :=
    ⟨⟨.instruction, .managedUpdate, some 1, 2⟩, .stagingPending⟩
  refine ⟨{ sampleJournal with participants := sampleJournal.participants.set 0 staging }, ?_⟩
  decide +kernel

end Sample

end Kitrove
