import Kitrove.Batch.Recovery

/-! What the files of a batch may hold when its journal says how far it has come. -/

namespace Kitrove

open Crash

section Participants

variable {C : Type}

/-- The content a batch leaves at an item's destination. -/
def AtomicApplyItem.new (item : AtomicApplyItem C) : Option C :=
  if item.disposition = .remove then none else item.rendered

/-- The content a batch holds in an item's backup once its destination is quarantined. -/
def AtomicApplyItem.held (item : AtomicApplyItem C) : Option C :=
  if item.disposition.requiresQuarantine then item.observed else none

def PhaseAllows (phase : AtomicApplyBatchPhase) (d : StoredDisposition)
    (progress : ParticipantProgress) : Prop :=
  match phase with
  | .preparing => progress = .unstaged ∨ progress = .stagingPending ∨ progress = .prepared
  | .prepared => progress = .prepared
  | .quarantiningOldTargets =>
    progress = .prepared ∨
      (d.requiresQuarantine = true ∧ (progress = .quarantinePending ∨ progress = .quarantined))
  | .oldTargetsQuarantined =>
    progress = if d.requiresQuarantine then .quarantined else .prepared
  | .committingNewTargets =>
    progress = .committed ∨ (progress = .commitPending ∧ d ≠ .noOp) ∨
      progress = if d.requiresQuarantine then .quarantined else .prepared
  | .newTargetsCommitted => progress = .committed
  | .stateCommitted => progress = .committed ∨ progress = .verified
  | .verified => progress = .verified
  | .rollingBack => validRollbackProgress d progress = true
  | .rolledBack => progress = .rolledBack

instance (phase : AtomicApplyBatchPhase) (d : StoredDisposition)
    (progress : ParticipantProgress) : Decidable (PhaseAllows phase d progress) := by
  unfold PhaseAllows
  split <;> infer_instance

/-- Once an item is prepared its staging path holds nothing or the whole new content. -/
def Staged (item : AtomicApplyItem C) (staging : Option C) : Prop :=
  staging = none ∨ staging = item.new

/-- What the destination and the backup of an item hold at a progress. -/
def Displaced (item : AtomicApplyItem C) (progress : ParticipantProgress)
    (destination backup : Option C) : Prop :=
  match progress with
  | .unstaged | .stagingPending | .prepared | .rolledBack =>
    destination = item.observed ∧ backup = none
  | .quarantinePending | .restorePending =>
    (destination = item.observed ∧ backup = none) ∨ (destination = none ∧ backup = item.observed)
  | .quarantined => destination = none ∧ backup = item.observed
  | .commitPending | .removePending =>
    (destination = none ∨ destination = item.new) ∧ backup = item.held
  | .committed => destination = item.new ∧ backup = item.held
  | .verified => destination = item.new ∧ (backup = none ∨ backup = item.held)
  | .removed => destination = none ∧ backup = item.held

/-- What the three paths of an item hold at a progress. -/
def SlotsConsistent (item : AtomicApplyItem C) (progress : ParticipantProgress)
    (s : Slots C) : Prop :=
  Displaced item progress s.destination s.backup ∧
    match progress with
    | .unstaged | .stagingPending | .rolledBack => item.disposition = .remove → s.staging = none
    | _ => Staged item s.staging

variable {item : AtomicApplyItem C} {progress : ParticipantProgress} {s : Slots C}

theorem SlotsConsistent.clear_staging (h : SlotsConsistent item progress s) :
    SlotsConsistent item progress { s with staging := none } := by
  refine ⟨h.1, ?_⟩
  cases progress with
  | unstaged | stagingPending | rolledBack => exact fun _ => rfl
  | _ => exact .inl rfl

theorem SlotsConsistent.remove_staging (h : SlotsConsistent item progress s)
    (hd : item.disposition = .remove) : s.staging = none := by
  have hnew : item.new = none := if_pos hd
  obtain ⟨-, h⟩ := h
  cases progress with
  | unstaged | stagingPending | rolledBack => exact h hd
  | _ => exact h.elim id fun h => h.trans hnew

end Participants

section States

variable {τ : Type}

/-- What the machine state and its staging and backup hold in a phase. -/
def StateConsistent (old new : τ) (phase : AtomicApplyBatchPhase) (s : Slots τ) : Prop :=
  match phase with
  | .newTargetsCommitted =>
    (s.destination = some old ∧ (s.staging = none ∨ s.staging = some new) ∧ s.backup = none) ∨
    (old ≠ new ∧ (s = ⟨some new, some old, none⟩ ∨ s = ⟨some new, none, none⟩ ∨
      s = ⟨none, some new, some old⟩ ∨ s = ⟨some new, none, some old⟩))
  | .stateCommitted | .verified =>
    s.destination = some new ∧
      ((s.staging = none ∧ (s.backup = none ∨ s.backup = some old)) ∨
        (s.staging = some old ∧ s.backup = none))
  | .preparing | .rollingBack | .rolledBack => s.destination = some old ∧ s.backup = none
  | _ => s.destination = some old ∧ (s.staging = none ∨ s.staging = some new) ∧ s.backup = none

end States

/-- A plan whose journal was prepared and the files it starts from, on stores whose hashes
tell the contents and texts of the plan apart. -/
structure PreparedBatch (τ C H R A : Type) [DecidableEq H] where
  env : BatchEnvironment τ C H R A
  plan : AtomicApplyBatchPlan τ C R A
  start : BatchStore τ C R
  journal : AtomicApplyBatchJournal H R A
  initial : initialJournal env plan = .ok journal
  start_journal : start.journal = ⟨none, none, none⟩
  start_revision : start.manifestRevision = some plan.manifestRevision
  start_target : ∀ i item, plan.items[i]? = some item →
    (start.targets i).destination = item.observed ∧ (start.targets i).backup = none ∧
      (item.disposition = .remove → (start.targets i).staging = none)
  start_state : start.state.destination = some plan.observedLocalStateText ∧
    start.state.backup = none
  noOp_content : ∀ item ∈ plan.items, ∀ old ∈ item.observed, ∀ new ∈ item.rendered,
    env.view.hash old = env.view.hash new → old = new
  state_text : env.digest plan.observedLocalStateText = env.digest plan.proposedLocalStateText →
    plan.observedLocalStateText = plan.proposedLocalStateText

/-- A participant's journal entry describes its item. -/
structure Describes {C H : Type} [DecidableEq H] (view : ContentView C H) (absent : H)
    (item : AtomicApplyItem C) (participant : ParticipantAuthority H) : Prop where
  kind : participant.kind = item.kind
  disposition : participant.disposition = item.disposition
  old : participant.oldTargetHash = item.observed.bind view.hash
  old_readable : ∀ content ∈ item.observed, (view.hash content).isSome = true
  new : item.disposition ≠ .remove →
    ∃ content, item.rendered = some content ∧ view.hash content = some participant.newTargetHash
  valid : validHashAuthority absent participant = true

namespace PreparedBatch

variable {τ C H R A : Type} [DecidableEq H] (b : PreparedBatch τ C H R A)

/-- A journal of the batch: its phase and its participants' progress may have changed. -/
def Owns (j : AtomicApplyBatchJournal H R A) : Prop :=
  j.toBatchAuthority = b.journal.toBatchAuthority ∧
    j.participants.map (·.toParticipantAuthority) =
      b.journal.participants.map (·.toParticipantAuthority)

/-- The files are as the journal says. -/
structure Consistent (j : AtomicApplyBatchJournal H R A) (s : BatchStore τ C R) : Prop where
  owns : b.Owns j
  revision : s.manifestRevision = some b.plan.manifestRevision
  participant : ∀ i p item, j.participants[i]? = some p → b.plan.items[i]? = some item →
    PhaseAllows j.phase p.disposition p.progress ∧
      SlotsConsistent item p.progress (s.targets i)
  state : StateConsistent b.plan.observedLocalStateText b.plan.proposedLocalStateText j.phase
    s.state

/-- Every journal and state text of the batch is within the limit of its store. -/
structure Fits : Prop where
  journal : ∀ j, b.Owns j →
    b.env.platform.len (b.env.format.encode j) ≤ maxBatchJournalBytes
  observed : b.env.platform.len b.plan.observedLocalStateText ≤ maxControlBytes
  proposed : b.env.platform.len b.plan.proposedLocalStateText ≤ maxControlBytes

/-- The participants' staging and backup paths and the staged machine state are gone. -/
structure Swept (s : BatchStore τ C R) : Prop where
  target : ∀ i item, b.plan.items[i]? = some item →
    (s.targets i).staging = none ∧ (s.targets i).backup = none
  state : s.state.staging = none

/-- Every destination and the machine state are as before the batch. -/
def AllOld (s : BatchStore τ C R) : Prop :=
  (∀ i item, b.plan.items[i]? = some item → (s.targets i).destination = item.observed) ∧
    s.state.destination = some b.plan.observedLocalStateText

/-- Every destination and the machine state are as the batch proposes. -/
def AllNew (s : BatchStore τ C R) : Prop :=
  (∀ i item, b.plan.items[i]? = some item → (s.targets i).destination = item.new) ∧
    s.state.destination = some b.plan.proposedLocalStateText

end PreparedBatch

end Kitrove
