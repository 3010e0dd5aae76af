import Kitrove.Batch.RecoveryStops

/-! An atomic apply batch is all or nothing wherever its commit and its recoveries stop,
and when a stopped batch can be recovered at all. -/

namespace Kitrove

open Crash

section Results

variable {τ C H R A : Type} [DecidableEq τ] [DecidableEq C] [DecidableEq H] [DecidableEq R]
  [DecidableEq A]

namespace PreparedBatch

variable {b : PreparedBatch τ C H R A} {l k : List (BatchStore τ C R)}

theorem recoverable_of_stopped (b : PreparedBatch τ C H R A)
    (hl : (commitLockedBatch b.env b.plan).Interrupted b.start l)
    (hk : (recoverAtomicApplyBatch b.env).Attempts (l.getLastD b.start) k) :
    b.Recoverable (k.getLastD (l.getLastD b.start)) := by
  have hcommit := mem_of_isChain ((commitLockedBatch_upholds b).interrupted hl)
  refine hk.invariant (getLastD_of_forall (.untouched rfl) hcommit) fun t ht => ?_
  exact ⟨_, _, recoverAtomicApplyBatch_upholds ht⟩

end PreparedBatch

/-- Wherever a commit stops and however often a recovery is stopped after it, a recovery
that reports an outcome leaves every destination and the machine state on one side. -/
theorem atomicApplyBatch_all_or_nothing (b : PreparedBatch τ C H R A)
    {l k : List (BatchStore τ C R)} {outcome : AtomicApplyBatchRecoveryOutcome}
    (hl : (commitLockedBatch b.env b.plan).Interrupted b.start l)
    (hk : (recoverAtomicApplyBatch b.env).Attempts (l.getLastD b.start) k)
    (hr : (recoverAtomicApplyBatch b.env (k.getLastD (l.getLastD b.start))).result = .ok outcome) :
    let s := (recoverAtomicApplyBatch b.env).final (k.getLastD (l.getLastD b.start))
    (outcome = .completed → b.AllNew s) ∧ (outcome = .rolledBack → b.AllOld s) ∧
      (b.AllOld s ∨ b.AllNew s) := by
  have hsettles := (PreparedBatch.recoverAtomicApplyBatch_upholds
    (b.recoverable_of_stopped hl hk)).returned hr
  cases outcome with
  | noJournal =>
    obtain ⟨-, -, -, hside⟩ := hsettles
    exact ⟨nofun, nofun, hside⟩
  | completed => exact ⟨fun _ => hsettles.2, nofun, .inr hsettles.2⟩
  | rolledBack => exact ⟨nofun, fun _ => hsettles.2, .inl hsettles.2⟩

end Results

section Sample

inductive SampleText where
  | journal (j : AtomicApplyBatchJournal Nat Nat Unit)
  | state (revision : Nat)
  deriving DecidableEq

def sampleFormat : BatchFormat Nat Nat Unit SampleText where
  encode := .journal
  decode
    | .journal j => some j
    | .state _ => none
  decode_encode _ := rfl
  absentTargetHash := 0
  validIdentity _ _ := true

def sampleEnvironment (exchange : Bool) : BatchEnvironment SampleText Nat Nat Nat Unit where
  platform := ⟨fun _ => 0, exchange⟩
  format := sampleFormat
  view := ⟨some, fun _ => false, fun content => [content + 100]⟩
  digest
    | .journal _ => 0
    | .state revision => revision
  revalidateLockedAuthority _ _ := true
  verifyBatch _ _ := true

def samplePlan : AtomicApplyBatchPlan SampleText Nat Nat Unit where
  identity := ()
  manifestRevision := 7
  observedLocalStateText := .state 10
  proposedLocalStateText := .state 11
  items := [⟨.instruction, .managedUpdate, some 1, some 2⟩, ⟨.skill, .install, none, some 3⟩]

def sampleStart : BatchStore SampleText Nat Nat where
  manifestRevision := some 7
  journal := ⟨none, none, none⟩
  state := ⟨some (.state 10), none, none⟩
  targets i := ⟨if i = 0 then some 1 else none, none, none⟩

def sampleJournal : AtomicApplyBatchJournal Nat Nat Unit where
  manifestRevision := 7
  oldStateHash := 10
  newStateHash := 11
  identity := ()
  phase := .preparing
  participants :=
    [⟨⟨.instruction, .managedUpdate, some 1, 2⟩, .unstaged⟩,
      ⟨⟨.skill, .install, none, 3⟩, .unstaged⟩]

/-- A batch that updates an instruction and installs a skill. -/
def sampleBatch (exchange : Bool) : PreparedBatch SampleText Nat Nat Nat Unit where
  env := sampleEnvironment exchange
  plan := samplePlan
  start := sampleStart
  journal := sampleJournal
  initial := by cases exchange <;> rfl
  start_journal := rfl
  start_revision := rfl
  start_target i item hi := by
    match i, hi with
    | 0, h => cases h; exact ⟨rfl, rfl, nofun⟩
    | 1, h => cases h; exact ⟨rfl, rfl, nofun⟩
  start_state := ⟨rfl, rfl⟩
  noOp_content := by simp [sampleEnvironment]
  state_text h := absurd h (by cases exchange <;> decide)

/-- The states the sample commit passes before it is stopped. -/
def sampleStop (exchange : Bool) (steps : Nat) : List (BatchStore SampleText Nat Nat) :=
  (commitLockedBatch (sampleBatch exchange).env (sampleBatch exchange).plan
    (sampleBatch exchange).start).visited.take steps

def sampleCrash (exchange : Bool) (steps : Nat) : BatchStore SampleText Nat Nat :=
  (sampleStop exchange steps).getLastD (sampleBatch exchange).start

/-- The states a recovery after that passes before it is stopped in turn. -/
def sampleRecovery (exchange : Bool) (steps more : Nat) :
    List (BatchStore SampleText Nat Nat) :=
  (recoverAtomicApplyBatch (sampleBatch exchange).env
    (sampleCrash exchange steps)).visited.take more

theorem sampleStop_interrupted (exchange : Bool) (steps : Nat) :
    (commitLockedBatch (sampleBatch exchange).env (sampleBatch exchange).plan).Interrupted
      (sampleBatch exchange).start (sampleStop exchange steps) :=
  List.take_prefix _ _

theorem sampleRecovery_attempts (exchange : Bool) (steps more : Nat) :
    (recoverAtomicApplyBatch (sampleBatch exchange).env).Attempts
      ((sampleStop exchange steps).getLastD (sampleBatch exchange).start)
      (sampleRecovery exchange steps more) :=
  .once (List.take_prefix _ _)

theorem sampleBatch_fits (exchange : Bool) : (sampleBatch exchange).Fits :=
  ⟨fun _ _ => Nat.zero_le _, Nat.zero_le _, Nat.zero_le _⟩

theorem sampleBatch_fresh (exchange : Bool) :
    (sampleBatch exchange).Swept (sampleBatch exchange).start :=
  ⟨fun _ _ _ => ⟨rfl, rfl⟩, rfl⟩

/-- The commit is stopped after the machine state was installed, and its recovery once more. -/
theorem atomicApplyBatch_all_or_nothing_sample :
    (sampleBatch true).AllNew ((recoverAtomicApplyBatch (sampleBatch true).env).final
      ((sampleRecovery true 57 3).getLastD
        ((sampleStop true 57).getLastD (sampleBatch true).start))) :=
  have hr : (recoverAtomicApplyBatch (sampleBatch true).env ((sampleRecovery true 57 3).getLastD
      ((sampleStop true 57).getLastD (sampleBatch true).start))).result = .ok .completed := by
    decide +kernel
  (atomicApplyBatch_all_or_nothing (sampleBatch true) (sampleStop_interrupted true 57)
    (sampleRecovery_attempts true 57 3) hr).1 rfl

end Sample

section Settling

variable {τ C H R A : Type} [DecidableEq τ] [DecidableEq C] [DecidableEq H] [DecidableEq R]
  [DecidableEq A]

end Settling

theorem sampleCrash_clear : (sampleBatch true).Clear (sampleCrash true 57) := by
  have hstate : (sampleCrash true 57).state = ⟨some (.state 11), none, none⟩ := by decide +kernel
  have hfirst : ((sampleCrash true 57).targets 0).staging = none := by decide +kernel
  have hsecond : ((sampleCrash true 57).targets 1).staging = none := by decide +kernel
  generalize sampleCrash true 57 = s at hstate hfirst hsecond
  refine ⟨fun i item hi staged hs => ?_, fun staged hs => ?_, by rw [hstate]⟩
  · match i, hi with
    | 0, _ => simp [hfirst] at hs
    | 1, _ => simp [hsecond] at hs
  · simp [hstate] at hs

end Kitrove
