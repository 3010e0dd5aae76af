import Kitrove.Batch.Journal

/-! The destination, staging and backup of one batch participant, and the operations
that stage, install, quarantine, restore and remove its content. -/

namespace Kitrove

open Crash ObjectMutationError

namespace ObjectMutationError

def unsafePath : ObjectMutationError :=
  ⟨"object.unsafe_path", "object path contains an unsafe filesystem entry"⟩

end ObjectMutationError

/-- What a store sees of the files and trees it handles: the hash a capture of one has,
if it can be captured, whether it holds executables, and the partial trees that writing
it passes through. -/
structure ContentView (C H : Type) where
  hash : C → Option H
  hasExecutable : C → Bool
  partials : C → List C

inductive TargetKind where
  | skill
  | extension
  | exactText
  deriving DecidableEq, Repr

def ParticipantKind.target : ParticipantKind → TargetKind
  | .skill => .skill
  | .extension => .extension
  | .instruction | .promptCommand | .agent | .mcp => .exactText

/-- Exact target identity shared by the operations below. -/
inductive ApplyTargetIdentity (C H : Type) where
  | skill (renderedHash : H)
  | extension (objectHash : H)
  | exactText (content : C)

/-- The content an identity stands for. -/
def ApplyTargetIdentity.Names {C H : Type} (view : ContentView C H) (content : C) :
    ApplyTargetIdentity C H → Prop
  | .skill hash | .extension hash => view.hash content = some hash
  | .exactText expected => content = expected

inductive RenderedState where
  | missing
  | exact
  | different
  | unsafeEntry
  deriving DecidableEq, Repr

abbrev TargetProgram (C α : Type) := Program (Slots C) ObjectMutationError α

namespace ApplyTarget

variable {C H : Type} (view : ContentView C H)

section Reading

variable [DecidableEq H]

def classify (expected : H) : Option C → RenderedState
  | none => .missing
  | some content =>
    match view.hash content with
    | none => .unsafeEntry
    | some actual => if actual = expected then .exact else .different

/-- `inspect_rendered_directory` and `inspect_extension_target`. -/
def inspectTarget (path : SlotName) (expected : H) : TargetProgram C RenderedState :=
  Program.inspect fun s => classify view expected (s.get path)

end Reading

def readExactText (path : SlotName) : TargetProgram C (Option C) := do
  let content ← Program.inspect (·.get path)
  Program.require (content.all fun text => (view.hash text).isSome) controlFileInvalid
  pure content

variable [DecidableEq C] [DecidableEq H]

def removeExactRenderedDirectory (path : SlotName) (expected : H) : TargetProgram C Unit := do
  let content ← Program.inspect (·.get path)
  match content with
  | none => pure ()
  | some tombstone =>
    Slots.remove path
    if classify view expected (some tombstone) = .exact then pure ()
    else do
      let restored ← Program.inspect fun s => (s.get path).isNone
      if restored then Slots.write path tombstone
      Program.fail preconditionFailed

def removeExactExtensionTarget (path : SlotName) (expected : H) : TargetProgram C Unit := do
  match ← inspectTarget view path expected with
  | .missing => pure ()
  | .exact => Slots.remove path
  | .different => Program.fail existingConflict
  | .unsafeEntry => Program.fail unsafePath

def removeRegularFileIfMatches (path : SlotName) (content : C) : TargetProgram C Unit := do
  let found ← Program.inspect (·.get path)
  match found with
  | none => pure ()
  | some actual =>
    Program.require (actual == content) existingConflict
    Slots.remove path

def removeExact (path : SlotName) : ApplyTargetIdentity C H → TargetProgram C Unit
  | .skill hash => removeExactRenderedDirectory view path hash
  | .extension hash => removeExactExtensionTarget view path hash
  | .exactText content => removeRegularFileIfMatches path content

/-- `clear_rendered_staging` and `clear_extension_target_staging`. -/
def clearRenderedStaging (expected : H) (remove : TargetProgram C Unit) : TargetProgram C Unit := do
  match ← inspectTarget view .staging expected with
  | .missing => pure ()
  | .unsafeEntry => Program.fail unsafePath
  | .exact => remove
  | .different => Program.fail existingConflict

def clearStaging : ApplyTargetIdentity C H → TargetProgram C Unit
  | .skill hash =>
    clearRenderedStaging view hash (removeExactRenderedDirectory view .staging hash)
  | .extension hash =>
    clearRenderedStaging view hash (removeExactExtensionTarget view .staging hash)
  | .exactText content => removeRegularFileIfMatches .staging content

/-- Writes a tree file by file, so that a stopped write leaves a partial tree. -/
def writeTree (content : C) : TargetProgram C Unit := do
  forM (view.partials content) (Slots.write .staging)
  Slots.write .staging content

def stageRenderedDirectory (content : C) (expected : H) : TargetProgram C Unit := do
  clearStaging view (.skill expected)
  Program.require (!view.hasExecutable content) invalidStage
  writeTree view content
  let state ← inspectTarget view .staging expected
  Program.require (state == .exact) verificationFailed

def stageExtensionTarget (content : C) (expected : H) : TargetProgram C Unit := do
  clearStaging view (.extension expected)
  writeTree view content
  let state ← inspectTarget view .staging expected
  Program.require (state == .exact) verificationFailed

def stageTextWithMode (content : C) : TargetProgram C Unit := do
  match ← readExactText view .staging with
  | some existing => Program.require (existing == content) existingConflict
  | none => Slots.write .staging content

def stage (content : C) : ApplyTargetIdentity C H → TargetProgram C Unit
  | .skill hash => stageRenderedDirectory view content hash
  | .extension hash => stageExtensionTarget view content hash
  | .exactText _ => stageTextWithMode view content

def installRenderedDirectory (expected : H) : TargetProgram C Unit := do
  let destination ← inspectTarget view .destination expected
  Program.require (destination == .missing) preconditionFailed
  let moved ← Slots.moveNoreplace .staging .destination
  Program.require moved preconditionFailed
  let installed ← inspectTarget view .destination expected
  if installed ≠ .exact then
    Slots.remove .destination
    Program.fail preconditionFailed

def installExtensionTarget (expected : H) : TargetProgram C Unit := do
  let destination ← inspectTarget view .destination expected
  Program.require (destination == .missing) preconditionFailed
  let moved ← Slots.moveNoreplace .staging .destination
  Program.require moved preconditionFailed
  let installed ← inspectTarget view .destination expected
  Program.require (installed == .exact) verificationFailed

def installStagedExactText (content : C) : TargetProgram C Unit := do
  let staged ← readExactText view .staging
  Program.require (staged == some content) preconditionFailed
  let destination ← readExactText view .destination
  Program.require destination.isNone preconditionFailed
  let moved ← Slots.moveNoreplace .staging .destination
  Program.require moved preconditionFailed
  let installed ← readExactText view .destination
  Program.require (installed == some content) verificationFailed

def install : ApplyTargetIdentity C H → TargetProgram C Unit
  | .skill hash => installRenderedDirectory view hash
  | .extension hash => installExtensionTarget view hash
  | .exactText content => installStagedExactText view content

/-- What a quarantine does once the destination has been moved to the backup. -/
def confirmQuarantine (exact : Bool) (destinationMissing : TargetProgram C Bool) :
    TargetProgram C Unit := do
  if exact then pure ()
  else do
    let missing ← destinationMissing
    if missing then
      let moved ← Slots.moveNoreplace .backup .destination
      Program.require moved preconditionFailed
    Program.fail preconditionFailed

def quarantineRenderedDirectory (expected : H) : TargetProgram C Unit := do
  let backup ← inspectTarget view .backup expected
  Program.require (backup == .missing) preconditionFailed
  let moved ← Slots.moveNoreplace .destination .backup
  Program.require moved preconditionFailed
  let displaced ← inspectTarget view .backup expected
  confirmQuarantine (displaced == .exact)
    ((· == .missing) <$> inspectTarget view .destination expected)

def quarantineExtensionTarget (expected : H) : TargetProgram C Unit := do
  let backup ← inspectTarget view .backup expected
  Program.require (backup == .missing) preconditionFailed
  let destination ← inspectTarget view .destination expected
  Program.require (destination == .exact) preconditionFailed
  let moved ← Slots.moveNoreplace .destination .backup
  Program.require moved preconditionFailed
  let displaced ← inspectTarget view .backup expected
  confirmQuarantine (displaced == .exact)
    ((· == .missing) <$> inspectTarget view .destination expected)

def quarantineExactText (content : C) : TargetProgram C Unit := do
  let backup ← readExactText view .backup
  Program.require backup.isNone preconditionFailed
  let destination ← readExactText view .destination
  Program.require (destination == some content) preconditionFailed
  let moved ← Slots.moveNoreplace .destination .backup
  Program.require moved preconditionFailed
  let displaced ← readExactText view .backup
  confirmQuarantine (displaced == some content) (Option.isNone <$> readExactText view .destination)

def quarantine : ApplyTargetIdentity C H → TargetProgram C Unit
  | .skill hash => quarantineRenderedDirectory view hash
  | .extension hash => quarantineExtensionTarget view hash
  | .exactText content => quarantineExactText view content

def restoreQuarantinedRenderedDirectory (expected : H) : TargetProgram C Unit := do
  let destination ← inspectTarget view .destination expected
  Program.require (destination == .missing) preconditionFailed
  let moved ← Slots.moveNoreplace .backup .destination
  Program.require moved preconditionFailed
  let restored ← inspectTarget view .destination expected
  if restored ≠ .exact then
    Slots.remove .destination
    Program.fail preconditionFailed

def restoreQuarantinedExtensionTarget (expected : H) : TargetProgram C Unit := do
  let destination ← inspectTarget view .destination expected
  Program.require (destination == .missing) preconditionFailed
  let moved ← Slots.moveNoreplace .backup .destination
  Program.require moved preconditionFailed
  let restored ← inspectTarget view .destination expected
  Program.require (restored == .exact) verificationFailed

def restoreQuarantinedExactText (content : C) : TargetProgram C Unit := do
  let destination ← readExactText view .destination
  Program.require destination.isNone preconditionFailed
  let backup ← readExactText view .backup
  Program.require (backup == some content) preconditionFailed
  let moved ← Slots.moveNoreplace .backup .destination
  Program.require moved preconditionFailed
  let restored ← readExactText view .destination
  Program.require (restored == some content) verificationFailed

def restoreQuarantined : ApplyTargetIdentity C H → TargetProgram C Unit
  | .skill hash => restoreQuarantinedRenderedDirectory view hash
  | .extension hash => restoreQuarantinedExtensionTarget view hash
  | .exactText content => restoreQuarantinedExactText view content

section Rules

variable {C H : Type} {view : ContentView C H} {s : Slots C} {content : C}

theorem readExactText_upholds {G : Slots C → Slots C → Prop} {path : SlotName}
    {Q : Option C → Slots C → Prop} {E : ObjectMutationError → Slots C → Prop} :
    (readExactText view path).Upholds G Q E s ↔
      if (s.get path).all fun text => (view.hash text).isSome then Q (s.get path) s
      else E controlFileInvalid s := by
  simp [readExactText]

variable [DecidableEq H]

theorem inspectTarget_upholds {G : Slots C → Slots C → Prop} {path : SlotName} {expected : H}
    {Q : RenderedState → Slots C → Prop} {E : ObjectMutationError → Slots C → Prop} :
    (inspectTarget view path expected).Upholds G Q E s ↔
      Q (classify view expected (s.get path)) s :=
  Program.inspect_upholds

@[simp] theorem classify_none {expected : H} : classify view expected none = .missing := rfl

theorem classify_eq_exact {expected : H} :
    classify view expected (some content) = .exact ↔ view.hash content = some expected := by
  simp only [classify]
  cases view.hash content with
  | none => simp
  | some actual =>
    simp only [Option.some.injEq]
    split <;> simp_all

theorem classify_ne_missing {expected : H} :
    classify view expected (some content) ≠ .missing := by
  simp only [classify]
  cases view.hash content with
  | none => simp
  | some actual =>
    simp only
    split <;> simp

variable [DecidableEq C] {I : Slots C → Prop} {Q : Unit → Slots C → Prop}
  {E : ObjectMutationError → Slots C → Prop} {identity : ApplyTargetIdentity C H}

/-- Removing a path keeps content the identity does not name. -/
theorem removeExact_upholds {path : SlotName} (hclear : I (s.set path none)) (hkeep : I s)
    (hQ : (∀ c ∈ s.get path, identity.Names view c) → Q () (s.set path none))
    (hE : ∀ e, (∃ c ∈ s.get path, ¬ identity.Names view c) → E e s) :
    (removeExact view path identity).Upholds (fun _ u => I u) Q E s := by
  cases hc : s.get path with
  | none =>
    have hs : s.set path none = s := by rw [← hc, Slots.set_get]
    have hq : Q () s := by simpa [hc, hs] using hQ
    cases identity <;>
      simp [removeExact, removeExactRenderedDirectory, removeExactExtensionTarget,
        removeRegularFileIfMatches, inspectTarget_upholds, hc, hq]
  | some content =>
    have hs : s.set path (some content) = s := by rw [← hc, Slots.set_get]
    simp only [hc, Option.mem_def, Option.some.injEq, forall_eq', exists_eq_left'] at hQ hE
    cases identity with
    | skill hash =>
      by_cases hn : view.hash content = some hash
      · simp [removeExact, removeExactRenderedDirectory, hc, classify_eq_exact, hn, hclear,
          hQ hn]
      · simp [removeExact, removeExactRenderedDirectory, hc, classify_eq_exact, hn, hclear, hs,
          hkeep, hE _ hn]
    | extension hash =>
      simp only [removeExact, removeExactExtensionTarget, Program.bind_upholds,
        inspectTarget_upholds, hc]
      by_cases hn : view.hash content = some hash
      · simp [classify_eq_exact.mpr hn, hclear, hQ hn]
      · cases hcl : classify view hash (some content) with
        | missing => exact absurd hcl classify_ne_missing
        | exact => exact absurd (classify_eq_exact.mp hcl) hn
        | different => simp [hE _ hn]
        | unsafeEntry => simp [hE _ hn]
    | exactText expected =>
      by_cases hn : content = expected
      · simp [removeExact, removeRegularFileIfMatches, hc, hn, hclear, hQ hn]
      · simp [removeExact, removeRegularFileIfMatches, hc, hn, hE _ hn]

theorem clearStaging_upholds (hclear : I (s.set .staging none)) (hkeep : I s)
    (hQ : (∀ c ∈ s.staging, identity.Names view c) → Q () (s.set .staging none))
    (hE : ∀ e, (∃ c ∈ s.staging, ¬ identity.Names view c) → E e s) :
    (clearStaging view identity).Upholds (fun _ u => I u) Q E s := by
  have hremove : (removeExact view .staging identity).Upholds (fun _ u => I u) Q E s :=
    removeExact_upholds hclear hkeep hQ hE
  have hrendered : ∀ (expected : H) (remove : TargetProgram C Unit),
      remove.Upholds (fun _ u => I u) Q E s →
      (∀ c, identity.Names view c ↔ view.hash c = some expected) →
      (clearRenderedStaging view expected remove).Upholds (fun _ u => I u) Q E s := by
    intro expected remove hr hn
    simp only [clearRenderedStaging, Program.bind_upholds, inspectTarget_upholds,
      Slots.get_staging]
    cases hc : s.staging with
    | none =>
      have hs : s.set .staging none = s := by rw [← hc, ← Slots.get_staging, Slots.set_get]
      rw [hc, hs] at hQ
      simpa using hQ
    | some content =>
      simp only [hc, Option.mem_def, Option.some.injEq, exists_eq_left'] at hE
      cases hcl : classify view expected (some content) with
      | missing => exact absurd hcl classify_ne_missing
      | exact => exact hr
      | different =>
        refine Program.fail_upholds.mpr (hE _ fun h => ?_)
        rw [classify_eq_exact.mpr ((hn content).mp h)] at hcl
        contradiction
      | unsafeEntry =>
        refine Program.fail_upholds.mpr (hE _ fun h => ?_)
        rw [classify_eq_exact.mpr ((hn content).mp h)] at hcl
        contradiction
  cases identity with
  | skill hash => exact hrendered hash _ hremove fun _ => Iff.rfl
  | extension hash => exact hrendered hash _ hremove fun _ => Iff.rfl
  | exactText expected => exact hremove

variable {destination staging backup : Option C}

omit [DecidableEq H] [DecidableEq C] in
theorem writeTree_upholds (hI : ∀ staging, I ⟨destination, staging, backup⟩)
    (hQ : Q () ⟨destination, some content, backup⟩) :
    (writeTree view content).Upholds (fun _ u => I u) Q E ⟨destination, staging, backup⟩ := by
  unfold writeTree
  generalize view.partials content = partials
  induction partials generalizing staging with
  | nil => simpa using ⟨hI _, hQ⟩
  | cons c partials ih =>
    have hrest := @ih (some c)
    simp only [Program.bind_upholds, Slots.write_upholds, Slots.set_staging] at hrest
    simp only [List.forM_cons, Program.bind_upholds, Slots.write_upholds, Slots.set_staging]
    exact ⟨hI _, hrest⟩

/-- Staging changes the staging path alone, and leaves the whole content there. -/
theorem stage_upholds (hn : identity.Names view content)
    (hI : ∀ staging, I ⟨destination, staging, backup⟩)
    (hQ : Q () ⟨destination, some content, backup⟩)
    (hE : ∀ e staging, E e ⟨destination, staging, backup⟩) :
    (stage view content identity).Upholds (fun _ u => I u) Q E
      ⟨destination, staging, backup⟩ := by
  have hclear : ∀ R : Unit → Slots C → Prop, R () ⟨destination, none, backup⟩ →
      (clearStaging view identity).Upholds (fun _ u => I u) R E ⟨destination, staging, backup⟩ :=
    fun R hR => clearStaging_upholds (hI _) (hI _) (fun _ => hR) fun e _ => hE e _
  cases identity with
  | skill hash =>
    simp only [stage, stageRenderedDirectory, Program.bind_upholds]
    refine hclear _ ?_
    simp only [Program.require_upholds]
    split
    · refine writeTree_upholds hI ?_
      simp [inspectTarget_upholds, classify_eq_exact.mpr hn, hQ]
    · exact hE _ _
  | extension hash =>
    simp only [stage, stageExtensionTarget, Program.bind_upholds]
    refine hclear _ (writeTree_upholds hI ?_)
    simp [inspectTarget_upholds, classify_eq_exact.mpr hn, hQ]
  | exactText expected =>
    simp only [stage, stageTextWithMode, Program.bind_upholds, readExactText_upholds]
    split
    · cases staging with
      | none => simpa using ⟨hI _, hQ⟩
      | some existing =>
        simp only [Slots.get_staging, Program.require_upholds, beq_iff_eq]
        split
        · rename_i he
          rwa [he]
        · exact hE _ _
    · exact hE _ _

variable {G : Slots C → Slots C → Prop}

/-- Installing moves staged content the identity names to a free destination. -/
theorem install_upholds (hn : identity.Names view content)
    (hr : (view.hash content).isSome = true) :
    (install view identity).Upholds G Q E ⟨none, some content, backup⟩ ↔
      G ⟨none, some content, backup⟩ ⟨some content, none, backup⟩ ∧
        Q () ⟨some content, none, backup⟩ := by
  cases identity with
  | skill hash =>
    simp [install, installRenderedDirectory, inspectTarget_upholds, Slots.moveNoreplace,
      classify_eq_exact.mpr hn]
  | extension hash =>
    simp [install, installExtensionTarget, inspectTarget_upholds, Slots.moveNoreplace,
      classify_eq_exact.mpr hn]
  | exactText expected =>
    cases hn
    simp [install, installStagedExactText, readExactText_upholds, Slots.moveNoreplace, hr]

/-- Quarantining moves the named content of the destination to a free backup. -/
theorem quarantine_upholds (hn : identity.Names view content)
    (hr : (view.hash content).isSome = true) :
    (quarantine view identity).Upholds G Q E ⟨some content, staging, none⟩ ↔
      G ⟨some content, staging, none⟩ ⟨none, staging, some content⟩ ∧
        Q () ⟨none, staging, some content⟩ := by
  cases identity with
  | skill hash =>
    simp [quarantine, quarantineRenderedDirectory, confirmQuarantine, inspectTarget_upholds,
      Slots.moveNoreplace, classify_eq_exact.mpr hn]
  | extension hash =>
    simp [quarantine, quarantineExtensionTarget, confirmQuarantine, inspectTarget_upholds,
      Slots.moveNoreplace, classify_eq_exact.mpr hn]
  | exactText expected =>
    cases hn
    simp [quarantine, quarantineExactText, confirmQuarantine, readExactText_upholds,
      Slots.moveNoreplace, hr]

/-- Restoring moves the named content of the backup to a free destination. -/
theorem restoreQuarantined_upholds (hn : identity.Names view content)
    (hr : (view.hash content).isSome = true) :
    (restoreQuarantined view identity).Upholds G Q E ⟨none, staging, some content⟩ ↔
      G ⟨none, staging, some content⟩ ⟨some content, staging, none⟩ ∧
        Q () ⟨some content, staging, none⟩ := by
  cases identity with
  | skill hash =>
    simp [restoreQuarantined, restoreQuarantinedRenderedDirectory, inspectTarget_upholds,
      Slots.moveNoreplace, classify_eq_exact.mpr hn]
  | extension hash =>
    simp [restoreQuarantined, restoreQuarantinedExtensionTarget, inspectTarget_upholds,
      Slots.moveNoreplace, classify_eq_exact.mpr hn]
  | exactText expected =>
    cases hn
    simp [restoreQuarantined, restoreQuarantinedExactText, readExactText_upholds,
      Slots.moveNoreplace, hr]

end Rules

end ApplyTarget

end Kitrove
