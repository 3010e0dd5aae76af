import Kitrove.Storage.GuardedSteps

/-! Recognising what an interrupted guarded replacement left behind, and settling it. -/

namespace Kitrove

open Crash

inductive GuardedControlError (ε : Type) where
  | storage (e : ObjectMutationError)
  | authority (e : ε)
  deriving DecidableEq

inductive GuardedControlState (τ : Type) where
  | stable (text : Option τ)
  | restoreBackup (text : Option τ)
  | removeBackup (text : Option τ)
  | removeDuplicateStaging (text : τ)
  deriving DecidableEq

structure ExpectedControl (H : Type) where
  oldHash : Option H
  newHash : H
  acceptDuplicateNew : Bool
  deriving DecidableEq

abbrev ControlProgram (τ ε α : Type) := Program (Slots τ) (GuardedControlError ε) α

namespace GuardedControlState

variable {τ : Type}

def effectiveText : GuardedControlState τ → Option τ
  | .stable text | .restoreBackup text | .removeBackup text => text
  | .removeDuplicateStaging text => some text

end GuardedControlState

namespace GuardedControl

variable {τ H ε : Type} [DecidableEq H] (p : TextPlatform τ) (hash : τ → H)

/-- The state of a file whose old text lies in the backup file. -/
def classifyBackup (backup : τ) (destination staging : Option τ) (expected : ExpectedControl H) :
    Option (GuardedControlState τ) :=
  if expected.oldHash ≠ some (hash backup) then none
  else
    match destination with
    | none =>
      if staging.map hash = some expected.newHash then some (.restoreBackup (some backup))
      else none
    | some current =>
      if some (hash current) = expected.oldHash ∨ hash current = expected.newHash then
        some (.removeBackup destination)
      else none

def classify (backup destination staging : Option τ) (expected : ExpectedControl H) :
    Option (GuardedControlState τ) :=
  match backup with
  | some backup => classifyBackup hash backup destination staging expected
  | none =>
    match destination, staging with
    | some current, some staged =>
      if expected.acceptDuplicateNew = true ∧ hash current = expected.newHash ∧
          hash staged = expected.newHash then some (.removeDuplicateStaging current)
      else if hash current = expected.newHash ∧ some (hash staged) = expected.oldHash then
        some (.stable destination)
      else if some (hash current) = expected.oldHash ∧ hash staged = expected.newHash then
        some (.stable destination)
      else none
    | some current, none =>
      if hash current = expected.newHash then some (.stable destination) else none
    | none, some staged =>
      if expected.oldHash = none ∧ hash staged = expected.newHash then some (.stable none)
      else none
    | none, none => none

/-- Runs a storage operation, keeping its error. -/
def storage {α : Type} (m : TextProgram τ α) : ControlProgram τ ε α :=
  m.mapError .storage

def inspectState (expected : ExpectedControl H) (maxBytes : Nat) (invalid : ε) :
    ControlProgram τ ε (GuardedControlState τ) := do
  let backup ← storage (readText p .backup maxBytes)
  let destination ← storage (readText p .destination maxBytes)
  let staging ← storage (readText p .staging maxBytes)
  match classify hash backup destination staging expected with
  | some state => pure state
  | none => Program.fail (.authority invalid)

/-- Resolves the text that settling would retain without changing a file. -/
def inspect (oldHash : Option H) (newHash : H) (maxBytes : Nat) (invalid : ε) :
    ControlProgram τ ε (Option τ) := do
  let state ← inspectState p hash ⟨oldHash, newHash, false⟩ maxBytes invalid
  pure state.effectiveText

/-- What is left to do in a state. -/
def settle (maxBytes : Nat) : GuardedControlState τ → ControlProgram τ ε Unit
  | .stable _ => pure ()
  | .restoreBackup _ => storage (restoreGuardedBackup p maxBytes)
  | .removeBackup _ => Slots.remove .backup
  | .removeDuplicateStaging _ => Slots.remove .staging

/-- `reconcile_with_policy`: settles the three files of a replacement that was cut short. -/
def reconcile (expected : ExpectedControl H) (maxBytes : Nat) (invalid : ε) :
    ControlProgram τ ε Unit := do
  let state ← inspectState p hash expected maxBytes invalid
  settle p maxBytes state

section Rules

variable {p} {hash} {expected : ExpectedControl H} {maxBytes : Nat} {invalid : ε} {s : Slots τ}
  {G : Slots τ → Slots τ → Prop} {Q : Unit → Slots τ → Prop}
  {E : GuardedControlError ε → Slots τ → Prop}

/-- Whether all three files are within the limit. -/
def Bounded (p : TextPlatform τ) (maxBytes : Nat) (s : Slots τ) : Prop :=
  ∀ name, ∀ text ∈ s.get name, p.len text ≤ maxBytes

theorem readText_upholds_of_bounded {name : SlotName} {R : Option τ → Slots τ → Prop}
    {E : ObjectMutationError → Slots τ → Prop} (h : R (s.get name) s)
    (hE : Bounded p maxBytes s ∨ ∀ e, E e s) : (readText p name maxBytes).Upholds G R E s := by
  rw [readText_upholds]
  split
  · exact h
  · rename_i hlong
    refine hE.resolve_left (fun hbounded => hlong ?_) _
    rw [Option.all_eq_true_iff_get]
    intro hsome
    exact decide_eq_true (hbounded name _ (Option.get_mem hsome))

/-- Settling does what the recognised state asks for, and fails only on files that are too
long or that it does not recognise. -/
theorem reconcile_upholds
    (h : ∀ state, classify hash s.backup s.destination s.staging expected = some state →
      (settle p maxBytes state).Upholds G Q E s)
    (hE : Bounded p maxBytes s ∨ ∀ e, E e s)
    (hknown : classify hash s.backup s.destination s.staging expected ≠ none ∨ ∀ e, E e s) :
    (reconcile p hash expected maxBytes invalid).Upholds G Q E s := by
  unfold reconcile inspectState
  simp only [Program.bind_upholds, storage, Program.mapError_upholds]
  have hstorage := hE.imp_right fun h e => h (GuardedControlError.storage e)
  refine readText_upholds_of_bounded (readText_upholds_of_bounded
    (readText_upholds_of_bounded ?_ hstorage) hstorage) hstorage
  simp only [Slots.get_backup, Slots.get_destination, Slots.get_staging]
  cases hstate : classify hash s.backup s.destination s.staging expected with
  | some state => exact Program.pure_upholds.mpr (h state hstate)
  | none => exact Program.fail_upholds.mpr (hknown.resolve_left (fun hne => hne hstate) _)

/-- A state that is recognised is read without touching a file. -/
theorem inspect_upholds {oldHash : Option H} {newHash : H} {state : GuardedControlState τ}
    (h : classify hash s.backup s.destination s.staging ⟨oldHash, newHash, false⟩ = some state)
    (hb : Bounded p maxBytes s) :
    (inspect p hash oldHash newHash maxBytes invalid).Upholds (fun _ _ => False)
      (fun text t => text = state.effectiveText ∧ t = s) (fun _ _ => False) s := by
  unfold inspect inspectState
  simp only [Program.bind_upholds, storage, Program.mapError_upholds]
  refine readText_upholds_of_bounded (readText_upholds_of_bounded
    (readText_upholds_of_bounded ?_ (.inl hb)) (.inl hb)) (.inl hb)
  simp only [Slots.get_backup, Slots.get_destination, Slots.get_staging, h]
  exact Program.pure_upholds.mpr (Program.pure_upholds.mpr ⟨rfl, rfl⟩)

/-- A state that is not recognised blocks the inspection. -/
theorem inspect_upholds_of_none {oldHash : Option H} {newHash : H}
    (h : classify hash s.backup s.destination s.staging ⟨oldHash, newHash, false⟩ = none) :
    (inspect p hash oldHash newHash maxBytes invalid).Upholds (fun _ _ => False)
      (fun _ _ => False) (fun _ t => t = s) s := by
  unfold inspect inspectState
  simp only [Program.bind_upholds, storage, Program.mapError_upholds]
  refine readText_upholds_of_bounded (readText_upholds_of_bounded
    (readText_upholds_of_bounded ?_ (.inr fun _ => rfl)) (.inr fun _ => rfl)) (.inr fun _ => rfl)
  simp only [Slots.get_backup, Slots.get_destination, Slots.get_staging, h]
  exact Program.fail_upholds.mpr rfl

theorem classify_of_no_backup {destination staging : Option τ} {state : GuardedControlState τ}
    (h : classify hash none destination staging expected = some state) :
    (∃ text, state = .stable text) ∨ ∃ text, state = .removeDuplicateStaging text := by
  unfold classify at h
  cases destination with
  | none =>
    cases staging with
    | none => contradiction
    | some staged =>
      simp only [Option.ite_none_right_eq_some, Option.some.injEq] at h
      exact .inl ⟨_, h.2.symm⟩
  | some current =>
    cases staging with
    | none =>
      simp only [Option.ite_none_right_eq_some, Option.some.injEq] at h
      exact .inl ⟨_, h.2.symm⟩
    | some staged =>
      dsimp only at h
      split at h
      · exact .inr ⟨_, (Option.some.inj h).symm⟩
      split at h
      · exact .inl ⟨_, (Option.some.inj h).symm⟩
      split at h
      · exact .inl ⟨_, (Option.some.inj h).symm⟩
      · contradiction

end Rules

end GuardedControl

section Leftover

variable {τ H : Type} [DecidableEq H] {p : TextPlatform τ} {hash : τ → H} {old : Option τ} {new : τ}
  {maxBytes : Nat} {s t : Slots τ}

/-- The three files while no replacement is under way: the new text may be staged already. -/
structure Resting (old : Option τ) (new : τ) (s : Slots τ) : Prop where
  destination : s.destination = old ∨ s.destination = some new
  staging : s.staging = none ∨ s.staging = some new
  backup : s.backup = none

/-- What a replacement can leave at any stop. -/
inductive Leftover (p : TextPlatform τ) (maxBytes : Nat) (old : Option τ) (new : τ) :
    Slots τ → Prop
  | resting {s : Slots τ} : Resting old new s → Leftover p maxBytes old new s
  | exchanged {o : τ} : old = some o → p.len o ≤ maxBytes → p.len new ≤ maxBytes →
      Leftover p maxBytes old new ⟨some new, some o, none⟩
  | displaced {o : τ} : old = some o → p.len o ≤ maxBytes → p.len new ≤ maxBytes →
      Leftover p maxBytes old new ⟨none, some new, some o⟩
  | installed {o : τ} : old = some o → p.len o ≤ maxBytes → p.len new ≤ maxBytes →
      Leftover p maxBytes old new ⟨some new, none, some o⟩

theorem resting_new : Resting old new ⟨some new, none, none⟩ := ⟨.inr rfl, .inl rfl, rfl⟩

variable [DecidableEq τ]

theorem installStagedTextGuarded_leaves {destination : Option τ}
    (hd : destination = old ∨ destination = some new) :
    (installStagedTextGuarded p old new maxBytes).Upholds
      (fun _ t => Leftover p maxBytes old new t) (fun _ t => t = ⟨some new, none, none⟩)
      (fun _ t => Leftover p maxBytes old new t) ⟨destination, some new, none⟩ := by
  have hrest : Leftover p maxBytes old new ⟨destination, some new, none⟩ :=
    .resting ⟨hd, .inr rfl, rfl⟩
  have hdone : Leftover p maxBytes old new ⟨some new, none, none⟩ := .resting resting_new
  by_cases hnew : p.len new ≤ maxBytes
  swap
  · simpa [installStagedTextGuarded, installStagedTextGuardedWithHook, readText_upholds, hnew]
      using hrest
  by_cases hsame : destination = some new
  · subst hsame
    simpa [installStagedTextGuarded, installStagedTextGuardedWithHook, readText_upholds, hnew]
      using hdone
  · obtain rfl := hd.resolve_right hsame
    cases destination with
    | none => simpa [installStagedTextGuarded_none_upholds hnew] using hdone
    | some o =>
      have hne : o ≠ new := by simpa using hsame
      by_cases hold : p.len o ≤ maxBytes
      · rw [installStagedTextGuarded_upholds hold hnew hne]
        split
        · exact ⟨.exchanged rfl hold hnew, hdone, rfl⟩
        · exact ⟨.displaced rfl hold hnew, .installed rfl hold hnew, hdone, rfl⟩
      · rw [installStagedTextGuarded_unreadable fun h => hold h.1]
        exact hrest

/-- A replacement that starts at rest leaves one of the known shapes at any stop. -/
theorem replaceTextAtomicallyGuarded_leaves (h : Resting old new s) :
    (replaceTextAtomicallyGuarded p old new maxBytes).Upholds
      (fun _ t => Leftover p maxBytes old new t) (fun _ t => t = ⟨some new, none, none⟩)
      (fun _ t => Leftover p maxBytes old new t) s := by
  obtain ⟨destination, staging, backup⟩ := s
  obtain ⟨hd, hs, rfl⟩ := h
  have hinstall : (installStagedTextGuarded p old new maxBytes).Upholds _ _ _
      ⟨destination, some new, none⟩ := installStagedTextGuarded_leaves hd
  have hrest : Leftover p maxBytes old new ⟨destination, some new, none⟩ :=
    .resting ⟨hd, .inr rfl, rfl⟩
  dsimp only at hs
  rcases hs with rfl | rfl
  · simpa [replaceTextAtomicallyGuarded, stageText, readText_upholds] using ⟨hrest, hinstall⟩
  · by_cases hnew : p.len new ≤ maxBytes
    · simpa [replaceTextAtomicallyGuarded, stageText, readText_upholds, hnew] using hinstall
    · simpa [replaceTextAtomicallyGuarded, stageText, readText_upholds, hnew] using hrest

end Leftover

end Kitrove
