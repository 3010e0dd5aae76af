import Kitrove.Crash.Slots

/-! Guarded replacement of a small control file: the new text is staged beside the
live file and installed only while the live file still holds the planned old text. -/

namespace Kitrove

open Crash

structure ObjectMutationError where
  code : String
  message : String
  deriving DecidableEq, Repr

namespace ObjectMutationError

def controlFileInvalid : ObjectMutationError :=
  ⟨"object.control_file_invalid",
    "a portable environment control file is invalid or exceeds its limit"⟩

def preconditionFailed : ObjectMutationError :=
  ⟨"object.precondition_failed",
    "portable authority changed after its transaction precondition was read"⟩

def existingConflict : ObjectMutationError :=
  ⟨"object.existing_conflict", "existing object path has different content"⟩

def invalidStage : ObjectMutationError :=
  ⟨"object.invalid_stage", "staging object is missing, unsafe, or does not match"⟩

def verificationFailed : ObjectMutationError :=
  ⟨"object.verification_failed", "written object did not pass independent verification"⟩

end ObjectMutationError

open ObjectMutationError

/-- What a store of texts takes from its platform: the length of a text in bytes, and
whether two files can be exchanged in one step. -/
structure TextPlatform (τ : Type) where
  len : τ → Nat
  atomicExchangeSupported : Bool

abbrev TextProgram (τ α : Type) := Program (Slots τ) ObjectMutationError α

section Operations

variable {τ : Type} (p : TextPlatform τ)

def readText (path : SlotName) (maxBytes : Nat) : TextProgram τ (Option τ) := do
  let bytes ← Program.inspect (·.get path)
  Program.require (bytes.all fun text => p.len text ≤ maxBytes) controlFileInvalid
  pure bytes

variable [DecidableEq τ]

/-- Writes an absent staging file, accepting an already-identical file. -/
def stageText (path : SlotName) (contents : τ) (maxBytes : Nat) : TextProgram τ Unit := do
  match ← readText p path maxBytes with
  | some existing => Program.require (existing == contents) existingConflict
  | none => Slots.write path contents

def restoreGuardedBackup (maxBytes : Nat) : TextProgram τ Unit := do
  let destination ← readText p .destination maxBytes
  Program.require destination.isNone preconditionFailed
  let moved ← Slots.moveNoreplace .backup .destination
  Program.require moved preconditionFailed

def resumeGuardedTextInstall (expectedCurrent : Option τ) (expectedNew : τ) (maxBytes : Nat) :
    TextProgram τ Unit := do
  Program.require expectedCurrent.isSome preconditionFailed
  let backup ← readText p .backup maxBytes
  Program.require (backup == expectedCurrent) preconditionFailed
  match ← readText p .destination maxBytes with
  | some current =>
    Program.require (current == expectedNew) preconditionFailed
    Slots.remove .staging
    Slots.remove .backup
  | none =>
    let moved ← Slots.moveNoreplace .staging .destination
    Program.require moved preconditionFailed
    let destination ← readText p .destination maxBytes
    Program.require (destination == some expectedNew) verificationFailed
    Slots.remove .backup

/-- The install where the platform exchanges the staged and the live file in one step. -/
def installByExchange (expectedCurrent : Option τ) (expectedNew : τ) (maxBytes : Nat) :
    TextProgram τ Unit := do
  let exchanged ← Slots.exchange .staging .destination
  Program.require exchanged preconditionFailed
  let displaced ← readText p .staging maxBytes
  if displaced ≠ expectedCurrent then
    let destination ← readText p .destination maxBytes
    if destination = some expectedNew then
      let restored ← Slots.exchange .staging .destination
      Program.require restored preconditionFailed
    Program.fail preconditionFailed
  else
    let destination ← readText p .destination maxBytes
    Program.require (destination == some expectedNew) verificationFailed
    Slots.remove .staging

/-- Moves the live text out of the way; a text that is not the planned one is put back. -/
def displaceToBackup (expectedCurrent : Option τ) (maxBytes : Nat) : TextProgram τ Unit := do
  let moved ← Slots.moveNoreplace .destination .backup
  Program.require moved preconditionFailed
  let backup ← readText p .backup maxBytes
  if backup ≠ expectedCurrent then
    restoreGuardedBackup p maxBytes
    Program.fail preconditionFailed

/-- The install that moves the old text to the backup file first. -/
def installByMove (expectedCurrent : Option τ) (expectedNew : τ) (maxBytes : Nat) :
    TextProgram τ Unit := do
  if expectedCurrent ≠ none then
    displaceToBackup p expectedCurrent maxBytes
  let moved ← Slots.moveNoreplace .staging .destination
  if moved = false then
    if expectedCurrent ≠ none then
      let destination ← readText p .destination maxBytes
      if destination = none then
        restoreGuardedBackup p maxBytes
    Program.fail preconditionFailed
  else
    let destination ← readText p .destination maxBytes
    Program.require (destination == some expectedNew) verificationFailed
    Slots.remove .backup

def installStagedTextGuardedWithHook (expectedCurrent : Option τ) (expectedNew : τ)
    (maxBytes : Nat) (acceptAlreadyNew : Bool) : TextProgram τ Unit := do
  let staged ← readText p .staging maxBytes
  Program.require (staged == some expectedNew) invalidStage
  let backup ← readText p .backup maxBytes
  if backup ≠ none then
    resumeGuardedTextInstall p expectedCurrent expectedNew maxBytes
  else
    let current ← readText p .destination maxBytes
    if current = some expectedNew then
      Program.require acceptAlreadyNew preconditionFailed
      Slots.remove .staging
    else
      Program.require (current == expectedCurrent) preconditionFailed
      if expectedCurrent ≠ none ∧ p.atomicExchangeSupported = true then
        installByExchange p expectedCurrent expectedNew maxBytes
      else
        installByMove p expectedCurrent expectedNew maxBytes

/-- Installs staged authority only while the destination retains its planned prior bytes. -/
def installStagedTextGuarded (expectedCurrent : Option τ) (expectedNew : τ) (maxBytes : Nat) :
    TextProgram τ Unit :=
  installStagedTextGuardedWithHook p expectedCurrent expectedNew maxBytes true

/-- Installs staged bytes only from the exact planned prior state. -/
def installStagedTextGuardedFromOld (expectedCurrent : Option τ) (expectedNew : τ)
    (maxBytes : Nat) : TextProgram τ Unit :=
  installStagedTextGuardedWithHook p expectedCurrent expectedNew maxBytes false

/-- Atomically replaces a control file without overwriting a changed destination. -/
def replaceTextAtomicallyGuarded (expectedCurrent : Option τ) (contents : τ) (maxBytes : Nat) :
    TextProgram τ Unit := do
  stageText p .staging contents maxBytes
  installStagedTextGuarded p expectedCurrent contents maxBytes

end Operations

section Rules

variable {τ : Type} {p : TextPlatform τ} {G : Slots τ → Slots τ → Prop}
  {E : ObjectMutationError → Slots τ → Prop} {s : Slots τ} {maxBytes : Nat}

theorem readText_upholds {path : SlotName} {Q : Option τ → Slots τ → Prop} :
    (readText p path maxBytes).Upholds G Q E s ↔
      if (s.get path).all fun text => p.len text ≤ maxBytes then Q (s.get path) s
      else E controlFileInvalid s := by
  simp [readText]

theorem stageText_upholds [DecidableEq τ] {new : τ} {Q : Unit → Slots τ → Prop}
    {destination backup : Option τ} :
    (stageText p .staging new maxBytes).Upholds G Q E ⟨destination, none, backup⟩ ↔
      G ⟨destination, none, backup⟩ ⟨destination, some new, backup⟩ ∧
        Q () ⟨destination, some new, backup⟩ := by
  simp [stageText, readText_upholds]

theorem restoreGuardedBackup_upholds {old : τ} {staging : Option τ} {Q : Unit → Slots τ → Prop} :
    (restoreGuardedBackup p maxBytes).Upholds G Q E ⟨none, staging, some old⟩ ↔
      G ⟨none, staging, some old⟩ ⟨some old, staging, none⟩ ∧
        Q () ⟨some old, staging, none⟩ := by
  simp [restoreGuardedBackup, readText_upholds, Slots.moveNoreplace]

variable [DecidableEq τ] {old new : τ}

theorem installByExchange_upholds {Q : Unit → Slots τ → Prop} (ho : p.len old ≤ maxBytes)
    (hn : p.len new ≤ maxBytes) :
    (installByExchange p (some old) new maxBytes).Upholds G Q E ⟨some old, some new, none⟩ ↔
      G ⟨some old, some new, none⟩ ⟨some new, some old, none⟩ ∧
      G ⟨some new, some old, none⟩ ⟨some new, none, none⟩ ∧ Q () ⟨some new, none, none⟩ := by
  simp [installByExchange, readText_upholds, Slots.exchange, ho, hn]

theorem installByMove_upholds {Q : Unit → Slots τ → Prop} (ho : p.len old ≤ maxBytes)
    (hn : p.len new ≤ maxBytes) :
    (installByMove p (some old) new maxBytes).Upholds G Q E ⟨some old, some new, none⟩ ↔
      G ⟨some old, some new, none⟩ ⟨none, some new, some old⟩ ∧
      G ⟨none, some new, some old⟩ ⟨some new, none, some old⟩ ∧
      G ⟨some new, none, some old⟩ ⟨some new, none, none⟩ ∧ Q () ⟨some new, none, none⟩ := by
  simp [installByMove, displaceToBackup, readText_upholds, Slots.moveNoreplace, ho, hn]

/-- Installing over the planned old text exchanges the two files where the platform can,
and otherwise moves the old text to the backup file first. -/
theorem installStagedTextGuarded_upholds {Q : Unit → Slots τ → Prop} (ho : p.len old ≤ maxBytes)
    (hn : p.len new ≤ maxBytes) (hne : old ≠ new) :
    (installStagedTextGuarded p (some old) new maxBytes).Upholds G Q E
        ⟨some old, some new, none⟩ ↔
      if p.atomicExchangeSupported then
        G ⟨some old, some new, none⟩ ⟨some new, some old, none⟩ ∧
        G ⟨some new, some old, none⟩ ⟨some new, none, none⟩ ∧ Q () ⟨some new, none, none⟩
      else
        G ⟨some old, some new, none⟩ ⟨none, some new, some old⟩ ∧
        G ⟨none, some new, some old⟩ ⟨some new, none, some old⟩ ∧
        G ⟨some new, none, some old⟩ ⟨some new, none, none⟩ ∧ Q () ⟨some new, none, none⟩ := by
  cases hx : p.atomicExchangeSupported
  · simp [installStagedTextGuarded, installStagedTextGuardedWithHook, readText_upholds, ho, hn,
      hne, hx, installByMove_upholds]
  · simp [installStagedTextGuarded, installStagedTextGuardedWithHook, readText_upholds, ho, hn,
      hne, hx, installByExchange_upholds]

theorem installStagedTextGuarded_same_upholds {Q : Unit → Slots τ → Prop}
    (hn : p.len new ≤ maxBytes) :
    (installStagedTextGuarded p (some new) new maxBytes).Upholds G Q E
        ⟨some new, some new, none⟩ ↔
      G ⟨some new, some new, none⟩ ⟨some new, none, none⟩ ∧ Q () ⟨some new, none, none⟩ := by
  simp [installStagedTextGuarded, installStagedTextGuardedWithHook, readText_upholds, hn]

theorem installStagedTextGuarded_unreadable {Q : Unit → Slots τ → Prop}
    (h : ¬ (p.len old ≤ maxBytes ∧ p.len new ≤ maxBytes)) :
    (installStagedTextGuarded p (some old) new maxBytes).Upholds G Q E
        ⟨some old, some new, none⟩ ↔
      E controlFileInvalid ⟨some old, some new, none⟩ := by
  by_cases hn : p.len new ≤ maxBytes
  · have ho : ¬ p.len old ≤ maxBytes := fun ho => h ⟨ho, hn⟩
    simp [installStagedTextGuarded, installStagedTextGuardedWithHook, readText_upholds, hn, ho]
  · simp [installStagedTextGuarded, installStagedTextGuardedWithHook, readText_upholds, hn]

/-- Installing where nothing is live moves the staged text into place. -/
theorem installStagedTextGuarded_none_upholds {Q : Unit → Slots τ → Prop}
    (hn : p.len new ≤ maxBytes) :
    (installStagedTextGuarded p none new maxBytes).Upholds G Q E ⟨none, some new, none⟩ ↔
      G ⟨none, some new, none⟩ ⟨some new, none, none⟩ ∧
      G ⟨some new, none, none⟩ ⟨some new, none, none⟩ ∧ Q () ⟨some new, none, none⟩ := by
  simp [installStagedTextGuarded, installStagedTextGuardedWithHook, readText_upholds, hn,
    installByMove, Slots.moveNoreplace]

/-- Installing only from the old text differs where the new one is in place already. -/
theorem installStagedTextGuardedFromOld_upholds {expectedCurrent destination staging : Option τ}
    {Q : Unit → Slots τ → Prop} (hne : destination ≠ some new) :
    (installStagedTextGuardedFromOld p expectedCurrent new maxBytes).Upholds G Q E
        ⟨destination, staging, none⟩ ↔
      (installStagedTextGuarded p expectedCurrent new maxBytes).Upholds G Q E
        ⟨destination, staging, none⟩ := by
  simp [installStagedTextGuardedFromOld, installStagedTextGuarded,
    installStagedTextGuardedWithHook, readText_upholds, hne]

theorem installStagedTextGuardedFromOld_same_upholds {expectedCurrent : Option τ}
    {Q : Unit → Slots τ → Prop} (hn : p.len new ≤ maxBytes) :
    (installStagedTextGuardedFromOld p expectedCurrent new maxBytes).Upholds G Q E
        ⟨some new, some new, none⟩ ↔ E preconditionFailed ⟨some new, some new, none⟩ := by
  simp [installStagedTextGuardedFromOld, installStagedTextGuardedWithHook, readText_upholds, hn]

end Rules

end Kitrove
