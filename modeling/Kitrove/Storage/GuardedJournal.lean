import Kitrove.Storage.GuardedText

/-! The live, pending and backup files of one journal: reading the journal they stand
for, and settling them after a replacement that was cut short. -/

namespace Kitrove

open Crash

inductive GuardedJournalError (ε : Type) where
  | storage
  | authority (e : ε)
  deriving DecidableEq, Repr

/-- The journal format a guarded journal is read with. -/
structure JournalFormat (τ T ε : Type) where
  parse : τ → Except ε T
  validTransition : T → T → Bool
  invalid : ε

abbrev JournalProgram (τ ε α : Type) := Program (Slots τ) (GuardedJournalError ε) α

structure GuardedJournalTexts (τ : Type) where
  current : Option τ
  pending : Option τ
  backup : Option τ

namespace GuardedJournal

variable {τ T ε : Type} (p : TextPlatform τ) (format : JournalFormat τ T ε)

/-- Runs a storage operation, keeping nothing of its error. -/
def storage {α : Type} (m : TextProgram τ α) : JournalProgram τ ε α :=
  m.mapError fun _ => .storage

def parse (text : τ) : JournalProgram τ ε T :=
  (Program.ofExcept (format.parse text)).mapError .authority

def requireTransition (old next : T) : JournalProgram τ ε Unit :=
  Program.require (format.validTransition old next) (.authority format.invalid)

def readTexts (maxBytes : Nat) : JournalProgram τ ε (GuardedJournalTexts τ) := do
  let current ← storage (readText p .destination maxBytes)
  let pending ← storage (readText p .staging maxBytes)
  let backup ← storage (readText p .backup maxBytes)
  pure ⟨current, pending, backup⟩

/-- Resolves the journal that reconciliation would retain without changing a file. -/
def inspect (maxBytes : Nat) : JournalProgram τ ε (Option T) := do
  let texts ← readTexts p maxBytes
  match texts.backup with
  | some backup =>
    let old ← parse format backup
    match texts.current, texts.pending with
    | none, none => pure (some old)
    | none, some next =>
      let next ← parse format next
      requireTransition format old next
      pure (some old)
    | some next, none =>
      let next ← parse format next
      requireTransition format old next
      pure (some next)
    | some _, some _ => Program.fail (.authority format.invalid)
  | none =>
    match texts.current, texts.pending with
    | none, some next =>
      let next ← parse format next
      pure (some next)
    | some old, some next =>
      let old ← parse format old
      let next ← parse format next
      if format.validTransition old next = true then pure (some next)
      else if format.validTransition next old = true then pure (some old)
      else Program.fail (.authority format.invalid)
    | some current, none =>
      let current ← parse format current
      pure (some current)
    | none, none => pure none

variable [DecidableEq τ]

/-- Settles the three files after a replacement was cut short. -/
def reconcile (maxBytes : Nat) : JournalProgram τ ε Unit := do
  let texts ← readTexts p maxBytes
  match texts.backup with
  | some backup =>
    let old ← parse format backup
    match texts.current, texts.pending with
    | none, none =>
      storage (restoreGuardedBackup p maxBytes)
      Slots.remove .staging
    | none, some next =>
      let next ← parse format next
      requireTransition format old next
      storage (restoreGuardedBackup p maxBytes)
      Slots.remove .staging
    | some next, none =>
      let next ← parse format next
      requireTransition format old next
      Slots.remove .backup
    | some _, some _ => Program.fail (.authority format.invalid)
  | none =>
    match texts.current, texts.pending with
    | none, some next =>
      let _ ← parse format next
      storage (installStagedTextGuarded p none next maxBytes)
    | some old, some next =>
      let oldJournal ← parse format old
      let nextJournal ← parse format next
      if format.validTransition oldJournal nextJournal = true then
        storage (installStagedTextGuarded p (some old) next maxBytes)
      else if format.validTransition nextJournal oldJournal = true then
        Slots.remove .staging
      else
        Program.fail (.authority format.invalid)
    | some current, none =>
      let _ ← parse format current
    | none, none => pure ()

end GuardedJournal

end Kitrove
