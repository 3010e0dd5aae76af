import Kitrove.Storage.Files

/-! Every step a guarded replacement can take, from any state of its three files. -/

namespace Kitrove

open Crash

section Slots

variable {τ : Type} {p : TextPlatform τ} {maxBytes : Nat}

/-- The steps of a guarded replacement of `old` by `new`. -/
inductive GuardedStep (exchange : Bool) (old : Option τ) (new : τ) : Slots τ → Slots τ → Prop
  | staged {destination backup : Option τ} :
      GuardedStep exchange old new ⟨destination, none, backup⟩ ⟨destination, some new, backup⟩
  | exchanged {o : τ} : exchange = true → old = some o → o ≠ new →
      GuardedStep exchange old new ⟨some o, some new, none⟩ ⟨some new, some o, none⟩
  | displaced {o : τ} : exchange = false → old = some o → o ≠ new →
      GuardedStep exchange old new ⟨some o, some new, none⟩ ⟨none, some new, some o⟩
  | installed : GuardedStep exchange old new ⟨none, some new, old⟩ ⟨some new, none, old⟩
  | unstaged {staging backup : Option τ} :
      GuardedStep exchange old new ⟨some new, staging, backup⟩ ⟨some new, none, backup⟩
  | cleared {staging backup : Option τ} :
      GuardedStep exchange old new ⟨some new, staging, backup⟩ ⟨some new, staging, none⟩

/-- What a replacement that returns has found at its destination. -/
def Replaced (old : Option τ) (new : τ) (s : Slots τ) : Prop :=
  s.destination = some new ∨ s.destination = old ∧ s.backup = none ∨
    s.destination = none ∧ s.backup = old ∧ old ≠ none

theorem readText_upholds_of {G : Slots τ → Slots τ → Prop} {path : SlotName} {s : Slots τ}
    {Q : Option τ → Slots τ → Prop} (h : Q (s.get path) s) :
    (readText p path maxBytes).Upholds G Q (fun _ _ => True) s := by
  rw [readText_upholds]
  split
  · exact h
  · trivial

variable [DecidableEq τ]

theorem resumeGuardedTextInstall_steps {old : Option τ} {new b : τ} {destination : Option τ} :
    (resumeGuardedTextInstall p old new maxBytes).Upholds
      (GuardedStep p.atomicExchangeSupported old new)
      (fun _ t => t = ⟨some new, none, none⟩ ∧ Replaced old new ⟨destination, some new, some b⟩)
      (fun _ _ => True) ⟨destination, some new, some b⟩ := by
  cases old with
  | none => simp [resumeGuardedTextInstall]
  | some o =>
    by_cases hb : b = o
    · subst hb
      cases destination with
      | none =>
        have hr : Replaced (some b) new ⟨none, some new, some b⟩ := .inr (.inr ⟨rfl, rfl, by simp⟩)
        simp [resumeGuardedTextInstall, readText_upholds, Slots.moveNoreplace]
        exact fun _ => ⟨.installed, fun _ => ⟨.cleared, hr⟩⟩
      | some c =>
        simp [resumeGuardedTextInstall, readText_upholds]
        rintro - - rfl
        exact ⟨.unstaged, .cleared, rfl, .inl rfl⟩
    · simp [resumeGuardedTextInstall, hb, readText_upholds]

theorem installByExchange_steps {o new : τ} (hne : o ≠ new)
    (hx : p.atomicExchangeSupported = true) :
    (installByExchange p (some o) new maxBytes).Upholds
      (GuardedStep p.atomicExchangeSupported (some o) new)
      (fun _ t => t = ⟨some new, none, none⟩) (fun _ _ => True) ⟨some o, some new, none⟩ := by
  simp [installByExchange, readText_upholds, Slots.exchange]
  exact ⟨.exchanged hx rfl hne, fun _ _ => .unstaged⟩

theorem installByMove_steps {old : Option τ} {new : τ} (hne : old ≠ some new)
    (hx : old ≠ none → p.atomicExchangeSupported = false) :
    (installByMove p old new maxBytes).Upholds (GuardedStep p.atomicExchangeSupported old new)
      (fun _ t => t = ⟨some new, none, none⟩) (fun _ _ => True) ⟨old, some new, none⟩ := by
  cases old with
  | none =>
    simp [installByMove, readText_upholds, Slots.moveNoreplace]
    exact ⟨.installed, fun _ => .cleared⟩
  | some o =>
    have hdisplaced : GuardedStep p.atomicExchangeSupported (some o) new ⟨some o, some new, none⟩
        ⟨none, some new, some o⟩ := .displaced (hx (by simp)) rfl (by simpa using hne)
    simp [installByMove, displaceToBackup, readText_upholds, Slots.moveNoreplace]
    exact ⟨hdisplaced, fun _ => ⟨.installed, fun _ => .cleared⟩⟩

theorem installStagedTextGuarded_steps {old : Option τ} {new : τ} {s : Slots τ} :
    (installStagedTextGuarded p old new maxBytes).Upholds
      (GuardedStep p.atomicExchangeSupported old new)
      (fun _ t => t = ⟨some new, none, none⟩ ∧ Replaced old new s) (fun _ _ => True) s := by
  obtain ⟨destination, staging, backup⟩ := s
  unfold installStagedTextGuarded installStagedTextGuardedWithHook
  refine Program.bind_upholds.mpr (readText_upholds_of ?_)
  simp
  rintro rfl
  refine readText_upholds_of ?_
  cases backup with
  | some b => simpa using resumeGuardedTextInstall_steps
  | none =>
    refine Program.bind_upholds.mpr (readText_upholds_of ?_)
    by_cases hnew : destination = some new
    · subst hnew
      simp
      exact ⟨.unstaged, .inl rfl⟩
    · simp [hnew]
      rintro rfl
      have hr : Replaced destination new ⟨destination, some new, none⟩ := .inr (.inl ⟨rfl, rfl⟩)
      simp only [hr, and_true]
      split
      · rename_i hx
        obtain ⟨o, rfl⟩ := Option.ne_none_iff_exists'.mp hx.1
        exact installByExchange_steps (by simpa using hnew) hx.2
      · rename_i hx
        exact installByMove_steps hnew fun hsome => by simpa [hsome] using hx

/-- A guarded replacement takes only its own steps, and one that returns leaves the new
text alone in place. -/
theorem replaceTextAtomicallyGuarded_steps {old : Option τ} {new : τ} {s : Slots τ} :
    (replaceTextAtomicallyGuarded p old new maxBytes).Upholds
      (GuardedStep p.atomicExchangeSupported old new)
      (fun _ t => t = ⟨some new, none, none⟩ ∧ Replaced old new s) (fun _ _ => True) s := by
  obtain ⟨destination, staging, backup⟩ := s
  cases staging with
  | none =>
    simp [replaceTextAtomicallyGuarded, stageText, readText_upholds]
    exact ⟨.staged, installStagedTextGuarded_steps⟩
  | some c =>
    by_cases hc : c = new
    · subst hc
      simp [replaceTextAtomicallyGuarded, stageText, readText_upholds]
      exact fun _ => installStagedTextGuarded_steps
    · simp [replaceTextAtomicallyGuarded, stageText, readText_upholds, hc]

theorem installStagedTextGuarded_succeeds {old destination : Option τ} {new : τ}
    (hd : destination = some new ∨ destination = old) (hold : ∀ o ∈ old, p.len o ≤ maxBytes)
    (hnew : p.len new ≤ maxBytes) :
    (installStagedTextGuarded p old new maxBytes).Upholds (fun _ _ => True) (fun _ _ => True)
      (fun _ _ => False) ⟨destination, some new, none⟩ := by
  by_cases hsame : destination = some new
  · subst hsame
    simp [installStagedTextGuarded, installStagedTextGuardedWithHook, readText_upholds, hnew]
  · obtain rfl := hd.resolve_left hsame
    cases destination with
    | none => simp [installStagedTextGuarded_none_upholds hnew]
    | some o =>
      have hne : o ≠ new := by simpa using hsame
      rw [installStagedTextGuarded_upholds (hold o rfl) hnew hne]
      simp

/-- Replacing the planned text, or the new one, succeeds where nothing else is staged. -/
theorem replaceTextAtomicallyGuarded_succeeds {old destination staging : Option τ} {new : τ}
    (hd : destination = some new ∨ destination = old) (hs : staging = none ∨ staging = some new)
    (hold : ∀ o ∈ old, p.len o ≤ maxBytes) (hnew : p.len new ≤ maxBytes) :
    (replaceTextAtomicallyGuarded p old new maxBytes).Upholds (fun _ _ => True) (fun _ _ => True)
      (fun _ _ => False) ⟨destination, staging, none⟩ := by
  have hinstall := installStagedTextGuarded_succeeds (p := p) hd hold hnew
  rcases hs with rfl | rfl
  · simp [replaceTextAtomicallyGuarded, stageText, readText_upholds, hinstall]
  · simp [replaceTextAtomicallyGuarded, stageText, readText_upholds, hnew, hinstall]

end Slots

section Files

variable {paths : GuardedPaths} {exchange : Bool} {old : Option Bytes} {new : Bytes}
  {maxBytes : Nat} {files : Files}

/-- A step among the three files of a replacement that leaves every other file alone. -/
structure GuardedPaths.Step (paths : GuardedPaths) (exchange : Bool) (old : Option Bytes)
    (new : Bytes) (files files' : Files) : Prop where
  slots : GuardedStep exchange old new (paths.slots files) (paths.slots files')
  frame : ∀ path, path ≠ paths.destination → path ≠ paths.staging → path ≠ paths.backup →
    files' path = files path

/-- What a replacement that returns leaves. -/
structure GuardedPaths.Done (paths : GuardedPaths) (old : Option Bytes) (new : Bytes)
    (files files' : Files) : Prop where
  slots : paths.slots files' = ⟨some new, none, none⟩
  found : Replaced old new (paths.slots files)
  frame : ∀ path, path ≠ paths.destination → path ≠ paths.staging → path ≠ paths.backup →
    files' path = files path

theorem Files.replaceTextAtomicallyGuarded_steps {staging destination : PortablePath}
    (h : ∀ backup, guardedBackupPath staging = .ok backup →
      GuardedPaths.Distinct ⟨destination, staging, backup⟩) :
    (Files.replaceTextAtomicallyGuarded exchange staging destination old new maxBytes).Upholds
      (fun files files' => ∃ backup, guardedBackupPath staging = .ok backup ∧
        GuardedPaths.Step ⟨destination, staging, backup⟩ exchange old new files files')
      (fun _ files' => ∃ backup, guardedBackupPath staging = .ok backup ∧
        GuardedPaths.Done ⟨destination, staging, backup⟩ old new files files')
      (fun _ _ => True) files := by
  unfold Files.replaceTextAtomicallyGuarded
  rw [Program.bind_upholds]
  cases hbackup : guardedBackupPath staging with
  | error e => simp
  | ok backup =>
    have hd := h backup hbackup
    simp only [Program.ofExcept_ok_upholds, Except.ok.injEq, exists_eq_left']
    rw [Files.overSlots_eq_zoom hd, Program.zoom_upholds]
    have hslots : ∀ slots : Slots Bytes, GuardedPaths.slots ⟨destination, staging, backup⟩
        (GuardedPaths.update ⟨destination, staging, backup⟩ slots files) = slots :=
      fun slots => (GuardedPaths.lens _ hd).get_set slots files
    refine Program.Upholds.mono Kitrove.replaceTextAtomicallyGuarded_steps ?_ ?_ fun _ _ _ => trivial
    · intro t u hstep
      refine ⟨?_, fun path hp hs hb => ?_⟩
      · rwa [GuardedPaths.lens, hslots, hslots]
      · exact (GuardedPaths.update_of_ne hp hs hb).trans (GuardedPaths.update_of_ne hp hs hb).symm
    · rintro - t ⟨rfl, hfound⟩
      exact ⟨hslots _, hfound, fun path hp hs hb => GuardedPaths.update_of_ne hp hs hb⟩

theorem Files.replaceTextAtomicallyGuarded_succeeds {staging destination backup : PortablePath}
    (hb : guardedBackupPath staging = .ok backup)
    (h : GuardedPaths.Distinct ⟨destination, staging, backup⟩)
    (hd : files destination = some new ∨ files destination = old)
    (hs : files staging = none ∨ files staging = some new) (hnone : files backup = none)
    (hold : ∀ o ∈ old, o.length ≤ maxBytes) (hnew : new.length ≤ maxBytes) :
    (Files.replaceTextAtomicallyGuarded exchange staging destination old new maxBytes).Upholds
      (fun _ _ => True) (fun _ _ => True) (fun _ _ => False) files := by
  unfold Files.replaceTextAtomicallyGuarded
  rw [hb, Program.bind_upholds, Program.ofExcept_ok_upholds, Files.overSlots_eq_zoom h,
    Program.zoom_upholds]
  have hslots : (GuardedPaths.lens _ h).get files =
      ⟨files destination, files staging, none⟩ := by
    rw [← hnone]
    rfl
  rw [hslots]
  exact Kitrove.replaceTextAtomicallyGuarded_succeeds (p := bytePlatform exchange) hd hs hold hnew

end Files

end Kitrove
