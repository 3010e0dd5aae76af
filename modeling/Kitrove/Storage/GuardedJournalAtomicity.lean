import Kitrove.Storage.GuardedJournal

/-! Replacing a guarded journal is atomic under crashes: whatever a stopped replacement
and any number of stopped repairs leave behind, the next repair settles on one of the
two journals, and reading the files beforehand names that journal. -/

namespace Kitrove

open Crash

namespace GuardedJournal

variable {τ T ε : Type} (p : TextPlatform τ) (format : JournalFormat τ T ε) (maxBytes : Nat)

/-- Two journals one irreversible step apart, with texts within the store's limit. -/
structure Replacement where
  oldText : τ
  newText : τ
  old : T
  new : T
  parse_old : format.parse oldText = .ok old
  parse_new : format.parse newText = .ok new
  valid : format.validTransition old new = true
  irreversible : format.validTransition new old = false
  len_old : p.len oldText ≤ maxBytes
  len_new : p.len newText ≤ maxBytes

variable {p format maxBytes}

namespace Replacement

variable (r : Replacement p format maxBytes)

theorem oldText_ne_newText : r.oldText ≠ r.newText := by
  intro h
  have hold := r.parse_old
  rw [h, r.parse_new] at hold
  injection hold with hj
  have hv := r.valid
  rw [← hj] at hv
  have hi := r.irreversible
  rw [← hj, hv] at hi
  contradiction

/-- The files before the replacement. -/
def start : Slots τ := ⟨some r.oldText, none, none⟩

/-- File contents that a repair settles on the old text. -/
inductive Retains : Slots τ → Prop
  | untouched : Retains ⟨some r.oldText, none, none⟩
  | displaced : Retains ⟨none, some r.newText, some r.oldText⟩

/-- File contents that a repair settles on the new text. -/
inductive Advances : Slots τ → Prop
  | staged : Advances ⟨some r.oldText, some r.newText, none⟩
  | exchanged : Advances ⟨some r.newText, some r.oldText, none⟩
  | installed : Advances ⟨some r.newText, none, some r.oldText⟩
  | settled : Advances ⟨some r.newText, none, none⟩

def Reachable (s : Slots τ) : Prop := r.Retains s ∨ r.Advances s

/-- One step of a replacement or a repair: it stays reachable and does not take a live
new text away again. -/
def Step (s t : Slots τ) : Prop :=
  (s.destination = some r.newText → t.destination = some r.newText) ∧ r.Reachable t

section Files

variable {r}

theorem Reachable.untouched : r.Reachable ⟨some r.oldText, none, none⟩ := .inl .untouched
theorem Reachable.displaced : r.Reachable ⟨none, some r.newText, some r.oldText⟩ :=
  .inl .displaced
theorem Reachable.staged : r.Reachable ⟨some r.oldText, some r.newText, none⟩ := .inr .staged
theorem Reachable.exchanged : r.Reachable ⟨some r.newText, some r.oldText, none⟩ :=
  .inr .exchanged
theorem Reachable.installed : r.Reachable ⟨some r.newText, none, some r.oldText⟩ :=
  .inr .installed
theorem Reachable.settled : r.Reachable ⟨some r.newText, none, none⟩ := .inr .settled

end Files

attribute [simp] Reachable.untouched Reachable.displaced Reachable.staged Reachable.exchanged
  Reachable.installed Reachable.settled

theorem not_live_of_retains {s : Slots τ} (h : r.Retains s) :
    s.destination ≠ some r.newText := by
  cases h with
  | untouched => exact fun h => r.oldText_ne_newText (Option.some.inj h)
  | displaced => simp

theorem inspect_retains {s : Slots τ} (h : r.Retains s) :
    (inspect p format maxBytes).Upholds (fun _ _ => False) (fun j t => j = some r.old ∧ t = s)
      (fun _ _ => False) s := by
  cases h <;>
    simp [inspect, readTexts, storage, parse, requireTransition, readText_upholds, r.len_old,
      r.len_new, r.parse_old, r.parse_new, r.valid]

theorem inspect_advances {s : Slots τ} (h : r.Advances s) :
    (inspect p format maxBytes).Upholds (fun _ _ => False) (fun j t => j = some r.new ∧ t = s)
      (fun _ _ => False) s := by
  cases h <;>
    simp [inspect, readTexts, storage, parse, requireTransition, readText_upholds, r.len_old,
      r.len_new, r.parse_old, r.parse_new, r.valid, r.irreversible]

theorem installs {s : Slots τ} (hs : s = ⟨some r.newText, none, none⟩) [DecidableEq τ] :
    (installStagedTextGuarded p (some r.oldText) r.newText maxBytes).Upholds r.Step
      (fun _ t => t = s) (fun _ _ => False) ⟨some r.oldText, some r.newText, none⟩ := by
  rw [installStagedTextGuarded_upholds r.len_old r.len_new r.oldText_ne_newText]
  split <;> simp [Step, hs, r.oldText_ne_newText]

variable [DecidableEq τ]

/-- Every stop of a replacement leaves reachable files behind. -/
theorem replace_steps :
    (replaceTextAtomicallyGuarded p (some r.oldText) r.newText maxBytes).Upholds r.Step
      (fun _ t => t = ⟨some r.newText, none, none⟩) (fun _ _ => False) r.start := by
  simp only [replaceTextAtomicallyGuarded, Program.bind_upholds, start, stageText_upholds]
  exact ⟨by simp [Step], r.installs rfl⟩

theorem reconcile_retains {s : Slots τ} (h : r.Retains s) :
    (reconcile p format maxBytes).Upholds r.Step
      (fun _ t => t = ⟨some r.oldText, none, none⟩) (fun _ _ => False) s := by
  cases h with
  | untouched =>
    simp [reconcile, readTexts, storage, parse, readText_upholds, r.len_old, r.parse_old]
  | displaced =>
    simp [reconcile, readTexts, storage, parse, requireTransition, readText_upholds, r.len_old,
      r.len_new, r.parse_old, r.parse_new, r.valid, restoreGuardedBackup_upholds, Step]

theorem reconcile_advances {s : Slots τ} (h : r.Advances s) :
    (reconcile p format maxBytes).Upholds r.Step
      (fun _ t => t = ⟨some r.newText, none, none⟩) (fun _ _ => False) s := by
  cases h with
  | staged =>
    simpa [reconcile, readTexts, storage, parse, readText_upholds, r.len_old, r.len_new,
      r.parse_old, r.parse_new, r.valid] using r.installs rfl
  | exchanged =>
    simp [reconcile, readTexts, storage, parse, readText_upholds, r.len_old, r.len_new,
      r.parse_old, r.parse_new, r.valid, r.irreversible, Step]
  | installed =>
    simp [reconcile, readTexts, storage, parse, requireTransition, readText_upholds, r.len_old,
      r.len_new, r.parse_old, r.parse_new, r.valid, Step]
  | settled =>
    simp [reconcile, readTexts, storage, parse, readText_upholds, r.len_new, r.parse_new]

theorem reconcile_steps {s : Slots τ} (h : r.Reachable s) :
    ∃ Q E, (reconcile p format maxBytes).Upholds r.Step Q E s := by
  rcases h with h | h
  · exact ⟨_, _, r.reconcile_retains h⟩
  · exact ⟨_, _, r.reconcile_advances h⟩

/-- Every step of a stopped replacement and of the stopped repairs after it is one that
cannot lose the new text. -/
theorem history_steps {crash repairs : List (Slots τ)}
    (hcrash : (replaceTextAtomicallyGuarded p (some r.oldText) r.newText maxBytes).Interrupted
      r.start crash)
    (hrepairs : (reconcile p format maxBytes).Attempts (crash.getLastD r.start) repairs) :
    List.IsChain r.Step (r.start :: (crash ++ repairs)) := by
  have hc := r.replace_steps.interrupted hcrash
  have hs : r.Reachable (crash.getLastD r.start) :=
    getLastD_of_forall .untouched (mem_of_isChain (hc.imp fun _ _ h => h.2))
  exact isChain_cons_append.mpr ⟨hc, hrepairs.chain hs fun t ht => r.reconcile_steps ht⟩

end Replacement

/-- Whatever a stopped replacement and any number of stopped repairs leave behind, the
next repair succeeds and settles on one of the two journals, on the new one if its text
was ever live, and an inspection of the same files reads exactly that journal. -/
theorem replacement_crash_atomic [DecidableEq τ] (r : Replacement p format maxBytes)
    (crash repairs : List (Slots τ))
    (hcrash : (replaceTextAtomicallyGuarded p (some r.oldText) r.newText maxBytes).Interrupted
      r.start crash)
    (hrepairs : (reconcile p format maxBytes).Attempts (crash.getLastD r.start) repairs) :
    ∃ text journal, (text = r.oldText ∧ journal = r.old ∨ text = r.newText ∧ journal = r.new) ∧
      (reconcile p format maxBytes ((crash ++ repairs).getLastD r.start)).result = .ok () ∧
      (reconcile p format maxBytes).final ((crash ++ repairs).getLastD r.start) =
        ⟨some text, none, none⟩ ∧
      inspect p format maxBytes ((crash ++ repairs).getLastD r.start) =
        ⟨[], .ok (some journal)⟩ ∧
      ((∃ files ∈ r.start :: (crash ++ repairs), files.destination = some r.newText) →
        text = r.newText) := by
  have hc := r.history_steps hcrash hrepairs
  have hs : r.Reachable ((crash ++ repairs).getLastD r.start) :=
    getLastD_of_forall .untouched (mem_of_isChain (hc.imp fun _ _ h => h.2))
  have hlive : (∃ files ∈ r.start :: (crash ++ repairs), files.destination = some r.newText) →
      ((crash ++ repairs).getLastD r.start).destination = some r.newText := by
    rintro ⟨files, hm, hf⟩
    exact getLastD_of_stable (I := fun t => t.destination = some r.newText)
      (hc.imp fun _ _ h => h.1) hm hf
  generalize (crash ++ repairs).getLastD r.start = files at hs hlive ⊢
  rcases hs with h | h
  · obtain ⟨_, hr, hq⟩ := (r.reconcile_retains h).returns
    exact ⟨r.oldText, r.old, .inl ⟨rfl, rfl⟩, hr, hq, (r.inspect_retains h).observes,
      fun hn => absurd (hlive hn) (r.not_live_of_retains h)⟩
  · obtain ⟨_, hr, hq⟩ := (r.reconcile_advances h).returns
    exact ⟨r.newText, r.new, .inr ⟨rfl, rfl⟩, hr, hq, (r.inspect_advances h).observes,
      fun _ => rfl⟩

/-- A platform without an atomic exchange, and journals that count up by one. -/
def movingPlatform : TextPlatform Nat := ⟨fun _ => 1, false⟩

def advancesByOne : JournalFormat Nat Nat Unit :=
  ⟨.ok, fun old next => old + 1 == next, ()⟩

def oneToTwo : Replacement movingPlatform advancesByOne 16 where
  oldText := 1
  newText := 2
  old := 1
  new := 2
  parse_old := rfl
  parse_new := rfl
  valid := rfl
  irreversible := rfl
  len_old := by decide
  len_new := by decide

theorem replacement_crash_atomic_displaced :
    ∃ text journal, (text = 1 ∧ journal = 1 ∨ text = 2 ∧ journal = 2) ∧
      (reconcile movingPlatform advancesByOne 16 ⟨some 1, some 2, none⟩).result = .ok () ∧
      (reconcile movingPlatform advancesByOne 16).final ⟨some 1, some 2, none⟩ =
        ⟨some text, none, none⟩ ∧
      inspect movingPlatform advancesByOne 16 ⟨some 1, some 2, none⟩ =
        ⟨[], .ok (some journal)⟩ ∧
      ((∃ files ∈ [⟨some 1, none, none⟩, ⟨some 1, some 2, none⟩, ⟨none, some 2, some 1⟩,
          (⟨some 1, some 2, none⟩ : Slots Nat)], files.destination = some 2) → text = 2) :=
  replacement_crash_atomic oneToTwo
    [⟨some 1, some 2, none⟩, ⟨none, some 2, some 1⟩] [⟨some 1, some 2, none⟩]
    (by unfold Program.Interrupted; decide)
    (.again .none (by unfold Program.Interrupted; decide))

end GuardedJournal

end Kitrove
