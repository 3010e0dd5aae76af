import Kitrove.Backend.Filesystem
import Kitrove.Storage.GuardedSteps

/-! Where the files of a remote lie, and what replacing one of them does to the others. -/

namespace Kitrove

open Crash

section Areas

variable {path staging backup stage : PortablePath} {value suffix : Bytes}

def stagingArea : Bytes := controlRoot ++ ascii "/staging/"

def InStaging (path : PortablePath) : Prop := stagingArea <+: path.bytes

theorem portable_eq_ok : portable value = .ok path ↔ path.bytes = value := by
  unfold portable Name.parse
  constructor
  · intro h
    split at h
    · contradiction
    · rename_i path' hparse
      split at hparse
      · cases hparse
        cases h
        rfl
      · contradiction
  · rintro rfl
    rw [dif_pos ⟨path.valid, path.bounded⟩]

theorem joined_bytes (h : joined stage suffix = .ok path) :
    path.bytes = stage.bytes ++ ascii "/" ++ suffix :=
  portable_eq_ok.mp h

theorem inStaging_stagePrefix {id : PublicationId} (h : stagePrefix id = .ok stage) :
    InStaging stage := by
  rw [stagePrefix, portable_eq_ok] at h
  rw [InStaging, h]
  exact List.prefix_append _ _

theorem inStaging_joined (hs : InStaging stage) (h : joined stage suffix = .ok path) :
    InStaging path := by
  rw [InStaging, joined_bytes h, List.append_assoc]
  exact hs.trans (List.prefix_append _ _)

theorem guardedBackupPath_bytes (h : guardedBackupPath staging = .ok backup) :
    backup.bytes = staging.bytes ++ ascii ".previous" := by
  unfold guardedBackupPath Name.parse at h
  split at h
  · contradiction
  · rename_i path hparse
    split at hparse
    · cases hparse
      cases h
      rfl
    · contradiction

theorem inStaging_backup (hs : InStaging staging) (h : guardedBackupPath staging = .ok backup) :
    InStaging backup := by
  rw [InStaging, guardedBackupPath_bytes h]
  exact hs.trans (List.prefix_append _ _)

theorem backup_ne_staging (h : guardedBackupPath staging = .ok backup) : staging ≠ backup := by
  intro he
  have hlen := congrArg List.length (guardedBackupPath_bytes h)
  rw [he, List.length_append] at hlen
  have : (ascii ".previous").length = 9 := by decide
  omega

/-- Two directories of which neither holds the other have no path in common. -/
theorem not_inStaging_of_prefix {area : Bytes} (h : area <+: path.bytes)
    (hdisjoint : ¬ area <+: stagingArea ∧ ¬ stagingArea <+: area) : ¬ InStaging path := by
  intro hs
  rcases List.prefix_or_prefix_of_prefix h hs with hp | hp
  · exact hdisjoint.1 hp
  · exact hdisjoint.2 hp

def headsArea : Bytes := controlRoot ++ ascii "/heads/"

def snapshotsArea : Bytes := controlRoot ++ ascii "/snapshots/"

def pointerArea : Bytes := controlRoot ++ ascii "/current.json"

theorem pointerArea_currentPath (h : currentPath = .ok path) : pointerArea <+: path.bytes := by
  rw [currentPath, portable_eq_ok] at h
  rw [h]
  exact List.prefix_rfl

theorem headsArea_headPath {blake3 : Bytes → Digest} {head : Head} {text : Bytes}
    (h : headPath blake3 head text = .ok path) : headsArea <+: path.bytes := by
  unfold headPath at h
  obtain ⟨revision, -, h⟩ := Except.bind_eq_ok_iff.mp h
  rw [portable_eq_ok.mp h]
  simp only [List.append_assoc, headsArea]
  exact ⟨_, by rw [List.append_assoc]⟩

theorem snapshotsArea_snapshotPath {digest : SnapshotDigest} (h : snapshotPath digest = .ok path) :
    snapshotsArea <+: path.bytes := by
  rw [snapshotPath, portable_eq_ok] at h
  simp only [h, snapshotsArea, List.append_assoc]
  exact ⟨_, by rw [List.append_assoc]⟩

theorem currentPath_not_staging (h : currentPath = .ok path) : ¬ InStaging path :=
  not_inStaging_of_prefix (pointerArea_currentPath h) (by decide +kernel)

theorem headPath_not_staging {blake3 : Bytes → Digest} {head : Head} {text : Bytes}
    (h : headPath blake3 head text = .ok path) : ¬ InStaging path :=
  not_inStaging_of_prefix (headsArea_headPath h) (by decide +kernel)

theorem snapshotPath_not_staging {digest : SnapshotDigest} (h : snapshotPath digest = .ok path) :
    ¬ InStaging path :=
  not_inStaging_of_prefix (snapshotsArea_snapshotPath h) (by decide +kernel)

theorem ne_of_areas {other : PortablePath} {area area' : Bytes} (h : area <+: path.bytes)
    (h' : area' <+: other.bytes) (hdisjoint : ¬ area <+: area' ∧ ¬ area' <+: area) :
    path ≠ other := by
  rintro rfl
  rcases List.prefix_or_prefix_of_prefix h h' with hp | hp
  · exact hdisjoint.1 hp
  · exact hdisjoint.2 hp

theorem headPath_ne_currentPath {blake3 : Bytes → Digest} {head : Head} {text : Bytes}
    {current : PortablePath} (h : headPath blake3 head text = .ok path)
    (hc : currentPath = .ok current) : path ≠ current :=
  ne_of_areas (headsArea_headPath h) (pointerArea_currentPath hc) (by decide +kernel)

theorem headPath_ne_snapshotPath {blake3 : Bytes → Digest} {head : Head} {text : Bytes}
    {digest : SnapshotDigest} {other : PortablePath} (h : headPath blake3 head text = .ok path)
    (hs : snapshotPath digest = .ok other) : path ≠ other :=
  ne_of_areas (headsArea_headPath h) (snapshotsArea_snapshotPath hs) (by decide +kernel)

theorem snapshotPath_ne_currentPath {digest : SnapshotDigest} {current : PortablePath}
    (h : snapshotPath digest = .ok path) (hc : currentPath = .ok current) : path ≠ current :=
  ne_of_areas (snapshotsArea_snapshotPath h) (pointerArea_currentPath hc)
    (by decide +kernel)

end Areas

section Replacement

variable {exchange : Bool} {staging destination : PortablePath} {old : Option Bytes} {new : Bytes}
  {maxBytes : Nat} {error : BackendError} {store : RemoteStore}

/-- One step of replacing a control file, as seen outside the staging directory. -/
structure ControlStep (exchange : Bool) (destination : PortablePath) (old : Option Bytes)
    (new : Bytes) (s t : RemoteStore) : Prop where
  objects : t.objects = s.objects
  frame : ∀ path, ¬ InStaging path → path ≠ destination → t.texts path = s.texts path
  destination : t.texts destination = s.texts destination ∨
    s.texts destination = old ∧ t.texts destination = some new ∨
    exchange = false ∧ old ≠ none ∧ s.texts destination = old ∧ t.texts destination = none ∨
    old ≠ none ∧ s.texts destination = none ∧ t.texts destination = some new

/-- What replacing a control file leaves when it returns. -/
structure ControlDone (destination : PortablePath) (old : Option Bytes) (new : Bytes)
    (s t : RemoteStore) : Prop where
  objects : t.objects = s.objects
  frame : ∀ path, ¬ InStaging path → path ≠ destination → t.texts path = s.texts path
  installed : t.texts destination = some new
  found : s.texts destination = some new ∨ s.texts destination = old ∨
    old ≠ none ∧ s.texts destination = none

theorem guardedPaths_distinct (hs : InStaging staging) (hd : ¬ InStaging destination)
    {backup : PortablePath} (hb : guardedBackupPath staging = .ok backup) :
    GuardedPaths.Distinct ⟨destination, staging, backup⟩ := by
  have hstaging : destination ≠ staging := by
    rintro rfl
    exact hd hs
  have hbackup : destination ≠ backup := by
    rintro rfl
    exact hd (inStaging_backup hs hb)
  exact ⟨hstaging, hbackup, backup_ne_staging hb⟩

theorem GuardedStep.atDestination {s t : Slots Bytes} (h : GuardedStep exchange old new s t) :
    t.destination = s.destination ∨ s.destination = old ∧ t.destination = some new ∨
      exchange = false ∧ old ≠ none ∧ s.destination = old ∧ t.destination = none ∨
      old ≠ none ∧ s.destination = none ∧ t.destination = some new := by
  cases h with
  | staged => exact .inl rfl
  | exchanged hx ho hne => exact .inr (.inl ⟨ho.symm, rfl⟩)
  | displaced hx ho hne => exact .inr (.inr (.inl ⟨hx, by simp [ho], ho.symm, rfl⟩))
  | installed =>
    by_cases ho : old = none
    · exact .inr (.inl ⟨ho.symm, rfl⟩)
    · exact .inr (.inr (.inr ⟨ho, rfl, rfl⟩))
  | unstaged => exact .inl rfl
  | cleared => exact .inl rfl

theorem replaceText_steps (hs : InStaging staging) (hd : ¬ InStaging destination) :
    (replaceText exchange staging destination old new maxBytes error).Upholds
      (ControlStep exchange destination old new)
      (fun _ t => ControlDone destination old new store t) (fun _ _ => True) store := by
  have hdistinct : ∀ backup, guardedBackupPath staging = .ok backup →
      GuardedPaths.Distinct ⟨destination, staging, backup⟩ :=
    fun backup hb => guardedPaths_distinct hs hd hb
  unfold replaceText
  rw [Program.zoom_upholds, Program.mapError_upholds]
  have hframe : ∀ {backup path : PortablePath}, guardedBackupPath staging = .ok backup →
      ¬ InStaging path → path ≠ staging ∧ path ≠ backup := by
    intro backup path hb hp
    exact ⟨fun he => hp (he ▸ hs), fun he => hp (he ▸ inStaging_backup hs hb)⟩
  refine Program.Upholds.mono (Files.replaceTextAtomicallyGuarded_steps hdistinct) ?_ ?_
    fun _ _ _ => trivial
  · rintro t u ⟨backup, hb, hslots, hrest⟩
    refine ⟨rfl, fun path hp hne => ?_, hslots.atDestination⟩
    exact hrest path hne (hframe hb hp).1 (hframe hb hp).2
  · rintro - t ⟨backup, hb, hslots, hfound, hrest⟩
    refine ⟨rfl, fun path hp hne => ?_, congrArg Slots.destination hslots, ?_⟩
    · exact hrest path hne (hframe hb hp).1 (hframe hb hp).2
    · rcases hfound with hf | ⟨hf, -⟩ | ⟨hf, -, ho⟩
      · exact .inl hf
      · exact .inr (.inl hf)
      · exact .inr (.inr ⟨ho, hf⟩)

end Replacement

end Kitrove
