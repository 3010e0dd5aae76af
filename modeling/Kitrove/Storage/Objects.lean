import Kitrove.Model.Sync
import Kitrove.Storage.Files

/-! Object directories: staging one file after another, and installing with one rename. -/

namespace Kitrove

open Crash ObjectMutationError

namespace ObjectMutationError

def installFailed : ObjectMutationError :=
  ⟨"object.install_failed", "staged object could not be installed without replacement"⟩

end ObjectMutationError

structure CaptureLimits where
  maxFiles : Nat
  maxFileBytes : Nat
  maxTotalBytes : Nat
  deriving DecidableEq

/-- The files of an object's directory, in the order in which they are written. -/
abbrev ObjectFiles := List (PortablePath × Bytes)

abbrev Objects := PortablePath → Option ObjectFiles

/-- The identity that the files of an envelope decode to, if they are one. -/
abbrev ObjectDecoder := SnapshotObjectKind → CaptureLimits → ObjectFiles → Option ContentHash

/-- A verified object with its descriptor. -/
structure VerifiedObjectEnvelope where
  descriptor : ObjectDescriptor
  files : ObjectFiles
  deriving DecidableEq

inductive ObjectState where
  | verified
  | missing
  | hashMismatch
  | invalid
  deriving DecidableEq

abbrev ObjectProgram (α : Type) := Program Objects ObjectMutationError α

namespace Objects

variable (decode : ObjectDecoder)

def inspectStored (objects : Objects) (root : PortablePath) (limits : CaptureLimits)
    (hash : ContentHash) (kind : SnapshotObjectKind) : ObjectState :=
  match objects root with
  | none => .missing
  | some files =>
    match decode kind limits files with
    | none => .invalid
    | some actual => if actual = hash then .verified else .hashMismatch

def put (root : PortablePath) (files : Option ObjectFiles) (objects : Objects) : Objects :=
  fun path => if path = root then files else objects path

/-- Writes an envelope file by file, the directory first. -/
def writeEnvelope (root : PortablePath) (files : ObjectFiles) : ObjectProgram Unit := do
  Program.act fun objects => ((), put root (some []) objects)
  files.forM fun file =>
    Program.act fun objects => ((), put root (some ((objects root).getD [] ++ [file])) objects)

/-- Writes and verifies an object at an absent staging root. -/
def stage (root : PortablePath) (files : ObjectFiles) (limits : CaptureLimits)
    (hash : ContentHash) (kind : SnapshotObjectKind) : ObjectProgram Unit := do
  match ← Program.inspect fun objects => inspectStored decode objects root limits hash kind with
  | .verified => pure ()
  | .missing => do
    writeEnvelope root files
    let state ← Program.inspect fun objects =>
      inspectStored decode objects root limits hash kind
    Program.require (state = .verified) verificationFailed
  | _ => Program.fail existingConflict

/-- Moves a verified staging object to an absent destination. -/
def install (staging destination : PortablePath) (hash : ContentHash) (limits : CaptureLimits)
    (kind : SnapshotObjectKind) : ObjectProgram Unit := do
  Program.require (staging ≠ destination) invalidInstall
  match ← Program.inspect fun objects =>
      inspectStored decode objects destination limits hash kind with
  | .verified => pure ()
  | .missing => do
    let staged ← Program.inspect fun objects =>
      inspectStored decode objects staging limits hash kind
    Program.require (staged = .verified) invalidStage
    Program.act fun objects => ((), put destination (objects staging) (put staging none objects))
    let installed ← Program.inspect fun objects =>
      inspectStored decode objects destination limits hash kind
    Program.require (installed = .verified) verificationFailed
  | _ => Program.fail existingConflict

section Rules

variable {decode : ObjectDecoder} {objects : Objects} {root staging destination : PortablePath}
  {files : ObjectFiles} {limits : CaptureLimits} {hash : ContentHash} {kind : SnapshotObjectKind}

@[simp] theorem put_root {value : Option ObjectFiles} : put root value objects root = value :=
  if_pos rfl

theorem put_of_ne {path : PortablePath} {value : Option ObjectFiles} (h : path ≠ root) :
    put root value objects path = objects path :=
  if_neg h

/-- Whether staging or installing an object at a root can go on: it is there or nothing is. -/
def Usable (decode : ObjectDecoder) (objects : Objects) (root : PortablePath)
    (limits : CaptureLimits) (hash : ContentHash) (kind : SnapshotObjectKind) : Prop :=
  inspectStored decode objects root limits hash kind = .verified ∨
    inspectStored decode objects root limits hash kind = .missing

theorem inspectStored_congr {objects' : Objects} (h : objects' root = objects root) :
    inspectStored decode objects' root limits hash kind =
      inspectStored decode objects root limits hash kind := by
  rw [inspectStored, inspectStored, h]

theorem inspectStored_missing :
    inspectStored decode objects root limits hash kind = .missing ↔ objects root = none := by
  unfold inspectStored
  cases objects root with
  | none => simp
  | some files =>
    cases hdecode : decode kind limits files with
    | none => simp [hdecode]
    | some actual => by_cases h : actual = hash <;> simp [h, hdecode]

theorem inspectStored_verified :
    inspectStored decode objects root limits hash kind = .verified ↔
      ∃ files, objects root = some files ∧ decode kind limits files = some hash := by
  unfold inspectStored
  cases objects root with
  | none => simp
  | some files =>
    cases hdecode : decode kind limits files with
    | none => simp [hdecode]
    | some actual => by_cases h : actual = hash <;> simp [h, hdecode]

/-- One step that changes nothing but what stands at one root. -/
def OnlyAt (root : PortablePath) (s t : Objects) : Prop := ∀ path, path ≠ root → t path = s path

theorem writeEnvelope_upholds :
    (writeEnvelope root files).Upholds (OnlyAt root) (fun _ t => t = put root (some files) objects)
      (fun _ _ => False) objects := by
  unfold writeEnvelope
  rw [Program.bind_upholds, Program.act_upholds]
  refine ⟨fun path h => put_of_ne h, ?_⟩
  refine (Program.forM_upholds (R := fun rest t => ∃ written, written ++ rest = files ∧
    t = put root (some written) objects) ?_ ⟨[], rfl, rfl⟩).mono (fun _ _ h => h) ?_ fun _ _ h => h
  · rintro file rest t ⟨written, hfiles, rfl⟩
    rw [Program.act_upholds]
    refine ⟨fun path h => put_of_ne h, written ++ [file], by simpa using hfiles, ?_⟩
    funext path
    by_cases h : path = root
    · subst h
      simp
    · simp [put_of_ne h]
  · rintro - t ⟨written, hfiles, rfl⟩
    rw [List.append_nil] at hfiles
    rw [hfiles]

theorem stage_succeeds (hfiles : decode kind limits files = some hash)
    (h : Usable decode objects root limits hash kind) :
    (stage decode root files limits hash kind).Upholds (OnlyAt root)
      (fun _ t => inspectStored decode t root limits hash kind = .verified ∧ OnlyAt root objects t)
      (fun _ _ => False) objects := by
  unfold stage
  rw [Program.bind_upholds, Program.inspect_upholds]
  rcases h with h | h
  · rw [h]
    exact Program.pure_upholds.mpr ⟨h, fun _ _ => rfl⟩
  · rw [h]
    refine Program.bind_upholds.mpr (writeEnvelope_upholds.mono (fun _ _ h => h) ?_ fun _ _ h => h)
    rintro - t rfl
    have hverified : inspectStored decode (put root (some files) objects) root limits hash kind =
        .verified := inspectStored_verified.mpr ⟨files, put_root, hfiles⟩
    rw [Program.bind_upholds, Program.inspect_upholds, Program.require_upholds, hverified]
    exact ⟨rfl, fun path h => put_of_ne h⟩

theorem install_succeeds (hne : staging ≠ destination)
    (hs : inspectStored decode objects staging limits hash kind = .verified)
    (hd : Usable decode objects destination limits hash kind) :
    (install decode staging destination hash limits kind).Upholds
      (fun s t => ∀ path, path ≠ staging → path ≠ destination → t path = s path)
      (fun _ t => Usable decode t staging limits hash kind ∧
        inspectStored decode t destination limits hash kind = .verified ∧
        ∀ path, path ≠ staging → path ≠ destination → t path = objects path)
      (fun _ _ => False) objects := by
  unfold install
  rw [Program.bind_upholds, Program.require_upholds]
  simp only [hne, ne_eq, not_false_eq_true, decide_true, if_true]
  rw [Program.bind_upholds, Program.inspect_upholds]
  rcases hd with hd | hd
  · rw [hd]
    exact Program.pure_upholds.mpr ⟨.inl hs, hd, fun _ _ _ => rfl⟩
  · rw [hd]
    have hframe : ∀ path, path ≠ staging → path ≠ destination →
        put destination (objects staging) (put staging none objects) path = objects path := by
      intro path hps hpd
      rw [put_of_ne hpd, put_of_ne hps]
    obtain ⟨files, hfiles, hdecode⟩ := inspectStored_verified.mp hs
    have hinstalled : inspectStored decode
        (put destination (objects staging) (put staging none objects)) destination limits hash kind =
          .verified := inspectStored_verified.mpr ⟨files, by rw [put_root, hfiles], hdecode⟩
    have hmoved : inspectStored decode
        (put destination (objects staging) (put staging none objects)) staging limits hash kind =
          .missing := inspectStored_missing.mpr (by rw [put_of_ne hne, put_root])
    simp only [Program.bind_upholds, Program.inspect_upholds, Program.require_upholds,
      Program.act_upholds, hs, hinstalled, decide_true, if_true]
    exact ⟨hframe, .inr hmoved, trivial, hframe⟩

end Rules

end Objects

end Kitrove
