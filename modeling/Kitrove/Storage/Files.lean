import Kitrove.Model.Identity
import Kitrove.Storage.GuardedText

/-! The control files of one store root by path, and guarded replacement among them. -/

namespace Kitrove

open Crash ObjectMutationError

namespace ObjectMutationError

def invalidInstall : ObjectMutationError :=
  ⟨"object.invalid_install", "staging and destination roots must differ"⟩

end ObjectMutationError

abbrev Files := PortablePath → Option Bytes

abbrev FileProgram (α : Type) := Program Files ObjectMutationError α

/-- Whether a platform has `RENAME_EXCHANGE`; texts are measured in bytes. -/
def bytePlatform (atomicExchangeSupported : Bool) : TextPlatform Bytes :=
  ⟨List.length, atomicExchangeSupported⟩

def guardedBackupPath (staging : PortablePath) : Except ObjectMutationError PortablePath :=
  match Name.parse .path (staging.bytes ++ ascii ".previous") with
  | none => .error invalidInstall
  | some path => .ok path

/-- A file with the two files that its guarded replacement goes through. -/
structure GuardedPaths where
  destination : PortablePath
  staging : PortablePath
  backup : PortablePath
  deriving DecidableEq

namespace GuardedPaths

variable (paths : GuardedPaths)

def of : SlotName → PortablePath
  | .destination => paths.destination
  | .staging => paths.staging
  | .backup => paths.backup

def Distinct : Prop :=
  paths.destination ≠ paths.staging ∧ paths.destination ≠ paths.backup ∧
    paths.staging ≠ paths.backup

instance : Decidable paths.Distinct := inferInstanceAs (Decidable (_ ∧ _))

def slots (files : Files) : Slots Bytes :=
  ⟨files paths.destination, files paths.staging, files paths.backup⟩

def update (slots : Slots Bytes) (files : Files) : Files := fun path =>
  if path = paths.destination then slots.destination
  else if path = paths.staging then slots.staging
  else if path = paths.backup then slots.backup
  else files path

variable {paths} {files : Files} {slots slots' : Slots Bytes} {path : PortablePath}

@[simp] theorem update_destination : paths.update slots files paths.destination = slots.destination :=
  if_pos rfl

theorem update_staging (h : paths.Distinct) :
    paths.update slots files paths.staging = slots.staging := by
  rw [update, if_neg h.1.symm, if_pos rfl]

theorem update_backup (h : paths.Distinct) :
    paths.update slots files paths.backup = slots.backup := by
  rw [update, if_neg h.2.1.symm, if_neg h.2.2.symm, if_pos rfl]

/-- Every other file keeps its text. -/
theorem update_of_ne (hd : path ≠ paths.destination) (hs : path ≠ paths.staging)
    (hb : path ≠ paths.backup) : paths.update slots files path = files path := by
  rw [update, if_neg hd, if_neg hs, if_neg hb]

variable (paths) in
/-- The three files as one component of the store. -/
def lens (h : paths.Distinct) : Lens Files (Slots Bytes) where
  get := paths.slots
  set := paths.update
  get_set slots files := by
    rw [GuardedPaths.slots, update_destination, update_staging h, update_backup h]
  set_get files := by
    funext path
    unfold update GuardedPaths.slots
    split
    · rename_i hd
      rw [hd]
    split
    · rename_i hs
      rw [hs]
    split
    · rename_i hb
      rw [hb]
    rfl
  set_set slots slots' files := by
    funext path
    unfold update
    split
    · rfl
    split
    · rfl
    split
    · rfl
    rfl

end GuardedPaths

namespace Files

def readText (files : Files) (path : PortablePath) (maxBytes : Nat) :
    Except ObjectMutationError (Option Bytes) :=
  if (files path).all fun text => text.length ≤ maxBytes then .ok (files path)
  else .error controlFileInvalid

/-- Runs a program of the three files in place. -/
def overSlots {ε α : Type} (paths : GuardedPaths) (m : Program (Slots Bytes) ε α) :
    Program Files ε α :=
  fun files =>
    ⟨(m (paths.slots files)).visited.map fun slots => paths.update slots files,
      (m (paths.slots files)).result⟩

def replaceTextAtomicallyGuarded (exchange : Bool) (staging destination : PortablePath)
    (expectedCurrent : Option Bytes) (contents : Bytes) (maxBytes : Nat) : FileProgram Unit := do
  let backup ← Program.ofExcept (guardedBackupPath staging)
  overSlots ⟨destination, staging, backup⟩
    (Kitrove.replaceTextAtomicallyGuarded (bytePlatform exchange) expectedCurrent contents maxBytes)

theorem overSlots_eq_zoom {ε α : Type} {paths : GuardedPaths} (h : paths.Distinct)
    (m : Program (Slots Bytes) ε α) : overSlots paths m = Program.zoom (paths.lens h) m :=
  rfl

end Files

end Kitrove
