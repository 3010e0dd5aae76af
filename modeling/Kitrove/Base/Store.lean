import Kitrove.Backend.Filesystem
import Kitrove.Base.Record
import Kitrove.Storage.GuardedControl

/-! The retained base on disk: immutable generations, the pointer that selects one of them,
committing a new generation and settling an interrupted pointer. -/

namespace Kitrove

open Std Crash

structure BaseError where
  code : String
  message : String
  deriving DecidableEq

/-- A staging or generation directory; the paths below it are relative to it. -/
structure BaseArea where
  texts : OrdMap PortablePath Bytes
  objects : OrdMap PortablePath ObjectFiles
  deriving DecidableEq

/-- The state root: the pointer with its staging and backup files, and the directories. -/
structure BaseStore where
  texts : Files
  areas : PortablePath → Option BaseArea

abbrev BaseProgram (α : Type) := Program BaseStore BaseError α

/-- Programs of one directory, which may be absent. -/
abbrev DirectoryProgram (α : Type) := Program (Option BaseArea) ObjectMutationError α

def BaseStore.textsLens : Lens BaseStore Files where
  get := BaseStore.texts
  set texts store := { store with texts }
  get_set _ _ := rfl
  set_get _ := rfl
  set_set _ _ _ := rfl

def BaseStore.setArea (path : PortablePath) (area : Option BaseArea) (store : BaseStore) :
    BaseStore :=
  { store with areas := fun other => if other = path then area else store.areas other }

def BaseStore.areaLens (path : PortablePath) : Lens BaseStore (Option BaseArea) where
  get store := store.areas path
  set := BaseStore.setArea path
  get_set _ _ := if_pos rfl
  set_get store := by
    unfold BaseStore.setArea
    congr 1
    funext other
    split
    · rename_i h
      rw [h]
    · rfl
  set_set _ _ store := by
    unfold BaseStore.setArea
    congr 1
    funext other
    split
    · rfl
    · rename_i h
      exact if_neg h

/-- One complete verified generation. -/
structure RetainedSyncBase where
  generation : ContentHash
  input : SyncBaseInput
  objects : List VerifiedObjectEnvelope
  deriving DecidableEq

/-- `load_*_bounded`: the envelope that stored files of a kind hold, within its own length. -/
abbrev ObjectLoader :=
  SnapshotObjectKind → PortablePath → CaptureLimits → UInt64 → ObjectFiles →
    Option VerifiedObjectEnvelope

namespace BaseArea

def empty : BaseArea := ⟨∅, ∅⟩

def objectsOf (area : Option BaseArea) : Objects := fun path => area.bind (·.objects[path]?)

def textOf (area : Option BaseArea) (name : PortablePath) : Option Bytes :=
  area.bind (·.texts[name]?)

def putObject (root : PortablePath) (files : ObjectFiles) (area : Option BaseArea) :
    Option BaseArea :=
  some { area.getD empty with objects := (area.getD empty).objects.insert root files }

def putText (name : PortablePath) (contents : Bytes) (area : Option BaseArea) :
    Option BaseArea :=
  some { area.getD empty with texts := (area.getD empty).texts.insert name contents }

def readText (area : Option BaseArea) (name : PortablePath) (maxBytes : Nat) :
    Except ObjectMutationError (Option Bytes) :=
  if (textOf area name).all fun text => text.length ≤ maxBytes then .ok (textOf area name)
  else .error ObjectMutationError.controlFileInvalid

/-- Writes an absent file, accepting an already-identical one. -/
def stageText (name : PortablePath) (contents : Bytes) (maxBytes : Nat) :
    DirectoryProgram Unit := do
  let area ← Program.inspect id
  match ← Program.ofExcept (readText area name maxBytes) with
  | some existing => Program.require (existing = contents) ObjectMutationError.existingConflict
  | none => Program.act fun area => ((), putText name contents area)

/-- Writes an object file by file, the directory first. -/
def writeEnvelope (root : PortablePath) (files : ObjectFiles) : DirectoryProgram Unit := do
  Program.act fun area => ((), putObject root [] area)
  files.forM fun file =>
    Program.act fun area => ((), putObject root ((objectsOf area root).getD [] ++ [file]) area)

variable (decode : ObjectDecoder)

def stateOf (area : Option BaseArea) (limits : CaptureLimits) (object : VerifiedObjectEnvelope) :
    ObjectState :=
  Objects.inspectStored decode (objectsOf area) object.descriptor.root limits
    object.descriptor.objectHash object.descriptor.kind

/-- Writes and verifies an object at an absent root. -/
def stageObject (limits : CaptureLimits) (object : VerifiedObjectEnvelope) :
    DirectoryProgram Unit := do
  match ← Program.inspect fun area => stateOf decode area limits object with
  | .verified => pure ()
  | .missing => do
    writeEnvelope object.descriptor.root object.files
    let state ← Program.inspect fun area => stateOf decode area limits object
    Program.require (state = .verified) ObjectMutationError.verificationFailed
  | _ => Program.fail ObjectMutationError.existingConflict

/-- The files of a directory by their paths. -/
def inventory (area : BaseArea) : OrdMap PortablePath Bytes :=
  OrdMap.mapOf <| area.texts.toList ++ area.objects.toList.flatMap fun (root, files) =>
    files.filterMap fun (path, contents) =>
      (Name.parse .path (root.bytes ++ ascii "/" ++ path.bytes)).map fun path => (path, contents)

end BaseArea

namespace SyncBaseStore

def invalid : BaseError := ⟨"sync.base_invalid", "retained synchronization base is invalid"⟩

def stale : BaseError := ⟨"sync.base_stale", "retained synchronization base changed"⟩

def objectBudgetExceeded : BaseError :=
  ⟨"sync_base.object_budget_exceeded",
    "the selected retained base exceeds the remaining request object budget"⟩

def budgetOrInvalid (error : SnapshotError) : BaseError :=
  if error.code ∈ ["sync_objects.count_exceeded", "sync_objects.object_bytes_exceeded",
      "sync_objects.total_bytes_exceeded"] then objectBudgetExceeded
  else invalid

/-- `map_err` to the fixed error. -/
def orInvalid {ε α : Type} (result : Except ε α) : Except BaseError α :=
  result.mapError fun _ => invalid

section Paths

def remoteHex (remote : RemoteKey) : Bytes := afterLastColon remote.asStr

def hashHex (hash : ContentHash) : Bytes := afterLastColon hash.bytes

def parsePath (value : Bytes) : Except BaseError PortablePath :=
  match Name.parse .path value with
  | none => .error invalid
  | some path => .ok path

def pointerPath (remote : RemoteKey) : Except BaseError PortablePath :=
  parsePath (ascii "sync/" ++ remoteHex remote ++ ascii "/base-current.json")

def generationPath (remote : RemoteKey) (generation : ContentHash) :
    Except BaseError PortablePath :=
  parsePath (ascii "sync/" ++ remoteHex remote ++ ascii "/bases/" ++ hashHex generation)

def stagingPath (remote : RemoteKey) (plan : ContentHash) : Except BaseError PortablePath :=
  parsePath (ascii "sync/" ++ remoteHex remote ++ ascii "/staging/" ++ hashHex plan ++
    ascii "/base")

def pointerStagePath (remote : RemoteKey) (plan : ContentHash) : Except BaseError PortablePath :=
  parsePath (ascii "sync/" ++ remoteHex remote ++ ascii "/staging/" ++ hashHex plan ++
    ascii "/base-current.json")

def recordName : PortablePath := ⟨ascii "base.json", by decide +kernel, by decide +kernel⟩

def manifestName : PortablePath :=
  ⟨ascii "base-manifest.toml", by decide +kernel, by decide +kernel⟩

end Paths

section Reading

def generationCaptureLimits (limits : SyncLimits) : CaptureLimits where
  maxFiles := limits.maxComponents.toNat + limits.maxObjectCount.toNat + 2
  maxFileBytes := max (max limits.maxObjectBytes.toNat limits.maxControlBytes.toNat)
    limits.maxManifestBytes.toNat
  maxTotalBytes := limits.maxTotalObjectBytes.toNat + limits.maxControlBytes.toNat +
    limits.maxManifestBytes.toNat

/-- `insert_file`: a path that is already there is refused. -/
def insertFile (files : OrdMap PortablePath Bytes) (path : Bytes) (contents : Bytes) :
    Except BaseError (OrdMap PortablePath Bytes) :=
  match Name.parse .path path with
  | none => .error invalid
  | some path => if files.contains path then .error invalid else .ok (files.insert path contents)

def expectedTree (record : Bytes) (snapshot : PortableSnapshot)
    (objects : List VerifiedObjectEnvelope) : Except BaseError (OrdMap PortablePath Bytes) :=
  objects.foldlM (fun files object => object.files.foldlM (fun files file =>
      insertFile files (object.descriptor.root.bytes ++ ascii "/" ++ file.1.bytes) file.2) files)
    (OrdMap.mapOf [(recordName, record), (manifestName, snapshot.manifestToml)])

/-- Whether a directory holds exactly the record, the manifest and the objects. -/
def verifyGenerationTree (area : Option BaseArea) (record : Bytes) (snapshot : PortableSnapshot)
    (objects : List VerifiedObjectEnvelope) (limits : SyncLimits) : Except BaseError Unit := do
  let expected ← expectedTree record snapshot objects
  match area with
  | none => .error invalid
  | some area => do
    let actual := area.inventory
    let capture := generationCaptureLimits limits
    refuseIf (!area.objects.keys.all fun root =>
      objects.any fun object => object.descriptor.root = root) invalid
    refuseIf (actual.size > capture.maxFiles) invalid
    refuseIf (actual.values.any fun contents => contents.length > capture.maxFileBytes) invalid
    refuseIf ((actual.values.map List.length).sum > capture.maxTotalBytes) invalid
    refuseIf (actual ≠ expected) invalid

variable (blake3 : Bytes → Digest) (snapshots : SnapshotCodec) (codec : BaseCodec)
  (load : ObjectLoader)

/-- Loads the object of a descriptor. -/
def loadObject (area : Option BaseArea) (limits : SyncLimits) (descriptor : ObjectDescriptor) :
    Except BaseError VerifiedObjectEnvelope :=
  match BaseArea.objectsOf area descriptor.root with
  | none => .error invalid
  | some files =>
    match load descriptor.kind descriptor.root (captureLimits limits) descriptor.encodedLen files with
    | none => .error invalid
    | some object => if object.descriptor = descriptor then .ok object else .error invalid

/-- Verifies the generation that a directory holds. -/
def inspectGeneration (area : Option BaseArea) (remote : RemoteKey) (generation : ContentHash)
    (limits : SyncLimits) : Except BaseError RetainedSyncBase := do
  match ← orInvalid (BaseArea.readText area recordName limits.maxControlBytes.toNat) with
  | none => .error invalid
  | some recordText => do
    refuseIf (SyncBaseRecord.generationIdForJson blake3 recordText ≠ generation) invalid
    let record ← (SyncBaseRecord.fromJson codec recordText limits).mapError budgetOrInvalid
    refuseIf (record.remoteKey ≠ remote) invalid
    match ← orInvalid (BaseArea.readText area manifestName limits.maxManifestBytes.toNat) with
    | none => .error invalid
    | some manifestText => do
      let manifest ← orInvalid
        (EnvironmentManifest.fromToml blake3 snapshots.toAuthorityCodec manifestText)
      let encoded ← orInvalid (manifest.toToml blake3 snapshots.toAuthorityCodec)
      refuseIf (encoded ≠ manifestText) invalid
      let snapshot ← orInvalid (PortableSnapshot.new blake3 snapshots manifest record.objects limits)
      refuseIf (snapshot.snapshotDigest ≠ record.snapshotDigest ||
        snapshot.manifestRevision ≠ record.manifestRevision) invalid
      let objects ← record.objects.toList.mapM (loadObject load area limits)
      verifyGenerationTree area recordText snapshot objects limits
      pure ⟨generation, ⟨snapshot, record.backendRevision⟩, objects⟩

/-- Inspects and verifies the selected generation, if any. -/
def inspect (store : BaseStore) (remote : RemoteKey) (limits : SyncLimits) :
    Except BaseError (Option RetainedSyncBase) := do
  let path ← pointerPath remote
  match ← orInvalid (store.texts.readText path limits.maxControlBytes.toNat) with
  | none => pure none
  | some pointerText => do
    let pointer ← orInvalid (SyncBasePointer.fromJson codec pointerText limits)
    refuseIf (pointer.remoteKey ≠ remote) invalid
    let root ← generationPath remote pointer.generation
    let retained ← inspectGeneration blake3 snapshots codec load (store.areas root) remote
      pointer.generation limits
    pure (some retained)

end Reading

/-- What one commit is to retain. -/
structure Proposal where
  remote : RemoteKey
  snapshot : PortableSnapshot
  backendRevision : RemoteRevision
  objects : List VerifiedObjectEnvelope
  plan : ContentHash
  limits : SyncLimits

section Committing

/-- Installs a staging directory at an absent destination. -/
def installDirectoryNoreplace (staging destination : PortablePath) :
    Program BaseStore ObjectMutationError Unit := do
  Program.require (staging ≠ destination) ObjectMutationError.invalidInstall
  let store ← Program.inspect id
  Program.require ((store.areas destination).isNone) ObjectMutationError.existingConflict
  Program.require ((store.areas staging).isSome) ObjectMutationError.invalidStage
  Program.act fun store =>
    ((), (store.setArea staging none).setArea destination (store.areas staging))

variable (blake3 : Bytes → Digest) (snapshots : SnapshotCodec) (codec : BaseCodec)
  (decode : ObjectDecoder) (load : ObjectLoader)

def pointerText (remote : RemoteKey) (generation : ContentHash) : Except BaseError Bytes :=
  orInvalid ((SyncBasePointer.new remote generation).toJson codec)

def optionalPointerText (remote : RemoteKey) (generation : Option ContentHash) :
    Except BaseError (Option Bytes) :=
  match generation with
  | none => .ok none
  | some generation => do
    let text ← pointerText codec remote generation
    pure (some text)

/-- The text of the record that a proposal retains. -/
def recordText (proposal : Proposal) : Except BaseError Bytes := do
  let record ← orInvalid (SyncBaseRecord.new proposal.remote proposal.snapshot.snapshotDigest
    proposal.snapshot.manifestRevision proposal.backendRevision proposal.snapshot.objects
    proposal.limits)
  orInvalid (record.toJson codec proposal.limits)

/-- Writes the objects and the two documents of a generation. -/
def stageGeneration (proposal : Proposal) (record : Bytes) : DirectoryProgram Unit := do
  proposal.objects.forM (BaseArea.stageObject decode (captureLimits proposal.limits))
  BaseArea.stageText recordName record proposal.limits.maxControlBytes.toNat
  BaseArea.stageText manifestName proposal.snapshot.manifestToml
    proposal.limits.maxManifestBytes.toNat

/-- Stages a generation, verifies it and moves it into place. -/
def installGeneration (proposal : Proposal) (record : Bytes) (generation : ContentHash) :
    BaseProgram Unit := do
  let stage ← Program.ofExcept (stagingPath proposal.remote proposal.plan)
  Program.mapError (fun _ => invalid)
    (Program.zoom (BaseStore.areaLens stage) (stageGeneration decode proposal record))
  let store ← Program.inspect id
  Program.ofExcept (verifyGenerationTree (store.areas stage) record proposal.snapshot
    proposal.objects proposal.limits)
  let destination ← Program.ofExcept (generationPath proposal.remote generation)
  Program.mapError (fun _ => invalid) (installDirectoryNoreplace stage destination)

/-- Guarded replacement of the pointer. -/
def replacePointer (exchange : Bool) (proposal : Proposal) (expected : Option Bytes)
    (text : Bytes) : BaseProgram Unit := do
  let staging ← Program.ofExcept (pointerStagePath proposal.remote proposal.plan)
  let destination ← Program.ofExcept (pointerPath proposal.remote)
  Program.mapError (fun _ => stale) <| Program.zoom BaseStore.textsLens <|
    Files.replaceTextAtomicallyGuarded exchange staging destination expected text
      proposal.limits.maxControlBytes.toNat

/-- Installs a complete generation and then replaces its single selector. -/
def commit (exchange : Bool) (proposal : Proposal) (expectedPrior : Option ContentHash) :
    BaseProgram RetainedSyncBase := do
  let store ← Program.inspect id
  let current ← Program.ofExcept
    (inspect blake3 snapshots codec load store proposal.remote proposal.limits)
  Program.require (current.map RetainedSyncBase.generation = expectedPrior) stale
  let record ← Program.ofExcept (recordText codec proposal)
  let generation := SyncBaseRecord.generationIdForJson blake3 record
  let supplied := OrdMap.setOf (proposal.objects.map VerifiedObjectEnvelope.descriptor)
  Program.require (supplied = proposal.snapshot.objects ∧
    supplied.size = proposal.objects.length) invalid
  let root ← Program.ofExcept (generationPath proposal.remote generation)
  match inspectGeneration blake3 snapshots codec load (store.areas root) proposal.remote generation
      proposal.limits with
  | .ok _ => pure ()
  | .error _ => installGeneration decode proposal record generation
  let store ← Program.inspect id
  let retained ← Program.ofExcept
    (inspectGeneration blake3 snapshots codec load (store.areas root) proposal.remote generation
      proposal.limits)
  let newText ← Program.ofExcept (pointerText codec proposal.remote generation)
  let expectedText ← Program.ofExcept
    (optionalPointerText codec proposal.remote (current.map RetainedSyncBase.generation))
  replacePointer exchange proposal expectedText newText
  pure retained

end Committing

section Reconciling

/-- `ContentHash::digest`. -/
def digest (blake3 : Bytes → Digest) (text : Bytes) : ContentHash :=
  ContentHash.ofDigest (blake3 text)

def mapControl (error : GuardedControlError BaseError) : BaseError :=
  match error with
  | .storage _ => invalid
  | .authority error => error

variable (blake3 : Bytes → Digest) (codec : BaseCodec)

/-- Settles the pointer's three files after an interrupted replacement of the old text by the
new one. -/
def reconcileSlots (p : TextPlatform Bytes) (old : Except BaseError (Option Bytes))
    (new : Except BaseError Bytes) (maxBytes : Nat) : Program (Slots Bytes) BaseError Unit := do
  let staged ← Program.mapError (fun _ => invalid) (readText p .staging maxBytes)
  let backup ← Program.mapError (fun _ => invalid) (readText p .backup maxBytes)
  if staged = none ∧ backup = none then pure ()
  else do
    let oldText ← Program.ofExcept old
    let newText ← Program.ofExcept new
    let destination ← Program.mapError (fun _ => invalid) (readText p .destination maxBytes)
    let knownBackupShape : Bool := destination = none ∧ staged = some newText ∨
      destination = some newText ∧ staged = none
    Program.require (backup = none ∨ knownBackupShape) stale
    Program.mapError mapControl <| GuardedControl.reconcile p (digest blake3)
      ⟨oldText.map (digest blake3), digest blake3 newText, true⟩ maxBytes stale
    if backup = none ∧ destination = some newText ∧ staged = oldText then
      Slots.remove .staging

def reconcileInterruptedPointer (remote : RemoteKey) (expectedPrior : Option ContentHash)
    (proposed plan : ContentHash) (limits : SyncLimits) : BaseProgram Unit := do
  let staging ← Program.ofExcept (pointerStagePath remote plan)
  let backup ← Program.ofExcept (orInvalid (guardedBackupPath staging))
  let destination ← Program.ofExcept (pointerPath remote)
  Program.zoom BaseStore.textsLens <| Files.overSlots ⟨destination, staging, backup⟩ <|
    reconcileSlots blake3 (bytePlatform true) (optionalPointerText codec remote expectedPrior)
      (pointerText codec remote proposed) limits.maxControlBytes.toNat

end Reconciling

end SyncBaseStore

end Kitrove
