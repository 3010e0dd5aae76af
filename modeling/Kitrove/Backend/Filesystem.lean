import Kitrove.Backend.Control

/-! The filesystem transport: reading the selected history, preparing a publication,
publishing it and reconciling it. -/

namespace Kitrove

open Crash BackendError

/-- A remote root: its control files and its object directories. -/
@[ext] structure RemoteStore where
  texts : Files
  objects : Objects

def RemoteStore.textsLens : Lens RemoteStore Files where
  get := RemoteStore.texts
  set texts store := { store with texts }
  get_set _ _ := rfl
  set_get _ := rfl
  set_set _ _ _ := rfl

def RemoteStore.objectsLens : Lens RemoteStore Objects where
  get := RemoteStore.objects
  set objects store := { store with objects }
  get_set _ _ := rfl
  set_get _ := rfl
  set_set _ _ _ := rfl

abbrev RemoteProgram (α : Type) := Program RemoteStore BackendError α

structure HistoryEntry where
  revision : RemoteRevision
  head : Head
  deriving DecidableEq

structure InspectedHistory where
  currentText : Bytes
  headPath : PortablePath
  entries : List HistoryEntry
  deriving DecidableEq

structure Inspected where
  remote : RemoteSnapshot
  currentText : Option Bytes
  head : Option Head
  headPath : Option PortablePath
  history : List RemoteRevision
  deriving DecidableEq

inductive PublicationStatus where
  | published (revision : RemoteRevision)
  | ready
  | uncertain
  deriving DecidableEq

/-- A prepared head with the revision that it proposes. -/
structure PublicationIntent where
  encoded : Bytes
  proposedRevision : RemoteRevision
  deriving DecidableEq

def PublicationIntent.fromPersisted (encoded : Bytes) (proposedRevision : RemoteRevision)
    (limits : SyncLimits) : Except BackendError PublicationIntent :=
  if encoded.isEmpty || encoded.length > limits.maxControlBytes.toNat || encoded.contains 0 then
    .error ⟨"sync_backend.intent_invalid",
      "publication intent is not a valid bounded control document"⟩
  else .ok ⟨encoded, proposedRevision⟩

/-- `checked_add(1)`. -/
def checkedSucc (n : UInt64) : Option UInt64 := if n.toNat + 1 < 2 ^ 64 then some (n + 1) else none

section Reading

/-- `ReadBudget::charge`. -/
def charge (remaining : Nat) (text : Bytes) : Except BackendError Nat :=
  if text.length ≤ remaining then .ok (remaining - text.length) else .error controlBudgetExceeded

/-- A control file with what remains of the budget. -/
def readBudgetedText (texts : Files) (path : PortablePath) (remaining : Nat) :
    Except BackendError (Option Bytes × Nat) :=
  match texts.readText path remaining with
  | .error _ => .error controlBudgetExceeded
  | .ok none => .ok (none, remaining)
  | .ok (some text) => do
    let remaining ← charge remaining text
    pure (some text, remaining)

/-- Where the walk along the heads stands. -/
structure Cursor where
  path : PortablePath
  revision : RemoteRevision
  child : Option Head
  seen : List RemoteRevision
  remaining : Nat

def requireLinked (cursor : Cursor) (head : Head) : Except BackendError Unit :=
  match cursor.child with
  | none => .ok ()
  | some child =>
    refuseIf (child.priorHeadPath ≠ some cursor.path ||
      child.priorGeneration ≠ some head.generation ||
      child.priorRevision ≠ cursor.revision ||
      checkedSucc head.generation ≠ some child.generation) invalidRemote

/-- The path of the head before this one, none before the first. -/
def priorOf (head : Head) : Except BackendError (Option PortablePath) :=
  match head.priorHeadPath, head.priorGeneration with
  | none, none =>
    if head.generation = 1 ∧ head.priorRevision = absentRevision then .ok none
    else .error invalidRemote
  | some prior, some generation =>
    if checkedSucc generation = some head.generation then .ok (some prior)
    else .error invalidRemote
  | _, _ => .error invalidRemote

variable (blake3 : Bytes → Digest) (codec : ControlCodec) (snapshots : SnapshotCodec)

/-- Reads and checks the head under the cursor. -/
def readHead (texts : Files) (limits : SyncLimits) (cursor : Cursor) :
    Except BackendError (Head × Nat) := do
  refuseIf (cursor.seen.contains cursor.revision) invalidRemote
  match ← readBudgetedText texts cursor.path cursor.remaining with
  | (none, _) => .error invalidRemote
  | (some text, remaining) => do
    let head ← parseHead codec text limits
    let revision ← headRevision blake3 text
    let path ← headPath blake3 head text
    refuseIf (revision ≠ cursor.revision || path ≠ cursor.path) invalidRemote
    requireLinked cursor head
    pure (head, remaining)

/-- The heads from the cursor back to the first one, at most as many as the fuel. -/
def followChain (texts : Files) (limits : SyncLimits) :
    Nat → Cursor → Except BackendError (List HistoryEntry)
  | 0, _ => .ok []
  | n + 1, cursor => do
    let (head, remaining) ← readHead blake3 codec texts limits cursor
    match ← priorOf head with
    | none => pure [⟨cursor.revision, head⟩]
    | some prior => do
      refuseIf (n = 0) historyExceeded
      let rest ← followChain texts limits n
        { path := prior
          revision := head.priorRevision
          child := some head
          seen := cursor.revision :: cursor.seen
          remaining }
      pure (⟨cursor.revision, head⟩ :: rest)

def inspectHistoryChain (texts : Files) (limits : SyncLimits) :
    Except BackendError (Option InspectedHistory) := do
  let path ← currentPath
  match ← readBudgetedText texts path limits.maxControlBytes.toNat with
  | (none, _) => pure none
  | (some currentText, remaining) => do
    let current ← parseCanonical codec.encodeCurrent codec.decodeCurrent currentText
    refuseIf (current.schemaVersion ≠ 1) invalidRemote
    let entries ← followChain blake3 codec texts limits limits.maxBackendHistory.toNat
      { path := current.headPath
        revision := current.revision
        child := none
        seen := []
        remaining }
    pure (some ⟨currentText, current.headPath, entries⟩)

/-- The snapshot that a head selects. -/
def readSnapshot (texts : Files) (limits : SyncLimits) (head : Head) :
    Except BackendError PortableSnapshot :=
  match texts.readText head.snapshotFile limits.maxSnapshotBytes.toNat with
  | .error _ => .error filesystemIo
  | .ok none => .error invalidRemote
  | .ok (some text) =>
    match PortableSnapshot.fromJson blake3 snapshots text limits with
    | .error _ => .error invalidRemote
    | .ok snapshot => do
      let path ← snapshotPath snapshot.snapshotDigest
      refuseIf (snapshot.snapshotDigest ≠ head.snapshotDigest || path ≠ head.snapshotFile)
        invalidRemote
      pure snapshot

def inspectStore (texts : Files) (limits : SyncLimits) : Except BackendError Inspected := do
  match ← inspectHistoryChain blake3 codec texts limits with
  | none => pure ⟨⟨absentRevision, none⟩, none, none, none, []⟩
  | some history =>
    match history.entries with
    | [] => .error invalidRemote
    | selected :: _ => do
      let snapshot ← readSnapshot blake3 snapshots texts limits selected.head
      pure
        { remote := ⟨selected.revision, some snapshot⟩
          currentText := some history.currentText
          head := some selected.head
          headPath := some history.headPath
          history := history.entries.map HistoryEntry.revision }

end Reading

section Publishing

/-- Counts one descriptor and its bytes. -/
def countDescriptor (limits : SyncLimits) (state : Nat × Nat) (descriptor : ObjectDescriptor) :
    Except BackendError (Nat × Nat) := do
  let count := state.1 + 1
  refuseIf (count > limits.maxObjectCount.toNat || descriptor.encodedLen > limits.maxObjectBytes)
    objectBudgetExceeded
  let total := state.2 + descriptor.encodedLen.toNat
  refuseIf (total ≥ 2 ^ 64 || total > limits.maxTotalObjectBytes.toNat) objectBudgetExceeded
  pure (count, total)

def validateObjectBudget (objects : List VerifiedObjectEnvelope) (limits : SyncLimits) :
    Except BackendError Unit := do
  let _ ← (objects.map VerifiedObjectEnvelope.descriptor).foldlM (countDescriptor limits) (0, 0)

def requireSupplied (staged : PortableSnapshot) (objects : List VerifiedObjectEnvelope) :
    Except BackendError Unit :=
  refuseIf (OrdMap.setOf (objects.map VerifiedObjectEnvelope.descriptor) ≠ staged.objects)
    objectMismatch

def captureLimits (limits : SyncLimits) : CaptureLimits :=
  ⟨limits.maxComponents.toNat, limits.maxObjectBytes.toNat, limits.maxObjectBytes.toNat⟩

variable (blake3 : Bytes → Digest) (codec : ControlCodec) (snapshots : SnapshotCodec)

/-- The generation of the head to publish, with the head that it follows. -/
def nextGeneration (inspected : Inspected) (limits : SyncLimits) :
    Except BackendError (UInt64 × Option PortablePath × Option UInt64) :=
  match inspected.head with
  | none => .ok (1, none, none)
  | some head =>
    match checkedSucc head.generation with
    | none => .error generationOverflow
    | some generation => do
      refuseIf (generation.toNat > limits.maxBackendHistory.toNat) historyExceeded
      pure (generation, inspected.headPath, some head.generation)

def preparePublication (texts : Files) (expected : RemoteRevision) (id : PublicationId)
    (staged : PortableSnapshot) (objects : List VerifiedObjectEnvelope) (limits : SyncLimits) :
    Except BackendError PublicationIntent := do
  requireSupplied staged objects
  validateObjectBudget objects limits
  let inspected ← inspectStore blake3 codec snapshots texts limits
  refuseIf (inspected.remote.revision ≠ expected) stale
  let (generation, priorHeadPath, priorGeneration) ← nextGeneration inspected limits
  let snapshotFile ← snapshotPath staged.snapshotDigest
  let encoded ← canonical codec.encodeHead
    { schemaVersion := 1
      publicationId := id
      generation
      snapshotDigest := staged.snapshotDigest
      snapshotFile
      priorHeadPath
      priorGeneration
      priorRevision := expected }
  let revision ← headRevision blake3 encoded
  PublicationIntent.fromPersisted encoded revision limits

/-- The head of an intent, when the intent is one for the staged snapshot. -/
def intentHead (intent : PublicationIntent) (limits : SyncLimits) : Except BackendError Head := do
  let head ← parseHead codec intent.encoded limits
  let revision ← headRevision blake3 intent.encoded
  refuseIf (revision ≠ intent.proposedRevision) intentInvalid
  pure head

def reconcile (texts : Files) (intent : PublicationIntent) (limits : SyncLimits) :
    Except BackendError PublicationStatus := do
  let proposed ← intentHead blake3 codec intent limits
  match inspectStore blake3 codec snapshots texts limits with
  | .error _ => pure .uncertain
  | .ok inspected =>
    if inspected.history.contains intent.proposedRevision then
      pure (.published intent.proposedRevision)
    else if inspected.remote.revision = proposed.priorRevision then pure .ready
    else pure .uncertain

variable (decode : ObjectDecoder)

def publishObject (stage : PortablePath) (limits : SyncLimits) (object : VerifiedObjectEnvelope) :
    RemoteProgram Unit := do
  let destination ← Program.ofExcept (remoteObjectPath object.descriptor)
  let staging ← Program.ofExcept (joined stage object.descriptor.root.bytes)
  Program.zoom RemoteStore.objectsLens <| Program.mapError (fun _ => filesystemIo) <| do
    Objects.stage decode staging object.files (captureLimits limits) object.descriptor.objectHash
      object.descriptor.kind
    Objects.install decode staging destination object.descriptor.objectHash (captureLimits limits)
      object.descriptor.kind

/-- Guarded replacement of one control file. -/
def replaceText (exchange : Bool) (staging destination : PortablePath) (expected : Option Bytes)
    (text : Bytes) (maxBytes : Nat) (error : BackendError) : RemoteProgram Unit :=
  Program.zoom RemoteStore.textsLens <| Program.mapError (fun _ => error) <|
    Files.replaceTextAtomicallyGuarded exchange staging destination expected text maxBytes

def installImmutableText (exchange : Bool) (staging destination : PortablePath) (text : Bytes)
    (limits : SyncLimits) : RemoteProgram Unit :=
  replaceText exchange staging destination none text limits.maxSnapshotBytes.toNat filesystemIo

/-- Publishes an intent on a platform with or without atomic exchange. -/
def publish (exchange : Bool) (intent : PublicationIntent) (staged : PortableSnapshot)
    (objects : List VerifiedObjectEnvelope) (limits : SyncLimits) :
    RemoteProgram PublicationStatus := do
  let head ← Program.ofExcept (intentHead blake3 codec intent limits)
  Program.require (head.snapshotDigest = staged.snapshotDigest) intentInvalid
  let store ← Program.inspect id
  let current ← Program.ofExcept (inspectStore blake3 codec snapshots store.texts limits)
  if current.remote.revision ≠ head.priorRevision then pure .uncertain
  else do
    Program.ofExcept (requireSupplied staged objects)
    Program.ofExcept (validateObjectBudget objects limits)
    let stage ← Program.ofExcept (stagePrefix head.publicationId)
    objects.forM (publishObject decode stage limits)
    let snapshotText ← Program.ofExcept
      ((staged.toJson snapshots limits).mapError fun _ => invalidRemote)
    let snapshotStaging ← Program.ofExcept (joined stage (ascii "snapshot.json"))
    installImmutableText exchange snapshotStaging head.snapshotFile snapshotText limits
    let path ← Program.ofExcept (headPath blake3 head intent.encoded)
    let headStaging ← Program.ofExcept (joined stage (ascii "head.json"))
    installImmutableText exchange headStaging path intent.encoded limits
    let pointerText ← Program.ofExcept
      (canonical codec.encodeCurrent ⟨1, path, intent.proposedRevision⟩)
    let pointerStaging ← Program.ofExcept (joined stage (ascii "current.json"))
    let destination ← Program.ofExcept currentPath
    replaceText exchange pointerStaging destination current.currentText pointerText
      limits.maxControlBytes.toNat stale
    pure (.published intent.proposedRevision)

end Publishing

end Kitrove
