import Kitrove.Backend.Filesystem
import Kitrove.Git.Advertisement
import Kitrove.Git.Tree

/-! Publications to a Git remote: the commit and the objects of a snapshot, the intent that records
them, the history that is read back from a remote, and the reconciliation of an intent with it. -/

namespace Kitrove.Git

open Std

def objectMismatch : BackendError :=
  ⟨"sync_backend.object_mismatch", "supplied objects do not exactly match snapshot authority"⟩

def stale : BackendError :=
  ⟨"sync_backend.stale_revision", "remote authority no longer matches the expected revision"⟩

def intentInvalid : BackendError :=
  ⟨"sync_backend.intent_invalid", "Git publication intent is invalid"⟩

def invalidHistory : BackendError :=
  ⟨"sync_backend.git_history_invalid", "Git selected history is invalid"⟩

structure GitSyncLimits where
  maxRequestBodyBytes : UInt64
  maxReceivedPackBytes : UInt64
  maxDecodedObjects : Nat

structure GitLimits extends SyncLimits where
  git : GitSyncLimits

/-- A commit as the Git libraries read it, its identifiers in hexadecimal. -/
structure CommitRef where
  tree : Bytes
  parents : List Bytes

structure GitPublicationIntent where
  schemaVersion : UInt32
  expected : RemoteRevision
  publicationId : PublicationId
  snapshotDigest : SnapshotDigest
  objectOids : OrdSet Bytes
  treeOid : Bytes
  commitOid : Bytes
  packChecksum : Bytes
  deriving DecidableEq

/-- What is used of the Git and JSON libraries for commits, packs and intents. -/
structure GitCodec (ObjectId : Type) extends GitLibrary ObjectId where
  null : ObjectId
  hex : ObjectId → Bytes
  fromHex : Bytes → Option ObjectId
  parseCommit : Bytes → Option CommitRef
  packHeader : Nat → Bytes
  /-- The header and the compressed data of one object. -/
  packEntry : GitObject → Option Bytes
  packChecksum : Bytes → Option ObjectId
  encodeIntent : GitPublicationIntent → Option Bytes
  decodeIntent : Bytes → Option GitPublicationIntent

/-- The verified objects of a snapshot, as they are stored and read back. -/
structure EnvelopeLibrary (Envelope : Type) where
  descriptor : Envelope → ObjectDescriptor
  /-- The metadata and the payload. -/
  stored : Envelope → Except BackendError (Bytes × OrdMap PortablePath Bytes)
  fromStored : SnapshotObjectKind → PortablePath → UInt64 → Bytes → OrdMap PortablePath Bytes →
    Except BackendError Envelope

section Paths

def absentRevision : Bytes := ascii "git:absent:v1"

def commitQualifier : Bytes := ascii "git:sha1:"

def parsePath (path : Bytes) : Except BackendError PortablePath :=
  required (Name.parse .path path) invalidTree

def snapshotFile : Bytes := ascii "snapshot.json"

def objectLead (root : PortablePath) : Bytes := ascii "objects/" ++ root.bytes ++ ascii "/"

def metadataFile (root : PortablePath) : Bytes := objectLead root ++ ascii "metadata.json"

def payloadLead (root : PortablePath) : Bytes := objectLead root ++ ascii "payload/"

end Paths

section Files

variable {Envelope : Type} (envelopes : EnvelopeLibrary Envelope)

abbrev FlatFiles := OrdMap PortablePath Bytes

def insertFlat (files : FlatFiles) (path bytes : Bytes) : Except BackendError FlatFiles := do
  let path ← parsePath path
  if files.contains path then .error invalidTree else .ok (files.insert path bytes)

def insertPayload (root : PortablePath) (files : FlatFiles) (file : PortablePath × Bytes) :
    Except BackendError FlatFiles :=
  insertFlat files (payloadLead root ++ file.1.bytes) file.2

/-- The files of one object, after its length has been counted. -/
def insertEnvelope (limits : SyncLimits) (state : Nat × FlatFiles) (envelope : Envelope) :
    Except BackendError (Nat × FlatFiles) := do
  let descriptor := envelopes.descriptor envelope
  let total := state.1 + descriptor.encodedLen.toNat
  reject (total ≥ 2 ^ 64) limitExceeded
  reject (descriptor.encodedLen > limits.maxObjectBytes ||
    total > limits.maxTotalObjectBytes.toNat) limitExceeded
  let (metadata, payload) ← envelopes.stored envelope
  let files ← insertFlat state.2 (metadataFile descriptor.root) metadata
  let files ← payload.toList.foldlM (insertPayload descriptor.root) files
  .ok (total, files)

/-- The files of a snapshot with its objects. -/
def flatFiles (snapshots : SnapshotCodec) (staged : PortableSnapshot) (supplied : List Envelope)
    (limits : SyncLimits) : Except BackendError FlatFiles := do
  reject (OrdMap.setOf (supplied.map envelopes.descriptor) ≠ staged.objects) objectMismatch
  let text ← (staged.toJson snapshots limits).mapError fun _ => invalidTree
  let files ← insertFlat ∅ snapshotFile text
  let (_, files) ← supplied.foldlM (insertEnvelope envelopes limits) (0, files)
  .ok files

end Files

section Commits

variable {ObjectId : Type} (lib : GitCodec ObjectId)

def parseExpectedParent (expected : RemoteRevision) : Except BackendError (Option ObjectId) :=
  if expected.bytes = absentRevision then .ok none
  else
    match (stripPrefix commitQualifier expected.bytes).bind lib.fromHex with
    | some parent => .ok (some parent)
    | none => .error intentInvalid

def commitSignatures : Bytes :=
  ascii "author KitRove <sync@kitrove.invalid> 0 +0000\ncommitter KitRove <sync@kitrove.invalid> 0 +0000\n\n"

def commitMessage (id : PublicationId) (digest : SnapshotDigest) : Bytes :=
  ascii "kitrove-sync-v1\npublication " ++ id.asStr ++ ascii "\nsnapshot " ++ digest.bytes ++ [newline]

/-- The lines of a commit that name other objects. -/
def commitLinks (tree : ObjectId) (parents : List ObjectId) : Bytes :=
  ascii "tree " ++ lib.hex tree ++ [newline] ++
    parents.flatMap fun parent => ascii "parent " ++ lib.hex parent ++ [newline]

def deterministicCommit (tree : ObjectId) (parent : Option ObjectId) (id : PublicationId)
    (digest : SnapshotDigest) : Bytes :=
  commitLinks lib tree parent.toList ++ commitSignatures ++ commitMessage id digest

def commitRevision (commit : ObjectId) : Bytes := commitQualifier ++ lib.hex commit

/-- The revision of a remote by the commit that it selects. -/
def revisionOf : Option ObjectId → Bytes
  | none => absentRevision
  | some commit => commitRevision lib commit

end Commits

section Constructing

variable {ObjectId : Type} [Ord ObjectId] [TransOrd ObjectId] (lib : GitCodec ObjectId)

def packObject (limits : GitSyncLimits) (pack : Bytes) (object : GitObject) : Except BackendError Bytes := do
  reject (object.kind = .tag) invalidPack
  let entry ← required (lib.packEntry object) invalidPack
  let pack := pack ++ entry
  reject (pack.length > limits.maxReceivedPackBytes.toNat) limitExceeded
  .ok pack

/-- The pack of some objects, with its checksum. -/
def encodePack (objects : GitObjectMap ObjectId) (limits : GitSyncLimits) :
    Except BackendError (Bytes × ObjectId) := do
  reject (objects.size ≥ 2 ^ 32) limitExceeded
  let pack ← objects.values.foldlM (packObject lib limits) (lib.packHeader objects.size)
  let checksum ← required (lib.packChecksum pack) invalidPack
  let pack := pack ++ lib.asSlice checksum
  reject (pack.length > limits.maxReceivedPackBytes.toNat ||
    pack.length > limits.maxRequestBodyBytes.toNat) limitExceeded
  .ok (pack, checksum)

structure ConstructedPublication (ObjectId : Type) [Ord ObjectId] where
  intent : PublicationIntent
  objects : GitObjectMap ObjectId
  pack : Bytes
  expectedOid : ObjectId
  commitOid : ObjectId

variable {Envelope : Type} (envelopes : EnvelopeLibrary Envelope) (snapshots : SnapshotCodec)

def constructGitPublication (expected : RemoteRevision) (id : PublicationId) (staged : PortableSnapshot)
    (supplied : List Envelope) (limits : GitLimits) :
    Except BackendError (ConstructedPublication ObjectId) := do
  let files ← flatFiles envelopes snapshots staged supplied limits.toSyncLimits
  let root ← buildTree files
  let (tree, objects) ← storeTree lib.toGitLibrary root ∅
  let parent ← parseExpectedParent lib expected
  let (commit, objects) ← insertGitObject lib.toGitLibrary objects .commit
    (deterministicCommit lib tree parent id staged.snapshotDigest)
  let (pack, checksum) ← encodePack lib objects limits.git
  let persisted : GitPublicationIntent :=
    { schemaVersion := 1
      expected
      publicationId := id
      snapshotDigest := staged.snapshotDigest
      objectOids := OrdMap.setOf (objects.keys.map lib.hex)
      treeOid := lib.hex tree
      commitOid := lib.hex commit
      packChecksum := lib.hex checksum }
  let encoded ← required (lib.encodeIntent persisted) intentInvalid
  let proposed ← required (Name.parse .remoteRevision (commitRevision lib commit)) intentInvalid
  let intent ← PublicationIntent.fromPersisted (encoded ++ [newline]) proposed limits.toSyncLimits
  .ok ⟨intent, objects, pack, parent.getD lib.null, commit⟩

/-- Prepares a publication where the remote is still as it was observed. -/
def preparePublication (observed expected : RemoteRevision) (id : PublicationId) (staged : PortableSnapshot)
    (supplied : List Envelope) (limits : GitLimits) : Except BackendError PublicationIntent := do
  reject (observed ≠ expected) stale
  let constructed ← constructGitPublication lib envelopes snapshots expected id staged supplied limits
  .ok constructed.intent

/-- The intent that was recorded, where it is recorded as it would be now. -/
def parsePublicationIntent (intent : PublicationIntent) (limits : SyncLimits) :
    Except BackendError GitPublicationIntent := do
  reject (intent.encoded.length > limits.maxControlBytes.toNat) intentInvalid
  let parsed ← required (lib.decodeIntent intent.encoded) intentInvalid
  reject (parsed.schemaVersion ≠ 1 || (lib.fromHex parsed.treeOid).isNone ||
    (lib.fromHex parsed.commitOid).isNone || (lib.fromHex parsed.packChecksum).isNone ||
    parsed.objectOids.isEmpty || !parsed.objectOids.contains parsed.treeOid ||
    !parsed.objectOids.contains parsed.commitOid ||
    (parsed.objectOids.toList.any fun oid => (lib.fromHex oid).isNone) ||
    intent.proposedRevision.bytes ≠ commitQualifier ++ parsed.commitOid) intentInvalid
  let canonical ← required (lib.encodeIntent parsed) intentInvalid
  reject (canonical ++ [newline] ≠ intent.encoded) intentInvalid
  .ok parsed

/-- The publication of an intent, constructed again. -/
def validateGitPublication (intent : PublicationIntent) (staged : PortableSnapshot)
    (supplied : List Envelope) (limits : GitLimits) :
    Except BackendError (ConstructedPublication ObjectId) := do
  let parsed ← parsePublicationIntent lib intent limits.toSyncLimits
  let constructed ← constructGitPublication lib envelopes snapshots parsed.expected parsed.publicationId
    staged supplied limits
  reject (constructed.intent ≠ intent) intentInvalid
  .ok constructed

end Constructing

section Sending

open Slices

variable {ObjectId : Type} (lib : GitCodec ObjectId)

/-- The command that replaces one selected commit by another. -/
def receiveCommand (old new : ObjectId) : Bytes :=
  lib.hex old ++ ascii " " ++ lib.hex new ++ ascii " " ++ fixedRef ++ 0 :: ascii "report-status\n"

def buildReceiveRequest (old new : ObjectId) (pack : Bytes) (limits : GitSyncLimits) :
    Checked BackendError Bytes := do
  let command ← encodePacketLine (receiveCommand lib old new) []
  let request := command ++ ascii "0000" ++ pack
  if request.length > limits.maxRequestBodyBytes.toNat then throw (.refused limitExceeded)
  else pure request

end Sending

section Taking

variable {Envelope : Type} (envelopes : EnvelopeLibrary Envelope)

/-- Moves one file below a payload's path to the payload. -/
def takePayload (root : PortablePath) (state : FlatFiles × FlatFiles) (path : PortablePath) :
    Except BackendError (FlatFiles × FlatFiles) := do
  let (payload, files) := state
  let relative ← required (stripPrefix (payloadLead root) path.bytes) invalidTree
  let relative ← parsePath relative
  let bytes ← required files[path]? invalidTree
  reject (payload.contains relative) invalidTree
  .ok (payload.insert relative bytes, files.erase path)

/-- Whether an object of a kind is its metadata alone. -/
def isDocument : SnapshotObjectKind → Bool
  | .portableSkillTree | .nativeSkillObject | .nativeExtensionObject => false
  | _ => true

/-- The object of a descriptor, and the files that are left. -/
def takeVerifiedObject (files : FlatFiles) (descriptor : ObjectDescriptor) :
    Except BackendError (Envelope × FlatFiles) := do
  let path ← parsePath (metadataFile descriptor.root)
  let metadata ← required files[path]? invalidTree
  reject (!Utf8.valid metadata) invalidTree
  let files := files.erase path
  let paths := files.keys.filter fun path => (payloadLead descriptor.root).isPrefixOf path.bytes
  let (payload, files) ← paths.foldlM (takePayload descriptor.root) (∅, files)
  reject (isDocument descriptor.kind && !payload.isEmpty) invalidTree
  let envelope ← envelopes.fromStored descriptor.kind descriptor.root descriptor.encodedLen metadata payload
  .ok (envelope, files)

abbrev VerifiedObjects (Envelope : Type) := OrdMap PortablePath Envelope

def takeDescriptor (state : FlatFiles × VerifiedObjects Envelope) (descriptor : ObjectDescriptor) :
    Except BackendError (FlatFiles × VerifiedObjects Envelope) := do
  let (envelope, files) ← takeVerifiedObject envelopes state.1 descriptor
  reject (envelopes.descriptor envelope ≠ descriptor || state.2.contains descriptor.root) invalidTree
  .ok (files, state.2.insert descriptor.root envelope)

/-- The snapshot in the files of a tree, with its objects, and the snapshot bytes that may still be read. -/
def takeSnapshot (blake3 : Bytes → Digest) (snapshots : SnapshotCodec) (limits : SyncLimits)
    (files : FlatFiles) (budget : Nat) :
    Except BackendError (PortableSnapshot × VerifiedObjects Envelope × Nat) := do
  let path ← parsePath snapshotFile
  let text ← required files[path]? invalidTree
  reject (text.length > budget) limitExceeded
  reject (!Utf8.valid text) invalidTree
  let snapshot ← (PortableSnapshot.fromJson blake3 snapshots text limits).mapError fun _ => invalidTree
  let (files, verified) ← snapshot.objects.toList.foldlM (takeDescriptor envelopes) (files.erase path, ∅)
  reject (!files.isEmpty) invalidTree
  .ok (snapshot, verified, budget - text.length)

end Taking

section History

variable {ObjectId : Type} [Ord ObjectId] [TransOrd ObjectId] (lib : GitCodec ObjectId)

structure FetchedGit (ObjectId : Type) [Ord ObjectId] where
  objects : GitObjectMap ObjectId
  shallow : OrdSet ObjectId

/-- The commits from the selected one back to the first, each with its tree; at most as many as may still
be read. -/
def verifyCommitChain (fetched : FetchedGit ObjectId) :
    Nat → OrdSet ObjectId → ObjectId → Except BackendError (List (ObjectId × ObjectId))
  | 0, _, _ => .error invalidHistory
  | fuel + 1, seen, current => do
    reject (seen.contains current) invalidHistory
    let object ← required fetched.objects[current]? invalidHistory
    reject (object.kind ≠ .commit) invalidHistory
    let commit ← required (lib.parseCommit object.data) invalidHistory
    reject (commit.parents.length > 1) invalidHistory
    let tree ← required (lib.fromHex commit.tree) invalidHistory
    match commit.parents with
    | [] => do
      reject (fetched.shallow.contains current) invalidHistory
      .ok [(current, tree)]
    | parent :: _ => do
      reject (fetched.shallow.contains current) limitExceeded
      let parent ← required (lib.fromHex parent) invalidHistory
      let rest ← verifyCommitChain fetched fuel (seen.insert current) parent
      .ok ((current, tree) :: rest)

variable {Envelope : Type} (envelopes : EnvelopeLibrary Envelope) (blake3 : Bytes → Digest)
  (snapshots : SnapshotCodec)

def verifySnapshotTree (fetched : FetchedGit ObjectId) (limits : GitLimits) (tree : ObjectId)
    (budget visits : Nat) :
    Except BackendError (PortableSnapshot × VerifiedObjects Envelope × Nat × Nat) := do
  let (files, visits) ← readTree lib.toGitLibrary fetched.objects tree visits
  let (snapshot, verified, budget) ← takeSnapshot envelopes blake3 snapshots limits.toSyncLimits files budget
  .ok (snapshot, verified, budget, visits)

def mergeObject (objects : VerifiedObjects Envelope) (object : PortablePath × Envelope) :
    Except BackendError (VerifiedObjects Envelope) :=
  match objects[object.1]? with
  | some existing =>
    if envelopes.descriptor existing = envelopes.descriptor object.2 then .ok objects
    else .error invalidTree
  | none => .ok (objects.insert object.1 object.2)

/-- What has been read of a history: its snapshots so far, their objects, the snapshots by their trees,
and the snapshot bytes and visits that are left. -/
structure HistoryState (ObjectId Envelope : Type) [Ord ObjectId] where
  snapshots : List (RemoteRevision × PortableSnapshot)
  objects : VerifiedObjects Envelope
  verifiedTrees : OrdMap ObjectId PortableSnapshot
  snapshotBudget : Nat
  traversalBudget : Nat

/-- The snapshot of a tree, read unless it has been. -/
def snapshotOfTree (fetched : FetchedGit ObjectId) (limits : GitLimits)
    (state : HistoryState ObjectId Envelope) (tree : ObjectId) :
    Except BackendError (PortableSnapshot × HistoryState ObjectId Envelope) := do
  match state.verifiedTrees[tree]? with
  | some snapshot => .ok (snapshot, state)
  | none => do
    let (snapshot, verified, budget, visits) ← verifySnapshotTree lib envelopes blake3 snapshots fetched
      limits tree state.snapshotBudget state.traversalBudget
    let objects ← verified.toList.foldlM (mergeObject envelopes) state.objects
    .ok (snapshot,
      { state with
        objects
        verifiedTrees := state.verifiedTrees.insert tree snapshot
        snapshotBudget := budget
        traversalBudget := visits })

def readCommit (fetched : FetchedGit ObjectId) (limits : GitLimits)
    (state : HistoryState ObjectId Envelope) (commit : ObjectId × ObjectId) :
    Except BackendError (HistoryState ObjectId Envelope) := do
  let (snapshot, state) ← snapshotOfTree lib envelopes blake3 snapshots fetched limits state commit.2
  let revision ← required (Name.parse .remoteRevision (commitRevision lib commit.1)) invalidHistory
  .ok { state with snapshots := state.snapshots ++ [(revision, snapshot)] }

structure VerifiedGitHistory (ObjectId Envelope : Type) where
  snapshots : List (RemoteRevision × PortableSnapshot)
  objects : VerifiedObjects Envelope
  commits : List ObjectId

def verifySelectedHistory (fetched : FetchedGit ObjectId) (limits : GitLimits) (selected : ObjectId) :
    Except BackendError (VerifiedGitHistory ObjectId Envelope) := do
  let history ← verifyCommitChain lib fetched limits.maxBackendHistory.toNat ∅ selected
  let state ← history.foldlM (readCommit lib envelopes blake3 snapshots fetched limits)
    ⟨[], ∅, ∅, limits.maxSnapshotBytes.toNat, limits.git.maxDecodedObjects⟩
  let _ ← ((state.objects.values.map envelopes.descriptor).foldlM (countDescriptor limits.toSyncLimits)
    (0, 0)).mapError fun _ => limitExceeded
  .ok ⟨state.snapshots, state.objects, history.map Prod.fst⟩

end History

section Observing

variable {ObjectId : Type} [Ord ObjectId] [TransOrd ObjectId] (lib : GitCodec ObjectId)

structure GitObservation (ObjectId Envelope : Type) where
  remote : RemoteSnapshot
  objects : VerifiedObjects Envelope
  history : List ObjectId
  rollbackHistory : Option (List (RemoteRevision × PortableSnapshot))

/-- `VerifiedRemoteHistory::new`. -/
def verifiedRemoteHistory (snapshots : List (RemoteRevision × PortableSnapshot)) (limits : SyncLimits) :
    Except BackendError (List (RemoteRevision × PortableSnapshot)) := do
  reject (snapshots.isEmpty || snapshots.length > limits.maxBackendHistory.toNat) invalidHistory
  reject (!decide (snapshots.map Prod.fst).Nodup) invalidHistory
  .ok snapshots

variable {Envelope : Type} (envelopes : EnvelopeLibrary Envelope) (blake3 : Bytes → Digest)
  (snapshots : SnapshotCodec)

def finishGitObservation (limits : GitLimits) :
    Option ObjectId → Option (FetchedGit ObjectId) → Except BackendError (GitObservation ObjectId Envelope)
  | some selected, some fetched => do
    let verified ← verifySelectedHistory lib envelopes blake3 snapshots fetched limits selected
    let history ← verifiedRemoteHistory verified.snapshots limits.toSyncLimits
    match history with
    | [] => .error invalidHistory
    | current :: _ => .ok ⟨⟨current.1, some current.2⟩, verified.objects, verified.commits, some history⟩
  | none, none => do
    let revision ← required (Name.parse .remoteRevision absentRevision) invalidProtocol
    .ok ⟨⟨revision, none⟩, ∅, [], none⟩
  | _, _ => .error invalidProtocol

/-- What the observed remote says of an intent. -/
def reconcileGitObservation [DecidableEq ObjectId] (intent : PublicationIntent)
    (parsed : GitPublicationIntent) (proposed : ObjectId) (observed : GitObservation ObjectId Envelope) : PublicationStatus :=
  if observed.history.contains proposed then .published intent.proposedRevision
  else if observed.remote.revision = parsed.expected then .ready
  else .uncertain

/-- Reconciles an intent with an observation, which may have failed. -/
def reconcile [DecidableEq ObjectId] (intent : PublicationIntent) (limits : SyncLimits)
    (inspected : Except BackendError (GitObservation ObjectId Envelope)) :
    Except BackendError PublicationStatus := do
  let parsed ← parsePublicationIntent lib intent limits
  let proposed ← required (lib.fromHex parsed.commitOid) intentInvalid
  match inspected with
  | .error _ => .ok .uncertain
  | .ok observed => .ok (reconcileGitObservation intent parsed proposed observed)

end Observing

end Kitrove.Git
