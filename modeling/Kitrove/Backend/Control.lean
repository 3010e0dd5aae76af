import Kitrove.Storage.Objects
import Kitrove.Sync.Plan

/-! The control documents of a filesystem remote: the pointer, the heads and their paths. -/

namespace Kitrove

open Crash

structure BackendError where
  code : String
  message : String
  deriving DecidableEq

namespace BackendError

def filesystemIo : BackendError :=
  ⟨"sync_backend.filesystem_io", "filesystem backend operation failed safely"⟩

def invalidRemote : BackendError :=
  ⟨"sync_backend.invalid_remote", "filesystem remote authority is invalid"⟩

def stale : BackendError := ⟨"sync_backend.remote_stale", "filesystem remote revision changed"⟩

def intentInvalid : BackendError :=
  ⟨"sync_backend.intent_invalid", "publication intent is invalid"⟩

def objectMismatch : BackendError :=
  ⟨"sync_backend.object_mismatch", "publication objects do not match snapshot"⟩

def generationOverflow : BackendError :=
  ⟨"sync_backend.generation_overflow", "backend generation cannot advance"⟩

def historyExceeded : BackendError :=
  ⟨"sync_backend.history_exceeded", "backend history exceeds the request limit"⟩

def controlBudgetExceeded : BackendError :=
  ⟨"sync_backend.control_budget_exceeded", "backend control data exceeds the request limit"⟩

def objectBudgetExceeded : BackendError :=
  ⟨"sync_backend.object_budget_exceeded", "backend objects exceed the request limit"⟩

end BackendError

open BackendError

/-- A publication identifier, by the digest that follows its qualifier. -/
structure PublicationId where
  digest : Digest
  deriving DecidableEq

def PublicationId.asStr (id : PublicationId) : Bytes :=
  ascii "publication:blake3:" ++ id.digest.hex

/-- The pointer to the selected head. -/
structure Current where
  schemaVersion : UInt32
  headPath : PortablePath
  revision : RemoteRevision
  deriving DecidableEq

structure Head where
  schemaVersion : UInt32
  publicationId : PublicationId
  generation : UInt64
  snapshotDigest : SnapshotDigest
  snapshotFile : PortablePath
  priorHeadPath : Option PortablePath
  priorGeneration : Option UInt64
  priorRevision : RemoteRevision
  deriving DecidableEq

/-- The JSON library at the types of the control documents. -/
structure ControlCodec where
  encodeCurrent : Current → Option Bytes
  decodeCurrent : Bytes → Option Current
  encodeHead : Head → Option Bytes
  decodeHead : Bytes → Option Head

structure ControlCodec.Lawful (codec : ControlCodec) : Prop where
  current : ∀ value text, codec.encodeCurrent value = some text →
    codec.decodeCurrent (text ++ [newline]) = some value
  head : ∀ value text, codec.encodeHead value = some text →
    codec.decodeHead (text ++ [newline]) = some value

section Documents

/-- `canonical`: the pretty-printed document with a final newline. -/
def canonical {α : Type} (encode : α → Option Bytes) (value : α) : Except BackendError Bytes :=
  match encode value with
  | none => .error invalidRemote
  | some text => .ok (text ++ [newline])

def parseCanonical {α : Type} (encode : α → Option Bytes) (decode : Bytes → Option α)
    (text : Bytes) : Except BackendError α :=
  match decode text with
  | none => .error invalidRemote
  | some value => do
    let encoded ← canonical encode value
    refuseIf (encoded ≠ text) invalidRemote
    pure value

variable (blake3 : Bytes → Digest) (codec : ControlCodec)

def parseHead (text : Bytes) (limits : SyncLimits) : Except BackendError Head := do
  refuseIf (text.length > limits.maxControlBytes.toNat) invalidRemote
  let head ← parseCanonical codec.encodeHead codec.decodeHead text
  refuseIf (head.schemaVersion ≠ 1) invalidRemote
  pure head

end Documents

section Paths

def portable (value : Bytes) : Except BackendError PortablePath :=
  match Name.parse .path value with
  | none => .error invalidRemote
  | some path => .ok path

def joined (base : PortablePath) (suffix : Bytes) : Except BackendError PortablePath :=
  portable (base.bytes ++ ascii "/" ++ suffix)

def controlRoot : Bytes := ascii ".kitrove-sync"

/-- `rsplit(':').next()`. -/
def afterLastColon (value : Bytes) : Bytes := ((splitOn 0x3A value).getLast?).getD []

/-- `{:020}`. -/
def zeroPadded (n : Nat) : Bytes :=
  let digits := ascii (toString n)
  List.replicate (20 - digits.length) 0x30 ++ digits

def currentPath : Except BackendError PortablePath := portable (controlRoot ++ ascii "/current.json")

def revisionText (blake3 : Bytes → Digest) (text : Bytes) : Bytes :=
  ascii "filesystem:head:blake3:" ++ (blake3 text).hex

def parseRevision (value : Bytes) : Except BackendError RemoteRevision :=
  match Name.parse .remoteRevision value with
  | none => .error invalidRemote
  | some revision => .ok revision

def headRevision (blake3 : Bytes → Digest) (text : Bytes) : Except BackendError RemoteRevision :=
  parseRevision (revisionText blake3 text)

def headPath (blake3 : Bytes → Digest) (head : Head) (text : Bytes) :
    Except BackendError PortablePath := do
  let revision ← headRevision blake3 text
  portable (controlRoot ++ ascii "/heads/" ++ zeroPadded head.generation.toNat ++ ascii "-" ++
    afterLastColon revision.bytes ++ ascii ".json")

def snapshotPath (digest : SnapshotDigest) : Except BackendError PortablePath :=
  portable (controlRoot ++ ascii "/snapshots/" ++ afterLastColon digest.bytes ++ ascii ".json")

def stagePrefix (id : PublicationId) : Except BackendError PortablePath :=
  portable (controlRoot ++ ascii "/staging/" ++ afterLastColon id.asStr)

def remoteObjectPath (descriptor : ObjectDescriptor) : Except BackendError PortablePath :=
  portable (controlRoot ++ ascii "/" ++ descriptor.root.bytes)

def absentRevision : RemoteRevision :=
  ⟨ascii "filesystem:absent:v1", by decide +kernel, by decide +kernel⟩

end Paths

end Kitrove
