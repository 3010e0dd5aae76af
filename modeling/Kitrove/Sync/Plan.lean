import Kitrove.Merge.Budget
import Kitrove.Sync.SnapshotCodec

/-! Planning a synchronization: what is merged, and which objects move where. -/

namespace Kitrove

open Std Except

inductive SyncDisposition where
  | publish
  | receive
  | merge
  | establishBase
  | unchanged
  deriving DecidableEq

def SyncDisposition.tag : SyncDisposition → Bytes
  | .publish => ascii "publish"
  | .receive => ascii "receive"
  | .merge => ascii "merge"
  | .establishBase => ascii "establish-base"
  | .unchanged => ascii "unchanged"

structure SyncBaseInput where
  snapshot : PortableSnapshot
  backendRevision : RemoteRevision
  deriving DecidableEq

structure RemoteSnapshot where
  revision : RemoteRevision
  snapshot : Option PortableSnapshot
  deriving DecidableEq

structure SyncPlan where
  disposition : SyncDisposition
  here : PortableSnapshot
  base : Option SyncBaseInput
  remoteRevision : RemoteRevision
  remoteSnapshot : Option PortableSnapshot
  merged : PortableSnapshot
  upload : OrdSet ObjectDescriptor
  download : OrdSet ObjectDescriptor
  digest : ContentHash

inductive SyncPlanOutcome where
  | ready (plan : SyncPlan)
  | blocked (conflicts : List SyncConflict)

structure SyncPlanningError where
  code : String
  message : String
  deriving DecidableEq

def invalidPlan : SyncPlanningError :=
  ⟨"sync.plan_invalid", "synchronization inputs cannot produce a valid bounded plan"⟩

section Planning

/-- `map_err(|_| invalid_plan())`. -/
def orInvalidPlan {ε α : Type} (result : Except ε α) : Except SyncPlanningError α :=
  result.mapError fun _ => invalidPlan

def manifestEmpty (m : EnvironmentManifest) : Bool :=
  m.assets.isEmpty && m.packs.isEmpty && m.profiles.isEmpty && m.requiredBindings.isEmpty

def dispositionOf (here remote merged : PortableSnapshot) : SyncDisposition :=
  match decide (here.snapshotDigest ≠ merged.snapshotDigest),
      decide (remote.snapshotDigest ≠ merged.snapshotDigest) with
  | false, false => .unchanged
  | false, true => .publish
  | true, false => .receive
  | true, true => .merge

abbrev AvailableObjects := OrdMap PortablePath ObjectDescriptor

def makeAvailable (available : AvailableObjects) (descriptor : ObjectDescriptor) :
    Except SyncPlanningError AvailableObjects :=
  if available[descriptor.root]?.any (· ≠ descriptor) then .error invalidPlan
  else .ok (available.insert descriptor.root descriptor)

/-- The root and the hash of each component's object. -/
def componentObjects (m : EnvironmentManifest) : List (PortablePath × ContentHash) :=
  m.assets.values.flatMap fun asset =>
    (asset.portable.toList.map fun portable => (portable.root, portable.objectHash)) ++
      asset.nativeVariants.values.map fun variant => (variant.root, variant.objectHash)

def selectDescriptor (available : AvailableObjects) (selected : OrdSet ObjectDescriptor)
    (component : PortablePath × ContentHash) : Except SyncPlanningError (OrdSet ObjectDescriptor) :=
  match available[component.1]?.filter fun descriptor => descriptor.objectHash = component.2 with
  | none => .error invalidPlan
  | some descriptor => .ok (selected.insert descriptor)

def mergedDescriptors (m : EnvironmentManifest) (snapshots : List PortableSnapshot) :
    Except SyncPlanningError (OrdSet ObjectDescriptor) := do
  let available ← (snapshots.flatMap fun snapshot => snapshot.objects.toList).foldlM
    makeAvailable ∅
  (componentObjects m).foldlM (selectDescriptor available) ∅

variable (blake3 : Bytes → Digest) (codec : SnapshotCodec)
  (encodeDescriptor : ObjectDescriptor → Option Bytes)

/-- The texts that a plan's digest is taken of. -/
def planTexts (disposition : SyncDisposition) (here : PortableSnapshot)
    (base : Option SyncBaseInput) (remoteRevision : RemoteRevision)
    (remote : Option PortableSnapshot) (merged : PortableSnapshot)
    (upload download : OrdSet ObjectDescriptor) (limits : SyncLimits) :
    Except SyncPlanningError (List Bytes) := do
  let hereText ← orInvalidPlan (here.toJson codec limits)
  let baseTexts ←
    match base with
    | some base => do
      let text ← orInvalidPlan (base.snapshot.toJson codec limits)
      pure [ascii "base-present", text, base.backendRevision.bytes]
    | none => pure [ascii "base-absent"]
  let remoteTexts ←
    match remote with
    | some remote => do
      let text ← orInvalidPlan (remote.toJson codec limits)
      pure [ascii "remote-present", text]
    | none => pure [ascii "remote-absent"]
  let mergedText ← orInvalidPlan (merged.toJson codec limits)
  let descriptorText := fun descriptor =>
    match encodeDescriptor descriptor with
    | none => Except.error invalidPlan
    | some text => .ok text
  let uploadTexts ← upload.toList.mapM descriptorText
  let downloadTexts ← download.toList.mapM descriptorText
  pure ([disposition.tag, ascii "local", hereText] ++ baseTexts ++
    [ascii "remote-revision", remoteRevision.bytes] ++ remoteTexts ++
    [ascii "merged", mergedText, ascii "upload"] ++ uploadTexts ++ [ascii "download"] ++
    downloadTexts)

def planDigest (texts : List Bytes) : ContentHash :=
  ContentHash.ofDigest <| blake3 <|
    ascii "kitrove-sync-plan-v1" ++ [0] ++
      texts.flatMap fun text => bigEndian64 text.length ++ text

variable (analysis : ObjectAnalysis) (objects : VerifiedSkillObjectCatalog)
  (capabilities : TierOneCapabilities)

/-- What a plan without a base merges to. -/
def planBootstrap (here : PortableSnapshot) (remote : Option PortableSnapshot) :
    Except SyncPlanningError (Except (List SyncConflict) (PortableSnapshot × SyncDisposition)) :=
  match remote with
  | none =>
    if manifestEmpty here.manifest then
      .error ⟨"sync.nothing_to_sync", "local and remote portable authority are both empty"⟩
    else .ok (.ok (here, .publish))
  | some remote =>
    if manifestEmpty here.manifest then .ok (.ok (remote, .receive))
    else if remote.snapshotDigest = here.snapshotDigest then .ok (.ok (here, .establishBase))
    else .ok (.error [⟨.bootstrapAmbiguous, .bootstrap⟩])

/-- What a plan over a retained base merges to. -/
def planMerge (here : PortableSnapshot) (base : SyncBaseInput) (remote : RemoteSnapshot)
    (limits : SyncLimits) :
    Except SyncPlanningError (Except (List SyncConflict) (PortableSnapshot × SyncDisposition)) :=
  match remote.snapshot with
  | none =>
    .error ⟨"sync.remote_history_missing", "a retained base requires present remote authority"⟩
  | some snapshot => do
    refuseIf (base.backendRevision = remote.revision &&
      base.snapshot.snapshotDigest ≠ snapshot.snapshotDigest) invalidPlan
    match ← orInvalidPlan (mergeManifests blake3 analysis objects capabilities
        base.snapshot.manifest here.manifest snapshot.manifest limits) with
    | .conflicted conflicts => pure (.error conflicts)
    | .merged manifest _ => do
      let descriptors ← mergedDescriptors manifest [here, base.snapshot, snapshot]
      let merged ← orInvalidPlan (PortableSnapshot.new blake3 codec manifest descriptors limits)
      pure (.ok (merged, dispositionOf here snapshot merged))

def planMerged (here : PortableSnapshot) (base : Option SyncBaseInput) (remote : RemoteSnapshot)
    (limits : SyncLimits) :
    Except SyncPlanningError (Except (List SyncConflict) (PortableSnapshot × SyncDisposition)) :=
  match base with
  | none => planBootstrap here remote.snapshot
  | some base => planMerge blake3 codec analysis objects capabilities here base remote limits

/-- Plans a bootstrap or a three-way synchronization, without any effect. -/
def planSync (here : PortableSnapshot) (base : Option SyncBaseInput) (remote : RemoteSnapshot)
    (limits : SyncLimits) : Except SyncPlanningError SyncPlanOutcome := do
  ([here] ++ (base.map SyncBaseInput.snapshot).toList ++ remote.snapshot.toList).forM fun s =>
    orInvalidPlan (validateManifestObjectRisk blake3 analysis objects s.manifest limits)
  match ← planMerged blake3 codec analysis objects capabilities here base remote limits with
  | .error conflicts => pure (.blocked conflicts)
  | .ok (merged, disposition) => do
    let remoteObjects := (remote.snapshot.map PortableSnapshot.objects).getD ∅
    let upload := merged.objects.filter fun descriptor => !remoteObjects.contains descriptor
    let download := merged.objects.filter fun descriptor => !here.objects.contains descriptor
    let texts ← planTexts codec encodeDescriptor disposition here base remote.revision
      remote.snapshot merged upload download limits
    pure (.ready
      { disposition, here, base
        remoteRevision := remote.revision
        remoteSnapshot := remote.snapshot
        merged, upload, download
        digest := planDigest blake3 texts })

end Planning

end Kitrove
