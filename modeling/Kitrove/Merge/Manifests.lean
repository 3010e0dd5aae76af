import Kitrove.Merge.Objects
import Kitrove.Support.Report

/-! The three-way semantic merge of environment manifests. -/

namespace Kitrove

open Std

structure AssetDraft where
  id : AssetId
  kind : AssetKind
  provenance : OrdMap ProvenanceId ComponentProvenance
  portable : Option PortableContent
  nativeVariants : OrdMap HarnessId NativeVariant
  requiredBindings : OrdSet BindingName
  deriving DecidableEq

structure PackSourceDraft where
  source : Source
  revision : Revision
  exactSourceHash : ContentHash
  deriving DecidableEq

structure PackDraft where
  id : AssetId
  source : PackSourceDraft
  members : OrdSet AssetId
  deriving DecidableEq

abbrev MergeM := ReportM SemanticMergeError SyncConflict

def pushConflict (limits : SyncLimits) (code : SyncConflictCode) (subject : SyncConflictSubject) :
    MergeM Unit :=
  ReportM.push limits.maxConflicts.toNat
    ⟨"sync_merge.conflict_limit_exceeded",
      "semantic conflict count exceeds the configured limit"⟩ ⟨code, subject⟩

/-- The side that differs from the base, or the common value. -/
def choose {α : Type} [DecidableEq α] (base here there : α) : Option α :=
  if here = there then some here
  else if here = base then some there
  else if there = base then some here
  else none

section Assets

variable (limits : SyncLimits)

def normalizedNative (value : NativeVariant) : NativeVariant :=
  { value with contentClass := .dataOnly }

def draftFromAsset (asset : Asset) : AssetDraft where
  id := asset.id
  kind := asset.kind
  provenance := asset.provenance
  portable := asset.portable
  nativeVariants := asset.nativeVariants
  requiredBindings := asset.requiredBindings

/-- The one record that the sources have for a provenance identity. -/
def provenanceRecord (sources : List Asset) (id : ProvenanceId) :
    Except SemanticMergeError ComponentProvenance :=
  match sources.filterMap fun asset => asset.provenance[id]? with
  | [] =>
    .error ⟨"sync_merge.provenance_missing", "a selected component is missing provenance"⟩
  | record :: records =>
    if records.any (· ≠ record) then
      .error ⟨"sync_merge.provenance_collision",
        "one provenance identity maps to distinct records"⟩
    else .ok record

def collectProvenance (portable : Option PortableContent)
    (native : OrdMap HarnessId NativeVariant) (sources : List Asset) :
    Except SemanticMergeError (OrdMap ProvenanceId ComponentProvenance) :=
  OrdMap.buildM (referencedProvenance portable native).toList fun id => do
    let record ← provenanceRecord sources id
    pure (some record)

def mergeSetMembership {α : Type} [Ord α] [TransOrd α] (base here there : OrdSet α) : OrdSet α :=
  (base ∪ here ∪ there).filter fun name =>
    (choose (base.contains name) (here.contains name) (there.contains name)).getD false

def mergeKind (base here there : Asset) : MergeM AssetKind :=
  match choose base.kind here.kind there.kind with
  | some kind => pure kind
  | none => do
    pushConflict limits .divergentComponent (.assetKind base.id)
    pure base.kind

def mergePortable (base here there : Asset) : MergeM (Option PortableContent) :=
  if base.portable.isSome && (here.portable.isNone || there.portable.isNone) then do
    pushConflict limits .deletionUnsupported (.portable base.id)
    pure base.portable
  else
    match choose base.portable here.portable there.portable with
    | some portable => pure portable
    | none => do
      pushConflict limits .divergentComponent (.portable base.id)
      pure base.portable

def mergeNative (base here there : Asset) (harness : HarnessId) :
    MergeM (Option NativeVariant) :=
  let baseValue := base.nativeVariants[harness]?
  let hereValue := here.nativeVariants[harness]?
  let thereValue := there.nativeVariants[harness]?
  if baseValue.isSome && (hereValue.isNone || thereValue.isNone) then do
    pushConflict limits .deletionUnsupported (.native base.id harness)
    pure (baseValue.map normalizedNative)
  else
    match choose (baseValue.map normalizedNative) (hereValue.map normalizedNative)
        (thereValue.map normalizedNative) with
    | some value => pure value
    | none => do
      pushConflict limits .divergentComponent (.native base.id harness)
      pure (baseValue.map normalizedNative)

def mergeExistingAsset (base here there : Asset) : MergeM AssetDraft := do
  let kind ← mergeKind limits base here there
  let portable ← mergePortable limits base here there
  let harnesses := OrdMap.keySet base.nativeVariants ∪ OrdMap.keySet here.nativeVariants ∪
    OrdMap.keySet there.nativeVariants
  let nativeVariants ← OrdMap.buildM harnesses.toList (mergeNative limits base here there)
  let provenance ← ReportM.lift (collectProvenance portable nativeVariants [base, here, there])
  pure
    { id := base.id
      kind
      provenance
      portable
      nativeVariants
      requiredBindings := mergeSetMembership base.requiredBindings here.requiredBindings
        there.requiredBindings }

/-- Where the deletion of an asset is reported. -/
def deletionSubject (id : AssetId) (base : Asset) : SyncConflictSubject :=
  if base.kind = .extension && base.nativeVariants.contains .pi then .native id .pi
  else .assetKind id

def supportedShape (draft : AssetDraft) : Bool :=
  match draft.kind with
  | .skill =>
    (draft.portable.isSome || !draft.nativeVariants.isEmpty) &&
      (draft.portable.all fun portable => portable.format = portableSkillFormat) &&
      draft.nativeVariants.values.all fun native => native.format = nativeSkillFormat
  | .extension =>
    draft.portable.isNone && draft.nativeVariants.size = 1 &&
      draft.nativeVariants[HarnessId.pi]?.any fun native => native.format = nativeExtensionFormat
  | _ => false

/-- The draft of one asset, before its shape is looked at. -/
def mergeAssetSides (id : AssetId) (base here there : Option Asset) :
    MergeM (Option AssetDraft) :=
  match base, here, there with
  | some base, none, _ | some base, some _, none => do
    pushConflict limits .deletionUnsupported (deletionSubject id base)
    pure none
  | none, some here, some there =>
    if here ≠ there then do
      pushConflict limits .divergentComponent (.assetKind id)
      pure none
    else pure (some (draftFromAsset here))
  | none, some asset, none | none, none, some asset => pure (some (draftFromAsset asset))
  | some base, some here, some there => do
    let draft ← mergeExistingAsset limits base here there
    pure (some draft)
  | none, none, none => pure none

def checkShape (draft : Option AssetDraft) : MergeM Unit :=
  match draft with
  | none => pure ()
  | some draft =>
    if supportedShape draft then pure ()
    else pushConflict limits .componentUnsupported (.assetKind draft.id)

def mergeAsset (base here there : OrdMap AssetId Asset) (id : AssetId) :
    MergeM (Option AssetDraft) := do
  let draft ← mergeAssetSides limits id base[id]? here[id]? there[id]?
  checkShape limits draft
  pure draft

def mergeAssets (base here there : OrdMap AssetId Asset) : MergeM (OrdMap AssetId AssetDraft) :=
  OrdMap.buildM (OrdMap.keySet base ∪ OrdMap.keySet here ∪ OrdMap.keySet there).toList
    (mergeAsset limits base here there)

end Assets

section Packs

variable (limits : SyncLimits)

def packSource (pack : Pack) : PackSourceDraft := ⟨pack.source, pack.revision, pack.exactSourceHash⟩

def packMembers (pack : Pack) : OrdSet AssetId := OrdMap.keySet pack.members

/-- The source that the sides of a pack agree on. -/
def mergePackSource (id : AssetId) (base here there : Option Pack) :
    MergeM (Option PackSourceDraft) :=
  match base, here, there with
  | none, some here, some there =>
    if packSource here ≠ packSource there ∨ packMembers here ≠ packMembers there then do
      pushConflict limits .divergentComponent (.pack id)
      pure none
    else pure (some (packSource here))
  | none, some pack, none | none, none, some pack => pure (some (packSource pack))
  | some base, some here, some there =>
    match choose (packSource base) (packSource here) (packSource there) with
    | some source => pure (some source)
    | none => do
      pushConflict limits .divergentComponent (.pack id)
      pure none
  | _, _, _ => pure none

def membersOf (pack : Option Pack) : OrdSet AssetId := (pack.map packMembers).getD ∅

def mergePackSides (id : AssetId) (base here there : Option Pack) : MergeM (Option PackDraft) :=
  if base.isSome && (here.isNone || there.isNone) then do
    pushConflict limits .deletionUnsupported (.pack id)
    pure none
  else do
    match ← mergePackSource limits id base here there with
    | none => pure none
    | some source =>
      if (membersOf base).toList.any fun member =>
          !(membersOf here).contains member || !(membersOf there).contains member then do
        pushConflict limits .deletionUnsupported (.pack id)
        pure none
      else pure (some ⟨id, source, membersOf base ∪ membersOf here ∪ membersOf there⟩)

def mergePacks (base here there : PackMap) : MergeM (OrdMap AssetId PackDraft) :=
  OrdMap.buildM (OrdMap.keySet base ∪ OrdMap.keySet here ∪ OrdMap.keySet there).toList fun id =>
    mergePackSides limits id base[id]? here[id]? there[id]?

def rejectChangedProfile (base here there : OrdMap ProfileId Profile) (id : ProfileId) :
    MergeM Unit :=
  if base[id]? = here[id]? ∧ base[id]? = there[id]? then pure ()
  else if base.contains id && (!here.contains id || !there.contains id) then
    pushConflict limits .deletionUnsupported (.profile id)
  else pushConflict limits .componentUnsupported (.profile id)

def rejectChangedProfiles (base here there : OrdMap ProfileId Profile) : MergeM Unit :=
  (OrdMap.keySet base ∪ OrdMap.keySet here ∪ OrdMap.keySet there).toList.forM
    (rejectChangedProfile limits base here there)

end Packs

section Derivation

variable (blake3 : Bytes → Digest) (analysis : ObjectAnalysis)
  (objects : VerifiedSkillObjectCatalog) (capabilities : TierOneCapabilities)

def pendingHash (text : String) : ContentHash := ContentHash.ofDigest (blake3 (ascii text))

/-- What a merged asset can claim for one tier-one harness. -/
def harnessCompatibility (portable : Option StoredSkillTree)
    (nativeObjects : OrdMap HarnessId NativeSkillObject)
    (nativeComponents : OrdMap HarnessId NativeVariant) (harness : TierOneHarness) :
    Except ValidationError FidelityResult :=
  let support := capabilities.skill harness
  match nativeComponents[harness.id]? with
  | some native =>
    FidelityResult.exact .native
      (support.evidence ++ [⟨ascii "native.object_hash", native.objectHash.bytes⟩])
      support.adapterVersion support.harnessVersion
  | none =>
    match portable with
    | some portable =>
      let evidence := support.evidence ++
        [⟨ascii "portable.object_hash", portable.tree.hash.bytes⟩]
      if nativeObjects.values.all fun native => native.tree.hash = portable.tree.hash then
        FidelityResult.exact .portable evidence support.adapterVersion support.harnessVersion
      else
        FidelityResult.new ⟨.partial',
          [⟨ascii "sync.native_difference",
            ascii "origin-native bytes differ from the portable representation"⟩],
          evidence, [], support.adapterVersion, support.harnessVersion⟩
    | none =>
      FidelityResult.new ⟨.unsupported,
        [⟨ascii "sync.portable_missing",
          ascii "the merged asset has no portable representation for this target"⟩],
        support.evidence, [], support.adapterVersion, support.harnessVersion⟩

def deriveCompatibility (portable : Option StoredSkillTree)
    (nativeObjects : OrdMap HarnessId NativeSkillObject)
    (nativeComponents : OrdMap HarnessId NativeVariant) :
    Except SemanticMergeError (OrdMap HarnessId FidelityResult) :=
  tierOneHarnesses.foldlM (fun results harness =>
    match harnessCompatibility capabilities portable nativeObjects nativeComponents harness with
    | .error _ =>
      .error ⟨"sync_merge.derived_fidelity_invalid",
        "merged target fidelity could not be recomputed"⟩
    | .ok result => .ok (results.insert harness.id result)) ∅

def deriveNativeClass (object : NativeSkillObject) : Except SemanticMergeError ContentClass :=
  match analysis.nativeSkillRisk object with
  | none =>
    .error ⟨"sync_merge.derived_risk_invalid",
      "merged native object risk could not be recomputed"⟩
  | some nativeClass => .ok nativeClass

def mergedExtension (draft : AssetDraft) (component : NativeVariant)
    (compatibility : OrdMap HarnessId FidelityResult) : Asset :=
  Asset.refreshContentHash blake3
    { id := draft.id
      kind := .extension
      contentHash := pendingHash blake3 "pending-native-extension-merge"
      provenance := draft.provenance
      portable := none
      nativeVariants := draft.nativeVariants.insert .pi { component with contentClass := .executable }
      compatibility
      contentClass := .executable
      requiredBindings := draft.requiredBindings }

/-- The extension an extension draft stands for, derived from its verified object. -/
def deriveExtensionAsset (draft : AssetDraft) : Except SemanticMergeError Asset := do
  refuseIf (draft.portable.isSome || draft.nativeVariants.size ≠ 1)
    (extensionShapeInvalid
      "a native extension must have one Pi native variant and no portable component")
  match draft.nativeVariants[HarnessId.pi]? with
  | none => .error (extensionShapeInvalid "a native extension must have one Pi native variant")
  | some component => do
    refuseIf (component.format ≠ nativeExtensionFormat)
      ⟨"sync_merge.extension_format_invalid", "the native extension format is unsupported"⟩
    let object ← objects.findNativeExtension component.objectHash
    refuseIf (object.harness ≠ .pi)
      ⟨"sync_merge.native_harness_mismatch",
        "the native extension object harness does not match its component"⟩
    match analysis.nativeExecutableTreeRisk object.tree with
    | none =>
      .error ⟨"sync_merge.derived_risk_invalid",
        "merged native extension risk could not be recomputed"⟩
    | some _ =>
      match extensionCompatibility object.hash with
      | .error _ =>
        .error ⟨"sync_merge.derived_fidelity_invalid",
          "merged native extension fidelity could not be recomputed"⟩
      | .ok compatibility => do
        let asset := mergedExtension blake3 draft component compatibility
        validateExtensionSnapshotAsset analysis objects asset
        pure asset

def mergedPortableObject (portable : Option PortableContent) :
    Except SemanticMergeError (Option StoredSkillTree) :=
  match portable with
  | none => pure none
  | some component => some <$> objects.findPortable component.objectHash

def mergedPortableClass (object : Option StoredSkillTree) :
    Except SemanticMergeError ContentClass :=
  match object with
  | none => pure .dataOnly
  | some object =>
    portableSkillClass analysis "merged portable skill object is missing SKILL.md"
      "merged portable skill document is invalid"
      "merged portable skill document contains native-only fields"
      "merged portable object risk could not be recomputed" object

def deriveAsset (draft : AssetDraft) : Except SemanticMergeError Asset :=
  if draft.kind = .extension then deriveExtensionAsset blake3 analysis objects draft
  else do
    let portableObject ← mergedPortableObject objects draft.portable
    let nativeObjects ← OrdMap.traverse draft.nativeVariants fun _ component =>
      objects.findNative component.objectHash
    let portableClass ← mergedPortableClass analysis portableObject
    let nativeClasses ← OrdMap.traverse nativeObjects fun _ object =>
      deriveNativeClass analysis object
    let contentClass := nativeClasses.values.foldl ContentClass.max
      (ContentClass.dataOnly.max portableClass)
    let nativeVariants := draft.nativeVariants.map fun harness component =>
      { component with contentClass := nativeClasses[harness]?.getD component.contentClass }
    let compatibility ← deriveCompatibility capabilities portableObject nativeObjects nativeVariants
    pure <| Asset.refreshContentHash blake3
      { id := draft.id
        kind := draft.kind
        contentHash := pendingHash blake3 "pending-semantic-merge"
        provenance := draft.provenance
        portable := draft.portable
        nativeVariants
        compatibility
        contentClass
        requiredBindings := draft.requiredBindings }

/-- A skill derived again from its components, as updates and merges derive it. -/
def rederiveSkillAsset (id : AssetId) (provenance : OrdMap ProvenanceId ComponentProvenance)
    (portable : PortableContent) (nativeVariants : OrdMap HarnessId NativeVariant) :
    Except SemanticMergeError Asset :=
  deriveAsset blake3 analysis objects capabilities
    ⟨id, .skill, provenance, some portable, nativeVariants, ∅⟩

/-- A pack before its members' revisions are known. -/
def pendingPack (draft : PackDraft) : Pack where
  id := draft.id
  source := draft.source.source
  revision := draft.source.revision
  exactSourceHash := draft.source.exactSourceHash
  contentHash := pendingHash blake3 "pending-semantic-pack-merge"
  members := OrdMap.mapOf
    (draft.members.toList.map fun member => (member, pendingHash blake3 "pending-pack-member"))
  compatibility := ∅
  contentClass := .dataOnly
  requiredBindings := ∅

end Derivation

section Budget

def componentLimitError : SemanticMergeError :=
  ⟨"sync_merge.component_limit_exceeded",
    "semantic component count exceeds the configured limit"⟩

structure PackEdge where
  pack : AssetId
  member : AssetId
  deriving DecidableEq

namespace PackEdge

def key (edge : PackEdge) : List Bytes := [edge.pack.bytes, edge.member.bytes]

theorem key_injective {a b : PackEdge} (h : a.key = b.key) : a = b := by
  simp only [key, List.cons.injEq, and_true] at h
  obtain ⟨hpack, hmember⟩ := h
  have hpack := Name.ext_bytes hpack
  have hmember := Name.ext_bytes hmember
  cases a
  cases b
  congr

instance : Ord PackEdge := ⟨compareOn key⟩

instance : TransOrd PackEdge := inferInstanceAs (TransCmp (compareOn key))

instance : LawfulEqOrd PackEdge := lawfulEqCmp_compareOn fun _ _ h => key_injective h

end PackEdge

def packEdges (m : EnvironmentManifest) : List PackEdge :=
  m.packs.toList.flatMap fun (pack, value) => value.members.keys.map (PackEdge.mk pack)

/-- The identities of the assets, packs, profiles and bindings of three manifests. -/
def identityCount (base here there : EnvironmentManifest) : Nat :=
  (OrdMap.keySet base.assets ∪ OrdMap.keySet here.assets ∪ OrdMap.keySet there.assets).size +
    (OrdMap.keySet base.packs ∪ OrdMap.keySet here.packs ∪ OrdMap.keySet there.packs).size +
    (OrdMap.keySet base.profiles ∪ OrdMap.keySet here.profiles ∪
      OrdMap.keySet there.profiles).size +
    (base.requiredBindings ∪ here.requiredBindings ∪ there.requiredBindings).size

/-- The components that any of the sides has of one asset. -/
def assetComponents (assets : List Asset) : Nat :=
  (assets.any fun asset => asset.portable.isSome).toNat +
    (OrdMap.setOf (assets.flatMap fun asset => asset.nativeVariants.keys)).size

def chargeAsset (base here there : EnvironmentManifest) (limits : SyncLimits) (count : Nat)
    (id : AssetId) : Except SemanticMergeError Nat := do
  let count := count + assetComponents
    ([base.assets[id]?, here.assets[id]?, there.assets[id]?].filterMap fun asset => asset)
  refuseIf (count > limits.maxComponents.toNat) componentLimitError
  pure count

def validateMergedComponentBudget (base here there : EnvironmentManifest) (limits : SyncLimits) :
    Except SemanticMergeError Unit := do
  let count := identityCount base here there
  refuseIf (count > limits.maxComponents.toNat) componentLimitError
  let count ← (OrdMap.keySet base.assets ∪ OrdMap.keySet here.assets ∪
    OrdMap.keySet there.assets).toList.foldlM (chargeAsset base here there limits) count
  let edges := OrdMap.setOf (packEdges base ++ packEdges here ++ packEdges there)
  refuseIf (count + edges.size > limits.maxComponents.toNat) componentLimitError

end Budget

section Merge

/-- The order in which conflicts are shown. -/
def conflictKey (conflict : SyncConflict) : List Bytes :=
  let (identity, component, detail) : Bytes × UInt8 × Bytes :=
    match conflict.subject with
    | .assetKind asset => (asset.bytes, 0, [])
    | .portable asset => (asset.bytes, 1, [])
    | .native asset harness => (asset.bytes, 2, harness.asStr)
    | .pack pack => (pack.bytes, 3, [])
    | .profile profile => (profile.bytes, 4, [])
    | .requiredBinding binding => (binding.bytes, 5, [])
    | .bootstrap => ([], 6, [])
  [identity, [component], detail, conflict.code.asStr]

def sortConflicts (conflicts : List SyncConflict) : List SyncConflict :=
  conflicts.mergeSort fun a b => (compare (conflictKey a) (conflictKey b)).isLE

/-- A merged manifest with its lockfile, or the conflicts that stand in its way. -/
inductive SemanticMergeResult where
  | merged (manifest : EnvironmentManifest) (lock : Lockfile)
  | conflicted (conflicts : List SyncConflict)
  deriving DecidableEq

/-- The semantic changes of the three sides, before anything is derived from them. -/
def mergeDrafts (base here there : EnvironmentManifest) (limits : SyncLimits) :
    MergeM (OrdMap AssetId AssetDraft × OrdMap AssetId PackDraft) := do
  let drafts ← mergeAssets limits base.assets here.assets there.assets
  let packDrafts ← mergePacks limits base.packs here.packs there.packs
  rejectChangedProfiles limits base.profiles here.profiles there.profiles
  pure (drafts, packDrafts)

variable (blake3 : Bytes → Digest) (analysis : ObjectAnalysis)
  (objects : VerifiedSkillObjectCatalog) (capabilities : TierOneCapabilities)

/-- The manifest that drafts without conflicts derive. -/
def deriveManifest (drafts : OrdMap AssetId AssetDraft) (packDrafts : OrdMap AssetId PackDraft)
    (profiles : OrdMap ProfileId Profile) (requiredBindings : OrdSet BindingName) :
    Except SemanticMergeError EnvironmentManifest := do
  let assets ← OrdMap.traverse drafts fun _ draft =>
    deriveAsset blake3 analysis objects capabilities draft
  let pending : EnvironmentManifest :=
    { assets
      packs := packDrafts.map fun _ draft => pendingPack blake3 draft
      profiles
      requiredBindings }
  match pending.refreshPackRevisions blake3 with
  | .error _ =>
    .error ⟨"sync_merge.derived_manifest_invalid",
      "recomputed merged manifest authority is invalid"⟩
  | .ok merged => .ok merged

def requireValidManifest (m : EnvironmentManifest) : Except SemanticMergeError Unit :=
  match m.validate blake3 with
  | .error _ =>
    .error ⟨"sync_merge.manifest_invalid",
      "semantic merge requires three validated manifests"⟩
  | .ok () => .ok ()

/-- Merges three validated manifests semantically, without any effect. -/
def mergeManifests (base here there : EnvironmentManifest) (limits : SyncLimits) :
    Except SemanticMergeError SemanticMergeResult := do
  objects.validateLimits limits
  [base, here, there].forM (requireValidManifest blake3)
  validateMergedComponentBudget base here there limits
  let ((drafts, packDrafts), conflicts) ← (mergeDrafts base here there limits).run []
  if conflicts ≠ [] then pure (.conflicted (sortConflicts conflicts))
  else do
    let merged ← deriveManifest blake3 analysis objects capabilities drafts packDrafts
      base.profiles
      (mergeSetMembership base.requiredBindings here.requiredBindings there.requiredBindings)
    match deriveLockfile blake3 merged with
    | .error _ =>
      .error ⟨"sync_merge.derived_lock_invalid", "generated merged lock state is invalid"⟩
    | .ok lock => pure (.merged merged lock)

end Merge

end Kitrove
