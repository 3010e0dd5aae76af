import Kitrove.Model.Revisions
import Kitrove.Packs.Rollback

/-! Pack creation and update: one pack over existing members, and what the packs above it derive
from it. -/

namespace Kitrove

open Std Graph Except

inductive PackMutationKind where
  | create
  | update
  deriving DecidableEq

def PackMutationKind.code (kind : PackMutationKind) (create update : String) : String :=
  match kind with
  | .create => create
  | .update => update

structure PackMutationError where
  code : String
  message : String
  deriving DecidableEq

namespace PackMutationError

variable (operation : PackMutationKind)

def sourceMismatch : PackMutationError :=
  ⟨operation.code "pack_create.source_mismatch" "pack_update.source_mismatch",
    "pack members do not share one exact non-harness distribution source"⟩

def sourceAmbiguous : PackMutationError :=
  ⟨operation.code "pack_create.source_ambiguous" "pack_update.source_ambiguous",
    "pack members share more than one exact distribution source"⟩

def memberUnknown : PackMutationError :=
  ⟨operation.code "pack_create.member_unknown" "pack_update.member_unknown",
    "a selected pack member does not exist"⟩

def manifestInvalid : PackMutationError :=
  match operation with
  | .create =>
    ⟨"pack_create.manifest_invalid", "pack creation requires a valid authoritative manifest"⟩
  | .update =>
    ⟨"pack_update.manifest_invalid", "pack update requires a valid authoritative manifest"⟩

def proposedManifestInvalid : PackMutationError :=
  match operation with
  | .create =>
    ⟨"pack_create.proposed_manifest_invalid",
      "the proposed pack does not form valid aggregate authority"⟩
  | .update =>
    ⟨"pack_update.proposed_manifest_invalid",
      "the proposed update does not form valid aggregate authority"⟩

def proposedLockInvalid : PackMutationError :=
  ⟨operation.code "pack_create.proposed_lock_invalid" "pack_update.proposed_lock_invalid",
    "the generated pack lock authority is invalid"⟩

def memberRequired : PackMutationError :=
  match operation with
  | .create =>
    ⟨"pack_create.member_required", "pack creation requires at least one direct member"⟩
  | .update =>
    ⟨"pack_update.member_required", "pack update requires at least one direct member"⟩

def selfReference : PackMutationError :=
  ⟨operation.code "pack_create.self_reference" "pack_update.self_reference",
    "a pack cannot contain itself"⟩

def identityConflict : PackMutationError :=
  ⟨"pack_create.identity_conflict", "the requested pack identity already exists"⟩

def packMissing : PackMutationError :=
  ⟨"pack_update.pack_missing", "the selected pack does not exist"⟩

def expectedPriorMismatch : PackMutationError :=
  ⟨"pack_update.expected_prior_mismatch",
    "the selected pack no longer matches --expected-prior"⟩

def unchanged : PackMutationError :=
  ⟨"pack_update.unchanged", "the proposed pack update does not change aggregate authority"⟩

end PackMutationError

/-- The source of a pack, as its members have it or as the pack is authored. -/
structure SourceEvidence where
  source : Source
  revision : Revision
  exactSourceHash : ContentHash
  deriving DecidableEq

/-- A deterministic proposal to mutate one pack and every affected aggregate identity. -/
structure PackMutationPlan where
  operation : PackMutationKind
  pack : Pack
  addedMembers : OrdSet AssetId
  removedMembers : OrdSet AssetId
  affectedPacks : OrdMap AssetId PackRevisionChange
  proposedManifest : EnvironmentManifest
  proposedLock : Lockfile
  baseManifestRevision : Revision
  proposedManifestRevision : Revision
  digest : ContentHash

section Evidence

variable (blake3 : Bytes → Digest)

/-- A source that packs are distributed from. -/
def Source.IsDistribution (source : Source) : Prop :=
  source ≠ .authoredPack ∧ ∀ harness origin, source ≠ .harness harness origin

instance (source : Source) : Decidable source.IsDistribution :=
  match source with
  | .authoredPack => .isFalse fun h => h.1 rfl
  | .harness harness origin => .isFalse fun h => h.2 harness origin rfl
  | .local' _ => .isTrue ⟨nofun, nofun⟩
  | .git _ _ => .isTrue ⟨nofun, nofun⟩

/-- The identity of the evidence as a component without an origin scope. -/
def SourceEvidence.provenanceId (evidence : SourceEvidence) (h : evidence.source.IsDistribution) :
    ProvenanceId :=
  ComponentProvenance.provenanceId blake3
    { source := evidence.source
      revision := evidence.revision
      exactSourceHash := evidence.exactSourceHash
      originScope := none
      scope := ⟨h.1, iff_of_false Bool.false_ne_true fun ⟨harness, origin, heq⟩ =>
        h.2 harness origin heq⟩ }

/-- Evidence under its identity, when its source distributes packs. -/
def distributionEvidence (evidence : SourceEvidence) : Option (ProvenanceId × SourceEvidence) :=
  if h : evidence.source.IsDistribution then some (evidence.provenanceId blake3 h, evidence)
  else none

def provenanceEvidence (provenance : ComponentProvenance) :
    Option (ProvenanceId × SourceEvidence) :=
  distributionEvidence blake3
    ⟨provenance.source, provenance.revision, provenance.exactSourceHash⟩

def memberSourceEvidence (operation : PackMutationKind) (manifest : EnvironmentManifest)
    (member : AssetId) : Except PackMutationError (OrdMap ProvenanceId SourceEvidence) :=
  match manifest.assets[member]? with
  | some asset => pure (OrdMap.mapOf (asset.provenance.values.filterMap (provenanceEvidence blake3)))
  | none =>
    match manifest.packs[member]? with
    | some pack =>
      pure (OrdMap.mapOf (distributionEvidence blake3
        ⟨pack.source, pack.revision, pack.exactSourceHash⟩).toList)
    | none => throw (.memberUnknown operation)

/-- The one source that all members have. -/
def sharedSourceEvidence (operation : PackMutationKind) (manifest : EnvironmentManifest)
    (members : OrdSet AssetId) : Except PackMutationError SourceEvidence := do
  let common ← members.toList.foldlM (fun common member => do
    let candidates ← memberSourceEvidence blake3 operation manifest member
    pure (some (match common with
      | none => candidates
      | some common => common.filter fun id _ => candidates.contains id))) none
  match (common.getD ∅).values with
  | [] => throw (.sourceMismatch operation)
  | [evidence] => pure evidence
  | _ => throw (.sourceAmbiguous operation)

def authoredEvidence (id : AssetId) : SourceEvidence :=
  let (revision, exactSourceHash) := Pack.authoredSourceResolution blake3 id
  ⟨.authoredPack, revision, exactSourceHash⟩

end Evidence

section Plan

variable (blake3 : Bytes → Digest) (codec : AuthorityCodec)

def pendingMutation (packId : AssetId) (evidence : SourceEvidence) (members : OrdSet AssetId) :
    Pack where
  id := packId
  source := evidence.source
  revision := evidence.revision
  exactSourceHash := evidence.exactSourceHash
  contentHash := pendingHash blake3 "pending-pack-mutation"
  members := OrdMap.mapOf
    (members.toList.map fun member => (member, pendingHash blake3 "pending-pack-member"))
  compatibility := ∅
  contentClass := .dataOnly
  requiredBindings := ∅

def mutationPlanDomain : PackMutationKind → Bytes
  | .create => ascii "kitrove-pack-creation-plan-v1" ++ [0]
  | .update => ascii "kitrove-pack-update-plan-v1" ++ [0]

def mutationPlanDigest (operation : PackMutationKind) (pack : Pack) (base proposed : Revision)
    (lock : Lockfile) : Except PackMutationError ContentHash := do
  let lock ← (lock.toJson blake3 codec).mapError fun _ => .proposedLockInvalid operation
  pure (ContentHash.ofDigest (blake3 (mutationPlanDomain operation ++ textRecord pack.id.bytes ++
    textRecord pack.contentHash.bytes ++ textRecord base.bytes ++ textRecord proposed.bytes ++
    textRecord (ContentHash.ofDigest (blake3 lock)).bytes)))

/-- The proposed pack is the one at the requested id, which a refresh does not remove. -/
def buildPackMutationPlan (operation : PackMutationKind) (manifest : EnvironmentManifest)
    (packId : AssetId) (evidence : SourceEvidence) (members : OrdSet AssetId)
    (currentPack : Option Pack) : Except PackMutationError PackMutationPlan := do
  let currentMembers := (currentPack.map packMembers).getD ∅
  let base ← (deriveManifestRevision blake3 codec manifest).mapError fun _ =>
    .manifestInvalid operation
  let pending := { manifest with
    packs := manifest.packs.insert packId (pendingMutation blake3 packId evidence members) }
  let proposed ← (pending.refreshPackRevisions blake3).mapError fun _ =>
    .proposedManifestInvalid operation
  let pack := proposed.packs.getD packId (pendingMutation blake3 packId evidence members)
  refuseIf (currentPack.any fun current => current.contentHash = pack.contentHash) .unchanged
  let lock ← (deriveLockfile blake3 proposed).mapError fun _ => .proposedLockInvalid operation
  let revision ← (deriveManifestRevision blake3 codec proposed).mapError fun _ =>
    .proposedManifestInvalid operation
  let digest ← mutationPlanDigest blake3 codec operation pack base revision lock
  pure
    { operation, pack
      addedMembers := members.filter fun id => !currentMembers.contains id
      removedMembers := currentMembers.filter fun id => !members.contains id
      affectedPacks := affectedPackRevisions manifest proposed
      proposedManifest := proposed
      proposedLock := lock
      baseManifestRevision := base
      proposedManifestRevision := revision
      digest }

def planPackCreationInner (manifest : EnvironmentManifest) (packId : AssetId)
    (members : OrdSet AssetId) (authored : Bool) : Except PackMutationError PackMutationPlan := do
  (manifest.validate blake3).mapError fun _ => .manifestInvalid .create
  refuseIf members.isEmpty (.memberRequired .create)
  refuseIf (manifest.assets.contains packId || manifest.packs.contains packId) .identityConflict
  refuseIf (members.contains packId) (.selfReference .create)
  let evidence ← if authored then pure (authoredEvidence blake3 packId)
    else sharedSourceEvidence blake3 .create manifest members
  buildPackMutationPlan blake3 codec .create manifest packId evidence members none

/-- Plans a pack over existing direct members that share one exact non-harness source. -/
def planPackCreation (manifest : EnvironmentManifest) (packId : AssetId)
    (members : OrdSet AssetId) : Except PackMutationError PackMutationPlan :=
  planPackCreationInner blake3 codec manifest packId members false

def planAuthoredPackCreation (manifest : EnvironmentManifest) (packId : AssetId)
    (members : OrdSet AssetId) : Except PackMutationError PackMutationPlan :=
  planPackCreationInner blake3 codec manifest packId members true

/-- Plans an exact-prior pack replacement and re-derives every affected parent aggregate. -/
def planPackUpdate (manifest : EnvironmentManifest) (packId : AssetId)
    (expectedPrior : ContentHash) (members : OrdSet AssetId) :
    Except PackMutationError PackMutationPlan := do
  (manifest.validate blake3).mapError fun _ => .manifestInvalid .update
  refuseIf members.isEmpty (.memberRequired .update)
  match manifest.packs[packId]? with
  | none => throw .packMissing
  | some current => do
    refuseIf (current.contentHash ≠ expectedPrior) .expectedPriorMismatch
    refuseIf (members.contains packId) (.selfReference .update)
    let evidence ← if current.source = .authoredPack then pure (authoredEvidence blake3 packId)
      else sharedSourceEvidence blake3 .update manifest members
    buildPackMutationPlan blake3 codec .update manifest packId evidence members (some current)

end Plan

section Frame

variable {blake3 : Bytes → Digest} {codec : AuthorityCodec} {current proposed : EnvironmentManifest}
  {packId id : AssetId} {members : OrdSet AssetId} {evidence : SourceEvidence}

theorem mem_affectedPackRevisions (h : ∀ id ∈ current.packs, id ∈ proposed.packs) :
    id ∈ affectedPackRevisions current proposed ↔
      (proposed.packs[id]?).map Pack.contentHash ≠ (current.packs[id]?).map Pack.contentHash := by
  rw [OrdMap.mem_iff_getElem?, affectedPackRevisions, ExtTreeMap.getElem?_filterMap']
  cases hpack : proposed.packs[id]? with
  | none =>
    have hnone : current.packs[id]? = none := OrdMap.getElem?_eq_none.mpr fun hid =>
      OrdMap.getElem?_eq_none.mp hpack (h id hid)
    simp [hnone]
  | some pack =>
    rw [Option.bind_some, Option.map_some]
    by_cases hsame : (current.packs[id]?).map Pack.contentHash = some pack.contentHash
    · simp [hsame]
    · simp [hsame, Ne.symm hsame]

/-- The change listed for a pack is the one from its former revision to its proposed one. -/
theorem getElem?_affectedPackRevisions {change : PackRevisionChange}
    (h : (affectedPackRevisions current proposed)[id]? = some change) :
    change.prior = (current.packs[id]?).map Pack.contentHash ∧
      (proposed.packs[id]?).map Pack.contentHash = some change.proposed := by
  rw [affectedPackRevisions, ExtTreeMap.getElem?_filterMap', Option.bind_eq_some_iff] at h
  obtain ⟨pack, hpack, h⟩ := h
  dsimp only at h
  split at h
  · cases h
    exact ⟨rfl, by rw [hpack, Option.map_some]⟩
  · contradiction

/-- A manifest with another pack at one id, and what the refresh derives from it. -/
structure PackReplaced (blake3 : Bytes → Digest) (current : EnvironmentManifest) (packId : AssetId)
    (pending : Pack) (proposed : EnvironmentManifest) : Prop where
  valid : proposed.validate blake3 = .ok ()
  assets : proposed.assets = current.assets
  packs : SamePacks (current.packs.insert packId pending) proposed.packs
  profiles : proposed.profiles = current.profiles
  bindings : proposed.requiredBindings = current.requiredBindings

/-- Away from the replaced pack the packs are the same up to what is derived. -/
theorem PackReplaced.draft {pending : Pack} (h : PackReplaced blake3 current packId pending proposed)
    (hne : id ≠ packId) :
    (proposed.packs[id]?).map draftFromPack = (current.packs[id]?).map draftFromPack := by
  rw [h.packs id, ExtTreeMap.getElem?_insert,
    if_neg fun heq => hne (LawfulEqCmp.eq_of_compare heq).symm]

theorem PackReplaced.draft_self {pending : Pack}
    (h : PackReplaced blake3 current packId pending proposed) :
    ∃ pack, proposed.packs[packId]? = some pack ∧ draftFromPack pack = draftFromPack pending := by
  have hself := h.packs packId
  rw [ExtTreeMap.getElem?_insert_self, Option.map_some] at hself
  exact Option.map_eq_some_iff.mp hself

theorem PackReplaced.mem {pending : Pack} (h : PackReplaced blake3 current packId pending proposed)
    (hid : id ∈ current.packs) : id ∈ proposed.packs :=
  h.packs.mem_iff.mpr (ExtTreeMap.mem_insert.mpr (.inr hid))

/-- A pack that does not lead to the replaced one is derived from the same records as before. -/
theorem PackReplaced.unchanged {pending : Pack} (h : PackReplaced blake3 current packId pending proposed)
    (hcurrent : ValidManifest blake3 current)
    (hapart : ¬ Relation.ReflTransGen (HasMember current.packs) id packId) :
    proposed.packs[id]? = current.packs[id]? := by
  have hproposed := validate_eq_ok.mp h.valid
  have hnone : ∀ other, other ≠ packId → other ∉ current.packs →
      proposed.packs[other]? = current.packs[other]? := by
    intro other hne hother
    have hdraft := h.draft hne
    rw [OrdMap.getElem?_eq_none.mpr hother, Option.map_none, Option.map_eq_none_iff] at hdraft
    rw [hdraft, OrdMap.getElem?_eq_none.mpr hother]
  have hself : ∀ other, ¬ Relation.ReflTransGen (HasMember current.packs) other packId →
      other ≠ packId := by
    rintro other hother rfl
    exact hother .refl
  by_cases hid : id ∈ current.packs
  · refine (hcurrent.admissible.bounded hid).induction
      (P := fun id => ¬ Relation.ReflTransGen (HasMember current.packs) id packId →
        id ∈ current.packs → proposed.packs[id]? = current.packs[id]?)
      (fun id ih hapart hid => ?_) hapart hid
    obtain ⟨pack, hpack⟩ := OrdMap.mem_iff_getElem?.mp hid
    have hdraft := h.draft (hself id hapart)
    rw [hpack, Option.map_some] at hdraft
    obtain ⟨pack', hpack', hdraft⟩ := Option.map_eq_some_iff.mp hdraft
    rw [hpack', hpack]
    congr 1
    refine (hcurrent.derived id pack hpack).unique (hproposed.derived id pack' hpack') hdraft
      fun member hmember => ?_
    have hedge : HasMember current.packs id member := ⟨pack, hpack, hmember⟩
    have hmemberApart : ¬ Relation.ReflTransGen (HasMember current.packs) member packId :=
      fun hchain => hapart (hchain.head hedge)
    have hsame : proposed.packs[member]? = current.packs[member]? := by
      by_cases hknown : member ∈ current.packs
      · exact ih member (mem_nestedMembers.mpr ⟨hedge, hknown⟩) hmemberApart hknown
      · exact hnone member (hself member hmemberApart) hknown
    unfold memberRecord
    rw [h.assets, hsame]
  · exact hnone id (hself id hapart) hid

theorem packMembers_pendingMutation :
    packMembers (pendingMutation blake3 packId evidence members) = members := by
  refine ExtTreeSet.ext_mem fun id => ?_
  rw [packMembers, OrdMap.mem_keySet]
  change id ∈ OrdMap.mapOf _ ↔ _
  rw [OrdMap.mapOf, ExtTreeMap.mem_ofList, List.contains_iff_mem, List.map_map]
  change id ∈ members.toList.map (fun member => member) ↔ _
  rw [List.map_id', ExtTreeSet.mem_toList]

/-- What a plan makes of a manifest: the requested pack, and other revisions of the packs that lead
to it. -/
structure MutationFrame (blake3 : Bytes → Digest) (current : EnvironmentManifest) (packId : AssetId)
    (members : OrdSet AssetId) (plan : PackMutationPlan) : Prop where
  valid : plan.proposedManifest.validate blake3 = .ok ()
  assets : plan.proposedManifest.assets = current.assets
  profiles : plan.proposedManifest.profiles = current.profiles
  bindings : plan.proposedManifest.requiredBindings = current.requiredBindings
  pack : plan.proposedManifest.packs[packId]? = some plan.pack
  members : ∀ id, id ∈ plan.pack.members ↔ id ∈ members
  apart : ∀ id, ¬ Relation.ReflTransGen (HasMember current.packs) id packId →
    plan.proposedManifest.packs[id]? = current.packs[id]?
  affected : ∀ id, id ∈ plan.affectedPacks ↔
    (plan.proposedManifest.packs[id]?).map Pack.contentHash ≠
      (current.packs[id]?).map Pack.contentHash
  changes : ∀ (id : AssetId) (change : PackRevisionChange), plan.affectedPacks[id]? = some change →
    change.prior = (current.packs[id]?).map Pack.contentHash ∧
      (plan.proposedManifest.packs[id]?).map Pack.contentHash = some change.proposed

theorem buildPackMutationPlan_frame {operation : PackMutationKind} {currentPack : Option Pack}
    {plan : PackMutationPlan} (hcurrent : ValidManifest blake3 current)
    (h : buildPackMutationPlan blake3 codec operation current packId evidence members currentPack =
      .ok plan) : MutationFrame blake3 current packId members plan := by
  obtain ⟨base, -, h⟩ := bind_eq_ok_iff.mp h
  obtain ⟨proposed, hrefresh, h⟩ := bind_eq_ok_iff.mp h
  obtain ⟨-, h⟩ := refuseIf_bind_eq_ok.mp h
  obtain ⟨lock, -, h⟩ := bind_eq_ok_iff.mp h
  obtain ⟨revision, -, h⟩ := bind_eq_ok_iff.mp h
  obtain ⟨digest, -, h⟩ := bind_eq_ok_iff.mp h
  cases h
  obtain ⟨hvalid, hassets, hpacks, hprofiles, hbindings⟩ :=
    refreshPackRevisions_eq_ok (mapError_eq_ok_iff.mp hrefresh)
  have hreplaced : PackReplaced blake3 current packId (pendingMutation blake3 packId evidence members)
      proposed := ⟨hvalid, hassets, hpacks, hprofiles, hbindings⟩
  obtain ⟨pack, hpack, hdraft⟩ := hreplaced.draft_self
  have hget : proposed.packs.getD packId (pendingMutation blake3 packId evidence members) = pack := by
    rw [ExtTreeMap.getD_eq_getD_getElem?, hpack, Option.getD_some]
  refine ⟨hvalid, hassets, hprofiles, hbindings, ?_, fun id => ?_,
    fun id => hreplaced.unchanged hcurrent, fun id => ?_, fun id change =>
      getElem?_affectedPackRevisions⟩
  · dsimp only
    rw [hget, hpack]
  · dsimp only
    have hmembers : packMembers pack = members :=
      (congrArg PackDraft.members hdraft).trans packMembers_pendingMutation
    rw [hget, ← hmembers, packMembers, OrdMap.mem_keySet]
  · exact mem_affectedPackRevisions fun other => hreplaced.mem

theorem Derived.contentHash {assets : OrdMap AssetId Asset} {packs : PackMap} {pack : Pack}
    (h : Derived blake3 assets packs pack) : pack.contentHash = pack.expectedContentHash blake3 := by
  obtain ⟨derived, -, hself⟩ := h
  rw [← hself]
  rfl

/-- When no two revisions collide, the packs with another revision are those with another record. -/
theorem MutationFrame.mem_affectedPacks {plan : PackMutationPlan}
    (h : MutationFrame blake3 current packId members plan) (hcurrent : ValidManifest blake3 current)
    (hfree : NoCollision blake3 ((current.packs.values ++ plan.proposedManifest.packs.values).map
      Pack.revisionInput))
    (hshort : ∀ pack ∈ current.packs.values, pack.revisionInput.length < hashedLimit) :
    id ∈ plan.affectedPacks ↔ plan.proposedManifest.packs[id]? ≠ current.packs[id]? := by
  rw [h.affected]
  refine not_congr ⟨fun hsame => ?_, fun hsame => congrArg _ hsame⟩
  cases hafter : plan.proposedManifest.packs[id]? with
  | none =>
    rw [hafter, Option.map_none] at hsame
    exact (Option.map_eq_none_iff.mp hsame.symm).symm
  | some after =>
    rw [hafter, Option.map_some] at hsame
    obtain ⟨before, hbefore, hsame⟩ := Option.map_eq_some_iff.mp hsame.symm
    have hbeforeIn : before ∈ current.packs.values := OrdMap.mem_values.mpr ⟨id, hbefore⟩
    have hafterIn : after ∈ plan.proposedManifest.packs.values := OrdMap.mem_values.mpr ⟨id, hafter⟩
    have hproposed := validate_eq_ok.mp h.valid
    have hboth : ∀ input ∈ [before.revisionInput, after.revisionInput], input ∈
        (current.packs.values ++ plan.proposedManifest.packs.values).map Pack.revisionInput := by
      intro input hinput
      rcases List.mem_cons.mp hinput with rfl | hinput
      · exact List.mem_map_of_mem (List.mem_append_left _ hbeforeIn)
      · rw [List.mem_singleton.mp hinput]
        exact List.mem_map_of_mem (List.mem_append_right _ hafterIn)
    have heq : before = after := Pack.eq_of_contentHash
      (fun x hx y hy => hfree x (hboth x hx) y (hboth y hy)) (hshort before hbeforeIn)
      (hcurrent.derived id before hbefore).contentHash (hproposed.derived id after hafter).contentHash
      hsame
    rw [hbefore, heq]

theorem planPackCreationInner_frame {authored : Bool} {plan : PackMutationPlan}
    (h : planPackCreationInner blake3 codec current packId members authored = .ok plan) :
    ValidManifest blake3 current ∧ MutationFrame blake3 current packId members plan := by
  obtain ⟨⟨⟩, hvalid, h⟩ := bind_eq_ok_iff.mp h
  obtain ⟨-, h⟩ := refuseIf_bind_eq_ok.mp h
  obtain ⟨-, h⟩ := refuseIf_bind_eq_ok.mp h
  obtain ⟨-, h⟩ := refuseIf_bind_eq_ok.mp h
  have hcurrent := validate_eq_ok.mp (mapError_eq_ok_iff.mp hvalid)
  refine ⟨hcurrent, ?_⟩
  cases authored with
  | false =>
    obtain ⟨evidence, -, h⟩ := bind_eq_ok_iff.mp h
    exact buildPackMutationPlan_frame hcurrent h
  | true => exact buildPackMutationPlan_frame hcurrent h

theorem planPackUpdate_frame {expectedPrior : ContentHash} {plan : PackMutationPlan}
    (h : planPackUpdate blake3 codec current packId expectedPrior members = .ok plan) :
    ValidManifest blake3 current ∧ MutationFrame blake3 current packId members plan := by
  obtain ⟨⟨⟩, hvalid, h⟩ := bind_eq_ok_iff.mp h
  obtain ⟨-, h⟩ := refuseIf_bind_eq_ok.mp h
  have hcurrent := validate_eq_ok.mp (mapError_eq_ok_iff.mp hvalid)
  cases hpack : current.packs[packId]? with
  | none =>
    rw [hpack] at h
    cases h
  | some pack =>
    simp only [hpack] at h
    obtain ⟨-, h⟩ := refuseIf_bind_eq_ok.mp h
    obtain ⟨-, h⟩ := refuseIf_bind_eq_ok.mp h
    refine ⟨hcurrent, ?_⟩
    by_cases hauthored : pack.source = .authoredPack
    · rw [if_pos hauthored] at h
      exact buildPackMutationPlan_frame hcurrent h
    · rw [if_neg hauthored] at h
      obtain ⟨evidence, -, h⟩ := bind_eq_ok_iff.mp h
      exact buildPackMutationPlan_frame hcurrent h

/-- An accepted creation or update changes one pack and the revisions above it, and lists exactly
these. -/
theorem pack_mutation_frame (blake3 : Bytes → Digest) (codec : AuthorityCodec)
    (current : EnvironmentManifest) (packId : AssetId) (members : OrdSet AssetId)
    (plan : PackMutationPlan)
    (h : planPackCreation blake3 codec current packId members = .ok plan ∨
      planAuthoredPackCreation blake3 codec current packId members = .ok plan ∨
      ∃ expectedPrior, planPackUpdate blake3 codec current packId expectedPrior members = .ok plan) :
    MutationFrame blake3 current packId members plan ∧
      (NoCollision blake3 ((current.packs.values ++ plan.proposedManifest.packs.values).map
        Pack.revisionInput) →
      (∀ pack ∈ current.packs.values, pack.revisionInput.length < 2 ^ 64) →
      ∀ id, id ∈ plan.affectedPacks ↔ plan.proposedManifest.packs[id]? ≠ current.packs[id]?) := by
  have hframe : ValidManifest blake3 current ∧ MutationFrame blake3 current packId members plan := by
    rcases h with h | h | ⟨expectedPrior, h⟩
    · exact planPackCreationInner_frame h
    · exact planPackCreationInner_frame h
    · exact planPackUpdate_frame h
  exact ⟨hframe.2, fun hfree hshort id => hframe.2.mem_affectedPacks hframe.1 hfree hshort⟩

/-- The inner pack gets a second asset, and the outer pack is derived again. -/
def sampleUpdate : Option PackMutationPlan := do
  let current ← (classedManifest .dataOnly).packs[innerId]?
  (planPackUpdate sumDigest revisionCodec.toAuthorityCodec (classedManifest .dataOnly) innerId
    current.contentHash {alphaId, betaId}).toOption

theorem pack_mutation_frame_sample : ∃ plan,
    MutationFrame sumDigest (classedManifest .dataOnly) innerId {alphaId, betaId} plan ∧
      (∀ id, id ∈ plan.affectedPacks ↔
        plan.proposedManifest.packs[id]? ≠ (classedManifest .dataOnly).packs[id]?) ∧
      plan.affectedPacks.keys = [innerId, outerId] := by
  let inputs (plan : PackMutationPlan) : List Bytes :=
    ((classedManifest .dataOnly).packs.values ++ plan.proposedManifest.packs.values).map
      Pack.revisionInput
  have hsample : sampleUpdate.map (fun plan => (plan.affectedPacks.keys,
      decide (∀ x ∈ inputs plan, ∀ y ∈ inputs plan, sumDigest x = sumDigest y → x = y))) =
        some ([innerId, outerId], true) := by decide +kernel
  obtain ⟨plan, hplan, hkeys⟩ := Option.map_eq_some_iff.mp hsample
  rw [sampleUpdate, Option.bind_eq_bind, Option.bind_eq_some_iff] at hplan
  obtain ⟨current, -, hplan⟩ := hplan
  have hplan := toOption_eq_some_iff.mp hplan
  obtain ⟨hkeys, hfree⟩ := Prod.mk.inj hkeys
  have hfree := of_decide_eq_true hfree
  obtain ⟨hframe, haffected⟩ := pack_mutation_frame sumDigest revisionCodec.toAuthorityCodec _ innerId
    {alphaId, betaId} plan (.inr (.inr ⟨_, hplan⟩))
  exact ⟨plan, hframe, haffected hfree (by decide +kernel), hkeys⟩

end Frame

end Kitrove
