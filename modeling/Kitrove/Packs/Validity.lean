import Kitrove.Model.Validity
import Kitrove.Packs.Fields
import Kitrove.Packs.Graph

/-! The packs that a valid manifest has. -/

namespace Kitrove

open Std Graph Except

section Records

variable {blake3 : Bytes → Digest} {m : EnvironmentManifest} {id : AssetId} {pack : Pack}

/-- A pack that belongs to its place in a manifest. -/
structure ValidPack (blake3 : Bytes → Digest) (m : EnvironmentManifest) (id : AssetId)
    (pack : Pack) : Prop where
  authored : pack.source = .authoredPack →
    (pack.revision, pack.exactSourceHash) = Pack.authoredSourceResolution blake3 pack.id
  key : pack.id = id
  notAsset : id ∉ m.assets
  requiredBindings : ∀ name ∈ pack.requiredBindings, name ∈ m.requiredBindings
  nonempty : pack.members.isEmpty = false
  known : ∀ member ∈ pack.members, member ∈ m.assets ∨ member ∈ m.packs

theorem validatePack_eq_ok :
    validatePack blake3 m (id, pack) = .ok () ↔ ValidPack blake3 m id pack := by
  unfold validatePack
  rw [refuseIf_bind_eq_ok, refuseIf_bind_eq_ok, refuseIf_bind_eq_ok, bind_eq_ok_iff]
  simp only [refuseIf_bind_eq_ok, decide_eq_false_iff_not, not_and, ne_eq, not_not]
  have hbindings : (pack.requiredBindings.toList.forM fun binding =>
      refuseIf (!m.requiredBindings.contains binding)
        (ValidationError.mk "manifest.undeclared_binding"
          (ascii "pack " ++ id.bytes ++ ascii " requires undeclared binding " ++ binding.bytes))) =
        .ok ⟨⟩ ↔ ∀ name ∈ pack.requiredBindings, name ∈ m.requiredBindings := by
    refine (OrdMap.forM_iff (Outcome.ok _)).trans ?_
    simp only [Outcome.ok, refuseIf_eq_ok, ExtTreeSet.mem_toList, Bool.not_eq_false',
      ExtTreeSet.contains_iff_mem]
  have hknown : (pack.members.keys.forM fun member =>
      refuseIf (!m.assets.contains member && !m.packs.contains member)
        (ValidationError.mk "manifest.unknown_pack_member"
          (ascii "a pack references an unknown member"))) = .ok ⟨⟩ ↔
      ∀ member ∈ pack.members, member ∈ m.assets ∨ member ∈ m.packs := by
    refine (OrdMap.forM_iff (Outcome.ok _)).trans ?_
    simp only [Outcome.ok, refuseIf_eq_ok, ExtTreeMap.mem_keys, Bool.and_eq_false_iff,
      Bool.not_eq_false', ExtTreeMap.contains_iff_mem]
  constructor
  · rintro ⟨hauthored, hid, hasset, ⟨⟩, hdeclared, hnonempty, hmembers⟩
    refine ⟨hauthored, hid.symm, fun h => ?_, hbindings.mp hdeclared, hnonempty, hknown.mp hmembers⟩
    rw [ExtTreeMap.contains_iff_mem.mpr h] at hasset
    contradiction
  · rintro ⟨hauthored, hid, hasset, hdeclared, hnonempty, hmembers⟩
    refine ⟨hauthored, hid.symm, ?_, ⟨⟩, hbindings.mpr hdeclared, hnonempty, hknown.mpr hmembers⟩
    rw [← Bool.not_eq_true, ExtTreeMap.contains_iff_mem]
    exact hasset

end Records

section Members

variable {blake3 : Bytes → Digest} {assets : OrdMap AssetId Asset} {packs : PackMap}
  {m : EnvironmentManifest} {pack : Pack} {member : AssetId} {metadata : PackMemberMetadata}

/-- The record of a member, asset before pack. -/
def memberRecord (assets : OrdMap AssetId Asset) (packs : PackMap) (member : AssetId) :
    Option PackMemberMetadata :=
  match assets[member]? with
  | some asset => some
    ⟨member, asset.contentHash, asset.compatibility, asset.contentClass, asset.requiredBindings⟩
  | none => packs[member]?.map fun pack =>
    ⟨member, pack.contentHash, pack.compatibility, pack.contentClass, pack.requiredBindings⟩

/-- The records of the members of a pack, in their order. -/
def memberRecords (assets : OrdMap AssetId Asset) (packs : PackMap) (pack : Pack) :
    List PackMemberMetadata :=
  pack.members.keys.filterMap (memberRecord assets packs)

theorem memberRecord_id (h : memberRecord assets packs member = some metadata) :
    metadata.id = member := by
  unfold memberRecord at h
  split at h
  · cases h
    rfl
  · obtain ⟨_, -, rfl⟩ := Option.map_eq_some_iff.mp h
    rfl

theorem memberRecord_isSome :
    (∃ metadata, memberRecord assets packs member = some metadata) ↔
      member ∈ assets ∨ member ∈ packs := by
  unfold memberRecord
  cases hasset : assets[member]? with
  | some asset =>
    exact iff_of_true ⟨_, rfl⟩ (.inl (OrdMap.mem_iff_getElem?.mpr ⟨asset, hasset⟩))
  | none =>
    have hnot := OrdMap.getElem?_eq_none.mp hasset
    simp only [Option.map_eq_some_iff, OrdMap.mem_iff_getElem?, hasset]
    constructor
    · rintro ⟨_, pack, hpack, -⟩
      exact .inr ⟨pack, hpack⟩
    · rintro (⟨_, h⟩ | ⟨pack, hpack⟩)
      · contradiction
      · exact ⟨_, pack, hpack, rfl⟩

/-- A pack that is what its members give it. -/
def Derived (blake3 : Bytes → Digest) (assets : OrdMap AssetId Asset) (packs : PackMap)
    (pack : Pack) : Prop :=
  ∃ derived, derivePackFields (memberRecords assets packs pack) = .ok derived ∧
    pack.derived blake3 (memberRecords assets packs pack) derived = pack

theorem memberMetadata_eq_ok {revision : ContentHash} {o : Option PackMemberMetadata} :
    memberMetadata m member revision = .ok o ↔ o = memberRecord m.assets m.packs member ∧
      ∀ metadata, o = some metadata → metadata.revision = revision := by
  unfold memberMetadata memberRecord
  cases hasset : m.assets[member]? with
  | some asset =>
    simp only [refuseIf_bind_eq_ok, pure_eq_ok_iff, decide_eq_false_iff_not, ne_eq, not_not]
    constructor
    · rintro ⟨rfl, rfl⟩
      exact ⟨rfl, fun _ h => by cases h; rfl⟩
    · rintro ⟨rfl, hrevision⟩
      have hasset := hrevision _ rfl
      dsimp only at hasset
      rw [hasset]
      exact ⟨rfl, rfl⟩
  | none =>
    cases hpack : m.packs[member]? with
    | some pack =>
      simp only [refuseIf_bind_eq_ok, pure_eq_ok_iff, decide_eq_false_iff_not, ne_eq, not_not,
        Option.map_some]
      constructor
      · rintro ⟨rfl, rfl⟩
        exact ⟨rfl, fun _ h => by cases h; rfl⟩
      · rintro ⟨rfl, hrevision⟩
        have hpack := hrevision _ rfl
        dsimp only at hpack
        rw [hpack]
        exact ⟨rfl, rfl⟩
    | none =>
      simp only [pure_eq_ok_iff, Option.map_none]
      exact ⟨fun h => h ▸ ⟨rfl, nofun⟩, fun h => h.1.symm⟩

theorem forall₂_filterMap {α β : Type} {f : α → Option β} {xs : List α}
    (h : ∀ x ∈ xs, ∃ y, f x = some y) :
    List.Forall₂ (fun x y => f x = some y) xs (xs.filterMap f) := by
  induction xs with
  | nil => exact .nil
  | cons x xs ih =>
    obtain ⟨y, hy⟩ := h x List.mem_cons_self
    rw [List.filterMap_cons_some hy]
    exact .cons hy (ih fun z hz => h z (List.mem_cons_of_mem x hz))

/-- Every member of a pack is known. -/
def Closed (assets : OrdMap AssetId Asset) (packs : PackMap) (pack : Pack) : Prop :=
  ∀ member ∈ pack.members, member ∈ assets ∨ member ∈ packs

theorem Closed.records (h : Closed assets packs pack) :
    List.Forall₂ (fun member metadata => memberRecord assets packs member = some metadata)
      pack.members.keys (memberRecords assets packs pack) :=
  forall₂_filterMap fun member hmember =>
    memberRecord_isSome.mpr (h member (ExtTreeMap.mem_keys.mp hmember))

theorem Closed.record_ids (h : Closed assets packs pack) :
    (memberRecords assets packs pack).map PackMemberMetadata.id = pack.members.keys := by
  have hids : List.Forall₂ (fun member (metadata : PackMemberMetadata) => member = metadata.id)
      pack.members.keys (memberRecords assets packs pack) :=
    h.records.imp fun _ _ hrecord => (memberRecord_id hrecord).symm
  have hids := List.forall₂_map_right_iff.mpr hids
  rw [List.forall₂_eq_eq_eq] at hids
  exact hids.symm

theorem mem_memberRecords : metadata ∈ memberRecords assets packs pack ↔
    ∃ member ∈ pack.members, memberRecord assets packs member = some metadata := by
  rw [memberRecords, List.mem_filterMap]
  exact exists_congr fun _ => and_congr_left fun _ => ExtTreeMap.mem_keys

/-- The members that a pack gets from their records. -/
theorem Closed.getElem?_derived (h : Closed assets packs pack) {revision : ContentHash} :
    (OrdMap.mapOf ((memberRecords assets packs pack).map fun metadata =>
      (metadata.id, metadata.revision)))[member]? = some revision ↔
    member ∈ pack.members ∧ ∃ metadata, memberRecord assets packs member = some metadata ∧
      metadata.revision = revision := by
  have hids : (((memberRecords assets packs pack).map fun metadata =>
      (metadata.id, metadata.revision)).map Prod.fst).Nodup := by
    rw [List.map_map]
    change ((memberRecords assets packs pack).map PackMemberMetadata.id).Nodup
    rw [h.record_ids]
    exact ExtTreeMap.nodup_keys
  rw [OrdMap.getElem?_mapOf hids, List.mem_map]
  constructor
  · rintro ⟨metadata, hmetadata, he⟩
    obtain ⟨other, hother, hrecord⟩ := mem_memberRecords.mp hmetadata
    cases he
    rw [memberRecord_id hrecord]
    exact ⟨hother, metadata, hrecord, rfl⟩
  · rintro ⟨hmember, metadata, hrecord, rfl⟩
    exact ⟨metadata, mem_memberRecords.mpr ⟨member, hmember, hrecord⟩, by
      rw [memberRecord_id hrecord]⟩

/-- The members are those of the records exactly when each has the revision of its record. -/
theorem Closed.members_eq_iff (h : Closed assets packs pack) :
    OrdMap.mapOf ((memberRecords assets packs pack).map fun metadata =>
        (metadata.id, metadata.revision)) = pack.members ↔
      ∀ entry ∈ pack.members.toList, ∀ metadata,
        memberRecord assets packs entry.1 = some metadata → metadata.revision = entry.2 := by
  simp only [Prod.forall, ExtTreeMap.mem_toList_iff_getElem?_eq_some]
  constructor
  · intro heq member revision hget metadata hrecord
    rw [← heq] at hget
    obtain ⟨-, other, hother, hrevision⟩ := h.getElem?_derived.mp hget
    rw [hrecord] at hother
    cases hother
    exact hrevision
  · intro hall
    refine ExtTreeMap.ext_getElem? fun member => Option.ext fun revision => ?_
    rw [h.getElem?_derived]
    constructor
    · rintro ⟨hmember, metadata, hrecord, rfl⟩
      obtain ⟨revision, hget⟩ := OrdMap.mem_iff_getElem?.mp hmember
      rw [hall member revision hget metadata hrecord]
      exact hget
    · intro hget
      have hmember := OrdMap.mem_iff_getElem?.mpr ⟨revision, hget⟩
      obtain ⟨metadata, hrecord⟩ := memberRecord_isSome.mpr (h member hmember)
      exact ⟨hmember, metadata, hrecord, hall member revision hget metadata hrecord⟩

theorem derived_eq_self_iff {records : List PackMemberMetadata} {derived : DerivedPackFields} :
    pack.derived blake3 records derived = pack ↔
      (OrdMap.mapOf (records.map fun metadata => (metadata.id, metadata.revision)) = pack.members) ∧
      derived.compatibility = pack.compatibility ∧ derived.contentClass = pack.contentClass ∧
      derived.requiredBindings = pack.requiredBindings ∧
      pack.expectedContentHash blake3 = pack.contentHash := by
  constructor
  · intro h
    have hmembers := congrArg Pack.members h
    have hcompatibility := congrArg Pack.compatibility h
    have hclass := congrArg Pack.contentClass h
    have hbindings := congrArg Pack.requiredBindings h
    have hhash : (pack.derived blake3 records derived).expectedContentHash blake3 =
      pack.contentHash := congrArg Pack.contentHash h
    rw [h] at hhash
    exact ⟨hmembers, hcompatibility, hclass, hbindings, hhash⟩
  · rintro ⟨hmembers, hcompatibility, hclass, hbindings, hhash⟩
    unfold Pack.derived
    rw [hmembers, hcompatibility, hclass, hbindings]
    unfold Pack.refreshContentHash
    rw [hhash]

/-- The check of a pack's revision accepts what its members give it. -/
theorem validatePackRevision_eq_ok (hclosed : Closed m.assets m.packs pack) :
    validatePackRevision blake3 m pack = .ok () ↔ Derived blake3 m.assets m.packs pack := by
  have hkeys : pack.members.toList.map Prod.fst = pack.members.keys :=
    ExtTreeMap.map_fst_toList_eq_keys
  have hfilter : (pack.members.toList.map fun entry =>
      memberRecord m.assets m.packs entry.1).filterMap id = memberRecords m.assets m.packs pack := by
    rw [List.filterMap_map, memberRecords, ← hkeys, List.filterMap_map]
    rfl
  unfold validatePackRevision
  rw [bind_eq_ok_iff]
  constructor
  · rintro ⟨found, hfound, h⟩
    obtain ⟨derived, hderived, h⟩ := bind_eq_ok_iff.mp h
    simp only [refuseIf_bind_eq_ok, refuseIf_eq_ok, decide_eq_false_iff_not, ne_eq, not_not] at h
    obtain ⟨hcompatibility, hclass, hbindings, hhash⟩ := h
    rw [mapM_eq_ok_iff] at hfound
    have hrecords : pack.members.toList.map (fun entry =>
        memberRecord m.assets m.packs entry.1) = found := by
      have hall : List.Forall₂ (fun (entry : AssetId × ContentHash) o =>
          memberRecord m.assets m.packs entry.1 = o) pack.members.toList found :=
        hfound.imp fun _ _ h => (memberMetadata_eq_ok.mp h).1.symm
      have hall := List.forall₂_map_left_iff.mpr hall
      rwa [List.forall₂_eq_eq_eq] at hall
    rw [← hrecords, hfilter] at hderived
    rw [← hrecords, List.forall₂_map_right_iff, List.forall₂_same] at hfound
    exact ⟨derived, hderived, derived_eq_self_iff.mpr ⟨hclosed.members_eq_iff.mpr fun entry hentry =>
      (memberMetadata_eq_ok.mp (hfound entry hentry)).2, hcompatibility.symm, hclass.symm,
      hbindings.symm, hhash.symm⟩⟩
  · rintro ⟨derived, hderived, hself⟩
    obtain ⟨hmembers, hcompatibility, hclass, hbindings, hhash⟩ := derived_eq_self_iff.mp hself
    refine ⟨pack.members.toList.map fun entry => memberRecord m.assets m.packs entry.1,
      mapM_eq_ok_iff.mpr ?_, bind_eq_ok_iff.mpr ⟨derived, ?_, ?_⟩⟩
    · rw [List.forall₂_map_right_iff, List.forall₂_same]
      exact fun entry hentry => memberMetadata_eq_ok.mpr
        ⟨rfl, hclosed.members_eq_iff.mp hmembers entry hentry⟩
    · rw [hfilter]
      exact hderived
    · simp only [refuseIf_bind_eq_ok, refuseIf_eq_ok, decide_eq_false_iff_not, ne_eq, not_not]
      exact ⟨hcompatibility.symm, hclass.symm, hbindings.symm, hhash.symm⟩

end Members

section Manifests

variable {blake3 : Bytes → Digest} {m : EnvironmentManifest}

theorem validatePackGraphDepth_eq_ok {packs : PackMap} :
    validatePackGraphDepth packs = .ok () ↔ Admissible packs Pack.members := by
  rw [validatePackGraphDepth, validateGraphDepth_eq_ok, admissible_iff]
  simp only [ExtTreeMap.mem_keys]
  rfl

theorem Admissible.bounded {packs : PackMap} (h : Admissible packs Pack.members) {id : AssetId}
    (hid : id ∈ packs) : Bounded (nestedPacks packs) maxPackGraphDepth id :=
  admissible_iff.mp h id hid

/-- What a manifest has to be, across its records. -/
structure ValidManifest (blake3 : Bytes → Digest) (m : EnvironmentManifest) : Prop where
  assets : m.assets.toList.forM (validateAsset blake3 m) = .ok ()
  budget : (m.packs.values.map fun pack => pack.members.size).sum ≤ maxPackMemberEdges
  packs : ∀ (id : AssetId) (pack : Pack), m.packs[id]? = some pack → ValidPack blake3 m id pack
  admissible : Admissible m.packs Pack.members
  derived : ∀ (id : AssetId) (pack : Pack), m.packs[id]? = some pack →
    Derived blake3 m.assets m.packs pack
  profiles : m.profiles.toList.forM (validateProfile m) = .ok ()
  profileCycles : rejectProfileCycles m = .ok ()

theorem validatePackMemberBudget_eq_ok {packs : PackMap} {code : String} :
    validatePackMemberBudget packs code = .ok () ↔
      (packs.values.map fun pack => pack.members.size).sum ≤ maxPackMemberEdges := by
  rw [validatePackMemberBudget, refuseIf_eq_ok, decide_eq_false_iff_not, gt_iff_lt, Nat.not_lt]

theorem validate_eq_ok : m.validate blake3 = .ok () ↔ ValidManifest blake3 m := by
  have hpacks : m.packs.toList.forM (validatePack blake3 m) = .ok () ↔
      ∀ (id : AssetId) (pack : Pack), m.packs[id]? = some pack → ValidPack blake3 m id pack := by
    refine (OrdMap.forM_iff (Outcome.ok _)).trans ?_
    simp only [Outcome.ok, Prod.forall, ExtTreeMap.mem_toList_iff_getElem?_eq_some,
      validatePack_eq_ok]
  have hrevisions : (∀ (id : AssetId) (pack : Pack), m.packs[id]? = some pack →
      ValidPack blake3 m id pack) → (m.packs.values.forM (validatePackRevision blake3 m) = .ok () ↔
      ∀ (id : AssetId) (pack : Pack), m.packs[id]? = some pack →
        Derived blake3 m.assets m.packs pack) := by
    intro hvalid
    refine (OrdMap.forM_iff (Outcome.ok _)).trans ?_
    simp only [Outcome.ok, OrdMap.mem_values]
    constructor
    · intro h id pack hpack
      exact (validatePackRevision_eq_ok (hvalid id pack hpack).known).mp (h pack ⟨id, hpack⟩)
    · rintro h pack ⟨id, hpack⟩
      exact (validatePackRevision_eq_ok (hvalid id pack hpack).known).mpr (h id pack hpack)
  have hcycles : Admissible m.packs Pack.members → rejectPackCycles m.packs = .ok () := fun h =>
    rejectCycles_eq_ok fun id hid => h.bounded (ExtTreeMap.mem_keys.mp hid)
  unfold EnvironmentManifest.validate
  constructor
  · intro h
    obtain ⟨⟨⟩, hassets, h⟩ := bind_eq_ok_iff.mp h
    obtain ⟨⟨⟩, hbudget, h⟩ := bind_eq_ok_iff.mp h
    obtain ⟨⟨⟩, hvalid, h⟩ := bind_eq_ok_iff.mp h
    obtain ⟨⟨⟩, hdepth, h⟩ := bind_eq_ok_iff.mp h
    obtain ⟨⟨⟩, -, h⟩ := bind_eq_ok_iff.mp h
    obtain ⟨⟨⟩, hderived, h⟩ := bind_eq_ok_iff.mp h
    obtain ⟨⟨⟩, hprofiles, hprofileCycles⟩ := bind_eq_ok_iff.mp h
    have hvalid := hpacks.mp hvalid
    exact ⟨hassets, validatePackMemberBudget_eq_ok.mp hbudget, hvalid,
      validatePackGraphDepth_eq_ok.mp hdepth, (hrevisions hvalid).mp hderived, hprofiles,
      hprofileCycles⟩
  · intro h
    rw [h.assets, validatePackMemberBudget_eq_ok.mpr h.budget, hpacks.mpr h.packs,
      validatePackGraphDepth_eq_ok.mpr h.admissible, hcycles h.admissible,
      (hrevisions h.packs).mpr h.derived, h.profiles, h.profileCycles]
    rfl

theorem ValidManifest.asset (h : ValidManifest blake3 m) {id : AssetId} {asset : Asset}
    (hasset : m.assets[id]? = some asset) : ValidAsset blake3 m id asset :=
  validAsset_of_valid (validate_eq_ok.mpr h) hasset

end Manifests

end Kitrove
