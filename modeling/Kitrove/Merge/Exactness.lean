import Kitrove.Merge.Drafts
import Kitrove.Support.Stateful
import Mathlib.Data.List.Forall2

/-! A merge without conflicts keeps each one-sided change and adds nothing. -/

namespace Kitrove

open Std Stateful Except

section Refresh

variable {blake3 : Bytes → Digest} {assets : OrdMap AssetId Asset}

def draftFromPack (pack : Pack) : PackDraft := ⟨pack.id, packSource pack, packMembers pack⟩

/-- Packs with the same identities, sources and members. -/
def SamePacks (packs refreshed : PackMap) : Prop :=
  ∀ id : AssetId, refreshed[id]?.map draftFromPack = packs[id]?.map draftFromPack

theorem draftFromPack_derived {pack : Pack} {members : List PackMemberMetadata}
    {derived : DerivedPackFields}
    (h : ∀ id, id ∈ members.map PackMemberMetadata.id ↔ id ∈ packMembers pack) :
    draftFromPack (pack.derived blake3 members derived) = draftFromPack pack := by
  have hkeys : packMembers (pack.derived blake3 members derived) = packMembers pack := by
    refine ExtTreeSet.ext_mem fun id => ?_
    rw [← h, packMembers, OrdMap.mem_keySet]
    change id ∈ OrdMap.mapOf _ ↔ _
    rw [OrdMap.mapOf, ExtTreeMap.mem_ofList, List.contains_iff_mem, List.map_map]
    rfl
  rw [draftFromPack, hkeys]
  rfl

theorem samePacks_modify {packs : PackMap} {id : AssetId} {pack : Pack} {f : Pack → Pack}
    (hpack : packs[id]? = some pack) (hf : draftFromPack (f pack) = draftFromPack pack) :
    SamePacks packs (packs.modify id f) := by
  intro k
  rw [ExtTreeMap.getElem?_modify]
  split
  · rename_i hk
    rw [← LawfulEqCmp.eq_of_compare hk, hpack, Option.map_some, Option.map_some, Option.map_some, hf]
  · rfl

theorem refreshedMember_id {packs : PackMap} {member : AssetId} {metadata : PackMemberMetadata}
    (h : refreshedMember blake3 assets packs member = .ok metadata) : metadata.id = member := by
  unfold refreshedMember at h
  split at h
  · rw [bind_eq_ok_iff] at h
    obtain ⟨-, -, h⟩ := h
    cases h
    rfl
  · split at h
    · cases h
      rfl
    · contradiction

theorem refresh_samePacks {remaining : Nat} {id : AssetId} {s : RefreshState} :
    Ends (refresh blake3 assets remaining id) s (fun _ t => SamePacks s.packs t.packs)
      fun _ => True := by
  induction remaining generalizing id s with
  | zero =>
    simp only [refresh, ends_bind, ends_get]
    split
    · exact fun _ => rfl
    · trivial
  | succ remaining ih =>
    simp only [refresh, ends_bind, ends_get]
    split
    · exact fun _ => rfl
    split
    · trivial
    simp only [ends_bind, ends_set]
    cases hpack : s.packs[id]? with
    | none => trivial
    | some pack =>
      dsimp only
      split
      · trivial
      have hloop : ∀ member ∈ pack.members.keys, ∀ t : RefreshState, SamePacks s.packs t.packs →
          Ends (do if (← get).packs.contains member then refresh blake3 assets remaining member) t
            (fun _ u => SamePacks s.packs u.packs) fun _ => True := by
        intro member _ t ht
        simp only [ends_bind, ends_get]
        split
        · exact ih.mono (fun _ u hu k => (hu k).trans (ht k)) fun _ h => h
        · exact ht
      rw [ends_bind]
      refine (ends_forM (fun _ => rfl) hloop).mono (fun _ t ht => ?_) fun _ h => h
      rw [ends_bind]
      refine (ends_mapM (I := fun u : RefreshState => SamePacks s.packs u.packs)
        (P := fun member (metadata : PackMemberMetadata) => member = metadata.id) ht
        fun member _ u hu => ?_).mono (fun members u hu => ?_) fun _ h => h
      · simp only [ends_bind, ends_get, ends_lift]
        exact ⟨fun metadata hm => ⟨(refreshedMember_id hm).symm, hu⟩, fun _ _ => trivial⟩
      simp only [ends_bind, ends_lift, ends_modify]
      refine ⟨fun derived _ => ?_, fun _ _ => trivial⟩
      have hids : pack.members.keys = members.map PackMemberMetadata.id := by
        have h := List.forall₂_map_right_iff.mpr hu.1
        rwa [List.forall₂_eq_eq_eq] at h
      have hsame := hu.2 id
      rw [hpack] at hsame
      obtain ⟨now, hnow, hshape⟩ := Option.map_eq_some_iff.mp hsame
      have hkept : packMembers now = packMembers pack := congrArg PackDraft.members hshape
      have hderived : draftFromPack (now.derived blake3 members derived) = draftFromPack now := by
        refine draftFromPack_derived fun k => ?_
        rw [← hids, ExtTreeMap.mem_keys, hkept, packMembers, OrdMap.mem_keySet]
      intro k
      rw [samePacks_modify (f := fun pack => pack.derived blake3 members derived) hnow hderived k]
      exact hu.2 k

/-- A refresh changes no more of a manifest than what its packs derive from their members. -/
theorem refreshPackRevisions_eq_ok {m refreshed : EnvironmentManifest}
    (h : m.refreshPackRevisions blake3 = .ok refreshed) :
    refreshed.validate blake3 = .ok () ∧ refreshed.assets = m.assets ∧
      SamePacks m.packs refreshed.packs ∧ refreshed.profiles = m.profiles ∧
      refreshed.requiredBindings = m.requiredBindings := by
  unfold EnvironmentManifest.refreshPackRevisions at h
  obtain ⟨-, -, h⟩ := bind_eq_ok_iff.mp h
  obtain ⟨-, -, h⟩ := bind_eq_ok_iff.mp h
  obtain ⟨⟨_, s⟩, hrun, h⟩ := bind_eq_ok_iff.mp h
  obtain ⟨⟨⟩, hvalid, h⟩ := bind_eq_ok_iff.mp h
  cases h
  have hloop : Ends (m.packs.keys.forM fun id => refresh blake3 m.assets maxPackGraphDepth id)
      ⟨m.packs, ∅, ∅⟩ (fun _ t => SamePacks m.packs t.packs) fun _ => True :=
    ends_forM (fun _ => rfl) fun id _ t ht =>
      refresh_samePacks.mono (fun _ u hu k => (hu k).trans (ht k)) fun _ h => h
  have hpacks := ends_of_run hloop hrun
  exact ⟨hvalid, rfl, hpacks, rfl, rfl⟩

end Refresh

section Derivation

variable {blake3 : Bytes → Digest} {analysis : ObjectAnalysis}
  {objects : VerifiedSkillObjectCatalog} {capabilities : TierOneCapabilities}

/-- An asset with the components of a draft. -/
structure Derives (draft : AssetDraft) (asset : Asset) : Prop where
  id : asset.id = draft.id
  kind : asset.kind = draft.kind
  provenance : asset.provenance = draft.provenance
  portable : asset.portable = draft.portable
  native : ∀ harness : HarnessId,
    asset.nativeAt harness = draft.nativeVariants[harness]?.map normalizedNative
  requiredBindings : asset.requiredBindings = draft.requiredBindings

theorem deriveExtensionAsset_derives {draft : AssetDraft} {asset : Asset}
    (hkind : draft.kind = .extension)
    (h : deriveExtensionAsset blake3 analysis objects draft = .ok asset) : Derives draft asset := by
  unfold deriveExtensionAsset at h
  obtain ⟨⟨⟩, hshape, h⟩ := bind_eq_ok_iff.mp h
  have hportable : draft.portable = none := by
    rw [refuseIf_eq_ok] at hshape
    simp only [Bool.or_eq_false_iff, Option.isSome_eq_false_iff, Option.isNone_iff_eq_none] at hshape
    exact hshape.1
  cases hnative : draft.nativeVariants[HarnessId.pi]? with
  | none => simp [hnative] at h
  | some component =>
    simp only [hnative] at h
    obtain ⟨-, -, h⟩ := bind_eq_ok_iff.mp h
    obtain ⟨object, -, h⟩ := bind_eq_ok_iff.mp h
    obtain ⟨-, -, h⟩ := bind_eq_ok_iff.mp h
    split at h
    · contradiction
    split at h
    · contradiction
    obtain ⟨⟨⟩, -, h⟩ := bind_eq_ok_iff.mp h
    cases h
    refine ⟨rfl, hkind.symm, rfl, hportable.symm, fun harness => ?_, rfl⟩
    change (draft.nativeVariants.insert HarnessId.pi _)[harness]?.map normalizedNative = _
    rw [ExtTreeMap.getElem?_insert]
    split
    · rename_i hpi
      rw [← LawfulEqCmp.eq_of_compare hpi, hnative]
      rfl
    · rfl

theorem deriveAsset_derives {draft : AssetDraft} {asset : Asset}
    (h : deriveAsset blake3 analysis objects capabilities draft = .ok asset) :
    Derives draft asset := by
  unfold deriveAsset at h
  split at h
  · rename_i hkind
    exact deriveExtensionAsset_derives hkind h
  · obtain ⟨_, -, h⟩ := bind_eq_ok_iff.mp h
    obtain ⟨_, -, h⟩ := bind_eq_ok_iff.mp h
    obtain ⟨_, -, h⟩ := bind_eq_ok_iff.mp h
    obtain ⟨_, -, h⟩ := bind_eq_ok_iff.mp h
    obtain ⟨_, -, h⟩ := bind_eq_ok_iff.mp h
    cases h
    refine ⟨rfl, rfl, rfl, rfl, fun harness => ?_, rfl⟩
    change (draft.nativeVariants.map _)[harness]?.map normalizedNative = _
    rw [ExtTreeMap.getElem?_map]
    cases draft.nativeVariants[harness]? <;> rfl

theorem draftFromPack_pendingPack {draft : PackDraft} :
    draftFromPack (pendingPack blake3 draft) = draft := by
  have hmembers : packMembers (pendingPack blake3 draft) = draft.members := by
    refine ExtTreeSet.ext_mem fun id => ?_
    rw [packMembers, OrdMap.mem_keySet]
    change id ∈ OrdMap.mapOf _ ↔ _
    rw [OrdMap.mapOf, ExtTreeMap.mem_ofList, List.contains_iff_mem, List.map_map,
      ← ExtTreeSet.mem_toList]
    simp
  rw [draftFromPack, hmembers]
  rfl

/-- The manifest of drafts has an asset for each asset draft and a pack for each pack draft. -/
theorem deriveManifest_eq_ok {drafts : OrdMap AssetId AssetDraft}
    {packDrafts : OrdMap AssetId PackDraft} {profiles : OrdMap ProfileId Profile}
    {requiredBindings : OrdSet BindingName} {merged : EnvironmentManifest}
    (h : deriveManifest blake3 analysis objects capabilities drafts packDrafts profiles
      requiredBindings = .ok merged) :
    merged.validate blake3 = .ok () ∧
      (∀ (id : AssetId) (draft : AssetDraft), drafts[id]? = some draft →
        ∃ asset, merged.assets[id]? = some asset ∧ Derives draft asset) ∧
      (∀ id : AssetId, drafts[id]? = none → merged.assets[id]? = none) ∧
      (∀ id : AssetId, merged.packs[id]?.map draftFromPack = packDrafts[id]?) ∧
      merged.profiles = profiles ∧ merged.requiredBindings = requiredBindings := by
  unfold deriveManifest at h
  obtain ⟨assets, hassets, h⟩ := bind_eq_ok_iff.mp h
  cases hrefresh : EnvironmentManifest.refreshPackRevisions blake3
      ⟨assets, packDrafts.map fun _ draft => pendingPack blake3 draft, profiles,
        requiredBindings⟩ with
  | error e => simp [hrefresh] at h
  | ok refreshed =>
    simp only [hrefresh, Except.ok.injEq] at h
    subst h
    obtain ⟨hvalid, hsame, hpacks, hprofiles, hbindings⟩ := refreshPackRevisions_eq_ok hrefresh
    obtain ⟨hsome, hnone⟩ := (OrdMap.traverse_iff (Outcome.ok _)).mp hassets
    refine ⟨hvalid, fun id draft hdraft => ?_, fun id hdraft => ?_, fun id => ?_, hprofiles,
      hbindings⟩
    · obtain ⟨asset, hasset, hget⟩ := hsome id draft hdraft
      rw [hsame]
      exact ⟨asset, hget, deriveAsset_derives hasset⟩
    · rw [hsame]
      exact hnone id hdraft
    · refine (hpacks id).trans ?_
      rw [ExtTreeMap.getElem?_map]
      cases packDrafts[id]? with
      | none => rfl
      | some draft => exact congrArg some draftFromPack_pendingPack

end Derivation

section Exactness

variable {blake3 : Bytes → Digest} {analysis : ObjectAnalysis}
  {objects : VerifiedSkillObjectCatalog} {capabilities : TierOneCapabilities}
  {base here there merged : EnvironmentManifest} {limits : SyncLimits} {lock : Lockfile}

theorem requireValidManifest_eq_ok {m : EnvironmentManifest} :
    requireValidManifest blake3 m = .ok () ↔ m.validate blake3 = .ok () := by
  unfold requireValidManifest
  split
  · rename_i h
    simp [h]
  · rename_i h
    simp [h]

/-- When a merge gives a manifest, and which one. -/
theorem mergeManifests_eq_merged :
    mergeManifests blake3 analysis objects capabilities base here there limits =
        .ok (.merged merged lock) ↔
      objects.validateLimits limits = .ok () ∧
      (base.validate blake3 = .ok () ∧ here.validate blake3 = .ok () ∧
        there.validate blake3 = .ok ()) ∧
      validateMergedComponentBudget base here there limits = .ok () ∧
      ∃ drafts packDrafts, Drafted base here there drafts packDrafts ∧
        deriveManifest blake3 analysis objects capabilities drafts packDrafts base.profiles
          (mergeSetMembership base.requiredBindings here.requiredBindings
            there.requiredBindings) = .ok merged ∧
        deriveLockfile blake3 merged = .ok lock := by
  have hvalid : [base, here, there].forM (requireValidManifest blake3) = .ok () ↔
      base.validate blake3 = .ok () ∧ here.validate blake3 = .ok () ∧
        there.validate blake3 = .ok () :=
    (OrdMap.forM_iff (Outcome.ok _)).trans (by simp [Outcome.ok, requireValidManifest_eq_ok])
  unfold mergeManifests
  simp only [bind_eq_ok_iff]
  constructor
  · rintro ⟨⟨⟩, hlimits, ⟨⟩, hall, ⟨⟩, hbudget, ⟨⟨drafts, packDrafts⟩, conflicts⟩, hdrafts, h⟩
    refine ⟨hlimits, hvalid.mp hall, hbudget, ?_⟩
    by_cases hconflicts : conflicts = []
    · subst hconflicts
      simp only [ne_eq, not_true_eq_false, if_false, bind_eq_ok_iff] at h
      obtain ⟨m, hm, h⟩ := h
      cases hlock : deriveLockfile blake3 m with
      | error e => simp [hlock] at h
      | ok l =>
        simp only [hlock, pure_eq_ok_iff, SemanticMergeResult.merged.injEq] at h
        obtain ⟨rfl, rfl⟩ := h
        exact ⟨drafts, packDrafts, silent_mergeDrafts.mp hdrafts, hm, hlock⟩
    · simp [hconflicts, pure_eq_ok_iff] at h
  · rintro ⟨hlimits, hall, hbudget, drafts, packDrafts, hdrafted, hm, hlock⟩
    refine ⟨⟨⟩, hlimits, ⟨⟩, hvalid.mpr hall, ⟨⟩, hbudget, ((drafts, packDrafts), []),
      silent_mergeDrafts.mpr hdrafted, ?_⟩
    simp only [ne_eq, not_true_eq_false, if_false, bind_eq_ok_iff]
    refine ⟨merged, hm, ?_⟩
    simp only [hlock]
    rfl

/-- An asset of the three sides, with the three-way choice of each of its components. -/
structure ChosenAsset (base here there merged : Asset) : Prop where
  kind : Chosen base.kind here.kind there.kind merged.kind
  portable : Chosen base.portable here.portable there.portable merged.portable
  native : ∀ harness, Chosen (base.nativeAt harness) (here.nativeAt harness)
    (there.nativeAt harness) (merged.nativeAt harness)
  requiredBinding : ∀ name, Chosen (base.requiredBindings.contains name)
    (here.requiredBindings.contains name) (there.requiredBindings.contains name)
    (merged.requiredBindings.contains name)

/-- An asset carried over component for component. -/
structure CarriedAsset (side merged : Asset) : Prop where
  kind : merged.kind = side.kind
  provenance : merged.provenance = side.provenance
  portable : merged.portable = side.portable
  native : ∀ harness, merged.nativeAt harness = side.nativeAt harness
  requiredBindings : merged.requiredBindings = side.requiredBindings

/-- What a merge without conflicts is, seen from its three sides. -/
structure ExactMerge (blake3 : Bytes → Digest) (base here there merged : EnvironmentManifest) :
    Prop where
  valid : merged.validate blake3 = .ok ()
  assetIds : ∀ id, id ∈ merged.assets ↔ id ∈ base.assets ∨ id ∈ here.assets ∨ id ∈ there.assets
  packIds : ∀ id, id ∈ merged.packs ↔ id ∈ base.packs ∨ id ∈ here.packs ∨ id ∈ there.packs
  keptAssets : ∀ id ∈ base.assets, id ∈ here.assets ∧ id ∈ there.assets
  keptPacks : ∀ id ∈ base.packs, id ∈ here.packs ∧ id ∈ there.packs
  chosen : ∀ (id : AssetId) (b h t : Asset), base.assets[id]? = some b →
    here.assets[id]? = some h → there.assets[id]? = some t →
    ∃ m, merged.assets[id]? = some m ∧ ChosenAsset b h t m
  carried : ∀ (id : AssetId) (side : Asset), base.assets[id]? = none →
    here.assets[id]? = some side ∨ there.assets[id]? = some side →
    ∃ m, merged.assets[id]? = some m ∧ CarriedAsset side m
  packs : ∀ (id : AssetId) (m : Pack), merged.packs[id]? = some m →
    PackSourceOf base.packs[id]? here.packs[id]? there.packs[id]? (packSource m) ∧
      packMembers m = membersOf base.packs[id]? ∪ membersOf here.packs[id]? ∪
        membersOf there.packs[id]?
  profiles : merged.profiles = base.profiles ∧ merged.profiles = here.profiles ∧
    merged.profiles = there.profiles
  requiredBinding : ∀ name, Chosen (base.requiredBindings.contains name)
    (here.requiredBindings.contains name) (there.requiredBindings.contains name)
    (merged.requiredBindings.contains name)

theorem normalizedNative_nativeAt {asset : Asset} {harness : HarnessId} :
    (asset.nativeAt harness).map normalizedNative = asset.nativeAt harness := by
  unfold Asset.nativeAt
  cases asset.nativeVariants[harness]? <;> rfl

theorem Chosen.map {α : Type} {b h t r : α} {f : α → α} (hc : Chosen b h t r) (hh : f h = h)
    (ht : f t = t) : f r = r := by
  rcases hc.decided with he | he | he
  · rw [hc.agreed he, hh]
  · rw [hc.there_changed he, ht]
  · rw [hc.here_changed he, hh]

theorem ExistingDraft.chosenAsset {b h t m : Asset} {draft : AssetDraft}
    (hdraft : ExistingDraft b h t draft) (hm : Derives draft m) : ChosenAsset b h t m := by
  refine ⟨?_, ?_, fun harness => ?_, fun name => ?_⟩
  · rw [hm.kind]
    exact hdraft.kind
  · rw [hm.portable]
    exact hdraft.portable
  · have hnative := hdraft.native harness
    rw [hm.native, hnative.map normalizedNative_nativeAt normalizedNative_nativeAt]
    exact hnative
  · rw [hm.requiredBindings, hdraft.requiredBindings]
    exact chosen_mergeSetMembership _ _ _ name

theorem Derives.carriedAsset {side m : Asset} (hm : Derives (draftFromAsset side) m) :
    CarriedAsset side m :=
  ⟨hm.kind, hm.provenance, hm.portable, hm.native, hm.requiredBindings⟩

theorem AssetDraftOf.eq_none {base here there : Option Asset} {draft : Option AssetDraft}
    (h : AssetDraftOf base here there draft) :
    draft = none ↔ base = none ∧ here = none ∧ there = none := by
  cases base <;> cases here <;> cases there <;> simp_all [AssetDraftOf]
  obtain ⟨_, rfl, -⟩ := h
  simp

theorem AssetDraftOf.kept {base here there : Option Asset} {draft : Option AssetDraft}
    (h : AssetDraftOf base here there draft) (hbase : base.isSome) :
    here.isSome ∧ there.isSome := by
  cases base <;> cases here <;> cases there <;> simp_all [AssetDraftOf]

theorem AssetDraftOf.carried {here there : Option Asset} {draft : Option AssetDraft} {side : Asset}
    (h : AssetDraftOf none here there draft) (hside : here = some side ∨ there = some side) :
    draft = some (draftFromAsset side) := by
  cases here <;> cases there <;> simp_all [AssetDraftOf]

theorem PackDraftOf.eq_none {id : AssetId} {base here there : Option Pack}
    {draft : Option PackDraft} (h : PackDraftOf id base here there draft) :
    draft = none ↔ base = none ∧ here = none ∧ there = none := by
  refine ⟨h.absent, ?_⟩
  rintro ⟨rfl, rfl, rfl⟩
  cases draft with
  | none => rfl
  | some merged => exact absurd (h.present merged rfl).2.1 fun hs => hs

theorem mem_iff_of_eq_none {K U V : Type} [Ord K] [TransOrd K] [LawfulEqOrd K]
    {b h t : OrdMap K U} {r : OrdMap K V} {k : K}
    (hr : r[k]? = none ↔ b[k]? = none ∧ h[k]? = none ∧ t[k]? = none) :
    k ∈ r ↔ k ∈ b ∨ k ∈ h ∨ k ∈ t := by
  simp only [OrdMap.getElem?_eq_none] at hr
  tauto

/-- A merge without conflicts is exact. -/
theorem mergeManifests_exact
    (h : mergeManifests blake3 analysis objects capabilities base here there limits =
      .ok (.merged merged lock)) : ExactMerge blake3 base here there merged := by
  obtain ⟨-, -, -, drafts, packDrafts, hdrafted, hm, -⟩ := mergeManifests_eq_merged.mp h
  obtain ⟨hvalid, hsome, hnone, hpacks, hprofiles, hbindings⟩ := deriveManifest_eq_ok hm
  have hassets : ∀ id : AssetId, merged.assets[id]? = none ↔
      base.assets[id]? = none ∧ here.assets[id]? = none ∧ there.assets[id]? = none := by
    intro id
    rw [← (hdrafted.assets id).eq_none]
    refine ⟨fun hmerged => ?_, hnone id⟩
    by_contra hdraft
    obtain ⟨draft, hdraft⟩ := Option.ne_none_iff_exists'.mp hdraft
    obtain ⟨asset, hasset, -⟩ := hsome id draft hdraft
    simp [hmerged] at hasset
  have hpackNone : ∀ id : AssetId, merged.packs[id]? = none ↔
      base.packs[id]? = none ∧ here.packs[id]? = none ∧ there.packs[id]? = none := by
    intro id
    rw [← (hdrafted.packs id).eq_none, ← hpacks id, Option.map_eq_none_iff]
  refine
    { valid := hvalid
      assetIds := fun id => mem_iff_of_eq_none (hassets id)
      packIds := fun id => mem_iff_of_eq_none (hpackNone id)
      keptAssets := fun id hid => ?_
      keptPacks := fun id hid => ?_
      chosen := fun id b h t hb hh ht => ?_
      carried := fun id side hb hside => ?_
      packs := fun id m hpack => ?_
      profiles := ⟨hprofiles, hprofiles.trans hdrafted.here_profiles,
        hprofiles.trans hdrafted.there_profiles⟩
      requiredBinding := fun name => ?_ }
  · have hkept := (hdrafted.assets id).kept
    simp only [ExtTreeMap.isSome_getElem?_iff_mem] at hkept
    exact hkept hid
  · have hkept := (hdrafted.packs id).retained
    simp only [Retained, ExtTreeMap.isSome_getElem?_iff_mem] at hkept
    exact hkept hid
  · have hdraft := hdrafted.assets id
    rw [hb, hh, ht] at hdraft
    obtain ⟨draft, hdraft, hexisting⟩ := hdraft
    obtain ⟨m, hget, hderives⟩ := hsome id draft hdraft
    exact ⟨m, hget, hexisting.chosenAsset hderives⟩
  · have hdraft := hdrafted.assets id
    rw [hb] at hdraft
    obtain ⟨m, hget, hderives⟩ := hsome id _ (hdraft.carried hside)
    exact ⟨m, hget, hderives.carriedAsset⟩
  · have hdraft := hpacks id
    rw [hpack] at hdraft
    obtain ⟨-, hsource, -, hmembers⟩ := (hdrafted.packs id).present _ hdraft.symm
    exact ⟨hsource, hmembers⟩
  · rw [hbindings]
    exact chosen_mergeSetMembership _ _ _ name

end Exactness

section Sample

def sampleDigest : Digest := ⟨List.replicate 64 0x30, validDigest_zeros⟩

def sampleHash : ContentHash := ContentHash.ofDigest sampleDigest

def changedHash : ContentHash := ContentHash.ofDigest ⟨List.replicate 64 0x31, validDigest_ones⟩

def sampleTree (hash : ContentHash) : StoredSkillTree :=
  ⟨[], ⟨hash, OrdMap.mapOf [(skillPath, [])]⟩⟩

/-- Two portable skills. -/
def sampleObjects : VerifiedSkillObjectCatalog where
  portable := OrdMap.mapOf
    [(sampleHash, sampleTree sampleHash), (changedHash, sampleTree changedHash)]
  native := ∅
  nativeExtensions := ∅
  documents := ∅
  portable_hash := by
    intro hash object h
    simp only [OrdMap.mapOf, ExtTreeMap.ofList_cons, ExtTreeMap.insertMany_cons,
      ExtTreeMap.insertMany_nil, ExtTreeMap.getElem?_insert, ExtTreeMap.getElem?_empty] at h
    split at h
    · rename_i hk
      cases h
      exact LawfulEqCmp.eq_of_compare hk
    split at h
    · rename_i hk
      cases h
      exact LawfulEqCmp.eq_of_compare hk
    · contradiction
  native_hash := by simp
  extension_hash := by simp
  document_hash := by simp

def sampleAnalysis : ObjectAnalysis where
  nativeFields _ := some []
  portableTreeRisk _ := some .agentActive
  nativeSkillRisk _ := some .agentActive
  nativeExecutableTreeRisk _ := some .executable
  extensionObservation _ _ := none
  containsCredential _ := false

def sampleFidelity : FidelityResult :=
  ⟨⟨.portable, [], [⟨ascii "adapter", ascii "declared"⟩], [], ascii "adapter/1", none⟩,
    by decide +kernel⟩

def sampleCapabilities : TierOneCapabilities := ⟨fun _ => sampleFidelity, fun _ => rfl⟩

theorem sampleId_valid : NameKind.asset.valid (ascii "review") = true := by decide

theorem sampleId_bounded : (ascii "review").length < 2 ^ 63 := by decide

def sampleId : AssetId := ⟨ascii "review", sampleId_valid, sampleId_bounded⟩

def sampleRecord : ComponentProvenance where
  source := .local' skillPath
  revision := authoredPackRevision
  exactSourceHash := sampleHash
  originScope := none
  scope := by simp

def emptyManifest : EnvironmentManifest := ⟨∅, ∅, ∅, ∅⟩

def sampleBlake3 (_ : Bytes) : Digest := sampleDigest

/-- A manifest with one portable skill. -/
def skillManifest (object : ContentHash) : EnvironmentManifest :=
  { emptyManifest with
    assets := OrdMap.mapOf [(sampleId, Asset.refreshContentHash sampleBlake3
      { id := sampleId
        kind := .skill
        contentHash := sampleHash
        provenance := OrdMap.mapOf [(ProvenanceId.ofDigest sampleDigest, sampleRecord)]
        portable := some
          ⟨portableSkillFormat, skillPath, object, ProvenanceId.ofDigest sampleDigest⟩
        nativeVariants := ∅
        compatibility := ∅
        contentClass := .dataOnly
        requiredBindings := ∅ })] }

def sampleMerge (base here there : EnvironmentManifest) : Option EnvironmentManifest :=
  match mergeManifests sampleBlake3 sampleAnalysis sampleObjects sampleCapabilities base here there
      .default with
  | .ok (.merged m _) => some m
  | _ => none

theorem sampleMerge_eq_some {base here there m : EnvironmentManifest}
    (h : sampleMerge base here there = some m) :
    ∃ lock, mergeManifests sampleBlake3 sampleAnalysis sampleObjects sampleCapabilities base here
      there .default = .ok (.merged m lock) := by
  unfold sampleMerge at h
  split at h
  · rename_i m' lock hmerge
    cases h
    exact ⟨lock, hmerge⟩
  · contradiction

theorem mergeManifests_exact_sample : ∃ merged,
    ExactMerge sampleBlake3 (skillManifest sampleHash) (skillManifest changedHash)
      (skillManifest sampleHash) merged := by
  have hsome : (sampleMerge (skillManifest sampleHash) (skillManifest changedHash)
      (skillManifest sampleHash)).isSome = true := by decide +kernel
  obtain ⟨merged, hmerged⟩ := Option.isSome_iff_exists.mp hsome
  obtain ⟨lock, hlock⟩ := sampleMerge_eq_some hmerged
  exact ⟨merged, mergeManifests_exact hlock⟩

end Sample

end Kitrove
