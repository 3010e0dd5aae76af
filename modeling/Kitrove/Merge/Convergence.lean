import Kitrove.Merge.Rederivation
import Kitrove.Merge.Symmetry

/-! A machine that merges what another has merged ends where the other is. -/

namespace Kitrove

open Std Except

section Again

variable {blake3 : Bytes → Digest} {analysis : ObjectAnalysis}
  {objects : VerifiedSkillObjectCatalog} {capabilities : TierOneCapabilities}

theorem ExistingDraft.again {b h t m : Asset} {draft : AssetDraft}
    (hd : ExistingDraft b h t draft) (hm : Derives draft m) : ExistingDraft b h m draft := by
  have hnative : ∀ harness, m.nativeAt harness = draft.nativeVariants[harness]? := fun harness =>
    (hm.native harness).trans
      ((hd.native harness).map normalizedNative_nativeAt normalizedNative_nativeAt)
  refine
    { id := hd.id
      kind := ?_
      portable := ?_
      portable_retained := fun hb => ⟨(hd.portable_retained hb).1, ?_⟩
      native := fun harness => ?_
      native_retained := fun harness hb => ⟨(hd.native_retained harness hb).1, ?_⟩
      provenance := ?_
      requiredBindings := ?_ }
  · rw [hm.kind]
    exact hd.kind.again
  · rw [hm.portable]
    exact hd.portable.again
  · rw [hm.portable]
    exact hd.portable.isSome hd.portable_retained hb
  · rw [hnative]
    exact (hd.native harness).again
  · rw [hnative]
    exact (hd.native harness).isSome (hd.native_retained harness) hb
  · refine collectProvenance_again hd.provenance (fun source hsource => ?_)
      ⟨m, by simp, hm.provenance⟩
    simp only [List.mem_cons, List.not_mem_nil, or_false] at hsource ⊢
    rcases hsource with rfl | rfl | rfl
    · exact .inl (.inl rfl)
    · exact .inl (.inr (.inl rfl))
    · exact .inr hm.provenance
  · rw [hm.requiredBindings, hd.requiredBindings, mergeSetMembership_again]

theorem ValidAsset.existingDraft {m : EnvironmentManifest} {id : AssetId} {asset : Asset}
    (h : ValidAsset blake3 m id asset) :
    ExistingDraft asset asset asset (draftFromAsset asset).normalized where
  id := rfl
  kind := Chosen.self
  portable := Chosen.self
  portable_retained hb := ⟨hb, hb⟩
  native harness := by
    simp only [AssetDraft.normalized, draftFromAsset, ExtTreeMap.getElem?_map]
    exact Chosen.self
  native_retained harness hb := ⟨hb, hb⟩
  provenance := collectProvenance_self h
  requiredBindings := mergeSetMembership_self.symm

/-- An asset that a merge would derive from itself. -/
def Rederived (blake3 : Bytes → Digest) (analysis : ObjectAnalysis)
    (objects : VerifiedSkillObjectCatalog) (capabilities : TierOneCapabilities)
    (asset : Asset) : Prop :=
  deriveAsset blake3 analysis objects capabilities (draftFromAsset asset) = .ok asset

/-- Merging what a merge derived from an asset's draft with one of its sides. -/
theorem AssetDraftOf.again {base here there merged : Option Asset} {draft : Option AssetDraft}
    (h : AssetDraftOf base here there draft)
    (hshape : ∀ d, draft = some d → supportedShape d = true)
    (hhere : ∀ asset, here = some asset → Rederived blake3 analysis objects capabilities asset)
    (hnone : draft = none → merged = none)
    (hsome : ∀ d, draft = some d → ∃ asset, merged = some asset ∧
      deriveAsset blake3 analysis objects capabilities d = .ok asset) :
    ∃ next, AssetDraftOf base here merged next ∧ (next = none → merged = none) ∧
      ∀ d, next = some d → supportedShape d = true ∧ ∃ asset, merged = some asset ∧
        deriveAsset blake3 analysis objects capabilities d = .ok asset := by
  cases draft with
  | none =>
    obtain ⟨rfl, rfl, rfl⟩ := h.eq_none.mp rfl
    rw [hnone rfl]
    exact ⟨none, rfl, fun _ => rfl, fun _ hd => (nomatch hd)⟩
  | some d =>
    obtain ⟨asset, rfl, hasset⟩ := hsome d rfl
    have hd := hshape d rfl
    have hderives := deriveAsset_derives hasset
    cases base with
    | none =>
      cases here with
      | none =>
        refine ⟨some (draftFromAsset asset), rfl, fun hn => (nomatch hn), ?_⟩
        rintro _ ⟨⟩
        exact ⟨by rw [supportedShape_again hderives, hd], asset, rfl, deriveAsset_again hasset⟩
      | some side =>
        have hdraft : d = draftFromAsset side := Option.some.inj (h.carried (.inl rfl))
        have hside := hhere side rfl
        rw [hdraft, hside] at hasset
        cases hasset
        refine ⟨some d, ⟨rfl, by rw [hdraft]⟩, fun hn => (nomatch hn), ?_⟩
        rintro _ ⟨⟩
        exact ⟨hd, _, rfl, by rw [hdraft]; exact hside⟩
    | some b =>
      obtain ⟨hh, ht⟩ := h.kept rfl
      obtain ⟨side, rfl⟩ := Option.isSome_iff_exists.mp hh
      obtain ⟨other, rfl⟩ := Option.isSome_iff_exists.mp ht
      obtain ⟨_, ⟨⟩, hexisting⟩ := h
      refine ⟨some d, ⟨d, rfl, hexisting.again hderives⟩, fun hn => (nomatch hn), ?_⟩
      rintro _ ⟨⟩
      exact ⟨hd, asset, rfl, hasset⟩

theorem membersOf_map {merged : Option Pack} {draft : PackDraft}
    (h : merged.map draftFromPack = some draft) : membersOf merged = draft.members := by
  obtain ⟨pack, rfl, rfl⟩ := Option.map_eq_some_iff.mp h
  rfl

theorem PackDraftOf.again {id : AssetId} {base here there merged : Option Pack}
    {draft : Option PackDraft} (h : PackDraftOf id base here there draft)
    (hm : merged.map draftFromPack = draft) : PackDraftOf id base here merged draft := by
  cases draft with
  | none =>
    obtain ⟨rfl, rfl, rfl⟩ := h.absent rfl
    rw [Option.map_eq_none_iff.mp hm]
    exact h
  | some d =>
    obtain ⟨hid, hsource, hkept, hmembers⟩ := h.present d rfl
    have hmerged := membersOf_map hm
    obtain ⟨pack, rfl, hpack⟩ := Option.map_eq_some_iff.mp hm
    have hpackSource : packSource pack = d.source := congrArg PackDraft.source hpack
    have hpackMembers : packMembers pack = d.members := congrArg PackDraft.members hpack
    have hsub : ∀ member ∈ membersOf base, member ∈ d.members := by
      intro member hmember
      rw [hmembers, ExtTreeSet.mem_union_iff, ExtTreeSet.mem_union_iff]
      exact .inl (.inl hmember)
    refine ⟨fun hb => ⟨(h.retained hb).1, rfl⟩, fun hn => (nomatch hn), ?_⟩
    rintro _ ⟨⟩
    refine ⟨hid, ?_, fun member hmember => ⟨(hkept member hmember).1, ?_⟩, ?_⟩
    · cases base with
      | none =>
        cases here with
        | none => exact hpackSource.symm
        | some side =>
          have hside : d.source = packSource side ∧ d.members = packMembers side := by
            cases there with
            | none =>
              refine ⟨hsource, hmembers.trans (ExtTreeSet.ext_mem fun member => ?_)⟩
              simp [membersOf, ExtTreeSet.mem_union_iff]
            | some other =>
              obtain ⟨-, hsame, hs⟩ := hsource
              refine ⟨hs, hmembers.trans (ExtTreeSet.ext_mem fun member => ?_)⟩
              simp [membersOf, ExtTreeSet.mem_union_iff, hsame]
          exact ⟨by rw [hpackSource, hside.1], by rw [hpackMembers, hside.2], hside.1⟩
      | some b =>
        obtain ⟨hh, ht⟩ := h.retained rfl
        obtain ⟨side, rfl⟩ := Option.isSome_iff_exists.mp hh
        obtain ⟨other, rfl⟩ := Option.isSome_iff_exists.mp ht
        change Chosen _ _ (packSource pack) d.source
        rw [hpackSource]
        exact Chosen.again hsource
    · rw [hmerged]
      exact hsub member hmember
    · rw [hmerged]
      refine ExtTreeSet.ext_mem fun member => ?_
      rw [hmembers]
      simp only [ExtTreeSet.mem_union_iff]
      tauto

theorem packDraftOf_self {id : AssetId} {pack : Option Pack}
    (hid : ∀ p, pack = some p → p.id = id) :
    PackDraftOf id pack pack pack (pack.map draftFromPack) := by
  refine ⟨fun h => ⟨h, h⟩, fun h => ?_, fun d hd => ?_⟩
  · have hn := Option.map_eq_none_iff.mp h
    exact ⟨hn, hn, hn⟩
  · have hmembers := membersOf_map hd
    obtain ⟨p, rfl, rfl⟩ := Option.map_eq_some_iff.mp hd
    refine ⟨hid p rfl, Chosen.self, fun member hm => ⟨hm, hm⟩, ?_⟩
    refine ExtTreeSet.ext_mem fun member => ?_
    rw [hmembers]
    simp only [ExtTreeSet.mem_union_iff, or_self]

end Again

section Convergence

variable {blake3 : Bytes → Digest} {analysis : ObjectAnalysis}
  {objects : VerifiedSkillObjectCatalog} {capabilities : TierOneCapabilities}
  {limits : SyncLimits} {base here there merged : EnvironmentManifest} {lock : Lockfile}
  {drafts : OrdMap AssetId AssetDraft} {packDrafts : OrdMap AssetId PackDraft}
  {profiles : OrdMap ProfileId Profile} {requiredBindings : OrdSet BindingName}

/-- A manifest that merging with itself leaves as it is. -/
def Settled (blake3 : Bytes → Digest) (analysis : ObjectAnalysis)
    (objects : VerifiedSkillObjectCatalog) (capabilities : TierOneCapabilities)
    (limits : SyncLimits) (m : EnvironmentManifest) : Prop :=
  ∃ lock, mergeManifests blake3 analysis objects capabilities m m m limits = .ok (.merged m lock)

/-- The assets of drafts are derived one by one, the packs from them. -/
theorem deriveManifest_iff :
    deriveManifest blake3 analysis objects capabilities drafts packDrafts profiles
        requiredBindings = .ok merged ↔
      OrdMap.traverse drafts (fun _ draft =>
        deriveAsset blake3 analysis objects capabilities draft) = .ok merged.assets ∧
      EnvironmentManifest.refreshPackRevisions blake3 ⟨merged.assets,
        packDrafts.map fun _ draft => pendingPack blake3 draft, profiles, requiredBindings⟩ =
        .ok merged := by
  unfold deriveManifest
  simp only [bind_eq_ok_iff]
  constructor
  · rintro ⟨assets, hassets, h⟩
    split at h
    · cases h
    rename_i refreshed hrefreshed
    obtain rfl := Except.ok.inj h
    have h := hrefreshed
    have hsame := (refreshPackRevisions_eq_ok h).2.1
    simp only at hsame
    rw [hsame]
    exact ⟨hassets, h⟩
  · rintro ⟨hassets, h⟩
    exact ⟨_, hassets, by simp only [h]⟩

/-- Other drafts of the same assets derive the same manifest. -/
theorem deriveManifest_again {others : OrdMap AssetId AssetDraft}
    (h : deriveManifest blake3 analysis objects capabilities drafts packDrafts profiles
      requiredBindings = .ok merged)
    (hsome : ∀ (id : AssetId) draft, others[id]? = some draft → ∃ asset,
      merged.assets[id]? = some asset ∧
        deriveAsset blake3 analysis objects capabilities draft = .ok asset)
    (hnone : ∀ id : AssetId, others[id]? = none → merged.assets[id]? = none) :
    deriveManifest blake3 analysis objects capabilities others packDrafts profiles
      requiredBindings = .ok merged := by
  rw [deriveManifest_iff] at h ⊢
  refine ⟨(OrdMap.traverse_iff (Outcome.ok _)).mpr ⟨fun id draft hd => ?_, hnone⟩, h.2⟩
  obtain ⟨asset, hget, hasset⟩ := hsome id draft hd
  exact ⟨asset, hasset, hget⟩

theorem Settled.rederived (h : Settled blake3 analysis objects capabilities limits here)
    {id : AssetId} {asset : Asset} (hasset : here.assets[id]? = some asset) :
    Rederived blake3 analysis objects capabilities asset := by
  obtain ⟨lock, h⟩ := h
  obtain ⟨-, -, -, drafts, packDrafts, hdrafted, hm, -⟩ := mergeManifests_eq_merged.mp h
  have hdraft := hdrafted.assets id
  rw [hasset] at hdraft
  obtain ⟨draft, hget, -⟩ := hdraft
  have htraverse := (OrdMap.traverse_iff (Outcome.ok _)).mp (deriveManifest_iff.mp hm).1
  obtain ⟨derived, hderived, hsame⟩ := htraverse.1 id draft hget
  rw [hasset] at hsame
  cases hsame
  exact deriveAsset_again hderived

/-- A machine that holds one side and then receives what was merged ends there. -/
theorem mergeManifests_receives
    (hhere : Settled blake3 analysis objects capabilities limits here)
    (h : mergeManifests blake3 analysis objects capabilities base here there limits =
      .ok (.merged merged lock)) :
    mergeManifests blake3 analysis objects capabilities base here merged limits =
      .ok (.merged merged lock) := by
  have hexact := mergeManifests_exact h
  obtain ⟨hlimits, ⟨hbase, hherev, -⟩, hbudget, drafts, packDrafts, hdrafted, hm, hlock⟩ :=
    mergeManifests_eq_merged.mp h
  obtain ⟨-, -, -, hpacks, hprofiles, hbindings⟩ := deriveManifest_eq_ok hm
  obtain ⟨hsome, hnone⟩ := (OrdMap.traverse_iff (Outcome.ok _)).mp (deriveManifest_iff.mp hm).1
  have hnext : ∀ id : AssetId, ∃ next,
      AssetDraftOf base.assets[id]? here.assets[id]? merged.assets[id]? next ∧
        (next = none → merged.assets[id]? = none) ∧
        ∀ d, next = some d → supportedShape d = true ∧ ∃ asset, merged.assets[id]? = some asset ∧
          deriveAsset blake3 analysis objects capabilities d = .ok asset := by
    intro id
    refine (hdrafted.assets id).again (hdrafted.shapes id) (fun asset hasset =>
      hhere.rederived hasset) (hnone id) fun d hd => ?_
    obtain ⟨asset, hasset, hget⟩ := hsome id d hd
    exact ⟨asset, hget, hasset⟩
  choose next hnextOf hnextNone hnextSome using hnext
  have habsent : ∀ id, id ∉ merged.assets → next id = none := by
    intro id hid
    cases hn : next id with
    | none => rfl
    | some d =>
      obtain ⟨-, asset, hget, -⟩ := hnextSome id d hn
      exact absurd (OrdMap.mem_iff_getElem?.mpr ⟨asset, hget⟩) hid
  obtain ⟨others, hothers⟩ := OrdMap.exists_getElem? merged.assets habsent
  have hcount : componentCount base here merged ≤ componentCount base here there := by
    refine componentCount_le within_base within_here hexact.within fun id hid => ?_
    simp only [sideAssetIds, ExtTreeSet.mem_union_iff, OrdMap.mem_keySet, or_assoc] at hid ⊢
    exact .inr (.inr ((hexact.assetIds id).mpr hid))
  rw [validateMergedComponentBudget_eq_ok] at hbudget
  refine mergeManifests_eq_merged.mpr ⟨hlimits, ⟨hbase, hherev, hexact.valid⟩,
    validateMergedComponentBudget_eq_ok.mpr (hcount.trans hbudget), others, packDrafts, ?_, ?_,
    hlock⟩
  · exact
      { assets := fun id => by rw [hothers]; exact hnextOf id
        shapes := fun id d hd => (hnextSome id d (by rw [← hothers]; exact hd)).1
        packs := fun id => (hdrafted.packs id).again (hpacks id)
        here_profiles := hdrafted.here_profiles
        there_profiles := hprofiles.symm }
  · have hsame : mergeSetMembership base.requiredBindings here.requiredBindings
        merged.requiredBindings = mergeSetMembership base.requiredBindings here.requiredBindings
          there.requiredBindings := by rw [hbindings, mergeSetMembership_again]
    rw [hsame]
    refine deriveManifest_again hm (fun id d hd => ?_) fun id hd => ?_
    · rw [hothers] at hd
      exact (hnextSome id d hd).2
    · rw [hothers] at hd
      exact hnextNone id hd

/-- What was merged without conflicts is settled. -/
theorem mergeManifests_settled
    (h : mergeManifests blake3 analysis objects capabilities base here there limits =
      .ok (.merged merged lock)) :
    Settled blake3 analysis objects capabilities limits merged := by
  have hexact := mergeManifests_exact h
  obtain ⟨hlimits, -, hbudget, drafts, packDrafts, hdrafted, hm, hlock⟩ :=
    mergeManifests_eq_merged.mp h
  obtain ⟨-, -, -, hpacks, hprofiles, hbindings⟩ := deriveManifest_eq_ok hm
  obtain ⟨hsome, hnone⟩ := (OrdMap.traverse_iff (Outcome.ok _)).mp (deriveManifest_iff.mp hm).1
  have hderived : ∀ (id : AssetId) asset, merged.assets[id]? = some asset → ∃ draft,
      drafts[id]? = some draft ∧
        deriveAsset blake3 analysis objects capabilities draft = .ok asset := by
    intro id asset hasset
    cases hd : drafts[id]? with
    | none => simp [hnone id hd] at hasset
    | some draft =>
      obtain ⟨derived, hderived, hget⟩ := hsome id draft hd
      rw [hasset] at hget
      cases hget
      exact ⟨draft, rfl, hderived⟩
  have hcount : componentCount merged merged merged ≤ componentCount base here there := by
    refine componentCount_le hexact.within hexact.within hexact.within fun id hid => ?_
    simp only [sideAssetIds, ExtTreeSet.mem_union_iff, OrdMap.mem_keySet, or_assoc] at hid ⊢
    exact .inl ((hexact.assetIds id).mpr hid)
  rw [validateMergedComponentBudget_eq_ok] at hbudget
  have hdraftOf : ∀ id : AssetId,
      (merged.assets.map fun _ asset => (draftFromAsset asset).normalized)[id]? =
        merged.assets[id]?.map fun asset => (draftFromAsset asset).normalized :=
    fun id => ExtTreeMap.getElem?_map
  refine ⟨lock, mergeManifests_eq_merged.mpr ⟨hlimits, ⟨hexact.valid, hexact.valid, hexact.valid⟩,
    validateMergedComponentBudget_eq_ok.mpr (hcount.trans hbudget),
    merged.assets.map fun _ asset => (draftFromAsset asset).normalized, packDrafts, ?_, ?_, hlock⟩⟩
  · refine
      { assets := fun id => ?_
        shapes := fun id d hd => ?_
        packs := fun id => ?_
        here_profiles := rfl
        there_profiles := rfl }
    · rw [hdraftOf]
      cases hasset : merged.assets[id]? with
      | none => rfl
      | some asset =>
        exact ⟨_, rfl, (validAsset_of_valid hexact.valid hasset).existingDraft⟩
    · rw [hdraftOf] at hd
      obtain ⟨asset, hasset, rfl⟩ := Option.map_eq_some_iff.mp hd
      obtain ⟨draft, hdraft, hderived⟩ := hderived id asset hasset
      rw [supportedShape_normalized, supportedShape_again (deriveAsset_derives hderived)]
      exact hdrafted.shapes id draft hdraft
    · rw [← hpacks id]
      refine packDraftOf_self fun pack hpack => ?_
      have hdraft := hpacks id
      rw [hpack] at hdraft
      exact ((hdrafted.packs id).present _ hdraft.symm).1
  · rw [mergeSetMembership_self, hbindings, hprofiles]
    refine deriveManifest_again hm (fun id d hd => ?_) fun id hd => ?_
    · rw [hdraftOf] at hd
      obtain ⟨asset, hasset, rfl⟩ := Option.map_eq_some_iff.mp hd
      obtain ⟨draft, -, hderived⟩ := hderived id asset hasset
      exact ⟨asset, hasset, deriveAsset_normalized.mpr (deriveAsset_again hderived)⟩
    · rw [hdraftOf] at hd
      exact Option.map_eq_none_iff.mp hd

/-- Merging converges: what settled sides merge to is settled, and a machine that holds only
one of the sides ends there too. -/
theorem mergeManifests_converges
    (hhere : Settled blake3 analysis objects capabilities limits here)
    (hthere : Settled blake3 analysis objects capabilities limits there)
    (h : mergeManifests blake3 analysis objects capabilities base here there limits =
      .ok (.merged merged lock)) :
    Settled blake3 analysis objects capabilities limits merged ∧
      mergeManifests blake3 analysis objects capabilities base here merged limits =
        .ok (.merged merged lock) ∧
      mergeManifests blake3 analysis objects capabilities base there merged limits =
        .ok (.merged merged lock) :=
  ⟨mergeManifests_settled h, mergeManifests_receives hhere h,
    mergeManifests_receives hthere (mergeManifests_comm.trans h)⟩

end Convergence

section Sample

/-- A settled manifest with one portable skill. -/
def settledManifest (object : ContentHash) : EnvironmentManifest :=
  (sampleMerge emptyManifest (skillManifest object) emptyManifest).getD emptyManifest

theorem settledManifest_settled (object : ContentHash)
    (h : sampleMerge (settledManifest object) (settledManifest object) (settledManifest object) =
      some (settledManifest object)) :
    Settled sampleBlake3 sampleAnalysis sampleObjects sampleCapabilities .default
      (settledManifest object) :=
  sampleMerge_eq_some h

theorem mergeManifests_converges_sample : ∃ merged lock,
    mergeManifests sampleBlake3 sampleAnalysis sampleObjects sampleCapabilities
      (settledManifest sampleHash) (settledManifest changedHash) merged .default =
        .ok (.merged merged lock) := by
  have hsome : (sampleMerge (settledManifest sampleHash) (settledManifest changedHash)
      (settledManifest sampleHash)).isSome = true := by decide +kernel
  obtain ⟨merged, hmerged⟩ := Option.isSome_iff_exists.mp hsome
  obtain ⟨lock, hlock⟩ := sampleMerge_eq_some hmerged
  exact ⟨merged, lock, (mergeManifests_converges
    (settledManifest_settled changedHash (by decide +kernel))
    (settledManifest_settled sampleHash (by decide +kernel)) hlock).2.1⟩

end Sample

end Kitrove
