import Kitrove.Merge.Exactness
import Kitrove.Model.Validity

/-! Which merges declare every binding that their assets and packs require. -/

namespace Kitrove

open Std Stateful Except

section Membership

variable {K : Type} [Ord K] [TransOrd K] [LawfulEqOrd K] {base here there : OrdSet K} {name : K}

/-- A name is dropped when one side removes it, and kept when any side has it anew. -/
theorem mem_mergeSetMembership : name ∈ mergeSetMembership base here there ↔
    (name ∈ here ∧ name ∈ there) ∨ (name ∉ base ∧ (name ∈ here ∨ name ∈ there)) := by
  have h := chosen_mergeSetMembership base here there name
  rw [← choose_eq_some_iff] at h
  simp only [← ExtTreeSet.contains_iff_mem]
  revert h
  cases base.contains name <;> cases here.contains name <;> cases there.contains name <;>
    cases (mergeSetMembership base here there).contains name <;> simp [choose]

end Membership

section Requirements

/-- An asset of the side requires a binding that it did not require in the base. -/
def NewlyRequired (base side : EnvironmentManifest) (name : BindingName) : Prop :=
  ∃ (id : AssetId) (asset : Asset), side.assets[id]? = some asset ∧
    name ∈ asset.requiredBindings ∧
    ∀ before : Asset, base.assets[id]? = some before → name ∉ before.requiredBindings

/-- No side drops a declaration that an asset of the other side newly requires. -/
def RequirementsKept (base here there : EnvironmentManifest) : Prop :=
  ∀ name ∈ base.requiredBindings,
    (name ∉ here.requiredBindings → ¬ NewlyRequired base there name) ∧
    (name ∉ there.requiredBindings → ¬ NewlyRequired base here name)

variable {blake3 : Bytes → Digest} {base here there : EnvironmentManifest}
  {drafts : OrdMap AssetId AssetDraft} {packDrafts : OrdMap AssetId PackDraft}

/-- What the draft of an asset requires, some side requires; when a side has dropped it, anew. -/
theorem AssetDraftOf.required {base here there : Option Asset} {draft : AssetDraft}
    (h : AssetDraftOf base here there (some draft)) {name : BindingName}
    (hname : name ∈ draft.requiredBindings) :
    ((∃ asset, here = some asset ∧ name ∈ asset.requiredBindings) ∨
      ∃ asset, there = some asset ∧ name ∈ asset.requiredBindings) ∧
    ((∀ asset, here = some asset → name ∉ asset.requiredBindings) →
      ∀ before, base = some before → name ∉ before.requiredBindings) ∧
    ((∀ asset, there = some asset → name ∉ asset.requiredBindings) →
      ∀ before, base = some before → name ∉ before.requiredBindings) := by
  cases base with
  | none =>
    refine ⟨?_, (fun _ _ hb => nomatch hb), fun _ _ hb => nomatch hb⟩
    cases here with
    | none =>
      cases there with
      | none => cases h
      | some t =>
        cases h
        exact .inr ⟨t, rfl, hname⟩
    | some s =>
      cases there with
      | none =>
        cases h
        exact .inl ⟨s, rfl, hname⟩
      | some t =>
        obtain ⟨-, hdraft⟩ := h
        cases hdraft
        exact .inl ⟨s, rfl, hname⟩
  | some b =>
    cases here with
    | none => cases h
    | some s =>
      cases there with
      | none => cases h
      | some t =>
        obtain ⟨_, hdraft, hmerged⟩ := h
        cases hdraft
        rw [hmerged.requiredBindings, mem_mergeSetMembership] at hname
        simp only [Option.some.injEq, forall_eq', exists_eq_left']
        tauto

/-- What a side newly requires, its draft requires, when the other side does not have it. -/
theorem AssetDraftOf.requires {base here there : Option Asset} {draft : Option AssetDraft}
    (h : AssetDraftOf base here there draft) {name : BindingName} {asset : Asset}
    (hname : name ∈ asset.requiredBindings)
    (hbase : ∀ before, base = some before → name ∉ before.requiredBindings)
    (hside : here = some asset ∨ there = some asset) :
    ∃ merged, draft = some merged ∧ name ∈ merged.requiredBindings := by
  cases base with
  | none =>
    cases here with
    | none =>
      cases there with
      | none => rcases hside with hside | hside <;> cases hside
      | some t =>
        rcases hside with hside | hside
        · cases hside
        · cases hside
          exact ⟨_, h, hname⟩
    | some s =>
      cases there with
      | none =>
        rcases hside with hside | hside
        · cases hside
          exact ⟨_, h, hname⟩
        · cases hside
      | some t =>
        obtain ⟨rfl, hdraft⟩ := h
        rcases hside with hside | hside <;> cases hside <;> exact ⟨_, hdraft, hname⟩
  | some b =>
    cases here with
    | none => cases h
    | some s =>
      cases there with
      | none => cases h
      | some t =>
        obtain ⟨merged, hdraft, hmerged⟩ := h
        refine ⟨merged, hdraft, ?_⟩
        have hb := hbase b rfl
        rw [hmerged.requiredBindings, mem_mergeSetMembership]
        rcases hside with hside | hside <;> cases hside <;> tauto

/-- The merged assets have all their bindings declared exactly when no side drops a declaration
that an asset of the other side newly requires. -/
theorem drafts_declared_iff (hbase : base.validate blake3 = .ok ())
    (hhere : here.validate blake3 = .ok ()) (hthere : there.validate blake3 = .ok ())
    (h : Drafted base here there drafts packDrafts) :
    (∀ (id : AssetId) (draft : AssetDraft), drafts[id]? = some draft →
      ∀ name ∈ draft.requiredBindings, name ∈ mergeSetMembership base.requiredBindings
        here.requiredBindings there.requiredBindings) ↔ RequirementsKept base here there := by
  constructor
  · intro hdeclared name hname
    have hnot : ∀ side : EnvironmentManifest, (∀ id : AssetId, ∀ asset,
        side.assets[id]? = some asset → here.assets[id]? = some asset ∨
          there.assets[id]? = some asset) → NewlyRequired base side name →
        name ∈ here.requiredBindings ∧ name ∈ there.requiredBindings := by
      rintro side hside ⟨id, asset, hasset, hrequired, hnew⟩
      obtain ⟨draft, hdraft, hmem⟩ :=
        (h.assets id).requires hrequired hnew (hside id asset hasset)
      rcases mem_mergeSetMembership.mp (hdeclared id draft hdraft name hmem) with hboth | hone
      · exact hboth
      · exact absurd hname hone.1
    exact ⟨fun hdropped hnew => hdropped (hnot there (fun _ _ => .inr) hnew).1,
      fun hdropped hnew => hdropped (hnot here (fun _ _ => .inl) hnew).2⟩
  · intro hkept id draft hdraft name hname
    have hdraftOf := h.assets id
    rw [hdraft] at hdraftOf
    obtain ⟨hsome, hhereNew, hthereNew⟩ := hdraftOf.required hname
    have hhas : (∃ asset, here.assets[id]? = some asset ∧ name ∈ asset.requiredBindings) →
        name ∈ here.requiredBindings := fun ⟨asset, hasset, hmem⟩ =>
      (validAsset_of_valid hhere hasset).requiredBindings name hmem
    have thas : (∃ asset, there.assets[id]? = some asset ∧ name ∈ asset.requiredBindings) →
        name ∈ there.requiredBindings := fun ⟨asset, hasset, hmem⟩ =>
      (validAsset_of_valid hthere hasset).requiredBindings name hmem
    rw [mem_mergeSetMembership]
    by_cases hname' : name ∈ base.requiredBindings
    · left
      obtain ⟨hkeptHere, hkeptThere⟩ := hkept name hname'
      by_cases hh : name ∈ here.requiredBindings
      · refine ⟨hh, ?_⟩
        by_contra ht
        rcases hsome with ⟨asset, hasset, hmem⟩ | hside
        · exact hkeptThere ht ⟨id, asset, hasset, hmem, hthereNew fun other hother hmem' =>
            ht (thas ⟨other, hother, hmem'⟩)⟩
        · exact ht (thas hside)
      · exfalso
        rcases hsome with hside | ⟨asset, hasset, hmem⟩
        · exact hh (hhas hside)
        · exact hkeptHere hh ⟨id, asset, hasset, hmem, hhereNew fun other hother hmem' =>
            hh (hhas ⟨other, hother, hmem'⟩)⟩
    · exact .inr ⟨hname', hsome.imp hhas thas⟩

end Requirements

section Packs

variable {blake3 : Bytes → Digest} {assets : OrdMap AssetId Asset}
  {declared : OrdSet BindingName}

/-- Packs that require no more than what is declared. -/
def PacksDeclared (declared : OrdSet BindingName) (packs : PackMap) : Prop :=
  ∀ (id : AssetId) (pack : Pack), packs[id]? = some pack →
    ∀ name ∈ pack.requiredBindings, name ∈ declared

theorem refreshedMember_declared {packs : PackMap} {member : AssetId}
    {metadata : PackMemberMetadata}
    (hassets : ∀ (id : AssetId) (asset : Asset), assets[id]? = some asset →
      ∀ name ∈ asset.requiredBindings, name ∈ declared)
    (hpacks : PacksDeclared declared packs)
    (h : refreshedMember blake3 assets packs member = .ok metadata) :
    ∀ name ∈ metadata.requiredBindings, name ∈ declared := by
  unfold refreshedMember at h
  split at h
  · rename_i asset hasset
    obtain ⟨-, h⟩ := refuseIf_bind_eq_ok.mp h
    cases h
    exact hassets member asset hasset
  · split at h
    · rename_i pack hpack
      cases h
      exact hpacks member pack hpack
    · contradiction

theorem derivePackFields_declared {members : List PackMemberMetadata} {derived : DerivedPackFields}
    (hmembers : ∀ member ∈ members, ∀ name ∈ member.requiredBindings, name ∈ declared)
    (h : derivePackFields members = .ok derived) :
    ∀ name ∈ derived.requiredBindings, name ∈ declared := by
  unfold derivePackFields at h
  obtain ⟨-, h⟩ := refuseIf_bind_eq_ok.mp h
  obtain ⟨compatibility, -, h⟩ := bind_eq_ok_iff.mp h
  cases h
  intro name hname
  obtain ⟨member, hmember, hmem⟩ := List.mem_flatMap.mp (OrdMap.mem_setOf.mp hname)
  exact hmembers member hmember name (ExtTreeSet.mem_toList.mp hmem)

/-- A refresh never makes a pack require what its assets do not. -/
theorem refresh_packsDeclared {remaining : Nat} {id : AssetId} {s : RefreshState}
    (hassets : ∀ (id : AssetId) (asset : Asset), assets[id]? = some asset →
      ∀ name ∈ asset.requiredBindings, name ∈ declared)
    (hs : PacksDeclared declared s.packs) :
    Ends (refresh blake3 assets remaining id) s (fun _ t => PacksDeclared declared t.packs)
      fun _ => True := by
  induction remaining generalizing id s with
  | zero =>
    simp only [refresh, ends_bind, ends_get]
    split
    · exact hs
    · trivial
  | succ remaining ih =>
    simp only [refresh, ends_bind, ends_get]
    split
    · exact hs
    split
    · trivial
    simp only [ends_bind, ends_set]
    cases hpack : s.packs[id]? with
    | none => trivial
    | some pack =>
      dsimp only
      split
      · trivial
      have hloop : ∀ member ∈ pack.members.keys, ∀ t : RefreshState,
          PacksDeclared declared t.packs →
          Ends (do if (← get).packs.contains member then refresh blake3 assets remaining member) t
            (fun _ u => PacksDeclared declared u.packs) fun _ => True := by
        intro member _ t ht
        simp only [ends_bind, ends_get]
        split
        · exact ih ht
        · exact ht
      rw [ends_bind]
      refine (ends_forM (I := fun u : RefreshState => PacksDeclared declared u.packs)
        (s := ⟨s.packs, s.visiting.insert id, s.visited⟩) hs hloop).mono (fun _ t ht => ?_) fun _ h => h
      rw [ends_bind]
      refine (ends_mapM (I := fun u : RefreshState => PacksDeclared declared u.packs)
        (P := fun _ (metadata : PackMemberMetadata) =>
          ∀ name ∈ metadata.requiredBindings, name ∈ declared) ht
        fun member _ u hu => ?_).mono (fun members u hu => ?_) fun _ h => h
      · simp only [ends_bind, ends_get, ends_lift]
        exact ⟨fun metadata hm => ⟨refreshedMember_declared hassets hu hm, hu⟩, fun _ _ => trivial⟩
      simp only [ends_bind, ends_lift, ends_modify]
      refine ⟨fun derived hderived => ?_, fun _ _ => trivial⟩
      have hmembers : ∀ member ∈ members, ∀ name ∈ member.requiredBindings, name ∈ declared := by
        intro member hmember
        obtain ⟨_, -, hmem⟩ := forall₂_of_mem_right hu.1 hmember
        exact hmem
      intro k other hother
      rw [ExtTreeMap.getElem?_modify] at hother
      split at hother
      · obtain ⟨now, -, rfl⟩ := Option.map_eq_some_iff.mp hother
        exact derivePackFields_declared hmembers hderived
      · exact hu.2 k other hother

end Packs

section Merge

variable {blake3 : Bytes → Digest} {analysis : ObjectAnalysis}
  {objects : VerifiedSkillObjectCatalog} {capabilities : TierOneCapabilities}
  {base here there : EnvironmentManifest} {limits : SyncLimits}
  {drafts : OrdMap AssetId AssetDraft} {packDrafts : OrdMap AssetId PackDraft}
  {assets : OrdMap AssetId Asset}

def derivedManifestInvalid : SemanticMergeError :=
  ⟨"sync_merge.derived_manifest_invalid", "recomputed merged manifest authority is invalid"⟩

theorem drafts_declared (hassets : OrdMap.traverse drafts (fun _ draft =>
      deriveAsset blake3 analysis objects capabilities draft) = .ok assets)
    {declared : OrdSet BindingName} :
    (∀ (id : AssetId) (asset : Asset), assets[id]? = some asset →
      ∀ name ∈ asset.requiredBindings, name ∈ declared) ↔
    ∀ (id : AssetId) (draft : AssetDraft), drafts[id]? = some draft →
      ∀ name ∈ draft.requiredBindings, name ∈ declared := by
  obtain ⟨hsome, hnone⟩ := (OrdMap.traverse_iff (Outcome.ok _)).mp hassets
  constructor
  · intro h id draft hdraft
    obtain ⟨asset, hderive, hasset⟩ := hsome id draft hdraft
    rw [← (deriveAsset_derives hderive).requiredBindings]
    exact h id asset hasset
  · intro h id asset hasset
    cases hdraft : drafts[id]? with
    | none =>
      rw [hnone id hdraft] at hasset
      contradiction
    | some draft =>
      obtain ⟨other, hderive, hother⟩ := hsome id draft hdraft
      rw [hother] at hasset
      cases hasset
      rw [(deriveAsset_derives hderive).requiredBindings]
      exact h id draft hdraft

theorem mergeManifests_undeclared (hlimits : objects.validateLimits limits = .ok ())
    (hbase : base.validate blake3 = .ok ()) (hhere : here.validate blake3 = .ok ())
    (hthere : there.validate blake3 = .ok ())
    (hbudget : validateMergedComponentBudget base here there limits = .ok ())
    (hdrafts : (mergeDrafts base here there limits).run [] = .ok ((drafts, packDrafts), []))
    (hassets : OrdMap.traverse drafts (fun _ draft =>
      deriveAsset blake3 analysis objects capabilities draft) = .ok assets)
    (hnot : ¬ RequirementsKept base here there) :
    mergeManifests blake3 analysis objects capabilities base here there limits =
      .error derivedManifestInvalid := by
  have hvalid : [base, here, there].forM (requireValidManifest blake3) = .ok () := by
    refine (OrdMap.forM_iff (Outcome.ok _)).mpr fun m hm => requireValidManifest_eq_ok.mpr ?_
    simp only [List.mem_cons, List.not_mem_nil, or_false] at hm
    rcases hm with rfl | rfl | rfl <;> assumption
  have hrefused : ∀ m, EnvironmentManifest.refreshPackRevisions blake3 ⟨assets,
      packDrafts.map fun _ draft => pendingPack blake3 draft, base.profiles,
      mergeSetMembership base.requiredBindings here.requiredBindings there.requiredBindings⟩ ≠
        .ok m := by
    intro m hm
    obtain ⟨hmvalid, hsame, -, -, hbindings⟩ := refreshPackRevisions_eq_ok hm
    refine hnot ((drafts_declared_iff hbase hhere hthere (silent_mergeDrafts.mp hdrafts)).mp
      ((drafts_declared hassets).mp fun id asset hasset name hname => ?_))
    have hdeclared : m.requiredBindings = mergeSetMembership base.requiredBindings
      here.requiredBindings there.requiredBindings := hbindings
    have hget : m.assets[id]? = some asset := by
      rw [hsame]
      exact hasset
    rw [← hdeclared]
    exact (validAsset_of_valid hmvalid hget).requiredBindings name hname
  have hderive : deriveManifest blake3 analysis objects capabilities drafts packDrafts
      base.profiles (mergeSetMembership base.requiredBindings here.requiredBindings
        there.requiredBindings) = .error derivedManifestInvalid := by
    unfold deriveManifest
    rw [hassets]
    cases hrefresh : EnvironmentManifest.refreshPackRevisions blake3 ⟨assets,
        packDrafts.map fun _ draft => pendingPack blake3 draft, base.profiles,
        mergeSetMembership base.requiredBindings here.requiredBindings
          there.requiredBindings⟩ with
    | error e =>
      simp only [bind, Except.bind, hrefresh]
      rfl
    | ok m => exact absurd hrefresh (hrefused m)
  unfold mergeManifests
  rw [hlimits, hvalid, hbudget, hdrafts]
  simp only [bind, Except.bind, ne_eq, not_true_eq_false, if_false, hderive]

/-- Without conflicts, the bindings of the merged records are all declared exactly when no side
drops a declaration that an asset of the other side newly requires; then the packs' bindings are
too, and otherwise the merge fails. -/
theorem mergeManifests_declared_iff (hlimits : objects.validateLimits limits = .ok ())
    (hbase : base.validate blake3 = .ok ()) (hhere : here.validate blake3 = .ok ())
    (hthere : there.validate blake3 = .ok ())
    (hbudget : validateMergedComponentBudget base here there limits = .ok ())
    (hdrafts : (mergeDrafts base here there limits).run [] = .ok ((drafts, packDrafts), [])) :
    ((∀ (id : AssetId) (draft : AssetDraft), drafts[id]? = some draft →
      ∀ name ∈ draft.requiredBindings, name ∈ mergeSetMembership base.requiredBindings
        here.requiredBindings there.requiredBindings) ↔ RequirementsKept base here there) ∧
    ∀ assets, OrdMap.traverse drafts (fun _ draft =>
      deriveAsset blake3 analysis objects capabilities draft) = .ok assets →
      ((∀ (id : AssetId) (asset : Asset), assets[id]? = some asset →
        ∀ name ∈ asset.requiredBindings, name ∈ mergeSetMembership base.requiredBindings
          here.requiredBindings there.requiredBindings) ↔ RequirementsKept base here there) ∧
      (RequirementsKept base here there → ∀ refreshed : RefreshState,
        ((packDrafts.map fun _ draft => pendingPack blake3 draft).keys.forM fun id =>
            refresh blake3 assets maxPackGraphDepth id).run
          ⟨packDrafts.map fun _ draft => pendingPack blake3 draft, ∅, ∅⟩ = .ok ((), refreshed) →
        ∀ (id : AssetId) (pack : Pack), refreshed.packs[id]? = some pack →
          ∀ name ∈ pack.requiredBindings, name ∈ mergeSetMembership base.requiredBindings
            here.requiredBindings there.requiredBindings) ∧
      (¬ RequirementsKept base here there →
        mergeManifests blake3 analysis objects capabilities base here there limits =
          .error derivedManifestInvalid) := by
  have hiff := drafts_declared_iff hbase hhere hthere (silent_mergeDrafts.mp hdrafts)
  refine ⟨hiff, fun assets hassets => ⟨(drafts_declared hassets).trans hiff,
    fun hkept refreshed hrun => ?_, mergeManifests_undeclared hlimits hbase hhere hthere hbudget
      hdrafts hassets⟩⟩
  have hdeclared := (drafts_declared hassets).mpr (hiff.mpr hkept)
  have hpending : PacksDeclared (mergeSetMembership base.requiredBindings here.requiredBindings
      there.requiredBindings) (packDrafts.map fun _ draft => pendingPack blake3 draft) := by
    intro id pack hpack name hname
    rw [ExtTreeMap.getElem?_map] at hpack
    obtain ⟨draft, -, rfl⟩ := Option.map_eq_some_iff.mp hpack
    exact absurd hname ExtTreeSet.not_mem_empty
  exact ends_of_run (ends_forM (I := fun u : RefreshState => PacksDeclared
    (mergeSetMembership base.requiredBindings here.requiredBindings there.requiredBindings)
      u.packs) hpending fun id _ u hu => refresh_packsDeclared hdeclared hu) hrun

end Merge

section Sample

def sampleBinding : BindingName := ⟨ascii "token", by decide +kernel, by decide +kernel⟩

/-- A manifest that declares a binding. -/
def declaringManifest : EnvironmentManifest := { emptyManifest with requiredBindings := {sampleBinding} }

/-- The same manifest with a skill that needs the binding. -/
def requiringManifest : EnvironmentManifest :=
  { declaringManifest with
    assets := (skillManifest sampleHash).assets.map fun _ asset =>
      { asset with requiredBindings := {sampleBinding} }.refreshContentHash sampleBlake3 }

def sampleDrafts : Option (OrdMap AssetId AssetDraft × OrdMap AssetId PackDraft) :=
  match (mergeDrafts declaringManifest emptyManifest requiringManifest .default).run [] with
  | .ok (drafts, []) => some drafts
  | _ => none

theorem sampleDrafts_eq_some {drafts : OrdMap AssetId AssetDraft × OrdMap AssetId PackDraft}
    (h : sampleDrafts = some drafts) :
    (mergeDrafts declaringManifest emptyManifest requiringManifest .default).run [] =
      .ok (drafts, []) := by
  unfold sampleDrafts at h
  split at h
  · rename_i found hrun
    cases h
    exact hrun
  · contradiction

/-- One side drops a declared binding, the other adds a skill that needs it: there is no conflict
to report, and the merge fails. -/
theorem mergeManifests_undeclared_sample :
    (declaringManifest.validate sampleBlake3 = .ok () ∧ emptyManifest.validate sampleBlake3 = .ok () ∧
      requiringManifest.validate sampleBlake3 = .ok ()) ∧
    (∃ drafts packDrafts,
      (mergeDrafts declaringManifest emptyManifest requiringManifest .default).run [] =
        .ok ((drafts, packDrafts), []) ∧
      ∃ (draft : AssetDraft), drafts[sampleId]? = some draft ∧
        sampleBinding ∈ draft.requiredBindings ∧
        sampleBinding ∉ mergeSetMembership declaringManifest.requiredBindings
          emptyManifest.requiredBindings requiringManifest.requiredBindings) ∧
    mergeManifests sampleBlake3 sampleAnalysis sampleObjects sampleCapabilities declaringManifest
      emptyManifest requiringManifest .default = .error derivedManifestInvalid := by
  refine ⟨⟨by decide +kernel, by decide +kernel, by decide +kernel⟩, ?_, by decide +kernel⟩
  have hrequired : (sampleDrafts.bind fun drafts => drafts.1[sampleId]?.map fun draft =>
      draft.requiredBindings.contains sampleBinding) = some true := by decide +kernel
  obtain ⟨⟨drafts, packDrafts⟩, hdrafts, hdraft⟩ := Option.bind_eq_some_iff.mp hrequired
  obtain ⟨draft, hget, hcontains⟩ := Option.map_eq_some_iff.mp hdraft
  exact ⟨drafts, packDrafts, sampleDrafts_eq_some hdrafts, draft, hget,
    ExtTreeSet.contains_iff_mem.mp hcontains, by decide +kernel⟩

theorem mergeManifests_declared_iff_sample : ∃ drafts packDrafts,
    (mergeDrafts declaringManifest emptyManifest requiringManifest .default).run [] =
      .ok ((drafts, packDrafts), []) ∧
    ¬ ∀ (id : AssetId) (draft : AssetDraft), drafts[id]? = some draft →
      ∀ name ∈ draft.requiredBindings, name ∈ mergeSetMembership declaringManifest.requiredBindings
        emptyManifest.requiredBindings requiringManifest.requiredBindings := by
  have hsome : sampleDrafts.isSome = true := by decide +kernel
  obtain ⟨⟨drafts, packDrafts⟩, hdrafts⟩ := Option.isSome_iff_exists.mp hsome
  refine ⟨drafts, packDrafts, sampleDrafts_eq_some hdrafts, ?_⟩
  have hdropped : ¬ RequirementsKept declaringManifest emptyManifest requiringManifest := by
    intro hkept
    have hname : sampleBinding ∈ declaringManifest.requiredBindings := by decide +kernel
    have hgone : sampleBinding ∉ emptyManifest.requiredBindings := by decide +kernel
    have hasset : (requiringManifest.assets[sampleId]?.map fun asset =>
        asset.requiredBindings.contains sampleBinding) = some true := by decide +kernel
    obtain ⟨asset, hget, hcontains⟩ := Option.map_eq_some_iff.mp hasset
    refine (hkept sampleBinding hname).1 hgone ⟨sampleId, asset, hget,
      ExtTreeSet.contains_iff_mem.mp hcontains, fun before hbefore => ?_⟩
    rw [show declaringManifest.assets = ∅ from rfl, ExtTreeMap.getElem?_empty] at hbefore
    contradiction
  exact fun hall => hdropped ((@mergeManifests_declared_iff sampleBlake3 sampleAnalysis
    sampleObjects sampleCapabilities _ _ _ _ _ _ (by decide +kernel) (by decide +kernel)
    (by decide +kernel) (by decide +kernel) (by decide +kernel)
    (sampleDrafts_eq_some hdrafts)).1.mp hall)

end Sample

end Kitrove
