import Kitrove.Merge.Manifests

/-! What the drafts of a merge without conflicts are: the three-way choice of each component. -/

namespace Kitrove

open Std

section Choice

/-- The three-way choice: the common value of the sides, or that of the one side that differs
from the base. -/
structure Chosen {α : Type} (base here there result : α) : Prop where
  agreed : here = there → result = here
  there_changed : here = base → result = there
  here_changed : there = base → result = here
  decided : here = there ∨ here = base ∨ there = base

variable {α : Type} [DecidableEq α] {base here there result : α}

theorem choose_eq_some_iff : choose base here there = some result ↔ Chosen base here there result := by
  unfold choose
  constructor
  · intro h
    split at h
    · rename_i he
      cases h
      exact ⟨fun _ => rfl, fun _ => he, fun _ => rfl, .inl he⟩
    · rename_i hne
      split at h
      · rename_i he
        cases h
        exact ⟨fun ha => absurd ha hne, fun _ => rfl, fun hb => absurd (he.trans hb.symm) hne,
          .inr (.inl he)⟩
      · rename_i hb
        split at h
        · rename_i he
          cases h
          exact ⟨fun ha => absurd ha hne, fun ha => absurd ha hb, fun _ => rfl, .inr (.inr he)⟩
        · contradiction
  · rintro ⟨hagreed, hthere, hhere, hdecided⟩
    by_cases ha : here = there
    · rw [if_pos ha, hagreed ha]
    · rw [if_neg ha]
      by_cases hb : here = base
      · rw [if_pos hb, hthere hb]
      · rw [if_neg hb]
        have hc : there = base := by tauto
        rw [if_pos hc, hhere hc]

/-- Between two values there is always a choice. -/
theorem chosen_bool (base here there : Bool) :
    Chosen base here there ((choose base here there).getD false) := by
  rw [← choose_eq_some_iff]
  cases base <;> cases here <;> cases there <;> rfl

variable {K : Type} [Ord K] [TransOrd K] [LawfulEqOrd K]

theorem chosen_mergeSetMembership (base here there : OrdSet K) (name : K) :
    Chosen (base.contains name) (here.contains name) (there.contains name)
      ((mergeSetMembership base here there).contains name) := by
  have hunion : name ∈ base ∪ here ∪ there ↔
      (base.contains name || here.contains name || there.contains name) = true := by
    simp only [ExtTreeSet.mem_union_iff, Bool.or_eq_true, ExtTreeSet.contains_iff_mem]
  have hmember : (mergeSetMembership base here there).contains name =
      (choose (base.contains name) (here.contains name) (there.contains name)).getD false := by
    rw [Bool.eq_iff_iff, ExtTreeSet.contains_iff_mem, mergeSetMembership, OrdMap.mem_filter, hunion]
    cases base.contains name <;> cases here.contains name <;> cases there.contains name <;> decide
  rw [hmember]
  exact chosen_bool _ _ _

end Choice

section Silence

open ReportM

variable {limits : SyncLimits} {α : Type}

theorem not_silent_pushConflict_bind {code : SyncConflictCode} {subject : SyncConflictSubject}
    {f : Unit → MergeM α} {a : α} : ¬ Silent (pushConflict limits code subject >>= f) a :=
  not_silent_push_bind

theorem silent_pure {a b : α} : Silent (pure a : MergeM α) b ↔ a = b :=
  (silent SemanticMergeError SyncConflict).pure_iff

theorem silent_bind {β : Type} {x : MergeM α} {f : α → MergeM β} {b : β} :
    Silent (x >>= f) b ↔ ∃ a, Silent x a ∧ Silent (f a) b :=
  (silent SemanticMergeError SyncConflict).bind_iff

/-- Whether a component of the base is still on both sides. -/
def Retained {α : Type} (base here there : Option α) : Prop :=
  base.isSome → here.isSome ∧ there.isSome

theorem retained_iff {base here there : Option α} :
    Retained base here there ↔ ¬ (base.isSome && (here.isNone || there.isNone)) = true := by
  cases base <;> cases here <;> cases there <;> simp [Retained]

variable {base here there : Asset}

theorem silent_mergeKind {kind : AssetKind} :
    Silent (mergeKind limits base here there) kind ↔
      Chosen base.kind here.kind there.kind kind := by
  rw [← choose_eq_some_iff, mergeKind]
  cases h : choose base.kind here.kind there.kind with
  | none => simpa using not_silent_pushConflict_bind
  | some k => simp [silent_pure]

theorem silent_mergePortable {portable : Option PortableContent} :
    Silent (mergePortable limits base here there) portable ↔
      Retained base.portable here.portable there.portable ∧
        Chosen base.portable here.portable there.portable portable := by
  rw [← choose_eq_some_iff, retained_iff, mergePortable]
  split
  · rename_i h
    exact iff_of_false not_silent_pushConflict_bind fun hkept => hkept.1 h
  · rename_i h
    rw [and_iff_right h]
    cases hc : choose base.portable here.portable there.portable with
    | none => simpa using not_silent_pushConflict_bind
    | some value => simp [silent_pure]

/-- The native component of an asset, its class aside. -/
def Asset.nativeAt (asset : Asset) (harness : HarnessId) : Option NativeVariant :=
  asset.nativeVariants[harness]?.map normalizedNative

theorem silent_mergeNative {harness : HarnessId} {native : Option NativeVariant} :
    Silent (mergeNative limits base here there harness) native ↔
      Retained (base.nativeAt harness) (here.nativeAt harness) (there.nativeAt harness) ∧
        Chosen (base.nativeAt harness) (here.nativeAt harness) (there.nativeAt harness) native := by
  rw [← choose_eq_some_iff, retained_iff, mergeNative]
  simp only [Asset.nativeAt, Option.isSome_map, Option.isNone_map]
  split
  · rename_i h
    exact iff_of_false not_silent_pushConflict_bind fun hkept => hkept.1 h
  · rename_i h
    rw [and_iff_right h]
    cases hc : choose (base.nativeVariants[harness]?.map normalizedNative)
        (here.nativeVariants[harness]?.map normalizedNative)
        (there.nativeVariants[harness]?.map normalizedNative) with
    | none => simpa using not_silent_pushConflict_bind
    | some value => simp [silent_pure]

/-- A draft that keeps each component of an asset that the three sides have. -/
structure ExistingDraft (base here there : Asset) (draft : AssetDraft) : Prop where
  id : draft.id = base.id
  kind : Chosen base.kind here.kind there.kind draft.kind
  portable : Chosen base.portable here.portable there.portable draft.portable
  portable_retained : Retained base.portable here.portable there.portable
  native : ∀ harness, Chosen (base.nativeAt harness) (here.nativeAt harness)
    (there.nativeAt harness) draft.nativeVariants[harness]?
  native_retained : ∀ harness, Retained (base.nativeAt harness) (here.nativeAt harness)
    (there.nativeAt harness)
  provenance : collectProvenance draft.portable draft.nativeVariants [base, here, there] =
    .ok draft.provenance
  requiredBindings : draft.requiredBindings = mergeSetMembership base.requiredBindings
    here.requiredBindings there.requiredBindings

theorem chosen_none {α : Type} {result : Option α} : Chosen none none none result ↔ result = none :=
  ⟨fun h => h.agreed rfl, fun h => ⟨fun _ => h, fun _ => h, fun _ => h, .inl rfl⟩⟩

theorem silent_mergeNatives {natives : OrdMap HarnessId NativeVariant} :
    Silent (OrdMap.buildM (OrdMap.keySet base.nativeVariants ∪ OrdMap.keySet here.nativeVariants ∪
      OrdMap.keySet there.nativeVariants).toList (mergeNative limits base here there)) natives ↔
      ∀ harness : HarnessId,
        Retained (base.nativeAt harness) (here.nativeAt harness) (there.nativeAt harness) ∧
          Chosen (base.nativeAt harness) (here.nativeAt harness) (there.nativeAt harness)
            natives[harness]? := by
  refine (OrdMap.buildM_iff_forall (silent _ _) OrdMap.nodup_toList ?_).trans
    (forall_congr' fun harness => silent_mergeNative)
  intro harness hnot o
  simp only [ExtTreeSet.mem_toList, ExtTreeSet.mem_union_iff, OrdMap.mem_keySet, not_or] at hnot
  obtain ⟨⟨hb, hh⟩, ht⟩ := hnot
  refine silent_mergeNative.trans ?_
  simp only [Asset.nativeAt, OrdMap.getElem?_eq_none.mpr hb, OrdMap.getElem?_eq_none.mpr hh,
    OrdMap.getElem?_eq_none.mpr ht, Option.map_none, chosen_none, Retained]
  simp

theorem silent_mergeExistingAsset {draft : AssetDraft} :
    Silent (mergeExistingAsset limits base here there) draft ↔
      ExistingDraft base here there draft := by
  unfold mergeExistingAsset
  simp only [silent_bind, silent_mergeKind, silent_mergePortable, silent_mergeNatives, silent_lift,
    silent_pure]
  constructor
  · rintro ⟨kind, hkind, portable, hportable, natives, hnatives, provenance, hprovenance, rfl⟩
    exact ⟨rfl, hkind, hportable.2, hportable.1, fun harness => (hnatives harness).2,
      fun harness => (hnatives harness).1, hprovenance, rfl⟩
  · rintro ⟨hid, hkind, hportable, hretained, hnative, hnretained, hprovenance, hbindings⟩
    refine ⟨_, hkind, _, ⟨hretained, hportable⟩, _, fun harness => ⟨hnretained harness,
      hnative harness⟩, _, hprovenance, ?_⟩
    rw [← hid, ← hbindings]

/-- What the draft of an asset is, for each way the sides may have it. -/
def AssetDraftOf : Option Asset → Option Asset → Option Asset → Option AssetDraft → Prop
  | none, none, none, draft => draft = none
  | none, some asset, none, draft | none, none, some asset, draft =>
    draft = some (draftFromAsset asset)
  | none, some here, some there, draft => here = there ∧ draft = some (draftFromAsset here)
  | some base, some here, some there, draft =>
    ∃ merged, draft = some merged ∧ ExistingDraft base here there merged
  | some _, _, _, _ => False

theorem silent_mergeAssetSides {id : AssetId} {base here there : Option Asset}
    {draft : Option AssetDraft} :
    Silent (mergeAssetSides limits id base here there) draft ↔
      AssetDraftOf base here there draft := by
  cases base with
  | none =>
    cases here with
    | none => cases there <;> simp only [mergeAssetSides, AssetDraftOf, silent_pure, eq_comm]
    | some h =>
      cases there with
      | none => simp only [mergeAssetSides, AssetDraftOf, silent_pure, eq_comm]
      | some t =>
        simp only [mergeAssetSides, AssetDraftOf]
        by_cases he : h = t
        · rw [if_neg (not_not.mpr he), silent_pure, and_iff_right he, eq_comm]
        · rw [if_pos he]
          exact iff_of_false not_silent_pushConflict_bind fun hd => he hd.1
  | some b =>
    cases here with
    | none => exact iff_of_false not_silent_pushConflict_bind fun hd => hd
    | some h =>
      cases there with
      | none => exact iff_of_false not_silent_pushConflict_bind fun hd => hd
      | some t =>
        simp only [mergeAssetSides, AssetDraftOf, silent_bind, silent_pure,
          silent_mergeExistingAsset]
        exact exists_congr fun d => by rw [and_comm, eq_comm]

theorem silent_checkShape {draft : Option AssetDraft} :
    Silent (checkShape limits draft) () ↔
      ∀ merged, draft = some merged → supportedShape merged = true := by
  cases draft with
  | none => simp [checkShape, silent_pure]
  | some merged =>
    simp only [checkShape, Option.some.injEq, forall_eq']
    split
    · rename_i h
      simp [silent_pure, h]
    · rename_i h
      exact iff_of_false not_silent_push h

theorem silent_mergeAssets {base here there : OrdMap AssetId Asset}
    {drafts : OrdMap AssetId AssetDraft} :
    Silent (mergeAssets limits base here there) drafts ↔
      ∀ id : AssetId, AssetDraftOf base[id]? here[id]? there[id]? drafts[id]? ∧
        ∀ merged, drafts[id]? = some merged → supportedShape merged = true := by
  have hasset : ∀ (id : AssetId) (draft : Option AssetDraft),
      Silent (mergeAsset limits base here there id) draft ↔
        AssetDraftOf base[id]? here[id]? there[id]? draft ∧
          ∀ merged, draft = some merged → supportedShape merged = true := by
    intro id draft
    simp only [mergeAsset, silent_bind, silent_mergeAssetSides, silent_pure]
    constructor
    · rintro ⟨d, hd, ⟨⟩, hshape, rfl⟩
      exact ⟨hd, silent_checkShape.mp hshape⟩
    · rintro ⟨hd, hshape⟩
      exact ⟨draft, hd, ⟨⟩, silent_checkShape.mpr hshape, rfl⟩
  refine (OrdMap.buildM_iff_forall (silent _ _) OrdMap.nodup_toList ?_).trans
    (forall_congr' fun id => hasset id _)
  intro id hnot draft
  simp only [ExtTreeSet.mem_toList, ExtTreeSet.mem_union_iff, OrdMap.mem_keySet, not_or] at hnot
  obtain ⟨⟨hb, hh⟩, ht⟩ := hnot
  refine (hasset id draft).trans ?_
  rw [OrdMap.getElem?_eq_none.mpr hb, OrdMap.getElem?_eq_none.mpr hh,
    OrdMap.getElem?_eq_none.mpr ht, AssetDraftOf]
  refine and_iff_left_of_imp ?_
  rintro rfl merged hm
  contradiction

/-- The source that the sides of a pack give it. -/
def PackSourceOf : Option Pack → Option Pack → Option Pack → PackSourceDraft → Prop
  | none, some pack, none, source | none, none, some pack, source => source = packSource pack
  | none, some here, some there, source =>
    packSource here = packSource there ∧ packMembers here = packMembers there ∧
      source = packSource here
  | some base, some here, some there, source =>
    Chosen (packSource base) (packSource here) (packSource there) source
  | _, _, _, _ => False

/-- The draft of a pack, with the members of every side. -/
structure PackDraftOf (id : AssetId) (base here there : Option Pack) (draft : Option PackDraft) :
    Prop where
  retained : Retained base here there
  absent : draft = none → base = none ∧ here = none ∧ there = none
  present : ∀ merged, draft = some merged → merged.id = id ∧
    PackSourceOf base here there merged.source ∧
    (∀ member ∈ membersOf base, member ∈ membersOf here ∧ member ∈ membersOf there) ∧
    merged.members = membersOf base ∪ membersOf here ∪ membersOf there

theorem silent_mergePackSource {id : AssetId} {base here there : Option Pack}
    {source : Option PackSourceDraft} (hretained : Retained base here there) :
    Silent (mergePackSource limits id base here there) source ↔
      (source = none → base = none ∧ here = none ∧ there = none) ∧
        ∀ merged, source = some merged → PackSourceOf base here there merged := by
  have hone : ∀ pack : Pack, some (packSource pack) = source ↔
      (source = none → False) ∧ ∀ merged, source = some merged → merged = packSource pack := by
    intro pack
    cases source <;> simp [eq_comm]
  cases base with
  | none =>
    cases here with
    | none =>
      cases there with
      | none => cases source <;> simp [mergePackSource, silent_pure, PackSourceOf]
      | some t => simpa [mergePackSource, silent_pure, PackSourceOf] using hone t
    | some h =>
      cases there with
      | none => simpa [mergePackSource, silent_pure, PackSourceOf] using hone h
      | some t =>
        simp only [mergePackSource, PackSourceOf]
        split
        · rename_i hne
          refine iff_of_false not_silent_pushConflict_bind fun hs => ?_
          cases source with
          | none => simpa using hs.1 rfl
          | some merged =>
            obtain ⟨hsource, hmembers, -⟩ := hs.2 merged rfl
            rcases hne with hne | hne
            · exact hne hsource
            · exact hne hmembers
        · rename_i heq
          rw [not_or, not_not, not_not] at heq
          simpa [silent_pure, heq] using hone h
  | some b =>
    obtain ⟨hh, ht⟩ := hretained rfl
    obtain ⟨h, rfl⟩ := Option.isSome_iff_exists.mp hh
    obtain ⟨t, rfl⟩ := Option.isSome_iff_exists.mp ht
    simp only [mergePackSource, PackSourceOf, ← choose_eq_some_iff]
    cases hc : choose (packSource b) (packSource h) (packSource t) with
    | none =>
      refine iff_of_false not_silent_pushConflict_bind fun hs => ?_
      cases source with
      | none => simpa using hs.1 rfl
      | some merged => simpa using hs.2 merged rfl
    | some s => cases source <;> simp [silent_pure, eq_comm]

theorem silent_mergePackSides {id : AssetId} {base here there : Option Pack}
    {draft : Option PackDraft} :
    Silent (mergePackSides limits id base here there) draft ↔
      PackDraftOf id base here there draft := by
  unfold mergePackSides
  split
  · rename_i h
    exact iff_of_false not_silent_pushConflict_bind fun hd => retained_iff.mp hd.retained h
  · rename_i h
    have hretained := retained_iff.mpr h
    simp only [silent_bind, silent_mergePackSource hretained]
    constructor
    · rintro ⟨source, ⟨habsent, hpresent⟩, hrest⟩
      cases source with
      | none =>
        cases silent_pure.mp hrest
        exact ⟨hretained, fun _ => habsent rfl, fun _ hd => nomatch hd⟩
      | some source =>
        dsimp only at hrest
        split at hrest
        · exact absurd hrest not_silent_pushConflict_bind
        · rename_i hkept
          cases silent_pure.mp hrest
          refine ⟨hretained, fun hd => (nomatch hd), ?_⟩
          rintro _ ⟨⟩
          refine ⟨rfl, hpresent source rfl, fun member hm => ?_, rfl⟩
          simp only [List.any_eq_true, not_exists, not_and, Bool.or_eq_true, not_or,
            Bool.not_eq_true', Bool.not_eq_false] at hkept
          exact hkept member (ExtTreeSet.mem_toList.mpr hm)
    · rintro ⟨-, habsent, hpresent⟩
      cases draft with
      | none =>
        obtain ⟨rfl, rfl, rfl⟩ := habsent rfl
        exact ⟨none, ⟨fun _ => ⟨rfl, rfl, rfl⟩, fun _ hs => nomatch hs⟩, silent_pure.mpr rfl⟩
      | some draft =>
        obtain ⟨hid, hsource, hkept, hmembers⟩ := hpresent draft rfl
        refine ⟨some draft.source, ⟨fun hs => (nomatch hs), ?_⟩, ?_⟩
        · rintro _ ⟨⟩
          exact hsource
        · dsimp only
          rw [if_neg, silent_pure, ← hid, ← hmembers]
          simp only [List.any_eq_true, not_exists, not_and, Bool.or_eq_true, not_or,
            Bool.not_eq_true', Bool.not_eq_false]
          exact fun member hm => hkept member (ExtTreeSet.mem_toList.mp hm)

theorem silent_mergePacks {base here there : PackMap} {drafts : OrdMap AssetId PackDraft} :
    Silent (mergePacks limits base here there) drafts ↔
      ∀ id : AssetId, PackDraftOf id base[id]? here[id]? there[id]? drafts[id]? := by
  refine (OrdMap.buildM_iff_forall (silent _ _) OrdMap.nodup_toList ?_).trans
    (forall_congr' fun id => silent_mergePackSides)
  intro id hnot draft
  simp only [ExtTreeSet.mem_toList, ExtTreeSet.mem_union_iff, OrdMap.mem_keySet, not_or] at hnot
  obtain ⟨⟨hb, hh⟩, ht⟩ := hnot
  rw [OrdMap.getElem?_eq_none.mpr hb, OrdMap.getElem?_eq_none.mpr hh,
    OrdMap.getElem?_eq_none.mpr ht]
  refine silent_mergePackSides.trans ⟨fun hd => ?_, ?_⟩
  · cases draft with
    | none => rfl
    | some merged => exact absurd (hd.present merged rfl).2.1 fun hs => hs
  · rintro rfl
    exact ⟨fun h => (nomatch h), fun _ => ⟨rfl, rfl, rfl⟩, fun _ hd => nomatch hd⟩

theorem silent_rejectChangedProfiles {base here there : OrdMap ProfileId Profile} :
    Silent (rejectChangedProfiles limits base here there) () ↔ base = here ∧ base = there := by
  have hprofile : ∀ id : ProfileId, Silent (rejectChangedProfile limits base here there id) () ↔
      base[id]? = here[id]? ∧ base[id]? = there[id]? := by
    intro id
    unfold rejectChangedProfile
    split
    · rename_i h
      exact iff_of_true (silent_pure.mpr rfl) h
    · rename_i h
      refine iff_of_false ?_ h
      split
      · exact not_silent_push
      · exact not_silent_push
  refine (OrdMap.forM_iff (silent _ _)).trans ?_
  constructor
  · intro h
    have hall : ∀ id : ProfileId, base[id]? = here[id]? ∧ base[id]? = there[id]? := by
      intro id
      by_cases hid : id ∈ OrdMap.keySet base ∪ OrdMap.keySet here ∪ OrdMap.keySet there
      · exact (hprofile id).mp (h id (ExtTreeSet.mem_toList.mpr hid))
      · simp only [ExtTreeSet.mem_union_iff, OrdMap.mem_keySet, not_or] at hid
        rw [OrdMap.getElem?_eq_none.mpr hid.1.1, OrdMap.getElem?_eq_none.mpr hid.1.2,
          OrdMap.getElem?_eq_none.mpr hid.2]
        exact ⟨rfl, rfl⟩
    exact ⟨ExtTreeMap.ext_getElem? fun id => (hall id).1,
      ExtTreeMap.ext_getElem? fun id => (hall id).2⟩
  · rintro ⟨rfl, rfl⟩ id -
    exact (hprofile id).mpr ⟨rfl, rfl⟩

/-- What the drafts of a merge without conflicts are. -/
structure Drafted (base here there : EnvironmentManifest) (drafts : OrdMap AssetId AssetDraft)
    (packDrafts : OrdMap AssetId PackDraft) : Prop where
  assets : ∀ id : AssetId, AssetDraftOf base.assets[id]? here.assets[id]? there.assets[id]?
    drafts[id]?
  shapes : ∀ (id : AssetId) (draft : AssetDraft), drafts[id]? = some draft →
    supportedShape draft = true
  packs : ∀ id : AssetId, PackDraftOf id base.packs[id]? here.packs[id]? there.packs[id]?
    packDrafts[id]?
  here_profiles : base.profiles = here.profiles
  there_profiles : base.profiles = there.profiles

theorem silent_mergeDrafts {base here there : EnvironmentManifest}
    {drafts : OrdMap AssetId AssetDraft} {packDrafts : OrdMap AssetId PackDraft} :
    Silent (mergeDrafts base here there limits) (drafts, packDrafts) ↔
      Drafted base here there drafts packDrafts := by
  unfold mergeDrafts
  simp only [silent_bind, silent_mergeAssets, silent_mergePacks, silent_pure]
  constructor
  · rintro ⟨_, hassets, _, hpacks, ⟨⟩, hprofiles, ⟨⟩⟩
    obtain ⟨hhere, hthere⟩ := silent_rejectChangedProfiles.mp hprofiles
    exact ⟨fun id => (hassets id).1, fun id => (hassets id).2, hpacks, hhere, hthere⟩
  · intro h
    exact ⟨drafts, fun id => ⟨h.assets id, h.shapes id⟩, packDrafts, h.packs, ⟨⟩,
      silent_rejectChangedProfiles.mpr ⟨h.here_profiles, h.there_profiles⟩, rfl⟩

end Silence

end Kitrove
