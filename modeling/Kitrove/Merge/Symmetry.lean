import Kitrove.Merge.Manifests

/-! Two machines that merge with the sides exchanged get the same outcome. -/

namespace Kitrove

open Std

section Sides

theorem choose_comm {α : Type} [DecidableEq α] {base here there : α} :
    choose base here there = choose base there here := by
  unfold choose
  by_cases h : here = there
  · rw [h]
  · rw [if_neg h, if_neg (Ne.symm h)]
    by_cases hhere : here = base
    · by_cases hthere : there = base
      · exact absurd (hhere.trans hthere.symm) h
      · rw [if_pos hhere, if_neg hthere, if_pos hhere]
    · rw [if_neg hhere]
      by_cases hthere : there = base
      · rw [if_pos hthere, if_pos hthere]
      · rw [if_neg hthere, if_neg hthere, if_neg hhere]

variable {K : Type} [Ord K] [TransOrd K] [LawfulEqOrd K]

omit [LawfulEqOrd K] in
theorem mergeSetMembership_comm [LawfulEqOrd K] {base here there : OrdSet K} :
    mergeSetMembership base here there = mergeSetMembership base there here := by
  rw [mergeSetMembership, mergeSetMembership, OrdMap.union_right_comm]
  congr 1
  funext name
  rw [choose_comm]

end Sides

section Assets

variable {limits : SyncLimits} {base here there : Asset}

theorem provenanceRecord_perm {xs ys : List Asset} {id : ProvenanceId} (h : xs.Perm ys) :
    provenanceRecord xs id = provenanceRecord ys id := by
  have hp := h.filterMap fun asset => asset.provenance[id]?
  unfold provenanceRecord
  generalize (xs.filterMap fun asset => asset.provenance[id]?) = us at hp
  generalize (ys.filterMap fun asset => asset.provenance[id]?) = vs at hp
  cases us with
  | nil => rw [hp.nil_eq]
  | cons u us =>
    cases vs with
    | nil => exact absurd hp.eq_nil (by simp)
    | cons v vs =>
      have hall : ∀ (w : ComponentProvenance) (ws : List ComponentProvenance),
          (ws.any fun x => decide (x ≠ w)) = false ↔ ∀ x ∈ w :: ws, x = w := by
        intro w ws
        simp
      by_cases hu : ∀ x ∈ u :: us, x = u
      · have hv : v = u := hu v (hp.mem_iff.mpr List.mem_cons_self)
        have hvs : ∀ x ∈ v :: vs, x = v := fun x hx => by
          rw [hv]
          exact hu x (hp.mem_iff.mpr hx)
        have hus := (hall u us).mpr hu
        have hvs' := (hall v vs).mpr hvs
        rw [hv] at hvs'
        simp only [hus, hvs', hv]
      · have hv : ¬ ∀ x ∈ v :: vs, x = v := by
          intro hv
          have huv : u = v := hv u (hp.mem_iff.mp List.mem_cons_self)
          exact hu fun x hx => by
            rw [huv]
            exact hv x (hp.mem_iff.mp hx)
        have hu' := Bool.not_eq_false _ |>.mp (mt (hall u us).mp hu)
        have hv' := Bool.not_eq_false _ |>.mp (mt (hall v vs).mp hv)
        simp only [hu', hv', if_true]

theorem collectProvenance_comm {portable : Option PortableContent}
    {native : OrdMap HarnessId NativeVariant} :
    collectProvenance portable native [base, here, there] =
      collectProvenance portable native [base, there, here] := by
  unfold collectProvenance
  congr 1
  funext id
  rw [provenanceRecord_perm (List.Perm.cons base (List.Perm.swap there here []))]

theorem mergeKind_comm : mergeKind limits base here there = mergeKind limits base there here := by
  rw [mergeKind, mergeKind, choose_comm]

theorem mergePortable_comm :
    mergePortable limits base here there = mergePortable limits base there here := by
  rw [mergePortable, mergePortable, Bool.or_comm, choose_comm]

theorem mergeNative_comm :
    mergeNative limits base here there = mergeNative limits base there here := by
  funext harness
  simp only [mergeNative]
  rw [Bool.or_comm, choose_comm]

theorem mergeExistingAsset_comm :
    mergeExistingAsset limits base here there = mergeExistingAsset limits base there here := by
  unfold mergeExistingAsset
  simp only [@mergeKind_comm limits base here there, @mergePortable_comm limits base here there,
    @mergeNative_comm limits base here there, @collectProvenance_comm base here there,
    @mergeSetMembership_comm _ _ _ _ base.requiredBindings here.requiredBindings
      there.requiredBindings,
    @OrdMap.union_right_comm _ _ _ _ (OrdMap.keySet base.nativeVariants)
      (OrdMap.keySet here.nativeVariants) (OrdMap.keySet there.nativeVariants)]

theorem mergeAssetSides_comm {id : AssetId} {base here there : Option Asset} :
    mergeAssetSides limits id base here there = mergeAssetSides limits id base there here := by
  cases base with
  | none =>
    cases here with
    | none => cases there <;> rfl
    | some h =>
      cases there with
      | none => rfl
      | some t =>
        by_cases he : h = t
        · rw [he]
        · simp only [mergeAssetSides, ne_eq, he, Ne.symm he, not_false_eq_true, if_true]
  | some b =>
    cases here <;> cases there <;> simp only [mergeAssetSides]
    rw [mergeExistingAsset_comm]

theorem mergeAssets_comm {base here there : OrdMap AssetId Asset} :
    mergeAssets limits base here there = mergeAssets limits base there here := by
  unfold mergeAssets
  rw [OrdMap.union_right_comm]
  congr 1
  funext id
  rw [mergeAsset, mergeAsset, mergeAssetSides_comm]

end Assets

section Packs

variable {limits : SyncLimits}

theorem mergePackSource_comm {id : AssetId} {base here there : Option Pack} :
    mergePackSource limits id base here there = mergePackSource limits id base there here := by
  cases base with
  | none =>
    cases here with
    | none => cases there <;> rfl
    | some h =>
      cases there with
      | none => rfl
      | some t =>
        simp only [mergePackSource]
        by_cases he : packSource h = packSource t ∧ packMembers h = packMembers t
        · rw [if_neg (by simp [he]), if_neg (by simp [he]), he.1]
        · rw [if_pos (by tauto), if_pos (by tauto)]
  | some b =>
    cases here <;> cases there <;> simp only [mergePackSource]
    rw [choose_comm]

theorem mergePackSides_comm {id : AssetId} {base here there : Option Pack} :
    mergePackSides limits id base here there = mergePackSides limits id base there here := by
  rw [mergePackSides, mergePackSides, Bool.or_comm, mergePackSource_comm, OrdMap.union_right_comm]
  simp only [Bool.or_comm]

theorem mergePacks_comm {base here there : PackMap} :
    mergePacks limits base here there = mergePacks limits base there here := by
  unfold mergePacks
  rw [OrdMap.union_right_comm]
  congr 1
  funext id
  exact mergePackSides_comm

theorem rejectChangedProfile_comm {base here there : OrdMap ProfileId Profile} :
    rejectChangedProfile limits base here there = rejectChangedProfile limits base there here := by
  funext id
  rw [rejectChangedProfile, rejectChangedProfile, Bool.or_comm]
  simp only [and_comm]

theorem rejectChangedProfiles_comm {base here there : OrdMap ProfileId Profile} :
    rejectChangedProfiles limits base here there =
      rejectChangedProfiles limits base there here := by
  rw [rejectChangedProfiles, rejectChangedProfiles, OrdMap.union_right_comm,
    rejectChangedProfile_comm]

end Packs

section Manifests

variable {base here there : EnvironmentManifest} {limits : SyncLimits}

theorem mergeDrafts_comm : mergeDrafts base here there limits = mergeDrafts base there here limits := by
  rw [mergeDrafts, mergeDrafts, mergeAssets_comm, mergePacks_comm, rejectChangedProfiles_comm]

theorem assetComponents_perm {xs ys : List Asset} (h : xs.Perm ys) :
    assetComponents xs = assetComponents ys := by
  have hany : (xs.any fun asset => asset.portable.isSome) =
      ys.any fun asset => asset.portable.isSome := by
    rw [Bool.eq_iff_iff, List.any_eq_true, List.any_eq_true]
    simp only [h.mem_iff]
  rw [assetComponents, assetComponents, hany, OrdMap.setOf_perm (h.flatMap_right _)]

theorem validateMergedComponentBudget_comm :
    validateMergedComponentBudget base here there limits =
      validateMergedComponentBudget base there here limits := by
  have hcharge : chargeAsset base here there limits = chargeAsset base there here limits := by
    funext count id
    unfold chargeAsset
    rw [assetComponents_perm ((List.Perm.cons _ (List.Perm.swap _ _ [])).filterMap _)]
  have hedges : OrdMap.setOf (packEdges base ++ packEdges here ++ packEdges there) =
      OrdMap.setOf (packEdges base ++ packEdges there ++ packEdges here) := by
    refine OrdMap.setOf_perm ?_
    rw [List.append_assoc, List.append_assoc]
    exact List.perm_append_comm.append_left _
  have hcount : identityCount base here there = identityCount base there here := by
    unfold identityCount
    rw [@OrdMap.union_right_comm _ _ _ _ (OrdMap.keySet base.assets),
      @OrdMap.union_right_comm _ _ _ _ (OrdMap.keySet base.packs),
      @OrdMap.union_right_comm _ _ _ _ (OrdMap.keySet base.profiles),
      @OrdMap.union_right_comm _ _ _ _ base.requiredBindings]
  rw [validateMergedComponentBudget, validateMergedComponentBudget, hcharge, hedges, hcount,
    OrdMap.union_right_comm]

theorem requireValidManifests_comm {blake3 : Bytes → Digest} :
    [base, here, there].forM (requireValidManifest blake3) =
      [base, there, here].forM (requireValidManifest blake3) := by
  have hcases : ∀ m, requireValidManifest blake3 m = .ok () ∨
      requireValidManifest blake3 m = .error ⟨"sync_merge.manifest_invalid",
        "semantic merge requires three validated manifests"⟩ := by
    intro m
    unfold requireValidManifest
    split
    · exact .inr rfl
    · exact .inl rfl
  rcases hcases base with hb | hb <;> rcases hcases here with hh | hh <;>
    rcases hcases there with ht | ht <;> simp [hb, hh, ht, bind, Except.bind]

/-- Merging is symmetric: both orders of the sides fail with one error, or give the same
conflicts in the same order, or the same manifest and lockfile. -/
theorem mergeManifests_comm {blake3 : Bytes → Digest} {analysis : ObjectAnalysis}
    {objects : VerifiedSkillObjectCatalog} {capabilities : TierOneCapabilities} :
    mergeManifests blake3 analysis objects capabilities base here there limits =
      mergeManifests blake3 analysis objects capabilities base there here limits := by
  rw [mergeManifests, mergeManifests, requireValidManifests_comm,
    validateMergedComponentBudget_comm, mergeDrafts_comm, mergeSetMembership_comm]

end Manifests

end Kitrove
