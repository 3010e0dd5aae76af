import Kitrove.Merge.Budget
import Kitrove.Model.Validity

/-! What a merge derives, derived again: the same choices, provenance and assets. -/

namespace Kitrove

open Std Except

section Normalization

variable {blake3 : Bytes → Digest} {analysis : ObjectAnalysis}
  {objects : VerifiedSkillObjectCatalog} {capabilities : TierOneCapabilities}
  {draft : AssetDraft} {asset : Asset}

/-- A draft without the classes of its native components, which are derived again. -/
def AssetDraft.normalized (draft : AssetDraft) : AssetDraft :=
  { draft with nativeVariants := draft.nativeVariants.map fun _ => normalizedNative }

theorem supportedShape_normalized : supportedShape draft.normalized = supportedShape draft := by
  simp only [supportedShape, AssetDraft.normalized, OrdMap.values_map, ExtTreeMap.isEmpty_eq_size_beq_zero,
    ExtTreeMap.size_map, ExtTreeMap.getElem?_map, List.all_map, Option.any_map]
  rfl

/-- The native components with the classes that their objects have. -/
def classedNatives (draft : AssetDraft) (nativeClasses : OrdMap HarnessId ContentClass) :
    OrdMap HarnessId NativeVariant :=
  draft.nativeVariants.map fun harness component =>
    { component with contentClass := nativeClasses[harness]?.getD component.contentClass }

theorem deriveAsset_skill (hkind : draft.kind ≠ .extension) :
    deriveAsset blake3 analysis objects capabilities draft = .ok asset ↔
      ∃ portableObject, mergedPortableObject objects draft.portable = .ok portableObject ∧
      ∃ nativeObjects, OrdMap.traverse draft.nativeVariants (fun _ component =>
        objects.findNative component.objectHash) = .ok nativeObjects ∧
      ∃ portableClass, mergedPortableClass analysis portableObject = .ok portableClass ∧
      ∃ nativeClasses, OrdMap.traverse nativeObjects (fun _ object =>
        deriveNativeClass analysis object) = .ok nativeClasses ∧
      ∃ compatibility, deriveCompatibility capabilities portableObject nativeObjects
        (classedNatives draft nativeClasses) = .ok compatibility ∧
      Asset.refreshContentHash blake3
        { id := draft.id
          kind := draft.kind
          contentHash := pendingHash blake3 "pending-semantic-merge"
          provenance := draft.provenance
          portable := draft.portable
          nativeVariants := classedNatives draft nativeClasses
          compatibility
          contentClass := nativeClasses.values.foldl ContentClass.max
            (ContentClass.dataOnly.max portableClass)
          requiredBindings := draft.requiredBindings } = asset := by
  rw [deriveAsset, if_neg hkind]
  simp only [bind_eq_ok_iff, pure_eq_ok_iff]
  rfl

/-- When every native object has a class, the classes that the components state are not used. -/
theorem classedNatives_normalized {nativeObjects : OrdMap HarnessId NativeSkillObject}
    {nativeClasses : OrdMap HarnessId ContentClass}
    (hobjects : OrdMap.traverse draft.nativeVariants (fun _ component =>
      objects.findNative component.objectHash) = .ok nativeObjects)
    (hclasses : OrdMap.traverse nativeObjects (fun _ object =>
      deriveNativeClass analysis object) = .ok nativeClasses) :
    classedNatives draft.normalized nativeClasses = classedNatives draft nativeClasses := by
  obtain ⟨hobject, -⟩ := (OrdMap.traverse_iff (Outcome.ok _)).mp hobjects
  obtain ⟨hclass, -⟩ := (OrdMap.traverse_iff (Outcome.ok _)).mp hclasses
  refine ExtTreeMap.ext_getElem? fun harness => ?_
  simp only [classedNatives, AssetDraft.normalized, ExtTreeMap.getElem?_map]
  cases hnative : draft.nativeVariants[harness]? with
  | none => rfl
  | some native =>
    obtain ⟨object, -, hget⟩ := hobject harness native hnative
    obtain ⟨contentClass, -, hget⟩ := hclass harness object hget
    simp only [hget, Option.map_some, Option.getD_some]
    rfl

theorem eq_pi_of_mem {natives : OrdMap HarnessId NativeVariant} {harness : HarnessId}
    (hsize : natives.size = 1) (hpi : HarnessId.pi ∈ natives) (hmem : harness ∈ natives) :
    harness = .pi := by
  rw [← ExtTreeMap.length_keys, List.length_eq_one_iff] at hsize
  obtain ⟨k, hk⟩ := hsize
  rw [← ExtTreeMap.mem_keys, hk, List.mem_singleton] at hpi hmem
  rw [hmem, hpi]

theorem deriveExtensionAsset_normalized :
    deriveExtensionAsset blake3 analysis objects draft.normalized =
      deriveExtensionAsset blake3 analysis objects draft := by
  have hsize : draft.normalized.nativeVariants.size = draft.nativeVariants.size :=
    ExtTreeMap.size_map
  have hpi : draft.normalized.nativeVariants[HarnessId.pi]? =
      draft.nativeVariants[HarnessId.pi]?.map normalizedNative := ExtTreeMap.getElem?_map
  unfold deriveExtensionAsset
  rw [hsize, hpi]
  by_cases hone : draft.nativeVariants.size = 1
  · cases hnative : draft.nativeVariants[HarnessId.pi]? with
    | none => rfl
    | some component =>
      have hinsert : draft.normalized.nativeVariants.insert HarnessId.pi
          { normalizedNative component with contentClass := .executable } =
            draft.nativeVariants.insert HarnessId.pi
              { component with contentClass := .executable } := by
        refine ExtTreeMap.ext_getElem? fun harness => ?_
        rw [ExtTreeMap.getElem?_insert, ExtTreeMap.getElem?_insert]
        split
        · rfl
        · rename_i hne
          have hnot : draft.nativeVariants[harness]? = none := by
            rw [OrdMap.getElem?_eq_none]
            intro hmem
            have hharness := eq_pi_of_mem hone (OrdMap.mem_iff_getElem?.mpr ⟨_, hnative⟩) hmem
            rw [hharness] at hne
            exact hne ReflCmp.compare_self
          simp [AssetDraft.normalized, ExtTreeMap.getElem?_map, hnot]
      have hasset : ∀ compatibility,
          mergedExtension blake3 draft.normalized (normalizedNative component) compatibility =
            mergedExtension blake3 draft component compatibility := by
        intro compatibility
        rw [mergedExtension, hinsert]
        rfl
      have hformat : (normalizedNative component).format = component.format := rfl
      have hobject : (normalizedNative component).objectHash = component.objectHash := rfl
      have hportable : draft.normalized.portable = draft.portable := rfl
      simp only [Option.map_some, hasset, hformat, hobject, hportable]
  · have hrefused : (draft.portable.isSome || decide (draft.nativeVariants.size ≠ 1)) = true := by
      simp [hone]
    have hrefused' : (draft.normalized.portable.isSome ||
        decide (draft.nativeVariants.size ≠ 1)) = true := by simp [hone]
    rw [hrefused, hrefused', refuseIf_true_bind, refuseIf_true_bind]

theorem deriveAsset_normalized :
    deriveAsset blake3 analysis objects capabilities draft.normalized = .ok asset ↔
      deriveAsset blake3 analysis objects capabilities draft = .ok asset := by
  by_cases hkind : draft.kind = .extension
  · rw [deriveAsset, deriveAsset, if_pos hkind, if_pos (show draft.normalized.kind = _ from hkind),
      deriveExtensionAsset_normalized]
  · have htraverse : OrdMap.traverse draft.normalized.nativeVariants (fun _ component =>
        objects.findNative component.objectHash) =
          OrdMap.traverse draft.nativeVariants (fun _ component =>
            objects.findNative component.objectHash) := OrdMap.traverse_map
    rw [deriveAsset_skill hkind, deriveAsset_skill (show draft.normalized.kind ≠ _ from hkind),
      htraverse]
    refine exists_congr fun portableObject => and_congr_right fun _ =>
      exists_congr fun nativeObjects => and_congr_right fun hobjects =>
      exists_congr fun portableClass => and_congr_right fun _ =>
      exists_congr fun nativeClasses => and_congr_right fun hclasses => ?_
    rw [classedNatives_normalized hobjects hclasses]
    rfl

theorem normalizedNative_normalizedNative {native : NativeVariant} :
    normalizedNative (normalizedNative native) = normalizedNative native := rfl

theorem Derives.normalized_eq (h : Derives draft asset) :
    (draftFromAsset asset).normalized = draft.normalized := by
  have hnative : (draftFromAsset asset).normalized.nativeVariants =
      draft.normalized.nativeVariants := by
    refine ExtTreeMap.ext_getElem? fun harness => ?_
    have hn := h.native harness
    simp only [Asset.nativeAt] at hn
    simp only [AssetDraft.normalized, draftFromAsset, ExtTreeMap.getElem?_map, hn]
  have hdraft : ∀ a b : AssetDraft, a.id = b.id → a.kind = b.kind → a.provenance = b.provenance →
      a.portable = b.portable → a.nativeVariants = b.nativeVariants →
      a.requiredBindings = b.requiredBindings → a = b := by
    rintro ⟨⟩ ⟨⟩ rfl rfl rfl rfl rfl rfl
    rfl
  exact hdraft _ _ h.id h.kind h.provenance h.portable hnative h.requiredBindings

/-- A derived asset derives itself again. -/
theorem deriveAsset_again
    (h : deriveAsset blake3 analysis objects capabilities draft = .ok asset) :
    deriveAsset blake3 analysis objects capabilities (draftFromAsset asset) = .ok asset := by
  rw [← deriveAsset_normalized, (deriveAsset_derives h).normalized_eq, deriveAsset_normalized]
  exact h

theorem supportedShape_again (h : Derives draft asset) :
    supportedShape (draftFromAsset asset) = supportedShape draft := by
  rw [← supportedShape_normalized, h.normalized_eq, supportedShape_normalized]

end Normalization

section Choices

variable {α : Type} {base here there result : α}

/-- Choosing again between a side and what was chosen gives the same. -/
theorem Chosen.again (h : Chosen base here there result) : Chosen base here result result := by
  refine ⟨fun he => he.symm, fun _ => rfl, fun he => ?_, ?_⟩
  · rcases h.decided with hd | hd | hd
    · exact h.agreed hd
    · rw [he, hd]
    · exact h.here_changed hd
  · rcases h.decided with hd | hd | hd
    · exact .inl (h.agreed hd).symm
    · exact .inr (.inl hd)
    · exact .inl (h.here_changed hd).symm

theorem Chosen.self : Chosen result result result result :=
  ⟨fun _ => rfl, fun _ => rfl, fun _ => rfl, .inl rfl⟩

theorem Chosen.unique {other : α} (h : Chosen base here there result)
    (ho : Chosen base here there other) : result = other := by
  rcases h.decided with hd | hd | hd
  · rw [h.agreed hd, ho.agreed hd]
  · rw [h.there_changed hd, ho.there_changed hd]
  · rw [h.here_changed hd, ho.here_changed hd]

theorem Chosen.isSome {b h t r : Option α} (hc : Chosen b h t r) (hr : Retained b h t)
    (hb : b.isSome) : r.isSome := by
  rcases hc.from_side with he | he
  · rw [he]
    exact (hr hb).1
  · rw [he]
    exact (hr hb).2

variable {K : Type} [Ord K] [TransOrd K] [LawfulEqOrd K] {b h t : OrdSet K}

theorem mergeSetMembership_again :
    mergeSetMembership b h (mergeSetMembership b h t) = mergeSetMembership b h t := by
  refine ExtTreeSet.ext_mem fun name => ?_
  rw [← ExtTreeSet.contains_iff_mem, ← ExtTreeSet.contains_iff_mem,
    (chosen_mergeSetMembership b h _ name).unique (chosen_mergeSetMembership b h t name).again]

theorem mergeSetMembership_self : mergeSetMembership h h h = h := by
  refine ExtTreeSet.ext_mem fun name => ?_
  rw [← ExtTreeSet.contains_iff_mem, ← ExtTreeSet.contains_iff_mem,
    (chosen_mergeSetMembership h h h name).unique Chosen.self]

end Choices

section Provenance

variable {portable : Option PortableContent} {native : OrdMap HarnessId NativeVariant}
  {sources : List Asset} {provenance : OrdMap ProvenanceId ComponentProvenance}

theorem provenanceRecord_eq_ok {id : ProvenanceId} {record : ComponentProvenance} :
    provenanceRecord sources id = .ok record ↔
      (∃ source ∈ sources, source.provenance[id]? = some record) ∧
        ∀ source ∈ sources, ∀ other, source.provenance[id]? = some other → other = record := by
  have hmem : ∀ r : ComponentProvenance, r ∈ sources.filterMap (fun asset => asset.provenance[id]?) ↔
      ∃ source ∈ sources, source.provenance[id]? = some r := fun r => List.mem_filterMap
  unfold provenanceRecord
  split
  · rename_i hnil
    rw [hnil] at hmem
    simp only [reduceCtorEq, false_iff, not_and]
    intro hsome
    exact absurd ((hmem record).mpr hsome) List.not_mem_nil
  · rename_i first rest hcons
    rw [hcons] at hmem
    split
    · rename_i hany
      simp only [reduceCtorEq, false_iff, not_and]
      rintro - hall
      obtain ⟨r, hr, hne⟩ := List.any_eq_true.mp hany
      obtain ⟨s, hs, hget⟩ := (hmem first).mp List.mem_cons_self
      obtain ⟨s', hs', hget'⟩ := (hmem r).mp (List.mem_cons_of_mem _ hr)
      have heq := (hall s' hs' r hget').trans (hall s hs first hget).symm
      simp [heq] at hne
    · rename_i hany
      simp only [Except.ok.injEq, List.any_eq_true, decide_eq_true_eq, not_exists, not_and,
        not_not] at hany ⊢
      have hfirst : ∀ r ∈ first :: rest, r = first := List.forall_mem_cons.mpr ⟨rfl, hany⟩
      constructor
      · rintro rfl
        exact ⟨(hmem first).mp List.mem_cons_self, fun s hs other hget =>
          hfirst other ((hmem other).mpr ⟨s, hs, hget⟩)⟩
      · rintro ⟨hsome, -⟩
        exact (hfirst record ((hmem record).mpr hsome)).symm

theorem collectProvenance_eq_ok :
    collectProvenance portable native sources = .ok provenance ↔
      (∀ id ∈ referencedProvenance portable native, ∃ record,
        provenanceRecord sources id = .ok record ∧ provenance[id]? = some record) ∧
      ∀ id, id ∉ referencedProvenance portable native → id ∉ provenance := by
  refine (OrdMap.buildM_iff (Outcome.ok _) OrdMap.nodup_toList).trans ?_
  simp only [ExtTreeSet.mem_toList, OrdMap.getElem?_eq_none]
  refine and_congr_left fun _ => forall₂_congr fun id _ => ?_
  change (do let record ← provenanceRecord sources id; pure (some record)) = _ ↔ _
  rw [bind_eq_ok_iff]
  exact exists_congr fun record => and_congr_right fun _ => pure_eq_ok_iff.trans eq_comm

/-- Sources that have the same records and no others give the same provenance. -/
theorem collectProvenance_again {others : List Asset}
    (h : collectProvenance portable native sources = .ok provenance)
    (hothers : ∀ source ∈ others, source ∈ sources ∨ source.provenance = provenance)
    (hsame : ∃ source ∈ others, source.provenance = provenance) :
    collectProvenance portable native others = .ok provenance := by
  rw [collectProvenance_eq_ok] at h ⊢
  refine ⟨fun id hid => ?_, h.2⟩
  obtain ⟨record, hrecord, hget⟩ := h.1 id hid
  rw [provenanceRecord_eq_ok] at hrecord
  refine ⟨record, provenanceRecord_eq_ok.mpr ⟨?_, fun source hsource other hother => ?_⟩, hget⟩
  · obtain ⟨source, hsource, he⟩ := hsame
    exact ⟨source, hsource, he ▸ hget⟩
  · rcases hothers source hsource with hs | hs
    · exact hrecord.2 source hs other hother
    · rw [hs, hget] at hother
      exact (Option.some.inj hother).symm

theorem referencedProvenance_normalized :
    referencedProvenance portable (native.map fun _ => normalizedNative) =
      referencedProvenance portable native := by
  rw [referencedProvenance, referencedProvenance, OrdMap.values_map, List.map_map]
  rfl

theorem collectProvenance_self {blake3 : Bytes → Digest} {m : EnvironmentManifest} {id : AssetId}
    {asset : Asset} (h : ValidAsset blake3 m id asset) :
    collectProvenance asset.portable (asset.nativeVariants.map fun _ => normalizedNative)
      [asset, asset, asset] = .ok asset.provenance := by
  rw [collectProvenance_eq_ok, referencedProvenance_normalized]
  refine ⟨fun id hid => ?_, fun id hid => mt (h.provenance id).mp hid⟩
  obtain ⟨record, hrecord⟩ := OrdMap.mem_iff_getElem?.mp ((h.provenance id).mpr hid)
  refine ⟨record, provenanceRecord_eq_ok.mpr ⟨⟨asset, by simp, hrecord⟩, ?_⟩, hrecord⟩
  intro source hsource other hother
  have he : source = asset := by simpa using hsource
  rw [he, hrecord] at hother
  exact (Option.some.inj hother).symm

end Provenance

end Kitrove
