import Kitrove.Model.Lockfile

/-! What the validation of a manifest tells about each of its records. -/

namespace Kitrove

open Std Except

variable {blake3 : Bytes → Digest} {m : EnvironmentManifest}

/-- An asset that belongs to its place in a manifest. -/
structure ValidAsset (blake3 : Bytes → Digest) (m : EnvironmentManifest) (id : AssetId)
    (asset : Asset) : Prop where
  id : asset.id = id
  kind : asset.kind ≠ .pack
  requiredBindings : ∀ name ∈ asset.requiredBindings, name ∈ m.requiredBindings
  native : ∀ (harness : HarnessId) (variant : NativeVariant),
    asset.nativeVariants[harness]? = some variant → variant.harness = harness
  provenanceId : ∀ (id : ProvenanceId) (record : ComponentProvenance),
    asset.provenance[id]? = some record → record.provenanceId blake3 = id
  provenance : ∀ id : ProvenanceId,
    id ∈ asset.provenance ↔ id ∈ referencedProvenance asset.portable asset.nativeVariants
  contentHash : asset.contentHash = asset.expectedContentHash blake3

theorem validateAsset_eq_ok {id : AssetId} {asset : Asset}
    (h : validateAsset blake3 m (id, asset) = .ok ()) : ValidAsset blake3 m id asset := by
  unfold validateAsset at h
  obtain ⟨hid, h⟩ := refuseIf_bind_eq_ok.mp h
  obtain ⟨hkind, h⟩ := refuseIf_bind_eq_ok.mp h
  obtain ⟨⟨⟩, hbindings, h⟩ := bind_eq_ok_iff.mp h
  obtain ⟨⟨⟩, hnative, h⟩ := bind_eq_ok_iff.mp h
  obtain ⟨⟨⟩, hprovenance, h⟩ := bind_eq_ok_iff.mp h
  obtain ⟨hmissing, h⟩ := refuseIf_bind_eq_ok.mp h
  obtain ⟨hextra, hhash⟩ := refuseIf_bind_eq_ok.mp h
  rw [refuseIf_eq_ok] at hhash
  simp only [decide_eq_false_iff_not, ne_eq, not_not] at hid hkind hhash
  have hbindings := (OrdMap.forM_iff (Outcome.ok _)).mp hbindings
  have hnative := (OrdMap.forM_iff (Outcome.ok _)).mp hnative
  have hprovenance := (OrdMap.forM_iff (Outcome.ok _)).mp hprovenance
  refine
    { id := hid.symm
      kind := hkind
      requiredBindings := fun name hname => ?_
      native := fun harness variant hget => ?_
      provenanceId := fun id record hget => ?_
      provenance := fun id => ⟨fun hmem => ?_, fun hmem => ?_⟩
      contentHash := hhash }
  · have hname := refuseIf_eq_ok.mp (hbindings name (ExtTreeSet.mem_toList.mpr hname))
    simpa using hname
  · have hvariant := refuseIf_eq_ok.mp
      (hnative (harness, variant) (ExtTreeMap.mem_toList_iff_getElem?_eq_some.mpr hget))
    rw [decide_eq_false_iff_not, ne_eq, not_not] at hvariant
    exact hvariant.symm
  · have hrecord := refuseIf_eq_ok.mp
      (hprovenance (id, record) (ExtTreeMap.mem_toList_iff_getElem?_eq_some.mpr hget))
    rw [decide_eq_false_iff_not, ne_eq, not_not] at hrecord
    exact hrecord.symm
  · simp only [List.any_eq_false, Bool.not_eq_true', Bool.not_eq_false,
      ExtTreeSet.contains_iff_mem, ExtTreeMap.mem_keys] at hextra
    exact hextra id hmem
  · simp only [List.any_eq_false, Bool.not_eq_true', Bool.not_eq_false,
      ExtTreeMap.contains_iff_mem, ExtTreeSet.mem_toList] at hmissing
    exact hmissing id hmem

theorem validAsset_of_valid (h : m.validate blake3 = .ok ()) {id : AssetId} {asset : Asset}
    (hasset : m.assets[id]? = some asset) : ValidAsset blake3 m id asset := by
  unfold EnvironmentManifest.validate at h
  obtain ⟨⟨⟩, hassets, -⟩ := bind_eq_ok_iff.mp h
  exact validateAsset_eq_ok ((OrdMap.forM_iff (Outcome.ok _)).mp hassets (id, asset)
    (ExtTreeMap.mem_toList_iff_getElem?_eq_some.mpr hasset))

end Kitrove
