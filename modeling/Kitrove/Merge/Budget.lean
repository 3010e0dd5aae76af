import Kitrove.Merge.Exactness
import Mathlib.Algebra.Order.BigOperators.Group.List
import Mathlib.Algebra.Order.Group.Nat
import Mathlib.Data.Bool.Basic

/-! The component budget of a merge: one count, which grows with its sides. -/

namespace Kitrove

open Std Except

section Count

variable {base here there : EnvironmentManifest} {limits : SyncLimits}

/-- The sides' versions of one asset. -/
def assetSides (base here there : EnvironmentManifest) (id : AssetId) : List Asset :=
  [base.assets[id]?, here.assets[id]?, there.assets[id]?].filterMap fun asset => asset

def sideAssetIds (base here there : EnvironmentManifest) : OrdSet AssetId :=
  OrdMap.keySet base.assets ∪ OrdMap.keySet here.assets ∪ OrdMap.keySet there.assets

def edgeSet (base here there : EnvironmentManifest) : OrdSet PackEdge :=
  OrdMap.setOf (packEdges base ++ packEdges here ++ packEdges there)

/-- Everything that the component budget counts. -/
def componentCount (base here there : EnvironmentManifest) : Nat :=
  identityCount base here there +
    ((sideAssetIds base here there).toList.map fun id =>
      assetComponents (assetSides base here there id)).sum + (edgeSet base here there).size

theorem chargeAssets_eq_ok {ids : List AssetId} {count total : Nat}
    (hcount : count ≤ limits.maxComponents.toNat) :
    ids.foldlM (chargeAsset base here there limits) count = .ok total ↔
      total = count + (ids.map fun id => assetComponents (assetSides base here there id)).sum ∧
        total ≤ limits.maxComponents.toNat := by
  induction ids generalizing count with
  | nil =>
    rw [List.foldlM_nil, pure_eq_ok_iff]
    simp only [List.map_nil, List.sum_nil]
    omega
  | cons id ids ih =>
    rw [List.foldlM_cons, bind_eq_ok_iff, List.map_cons, List.sum_cons]
    have hstep : ∀ next, chargeAsset base here there limits count id = .ok next ↔
        next = count + assetComponents (assetSides base here there id) ∧
          next ≤ limits.maxComponents.toNat := by
      intro next
      unfold chargeAsset
      rw [refuseIf_bind_eq_ok, pure_eq_ok_iff, decide_eq_false_iff_not, ← assetSides]
      constructor
      · rintro ⟨hle, rfl⟩
        exact ⟨rfl, Nat.not_lt.mp hle⟩
      · rintro ⟨rfl, hle⟩
        exact ⟨Nat.not_lt.mpr hle, rfl⟩
    constructor
    · rintro ⟨next, hnext, hrest⟩
      obtain ⟨hnext, hle⟩ := (hstep next).mp hnext
      obtain ⟨htotal, hmax⟩ := (ih hle).mp hrest
      omega
    · rintro ⟨htotal, hmax⟩
      have hle : count + assetComponents (assetSides base here there id) ≤
          limits.maxComponents.toNat := by omega
      exact ⟨_, (hstep _).mpr ⟨rfl, hle⟩, (ih hle).mpr ⟨by omega, hmax⟩⟩

/-- The checks along the way are those of the whole count. -/
theorem validateMergedComponentBudget_eq_ok :
    validateMergedComponentBudget base here there limits = .ok () ↔
      componentCount base here there ≤ limits.maxComponents.toNat := by
  unfold validateMergedComponentBudget componentCount
  rw [refuseIf_bind_eq_ok, bind_eq_ok_iff, decide_eq_false_iff_not]
  simp only [refuseIf_eq_ok, decide_eq_false_iff_not]
  constructor
  · rintro ⟨hid, total, htotal, hedges⟩
    obtain ⟨rfl, -⟩ := (chargeAssets_eq_ok (Nat.not_lt.mp hid)).mp htotal
    exact Nat.not_lt.mp hedges
  · intro h
    have hid : identityCount base here there ≤ limits.maxComponents.toNat := by omega
    refine ⟨Nat.not_lt.mpr hid, _, (chargeAssets_eq_ok hid).mpr ⟨rfl, ?_⟩, Nat.not_lt.mpr h⟩
    change _ + (List.map _ (sideAssetIds base here there).toList).sum ≤ _
    omega

theorem mem_packEdges {m : EnvironmentManifest} {edge : PackEdge} :
    edge ∈ packEdges m ↔
      ∃ pack, m.packs[edge.pack]? = some pack ∧ edge.member ∈ packMembers pack := by
  simp only [packEdges, List.mem_flatMap, Prod.exists, List.mem_map, ExtTreeMap.mem_keys,
    ExtTreeMap.mem_toList_iff_getElem?_eq_some, packMembers, OrdMap.mem_keySet]
  constructor
  · rintro ⟨id, pack, hpack, member, hmember, rfl⟩
    exact ⟨pack, hpack, hmember⟩
  · rintro ⟨pack, hpack, hmember⟩
    exact ⟨edge.pack, pack, hpack, edge.member, hmember, rfl⟩

theorem mem_assetSides {id : AssetId} {asset : Asset} :
    asset ∈ assetSides base here there id ↔
      base.assets[id]? = some asset ∨ here.assets[id]? = some asset ∨
        there.assets[id]? = some asset := by
  simp [assetSides, eq_comm]

end Count

section Within

/-- A manifest that has nothing that none of three sides has. -/
structure Within (m x y z : EnvironmentManifest) : Prop where
  assets : ∀ id ∈ m.assets, id ∈ sideAssetIds x y z
  portable : ∀ (id : AssetId) asset, m.assets[id]? = some asset → asset.portable.isSome →
    ∃ side ∈ assetSides x y z id, side.portable.isSome
  native : ∀ (id : AssetId) asset, m.assets[id]? = some asset → ∀ harness ∈ asset.nativeVariants,
    ∃ side ∈ assetSides x y z id, harness ∈ side.nativeVariants
  packs : ∀ id ∈ m.packs, id ∈ x.packs ∨ id ∈ y.packs ∨ id ∈ z.packs
  profiles : ∀ id ∈ m.profiles, id ∈ x.profiles ∨ id ∈ y.profiles ∨ id ∈ z.profiles
  requiredBindings : ∀ name ∈ m.requiredBindings,
    name ∈ x.requiredBindings ∨ name ∈ y.requiredBindings ∨ name ∈ z.requiredBindings
  edges : ∀ edge ∈ packEdges m, edge ∈ packEdges x ∨ edge ∈ packEdges y ∨ edge ∈ packEdges z

theorem assetComponents_le {xs ys : List Asset}
    (hportable : ∀ asset ∈ xs, asset.portable.isSome → ∃ side ∈ ys, side.portable.isSome)
    (hnative : ∀ asset ∈ xs, ∀ harness ∈ asset.nativeVariants,
      ∃ side ∈ ys, harness ∈ side.nativeVariants) :
    assetComponents xs ≤ assetComponents ys := by
  unfold assetComponents
  refine Nat.add_le_add (Bool.toNat_le_toNat ?_) (OrdMap.size_le fun harness hmem => ?_)
  · rw [Bool.le_iff_imp, List.any_eq_true, List.any_eq_true]
    rintro ⟨asset, hasset, hsome⟩
    exact hportable asset hasset hsome
  · rw [OrdMap.mem_setOf, List.mem_flatMap] at hmem ⊢
    obtain ⟨asset, hasset, hharness⟩ := hmem
    obtain ⟨side, hside, h⟩ := hnative asset hasset harness (ExtTreeMap.mem_keys.mp hharness)
    exact ⟨side, hside, ExtTreeMap.mem_keys.mpr h⟩

/-- Sides that have nothing new and that miss no asset count no more components. -/
theorem componentCount_le {a b c x y z : EnvironmentManifest} (ha : Within a x y z)
    (hb : Within b x y z) (hc : Within c x y z) (hids : ∀ id ∈ sideAssetIds x y z, id ∈ sideAssetIds a b c) :
    componentCount a b c ≤ componentCount x y z := by
  have hsame : sideAssetIds a b c = sideAssetIds x y z := by
    refine ExtTreeSet.ext_mem fun id => ⟨fun hid => ?_, hids id⟩
    simp only [sideAssetIds, ExtTreeSet.mem_union_iff, OrdMap.mem_keySet, or_assoc] at hid
    rcases hid with hid | hid | hid
    · exact ha.assets id hid
    · exact hb.assets id hid
    · exact hc.assets id hid
  have hidentity : identityCount a b c ≤ identityCount x y z := by
    have hassets := congrArg ExtTreeSet.size hsame
    have hpacks : (OrdMap.keySet a.packs ∪ OrdMap.keySet b.packs ∪ OrdMap.keySet c.packs).size ≤
        (OrdMap.keySet x.packs ∪ OrdMap.keySet y.packs ∪ OrdMap.keySet z.packs).size := by
      refine OrdMap.size_le fun id => ?_
      simp only [ExtTreeSet.mem_union_iff, OrdMap.mem_keySet, or_assoc]
      exact Or.rec (ha.packs id) (Or.rec (hb.packs id) (hc.packs id))
    have hprofiles : (OrdMap.keySet a.profiles ∪ OrdMap.keySet b.profiles ∪
        OrdMap.keySet c.profiles).size ≤ (OrdMap.keySet x.profiles ∪ OrdMap.keySet y.profiles ∪
        OrdMap.keySet z.profiles).size := by
      refine OrdMap.size_le fun id => ?_
      simp only [ExtTreeSet.mem_union_iff, OrdMap.mem_keySet, or_assoc]
      exact Or.rec (ha.profiles id) (Or.rec (hb.profiles id) (hc.profiles id))
    have hbindings : (a.requiredBindings ∪ b.requiredBindings ∪ c.requiredBindings).size ≤
        (x.requiredBindings ∪ y.requiredBindings ∪ z.requiredBindings).size := by
      refine OrdMap.size_le fun name => ?_
      simp only [ExtTreeSet.mem_union_iff, or_assoc]
      exact Or.rec (ha.requiredBindings name)
        (Or.rec (hb.requiredBindings name) (hc.requiredBindings name))
    simp only [sideAssetIds] at hassets
    unfold identityCount
    omega
  have hcomponents : ((sideAssetIds a b c).toList.map fun id =>
        assetComponents (assetSides a b c id)).sum ≤
      ((sideAssetIds x y z).toList.map fun id => assetComponents (assetSides x y z id)).sum := by
    rw [hsame]
    refine List.sum_le_sum fun id _ => assetComponents_le (fun asset hasset => ?_)
      fun asset hasset => ?_
    · rcases mem_assetSides.mp hasset with h | h | h
      · exact ha.portable id asset h
      · exact hb.portable id asset h
      · exact hc.portable id asset h
    · rcases mem_assetSides.mp hasset with h | h | h
      · exact ha.native id asset h
      · exact hb.native id asset h
      · exact hc.native id asset h
  have hedges : (edgeSet a b c).size ≤ (edgeSet x y z).size := by
    refine OrdMap.size_le fun edge => ?_
    simp only [edgeSet, OrdMap.mem_setOf, List.mem_append, or_assoc]
    exact Or.rec (ha.edges edge) (Or.rec (hb.edges edge) (hc.edges edge))
  unfold componentCount
  omega

end Within

section Live

variable {blake3 : Bytes → Digest} {base here there merged : EnvironmentManifest}

theorem Chosen.from_side {α : Type} {b h t r : α} (hc : Chosen b h t r) : r = h ∨ r = t := by
  rcases hc.decided with he | he | he
  · exact .inl (hc.agreed he)
  · exact .inr (hc.there_changed he)
  · exact .inl (hc.here_changed he)

/-- Each component of a merged asset is that of the asset on one of the two sides. -/
theorem ExactMerge.live (h : ExactMerge blake3 base here there merged) {id : AssetId} {m : Asset}
    (hm : merged.assets[id]? = some m) :
    (∃ side, (here.assets[id]? = some side ∨ there.assets[id]? = some side) ∧
      m.portable = side.portable) ∧
    ∀ harness, ∃ side, (here.assets[id]? = some side ∨ there.assets[id]? = some side) ∧
      m.nativeAt harness = side.nativeAt harness := by
  cases hb : base.assets[id]? with
  | none =>
    have hside : ∃ side, here.assets[id]? = some side ∨ there.assets[id]? = some side := by
      rcases (h.assetIds id).mp (OrdMap.mem_iff_getElem?.mpr ⟨m, hm⟩) with hid | hid | hid
      · exact absurd hid (OrdMap.getElem?_eq_none.mp hb)
      · obtain ⟨side, hside⟩ := OrdMap.mem_iff_getElem?.mp hid
        exact ⟨side, .inl hside⟩
      · obtain ⟨side, hside⟩ := OrdMap.mem_iff_getElem?.mp hid
        exact ⟨side, .inr hside⟩
    obtain ⟨side, hside⟩ := hside
    obtain ⟨m', hm', hcarried⟩ := h.carried id side hb hside
    rw [hm] at hm'
    cases hm'
    exact ⟨⟨side, hside, hcarried.portable⟩, fun harness => ⟨side, hside, hcarried.native harness⟩⟩
  | some b =>
    obtain ⟨hh, ht⟩ := h.keptAssets id (OrdMap.mem_iff_getElem?.mpr ⟨b, hb⟩)
    obtain ⟨hside, hh⟩ := OrdMap.mem_iff_getElem?.mp hh
    obtain ⟨tside, ht⟩ := OrdMap.mem_iff_getElem?.mp ht
    obtain ⟨m', hm', hchosen⟩ := h.chosen id b hside tside hb hh ht
    rw [hm] at hm'
    cases hm'
    have hlive : ∀ {β : Type} (f : Asset → β), f m = f hside ∨ f m = f tside →
        ∃ side, (here.assets[id]? = some side ∨ there.assets[id]? = some side) ∧
          f m = f side := by
      intro β f hf
      rcases hf with hf | hf
      · exact ⟨hside, .inl hh, hf⟩
      · exact ⟨tside, .inr ht, hf⟩
    exact ⟨hlive Asset.portable hchosen.portable.from_side,
      fun harness => hlive (fun asset => asset.nativeAt harness) (hchosen.native harness).from_side⟩

theorem mem_nativeVariants_iff {asset : Asset} {harness : HarnessId} :
    harness ∈ asset.nativeVariants ↔ (asset.nativeAt harness).isSome := by
  rw [Asset.nativeAt, Option.isSome_map, ExtTreeMap.isSome_getElem?_iff_mem]

theorem within_base : Within base base here there where
  assets id hid := by simp [sideAssetIds, ExtTreeSet.mem_union_iff, OrdMap.mem_keySet, hid]
  portable id asset h hsome := ⟨asset, mem_assetSides.mpr (.inl h), hsome⟩
  native id asset h harness hmem := ⟨asset, mem_assetSides.mpr (.inl h), hmem⟩
  packs _ h := .inl h
  profiles _ h := .inl h
  requiredBindings _ h := .inl h
  edges _ h := .inl h

theorem within_here : Within here base here there where
  assets id hid := by simp [sideAssetIds, ExtTreeSet.mem_union_iff, OrdMap.mem_keySet, hid]
  portable id asset h hsome := ⟨asset, mem_assetSides.mpr (.inr (.inl h)), hsome⟩
  native id asset h harness hmem := ⟨asset, mem_assetSides.mpr (.inr (.inl h)), hmem⟩
  packs _ h := .inr (.inl h)
  profiles _ h := .inr (.inl h)
  requiredBindings _ h := .inr (.inl h)
  edges _ h := .inr (.inl h)

theorem ExactMerge.within (h : ExactMerge blake3 base here there merged) :
    Within merged base here there where
  assets id hid := by
    have hunion := (h.assetIds id).mp hid
    simp only [sideAssetIds, ExtTreeSet.mem_union_iff, OrdMap.mem_keySet, or_assoc]
    exact hunion
  portable id m hm hsome := by
    obtain ⟨⟨side, hside, he⟩, -⟩ := h.live hm
    exact ⟨side, mem_assetSides.mpr (.inr hside), he ▸ hsome⟩
  native id m hm harness hmem := by
    obtain ⟨side, hside, he⟩ := (h.live hm).2 harness
    rw [mem_nativeVariants_iff, he, ← mem_nativeVariants_iff] at hmem
    exact ⟨side, mem_assetSides.mpr (.inr hside), hmem⟩
  packs id hid := (h.packIds id).mp hid
  profiles id hid := .inl (h.profiles.1 ▸ hid)
  requiredBindings name hname := by
    have htrue := ExtTreeSet.contains_iff_mem.mpr hname
    rcases (h.requiredBinding name).from_side with he | he
    · exact .inr (.inl (ExtTreeSet.contains_iff_mem.mp (he.symm.trans htrue)))
    · exact .inr (.inr (ExtTreeSet.contains_iff_mem.mp (he.symm.trans htrue)))
  edges edge hedge := by
    obtain ⟨pack, hpack, hmember⟩ := mem_packEdges.mp hedge
    rw [(h.packs _ pack hpack).2, ExtTreeSet.mem_union_iff, ExtTreeSet.mem_union_iff,
      or_assoc] at hmember
    have hside : ∀ m : EnvironmentManifest, edge.member ∈ membersOf m.packs[edge.pack]? →
        edge ∈ packEdges m := by
      intro m hm
      rw [mem_packEdges]
      cases hp : m.packs[edge.pack]? with
      | none => simp [hp, membersOf] at hm
      | some p =>
        rw [hp] at hm
        exact ⟨p, rfl, hm⟩
    exact hmember.imp (hside base) (Or.imp (hside here) (hside there))

end Live

end Kitrove
