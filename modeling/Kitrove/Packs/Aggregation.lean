import Kitrove.Packs.Admission
import Kitrove.Packs.Inspection

/-! A pack of nested packs sums up its assets as the flat pack of these assets does. -/

namespace Kitrove

open Std Graph Worklist Except

section Sums

variable {L : Asset → Prop} {contentClass : ContentClass} {requiredBindings : OrdSet BindingName}
  {compatibility : OrdMap HarnessId FidelityResult} {members : List PackMemberMetadata}

/-- The fidelity on a harness; without a result, it is unsupported. -/
def fidelityAt (compatibility : OrdMap HarnessId FidelityResult) (harness : HarnessId) : Fidelity :=
  match compatibility[harness]? with
  | some result => result.fidelity
  | none => .unsupported

def blockedAt (compatibility : OrdMap HarnessId FidelityResult) (harness : HarnessId) :
    List BlockedRequirement :=
  (compatibility[harness]?.map fun result => result.blockedRequirements).getD []

/-- Class, bindings and compatibility sum up those of the assets. -/
structure Sums (L : Asset → Prop) (contentClass : ContentClass)
    (requiredBindings : OrdSet BindingName) (compatibility : OrdMap HarnessId FidelityResult) :
    Prop where
  inhabited : ∃ asset, L asset
  contentClass : ∀ c, contentClass ≤ c ↔ ∀ asset, L asset → asset.contentClass ≤ c
  requiredBindings : ∀ name, name ∈ requiredBindings ↔ ∃ asset, L asset ∧ name ∈ asset.requiredBindings
  harnesses : ∀ harness, harness ∈ compatibility ↔ ∃ asset, L asset ∧ harness ∈ asset.compatibility
  fidelity : ∀ harness f, fidelityAt compatibility harness ≤ f ↔
    ∀ asset, L asset → fidelityAt asset.compatibility harness ≤ f
  blocked : ∀ harness requirement, requirement ∈ blockedAt compatibility harness ↔
    ∃ asset, L asset ∧ requirement ∈ blockedAt asset.compatibility harness

/-- Assets that agree are summed up by any of them. -/
theorem sums_of_agreeing (hinhabited : ∃ asset, L asset)
    (hall : ∀ asset, L asset → asset.contentClass = contentClass ∧
      asset.requiredBindings = requiredBindings ∧ asset.compatibility = compatibility) :
    Sums L contentClass requiredBindings compatibility := by
  have hsome : ∀ {P : Asset → Prop} {q : Prop}, (∀ asset, L asset → (P asset ↔ q)) →
      (q ↔ ∃ asset, L asset ∧ P asset) := by
    intro P q hP
    constructor
    · intro hq
      obtain ⟨asset, hasset⟩ := hinhabited
      exact ⟨asset, hasset, (hP asset hasset).mpr hq⟩
    · rintro ⟨asset, hasset, hp⟩
      exact (hP asset hasset).mp hp
  have hevery : ∀ {P : Asset → Prop} {q : Prop}, (∀ asset, L asset → (P asset ↔ q)) →
      (q ↔ ∀ asset, L asset → P asset) := by
    intro P q hP
    constructor
    · exact fun hq asset hasset => (hP asset hasset).mpr hq
    · intro hp
      obtain ⟨asset, hasset⟩ := hinhabited
      exact (hP asset hasset).mp (hp asset hasset)
  refine ⟨hinhabited, fun c => hevery fun asset hasset => ?_, fun name => hsome fun asset hasset => ?_,
    fun harness => hsome fun asset hasset => ?_, fun harness f => hevery fun asset hasset => ?_,
    fun harness requirement => hsome fun asset hasset => ?_⟩
  · rw [(hall asset hasset).1]
  · rw [(hall asset hasset).2.1]
  · rw [(hall asset hasset).2.2]
  · rw [(hall asset hasset).2.2]
  · rw [(hall asset hasset).2.2]

theorem sums_asset (asset : Asset) :
    Sums (· = asset) asset.contentClass asset.requiredBindings asset.compatibility := by
  refine sums_of_agreeing ⟨asset, rfl⟩ ?_
  rintro _ rfl
  exact ⟨rfl, rfl, rfl⟩

theorem blockedAt_of_fidelityAt {harness : HarnessId} {requirement : BlockedRequirement}
    (h : requirement ∈ blockedAt compatibility harness) :
    fidelityAt compatibility harness = .blocked := by
  unfold blockedAt at h
  unfold fidelityAt
  cases hget : compatibility[harness]? with
  | none => simp [hget] at h
  | some result =>
    simp only [hget, Option.map_some, Option.getD_some] at h
    exact result.blocked_iff.mpr (List.ne_nil_of_mem h)

theorem Fidelity.le_blocked (f : Fidelity) : f ≤ .blocked := by
  rw [Fidelity.le_iff]
  cases f <;> decide

theorem mem_blockedAt_iff {harness : HarnessId} {requirement : BlockedRequirement} :
    requirement ∈ blockedAt compatibility harness ↔ ∃ result,
      compatibility[harness]? = some result ∧ requirement ∈ result.blockedRequirements := by
  unfold blockedAt
  cases compatibility[harness]? <;> simp

theorem fidelityAt_le {derived : DerivedPackFields} (h : Aggregated members derived)
    (hne : members ≠ []) {harness : HarnessId} {f : Fidelity} :
    fidelityAt derived.compatibility harness ≤ f ↔
      ∀ member ∈ members, fidelityAt member.compatibility harness ≤ f := by
  cases hget : derived.compatibility[harness]? with
  | some result =>
    have hresult : fidelityAt derived.compatibility harness = result.fidelity := by
      rw [fidelityAt, hget]
    rw [hresult, h.fidelity harness result hget, lowestFidelity_le, List.forall_mem_map]
    rfl
  | none =>
    have hnone : ∀ member ∈ members, fidelityAt member.compatibility harness = .unsupported := by
      intro member hmember
      have hnot : harness ∉ member.compatibility := fun hin =>
        OrdMap.getElem?_eq_none.mp hget ((h.harnesses harness).mpr ⟨member, hmember, hin⟩)
      rw [fidelityAt, OrdMap.getElem?_eq_none.mpr hnot]
    have hself : fidelityAt derived.compatibility harness = .unsupported := by
      rw [fidelityAt, hget]
    rw [hself]
    constructor
    · intro hle member hmember
      rw [hnone member hmember]
      exact hle
    · intro hall
      obtain ⟨member, hmember⟩ := List.exists_mem_of_ne_nil _ hne
      rw [← hnone member hmember]
      exact hall member hmember

theorem mem_blockedAt {derived : DerivedPackFields} (h : Aggregated members derived)
    {harness : HarnessId} {requirement : BlockedRequirement} :
    requirement ∈ blockedAt derived.compatibility harness ↔
      ∃ member ∈ members, requirement ∈ blockedAt member.compatibility harness := by
  have hmembers : requirement ∈ blockedRequirementsOf members harness ↔
      ∃ member ∈ members, requirement ∈ blockedAt member.compatibility harness := by
    rw [mem_blockedRequirementsOf]
    exact exists_congr fun _ => and_congr_right fun _ => mem_blockedAt_iff.symm
  rw [← hmembers, mem_blockedAt_iff]
  constructor
  · rintro ⟨result, hget, hrequirement⟩
    exact ((h.blocked harness result hget requirement).mp hrequirement).2
  · intro hrequirement
    obtain ⟨member, hmember, hblocked⟩ := hmembers.mp hrequirement
    obtain ⟨blocking, hblocking, -⟩ := mem_blockedAt_iff.mp hblocked
    obtain ⟨result, hget⟩ := OrdMap.mem_iff_getElem?.mp ((h.harnesses harness).mpr
      ⟨member, hmember, OrdMap.mem_iff_getElem?.mpr ⟨blocking, hblocking⟩⟩)
    have hle : fidelityAt member.compatibility harness ≤ fidelityAt derived.compatibility harness :=
      (fidelityAt_le h (List.ne_nil_of_mem hmember)).mp le_rfl member hmember
    rw [blockedAt_of_fidelityAt hblocked, fidelityAt, hget] at hle
    have hfidelity := PartialOrder.le_antisymm _ _ (Fidelity.le_blocked _) hle
    exact ⟨result, hget, (h.blocked harness result hget requirement).mpr ⟨hfidelity, hrequirement⟩⟩

/-- What is derived from members sums up the assets that the members sum up. -/
theorem sums_derived {derived : DerivedPackFields} (h : Aggregated members derived)
    (hne : members ≠ []) {M : PackMemberMetadata → Asset → Prop}
    (hall : ∀ member ∈ members, Sums (M member) member.contentClass member.requiredBindings
      member.compatibility) :
    Sums (fun asset => ∃ member ∈ members, M member asset) derived.contentClass
      derived.requiredBindings derived.compatibility := by
  -- every part is a property of some or of all members, and so of some or of all assets
  have hsome : ∀ {P : Asset → Prop} {Q : PackMemberMetadata → Prop},
      (∀ member ∈ members, Q member ↔ ∃ asset, M member asset ∧ P asset) →
      ((∃ member ∈ members, Q member) ↔ ∃ asset, (∃ member ∈ members, M member asset) ∧ P asset) := by
    intro P Q hQ
    constructor
    · rintro ⟨member, hmember, hq⟩
      obtain ⟨asset, hasset, hp⟩ := (hQ member hmember).mp hq
      exact ⟨asset, ⟨member, hmember, hasset⟩, hp⟩
    · rintro ⟨asset, ⟨member, hmember, hasset⟩, hp⟩
      exact ⟨member, hmember, (hQ member hmember).mpr ⟨asset, hasset, hp⟩⟩
  have hevery : ∀ {P : Asset → Prop} {Q : PackMemberMetadata → Prop},
      (∀ member ∈ members, Q member ↔ ∀ asset, M member asset → P asset) →
      ((∀ member ∈ members, Q member) ↔ ∀ asset, (∃ member ∈ members, M member asset) → P asset) := by
    intro P Q hQ
    constructor
    · rintro hq asset ⟨member, hmember, hasset⟩
      exact (hQ member hmember).mp (hq member hmember) asset hasset
    · intro hp member hmember
      exact (hQ member hmember).mpr fun asset hasset => hp asset ⟨member, hmember, hasset⟩
  refine
    { inhabited := ?_
      contentClass := fun c => ?_
      requiredBindings := fun name => ?_
      harnesses := fun harness => ?_
      fidelity := fun harness f => ?_
      blocked := fun harness requirement => ?_ }
  · obtain ⟨member, hmember⟩ := List.exists_mem_of_ne_nil _ hne
    obtain ⟨asset, hasset⟩ := (hall member hmember).inhabited
    exact ⟨asset, member, hmember, hasset⟩
  · rw [h.contentClass, highestClass_le, List.forall_mem_map]
    exact hevery fun member hmember => (hall member hmember).contentClass c
  · rw [h.requiredBindings]
    exact hsome fun member hmember => (hall member hmember).requiredBindings name
  · rw [h.harnesses]
    exact hsome fun member hmember => (hall member hmember).harnesses harness
  · rw [fidelityAt_le h hne]
    exact hevery fun member hmember => (hall member hmember).fidelity harness f
  · rw [mem_blockedAt h]
    exact hsome fun member hmember => (hall member hmember).blocked harness requirement

/-- The same assets are summed up in one way. -/
theorem Sums.unique {contentClass' : ContentClass} {requiredBindings' : OrdSet BindingName}
    {compatibility' : OrdMap HarnessId FidelityResult}
    (h : Sums L contentClass requiredBindings compatibility)
    (h' : Sums L contentClass' requiredBindings' compatibility') :
    contentClass = contentClass' ∧ requiredBindings = requiredBindings' ∧
      (∀ harness, harness ∈ compatibility ↔ harness ∈ compatibility') ∧
      ∀ harness, fidelityAt compatibility harness = fidelityAt compatibility' harness ∧
        ∀ requirement, requirement ∈ blockedAt compatibility harness ↔
          requirement ∈ blockedAt compatibility' harness :=
  ⟨eq_of_forall_ge_iff fun c => (h.contentClass c).trans (h'.contentClass c).symm,
    ExtTreeSet.ext_mem fun name => (h.requiredBindings name).trans (h'.requiredBindings name).symm,
    fun harness => (h.harnesses harness).trans (h'.harnesses harness).symm,
    fun harness => ⟨eq_of_forall_ge_iff fun f => (h.fidelity harness f).trans
      (h'.fidelity harness f).symm, fun requirement => (h.blocked harness requirement).trans
      (h'.blocked harness requirement).symm⟩⟩

end Sums

section Leaves

variable {blake3 : Bytes → Digest} {m : EnvironmentManifest} {id : AssetId} {pack : Pack}

/-- An asset that a pack leads to. -/
def Leaf (m : EnvironmentManifest) (id : AssetId) (asset : Asset) : Prop :=
  ∃ member : AssetId, m.assets[member]? = some asset ∧ LeadsTo m.packs {id} member

/-- The assets that a member of a pack leads to. -/
def MemberLeaf (m : EnvironmentManifest) (member : AssetId) (asset : Asset) : Prop :=
  m.assets[member]? = some asset ∨ (m.assets[member]? = none ∧ Leaf m member asset)

theorem leaf_iff (h : ValidManifest blake3 m) (hpack : m.packs[id]? = some pack) {asset : Asset} :
    Leaf m id asset ↔ ∃ metadata ∈ memberRecords m.assets m.packs pack,
      MemberLeaf m metadata.id asset := by
  have hclosed : Closed m.assets m.packs pack := (h.packs id pack hpack).known
  have hmembers : (∃ metadata ∈ memberRecords m.assets m.packs pack,
      MemberLeaf m metadata.id asset) ↔ ∃ member ∈ pack.members, MemberLeaf m member asset := by
    constructor
    · rintro ⟨metadata, hmetadata, hleaf⟩
      obtain ⟨member, hmember, hrecord⟩ := mem_memberRecords.mp hmetadata
      rw [memberRecord_id hrecord] at hleaf
      exact ⟨member, hmember, hleaf⟩
    · rintro ⟨member, hmember, hleaf⟩
      obtain ⟨metadata, hrecord⟩ := memberRecord_isSome.mpr (hclosed member hmember)
      refine ⟨metadata, mem_memberRecords.mpr ⟨member, hmember, hrecord⟩, ?_⟩
      rwa [memberRecord_id hrecord]
  rw [hmembers]
  constructor
  · rintro ⟨member, hasset, hleads⟩
    rcases (leadsTo_step hpack).mp hleads with hmember | ⟨nested, hnested, hleads⟩
    · exact ⟨member, hmember, .inl hasset⟩
    · obtain ⟨⟨other, hother, hmember⟩, hknown⟩ := mem_nestedMembers.mp hnested
      rw [hpack] at hother
      cases hother
      exact ⟨nested, hmember, .inr ⟨OrdMap.getElem?_eq_none.mpr (h.notAsset hknown), member, hasset,
        hleads⟩⟩
  · rintro ⟨member, hmember, hasset | ⟨hnone, leaf, hasset, hleads⟩⟩
    · exact ⟨member, hasset, (leadsTo_step hpack).mpr (.inl hmember)⟩
    · have hknown := (hclosed member hmember).resolve_left (OrdMap.getElem?_eq_none.mp hnone)
      exact ⟨leaf, hasset, (leadsTo_step hpack).mpr (.inr ⟨member,
        mem_nestedMembers.mpr ⟨⟨pack, hpack, hmember⟩, hknown⟩, hleads⟩)⟩

/-- A pack of a valid manifest sums up the assets that it leads to. -/
theorem sums_leaves (h : ValidManifest blake3 m) (hpack : m.packs[id]? = some pack) :
    Sums (Leaf m id) pack.contentClass pack.requiredBindings pack.compatibility := by
  have hbounded := h.admissible.bounded (OrdMap.mem_iff_getElem?.mpr ⟨pack, hpack⟩)
  refine hbounded.induction (P := fun id => ∀ pack : Pack, m.packs[id]? = some pack →
    Sums (Leaf m id) pack.contentClass pack.requiredBindings pack.compatibility)
    (fun id ih pack hpack => ?_) pack hpack
  obtain ⟨derived, hfields, hself⟩ := h.derived id pack hpack
  obtain ⟨-, hcompatibility, hclass, hbindings, -⟩ := derived_eq_self_iff.mp hself
  have hne : memberRecords m.assets m.packs pack ≠ [] := (derivePackFields_eq_ok.mp hfields).1
  have hleaf : Leaf m id = fun asset => ∃ metadata ∈ memberRecords m.assets m.packs pack,
      MemberLeaf m metadata.id asset := funext fun _ => propext (leaf_iff h hpack)
  rw [hleaf, ← hcompatibility, ← hclass, ← hbindings]
  refine sums_derived (derivePackFields_aggregated hfields) hne fun metadata hmetadata => ?_
  obtain ⟨member, hmember, hrecord⟩ := mem_memberRecords.mp hmetadata
  rw [memberRecord_id hrecord]
  unfold memberRecord at hrecord
  cases hasset : m.assets[member]? with
  | some asset =>
    rw [hasset] at hrecord
    cases hrecord
    have hone : MemberLeaf m member = (· = asset) := by
      funext other
      simp [MemberLeaf, hasset, eq_comm]
    rw [hone]
    exact sums_asset asset
  | none =>
    rw [hasset] at hrecord
    obtain ⟨nested, hnested, rfl⟩ := Option.map_eq_some_iff.mp hrecord
    have hone : MemberLeaf m member = Leaf m member := by
      funext other
      simp [MemberLeaf, hasset]
    rw [hone]
    exact ih member (mem_nestedMembers.mpr ⟨⟨pack, hpack, hmember⟩,
      OrdMap.mem_iff_getElem?.mpr ⟨nested, hnested⟩⟩) nested hnested

/-- The assets of a set of ids. -/
def leafAssets (m : EnvironmentManifest) (leaves : OrdSet AssetId) : List Asset :=
  leaves.toList.filterMap fun id => m.assets[id]?

/-- What the flat pack of some assets derives from them. -/
def flatRecord (asset : Asset) : PackMemberMetadata :=
  ⟨asset.id, asset.contentHash, asset.compatibility, asset.contentClass, asset.requiredBindings⟩

theorem mem_leafAssets {leaves : OrdSet AssetId}
    (hleaves : ∀ leaf, leaf ∈ leaves ↔ leaf ∈ m.assets ∧ LeadsTo m.packs {id} leaf) {asset : Asset} :
    asset ∈ leafAssets m leaves ↔ Leaf m id asset := by
  rw [leafAssets, List.mem_filterMap]
  constructor
  · rintro ⟨leaf, hleaf, hasset⟩
    exact ⟨leaf, hasset, ((hleaves leaf).mp (ExtTreeSet.mem_toList.mp hleaf)).2⟩
  · rintro ⟨leaf, hasset, hleads⟩
    exact ⟨leaf, ExtTreeSet.mem_toList.mpr ((hleaves leaf).mpr
      ⟨OrdMap.mem_iff_getElem?.mpr ⟨asset, hasset⟩, hleads⟩), hasset⟩

/-- A pack is, in class, bindings, harnesses, fidelity and what blocks it, the sum of the assets it
leads to, and so the same as the flat pack of these assets. -/
theorem pack_sums_leaves (h : m.validate blake3 = .ok ()) (hpack : m.packs[id]? = some pack) :
    ∃ leaves, resolvePackAssets blake3 m {id} = .ok leaves ∧
      pack.contentClass = highestClass ((leafAssets m leaves).map Asset.contentClass) ∧
      (∀ name, name ∈ pack.requiredBindings ↔
        ∃ asset ∈ leafAssets m leaves, name ∈ asset.requiredBindings) ∧
      (∀ harness, harness ∈ pack.compatibility ↔
        ∃ asset ∈ leafAssets m leaves, harness ∈ asset.compatibility) ∧
      (∀ (harness : HarnessId) (result : FidelityResult), pack.compatibility[harness]? = some result →
        result.fidelity = lowestFidelity ((leafAssets m leaves).map fun asset =>
          fidelityAt asset.compatibility harness) ∧
        ∀ requirement, requirement ∈ result.blockedRequirements ↔
          ∃ asset ∈ leafAssets m leaves, requirement ∈ blockedAt asset.compatibility harness) ∧
      ∃ flat, derivePackFields ((leafAssets m leaves).map flatRecord) = .ok flat ∧
        flat.contentClass = pack.contentClass ∧ flat.requiredBindings = pack.requiredBindings ∧
        (∀ harness, harness ∈ flat.compatibility ↔ harness ∈ pack.compatibility) ∧
        ∀ harness, fidelityAt flat.compatibility harness = fidelityAt pack.compatibility harness ∧
          ∀ requirement, requirement ∈ blockedAt flat.compatibility harness ↔
            requirement ∈ blockedAt pack.compatibility harness := by
  have hknown : id ∈ m.packs := OrdMap.mem_iff_getElem?.mpr ⟨pack, hpack⟩
  obtain ⟨leaves, hleaves⟩ := @resolvePackAssets_ok _ _ {id} h fun root hroot => by
    rwa [mem_singleton_iff.mp hroot]
  have hsums := sums_leaves (validate_eq_ok.mp h) hpack
  have hmem : ∀ asset, asset ∈ leafAssets m leaves ↔ Leaf m id asset := fun asset =>
    mem_leafAssets ((resolvePackAssets_eq_ok h).mp hleaves).2
  have hleaf : Leaf m id = (· ∈ leafAssets m leaves) := funext fun asset => propext (hmem asset).symm
  rw [hleaf] at hsums
  refine ⟨leaves, hleaves, ?_, hsums.requiredBindings, hsums.harnesses,
    fun harness result hresult => ⟨?_, fun requirement => ?_⟩, ?_⟩
  · refine eq_of_forall_ge_iff fun c => ?_
    rw [hsums.contentClass, highestClass_le, List.forall_mem_map]
  · refine eq_of_forall_ge_iff fun f => ?_
    have hfidelity := hsums.fidelity harness f
    rw [fidelityAt, hresult] at hfidelity
    rw [hfidelity, lowestFidelity_le, List.forall_mem_map]
  · have hblocked := hsums.blocked harness requirement
    rw [blockedAt, hresult] at hblocked
    exact hblocked
  · have hne : (leafAssets m leaves).map flatRecord ≠ [] := by
      obtain ⟨asset, hasset⟩ := hsums.inhabited
      exact List.ne_nil_of_mem (List.mem_map_of_mem hasset)
    obtain ⟨flat, hflat⟩ := derivePackFields_ok hne
    have hflatSums := sums_derived (derivePackFields_aggregated hflat) hne
      (M := fun metadata asset => asset ∈ leafAssets m leaves ∧ flatRecord asset = metadata)
      fun metadata hmetadata => by
        obtain ⟨asset, hasset, rfl⟩ := List.mem_map.mp hmetadata
        refine sums_of_agreeing ⟨asset, hasset, rfl⟩ ?_
        rintro other ⟨-, hsame⟩
        unfold flatRecord at hsame
        rw [PackMemberMetadata.mk.injEq] at hsame
        exact ⟨hsame.2.2.2.1, hsame.2.2.2.2, hsame.2.2.1⟩
    have hunion : (fun asset => ∃ metadata ∈ (leafAssets m leaves).map flatRecord,
        asset ∈ leafAssets m leaves ∧ flatRecord asset = metadata) = (· ∈ leafAssets m leaves) := by
      funext asset
      refine propext ⟨fun ⟨_, _, hasset, _⟩ => hasset, fun hasset => ?_⟩
      exact ⟨flatRecord asset, List.mem_map_of_mem hasset, hasset, rfl⟩
    rw [hunion] at hflatSums
    exact ⟨flat, hflat, hflatSums.unique hsums⟩

theorem pack_sums_leaves_sample : ∃ pack leaves, nestedManifest.packs[outerId]? = some pack ∧
    resolvePackAssets nestedDigest nestedManifest {outerId} = .ok leaves ∧
    pack.contentClass = highestClass ((leafAssets nestedManifest leaves).map Asset.contentClass) := by
  obtain ⟨pack, hpack⟩ := Option.isSome_iff_exists.mp
    (show nestedManifest.packs[outerId]?.isSome = true by decide +kernel)
  obtain ⟨leaves, hleaves, hclass, -⟩ :=
    @pack_sums_leaves nestedDigest _ _ _ (by decide +kernel) hpack
  exact ⟨pack, leaves, hpack, hleaves, hclass⟩

end Leaves

end Kitrove
