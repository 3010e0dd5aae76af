import Kitrove.Packs.Inspection
import Kitrove.Packs.Refresh
import Kitrove.Sync.Transfer

/-! Grafts: a pack and what it leads to, copied from one manifest into another. -/

namespace Kitrove

open Std Graph Worklist Except

structure PackRollbackError where
  code : String
  message : String
  deriving DecidableEq

def PackRollbackError.historyInvalid : PackRollbackError :=
  ⟨"pack_rollback.history_invalid",
    "pack rollback requires one bounded verified linear snapshot history"⟩

def PackRollbackError.applicationLimit : PackRollbackError :=
  ⟨"pack_rollback.application_limit",
    "pack rollback closure exceeds the configured traversal limit"⟩

/-- What a plan makes of the revision of one pack. -/
structure PackRevisionChange where
  prior : Option ContentHash
  proposed : ContentHash
  deriving DecidableEq

section Definitions

/-- A pack and its components. -/
def packClosure (m : EnvironmentManifest) (packId : AssetId) :
    Except PackRollbackError (OrdSet AssetId) := do
  let components ← (resolvePackComponents m {packId}).mapError fun error =>
    if error.code = "pack.application_limit" then PackRollbackError.applicationLimit
    else PackRollbackError.historyInvalid
  pure (OrdMap.setOf (packId :: components.map PackComponent.id))

def assetRoots (asset : Asset) : List PortablePath :=
  asset.portable.toList.map PortableContent.root ++
    asset.nativeVariants.values.map NativeVariant.root

def closureRoots (m : EnvironmentManifest) (closure : OrdSet AssetId) : OrdSet PortablePath :=
  OrdMap.setOf ((closure.toList.filterMap fun id => m.assets[id]?).flatMap assetRoots)

/-- The objects of the assets of a closure. -/
def requiredSnapshotObjects (snapshot : PortableSnapshot) (closure : OrdSet AssetId) :
    Except PackRollbackError (OrdSet ObjectDescriptor) := do
  let roots := closureRoots snapshot.manifest closure
  let objects := snapshot.objects.filter fun descriptor => roots.contains descriptor.root
  refuseIf (objects.size ≠ roots.size) PackRollbackError.historyInvalid
  pure objects

/-- The packs whose revision is new or another one. -/
def affectedPackRevisions (current proposed : EnvironmentManifest) :
    OrdMap AssetId PackRevisionChange :=
  proposed.packs.filterMap fun id pack =>
    let prior := current.packs[id]?.map Pack.contentHash
    if prior ≠ some pack.contentHash then some ⟨prior, pack.contentHash⟩ else none

def snapshotKindTag : SnapshotObjectKind → UInt8
  | .portableSkillTree => 0
  | .nativeSkillObject => 1
  | .nativeExtensionObject => 2
  | .portableInstruction => 3
  | .nativeInstruction => 4
  | .portablePromptCommand => 5
  | .nativePromptCommand => 6
  | .portableAgent => 7
  | .nativeAgent => 8
  | .portableMcp => 9
  | .nativeMcp => 10

/-- What the digest of a plan is taken of. -/
def packGraftPreimage (domain : Bytes) (selection : ContentHash) (base proposed : Revision)
    (lockDigest : ContentHash) (objects : OrdSet ObjectDescriptor)
    (affected : OrdMap AssetId PackRevisionChange) : Bytes :=
  domain ++ textRecord selection.bytes ++ textRecord base.bytes ++ textRecord proposed.bytes ++
    textRecord lockDigest.bytes ++ countRecord objects.size ++
    (objects.toList.flatMap fun object =>
      [snapshotKindTag object.kind] ++ textRecord object.root.bytes ++
        textRecord object.objectHash.bytes ++ bigEndian64 object.encodedLen.toNat) ++
    countRecord affected.size ++
    affected.toList.flatMap fun (id, change) =>
      textRecord id.bytes ++ optionalRecord (change.prior.map Name.bytes) ++
        textRecord change.proposed.bytes

variable (blake3 : Bytes → Digest) (codec : AuthorityCodec)

def packGraftPlanDigest (domain : Bytes) (selection : ContentHash) (base proposed : Revision)
    (lock : Lockfile) (objects : OrdSet ObjectDescriptor)
    (affected : OrdMap AssetId PackRevisionChange) : Except Unit ContentHash := do
  let lock ← (lock.toJson blake3 codec).mapError fun _ => ()
  let lockDigest := ContentHash.ofDigest (blake3 lock)
  pure (ContentHash.ofDigest
    (blake3 (packGraftPreimage domain selection base proposed lockDigest objects affected)))

/-- A record copied into a manifest, with the bindings it requires. -/
def EnvironmentManifest.graftAsset (m : EnvironmentManifest) (id : AssetId) (asset : Asset) :
    EnvironmentManifest :=
  { m with
    requiredBindings := m.requiredBindings ∪ asset.requiredBindings
    assets := m.assets.insert id asset }

def EnvironmentManifest.graftPack (m : EnvironmentManifest) (id : AssetId) (pack : Pack) :
    EnvironmentManifest :=
  { m with
    requiredBindings := m.requiredBindings ∪ pack.requiredBindings
    packs := m.packs.insert id pack }

/-- Whether a manifest has the records of another one at the closure. -/
def hasClosure (source proposed : EnvironmentManifest) (closure : OrdSet AssetId) : Bool :=
  closure.toList.all fun id =>
    source.assets[id]? = proposed.assets[id]? && source.packs[id]? = proposed.packs[id]?

end Definitions

section Closures

variable {blake3 : Bytes → Digest} {m : EnvironmentManifest} {id packId : AssetId}
  {closure : OrdSet AssetId}

/-- The pack itself, or what it leads to. -/
def InClosure (m : EnvironmentManifest) (packId id : AssetId) : Prop :=
  id = packId ∨ LeadsTo m.packs {packId} id

theorem ValidManifest.leadsTo (h : ValidManifest blake3 m) (hid : LeadsTo m.packs {packId} id) :
    id ∈ m.assets ∨ id ∈ m.packs := by
  obtain ⟨parent, -, pack, hpack, hmember⟩ := hid
  exact (h.packs parent pack hpack).known id hmember

theorem packClosure_eq_ok (h : ValidManifest blake3 m) :
    packClosure m packId = .ok closure ↔
      packId ∈ m.packs ∧ ∀ id, id ∈ closure ↔ InClosure m packId id := by
  obtain ⟨hok, herror⟩ := @resolvePackComponents_ends _ _ {packId} h
  unfold packClosure
  cases hrun : resolvePackComponents m {packId} with
  | error e =>
    obtain ⟨-, root, hroot, hmissing⟩ := herror e hrun
    rw [mem_singleton_iff.mp hroot] at hmissing
    exact iff_of_false (fun h => nomatch h) fun h => hmissing h.1
  | ok components =>
    obtain ⟨hroots, found, rfl, hfound⟩ := hok components hrun
    have hmem : ∀ id, id ∈ OrdMap.setOf (packId :: found.values.map PackComponent.id) ↔
        InClosure m packId id := by
      intro id
      rw [OrdMap.mem_setOf, List.mem_cons, List.mem_map]
      refine or_congr_right ?_
      constructor
      · rintro ⟨component, hcomponent, rfl⟩
        obtain ⟨k, hget⟩ := OrdMap.mem_values.mp hcomponent
        rw [(hfound.component k component hget).1]
        exact (hfound.covered k).mp (OrdMap.mem_iff_getElem?.mpr ⟨component, hget⟩)
      · intro hleads
        obtain ⟨component, hget⟩ := OrdMap.mem_iff_getElem?.mp ((hfound.covered id).mpr hleads)
        exact ⟨component, OrdMap.mem_values.mpr ⟨id, hget⟩, (hfound.component id component hget).1⟩
    refine pure_eq_ok_iff.trans ?_
    constructor
    · rintro rfl
      exact ⟨hroots packId (mem_singleton_iff.mpr rfl), hmem⟩
    · rintro ⟨-, hclosure⟩
      exact ExtTreeSet.ext_mem fun id => (hmem id).trans (hclosure id).symm

theorem mem_closureRoots {root : PortablePath} : root ∈ closureRoots m closure ↔
    ∃ id ∈ closure, ∃ asset, m.assets[id]? = some asset ∧ root ∈ assetRoots asset := by
  rw [closureRoots, OrdMap.mem_setOf, List.mem_flatMap]
  simp only [List.mem_filterMap, ExtTreeSet.mem_toList]
  constructor
  · rintro ⟨asset, ⟨id, hid, hasset⟩, hroot⟩
    exact ⟨id, hid, asset, hasset, hroot⟩
  · rintro ⟨id, hid, asset, hasset, hroot⟩
    exact ⟨asset, ⟨id, hid, hasset⟩, hroot⟩

theorem requiredSnapshotObjects_eq_ok {snapshot : PortableSnapshot}
    {objects : OrdSet ObjectDescriptor}
    (h : requiredSnapshotObjects snapshot closure = .ok objects) {d : ObjectDescriptor} :
    d ∈ objects ↔ d ∈ snapshot.objects ∧ ∃ id ∈ closure, ∃ asset,
      snapshot.manifest.assets[id]? = some asset ∧ d.root ∈ assetRoots asset := by
  obtain ⟨-, h⟩ := refuseIf_bind_eq_ok.mp h
  cases h
  rw [OrdMap.mem_filter, ExtTreeSet.contains_iff_mem, mem_closureRoots]

theorem assetRoots_eq {asset : Asset} : assetRoots asset = (assetReferences asset).map Prod.fst := by
  simp [assetRoots, assetReferences, portableReference, nativeReference, Function.comp_def]

/-- In an exact catalog, the objects at the roots of some assets are those of their components. -/
theorem ExactCatalog.mem_references {objects : OrdSet ObjectDescriptor}
    (h : ExactCatalog m objects) {d : ObjectDescriptor} (hd : d ∈ objects) {asset : Asset}
    (hasset : m.assets[id]? = some asset) :
    d.root ∈ assetRoots asset ↔ descriptorReference d ∈ assetReferences asset := by
  rw [assetRoots_eq]
  have hall : ∀ r ∈ assetReferences asset, r ∈ objectReferences m := fun r hr =>
    List.mem_flatMap.mpr ⟨asset, OrdMap.mem_values.mpr ⟨id, hasset⟩, hr⟩
  constructor
  · intro hroot
    obtain ⟨r, hr, hsame⟩ := List.mem_map.mp hroot
    have hin : descriptorReference d ∈ objectReferences m := h.references.mem_iff.mp
      (List.mem_map.mpr ⟨d, ExtTreeSet.mem_toList.mpr hd, rfl⟩)
    rwa [← List.inj_on_of_nodup_map h.roots (hall r hr) hin hsame]
  · intro hr
    exact List.mem_map.mpr ⟨_, hr, rfl⟩

end Closures

section Grafts

variable {blake3 : Bytes → Digest} {m source t : EnvironmentManifest} {id : AssetId}
  {done : List AssetId} {closure : OrdSet AssetId}

/-- A map with the entries of another one at the keys done so far. -/
def Copied {V : Type} (m source : OrdMap AssetId V) (done : List AssetId) (t : OrdMap AssetId V) :
    Prop :=
  ∀ id : AssetId, t[id]? = if id ∈ done ∧ id ∈ source then source[id]? else m[id]?

theorem Copied.insert {V : Type} {m source t : OrdMap AssetId V} (h : Copied m source done t)
    {v : V} (hv : source[id]? = some v) : Copied m source (done ++ [id]) (t.insert id v) := by
  intro k
  rw [ExtTreeMap.getElem?_insert, h k]
  by_cases hk : id = k
  · subst hk
    rw [if_pos ReflCmp.compare_self, if_pos ⟨List.mem_concat_self, OrdMap.mem_iff_getElem?.mpr ⟨v, hv⟩⟩,
      hv]
  · rw [if_neg fun heq => hk (LawfulEqCmp.eq_of_compare heq)]
    refine if_congr (and_congr_left fun _ => ?_) rfl rfl
    rw [List.mem_append, List.mem_singleton, or_iff_left (Ne.symm hk)]

theorem Copied.skip {V : Type} {m source t : OrdMap AssetId V} (h : Copied m source done t)
    (hid : id ∉ source) : Copied m source (done ++ [id]) t := by
  intro k
  rw [h k]
  refine if_congr (and_congr_left fun hk => ?_) rfl rfl
  have hother : k ≠ id := by
    rintro rfl
    exact hid hk
  rw [List.mem_append, List.mem_singleton, or_iff_left hother]

/-- One record, asset or pack, requires the binding. -/
def RecordRequires (m : EnvironmentManifest) (id : AssetId) (name : BindingName) : Prop :=
  (∃ asset, m.assets[id]? = some asset ∧ name ∈ asset.requiredBindings) ∨
    ∃ pack, m.packs[id]? = some pack ∧ name ∈ pack.requiredBindings

/-- A manifest in which some records have been copied over those of another one. -/
structure Grafting (m source : EnvironmentManifest) (done : List AssetId)
    (t : EnvironmentManifest) : Prop where
  assets : Copied m.assets source.assets done t.assets
  packs : Copied m.packs source.packs done t.packs
  profiles : t.profiles = m.profiles
  bindings : ∀ name, name ∈ t.requiredBindings ↔
    name ∈ m.requiredBindings ∨ ∃ id ∈ done, RecordRequires source id name

theorem Grafting.start : Grafting m source [] m where
  assets id := by simp
  packs id := by simp
  profiles := rfl
  bindings name := by simp

theorem exists_mem_concat {P : AssetId → Prop} :
    (∃ k ∈ done ++ [id], P k) ↔ (∃ k ∈ done, P k) ∨ P id := by
  simp only [List.mem_append, List.mem_singleton, or_and_right, exists_or, exists_eq_left]

theorem Grafting.asset (h : Grafting m source done t) {asset : Asset}
    (hasset : source.assets[id]? = some asset) (hpack : id ∉ source.packs) :
    Grafting m source (done ++ [id]) (t.graftAsset id asset) where
  assets := h.assets.insert hasset
  packs := h.packs.skip hpack
  profiles := h.profiles
  bindings name := by
    change name ∈ t.requiredBindings ∪ asset.requiredBindings ↔ _
    have hnone : source.packs[id]? = none := OrdMap.getElem?_eq_none.mpr hpack
    have hrequires : RecordRequires source id name ↔ name ∈ asset.requiredBindings := by
      simp [RecordRequires, hasset, hnone]
    rw [ExtTreeSet.mem_union_iff, h.bindings, exists_mem_concat, hrequires, or_assoc]

theorem Grafting.pack (h : Grafting m source done t) {pack : Pack}
    (hpack : source.packs[id]? = some pack) (hasset : id ∉ source.assets) :
    Grafting m source (done ++ [id]) (t.graftPack id pack) where
  assets := h.assets.skip hasset
  packs := h.packs.insert hpack
  profiles := h.profiles
  bindings name := by
    change name ∈ t.requiredBindings ∪ pack.requiredBindings ↔ _
    have hnone : source.assets[id]? = none := OrdMap.getElem?_eq_none.mpr hasset
    have hrequires : RecordRequires source id name ↔ name ∈ pack.requiredBindings := by
      simp [RecordRequires, hpack, hnone]
    rw [ExtTreeSet.mem_union_iff, h.bindings, exists_mem_concat, hrequires, or_assoc]

/-- A valid manifest that a refresh makes of the records of a closure copied into another one. -/
structure Grafted (blake3 : Bytes → Digest) (m source : EnvironmentManifest)
    (closure : OrdSet AssetId) (proposed : EnvironmentManifest) : Prop where
  valid : proposed.validate blake3 = .ok ()
  taken : ∀ id ∈ closure,
    source.assets[id]? = proposed.assets[id]? ∧ source.packs[id]? = proposed.packs[id]?
  assets : ∀ id ∉ closure, proposed.assets[id]? = m.assets[id]?
  packs : ∀ id ∉ closure,
    (proposed.packs[id]?).map draftFromPack = (m.packs[id]?).map draftFromPack
  profiles : proposed.profiles = m.profiles
  bindings : ∀ name, name ∈ proposed.requiredBindings ↔
    name ∈ m.requiredBindings ∨ ∃ id ∈ closure, RecordRequires source id name

theorem hasClosure_iff : hasClosure source t closure = true ↔ ∀ id ∈ closure,
    source.assets[id]? = t.assets[id]? ∧ source.packs[id]? = t.packs[id]? := by
  simp only [hasClosure, List.all_eq_true, ExtTreeSet.mem_toList, Bool.and_eq_true,
    decide_eq_true_eq]

theorem Grafting.refreshed (h : Grafting m source closure.toList t) {proposed : EnvironmentManifest}
    (hrefresh : t.refreshPackRevisions blake3 = .ok proposed)
    (htaken : hasClosure source proposed closure = true) :
    Grafted blake3 m source closure proposed := by
  obtain ⟨hvalid, hassets, hsame, hprofiles, hbindings⟩ := refreshPackRevisions_eq_ok hrefresh
  refine ⟨hvalid, hasClosure_iff.mp htaken, fun id hid => ?_, fun id hid => ?_,
    hprofiles.trans h.profiles, fun name => ?_⟩
  · rw [hassets, h.assets, if_neg fun hdone => hid (ExtTreeSet.mem_toList.mp hdone.1)]
  · rw [hsame id, h.packs, if_neg fun hdone => hid (ExtTreeSet.mem_toList.mp hdone.1)]
  · rw [hbindings, h.bindings]
    simp only [ExtTreeSet.mem_toList]

/-- Both manifests have the same at the id. -/
def SameAt (m m' : EnvironmentManifest) (id : AssetId) : Prop :=
  m'.assets[id]? = m.assets[id]? ∧ m'.packs[id]? = m.packs[id]?

/-- A pack outside the closure changes only when it leads to a member of the closure that does. -/
theorem Grafted.unchanged {proposed : EnvironmentManifest}
    (h : Grafted blake3 m source closure proposed) (hm : ValidManifest blake3 m)
    (hid : id ∈ m.packs) (hout : id ∉ closure)
    (hall : ∀ member, LeadsTo m.packs {id} member → member ∈ closure → SameAt m proposed member) :
    proposed.packs[id]? = m.packs[id]? := by
  have hproposed := validate_eq_ok.mp h.valid
  have hbounded := hm.admissible.bounded hid
  refine hbounded.induction (P := fun id => id ∈ m.packs → id ∉ closure →
    (∀ member, LeadsTo m.packs {id} member → member ∈ closure → SameAt m proposed member) →
    proposed.packs[id]? = m.packs[id]?) (fun id ih hid hout hall => ?_) hid hout hall
  obtain ⟨pack, hpack⟩ := OrdMap.mem_iff_getElem?.mp hid
  have hdraft := h.packs id hout
  rw [hpack, Option.map_some] at hdraft
  obtain ⟨pack', hpack', hdraft⟩ := Option.map_eq_some_iff.mp hdraft
  rw [hpack', hpack]
  congr 1
  refine (hm.derived id pack hpack).unique (hproposed.derived id pack' hpack') hdraft
    fun member hmember => ?_
  have hleads : LeadsTo m.packs {id} member := (leadsTo_step hpack).mpr (.inl hmember)
  have hsame : SameAt m proposed member := by
    by_cases hclosure : member ∈ closure
    · exact hall member hleads hclosure
    · refine ⟨h.assets member hclosure, ?_⟩
      by_cases hnested : member ∈ m.packs
      · have hedge : member ∈ nestedPacks m.packs id :=
          mem_nestedMembers.mpr ⟨⟨pack, hpack, hmember⟩, hnested⟩
        exact ih member hedge hnested hclosure fun other hother =>
          hall other ((leadsTo_step hpack).mpr (.inr ⟨member, hedge, hother⟩))
      · have hnone := h.packs member hclosure
        rw [OrdMap.getElem?_eq_none.mpr hnested, Option.map_none, Option.map_eq_none_iff] at hnone
        rw [hnone, OrdMap.getElem?_eq_none.mpr hnested]
  unfold memberRecord
  rw [hsame.1, hsame.2]

end Grafts

end Kitrove
