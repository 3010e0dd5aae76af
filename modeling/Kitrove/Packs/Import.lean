import Kitrove.Packs.Rollback

/-! Collection import: selected assets and packs of a remote head, over the current manifest. -/

namespace Kitrove

open Std Graph Worklist Except

structure PackDistributionError where
  code : String
  message : String
  deriving DecidableEq

def importInvalid : PackDistributionError :=
  ⟨"collection.import_invalid",
    "collection import requires valid bounded authority and a nonempty exact selection"⟩

def identityConflict : PackDistributionError :=
  ⟨"collection.identity_conflict",
    "a selected item differs from an existing local identity; nothing was imported"⟩

section Plan

/-- Immutable authority for a graft that refuses collisions. -/
structure CollectionImportPlan where
  requiredObjects : OrdSet ObjectDescriptor
  proposedManifest : EnvironmentManifest
  proposedLock : Lockfile
  baseManifestRevision : Revision
  proposedManifestRevision : Revision
  digest : ContentHash

/-- `map_err(|_| invalid())`. -/
def orImportInvalid {ε α : Type} (result : Except ε α) : Except PackDistributionError α :=
  result.mapError fun _ => importInvalid

/-- Adds a selected asset to the closure, or a selected pack and its components. -/
def selectClosure (remote : EnvironmentManifest) (closure : OrdSet AssetId) (id : AssetId) :
    Except PackDistributionError (OrdSet AssetId) :=
  if remote.assets.contains id then pure (closure.insert id)
  else if remote.packs.contains id then do
    let found ← orImportInvalid (packClosure remote id)
    pure (closure ∪ found)
  else throw importInvalid

/-- Copies one remote record, unless another one has its id. -/
def importRecord (remote proposed : EnvironmentManifest) (id : AssetId) :
    Except PackDistributionError EnvironmentManifest :=
  match remote.assets[id]? with
  | some asset => do
    refuseIf (proposed.packs.contains id || proposed.assets[id]?.any fun old => old ≠ asset)
      identityConflict
    pure (proposed.graftAsset id asset)
  | none =>
    match remote.packs[id]? with
    | some pack => do
      refuseIf (proposed.assets.contains id || proposed.packs[id]?.any fun old => old ≠ pack)
        identityConflict
      pure (proposed.graftPack id pack)
    | none => throw importInvalid

variable (blake3 : Bytes → Digest) (codec : AuthorityCodec)

/-- The manifest that an import proposes. -/
def proposeImport (current remote : EnvironmentManifest) (closure : OrdSet AssetId) :
    Except PackDistributionError EnvironmentManifest := do
  let grafted ← closure.toList.foldlM (importRecord remote) current
  let proposed ← orImportInvalid (grafted.refreshPackRevisions blake3)
  orImportInvalid (proposed.validate blake3)
  refuseIf (!hasClosure remote proposed closure) importInvalid
  pure proposed

def collectionSelectionDigest (head : VerifiedHistoricalSnapshot) (selected : OrdSet AssetId) :
    ContentHash :=
  ContentHash.ofDigest <| blake3 <|
    ascii "kitrove-collection-selection-v1" ++ [0] ++ textRecord head.revision.bytes ++
      textRecord head.snapshot.snapshotDigest.bytes ++
      selected.toList.flatMap fun id => textRecord id.bytes

def collectionPlanDomain : Bytes := ascii "kitrove-collection-import-plan-v1" ++ [0]

/-- The identities of a plan, from the manifests and the closure it has. -/
def importPlan (current : EnvironmentManifest) (head : VerifiedHistoricalSnapshot)
    (selected closure : OrdSet AssetId) (proposed : EnvironmentManifest) :
    Except PackDistributionError CollectionImportPlan := do
  let baseManifestRevision ← orImportInvalid (deriveManifestRevision blake3 codec current)
  let proposedManifestRevision ← orImportInvalid (deriveManifestRevision blake3 codec proposed)
  let proposedLock ← orImportInvalid (deriveLockfile blake3 proposed)
  let requiredObjects ← orImportInvalid (requiredSnapshotObjects head.snapshot closure)
  let digest ← orImportInvalid (packGraftPlanDigest blake3 codec collectionPlanDomain
    (collectionSelectionDigest blake3 head selected) baseManifestRevision proposedManifestRevision
    proposedLock requiredObjects ∅)
  pure
    { requiredObjects
      proposedManifest := proposed
      proposedLock, baseManifestRevision, proposedManifestRevision, digest }

/-- InSelection assets and complete pack closures, and no other remote records. -/
def planCollectionImport (current : EnvironmentManifest) (history : VerifiedRemoteHistory)
    (selected : OrdSet AssetId) : Except PackDistributionError CollectionImportPlan := do
  orImportInvalid (current.validate blake3)
  refuseIf selected.isEmpty importInvalid
  match history.snapshots with
  | [] => throw importInvalid
  | head :: _ => do
    let remote := head.snapshot.manifest
    orImportInvalid (remote.validate blake3)
    let closure ← selected.toList.foldlM (selectClosure remote) ∅
    let proposed ← proposeImport blake3 current remote closure
    importPlan blake3 codec current head selected closure proposed

end Plan

section Selection

variable {blake3 : Bytes → Digest} {remote : EnvironmentManifest} {closure : OrdSet AssetId}
  {selected : OrdSet AssetId} {id root : AssetId}

theorem orImportInvalid_eq_ok {ε α : Type} {result : Except ε α} {a : α} :
    orImportInvalid result = .ok a ↔ result = .ok a := mapError_eq_ok_iff

/-- What one selected id stands for: an asset, or a pack and what it leads to. -/
def SelectedBy (remote : EnvironmentManifest) (root id : AssetId) : Prop :=
  (root ∈ remote.assets ∧ id = root) ∨ (root ∈ remote.packs ∧ InClosure remote root id)

def InSelection (remote : EnvironmentManifest) (selected : OrdSet AssetId) (id : AssetId) : Prop :=
  ∃ root ∈ selected, SelectedBy remote root id

theorem ValidManifest.selectedBy (h : ValidManifest blake3 remote) (hid : SelectedBy remote root id) :
    id ∈ remote.assets ∨ id ∈ remote.packs := by
  rcases hid with ⟨hroot, rfl⟩ | ⟨hroot, rfl | hleads⟩
  · exact .inl hroot
  · exact .inr hroot
  · exact h.leadsTo hleads

theorem selectClosure_eq_ok (h : ValidManifest blake3 remote) {next : OrdSet AssetId}
    (hselect : selectClosure remote closure root = .ok next) :
    (root ∈ remote.assets ∨ root ∈ remote.packs) ∧
      ∀ id, id ∈ next ↔ id ∈ closure ∨ SelectedBy remote root id := by
  unfold selectClosure at hselect
  split at hselect
  · rename_i hasset
    cases hselect
    rw [ExtTreeMap.contains_iff_mem] at hasset
    refine ⟨.inl hasset, fun id => ?_⟩
    have hpack : root ∉ remote.packs := fun hin => h.notAsset hin hasset
    rw [mem_insert_iff, or_comm]
    refine or_congr_right ⟨fun he => .inl ⟨hasset, he⟩, ?_⟩
    rintro (⟨-, he⟩ | ⟨hin, -⟩)
    · exact he
    · exact absurd hin hpack
  · rename_i hasset
    rw [ExtTreeMap.contains_iff_mem] at hasset
    split at hselect
    · obtain ⟨found, hfound, hselect⟩ := bind_eq_ok_iff.mp hselect
      cases hselect
      obtain ⟨hpack, hmem⟩ := (packClosure_eq_ok h).mp (orImportInvalid_eq_ok.mp hfound)
      refine ⟨.inr hpack, fun id => ?_⟩
      rw [ExtTreeSet.mem_union_iff, hmem]
      refine or_congr_right ⟨fun hin => .inr ⟨hpack, hin⟩, ?_⟩
      rintro (⟨hin, -⟩ | ⟨-, hin⟩)
      · exact absurd hin hasset
      · exact hin
    · contradiction

theorem selectClosures_eq_ok (h : ValidManifest blake3 remote)
    (hselect : selected.toList.foldlM (selectClosure remote) ∅ = .ok closure) :
    (∀ root ∈ selected, root ∈ remote.assets ∨ root ∈ remote.packs) ∧
      ∀ id, id ∈ closure ↔ InSelection remote selected id := by
  have hall := (foldlM_ends (f := selectClosure remote) (b := ∅)
    (I := fun done closure => (∀ root ∈ done, root ∈ remote.assets ∨ root ∈ remote.packs) ∧
      ∀ id, id ∈ closure ↔ ∃ root ∈ done, SelectedBy remote root id) (E := fun _ => True)
    ⟨fun _ hroot => (nomatch hroot), fun id => iff_of_false ExtTreeSet.not_mem_empty (by simp)⟩
    fun done root closure _ hclosure => ⟨fun next hnext => ?_, fun _ _ => trivial⟩).1 closure hselect
  · simpa only [ExtTreeSet.mem_toList, InSelection] using hall
  · obtain ⟨hroot, hmem⟩ := selectClosure_eq_ok h hnext
    refine ⟨List.forall_mem_append.mpr ⟨hclosure.1, List.forall_mem_singleton.mpr hroot⟩,
      fun id => ?_⟩
    rw [hmem, hclosure.2, exists_mem_concat]

end Selection

section Imports

variable {blake3 : Bytes → Digest} {codec : AuthorityCodec}
  {current remote proposed : EnvironmentManifest} {closure selected : OrdSet AssetId} {id : AssetId}

/-- What the current manifest has at the id, the remote one has too. -/
def Agrees (current remote : EnvironmentManifest) (id : AssetId) : Prop :=
  (∀ old, current.assets[id]? = some old → remote.assets[id]? = some old) ∧
    ∀ old, current.packs[id]? = some old → remote.packs[id]? = some old

/-- The two checks before a record is copied. -/
theorem agrees_of_free {V W : Type} [DecidableEq V] {m source t : OrdMap AssetId V}
    {m' source' t' : OrdMap AssetId W} {done : List AssetId} {v : V}
    (ht : Copied m source done t) (ht' : Copied m' source' done t') (hv : source[id]? = some v)
    (hnot : id ∉ source')
    (hdone : id ∈ done → ∀ old, m[id]? = some old → source[id]? = some old)
    (hfree : (t'.contains id || t[id]?.any fun old => old ≠ v) = false) :
    (∀ old, m[id]? = some old → source[id]? = some old) ∧ m'[id]? = none := by
  rw [Bool.or_eq_false_iff] at hfree
  obtain ⟨hnone, hsame⟩ := hfree
  constructor
  · intro old hold
    by_cases hin : id ∈ done
    · exact hdone hin old hold
    · rw [ht id, if_neg fun h => hin h.1, hold, Option.any_some, decide_eq_false_iff_not,
        not_not] at hsame
      rw [hv, hsame]
  · rw [← Bool.not_eq_true, ExtTreeMap.contains_iff_mem, ← OrdMap.getElem?_eq_none, ht' id,
      if_neg fun h => hnot h.2] at hnone
    exact hnone

theorem importRecord_eq_ok (h : ValidManifest blake3 remote) {done : List AssetId}
    {t next : EnvironmentManifest} (ht : Grafting current remote done t)
    (hdone : ∀ k ∈ done, Agrees current remote k)
    (himport : importRecord remote t id = .ok next) :
    Grafting current remote (done ++ [id]) next ∧ Agrees current remote id := by
  unfold importRecord at himport
  cases hasset : remote.assets[id]? with
  | some asset =>
    simp only [hasset] at himport
    obtain ⟨hfree, himport⟩ := refuseIf_bind_eq_ok.mp himport
    cases himport
    have hnot : id ∉ remote.packs := fun hin =>
      h.notAsset hin (OrdMap.mem_iff_getElem?.mpr ⟨asset, hasset⟩)
    obtain ⟨hsame, hnone⟩ := agrees_of_free ht.assets ht.packs hasset hnot
      (fun hin => (hdone id hin).1) hfree
    refine ⟨ht.asset hasset hnot, hsame, fun old hold => ?_⟩
    rw [hnone] at hold
    contradiction
  | none =>
    simp only [hasset] at himport
    cases hpack : remote.packs[id]? with
    | none =>
      simp only [hpack] at himport
      contradiction
    | some pack =>
      simp only [hpack] at himport
      obtain ⟨hfree, himport⟩ := refuseIf_bind_eq_ok.mp himport
      cases himport
      have hnot := OrdMap.getElem?_eq_none.mp hasset
      obtain ⟨hsame, hnone⟩ := agrees_of_free ht.packs ht.assets hpack hnot
        (fun hin => (hdone id hin).2) hfree
      refine ⟨ht.pack hpack hnot, fun old hold => ?_, hsame⟩
      rw [hnone] at hold
      contradiction

theorem proposeImport_eq_ok (h : ValidManifest blake3 remote)
    (hpropose : proposeImport blake3 current remote closure = .ok proposed) :
    Grafted blake3 current remote closure proposed ∧ ∀ id ∈ closure, Agrees current remote id := by
  obtain ⟨t, himport, hpropose⟩ := bind_eq_ok_iff.mp hpropose
  obtain ⟨_, hrefresh, hpropose⟩ := bind_eq_ok_iff.mp hpropose
  obtain ⟨⟨⟩, -, hpropose⟩ := bind_eq_ok_iff.mp hpropose
  obtain ⟨htaken, hpropose⟩ := refuseIf_bind_eq_ok.mp hpropose
  cases hpropose
  rw [Bool.not_eq_false'] at htaken
  have hall := (foldlM_ends (I := fun done t => Grafting current remote done t ∧
      ∀ id ∈ done, Agrees current remote id) (E := fun _ => True) ⟨.start, fun _ hid => nomatch hid⟩
    fun done id t _ ht => ⟨fun next hnext => ?_, fun _ _ => trivial⟩).1 t himport
  · exact ⟨hall.1.refreshed (orImportInvalid_eq_ok.mp hrefresh) htaken,
      fun id hid => hall.2 id (ExtTreeSet.mem_toList.mpr hid)⟩
  · obtain ⟨hgrafting, hagrees⟩ := importRecord_eq_ok h ht.1 ht.2 hnext
    exact ⟨hgrafting, List.forall_mem_append.mpr ⟨ht.2, List.forall_mem_singleton.mpr hagrees⟩⟩

/-- What the current manifest has in the closure stays as it is. -/
theorem Grafted.sameAt (h : Grafted blake3 current remote closure proposed)
    (hcurrent : ValidManifest blake3 current) (hin : id ∈ closure)
    (hagrees : Agrees current remote id) (hknown : id ∈ current.assets ∨ id ∈ current.packs) :
    SameAt current proposed id := by
  have hproposed := validate_eq_ok.mp h.valid
  obtain ⟨hassets, hpacks⟩ := h.taken id hin
  rcases hknown with hasset | hpack
  · have hnot : id ∉ current.packs := fun hpack => hcurrent.notAsset hpack hasset
    obtain ⟨asset, hasset⟩ := OrdMap.mem_iff_getElem?.mp hasset
    have hsame := hagrees.1 asset hasset
    rw [hassets] at hsame
    refine ⟨hsame.trans hasset.symm, ?_⟩
    rw [OrdMap.getElem?_eq_none.mpr hnot, OrdMap.getElem?_eq_none]
    exact fun hpack => hproposed.notAsset hpack (OrdMap.mem_iff_getElem?.mpr ⟨asset, hsame⟩)
  · have hnot := hcurrent.notAsset hpack
    obtain ⟨pack, hpack⟩ := OrdMap.mem_iff_getElem?.mp hpack
    have hsame := hagrees.2 pack hpack
    rw [hpacks] at hsame
    refine ⟨?_, hsame.trans hpack.symm⟩
    rw [OrdMap.getElem?_eq_none.mpr hnot, OrdMap.getElem?_eq_none]
    exact hproposed.notAsset (OrdMap.mem_iff_getElem?.mpr ⟨pack, hsame⟩)

/-- What an import makes of the current manifest, from the assets and packs selected in a remote
one. -/
structure ExactImport (blake3 : Bytes → Digest) (current remote : EnvironmentManifest)
    (selected : OrdSet AssetId) (proposed : EnvironmentManifest) : Prop where
  known : ∀ root ∈ selected, root ∈ remote.assets ∨ root ∈ remote.packs
  valid : proposed.validate blake3 = .ok ()
  assets : ∀ (id : AssetId) (asset : Asset), current.assets[id]? = some asset →
    proposed.assets[id]? = some asset
  packs : ∀ (id : AssetId) (pack : Pack), current.packs[id]? = some pack →
    proposed.packs[id]? = some pack
  profiles : proposed.profiles = current.profiles
  addedAssets : ∀ id ∉ current.assets, ∀ asset : Asset, proposed.assets[id]? = some asset ↔
    InSelection remote selected id ∧ remote.assets[id]? = some asset
  addedPacks : ∀ id ∉ current.packs, ∀ pack : Pack, proposed.packs[id]? = some pack ↔
    InSelection remote selected id ∧ remote.packs[id]? = some pack
  bindings : ∀ name, name ∈ proposed.requiredBindings ↔ name ∈ current.requiredBindings ∨
    ∃ id, InSelection remote selected id ∧ RecordRequires remote id name

theorem Grafted.exactImport (h : Grafted blake3 current remote closure proposed)
    (hcurrent : ValidManifest blake3 current)
    (hknown : ∀ root ∈ selected, root ∈ remote.assets ∨ root ∈ remote.packs)
    (hclosure : ∀ id, id ∈ closure ↔ InSelection remote selected id)
    (hagrees : ∀ id ∈ closure, Agrees current remote id) :
    ExactImport blake3 current remote selected proposed where
  known := hknown
  valid := h.valid
  assets id asset hasset := by
    by_cases hin : id ∈ closure
    · rw [(h.sameAt hcurrent hin (hagrees id hin) (.inl
        (OrdMap.mem_iff_getElem?.mpr ⟨asset, hasset⟩))).1, hasset]
    · rw [h.assets id hin, hasset]
  packs id pack hpack := by
    have hid : id ∈ current.packs := OrdMap.mem_iff_getElem?.mpr ⟨pack, hpack⟩
    by_cases hin : id ∈ closure
    · rw [(h.sameAt hcurrent hin (hagrees id hin) (.inr hid)).2, hpack]
    · rw [h.unchanged hcurrent hid hin fun member hleads hmember =>
        h.sameAt hcurrent hmember (hagrees member hmember) (hcurrent.leadsTo hleads), hpack]
  profiles := h.profiles
  addedAssets id hnot asset := by
    rw [← hclosure]
    by_cases hin : id ∈ closure
    · rw [(h.taken id hin).1, and_iff_right hin]
    · rw [h.assets id hin, OrdMap.getElem?_eq_none.mpr hnot]
      exact iff_of_false nofun fun hasset => hin hasset.1
  addedPacks id hnot pack := by
    rw [← hclosure]
    by_cases hin : id ∈ closure
    · rw [(h.taken id hin).2, and_iff_right hin]
    · have hnone := h.packs id hin
      rw [OrdMap.getElem?_eq_none.mpr hnot, Option.map_none, Option.map_eq_none_iff] at hnone
      rw [hnone]
      exact iff_of_false nofun fun hpack => hin hpack.1
  bindings name := by
    rw [h.bindings]
    simp only [hclosure]

end Imports

section Again

variable {blake3 : Bytes → Digest} {codec : AuthorityCodec} {m remote : EnvironmentManifest}
  {closure : OrdSet AssetId} {id : AssetId}

theorem union_eq_self {s t : OrdSet BindingName} (h : ∀ name ∈ t, name ∈ s) : s ∪ t = s := by
  refine ExtTreeSet.ext_mem fun name => ?_
  rw [ExtTreeSet.mem_union_iff]
  exact or_iff_left_of_imp (h name)

theorem insert_eq_self {V : Type} {records : OrdMap AssetId V} {v : V}
    (h : records[id]? = some v) : records.insert id v = records := by
  refine ExtTreeMap.ext_getElem? fun k => ?_
  rw [ExtTreeMap.getElem?_insert]
  split
  · rename_i heq
    rw [← LawfulEqCmp.eq_of_compare heq, h]
  · rfl

/-- A record that is there already is copied without effect. -/
theorem importRecord_self (h : ValidManifest blake3 m) (hremote : ValidManifest blake3 remote)
    (hid : id ∈ remote.assets ∨ id ∈ remote.packs)
    (hassets : remote.assets[id]? = m.assets[id]?) (hpacks : remote.packs[id]? = m.packs[id]?) :
    importRecord remote m id = .ok m := by
  unfold importRecord
  cases hasset : remote.assets[id]? with
  | some asset =>
    have hin : id ∈ remote.assets := OrdMap.mem_iff_getElem?.mpr ⟨asset, hasset⟩
    rw [hasset] at hassets
    have hnot : m.packs.contains id = false := by
      rw [← Bool.not_eq_true, ExtTreeMap.contains_iff_mem, ← OrdMap.getElem?_eq_none, ← hpacks,
        OrdMap.getElem?_eq_none]
      exact fun hpack => hremote.notAsset hpack hin
    have hself : m.graftAsset id asset = m := by
      unfold EnvironmentManifest.graftAsset
      rw [insert_eq_self hassets.symm, union_eq_self (h.asset hassets.symm).requiredBindings]
    refine refuseIf_bind_eq_ok.mpr ⟨?_, pure_eq_ok_iff.mpr hself⟩
    rw [hnot, ← hassets]
    simp
  | none =>
    have hin := hid.resolve_left (OrdMap.getElem?_eq_none.mp hasset)
    obtain ⟨pack, hpack⟩ := OrdMap.mem_iff_getElem?.mp hin
    rw [hpack] at hpacks
    have hnot : m.assets.contains id = false := by
      rw [← Bool.not_eq_true, ExtTreeMap.contains_iff_mem, ← OrdMap.getElem?_eq_none, ← hassets]
      exact hasset
    have hself : m.graftPack id pack = m := by
      unfold EnvironmentManifest.graftPack
      rw [insert_eq_self hpacks.symm, union_eq_self (h.packs id pack hpacks.symm).requiredBindings]
    rw [hpack]
    refine refuseIf_bind_eq_ok.mpr ⟨?_, pure_eq_ok_iff.mpr hself⟩
    rw [hnot, ← hpacks]
    simp

/-- An import of what a manifest has proposes the manifest. -/
theorem proposeImport_self (h : m.validate blake3 = .ok ()) (hremote : ValidManifest blake3 remote)
    (hclosure : ∀ id ∈ closure, id ∈ remote.assets ∨ id ∈ remote.packs)
    (htaken : hasClosure remote m closure = true) :
    proposeImport blake3 m remote closure = .ok m := by
  have hrecords : ∀ ids : List AssetId, (∀ id ∈ ids, id ∈ closure) →
      ids.foldlM (importRecord remote) m = .ok m := by
    intro ids hids
    induction ids with
    | nil => rfl
    | cons id ids ih =>
      obtain ⟨hid, hids⟩ := List.forall_mem_cons.mp hids
      obtain ⟨hassets, hpacks⟩ := hasClosure_iff.mp htaken id hid
      rw [List.foldlM_cons,
        importRecord_self (validate_eq_ok.mp h) hremote (hclosure id hid) hassets hpacks]
      exact ih hids
  unfold proposeImport
  rw [hrecords _ fun id hid => ExtTreeSet.mem_toList.mp hid]
  refine bind_eq_ok_iff.mpr ⟨m, rfl, bind_eq_ok_iff.mpr ⟨m, ?_, bind_eq_ok_iff.mpr ⟨⟨⟩, ?_, ?_⟩⟩⟩
  · exact orImportInvalid_eq_ok.mpr (refreshPackRevisions_self h)
  · exact orImportInvalid_eq_ok.mpr h
  · rw [htaken]
    rfl

theorem packGraftPlanDigest_ok {domain : Bytes} {selection digest : ContentHash}
    {base proposed : Revision} {lock : Lockfile} {objects : OrdSet ObjectDescriptor}
    {affected : OrdMap AssetId PackRevisionChange}
    (h : packGraftPlanDigest blake3 codec domain selection base proposed lock objects affected =
      .ok digest) (base' : Revision) :
    ∃ digest', packGraftPlanDigest blake3 codec domain selection base' proposed lock objects
      affected = .ok digest' := by
  obtain ⟨text, htext, -⟩ := bind_eq_ok_iff.mp h
  exact ⟨_, bind_eq_ok_iff.mpr ⟨text, htext, rfl⟩⟩

end Again

section Exactness

/-- An import adds the selected records and what they lead to, changes nothing that was there, and
asks for the objects of what it selects; a second import changes nothing. -/
theorem import_exact (blake3 : Bytes → Digest) (codec : SnapshotCodec)
    (current : EnvironmentManifest) (history : VerifiedRemoteHistory) (selected : OrdSet AssetId)
    (plan : CollectionImportPlan)
    (h : planCollectionImport blake3 codec.toAuthorityCodec current history selected = .ok plan) :
    ∃ head, history.snapshots.head? = some head ∧
      ExactImport blake3 current head.snapshot.manifest selected plan.proposedManifest ∧
      (∀ d, d ∈ plan.requiredObjects ↔ d ∈ head.snapshot.objects ∧
        ∃ id, InSelection head.snapshot.manifest selected id ∧
          ∃ asset, head.snapshot.manifest.assets[id]? = some asset ∧ d.root ∈ assetRoots asset) ∧
      (∀ limits, Constructed blake3 codec limits head.snapshot → ∀ reference,
        (∃ d ∈ plan.requiredObjects, descriptorReference d = reference) ↔
          ∃ id, InSelection head.snapshot.manifest selected id ∧
            ∃ asset, head.snapshot.manifest.assets[id]? = some asset ∧
              reference ∈ assetReferences asset) ∧
      ∃ again, planCollectionImport blake3 codec.toAuthorityCodec plan.proposedManifest history
        selected = .ok again ∧ again.proposedManifest = plan.proposedManifest ∧
          again.requiredObjects = plan.requiredObjects := by
  obtain ⟨⟨⟩, hcurrent, h⟩ := bind_eq_ok_iff.mp h
  obtain ⟨hselected, h⟩ := refuseIf_bind_eq_ok.mp h
  cases hsnapshots : history.snapshots with
  | nil => exact absurd hsnapshots history.nonempty
  | cons head older =>
    simp only [hsnapshots] at h
    obtain ⟨⟨⟩, hremote, h⟩ := bind_eq_ok_iff.mp h
    obtain ⟨closure, hselect, h⟩ := bind_eq_ok_iff.mp h
    obtain ⟨proposed, hpropose, h⟩ := bind_eq_ok_iff.mp h
    obtain ⟨base, -, h⟩ := bind_eq_ok_iff.mp h
    obtain ⟨revision, hrevision, h⟩ := bind_eq_ok_iff.mp h
    obtain ⟨lock, hlock, h⟩ := bind_eq_ok_iff.mp h
    obtain ⟨objects, hobjects, h⟩ := bind_eq_ok_iff.mp h
    obtain ⟨digest, hdigest, h⟩ := bind_eq_ok_iff.mp h
    cases h
    have hcurrent := validate_eq_ok.mp (orImportInvalid_eq_ok.mp hcurrent)
    have hvalidRemote := validate_eq_ok.mp (orImportInvalid_eq_ok.mp hremote)
    obtain ⟨hknown, hclosure⟩ := selectClosures_eq_ok hvalidRemote hselect
    obtain ⟨hgrafted, hagrees⟩ := proposeImport_eq_ok hvalidRemote hpropose
    have hrequired := fun d => requiredSnapshotObjects_eq_ok (d := d)
      (orImportInvalid_eq_ok.mp hobjects)
    simp only [hclosure] at hrequired
    refine ⟨head, rfl, hgrafted.exactImport hcurrent hknown hclosure hagrees, hrequired, ?_, ?_⟩
    · intro limits hconstructed reference
      have hexact := hconstructed.exactCatalog
      constructor
      · rintro ⟨d, hd, rfl⟩
        obtain ⟨hd, id, hid, asset, hasset, hroot⟩ := (hrequired d).mp hd
        exact ⟨id, hid, asset, hasset, (hexact.mem_references hd hasset).mp hroot⟩
      · rintro ⟨id, hid, asset, hasset, hreference⟩
        have hin : reference ∈ objectReferences head.snapshot.manifest :=
          List.mem_flatMap.mpr ⟨asset, OrdMap.mem_values.mpr ⟨id, hasset⟩, hreference⟩
        obtain ⟨d, hd, rfl⟩ := List.mem_map.mp (hexact.references.mem_iff.mpr hin)
        have hd := ExtTreeSet.mem_toList.mp hd
        exact ⟨d, (hrequired d).mpr ⟨hd, id, hid, asset, hasset,
          (hexact.mem_references hd hasset).mpr hreference⟩, rfl⟩
    · have hagain := proposeImport_self hgrafted.valid hvalidRemote (fun id hid => by
        obtain ⟨root, -, hselectedBy⟩ := (hclosure id).mp hid
        exact hvalidRemote.selectedBy hselectedBy) (hasClosure_iff.mpr hgrafted.taken)
      obtain ⟨digest', hdigest'⟩ := packGraftPlanDigest_ok (orImportInvalid_eq_ok.mp hdigest) revision
      refine ⟨⟨objects, proposed, lock, revision, revision, digest'⟩, ?_, rfl, rfl⟩
      unfold planCollectionImport
      refine bind_eq_ok_iff.mpr ⟨⟨⟩, orImportInvalid_eq_ok.mpr hgrafted.valid, ?_⟩
      refine refuseIf_bind_eq_ok.mpr ⟨hselected, ?_⟩
      simp only [hsnapshots]
      refine bind_eq_ok_iff.mpr ⟨⟨⟩, hremote, bind_eq_ok_iff.mpr ⟨closure, hselect,
        bind_eq_ok_iff.mpr ⟨proposed, hagain, ?_⟩⟩⟩
      exact bind_eq_ok_iff.mpr ⟨revision, hrevision, bind_eq_ok_iff.mpr ⟨revision, hrevision,
        bind_eq_ok_iff.mpr ⟨lock, hlock, bind_eq_ok_iff.mpr ⟨objects, hobjects,
          bind_eq_ok_iff.mpr ⟨digest', orImportInvalid_eq_ok.mpr hdigest', rfl⟩⟩⟩⟩⟩

/-- A manifest of the asset that the inner pack of the remote head does not have. -/
def betaManifest : EnvironmentManifest where
  assets := OrdMap.mapOf [(betaId, classedAsset betaId .dataOnly)]
  packs := ∅
  profiles := ∅
  requiredBindings := ∅

def sampleImport : Option CollectionImportPlan := do
  let history ← sampleHistory [(currentRevision, classedManifest .dataOnly)]
  (planCollectionImport sumDigest revisionCodec.toAuthorityCodec betaManifest history
    {innerId}).toOption

theorem import_exact_sample : ∃ history plan head,
    planCollectionImport sumDigest revisionCodec.toAuthorityCodec betaManifest history {innerId} =
      .ok plan ∧
    history.snapshots.head? = some head ∧
    ExactImport sumDigest betaManifest head.snapshot.manifest {innerId} plan.proposedManifest ∧
    plan.proposedManifest.assets.keys = [alphaId, betaId] ∧
    plan.proposedManifest.packs.keys = [innerId] := by
  have hsample : sampleImport.map (fun plan => (plan.proposedManifest.assets.keys,
      plan.proposedManifest.packs.keys)) = some ([alphaId, betaId], [innerId]) := by decide +kernel
  obtain ⟨plan, hplan, hkeys⟩ := Option.map_eq_some_iff.mp hsample
  rw [sampleImport, Option.bind_eq_bind, Option.bind_eq_some_iff] at hplan
  obtain ⟨history, -, hplan⟩ := hplan
  have hplan := toOption_eq_some_iff.mp hplan
  obtain ⟨hassets, hpacks⟩ := Prod.mk.inj hkeys
  obtain ⟨head, hhead, hexact, -⟩ :=
    import_exact sumDigest revisionCodec betaManifest history {innerId} plan hplan
  exact ⟨history, plan, head, hplan, hhead, hexact, hassets, hpacks⟩

end Exactness

end Kitrove
