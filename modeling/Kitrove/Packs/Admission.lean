import Kitrove.Packs.Validity

/-! The depth and the cycles that a manifest and its lockfile admit. -/

namespace Kitrove

open Std Graph Except

section Lockfile

variable {blake3 : Bytes → Digest} {l : Lockfile} {m : EnvironmentManifest}

theorem validateGraphDepth_iff_admissible {P : Type} {packs : OrdMap AssetId P}
    {members : P → OrdMap AssetId ContentHash} {depthError cycleError : ValidationError}
    {ids : List AssetId} (hids : ∀ id, id ∈ ids ↔ id ∈ packs) :
    validateGraphDepth (nestedMembers packs members) depthError cycleError ids = .ok () ↔
      Admissible packs members := by
  rw [validateGraphDepth_eq_ok, admissible_iff]
  simp only [hids]

/-- A lockfile is valid when its records are and its graph is admissible. -/
theorem lockfile_validate_eq_ok : l.validate blake3 = .ok () ↔
    l.assets.toList.forM (validateLockedAsset blake3) = .ok () ∧
      (l.packs.values.map fun pack => pack.members.size).sum ≤ maxPackMemberEdges ∧
      l.packs.toList.forM (validateLockedPack blake3 l) = .ok () ∧
      Admissible l.packs LockedPack.members := by
  have hdepth := @validateGraphDepth_iff_admissible _ l.packs LockedPack.members
    lockedPackDepthExceeded lockedPackCycle l.packs.keys fun _ => ExtTreeMap.mem_keys
  have hcycles : Admissible l.packs LockedPack.members →
      rejectCycles (nestedLockedPacks l) lockedPackDepthExceeded lockedPackCycleReaches
        l.packs.keys = .ok () := fun h =>
    rejectCycles_eq_ok fun id hid => admissible_iff.mp h id (ExtTreeMap.mem_keys.mp hid)
  unfold Lockfile.validate
  constructor
  · intro h
    obtain ⟨⟨⟩, hassets, h⟩ := bind_eq_ok_iff.mp h
    obtain ⟨hbudget, h⟩ := refuseIf_bind_eq_ok.mp h
    obtain ⟨⟨⟩, hpacks, h⟩ := bind_eq_ok_iff.mp h
    obtain ⟨⟨⟩, hheights, -⟩ := bind_eq_ok_iff.mp h
    rw [decide_eq_false_iff_not, gt_iff_lt, Nat.not_lt] at hbudget
    exact ⟨hassets, hbudget, hpacks, hdepth.mp hheights⟩
  · rintro ⟨hassets, hbudget, hpacks, hadmissible⟩
    rw [hassets, hpacks, hcycles hadmissible]
    refine bind_eq_ok_iff.mpr ⟨⟨⟩, rfl, refuseIf_bind_eq_ok.mpr ⟨?_, ?_⟩⟩
    · rw [decide_eq_false_iff_not, gt_iff_lt, Nat.not_lt]
      exact hbudget
    · exact bind_eq_ok_iff.mpr ⟨⟨⟩, rfl, bind_eq_ok_iff.mpr ⟨⟨⟩, hdepth.mpr hadmissible, rfl⟩⟩

end Lockfile

section Derivation

variable {blake3 : Bytes → Digest} {m : EnvironmentManifest} {id : AssetId}

/-- What `deriveLockfile` makes of a valid manifest. -/
def lockfileOf (m : EnvironmentManifest) : Lockfile where
  assets := m.assets.map fun _ asset => asset.locked
  packs := m.packs.map fun _ pack => pack.locked

theorem mem_lockedProvenance {asset : Asset} {provenance : ProvenanceId} :
    provenance ∈ asset.locked.portableProvenance.toList ++ asset.locked.nativeProvenance.values ↔
      provenance ∈ referencedProvenance asset.portable asset.nativeVariants := by
  have hvalues : asset.locked.nativeProvenance.values =
      asset.nativeVariants.values.map NativeVariant.provenance := OrdMap.values_map
  rw [referencedProvenance, OrdMap.mem_setOf, hvalues]
  rfl

theorem validateLockedAsset_locked {asset : Asset} (h : ValidAsset blake3 m id asset) :
    validateLockedAsset blake3 (id, asset.locked) = .ok () := by
  have hreferenced : ∀ provenance, provenance ∈ asset.locked.portableProvenance.toList ++
      asset.locked.nativeProvenance.values ↔ provenance ∈ asset.provenance := fun provenance =>
    mem_lockedProvenance.trans (h.provenance provenance).symm
  unfold validateLockedAsset
  dsimp only
  rw [refuseIf_bind_eq_ok, refuseIf_bind_eq_ok, refuseIf_bind_eq_ok, refuseIf_eq_ok]
  refine ⟨?_, ?_, ?_, ?_⟩
  · rw [decide_eq_false_iff_not, ne_eq, not_not]
    exact h.id.symm
  · rw [decide_eq_false_iff_not]
    exact h.kind
  · rw [List.any_eq_false]
    intro provenance hprovenance
    rw [Bool.not_eq_true', Bool.not_eq_false, ExtTreeMap.contains_iff_mem]
    exact (hreferenced provenance).mp hprovenance
  · rw [List.any_eq_false]
    rintro ⟨provenance, record⟩ hrecord
    have hget := ExtTreeMap.mem_toList_iff_getElem?_eq_some.mp hrecord
    have hmem := (hreferenced provenance).mpr (OrdMap.mem_iff_getElem?.mpr ⟨record, hget⟩)
    have hid := h.provenanceId provenance record hget
    simp only [Bool.or_eq_true, decide_eq_true_eq, Bool.not_eq_true', not_or, ne_eq, not_not,
      Bool.not_eq_false, List.contains_iff_mem]
    exact ⟨hid.symm, hmem⟩

theorem validateLockedPack_locked {pack : Pack} (h : ValidPack blake3 m id pack)
    (hderived : Derived blake3 m.assets m.packs pack) :
    validateLockedPack blake3 (lockfileOf m) (id, pack.locked) = .ok () := by
  have hclosed : Closed m.assets m.packs pack := h.known
  obtain ⟨derived, -, hself⟩ := hderived
  have hrevisions := hclosed.members_eq_iff.mp (derived_eq_self_iff.mp hself).1
  unfold validateLockedPack
  dsimp only
  rw [refuseIf_bind_eq_ok, refuseIf_bind_eq_ok, refuseIf_bind_eq_ok, refuseIf_bind_eq_ok]
  refine ⟨?_, ?_, ?_, h.nonempty, ?_⟩
  · rw [decide_eq_false_iff_not, not_and, ne_eq, not_not]
    exact h.authored
  · rw [decide_eq_false_iff_not, ne_eq, not_not]
    exact h.key.symm
  · rw [← Bool.not_eq_true, ExtTreeMap.contains_iff_mem]
    exact fun hmem => h.notAsset (ExtTreeMap.mem_map.mp hmem)
  · refine (OrdMap.forM_iff (Outcome.ok _)).mpr ?_
    rintro ⟨member, revision⟩ hmember
    have hexpected : ((lockfileOf m).assets[member]?.map LockedAsset.contentHash).or
        ((lockfileOf m).packs[member]?.map LockedPack.contentHash) =
          (memberRecord m.assets m.packs member).map PackMemberMetadata.revision := by
      rw [lockfileOf, ExtTreeMap.getElem?_map, ExtTreeMap.getElem?_map, memberRecord]
      cases m.assets[member]? with
      | some asset => rfl
      | none => cases m.packs[member]? <;> rfl
    obtain ⟨metadata, hrecord⟩ := memberRecord_isSome.mpr (hclosed member
      (OrdMap.mem_iff_getElem?.mpr ⟨revision, ExtTreeMap.mem_toList_iff_getElem?_eq_some.mp hmember⟩))
    have hrevision := hrevisions (member, revision) hmember metadata hrecord
    change validateLockedMember (lockfileOf m) (member, revision) = .ok ()
    unfold validateLockedMember
    dsimp only
    rw [hexpected, hrecord, Option.map_some, hrevision, refuseIf_bind_eq_ok, refuseIf_eq_ok]
    exact ⟨rfl, decide_eq_false (not_not.mpr rfl)⟩

theorem nests_locked {packs : PackMap} :
    Nests (packs.map fun _ pack => pack.locked) LockedPack.members = Nests packs Pack.members := by
  funext a b
  refine propext ?_
  unfold Nests
  rw [ExtTreeMap.getElem?_map, ExtTreeMap.mem_map]
  cases packs[a]? with
  | none => simp
  | some pack => simp [Pack.locked]

theorem admissible_locked {packs : PackMap} :
    Admissible (packs.map fun _ pack => pack.locked) LockedPack.members ↔
      Admissible packs Pack.members := by
  constructor
  · rintro ⟨hacyclic, hdepth⟩
    rw [nests_locked] at hacyclic hdepth
    exact ⟨hacyclic, fun chain hchain hmem =>
      hdepth chain hchain fun id hid => ExtTreeMap.mem_map.mpr (hmem id hid)⟩
  · rintro ⟨hacyclic, hdepth⟩
    rw [← nests_locked] at hacyclic hdepth
    exact ⟨hacyclic, fun chain hchain hmem =>
      hdepth chain hchain fun id hid => ExtTreeMap.mem_map.mp (hmem id hid)⟩

/-- A valid manifest always has a lockfile. -/
theorem deriveLockfile_eq_ok (h : m.validate blake3 = .ok ()) :
    deriveLockfile blake3 m = .ok (lockfileOf m) := by
  have hvalid := validate_eq_ok.mp h
  have hlock : (lockfileOf m).validate blake3 = .ok () := by
    refine lockfile_validate_eq_ok.mpr ⟨?_, ?_, ?_, admissible_locked.mpr hvalid.admissible⟩
    · refine (OrdMap.forM_iff (Outcome.ok _)).mpr ?_
      rintro ⟨id, locked⟩ hlocked
      rw [ExtTreeMap.mem_toList_iff_getElem?_eq_some, lockfileOf, ExtTreeMap.getElem?_map] at hlocked
      obtain ⟨asset, hasset, rfl⟩ := Option.map_eq_some_iff.mp hlocked
      exact validateLockedAsset_locked (hvalid.asset hasset)
    · rw [lockfileOf, OrdMap.values_map, List.map_map]
      exact hvalid.budget
    · refine (OrdMap.forM_iff (Outcome.ok _)).mpr ?_
      rintro ⟨id, locked⟩ hlocked
      rw [ExtTreeMap.mem_toList_iff_getElem?_eq_some, lockfileOf, ExtTreeMap.getElem?_map] at hlocked
      obtain ⟨pack, hpack, rfl⟩ := Option.map_eq_some_iff.mp hlocked
      exact validateLockedPack_locked (hvalid.packs id pack hpack) (hvalid.derived id pack hpack)
  unfold deriveLockfile
  rw [h]
  change (do (lockfileOf m).validate blake3; pure (lockfileOf m)) = _
  rw [hlock]
  rfl

end Derivation

section Admission

/-- The graph of the packs of a manifest, and of those of a lockfile, is accepted exactly when it
has no cycle and no chain beyond the limit; what a valid manifest locks is accepted. -/
theorem pack_graph_admission (blake3 : Bytes → Digest) :
    (∀ (packs : PackMap) (ids : List AssetId), (∀ id, id ∈ ids ↔ id ∈ packs) →
      (validateGraphDepth (nestedPacks packs) packDepthExceeded packCycle ids = .ok () ↔
        Admissible packs Pack.members)) ∧
    (∀ packs : PackMap, validatePackGraphDepth packs = .ok () ↔ Admissible packs Pack.members) ∧
    (∀ l : Lockfile, l.validate blake3 = .ok () ↔
      l.assets.toList.forM (validateLockedAsset blake3) = .ok () ∧
        (l.packs.values.map fun pack => pack.members.size).sum ≤ maxPackMemberEdges ∧
        l.packs.toList.forM (validateLockedPack blake3 l) = .ok () ∧
        Admissible l.packs LockedPack.members) ∧
    ∀ m : EnvironmentManifest, m.validate blake3 = .ok () → ∃ l, deriveLockfile blake3 m = .ok l ∧
      (Admissible l.packs LockedPack.members ↔ Admissible m.packs Pack.members) :=
  ⟨fun _ _ hids => validateGraphDepth_iff_admissible hids, fun _ => validatePackGraphDepth_eq_ok,
    fun _ => lockfile_validate_eq_ok,
    fun m h => ⟨lockfileOf m, deriveLockfile_eq_ok h, admissible_locked⟩⟩

end Admission

section Sample

def nestedDigest (_ : Bytes) : Digest := ⟨List.replicate 64 0x30, validDigest_zeros⟩

def nestedHash : ContentHash := ContentHash.ofDigest (nestedDigest [])

theorem alphaId_valid : NameKind.asset.valid (ascii "alpha") = true := by decide

theorem alphaId_bounded : (ascii "alpha").length < 2 ^ 63 := by decide

def alphaId : AssetId := ⟨ascii "alpha", alphaId_valid, alphaId_bounded⟩

theorem betaId_valid : NameKind.asset.valid (ascii "beta") = true := by decide

theorem betaId_bounded : (ascii "beta").length < 2 ^ 63 := by decide

def betaId : AssetId := ⟨ascii "beta", betaId_valid, betaId_bounded⟩

def innerId : AssetId := ⟨ascii "inner", by decide +kernel, by decide +kernel⟩

def outerId : AssetId := ⟨ascii "outer", by decide +kernel, by decide +kernel⟩

def nestedAsset (id : AssetId) (kind : AssetKind) : Asset :=
  Asset.refreshContentHash nestedDigest
    { id, kind
      contentHash := nestedHash
      provenance := ∅
      portable := none
      nativeVariants := ∅
      compatibility := ∅
      contentClass := .dataOnly
      requiredBindings := ∅ }

def nestedPack (id : AssetId) (members : List AssetId) : Pack where
  id := id
  source := .authoredPack
  revision := authoredPackRevision
  exactSourceHash := nestedHash
  contentHash := nestedHash
  members := OrdMap.mapOf (members.map fun member => (member, nestedHash))
  compatibility := ∅
  contentClass := .dataOnly
  requiredBindings := ∅

/-- A pack that has a pack and an asset, which the inner pack has too. -/
def nestedManifest : EnvironmentManifest where
  assets := OrdMap.mapOf
    [(alphaId, nestedAsset alphaId .skill), (betaId, nestedAsset betaId .command)]
  packs := OrdMap.mapOf
    [(innerId, nestedPack innerId [alphaId, betaId]), (outerId, nestedPack outerId [alphaId, innerId])]
  profiles := ∅
  requiredBindings := ∅

theorem pack_graph_admission_sample : ∃ l, deriveLockfile nestedDigest nestedManifest = .ok l ∧
    Admissible l.packs LockedPack.members := by
  obtain ⟨-, hdepth, -, hderive⟩ := pack_graph_admission nestedDigest
  have hvalid : nestedManifest.validate nestedDigest = .ok () := by decide +kernel
  have hpacks : Admissible nestedManifest.packs Pack.members :=
    (hdepth nestedManifest.packs).mp (by decide +kernel)
  obtain ⟨l, hl, hsame⟩ := hderive nestedManifest hvalid
  exact ⟨l, hl, hsame.mpr hpacks⟩

end Sample

end Kitrove
