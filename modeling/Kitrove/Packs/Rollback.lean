import Kitrove.Packs.Graft

/-! Selective rollback: one pack of an older snapshot, and what it leads to, over the current
manifest. -/

namespace Kitrove

open Std Graph Worklist Except

namespace PackRollbackError

def packMissing : PackRollbackError :=
  ⟨"pack_rollback.pack_missing", "the selected pack is absent from current remote authority"⟩

def targetMissing : PackRollbackError :=
  ⟨"pack_rollback.target_missing",
    "the selected pack revision is absent from verified older history"⟩

def targetIsCurrent : PackRollbackError :=
  ⟨"pack_rollback.target_is_current",
    "the rollback target must be older than current pack authority"⟩

def targetAmbiguous : PackRollbackError :=
  ⟨"pack_rollback.target_ambiguous",
    "the selected pack revision occurs in multiple older snapshots"⟩

def expectedCurrentMismatch : PackRollbackError :=
  ⟨"pack_rollback.expected_prior_mismatch",
    "the selected pack no longer matches --expected-prior"⟩

def manifestInvalid : PackRollbackError :=
  ⟨"pack_rollback.manifest_invalid", "pack rollback requires valid current portable authority"⟩

def identityCollision : PackRollbackError :=
  ⟨"pack_rollback.identity_collision",
    "historical pack closure collides with unrelated current authority"⟩

def executableTransition : PackRollbackError :=
  ⟨"pack_rollback.executable_transition",
    "pack rollback cannot introduce a changed executable component without explicit policy"⟩

def proposedManifestInvalid : PackRollbackError :=
  ⟨"pack_rollback.proposed_manifest_invalid",
    "the historical pack closure does not form valid selective authority"⟩

def proposedLockInvalid : PackRollbackError :=
  ⟨"pack_rollback.proposed_lock_invalid", "the generated rollback lock authority is invalid"⟩

def planInvalid : PackRollbackError :=
  ⟨"pack_rollback.plan_invalid", "the pack rollback plan identity is invalid"⟩

end PackRollbackError

section History

/-- One present snapshot and its verified backend revision. -/
structure VerifiedHistoricalSnapshot where
  revision : RemoteRevision
  snapshot : PortableSnapshot

/-- A verified linear remote history, newest first. -/
structure VerifiedRemoteHistory where
  snapshots : List VerifiedHistoricalSnapshot
  nonempty : snapshots ≠ []
  distinct : (snapshots.map VerifiedHistoricalSnapshot.revision).Nodup

def VerifiedRemoteHistory.new (snapshots : List VerifiedHistoricalSnapshot) (limits : SyncLimits) :
    Except PackRollbackError VerifiedRemoteHistory :=
  if h : snapshots ≠ [] ∧ snapshots.length ≤ limits.maxBackendHistory.toNat ∧
      (snapshots.map VerifiedHistoricalSnapshot.revision).Nodup then
    .ok ⟨snapshots, h.1, h.2.2⟩
  else .error PackRollbackError.historyInvalid

/-- Exact prior snapshot authority selected for one pack rollback. -/
structure PackRollbackSelection where
  packId : AssetId
  currentRevision : ContentHash
  targetRevision : ContentHash
  backendRevision : RemoteRevision
  snapshotDigest : SnapshotDigest
  snapshot : PortableSnapshot
  digest : ContentHash

/-- The pack of a manifest has to be there, at the revision. -/
def requirePackAt (m : EnvironmentManifest) (packId : AssetId) (revision : ContentHash)
    (missing mismatch : PackRollbackError) : Except PackRollbackError Unit :=
  match m.packs[packId]? with
  | none => throw missing
  | some pack => refuseIf (pack.contentHash ≠ revision) mismatch

variable (blake3 : Bytes → Digest)

def selectionDigest (packId : AssetId) (current target : ContentHash) (backend : RemoteRevision)
    (snapshot : SnapshotDigest) : ContentHash :=
  ContentHash.ofDigest <| blake3 <|
    ascii "kitrove-pack-rollback-selection-v1" ++ [0] ++ textRecord packId.bytes ++
      textRecord current.bytes ++ textRecord target.bytes ++ textRecord backend.bytes ++
      textRecord snapshot.bytes

/-- Selects the one older occurrence of a pack revision. -/
def selectPackRollbackSnapshot (history : VerifiedRemoteHistory) (packId : AssetId)
    (expectedCurrent targetRevision : ContentHash) :
    Except PackRollbackError PackRollbackSelection := do
  match history.snapshots with
  | [] => throw PackRollbackError.historyInvalid
  | current :: older =>
    requirePackAt current.snapshot.manifest packId expectedCurrent PackRollbackError.packMissing
      PackRollbackError.expectedCurrentMismatch
    refuseIf (targetRevision = expectedCurrent) PackRollbackError.targetIsCurrent
    match older.filter fun candidate => candidate.snapshot.manifest.packs[packId]?.any fun pack =>
        pack.contentHash = targetRevision with
    | [] => throw PackRollbackError.targetMissing
    | [selected] =>
      pure
        { packId, targetRevision
          currentRevision := expectedCurrent
          backendRevision := selected.revision
          snapshotDigest := selected.snapshot.snapshotDigest
          snapshot := selected.snapshot
          digest := selectionDigest blake3 packId expectedCurrent targetRevision selected.revision
            selected.snapshot.snapshotDigest }
    | _ => throw PackRollbackError.targetAmbiguous

end History

section Plan

structure PackRollbackPlan where
  selection : PackRollbackSelection
  affectedPacks : OrdMap AssetId PackRevisionChange
  requiredObjects : OrdSet ObjectDescriptor
  proposedManifest : EnvironmentManifest
  proposedLock : Lockfile
  baseManifestRevision : Revision
  proposedManifestRevision : Revision
  digest : ContentHash

/-- Copies one record of the historical closure, unless it would replace an unrelated one or bring
in something executable. -/
def restoreRecord (current historical : EnvironmentManifest) (currentClosure : OrdSet AssetId)
    (proposed : EnvironmentManifest) (id : AssetId) :
    Except PackRollbackError EnvironmentManifest :=
  match historical.assets[id]? with
  | some historicalAsset => do
    refuseIf (current.packs.contains id || (!currentClosure.contains id &&
        current.assets[id]?.any fun asset => asset ≠ historicalAsset))
      PackRollbackError.identityCollision
    refuseIf (current.assets[id]? ≠ some historicalAsset ∧
        historicalAsset.contentClass = .executable)
      PackRollbackError.executableTransition
    pure (proposed.graftAsset id historicalAsset)
  | none =>
    match historical.packs[id]? with
    | some historicalPack => do
      refuseIf (current.assets.contains id || (!currentClosure.contains id &&
          current.packs[id]?.any fun pack => pack ≠ historicalPack))
        PackRollbackError.identityCollision
      refuseIf (current.packs[id]? ≠ some historicalPack ∧
          historicalPack.contentClass = .executable)
        PackRollbackError.executableTransition
      pure (proposed.graftPack id historicalPack)
    | none => throw PackRollbackError.historyInvalid

variable (blake3 : Bytes → Digest) (codec : AuthorityCodec)

/-- The manifest that a rollback proposes, before the identities of the plan are derived. -/
def proposeRollback (current historical : EnvironmentManifest) (packId : AssetId)
    (targetRevision : ContentHash) (currentClosure historicalClosure : OrdSet AssetId) :
    Except PackRollbackError EnvironmentManifest := do
  let grafted ←
    historicalClosure.toList.foldlM (restoreRecord current historical currentClosure) current
  let proposed ← (grafted.refreshPackRevisions blake3).mapError fun _ =>
    PackRollbackError.proposedManifestInvalid
  (proposed.validate blake3).mapError fun _ => PackRollbackError.proposedManifestInvalid
  refuseIf (!hasClosure historical proposed historicalClosure)
    PackRollbackError.proposedManifestInvalid
  requirePackAt proposed packId targetRevision PackRollbackError.proposedManifestInvalid
    PackRollbackError.proposedManifestInvalid
  pure proposed

def rollbackPlanDomain : Bytes := ascii "kitrove-pack-rollback-plan-v1" ++ [0]

/-- Copies the historical closure of the selected pack into the current manifest, and nothing else
of the snapshot. -/
def planPackRollback (current : EnvironmentManifest) (selection : PackRollbackSelection) :
    Except PackRollbackError PackRollbackPlan := do
  (current.validate blake3).mapError fun _ => PackRollbackError.manifestInvalid
  let historical := selection.snapshot.manifest
  (historical.validate blake3).mapError fun _ => PackRollbackError.historyInvalid
  requirePackAt current selection.packId selection.currentRevision PackRollbackError.packMissing
    PackRollbackError.expectedCurrentMismatch
  requirePackAt historical selection.packId selection.targetRevision PackRollbackError.targetMissing
    PackRollbackError.targetMissing
  let currentClosure ← packClosure current selection.packId
  let historicalClosure ← packClosure historical selection.packId
  let proposed ← proposeRollback blake3 current historical selection.packId selection.targetRevision
    currentClosure historicalClosure
  let baseManifestRevision ← (deriveManifestRevision blake3 codec current).mapError fun _ =>
    PackRollbackError.manifestInvalid
  let proposedLock ← (deriveLockfile blake3 proposed).mapError fun _ =>
    PackRollbackError.proposedLockInvalid
  let proposedManifestRevision ← (deriveManifestRevision blake3 codec proposed).mapError fun _ =>
    PackRollbackError.proposedManifestInvalid
  let requiredObjects ← requiredSnapshotObjects selection.snapshot historicalClosure
  let affectedPacks := affectedPackRevisions current proposed
  let digest ← (packGraftPlanDigest blake3 codec rollbackPlanDomain selection.digest
    baseManifestRevision proposedManifestRevision proposedLock requiredObjects
    affectedPacks).mapError fun _ => PackRollbackError.planInvalid
  pure
    { selection, affectedPacks, requiredObjects
      proposedManifest := proposed
      proposedLock, baseManifestRevision, proposedManifestRevision, digest }

end Plan

section Selectivity

variable {blake3 : Bytes → Digest} {codec : AuthorityCodec} {current historical : EnvironmentManifest}
  {id packId : AssetId} {currentClosure historicalClosure : OrdSet AssetId}

/-- A record of the older manifest brings in nothing executable that is not there already. -/
def NothingExecutable (current historical : EnvironmentManifest) (id : AssetId) : Prop :=
  ∀ asset, historical.assets[id]? = some asset → asset.contentClass = .executable →
    current.assets[id]? = some asset

theorem restoreRecord_eq_ok (h : ValidManifest blake3 historical) {done : List AssetId}
    {t next : EnvironmentManifest} (ht : Grafting current historical done t)
    (hrestore : restoreRecord current historical currentClosure t id = .ok next) :
    Grafting current historical (done ++ [id]) next ∧ NothingExecutable current historical id := by
  unfold restoreRecord at hrestore
  cases hasset : historical.assets[id]? with
  | some asset =>
    simp only [hasset] at hrestore
    obtain ⟨-, hrestore⟩ := refuseIf_bind_eq_ok.mp hrestore
    obtain ⟨hexecutable, hrestore⟩ := refuseIf_bind_eq_ok.mp hrestore
    cases hrestore
    rw [decide_eq_false_iff_not, not_and_or, not_not] at hexecutable
    refine ⟨ht.asset hasset fun hin => h.notAsset hin (OrdMap.mem_iff_getElem?.mpr ⟨asset, hasset⟩),
      fun other hother hclass => ?_⟩
    rw [hasset] at hother
    cases hother
    exact hexecutable.resolve_right (not_not.mpr hclass)
  | none =>
    simp only [hasset] at hrestore
    cases hpack : historical.packs[id]? with
    | none =>
      simp only [hpack] at hrestore
      contradiction
    | some pack =>
      simp only [hpack] at hrestore
      obtain ⟨-, hrestore⟩ := refuseIf_bind_eq_ok.mp hrestore
      obtain ⟨-, hrestore⟩ := refuseIf_bind_eq_ok.mp hrestore
      cases hrestore
      refine ⟨ht.pack hpack (OrdMap.getElem?_eq_none.mp hasset), fun other hother => ?_⟩
      rw [hasset] at hother
      contradiction

theorem restoreRecords_eq_ok (h : ValidManifest blake3 historical) {ids : List AssetId}
    {t : EnvironmentManifest}
    (hrestore : ids.foldlM (restoreRecord current historical currentClosure) current = .ok t) :
    Grafting current historical ids t ∧ ∀ id ∈ ids, NothingExecutable current historical id := by
  refine (foldlM_ends (I := fun done t => Grafting current historical done t ∧
      ∀ id ∈ done, NothingExecutable current historical id) (E := fun _ => True)
    ⟨.start, fun _ hid => nomatch hid⟩ fun done id t _ ht => ?_).1 t hrestore
  refine ⟨fun next hnext => ?_, fun _ _ => trivial⟩
  obtain ⟨hgrafting, hexecutable⟩ := restoreRecord_eq_ok h ht.1 hnext
  exact ⟨hgrafting, List.forall_mem_append.mpr ⟨ht.2, List.forall_mem_singleton.mpr hexecutable⟩⟩

theorem proposeRollback_eq_ok (h : ValidManifest blake3 historical) {targetRevision : ContentHash}
    {proposed : EnvironmentManifest}
    (hpropose : proposeRollback blake3 current historical packId targetRevision currentClosure
      historicalClosure = .ok proposed) :
    Grafted blake3 current historical historicalClosure proposed ∧
      ∀ id ∈ historicalClosure, NothingExecutable current historical id := by
  obtain ⟨t, hrestore, hpropose⟩ := bind_eq_ok_iff.mp hpropose
  obtain ⟨_, hrefresh, hpropose⟩ := bind_eq_ok_iff.mp hpropose
  obtain ⟨⟨⟩, -, hpropose⟩ := bind_eq_ok_iff.mp hpropose
  obtain ⟨htaken, hpropose⟩ := refuseIf_bind_eq_ok.mp hpropose
  obtain ⟨⟨⟩, -, hpropose⟩ := bind_eq_ok_iff.mp hpropose
  cases hpropose
  obtain ⟨hgrafting, hexecutable⟩ := restoreRecords_eq_ok h hrestore
  have htaken' : hasClosure historical proposed historicalClosure = true := by
    rwa [Bool.not_eq_false'] at htaken
  exact ⟨hgrafting.refreshed (mapError_eq_ok_iff.mp hrefresh) htaken',
    fun id hid => hexecutable id (ExtTreeSet.mem_toList.mpr hid)⟩

/-- What a rollback of a pack makes of the current manifest. -/
structure SelectiveRollback (blake3 : Bytes → Digest) (current historical : EnvironmentManifest)
    (packId : AssetId) (proposed : EnvironmentManifest) : Prop where
  valid : proposed.validate blake3 = .ok ()
  restored : ∀ id, InClosure historical packId id →
    (id ∈ historical.assets ∨ id ∈ historical.packs) ∧ SameAt historical proposed id
  assets : ∀ id, ¬ InClosure historical packId id → proposed.assets[id]? = current.assets[id]?
  profiles : proposed.profiles = current.profiles
  packs : ∀ id, ¬ InClosure historical packId id → (id ∈ proposed.packs ↔ id ∈ current.packs) ∧
    ∀ pack, current.packs[id]? = some pack → ∃ pack', proposed.packs[id]? = some pack' ∧
      pack'.id = pack.id ∧ pack'.source = pack.source ∧ pack'.revision = pack.revision ∧
      pack'.exactSourceHash = pack.exactSourceHash ∧
      ∀ member, member ∈ pack'.members ↔ member ∈ pack.members
  unchanged : ∀ id, ¬ InClosure historical packId id → id ∈ current.packs →
    (∀ member, LeadsTo current.packs {id} member → InClosure historical packId member →
      SameAt current proposed member) → proposed.packs[id]? = current.packs[id]?
  bindings : ∀ name, name ∈ proposed.requiredBindings ↔ name ∈ current.requiredBindings ∨
    ∃ id, InClosure historical packId id ∧ RecordRequires historical id name
  executables : ∀ (id : AssetId) (asset : Asset), proposed.assets[id]? = some asset →
    asset.contentClass = .executable → current.assets[id]? = some asset

theorem Grafted.selectiveRollback {proposed : EnvironmentManifest}
    (h : Grafted blake3 current historical historicalClosure proposed)
    (hcurrent : ValidManifest blake3 current) (hhistorical : ValidManifest blake3 historical)
    (hpack : packId ∈ historical.packs)
    (hclosure : ∀ id, id ∈ historicalClosure ↔ InClosure historical packId id)
    (hexecutable : ∀ id ∈ historicalClosure, NothingExecutable current historical id) :
    SelectiveRollback blake3 current historical packId proposed where
  valid := h.valid
  restored id hid := by
    obtain ⟨hassets, hpacks⟩ := h.taken id ((hclosure id).mpr hid)
    refine ⟨?_, hassets.symm, hpacks.symm⟩
    rcases hid with rfl | hleads
    · exact .inr hpack
    · exact hhistorical.leadsTo hleads
  assets id hid := h.assets id fun hin => hid ((hclosure id).mp hin)
  profiles := h.profiles
  packs id hid := by
    have hsame := h.packs id fun hin => hid ((hclosure id).mp hin)
    constructor
    · have hsome := congrArg Option.isSome hsame
      rw [Option.isSome_map, Option.isSome_map] at hsome
      rw [OrdMap.mem_iff_getElem?, OrdMap.mem_iff_getElem?, ← Option.isSome_iff_exists, hsome,
        Option.isSome_iff_exists]
    · intro pack hget
      rw [hget, Option.map_some] at hsame
      obtain ⟨pack', hpack', hdraft⟩ := Option.map_eq_some_iff.mp hsame
      have hsource : packSource pack' = packSource pack := congrArg PackDraft.source hdraft
      unfold packSource at hsource
      simp only [PackSourceDraft.mk.injEq] at hsource
      refine ⟨pack', hpack', congrArg PackDraft.id hdraft, hsource.1, hsource.2.1, hsource.2.2,
        fun member => ?_⟩
      rw [← ExtTreeMap.mem_keys, keys_of_draftFromPack hdraft, ExtTreeMap.mem_keys]
  unchanged id hid hin hall := h.unchanged hcurrent hin (fun hin => hid ((hclosure id).mp hin))
    fun member hleads hmember => hall member hleads ((hclosure member).mp hmember)
  bindings name := by
    rw [h.bindings]
    simp only [hclosure]
  executables id asset hasset hclass := by
    by_cases hin : id ∈ historicalClosure
    · rw [← (h.taken id hin).1] at hasset
      exact hexecutable id hin asset hasset hclass
    · rwa [← h.assets id hin]

/-- A rollback of a pack brings back what the pack led to, and changes nothing else but what the
packs above it derive from it. -/
theorem rollback_selective (blake3 : Bytes → Digest) (codec : AuthorityCodec)
    (current : EnvironmentManifest) (selection : PackRollbackSelection) (plan : PackRollbackPlan)
    (h : planPackRollback blake3 codec current selection = .ok plan) :
    SelectiveRollback blake3 current selection.snapshot.manifest selection.packId
      plan.proposedManifest := by
  obtain ⟨⟨⟩, hcurrent, h⟩ := bind_eq_ok_iff.mp h
  obtain ⟨⟨⟩, hhistorical, h⟩ := bind_eq_ok_iff.mp h
  obtain ⟨⟨⟩, -, h⟩ := bind_eq_ok_iff.mp h
  obtain ⟨⟨⟩, -, h⟩ := bind_eq_ok_iff.mp h
  obtain ⟨currentClosure, -, h⟩ := bind_eq_ok_iff.mp h
  obtain ⟨historicalClosure, hclosure, h⟩ := bind_eq_ok_iff.mp h
  obtain ⟨proposed, hpropose, h⟩ := bind_eq_ok_iff.mp h
  obtain ⟨base, -, h⟩ := bind_eq_ok_iff.mp h
  obtain ⟨lock, -, h⟩ := bind_eq_ok_iff.mp h
  obtain ⟨revision, -, h⟩ := bind_eq_ok_iff.mp h
  obtain ⟨objects, -, h⟩ := bind_eq_ok_iff.mp h
  obtain ⟨digest, -, h⟩ := bind_eq_ok_iff.mp h
  cases h
  have hcurrent := validate_eq_ok.mp (mapError_eq_ok_iff.mp hcurrent)
  have hhistorical := validate_eq_ok.mp (mapError_eq_ok_iff.mp hhistorical)
  obtain ⟨hpack, hclosure⟩ := (packClosure_eq_ok hhistorical).mp hclosure
  obtain ⟨hgrafted, hexecutable⟩ := proposeRollback_eq_ok hhistorical hpropose
  exact hgrafted.selectiveRollback hcurrent hhistorical hpack hclosure hexecutable

end Selectivity

section Sample

/-- A digest of texts by the sum of their bytes. -/
def sumDigest (text : Bytes) : Digest where
  hex := List.replicate 64 (UInt8.ofNat (0x30 + (text.map UInt8.toNat).sum % 7))
  valid := by
    have hall : ∀ n < 7, validDigest (List.replicate 64 (UInt8.ofNat (0x30 + n))) = true := by
      decide +kernel
    exact hall _ (Nat.mod_lt _ (by decide))

def classedAsset (id : AssetId) (contentClass : ContentClass) : Asset :=
  Asset.refreshContentHash sumDigest { nestedAsset id .skill with contentClass }

def authoredPack (id : AssetId) (members : List AssetId) : Pack :=
  let (revision, exactSourceHash) := Pack.authoredSourceResolution sumDigest id
  { nestedPack id members with revision, exactSourceHash }

/-- An asset of one class in a pack that another pack has, and an asset beside it. -/
def classedManifest (contentClass : ContentClass) : EnvironmentManifest :=
  let stale : EnvironmentManifest :=
    { assets := OrdMap.mapOf
        [(alphaId, classedAsset alphaId contentClass), (betaId, classedAsset betaId contentClass)]
      packs := OrdMap.mapOf
        [(innerId, authoredPack innerId [alphaId]), (outerId, authoredPack outerId [betaId, innerId])]
      profiles := ∅
      requiredBindings := ∅ }
  (stale.refreshPackRevisions sumDigest).toOption.getD stale

def recordLines (records : List (AssetId × ContentHash)) : Bytes :=
  records.flatMap fun (id, hash) => id.bytes ++ ascii " = " ++ hash.bytes ++ [newline]

/-- Texts of manifests and lockfiles by the revisions of their records. -/
def revisionCodec : SnapshotCodec where
  encodeToml m := .ok (recordLines (m.assets.toList.map fun (id, asset) => (id, asset.contentHash)) ++
    recordLines (m.packs.toList.map fun (id, pack) => (id, pack.contentHash)))
  decodeToml _ := .error ⟨ascii "not a manifest", none⟩
  encodeLock l := .ok (recordLines (l.packs.toList.map fun (id, pack) => (id, pack.contentHash)))
  decodeLock _ := .error (ascii "not a lockfile")
  encodeEnvelope p := some (p.manifestToml ++ p.lockJson)
  decodeEnvelope _ := none

def sampleHistory (manifests : List (RemoteRevision × EnvironmentManifest)) :
    Option VerifiedRemoteHistory := do
  let snapshots ← manifests.mapM fun (revision, m) => do
    let snapshot ← (PortableSnapshot.new sumDigest revisionCodec m ∅ .default).toOption
    pure ⟨revision, snapshot⟩
  (VerifiedRemoteHistory.new snapshots .default).toOption

def currentRevision : RemoteRevision := ⟨ascii "test:current", by decide +kernel, by decide +kernel⟩

def olderRevision : RemoteRevision := ⟨ascii "test:older", by decide +kernel, by decide +kernel⟩

def sampleSelection : Option PackRollbackSelection := do
  let current := classedManifest .agentActive
  let older := classedManifest .dataOnly
  let history ← sampleHistory [(currentRevision, current), (olderRevision, older)]
  let currentPack ← current.packs[innerId]?
  let olderPack ← older.packs[innerId]?
  (selectPackRollbackSnapshot sumDigest history innerId currentPack.contentHash
    olderPack.contentHash).toOption

def sampleRollback : Option PackRollbackPlan := do
  let selection ← sampleSelection
  (planPackRollback sumDigest revisionCodec.toAuthorityCodec (classedManifest .agentActive)
    selection).toOption

/-- The asset of the inner pack comes back, and the outer pack is derived again. -/
theorem rollback_selective_sample : ∃ selection plan, sampleSelection = some selection ∧
    planPackRollback sumDigest revisionCodec.toAuthorityCodec (classedManifest .agentActive)
      selection = .ok plan ∧
    SelectiveRollback sumDigest (classedManifest .agentActive) selection.snapshot.manifest
      selection.packId plan.proposedManifest ∧
    plan.affectedPacks.keys = [innerId, outerId] := by
  have hsample : sampleRollback.map (fun plan => plan.affectedPacks.keys) = some [innerId, outerId] := by
    decide +kernel
  obtain ⟨plan, hplan, hkeys⟩ := Option.map_eq_some_iff.mp hsample
  rw [sampleRollback, Option.bind_eq_bind, Option.bind_eq_some_iff] at hplan
  obtain ⟨selection, hselection, hplan⟩ := hplan
  have hplan := toOption_eq_some_iff.mp hplan
  exact ⟨selection, plan, hselection, hplan, rollback_selective sumDigest
    revisionCodec.toAuthorityCodec (classedManifest .agentActive) selection plan hplan, hkeys⟩

end Sample

end Kitrove
