import Kitrove.Sync.Plan

/-! What a plan moves exists where it moves from. -/

namespace Kitrove

open Std Except

section Descriptors

variable {available next : AvailableObjects} {descriptors : List ObjectDescriptor}

/-- The descriptors that are available, each at its root. -/
theorem makeAvailable_eq_ok
    (h : descriptors.foldlM makeAvailable available = .ok next) :
    (∀ d ∈ descriptors, next[d.root]? = some d) ∧
      ∀ (root : PortablePath) d, available[root]? = some d → next[root]? = some d := by
  induction descriptors generalizing available with
  | nil =>
    rw [List.foldlM_nil, pure_eq_ok_iff] at h
    subst h
    exact ⟨by simp, fun _ _ h => h⟩
  | cons d descriptors ih =>
    rw [List.foldlM_cons, bind_eq_ok_iff] at h
    obtain ⟨mid, hd, hrest⟩ := h
    unfold makeAvailable at hd
    split at hd
    · contradiction
    · rename_i hfree
      cases hd
      obtain ⟨hall, hkept⟩ := ih hrest
      have hinsert : (available.insert d.root d)[d.root]? = some d := by simp
      refine ⟨List.forall_mem_cons.mpr ⟨hkept _ _ hinsert, hall⟩, fun root prior hprior => ?_⟩
      refine hkept root prior ?_
      rw [ExtTreeMap.getElem?_insert]
      split
      · rename_i he
        have he := LawfulEqCmp.eq_of_compare he
        subst he
        simp only [hprior, Option.any_some, decide_eq_true_eq, ne_eq, not_not] at hfree
        rw [hfree]
      · exact hprior

theorem selectDescriptors_eq_ok {components : List (PortablePath × ContentHash)}
    {selected result : OrdSet ObjectDescriptor}
    (h : components.foldlM (selectDescriptor available) selected = .ok result) :
    ∀ d ∈ result, d ∈ selected ∨
      ∃ component ∈ components, available[component.1]? = some d ∧ d.objectHash = component.2 := by
  induction components generalizing selected with
  | nil =>
    rw [List.foldlM_nil, pure_eq_ok_iff] at h
    subst h
    exact fun d hd => .inl hd
  | cons component components ih =>
    rw [List.foldlM_cons, bind_eq_ok_iff] at h
    obtain ⟨mid, hcomponent, hrest⟩ := h
    intro d hd
    unfold selectDescriptor at hcomponent
    split at hcomponent
    · contradiction
    · rename_i descriptor hfound
      cases hcomponent
      rw [Option.filter_eq_some_iff, decide_eq_true_eq] at hfound
      rcases ih hrest d hd with hmem | ⟨other, hother, hfrom⟩
      · rcases ExtTreeSet.mem_insert.mp hmem with he | hmem
        · have he := LawfulEqCmp.eq_of_compare he
          subst he
          exact .inr ⟨component, List.mem_cons_self, hfound⟩
        · exact .inl hmem
      · exact .inr ⟨other, List.mem_cons_of_mem _ hother, hfrom⟩

/-- A component's object is in the catalog of a snapshot. -/
theorem ExactCatalog.mem_of_component {m : EnvironmentManifest} {objects : OrdSet ObjectDescriptor}
    (h : ExactCatalog m objects) {component : PortablePath × ContentHash}
    (hcomponent : component ∈ componentObjects m) :
    ∃ d ∈ objects, d.root = component.1 ∧ d.objectHash = component.2 := by
  have hreference : ∃ kind, (component.1, kind, component.2) ∈ objectReferences m := by
    obtain ⟨asset, hasset, hmem⟩ := List.mem_flatMap.mp hcomponent
    rcases List.mem_append.mp hmem with hmem | hmem
    · obtain ⟨portable, hportable, rfl⟩ := List.mem_map.mp hmem
      exact ⟨_, List.mem_flatMap.mpr ⟨asset, hasset,
        List.mem_append_left _ (List.mem_map.mpr ⟨portable, hportable, rfl⟩)⟩⟩
    · obtain ⟨variant, hvariant, rfl⟩ := List.mem_map.mp hmem
      exact ⟨_, List.mem_flatMap.mpr ⟨asset, hasset,
        List.mem_append_right _ (List.mem_map.mpr ⟨variant, hvariant, rfl⟩)⟩⟩
  obtain ⟨kind, hmem⟩ := hreference
  obtain ⟨d, hd, he⟩ := List.mem_map.mp (h.references.mem_iff.mpr hmem)
  rw [descriptorReference, Prod.mk.injEq, Prod.mk.injEq] at he
  exact ⟨d, ExtTreeSet.mem_toList.mp hd, he.1, he.2.2⟩

variable {blake3 : Bytes → Digest} {base here there merged : EnvironmentManifest}

/-- Each component of what was merged is a component of one of the two sides. -/
theorem ExactMerge.componentObjects (h : ExactMerge blake3 base here there merged)
    {component : PortablePath × ContentHash}
    (hcomponent : component ∈ Kitrove.componentObjects merged) :
    component ∈ Kitrove.componentObjects here ∨ component ∈ Kitrove.componentObjects there := by
  have hside : ∀ (id : AssetId) (side : Asset),
      component ∈ (side.portable.toList.map fun portable => (portable.root, portable.objectHash)) ++
        side.nativeVariants.values.map (fun variant => (variant.root, variant.objectHash)) →
      here.assets[id]? = some side ∨ there.assets[id]? = some side →
      component ∈ Kitrove.componentObjects here ∨ component ∈ Kitrove.componentObjects there := by
    intro id side hmem hside
    refine hside.imp (fun hget => ?_) fun hget => ?_
    · exact List.mem_flatMap.mpr ⟨side, OrdMap.mem_values.mpr ⟨id, hget⟩, hmem⟩
    · exact List.mem_flatMap.mpr ⟨side, OrdMap.mem_values.mpr ⟨id, hget⟩, hmem⟩
  obtain ⟨asset, hasset, hmem⟩ := List.mem_flatMap.mp hcomponent
  obtain ⟨id, hget⟩ := OrdMap.mem_values.mp hasset
  obtain ⟨⟨side, hsideGet, hportable⟩, hnative⟩ := h.live hget
  rcases List.mem_append.mp hmem with hmem | hmem
  · rw [hportable] at hmem
    exact hside id side (List.mem_append_left _ hmem) hsideGet
  · obtain ⟨variant, hvariant, rfl⟩ := List.mem_map.mp hmem
    obtain ⟨harness, hvariant⟩ := OrdMap.mem_values.mp hvariant
    obtain ⟨side, hsideGet, hsame⟩ := hnative harness
    rw [Asset.nativeAt, Asset.nativeAt, hvariant, Option.map_some, eq_comm,
      Option.map_eq_some_iff] at hsame
    obtain ⟨own, hown, hsame⟩ := hsame
    refine hside id side (List.mem_append_right _ (List.mem_map.mpr ⟨own,
      OrdMap.mem_values.mpr ⟨harness, hown⟩, ?_⟩)) hsideGet
    have hroot := congrArg NativeVariant.root hsame
    have hhash := congrArg NativeVariant.objectHash hsame
    exact Prod.ext hroot hhash

end Descriptors

section Plans

variable {blake3 : Bytes → Digest} {codec : SnapshotCodec}
  {encodeDescriptor : ObjectDescriptor → Option Bytes} {analysis : ObjectAnalysis}
  {objects : VerifiedSkillObjectCatalog} {capabilities : TierOneCapabilities}
  {here : PortableSnapshot} {base : Option SyncBaseInput} {remote : RemoteSnapshot}
  {limits hereLimits : SyncLimits} {plan : SyncPlan}

def SyncPlan.remoteObjects (plan : SyncPlan) : OrdSet ObjectDescriptor :=
  (plan.remoteSnapshot.map PortableSnapshot.objects).getD ∅

/-- What the disposition of a plan says of the identities of its snapshots. -/
structure Disposed (disposition : SyncDisposition) (here : PortableSnapshot)
    (remote : Option PortableSnapshot) (merged : PortableSnapshot) : Prop where
  publish : disposition = .publish → merged.snapshotDigest = here.snapshotDigest
  receive : disposition = .receive →
    ∃ r, remote = some r ∧ merged.snapshotDigest = r.snapshotDigest
  same : disposition = .unchanged ∨ disposition = .establishBase →
    merged.snapshotDigest = here.snapshotDigest ∧
      ∃ r, remote = some r ∧ merged.snapshotDigest = r.snapshotDigest

theorem disposed_dispositionOf {remote merged : PortableSnapshot} :
    Disposed (dispositionOf here remote merged) here (some remote) merged := by
  unfold dispositionOf
  by_cases hh : here.snapshotDigest = merged.snapshotDigest <;>
    by_cases hr : remote.snapshotDigest = merged.snapshotDigest <;>
    simp only [hh, hr, ne_eq, not_true_eq_false, not_false_eq_true, decide_true, decide_false] <;>
    exact ⟨by simp [hh], by simp [hr], by simp [hh, hr]⟩

/-- A merged snapshot is canonical, and its objects are on the two sides. -/
structure Merges (blake3 : Bytes → Digest) (codec : SnapshotCodec) (here : PortableSnapshot)
    (remote : Option PortableSnapshot) (merged : PortableSnapshot) : Prop where
  canonical : Canonical blake3 codec merged
  within : ∃ limits text, WithinLimits codec merged limits text
  objects : ∀ d ∈ merged.objects, d ∈ here.objects ∨ ∃ r, remote = some r ∧ d ∈ r.objects

theorem Constructed.merges (h : Constructed blake3 codec limits here)
    {remote : Option PortableSnapshot} : Merges blake3 codec here remote here :=
  ⟨h.canonical.1, ⟨limits, h.canonical.2⟩, fun _ hd => .inl hd⟩

theorem planBootstrap_eq_ok {remote : Option PortableSnapshot} {merged : PortableSnapshot}
    {disposition : SyncDisposition} (hhere : Constructed blake3 codec hereLimits here)
    (hremote : ∀ r, remote = some r → ∃ limits, Constructed blake3 codec limits r)
    (h : planBootstrap here remote = .ok (.ok (merged, disposition))) :
    Merges blake3 codec here remote merged ∧ Disposed disposition here remote merged := by
  unfold planBootstrap at h
  split at h
  · split at h
    · contradiction
    · cases h
      exact ⟨hhere.merges, ⟨fun _ => rfl, by simp, by simp⟩⟩
  · rename_i r
    obtain ⟨limits, hr⟩ := hremote r rfl
    split at h
    · cases h
      exact ⟨⟨hr.canonical.1, ⟨limits, hr.canonical.2⟩, fun d hd => .inr ⟨_, rfl, hd⟩⟩,
        ⟨by simp, fun _ => ⟨_, rfl, rfl⟩, by simp⟩⟩
    · split at h
      · rename_i hsame
        cases h
        exact ⟨hhere.merges, ⟨by simp, by simp, fun _ => ⟨rfl, r, rfl, hsame.symm⟩⟩⟩
      · simp at h

theorem Constructed.exactCatalog (h : Constructed blake3 codec limits here) :
    ExactCatalog here.manifest here.objects := by
  obtain ⟨-, text, hwithin⟩ := h.canonical
  exact validateObjectCatalog_exact hwithin.catalog

theorem planMerge_eq_ok {base : SyncBaseInput} {merged : PortableSnapshot}
    {disposition : SyncDisposition} (hhere : Constructed blake3 codec hereLimits here)
    (hremote : ∀ r, remote.snapshot = some r → ∃ limits, Constructed blake3 codec limits r)
    (h : planMerge blake3 codec analysis objects capabilities here base remote limits =
      .ok (.ok (merged, disposition))) :
    Merges blake3 codec here remote.snapshot merged ∧
      Disposed disposition here remote.snapshot merged := by
  unfold planMerge at h
  cases hsnapshot : remote.snapshot with
  | none => simp [hsnapshot] at h
  | some snapshot =>
    obtain ⟨remoteLimits, hr⟩ := hremote snapshot hsnapshot
    simp only [hsnapshot] at h
    obtain ⟨-, h⟩ := refuseIf_bind_eq_ok.mp h
    obtain ⟨result, hresult, h⟩ := bind_eq_ok_iff.mp h
    cases result with
    | conflicted conflicts => simp [pure_eq_ok_iff] at h
    | merged manifest lock =>
      obtain ⟨descriptors, hdescriptors, h⟩ := bind_eq_ok_iff.mp h
      obtain ⟨built, hbuilt, h⟩ := bind_eq_ok_iff.mp h
      rw [pure_eq_ok_iff, Except.ok.injEq, Prod.mk.injEq] at h
      obtain ⟨rfl, rfl⟩ := h
      refine ⟨?_, disposed_dispositionOf⟩
      have hmerge : mergeManifests blake3 analysis objects capabilities base.snapshot.manifest
          here.manifest snapshot.manifest limits = .ok (.merged manifest lock) := by
        cases hm : mergeManifests blake3 analysis objects capabilities base.snapshot.manifest
            here.manifest snapshot.manifest limits with
        | error e => simp [hm, orInvalidPlan, Except.mapError] at hresult
        | ok r => simpa [hm, orInvalidPlan, Except.mapError] using hresult
      have hnew : PortableSnapshot.new blake3 codec manifest descriptors limits = .ok built := by
        cases hn : PortableSnapshot.new blake3 codec manifest descriptors limits with
        | error e => simp [hn, orInvalidPlan, Except.mapError] at hbuilt
        | ok r => simpa [hn, orInvalidPlan, Except.mapError] using hbuilt
      obtain ⟨-, hobjects, hcanonical, text, hwithin⟩ := new_eq_ok.mp hnew
      refine ⟨hcanonical, ⟨limits, text, hwithin⟩, fun d hd => ?_⟩
      rw [hobjects] at hd
      obtain ⟨available, havailable, hselected⟩ := bind_eq_ok_iff.mp hdescriptors
      rcases selectDescriptors_eq_ok hselected d hd with hd | ⟨component, hcomponent, hget, -⟩
      · exact absurd hd ExtTreeSet.not_mem_empty
      have hfound : ∀ s ∈ [here, base.snapshot, snapshot], ∀ other ∈ s.objects,
          other.root = component.1 → d = other := by
        intro s hs other hother hroot
        have hsame := (makeAvailable_eq_ok havailable).1 other
          (List.mem_flatMap.mpr ⟨s, hs, ExtTreeSet.mem_toList.mpr hother⟩)
        rw [hroot, hget] at hsame
        exact Option.some.inj hsame
      rcases (mergeManifests_exact hmerge).componentObjects hcomponent with hside | hside
      · obtain ⟨other, hother, hroot, -⟩ := hhere.exactCatalog.mem_of_component hside
        rw [hfound here (by simp) other hother hroot]
        exact .inl hother
      · obtain ⟨other, hother, hroot, -⟩ := hr.exactCatalog.mem_of_component hside
        rw [hfound snapshot (by simp) other hother hroot]
        exact .inr ⟨snapshot, rfl, hother⟩

/-- Two snapshots whose digest preimages are not a collision of the hash. -/
def Distinguished (blake3 : Bytes → Digest) (a b : PortableSnapshot) : Prop :=
  blake3 a.preimage = blake3 b.preimage → a.preimage = b.preimage

theorem snapshotDigest_injective (hcodec : codec.Lawful) {a b : PortableSnapshot}
    {aLimits bLimits : SyncLimits} {aText bText : Bytes} (ha : Canonical blake3 codec a)
    (hb : Canonical blake3 codec b) (hwa : WithinLimits codec a aLimits aText)
    (hwb : WithinLimits codec b bLimits bText) (hab : Distinguished blake3 a b)
    (h : a.snapshotDigest = b.snapshotDigest) : a = b := by
  rw [ha.snapshotDigest, hb.snapshotDigest] at h
  have hhex := List.append_cancel_left (congrArg Name.bytes h)
  have hdigest : blake3 a.preimage = blake3 b.preimage := by
    cases hx : blake3 a.preimage
    cases hy : blake3 b.preimage
    rw [hx, hy] at hhex
    simpa using hhex
  obtain ⟨hm, ho⟩ := preimage_injective hcodec ha hb hwa hwb (hab hdigest)
  exact snapshot_eq ha hb hm ho

/-- What a plan moves exists where it moves from, and its disposition is what it says. -/
structure SafeTransfer (plan : SyncPlan) : Prop where
  upload : ∀ d, d ∈ plan.upload ↔ d ∈ plan.merged.objects ∧ d ∉ plan.remoteObjects
  uploadFrom : ∀ d ∈ plan.upload, d ∈ plan.here.objects
  download : ∀ d, d ∈ plan.download ↔ d ∈ plan.merged.objects ∧ d ∉ plan.here.objects
  downloadFrom : ∀ d ∈ plan.download, d ∈ plan.remoteObjects
  publish : plan.disposition = .publish → plan.merged = plan.here
  receive : plan.disposition = .receive → plan.remoteSnapshot = some plan.merged
  same : plan.disposition = .unchanged ∨ plan.disposition = .establishBase →
    plan.merged.snapshotDigest = plan.here.snapshotDigest ∧
      ∃ r, plan.remoteSnapshot = some r ∧ plan.merged.snapshotDigest = r.snapshotDigest

end Plans

section Sample

def sampleSnapshot : Except SnapshotError PortableSnapshot :=
  PortableSnapshot.new (fun _ => zeroDigest) sampleCodec emptyManifest ∅ .default

def sampleRevision : RemoteRevision := ⟨ascii "fs:1", by decide +kernel, by decide +kernel⟩

/-- Synchronizes a snapshot with itself. -/
def selfSyncPlan (s : PortableSnapshot) : Option SyncPlan :=
  match planSync (fun _ => zeroDigest) sampleCodec (fun _ => none) sampleAnalysis sampleObjects
      sampleCapabilities s (some ⟨s, sampleRevision⟩) ⟨sampleRevision, some s⟩ .default with
  | .ok (.ready plan) => some plan
  | _ => none

end Sample

end Kitrove
