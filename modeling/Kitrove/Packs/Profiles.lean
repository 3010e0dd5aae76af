import Kitrove.Packs.Admission
import Kitrove.Packs.Inspection

/-! The assets and targets of a profile: what it and its ancestors select, with every pack
among it opened up to its leaf assets. -/

namespace Kitrove

open Std Graph Worklist Except

/-- The complete portable selection produced by one profile and its ancestors. -/
structure ResolvedProfile where
  profileId : ProfileId
  assets : OrdSet AssetId
  targets : OrdSet HarnessId

structure ProfileResolutionError where
  code : String
  message : String
  deriving DecidableEq

namespace ProfileResolutionError

def invalidManifest : ProfileResolutionError :=
  ⟨"profile.manifest_invalid", "profile resolution requires a valid environment manifest"⟩

def profileMissing : ProfileResolutionError :=
  ⟨"profile.missing", "the selected profile is not present in the environment"⟩

end ProfileResolutionError

section Definitions

variable (blake3 : Bytes → Digest) (m : EnvironmentManifest)

/-- Takes up a profile and then its parents. -/
def followProfiles : Nat → OrdSet ProfileId → OrdSet AssetId × OrdSet HarnessId →
    Option ProfileId → Except ProfileResolutionError (OrdSet AssetId × OrdSet HarnessId)
  | _, _, s, none => pure s
  | 0, _, _, some _ => throw .invalidManifest
  | fuel + 1, visited, s, some id =>
    if visited.contains id then throw .invalidManifest
    else
      match m.profiles[id]? with
      | none => throw .profileMissing
      | some profile =>
        followProfiles fuel (visited.insert id) (s.1 ∪ profile.assets, s.2 ∪ profile.targets)
          profile.extends'

def sortSelected (s : OrdSet AssetId × OrdSet AssetId) (id : AssetId) :
    Except ProfileResolutionError (OrdSet AssetId × OrdSet AssetId) :=
  if m.assets.contains id then pure (s.1.insert id, s.2)
  else if m.packs.contains id then pure (s.1, s.2.insert id)
  else throw .invalidManifest

/-- Resolves inherited profile selections and expands nested packs to their leaf assets. -/
def resolveProfile (id : ProfileId) : Except ProfileResolutionError ResolvedProfile := do
  (m.validate blake3).mapError fun _ => .invalidManifest
  let (selected, targets) ← followProfiles m (m.profiles.size + 1) ∅ (∅, ∅) (some id)
  let (assets, packRoots) ← selected.toList.foldlM (sortSelected m) (∅, ∅)
  let leaves ← (resolvePackAssets blake3 m packRoots).mapError fun _ => .invalidManifest
  pure ⟨id, assets ∪ leaves, targets⟩

end Definitions

section Chains

variable {blake3 : Bytes → Digest} {m : EnvironmentManifest} {id : ProfileId} {profile : Profile}

def parentProfile (m : EnvironmentManifest) (id : ProfileId) : Option ProfileId :=
  m.profiles[id]?.bind Profile.extends'

/-- The profile extends the other, directly or through others. -/
abbrev Inherits (m : EnvironmentManifest) : ProfileId → ProfileId → Prop :=
  Reaches fun id => (parentProfile m id).toList

/-- The profile's chain of parents comes to an end. -/
def Rooted (m : EnvironmentManifest) (id : ProfileId) : Prop :=
  ∃ n, Bounded (fun id => (parentProfile m id).toList) n id

theorem rooted_of_parent (h : ∀ parent ∈ parentProfile m id, Rooted m parent) : Rooted m id := by
  cases hparent : parentProfile m id with
  | none => exact ⟨1, fun b hb => by simp [hparent] at hb⟩
  | some parent =>
    obtain ⟨n, hn⟩ := h parent hparent
    refine ⟨n + 1, fun b hb => ?_⟩
    have heq : b = parent := by simpa [hparent] using hb
    rwa [heq]

theorem Rooted.not_cycle (h : Rooted m id) :
    ¬ Relation.TransGen (Edge fun id => (parentProfile m id).toList) id id := by
  obtain ⟨n, hn⟩ := h
  exact hn.not_cycle

/-- A walk that ends has come from rooted profiles only. -/
theorem walkProfiles_rooted {visited visiting walked : OrdSet ProfileId} {fuel : Nat}
    {current : Option ProfileId} (hvisited : ∀ id ∈ visited, Rooted m id)
    (h : walkProfiles m visited fuel visiting current = .ok walked) :
    (∀ id ∈ current, Rooted m id) ∧ ∀ id ∈ walked, id ∈ visiting ∨ Rooted m id := by
  induction fuel generalizing visiting current with
  | zero =>
    cases current with
    | none =>
      cases h
      exact ⟨nofun, fun id hid => .inl hid⟩
    | some id => cases h
  | succ fuel ih =>
    cases current with
    | none =>
      cases h
      exact ⟨nofun, fun id hid => .inl hid⟩
    | some id =>
      rw [walkProfiles] at h
      by_cases hknown : visited.contains id = true
      · rw [if_pos hknown] at h
        cases h
        refine ⟨?_, fun id hid => .inl hid⟩
        rintro _ ⟨⟩
        exact hvisited id (ExtTreeSet.contains_iff_mem.mp hknown)
      rw [if_neg hknown] at h
      by_cases hcycle : visiting.contains id = true
      · rw [if_pos hcycle] at h
        cases h
      rw [if_neg hcycle] at h
      obtain ⟨hparent, hwalked⟩ := ih h
      have hrooted := rooted_of_parent hparent
      refine ⟨?_, fun other hother => ?_⟩
      · rintro _ ⟨⟩
        exact hrooted
      · rcases hwalked other hother with hvisiting | hother
        · rcases mem_insert_iff.mp hvisiting with rfl | hvisiting
          · exact .inr hrooted
          · exact .inl hvisiting
        · exact .inr hother

theorem rooted_of_profiles (h : rejectProfileCycles m = .ok ()) (hid : id ∈ m.profiles) :
    Rooted m id := by
  have hloop : ∀ (roots : List ProfileId) (visited out : OrdSet ProfileId),
      (∀ id ∈ visited, Rooted m id) →
      roots.foldlM (fun visited root => do
        let visiting ← walkProfiles m visited (m.profiles.size + 1) ∅ (some root)
        pure (visited ∪ visiting)) visited = .ok out → ∀ root ∈ roots, Rooted m root := by
    intro roots
    induction roots with
    | nil => exact fun _ _ _ _ root hroot => absurd hroot List.not_mem_nil
    | cons root roots ih =>
      intro visited out hvisited hrun
      rw [List.foldlM_cons] at hrun
      obtain ⟨next, hstep, hrest⟩ := bind_eq_ok_iff.mp hrun
      obtain ⟨visiting, hwalk, hnext⟩ := bind_eq_ok_iff.mp hstep
      cases hnext
      obtain ⟨hroot, hwalked⟩ := walkProfiles_rooted hvisited hwalk
      have hboth : ∀ id ∈ visited ∪ visiting, Rooted m id := by
        intro id hmem
        rcases ExtTreeSet.mem_union_iff.mp hmem with hmem | hmem
        · exact hvisited id hmem
        · exact (hwalked id hmem).resolve_left ExtTreeSet.not_mem_empty
      intro other hother
      rcases List.mem_cons.mp hother with rfl | hother
      · exact hroot _ rfl
      · exact ih _ out hboth hrest other hother
  obtain ⟨out, hrun, -⟩ := bind_eq_ok_iff.mp h
  exact hloop _ _ out (fun _ hempty => absurd hempty ExtTreeSet.not_mem_empty) hrun id
    (ExtTreeMap.mem_keys.mpr hid)

/-- A profile whose parent and whose selection are known. -/
structure ValidProfile (m : EnvironmentManifest) (profile : Profile) : Prop where
  parent : ∀ parent ∈ profile.extends', parent ∈ m.profiles
  assets : ∀ asset ∈ profile.assets, asset ∈ m.assets ∨ asset ∈ m.packs

theorem validProfile_of_valid (h : ValidManifest blake3 m)
    (hprofile : m.profiles[id]? = some profile) : ValidProfile m profile := by
  have hchecked := (OrdMap.forM_iff (Outcome.ok _)).mp h.profiles (id, profile)
    (ExtTreeMap.mem_toList_iff_getElem?_eq_some.mpr hprofile)
  unfold Outcome.ok validateProfile at hchecked
  obtain ⟨-, hchecked⟩ := refuseIf_bind_eq_ok.mp hchecked
  have hparts : (∀ parent ∈ profile.extends', parent ∈ m.profiles) ∧
      ∀ asset ∈ profile.assets.toList,
        refuseIf (!m.assets.contains asset && !m.packs.contains asset)
          (⟨"manifest.unknown_profile_asset", ascii "profile " ++ id.bytes ++
            ascii " references unknown asset or pack " ++ asset.bytes⟩ : ValidationError) =
          .ok () := by
    cases hextends : profile.extends' with
    | none =>
      rw [hextends] at hchecked
      exact ⟨nofun, (OrdMap.forM_iff (Outcome.ok _)).mp hchecked⟩
    | some parent =>
      rw [hextends] at hchecked
      obtain ⟨hparent, hassets⟩ := refuseIf_bind_eq_ok.mp hchecked
      refine ⟨?_, (OrdMap.forM_iff (Outcome.ok _)).mp hassets⟩
      rintro _ ⟨⟩
      simpa using hparent
  refine ⟨hparts.1, fun asset hmem => ?_⟩
  have hknown := refuseIf_eq_ok.mp (hparts.2 asset (ExtTreeSet.mem_toList.mpr hmem))
  by_cases hasset : asset ∈ m.assets
  · exact .inl hasset
  · rw [← ExtTreeMap.contains_iff_mem, Bool.not_eq_true] at hasset
    rw [hasset] at hknown
    exact .inr (by simpa using hknown)

end Chains

section Resolution

variable {blake3 : Bytes → Digest} {m : EnvironmentManifest} {id : ProfileId} {asset : AssetId}
  {target : HarnessId}

/-- Some profile of the chain has the property. -/
def OnChain (m : EnvironmentManifest) (id : ProfileId) (p : Profile → Prop) : Prop :=
  ∃ ancestor profile, Inherits m id ancestor ∧ m.profiles[ancestor]? = some profile ∧ p profile

/-- The asset is selected on the chain, directly or through a chain of pack memberships. -/
def Resolves (m : EnvironmentManifest) (id : ProfileId) (asset : AssetId) : Prop :=
  asset ∈ m.assets ∧ ∃ root, OnChain m id (root ∈ ·.assets) ∧
    Relation.ReflTransGen (HasMember m.packs) root asset

/-- What holds on a chain holds of its first profile or on the chain of its parent. -/
theorem onChain_step {p : Profile → Prop} {profile : Profile}
    (hprofile : m.profiles[id]? = some profile) :
    OnChain m id p ↔ p profile ∨ ∃ parent ∈ profile.extends', OnChain m parent p := by
  have hparent : parentProfile m id = profile.extends' := by
    rw [parentProfile, hprofile, Option.bind_some]
  constructor
  · rintro ⟨ancestor, found, hextends, hfound, hp⟩
    rcases Relation.ReflTransGen.cases_head hextends with rfl | ⟨parent, hedge, hextends⟩
    · rw [hprofile, Option.some.injEq] at hfound
      exact .inl (hfound ▸ hp)
    · have hmem : parent ∈ profile.extends' := by
        rw [← hparent]
        simpa [Edge] using hedge
      exact .inr ⟨parent, hmem, ancestor, found, hextends, hfound, hp⟩
  · rintro (hp | ⟨parent, hmem, ancestor, found, hextends, hfound, hp⟩)
    · exact ⟨id, profile, .refl, hprofile, hp⟩
    · have hedge : Edge (fun id => (parentProfile m id).toList) id parent := by
        simpa [Edge, hparent] using hmem
      exact ⟨ancestor, found, hextends.head hedge, hfound, hp⟩

/-- From a known profile the walk ends within its fuel, with all that the chain selects. -/
theorem followProfiles_ok (h : ValidManifest blake3 m) {visited : OrdSet ProfileId} {fuel : Nat}
    {s : OrdSet AssetId × OrdSet HarnessId} {current : Option ProfileId}
    (hvisited : ∀ v ∈ visited, v ∈ m.profiles ∧ ∀ id ∈ current,
      Relation.TransGen (Edge fun id => (parentProfile m id).toList) v id)
    (hcurrent : ∀ id ∈ current, id ∈ m.profiles) (hfuel : m.profiles.size < visited.size + fuel) :
    ∃ out, followProfiles m fuel visited s current = .ok out ∧
      (∀ a, a ∈ out.1 ↔ a ∈ s.1 ∨ ∃ id ∈ current, OnChain m id (a ∈ ·.assets)) ∧
      ∀ t, t ∈ out.2 ↔ t ∈ s.2 ∨ ∃ id ∈ current, OnChain m id (t ∈ ·.targets) := by
  induction fuel generalizing visited s current with
  | zero =>
    have hsize : visited.size ≤ (OrdMap.keySet m.profiles).size :=
      OrdMap.size_le fun v hv => OrdMap.mem_keySet.mpr (hvisited v hv).1
    have hkeys : (OrdMap.keySet m.profiles).size ≤ m.profiles.size := by
      rw [← ExtTreeMap.length_keys]
      exact ExtTreeSet.size_ofList_le
    omega
  | succ fuel ih =>
    cases current with
    | none => exact ⟨s, rfl, fun a => by simp, fun t => by simp⟩
    | some id =>
      have hid := hcurrent id rfl
      obtain ⟨profile, hprofile⟩ := OrdMap.mem_iff_getElem?.mp hid
      have hnew : id ∉ visited := fun hv =>
        (rooted_of_profiles h.profileCycles hid).not_cycle ((hvisited id hv).2 id rfl)
      have hsize : (visited.insert id).size = visited.size + 1 := by
        rw [ExtTreeSet.size_insert, if_neg (by simpa using hnew)]
      have hstep : ∀ v ∈ visited.insert id, v ∈ m.profiles ∧ ∀ parent ∈ profile.extends',
          Relation.TransGen (Edge fun id => (parentProfile m id).toList) v parent := by
        intro v hv
        have hedge : ∀ parent ∈ profile.extends',
            Edge (fun id => (parentProfile m id).toList) id parent := by
          intro parent hparent
          simpa [Edge, parentProfile, hprofile] using hparent
        rcases mem_insert_iff.mp hv with rfl | hv
        · exact ⟨hid, fun parent hparent => .single (hedge parent hparent)⟩
        · obtain ⟨hknown, hchain⟩ := hvisited v hv
          exact ⟨hknown, fun parent hparent => (hchain id rfl).tail (hedge parent hparent)⟩
      obtain ⟨out, hout, hassets, htargets⟩ := @ih (visited.insert id)
        (s.1 ∪ profile.assets, s.2 ∪ profile.targets) profile.extends' hstep
        (validProfile_of_valid h hprofile).parent (by omega)
      refine ⟨out, ?_, fun a => ?_, fun t => ?_⟩
      · rw [followProfiles, if_neg (by simpa using hnew), hprofile]
        exact hout
      · rw [hassets, ExtTreeSet.mem_union_iff, or_assoc]
        simp [onChain_step hprofile]
      · rw [htargets, ExtTreeSet.mem_union_iff, or_assoc]
        simp [onChain_step hprofile]

theorem sortSelected_ok {selected : List AssetId} {s : OrdSet AssetId × OrdSet AssetId}
    (h : ∀ id ∈ selected, id ∈ m.assets ∨ id ∈ m.packs) :
    ∃ out, selected.foldlM (sortSelected m) s = .ok out ∧
      (∀ a, a ∈ out.1 ↔ a ∈ s.1 ∨ (a ∈ selected ∧ a ∈ m.assets)) ∧
      ∀ a, a ∈ out.2 ↔ a ∈ s.2 ∨ (a ∈ selected ∧ a ∉ m.assets) := by
  induction selected generalizing s with
  | nil => exact ⟨s, rfl, by simp, by simp⟩
  | cons id selected ih =>
    have hrest := fun other hother => h other (List.mem_cons_of_mem id hother)
    by_cases hasset : id ∈ m.assets
    · obtain ⟨out, hout, hassets, hroots⟩ := ih (s := (s.1.insert id, s.2)) hrest
      refine ⟨out, ?_, fun a => ?_, fun a => ?_⟩
      · rw [List.foldlM_cons, sortSelected, if_pos (by simpa using hasset)]
        exact hout
      · rw [hassets, mem_insert_iff, List.mem_cons]
        by_cases heq : a = id
        · simp [heq, hasset]
        · simp [heq]
      · rw [hroots, List.mem_cons]
        by_cases heq : a = id
        · simp [heq, hasset]
        · simp [heq]
    · have hpack := (h id List.mem_cons_self).resolve_left hasset
      obtain ⟨out, hout, hassets, hroots⟩ := ih (s := (s.1, s.2.insert id)) hrest
      refine ⟨out, ?_, fun a => ?_, fun a => ?_⟩
      · rw [List.foldlM_cons, sortSelected, if_neg (by simpa using hasset),
          if_pos (by simpa using hpack)]
        exact hout
      · rw [hassets, List.mem_cons]
        by_cases heq : a = id
        · simp [heq, hasset]
        · simp [heq]
      · rw [hroots, mem_insert_iff, List.mem_cons]
        by_cases heq : a = id
        · simp [heq, hasset]
        · simp [heq]

/-- A chain of memberships up to a pack goes from pack to nested pack. -/
theorem reaches_of_members {root pack : AssetId} (hpack : pack ∈ m.packs)
    (h : Relation.ReflTransGen (HasMember m.packs) root pack) :
    Reaches (nestedPacks m.packs) root pack := by
  induction h with
  | refl => exact .refl
  | @tail parent pack _ hmember ih =>
    obtain ⟨found, hfound, hmem⟩ := hmember
    refine (ih (OrdMap.mem_iff_getElem?.mpr ⟨found, hfound⟩)).tail ?_
    exact mem_nestedMembers.mpr ⟨⟨found, hfound, hmem⟩, hpack⟩

theorem members_of_reaches {root pack : AssetId} (h : Reaches (nestedPacks m.packs) root pack) :
    Relation.ReflTransGen (HasMember m.packs) root pack := by
  induction h with
  | refl => exact .refl
  | tail _ hedge ih => exact ih.tail (mem_nestedMembers.mp hedge).1

/-- What a selection resolves to: its assets, and the leaf assets of its packs. -/
theorem ValidManifest.mem_resolved (h : ValidManifest blake3 m) {selected : AssetId → Prop}
    {roots : OrdSet AssetId}
    (hroots : ∀ a, a ∈ roots ↔ selected a ∧ a ∉ m.assets) :
    (selected asset ∧ asset ∈ m.assets ∨ asset ∈ m.assets ∧ LeadsTo m.packs roots asset) ↔
      asset ∈ m.assets ∧ ∃ root, selected root ∧
        Relation.ReflTransGen (HasMember m.packs) root asset := by
  constructor
  · rintro (⟨hselected, hasset⟩ | ⟨hasset, parent, ⟨root, hroot, hreaches⟩, hmember⟩)
    · exact ⟨hasset, asset, hselected, .refl⟩
    · exact ⟨hasset, root, ((hroots root).mp hroot).1, (members_of_reaches hreaches).tail hmember⟩
  · rintro ⟨hasset, root, hselected, hchain⟩
    rcases Relation.ReflTransGen.cases_tail hchain with rfl | ⟨parent, hchain, hmember⟩
    · exact .inl ⟨hselected, hasset⟩
    · have hparent : parent ∈ m.packs := by
        obtain ⟨pack, hpack, -⟩ := hmember
        exact OrdMap.mem_iff_getElem?.mpr ⟨pack, hpack⟩
      have hroot : root ∈ m.packs := by
        rcases Relation.ReflTransGen.cases_head hchain with rfl | ⟨next, ⟨pack, hpack, -⟩, -⟩
        · exact hparent
        · exact OrdMap.mem_iff_getElem?.mpr ⟨pack, hpack⟩
      refine .inr ⟨hasset, parent, ⟨root, ?_, reaches_of_members hparent hchain⟩, hmember⟩
      exact (hroots root).mpr ⟨hselected, h.notAsset hroot⟩

/-- Of a valid manifest every profile resolves to its closure. -/
theorem resolveProfile_ok (h : m.validate blake3 = .ok ()) (hid : id ∈ m.profiles) :
    ∃ resolved, resolveProfile blake3 m id = .ok resolved ∧ resolved.profileId = id ∧
      (∀ a, a ∈ resolved.assets ↔ Resolves m id a) ∧
      ∀ t, t ∈ resolved.targets ↔ OnChain m id (t ∈ ·.targets) := by
  have hvalid := validate_eq_ok.mp h
  obtain ⟨⟨selected, targets⟩, hfollow, hselected, htargets⟩ := @followProfiles_ok blake3 m hvalid ∅
    (m.profiles.size + 1) (∅, ∅) (some id) (fun v hv => absurd hv ExtTreeSet.not_mem_empty)
    (by rintro _ ⟨⟩; exact hid) (by omega)
  have hchain : ∀ a, a ∈ selected ↔ OnChain m id (a ∈ ·.assets) := fun a => by
    simpa using hselected a
  have hknown : ∀ a ∈ selected.toList, a ∈ m.assets ∨ a ∈ m.packs := by
    intro a ha
    obtain ⟨ancestor, profile, -, hprofile, hmem⟩ :=
      (hchain a).mp (ExtTreeSet.mem_toList.mp ha)
    exact (validProfile_of_valid hvalid hprofile).assets a hmem
  obtain ⟨⟨assets, roots⟩, hsort, hassets, hroots⟩ := @sortSelected_ok m _ (∅, ∅) hknown
  have hassets : ∀ a, a ∈ assets ↔ OnChain m id (a ∈ ·.assets) ∧ a ∈ m.assets := fun a => by
    simpa [hchain] using hassets a
  have hroots : ∀ a, a ∈ roots ↔ OnChain m id (a ∈ ·.assets) ∧ a ∉ m.assets := fun a => by
    simpa [hchain] using hroots a
  have hpacks : ∀ root ∈ roots, root ∈ m.packs := by
    intro root hroot
    obtain ⟨hselected, hno⟩ := (hroots root).mp hroot
    exact (hknown root (ExtTreeSet.mem_toList.mpr ((hchain root).mpr hselected))).resolve_left hno
  obtain ⟨leaves, hresolve⟩ := resolvePackAssets_ok h hpacks
  refine ⟨⟨id, assets ∪ leaves, targets⟩, ?_, rfl, fun a => ?_, fun t => ?_⟩
  · unfold resolveProfile
    rw [mapError_eq_ok_iff.mpr h, hfollow]
    refine bind_eq_ok_iff.mpr ⟨⟨⟩, rfl, bind_eq_ok_iff.mpr ⟨_, rfl, bind_eq_ok_iff.mpr
      ⟨_, hsort, bind_eq_ok_iff.mpr ⟨leaves, mapError_eq_ok_iff.mpr hresolve, rfl⟩⟩⟩⟩
  · have hleaves := ((resolvePackAssets_eq_ok h).mp hresolve).2 a
    dsimp only
    rw [ExtTreeSet.mem_union_iff, hassets, hleaves]
    exact hvalid.mem_resolved hroots
  · simpa using htargets t

theorem resolveProfile_error (h : m.validate blake3 = .ok ()) (hid : id ∉ m.profiles) :
    resolveProfile blake3 m id = .error .profileMissing := by
  unfold resolveProfile
  rw [mapError_eq_ok_iff.mpr h, followProfiles, if_neg (by simp),
    OrdMap.getElem?_eq_none.mpr hid]
  rfl

theorem resolveProfile_invalid (h : m.validate blake3 ≠ .ok ()) :
    resolveProfile blake3 m id = .error .invalidManifest := by
  unfold resolveProfile
  cases hvalidate : m.validate blake3 with
  | ok done => exact absurd hvalidate h
  | error e => rfl

theorem ResolvedProfile.ext_mem {a b : ResolvedProfile} (hid : a.profileId = b.profileId)
    (hassets : ∀ asset, asset ∈ a.assets ↔ asset ∈ b.assets)
    (htargets : ∀ target, target ∈ a.targets ↔ target ∈ b.targets) : a = b := by
  obtain ⟨id, assets, targets⟩ := a
  obtain ⟨id', assets', targets'⟩ := b
  cases hid
  have ha : assets = assets' := ExtTreeSet.ext_mem hassets
  have ht : targets = targets' := ExtTreeSet.ext_mem htargets
  rw [ha, ht]

/-- A chain of a valid manifest does not see a profile beside it. -/
theorem onChain_insert (h : ValidManifest blake3 m) {added : ProfileId} {profile : Profile}
    (hadded : ¬ Inherits m id added) (hid : id ∈ m.profiles) {p : Profile → Prop} :
    OnChain { m with profiles := m.profiles.insert added profile } id p ↔ OnChain m id p := by
  obtain ⟨n, hn⟩ := rooted_of_profiles h.profileCycles hid
  induction n generalizing id with
  | zero => exact hn.elim
  | succ n ih =>
    obtain ⟨found, hfound⟩ := OrdMap.mem_iff_getElem?.mp hid
    have hsame : (m.profiles.insert added profile)[id]? = some found := by
      rw [ExtTreeMap.getElem?_insert, if_neg, hfound]
      intro heq
      rw [LawfulEqCmp.eq_of_compare heq] at hadded
      exact hadded .refl
    rw [onChain_step hsame, onChain_step hfound]
    refine or_congr_right (exists_congr fun parent => and_congr_right fun hparent => ?_)
    have hedge : parent ∈ (parentProfile m id).toList := by
      simpa [parentProfile, hfound] using hparent
    refine ih (fun hextends => hadded (Relation.ReflTransGen.head hedge hextends))
      ((validProfile_of_valid h hfound).parent parent hparent) (hn parent hedge)

/-- Profile resolution is the closure: it fails only where the manifest is not valid or the
profile is missing, and a profile added beside the chain changes nothing. -/
theorem resolveProfile_closure (blake3 : Bytes → Digest) (m : EnvironmentManifest)
    (id : ProfileId) :
    (m.validate blake3 = .ok () → id ∈ m.profiles →
      ∃ resolved, resolveProfile blake3 m id = .ok resolved ∧ resolved.profileId = id ∧
        (∀ a, a ∈ resolved.assets ↔ Resolves m id a) ∧
        ∀ t, t ∈ resolved.targets ↔ OnChain m id (t ∈ ·.targets)) ∧
    (∀ e, resolveProfile blake3 m id = .error e →
      m.validate blake3 ≠ .ok () ∧ e = .invalidManifest ∨
        m.validate blake3 = .ok () ∧ id ∉ m.profiles ∧ e = .profileMissing) ∧
    (∀ added profile, ¬ Inherits m id added → id ∈ m.profiles → m.validate blake3 = .ok () →
      let extended := { m with profiles := m.profiles.insert added profile }
      extended.validate blake3 = .ok () →
        resolveProfile blake3 extended id = resolveProfile blake3 m id) := by
  refine ⟨resolveProfile_ok, fun e he => ?_, fun added profile hadded hid h => ?_⟩
  · by_cases h : m.validate blake3 = .ok ()
    · by_cases hid : id ∈ m.profiles
      · obtain ⟨resolved, hok, -⟩ := resolveProfile_ok h hid
        rw [hok] at he
        cases he
      · rw [resolveProfile_error h hid] at he
        cases he
        exact .inr ⟨h, hid, rfl⟩
    · rw [resolveProfile_invalid h] at he
      cases he
      exact .inl ⟨h, rfl⟩
  · intro extended hextended
    have hvalid := validate_eq_ok.mp h
    have hkept : id ∈ extended.profiles := ExtTreeMap.mem_insert.mpr (.inr hid)
    obtain ⟨before, hbefore, hname, hassets, htargets⟩ := resolveProfile_ok h hid
    obtain ⟨after, hafter, hname', hassets', htargets'⟩ := resolveProfile_ok hextended hkept
    rw [hbefore, hafter]
    refine congrArg _ (ResolvedProfile.ext_mem (hname'.trans hname.symm) (fun a => ?_) fun t => ?_)
    · rw [hassets, hassets']
      refine and_congr_right fun _ => exists_congr fun root => and_congr_left fun _ => ?_
      exact onChain_insert hvalid hadded hid
    · rw [htargets, htargets']
      exact onChain_insert hvalid hadded hid

end Resolution

section Sample

def baseProfile : Profile where
  id := ⟨ascii "base", by decide +kernel, by decide +kernel⟩
  extends' := none
  assets := {outerId}
  targets := {.codex}

def workProfile : Profile where
  id := ⟨ascii "work", by decide +kernel, by decide +kernel⟩
  extends' := some baseProfile.id
  assets := {betaId}
  targets := {.claude}

/-- A profile over another one, which selects nested packs. -/
def profiledManifest : EnvironmentManifest :=
  { nestedManifest with
    profiles := OrdMap.mapOf [(baseProfile.id, baseProfile), (workProfile.id, workProfile)] }

theorem resolveProfile_closure_sample : ∃ resolved,
    resolveProfile nestedDigest profiledManifest workProfile.id = .ok resolved ∧
      (∀ a, a ∈ resolved.assets ↔ Resolves profiledManifest workProfile.id a) ∧
      resolved.assets.toList = [alphaId, betaId] := by
  obtain ⟨hclosure, -⟩ := resolveProfile_closure nestedDigest profiledManifest workProfile.id
  obtain ⟨resolved, hok, -, hassets, -⟩ := hclosure (by decide +kernel) (by decide +kernel)
  have hlist : (resolveProfile nestedDigest profiledManifest workProfile.id).map
      (fun resolved => resolved.assets.toList) = .ok [alphaId, betaId] := by decide +kernel
  rw [hok] at hlist
  exact ⟨resolved, hok, hassets, Except.ok.inj hlist⟩

end Sample

end Kitrove
