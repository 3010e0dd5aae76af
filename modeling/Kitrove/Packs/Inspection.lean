import Kitrove.Packs.Validity
import Kitrove.Support.Worklist
import Mathlib.Algebra.Order.BigOperators.Group.List
import Mathlib.Algebra.Order.Group.Nat

/-! What a pack leads to: its components, and the assets among them. -/

namespace Kitrove

open Std Graph Worklist Except

def maxPackApplicationGraphVisits : Nat := 4096
def maxPackApplicationMemberships : Nat := 4096

inductive PackComponentKind where
  | asset (kind : AssetKind)
  | pack
  deriving DecidableEq

/-- One component and every direct pack that contains it. -/
structure PackComponent where
  id : AssetId
  revision : ContentHash
  kind : PackComponentKind
  direct : Bool
  parents : OrdSet AssetId
  deriving DecidableEq

structure PackInspectionError where
  code : String
  message : String
  deriving DecidableEq

def invalidManifest : PackInspectionError :=
  ⟨"pack.manifest_invalid", "pack inspection requires a valid environment manifest"⟩

def packMissing : PackInspectionError :=
  ⟨"pack.missing", "the selected pack is not present in the environment"⟩

def applicationLimit : PackInspectionError :=
  ⟨"pack.application_limit",
    "selected pack ownership exceeds the request-global traversal limit"⟩

section Definitions

variable (blake3 : Bytes → Digest) (m : EnvironmentManifest)

/-- What a member is, at which revision, and what it leads to. -/
def classifyMember (member : AssetId) :
    Except PackInspectionError (PackComponentKind × ContentHash × List AssetId) :=
  match m.assets[member]? with
  | some asset => pure (.asset asset.kind, asset.contentHash, [])
  | none =>
    match m.packs[member]? with
    | some pack => pure (.pack, pack.contentHash, [member])
    | none => throw invalidManifest

def addComponent (roots : OrdSet AssetId) (parent : AssetId)
    (s : List AssetId × OrdMap AssetId PackComponent) (entry : AssetId × ContentHash) :
    Except PackInspectionError (List AssetId × OrdMap AssetId PackComponent) := do
  let (member, revision) := entry
  let (kind, actual, found) ← classifyMember m member
  refuseIf (actual ≠ revision) invalidManifest
  let component := s.2[member]?.getD ⟨member, revision, kind, false, ∅⟩
  refuseIf (component.revision ≠ revision ∨ component.kind ≠ kind) invalidManifest
  pure (s.1 ++ found, s.2.insert member { component with
    direct := component.direct || roots.contains parent
    parents := component.parents.insert parent })

def visitComponents (roots : OrdSet AssetId) (parent : AssetId) (_ : OrdSet AssetId)
    (components : OrdMap AssetId PackComponent) :
    Except PackInspectionError (List AssetId × OrdMap AssetId PackComponent) :=
  match m.packs[parent]? with
  | none => throw packMissing
  | some pack => pack.members.toList.foldlM (addComponent m roots parent) ([], components)

/-- The members of all packs together. -/
def memberEdges (packs : PackMap) : Nat := (packs.values.map fun pack => pack.members.size).sum

def resolvePackComponents (roots : OrdSet AssetId) :
    Except PackInspectionError (List PackComponent) := do
  let components ← drain (visitComponents m roots) (roots.size + memberEdges m.packs) roots ∅ ∅
  pure components.values

/-- `manifest.validate().map_err(|_| invalid_manifest())`. -/
def requireValidPacks : Except PackInspectionError Unit :=
  (m.validate blake3).mapError fun _ => invalidManifest

def assetComponent (component : PackComponent) : Option AssetId :=
  match component.kind with
  | .asset _ => some component.id
  | .pack => none

/-- The assets that one or more packs lead to. -/
def resolvePackAssets (roots : OrdSet AssetId) : Except PackInspectionError (OrdSet AssetId) := do
  requireValidPacks blake3 m
  let components ← resolvePackComponents m roots
  pure (OrdMap.setOf (components.filterMap assetComponent))

instance : Ord (AssetId × AssetId) := lexOrd

instance : TransOrd (AssetId × AssetId) :=
  inferInstanceAs (TransCmp (compareLex (compareOn Prod.fst) (compareOn Prod.snd)))

instance : LawfulEqOrd (AssetId × AssetId) where
  eq_of_compare {a b} h := by
    have hlex : compareLex (compareOn Prod.fst) (compareOn Prod.snd) a b = .eq := h
    rw [compareLex_eq_eq] at hlex
    exact Prod.ext (LawfulEqCmp.eq_of_compare hlex.1) (LawfulEqCmp.eq_of_compare hlex.2)

structure MembershipState where
  memberships : OrdMap AssetId (OrdSet AssetId)
  count : Nat

def addMembership (root : AssetId) (s : List (AssetId × AssetId) × MembershipState)
    (member : AssetId) :
    Except PackInspectionError (List (AssetId × AssetId) × MembershipState) :=
  if m.assets.contains member then
    match s.2.memberships[root]? with
    | none => throw invalidManifest
    | some members =>
      if members.contains member then pure s
      else if s.2.count + 1 > maxPackApplicationMemberships then throw applicationLimit
      else pure (s.1, ⟨s.2.memberships.insert root (members.insert member), s.2.count + 1⟩)
  else if m.packs.contains member then pure (s.1 ++ [(root, member)], s.2)
  else throw invalidManifest

def visitMemberships (pair : AssetId × AssetId) (visited : OrdSet (AssetId × AssetId))
    (s : MembershipState) :
    Except PackInspectionError (List (AssetId × AssetId) × MembershipState) := do
  refuseIf (visited.size > maxPackApplicationGraphVisits) applicationLimit
  match m.packs[pair.2]? with
  | none => throw packMissing
  | some pack => pack.members.keys.foldlM (addMembership m pair.1) ([], s)

def rootPairs (roots : OrdSet AssetId) : OrdSet (AssetId × AssetId) :=
  OrdMap.setOf (roots.toList.map fun root => (root, root))

/-- The assets that each of the packs leads to, within one bound on all the work. -/
def resolvePackAssetMemberships (roots : OrdSet AssetId) :
    Except PackInspectionError (OrdMap AssetId (OrdSet AssetId)) := do
  requireValidPacks blake3 m
  let memberships : OrdMap AssetId (OrdSet AssetId) :=
    OrdMap.mapOf (roots.toList.map fun root => (root, ∅))
  let s ← drain (visitMemberships m) ((rootPairs roots).size + roots.size * memberEdges m.packs)
    (rootPairs roots) ∅ ⟨memberships, 0⟩
  pure s.memberships

end Definitions

section Components

variable {blake3 : Bytes → Digest} {m : EnvironmentManifest} {roots : OrdSet AssetId}
  {id member parent : AssetId} {pack : Pack}

/-- One pack has the member. -/
def HasMember (packs : PackMap) (parent member : AssetId) : Prop :=
  ∃ pack, packs[parent]? = some pack ∧ member ∈ pack.members

/-- Some root leads to the pack that has the member. -/
def LeadsTo (packs : PackMap) (roots : OrdSet AssetId) (member : AssetId) : Prop :=
  ∃ parent, Found (nestedPacks packs) roots parent ∧ HasMember packs parent member

theorem mem_singleton_iff {root : AssetId} : id ∈ ({root} : OrdSet AssetId) ↔ id = root := by
  rw [ExtTreeSet.singleton_eq_insert, mem_insert_iff]
  exact or_iff_left ExtTreeSet.not_mem_empty

theorem leadsTo_singleton {packs : PackMap} {root : AssetId} : LeadsTo packs {root} member ↔
    ∃ parent, Reaches (nestedPacks packs) root parent ∧ HasMember packs parent member := by
  constructor
  · rintro ⟨parent, ⟨first, hfirst, hreaches⟩, hmember⟩
    rw [mem_singleton_iff.mp hfirst] at hreaches
    exact ⟨parent, hreaches, hmember⟩
  · rintro ⟨parent, hreaches, hmember⟩
    exact ⟨parent, ⟨root, mem_singleton_iff.mpr rfl, hreaches⟩, hmember⟩

/-- What a pack leads to is a member of it, or what a pack nested in it leads to. -/
theorem leadsTo_step {packs : PackMap} (hpack : packs[id]? = some pack) :
    LeadsTo packs {id} member ↔
      member ∈ pack.members ∨ ∃ nested ∈ nestedPacks packs id, LeadsTo packs {nested} member := by
  rw [leadsTo_singleton]
  constructor
  · rintro ⟨parent, hreaches, hmember⟩
    rcases Relation.ReflTransGen.cases_head hreaches with rfl | ⟨nested, hedge, hreaches⟩
    · obtain ⟨other, hother, hmember⟩ := hmember
      rw [hpack] at hother
      cases hother
      exact .inl hmember
    · exact .inr ⟨nested, hedge, leadsTo_singleton.mpr ⟨parent, hreaches, hmember⟩⟩
  · rintro (hmember | ⟨nested, hedge, hleads⟩)
    · exact ⟨id, .refl, pack, hpack, hmember⟩
    · obtain ⟨parent, hreaches, hmember⟩ := leadsTo_singleton.mp hleads
      exact ⟨parent, hreaches.head hedge, hmember⟩

theorem leadsTo_iff {packs : PackMap} : LeadsTo packs roots member ↔
    ∃ root ∈ roots, LeadsTo packs {root} member := by
  constructor
  · rintro ⟨parent, ⟨root, hroot, hreaches⟩, hmember⟩
    exact ⟨root, hroot, parent, ⟨root, mem_singleton_iff.mpr rfl, hreaches⟩, hmember⟩
  · rintro ⟨root, hroot, parent, ⟨first, hfirst, hreaches⟩, hmember⟩
    rw [mem_singleton_iff.mp hfirst] at hreaches
    exact ⟨parent, ⟨root, hroot, hreaches⟩, hmember⟩

def componentKind (m : EnvironmentManifest) (member : AssetId) : PackComponentKind :=
  match m.assets[member]? with
  | some asset => .asset asset.kind
  | none => .pack

/-- What a member of a pack leads to. -/
def leadsOn (m : EnvironmentManifest) (member : AssetId) : List AssetId :=
  if m.assets.contains member then [] else [member]

theorem classifyMember_eq {metadata : PackMemberMetadata}
    (h : memberRecord m.assets m.packs member = some metadata) :
    classifyMember m member =
      .ok (componentKind m member, metadata.revision, leadsOn m member) := by
  unfold memberRecord at h
  unfold classifyMember componentKind leadsOn
  rw [← ExtTreeMap.isSome_getElem?_eq_contains]
  cases hasset : m.assets[member]? with
  | some asset =>
    rw [hasset] at h
    cases h
    rfl
  | none =>
    rw [hasset] at h
    obtain ⟨pack, hpack, rfl⟩ := Option.map_eq_some_iff.mp h
    rw [hpack]
    rfl

theorem ValidManifest.notAsset (h : ValidManifest blake3 m) (hid : id ∈ m.packs) :
    id ∉ m.assets := by
  obtain ⟨pack, hpack⟩ := OrdMap.mem_iff_getElem?.mp hid
  exact (h.packs id pack hpack).notAsset

/-- In a valid manifest, what the members of a pack lead to are the packs nested in it. -/
theorem ValidManifest.flatMap_leadsOn (h : ValidManifest blake3 m)
    (hpack : m.packs[id]? = some pack) :
    pack.members.keys.flatMap (leadsOn m) = nestedPacks m.packs id := by
  have hmember : ∀ member ∈ pack.members.keys,
      m.packs.contains member = !m.assets.contains member := by
    intro member hmember
    have hknown := (h.packs id pack hpack).known member (ExtTreeMap.mem_keys.mp hmember)
    rw [Bool.eq_iff_iff, Bool.not_eq_true', ← Bool.not_eq_true, ExtTreeMap.contains_iff_mem,
      ExtTreeMap.contains_iff_mem]
    exact ⟨h.notAsset, hknown.resolve_left⟩
  unfold nestedPacks nestedMembers
  rw [hpack]
  dsimp only
  generalize pack.members.keys = members at hmember
  induction members with
  | nil => rfl
  | cons member members ih =>
    have hone := hmember member List.mem_cons_self
    rw [List.flatMap_cons, ih fun other hother => hmember other (List.mem_cons_of_mem _ hother),
      List.filter_cons, hone, leadsOn]
    cases m.assets.contains member <;> rfl

/-- What the components are, when each pack has been visited as far as `done` says. -/
structure ComponentsOf (m : EnvironmentManifest) (roots : OrdSet AssetId)
    (done : AssetId → AssetId → Prop) (components : OrdMap AssetId PackComponent) : Prop where
  covered : ∀ id, id ∈ components ↔ ∃ parent, done parent id
  component : ∀ (id : AssetId) (component : PackComponent), components[id]? = some component →
    component.id = id ∧ component.kind = componentKind m id ∧
      (memberRecord m.assets m.packs id).map PackMemberMetadata.revision =
        some component.revision ∧
      (∀ parent, parent ∈ component.parents ↔ done parent id) ∧
      (component.direct = true ↔ ∃ parent ∈ roots, done parent id)

theorem ComponentsOf.congr {done done' : AssetId → AssetId → Prop}
    {components : OrdMap AssetId PackComponent} (h : ComponentsOf m roots done components)
    (hdone : ∀ p id, done p id ↔ done' p id) : ComponentsOf m roots done' components := by
  have heq : done = done' := funext fun p => funext fun id => propext (hdone p id)
  rwa [← heq]

theorem ComponentsOf.add {done : AssetId → AssetId → Prop}
    {components : OrdMap AssetId PackComponent} (h : ComponentsOf m roots done components)
    {revision : ContentHash} {found : List AssetId} {metadata : PackMemberMetadata}
    (hrecord : memberRecord m.assets m.packs member = some metadata)
    (hrevision : metadata.revision = revision) :
    ∃ added, addComponent m roots parent (found, components) (member, revision) =
        .ok (found ++ leadsOn m member, added) ∧
      ComponentsOf m roots (fun p id => done p id ∨ (p = parent ∧ id = member)) added := by
  obtain ⟨current, hcurrent⟩ : ∃ current : PackComponent, current =
    components[member]?.getD ⟨member, revision, componentKind m member, false, ∅⟩ := ⟨_, rfl⟩
  have hnow : current.id = member ∧ current.kind = componentKind m member ∧
      current.revision = revision ∧ (∀ p, p ∈ current.parents ↔ done p member) ∧
      (current.direct = true ↔ ∃ p ∈ roots, done p member) := by
    cases hget : components[member]? with
    | none =>
      rw [hget] at hcurrent
      have hnot : ∀ p, ¬ done p member := fun p hp =>
        OrdMap.getElem?_eq_none.mp hget ((h.covered member).mpr ⟨p, hp⟩)
      subst hcurrent
      refine ⟨rfl, rfl, rfl, fun p => iff_of_false ExtTreeSet.not_mem_empty (hnot p), ?_⟩
      exact iff_of_false Bool.false_ne_true fun ⟨p, _, hp⟩ => hnot p hp
    | some existing =>
      rw [hget, Option.getD_some] at hcurrent
      rw [hcurrent]
      obtain ⟨hid, hkind, hrev, hparents, hdirect⟩ := h.component member existing hget
      rw [hrecord, Option.map_some, Option.some.injEq] at hrev
      exact ⟨hid, hkind, hrev.symm.trans hrevision, hparents, hdirect⟩
  obtain ⟨hid, hkind, hrev, hparents, hdirect⟩ := hnow
  refine ⟨components.insert member { current with
    direct := current.direct || roots.contains parent
    parents := current.parents.insert parent }, ?_, ?_, ?_⟩
  · unfold addComponent
    dsimp only
    rw [classifyMember_eq hrecord]
    refine bind_eq_ok_iff.mpr ⟨_, rfl, refuseIf_bind_eq_ok.mpr ⟨?_, ?_⟩⟩
    · exact decide_eq_false (not_not.mpr hrevision)
    dsimp only
    rw [← hcurrent]
    refine refuseIf_bind_eq_ok.mpr ⟨?_, rfl⟩
    exact decide_eq_false (not_or.mpr ⟨not_not.mpr hrev, not_not.mpr hkind⟩)
  · intro id
    rw [ExtTreeMap.mem_insert, h.covered]
    constructor
    · rintro (heq | ⟨p, hp⟩)
      · exact ⟨parent, .inr ⟨rfl, (LawfulEqCmp.eq_of_compare heq).symm⟩⟩
      · exact ⟨p, .inl hp⟩
    · rintro ⟨p, hp | ⟨rfl, rfl⟩⟩
      · exact .inr ⟨p, hp⟩
      · exact .inl ReflCmp.compare_self
  · intro id existing hget
    rw [ExtTreeMap.getElem?_insert] at hget
    split at hget
    · rename_i heq
      cases LawfulEqCmp.eq_of_compare heq
      cases hget
      refine ⟨hid, hkind, ?_, fun p => ?_, ?_⟩
      · rw [hrecord, Option.map_some, hrevision, hrev]
      · dsimp only
        rw [mem_insert_iff, hparents]
        tauto
      · dsimp only
        rw [Bool.or_eq_true, hdirect, ExtTreeSet.contains_iff_mem]
        constructor
        · rintro (⟨p, hroot, hp⟩ | hroot)
          · exact ⟨p, hroot, .inl hp⟩
          · exact ⟨parent, hroot, .inr ⟨rfl, rfl⟩⟩
        · rintro ⟨p, hroot, hp | ⟨rfl, -⟩⟩
          · exact .inl ⟨p, hroot, hp⟩
          · exact .inr hroot
    · rename_i hne
      have hother : id ≠ member := by
        rintro rfl
        exact hne ReflCmp.compare_self
      obtain ⟨hid', hkind', hrev', hparents', hdirect'⟩ := h.component id existing hget
      refine ⟨hid', hkind', hrev', fun p => ?_, ?_⟩
      · rw [hparents']
        exact (or_iff_left fun hp => hother hp.2).symm
      · rw [hdirect']
        exact exists_congr fun p => and_congr_right fun _ => (or_iff_left fun hp => hother hp.2).symm

theorem ValidManifest.revision (h : ValidManifest blake3 m) (hpack : m.packs[id]? = some pack)
    {entry : AssetId × ContentHash} (hentry : entry ∈ pack.members.toList) :
    ∃ metadata, memberRecord m.assets m.packs entry.1 = some metadata ∧
      metadata.revision = entry.2 := by
  have hclosed : Closed m.assets m.packs pack := (h.packs id pack hpack).known
  obtain ⟨derived, -, hself⟩ := h.derived id pack hpack
  have hget := ExtTreeMap.mem_toList_iff_getElem?_eq_some.mp hentry
  obtain ⟨metadata, hrecord⟩ :=
    memberRecord_isSome.mpr (hclosed entry.1 (OrdMap.mem_iff_getElem?.mpr ⟨entry.2, hget⟩))
  exact ⟨metadata, hrecord,
    hclosed.members_eq_iff.mp (derived_eq_self_iff.mp hself).1 entry hentry metadata hrecord⟩

/-- A visit adds what the pack has, or the pack is missing. -/
theorem visitComponents_ends (h : ValidManifest blake3 m) {visited : OrdSet AssetId}
    {components : OrdMap AssetId PackComponent}
    (hcomponents : ComponentsOf m roots (fun p id => p ∈ visited ∧ HasMember m.packs p id)
      components) :
    (∀ found added, visitComponents m roots parent (visited.insert parent) components =
        .ok (found, added) → found = nestedPacks m.packs parent ∧ parent ∈ m.packs ∧
      ComponentsOf m roots (fun p id => p ∈ visited.insert parent ∧ HasMember m.packs p id) added) ∧
    ∀ e, visitComponents m roots parent (visited.insert parent) components = .error e →
      e = packMissing ∧ parent ∉ m.packs := by
  unfold visitComponents
  cases hpack : m.packs[parent]? with
  | none =>
    refine ⟨fun _ _ h => (nomatch h), fun e he => ?_⟩
    cases he
    exact ⟨rfl, OrdMap.getElem?_eq_none.mp hpack⟩
  | some pack =>
    dsimp only
    have hfold := @foldlM_ends _ _ _ (addComponent m roots parent) pack.members.toList
      ([], components) (fun done s => s.1 = (done.map Prod.fst).flatMap (leadsOn m) ∧
        ComponentsOf m roots (fun p id => (p ∈ visited ∧ HasMember m.packs p id) ∨
          (p = parent ∧ id ∈ done.map Prod.fst)) s.2) (fun _ => False) ?_ ?_
    · refine ⟨fun found added hok => ?_, fun e he => (hfold.2 e he).elim⟩
      obtain ⟨hfound, hadded⟩ := hfold.1 _ hok
      rw [ExtTreeMap.map_fst_toList_eq_keys] at hfound hadded
      refine ⟨hfound.trans (h.flatMap_leadsOn hpack), OrdMap.mem_iff_getElem?.mpr ⟨pack, hpack⟩, ?_⟩
      refine hadded.congr fun p id => ?_
      rw [mem_insert_iff, ExtTreeMap.mem_keys, or_and_right, or_comm]
      refine or_congr_left (and_congr_right fun hp => ?_)
      rw [hp, HasMember, hpack]
      simp
    · refine ⟨rfl, hcomponents.congr fun p id => ?_⟩
      simp
    · rintro done entry ⟨found, current⟩ hentry ⟨hfound, hcurrent⟩
      obtain ⟨metadata, hrecord, hrevision⟩ := h.revision hpack hentry
      obtain ⟨added, hadded, hmore⟩ : ∃ added, addComponent m roots parent (found, current) entry =
          .ok (found ++ leadsOn m entry.1, added) ∧ ComponentsOf m roots _ added :=
        hcurrent.add hrecord hrevision
      rw [hadded]
      refine ⟨fun s hs => ?_, fun _ he => nomatch he⟩
      cases hs
      refine ⟨?_, hmore.congr fun p id => ?_⟩
      · dsimp only at hfound ⊢
        rw [hfound]
        simp
      · rw [List.map_append, List.mem_append, List.map_singleton, List.mem_singleton, and_or_left,
          or_assoc]

theorem sum_nestedPacks_le {packs : PackMap} :
    ∑ id ∈ packs.keys.toFinset, (nestedPacks packs id).length ≤ memberEdges packs := by
  rw [List.sum_toFinset _ ExtTreeMap.nodup_keys, memberEdges, OrdMap.values_eq,
    ← ExtTreeMap.map_fst_toList_eq_keys, List.map_map, List.map_map]
  refine List.sum_le_sum fun entry hentry => ?_
  have hget := ExtTreeMap.mem_toList_iff_getElem?_eq_some.mp hentry
  have hnested : nestedPacks packs entry.1 = entry.2.members.keys.filter packs.contains := by
    unfold nestedPacks nestedMembers
    rw [hget]
  change (nestedPacks packs entry.1).length ≤ entry.2.members.size
  rw [hnested, ← ExtTreeMap.length_keys]
  exact List.length_filter_le _ _

/-- The components of packs are what the packs lead to. -/
theorem resolvePackComponents_ends (h : ValidManifest blake3 m) :
    (∀ components, resolvePackComponents m roots = .ok components →
      (∀ root ∈ roots, root ∈ m.packs) ∧ ∃ found, components = found.values ∧
        ComponentsOf m roots (fun p id => Found (nestedPacks m.packs) roots p ∧
          HasMember m.packs p id) found) ∧
    ∀ e, resolvePackComponents m roots = .error e → e = packMissing ∧
      ∃ root ∈ roots, root ∉ m.packs := by
  have hdrain := @drain_ends _ _ _ _ _ _ _ (nestedPacks m.packs) roots (visitComponents m roots)
    m.packs.keys.toFinset (fun visited components => (∀ p ∈ visited, p ∈ m.packs) ∧
      ComponentsOf m roots (fun p id => p ∈ visited ∧ HasMember m.packs p id) components)
    (fun e => e = packMissing ∧ ∃ root ∈ roots, root ∉ m.packs) ∅
    (roots.size + memberEdges m.packs) ?_ (Nat.add_le_add_left sum_nestedPacks_le _) ?_
  · unfold resolvePackComponents
    constructor
    · intro components hok
      obtain ⟨found, hfound, hvalues⟩ := bind_eq_ok_iff.mp hok
      cases hvalues
      obtain ⟨visited, hvisited, hknown, hcomponents⟩ := hdrain.1 found hfound
      refine ⟨fun root hroot => hknown root ((hvisited root).mpr ⟨root, hroot, .refl⟩), found, rfl,
        hcomponents.congr fun p id => and_congr_left fun _ => hvisited p⟩
    · intro e he
      cases hrun : drain (visitComponents m roots) (roots.size + memberEdges m.packs) roots ∅ ∅ with
      | ok found =>
        rw [hrun] at he
        cases he
      | error e' =>
        rw [hrun] at he
        cases he
        exact hdrain.2 _ hrun
  · refine ⟨fun _ hp => absurd hp ExtTreeSet.not_mem_empty, fun id => ?_, fun id component hget => ?_⟩
    · refine iff_of_false ExtTreeMap.not_mem_empty ?_
      rintro ⟨_, hp, -⟩
      exact ExtTreeSet.not_mem_empty hp
    · rw [ExtTreeMap.getElem?_empty] at hget
      contradiction
  · rintro parent visited components hnot hfound ⟨hknown, hcomponents⟩
    obtain ⟨hok, herror⟩ := @visitComponents_ends blake3 m roots parent h visited components hcomponents
    refine ⟨fun found added hadded => ?_, fun e he => ?_⟩
    · obtain ⟨hnext, hparent, hmore⟩ := hok found added hadded
      refine ⟨hnext, List.mem_toFinset.mpr (ExtTreeMap.mem_keys.mpr hparent), fun p hp => ?_, hmore⟩
      rcases mem_insert_iff.mp hp with rfl | hp
      · exact hparent
      · exact hknown p hp
    · obtain ⟨rfl, hmissing⟩ := herror e he
      refine ⟨rfl, ?_⟩
      obtain ⟨root, hroot, hreaches⟩ := hfound parent (mem_insert_iff.mpr (.inl rfl))
      rcases Relation.ReflTransGen.cases_tail hreaches with rfl | ⟨p, -, hedge⟩
      · exact ⟨parent, hroot, hmissing⟩
      · exact absurd (mem_nestedMembers.mp hedge).2 hmissing

theorem mem_assetComponents {done : AssetId → AssetId → Prop}
    {components : OrdMap AssetId PackComponent} (h : ComponentsOf m roots done components) :
    id ∈ OrdMap.setOf (components.values.filterMap assetComponent) ↔
      id ∈ m.assets ∧ ∃ parent, done parent id := by
  rw [OrdMap.mem_setOf, List.mem_filterMap]
  constructor
  · rintro ⟨component, hcomponent, hid⟩
    obtain ⟨k, hget⟩ := OrdMap.mem_values.mp hcomponent
    obtain ⟨hk, hkind, -⟩ := h.component k component hget
    unfold assetComponent at hid
    rw [hkind, componentKind] at hid
    cases hasset : m.assets[k]? with
    | none =>
      rw [hasset] at hid
      cases hid
    | some asset =>
      rw [hasset, hk] at hid
      cases hid
      exact ⟨OrdMap.mem_iff_getElem?.mpr ⟨asset, hasset⟩,
        (h.covered _).mp (OrdMap.mem_iff_getElem?.mpr ⟨component, hget⟩)⟩
  · rintro ⟨hasset, hdone⟩
    obtain ⟨component, hget⟩ := OrdMap.mem_iff_getElem?.mp ((h.covered id).mpr hdone)
    obtain ⟨asset, hasset⟩ := OrdMap.mem_iff_getElem?.mp hasset
    obtain ⟨hk, hkind, -⟩ := h.component id component hget
    refine ⟨component, OrdMap.mem_values.mpr ⟨id, hget⟩, ?_⟩
    unfold assetComponent
    rw [hkind, componentKind, hasset, hk]

theorem requireValidPacks_eq_ok : requireValidPacks blake3 m = .ok () ↔ m.validate blake3 = .ok () :=
  mapError_eq_ok_iff

/-- Of packs in a valid manifest, the assets are those that the packs lead to. -/
theorem resolvePackAssets_eq_ok (h : m.validate blake3 = .ok ()) {leaves : OrdSet AssetId} :
    resolvePackAssets blake3 m roots = .ok leaves ↔ (∀ root ∈ roots, root ∈ m.packs) ∧
      ∀ id, id ∈ leaves ↔ id ∈ m.assets ∧ LeadsTo m.packs roots id := by
  obtain ⟨hok, herror⟩ := @resolvePackComponents_ends _ _ roots (validate_eq_ok.mp h)
  unfold resolvePackAssets
  rw [requireValidPacks_eq_ok.mpr h]
  change (do
    let components ← resolvePackComponents m roots
    pure (OrdMap.setOf (components.filterMap assetComponent))) = _ ↔ _
  cases hrun : resolvePackComponents m roots with
  | error e =>
    obtain ⟨-, root, hroot, hmissing⟩ := herror e hrun
    exact iff_of_false (fun h => nomatch h) fun h => hmissing (h.1 root hroot)
  | ok components =>
    obtain ⟨hroots, found, rfl, hfound⟩ := hok components hrun
    refine pure_eq_ok_iff.trans ?_
    constructor
    · rintro rfl
      exact ⟨hroots, fun id => mem_assetComponents hfound⟩
    · rintro ⟨-, hleaves⟩
      exact ExtTreeSet.ext_mem fun id => (mem_assetComponents hfound).trans (hleaves id).symm

theorem resolvePackAssets_ok (h : m.validate blake3 = .ok ())
    (hroots : ∀ root ∈ roots, root ∈ m.packs) :
    ∃ leaves, resolvePackAssets blake3 m roots = .ok leaves := by
  obtain ⟨-, herror⟩ := @resolvePackComponents_ends _ _ roots (validate_eq_ok.mp h)
  unfold resolvePackAssets
  rw [requireValidPacks_eq_ok.mpr h]
  cases hrun : resolvePackComponents m roots with
  | error e =>
    obtain ⟨-, root, hroot, hmissing⟩ := herror e hrun
    exact absurd (hroots root hroot) hmissing
  | ok components => exact ⟨_, rfl⟩

end Components

end Kitrove
