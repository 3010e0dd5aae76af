import Kitrove.Packs.Admission
import Kitrove.Packs.Inspection
import Mathlib.Algebra.BigOperators.Group.Finset.Sigma

/-! The assets of each of several packs, found within one bound on all the work. -/

namespace Kitrove

open Std Graph Worklist Except

section Memberships

variable {blake3 : Bytes → Digest} {m : EnvironmentManifest} {roots : OrdSet AssetId}
  {root id member parent : AssetId} {pack : Pack}

/-- The pairs of a root with the packs nested in a pack. -/
def nestedPairs (packs : PackMap) (pair : AssetId × AssetId) : List (AssetId × AssetId) :=
  (nestedPacks packs pair.2).map fun nested => (pair.1, nested)

theorem reaches_nestedPairs {packs : PackMap} {a b : AssetId × AssetId} :
    Reaches (nestedPairs packs) a b ↔ a.1 = b.1 ∧ Reaches (nestedPacks packs) a.2 b.2 := by
  constructor
  · intro h
    induction h with
    | refl => exact ⟨rfl, .refl⟩
    | tail _ hedge ih =>
      obtain ⟨nested, hnested, rfl⟩ := List.mem_map.mp hedge
      exact ⟨ih.1, ih.2.tail hnested⟩
  · rintro ⟨hroot, h⟩
    obtain ⟨root, last⟩ := b
    obtain ⟨root', first⟩ := a
    dsimp only at hroot h
    subst hroot
    induction h with
    | refl => exact .refl
    | tail _ hedge ih => exact ih.tail (List.mem_map.mpr ⟨_, hedge, rfl⟩)

theorem mem_rootPairs {pair : AssetId × AssetId} :
    pair ∈ rootPairs roots ↔ pair.1 ∈ roots ∧ pair.2 = pair.1 := by
  rw [rootPairs, OrdMap.mem_setOf, List.mem_map]
  constructor
  · rintro ⟨root, hroot, rfl⟩
    exact ⟨ExtTreeSet.mem_toList.mp hroot, rfl⟩
  · rintro ⟨hroot, he⟩
    exact ⟨pair.1, ExtTreeSet.mem_toList.mpr hroot, Prod.ext rfl he.symm⟩

theorem found_nestedPairs {packs : PackMap} {pair : AssetId × AssetId} :
    Found (nestedPairs packs) (rootPairs roots) pair ↔
      pair.1 ∈ roots ∧ Reaches (nestedPacks packs) pair.1 pair.2 := by
  constructor
  · rintro ⟨first, hfirst, hreaches⟩
    obtain ⟨hroot, hself⟩ := mem_rootPairs.mp hfirst
    obtain ⟨hsame, hreaches⟩ := reaches_nestedPairs.mp hreaches
    rw [hself, hsame] at hreaches
    exact ⟨hsame ▸ hroot, hreaches⟩
  · rintro ⟨hroot, hreaches⟩
    exact ⟨(pair.1, pair.1), mem_rootPairs.mpr ⟨hroot, rfl⟩, reaches_nestedPairs.mpr ⟨rfl, hreaches⟩⟩

theorem sum_nestedPairs_le {packs : PackMap} :
    ∑ pair ∈ roots.toList.toFinset ×ˢ packs.keys.toFinset, (nestedPairs packs pair).length ≤
      roots.size * memberEdges packs := by
  have hlength : ∀ pair, (nestedPairs packs pair).length = (nestedPacks packs pair.2).length :=
    fun _ => List.length_map _
  simp only [hlength]
  rw [Finset.sum_product]
  dsimp only
  rw [Finset.sum_const_nat fun _ _ => rfl, List.toFinset_card_of_nodup OrdMap.nodup_toList,
    ExtTreeSet.length_toList]
  exact Nat.mul_le_mul_left _ sum_nestedPacks_le

/-- There are more pairs than the limit. -/
def TooMany (limit : Nat) (P : AssetId → AssetId → Prop) : Prop :=
  ∃ pairs : Finset (AssetId × AssetId), limit < pairs.card ∧ ∀ pair ∈ pairs, P pair.1 pair.2

theorem TooMany.mono {limit : Nat} {P Q : AssetId → AssetId → Prop} (h : TooMany limit P)
    (hPQ : ∀ a b, P a b → Q a b) : TooMany limit Q := by
  obtain ⟨pairs, hcard, hall⟩ := h
  exact ⟨pairs, hcard, fun pair hpair => hPQ _ _ (hall pair hpair)⟩

/-- The assets of each root, when the search has come as far as `done` says. -/
structure MembershipsOf (roots : OrdSet AssetId) (done : AssetId → AssetId → Prop)
    (s : MembershipState) : Prop where
  rooted : ∀ root, root ∈ s.memberships ↔ root ∈ roots
  members : ∀ (root : AssetId) (members : OrdSet AssetId), s.memberships[root]? = some members →
    ∀ id, id ∈ members ↔ done root id
  counted : ∃ pairs : Finset (AssetId × AssetId), pairs.card = s.count ∧
    ∀ pair, pair ∈ pairs ↔ pair.1 ∈ roots ∧ done pair.1 pair.2
  bounded : s.count ≤ maxPackApplicationMemberships

/-- What the visited pairs lead to. -/
def LeafOf (m : EnvironmentManifest) (visited : OrdSet (AssetId × AssetId)) (root id : AssetId) :
    Prop :=
  id ∈ m.assets ∧ ∃ parent, (root, parent) ∈ visited ∧ HasMember m.packs parent id

theorem MembershipsOf.congr {done done' : AssetId → AssetId → Prop} {s : MembershipState}
    (h : MembershipsOf roots done s) (hdone : ∀ root id, done root id ↔ done' root id) :
    MembershipsOf roots done' s := by
  have heq : done = done' := funext fun p => funext fun id => propext (hdone p id)
  rwa [← heq]

theorem MembershipsOf.start : MembershipsOf roots (LeafOf m ∅)
    ⟨OrdMap.mapOf (roots.toList.map fun root => (root, ∅)), 0⟩ := by
  have hkeys : (roots.toList.map fun root => (root, (∅ : OrdSet AssetId))).map Prod.fst =
      roots.toList := by
    rw [List.map_map]
    exact List.map_id _
  have hnone : ∀ root id, ¬ LeafOf m ∅ root id := by
    rintro root id ⟨-, parent, hparent, -⟩
    exact ExtTreeSet.not_mem_empty hparent
  refine ⟨fun root => ?_, fun root members hget id => ?_, ⟨∅, rfl, fun pair => ?_⟩, Nat.zero_le _⟩
  · dsimp only
    rw [OrdMap.mapOf, ExtTreeMap.mem_ofList, hkeys, List.contains_iff_mem, ExtTreeSet.mem_toList]
  · have hmem := (OrdMap.getElem?_mapOf (by rw [hkeys]; exact OrdMap.nodup_toList)).mp hget
    obtain ⟨_, -, he⟩ := List.mem_map.mp hmem
    cases he
    exact iff_of_false ExtTreeSet.not_mem_empty (hnone _ id)
  · exact iff_of_false (Finset.notMem_empty _) fun h => hnone _ _ h.2

theorem addMembership_ends {done : AssetId → AssetId → Prop} {s : MembershipState}
    {found : List (AssetId × AssetId)} (h : MembershipsOf roots done s) (hroot : root ∈ roots)
    (hknown : member ∈ m.assets ∨ member ∈ m.packs) :
    (∀ found' t, addMembership m root (found, s) member = .ok (found', t) →
      found' = found ++ (leadsOn m member).map (fun nested => (root, nested)) ∧
        MembershipsOf roots (fun r id => done r id ∨ (r = root ∧ id = member ∧ id ∈ m.assets)) t) ∧
    ∀ e, addMembership m root (found, s) member = .error e → e = applicationLimit ∧
      TooMany maxPackApplicationMemberships fun r id =>
        r ∈ roots ∧ (done r id ∨ (r = root ∧ id = member ∧ id ∈ m.assets)) := by
  unfold addMembership leadsOn
  by_cases hasset : m.assets.contains member = true
  · rw [if_pos hasset, if_pos hasset]
    have hin := ExtTreeMap.contains_iff_mem.mp hasset
    obtain ⟨members, hmembers⟩ := OrdMap.mem_iff_getElem?.mp ((h.rooted root).mpr hroot)
    rw [hmembers]
    dsimp only
    by_cases hold : members.contains member = true
    · rw [if_pos hold]
      refine ⟨fun found' t hok => ?_, fun _ he => nomatch he⟩
      cases hok
      refine ⟨(List.append_nil _).symm, h.congr fun r id => (or_iff_left_of_imp ?_).symm⟩
      rintro ⟨rfl, rfl, -⟩
      exact (h.members _ members hmembers _).mp (ExtTreeSet.contains_iff_mem.mp hold)
    · rw [if_neg hold]
      have hnot : ¬ done root member := fun hdone =>
        hold (ExtTreeSet.contains_iff_mem.mpr ((h.members root members hmembers member).mpr hdone))
      obtain ⟨pairs, hcard, hpairs⟩ := h.counted
      have hfresh : (root, member) ∉ pairs := fun hpair => hnot ((hpairs _).mp hpair).2
      have hmore : ∀ pair, pair ∈ insert (root, member) pairs ↔ pair.1 ∈ roots ∧
          (done pair.1 pair.2 ∨ (pair.1 = root ∧ pair.2 = member ∧ pair.2 ∈ m.assets)) := by
        rintro ⟨r, id⟩
        rw [Finset.mem_insert, hpairs, Prod.mk.injEq]
        dsimp only
        constructor
        · rintro (⟨rfl, rfl⟩ | ⟨hr, hdone⟩)
          · exact ⟨hroot, .inr ⟨rfl, rfl, hin⟩⟩
          · exact ⟨hr, .inl hdone⟩
        · rintro ⟨hr, hdone | ⟨rfl, rfl, -⟩⟩
          · exact .inr ⟨hr, hdone⟩
          · exact .inl ⟨rfl, rfl⟩
      have hcard' : (insert (root, member) pairs).card = s.count + 1 := by
        rw [Finset.card_insert_of_notMem hfresh, hcard]
      split
      · rename_i hover
        refine ⟨fun _ _ hok => (nomatch hok), fun e he => ?_⟩
        cases he
        exact ⟨rfl, insert (root, member) pairs, by omega, fun pair hpair => (hmore pair).mp hpair⟩
      · rename_i hwithin
        refine ⟨fun found' t hok => ?_, fun _ he => nomatch he⟩
        cases hok
        refine ⟨(List.append_nil _).symm, ?_, ?_, ⟨insert (root, member) pairs, hcard', hmore⟩,
          by dsimp only; omega⟩
        · intro r
          dsimp only
          rw [ExtTreeMap.mem_insert, h.rooted]
          refine or_iff_right_of_imp fun heq => ?_
          rwa [← LawfulEqCmp.eq_of_compare heq]
        · intro r others hget id
          dsimp only at hget
          rw [ExtTreeMap.getElem?_insert] at hget
          split at hget
          · rename_i heq
            cases LawfulEqCmp.eq_of_compare heq
            cases hget
            rw [mem_insert_iff, h.members root members hmembers]
            constructor
            · rintro (rfl | hdone)
              · exact .inr ⟨rfl, rfl, hin⟩
              · exact .inl hdone
            · rintro (hdone | ⟨-, rfl, -⟩)
              · exact .inr hdone
              · exact .inl rfl
          · rename_i hne
            rw [h.members r others hget]
            refine (or_iff_left ?_).symm
            rintro ⟨rfl, -⟩
            exact hne ReflCmp.compare_self
  · rw [if_neg hasset, if_neg hasset]
    have hnot : member ∉ m.assets := fun hin => hasset (ExtTreeMap.contains_iff_mem.mpr hin)
    rw [if_pos (ExtTreeMap.contains_iff_mem.mpr (hknown.resolve_left hnot))]
    refine ⟨fun found' t hok => ?_, fun _ he => nomatch he⟩
    cases hok
    refine ⟨rfl, h.congr fun r id => (or_iff_left ?_).symm⟩
    rintro ⟨-, rfl, hin⟩
    exact hnot hin

theorem refuseIf_false_bind {ε α : Type} {error : ε} {f : Unit → Except ε α} :
    (refuseIf false error >>= f) = f () := rfl

/-- A root leads to the asset. -/
def Owns (m : EnvironmentManifest) (roots : OrdSet AssetId) (root id : AssetId) : Prop :=
  root ∈ roots ∧ id ∈ m.assets ∧ LeadsTo m.packs {root} id

/-- A root leads to the pack. -/
def Reached (m : EnvironmentManifest) (roots : OrdSet AssetId) (root id : AssetId) : Prop :=
  root ∈ roots ∧ Reaches (nestedPacks m.packs) root id

/-- The work that the search is bounded by is too much. -/
def OverLimit (m : EnvironmentManifest) (roots : OrdSet AssetId) : Prop :=
  TooMany maxPackApplicationGraphVisits (Reached m roots) ∨
    TooMany maxPackApplicationMemberships (Owns m roots)

theorem tooMany_of_visited {visited : OrdSet (AssetId × AssetId)}
    (hfound : ∀ pair ∈ visited, Found (nestedPairs m.packs) (rootPairs roots) pair)
    (hover : maxPackApplicationGraphVisits < visited.size) :
    TooMany maxPackApplicationGraphVisits (Reached m roots) := by
  refine ⟨visited.toList.toFinset, ?_, fun pair hpair => ?_⟩
  · rw [List.toFinset_card_of_nodup OrdMap.nodup_toList, ExtTreeSet.length_toList]
    exact hover
  · rw [List.mem_toFinset, ExtTreeSet.mem_toList] at hpair
    exact found_nestedPairs.mp (hfound pair hpair)

theorem visitMemberships_ends (h : ValidManifest blake3 m) {pair : AssetId × AssetId}
    {visited : OrdSet (AssetId × AssetId)} {s : MembershipState}
    (hfound : ∀ other ∈ visited.insert pair, Found (nestedPairs m.packs) (rootPairs roots) other)
    (hs : MembershipsOf roots (LeafOf m visited) s) :
    (∀ found t, visitMemberships m pair (visited.insert pair) s = .ok (found, t) →
      found = nestedPairs m.packs pair ∧ pair.2 ∈ m.packs ∧
        (visited.insert pair).size ≤ maxPackApplicationGraphVisits ∧
        MembershipsOf roots (LeafOf m (visited.insert pair)) t) ∧
    ∀ e, visitMemberships m pair (visited.insert pair) s = .error e →
      (e = applicationLimit ∧ OverLimit m roots) ∨ (e = packMissing ∧ pair.2 ∉ m.packs) := by
  obtain ⟨root, parent⟩ := pair
  obtain ⟨hroot, hreaches⟩ :=
    found_nestedPairs.mp (hfound (root, parent) (mem_insert_iff.mpr (.inl rfl)))
  dsimp only at hroot hreaches
  unfold visitMemberships
  by_cases hover : (visited.insert (root, parent)).size > maxPackApplicationGraphVisits
  · rw [decide_eq_true hover, refuseIf_true_bind]
    refine ⟨fun _ _ hok => (nomatch hok), fun e he => ?_⟩
    cases he
    exact .inl ⟨rfl, .inl (tooMany_of_visited hfound hover)⟩
  · rw [decide_eq_false hover, refuseIf_false_bind]
    dsimp only
    cases hpack : m.packs[parent]? with
    | none =>
      refine ⟨fun _ _ hok => (nomatch hok), fun e he => ?_⟩
      cases he
      exact .inr ⟨rfl, OrdMap.getElem?_eq_none.mp hpack⟩
    | some pack =>
      dsimp only
      have hdone : ∀ done : List AssetId, (∀ id ∈ done, id ∈ pack.members) → ∀ r id,
          (LeafOf m visited r id ∨ (r = root ∧ id ∈ done ∧ id ∈ m.assets)) →
          LeafOf m (visited.insert (root, parent)) r id := by
        rintro done hin r id (⟨hasset, p, hp, hmember⟩ | ⟨rfl, hid, hasset⟩)
        · exact ⟨hasset, p, mem_insert_iff.mpr (.inr hp), hmember⟩
        · exact ⟨hasset, parent, mem_insert_iff.mpr (.inl rfl), pack, hpack, hin id hid⟩
      have howned : ∀ r id, r ∈ roots → LeafOf m (visited.insert (root, parent)) r id →
          Owns m roots r id := by
        rintro r id hr ⟨hasset, p, hp, hmember⟩
        exact ⟨hr, hasset, p, ⟨r, mem_singleton_iff.mpr rfl,
          (found_nestedPairs.mp (hfound (r, p) hp)).2⟩, hmember⟩
      have hfold := @foldlM_ends _ _ _ (addMembership m root) pack.members.keys ([], s)
        (fun done t => (∀ id ∈ done, id ∈ pack.members) ∧
          t.1 = (done.flatMap (leadsOn m)).map (fun nested => (root, nested)) ∧
          MembershipsOf roots (fun r id => LeafOf m visited r id ∨
            (r = root ∧ id ∈ done ∧ id ∈ m.assets)) t.2)
        (fun e => e = applicationLimit ∧ OverLimit m roots) ?_ ?_
      · refine ⟨fun found t hok => ?_, fun e he => .inl (hfold.2 e he)⟩
        obtain ⟨hin, hnext, ht⟩ := hfold.1 _ hok
        refine ⟨hnext.trans ?_, OrdMap.mem_iff_getElem?.mpr ⟨pack, hpack⟩, by omega,
          ht.congr fun r id => ⟨hdone _ hin r id, ?_⟩⟩
        · rw [h.flatMap_leadsOn hpack]
          rfl
        · rintro ⟨hasset, p, hp, hmember⟩
          rcases mem_insert_iff.mp hp with heq | hp
          · cases heq
            obtain ⟨other, hother, hmember⟩ := hmember
            rw [hpack] at hother
            cases hother
            exact .inr ⟨rfl, ExtTreeMap.mem_keys.mpr hmember, hasset⟩
          · exact .inl ⟨hasset, p, hp, hmember⟩
      · refine ⟨fun _ hid => absurd hid List.not_mem_nil, rfl, hs.congr fun r id => ?_⟩
        exact (or_iff_left fun hid => absurd hid.2.1 List.not_mem_nil).symm
      · rintro done member ⟨found, t⟩ hmember ⟨hin, hnext, ht⟩
        have hmember := ExtTreeMap.mem_keys.mp hmember
        obtain ⟨hok, herror⟩ := addMembership_ends ht hroot
          ((h.packs parent pack hpack).known member hmember)
        have hin' : ∀ id ∈ done ++ [member], id ∈ pack.members := by
          intro id hid
          rcases List.mem_append.mp hid with hid | hid
          · exact hin id hid
          · rw [List.mem_singleton.mp hid]
            exact hmember
        have hstep : ∀ r id, (LeafOf m visited r id ∨ (r = root ∧ id ∈ done ∧ id ∈ m.assets)) ∨
            (r = root ∧ id = member ∧ id ∈ m.assets) ↔
            LeafOf m visited r id ∨ (r = root ∧ id ∈ done ++ [member] ∧ id ∈ m.assets) := by
          intro r id
          rw [List.mem_append, List.mem_singleton]
          tauto
        refine ⟨fun next hadded => ?_, fun e he => ?_⟩
        · obtain ⟨found', u⟩ := next
          obtain ⟨hfound', hu⟩ := hok found' u hadded
          refine ⟨hin', ?_, hu.congr hstep⟩
          dsimp only at hnext ⊢
          rw [hfound', hnext]
          simp
        · obtain ⟨rfl, hmany⟩ := herror e he
          refine ⟨rfl, .inr (hmany.mono ?_)⟩
          rintro r id ⟨hr, hleaf⟩
          exact howned r id hr (hdone _ hin' r id ((hstep r id).mp hleaf))

theorem resolvePackAssetMemberships_ends (h : m.validate blake3 = .ok ()) :
    (∀ memberships, resolvePackAssetMemberships blake3 m roots = .ok memberships →
      (∀ root ∈ roots, root ∈ m.packs) ∧ ¬ OverLimit m roots ∧
        (∀ root, root ∈ memberships ↔ root ∈ roots) ∧
        ∀ (root : AssetId) (members : OrdSet AssetId), memberships[root]? = some members →
          ∀ id, id ∈ members ↔ Owns m roots root id) ∧
    ∀ e, resolvePackAssetMemberships blake3 m roots = .error e →
      (e = applicationLimit ∧ OverLimit m roots) ∨
        (e = packMissing ∧ ∃ root ∈ roots, root ∉ m.packs) := by
  have hvalid := validate_eq_ok.mp h
  have hdrain := @drain_ends _ _ _ _ _ _ _ (nestedPairs m.packs) (rootPairs roots)
    (visitMemberships m) (roots.toList.toFinset ×ˢ m.packs.keys.toFinset)
    (fun visited s => visited.size ≤ maxPackApplicationGraphVisits ∧
      (∀ pair ∈ visited, pair.2 ∈ m.packs) ∧ MembershipsOf roots (LeafOf m visited) s)
    (fun e => (e = applicationLimit ∧ OverLimit m roots) ∨
      (e = packMissing ∧ ∃ root ∈ roots, root ∉ m.packs))
    ⟨OrdMap.mapOf (roots.toList.map fun root => (root, ∅)), 0⟩
    ((rootPairs roots).size + roots.size * memberEdges m.packs) ?_
    (Nat.add_le_add_left sum_nestedPairs_le _) ?_
  · unfold resolvePackAssetMemberships
    rw [requireValidPacks_eq_ok.mpr h]
    constructor
    · intro memberships hok
      obtain ⟨-, -, hok⟩ := bind_eq_ok_iff.mp hok
      obtain ⟨s, hs, hpure⟩ := bind_eq_ok_iff.mp hok
      cases hpure
      obtain ⟨visited, hvisited, hsize, hknown, hmemberships⟩ := hdrain.1 s hs
      have howns : ∀ root id, root ∈ roots → (LeafOf m visited root id ↔ Owns m roots root id) := by
        intro root id hroot
        constructor
        · rintro ⟨hasset, parent, hparent, hmember⟩
          exact ⟨hroot, hasset, parent, ⟨root, mem_singleton_iff.mpr rfl,
            (found_nestedPairs.mp ((hvisited _).mp hparent)).2⟩, hmember⟩
        · rintro ⟨-, hasset, parent, ⟨first, hfirst, hreaches⟩, hmember⟩
          rw [mem_singleton_iff.mp hfirst] at hreaches
          exact ⟨hasset, parent, (hvisited _).mpr (found_nestedPairs.mpr ⟨hroot, hreaches⟩), hmember⟩
      refine ⟨fun root hroot => ?_, ?_, hmemberships.rooted, fun root members hget id => ?_⟩
      · exact hknown (root, root) ((hvisited _).mpr (found_nestedPairs.mpr ⟨hroot, .refl⟩))
      · rintro (⟨pairs, hcard, hall⟩ | ⟨pairs, hcard, hall⟩)
        · have hsub : pairs ⊆ visited.toList.toFinset := by
            intro pair hpair
            rw [List.mem_toFinset, ExtTreeSet.mem_toList, hvisited]
            exact found_nestedPairs.mpr (hall pair hpair)
          have hle := Finset.card_le_card hsub
          rw [List.toFinset_card_of_nodup OrdMap.nodup_toList, ExtTreeSet.length_toList] at hle
          omega
        · obtain ⟨counted, hcount, hmem⟩ := hmemberships.counted
          have hsub : pairs ⊆ counted := by
            intro pair hpair
            have hroot := (hall pair hpair).1
            exact (hmem pair).mpr ⟨hroot, (howns pair.1 pair.2 hroot).mpr (hall pair hpair)⟩
          have hle := Finset.card_le_card hsub
          have hbounded := hmemberships.bounded
          omega
      · have hroot := (hmemberships.rooted root).mp (OrdMap.mem_iff_getElem?.mpr ⟨members, hget⟩)
        exact (hmemberships.members root members hget id).trans (howns root id hroot)
    · intro e he
      cases hrun : drain (visitMemberships m) ((rootPairs roots).size +
          roots.size * memberEdges m.packs) (rootPairs roots) ∅
          ⟨OrdMap.mapOf (roots.toList.map fun root => (root, ∅)), 0⟩ with
      | ok s =>
        change (do
          let s ← drain (visitMemberships m) ((rootPairs roots).size +
            roots.size * memberEdges m.packs) (rootPairs roots) ∅
            ⟨OrdMap.mapOf (roots.toList.map fun root => (root, ∅)), 0⟩
          pure s.memberships) = _ at he
        rw [hrun] at he
        cases he
      | error e' =>
        change (do
          let s ← drain (visitMemberships m) ((rootPairs roots).size +
            roots.size * memberEdges m.packs) (rootPairs roots) ∅
            ⟨OrdMap.mapOf (roots.toList.map fun root => (root, ∅)), 0⟩
          pure s.memberships) = _ at he
        rw [hrun] at he
        cases he
        exact hdrain.2 _ hrun
  · exact ⟨Nat.zero_le _, fun _ hpair => absurd hpair ExtTreeSet.not_mem_empty, .start⟩
  · rintro pair visited s hnot hfound ⟨hsize, hknown, hs⟩
    obtain ⟨hok, herror⟩ := visitMemberships_ends hvalid hfound hs
    have hpair := found_nestedPairs.mp (hfound pair (mem_insert_iff.mpr (.inl rfl)))
    refine ⟨fun found t hrun => ?_, fun e he => (herror e he).imp_right ?_⟩
    · obtain ⟨hnext, hpack, hmore, ht⟩ := hok found t hrun
      refine ⟨hnext, ?_, hmore, fun other hother => ?_, ht⟩
      · rw [Finset.mem_product, List.mem_toFinset, List.mem_toFinset, ExtTreeSet.mem_toList,
          ExtTreeMap.mem_keys]
        exact ⟨hpair.1, hpack⟩
      · rcases mem_insert_iff.mp hother with rfl | hother
        · exact hpack
        · exact hknown other hother
    · rintro ⟨rfl, hmissing⟩
      refine ⟨rfl, pair.1, hpair.1, ?_⟩
      rcases Relation.ReflTransGen.cases_tail hpair.2 with he | ⟨_, -, hedge⟩
      · rwa [← he]
      · exact absurd (mem_nestedMembers.mp hedge).2 hmissing

/-- Each root has the assets that it leads to, all of them together are the assets of the roots,
and only too many pairs make this fail. -/
theorem memberships_agree (h : m.validate blake3 = .ok ()) (roots : OrdSet AssetId) :
    (∀ memberships, resolvePackAssetMemberships blake3 m roots = .ok memberships →
      (∀ root, root ∈ memberships ↔ root ∈ roots) ∧
      (∀ (root : AssetId) (members : OrdSet AssetId), memberships[root]? = some members →
        resolvePackAssets blake3 m {root} = .ok members) ∧
      ∃ leaves, resolvePackAssets blake3 m roots = .ok leaves ∧ ∀ id, id ∈ leaves ↔
        ∃ (root : AssetId) (members : OrdSet AssetId),
          memberships[root]? = some members ∧ id ∈ members) ∧
    ((∀ root ∈ roots, root ∈ m.packs) →
      (resolvePackAssetMemberships blake3 m roots = .error applicationLimit ↔ OverLimit m roots) ∧
      (¬ OverLimit m roots → ∃ memberships,
        resolvePackAssetMemberships blake3 m roots = .ok memberships)) ∧
    ((∃ root ∈ roots, root ∉ m.packs) → ∀ memberships,
      resolvePackAssetMemberships blake3 m roots ≠ .ok memberships) := by
  obtain ⟨hok, herror⟩ := @resolvePackAssetMemberships_ends blake3 m roots h
  refine ⟨fun memberships hrun => ?_, fun hroots => ⟨⟨fun hrun => ?_, fun hover => ?_⟩,
    fun hwithin => ?_⟩, ?_⟩
  · obtain ⟨hroots, -, hkeys, hmembers⟩ := hok memberships hrun
    refine ⟨hkeys, fun root members hget => ?_, ?_⟩
    · have hroot := (hkeys root).mp (OrdMap.mem_iff_getElem?.mpr ⟨members, hget⟩)
      refine (resolvePackAssets_eq_ok h).mpr ⟨fun other hother => ?_, fun id => ?_⟩
      · rw [mem_singleton_iff.mp hother]
        exact hroots root hroot
      · exact (hmembers root members hget id).trans (and_iff_right hroot)
    · obtain ⟨leaves, hleaves⟩ := resolvePackAssets_ok h hroots
      refine ⟨leaves, hleaves, fun id => ?_⟩
      rw [((resolvePackAssets_eq_ok h).mp hleaves).2 id, leadsTo_iff]
      constructor
      · rintro ⟨hasset, root, hroot, hleads⟩
        obtain ⟨members, hget⟩ := OrdMap.mem_iff_getElem?.mp ((hkeys root).mpr hroot)
        exact ⟨root, members, hget, (hmembers root members hget id).mpr ⟨hroot, hasset, hleads⟩⟩
      · rintro ⟨root, members, hget, hid⟩
        obtain ⟨hroot, hasset, hleads⟩ := (hmembers root members hget id).mp hid
        exact ⟨hasset, root, hroot, hleads⟩
  · rcases herror _ hrun with ⟨-, hover⟩ | ⟨he, -⟩
    · exact hover
    · exact absurd he (by decide)
  · cases hrun : resolvePackAssetMemberships blake3 m roots with
    | ok memberships => exact absurd hover (hok memberships hrun).2.1
    | error e =>
      rcases herror e hrun with ⟨rfl, -⟩ | ⟨-, root, hroot, hmissing⟩
      · rfl
      · exact absurd (hroots root hroot) hmissing
  · cases hrun : resolvePackAssetMemberships blake3 m roots with
    | ok memberships => exact ⟨memberships, rfl⟩
    | error e =>
      rcases herror e hrun with ⟨-, hover⟩ | ⟨-, root, hroot, hmissing⟩
      · exact absurd hover hwithin
      · exact absurd (hroots root hroot) hmissing
  · rintro ⟨root, hroot, hmissing⟩ memberships hrun
    exact hmissing ((hok memberships hrun).1 root hroot)

/-- Two roots of which one is nested in the other have the same two assets. -/
theorem memberships_agree_sample :
    ∃ memberships, resolvePackAssetMemberships nestedDigest nestedManifest {innerId, outerId} =
        .ok memberships ∧ ∃ leaves : OrdSet AssetId,
      resolvePackAssets nestedDigest nestedManifest {innerId, outerId} = .ok leaves ∧
      ∀ id, id ∈ leaves ↔ ∃ (root : AssetId) (members : OrdSet AssetId),
        memberships[root]? = some members ∧ id ∈ members := by
  have hok : (resolvePackAssetMemberships nestedDigest nestedManifest
      {innerId, outerId}).toOption.isSome = true := by decide +kernel
  cases hrun : resolvePackAssetMemberships nestedDigest nestedManifest {innerId, outerId} with
  | error e =>
    rw [hrun] at hok
    cases hok
  | ok memberships =>
    obtain ⟨-, -, hleaves⟩ := (memberships_agree (by decide +kernel) _).1 memberships hrun
    exact ⟨memberships, rfl, hleaves⟩

end Memberships

end Kitrove
