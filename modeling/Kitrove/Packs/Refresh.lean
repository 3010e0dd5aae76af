import Kitrove.Merge.Exactness
import Kitrove.Packs.Admission

/-! A refresh makes every pack what its members give it, and leaves packs that are so as they
are. -/

namespace Kitrove

open Std Graph Stateful Except

section Same

variable {blake3 : Bytes → Digest} {assets assets' : OrdMap AssetId Asset} {packs packs' : PackMap}
  {pack pack' : Pack} {id member : AssetId}

theorem keys_eq_of_mem_iff {K V W : Type} [Ord K] [TransOrd K] [LawfulEqOrd K] {m : OrdMap K V}
    {n : OrdMap K W} (h : ∀ k, k ∈ m ↔ k ∈ n) : m.keys = n.keys := by
  have hmap : (m.map fun _ _ => ()) = n.map fun _ _ => () := by
    refine ExtTreeMap.ext_getElem? fun k => ?_
    rw [ExtTreeMap.getElem?_map, ExtTreeMap.getElem?_map]
    by_cases hk : k ∈ m
    · obtain ⟨_, hv⟩ := OrdMap.mem_iff_getElem?.mp hk
      obtain ⟨_, hw⟩ := OrdMap.mem_iff_getElem?.mp ((h k).mp hk)
      rw [hv, hw]
      rfl
    · rw [OrdMap.getElem?_eq_none.mpr hk, OrdMap.getElem?_eq_none.mpr fun hn => hk ((h k).mpr hn)]
      rfl
  calc m.keys = (m.map fun _ _ => ()).keys := ExtTreeMap.keys_map.symm
    _ = (n.map fun _ _ => ()).keys := by rw [hmap]
    _ = n.keys := ExtTreeMap.keys_map

theorem keys_of_draftFromPack (h : draftFromPack pack = draftFromPack pack') :
    pack.members.keys = pack'.members.keys := by
  have hmembers : OrdMap.keySet pack.members = OrdMap.keySet pack'.members :=
    congrArg PackDraft.members h
  refine keys_eq_of_mem_iff fun k => ?_
  rw [← OrdMap.mem_keySet, ← OrdMap.mem_keySet, hmembers]

theorem size_of_draftFromPack (h : draftFromPack pack = draftFromPack pack') :
    pack.members.size = pack'.members.size := by
  rw [← ExtTreeMap.length_keys, keys_of_draftFromPack h, ExtTreeMap.length_keys]

theorem isEmpty_of_draftFromPack (h : draftFromPack pack = draftFromPack pack') :
    pack.members.isEmpty = pack'.members.isEmpty := by
  rw [ExtTreeMap.isEmpty_eq_size_beq_zero, ExtTreeMap.isEmpty_eq_size_beq_zero,
    size_of_draftFromPack h]

theorem SamePacks.mem_iff (h : SamePacks packs packs') : id ∈ packs' ↔ id ∈ packs := by
  have hid := congrArg Option.isSome (h id)
  rw [Option.isSome_map, Option.isSome_map, ExtTreeMap.isSome_getElem?_eq_contains,
    ExtTreeMap.isSome_getElem?_eq_contains] at hid
  rw [← ExtTreeMap.contains_iff_mem, hid, ExtTreeMap.contains_iff_mem]

theorem SamePacks.get (h : SamePacks packs packs') (hpack : packs[id]? = some pack) :
    ∃ pack', packs'[id]? = some pack' ∧ draftFromPack pack' = draftFromPack pack := by
  have hid := h id
  rw [hpack, Option.map_some] at hid
  exact Option.map_eq_some_iff.mp hid

theorem SamePacks.symm (h : SamePacks packs packs') : SamePacks packs' packs :=
  fun id => (h id).symm

theorem SamePacks.nestedPacks_eq (h : SamePacks packs packs') :
    nestedPacks packs' = nestedPacks packs := by
  funext id
  have hcontains : packs'.contains = packs.contains := by
    funext k
    rw [Bool.eq_iff_iff, ExtTreeMap.contains_iff_mem, ExtTreeMap.contains_iff_mem]
    exact h.mem_iff
  unfold nestedPacks nestedMembers
  cases hpack : packs[id]? with
  | none =>
    have hnone := h id
    rw [hpack, Option.map_none, Option.map_eq_none_iff] at hnone
    rw [hnone]
  | some pack =>
    obtain ⟨pack', hpack', hsame⟩ := h.get hpack
    rw [hpack']
    dsimp only
    rw [keys_of_draftFromPack hsame, hcontains]

/-- A pack is settled by its identity, its source and the records of its members. -/
theorem Derived.unique (h : Derived blake3 assets packs pack)
    (h' : Derived blake3 assets' packs' pack') (hsame : draftFromPack pack' = draftFromPack pack)
    (hrecords : ∀ member ∈ pack.members,
      memberRecord assets' packs' member = memberRecord assets packs member) : pack' = pack := by
  obtain ⟨derived, hderived, hself⟩ := h
  obtain ⟨derived', hderived', hself'⟩ := h'
  have hall : memberRecords assets' packs' pack' = memberRecords assets packs pack := by
    rw [memberRecords, memberRecords, keys_of_draftFromPack hsame]
    exact List.filterMap_congr fun member hmember =>
      hrecords member (ExtTreeMap.mem_keys.mp hmember)
  rw [hall, hderived] at hderived'
  cases hderived'
  rw [hall] at hself'
  have hid : pack'.id = pack.id := congrArg PackDraft.id hsame
  have hsource : packSource pack' = packSource pack := congrArg PackDraft.source hsame
  unfold packSource at hsource
  simp only [PackSourceDraft.mk.injEq] at hsource
  obtain ⟨hsource, hrevision, hhash⟩ := hsource
  rw [← hself, ← hself']
  unfold Pack.derived
  rw [hid, hsource, hrevision, hhash]
  rfl

/-- Packs with the same identities, sources and members over the same assets are the same. -/
theorem derived_unique {n : Nat} (hsame : SamePacks packs packs')
    (h : ∀ (id : AssetId) (pack : Pack), packs[id]? = some pack → Derived blake3 assets packs pack)
    (h' : ∀ (id : AssetId) (pack : Pack), packs'[id]? = some pack →
      Derived blake3 assets packs' pack)
    (hb : Bounded (nestedPacks packs) n id) : packs'[id]? = packs[id]? := by
  refine hb.induction (P := fun id => packs'[id]? = packs[id]?) fun id ih => ?_
  cases hpack : packs[id]? with
  | none =>
    have hnone := hsame id
    rwa [hpack, Option.map_none, Option.map_eq_none_iff] at hnone
  | some pack =>
    obtain ⟨pack', hpack', hdraft⟩ := hsame.get hpack
    rw [hpack', (h id pack hpack).unique (h' id pack' hpack') hdraft fun member hmember => ?_]
    unfold memberRecord
    by_cases hnested : member ∈ packs
    · rw [ih member (mem_nestedMembers.mpr ⟨⟨pack, hpack, hmember⟩, hnested⟩)]
    · rw [OrdMap.getElem?_eq_none.mpr hnested,
        OrdMap.getElem?_eq_none.mpr fun hmem => hnested (hsame.mem_iff.mp hmem)]

theorem derived_derived {records : List PackMemberMetadata} {derived : DerivedPackFields} :
    (pack.derived blake3 records derived).derived blake3 records derived =
      pack.derived blake3 records derived := rfl

theorem memberRecord_modify {f : Pack → Pack} (hne : member ≠ id) :
    memberRecord assets (packs.modify id f) member = memberRecord assets packs member := by
  have hget : (packs.modify id f)[member]? = packs[member]? := by
    rw [ExtTreeMap.getElem?_modify, if_neg fun heq => hne (LawfulEqCmp.eq_of_compare heq).symm]
  unfold memberRecord
  rw [hget]

end Same

section Walk

variable {blake3 : Bytes → Digest} {assets : OrdMap AssetId Asset} {packs : PackMap}

/-- How far a refresh of the packs has come: the packs it has visited are what their members give
them, and their members were visited before them. -/
structure Refreshing (blake3 : Bytes → Digest) (assets : OrdMap AssetId Asset) (packs : PackMap)
    (s : RefreshState) : Prop where
  same : SamePacks packs s.packs
  apart : ∀ id ∈ s.visiting, id ∉ s.visited
  below : ∀ id ∈ s.visited, ∀ member ∈ nestedPacks packs id, member ∈ s.visited
  derived : ∀ id ∈ s.visited, ∃ pack, s.packs[id]? = some pack ∧ Derived blake3 assets s.packs pack

/-- Packs that a refresh can derive: each has members, and knows them. -/
structure Derivable (blake3 : Bytes → Digest) (assets : OrdMap AssetId Asset) (packs : PackMap) :
    Prop where
  hashed : ∀ (id : AssetId) (asset : Asset), assets[id]? = some asset →
    asset.contentHash = asset.expectedContentHash blake3
  nonempty : ∀ (id : AssetId) (pack : Pack), packs[id]? = some pack → pack.members.isEmpty = false
  closed : ∀ (id : AssetId) (pack : Pack), packs[id]? = some pack → Closed assets packs pack

theorem refreshedMember_eq (hassets : ∀ (id : AssetId) (asset : Asset), assets[id]? = some asset →
      asset.contentHash = asset.expectedContentHash blake3) {member : AssetId} :
    (∀ metadata, refreshedMember blake3 assets packs member = .ok metadata →
      memberRecord assets packs member = some metadata) ∧
    ∀ e, refreshedMember blake3 assets packs member = .error e → member ∉ assets ∧ member ∉ packs := by
  unfold refreshedMember memberRecord
  cases hasset : assets[member]? with
  | some asset =>
    dsimp only
    rw [decide_eq_false (not_not.mpr (hassets member asset hasset))]
    exact ⟨fun _ h => by cases h; rfl, fun _ h => nomatch h⟩
  | none =>
    cases hpack : packs[member]? with
    | some pack => exact ⟨fun _ h => by cases h; rfl, fun _ h => nomatch h⟩
    | none => exact ⟨fun _ h => (nomatch h), fun _ _ =>
        ⟨OrdMap.getElem?_eq_none.mp hasset, OrdMap.getElem?_eq_none.mp hpack⟩⟩

theorem memberRecords_eq_of_forall₂ {pack : Pack} {members : List PackMemberMetadata}
    (h : List.Forall₂ (fun member metadata => memberRecord assets packs member = some metadata)
      pack.members.keys members) : memberRecords assets packs pack = members := by
  unfold memberRecords
  generalize pack.members.keys = keys at h
  induction h with
  | nil => rfl
  | cons hrecord _ ih => rw [List.filterMap_cons_some hrecord, ih]

theorem Derived.congr {packs' : PackMap} {pack : Pack} (h : Derived blake3 assets packs pack)
    (hrecords : ∀ member ∈ pack.members,
      memberRecord assets packs' member = memberRecord assets packs member) :
    Derived blake3 assets packs' pack := by
  have hall : memberRecords assets packs' pack = memberRecords assets packs pack :=
    List.filterMap_congr fun member hmember => hrecords member (ExtTreeMap.mem_keys.mp hmember)
  unfold Derived
  rw [hall]
  exact h

theorem SamePacks.mem_nestedPacks {packs' : PackMap} (h : SamePacks packs packs') {id member : AssetId}
    {pack : Pack} (hpack : packs'[id]? = some pack) (hmember : member ∈ pack.members)
    (hknown : member ∈ packs) : member ∈ nestedPacks packs id := by
  rw [← h.nestedPacks_eq]
  exact mem_nestedMembers.mpr ⟨⟨pack, hpack, hmember⟩, h.mem_iff.mpr hknown⟩

/-- What the last step for a pack makes of a state that has visited its members. -/
theorem Refreshing.modify {s : RefreshState} {id : AssetId} {pack now : Pack}
    {members : List PackMemberMetadata} {derived : DerivedPackFields}
    (hs : Refreshing blake3 assets packs s) (hid : id ∉ s.visited)
    (hnow : s.packs[id]? = some now) (hsame : draftFromPack now = draftFromPack pack)
    (hbelow : ∀ member ∈ nestedPacks packs id, member ∈ s.visited)
    (hmembers : List.Forall₂ (fun member metadata =>
      memberRecord assets s.packs member = some metadata) pack.members.keys members)
    (hderived : derivePackFields members = .ok derived) {visiting : OrdSet AssetId}
    (hvisiting : ∀ other ∈ visiting, other ≠ id ∧ other ∉ s.visited) :
    Refreshing blake3 assets packs
      ⟨s.packs.modify id fun pack => pack.derived blake3 members derived, visiting,
        s.visited.insert id⟩ := by
  have hkeys : now.members.keys = pack.members.keys := keys_of_draftFromPack hsame
  have hids : pack.members.keys = members.map PackMemberMetadata.id := by
    have hall : List.Forall₂ (fun member (metadata : PackMemberMetadata) => member = metadata.id)
        pack.members.keys members := hmembers.imp fun _ _ hrecord => (memberRecord_id hrecord).symm
    have hall := List.forall₂_map_right_iff.mpr hall
    rwa [List.forall₂_eq_eq_eq] at hall
  have hdraft : draftFromPack (now.derived blake3 members derived) = draftFromPack now := by
    refine draftFromPack_derived fun k => ?_
    rw [← hids, packMembers, OrdMap.mem_keySet, ← hkeys, ExtTreeMap.mem_keys]
  have hknown : id ∈ packs := hs.same.mem_iff.mp (OrdMap.mem_iff_getElem?.mpr ⟨now, hnow⟩)
  have hother : ∀ (k : AssetId) (other : Pack), s.packs[k]? = some other →
      (∀ member ∈ nestedPacks packs k, member ∈ s.visited) → ∀ member ∈ other.members,
      memberRecord assets (s.packs.modify id fun pack => pack.derived blake3 members derived)
        member = memberRecord assets s.packs member := by
    intro k other hk hvisited member hmember
    refine memberRecord_modify fun he => hid ?_
    rw [he] at hmember
    exact hvisited id (hs.same.mem_nestedPacks hk hmember hknown)
  have hself : ∀ member ∈ pack.members, memberRecord assets
      (s.packs.modify id fun pack => pack.derived blake3 members derived) member =
        memberRecord assets s.packs member := by
    intro member hmember
    refine hother id now hnow hbelow member ?_
    rwa [← ExtTreeMap.mem_keys, hkeys, ExtTreeMap.mem_keys]
  refine ⟨fun k => ?_, fun k hk hin => ?_, fun k hk member hmember => ?_, fun k hk => ?_⟩
  · rw [samePacks_modify (f := fun pack => pack.derived blake3 members derived) hnow hdraft k]
    exact hs.same k
  · obtain ⟨hne, hnot⟩ := hvisiting k hk
    rw [ExtTreeSet.mem_insert] at hin
    rcases hin with heq | hin
    · exact hne (LawfulEqCmp.eq_of_compare heq).symm
    · exact hnot hin
  · rw [ExtTreeSet.mem_insert] at hk ⊢
    rcases hk with heq | hk
    · rw [← LawfulEqCmp.eq_of_compare heq] at hmember
      exact .inr (hbelow member hmember)
    · exact .inr (hs.below k hk member hmember)
  · rw [ExtTreeSet.mem_insert] at hk
    by_cases hne : id = k
    · subst hne
      refine ⟨now.derived blake3 members derived, ?_, ?_⟩
      · rw [ExtTreeMap.getElem?_modify_self, hnow, Option.map_some]
      · have hrecords : memberRecords assets (s.packs.modify id fun pack =>
            pack.derived blake3 members derived) (now.derived blake3 members derived) = members := by
          refine memberRecords_eq_of_forall₂ ?_
          rw [keys_of_draftFromPack hdraft, hkeys]
          refine ((List.forall₂_and_left _ _).mpr ⟨fun _ hmember => hmember, hmembers⟩).imp ?_
          rintro member metadata ⟨hmember, hrecord⟩
          exact (hself member (ExtTreeMap.mem_keys.mp hmember)).trans hrecord
        unfold Derived
        rw [hrecords]
        exact ⟨derived, hderived, derived_derived⟩
    · have hk : k ∈ s.visited := by
        rcases hk with heq | hk
        · exact absurd (LawfulEqCmp.eq_of_compare heq) hne
        · exact hk
      obtain ⟨other, hget, hkderived⟩ := hs.derived k hk
      refine ⟨other, ?_, hkderived.congr (hother k other hget (hs.below k hk))⟩
      rw [ExtTreeMap.getElem?_modify, if_neg fun heq => hne (LawfulEqCmp.eq_of_compare heq)]
      exact hget

theorem refresh_ends (hderivable : Derivable blake3 assets packs) {remaining : Nat} {id : AssetId}
    (hid : id ∈ packs) {s : RefreshState} (hs : Refreshing blake3 assets packs s) :
    Ends (refresh blake3 assets remaining id) s
      (fun _ t => Refreshing blake3 assets packs t ∧ t.visiting = s.visiting ∧ id ∈ t.visited ∧
        ∀ other ∈ s.visited, other ∈ t.visited)
      fun _ => Refused (nestedPacks packs) remaining id s.visiting := by
  induction remaining generalizing id s with
  | zero =>
    simp only [refresh, ends_bind, ends_get]
    split
    · rename_i hvisited
      exact ⟨hs, rfl, ExtTreeSet.contains_iff_mem.mp hvisited, fun _ h => h⟩
    · exact .inl fun h => h
  | succ remaining ih =>
    simp only [refresh, ends_bind, ends_get]
    split
    · rename_i hvisited
      exact ⟨hs, rfl, ExtTreeSet.contains_iff_mem.mp hvisited, fun _ h => h⟩
    split
    · rename_i hvisiting
      exact .inr ⟨id, ExtTreeSet.contains_iff_mem.mp hvisiting, .refl⟩
    rename_i hvisited hvisiting
    rw [ExtTreeSet.contains_iff_mem] at hvisited hvisiting
    simp only [ends_bind, ends_set]
    obtain ⟨first, hfirst⟩ := OrdMap.mem_iff_getElem?.mp hid
    obtain ⟨pack, hpack, hdraft⟩ := hs.same.get hfirst
    have hkeys : ∀ member, member ∈ pack.members ↔ member ∈ first.members := fun member => by
      rw [← ExtTreeMap.mem_keys, keys_of_draftFromPack hdraft, ExtTreeMap.mem_keys]
    have hsome : pack.members.isEmpty = false :=
      (isEmpty_of_draftFromPack hdraft).trans (hderivable.nonempty id first hfirst)
    have hstart : Refreshing blake3 assets packs ⟨s.packs, s.visiting.insert id, s.visited⟩ := by
      refine ⟨hs.same, fun other hother => ?_, hs.below, hs.derived⟩
      rw [ExtTreeSet.mem_insert] at hother
      rcases hother with heq | hother
      · rwa [← LawfulEqCmp.eq_of_compare heq]
      · exact hs.apart other hother
    rw [hpack]
    dsimp only
    rw [if_neg (by rw [hsome]; exact Bool.false_ne_true), ends_bind]
    refine (ends_forM_all (I := fun t : RefreshState => Refreshing blake3 assets packs t ∧
        t.visiting = s.visiting.insert id ∧ ∀ other ∈ s.visited, other ∈ t.visited)
      (P := fun member t => member ∈ packs → member ∈ t.visited)
      ⟨hstart, rfl, fun _ h => h⟩ fun member hmember t ht => ?_).mono (fun _ t ht => ?_)
        fun _ h => h
    · obtain ⟨ht, hvisit, hmore⟩ := ht
      simp only [ends_bind, ends_get]
      split
      · rename_i hknown
        rw [ExtTreeMap.contains_iff_mem, ht.same.mem_iff] at hknown
        have hnested := hs.same.mem_nestedPacks hpack (ExtTreeMap.mem_keys.mp hmember) hknown
        refine (ih hknown ht).mono ?_ fun _ hrefused => ?_
        · rintro _ u ⟨hu, hvisit', hin, hmore'⟩
          exact ⟨⟨hu, hvisit'.trans hvisit, fun other hother => hmore' other (hmore other hother)⟩,
            fun _ => hin, fun other hother hin => hmore' other (hother hin)⟩
        · rw [hvisit] at hrefused
          exact hrefused.of_member hnested
      · rename_i hunknown
        rw [ExtTreeMap.contains_iff_mem, ht.same.mem_iff] at hunknown
        exact ⟨⟨ht, hvisit, hmore⟩, fun hin => absurd hin hunknown, fun _ h => h⟩
    · obtain ⟨⟨ht, hvisit, hmore⟩, hall, -⟩ := ht
      rw [ends_bind]
      refine (ends_mapM (I := fun u : RefreshState => u = t)
        (P := fun member (metadata : PackMemberMetadata) =>
          memberRecord assets t.packs member = some metadata) rfl
        fun member hmember u hu => ?_).mono (fun members u hu => ?_) fun _ h => h
      · subst hu
        simp only [ends_bind, ends_get, ends_lift]
        obtain ⟨hok, herror⟩ := @refreshedMember_eq blake3 assets u.packs hderivable.hashed member
        refine ⟨fun metadata hm => ⟨hok metadata hm, trivial⟩, fun e he => ?_⟩
        obtain ⟨hasset, hpack'⟩ := herror e he
        have hknown := hderivable.closed id first hfirst member
          ((hkeys member).mp (ExtTreeMap.mem_keys.mp hmember))
        rw [ht.same.mem_iff] at hpack'
        exact absurd hknown (not_or.mpr ⟨hasset, hpack'⟩)
      · obtain ⟨hmembers, rfl⟩ := hu
        have hnot : id ∉ u.visited := ht.apart id (by
          rw [hvisit, ExtTreeSet.mem_insert]
          exact .inl ReflCmp.compare_self)
        obtain ⟨now, hnow, hdraft'⟩ := ht.same.get hfirst
        simp only [ends_bind, ends_lift, ends_modify]
        constructor
        · intro derived hderived
          have hvisiting' : (u.visiting.erase id) = s.visiting := by
            rw [hvisit]
            exact erase_insert hvisiting
          refine ⟨ht.modify hnot hnow (hdraft'.trans hdraft.symm) (fun member hmember => ?_)
            hmembers hderived (fun other hother => ?_), hvisiting', ?_, fun other hother => ?_⟩
          · obtain ⟨⟨other, hother, hin⟩, hknown⟩ := mem_nestedMembers.mp hmember
            rw [hfirst] at hother
            cases hother
            exact hall member (ExtTreeMap.mem_keys.mpr ((hkeys member).mpr hin)) hknown
          · rw [ExtTreeSet.mem_erase] at hother
            refine ⟨fun he => hother.1 ?_, ht.apart other hother.2⟩
            rw [he]
            exact ReflCmp.compare_self
          · exact ExtTreeSet.mem_insert.mpr (.inl ReflCmp.compare_self)
          · exact ExtTreeSet.mem_insert.mpr (.inr (hmore other hother))
        · intro e he
          have hne : members ≠ [] := by
            rintro rfl
            rw [List.forall₂_nil_right_iff] at hmembers
            rw [ExtTreeMap.isEmpty_eq_size_beq_zero, ← ExtTreeMap.length_keys, hmembers] at hsome
            contradiction
          obtain ⟨derived, hderived⟩ := derivePackFields_ok hne
          rw [hderived] at he
          contradiction

/-- A refresh of packs that can be derived goes through, and derives each of them. -/
theorem refresh_all (hderivable : Derivable blake3 assets packs)
    (hadmissible : Admissible packs Pack.members) :
    ∃ s : RefreshState, (packs.keys.forM fun id => refresh blake3 assets maxPackGraphDepth id).run
        ⟨packs, ∅, ∅⟩ = .ok ((), s) ∧ SamePacks packs s.packs ∧
      ∀ (id : AssetId) (pack : Pack), s.packs[id]? = some pack →
        Derived blake3 assets s.packs pack := by
  have hstart : Refreshing blake3 assets packs ⟨packs, ∅, ∅⟩ :=
    ⟨fun _ => rfl, fun _ h => absurd h ExtTreeSet.not_mem_empty,
      fun _ h => absurd h ExtTreeSet.not_mem_empty, fun _ h => absurd h ExtTreeSet.not_mem_empty⟩
  have hends : Ends (packs.keys.forM fun id => refresh blake3 assets maxPackGraphDepth id)
      ⟨packs, ∅, ∅⟩ (fun _ t => (Refreshing blake3 assets packs t ∧ t.visiting = ∅) ∧
        (∀ id ∈ packs.keys, id ∈ t.visited) ∧ ∀ id, id ∈ (∅ : OrdSet AssetId) → id ∈ t.visited)
      fun _ => False := by
    refine ends_forM_all (I := fun t : RefreshState => Refreshing blake3 assets packs t ∧
      t.visiting = ∅) (P := fun id t => id ∈ t.visited) ⟨hstart, rfl⟩ fun id hid t ht => ?_
    have hknown := ExtTreeMap.mem_keys.mp hid
    refine (refresh_ends hderivable hknown ht.1).mono ?_ fun _ hrefused => ?_
    · rintro _ u ⟨hu, hvisiting, hin, hmore⟩
      exact ⟨⟨hu, hvisiting.trans ht.2⟩, hin, hmore⟩
    · rw [ht.2] at hrefused
      rcases hrefused with hunbounded | ⟨above, habove, -⟩
      · exact hunbounded (hadmissible.bounded hknown)
      · exact ExtTreeSet.not_mem_empty habove
  obtain ⟨⟨⟩, s, hrun, ⟨hs, -⟩, hall, -⟩ := ok_of_ends hends
  refine ⟨s, hrun, hs.same, fun id pack hpack => ?_⟩
  have hknown := hs.same.mem_iff.mp (OrdMap.mem_iff_getElem?.mpr ⟨pack, hpack⟩)
  obtain ⟨other, hother, hderived⟩ := hs.derived id (hall id (ExtTreeMap.mem_keys.mpr hknown))
  rw [hpack] at hother
  cases hother
  exact hderived

end Walk

section Establishment

variable {blake3 : Bytes → Digest} {m : EnvironmentManifest} {packs : PackMap}

/-- The pack graph can be refreshed, and assets, profiles and declared bindings are valid. -/
structure Refreshable (blake3 : Bytes → Digest) (m : EnvironmentManifest) : Prop where
  assets : m.assets.toList.forM (validateAsset blake3 m) = .ok ()
  budget : (m.packs.values.map fun pack => pack.members.size).sum ≤ maxPackMemberEdges
  admissible : Admissible m.packs Pack.members
  nonempty : ∀ (id : AssetId) (pack : Pack), m.packs[id]? = some pack →
    pack.members.isEmpty = false
  closed : ∀ (id : AssetId) (pack : Pack), m.packs[id]? = some pack →
    Closed m.assets m.packs pack
  profiles : m.profiles.toList.forM (validateProfile m) = .ok ()
  profileCycles : rejectProfileCycles m = .ok ()

/-- A pack is stored under its own id, which no asset has, and has the fixed resolution of its
declaration when it is authored. -/
structure Identified (blake3 : Bytes → Digest) (m : EnvironmentManifest) (id : AssetId)
    (pack : Pack) : Prop where
  authored : pack.source = .authoredPack →
    (pack.revision, pack.exactSourceHash) = Pack.authoredSourceResolution blake3 pack.id
  key : pack.id = id
  notAsset : id ∉ m.assets

theorem Identified.draft {id : AssetId} {pack pack' : Pack} (h : Identified blake3 m id pack)
    (hsame : draftFromPack pack = draftFromPack pack') : Identified blake3 m id pack' := by
  have hid : pack.id = pack'.id := congrArg PackDraft.id hsame
  have hsource : packSource pack = packSource pack' := congrArg PackDraft.source hsame
  unfold packSource at hsource
  simp only [PackSourceDraft.mk.injEq] at hsource
  obtain ⟨hsource, hrevision, hhash⟩ := hsource
  refine ⟨?_, hid ▸ h.key, h.notAsset⟩
  rw [← hsource, ← hrevision, ← hhash, ← hid]
  exact h.authored

theorem forM_validateAsset : m.assets.toList.forM (validateAsset blake3 m) = .ok () ↔
    ∀ (id : AssetId) (asset : Asset), m.assets[id]? = some asset →
      validateAsset blake3 m (id, asset) = .ok () := by
  refine (OrdMap.forM_iff (Outcome.ok _)).trans ?_
  simp only [Outcome.ok, Prod.forall, ExtTreeMap.mem_toList_iff_getElem?_eq_some]

theorem derivable_of_refreshable (h : Refreshable blake3 m) : Derivable blake3 m.assets m.packs :=
  ⟨fun id asset hasset => (validateAsset_eq_ok (forM_validateAsset.mp h.assets id asset
    hasset)).contentHash, h.nonempty, h.closed⟩

/-- What the packs derive from assets requires no more than the assets do. -/
theorem derived_declared {assets : OrdMap AssetId Asset} {declared : OrdSet BindingName} {n : Nat}
    {id : AssetId} {pack : Pack}
    (hassets : ∀ (id : AssetId) (asset : Asset), assets[id]? = some asset →
      ∀ name ∈ asset.requiredBindings, name ∈ declared)
    (hderived : ∀ (id : AssetId) (pack : Pack), packs[id]? = some pack →
      Derived blake3 assets packs pack)
    (hb : Bounded (nestedPacks packs) n id) (hpack : packs[id]? = some pack) :
    ∀ name ∈ pack.requiredBindings, name ∈ declared := by
  refine hb.induction (P := fun id => ∀ pack : Pack, packs[id]? = some pack →
    ∀ name ∈ pack.requiredBindings, name ∈ declared) (fun id ih pack hpack => ?_) pack hpack
  obtain ⟨derived, hfields, hself⟩ := hderived id pack hpack
  have hbindings : derived.requiredBindings = pack.requiredBindings :=
    (derived_eq_self_iff.mp hself).2.2.2.1
  intro name hname
  rw [← hbindings, (derivePackFields_aggregated hfields).requiredBindings] at hname
  obtain ⟨metadata, hmetadata, hname⟩ := hname
  obtain ⟨member, hmember, hrecord⟩ := mem_memberRecords.mp hmetadata
  unfold memberRecord at hrecord
  cases hasset : assets[member]? with
  | some asset =>
    simp only [hasset, Option.some.injEq] at hrecord
    rw [← hrecord] at hname
    exact hassets member asset hasset name hname
  | none =>
    simp only [hasset, Option.map_eq_some_iff] at hrecord
    obtain ⟨nested, hnested, rfl⟩ := hrecord
    exact ih member (mem_nestedMembers.mpr ⟨⟨pack, hpack, hmember⟩,
      OrdMap.mem_iff_getElem?.mpr ⟨nested, hnested⟩⟩) nested hnested name hname

theorem validateProfile_congr (hpacks : ∀ id, id ∈ packs ↔ id ∈ m.packs) :
    validateProfile { m with packs } = validateProfile m := by
  have hcontains : packs.contains = m.packs.contains := by
    funext k
    rw [Bool.eq_iff_iff, ExtTreeMap.contains_iff_mem, ExtTreeMap.contains_iff_mem]
    exact hpacks k
  funext entry
  unfold validateProfile
  dsimp only
  rw [hcontains]

theorem walkProfiles_congr {visited : OrdSet ProfileId} {fuel : Nat} {visiting : OrdSet ProfileId}
    {root : Option ProfileId} :
    walkProfiles { m with packs } visited fuel visiting root =
      walkProfiles m visited fuel visiting root := by
  induction fuel generalizing visiting root with
  | zero => cases root <;> rfl
  | succ fuel ih =>
    cases root with
    | none => rfl
    | some id => simp only [walkProfiles, ih]

theorem rejectProfileCycles_congr :
    rejectProfileCycles { m with packs } = rejectProfileCycles m := by
  unfold rejectProfileCycles
  simp only [walkProfiles_congr]

theorem SamePacks.sizes (h : SamePacks m.packs packs) :
    (packs.values.map fun pack => pack.members.size) =
      m.packs.values.map fun pack => pack.members.size := by
  rw [← OrdMap.values_map, ← OrdMap.values_map]
  congr 1
  refine ExtTreeMap.ext_getElem? fun id => ?_
  rw [ExtTreeMap.getElem?_map, ExtTreeMap.getElem?_map]
  cases hpack : m.packs[id]? with
  | none =>
    have hnone := h id
    rw [hpack, Option.map_none, Option.map_eq_none_iff] at hnone
    rw [hnone]
  | some pack =>
    obtain ⟨pack', hpack', hdraft⟩ := h.get hpack
    rw [hpack', Option.map_some, Option.map_some, size_of_draftFromPack hdraft]

theorem refreshPackRevisions_run (hbudget : (m.packs.values.map fun pack =>
      pack.members.size).sum ≤ maxPackMemberEdges) (hadmissible : Admissible m.packs Pack.members)
    {s : RefreshState} (hrun : (m.packs.keys.forM fun id =>
      refresh blake3 m.assets maxPackGraphDepth id).run ⟨m.packs, ∅, ∅⟩ = .ok ((), s))
    (hvalid : ({ m with packs := s.packs } : EnvironmentManifest).validate blake3 = .ok ()) :
    m.refreshPackRevisions blake3 = .ok { m with packs := s.packs } := by
  unfold EnvironmentManifest.refreshPackRevisions
  rw [validatePackMemberBudget_eq_ok.mpr hbudget, validatePackGraphDepth_eq_ok.mpr hadmissible]
  refine bind_eq_ok_iff.mpr ⟨⟨⟩, rfl, bind_eq_ok_iff.mpr ⟨⟨⟩, rfl, bind_eq_ok_iff.mpr
    ⟨_, hrun, bind_eq_ok_iff.mpr ⟨⟨⟩, hvalid, rfl⟩⟩⟩⟩

/-- A refresh establishes validity. -/
theorem refreshPackRevisions_ok (h : Refreshable blake3 m)
    (hidentified : ∀ (id : AssetId) (pack : Pack), m.packs[id]? = some pack →
      Identified blake3 m id pack) : ∃ refreshed, m.refreshPackRevisions blake3 = .ok refreshed := by
  obtain ⟨s, hrun, hsame, hderived⟩ := refresh_all (derivable_of_refreshable h) h.admissible
  refine ⟨_, refreshPackRevisions_run h.budget h.admissible hrun (validate_eq_ok.mpr ?_)⟩
  have hadmissible : Admissible s.packs Pack.members := by
    rw [admissible_iff]
    intro id hid
    change Bounded (nestedPacks s.packs) maxPackGraphDepth id
    rw [hsame.nestedPacks_eq]
    exact h.admissible.bounded (hsame.mem_iff.mp hid)
  refine
    { assets := h.assets
      budget := ?_
      packs := fun id pack hpack => ?_
      admissible := hadmissible
      derived := hderived
      profiles := ?_
      profileCycles := rejectProfileCycles_congr.trans h.profileCycles }
  · change (s.packs.values.map fun pack => pack.members.size).sum ≤ _
    rw [hsame.sizes]
    exact h.budget
  · obtain ⟨first, hfirst, hdraft⟩ := hsame.symm.get hpack
    have hbounded := hadmissible.bounded (OrdMap.mem_iff_getElem?.mpr ⟨pack, hpack⟩)
    have hmembers : ∀ member, member ∈ pack.members ↔ member ∈ first.members := fun member => by
      rw [← ExtTreeMap.mem_keys, ← keys_of_draftFromPack hdraft, ExtTreeMap.mem_keys]
    obtain ⟨hauthored, hkey, hnotAsset⟩ := (hidentified id first hfirst).draft hdraft
    refine ⟨hauthored, hkey, hnotAsset, derived_declared (fun id asset hasset =>
      (validateAsset_eq_ok (forM_validateAsset.mp h.assets id asset hasset)).requiredBindings)
      hderived hbounded hpack, ?_, fun member hmember => ?_⟩
    · exact (isEmpty_of_draftFromPack hdraft).symm.trans (h.nonempty id first hfirst)
    · have hknown := h.closed id first hfirst member ((hmembers member).mp hmember)
      rw [← hsame.mem_iff] at hknown
      exact hknown
  · rw [validateProfile_congr fun id => hsame.mem_iff]
    exact h.profiles

theorem ValidManifest.refreshable (h : ValidManifest blake3 m) : Refreshable blake3 m :=
  ⟨h.assets, h.budget, h.admissible, fun id pack hpack => (h.packs id pack hpack).nonempty,
    fun id pack hpack => (h.packs id pack hpack).known, h.profiles, h.profileCycles⟩

/-- A refresh of a valid manifest changes nothing. -/
theorem refreshPackRevisions_self (h : m.validate blake3 = .ok ()) :
    m.refreshPackRevisions blake3 = .ok m := by
  have hvalid := validate_eq_ok.mp h
  obtain ⟨s, hrun, hsame, hderived⟩ :=
    refresh_all (derivable_of_refreshable hvalid.refreshable) hvalid.admissible
  have hpacks : s.packs = m.packs := by
    refine ExtTreeMap.ext_getElem? fun id => ?_
    by_cases hid : id ∈ m.packs
    · exact derived_unique hsame hvalid.derived hderived (hvalid.admissible.bounded hid)
    · rw [OrdMap.getElem?_eq_none.mpr hid,
        OrdMap.getElem?_eq_none.mpr fun hin => hid (hsame.mem_iff.mp hin)]
  have hsame : ({ m with packs := s.packs } : EnvironmentManifest) = m := by rw [hpacks]
  rw [refreshPackRevisions_run hvalid.budget hvalid.admissible hrun (hsame.symm ▸ h), hsame]

/-- A refresh makes a manifest valid when only what its packs derive may be wrong, changes nothing
but that, and leaves a valid manifest as it is. -/
theorem refresh_establishes_validity (blake3 : Bytes → Digest) :
    (∀ m : EnvironmentManifest, Refreshable blake3 m →
      (∀ (id : AssetId) (pack : Pack), m.packs[id]? = some pack → Identified blake3 m id pack) →
      ∃ refreshed, m.refreshPackRevisions blake3 = .ok refreshed ∧
        refreshed.validate blake3 = .ok () ∧ refreshed.assets = m.assets ∧
        refreshed.profiles = m.profiles ∧ refreshed.requiredBindings = m.requiredBindings ∧
        (∀ id : AssetId, id ∈ refreshed.packs ↔ id ∈ m.packs) ∧
        ∀ (id : AssetId) (pack : Pack), m.packs[id]? = some pack →
          ∃ pack', refreshed.packs[id]? = some pack' ∧ pack'.id = pack.id ∧
            pack'.source = pack.source ∧ pack'.revision = pack.revision ∧
            pack'.exactSourceHash = pack.exactSourceHash ∧
            ∀ member, member ∈ pack'.members ↔ member ∈ pack.members) ∧
    ∀ m : EnvironmentManifest, m.validate blake3 = .ok () → m.refreshPackRevisions blake3 = .ok m := by
  refine ⟨fun m h hidentified => ?_, fun m h => refreshPackRevisions_self h⟩
  obtain ⟨refreshed, hrefreshed⟩ := refreshPackRevisions_ok h hidentified
  obtain ⟨hvalid, hassets, hsame, hprofiles, hbindings⟩ := refreshPackRevisions_eq_ok hrefreshed
  refine ⟨refreshed, hrefreshed, hvalid, hassets, hprofiles, hbindings, fun id => hsame.mem_iff,
    fun id pack hpack => ?_⟩
  obtain ⟨pack', hpack', hdraft⟩ := hsame.get hpack
  have hsource : packSource pack' = packSource pack := congrArg PackDraft.source hdraft
  unfold packSource at hsource
  simp only [PackSourceDraft.mk.injEq] at hsource
  refine ⟨pack', hpack', congrArg PackDraft.id hdraft, hsource.1, hsource.2.1, hsource.2.2,
    fun member => ?_⟩
  rw [← ExtTreeMap.mem_keys, keys_of_draftFromPack hdraft, ExtTreeMap.mem_keys]

end Establishment

section Sample

/-- Packs of which each has one defect that no refresh repairs: a wrong key, the id of an asset,
another resolution than its declaration's. -/
def misplacedPacks : List (AssetId × Pack) :=
  [(outerId, nestedPack innerId [alphaId]), (betaId, nestedPack betaId [alphaId]),
    (innerId, { nestedPack innerId [alphaId] with revision := ⟨ascii "other", by decide +kernel,
      by decide +kernel⟩ })]

def misplacedManifest (entry : AssetId × Pack) : EnvironmentManifest :=
  { nestedManifest with packs := OrdMap.mapOf [entry] }

theorem refreshable_of_checks {blake3 : Bytes → Digest} {m : EnvironmentManifest}
    (hassets : m.assets.toList.forM (validateAsset blake3 m) = .ok ())
    (hbudget : validatePackMemberBudget m.packs "manifest.pack_member_limit_exceeded" = .ok ())
    (hdepth : validatePackGraphDepth m.packs = .ok ())
    (hpacks : ∀ entry ∈ m.packs.toList, entry.2.members.isEmpty = false ∧
      ∀ member ∈ entry.2.members.keys, (m.assets.contains member || m.packs.contains member) = true)
    (hprofiles : m.profiles.toList.forM (validateProfile m) = .ok ())
    (hcycles : rejectProfileCycles m = .ok ()) : Refreshable blake3 m := by
  simp only [Prod.forall, ExtTreeMap.mem_toList_iff_getElem?_eq_some, ExtTreeMap.mem_keys,
    Bool.or_eq_true, ExtTreeMap.contains_iff_mem] at hpacks
  exact ⟨hassets, validatePackMemberBudget_eq_ok.mp hbudget, validatePackGraphDepth_eq_ok.mp hdepth,
    fun id pack hpack => (hpacks id pack hpack).1, fun id pack hpack => (hpacks id pack hpack).2,
    hprofiles, hcycles⟩

theorem refresh_misplaced_sample : misplacedPacks.Forall fun entry =>
    Refreshable nestedDigest (misplacedManifest entry) ∧
      ∀ refreshed, (misplacedManifest entry).refreshPackRevisions nestedDigest ≠ .ok refreshed := by
  have hrefused : ∀ entry ∈ misplacedPacks,
      ((misplacedManifest entry).refreshPackRevisions nestedDigest).toOption = none := by
    decide +kernel
  refine List.forall_iff_forall_mem.mpr fun entry hentry => ⟨?_, fun refreshed h => ?_⟩
  · refine refreshable_of_checks ?_ ?_ ?_ ?_ ?_ ?_ <;> revert entry <;> decide +kernel
  · have hnone := hrefused entry hentry
    rw [h] at hnone
    cases hnone

/-- The nested packs with members at other revisions than theirs. -/
def staleManifest : EnvironmentManifest :=
  { nestedManifest with
    packs := nestedManifest.packs.map fun _ pack =>
      { pack with contentHash := changedHash, members := pack.members.map fun _ _ => changedHash } }

theorem refresh_establishes_validity_sample : ∃ refreshed,
    staleManifest.refreshPackRevisions nestedDigest = .ok refreshed ∧
      refreshed.validate nestedDigest = .ok () ∧ staleManifest.validate nestedDigest ≠ .ok () ∧
      nestedManifest.refreshPackRevisions nestedDigest = .ok nestedManifest := by
  obtain ⟨hrefresh, hself⟩ := refresh_establishes_validity nestedDigest
  have hidentified : ∀ entry ∈ staleManifest.packs.toList,
      (entry.2.source = .authoredPack → (entry.2.revision, entry.2.exactSourceHash) =
        Pack.authoredSourceResolution nestedDigest entry.2.id) ∧ entry.2.id = entry.1 ∧
      staleManifest.assets.contains entry.1 = false := by decide +kernel
  simp only [Prod.forall, ExtTreeMap.mem_toList_iff_getElem?_eq_some] at hidentified
  obtain ⟨refreshed, hrefreshed, hvalid, -⟩ := hrefresh staleManifest
    (refreshable_of_checks (by decide +kernel) (by decide +kernel) (by decide +kernel)
      (by decide +kernel) (by decide +kernel) (by decide +kernel))
    fun id pack hpack => by
      obtain ⟨hauthored, hkey, hasset⟩ := hidentified id pack hpack
      refine ⟨hauthored, hkey, ?_⟩
      rw [← ExtTreeMap.contains_iff_mem, hasset]
      exact Bool.false_ne_true
  exact ⟨refreshed, hrefreshed, hvalid, by decide +kernel, hself nestedManifest (by decide +kernel)⟩

end Sample

end Kitrove
