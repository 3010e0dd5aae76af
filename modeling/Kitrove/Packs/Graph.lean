import Kitrove.Model.Lockfile
import Kitrove.Support.Graph
import Kitrove.Support.Stateful

/-! The searches through the pack graph accept exactly the graphs without cycles and without
chains beyond the depth limit. -/

namespace Kitrove

open Std Graph Stateful Except

section Height

variable {nested : AssetId → List AssetId} {depthError cycleError : ValidationError}
  {remaining : Nat} {id : AssetId}

/-- Every height in the memo is the height of its pack. -/
def Known (nested : AssetId → List AssetId) (memo : OrdMap AssetId Nat) : Prop :=
  ∀ (id : AssetId) (h : Nat), memo[id]? = some h → IsHeight nested id h

/-- A search below a pack fails when a chain is too long, or comes back to a pack above. -/
def Refused (nested : AssetId → List AssetId) (remaining : Nat) (id : AssetId)
    (visiting : OrdSet AssetId) : Prop :=
  ¬ Bounded nested remaining id ∨ ∃ above ∈ visiting, Reaches nested id above

theorem Refused.of_member {visiting : OrdSet AssetId} {member : AssetId}
    (hmember : member ∈ nested id) (h : Refused nested remaining member (visiting.insert id)) :
    Refused nested (remaining + 1) id visiting := by
  rcases h with hunbounded | ⟨above, habove, hreaches⟩
  · exact .inl fun hbounded => hunbounded (hbounded member hmember)
  · rw [ExtTreeSet.mem_insert] at habove
    rcases habove with heq | habove
    · rw [← LawfulEqCmp.eq_of_compare heq] at hreaches
      exact .inl fun hbounded => hbounded.not_cycle (.head' hmember hreaches)
    · exact .inr ⟨above, habove, .head hmember hreaches⟩

theorem erase_insert {s : OrdSet AssetId} (h : id ∉ s) : (s.insert id).erase id = s := by
  refine ExtTreeSet.ext_mem fun k => ?_
  rw [ExtTreeSet.mem_erase, ExtTreeSet.mem_insert]
  constructor
  · rintro ⟨hne, heq | hk⟩
    · exact absurd heq hne
    · exact hk
  · intro hk
    refine ⟨fun heq => h ?_, .inr hk⟩
    rwa [LawfulEqCmp.eq_of_compare heq]

/-- The search gives the height of a pack, or there is a reason to refuse it. -/
theorem height_ends {s : HeightState} (hremaining : remaining ≤ maxPackGraphDepth)
    (hs : Known nested s.memo) :
    Ends (height nested depthError cycleError remaining id) s
      (fun h t => IsHeight nested id h ∧ h ≤ remaining ∧ Known nested t.memo ∧
        t.visiting = s.visiting)
      fun _ => Refused nested remaining id s.visiting := by
  induction remaining generalizing id s with
  | zero => exact .inl fun h => h
  | succ remaining ih =>
    simp only [height, ends_bind, ends_get]
    cases hmemo : s.memo[id]? with
    | some known =>
      have hheight := hs id known hmemo
      dsimp only
      split
      · refine .inl fun hbounded => ?_
        have hle := hheight.least _ hbounded
        omega
      · exact ⟨hheight, by omega, hs, rfl⟩
    | none =>
      dsimp only
      split
      · rename_i hvisiting
        exact .inr ⟨id, ExtTreeSet.contains_iff_mem.mp hvisiting, .refl⟩
      · rename_i hvisiting
        have hnot : id ∉ s.visiting := fun h => hvisiting (ExtTreeSet.contains_iff_mem.mpr h)
        rw [ends_bind, ends_set, ends_bind]
        refine (ends_foldlM (I := fun done (result : Nat) (t : HeightState) =>
          (∀ member ∈ done, ∃ k, IsHeight nested member k ∧ k + 1 ≤ result) ∧
          (result = 1 ∨ ∃ member ∈ done, IsHeight nested member (result - 1)) ∧
          0 < result ∧ result ≤ remaining + 1 ∧ Known nested t.memo ∧
          t.visiting = s.visiting.insert id) ?_ ?_).mono ?_ fun _ h => h
        · exact ⟨(fun _ h => absurd h List.not_mem_nil), .inl rfl, Nat.one_pos,
            Nat.succ_le_succ (Nat.zero_le _), hs, rfl⟩
        · rintro done member result t hmember ⟨hall, hreached, hpos, hle, hknown, hvisit⟩
          rw [ends_bind]
          refine (ih (Nat.le_of_succ_le hremaining) hknown).mono ?_ fun _ herror => ?_
          · rintro below u ⟨hheight, hbelow, hknown', hvisit'⟩
            have hmax : max result (below + 1) ≤ maxPackGraphDepth := by omega
            rw [if_neg (Nat.not_lt.mpr hmax), ends_pure]
            refine ⟨fun other hother => ?_, ?_, by omega, by omega, hknown', hvisit'.trans hvisit⟩
            · rcases List.mem_append.mp hother with hother | hother
              · obtain ⟨k, hk, hkle⟩ := hall other hother
                exact ⟨k, hk, by omega⟩
              · rw [List.mem_singleton.mp hother]
                exact ⟨below, hheight, by omega⟩
            · by_cases hmore : result ≤ below + 1
              · refine .inr ⟨member, by simp, ?_⟩
                rw [max_eq_right hmore]
                exact hheight
              · rw [max_eq_left (by omega)]
                refine hreached.imp_right ?_
                rintro ⟨other, hother, hheight'⟩
                exact ⟨other, List.mem_append_left _ hother, hheight'⟩
          · rw [hvisit] at herror
            exact herror.of_member hmember
        · rintro result t ⟨hall, hreached, hpos, hle, hknown, hvisit⟩
          have hheight := isHeight_of_successors hpos hall hreached
          simp only [ends_bind, ends_modify, ends_pure]
          refine ⟨hheight, hle, fun k h hk => ?_, ?_⟩
          · rw [ExtTreeMap.getElem?_insert] at hk
            split at hk
            · rename_i heq
              rw [← LawfulEqCmp.eq_of_compare heq, ← Option.some.inj hk]
              exact hheight
            · exact hknown k h hk
          · rw [hvisit]
            exact erase_insert hnot

/-- The depth of a graph is accepted when no chain from its packs is beyond the limit. -/
theorem validateGraphDepth_eq_ok {ids : List AssetId} :
    validateGraphDepth nested depthError cycleError ids = .ok () ↔
      ∀ id ∈ ids, Bounded nested maxPackGraphDepth id := by
  have hnone : Known nested (∅ : OrdMap AssetId Nat) := by
    intro id h hget
    rw [ExtTreeMap.getElem?_empty] at hget
    contradiction
  have hrun : validateGraphDepth nested depthError cycleError ids = .ok () ↔
      ∃ r, (ids.forM fun id => discard (height nested depthError cycleError maxPackGraphDepth
        id)).run ⟨∅, ∅⟩ = .ok r :=
    bind_eq_ok_iff.trans (exists_congr fun _ => and_iff_left rfl)
  rw [hrun]
  constructor
  · rintro ⟨⟨⟨⟩, t⟩, hrun⟩
    refine (ends_of_run (ends_forM_all (E := fun _ => True)
      (I := fun s : HeightState => Known nested s.memo)
      (P := fun id _ => Bounded nested maxPackGraphDepth id) hnone fun id _ s hs => ?_) hrun).2.1
    rw [ends_discard]
    refine (height_ends (Nat.le_refl _) hs).mono ?_ fun _ _ => trivial
    rintro h u ⟨hheight, hle, hknown, -⟩
    exact ⟨hknown, hheight.bounded.mono hle, fun _ hj => hj⟩
  · intro hbounded
    have hends : Ends (ids.forM fun id => discard (height nested depthError cycleError
        maxPackGraphDepth id)) ⟨∅, ∅⟩ (fun _ _ => True) fun _ => False := by
      refine (ends_forM (I := fun s : HeightState => Known nested s.memo ∧ s.visiting = ∅)
        ⟨hnone, rfl⟩ fun id hid s hs => ?_).mono (fun _ _ _ => trivial) fun _ h => h
      rw [ends_discard]
      refine (height_ends (Nat.le_refl _) hs.1).mono ?_ fun _ hrefused => ?_
      · rintro h u ⟨-, -, hknown, hvisiting⟩
        exact ⟨hknown, hvisiting.trans hs.2⟩
      · rw [hs.2] at hrefused
        rcases hrefused with hunbounded | ⟨above, habove, -⟩
        · exact hunbounded (hbounded id hid)
        · exact ExtTreeSet.not_mem_empty habove
    obtain ⟨r, t, hrun, -⟩ := ok_of_ends hends
    exact ⟨_, hrun⟩

end Height

section Visit

variable {nested : AssetId → List AssetId} {depthError : ValidationError}
  {cycleError : AssetId → ValidationError} {remaining : Nat} {id : AssetId}

theorem visit_ends {s : VisitState} :
    Ends (visit nested depthError cycleError remaining id) s
      (fun _ t => t.visiting = s.visiting) fun _ => Refused nested remaining id s.visiting := by
  induction remaining generalizing id s with
  | zero =>
    simp only [visit, ends_bind, ends_get]
    split
    · rfl
    · split <;> exact .inl fun h => h
  | succ remaining ih =>
    simp only [visit, ends_bind, ends_get]
    split
    · rfl
    split
    · rename_i hvisiting
      exact .inr ⟨id, ExtTreeSet.contains_iff_mem.mp hvisiting, .refl⟩
    · rename_i hvisiting
      have hnot : id ∉ s.visiting := fun h => hvisiting (ExtTreeSet.contains_iff_mem.mpr h)
      rw [ends_bind, ends_set, ends_bind]
      refine (ends_forM (I := fun t : VisitState => t.visiting = s.visiting.insert id) rfl
        fun member hmember t ht => ?_).mono (fun _ t ht => ?_) fun _ h => h
      · refine ih.mono (fun _ u hu => hu.trans ht) fun _ hrefused => ?_
        rw [ht] at hrefused
        exact hrefused.of_member hmember
      · rw [ends_modify, ht]
        exact erase_insert hnot

/-- A graph within the depth limit has no cycle to reject. -/
theorem rejectCycles_eq_ok {ids : List AssetId}
    (h : ∀ id ∈ ids, Bounded nested maxPackGraphDepth id) :
    rejectCycles nested depthError cycleError ids = .ok () := by
  have hends : Ends (ids.forM fun id => visit nested depthError cycleError maxPackGraphDepth id)
      ⟨∅, ∅⟩ (fun _ _ => True) fun _ => False := by
    refine (ends_forM (I := fun s : VisitState => s.visiting = ∅) rfl
      fun id hid s hs => ?_).mono (fun _ _ _ => trivial) fun _ h => h
    refine visit_ends.mono (fun _ t ht => ht.trans hs) fun _ hrefused => ?_
    rw [hs] at hrefused
    rcases hrefused with hunbounded | ⟨above, habove, -⟩
    · exact hunbounded (h id hid)
    · exact ExtTreeSet.not_mem_empty habove
  obtain ⟨r, t, hrun, -⟩ := ok_of_ends hends
  exact bind_eq_ok_iff.mpr ⟨_, hrun, rfl⟩

end Visit

section Admission

variable {P : Type} {packs : OrdMap AssetId P} {members : P → OrdMap AssetId ContentHash}
  {a b : AssetId}

/-- One pack of a map is a member of another. -/
def Nests (packs : OrdMap AssetId P) (members : P → OrdMap AssetId ContentHash)
    (a b : AssetId) : Prop :=
  (∃ pack, packs[a]? = some pack ∧ b ∈ members pack) ∧ b ∈ packs

/-- Packs without cycles and without chains beyond the limit. -/
structure Admissible (packs : OrdMap AssetId P) (members : P → OrdMap AssetId ContentHash) :
    Prop where
  acyclic : ∀ id, ¬ Relation.TransGen (Nests packs members) id id
  depth : ∀ chain : List AssetId, chain.IsChain (Nests packs members) →
    (∀ id ∈ chain, id ∈ packs) → chain.length ≤ maxPackGraphDepth

theorem mem_nestedMembers : b ∈ nestedMembers packs members a ↔ Nests packs members a b := by
  unfold nestedMembers
  cases hpack : packs[a]? with
  | none => simp [Nests, hpack]
  | some pack =>
    simp only [List.mem_filter, ExtTreeMap.mem_keys, ExtTreeMap.contains_iff_mem, Nests, hpack,
      Option.some.injEq, exists_eq_left']

theorem edge_nestedMembers : Edge (nestedMembers packs members) = Nests packs members :=
  funext fun _ => funext fun _ => propext mem_nestedMembers

theorem mem_packs_of_chain {l : List AssetId} (h : (a :: l).IsChain (Nests packs members))
    (hb : b ∈ l) : b ∈ packs := by
  induction l generalizing a with
  | nil => exact absurd hb List.not_mem_nil
  | cons c l ih =>
    rw [List.isChain_cons_cons] at h
    rcases List.mem_cons.mp hb with rfl | hb
    · exact h.1.2
    · exact ih h.2 hb

/-- The packs that the depth limit accepts. -/
theorem admissible_iff : Admissible packs members ↔
    ∀ id ∈ packs, Bounded (nestedMembers packs members) maxPackGraphDepth id := by
  constructor
  · intro h id hid
    refine bounded_iff_chain.mpr fun l hl => ?_
    rw [edge_nestedMembers] at hl
    refine h.depth _ hl fun other hother => ?_
    rcases List.mem_cons.mp hother with rfl | hother
    · exact hid
    · exact mem_packs_of_chain hl hother
  · intro h
    refine ⟨fun id hcycle => ?_, fun chain hchain hmem => ?_⟩
    · obtain ⟨first, hfirst, -⟩ := Relation.TransGen.head'_iff.mp hcycle
      obtain ⟨⟨pack, hpack, -⟩, -⟩ := hfirst
      rw [← edge_nestedMembers] at hcycle
      exact (h id (OrdMap.mem_iff_getElem?.mpr ⟨pack, hpack⟩)).not_cycle hcycle
    · cases chain with
      | nil => exact Nat.zero_le _
      | cons id rest =>
        rw [← edge_nestedMembers] at hchain
        exact bounded_iff_chain.mp (h id (hmem id List.mem_cons_self)) rest hchain

end Admission

end Kitrove
