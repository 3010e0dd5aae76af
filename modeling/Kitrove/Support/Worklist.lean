import Kitrove.Support.Graph
import Kitrove.Support.OrdMap
import Mathlib.Algebra.BigOperators.Group.Finset.Basic

/-! Searches that take the least pending node, visit it once and add what it leads to. -/

namespace Worklist

open Std Graph

variable {κ σ ε : Type} [Ord κ] [TransOrd κ]

/-- `while let Some(node) = pending.pop_first()`, for as many nodes as there is fuel. -/
def drain (visit : κ → OrdSet κ → σ → Except ε (List κ × σ)) :
    Nat → OrdSet κ → OrdSet κ → σ → Except ε σ
  | 0, _, _, s => pure s
  | fuel + 1, pending, visited, s =>
    match pending.toList.head? with
    | none => pure s
    | some k =>
      if visited.contains k then drain visit fuel (pending.erase k) visited s
      else do
        let (found, s) ← visit k (visited.insert k) s
        drain visit fuel ((pending.erase k).insertMany found) (visited.insert k) s

section Search

variable [LawfulEqOrd κ] [DecidableEq κ] {next : κ → List κ} {roots pending visited : OrdSet κ}
  {k : κ}

/-- Some root leads to the node. -/
def Found (next : κ → List κ) (roots : OrdSet κ) (k : κ) : Prop := ∃ r ∈ roots, Reaches next r k

/-- Between two steps, what is found is visited or pending, and nothing else is. -/
structure Searching (next : κ → List κ) (roots pending visited : OrdSet κ) : Prop where
  pending_found : ∀ k ∈ pending, Found next roots k
  visited_found : ∀ k ∈ visited, Found next roots k
  roots_covered : ∀ k ∈ roots, k ∈ visited ∨ k ∈ pending
  next_covered : ∀ k ∈ visited, ∀ j ∈ next k, j ∈ visited ∨ j ∈ pending

omit [LawfulEqOrd κ] [DecidableEq κ] in
theorem Searching.start : Searching next roots roots ∅ :=
  ⟨fun k hk => ⟨k, hk, .refl⟩, fun _ h => absurd h ExtTreeSet.not_mem_empty, fun _ h => .inr h,
    fun _ h => absurd h ExtTreeSet.not_mem_empty⟩

omit [DecidableEq κ] in
theorem mem_erase_iff {s : OrdSet κ} {j : κ} : j ∈ s.erase k ↔ j ≠ k ∧ j ∈ s := by
  rw [ExtTreeSet.mem_erase]
  refine and_congr_left fun _ => not_congr ⟨fun h => (LawfulEqCmp.eq_of_compare h).symm, ?_⟩
  rintro rfl
  exact ReflCmp.compare_self

omit [DecidableEq κ] in
theorem mem_insert_iff {s : OrdSet κ} {j : κ} : j ∈ s.insert k ↔ j = k ∨ j ∈ s := by
  rw [ExtTreeSet.mem_insert]
  refine or_congr_left ⟨fun h => (LawfulEqCmp.eq_of_compare h).symm, ?_⟩
  rintro rfl
  exact ReflCmp.compare_self

omit [DecidableEq κ] in
theorem Searching.skip (h : Searching next roots pending visited) (hk : k ∈ visited) :
    Searching next roots (pending.erase k) visited := by
  have hcovered : ∀ j, j ∈ visited ∨ j ∈ pending → j ∈ visited ∨ j ∈ pending.erase k := by
    intro j hj
    by_cases he : j = k
    · exact .inl (he ▸ hk)
    · exact hj.imp_right fun hj => mem_erase_iff.mpr ⟨he, hj⟩
  exact ⟨fun j hj => h.pending_found j (mem_erase_iff.mp hj).2, h.visited_found,
    fun j hj => hcovered j (h.roots_covered j hj),
    fun i hi j hj => hcovered j (h.next_covered i hi j hj)⟩

theorem Searching.step (h : Searching next roots pending visited) (hk : k ∈ pending) :
    Searching next roots ((pending.erase k).insertMany (next k)) (visited.insert k) := by
  have hpending : ∀ j, j ∈ (pending.erase k).insertMany (next k) ↔
      (j ≠ k ∧ j ∈ pending) ∨ j ∈ next k := by
    intro j
    rw [ExtTreeSet.mem_insertMany_list, mem_erase_iff, List.contains_iff_mem]
  have hcovered : ∀ j, j ∈ visited ∨ j ∈ pending →
      j ∈ visited.insert k ∨ j ∈ (pending.erase k).insertMany (next k) := by
    intro j hj
    rw [mem_insert_iff, hpending]
    by_cases he : j = k
    · exact .inl (.inl he)
    · exact hj.imp .inr fun hj => .inl ⟨he, hj⟩
  refine ⟨fun j hj => ?_, fun j hj => ?_, fun j hj => hcovered j (h.roots_covered j hj),
    fun i hi j hj => ?_⟩
  · rcases (hpending j).mp hj with hj | hj
    · exact h.pending_found j hj.2
    · obtain ⟨r, hr, hreaches⟩ := h.pending_found k hk
      exact ⟨r, hr, hreaches.tail hj⟩
  · rcases mem_insert_iff.mp hj with rfl | hj
    · exact h.pending_found j hk
    · exact h.visited_found j hj
  · rcases mem_insert_iff.mp hi with rfl | hi
    · exact .inr ((hpending j).mpr (.inr hj))
    · exact hcovered j (h.next_covered i hi j hj)

omit [LawfulEqOrd κ] [DecidableEq κ] in
/-- When nothing is pending, what is found has been visited. -/
theorem Searching.mem_visited_iff (h : Searching next roots pending visited)
    (hpending : ∀ k, k ∉ pending) : k ∈ visited ↔ Found next roots k := by
  refine ⟨h.visited_found k, ?_⟩
  rintro ⟨r, hr, hreaches⟩
  induction hreaches with
  | refl => exact (h.roots_covered r hr).resolve_right (hpending r)
  | tail _ hedge ih => exact (h.next_covered _ ih _ hedge).resolve_right (hpending _)

/-- What the nodes that have not been visited can still add. -/
def remaining (next : κ → List κ) (nodes : Finset κ) (visited : OrdSet κ) : Nat :=
  ∑ k ∈ nodes.filter fun k => k ∉ visited, (next k).length

theorem remaining_insert {nodes : Finset κ} (hk : k ∈ nodes) (hnot : k ∉ visited) :
    remaining next nodes (visited.insert k) + (next k).length = remaining next nodes visited := by
  have hfilter : (nodes.filter fun j => j ∉ visited.insert k) =
      (nodes.filter fun j => j ∉ visited).erase k := by
    ext j
    rw [Finset.mem_erase, Finset.mem_filter, Finset.mem_filter, mem_insert_iff, not_or]
    exact and_left_comm
  unfold remaining
  rw [hfilter]
  exact Finset.sum_erase_add _ _ (Finset.mem_filter.mpr ⟨hk, hnot⟩)

/-- With enough fuel, a search visits exactly what its roots lead to, or one of its visits fails. -/
theorem drain_ends {visit : κ → OrdSet κ → σ → Except ε (List κ × σ)} {nodes : Finset κ}
    {I : OrdSet κ → σ → Prop} {E : ε → Prop} {s : σ} {fuel : Nat} (hs : I ∅ s)
    (hfuel : roots.size + ∑ k ∈ nodes, (next k).length ≤ fuel)
    (hvisit : ∀ k visited s, k ∉ visited → (∀ j ∈ visited.insert k, Found next roots j) →
      I visited s →
      (∀ found t, visit k (visited.insert k) s = .ok (found, t) →
        found = next k ∧ k ∈ nodes ∧ I (visited.insert k) t) ∧
      ∀ e, visit k (visited.insert k) s = .error e → E e) :
    (∀ t, drain visit fuel roots ∅ s = .ok t →
      ∃ visited, (∀ k, k ∈ visited ↔ Found next roots k) ∧ I visited t) ∧
    ∀ e, drain visit fuel roots ∅ s = .error e → E e := by
  have hall : ∀ fuel pending visited s, Searching next roots pending visited → I visited s →
      pending.size + remaining next nodes visited ≤ fuel →
      (∀ t, drain visit fuel pending visited s = .ok t →
        ∃ visited, (∀ k, k ∈ visited ↔ Found next roots k) ∧ I visited t) ∧
      ∀ e, drain visit fuel pending visited s = .error e → E e := by
    intro fuel
    induction fuel with
    | zero =>
      intro pending visited s hsearch hI hfuel
      have hpending : pending = ∅ :=
        ExtTreeSet.eq_empty_iff_size_eq_zero.mpr (by omega)
      refine ⟨fun t ht => ?_, fun _ he => nomatch he⟩
      cases ht
      refine ⟨visited, fun k => hsearch.mem_visited_iff fun k hk => ?_, hI⟩
      rw [hpending] at hk
      exact ExtTreeSet.not_mem_empty hk
    | succ fuel ih =>
      intro pending visited s hsearch hI hfuel
      rw [drain, ← ExtTreeSet.min?_eq_head?_toList]
      cases hmin : pending.min? with
      | none =>
        have hpending : pending = ∅ := ExtTreeSet.min?_eq_none_iff.mp hmin
        refine ⟨fun t ht => ?_, fun _ he => nomatch he⟩
        cases ht
        refine ⟨visited, fun k => hsearch.mem_visited_iff fun k hk => ?_, hI⟩
        rw [hpending] at hk
        exact ExtTreeSet.not_mem_empty hk
      | some k =>
        have hk : k ∈ pending := ExtTreeSet.min?_mem hmin
        have hsize : (pending.erase k).size + 1 = pending.size := by
          have hpos : pending.size ≠ 0 := fun hzero => by
            rw [ExtTreeSet.eq_empty_iff_size_eq_zero.mpr hzero] at hk
            exact ExtTreeSet.not_mem_empty hk
          rw [ExtTreeSet.size_erase, if_pos (ExtTreeSet.contains_iff_mem.mpr hk)]
          omega
        dsimp only
        split
        · rename_i hvisited
          rw [ExtTreeSet.contains_iff_mem] at hvisited
          exact ih _ _ _ (hsearch.skip hvisited) hI (by omega)
        · rename_i hvisited
          rw [ExtTreeSet.contains_iff_mem] at hvisited
          have hfound : ∀ j ∈ visited.insert k, Found next roots j := by
            intro j hj
            rcases mem_insert_iff.mp hj with rfl | hj
            · exact hsearch.pending_found j hk
            · exact hsearch.visited_found j hj
          obtain ⟨hok, herror⟩ := hvisit k visited s hvisited hfound hI
          cases hrun : visit k (visited.insert k) s with
          | error e =>
            refine ⟨fun t ht => (nomatch ht), fun e' he => ?_⟩
            cases he
            exact herror e hrun
          | ok r =>
            obtain ⟨found, t⟩ := r
            obtain ⟨rfl, hnode, ht⟩ := hok found t hrun
            have hless : remaining next nodes (visited.insert k) + (next k).length =
                remaining next nodes visited := remaining_insert hnode hvisited
            have hmore : ((pending.erase k).insertMany (next k)).size ≤
              (pending.erase k).size + (next k).length := ExtTreeSet.size_insertMany_list_le
            refine ih _ _ _ (hsearch.step hk) ht ?_
            calc ((pending.erase k).insertMany (next k)).size +
                  remaining next nodes (visited.insert k)
              _ ≤ (pending.erase k).size + (next k).length +
                  remaining next nodes (visited.insert k) := Nat.add_le_add_right hmore _
              _ ≤ fuel := by omega
  refine hall fuel roots ∅ s .start hs ?_
  have hnone : (nodes.filter fun k => k ∉ (∅ : OrdSet κ)) = nodes :=
    Finset.filter_true_of_mem fun _ _ => ExtTreeSet.not_mem_empty
  unfold remaining
  rwa [hnone]

end Search

end Worklist
