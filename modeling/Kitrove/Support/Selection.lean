import Kitrove.Support.OrdMap

/-! The records of a map that a test selects, in the order of their keys. -/

open Std

universe u v

namespace OrdMap

variable {K : Type u} {V : Type v} [Ord K] [TransOrd K] {m : OrdMap K V} {p : V → Bool} {k : K} {v : V}

def selected (m : OrdMap K V) (p : V → Bool) : List (K × V) := m.toList.filter fun entry => p entry.2

theorem values_filter : m.values.filter p = (selected m p).map Prod.snd := by
  rw [values_eq, List.filter_map]
  rfl

variable [LawfulEqOrd K]

theorem mem_selected : (k, v) ∈ selected m p ↔ m[k]? = some v ∧ p v = true := by
  rw [selected, List.mem_filter, ExtTreeMap.mem_toList_iff_getElem?_eq_some]

theorem selected_eq_nil :
    selected m p = [] ↔ ∀ k : K, ∀ v, m[k]? = some v → p v = false := by
  constructor
  · intro h k v hv
    by_contra hp
    have hmem : (k, v) ∈ selected m p := mem_selected.mpr ⟨hv, by simpa using hp⟩
    rw [h] at hmem
    contradiction
  · intro h
    refine List.eq_nil_iff_forall_not_mem.mpr fun ⟨k, v⟩ hmem => ?_
    obtain ⟨hv, hp⟩ := mem_selected.mp hmem
    rw [h k v hv] at hp
    contradiction

theorem nodup_selected : (selected m p).Nodup := by
  refine List.Pairwise.filter _ (m.distinct_keys_toList.imp fun h heq => h ?_)
  rw [heq]
  exact ReflCmp.compare_self

/-- One record is selected exactly if no other key has one. -/
theorem selected_eq_singleton : selected m p = [(k, v)] ↔
    m[k]? = some v ∧ p v = true ∧ ∀ k' : K, ∀ v', m[k']? = some v' → p v' = true → k' = k := by
  constructor
  · intro h
    have hmem : (k, v) ∈ selected m p := by
      rw [h]
      exact List.mem_singleton_self _
    obtain ⟨hv, hp⟩ := mem_selected.mp hmem
    refine ⟨hv, hp, fun k' v' hv' hp' => ?_⟩
    have hmem' : (k', v') ∈ selected m p := mem_selected.mpr ⟨hv', hp'⟩
    rw [h] at hmem'
    exact congrArg Prod.fst (List.mem_singleton.mp hmem')
  · rintro ⟨hv, hp, hunique⟩
    rw [← List.perm_singleton, List.perm_ext_iff_of_nodup nodup_selected (List.pairwise_singleton _ _)]
    rintro ⟨k', v'⟩
    rw [mem_selected, List.mem_singleton]
    constructor
    · rintro ⟨hv', hp'⟩
      obtain rfl := hunique k' v' hv' hp'
      rw [hv, Option.some.injEq] at hv'
      rw [hv']
    · rintro heq
      obtain ⟨rfl, rfl⟩ := Prod.mk.inj heq
      exact ⟨hv, hp⟩

/-- At most one record is selected exactly if all that are have one key. -/
theorem length_selected_le_one : (selected m p).length ≤ 1 ↔
    ∀ k k' : K, ∀ v v', m[k]? = some v → m[k']? = some v' → p v = true → p v' = true → k = k' := by
  constructor
  · intro h k k' v v' hv hv' hp hp'
    have hmem : (k, v) ∈ selected m p := mem_selected.mpr ⟨hv, hp⟩
    obtain ⟨⟨k₀, v₀⟩, hone⟩ : ∃ entry, selected m p = [entry] :=
      List.length_eq_one_iff.mp (Nat.le_antisymm h (List.length_pos_of_mem hmem))
    obtain ⟨-, -, hunique⟩ := selected_eq_singleton.mp hone
    rw [hunique k v hv hp, hunique k' v' hv' hp']
  · intro h
    cases hselected : selected m p with
    | nil => exact Nat.zero_le 1
    | cons entry rest =>
      have hmem : entry ∈ selected m p := by
        rw [hselected]
        exact List.mem_cons_self
      obtain ⟨hv, hp⟩ := mem_selected.mp hmem
      have hone : selected m p = [entry] :=
        selected_eq_singleton.mpr ⟨hv, hp, fun k' v' hv' hp' => h k' entry.1 v' entry.2 hv' hv hp' hp⟩
      rw [← hselected, hone]
      exact Nat.le_refl 1

/-- A new record is the only one selected exactly if no other key had one. -/
theorem selected_insert_eq_singleton (hp : p v = true) : selected (m.insert k v) p = [(k, v)] ↔
    ∀ k' : K, ∀ v', m[k']? = some v' → p v' = true → k' = k := by
  rw [selected_eq_singleton]
  constructor
  · rintro ⟨-, -, hunique⟩ k' v' hv' hp'
    by_contra hne
    have hkeep : (m.insert k v)[k']? = some v' := by
      rw [ExtTreeMap.getElem?_insert, if_neg fun h => hne (LawfulEqCmp.eq_of_compare h).symm, hv']
    exact hne (hunique k' v' hkeep hp')
  · intro hunique
    refine ⟨ExtTreeMap.getElem?_insert_self, hp, fun k' v' hv' hp' => ?_⟩
    rw [ExtTreeMap.getElem?_insert] at hv'
    split at hv'
    · rename_i heq
      exact (LawfulEqCmp.eq_of_compare heq).symm
    · exact hunique k' v' hv' hp'

end OrdMap
