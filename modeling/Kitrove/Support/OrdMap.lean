import Mathlib.Data.List.Nodup
import Kitrove.Support.Except

/-! Maps and sets ordered by their keys. -/

open Std

universe u v w

abbrev OrdMap (K : Type u) (V : Type v) [Ord K] := ExtTreeMap K V compare

abbrev OrdSet (K : Type u) [Ord K] := ExtTreeSet K compare

/-- Keys that are ordered by an injective image. -/
theorem lawfulEqCmp_compareOn {α : Type u} {β : Type v} [Ord β] [LawfulEqOrd β] {f : α → β}
    (hf : ∀ a b, f a = f b → a = b) : LawfulEqCmp (compareOn f) where
  eq_of_compare h := hf _ _ (LawfulEqCmp.eq_of_compare h)
  compare_self := by
    intro a
    exact @ReflCmp.compare_self β compare _ (f a)

namespace OrdMap

variable {K : Type u} {V : Type v} [Ord K] [TransOrd K]

def keySet (m : OrdMap K V) : OrdSet K := ExtTreeSet.ofList m.keys compare

def setOf (xs : List K) : OrdSet K := ExtTreeSet.ofList xs compare

def mapOf (xs : List (K × V)) : OrdMap K V := ExtTreeMap.ofList xs compare

end OrdMap

namespace OrdMap

variable {K : Type u} {V : Type v} {W : Type w} [Ord K] [TransOrd K] [LawfulEqOrd K] [DecidableEq K]
  {m : OrdMap K V} {k : K}

theorem mem_keySet : k ∈ keySet m ↔ k ∈ m := by
  rw [keySet, ExtTreeSet.mem_ofList, List.contains_iff_mem, ExtTreeMap.mem_keys]

theorem mem_setOf {xs : List K} : k ∈ setOf xs ↔ k ∈ xs := by
  rw [setOf, ExtTreeSet.mem_ofList, List.contains_iff_mem]

theorem setOf_perm {xs ys : List K} (h : xs.Perm ys) : setOf xs = setOf ys :=
  ExtTreeSet.ext_mem fun _ => by rw [mem_setOf, mem_setOf, h.mem_iff]

omit [DecidableEq K] in
theorem union_right_comm {a b c : OrdSet K} : a ∪ b ∪ c = a ∪ c ∪ b := by
  refine ExtTreeSet.ext_mem fun k => ?_
  simp only [ExtTreeSet.mem_union_iff]
  tauto

omit [DecidableEq K] in
theorem mem_filter {s : OrdSet K} {f : K → Bool} : k ∈ s.filter f ↔ k ∈ s ∧ f k = true := by
  rw [ExtTreeSet.mem_filter]
  constructor
  · rintro ⟨h, hf⟩
    rw [ExtTreeSet.get_eq] at hf
    exact ⟨h, hf⟩
  · rintro ⟨h, hf⟩
    refine ⟨h, ?_⟩
    rwa [ExtTreeSet.get_eq]

omit [DecidableEq K] in
theorem mem_difference {s t : OrdSet K} :
    k ∈ s.filter (fun k => !t.contains k) ↔ k ∈ s ∧ k ∉ t := by
  rw [mem_filter, Bool.not_eq_true', ← Bool.not_eq_true, ExtTreeSet.contains_iff_mem]

omit [LawfulEqOrd K] [DecidableEq K] in
theorem mem_iff_getElem? : k ∈ m ↔ ∃ v, m[k]? = some v := by
  rw [← Option.isSome_iff_exists, ExtTreeMap.isSome_getElem?_iff_mem]

omit [LawfulEqOrd K] [DecidableEq K] in
theorem getElem?_eq_none : m[k]? = none ↔ k ∉ m := by
  rw [mem_iff_getElem?]
  cases m[k]? <;> simp

omit [DecidableEq K] in
/-- A function of the keys that is nowhere but on finitely many is a map. -/
theorem exists_getElem? (m : OrdMap K V) {f : K → Option W} (h : ∀ k ∉ m, f k = none) :
    ∃ r : OrdMap K W, ∀ k : K, r[k]? = f k := by
  refine ⟨m.filterMap fun k _ => f k, fun k => ?_⟩
  rw [ExtTreeMap.getElem?_filterMap']
  by_cases hk : k ∈ m
  · obtain ⟨v, hv⟩ := mem_iff_getElem?.mp hk
    rw [hv]
    rfl
  · rw [getElem?_eq_none.mpr hk, h k hk]
    rfl

omit [LawfulEqOrd K] [DecidableEq K] in
theorem values_eq : m.values = m.toList.map Prod.snd := by
  rcases m with ⟨⟨q⟩⟩
  induction q using Quotient.ind
  rename_i t
  change t.inner.values = (DTreeMap.Internal.Impl.Const.toList t.inner).map Prod.snd
  rw [DTreeMap.Internal.Impl.values_eq_map_snd,
    DTreeMap.Internal.Impl.Const.toList_eq_toListModel_map, List.map_map]
  rfl

/-- A map of pairs with different keys has these pairs and no others. -/
theorem getElem?_mapOf {xs : List (K × V)} (hxs : (xs.map Prod.fst).Nodup) {v : V} :
    (mapOf xs)[k]? = some v ↔ (k, v) ∈ xs := by
  have hdistinct : xs.Pairwise fun a b => ¬ compare a.1 b.1 = .eq := by
    refine (List.pairwise_map.mp hxs).imp fun h heq => h (LawfulEqCmp.eq_of_compare heq)
  constructor
  · intro hget
    have hmem : k ∈ mapOf xs := mem_iff_getElem?.mpr ⟨v, hget⟩
    rw [mapOf, ExtTreeMap.mem_ofList, List.contains_iff_mem, List.mem_map] at hmem
    obtain ⟨⟨k', w⟩, hw, rfl⟩ := hmem
    have hw' : (mapOf xs)[k']? = some w :=
      ExtTreeMap.getElem?_ofList_of_mem ReflCmp.compare_self hdistinct hw
    rw [hw', Option.some.injEq] at hget
    rwa [← hget]
  · exact ExtTreeMap.getElem?_ofList_of_mem ReflCmp.compare_self hdistinct

omit [DecidableEq K] in
theorem mem_values {v : V} : v ∈ m.values ↔ ∃ k : K, m[k]? = some v := by
  simp [values_eq, ExtTreeMap.mem_toList_iff_getElem?_eq_some]

omit [LawfulEqOrd K] [DecidableEq K] in
theorem values_map {g : V → W} : (m.map fun _ v => g v).values = m.values.map g := by
  rw [values_eq, values_eq, ExtTreeMap.toList_map, List.map_map, List.map_map]
  rfl

omit [LawfulEqOrd K] [DecidableEq K] in
theorem nodup_toList {s : OrdSet K} : s.toList.Nodup :=
  s.distinct_toList.imp fun h => by
    rintro rfl
    exact h ReflCmp.compare_self

omit [LawfulEqOrd K] [DecidableEq K] in
theorem nodup_keys_toList : (m.toList.map Prod.fst).Nodup := by
  refine List.pairwise_map.mpr (m.distinct_keys_toList.imp fun h heq => h ?_)
  rw [heq]
  exact ReflCmp.compare_self

omit [DecidableEq K] in
/-- A new entry is one more among the entries. -/
theorem toList_insert_perm {v : V} (h : k ∉ m) : (m.insert k v).toList.Perm (m.toList ++ [(k, v)]) := by
  refine (List.perm_ext_iff_of_nodup nodup_keys_toList.of_map ?_).mpr fun entry => ?_
  · refine List.nodup_append'.mpr ⟨nodup_keys_toList.of_map, List.nodup_singleton _, ?_⟩
    intro entry hentry hnew
    rw [List.mem_singleton.mp hnew, ExtTreeMap.mem_toList_iff_getElem?_eq_some] at hentry
    exact h (mem_iff_getElem?.mpr ⟨v, hentry⟩)
  · obtain ⟨k', v'⟩ := entry
    rw [List.mem_append, List.mem_singleton, ExtTreeMap.mem_toList_iff_getElem?_eq_some,
      ExtTreeMap.mem_toList_iff_getElem?_eq_some, ExtTreeMap.getElem?_insert]
    split
    · rename_i hsame
      obtain rfl := LawfulEqCmp.eq_of_compare hsame
      rw [getElem?_eq_none.mpr h]
      simp [eq_comm]
    · rename_i hother
      refine (or_iff_left fun heq => hother ?_).symm
      rw [(Prod.mk.inj heq).1]
      exact ReflCmp.compare_self

omit [DecidableEq K] in
theorem size_le {s t : OrdSet K} (h : ∀ k ∈ s, k ∈ t) : s.size ≤ t.size := by
  have hunion : s ∪ t = t := by
    refine ExtTreeSet.ext_mem fun k => ?_
    rw [ExtTreeSet.mem_union_iff]
    exact or_iff_right_of_imp (h k)
  calc s.size ≤ (s ∪ t).size := ExtTreeSet.size_left_le_size_union
    _ = t.size := by rw [hunion]

end OrdMap
