import Kitrove.Support.OrdMap

/-! Loops in a monad, and when they succeed: what a loop over keys builds is what each of
its steps gives. -/

open Std

/-- A notion of success that goes through sequencing. -/
structure Outcome (m : Type → Type) [Monad m] where
  gives : {α : Type} → m α → α → Prop
  pure_iff : ∀ {α : Type} {a b : α}, gives (pure a) b ↔ a = b
  bind_iff : ∀ {α β : Type} {x : m α} {f : α → m β} {b : β},
    gives (x >>= f) b ↔ ∃ a, gives x a ∧ gives (f a) b

namespace Outcome

/-- The results of a computation that did not fail. -/
def ok (ε : Type) : Outcome (Except ε) where
  gives x a := x = .ok a
  pure_iff := Except.pure_eq_ok_iff
  bind_iff := Except.bind_eq_ok_iff

end Outcome

namespace OrdMap

variable {m : Type → Type} [Monad m] {K V W : Type} [Ord K] [TransOrd K]

def buildStep (f : K → m (Option V)) (built : OrdMap K V) (k : K) : m (OrdMap K V) := do
  match ← f k with
  | some v => pure (built.insert k v)
  | none => pure built

/-- The map of the values that a loop over keys finds. -/
def buildM (keys : List K) (f : K → m (Option V)) : m (OrdMap K V) := keys.foldlM (buildStep f) ∅

/-- The map with each value transformed, in key order. -/
def traverse (t : OrdMap K V) (f : K → V → m W) : m (OrdMap K W) :=
  buildM t.keys fun k =>
    match t[k]? with
    | some v => do pure (some (← f k v))
    | none => pure none

theorem traverse_map {U : Type} [LawfulEqOrd K] {t : OrdMap K U} {g : K → U → V}
    {f : K → V → m W} : traverse (t.map g) f = traverse t fun k u => f k (g k u) := by
  unfold traverse
  rw [ExtTreeMap.keys_map]
  congr 1
  funext k
  rw [ExtTreeMap.getElem?_map]
  cases t[k]? <;> rfl

section Lemmas

variable [LawfulEqOrd K] (R : Outcome m) {f : K → m (Option V)} {built r : OrdMap K V} {k : K}
  {keys : List K}

include R

omit [LawfulEqOrd K] in
theorem buildStep_iff : R.gives (buildStep f built k) r ↔
    ∃ o, R.gives (f k) o ∧ r = o.elim built (built.insert k) := by
  rw [buildStep, R.bind_iff]
  refine exists_congr fun o => and_congr_right fun _ => ?_
  cases o <;> simp [R.pure_iff, eq_comm]

theorem foldlM_buildStep_iff (hk : keys.Nodup) (hbuilt : ∀ k ∈ keys, built[k]? = none) :
    R.gives (keys.foldlM (buildStep f) built) r ↔
      (∀ k ∈ keys, R.gives (f k) r[k]?) ∧ ∀ k ∉ keys, r[k]? = built[k]? := by
  induction keys generalizing built with
  | nil =>
    rw [List.foldlM_nil, R.pure_iff]
    simp only [List.not_mem_nil, false_implies, implies_true, true_and, not_false_eq_true,
      forall_const]
    exact ⟨fun h => by simp [h], fun h => (ExtTreeMap.ext_getElem? h).symm⟩
  | cons k keys ih =>
    obtain ⟨hnot, hk⟩ := List.nodup_cons.mp hk
    have hnext : ∀ o : Option V, ∀ j, (o.elim built (built.insert k))[j]? =
        if compare k j = .eq then o.or built[j]? else built[j]? := by
      intro o j
      cases o with
      | none => simp
      | some v => simp [ExtTreeMap.getElem?_insert]
    have hother : ∀ o : Option V, ∀ j, j ≠ k →
        (o.elim built (built.insert k))[j]? = built[j]? := by
      intro o j hj
      rw [hnext, if_neg (fun h => hj (LawfulEqCmp.eq_of_compare h).symm)]
    have hself : ∀ o : Option V, (o.elim built (built.insert k))[k]? = o := by
      intro o
      rw [hnext, if_pos ReflCmp.compare_self, hbuilt k List.mem_cons_self, Option.or_none]
    have hfresh : ∀ o : Option V, ∀ j ∈ keys, (o.elim built (built.insert k))[j]? = none := by
      intro o j hj
      rw [hother o j (fun he => hnot (he ▸ hj)), hbuilt j (List.mem_cons_of_mem _ hj)]
    rw [List.foldlM_cons, R.bind_iff]
    constructor
    · rintro ⟨next, hstep, hrest⟩
      obtain ⟨o, ho, rfl⟩ := (buildStep_iff R).mp hstep
      obtain ⟨hgives, houtside⟩ := (ih hk (hfresh o)).mp hrest
      have hr : r[k]? = o := by rw [houtside k hnot, hself]
      refine ⟨fun j hj => ?_, fun j hj => ?_⟩
      · rcases List.mem_cons.mp hj with rfl | hj
        · rwa [hr]
        · exact hgives j hj
      · rw [List.mem_cons, not_or] at hj
        rw [houtside j hj.2, hother o j hj.1]
    · rintro ⟨hgives, houtside⟩
      refine ⟨r[k]?.elim built (built.insert k), (buildStep_iff R).mpr
        ⟨_, hgives k List.mem_cons_self, rfl⟩, (ih hk (hfresh _)).mpr ⟨fun j hj =>
          hgives j (List.mem_cons_of_mem _ hj), fun j hj => ?_⟩⟩
      by_cases he : j = k
      · rw [he, hself]
      · rw [hother _ j he, houtside j (by simp [he, hj])]

/-- A loop over keys succeeds exactly when each step does, with what the map has there. -/
theorem buildM_iff (hk : keys.Nodup) :
    R.gives (buildM keys f) r ↔
      (∀ k ∈ keys, R.gives (f k) r[k]?) ∧ ∀ k ∉ keys, r[k]? = none := by
  rw [buildM, foldlM_buildStep_iff R hk (fun _ _ => ExtTreeMap.getElem?_empty)]
  simp

/-- When the other keys have nothing to build, the loop is about every key. -/
theorem buildM_iff_forall (hk : keys.Nodup)
    (hother : ∀ k ∉ keys, ∀ o, R.gives (f k) o ↔ o = none) :
    R.gives (buildM keys f) r ↔ ∀ k : K, R.gives (f k) r[k]? := by
  rw [buildM_iff R hk]
  constructor
  · rintro ⟨hgives, hnone⟩ k
    by_cases h : k ∈ keys
    · exact hgives k h
    · exact (hother k h _).mpr (hnone k h)
  · intro h
    exact ⟨fun k _ => h k, fun k hk => (hother k hk _).mp (h k)⟩

theorem traverse_iff {t : OrdMap K V} {g : K → V → m W} {r : OrdMap K W} :
    R.gives (traverse t g) r ↔
      (∀ (k : K) (v : V), t[k]? = some v → ∃ w, R.gives (g k v) w ∧ r[k]? = some w) ∧
        ∀ k : K, t[k]? = none → r[k]? = none := by
  rw [traverse, buildM_iff R ExtTreeMap.nodup_keys]
  have hkey : ∀ k : K, k ∈ t.keys ↔ ∃ v, t[k]? = some v := fun k =>
    ExtTreeMap.mem_keys.trans mem_iff_getElem?
  have hnokey : ∀ k : K, k ∉ t.keys ↔ t[k]? = none := fun k =>
    (not_congr ExtTreeMap.mem_keys).trans getElem?_eq_none.symm
  simp only [hnokey]
  refine and_congr_left fun _ => ⟨fun h k v hv => ?_, fun h k hk => ?_⟩
  · have hg := h k ((hkey k).mpr ⟨v, hv⟩)
    simp only [hv, R.bind_iff, R.pure_iff] at hg
    obtain ⟨w, hw, hr⟩ := hg
    exact ⟨w, hw, hr.symm⟩
  · obtain ⟨v, hv⟩ := (hkey k).mp hk
    obtain ⟨w, hw, hr⟩ := h k v hv
    simp only [hv, R.bind_iff, R.pure_iff]
    exact ⟨w, hw, hr.symm⟩

omit [Ord K] [TransOrd K] [LawfulEqOrd K] in
theorem forM_iff {xs : List K} {g : K → m PUnit} :
    R.gives (xs.forM g) ⟨⟩ ↔ ∀ x ∈ xs, R.gives (g x) ⟨⟩ := by
  induction xs with
  | nil => simp [R.pure_iff]
  | cons x xs ih =>
    rw [List.forall_mem_cons, ← ih]
    refine R.bind_iff.trans ⟨?_, fun h => ⟨⟨⟩, h⟩⟩
    rintro ⟨⟨⟩, h⟩
    exact h

end Lemmas

end OrdMap
