import Kitrove.Support.Except

/-! Computations that carry a state and may fail: what each of their ends satisfies. -/

universe u v w

namespace Stateful

variable {σ ε α β : Type u} {ι : Type w}

/-- From `s`, a normal end satisfies `Q` and a failure satisfies `E`. -/
def Ends (x : StateT σ (Except ε) α) (s : σ) (Q : α → σ → Prop) (E : ε → Prop) : Prop :=
  match x.run s with
  | .ok (a, t) => Q a t
  | .error e => E e

variable {s : σ} {Q R : α → σ → Prop} {E F : ε → Prop} {x : StateT σ (Except ε) α}

theorem ends_of_run {a : α} {t : σ} (h : Ends x s Q E) (hrun : x.run s = .ok (a, t)) : Q a t := by
  rw [Ends, hrun] at h
  exact h

theorem Ends.mono (h : Ends x s Q E) (hQ : ∀ a t, Q a t → R a t) (hE : ∀ e, E e → F e) :
    Ends x s R F := by
  unfold Ends at *
  cases hx : x.run s with
  | error e =>
    rw [hx] at h
    exact hE e h
  | ok r =>
    rw [hx] at h
    exact hQ _ _ h

@[simp] theorem ends_pure {a : α} : Ends (pure a : StateT σ (Except ε) α) s Q E ↔ Q a s := Iff.rfl

@[simp] theorem ends_throw {e : ε} : Ends (throw e : StateT σ (Except ε) α) s Q E ↔ E e := Iff.rfl

@[simp] theorem ends_bind {f : α → StateT σ (Except ε) β} {P : β → σ → Prop} :
    Ends (x >>= f) s P E ↔ Ends x s (fun a t => Ends (f a) t P E) E := by
  unfold Ends
  rw [StateT.run_bind]
  cases x.run s <;> rfl

@[simp] theorem ends_get {P : σ → σ → Prop} :
    Ends (get : StateT σ (Except ε) σ) s P E ↔ P s s := Iff.rfl

@[simp] theorem ends_set {t : σ} {P : PUnit → σ → Prop} :
    Ends (set t : StateT σ (Except ε) PUnit) s P E ↔ P ⟨⟩ t := Iff.rfl

@[simp] theorem ends_modify {f : σ → σ} {P : PUnit → σ → Prop} :
    Ends (modify f : StateT σ (Except ε) PUnit) s P E ↔ P ⟨⟩ (f s) := Iff.rfl

theorem ends_discard {P : PUnit → σ → Prop} :
    Ends (discard x) s P E ↔ Ends x s (fun _ t => P ⟨⟩ t) E := by
  have hmap : (discard x).run s = (x.run s).map fun r => (⟨⟩, r.2) := by
    change (StateT.map _ x).run s = _
    cases hx : x.run s <;> simp [StateT.map, StateT.run] at hx ⊢ <;> rw [hx] <;> rfl
  unfold Ends
  rw [hmap]
  cases x.run s <;> rfl

/-- A computation that cannot fail ends normally. -/
theorem ok_of_ends (h : Ends x s Q fun _ => False) : ∃ a t, x.run s = .ok (a, t) ∧ Q a t := by
  unfold Ends at h
  split at h
  · rename_i a t hrun
    exact ⟨a, t, hrun, h⟩
  · exact h.elim

theorem ends_lift {y : Except ε α} :
    Ends (liftM y : StateT σ (Except ε) α) s Q E ↔
      (∀ a, y = .ok a → Q a s) ∧ ∀ e, y = .error e → E e := by
  cases y with
  | error e => exact ⟨fun h => ⟨fun _ ha => (nomatch ha), fun _ he => by cases he; exact h⟩,
      fun h => h.2 e rfl⟩
  | ok a => exact ⟨fun h => ⟨fun _ ha => by cases ha; exact h, fun _ he => (nomatch he)⟩,
      fun h => h.1 a rfl⟩

/-- A loop keeps an invariant of the state that each of its steps keeps. -/
theorem ends_forM {I : σ → Prop} {f : ι → StateT σ (Except ε) PUnit} {xs : List ι}
    (hs : I s) (hf : ∀ i ∈ xs, ∀ t, I t → Ends (f i) t (fun _ u => I u) E) :
    Ends (xs.forM f) s (fun _ t => I t) E := by
  induction xs generalizing s with
  | nil => exact hs
  | cons i xs ih =>
    refine ends_bind.mpr ((hf i List.mem_cons_self s hs).mono (fun _ t ht => ?_) fun _ h => h)
    exact ih ht fun j hj => hf j (List.mem_cons_of_mem i hj)

/-- A loop keeps an invariant of what it has done so far. -/
theorem ends_foldlM {I : List ι → β → σ → Prop} {f : β → ι → StateT σ (Except ε) β} {b : β}
    {xs : List ι} (hs : I [] b s)
    (hf : ∀ done i b t, i ∈ xs → I done b t →
      Ends (f b i) t (fun b u => I (done ++ [i]) b u) E) :
    Ends (xs.foldlM f b) s (fun b t => I xs b t) E := by
  have hall : ∀ done rest b s, (∀ i ∈ rest, i ∈ xs) → I done b s →
      Ends (rest.foldlM f b) s (fun b t => I (done ++ rest) b t) E := by
    intro done rest
    induction rest generalizing done with
    | nil =>
      intro b s _ hs
      rw [List.append_nil]
      exact hs
    | cons i rest ih =>
      intro b s hmem hs
      rw [List.foldlM_cons, ends_bind]
      refine (hf done i b s (hmem i List.mem_cons_self) hs).mono (fun b t ht => ?_) fun _ h => h
      have hrest := ih (done ++ [i]) b t (fun j hj => hmem j (List.mem_cons_of_mem i hj)) ht
      rwa [List.append_assoc] at hrest
  exact hall [] xs b s (fun _ h => h) hs

/-- What each step of a loop establishes and every later one keeps, holds of all of them. -/
theorem ends_forM_all {I : σ → Prop} {P : ι → σ → Prop} {f : ι → StateT σ (Except ε) PUnit}
    {xs : List ι} (hs : I s)
    (hf : ∀ i ∈ xs, ∀ t, I t → Ends (f i) t (fun _ u => I u ∧ P i u ∧ ∀ j, P j t → P j u) E) :
    Ends (xs.forM f) s (fun _ t => I t ∧ (∀ i ∈ xs, P i t) ∧ ∀ j, P j s → P j t) E := by
  induction xs generalizing s with
  | nil => exact ⟨hs, (fun _ h => absurd h List.not_mem_nil), fun _ h => h⟩
  | cons i xs ih =>
    refine ends_bind.mpr ((hf i List.mem_cons_self s hs).mono (fun _ t ht => ?_) fun _ h => h)
    obtain ⟨hI, hP, hkept⟩ := ht
    refine (ih hI fun j hj => hf j (List.mem_cons_of_mem i hj)).mono (fun _ u hu => ?_) fun _ h => h
    obtain ⟨hI, hall, hkept'⟩ := hu
    refine ⟨hI, fun j hj => ?_, fun j hj => hkept' j (hkept j hj)⟩
    rcases List.mem_cons.mp hj with rfl | hj
    · exact hkept' j hP
    · exact hall j hj

theorem ends_mapM {I : σ → Prop} {P : ι → α → Prop} {f : ι → StateT σ (Except ε) α} {xs : List ι}
    (hs : I s) (hf : ∀ i ∈ xs, ∀ t, I t → Ends (f i) t (fun a u => P i a ∧ I u) E) :
    Ends (xs.mapM f) s (fun as t => List.Forall₂ P xs as ∧ I t) E := by
  induction xs generalizing s with
  | nil => exact ⟨.nil, hs⟩
  | cons i xs ih =>
    rw [List.mapM_cons, ends_bind]
    refine (hf i List.mem_cons_self s hs).mono (fun a t ht => ?_) fun _ h => h
    rw [ends_bind]
    refine (ih ht.2 fun j hj => hf j (List.mem_cons_of_mem i hj)).mono (fun as u hu => ?_)
      fun _ h => h
    exact ⟨.cons ht.1 hu.1, hu.2⟩

end Stateful
