import Kitrove.Crash.Program

/-! Repeated recovery of a store whose every run may be cut short, and runs that
work on one component of a larger store. -/

universe u v w x y

namespace Crash

namespace Program

variable {σ : Type u} {ε : Type v} {α : Type w}

/-- The run from `s` may be cut short after passing exactly the states `l`. -/
def Interrupted (m : Program σ ε α) (s : σ) (l : List σ) : Prop := l <+: (m s).visited

/-- Any number of runs in a row, each of which may be cut short; `l` lists the states
they pass and its last one is the state they leave. -/
inductive Attempts (m : Program σ ε α) (s : σ) : List σ → Prop
  | none : Attempts m s []
  | again {l k : List σ} :
      Attempts m s l → m.Interrupted (l.getLastD s) k → Attempts m s (l ++ k)

theorem interrupted_visited (m : Program σ ε α) (s : σ) : m.Interrupted s (m s).visited :=
  List.prefix_rfl

theorem Attempts.once {m : Program σ ε α} {s : σ} {l : List σ} (h : m.Interrupted s l) :
    m.Attempts s l :=
  .again .none h

/-- A stop of a program in two parts falls into the first part, or into the second one from
where the first one ends. -/
theorem interrupted_bind {β : Type w} {m : Program σ ε α} {f : α → Program σ ε β} {s : σ}
    {l : List σ} (h : (m >>= f).Interrupted s l) :
    m.Interrupted s l ∨ ∃ a k, (m s).result = .ok a ∧ l = (m s).visited ++ k ∧
      (f a).Interrupted (m.final s) k := by
  unfold Interrupted at *
  have hbind : (m >>= f) s = Program.bind m f s := rfl
  rw [hbind, Program.bind] at h
  unfold final
  match hm : m s with
  | ⟨v, .error e⟩ =>
    rw [hm] at h
    exact .inl h
  | ⟨v, .ok a⟩ =>
    rw [hm] at h
    rcases List.prefix_or_prefix_of_prefix h (List.prefix_append v _) with hl | ⟨k, rfl⟩
    · exact .inl hl
    · exact .inr ⟨a, k, rfl, rfl, (List.prefix_append_right_inj v).mp h⟩

section Rules

variable {m : Program σ ε α} {G : σ → σ → Prop} {I : σ → Prop} {Q : α → σ → Prop}
  {E : ε → σ → Prop} {s : σ} {l : List σ}

theorem Upholds.interrupted (h : m.Upholds G Q E s) (hl : m.Interrupted s l) :
    List.IsChain G (s :: l) := by
  obtain ⟨k, hk⟩ := hl
  have hc := h.1
  rw [← hk, isChain_cons_append] at hc
  exact hc.1

/-- What every uninterrupted run guarantees step by step, any history of interrupted
runs guarantees step by step. -/
theorem Attempts.chain (hs : I s)
    (step : ∀ t, I t → ∃ Q E, m.Upholds (fun t u => G t u ∧ I u) Q E t) (h : m.Attempts s l) :
    List.IsChain (fun t u => G t u ∧ I u) (s :: l) := by
  induction h with
  | none => simp
  | @again l k _ hk ih =>
    have hi : I (l.getLastD s) :=
      getLastD_of_forall hs (mem_of_isChain (ih.imp fun _ _ h => h.2))
    obtain ⟨Q, E, hm⟩ := step _ hi
    exact isChain_cons_append.mpr ⟨ih, hm.interrupted hk⟩

/-- An invariant of the uninterrupted run survives any history of interrupted ones. -/
theorem Attempts.invariant (hs : I s) (step : ∀ t, I t → ∃ Q E, m.Upholds (fun _ u => I u) Q E t)
    (h : m.Attempts s l) : I (l.getLastD s) := by
  have hc : List.IsChain (fun _ u => True ∧ I u) (s :: l) :=
    h.chain hs fun t ht => by simpa using step t ht
  exact getLastD_of_forall hs (mem_of_isChain (hc.imp fun _ _ h => h.2))

/-- What a run that returns guarantees. -/
theorem Upholds.returned {a : α} (h : m.Upholds G Q E s) (hr : (m s).result = .ok a) :
    Q a (m.final s) := by
  have := h.2
  rwa [hr] at this

/-- What a run that fails guarantees. -/
theorem Upholds.failed {e : ε} (h : m.Upholds G Q E s) (hr : (m s).result = .error e) :
    E e (m.final s) := by
  have := h.2
  rwa [hr] at this

/-- How a run that returns could have failed does not matter. -/
theorem Upholds.of_returned {F : ε → σ → Prop} {a : α} (h : m.Upholds G Q E s)
    (hr : (m s).result = .ok a) : m.Upholds G Q F s := by
  refine ⟨h.1, ?_⟩
  have := h.2
  rw [hr] at this ⊢
  exact this

/-- A run that has no way to fail returns. -/
theorem Upholds.returns (h : m.Upholds G Q (fun _ _ => False) s) :
    ∃ a, (m s).result = .ok a ∧ Q a (m.final s) := by
  have := h.2
  cases hr : (m s).result with
  | ok a => exact ⟨a, rfl, by rwa [hr] at this⟩
  | error e => rw [hr] at this; exact this.elim

/-- A run that takes no step and has one possible result is that observation. -/
theorem Upholds.observes {a : α} {t : σ}
    (h : m.Upholds (fun _ _ => False) (fun b u => b = a ∧ u = t) (fun _ _ => False) s) :
    m s = ⟨[], .ok a⟩ := by
  obtain ⟨b, hr, hb, -⟩ := h.returns
  have hv : (m s).visited = [] := by
    cases hv : (m s).visited with
    | nil => rfl
    | cons u l =>
      have hc := h.1
      rw [hv, List.isChain_cons_cons] at hc
      exact hc.1.elim
  subst hb
  exact congrArg₂ Run.mk hv hr

end Rules

end Program

/-- Access to one component of a store. -/
structure Lens (σ : Type u) (τ : Type v) where
  get : σ → τ
  set : τ → σ → σ
  get_set : ∀ t s, get (set t s) = t
  set_get : ∀ s, set (get s) s = s
  set_set : ∀ t t' s, set t (set t' s) = set t s

attribute [simp] Lens.get_set Lens.set_get Lens.set_set

namespace Program

variable {σ : Type u} {τ : Type y} {ε : Type v} {α : Type w}

/-- Runs a program of the component in place. -/
def zoom (l : Lens σ τ) (m : Program τ ε α) : Program σ ε α := fun s =>
  ⟨(m (l.get s)).visited.map fun t => l.set t s, (m (l.get s)).result⟩

theorem final_zoom (l : Lens σ τ) (m : Program τ ε α) (s : σ) :
    (zoom l m).final s = l.set (m.final (l.get s)) s := by
  simp only [final, zoom, List.getLastD_eq_getLast?, List.getLast?_map]
  cases (m (l.get s)).visited.getLast? with
  | none => simp
  | some t => simp

@[simp] theorem zoom_upholds {l : Lens σ τ} {m : Program τ ε α} {G : σ → σ → Prop}
    {Q : α → σ → Prop} {E : ε → σ → Prop} {s : σ} :
    (zoom l m).Upholds G Q E s ↔
      m.Upholds (fun t u => G (l.set t s) (l.set u s)) (fun a t => Q a (l.set t s))
        (fun e t => E e (l.set t s)) (l.get s) := by
  have hc : List.IsChain G (s :: (zoom l m s).visited) ↔
      List.IsChain (fun t u => G (l.set t s) (l.set u s)) (l.get s :: (m (l.get s)).visited) := by
    rw [← List.isChain_map (fun t => l.set t s), List.map_cons, l.set_get]
    rfl
  unfold Upholds
  rw [final_zoom, hc]
  rfl

end Program

end Crash
