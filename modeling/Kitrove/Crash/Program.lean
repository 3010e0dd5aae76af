import Mathlib.Data.List.Chain

/-! Programs that may stop after any of their atomic steps. A run records each
state it passes through, so a crash is a choice of one recorded state. -/

universe u v w x

namespace Crash

section Lists

variable {σ : Type u} {G H : σ → σ → Prop} {I : σ → Prop} {s : σ} {l : List σ}

theorem getLastD_append (l k : List σ) (s : σ) :
    (l ++ k).getLastD s = k.getLastD (l.getLastD s) := by
  cases k with
  | nil => simp
  | cons x k => simp [List.getLastD_eq_getLast?]

theorem isChain_cons_append {k : List σ} :
    List.IsChain G (s :: (l ++ k)) ↔
      List.IsChain G (s :: l) ∧ List.IsChain G (l.getLastD s :: k) := by
  induction l generalizing s with
  | nil => simp
  | cons x l ih =>
    rw [List.cons_append, List.isChain_cons_cons, List.isChain_cons_cons, ih,
      List.getLastD_cons, and_assoc]

theorem isChain_and (h : List.IsChain G l) (k : List.IsChain H l) :
    List.IsChain (fun t u => G t u ∧ H t u) l := by
  rw [List.isChain_iff_getElem] at *
  exact fun i hi => ⟨h i hi, k i hi⟩

theorem mem_of_isChain (h : List.IsChain (fun _ t => I t) (s :: l)) :
    ∀ t ∈ l, I t := by
  induction l generalizing s with
  | nil => simp
  | cons x l ih =>
    rw [List.isChain_cons_cons] at h
    exact List.forall_mem_cons.mpr ⟨h.1, ih h.2⟩

theorem getLastD_of_forall (hs : I s) (hl : ∀ t ∈ l, I t) : I (l.getLastD s) := by
  have hm : l.getLastD s ∈ s :: l := List.getLastD_mem_cons
  rcases List.mem_cons.mp hm with h | h
  · rwa [h]
  · exact hl _ h

/-- A property that each step keeps holds from the first state that has it. -/
theorem getLastD_of_stable (h : List.IsChain (fun t u => I t → I u) (s :: l))
    {t : σ} (ht : t ∈ s :: l) (hi : I t) : I (l.getLastD s) := by
  induction l generalizing s t with
  | nil => rwa [List.mem_singleton.mp ht] at hi
  | cons u l ih =>
    rw [List.isChain_cons_cons] at h
    rw [List.getLastD_cons]
    rcases List.mem_cons.mp ht with rfl | ht
    · exact ih h.2 List.mem_cons_self (h.1 hi)
    · exact ih h.2 ht hi

end Lists

/-- The states after each atomic step of one run, in order, and how the run ends. -/
structure Run (σ : Type u) (ε : Type v) (α : Type w) where
  visited : List σ
  result : Except ε α

def Program (σ : Type u) (ε : Type v) (α : Type w) := σ → Run σ ε α

namespace Program

variable {σ : Type u} {ε : Type v} {α β : Type w}

/-- The state a run leaves behind, whether it returns or fails. -/
def final (m : Program σ ε α) (s : σ) : σ := (m s).visited.getLastD s

protected def pure (a : α) : Program σ ε α := fun _ => ⟨[], .ok a⟩

protected def bind (m : Program σ ε α) (f : α → Program σ ε β) : Program σ ε β := fun s =>
  match m s with
  | ⟨l, .error e⟩ => ⟨l, .error e⟩
  | ⟨l, .ok a⟩ =>
    match f a (l.getLastD s) with
    | ⟨k, r⟩ => ⟨l ++ k, r⟩

instance : Monad (Program σ ε) where
  pure := Program.pure
  bind := Program.bind

instance : LawfulMonad (Program σ ε) :=
  LawfulMonad.mk' _
    (fun m => by
      funext s
      simp only [Functor.map, Program.bind]
      match m s with
      | ⟨l, .error e⟩ => rfl
      | ⟨l, .ok a⟩ => simp [Program.pure])
    (fun a f => by
      funext s
      simp [bind, Program.bind, pure, Program.pure])
    (fun m f g => by
      funext s
      simp only [bind, Program.bind]
      match m s with
      | ⟨l, .error e⟩ => rfl
      | ⟨l, .ok a⟩ =>
        dsimp only
        match f a (l.getLastD s) with
        | ⟨k, .error e⟩ => rfl
        | ⟨k, .ok b⟩ =>
          dsimp only
          rw [getLastD_append]
          simp [List.append_assoc])

/-- A step that observes the state and changes nothing. -/
def inspect (f : σ → α) : Program σ ε α := fun s => ⟨[], .ok (f s)⟩

/-- A step that changes the state at once. -/
def act (f : σ → α × σ) : Program σ ε α := fun s => ⟨[(f s).2], .ok (f s).1⟩

def fail (e : ε) : Program σ ε α := fun _ => ⟨[], .error e⟩

def ofExcept (r : Except ε α) : Program σ ε α := fun _ => ⟨[], r⟩

/-- Continues only when the condition holds. -/
def require (b : Bool) (e : ε) : Program σ ε PUnit :=
  if b then Program.pure ⟨⟩ else fail e

def mapError {δ : Type x} (g : ε → δ) (m : Program σ ε α) : Program σ δ α := fun s =>
  ⟨(m s).visited, (m s).result.mapError g⟩

/-- From `s`, every step of the run is one that `G` allows, a normal end satisfies `Q`
and a failing end satisfies `E`. -/
def Upholds (m : Program σ ε α) (G : σ → σ → Prop) (Q : α → σ → Prop) (E : ε → σ → Prop)
    (s : σ) : Prop :=
  List.IsChain G (s :: (m s).visited) ∧
    match (m s).result with
    | .ok a => Q a (m.final s)
    | .error e => E e (m.final s)

section Rules

variable {G H : σ → σ → Prop} {E F : ε → σ → Prop} {s : σ}

@[simp] theorem pure_upholds {a : α} {Q : α → σ → Prop} :
    (pure a : Program σ ε α).Upholds G Q E s ↔ Q a s := by
  simp [Upholds, final, pure, Program.pure]

@[simp] theorem fail_upholds {e : ε} {Q : α → σ → Prop} :
    (fail e : Program σ ε α).Upholds G Q E s ↔ E e s := by
  simp [Upholds, final, fail]

@[simp] theorem inspect_upholds {f : σ → α} {Q : α → σ → Prop} :
    (inspect f : Program σ ε α).Upholds G Q E s ↔ Q (f s) s := by
  simp [Upholds, final, inspect]

@[simp] theorem act_upholds {f : σ → α × σ} {Q : α → σ → Prop} :
    (act f : Program σ ε α).Upholds G Q E s ↔ G s (f s).2 ∧ Q (f s).1 (f s).2 := by
  simp [Upholds, final, act]

@[simp] theorem ofExcept_ok_upholds {a : α} {Q : α → σ → Prop} :
    (ofExcept (.ok a) : Program σ ε α).Upholds G Q E s ↔ Q a s := by
  simp [Upholds, final, ofExcept]

@[simp] theorem ofExcept_error_upholds {e : ε} {Q : α → σ → Prop} :
    (ofExcept (.error e) : Program σ ε α).Upholds G Q E s ↔ E e s := by
  simp [Upholds, final, ofExcept]

theorem ofExcept_upholds_of {r : Except ε α} {Q : α → σ → Prop} (hQ : ∀ a, r = .ok a → Q a s)
    (hE : ∀ e, r = .error e → E e s) : (ofExcept r : Program σ ε α).Upholds G Q E s := by
  cases r with
  | ok a => exact ofExcept_ok_upholds.mpr (hQ a rfl)
  | error e => exact ofExcept_error_upholds.mpr (hE e rfl)

@[simp] theorem require_upholds {b : Bool} {e : ε} {Q : PUnit → σ → Prop} :
    (require b e : Program σ ε PUnit).Upholds G Q E s ↔ if b then Q ⟨⟩ s else E e s := by
  cases b
  · exact fail_upholds
  · exact pure_upholds

@[simp] theorem mapError_upholds {δ : Type x} {g : ε → δ} {m : Program σ ε α}
    {Q : α → σ → Prop} {E : δ → σ → Prop} :
    (m.mapError g).Upholds G Q E s ↔ m.Upholds G Q (fun e => E (g e)) s := by
  unfold Upholds final mapError
  cases (m s).result <;> simp [Except.mapError]

@[simp] theorem bind_upholds {m : Program σ ε α} {f : α → Program σ ε β} {Q : β → σ → Prop} :
    (m >>= f).Upholds G Q E s ↔
      m.Upholds G (fun a t => (f a).Upholds G Q E t) E s := by
  simp only [Upholds, final, bind, Program.bind]
  match m s with
  | ⟨l, .error e⟩ => simp
  | ⟨l, .ok a⟩ => simp only [isChain_cons_append, and_assoc, getLastD_append]

@[simp] theorem map_upholds {m : Program σ ε α} {f : α → β} {Q : β → σ → Prop} :
    (f <$> m).Upholds G Q E s ↔ m.Upholds G (fun a => Q (f a)) E s := by
  rw [map_eq_pure_bind, bind_upholds]
  simp only [pure_upholds]

theorem Upholds.mono {m : Program σ ε α} {Q R : α → σ → Prop} (h : m.Upholds G Q E s)
    (hg : ∀ t u, G t u → H t u) (hq : ∀ a t, Q a t → R a t) (he : ∀ e t, E e t → F e t) :
    m.Upholds H R F s := by
  refine ⟨h.1.imp hg, ?_⟩
  have hr := h.2
  cases hm : (m s).result with
  | ok a => simp only [hm] at hr ⊢; exact hq a _ hr
  | error e => simp only [hm] at hr ⊢; exact he e _ hr

theorem Upholds.and {m : Program σ ε α} {Q R : α → σ → Prop} (h : m.Upholds G Q E s)
    (k : m.Upholds H R F s) :
    m.Upholds (fun t u => G t u ∧ H t u) (fun a t => Q a t ∧ R a t)
      (fun e t => E e t ∧ F e t) s := by
  refine ⟨isChain_and h.1 k.1, ?_⟩
  have hr := h.2
  have kr := k.2
  cases hm : (m s).result with
  | ok a => simp only [hm] at hr kr ⊢; exact ⟨hr, kr⟩
  | error e => simp only [hm] at hr kr ⊢; exact ⟨hr, kr⟩

/-- A property that every allowed step keeps holds all along a run that starts with it. -/
theorem Upholds.keeps {m : Program σ ε α} {Q : α → σ → Prop} {I : σ → Prop}
    (h : m.Upholds G Q E s) (hs : I s) (step : ∀ t u, G t u → I t → I u) :
    m.Upholds (fun t u => G t u ∧ I t ∧ I u) (fun a t => Q a t ∧ I t) (fun e t => E e t ∧ I t)
      s := by
  have hchain : ∀ {l : List σ} {s : σ}, List.IsChain G (s :: l) → I s →
      List.IsChain (fun t u => G t u ∧ I t ∧ I u) (s :: l) := by
    intro l
    induction l with
    | nil => simp
    | cons t l ih =>
      intro s hc hs
      rw [List.isChain_cons_cons] at hc ⊢
      have ht := step s t hc.1 hs
      exact ⟨⟨hc.1, hs, ht⟩, ih hc.2 ht⟩
  have hc := hchain h.1 hs
  have hfinal : I (m.final s) :=
    getLastD_of_stable (hc.imp fun _ _ hstep => fun _ => hstep.2.2) List.mem_cons_self hs
  refine ⟨hc, ?_⟩
  have hr := h.2
  cases hm : (m s).result with
  | ok a => simp only [hm] at hr ⊢; exact ⟨hr, hfinal⟩
  | error e => simp only [hm] at hr ⊢; exact ⟨hr, hfinal⟩

/-- A loop keeps a property of the work that remains and the value it carries. -/
theorem foldlM_upholds {ι : Type x} {f : α → ι → Program σ ε α} {R : List ι → α → σ → Prop}
    (step : ∀ i rest a t, R (i :: rest) a t → (f a i).Upholds G (R rest) E t)
    {xs : List ι} {a : α} (h : R xs a s) : (xs.foldlM f a).Upholds G (R []) E s := by
  induction xs generalizing a s with
  | nil => exact pure_upholds.mpr h
  | cons i xs ih =>
    rw [List.foldlM_cons, bind_upholds]
    exact (step i xs a s h).mono (fun _ _ => id) (fun _ _ => ih) (fun _ _ => id)

theorem foldlM_zipIdx_upholds {ι : Type x} {f : α → ι × Nat → Program σ ε α}
    {R : Nat → α → σ → Prop} {xs : List ι}
    (step : ∀ k x a t, xs[k]? = some x → R k a t → (f a (x, k)).Upholds G (R (k + 1)) E t)
    {a : α} (h : R 0 a s) : (xs.zipIdx.foldlM f a).Upholds G (R xs.length) E s := by
  have hsuffix : ∀ (ys : List ι) (k : Nat), (∀ n, ys[n]? = xs[k + n]?) → k + ys.length = xs.length →
      ∀ (a : α) (s : σ), R k a s → ((ys.zipIdx k).foldlM f a).Upholds G (R xs.length) E s := by
    intro ys
    induction ys with
    | nil =>
      intro k _ hk a s h
      have hk : k = xs.length := by simpa using hk
      rw [← hk]
      exact pure_upholds.mpr h
    | cons y ys ih =>
      intro k hget hk a s h
      rw [List.zipIdx_cons, List.foldlM_cons, bind_upholds]
      have hy : xs[k]? = some y := by simpa using (hget 0).symm
      have hrest : ∀ n, ys[n]? = xs[k + 1 + n]? := by
        intro n
        have := hget (n + 1)
        rwa [List.getElem?_cons_succ, ← Nat.add_assoc, Nat.add_right_comm] at this
      have hlen : k + 1 + ys.length = xs.length := by
        rw [List.length_cons] at hk
        omega
      exact (step k y a s hy h).mono (fun _ _ => id) (fun a t => ih (k + 1) hrest hlen a t)
        (fun _ _ => id)
  exact hsuffix xs 0 (by simp) (by simp) a s h

theorem foldlM_range_upholds {f : α → Nat → Program σ ε α} {R : Nat → α → σ → Prop} {n : Nat}
    (step : ∀ k a t, k < n → R k a t → (f a k).Upholds G (R (k + 1)) E t)
    {a : α} (h : R 0 a s) : ((List.range n).foldlM f a).Upholds G (R n) E s := by
  induction n with
  | zero => exact pure_upholds.mpr h
  | succ n ih =>
    rw [List.range_succ, List.foldlM_append, bind_upholds]
    refine (ih fun k a t hk => step k a t (by omega)).mono (fun _ _ => id) ?_ (fun _ _ => id)
    intro a t ht
    rw [List.foldlM_cons, bind_upholds]
    exact (step n a t (by omega) ht).mono (fun _ _ => id) (fun _ _ => pure_upholds.mpr)
      (fun _ _ => id)

theorem foldlM_range_reverse_upholds {f : α → Nat → Program σ ε α} {R : Nat → α → σ → Prop}
    {n : Nat} (step : ∀ k a t, k < n → R (k + 1) a t → (f a k).Upholds G (R k) E t)
    {a : α} (h : R n a s) : ((List.range n).reverse.foldlM f a).Upholds G (R 0) E s := by
  induction n generalizing a s with
  | zero => exact pure_upholds.mpr h
  | succ n ih =>
    rw [List.range_succ, List.reverse_concat, List.foldlM_cons, bind_upholds]
    exact (step n a s (by omega) h).mono (fun _ _ => id)
      (fun a t ht => ih (fun k a t hk => step k a t (by omega)) ht) (fun _ _ => id)

/-- Every run takes steps and ends in its final state. -/
theorem upholds_final (m : Program σ ε α) (s : σ) : m.Upholds (fun _ _ => True)
    (fun _ t => t = m.final s) (fun _ t => t = m.final s) s := by
  refine ⟨?_, ?_⟩
  · rw [List.isChain_iff_getElem]
    exact fun _ _ => trivial
  · cases (m s).result <;> rfl

theorem upholds_true {m : Program σ ε α} : m.Upholds (fun _ _ => True) (fun _ _ => True)
    (fun _ _ => True) s :=
  (m.upholds_final s).mono (fun _ _ => id) (fun _ _ _ => trivial) fun _ _ _ => trivial

theorem forM_upholds {ι : Type x} {f : ι → Program σ ε PUnit} {R : List ι → σ → Prop}
    (step : ∀ i rest t, R (i :: rest) t → (f i).Upholds G (fun _ => R rest) E t)
    {xs : List ι} (h : R xs s) : (xs.forM f).Upholds G (fun _ => R []) E s := by
  induction xs generalizing s with
  | nil => exact pure_upholds.mpr h
  | cons i xs ih =>
    refine bind_upholds.mpr ?_
    exact (step i xs s h).mono (fun _ _ => id) (fun _ _ => ih) (fun _ _ => id)

end Rules

end Program

end Crash
