import Mathlib.Algebra.Ring.Nat
import Mathlib.Data.List.Basic

/-! Results of computations that may fail: when a sequence of them succeeds. -/

universe u v w

namespace Except

variable {ε : Type u} {α : Type v} {β : Type v}

theorem bind_eq_ok_iff {x : Except ε α} {f : α → Except ε β} {b : β} :
    (x >>= f) = .ok b ↔ ∃ a, x = .ok a ∧ f a = .ok b := by
  cases x with
  | error e => simp [bind, Except.bind]
  | ok a => simp [bind, Except.bind]

theorem pure_eq_ok_iff {a b : α} : (pure a : Except ε α) = .ok b ↔ a = b := by
  simp [pure, Except.pure]

theorem mapError_eq_ok_iff {δ : Type w} {r : Except ε α} {f : ε → δ} {a : α} :
    r.mapError f = .ok a ↔ r = .ok a := by
  cases r <;> simp [Except.mapError]

theorem toOption_eq_some_iff {r : Except ε α} {a : α} : r.toOption = some a ↔ r = .ok a := by
  cases r <;> simp [Except.toOption]

/-- Each element of a list mapped without failure is mapped without failure. -/
theorem mapM_eq_ok {ι : Type w} {f : ι → Except ε α} {xs : List ι} {ys : List α}
    (h : xs.mapM f = .ok ys) : List.Forall₂ (fun x y => f x = .ok y) xs ys := by
  induction xs generalizing ys with
  | nil =>
    rw [List.mapM_nil, pure_eq_ok_iff] at h
    rw [← h]
    exact .nil
  | cons x xs ih =>
    rw [List.mapM_cons, bind_eq_ok_iff] at h
    obtain ⟨y, hy, h⟩ := h
    rw [bind_eq_ok_iff] at h
    obtain ⟨ys', hys, h⟩ := h
    rw [pure_eq_ok_iff] at h
    rw [← h]
    exact .cons hy (ih hys)

theorem mapM_eq_ok_iff {ι : Type w} {f : ι → Except ε α} {xs : List ι} {ys : List α} :
    xs.mapM f = .ok ys ↔ List.Forall₂ (fun x y => f x = .ok y) xs ys := by
  refine ⟨mapM_eq_ok, fun h => ?_⟩
  induction h with
  | nil => rfl
  | cons hxy _ ih =>
    rw [List.mapM_cons, hxy, ih]
    rfl

/-- A loop whose steps cannot fail does not fail. -/
theorem foldlM_ok {ι : Type w} {f : β → ι → Except ε β} {xs : List ι} {b : β}
    (h : ∀ b, ∀ x ∈ xs, ∃ c, f b x = .ok c) : ∃ c, xs.foldlM f b = .ok c := by
  induction xs generalizing b with
  | nil => exact ⟨b, rfl⟩
  | cons x xs ih =>
    obtain ⟨c, hc⟩ := h b x List.mem_cons_self
    rw [List.foldlM_cons, hc]
    exact ih fun b y hy => h b y (List.mem_cons_of_mem x hy)

/-- A loop keeps an invariant of what it has done so far, or one of its steps fails. -/
theorem foldlM_ends {ι : Type w} {f : β → ι → Except ε β} {xs : List ι} {b : β}
    {I : List ι → β → Prop} {E : ε → Prop} (hb : I [] b)
    (hf : ∀ done x b, x ∈ xs → I done b →
      (∀ c, f b x = .ok c → I (done ++ [x]) c) ∧ ∀ e, f b x = .error e → E e) :
    (∀ c, xs.foldlM f b = .ok c → I xs c) ∧ ∀ e, xs.foldlM f b = .error e → E e := by
  have hall : ∀ done rest b, (∀ x ∈ rest, x ∈ xs) → I done b →
      (∀ c, rest.foldlM f b = .ok c → I (done ++ rest) c) ∧
        ∀ e, rest.foldlM f b = .error e → E e := by
    intro done rest
    induction rest generalizing done with
    | nil =>
      intro b _ hb
      rw [List.append_nil]
      refine ⟨fun c hc => ?_, fun _ he => nomatch he⟩
      cases hc
      exact hb
    | cons x rest ih =>
      intro b hmem hb
      rw [List.foldlM_cons]
      obtain ⟨hok, herror⟩ := hf done x b (hmem x List.mem_cons_self) hb
      cases hx : f b x with
      | error e =>
        refine ⟨fun _ hc => (nomatch hc), fun e' he => ?_⟩
        cases he
        exact herror e hx
      | ok c =>
        have hrest := ih (done ++ [x]) c (fun y hy => hmem y (List.mem_cons_of_mem x hy)) (hok c hx)
        rwa [List.append_assoc] at hrest
  exact hall [] xs b (fun _ h => h) hb

/-- An element of the results comes from an element of the list. -/
theorem forall₂_of_mem_right {ι : Type w} {R : ι → α → Prop} {xs : List ι} {ys : List α} {y : α}
    (h : List.Forall₂ R xs ys) (hy : y ∈ ys) : ∃ x ∈ xs, R x y := by
  induction h with
  | nil => contradiction
  | cons hxy _ ih =>
    rcases List.mem_cons.mp hy with rfl | hy
    · exact ⟨_, List.mem_cons_self, hxy⟩
    · obtain ⟨x, hx, hxy⟩ := ih hy
      exact ⟨x, List.mem_cons_of_mem _ hx, hxy⟩

end Except
