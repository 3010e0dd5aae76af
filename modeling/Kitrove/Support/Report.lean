import Kitrove.Support.Outcome

/-! Computations that may fail and that report: reports are only ever added. -/

/-- A computation that adds to a list of reports. -/
structure ReportM (ε ρ α : Type) where
  run : List ρ → Except ε (α × List ρ)
  grows : ∀ s a t, run s = .ok (a, t) → s <+: t

namespace ReportM

variable {ε ρ α β : Type}

instance : Monad (ReportM ε ρ) where
  pure a :=
    { run := fun s => .ok (a, s)
      grows := by
        rintro s a t h
        cases h
        exact List.prefix_rfl }
  bind x f :=
    { run := fun s =>
        match x.run s with
        | .error e => .error e
        | .ok (a, t) => (f a).run t
      grows := by
        intro s b u h
        cases hx : x.run s with
        | error e => simp [hx] at h
        | ok r =>
          obtain ⟨a, t⟩ := r
          rw [hx] at h
          exact (x.grows s a t hx).trans ((f a).grows t b u h) }

def lift (x : Except ε α) : ReportM ε ρ α where
  run s := x.map fun a => (a, s)
  grows := by
    intro s a t h
    cases x with
    | error e => contradiction
    | ok a =>
      cases h
      exact List.prefix_rfl

/-- Adds a report, or fails once there are as many as the limit. -/
def push (limit : Nat) (error : ε) (r : ρ) : ReportM ε ρ Unit where
  run s := if s.length ≥ limit then .error error else .ok ((), s ++ [r])
  grows := by
    intro s a t h
    split at h
    · contradiction
    · cases h
      exact List.prefix_append s [r]

theorem ext_run {x y : ReportM ε ρ α} (h : x.run = y.run) : x = y := by
  cases x
  cases y
  congr

/-- The results of a computation that neither failed nor reported. -/
def silent (ε ρ : Type) : Outcome (ReportM ε ρ) where
  gives x a := x.run [] = .ok (a, [])
  pure_iff := by
    intro α a b
    change (Except.ok (a, []) : Except ε (α × List ρ)) = .ok (b, []) ↔ a = b
    simp
  bind_iff := by
    intro α β x f b
    change (match x.run [] with
      | .error e => Except.error e
      | .ok (a, t) => (f a).run t) = .ok (b, []) ↔ _
    cases hx : x.run [] with
    | error e => simp
    | ok r =>
      obtain ⟨a, t⟩ := r
      simp only [Except.ok.injEq, Prod.mk.injEq]
      constructor
      · intro h
        have ht : t = [] := List.prefix_nil.mp ((f a).grows t b [] h)
        exact ⟨a, ⟨rfl, ht⟩, ht ▸ h⟩
      · rintro ⟨a', ⟨rfl, rfl⟩, h⟩
        exact h

abbrev Silent (x : ReportM ε ρ α) (a : α) : Prop := (silent ε ρ).gives x a

theorem silent_lift {x : Except ε α} {a : α} :
    Silent (lift x : ReportM ε ρ α) a ↔ x = .ok a := by
  change (x.map fun a => (a, ([] : List ρ))) = .ok (a, []) ↔ _
  cases x <;> simp [Except.map]

theorem not_silent_push {limit : Nat} {error : ε} {r : ρ} {u : Unit} :
    ¬ Silent (push limit error r) u := by
  change ¬ (if [].length ≥ limit then _ else _) = _
  split <;> simp

theorem not_silent_push_bind {limit : Nat} {error : ε} {r : ρ} {f : Unit → ReportM ε ρ α} {a : α} :
    ¬ Silent (push limit error r >>= f) a := by
  rw [Silent, (silent ε ρ).bind_iff]
  rintro ⟨u, h, -⟩
  exact not_silent_push h

end ReportM
