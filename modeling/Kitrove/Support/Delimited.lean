import Mathlib.Data.List.Basic

/-! Encodings that show where they end: values that are written one after the other can be
told apart, as long as the whole text is shorter than what a count can hold. -/

universe u v w

namespace Delimited

variable {σ : Type u} {α : Type v} {β : Type w} {limit : Nat} {x y : List σ}

/-- Two texts that are one, and short enough for every count inside. -/
structure Same (limit : Nat) (x y : List σ) : Prop where
  eq : x = y
  short : x.length < limit

theorem Same.of_append {p q : List σ} (h : Same limit (p ++ x) (q ++ y))
    (hlength : p.length = q.length) : p = q ∧ Same limit x y := by
  obtain ⟨hp, hx⟩ := List.append_inj h.eq hlength
  have hshort := h.short
  rw [List.length_append] at hshort
  exact ⟨hp, hx, by omega⟩

theorem Same.of_cons {s t : σ} (h : Same limit (s :: x) (t :: y)) : s = t ∧ Same limit x y := by
  have happend : Same limit ([s] ++ x) ([t] ++ y) := h
  obtain ⟨hst, hxy⟩ := happend.of_append rfl
  exact ⟨List.head_eq_of_cons_eq hst, hxy⟩

/-- Wherever two equal texts have an encoding, it is of the same value. -/
def Delimits (limit : Nat) (encode : α → List σ) : Prop :=
  ∀ ⦃a b : α⦄ ⦃x y : List σ⦄, Same limit (encode a ++ x) (encode b ++ y) → a = b ∧ Same limit x y

section Encodings

variable {f : α → List σ} {g : β → List σ}

theorem Delimits.comp (hf : Delimits limit f) {k : β → α} (hk : ∀ a b, k a = k b → a = b) :
    Delimits limit fun b => f (k b) := by
  intro a b x y h
  obtain ⟨hab, hxy⟩ := hf h
  exact ⟨hk a b hab, hxy⟩

theorem Delimits.pair (hf : Delimits limit f) (hg : Delimits limit g) :
    Delimits limit fun p : α × β => f p.1 ++ g p.2 := by
  rintro ⟨a, b⟩ ⟨c, d⟩ x y h
  rw [List.append_assoc, List.append_assoc] at h
  obtain ⟨hac, hsnd⟩ := hf h
  obtain ⟨hbd, hxy⟩ := hg hsnd
  exact ⟨Prod.ext hac hbd, hxy⟩

/-- An encoding of one length. -/
theorem delimits_of_length {n : Nat} (hlength : ∀ a, (f a).length = n)
    (hf : ∀ a b, f a = f b → a = b) : Delimits limit f := by
  intro a b x y h
  obtain ⟨hab, hxy⟩ := h.of_append (by rw [hlength, hlength])
  exact ⟨hf a b hab, hxy⟩

end Encodings

section Counted

/-- Counts of one width, distinct below the limit. -/
structure Counts (limit : Nat) (count : Nat → List σ) : Prop where
  width : ∃ n, ∀ m, (count m).length = n
  injective : ∀ ⦃m n⦄, m < limit → n < limit → count m = count n → m = n

variable {count : Nat → List σ} (hcount : Counts limit count)

include hcount

theorem Counts.peel {m n : Nat} (h : Same limit (count m ++ x) (count n ++ y)) (hm : m ≤ x.length)
    (hn : n ≤ y.length) : m = n ∧ Same limit x y := by
  obtain ⟨width, hwidth⟩ := hcount.width
  obtain ⟨hmn, hxy⟩ := h.of_append (by rw [hwidth, hwidth])
  have hshort := hxy.short
  have hlength := congrArg List.length hxy.eq
  exact ⟨hcount.injective (by omega) (by omega) hmn, hxy⟩

/-- A text behind its length. -/
theorem Counts.delimits_text : Delimits limit fun text : List σ => count text.length ++ text := by
  intro a b x y h
  rw [List.append_assoc, List.append_assoc] at h
  obtain ⟨hlength, h⟩ := hcount.peel h (by simp) (by simp)
  exact h.of_append hlength

variable {f : α → List σ} (hf : Delimits limit f)

include hf

omit hcount in
theorem Delimits.peel_flatMap {xs ys : List α} (hlength : xs.length = ys.length)
    (h : Same limit (xs.flatMap f ++ x) (ys.flatMap f ++ y)) : xs = ys ∧ Same limit x y := by
  induction xs generalizing ys with
  | nil =>
    rw [List.length_nil] at hlength
    rw [List.eq_nil_of_length_eq_zero hlength.symm] at h ⊢
    exact ⟨rfl, h⟩
  | cons a xs ih =>
    cases ys with
    | nil => cases hlength
    | cons b ys =>
      rw [List.flatMap_cons, List.flatMap_cons, List.append_assoc, List.append_assoc] at h
      obtain ⟨hab, htail⟩ := hf h
      obtain ⟨hrest, hxy⟩ := ih (Nat.succ.inj hlength) htail
      exact ⟨congrArg₂ _ hab hrest, hxy⟩

omit hcount hf in
theorem length_le_flatMap (hne : ∀ a, f a ≠ []) (xs : List α) :
    xs.length ≤ (xs.flatMap f).length := by
  induction xs with
  | nil => exact Nat.le_refl 0
  | cons a xs ih =>
    have ha := List.length_pos_of_ne_nil (hne a)
    rw [List.flatMap_cons, List.length_append, List.length_cons]
    omega

/-- The elements of a list behind their number. -/
theorem Counts.peel_list (hne : ∀ a, f a ≠ []) {xs ys : List α}
    (h : Same limit (count xs.length ++ (xs.flatMap f ++ x))
      (count ys.length ++ (ys.flatMap f ++ y))) : xs = ys ∧ Same limit x y := by
  have hle : ∀ (zs : List α) (z : List σ), zs.length ≤ (zs.flatMap f ++ z).length := by
    intro zs z
    rw [List.length_append]
    exact Nat.le_add_right_of_le (length_le_flatMap hne zs)
  obtain ⟨hlength, h⟩ := hcount.peel h (hle xs x) (hle ys y)
  exact hf.peel_flatMap hlength h

end Counted

end Delimited
