import Mathlib.Algebra.Ring.Nat
import Mathlib.Data.List.Basic

/-! Texts made of segments with a separator between them. -/

universe u

namespace Segments

variable {α : Type u} [BEq α] [LawfulBEq α] {sep : α}

def join (sep : α) (segments : List (List α)) : List α := [sep].intercalate segments

omit [BEq α] [LawfulBEq α] in
theorem join_cons {segment : List α} {segments : List (List α)} (h : segments ≠ []) :
    join sep (segment :: segments) = segment ++ sep :: join sep segments := by
  rw [join, List.intercalate_cons_of_ne_nil h, List.append_assoc]
  rfl

omit [BEq α] [LawfulBEq α] in
theorem join_append {xs ys : List (List α)} (hx : xs ≠ []) (hy : ys ≠ []) :
    join sep (xs ++ ys) = join sep xs ++ sep :: join sep ys := by
  induction xs with
  | nil => exact absurd rfl hx
  | cons x xs ih =>
    cases xs with
    | nil =>
      rw [List.singleton_append, join_cons hy]
      simp [join]
    | cons x' xs =>
      rw [List.cons_append, join_cons (by simp), ih (by simp), join_cons (List.cons_ne_nil _ _),
        List.append_assoc, List.cons_append]

omit [BEq α] [LawfulBEq α] in
theorem length_join {segments : List (List α)} (h : segments ≠ []) :
    (join sep segments).length + 1 = (segments.map fun segment => segment.length + 1).sum := by
  induction segments with
  | nil => exact absurd rfl h
  | cons segment segments ih =>
    cases segments with
    | nil => simp [join]
    | cons next segments =>
      have hrest := ih (List.cons_ne_nil _ _)
      rw [join_cons (List.cons_ne_nil _ _), List.length_append, List.length_cons, List.map_cons,
        List.sum_cons, ← hrest]
      omega

omit [BEq α] [LawfulBEq α] in
/-- Reordering the segments does not change the length. -/
theorem length_join_perm {xs ys : List (List α)} (h : xs.Perm ys) (hne : xs ≠ []) :
    (join sep xs).length = (join sep ys).length := by
  have hne' : ys ≠ [] := fun hnil => hne (List.perm_nil.mp (hnil ▸ h))
  have hx := @length_join α sep xs hne
  have hy := @length_join α sep ys hne'
  rw [(h.map _).sum_nat, ← hy] at hx
  exact Nat.succ.inj hx

/-- No segment has the separator inside. -/
theorem not_mem_of_mem_splitOn {text segment : List α} (h : segment ∈ text.splitOn sep) :
    sep ∉ segment := by
  induction text generalizing segment with
  | nil =>
    rw [List.splitOn_nil, List.mem_singleton] at h
    rw [h]
    exact List.not_mem_nil
  | cons b text ih =>
    rw [List.splitOn_cons_eq_if_modifyHead] at h
    split at h
    · rcases List.mem_cons.mp h with rfl | h
      · exact List.not_mem_nil
      · exact ih h
    · rename_i hb
      cases hparts : text.splitOn sep with
      | nil => exact absurd hparts (List.splitOn_ne_nil sep text)
      | cons part parts =>
        rw [hparts] at h ih
        rcases List.mem_cons.mp h with rfl | h
        · intro hmem
          rcases List.mem_cons.mp hmem with rfl | hmem
          · exact hb BEq.rfl
          · exact ih List.mem_cons_self hmem
        · exact ih (List.mem_cons_of_mem _ h)

theorem splitOn_join {segments : List (List α)} (hne : segments ≠ [])
    (h : ∀ segment ∈ segments, sep ∉ segment) : (join sep segments).splitOn sep = segments :=
  List.splitOn_intercalate sep h hne

theorem join_splitOn (sep : α) (text : List α) : join sep (text.splitOn sep) = text :=
  List.intercalate_splitOn sep

/-- Where a separator splits a joined text, it splits the segments. -/
theorem split_of_join {segments : List (List α)} {x y : List α} (hne : segments ≠ [])
    (hsegments : ∀ segment ∈ segments, sep ∉ segment) (h : join sep segments = x ++ sep :: y) :
    segments = x.splitOn sep ++ y.splitOn sep := by
  rw [← List.splitOn_append_cons_self, ← h, splitOn_join hne hsegments]

omit [BEq α] [LawfulBEq α] in
theorem mem_join {b : α} {segments : List (List α)} (h : b ∈ join sep segments) :
    b = sep ∨ ∃ segment ∈ segments, b ∈ segment := by
  induction segments with
  | nil => cases h
  | cons segment segments ih =>
    cases segments with
    | nil =>
      simp only [join, List.intercalate_singleton] at h
      exact .inr ⟨segment, List.mem_cons_self, h⟩
    | cons next segments =>
      rw [join_cons (List.cons_ne_nil _ _), List.mem_append, List.mem_cons] at h
      rcases h with h | rfl | h
      · exact .inr ⟨segment, List.mem_cons_self, h⟩
      · exact .inl rfl
      · rcases ih h with h | ⟨other, hother, h⟩
        · exact .inl h
        · exact .inr ⟨other, List.mem_cons_of_mem _ hother, h⟩

omit [BEq α] [LawfulBEq α] in
theorem mem_join_of_mem {b : α} {segments : List (List α)} {segment : List α}
    (hsegment : segment ∈ segments) (hb : b ∈ segment) : b ∈ join sep segments := by
  obtain ⟨xs, ys, rfl⟩ := List.append_of_mem hsegment
  have hlast : b ∈ join sep (segment :: ys) := by
    cases ys with
    | nil => simpa [join] using hb
    | cons y ys =>
      rw [join_cons (List.cons_ne_nil _ _)]
      exact List.mem_append_left _ hb
  cases xs with
  | nil => exact hlast
  | cons x xs =>
    rw [join_append (List.cons_ne_nil _ _) (List.cons_ne_nil _ _)]
    exact List.mem_append_right _ (List.mem_cons_of_mem _ hlast)

end Segments
