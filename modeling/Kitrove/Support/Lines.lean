import Mathlib.Data.List.Basic

/-! Splitting a list after every delimiter, and joining the lines again. -/

namespace Lines

variable {α : Type} [DecidableEq α] (d : α)

/-- The lines of a list, each with its delimiter; the last one may lack it. -/
def splitInclusive : List α → List (List α)
  | [] => []
  | x :: rest =>
    if x = d then [x] :: splitInclusive rest
    else
      match splitInclusive rest with
      | [] => [[x]]
      | line :: lines => (x :: line) :: lines

/-- A non-empty list with no delimiter before its last element. -/
def IsLine (line : List α) : Prop := line ≠ [] ∧ d ∉ line.dropLast

def Ended (line : List α) : Prop := line.getLast? = some d

/-- Lines of which all but the last are ended. -/
def AreLines : List (List α) → Prop
  | [] => True
  | line :: lines => IsLine d line ∧ (lines ≠ [] → Ended d line) ∧ AreLines lines

variable {d} {l : List α} {line : List α} {lines xs ys : List (List α)}

theorem splitInclusive_eq_nil : splitInclusive d l = [] ↔ l = [] := by
  cases l with
  | nil => simp [splitInclusive]
  | cons x rest =>
    simp only [splitInclusive, reduceCtorEq, iff_false]
    split
    · simp
    · cases splitInclusive d rest <;> simp

theorem flatten_splitInclusive : (splitInclusive d l).flatten = l := by
  induction l with
  | nil => rfl
  | cons x rest ih =>
    simp only [splitInclusive]
    split
    · simp [ih]
    · cases hs : splitInclusive d rest with
      | nil => simp [splitInclusive_eq_nil.mp hs]
      | cons line lines => simpa [hs] using ih

omit [DecidableEq α] in
theorem isLine_cons {x : α} (hx : x ≠ d) (h : IsLine d line) : IsLine d (x :: line) := by
  obtain ⟨y, rest, rfl⟩ := List.exists_cons_of_ne_nil h.1
  refine ⟨by simp, ?_⟩
  rw [List.dropLast_cons_cons]
  exact List.not_mem_cons_of_ne_of_not_mem (Ne.symm hx) h.2

theorem areLines_splitInclusive : AreLines d (splitInclusive d l) := by
  induction l with
  | nil => trivial
  | cons x rest ih =>
    simp only [splitInclusive]
    split
    · rename_i hx
      exact ⟨⟨by simp, by simp⟩, fun _ => by simp [Ended, hx], ih⟩
    · rename_i hx
      cases hs : splitInclusive d rest with
      | nil => exact ⟨⟨by simp, by simp⟩, by simp, trivial⟩
      | cons line lines =>
        rw [hs] at ih
        obtain ⟨hline, hended, hlines⟩ := ih
        refine ⟨isLine_cons hx hline, fun hne => ?_, hlines⟩
        obtain ⟨y, rest', rfl⟩ := List.exists_cons_of_ne_nil hline.1
        rw [Ended, List.getLast?_cons_cons]
        exact hended hne

theorem splitInclusive_ended_append {b : List α} (hd : d ∉ l) :
    splitInclusive d (l ++ d :: b) = (l ++ [d]) :: splitInclusive d b := by
  induction l with
  | nil => simp [splitInclusive]
  | cons x l ih =>
    rw [List.mem_cons, not_or] at hd
    rw [List.cons_append, splitInclusive, if_neg (Ne.symm hd.1), ih hd.2]
    rfl

theorem splitInclusive_single (hne : l ≠ []) (hd : d ∉ l) : splitInclusive d l = [l] := by
  induction l with
  | nil => contradiction
  | cons x l ih =>
    rw [List.mem_cons, not_or] at hd
    rw [splitInclusive, if_neg (Ne.symm hd.1)]
    cases l with
    | nil => rfl
    | cons y l => rw [ih (by simp) hd.2]

theorem splitInclusive_isLine (h : IsLine d line) : splitInclusive d line = [line] := by
  have hsplit := List.dropLast_append_getLast h.1
  by_cases he : line.getLast h.1 = d
  · rw [← hsplit, he, splitInclusive_ended_append h.2]
    rfl
  · refine splitInclusive_single h.1 ?_
    rw [← hsplit, List.mem_append, not_or]
    exact ⟨h.2, by simpa using Ne.symm he⟩

theorem splitInclusive_flatten (h : AreLines d lines) : splitInclusive d lines.flatten = lines := by
  induction lines with
  | nil => rfl
  | cons line lines ih =>
    obtain ⟨hline, hended, hlines⟩ := h
    rw [List.flatten_cons]
    by_cases hne : lines = []
    · rw [hne, List.flatten_nil, List.append_nil, splitInclusive_isLine hline]
    · have hlast : line = line.dropLast ++ [d] := (List.dropLast_append_getLast? d (hended hne)).symm
      rw [hlast, List.append_assoc, List.singleton_append, splitInclusive_ended_append hline.2,
        ih hlines]

omit [DecidableEq α] in
theorem areLines_append :
    AreLines d (xs ++ ys) ↔
      AreLines d xs ∧ AreLines d ys ∧ (ys ≠ [] → ∀ x ∈ xs.getLast?, Ended d x) := by
  induction xs with
  | nil => simp [AreLines]
  | cons x xs ih =>
    rw [List.cons_append, AreLines, AreLines, ih]
    cases xs with
    | nil => simp; tauto
    | cons y xs => simp; tauto

omit [DecidableEq α] in
theorem flatten_ended (h : ∀ x ∈ xs.getLast?, Ended d x) :
    xs.flatten = [] ∨ Ended d xs.flatten := by
  rcases List.eq_nil_or_concat xs with rfl | ⟨ys, x, rfl⟩
  · exact .inl rfl
  · have hx : Ended d x := h x (by simp)
    refine .inr ?_
    rw [Ended, List.concat_eq_append, List.flatten_append, List.getLast?_append]
    rw [List.flatten_singleton, hx]
    rfl

omit [DecidableEq α] in
theorem AreLines.isLine (h : AreLines d xs) : ∀ line ∈ xs, IsLine d line := by
  induction xs with
  | nil => simp
  | cons x xs ih => exact List.forall_mem_cons.mpr ⟨h.1, ih h.2.2⟩

omit [DecidableEq α] in
/-- The last line is ended exactly when the whole text is. -/
theorem AreLines.ended_iff (h : AreLines d xs) :
    (∀ x ∈ xs.getLast?, Ended d x) ↔ xs.flatten = [] ∨ Ended d xs.flatten := by
  refine ⟨flatten_ended, fun hf x hx => ?_⟩
  obtain ⟨ys, rfl⟩ := List.getLast?_eq_some_iff.mp hx
  have hne : x ≠ [] := (h.isLine x (by simp)).1
  have hlast : ((ys ++ [x]).flatten).getLast? = x.getLast? := by
    rw [List.flatten_append, List.flatten_singleton, List.getLast?_append]
    cases hg : x.getLast? with
    | none => exact absurd (List.getLast?_eq_none_iff.mp hg) hne
    | some b => rfl
  rcases hf with hnil | hended
  · exact absurd (by simpa using hnil) (fun hn : _ ∧ x = [] => hne hn.2)
  · rwa [Ended, hlast] at hended

omit [DecidableEq α] in
theorem ended_isLine {l : List α} (h : d ∉ l) : IsLine d (l ++ [d]) := ⟨by simp, by simpa using h⟩

omit [DecidableEq α] in
/-- Ending the last line leaves the lines lines. -/
theorem AreLines.finish {x : List α} (h : AreLines d (xs ++ [x])) (hx : ¬ Ended d x) :
    AreLines d (xs ++ [x ++ [d]]) := by
  rw [areLines_append] at h ⊢
  obtain ⟨hxs, ⟨hline, -, -⟩, hended⟩ := h
  have hd : d ∉ x := by
    intro hm
    rw [← List.dropLast_append_getLast hline.1, List.mem_append, List.mem_singleton] at hm
    rcases hm with hm | hm
    · exact hline.2 hm
    · exact hx (by rw [Ended, List.getLast?_eq_some_getLast hline.1, ← hm])
  exact ⟨hxs, ⟨ended_isLine hd, by simp, trivial⟩, fun _ => hended (by simp)⟩

end Lines
