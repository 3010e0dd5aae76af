import Mathlib.Data.List.Nodup

/-! Lineages: the values from one of them back to the first, each leading to the one before it. -/

universe u

/-- The values that are met on the way back from a start; the first value leads nowhere. -/
inductive Lineage {Id : Type u} (parent : Id → Option (Option Id)) : Option Id → List Id → Prop
  | nil : Lineage parent none []
  | cons {id : Id} {next : Option Id} {ids : List Id} (h : parent id = some next)
      (hids : Lineage parent next ids) : Lineage parent (some id) (id :: ids)

namespace Lineage

variable {Id : Type u} {parent parent' : Id → Option (Option Id)} {start next : Option Id} {id : Id}
  {ids ids' : List Id}

theorem head_eq (h : Lineage parent start ids) : start = ids.head? := by
  cases h with
  | nil => rfl
  | cons _ _ => rfl

theorem unique (h : Lineage parent start ids) (h' : Lineage parent start ids') : ids = ids' := by
  induction h generalizing ids' with
  | nil =>
    cases h' with
    | nil => rfl
  | cons hid _ ih =>
    cases h' with
    | cons hid' hids' =>
      rw [hid] at hid'
      rw [ih (Option.some.inj hid' ▸ hids')]

theorem mono (h : Lineage parent start ids)
    (hle : ∀ id next, parent id = some next → parent' id = some next) : Lineage parent' start ids := by
  induction h with
  | nil => exact .nil
  | cons hid _ ih => exact .cons (hle _ _ hid) ih

/-- Every value of a lineage has a lineage of its own, the end of it. -/
theorem of_mem (h : Lineage parent start ids) (hid : id ∈ ids) :
    ∃ rest, id :: rest <:+ ids ∧ Lineage parent (some id) (id :: rest) := by
  induction h with
  | nil => exact absurd hid List.not_mem_nil
  | @cons first next ids hfirst hids ih =>
    rcases List.mem_cons.mp hid with rfl | hid
    · exact ⟨ids, List.suffix_refl _, .cons hfirst hids⟩
    · obtain ⟨rest, hsuffix, hrest⟩ := ih hid
      exact ⟨rest, hsuffix.trans (List.suffix_cons _ _), hrest⟩

/-- Nothing is met twice. -/
theorem nodup (h : Lineage parent start ids) : ids.Nodup := by
  induction h with
  | nil => exact List.nodup_nil
  | @cons id next ids hid hids ih =>
    refine List.nodup_cons.mpr ⟨fun hmem => ?_, ih⟩
    obtain ⟨rest, hsuffix, hrest⟩ := hids.of_mem hmem
    have hsame : id :: ids = id :: rest := (Lineage.cons hid hids).unique hrest
    have hle := hsuffix.length_le
    rw [← hsame, List.length_cons] at hle
    exact Nat.not_succ_le_self _ hle

/-- A value that leads to the start of a lineage is not in it. -/
theorem not_mem (h : Lineage parent start ids) (hid : parent id = some start) : id ∉ ids :=
  (List.nodup_cons.mp (Lineage.cons hid h).nodup).1

theorem parent_of_suffix {rest : List Id} (h : Lineage parent start ids) (hsuffix : id :: rest <:+ ids) :
    parent id = some rest.head? := by
  induction h with
  | nil => exact absurd (List.suffix_nil.mp hsuffix) (List.cons_ne_nil _ _)
  | cons hid hids ih =>
    rcases List.suffix_cons_iff.mp hsuffix with heq | hsuffix
    · obtain ⟨rfl, rfl⟩ := List.cons.inj heq
      rw [hid, hids.head_eq]
    · exact ih hsuffix

end Lineage
