import Mathlib.Logic.Relation
import Mathlib.Data.List.Chain

/-! Graphs given by successors: how long their chains are, and what can be reached. -/

universe u

namespace Graph

variable {α : Type u} (next : α → List α)

/-- One node is a successor of the other. -/
def Edge (a b : α) : Prop := b ∈ next a

/-- No chain from the node has more than so many nodes. -/
def Bounded : Nat → α → Prop
  | 0, _ => False
  | n + 1, a => ∀ b ∈ next a, Bounded n b

/-- The number of nodes on the longest chain from a node. -/
structure IsHeight (a : α) (h : Nat) : Prop where
  bounded : Bounded next h a
  least : ∀ n, Bounded next n a → h ≤ n

abbrev Reaches : α → α → Prop := Relation.ReflTransGen (Edge next)

variable {next} {a b : α} {m n : Nat}

theorem Bounded.pos (h : Bounded next n a) : 0 < n := by
  cases n with
  | zero => exact h.elim
  | succ n => exact Nat.succ_pos n

theorem Bounded.mono (h : Bounded next m a) (hmn : m ≤ n) : Bounded next n a := by
  induction m generalizing n a with
  | zero => exact h.elim
  | succ m ih =>
    cases n with
    | zero => omega
    | succ n => exact fun b hb => ih (h b hb) (Nat.le_of_succ_le_succ hmn)

theorem Bounded.edge (h : Bounded next n a) (hb : b ∈ next a) : Bounded next (n - 1) b := by
  cases n with
  | zero => exact h.elim
  | succ n => exact h b hb

theorem Bounded.reaches (h : Bounded next n a) (hab : Reaches next a b) : Bounded next n b := by
  induction hab with
  | refl => exact h
  | tail _ hedge ih => exact (ih.edge hedge).mono (Nat.sub_le n 1)

theorem Bounded.reaches_edge (h : Bounded next n a) (hab : Relation.TransGen (Edge next) a b) :
    Bounded next (n - 1) b := by
  obtain ⟨c, hac, hcb⟩ := Relation.TransGen.head'_iff.mp hab
  exact (h.edge hac).reaches hcb

/-- Chains through a cycle have no bound. -/
theorem Bounded.not_cycle (h : Bounded next n a) : ¬ Relation.TransGen (Edge next) a a := by
  intro hcycle
  induction n with
  | zero => exact h
  | succ n ih => exact ih (h.reaches_edge hcycle)

theorem bounded_iff_chain : Bounded next n a ↔
    ∀ l, List.IsChain (Edge next) (a :: l) → (a :: l).length ≤ n := by
  induction n generalizing a with
  | zero =>
    refine iff_of_false id fun h => ?_
    exact absurd (h [] (.singleton a)) (by simp)
  | succ n ih =>
    constructor
    · intro h l hl
      cases l with
      | nil => simp
      | cons b l =>
        rw [List.isChain_cons_cons] at hl
        exact Nat.succ_le_succ (ih.mp (h b hl.1) l hl.2)
    · intro h b hb
      refine ih.mpr fun l hl => ?_
      exact Nat.le_of_succ_le_succ (h (b :: l) (List.isChain_cons_cons.mpr ⟨hb, hl⟩))

theorem IsHeight.pos {h : Nat} (hh : IsHeight next a h) : 0 < h := hh.bounded.pos

/-- The height of a node from the heights of its successors. -/
theorem isHeight_of_successors {h : Nat} (hpos : 0 < h)
    (hall : ∀ b ∈ next a, ∃ k, IsHeight next b k ∧ k + 1 ≤ h)
    (hreached : h = 1 ∨ ∃ b ∈ next a, IsHeight next b (h - 1)) : IsHeight next a h := by
  obtain ⟨h, rfl⟩ := Nat.exists_eq_add_one_of_ne_zero (Nat.pos_iff_ne_zero.mp hpos)
  refine ⟨fun b hb => ?_, fun n hn => ?_⟩
  · obtain ⟨k, hk, hle⟩ := hall b hb
    exact hk.bounded.mono (Nat.le_of_succ_le_succ hle)
  · rcases hreached with hone | ⟨b, hb, hheight⟩
    · have hpos := hn.pos
      omega
    · have hle := hheight.least _ (hn.edge hb)
      have hpos := hn.pos
      omega

/-- A relation that goes from what is below to what is above holds of every bounded node. -/
theorem Bounded.induction {P : α → Prop} (hstep : ∀ a, (∀ b ∈ next a, P b) → P a)
    (h : Bounded next n a) : P a := by
  induction n generalizing a with
  | zero => exact h.elim
  | succ n ih => exact hstep a fun b hb => ih (h b hb)

end Graph
