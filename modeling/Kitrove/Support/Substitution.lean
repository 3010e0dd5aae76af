import Mathlib.Data.List.Basic
import Mathlib.Data.List.Infix

/-! Replacing every occurrence of a pattern in a text. A text is read as tokens, which are the
occurrences and the elements between them; a replacement spells the tokens with another word. -/

universe u

namespace Substitution

variable {α : Type u}

section Tokens

variable [DecidableEq α]

/-- The tokens of a text of which the first elements are passed over; no token is an occurrence. -/
def tokensFrom (pattern : List α) : Nat → List α → List (Option α)
  | _, [] => []
  | skip + 1, _ :: rest => tokensFrom pattern skip rest
  | 0, x :: rest =>
    if pattern <+: x :: rest then none :: tokensFrom pattern (pattern.length - 1) rest
    else some x :: tokensFrom pattern 0 rest

def tokens (pattern text : List α) : List (Option α) := tokensFrom pattern 0 text

omit [DecidableEq α] in
/-- The text that tokens stand for when each occurrence is one of a word. -/
def spell (word : List α) : List (Option α) → List α
  | [] => []
  | none :: rest => word ++ spell word rest
  | some x :: rest => x :: spell word rest

/-- `text.replace(pattern, word)`. -/
def replace (pattern word text : List α) : List α := spell word (tokens pattern text)

/-- `text.matches(pattern).count()`. -/
def occurrences (pattern text : List α) : Nat := (tokens pattern text).count none

/-- `text.contains(pattern)`. -/
def contains (pattern text : List α) : Bool := decide (pattern <:+: text)

end Tokens

section Spelling

variable [DecidableEq α] {pattern text word : List α} {x : α} {skip : Nat} {ts : List (Option α)}

theorem contains_iff : contains pattern text = true ↔ pattern <:+: text := decide_eq_true_iff

theorem contains_eq_false : contains pattern text = false ↔ ¬ pattern <:+: text :=
  decide_eq_false_iff_not

theorem tokensFrom_drop : tokensFrom pattern skip text = tokens pattern (text.drop skip) := by
  induction text generalizing skip with
  | nil => cases skip <;> rfl
  | cons x text ih =>
    cases skip with
    | zero => rfl
    | succ skip => exact ih

theorem tokens_cons_of_not (h : ¬ pattern <+: x :: text) :
    tokens pattern (x :: text) = some x :: tokens pattern text := by
  rw [tokens, tokensFrom, if_neg h]
  rfl

theorem tokens_append (hne : pattern ≠ []) :
    tokens pattern (pattern ++ text) = none :: tokens pattern text := by
  obtain ⟨x, rest, rfl⟩ := List.exists_cons_of_ne_nil hne
  rw [List.cons_append, tokens, tokensFrom, if_pos ⟨text, rfl⟩, tokensFrom_drop]
  congr 2
  exact List.drop_left

theorem tokens_of_not_infix (h : ¬ pattern <:+: text) : tokens pattern text = text.map some := by
  induction text with
  | nil => rfl
  | cons x text ih =>
    rw [List.infix_cons_iff, not_or] at h
    rw [tokens_cons_of_not h.1, ih h.2, List.map_cons]

omit [DecidableEq α] in
theorem spell_map_some : spell word (text.map some) = text := by
  induction text with
  | nil => rfl
  | cons x text ih => rw [List.map_cons, spell, ih]

omit [DecidableEq α] in
theorem spell_append {w : List α} {ts us : List (Option α)} :
    spell w (ts ++ us) = spell w ts ++ spell w us := by
  induction ts with
  | nil => rfl
  | cons t ts ih => cases t <;> simp [spell, ih]

omit [DecidableEq α] in
theorem mem_spell {w : List α} (h : x ∈ spell w ts) : x ∈ w ∨ some x ∈ ts := by
  induction ts with
  | nil => exact absurd h List.not_mem_nil
  | cons t ts ih =>
    cases t with
    | none =>
      rcases List.mem_append.mp h with h | h
      · exact .inl h
      · exact (ih h).imp_right (List.mem_cons_of_mem none)
    | some y =>
      rcases List.mem_cons.mp h with rfl | h
      · exact .inr List.mem_cons_self
      · exact (ih h).imp_right (List.mem_cons_of_mem (some y))

omit [DecidableEq α] in
theorem mem_spell_of_mem {w : List α} (h : some x ∈ ts) : x ∈ spell w ts := by
  obtain ⟨before, after, rfl⟩ := List.append_of_mem h
  rw [spell_append, List.mem_append]
  exact .inr List.mem_cons_self

theorem replace_of_absent (h : ¬ pattern <:+: text) : replace pattern word text = text := by
  rw [replace, tokens_of_not_infix h, spell_map_some]

/-- A text read from its start: an occurrence of the pattern, or an element that starts none. -/
theorem occurrence_induction (hne : pattern ≠ []) {motive : List α → Prop} (nil : motive [])
    (occurrence : ∀ rest, motive rest → motive (pattern ++ rest))
    (other : ∀ x rest, ¬ pattern <+: x :: rest → motive rest → motive (x :: rest))
    (text : List α) : motive text := by
  induction hlength : text.length using Nat.strong_induction_on generalizing text with
  | h n ih =>
    by_cases hopens : pattern <+: text
    · obtain ⟨rest, rfl⟩ := hopens
      have hpos := List.length_pos_iff.mpr hne
      exact occurrence rest (ih rest.length (by rw [List.length_append] at hlength; omega) rest rfl)
    · cases text with
      | nil => exact nil
      | cons x rest =>
        exact other x rest hopens (ih rest.length (by rw [List.length_cons] at hlength; omega) rest rfl)

/-- The tokens of a text, spelled with the pattern, are the text. -/
theorem spell_tokens (hne : pattern ≠ []) : spell pattern (tokens pattern text) = text := by
  induction text using occurrence_induction hne with
  | nil => rfl
  | occurrence rest ih => rw [tokens_append hne, spell, ih]
  | other x rest hno ih => rw [tokens_cons_of_not hno, spell, ih]

theorem mem_replace {w : List α} (hne : pattern ≠ []) (h : x ∈ replace pattern w text) :
    x ∈ w ∨ x ∈ text := by
  refine (mem_spell h).imp_right fun hmem => ?_
  have hspell := mem_spell_of_mem (w := pattern) hmem
  rwa [spell_tokens hne] at hspell

/-- Tokens of which no element starts an occurrence in the text they spell. -/
def Clean (pattern : List α) : List (Option α) → Prop
  | [] => True
  | none :: rest => Clean pattern rest
  | some x :: rest => ¬ pattern <+: x :: spell pattern rest ∧ Clean pattern rest

theorem clean_tokens (hne : pattern ≠ []) : Clean pattern (tokens pattern text) := by
  induction text using occurrence_induction hne with
  | nil => trivial
  | occurrence rest ih => rwa [tokens_append hne]
  | other x rest hno ih =>
    rw [tokens_cons_of_not hno]
    refine ⟨?_, ih⟩
    rwa [spell_tokens hne]

theorem tokens_spell (hne : pattern ≠ []) (h : Clean pattern ts) :
    tokens pattern (spell pattern ts) = ts := by
  induction ts with
  | nil => rfl
  | cons t ts ih =>
    cases t with
    | none => rw [spell, tokens_append hne, ih h]
    | some x => rw [spell, tokens_cons_of_not h.1, ih h.2]

end Spelling

section Separators

variable {pattern text rest : List α} {sep : α}

theorem prefix_separated (hsep : sep ∉ pattern) :
    pattern <+: text ++ sep :: rest ↔ pattern <+: text := by
  induction text generalizing pattern with
  | nil =>
    cases pattern with
    | nil => simp
    | cons x pattern =>
      have hx : x ≠ sep := fun h => hsep (h ▸ List.mem_cons_self)
      simp [List.cons_prefix_cons, hx]
  | cons y text ih =>
    cases pattern with
    | nil => simp
    | cons x pattern =>
      rw [List.cons_append, List.cons_prefix_cons, List.cons_prefix_cons,
        ih fun h => hsep (List.mem_cons_of_mem x h)]

theorem infix_separated (hsep : sep ∉ pattern) (hne : pattern ≠ []) :
    pattern <:+: text ++ sep :: rest ↔ pattern <:+: text ∨ pattern <:+: rest := by
  induction text with
  | nil =>
    have hhead : ¬ pattern <+: [] ++ sep :: rest := fun h =>
      hne (List.prefix_nil.mp ((prefix_separated hsep).mp h))
    rw [List.nil_append] at hhead ⊢
    rw [List.infix_cons_iff, List.infix_nil]
    simp [hhead, hne]
  | cons x text ih =>
    rw [List.cons_append, List.infix_cons_iff, ih, List.infix_cons_iff, ← List.cons_append,
      prefix_separated hsep, or_assoc]

theorem tokens_separated [DecidableEq α] (hsep : sep ∉ pattern) (hne : pattern ≠ []) :
    tokens pattern (text ++ sep :: rest) = tokens pattern text ++ some sep :: tokens pattern rest := by
  induction text using occurrence_induction hne with
  | nil =>
    have hhead : ¬ pattern <+: [] ++ sep :: rest := fun h =>
      hne (List.prefix_nil.mp ((prefix_separated hsep).mp h))
    exact tokens_cons_of_not hhead
  | occurrence text ih =>
    rw [List.append_assoc, tokens_append hne, ih, tokens_append hne]
    rfl
  | other x text hno ih =>
    have hhead : ¬ pattern <+: x :: (text ++ sep :: rest) := fun h =>
      hno ((prefix_separated hsep).mp h)
    rw [List.cons_append, tokens_cons_of_not hhead, ih, tokens_cons_of_not hno]
    rfl

theorem occurrences_separated [DecidableEq α] (hsep : sep ∉ pattern) (hne : pattern ≠ []) :
    occurrences pattern (text ++ sep :: rest) =
      occurrences pattern text + occurrences pattern rest := by
  rw [occurrences, tokens_separated hsep hne, List.count_append, List.count_cons_of_ne (by simp)]
  rfl

end Separators

section Headed

/-! Patterns that start with an element they have nowhere else. -/

variable [DecidableEq α] {head : α} {p q text : List α} {ts : List (Option α)}

omit [DecidableEq α] in
/-- What is spelled without the head is no part of an occurrence. -/
theorem prefix_spell (hq : head ∉ q) (h : q <+: spell (head :: p) ts) :
    ∃ rest, ts = q.map some ++ rest := by
  induction q generalizing ts with
  | nil => exact ⟨ts, rfl⟩
  | cons x q ih =>
    rw [List.mem_cons, not_or] at hq
    cases ts with
    | nil => exact absurd (List.prefix_nil.mp h) (List.cons_ne_nil x q)
    | cons t ts =>
      cases t with
      | none => exact absurd (List.cons_prefix_cons.mp h).1.symm hq.1
      | some y =>
        obtain ⟨rfl, hrest⟩ := List.cons_prefix_cons.mp h
        obtain ⟨rest, rfl⟩ := ih hq.2 hrest
        exact ⟨rest, rfl⟩

omit [DecidableEq α] in
theorem prefix_respell {word : List α} (hq : head ∉ q)
    (h : q <+: spell (head :: p) ts) : q <+: spell word ts := by
  obtain ⟨rest, rfl⟩ := prefix_spell hq h
  induction q with
  | nil => exact List.nil_prefix
  | cons x q ih =>
    rw [List.mem_cons, not_or] at hq
    exact List.cons_prefix_cons.mpr ⟨rfl, ih hq.2 (List.cons_prefix_cons.mp h).2⟩

omit [DecidableEq α] in
/-- Tokens of a text that lacks a word start no occurrence of it when they are spelled with it. -/
theorem clean_of_absent (hq : head ∉ q) (h : ¬ head :: q <:+: spell (head :: p) ts) :
    Clean (head :: q) ts := by
  induction ts with
  | nil => trivial
  | cons t ts ih =>
    cases t with
    | none => exact ih fun hinside => h (hinside.trans (List.suffix_append _ _).isInfix)
    | some x =>
      rw [spell, List.infix_cons_iff, not_or] at h
      refine ⟨fun hopens => h.1 ?_, ih h.2⟩
      obtain ⟨rfl, hbehind⟩ := List.cons_prefix_cons.mp hopens
      exact List.cons_prefix_cons.mpr ⟨rfl, prefix_respell hq hbehind⟩

theorem tokens_replace (hq : head ∉ q) (h : ¬ head :: q <:+: text) :
    tokens (head :: q) (replace (head :: p) (head :: q) text) = tokens (head :: p) text := by
  refine tokens_spell (List.cons_ne_nil head q) (clean_of_absent (p := p) hq ?_)
  rwa [spell_tokens (List.cons_ne_nil head p)]

omit [DecidableEq α] in
theorem spell_eq_nil (h : spell (head :: p) ts = []) : ts = [] := by
  cases ts with
  | nil => rfl
  | cons t ts => cases t <;> exact (nomatch h)

theorem prefix_replace_iff {w : List α} (hq : head ∉ q) :
    q <+: replace (head :: p) (head :: w) text ↔ q <+: text := by
  constructor
  · intro h
    have hspell : q <+: spell (head :: p) (tokens (head :: p) text) := prefix_respell hq h
    rwa [spell_tokens (List.cons_ne_nil head p)] at hspell
  · intro h
    rw [← @spell_tokens _ _ _ text (List.cons_ne_nil head p)] at h
    exact prefix_respell hq h

theorem replace_eq_iff {w : List α} (hq : head ∉ q) :
    replace (head :: p) (head :: w) text = q ↔ text = q := by
  constructor
  · intro h
    have hspelled : q <+: spell (head :: w) (tokens (head :: p) text) := h ▸ List.prefix_rfl
    obtain ⟨rest, hrest⟩ := prefix_spell hq hspelled
    have hspell : ∀ word : List α, spell word (q.map some ++ rest) = q ++ spell word rest := by
      intro word
      rw [spell_append, spell_map_some]
    rw [replace, hrest, hspell] at h
    have hnil : rest = [] := spell_eq_nil (List.self_eq_append_right.mp h.symm)
    rw [← @spell_tokens _ _ _ text (List.cons_ne_nil head p), hrest, hspell, hnil]
    exact List.append_nil q
  · rintro rfl
    refine replace_of_absent fun hinside => hq ?_
    exact hinside.subset List.mem_cons_self

/-- Replacing a pattern by a word that the text lacks can be undone. -/
theorem replace_replace (hq : head ∉ q) (h : ¬ head :: q <:+: text) :
    replace (head :: q) (head :: p) (replace (head :: p) (head :: q) text) = text := by
  rw [replace, tokens_replace hq h, spell_tokens (List.cons_ne_nil head p)]

theorem occurrences_replace (hq : head ∉ q) (h : ¬ head :: q <:+: text) :
    occurrences (head :: q) (replace (head :: p) (head :: q) text) =
      occurrences (head :: p) text := by
  rw [occurrences, tokens_replace hq h]
  rfl

omit [DecidableEq α] in
theorem not_infix_append (hp : head ∉ p) (h : ¬ head :: q <:+: text) :
    ¬ head :: q <:+: p ++ text := by
  induction p with
  | nil => exact h
  | cons x p ih =>
    rw [List.mem_cons, not_or] at hp
    rw [List.cons_append, List.infix_cons_iff, List.cons_prefix_cons, not_or]
    exact ⟨fun hopens => hp.1 hopens.1, ih hp.2⟩

omit [DecidableEq α] in
theorem not_infix_spell (hp : head ∉ p) (hq : head ∉ q) (hdiffer : ∀ rest, ¬ q <+: p ++ rest)
    (h : Clean (head :: q) ts) : ¬ head :: q <:+: spell (head :: p) ts := by
  induction ts with
  | nil => exact fun hinside => absurd (List.infix_nil.mp hinside) (List.cons_ne_nil head q)
  | cons t ts ih =>
    cases t with
    | none =>
      rw [spell, List.cons_append, List.infix_cons_iff, List.cons_prefix_cons, not_or]
      exact ⟨fun hopens => hdiffer _ hopens.2, not_infix_append hp (ih h)⟩
    | some x =>
      rw [spell, List.infix_cons_iff, not_or]
      refine ⟨fun hopens => h.1 ?_, ih h.2⟩
      obtain ⟨rfl, hbehind⟩ := List.cons_prefix_cons.mp hopens
      exact List.cons_prefix_cons.mpr ⟨rfl, prefix_respell hq hbehind⟩

/-- A text in which a pattern was replaced lacks it. -/
theorem not_infix_replace (hp : head ∉ p) (hq : head ∉ q) (hdiffer : ∀ rest, ¬ q <+: p ++ rest) :
    ¬ head :: q <:+: replace (head :: q) (head :: p) text :=
  not_infix_spell hp hq hdiffer (clean_tokens (List.cons_ne_nil head q))

/-- No occurrence of another word comes about where a pattern is replaced. -/
theorem not_infix_replace_of_absent {w : List α} (hp : head ∉ p) (hq : head ∉ q)
    (hdiffer : ∀ rest, ¬ q <+: p ++ rest) (h : ¬ head :: q <:+: text) :
    ¬ head :: q <:+: replace (head :: w) (head :: p) text := by
  refine not_infix_spell hp hq hdiffer (clean_of_absent (p := w) hq ?_)
  rwa [spell_tokens (List.cons_ne_nil head w)]

end Headed

section Gaps

/-- Two texts that are the same but for their gaps, which are anywhere in one where they are in the
other. -/
inductive Agree (gap : α → Prop) : List α → List α → Prop
  | ends {l r : List α} (hl : ∀ x ∈ l, gap x) (hr : ∀ x ∈ r, gap x) : Agree gap l r
  | gaps {g k l r : List α} (hg : g ≠ []) (hk : k ≠ []) (hgap : ∀ x ∈ g, gap x)
      (hkap : ∀ x ∈ k, gap x) (h : Agree gap l r) : Agree gap (g ++ l) (k ++ r)
  | same {l r : List α} (x : α) (h : Agree gap l r) : Agree gap (x :: l) (x :: r)

variable {gap : α → Prop} {x : α} {p l r g : List α}

theorem Agree.symm (h : Agree gap l r) : Agree gap r l := by
  induction h with
  | ends hl hr => exact .ends hr hl
  | gaps hg hk hgap hkap _ ih => exact .gaps hk hg hkap hgap ih
  | same x _ ih => exact .same x ih

theorem prefix_gaps (hg : g ≠ []) (hgap : ∀ x ∈ g, gap x) (hp : ∀ x ∈ p, ¬ gap x)
    (h : p <+: g ++ l) : p = [] := by
  cases p with
  | nil => rfl
  | cons y p =>
    obtain ⟨x, g, rfl⟩ := List.exists_cons_of_ne_nil hg
    obtain ⟨rfl, -⟩ := List.cons_prefix_cons.mp h
    exact absurd (hgap y List.mem_cons_self) (hp y List.mem_cons_self)

theorem Agree.prefix_of (h : Agree gap l r) (hp : ∀ x ∈ p, ¬ gap x) (hopens : p <+: l) : p <+: r := by
  induction h generalizing p with
  | ends hl hr =>
    cases p with
    | nil => exact List.nil_prefix
    | cons y p => exact absurd (hl y (hopens.subset List.mem_cons_self)) (hp y List.mem_cons_self)
  | gaps hg _ hgap _ _ _ =>
    rw [prefix_gaps hg hgap hp hopens]
    exact List.nil_prefix
  | same x _ ih =>
    cases p with
    | nil => exact List.nil_prefix
    | cons y p =>
      obtain ⟨hy, hrest⟩ := List.cons_prefix_cons.mp hopens
      exact List.cons_prefix_cons.mpr ⟨hy, ih (fun z hz => hp z (List.mem_cons_of_mem y hz)) hrest⟩

theorem infix_gaps (hne : p ≠ []) (hgap : ∀ x ∈ g, gap x) (hp : ∀ x ∈ p, ¬ gap x) :
    p <:+: g ++ l ↔ p <:+: l := by
  induction g with
  | nil => rfl
  | cons x g ih =>
    rw [List.cons_append, List.infix_cons_iff, ih fun y hy => hgap y (List.mem_cons_of_mem x hy)]
    refine or_iff_right fun hopens => hne ?_
    exact prefix_gaps (List.cons_ne_nil x []) (by simpa using hgap x List.mem_cons_self) hp hopens

theorem Agree.infix_of (h : Agree gap l r) (hp : ∀ x ∈ p, ¬ gap x) (hinside : p <:+: l) :
    p <:+: r := by
  by_cases hne : p = []
  · rw [hne]
    exact List.nil_infix
  · induction h with
    | ends hl _ =>
      have hnil : p <:+: [] := by
        rwa [← infix_gaps hne hl hp, List.append_nil]
      exact absurd (List.infix_nil.mp hnil) hne
    | gaps _ _ hgap hkap _ ih =>
      rw [infix_gaps hne hkap hp]
      rw [infix_gaps hne hgap hp] at hinside
      exact ih hinside
    | same x hagree ih =>
      rw [List.infix_cons_iff] at hinside ⊢
      exact hinside.imp ((Agree.same x hagree).prefix_of hp) ih

theorem Agree.infix_iff (h : Agree gap l r) (hp : ∀ x ∈ p, ¬ gap x) : p <:+: l ↔ p <:+: r :=
  ⟨h.infix_of hp, h.symm.infix_of hp⟩

theorem Agree.append_left (h : Agree gap l r) (w : List α) : Agree gap (w ++ l) (w ++ r) := by
  induction w with
  | nil => exact h
  | cons x w ih => exact .same x ih

/-- Agreement of tokens: an occurrence is no gap. -/
def TokenGap (gap : α → Prop) : Option α → Prop
  | none => False
  | some x => gap x

theorem spell_gaps {w : List α} {ts : List (Option α)} (h : ∀ t ∈ ts, TokenGap gap t) :
    ∃ xs : List α, ts = xs.map some ∧ spell w ts = xs ∧ ∀ x ∈ xs, gap x := by
  induction ts with
  | nil => exact ⟨[], rfl, rfl, nofun⟩
  | cons t ts ih =>
    obtain ⟨ht, hts⟩ := List.forall_mem_cons.mp h
    obtain ⟨xs, rfl, hspell, hxs⟩ := ih hts
    cases t with
    | none => exact absurd ht id
    | some x => exact ⟨x :: xs, rfl, by rw [spell, hspell], List.forall_mem_cons.mpr ⟨ht, hxs⟩⟩

theorem Agree.spell {ts us : List (Option α)} (h : Agree (TokenGap gap) ts us) (w : List α) :
    Agree gap (spell w ts) (Substitution.spell w us) := by
  induction h with
  | ends hl hr =>
    obtain ⟨xs, -, hxs, hgap⟩ := spell_gaps (w := w) hl
    obtain ⟨ys, -, hys, hkap⟩ := spell_gaps (w := w) hr
    rw [hxs, hys]
    exact .ends hgap hkap
  | gaps hg hk hgap hkap _ ih =>
    obtain ⟨xs, rfl, hxs, hgap⟩ := spell_gaps (w := w) hgap
    obtain ⟨ys, rfl, hys, hkap⟩ := spell_gaps (w := w) hkap
    rw [spell_append, spell_append, hxs, hys]
    exact .gaps (by simpa using hg) (by simpa using hk) hgap hkap ih
  | same t _ ih =>
    cases t with
    | none => exact ih.append_left w
    | some x => exact .same x ih

theorem Agree.count [BEq α] [LawfulBEq α] (h : Agree gap l r) (hx : ¬ gap x) : l.count x = r.count x := by
  have hgaps : ∀ g : List α, (∀ y ∈ g, gap y) → g.count x = 0 := fun g hg =>
    List.count_eq_zero.mpr fun hmem => hx (hg x hmem)
  induction h with
  | ends hl hr => rw [hgaps _ hl, hgaps _ hr]
  | gaps _ _ hgap hkap _ ih => rw [List.count_append, List.count_append, hgaps _ hgap, hgaps _ hkap, ih]
  | same y _ ih => rw [List.count_cons, List.count_cons, ih]

variable [DecidableEq α]

theorem tokens_gaps (hgap : ∀ x ∈ g, gap x) (hne : p ≠ []) (hp : ∀ x ∈ p, ¬ gap x) :
    tokens p (g ++ l) = g.map some ++ tokens p l := by
  induction g with
  | nil => rfl
  | cons x g ih =>
    have hno : ¬ p <+: x :: (g ++ l) := fun hopens =>
      hne (prefix_gaps (List.cons_ne_nil x []) (by simpa using hgap x List.mem_cons_self) hp hopens)
    rw [List.cons_append, tokens_cons_of_not hno, ih fun y hy => hgap y (List.mem_cons_of_mem x hy)]
    rfl

theorem Agree.tokensFrom (h : Agree gap l r) (hne : p ≠ []) (hp : ∀ x ∈ p, ¬ gap x) (skip : Nat)
    (hskip : ∀ x ∈ l.take skip, ¬ gap x) (hlength : skip ≤ l.length) :
    Agree (TokenGap gap) (tokensFrom p skip l) (Substitution.tokensFrom p skip r) := by
  -- what is passed over is the rest of an occurrence, so it ends before the next gap
  induction h generalizing skip with
  | @ends l r hl hr =>
    have hzero : skip = 0 := by
      cases l with
      | nil => exact Nat.le_zero.mp hlength
      | cons x l =>
        cases skip with
        | zero => rfl
        | succ skip => exact absurd (hl x List.mem_cons_self) (hskip x (by simp))
    have htokens : ∀ k : List α, (∀ x ∈ k, gap x) → Substitution.tokens p k = k.map some := by
      intro k hk
      have hgaps := tokens_gaps (l := []) hk hne hp
      rwa [List.append_nil, show Substitution.tokens p [] = [] from rfl, List.append_nil] at hgaps
    rw [hzero]
    change Agree _ (Substitution.tokens p l) (Substitution.tokens p r)
    rw [htokens l hl, htokens r hr]
    exact .ends (by simpa [TokenGap] using hl) (by simpa [TokenGap] using hr)
  | @gaps g k l r hg hk hgap hkap _ ih =>
    have hzero : skip = 0 := by
      obtain ⟨x, g, rfl⟩ := List.exists_cons_of_ne_nil hg
      cases skip with
      | zero => rfl
      | succ skip => exact absurd (hgap x List.mem_cons_self) (hskip x (by simp))
    rw [hzero]
    change Agree _ (Substitution.tokens p (g ++ l)) (Substitution.tokens p (k ++ r))
    rw [tokens_gaps hgap hne hp, tokens_gaps hkap hne hp]
    exact .gaps (by simpa using hg) (by simpa using hk) (by simpa [TokenGap] using hgap)
      (by simpa [TokenGap] using hkap) (ih 0 (by simp) (Nat.zero_le _))
  | @same l r x hagree ih =>
    cases skip with
    | succ skip =>
      exact ih skip (fun y hy => hskip y (by simp [hy])) (Nat.le_of_succ_le_succ hlength)
    | zero =>
      have hiff : p <+: x :: l ↔ p <+: x :: r :=
        ⟨(Agree.same x hagree).prefix_of hp, (Agree.same x hagree).symm.prefix_of hp⟩
      rw [Substitution.tokensFrom, Substitution.tokensFrom]
      by_cases hopens : p <+: x :: l
      · rw [if_pos hopens, if_pos (hiff.mp hopens)]
        obtain ⟨y, p, rfl⟩ := List.exists_cons_of_ne_nil hne
        obtain ⟨-, rest, rfl⟩ := List.cons_prefix_cons.mp hopens
        refine .same none (ih _ ?_ ?_)
        · intro z hz
          rw [List.length_cons, Nat.add_sub_cancel, List.take_left] at hz
          exact hp z (List.mem_cons_of_mem y hz)
        · simp
      · rw [if_neg hopens, if_neg fun hr => hopens (hiff.mpr hr)]
        exact .same _ (ih 0 (by simp) (Nat.zero_le _))

theorem Agree.tokens (h : Agree gap l r) (hne : p ≠ []) (hp : ∀ x ∈ p, ¬ gap x) :
    Agree (TokenGap gap) (tokens p l) (Substitution.tokens p r) :=
  h.tokensFrom hne hp 0 (by simp) (Nat.zero_le _)

/-- A replacement leaves the gaps where they are. -/
theorem Agree.replace (h : Agree gap l r) (hne : p ≠ []) (hp : ∀ x ∈ p, ¬ gap x) (w : List α) :
    Agree gap (replace p w l) (Substitution.replace p w r) :=
  (h.tokens hne hp).spell w

theorem Agree.occurrences (h : Agree gap l r) (hne : p ≠ []) (hp : ∀ x ∈ p, ¬ gap x) :
    occurrences p l = Substitution.occurrences p r :=
  (h.tokens hne hp).count (x := none) fun hnone => hnone

end Gaps

end Substitution
