import Kitrove.Prompts.Native

/-! What the scans of a prompt's text see: line ends and quoting are gaps to all of them. -/

namespace Kitrove.Prompts

open Substitution
open Mcp (isAsciiAlphanumeric jsonString escapeByte)

/-- The bytes in which a text may be rewritten without a scan seeing it. -/
def Gap (b : UInt8) : Prop := b = 13 ∨ b = 10 ∨ b = 0x22 ∨ b = 0x5C

instance : DecidablePred Gap := fun b => inferInstanceAs (Decidable (_ ∨ _))

section Gaps

variable {b : UInt8} {l r g : Bytes}

theorem Gap.inert (h : Gap b) :
    isAsciiAlphanumeric b = false ∧ (ascii "./_-").contains b = false ∧
      (ascii "_\x7b@").contains b = false ∧ (b == 0x40) = false ∧ (b == 0x24) = false := by
  rcases h with rfl | rfl | rfl | rfl <;> decide

theorem argumentsToken_gap : ∀ b ∈ argumentsToken, ¬ Gap b := by decide +kernel
theorem everyArgument_gap : ∀ b ∈ everyArgument, ¬ Gap b := by decide +kernel
theorem placeholder_gap : ∀ b ∈ allArgumentsPlaceholder, ¬ Gap b := by decide +kernel
theorem shell_gap : ∀ b ∈ ascii "!`", ¬ Gap b := by decide +kernel

end Gaps

section Agreement

variable {l r g : Bytes} {previous other : Option UInt8} {dialect : NativePromptDialect}

theorem contains_agree {pattern : Bytes} (h : Agree Gap l r) (hp : ∀ b ∈ pattern, ¬ Gap b) :
    contains pattern l = contains pattern r := by
  rw [Bool.eq_iff_iff, contains_iff, contains_iff]
  exact h.infix_iff hp

theorem recognizesShellInterpolation_agree (h : Agree Gap l r) :
    recognizesShellInterpolation dialect l = recognizesShellInterpolation dialect r := by
  cases dialect with
  | piLatest => rfl
  | claudeLegacy | openCodeV2 => exact contains_agree h shell_gap

/-- Whether a text starts with a byte that a test accepts, where the test accepts no gap. -/
theorem head_agree {test : UInt8 → Bool} (h : Agree Gap l r) (htest : ∀ b, Gap b → test b = false) :
    l.head?.any test = r.head?.any test := by
  have hgaps : ∀ g : Bytes, (∀ b ∈ g, Gap b) → g.head?.any test = false := by
    intro g hg
    cases g with
    | nil => rfl
    | cons b g => exact htest b (hg b List.mem_cons_self)
  cases h with
  | ends hl hr => rw [hgaps _ hl, hgaps _ hr]
  | gaps hg hk hgap hkap _ =>
    obtain ⟨x, g, rfl⟩ := List.exists_cons_of_ne_nil hg
    obtain ⟨y, k, rfl⟩ := List.exists_cons_of_ne_nil hk
    change test x = test y
    rw [htest x (hgap x List.mem_cons_self), htest y (hkap y List.mem_cons_self)]
  | same x _ => rfl

theorem startsReference_agree (h : Agree Gap l r) : startsReference l = startsReference r :=
  head_agree h fun b hb => by rw [hb.inert.1, hb.inert.2.1, Bool.false_or]

theorem endsWord_gap {b : UInt8} (hb : Gap b) : endsWord (some b) = false := by
  rcases hb with rfl | rfl | rfl | rfl <;> decide

/-- No reference stands in a gap, and none begins with the word before it. -/
theorem fileInterpolationAfter_gaps (hne : g ≠ []) (hg : ∀ b ∈ g, Gap b) :
    ∃ b, Gap b ∧ fileInterpolationAfter previous (g ++ l) = fileInterpolationAfter (some b) l := by
  induction g generalizing previous with
  | nil => exact absurd rfl hne
  | cons b g ih =>
    obtain ⟨hb, hg⟩ := List.forall_mem_cons.mp hg
    have hhead : fileInterpolationAfter previous (b :: g ++ l) =
        fileInterpolationAfter (some b) (g ++ l) := by
      rw [List.cons_append, fileInterpolationAfter, hb.inert.2.2.2.1]
      rfl
    rw [hhead]
    by_cases hnil : g = []
    · rw [hnil]
      exact ⟨b, hb, rfl⟩
    · exact ih hnil hg

theorem fileInterpolationAfter_agree (h : Agree Gap l r) (hprevious : endsWord previous = endsWord other) :
    fileInterpolationAfter previous l = fileInterpolationAfter other r := by
  have hgaps : ∀ previous (g : Bytes), (∀ b ∈ g, Gap b) → fileInterpolationAfter previous g = false := by
    intro previous g hg
    cases g with
    | nil => rfl
    | cons b g =>
      obtain ⟨c, -, hc⟩ :=
        @fileInterpolationAfter_gaps [] _ previous (List.cons_ne_nil b g) hg
      rwa [List.append_nil] at hc
  induction h generalizing previous other with
  | ends hl hr => rw [hgaps _ _ hl, hgaps _ _ hr]
  | gaps hg hk hgap hkap _ ih =>
    obtain ⟨b, hb, hleft⟩ := fileInterpolationAfter_gaps hg hgap
    obtain ⟨c, hc, hright⟩ := fileInterpolationAfter_gaps hk hkap
    rw [hleft, hright]
    exact ih (by rw [endsWord_gap hb, endsWord_gap hc])
  | same x hagree ih =>
    rw [fileInterpolationAfter, fileInterpolationAfter, hprevious, startsReference_agree hagree,
      ih rfl]

theorem recognizesFileInterpolation_agree (h : Agree Gap l r) :
    recognizesFileInterpolation l = recognizesFileInterpolation r :=
  fileInterpolationAfter_agree h rfl

theorem containsUnsupportedDollarSyntax_gaps (hg : ∀ b ∈ g, Gap b) :
    containsUnsupportedDollarSyntax (g ++ l) = containsUnsupportedDollarSyntax l := by
  induction g with
  | nil => rfl
  | cons b g ih =>
    obtain ⟨hb, hg⟩ := List.forall_mem_cons.mp hg
    rw [List.cons_append, containsUnsupportedDollarSyntax, hb.inert.2.2.2.2, ih hg]
    rfl

theorem containsUnsupportedDollarSyntax_agree (h : Agree Gap l r) :
    containsUnsupportedDollarSyntax l = containsUnsupportedDollarSyntax r := by
  induction h with
  | ends hl hr =>
    have hleft := containsUnsupportedDollarSyntax_gaps (l := []) hl
    have hright := containsUnsupportedDollarSyntax_gaps (l := []) hr
    rw [List.append_nil] at hleft hright
    rw [hleft, hright]
  | gaps _ _ hgap hkap _ ih =>
    rw [containsUnsupportedDollarSyntax_gaps hgap, containsUnsupportedDollarSyntax_gaps hkap, ih]
  | @same l r x hagree ih =>
    have hnext := @head_agree _ _
      (fun next => isAsciiAlphanumeric next || (ascii "_\x7b@").contains next) hagree
      fun b hb => by rw [hb.inert.1, hb.inert.2.2.1, Bool.false_or]
    have hplaceholder : allArgumentsPlaceholder.isPrefixOf (x :: l) =
        allArgumentsPlaceholder.isPrefixOf (x :: r) := by
      rw [Bool.eq_iff_iff, List.isPrefixOf_iff_prefix, List.isPrefixOf_iff_prefix]
      exact ⟨(Agree.same x hagree).prefix_of placeholder_gap,
        (Agree.same x hagree).symm.prefix_of placeholder_gap⟩
    rw [containsUnsupportedDollarSyntax, containsUnsupportedDollarSyntax, hnext, hplaceholder, ih]

end Agreement

section LineEnds

variable {l : Bytes}

theorem mem_of_replaceCrlf {b : UInt8} (h : b ∈ l) : b = 13 ∨ b ∈ replaceCrlf l := by
  induction l using replaceCrlf.induct with
  | case1 rest ih =>
    rw [replaceCrlf, List.mem_cons]
    rcases List.mem_cons.mp h with rfl | h
    · exact .inl rfl
    · rcases List.mem_cons.mp h with rfl | h
      · exact .inr (.inl rfl)
      · exact (ih h).imp_right .inr
  | case2 c rest hno ih =>
    rw [replaceCrlf, List.mem_cons]
    · rcases List.mem_cons.mp h with rfl | h
      · exact .inr (.inl rfl)
      · exact (ih h).imp_right .inr
    · exact hno
  | case3 => exact absurd h List.not_mem_nil

theorem gap_of_trimmed (h : trimEndNewlines (replaceCrlf l) = []) : ∀ b ∈ l, Gap b := by
  intro b hb
  rcases mem_of_replaceCrlf hb with hreturn | hmem
  · exact .inl hreturn
  · obtain ⟨k, hk⟩ := trimEndNewlines_append (l := replaceCrlf l)
    rw [h, List.nil_append] at hk
    rw [hk] at hmem
    exact .inr (.inl (List.eq_of_mem_replicate hmem))

theorem normalizeBody_cons {b : UInt8} {rest : Bytes} (h : trimEndNewlines rest ≠ []) :
    trimEndNewlines (b :: rest) = b :: trimEndNewlines rest := by
  rw [trimEndNewlines]
  cases ht : trimEndNewlines rest with
  | nil => exact absurd ht h
  | cons c trimmed => rfl

/-- Normalizing changes line ends only. -/
theorem normalizeBody_agree (h : (replaceCrlf l).contains 13 = false) :
    Agree Gap l (normalizeBody l) := by
  have hnewline : ∀ b ∈ [newline], Gap b := by decide +kernel
  induction l using replaceCrlf.induct with
  | case1 rest ih =>
    rw [replaceCrlf, List.contains_cons, Bool.or_eq_false_iff] at h
    by_cases ht : trimEndNewlines (replaceCrlf rest) = []
    · have hall : normalizeBody (13 :: 10 :: rest) = [newline] := by
        rw [normalizeBody, replaceCrlf, trimEndNewlines, ht]
        rfl
      rw [hall]
      refine .ends ?_ hnewline
      exact List.forall_mem_cons.mpr ⟨.inl rfl, List.forall_mem_cons.mpr ⟨.inr (.inl rfl), gap_of_trimmed ht⟩⟩
    · have hcons : normalizeBody (13 :: 10 :: rest) = [10] ++ normalizeBody rest := by
        rw [normalizeBody, replaceCrlf, normalizeBody_cons ht]
        rfl
      rw [hcons]
      exact .gaps (g := [13, 10]) (by simp) (by simp) (by decide +kernel) (by decide +kernel) (ih h.2)
  | case2 b rest hno ih =>
    rw [replaceCrlf, List.contains_cons, Bool.or_eq_false_iff] at h
    · by_cases ht : trimEndNewlines (replaceCrlf rest) = []
      · have hrest : Agree Gap rest [newline] := .ends (gap_of_trimmed ht) hnewline
        by_cases hb : b = newline
        · have hall : normalizeBody (b :: rest) = [newline] := by
            rw [normalizeBody, replaceCrlf, trimEndNewlines, ht]
            · simp [hb]
            · exact hno
          rw [hall]
          exact .ends (List.forall_mem_cons.mpr ⟨.inr (.inl hb), gap_of_trimmed ht⟩) hnewline
        · have hall : normalizeBody (b :: rest) = b :: [newline] := by
            rw [normalizeBody, replaceCrlf, trimEndNewlines, ht]
            · simp [hb]
            · exact hno
          rw [hall]
          exact .same b hrest
      · have hcons : normalizeBody (b :: rest) = b :: normalizeBody rest := by
          rw [normalizeBody, replaceCrlf, normalizeBody_cons ht]
          · rfl
          · exact hno
        rw [hcons]
        exact .same b (ih h.2)
    · exact hno
  | case3 => exact .ends (List.forall_mem_nil _) hnewline

end LineEnds

end Kitrove.Prompts
