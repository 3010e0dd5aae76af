import Kitrove.Prompts.Scanning

/-! The argument placeholder of a portable body, and what stands for it in a native one. -/

namespace Kitrove.Prompts

open Substitution

variable {dialect : NativePromptDialect} {text body l : Bytes}

section Tokens

def argumentsTail : Bytes := ascii "ARGUMENTS"
def placeholderTail : Bytes := ascii "\x7bKITROVE_ARGUMENTS\x7d"

theorem argumentsToken_eq : argumentsToken = 0x24 :: argumentsTail := rfl
theorem everyArgument_eq : everyArgument = [0x24, 0x40] := rfl
theorem placeholder_eq : allArgumentsPlaceholder = 0x24 :: placeholderTail := rfl

theorem argumentsToken_ne_nil : argumentsToken ≠ [] := List.cons_ne_nil _ _
theorem everyArgument_ne_nil : everyArgument ≠ [] := List.cons_ne_nil _ _
theorem placeholder_ne_nil : allArgumentsPlaceholder ≠ [] := List.cons_ne_nil _ _

theorem argumentsTail_dollar : 0x24 ∉ argumentsTail := by decide
theorem placeholderTail_dollar : 0x24 ∉ placeholderTail := by decide

/-- What follows a dollar in a supported body: an argument is the placeholder. -/
theorem dollar_next {next : UInt8} (h : containsUnsupportedDollarSyntax text = false)
    (hnext : (Mcp.isAsciiAlphanumeric next || (ascii "_\x7b@").contains next) = true)
    (hinside : [0x24, next] <:+: text) : next = 0x7B := by
  induction text with
  | nil => exact absurd (List.infix_nil.mp hinside) (List.cons_ne_nil _ _)
  | cons b text ih =>
    rw [containsUnsupportedDollarSyntax, Bool.or_eq_false_iff] at h
    rcases List.infix_cons_iff.mp hinside with hopens | hinside
    · obtain ⟨rest, hrest⟩ := hopens
      cases hrest
      have hplaceholder : allArgumentsPlaceholder <+: 0x24 :: next :: rest := by
        have hhead : ((0x24 : UInt8) == 0x24 &&
            (Mcp.isAsciiAlphanumeric next || (ascii "_\x7b@").contains next) &&
            !allArgumentsPlaceholder.isPrefixOf (0x24 :: next :: rest)) = false := h.1
        rw [hnext] at hhead
        simpa using hhead
      exact (List.cons_prefix_cons.mp (List.cons_prefix_cons.mp hplaceholder).2).1.symm
    · exact ih h.2 hinside

theorem argumentsToken_absent (h : containsUnsupportedDollarSyntax text = false) :
    ¬ argumentsToken <:+: text := by
  intro hinside
  have hpair : [0x24, 0x41] <:+: text :=
    List.IsInfix.trans (show [0x24, 0x41] <+: argumentsToken from ⟨ascii "RGUMENTS", rfl⟩).isInfix hinside
  exact absurd (dollar_next h (by decide) hpair) (by decide)

theorem everyArgument_absent (h : containsUnsupportedDollarSyntax text = false) :
    ¬ everyArgument <:+: text :=
  fun hinside => absurd (dollar_next h (by decide) hinside) (by decide)

/-- The native text of a portable body. -/
def nativeText (body : Bytes) : Bytes := replace allArgumentsPlaceholder argumentsToken body

theorem nativeText_placeholder : contains allArgumentsPlaceholder (nativeText body) = false := by
  rw [contains_eq_false]
  refine not_infix_replace argumentsTail_dollar placeholderTail_dollar fun rest hopens => ?_
  exact absurd (List.cons_prefix_cons.mp hopens).1 (by decide)

theorem nativeText_everyArgument (h : containsUnsupportedDollarSyntax body = false) :
    ¬ everyArgument <:+: nativeText body := by
  refine not_infix_replace_of_absent argumentsTail_dollar (by decide) (fun rest hopens => ?_)
    (everyArgument_absent h)
  exact absurd (List.cons_prefix_cons.mp hopens).1 (by decide)

/-- Reading the native text of a supported body gives the body. -/
theorem substituteArguments_nativeText (h : containsUnsupportedDollarSyntax body = false) :
    substituteArguments dialect (nativeText body) = body := by
  have hreplace : replace argumentsToken allArgumentsPlaceholder (nativeText body) = body :=
    replace_replace argumentsTail_dollar (argumentsToken_absent h)
  rw [substituteArguments, hreplace]
  split
  · exact replace_of_absent (everyArgument_absent h)
  · rfl

theorem nativeText_substituteArguments (hdialect : dialect ≠ .piLatest)
    (h : contains allArgumentsPlaceholder text = false) :
    nativeText (substituteArguments dialect text) = text := by
  rw [substituteArguments, if_neg hdialect]
  exact replace_replace placeholderTail_dollar (contains_eq_false.mp h)

/-- The all-arguments tokens that a dialect reads in a text. -/
def argumentPlaceholders (dialect : NativePromptDialect) (text : Bytes) : Nat :=
  occurrences argumentsToken text + if dialect = .piLatest then occurrences everyArgument text else 0

theorem argumentPlaceholders_nativeText (h : containsUnsupportedDollarSyntax body = false) :
    argumentPlaceholders dialect (nativeText body) = occurrences allArgumentsPlaceholder body := by
  have harguments : occurrences argumentsToken (nativeText body) =
      occurrences allArgumentsPlaceholder body :=
    occurrences_replace argumentsTail_dollar (argumentsToken_absent h)
  have hevery : occurrences everyArgument (nativeText body) = 0 := by
    rw [occurrences, tokens_of_not_infix (nativeText_everyArgument h)]
    exact List.count_eq_zero.mpr (by simp)
  rw [argumentPlaceholders, harguments, hevery, ite_self, Nat.add_zero]

end Tokens

section Utf8

variable {owed next : Utf8.Owed}

theorem run_ascii (h : ∀ b ∈ l, b < 0x80) : Utf8.run [] l = some [] :=
  Utf8.valid_iff.mp (Utf8.valid_of_ascii h)

/-- Tokens of a valid text are valid whatever ASCII word they are spelled with. -/
theorem run_spell {pattern word : Bytes} (hne : pattern ≠ []) (hpattern : ∀ b ∈ pattern, b < 0x80)
    (hword : ∀ b ∈ word, b < 0x80) {ts : List (Option UInt8)} (howed : Utf8.Multibyte owed)
    (h : Utf8.run owed (spell pattern ts) = some next) : Utf8.run owed (spell word ts) = some next := by
  induction ts generalizing owed with
  | nil => exact h
  | cons t ts ih =>
    cases t with
    | none =>
      obtain ⟨b, rest, rfl⟩ := List.exists_cons_of_ne_nil hne
      have hnil : owed = [] := by
        rw [spell, List.cons_append, Utf8.run] at h
        cases hs : Utf8.step owed b with
        | none =>
          rw [hs] at h
          cases h
        | some mid => exact (Utf8.step_ascii howed (hpattern b List.mem_cons_self) hs).1
      rw [hnil, spell, Utf8.run_append, run_ascii hpattern] at h
      rw [hnil, spell, Utf8.run_append, run_ascii hword]
      exact ih Utf8.multibyte_nil h
    | some b =>
      rw [spell, Utf8.run] at h ⊢
      cases hs : Utf8.step owed b with
      | none =>
        rw [hs] at h
        cases h
      | some mid =>
        rw [hs] at h
        exact ih (Utf8.step_multibyte howed hs) h

theorem valid_replace {pattern word : Bytes} (hne : pattern ≠ []) (hpattern : ∀ b ∈ pattern, b < 0x80)
    (hword : ∀ b ∈ word, b < 0x80) (h : Utf8.valid text = true) :
    Utf8.valid (replace pattern word text) = true := by
  rw [Utf8.valid_iff] at h ⊢
  refine run_spell hne hpattern hword Utf8.multibyte_nil ?_
  rwa [spell_tokens hne]

theorem argumentsToken_ascii : ∀ b ∈ argumentsToken, b < 0x80 := by decide +kernel
theorem everyArgument_ascii : ∀ b ∈ everyArgument, b < 0x80 := by decide +kernel
theorem placeholder_ascii : ∀ b ∈ allArgumentsPlaceholder, b < 0x80 := by decide +kernel

theorem valid_substituteArguments (h : Utf8.valid text = true) :
    Utf8.valid (substituteArguments dialect text) = true := by
  have hreplace := valid_replace argumentsToken_ne_nil argumentsToken_ascii placeholder_ascii h
  rw [substituteArguments]
  split
  · exact valid_replace everyArgument_ne_nil everyArgument_ascii placeholder_ascii hreplace
  · exact hreplace

theorem valid_nativeText (h : Utf8.valid body = true) : Utf8.valid (nativeText body) = true :=
  valid_replace placeholder_ne_nil placeholder_ascii argumentsToken_ascii h

end Utf8

section Counts

variable {b : UInt8} {pattern word : Bytes}

theorem count_spell (hpattern : b ∉ pattern) (hword : b ∉ word) {ts : List (Option UInt8)} :
    (spell word ts).count b = (spell pattern ts).count b := by
  induction ts with
  | nil => rfl
  | cons t ts ih =>
    cases t with
    | none =>
      rw [spell, spell, List.count_append, List.count_append, List.count_eq_zero.mpr hpattern,
        List.count_eq_zero.mpr hword, ih]
    | some c => rw [spell, spell, List.count_cons, List.count_cons, ih]

theorem count_replace (hne : pattern ≠ []) (hpattern : b ∉ pattern) (hword : b ∉ word) :
    (replace pattern word text).count b = text.count b := by
  rw [replace, count_spell hpattern hword, spell_tokens hne]

/-- The dashes of a text are none of its arguments. -/
theorem dashes_nativeText : (nativeText body).count 0x2D = body.count 0x2D :=
  count_replace placeholder_ne_nil (by decide) (by decide)

theorem dashes_substituteArguments :
    (substituteArguments dialect text).count 0x2D = text.count 0x2D := by
  have hreplace : (replace argumentsToken allArgumentsPlaceholder text).count 0x2D =
      text.count 0x2D := count_replace argumentsToken_ne_nil (by decide) (by decide)
  have hevery : (replace everyArgument allArgumentsPlaceholder
        (replace argumentsToken allArgumentsPlaceholder text)).count 0x2D =
      (replace argumentsToken allArgumentsPlaceholder text).count 0x2D :=
    count_replace everyArgument_ne_nil (by decide) (by decide)
  rw [substituteArguments]
  split
  · exact hevery.trans hreplace
  · exact hreplace

theorem length_spell {ts : List (Option UInt8)} (h : word.length ≤ pattern.length) :
    (spell word ts).length ≤ (spell pattern ts).length := by
  induction ts with
  | nil => exact Nat.le_refl _
  | cons t ts ih =>
    cases t with
    | none =>
      rw [spell, spell, List.length_append, List.length_append]
      omega
    | some c => exact Nat.succ_le_succ ih

/-- The native text is no longer than the portable one. -/
theorem length_nativeText : (nativeText body).length ≤ body.length := by
  have hspell := @length_spell _ _ (tokens allArgumentsPlaceholder body)
    (show argumentsToken.length ≤ allArgumentsPlaceholder.length by decide)
  have htext : spell allArgumentsPlaceholder (tokens allArgumentsPlaceholder body) = body :=
    spell_tokens placeholder_ne_nil
  rwa [htext] at hspell

theorem mem_nativeText {b : UInt8} (h : b ∈ nativeText body) : b ∈ argumentsToken ∨ b ∈ body :=
  mem_replace placeholder_ne_nil h

end Counts

section FirstLine

/-- A text whose first line is the delimiter. -/
def StartsDelimiter (text : Bytes) : Prop := text = delimiter ∨ OpensFrontmatter text

theorem opensFrontmatter_nativeText :
    OpensFrontmatter (nativeText body) ↔ OpensFrontmatter body := by
  refine or_congr ?_ ?_ <;> exact prefix_replace_iff (by decide)

theorem startsDelimiter_replace {p : Bytes} :
    StartsDelimiter (replace (0x24 :: p) allArgumentsPlaceholder text) ↔ StartsDelimiter text := by
  refine or_congr (replace_eq_iff (by decide)) (or_congr ?_ ?_) <;> exact prefix_replace_iff (by decide)

theorem startsDelimiter_substituteArguments :
    StartsDelimiter (substituteArguments dialect text) ↔ StartsDelimiter text := by
  rw [substituteArguments]
  split
  · rw [everyArgument_eq, startsDelimiter_replace, argumentsToken_eq, startsDelimiter_replace]
  · rw [argumentsToken_eq, startsDelimiter_replace]

theorem trimEndNewlines_ne {b : UInt8} {rest : Bytes} (hb : b ≠ newline) :
    trimEndNewlines (b :: rest) = b :: trimEndNewlines rest := by
  rw [trimEndNewlines]
  cases trimEndNewlines rest with
  | nil => exact if_neg hb
  | cons c trimmed => rfl

theorem replaceCrlf_ne {b : UInt8} {rest : Bytes} (hb : b ≠ 13) :
    replaceCrlf (b :: rest) = b :: replaceCrlf rest := by
  rw [replaceCrlf]
  intro next hnext
  exact absurd hnext hb

theorem normalizeBody_ne {b : UInt8} {rest : Bytes} (hb : b ≠ newline) (hreturn : b ≠ 13) :
    normalizeBody (b :: rest) = b :: normalizeBody rest := by
  rw [normalizeBody, replaceCrlf_ne hreturn, trimEndNewlines_ne hb]
  rfl

theorem trimEndNewlines_head {b : UInt8} {rest : Bytes} :
    (trimEndNewlines (b :: rest) ++ [newline]).head? = some b ∨
      (trimEndNewlines (b :: rest) ++ [newline]).head? = some newline := by
  rw [trimEndNewlines]
  cases trimEndNewlines rest with
  | nil =>
    by_cases hb : b = newline
    · exact .inr (by simp [hb])
    · exact .inl (by simp [hb])
  | cons c trimmed => exact .inl rfl

theorem normalizeBody_head {b : UInt8} {rest : Bytes} :
    (normalizeBody (b :: rest)).head? = some b ∨ (normalizeBody (b :: rest)).head? = some newline := by
  by_cases hcrlf : b = 13 ∧ [newline] <+: rest
  · obtain ⟨rfl, after, rfl⟩ := hcrlf
    refine .inr ?_
    change (trimEndNewlines (newline :: replaceCrlf after) ++ [newline]).head? = some newline
    rcases @trimEndNewlines_head newline (replaceCrlf after) with h | h <;> exact h
  · have hreplace : replaceCrlf (b :: rest) = b :: replaceCrlf rest := by
      rw [replaceCrlf]
      rintro next rfl rfl
      exact hcrlf ⟨rfl, next, rfl⟩
    rw [normalizeBody, hreplace]
    exact trimEndNewlines_head

theorem normalizeBody_newline {rest : Bytes} :
    [newline] <+: normalizeBody (newline :: rest) ∧ [newline] <+: normalizeBody (13 :: newline :: rest) := by
  have hone : [newline] <+: trimEndNewlines (newline :: replaceCrlf rest) ++ [newline] := by
    rw [trimEndNewlines]
    cases trimEndNewlines (replaceCrlf rest) with
    | nil => exact ⟨[], rfl⟩
    | cons c trimmed => exact ⟨_, rfl⟩
  refine ⟨?_, hone⟩
  rw [normalizeBody, replaceCrlf_ne (by decide)]
  exact hone

/-- A text is normalized to one with an empty first line if it is empty or has one. -/
theorem normalizeBody_starts : [newline] <+: normalizeBody text ↔
    text = [] ∨ [newline] <+: text ∨ [13, newline] <+: text := by
  constructor
  · rintro ⟨after, hafter⟩
    cases text with
    | nil => exact .inl rfl
    | cons b rest =>
      by_cases hb : b = newline
      · exact .inr (.inl ⟨rest, by rw [hb]; rfl⟩)
      · by_cases hcrlf : b = 13 ∧ [newline] <+: rest
        · obtain ⟨rfl, rest', rfl⟩ := hcrlf
          exact .inr (.inr ⟨rest', rfl⟩)
        · have hreplace : replaceCrlf (b :: rest) = b :: replaceCrlf rest := by
            rw [replaceCrlf]
            rintro next rfl rfl
            exact hcrlf ⟨rfl, next, rfl⟩
          rw [normalizeBody, hreplace, trimEndNewlines_ne hb] at hafter
          exact absurd (List.cons.inj hafter).1.symm hb
  · rintro (rfl | ⟨rest, rfl⟩ | ⟨rest, rfl⟩)
    · exact ⟨[], rfl⟩
    · exact normalizeBody_newline.1
    · exact normalizeBody_newline.2

theorem dash_normalizeBody {q : Bytes} :
    0x2D :: q <+: normalizeBody text ↔ ∃ rest, text = 0x2D :: rest ∧ q <+: normalizeBody rest := by
  constructor
  · rintro ⟨after, hafter⟩
    cases text with
    | nil => exact absurd (List.cons.inj hafter).1 (by decide)
    | cons b rest =>
      have hb : b = 0x2D := by
        rcases @normalizeBody_head b rest with h | h
        · rw [← hafter] at h
          exact (Option.some.inj h).symm
        · rw [← hafter] at h
          exact absurd (Option.some.inj h) (by decide)
      refine ⟨rest, by rw [hb], after, ?_⟩
      rw [hb, normalizeBody_ne (by decide) (by decide)] at hafter
      exact (List.cons.inj hafter).2
  · rintro ⟨rest, rfl, hq⟩
    rw [normalizeBody_ne (by decide) (by decide)]
    exact List.cons_prefix_cons.mpr ⟨rfl, hq⟩

/-- Normalizing keeps the first line. -/
theorem startsDelimiter_normalizeBody :
    ascii "---\n" <+: normalizeBody text ↔ StartsDelimiter text := by
  change 0x2D :: 0x2D :: 0x2D :: [newline] <+: normalizeBody text ↔ StartsDelimiter text
  rw [dash_normalizeBody]
  constructor
  · rintro ⟨first, rfl, hfirst⟩
    obtain ⟨second, rfl, hsecond⟩ := dash_normalizeBody.mp hfirst
    obtain ⟨third, rfl, hthird⟩ := dash_normalizeBody.mp hsecond
    rcases normalizeBody_starts.mp hthird with rfl | ⟨rest, rfl⟩ | ⟨rest, rfl⟩
    · exact .inl rfl
    · exact .inr (.inl ⟨rest, rfl⟩)
    · exact .inr (.inr ⟨rest, rfl⟩)
  · intro h
    have hrest : ∃ rest, text = 0x2D :: 0x2D :: 0x2D :: rest ∧
        (rest = [] ∨ [newline] <+: rest ∨ [13, newline] <+: rest) := by
      rcases h with rfl | ⟨rest, rfl⟩ | ⟨rest, rfl⟩
      · exact ⟨[], rfl, .inl rfl⟩
      · exact ⟨newline :: rest, rfl, .inr (.inl ⟨rest, rfl⟩)⟩
      · exact ⟨13 :: newline :: rest, rfl, .inr (.inr ⟨rest, rfl⟩)⟩
    obtain ⟨rest, rfl, hstarts⟩ := hrest
    exact ⟨_, rfl, dash_normalizeBody.mpr
      ⟨_, rfl, dash_normalizeBody.mpr ⟨_, rfl, normalizeBody_starts.mpr hstarts⟩⟩⟩

end FirstLine

end Kitrove.Prompts
