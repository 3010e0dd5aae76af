import Kitrove.Prompts.Projection

/-! What a rendered command is parsed to: the frontmatter gives the description back, and the body is
what stands behind it. -/

namespace Kitrove.Prompts

open Substitution
open Mcp (jsonString escapeByte)

section Descriptions

variable {text : Bytes} {b : UInt8} {owed next : Utf8.Owed}

theorem containsControl_bytes (h : containsControl text = false) : ∀ b ∈ text, ¬ b < 0x20 := by
  induction text with
  | nil => exact nofun
  | cons c text ih =>
    simp only [containsControl, Bool.or_eq_false_iff, decide_eq_false_iff_not] at h
    exact List.forall_mem_cons.mpr ⟨h.1.1.1, ih h.2⟩

theorem escapeByte_printable (h : ¬ b < 0x20) :
    escapeByte b = [b] ∨ Gap b ∧ escapeByte b = [Jsonc.backslash, b] := by
  have hall : ∀ b, ¬ b < 0x20 → escapeByte b = [b] ∨ Gap b ∧ escapeByte b = [Jsonc.backslash, b] :=
    UInt8.forall_ofNat (by decide +kernel)
  exact hall b h

/-- Escaping quotes and backslashes changes gaps only. -/
theorem escape_agree (h : ∀ b ∈ text, ¬ b < 0x20) : Agree Gap text (text.flatMap escapeByte) := by
  induction text with
  | nil => exact .ends nofun nofun
  | cons b text ih =>
    obtain ⟨hb, htext⟩ := List.forall_mem_cons.mp h
    rw [List.flatMap_cons]
    rcases escapeByte_printable hb with hplain | ⟨hgap, hescape⟩
    · rw [hplain]
      exact .same b (ih htext)
    · rw [hescape]
      refine .gaps (g := [b]) (by simp) (by simp) (by simpa using hgap) ?_ (ih htext)
      exact List.forall_mem_cons.mpr ⟨.inr (.inr (.inr rfl)), by simpa using hgap⟩

theorem mem_escape (h : ∀ b ∈ text, ¬ b < 0x20) (hb : b ∈ text.flatMap escapeByte) : ¬ b < 0x20 := by
  obtain ⟨c, hc, hmem⟩ := List.mem_flatMap.mp hb
  rcases escapeByte_printable (h c hc) with hplain | ⟨-, hescape⟩
  · rw [hplain, List.mem_singleton] at hmem
    rw [hmem]
    exact h c hc
  · rw [hescape, List.mem_cons, List.mem_singleton] at hmem
    rcases hmem with rfl | rfl
    · decide
    · exact h b hc

theorem length_escape (h : ∀ b ∈ text, ¬ b < 0x20) :
    (text.flatMap escapeByte).length ≤ 2 * text.length := by
  induction text with
  | nil => exact Nat.le_refl _
  | cons b text ih =>
    obtain ⟨hb, htext⟩ := List.forall_mem_cons.mp h
    have hrest := ih htext
    have hone : (escapeByte b).length ≤ 2 := by
      rcases escapeByte_printable hb with hplain | ⟨-, hescape⟩
      · rw [hplain]
        exact Nat.le_succ 1
      · rw [hescape]
        exact Nat.le_refl _
    rw [List.flatMap_cons, List.length_append, List.length_cons]
    omega

theorem run_escape (h : ∀ b ∈ text, ¬ b < 0x20) (howed : Utf8.Multibyte owed)
    (hrun : Utf8.run owed text = some next) :
    Utf8.run owed (text.flatMap escapeByte) = some next := by
  induction text generalizing owed with
  | nil => exact hrun
  | cons b text ih =>
    obtain ⟨hb, htext⟩ := List.forall_mem_cons.mp h
    rw [Utf8.run] at hrun
    cases hs : Utf8.step owed b with
    | none =>
      rw [hs] at hrun
      cases hrun
    | some mid =>
      rw [hs] at hrun
      have hrest := ih htext (Utf8.step_multibyte howed hs) hrun
      rw [List.flatMap_cons]
      rcases escapeByte_printable hb with hplain | ⟨hgap, hescape⟩
      · rw [hplain, List.singleton_append, Utf8.run, hs]
        exact hrest
      · have hascii : b < 0x80 := by rcases hgap with rfl | rfl | rfl | rfl <;> decide
        obtain ⟨rfl, rfl⟩ := Utf8.step_ascii howed hascii hs
        have hboth : Utf8.run [] [Jsonc.backslash, b] = some [] :=
          run_ascii (List.forall_mem_cons.mpr ⟨by decide, by simpa using hascii⟩)
        rw [hescape, Utf8.run_append, hboth]
        exact hrest

theorem length_of_run (h : Utf8.run owed text = some next) :
    text.length + next.length ≤ owed.length + 4 * charCount text := by
  induction text generalizing owed with
  | nil =>
    cases h
    simp [charCount]
  | cons b text ih =>
    rw [Utf8.run] at h
    cases hs : Utf8.step owed b with
    | none =>
      rw [hs] at h
      cases h
    | some mid =>
      rw [hs] at h
      have hrest := ih h
      have hmono : charCount text ≤ charCount (b :: text) := by
        rw [charCount, charCount, List.countP_cons]
        exact Nat.le_add_right _ _
      cases owed with
      | cons range owed =>
        rw [Utf8.step] at hs
        split at hs
        · cases hs
          rw [List.length_cons, List.length_cons]
          omega
        · cases hs
      | nil =>
        have hlead : mid.length ≤ 3 ∧ (b < 0x80 || 0xC0 ≤ b) = true := by
          have hall : ∀ b, ∀ mid ∈ Utf8.leading b, mid.length ≤ 3 ∧ (b < 0x80 || 0xC0 ≤ b) = true :=
            UInt8.forall_ofNat (by decide +kernel)
          exact hall b mid hs
        have hcount : charCount (b :: text) = charCount text + 1 := by
          rw [charCount, charCount, List.countP_cons, if_pos hlead.2]
        rw [List.length_cons, List.length_nil, hcount]
        omega

end Descriptions

section Frontmatter

variable (description : PromptDescription)

theorem PromptDescription.printable : ∀ b ∈ description.text.bytes, ¬ b < 0x20 := by
  have h := description.valid
  simp only [isPromptDescription, breaksLine, Bool.not_eq_true', Bool.or_eq_false_iff] at h
  exact containsControl_bytes h.2.1.1

theorem PromptDescription.length : description.text.bytes.length ≤ 4096 := by
  have h := description.valid
  simp only [isPromptDescription, Bool.not_eq_true', Bool.or_eq_false_iff,
    decide_eq_false_iff_not] at h
  have hcount : charCount description.text.bytes ≤ 1024 := Nat.not_lt.mp h.1.2
  have hrun := length_of_run (Utf8.valid_iff.mp description.text.utf8)
  simp only [List.length_nil] at hrun
  omega

/-- What stands between the quotes of a rendered description. -/
def PromptDescription.escaped : Bytes := description.text.bytes.flatMap escapeByte

theorem PromptDescription.escaped_printable : ∀ b ∈ description.escaped, ¬ b < 0x20 :=
  fun _ hb => mem_escape description.printable hb

theorem PromptDescription.escaped_length : description.escaped.length ≤ 8192 := by
  have hescape := length_escape description.printable
  have hlength := description.length
  rw [PromptDescription.escaped]
  omega

theorem PromptDescription.escaped_valid : Utf8.valid description.escaped = true :=
  Utf8.valid_iff.mpr (run_escape description.printable Utf8.multibyte_nil
    (Utf8.valid_iff.mp description.text.utf8))

theorem renderFrontmatter_some : renderFrontmatter (some description) =
    ascii "---\n" ++ describedLine (quoted description.escaped) ++ ascii "\n---\n" := rfl

/-- The rendered frontmatter, cut at its quotes. -/
theorem renderFrontmatter_quotes : renderFrontmatter (some description) =
    ascii "---\ndescription: " ++ 0x22 :: (description.escaped ++ 0x22 :: ascii "\n---\n") := by
  rw [renderFrontmatter_some, describedLine, quoted]
  simp only [List.append_assoc, List.cons_append, List.nil_append]
  rfl

end Frontmatter

section Documents

variable {readYaml : Bytes → Option Utf8Text} {description : Option PromptDescription} {body : Bytes}

/-- A YAML library that reads the JSON text of a description as the description. -/
def ReadsDescriptions (readYaml : Bytes → Option Utf8Text) : Prop :=
  ∀ description : PromptDescription, readYaml (jsonString description.text.bytes) = some description.text

theorem PromptDescription.parse_text (description : PromptDescription) :
    PromptDescription.parse description.text = .ok description := by
  rw [PromptDescription.parse, dif_pos description.valid]
  rfl

def renderedFields : Option PromptDescription → List Bytes
  | none => []
  | some _ => [ascii "description"]

theorem parseDocument_described (hyaml : ReadsDescriptions readYaml) (description : PromptDescription) :
    parseDocument readYaml (renderFrontmatter (some description) ++ body) =
      .ok ⟨some description, [ascii "description"], body⟩ := by
  have hnewline : newline ∉ description.escaped := fun h =>
    absurd (description.escaped_printable newline h) (by decide)
  have hlength := description.escaped_length
  have hparse : parseOptionalFlatMarkdown (renderFrontmatter (some description) ++ body)
      frontmatterLimits = .ok ⟨[(ascii "description", quoted description.escaped)], body⟩ := by
    rw [renderFrontmatter_some]
    refine parseOptionalFlatMarkdown_described hnewline (by decide) ?_
    change description.escaped.length + 16 ≤ 16384
    omega
  have hscalar : readYaml (quoted description.escaped) = some description.text := hyaml description
  have hfield : readField readYaml none (ascii "description", quoted description.escaped) =
      .ok (some description) := by
    rw [readField, if_pos rfl, parseStringScalar, hscalar]
    change (PromptDescription.parse description.text >>= _) = _
    rw [description.parse_text]
    rfl
  rw [parseDocument, hparse]
  change (List.foldlM (readField readYaml) none
    [(ascii "description", quoted description.escaped)] >>= _) = _
  rw [List.foldlM_cons, hfield]
  rfl

theorem parseDocument_plain (h : ¬ OpensFrontmatter body) :
    parseDocument readYaml body = .ok ⟨none, [], body⟩ := by
  rw [parseDocument, parseOptionalFlatMarkdown_plain h]
  rfl

/-- A rendered command is parsed to its description and its body, unless it has no description and its
body is taken for frontmatter. -/
theorem parseDocument_rendered (hyaml : ReadsDescriptions readYaml)
    (h : description = none → ¬ OpensFrontmatter body) :
    parseDocument readYaml (renderFrontmatter description ++ body) =
      .ok ⟨description, renderedFields description, body⟩ := by
  cases description with
  | some description => exact parseDocument_described hyaml description
  | none => exact parseDocument_plain (h rfl)

end Documents

end Kitrove.Prompts
