import Kitrove.Prompts.Rendering

/-! Portable prompt commands go back where they came from, unless their text is taken for
frontmatter; and what is rendered holds no more than the command. -/

namespace Kitrove.Prompts

open Substitution

variable {readYaml : Bytes → Option Utf8Text} {blake3 : Bytes → Digest}
  {dialect : NativePromptDialect} {command : PromptCommand} {bytes text document : Bytes}
  {limits : PromptCommandLimits}

section Names

variable {name : PromptCommandName}

theorem PromptCommandName.parse_eq_ok {value : Bytes} :
    PromptCommandName.parse value = .ok name ↔ value = name.bytes := by
  unfold PromptCommandName.parse
  split
  · constructor
    · intro h
      cases h
      rfl
    · rintro rfl
      rfl
  · rename_i h
    refine iff_of_false nofun ?_
    rintro rfl
    exact h name.valid

theorem PromptCommandName.byte (name : PromptCommandName) : ∀ b ∈ name.bytes,
    (lowercaseOrDigit b || b == 0x2D) = true := by
  have h := name.valid
  simp only [isPromptCommandName, Bool.not_eq_true', Bool.or_eq_false_iff, Bool.not_eq_false',
    List.all_eq_true] at h
  exact h.2

theorem PromptCommandName.ne_nil (name : PromptCommandName) : name.bytes ≠ [] := by
  have h := name.valid
  intro hnil
  rw [hnil] at h
  exact Bool.noConfusion h

theorem documentName_byte {b : UInt8} (hb : b ∉ ascii ".md")
    (hname : (lowercaseOrDigit b || b == 0x2D) = false) : b ∉ documentName name := by
  rw [documentName, List.mem_append, not_or]
  refine ⟨fun hmem => ?_, hb⟩
  rw [name.byte b hmem] at hname
  exact Bool.noConfusion hname

theorem splitOn_documentName : splitOn 0x2F (documentName name) = [documentName name] := by
  rw [splitOn_eq_splitOn]
  exact List.splitOn_eq_singleton (documentName_byte (by decide) (by decide))

theorem documentName_length : 4 ≤ (documentName name).length := by
  have hpos := List.length_pos_iff.mpr name.ne_nil
  rw [documentName, List.length_append]
  change 4 ≤ name.bytes.length + 3
  omega

theorem commandNameFromDocument_documentName :
    commandNameFromDocument (documentName name) = .ok (name, false) := by
  have hlength := @documentName_length name
  have hbackslash : (documentName name).contains 0x5C = false := by
    simpa using @documentName_byte name 0x5C (by decide) (by decide)
  have hhead : ((documentName name).head? == some 0x2F) = false := by
    refine beq_eq_false_iff_ne.mpr fun h => ?_
    exact @documentName_byte name 0x2F (by decide) (by decide)
      (List.mem_of_mem_head? h)
  have hcomponent : ([documentName name].any fun component =>
      component.isEmpty || component == ascii "." || component == ascii "..") = false := by
    have hne : ∀ other : Bytes, other.length < 4 → (documentName name == other) = false := by
      intro other hother
      refine beq_eq_false_iff_ne.mpr fun h => ?_
      rw [h] at hlength
      omega
    have hempty : (documentName name).isEmpty = false := by
      rw [List.isEmpty_eq_false_iff]
      intro h
      rw [h, List.length_nil] at hlength
      omega
    rw [List.any_cons, hempty, hne (ascii ".") (by decide), hne (ascii "..") (by decide)]
    rfl
  rw [commandNameFromDocument, splitOn_documentName, hbackslash, hhead, hcomponent]
  simp only [Bool.or_self, Bool.false_eq_true, if_false, List.getLast?_singleton, Option.getD_some]
  rw [documentName, stripSuffix_append]
  dsimp only
  rw [PromptCommandName.parse_eq_ok.mpr rfl]
  rfl

/-- A document that is not nested is named after its command. -/
theorem commandNameFromDocument_eq_ok (h : commandNameFromDocument document = .ok (name, false)) :
    document = documentName name := by
  unfold commandNameFromDocument at h
  split at h
  · cases h
  · cases hstrip : stripSuffix (ascii ".md") ((splitOn 0x2F document).getLast?.getD []) with
    | none =>
      rw [hstrip] at h
      cases h
    | some stem =>
      rw [hstrip] at h
      dsimp only at h
      cases hname : PromptCommandName.parse stem with
      | error e =>
        rw [hname] at h
        cases h
      | ok parsed =>
        rw [hname] at h
        injection h with h
        obtain ⟨rfl, hnested⟩ := Prod.mk.inj h
        have hstem := PromptCommandName.parse_eq_ok.mp hname
        have hone : (splitOn 0x2F document).length ≤ 1 := Nat.not_lt.mp (of_decide_eq_false hnested)
        rw [splitOn_eq_splitOn] at hone hstrip
        have hjoin := Segments.join_splitOn 0x2F document
        cases hparts : document.splitOn 0x2F with
        | nil => exact absurd hparts (List.splitOn_ne_nil 0x2F document)
        | cons part parts =>
          rw [hparts] at hone hstrip hjoin
          have hnil : parts = [] := by
            cases parts with
            | nil => rfl
            | cons part' parts =>
              rw [List.length_cons, List.length_cons] at hone
              omega
          rw [hnil, List.getLast?_singleton, Option.getD_some] at hstrip
          rw [hnil, Segments.join, List.intercalate_singleton] at hjoin
          unfold stripSuffix at hstrip
          split at hstrip
          · rename_i hsuffix
            obtain ⟨front, hfront⟩ := List.isSuffixOf_iff_suffix.mp hsuffix
            injection hstrip with hstrip
            rw [← hfront, List.length_append, Nat.add_sub_cancel, List.take_left] at hstrip
            rw [← hjoin, ← hfront, hstrip, hstem]
            rfl
          · cases hstrip

end Names

section Reading

/-- A native document that a dialect reads as a portable command. -/
def ReadsAs (readYaml : Bytes → Option Utf8Text) (blake3 : Bytes → Digest)
    (dialect : NativePromptDialect) (document bytes : Bytes) (limits : PromptCommandLimits)
    (command : PromptCommand) : Prop :=
  ∃ observed, parseNativePromptCommand readYaml blake3 dialect document bytes limits = .ok observed ∧
    observed.portability = .portable command

theorem readsAs_iff : ReadsAs readYaml blake3 dialect document bytes limits command ↔
    bytes.length ≤ limits.maxDocumentBytes ∧ Utf8.valid bytes = true ∧ 0 ∉ bytes ∧
      commandNameFromDocument document = .ok (command.name, false) ∧
        ∃ parsed, parseDocument readYaml bytes = .ok parsed ∧
          Projects dialect parsed limits.maxBodyBytes command := by
  unfold ReadsAs parseNativePromptCommand
  constructor
  · rintro ⟨observed, hparse, hportable⟩
    split at hparse
    · exact (nomatch hparse)
    · rename_i hlength
      split at hparse
      · exact (nomatch hparse)
      · rename_i hutf8
        split at hparse
        · exact (nomatch hparse)
        · rename_i hnul
          obtain ⟨named, hnamed, hparse⟩ := Except.bind_eq_ok_iff.mp hparse
          obtain ⟨parsed, hparsed, hparse⟩ := Except.bind_eq_ok_iff.mp hparse
          cases hparse
          obtain ⟨name, nested⟩ := named
          cases nested with
          | true => exact (nomatch hportable)
          | false =>
            obtain ⟨hname, hprojects⟩ := projectPortable_eq_portable.mp hportable
            refine ⟨Nat.not_lt.mp hlength, Bool.not_eq_false _ ▸ hutf8, by simpa using hnul, ?_,
              parsed, hparsed, hprojects⟩
            rw [hnamed, hname]
  · rintro ⟨hlength, hutf8, hnul, hnamed, parsed, hparsed, hprojects⟩
    have hcontains : ¬ bytes.contains 0 = true := by simpa using hnul
    rw [if_neg (Nat.not_lt.mpr hlength), if_neg (by simp [hutf8]), if_neg hcontains, hnamed, hparsed]
    exact ⟨_, rfl, projectPortable_eq_portable.mpr ⟨rfl, hprojects⟩⟩

theorem renderNativePromptCommand_eq_ok :
    renderNativePromptCommand readYaml blake3 dialect command = .ok text ↔
      ¬ (dialect.appendsImplicitArguments = true ∧ command.argumentMode = .none) ∧
        text = renderFrontmatter command.description ++ renderBody command ∧
          ReadsAs readYaml blake3 dialect (documentName command.name) text .default command := by
  unfold renderNativePromptCommand
  split
  · rename_i h
    exact iff_of_false nofun fun hok => hok.1 h
  · rename_i hexplicit
    rw [Except.bind_eq_ok_iff, and_iff_right hexplicit]
    constructor
    · rintro ⟨observed, hobserved, h⟩
      split at h
      · rename_i hportable
        cases h
        exact ⟨rfl, observed, hobserved, hportable⟩
      · exact (nomatch h)
    · rintro ⟨rfl, observed, hobserved, hportable⟩
      refine ⟨observed, hobserved, ?_⟩
      rw [if_pos hportable]
      rfl

theorem renderBody_eq : renderBody command = nativeText command.body.text := by
  unfold renderBody
  cases hmode : command.argumentMode with
  | allArguments => rfl
  | none =>
    have habsent : contains allArgumentsPlaceholder command.body.text = false := by
      rw [command.contract, hmode]
      rfl
    exact (replace_of_absent (contains_eq_false.mp habsent)).symm

end Reading

section Rendered

theorem opensFrontmatter_command : OpensFrontmatter (nativeText command.body.text) ↔
    ascii "---\n" <+: command.body.text := by
  rw [opensFrontmatter_nativeText]
  refine or_iff_left fun h => command.body.noReturn ?_
  exact h.subset (by decide)

/-- A command without description whose body starts with the delimiter is not rendered: what is read
back has fewer dashes. -/
theorem not_readsAs_opened (h : ascii "---\n" <+: command.body.text) :
    ¬ ReadsAs readYaml blake3 dialect document (nativeText command.body.text) limits command := by
  intro hreads
  obtain ⟨-, -, -, -, parsed, hparsed, hprojects⟩ := readsAs_iff.mp hreads
  obtain ⟨markdown, hmarkdown, hparsed⟩ := Except.bind_eq_ok_iff.mp hparsed
  rw [Except.mapError_eq_ok_iff] at hmarkdown
  obtain ⟨description, -, hparsed⟩ := Except.bind_eq_ok_iff.mp hparsed
  cases hparsed
  have hopen : ascii "---\n" <+: nativeText command.body.text := prefix_replace_iff (by decide) |>.mpr h
  have hsuffix := parseOptionalFlatMarkdown_opened hopen hmarkdown
  have hbody : command.body.text.count 0x2D = markdown.body.count 0x2D := by
    have hagree := normalizeBody_agree hprojects.source.lineEnds
    have hcount := hagree.count (x := 0x2D) (by decide)
    rw [dashes_substituteArguments, ← hprojects.body] at hcount
    exact hcount.symm
  have hlost : (nativeText command.body.text).count 0x2D =
      3 + ((nativeText command.body.text).drop 4).count 0x2D := by
    obtain ⟨rest, hrest⟩ := hopen
    rw [← hrest, List.count_append]
    rfl
  have hfewer := hsuffix.sublist.count_le 0x2D
  rw [dashes_nativeText, hbody] at hlost
  omega

theorem projects_rendered (hyaml : ReadsDescriptions readYaml)
    (h : ReadsAs readYaml blake3 dialect document
      (renderFrontmatter command.description ++ nativeText command.body.text) limits command) :
    Projects dialect ⟨command.description, renderedFields command.description,
      nativeText command.body.text⟩ limits.maxBodyBytes command := by
  have hplain : command.description = none → ¬ OpensFrontmatter (nativeText command.body.text) := by
    intro hnone hopen
    rw [hnone] at h
    exact not_readsAs_opened (opensFrontmatter_command.mp hopen) h
  obtain ⟨-, -, -, -, parsed, hparsed, hprojects⟩ := readsAs_iff.mp h
  rw [parseDocument_rendered hyaml hplain] at hparsed
  cases hparsed
  exact hprojects

theorem renderFrontmatter_bytes : ∀ description : Option PromptDescription,
    (renderFrontmatter description).length ≤ 9000 ∧ Utf8.valid (renderFrontmatter description) = true ∧
      0 ∉ renderFrontmatter description
  | none => ⟨Nat.zero_le _, rfl, List.not_mem_nil⟩
  | some description => by
    rw [renderFrontmatter_quotes]
    refine ⟨?_, ?_, ?_⟩
    · have hlength := description.escaped_length
      rw [List.length_append, List.length_cons, List.length_append, List.length_cons]
      change 17 + (description.escaped.length + (5 + 1) + 1) ≤ 9000
      omega
    · have hopening : Utf8.valid (ascii "---\ndescription: ") = true := by decide
      have hclosing : Utf8.valid (ascii "\n---\n") = true := by decide
      have hrest : Utf8.valid (description.escaped ++ 0x22 :: ascii "\n---\n") = true :=
        (Utf8.valid_append_ascii (by decide)).mpr ⟨description.escaped_valid, hclosing⟩
      exact (Utf8.valid_append_ascii (by decide)).mpr ⟨hopening, hrest⟩
    · have hescaped : 0 ∉ description.escaped := fun h =>
        description.escaped_printable 0 h (by decide)
      rw [List.mem_append, List.mem_cons, List.mem_append, List.mem_cons]
      rintro (h | h | h | h | h)
      · exact absurd h (by decide)
      · exact absurd h (by decide)
      · exact hescaped h
      · exact absurd h (by decide)
      · exact absurd h (by decide)

theorem renderedFields_supported (dialect : NativePromptDialect) (description : Option PromptDescription) :
    hasUnsupportedFields dialect (renderedFields description) = false := by
  cases description <;> cases dialect <;> rfl

/-- What is rendered is read back, if its body is read as the command's. -/
theorem readsAs_rendered (hyaml : ReadsDescriptions readYaml)
    (hplain : command.description = none → ¬ OpensFrontmatter (nativeText command.body.text))
    (hutf8 : Utf8.valid command.body.text = true)
    (hlength : command.body.text.length ≤ PromptCommandLimits.default.maxBodyBytes)
    (hsupported : containsUnsupportedDollarSyntax command.body.text = false)
    (hexplicit : ¬ (dialect.appendsImplicitArguments = true ∧ command.argumentMode = .none))
    (hinert : recognizesShellInterpolation dialect (nativeText command.body.text) = false)
    (hfile : dialect = .claudeLegacy →
      recognizesFileInterpolation (nativeText command.body.text) = false) :
    ReadsAs readYaml blake3 dialect (documentName command.name)
      (renderFrontmatter command.description ++ nativeText command.body.text) .default command := by
  obtain ⟨hheaderLength, hheaderUtf8, hheaderNul⟩ := renderFrontmatter_bytes command.description
  have hsame := @substituteArguments_nativeText dialect _ hsupported
  refine readsAs_iff.mpr ⟨?_, ?_, ?_, commandNameFromDocument_documentName, _,
    parseDocument_rendered hyaml hplain, ?_⟩
  · have hnative := @length_nativeText command.body.text
    change command.body.text.length ≤ 262144 at hlength
    rw [List.length_append]
    change _ ≤ 524288
    omega
  · rw [Utf8.valid_append hheaderUtf8]
    exact valid_nativeText hutf8
  · rw [List.mem_append, not_or]
    refine ⟨hheaderNul, fun h => ?_⟩
    rcases mem_nativeText h with h | h
    · exact absurd h (by decide)
    · exact command.body.noNul h
  · exact
      { inert := hinert
        fileFree := hfile
        fields := renderedFields_supported dialect command.description
        plain := nativeText_placeholder
        supported := by rw [hsame, hsupported]
        mode := by rw [hsame, command.contract]
        explicit := hexplicit
        source := by
          rw [hsame]
          exact command.body.source hlength
        description := rfl
        body := by rw [hsame, command.body.normalized] }

end Rendered

section Returning

/-- A document without description whose text, behind any frontmatter, starts with the delimiter. -/
def HidesDelimiter (readYaml : Bytes → Option Utf8Text) (bytes : Bytes) : Prop :=
  ∃ parsed, parseDocument readYaml bytes = .ok parsed ∧ parsed.description = none ∧
    StartsDelimiter parsed.body

theorem parseDocument_valid {parsed : ParsedDocument} (hvalid : Utf8.valid bytes = true)
    (h : parseDocument readYaml bytes = .ok parsed) : Utf8.valid parsed.body = true := by
  obtain ⟨markdown, hmarkdown, h⟩ := Except.bind_eq_ok_iff.mp h
  rw [Except.mapError_eq_ok_iff] at hmarkdown
  obtain ⟨description, -, h⟩ := Except.bind_eq_ok_iff.mp h
  cases h
  exact parseOptionalFlatMarkdown_valid hvalid hmarkdown

theorem Projects.supported_body {parsed : ParsedDocument} {maxBodyBytes : Nat}
    (h : Projects dialect parsed maxBodyBytes command) :
    containsUnsupportedDollarSyntax command.body.text = false := by
  rw [h.body, ← containsUnsupportedDollarSyntax_agree (normalizeBody_agree h.source.lineEnds)]
  exact h.supported

/-- Where no argument is spelled in two ways, the native text is the document's but for line ends. -/
theorem Projects.agree {parsed : ParsedDocument} {maxBodyBytes : Nat}
    (h : Projects dialect parsed maxBodyBytes command) (hdialect : dialect ≠ .piLatest) :
    Agree Gap parsed.body (nativeText command.body.text) := by
  have hagree := (normalizeBody_agree h.source.lineEnds).replace placeholder_ne_nil
    placeholder_gap argumentsToken
  rw [← h.body] at hagree
  have hback := nativeText_substituteArguments hdialect h.plain
  rw [nativeText] at hback
  rwa [hback] at hagree

theorem Projects.startsDelimiter {parsed : ParsedDocument} {maxBodyBytes : Nat}
    (h : Projects dialect parsed maxBodyBytes command) :
    OpensFrontmatter (nativeText command.body.text) ↔ StartsDelimiter parsed.body := by
  rw [opensFrontmatter_command, h.body, startsDelimiter_normalizeBody,
    startsDelimiter_substituteArguments]

/-- A document that is read as a portable command can be written again unless it hides a delimiter. -/
theorem goes_back_iff (hyaml : ReadsDescriptions readYaml)
    (h : ReadsAs readYaml blake3 dialect document bytes .default command) :
    (∃ text, renderNativePromptCommand readYaml blake3 dialect command = .ok text ∧
        ReadsAs readYaml blake3 dialect document text .default command) ↔
      ¬ HidesDelimiter readYaml bytes := by
  obtain ⟨-, hutf8, -, hnamed, parsed, hparsed, hprojects⟩ := readsAs_iff.mp h
  have hdocument := commandNameFromDocument_eq_ok hnamed
  constructor
  · rintro ⟨text, hrender, hreads⟩ ⟨hidden, hhidden, hnone, hstarts⟩
    rw [hparsed] at hhidden
    cases hhidden
    obtain ⟨-, rfl, -⟩ := renderNativePromptCommand_eq_ok.mp hrender
    rw [renderBody_eq, hprojects.description, hnone] at hreads
    refine not_readsAs_opened ?_ hreads
    exact opensFrontmatter_command.mp (hprojects.startsDelimiter.mpr hstarts)
  · intro hcondition
    have hplain : command.description = none → ¬ OpensFrontmatter (nativeText command.body.text) := by
      intro hnone hopen
      exact hcondition ⟨parsed, hparsed, hprojects.description ▸ hnone,
        hprojects.startsDelimiter.mp hopen⟩
    have hbody : Utf8.valid command.body.text = true := by
      rw [hprojects.body]
      exact normalizeBody_valid (valid_substituteArguments (parseDocument_valid hutf8 hparsed))
    have hlength : command.body.text.length ≤ PromptCommandLimits.default.maxBodyBytes := by
      rw [hprojects.body]
      exact hprojects.source.normalizedShort
    have hinert : recognizesShellInterpolation dialect (nativeText command.body.text) = false := by
      by_cases hpi : dialect = .piLatest
      · rw [hpi]
        rfl
      · rw [← recognizesShellInterpolation_agree (hprojects.agree hpi)]
        exact hprojects.inert
    have hfile : dialect = .claudeLegacy →
        recognizesFileInterpolation (nativeText command.body.text) = false := by
      intro hclaude
      rw [← recognizesFileInterpolation_agree (hprojects.agree (by rw [hclaude]; decide))]
      exact hprojects.fileFree hclaude
    have hreads := @readsAs_rendered _ blake3 _ _ hyaml hplain hbody hlength
      hprojects.supported_body hprojects.explicit hinert hfile
    refine ⟨_, renderNativePromptCommand_eq_ok.mpr ⟨hprojects.explicit, rfl, ?_⟩, ?_⟩
    · rwa [renderBody_eq]
    · rwa [renderBody_eq, hdocument]

end Returning

end Kitrove.Prompts
