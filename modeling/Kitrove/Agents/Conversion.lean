import Kitrove.Agents.Stored

/-! Every dialect reads back the agents that are rendered for it, as far as the document fits. -/

namespace Kitrove.Agents

open Prompts (Utf8Text FlatFrontmatterLimits)
open Mcp (jsonString)

variable {lib : AgentLibraries} {agent : Agent} {dialect : NativeAgentDialect} {limits : AgentLimits}

/-- Libraries that read the JSON text of a line as the line and a plain word as the word, and read
back the TOML that they write. -/
structure AgentLibraries.Lawful (lib : AgentLibraries) : Prop where
  yaml : ∀ text : Utf8Text, (∀ b ∈ text.bytes, ¬ b < 0x20) →
    lib.readYaml (jsonString text.bytes) = some text
  yamlWord : (lib.readYaml (ascii "subagent")).map Utf8Text.bytes = some (ascii "subagent")
  toml : ∀ name description instructions : Utf8Text, ∃ text table,
    lib.writeToml name.bytes description.bytes instructions.bytes = some text ∧
    Utf8.valid text = true ∧
    (0 ∉ name.bytes → 0 ∉ description.bytes → 0 ∉ instructions.bytes → 0 ∉ text) ∧
    lib.readToml text = some table ∧
    (∀ key ∈ table.keys, key ∈ expectedFields .codexCurrent) ∧
    table.string (ascii "name") = some name ∧
    table.string (ascii "description") = some description ∧
    table.string (ascii "developer_instructions") = some instructions

section Names

theorem lowercaseOrHyphen_byte {b : UInt8} (h : lowercaseOrHyphen b = true) :
    ¬ b < 0x20 ∧ b < 0x80 ∧ b ≠ 0 ∧ b ≠ 0x2E ∧ b ≠ 0x2F ∧ b ≠ 0x5C := by
  have hall : ∀ b, lowercaseOrHyphen b = true →
      ¬ b < 0x20 ∧ b < 0x80 ∧ b ≠ 0 ∧ b ≠ 0x2E ∧ b ≠ 0x2F ∧ b ≠ 0x5C :=
    UInt8.forall_ofNat (by decide +kernel)
  exact hall b h

/-- A name as a text. -/
def AgentName.text (name : AgentName) : Utf8Text :=
  ⟨name.bytes, Utf8.valid_of_ascii fun _ hb => (lowercaseOrHyphen_byte (name.byte _ hb)).2.1⟩

theorem AgentName.noNul {name : AgentName} : 0 ∉ name.bytes := fun h =>
  (lowercaseOrHyphen_byte (name.byte 0 h)).2.2.1 rfl

theorem AgentName.printable {name : AgentName} : ∀ b ∈ name.bytes, ¬ b < 0x20 := fun b hb =>
  (lowercaseOrHyphen_byte (name.byte b hb)).1

theorem AgentDescription.noNul {description : AgentDescription} : 0 ∉ description.text.bytes :=
  fun h => description.printable 0 h (by decide)

theorem extensionOf_byte : ∀ b ∈ extensionOf dialect, b ≠ 0x2F ∧ b ≠ 0x5C := by
  cases dialect <;> decide +kernel

theorem documentName_byte : ∀ b ∈ documentName dialect agent, b ≠ 0x2F ∧ b ≠ 0x5C := by
  intro b hb
  rcases List.mem_append.mp hb with hname | hextension
  · obtain ⟨-, -, -, -, hslash, hbackslash⟩ := lowercaseOrHyphen_byte (agent.name.byte b hname)
    exact ⟨hslash, hbackslash⟩
  · exact extensionOf_byte b hextension

theorem documentName_length : 4 ≤ (documentName dialect agent).length := by
  have hpos := List.length_pos_iff.mpr agent.name.ne_nil
  rw [documentName, List.length_append]
  cases dialect with
  | claudeCurrent => change 4 ≤ agent.name.bytes.length + 3; omega
  | openCodeCurrent => change 4 ≤ agent.name.bytes.length + 3; omega
  | codexCurrent => change 4 ≤ agent.name.bytes.length + 5; omega

theorem validateDocumentName_documentName :
    validateDocumentName dialect (documentName dialect agent) = .ok () := by
  have hlength := @documentName_length agent dialect
  have hcontains {b : UInt8} (h : b = 0x2F ∨ b = 0x5C) :
      (documentName dialect agent).contains b = false := by
    refine Bool.eq_false_iff.mpr fun hmem => ?_
    have hbyte := documentName_byte b (List.contains_iff_mem.mp hmem)
    exact h.elim hbyte.1 hbyte.2
  have hhead : ((documentName dialect agent).head? == some 0x2F) = false := by
    refine beq_eq_false_iff_ne.mpr fun h => ?_
    exact (documentName_byte 0x2F (List.mem_of_mem_head? h)).1 rfl
  have hsplit : splitOn 0x2F (documentName dialect agent) = [documentName dialect agent] := by
    rw [splitOn_eq_splitOn]
    exact List.splitOn_eq_singleton fun h => (documentName_byte 0x2F h).1 rfl
  have hne (other : Bytes) (hother : other.length < 4) : (documentName dialect agent == other) = false := by
    refine beq_eq_false_iff_ne.mpr fun h => ?_
    rw [h] at hlength
    omega
  have hempty : (documentName dialect agent).isEmpty = false := by
    rw [List.isEmpty_eq_false_iff]
    intro h
    rw [h, List.length_nil] at hlength
    omega
  have hsuffix : (extensionOf dialect).isSuffixOf (documentName dialect agent) = true :=
    List.isSuffixOf_iff_suffix.mpr (List.suffix_append _ _)
  rw [validateDocumentName, hsplit, hcontains (.inr rfl), hhead, List.any_cons, hempty,
    hne (ascii ".") (by decide), hne (ascii "..") (by decide), hcontains (.inl rfl)]
  cases dialect with
  | claudeCurrent => exact if_pos hsuffix
  | openCodeCurrent => exact if_pos hsuffix
  | codexCurrent => exact if_pos hsuffix

theorem directStem_documentName :
    directStem (documentName dialect agent) (extensionOf dialect) = .ok agent.name.bytes := by
  rw [directStem, documentName, stripSuffix_append]
  rfl

end Names

section Markdown

variable {key text : Bytes} {lines : List Bytes}

/-- A line of text in JSON is the value of a field. -/
theorem scalarField_json (hkey : Prompts.validFieldName key = true) (h : ∀ b ∈ text, ¬ b < 0x20) :
    ScalarField key (jsonString text) where
  named := hkey
  starts := ⟨0x22, _, rfl, by decide, by decide⟩
  simple := rfl
  single := by
    intro hmem
    rcases List.mem_cons.mp hmem with hquote | hmem
    · exact absurd hquote (by decide)
    · rcases List.mem_append.mp hmem with hmem | hquote
      · exact Prompts.mem_escape h hmem (by decide)
      · exact absurd (List.mem_singleton.mp hquote) (by decide)
  uncut := by
    rw [jsonString, ← List.cons_append, List.getLast?_concat]
    decide

theorem scalarField_subagent : ScalarField (ascii "mode") (ascii "subagent") where
  named := by decide
  starts := ⟨0x73, ascii "ubagent", rfl, by decide, by decide⟩
  simple := by decide
  single := by decide
  uncut := by decide

def descriptionLine (agent : Agent) : Bytes :=
  scalarLine (ascii "description") (jsonString agent.description.text.bytes)

def nameLine (agent : Agent) : Bytes := scalarLine (ascii "name") (jsonString agent.name.bytes)

def modeLine : Bytes := scalarLine (ascii "mode") (ascii "subagent")

theorem descriptionField : ScalarField (ascii "description") (jsonString agent.description.text.bytes) :=
  scalarField_json (by decide) agent.description.printable

theorem nameField : ScalarField (ascii "name") (jsonString agent.name.bytes) :=
  scalarField_json (by decide) agent.name.printable

/-- The frontmatter of a rendered document. -/
def renderedLines : NativeAgentDialect → Agent → List Bytes
  | .claudeCurrent, agent => [nameLine agent, descriptionLine agent]
  | .openCodeCurrent, agent => [descriptionLine agent, modeLine]
  | .codexCurrent, _ => []

def markdownText (dialect : NativeAgentDialect) (agent : Agent) : Bytes :=
  ascii "---\n" ++ fieldText (renderedLines dialect agent) ++ ascii "---\n" ++
    agent.instructions.text.bytes

theorem renderClaude_eq : renderClaude agent = markdownText .claudeCurrent agent := by
  simp only [renderClaude, markdownText, renderedLines, fieldText, nameLine, descriptionLine,
    scalarLine, yamlScalar, List.flatMap_cons, List.flatMap_nil, List.append_assoc, List.append_nil]
  rfl

theorem renderOpenCode_eq : renderOpenCode agent = markdownText .openCodeCurrent agent := by
  simp only [renderOpenCode, markdownText, renderedLines, fieldText, descriptionLine, modeLine,
    scalarLine, yamlScalar, List.flatMap_cons, List.flatMap_nil, List.append_assoc, List.append_nil]
  rfl

theorem renderedLines_fields : ∀ line ∈ renderedLines dialect agent, FieldLine line := by
  cases dialect with
  | claudeCurrent =>
    exact List.forall_mem_cons.mpr ⟨nameField.fieldLine,
      List.forall_mem_cons.mpr ⟨descriptionField.fieldLine, nofun⟩⟩
  | openCodeCurrent =>
    exact List.forall_mem_cons.mpr ⟨descriptionField.fieldLine,
      List.forall_mem_cons.mpr ⟨scalarField_subagent.fieldLine, nofun⟩⟩
  | codexCurrent => exact nofun

theorem renderedLines_length : (fieldText (renderedLines dialect agent)).length ≤ 8192 := by
  have hname := length_jsonString agent.name.bytes
  have hdescription := length_jsonString agent.description.text.bytes
  have hnameLength := agent.name.length
  have hdescriptionLength := agent.description.length
  rw [maxAgentNameBytes] at hnameLength
  rw [maxAgentDescriptionBytes] at hdescriptionLength
  have hkeys : (ascii "name").length + (ascii "description").length + (ascii "mode").length +
      (ascii "subagent").length + 2 * (ascii ": ").length + [newline].length ≤ 40 := by decide
  cases dialect with
  | claudeCurrent =>
    simp only [renderedLines, fieldText, nameLine, descriptionLine, scalarLine, List.flatMap_cons,
      List.flatMap_nil, List.length_append, List.length_nil]
    omega
  | openCodeCurrent =>
    simp only [renderedLines, fieldText, descriptionLine, modeLine, scalarLine, List.flatMap_cons,
      List.flatMap_nil, List.length_append, List.length_nil]
    omega
  | codexCurrent => exact Nat.zero_le _

/-- The fields of a rendered document. -/
def renderedFields : NativeAgentDialect → Agent → List (Bytes × ObservedFrontmatterValue)
  | .claudeCurrent, agent =>
    [(ascii "description", .scalar (jsonString agent.description.text.bytes)),
      (ascii "name", .scalar (jsonString agent.name.bytes))]
  | .openCodeCurrent, agent =>
    [(ascii "description", .scalar (jsonString agent.description.text.bytes)),
      (ascii "mode", .scalar (ascii "subagent"))]
  | .codexCurrent, _ => []

theorem parse_renderedLines : ∃ key, (renderedLines dialect agent).foldlM
    (parseObservedLine frontmatterLimits.maxFields) ⟨[], none⟩ =
      .ok ⟨renderedFields dialect agent, key⟩ := by
  cases dialect with
  | claudeCurrent =>
    have hfirst := @parseObservedLine_scalar 64 ⟨[], none⟩ _ _ (@nameField agent) (by decide) nofun
    have hnew : ascii "name" ≠ ascii "description" := by decide
    have hsecond := @parseObservedLine_scalar 64
      ⟨[(ascii "name", .scalar (jsonString agent.name.bytes))], some (ascii "name")⟩ _ _
      (@descriptionField agent) (Nat.lt_of_sub_eq_succ rfl) (List.forall_mem_cons.mpr ⟨hnew, nofun⟩)
    refine ⟨some (ascii "description"), ?_⟩
    change (parseObservedLine 64 ⟨[], none⟩ (scalarLine _ _) >>= _) = _
    rw [hfirst]
    exact (congrArg (· >>= fun state => pure state) hsecond).trans rfl
  | openCodeCurrent =>
    have hfirst := @parseObservedLine_scalar 64 ⟨[], none⟩ _ _ (@descriptionField agent) (by decide)
      nofun
    have hnew : ascii "description" ≠ ascii "mode" := by decide
    have hsecond := @parseObservedLine_scalar 64
      ⟨[(ascii "description", .scalar (jsonString agent.description.text.bytes))],
        some (ascii "description")⟩ _ _ scalarField_subagent (Nat.lt_of_sub_eq_succ rfl)
      (List.forall_mem_cons.mpr ⟨hnew, nofun⟩)
    refine ⟨some (ascii "mode"), ?_⟩
    change (parseObservedLine 64 ⟨[], none⟩ (scalarLine _ _) >>= _) = _
    rw [hfirst]
    exact (congrArg (· >>= fun state => pure state) hsecond).trans rfl
  | codexCurrent => exact ⟨none, rfl⟩

end Markdown

end Kitrove.Agents
