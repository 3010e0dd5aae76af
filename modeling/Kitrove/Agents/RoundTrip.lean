import Kitrove.Agents.Conversion

/-! A portable agent is rendered for every dialect and read back, and stored and read back, as far as
its TOML document is one that may be read. -/

namespace Kitrove.Agents

open Prompts (Utf8Text)
open Mcp (jsonString)

variable {lib : AgentLibraries} {agent : Agent} {dialect : NativeAgentDialect} {limits : AgentLimits}
  {text : Bytes} {readJson : Bytes → Option PersistedAgent}

section Parsing

theorem parseStringScalar_json (hlib : lib.Lawful) {value : Utf8Text}
    (h : ∀ b ∈ value.bytes, ¬ b < 0x20) :
    observedString lib (.scalar (jsonString value.bytes)) = .ok value := by
  rw [observedString, parseStringScalar, hlib.yaml value h]
  rfl

theorem requiredString_description (hlib : lib.Lawful) (hdialect : dialect ≠ .codexCurrent) :
    requiredString lib (renderedFields dialect agent) (ascii "description") =
      .ok agent.description.text := by
  have hlookup : lookupField (renderedFields dialect agent) (ascii "description") =
      some (.scalar (jsonString agent.description.text.bytes)) := by
    cases dialect with
    | claudeCurrent => rfl
    | openCodeCurrent => rfl
    | codexCurrent => exact absurd rfl hdialect
  rw [requiredString, hlookup]
  exact parseStringScalar_json hlib agent.description.printable

theorem claudeName_rendered (hlib : lib.Lawful) :
    claudeName lib (renderedFields .claudeCurrent agent) = .ok (agent.name, none) := by
  have hlookup : lookupField (renderedFields .claudeCurrent agent) (ascii "name") =
      some (.scalar (jsonString agent.name.bytes)) := rfl
  have hvalue : observedString lib (.scalar (jsonString agent.name.bytes)) = .ok agent.name.text :=
    @parseStringScalar_json _ hlib agent.name.text agent.name.printable
  rw [claudeName, requiredString, hlookup]
  change (observedString lib (.scalar (jsonString agent.name.bytes)) >>= _) = _
  rw [hvalue]
  change (AgentName.parse agent.name.bytes >>= _) = _
  rw [AgentName.parse_bytes]
  rfl

theorem openCodeName_rendered (hlib : lib.Lawful) :
    openCodeName lib (documentName .openCodeCurrent agent) (renderedFields .openCodeCurrent agent) =
      .ok (agent.name, none) := by
  have hlookup : lookupField (renderedFields .openCodeCurrent agent) (ascii "mode") =
      some (.scalar (ascii "subagent")) := rfl
  have hmode : modeOf lib (renderedFields .openCodeCurrent agent) = some (ascii "subagent") := by
    have hword := hlib.yamlWord
    rw [modeOf, hlookup, Option.bind_some, observedString, parseStringScalar]
    cases hread : lib.readYaml (ascii "subagent") with
    | none =>
      rw [hread] at hword
      exact (nomatch hword)
    | some word =>
      rw [hread] at hword
      exact hword
  have hstem : directStem (documentName .openCodeCurrent agent) (ascii ".md") =
      .ok agent.name.bytes := directStem_documentName
  rw [openCodeName, hstem]
  change (AgentName.parse agent.name.bytes >>= _) = _
  rw [AgentName.parse_bytes, hmode]
  rfl

theorem classify_expected : classify dialect (expectedFields dialect) none agent =
    ⟨agent.name, expectedFields dialect, .portable agent⟩ := by
  have hnone : ((expectedFields dialect).any fun field => !(expectedFields dialect).contains field) =
      false := by
    cases dialect <;> decide
  rw [classify, hnone]
  rfl

theorem parseMarkdown_rendered (hlib : lib.Lawful) (hdialect : dialect ≠ .codexCurrent)
    (hlength : agent.instructions.text.bytes.length ≤ limits.maxInstructionsBytes)
    {readName : List (Bytes × ObservedFrontmatterValue) →
      Except AgentError (AgentName × Option AgentBlockReason)}
    (hname : readName (renderedFields dialect agent) = .ok (agent.name, none)) :
    parseMarkdown lib dialect (markdownText dialect agent) limits readName =
      .ok ⟨agent.name, expectedFields dialect, .portable agent⟩ := by
  obtain ⟨key, hlines⟩ := @parse_renderedLines agent dialect
  have hbound := @renderedLines_length agent dialect
  have hparsed : parseOptionalObservedMarkdown (markdownText dialect agent) frontmatterLimits =
      .ok ⟨renderedFields dialect agent, agent.instructions.text.bytes⟩ := by
    refine parseOptionalObservedMarkdown_lines renderedLines_fields ?_ hlines
    change _ ≤ 32768
    omega
  have hinstructions : parseBody agent.instructions.text.bytes limits.maxInstructionsBytes =
      .ok agent.instructions :=
    (dif_pos agent.instructions.text.utf8).trans (AgentInstructions.parse_text hlength)
  have hkeys : (renderedFields dialect agent).map Prod.fst = expectedFields dialect := by
    cases dialect with
    | claudeCurrent => rfl
    | openCodeCurrent => rfl
    | codexCurrent => exact absurd rfl hdialect
  rw [parseMarkdown, hparsed]
  change (requiredString lib (renderedFields dialect agent) (ascii "description") >>= _) = _
  rw [requiredString_description hlib hdialect]
  change (AgentDescription.parse agent.description.text >>= _) = _
  rw [AgentDescription.parse_text]
  refine Except.bind_eq_ok_iff.mpr ⟨agent.description, rfl, ?_⟩
  dsimp only
  rw [hinstructions, hname, hkeys]
  exact congrArg Except.ok classify_expected

theorem parseCodex_written {table : TomlTable} (hread : lib.readToml text = some table)
    (hkeys : ∀ key ∈ table.keys, key ∈ expectedFields .codexCurrent)
    (hname : table.string (ascii "name") = some agent.name.text)
    (hdescription : table.string (ascii "description") = some agent.description.text)
    (hinstructions : table.string (ascii "developer_instructions") = some agent.instructions.text)
    (hlength : agent.instructions.text.bytes.length ≤ limits.maxInstructionsBytes) :
    parseCodex lib (documentName .codexCurrent agent) text limits =
      .ok ⟨agent.name, table.keys, .portable agent⟩ := by
  have hstem : directStem (documentName .codexCurrent agent) (ascii ".toml") =
      .ok agent.name.bytes := directStem_documentName
  have hfield {key : Bytes} {value : Utf8Text} (h : table.string key = some value) :
      requiredTomlString table key = .ok value := by
    rw [requiredTomlString, h]
    rfl
  have hnone : (table.keys.any fun field => !(expectedFields .codexCurrent).contains field) =
      false := by
    refine List.any_eq_false.mpr fun key hmem => ?_
    rw [Bool.not_eq_true, Bool.not_eq_false', List.contains_iff_mem]
    exact hkeys key hmem
  have hclassify : classify .codexCurrent table.keys none agent =
      ⟨agent.name, table.keys, .portable agent⟩ := by
    rw [classify, hnone]
    rfl
  rw [parseCodex, hstem]
  refine Except.bind_eq_ok_iff.mpr ⟨_, rfl, ?_⟩
  rw [hread]
  refine Except.bind_eq_ok_iff.mpr ⟨_, hfield hname, Except.bind_eq_ok_iff.mpr
    ⟨_, AgentName.parse_bytes, Except.bind_eq_ok_iff.mpr ⟨_, hfield hdescription,
      Except.bind_eq_ok_iff.mpr ⟨_, AgentDescription.parse_text, Except.bind_eq_ok_iff.mpr
        ⟨_, hfield hinstructions, Except.bind_eq_ok_iff.mpr
          ⟨_, AgentInstructions.parse_text hlength, congrArg Except.ok hclassify⟩⟩⟩⟩⟩⟩

theorem parseNativeAgent_eq_ok {document : Bytes} {observed : ObservedAgent} :
    parseNativeAgent lib dialect document text limits = .ok observed ↔
      text.length ≤ limits.maxDocumentBytes ∧ Utf8.valid text = true ∧ 0 ∉ text ∧
        validateDocumentName dialect document = .ok () ∧
        ∃ parsed, parseDialect lib dialect document text limits = .ok parsed ∧
          observed = ⟨dialect, document, parsed.name, text, hashNative lib.blake3 dialect document text,
            parsed.nativeFields, parsed.portability⟩ := by
  unfold parseNativeAgent
  split
  · rename_i hlarge
    exact iff_of_false nofun fun h => Nat.not_le.mpr hlarge h.1
  · rename_i hsmall
    rw [and_iff_right (Nat.not_lt.mp hsmall)]
    split
    · rename_i hinvalid
      exact iff_of_false nofun fun h => Bool.false_ne_true (hinvalid.symm.trans h.1)
    · rename_i hvalid
      rw [and_iff_right (Bool.not_eq_false _ ▸ hvalid)]
      split
      · rename_i hnul
        exact iff_of_false nofun fun h => h.1 (List.contains_iff_mem.mp hnul)
      · rename_i hnul
        rw [and_iff_right fun hmem => hnul (List.contains_iff_mem.mpr hmem), Except.bind_eq_ok_iff]
        constructor
        · rintro ⟨⟨⟩, hname, h⟩
          obtain ⟨parsed, hparsed, h⟩ := Except.bind_eq_ok_iff.mp h
          exact ⟨hname, parsed, hparsed, (Except.ok.inj h).symm⟩
        · rintro ⟨hname, parsed, hparsed, rfl⟩
          exact ⟨(), hname, Except.bind_eq_ok_iff.mpr ⟨parsed, hparsed, rfl⟩⟩

end Parsing

section Rendering

variable (lib agent dialect text) in
/-- A text that a dialect reads as the agent, with the fields it expects and no others. -/
def ReadsAs : Prop :=
  ∃ observed, parseNativeAgent lib dialect (documentName dialect agent) text .default = .ok observed ∧
    observed.portability = .portable agent ∧
      ∀ field ∈ observed.nativeFields, field ∈ expectedFields dialect

variable (lib agent) in
/-- The TOML document of an agent may be read again. -/
def CodexFits : Prop :=
  ∀ text, renderCodex lib agent = .ok text → text.length ≤ AgentLimits.default.maxDocumentBytes

theorem renderNativeAgent_eq_ok : renderNativeAgent lib dialect agent = .ok text ↔
    renderDialect lib dialect agent = .ok text ∧ ∃ observed,
      parseNativeAgent lib dialect (documentName dialect agent) text .default = .ok observed ∧
        observed.portability = .portable agent := by
  unfold renderNativeAgent
  rw [Except.bind_eq_ok_iff]
  constructor
  · rintro ⟨rendered, hrendered, h⟩
    obtain ⟨observed, hobserved, h⟩ := Except.bind_eq_ok_iff.mp h
    split at h
    · exact (nomatch h)
    · rename_i hsame
      cases h
      exact ⟨hrendered, observed, hobserved, not_not.mp hsame⟩
  · rintro ⟨hrendered, observed, hobserved, hsame⟩
    refine ⟨text, hrendered, Except.bind_eq_ok_iff.mpr ⟨observed, hobserved, ?_⟩⟩
    rw [if_neg (not_not.mpr hsame)]
    rfl

/-- A valid text without a zero byte. -/
structure CleanText (text : Bytes) : Prop where
  utf8 : Utf8.valid text = true
  noNul : 0 ∉ text

theorem CleanText.append {text other : Bytes} (h : CleanText text) (h' : CleanText other) :
    CleanText (text ++ other) where
  utf8 := by rw [Utf8.valid_append h.utf8, h'.utf8]
  noNul := List.not_mem_append h.noNul h'.noNul

theorem cleanText_flatMap {α : Type} {xs : List α} {f : α → Bytes} (h : ∀ x ∈ xs, CleanText (f x)) :
    CleanText (xs.flatMap f) := by
  induction xs with
  | nil => exact ⟨rfl, nofun⟩
  | cons x xs ih =>
    obtain ⟨hx, hxs⟩ := List.forall_mem_cons.mp h
    rw [List.flatMap_cons]
    exact hx.append (ih hxs)

theorem cleanText_json {value : Utf8Text} (h : ∀ b ∈ value.bytes, ¬ b < 0x20) :
    CleanText (jsonString value.bytes) := by
  have hescape : CleanText (value.bytes.flatMap Mcp.escapeByte) := by
    refine ⟨Utf8.valid_iff.mpr (Prompts.run_escape h Utf8.multibyte_nil
      (Utf8.valid_iff.mp value.utf8)), fun hmem => ?_⟩
    exact Prompts.mem_escape h hmem (by decide)
  have hquote : CleanText [0x22] := ⟨by decide, by decide⟩
  exact hquote.append (hescape.append hquote)

theorem renderedLines_clean : ∀ line ∈ renderedLines dialect agent, CleanText line := by
  have hname : CleanText (nameLine agent) := by
    have hkey : CleanText (ascii "name" ++ ascii ": ") := ⟨by decide, by decide⟩
    exact hkey.append (@cleanText_json agent.name.text agent.name.printable)
  have hdescription : CleanText (descriptionLine agent) := by
    have hkey : CleanText (ascii "description" ++ ascii ": ") := ⟨by decide, by decide⟩
    exact hkey.append (cleanText_json agent.description.printable)
  have hmode : CleanText modeLine := ⟨by decide, by decide⟩
  cases dialect with
  | claudeCurrent =>
    exact List.forall_mem_cons.mpr ⟨hname, List.forall_mem_cons.mpr ⟨hdescription, nofun⟩⟩
  | openCodeCurrent =>
    exact List.forall_mem_cons.mpr ⟨hdescription, List.forall_mem_cons.mpr ⟨hmode, nofun⟩⟩
  | codexCurrent => exact nofun

theorem markdownText_clean : CleanText (markdownText dialect agent) := by
  have hdelimiter : CleanText (ascii "---\n") := ⟨by decide, by decide⟩
  have hnewline : CleanText [newline] := ⟨by decide, by decide⟩
  have hlines : CleanText (fieldText (renderedLines dialect agent)) :=
    cleanText_flatMap fun line hline => (renderedLines_clean line hline).append hnewline
  exact ((hdelimiter.append hlines).append hdelimiter).append
    ⟨agent.instructions.text.utf8, agent.instructions.noNul⟩

theorem markdownText_length
    (h : agent.instructions.text.bytes.length ≤ defaultMaxAgentInstructionsBytes) :
    (markdownText dialect agent).length ≤ AgentLimits.default.maxDocumentBytes := by
  have hbound := @renderedLines_length agent dialect
  rw [defaultMaxAgentInstructionsBytes] at h
  rw [markdownText, List.length_append, List.length_append, List.length_append]
  change 4 + _ + 4 + _ ≤ 524288
  omega

/-- Markdown documents of agents within the limit are read back. -/
theorem readsAs_markdown (hlib : lib.Lawful) (hdialect : dialect ≠ .codexCurrent)
    (h : agent.instructions.text.bytes.length ≤ defaultMaxAgentInstructionsBytes) :
    ReadsAs lib agent dialect (markdownText dialect agent) := by
  have hparsed : parseDialect lib dialect (documentName dialect agent) (markdownText dialect agent)
      .default = .ok ⟨agent.name, expectedFields dialect, .portable agent⟩ := by
    cases dialect with
    | claudeCurrent => exact parseMarkdown_rendered hlib hdialect h (claudeName_rendered hlib)
    | openCodeCurrent => exact parseMarkdown_rendered hlib hdialect h (openCodeName_rendered hlib)
    | codexCurrent => exact absurd rfl hdialect
  exact ⟨_, parseNativeAgent_eq_ok.mpr ⟨markdownText_length h, markdownText_clean.utf8,
    markdownText_clean.noNul, validateDocumentName_documentName, _, hparsed, rfl⟩, rfl,
    fun _ hfield => hfield⟩

theorem renderDialect_markdown (hdialect : dialect ≠ .codexCurrent) :
    renderDialect lib dialect agent = .ok (markdownText dialect agent) := by
  cases dialect with
  | claudeCurrent => exact congrArg Except.ok renderClaude_eq
  | openCodeCurrent => exact congrArg Except.ok renderOpenCode_eq
  | codexCurrent => exact absurd rfl hdialect

theorem renderCodex_clean (hlib : lib.Lawful) : ∃ text table, renderCodex lib agent = .ok text ∧
    CleanText text ∧ lib.readToml text = some table ∧
    (∀ key ∈ table.keys, key ∈ expectedFields .codexCurrent) ∧
    table.string (ascii "name") = some agent.name.text ∧
    table.string (ascii "description") = some agent.description.text ∧
    table.string (ascii "developer_instructions") = some agent.instructions.text := by
  obtain ⟨text, table, hwrite, hutf8, hnul, hread⟩ :=
    hlib.toml agent.name.text agent.description.text agent.instructions.text
  refine ⟨text, table, ?_, ⟨hutf8, hnul agent.name.noNul agent.description.noNul
    agent.instructions.noNul⟩, hread⟩
  have hwrite' : lib.writeToml agent.name.bytes agent.description.text.bytes
      agent.instructions.text.bytes = some text := hwrite
  rw [renderCodex, hwrite']
  rfl

/-- The TOML document of an agent is read back when it fits. -/
theorem readsAs_codex (hlib : lib.Lawful)
    (h : agent.instructions.text.bytes.length ≤ defaultMaxAgentInstructionsBytes)
    (hrender : renderCodex lib agent = .ok text)
    (hfits : text.length ≤ AgentLimits.default.maxDocumentBytes) :
    ReadsAs lib agent .codexCurrent text := by
  obtain ⟨text', table, hrender', hclean, hread, hkeys, hname, hdescription, hinstructions⟩ :=
    @renderCodex_clean lib agent hlib
  obtain rfl : text = text' := Except.ok.inj (hrender.symm.trans hrender')
  have hparsed : parseDialect lib .codexCurrent (documentName .codexCurrent agent) text .default =
      .ok ⟨agent.name, table.keys, .portable agent⟩ :=
    parseCodex_written hread hkeys hname hdescription hinstructions h
  exact ⟨_, parseNativeAgent_eq_ok.mpr ⟨hfits, hclean.utf8, hclean.noNul,
    validateDocumentName_documentName, _, hparsed, rfl⟩, rfl, hkeys⟩

end Rendering

section Origins

variable (lib readJson agent) in
/-- An agent that comes from a native document or from storage. -/
def Accepted : Prop :=
  (∃ dialect document bytes observed,
    parseNativeAgent lib dialect document bytes .default = .ok observed ∧
      observed.portability = .portable agent) ∨
  ∃ input stored, StoredAgent.fromJson lib.blake3 readJson input defaultMaxAgentInstructionsBytes =
    .ok stored ∧ stored.agent = agent

theorem classify_portable {fields : List Bytes} {block : Option AgentBlockReason} {other : Agent}
    (h : (classify dialect fields block other).portability = .portable agent) : other = agent := by
  unfold classify at h
  dsimp only at h
  split at h
  · exact (nomatch h)
  · split at h
    · exact (nomatch h)
    · exact AgentPortability.portable.inj h

theorem parseDialect_length {document source : Bytes} {parsed : ParsedAgent}
    (h : parseDialect lib dialect document source limits = .ok parsed)
    (hportable : parsed.portability = .portable agent) :
    agent.instructions.text.bytes.length ≤ limits.maxInstructionsBytes := by
  have hmarkdown {readName : List (Bytes × ObservedFrontmatterValue) →
      Except AgentError (AgentName × Option AgentBlockReason)}
      (h : parseMarkdown lib dialect source limits readName = .ok parsed) :
      agent.instructions.text.bytes.length ≤ limits.maxInstructionsBytes := by
    obtain ⟨document, -, h⟩ := Except.bind_eq_ok_iff.mp h
    obtain ⟨value, -, h⟩ := Except.bind_eq_ok_iff.mp h
    obtain ⟨description, -, h⟩ := Except.bind_eq_ok_iff.mp h
    obtain ⟨instructions, hinstructions, h⟩ := Except.bind_eq_ok_iff.mp h
    obtain ⟨⟨name, block⟩, -, h⟩ := Except.bind_eq_ok_iff.mp h
    cases h
    cases classify_portable hportable
    unfold parseBody at hinstructions
    split at hinstructions
    · exact AgentInstructions.parse_length hinstructions
    · cases hinstructions
  cases dialect with
  | claudeCurrent => exact hmarkdown h
  | openCodeCurrent => exact hmarkdown h
  | codexCurrent =>
    obtain ⟨stem, -, h⟩ := Except.bind_eq_ok_iff.mp h
    split at h
    · cases h
    · obtain ⟨nameValue, -, h⟩ := Except.bind_eq_ok_iff.mp h
      obtain ⟨name, -, h⟩ := Except.bind_eq_ok_iff.mp h
      obtain ⟨descriptionValue, -, h⟩ := Except.bind_eq_ok_iff.mp h
      obtain ⟨description, -, h⟩ := Except.bind_eq_ok_iff.mp h
      obtain ⟨instructionsValue, -, h⟩ := Except.bind_eq_ok_iff.mp h
      obtain ⟨instructions, hinstructions, h⟩ := Except.bind_eq_ok_iff.mp h
      cases h
      cases classify_portable hportable
      exact AgentInstructions.parse_length hinstructions

theorem Accepted.length (h : Accepted lib agent readJson) :
    agent.instructions.text.bytes.length ≤ defaultMaxAgentInstructionsBytes := by
  rcases h with ⟨dialect, document, bytes, observed, hparse, hportable⟩ | ⟨input, stored, hread, rfl⟩
  · obtain ⟨-, -, -, -, parsed, hparsed, rfl⟩ := parseNativeAgent_eq_ok.mp hparse
    exact parseDialect_length hparsed hportable
  · exact StoredAgent.fromJson_length hread

end Origins

end Kitrove.Agents
