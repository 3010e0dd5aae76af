import Kitrove.Agents.Agent
import Kitrove.Agents.Observed

/-! Native agent documents: how each dialect is parsed, and how a portable agent is rendered. -/

namespace Kitrove.Agents

open Prompts (Utf8Text FlatFrontmatterLimits FlatFrontmatterError)
open Mcp (jsonString)

inductive NativeAgentDialect where
  | claudeCurrent
  | codexCurrent
  | openCodeCurrent
  deriving DecidableEq

def NativeAgentDialect.tag : NativeAgentDialect → UInt8
  | .claudeCurrent => 0
  | .codexCurrent => 1
  | .openCodeCurrent => 2

structure AgentLimits where
  maxDocumentBytes : Nat
  maxInstructionsBytes : Nat

def AgentLimits.default : AgentLimits := ⟨512 * 1024, defaultMaxAgentInstructionsBytes⟩

def frontmatterLimits : FlatFrontmatterLimits := ⟨32 * 1024, 64⟩

inductive AgentBlockReason where
  | unsupportedConfiguration
  | unsupportedMode
  deriving DecidableEq

inductive AgentPortability where
  | portable (agent : Agent)
  | blocked (reason : AgentBlockReason)
  deriving DecidableEq

structure ObservedAgent where
  dialect : NativeAgentDialect
  sourceDocument : Bytes
  name : AgentName
  exactBytes : Bytes
  exactHash : ContentHash
  nativeFields : List Bytes
  portability : AgentPortability
  deriving DecidableEq

structure ParsedAgent where
  name : AgentName
  nativeFields : List Bytes
  portability : AgentPortability
  deriving DecidableEq

/-- What is asked of a TOML table: its keys, and the strings under them. -/
structure TomlTable where
  keys : List Bytes
  string : Bytes → Option Utf8Text

/-- The libraries for YAML scalars, for TOML documents of a name, a description and instructions, and
for hashes. -/
structure AgentLibraries where
  readYaml : Bytes → Option Utf8Text
  readToml : Bytes → Option TomlTable
  writeToml : Bytes → Bytes → Bytes → Option Bytes
  blake3 : Bytes → Digest

section Parsing

variable (lib : AgentLibraries)

def requiredField : AgentError :=
  ⟨"agent.required_field", "native agent is missing a required string field"⟩

def fieldInvalid : AgentError :=
  ⟨"agent.field_invalid", "native agent field must be a YAML string scalar"⟩

def documentNameInvalid (message : String) : AgentError :=
  ⟨"agent.document_name_invalid", message⟩

def parseStringScalar (value : Bytes) : Except AgentError Utf8Text :=
  match lib.readYaml value with
  | some text => pure text
  | none => throw fieldInvalid

def observedString : ObservedFrontmatterValue → Except AgentError Utf8Text
  | .scalar value => parseStringScalar lib value
  | .complex => throw fieldInvalid

def lookupField (fields : List (Bytes × ObservedFrontmatterValue)) (name : Bytes) :
    Option ObservedFrontmatterValue :=
  (fields.find? fun field => field.1 == name).map Prod.snd

def requiredString (fields : List (Bytes × ObservedFrontmatterValue)) (name : Bytes) :
    Except AgentError Utf8Text :=
  match lookupField fields name with
  | some value => observedString lib value
  | none => throw requiredField

def requiredTomlString (table : TomlTable) (name : Bytes) : Except AgentError Utf8Text :=
  match table.string name with
  | some text => pure text
  | none => throw requiredField

def directStem (documentName extension : Bytes) : Except AgentError Bytes :=
  match stripSuffix extension documentName with
  | some stem => pure stem
  | none => throw (documentNameInvalid "agent document has an invalid extension")

def validateDocumentName (dialect : NativeAgentDialect) (documentName : Bytes) :
    Except AgentError Unit :=
  if documentName.contains 0x5C || documentName.head? == some 0x2F ||
      (splitOn 0x2F documentName).any fun component =>
        component.isEmpty || component == ascii "." || component == ascii ".." then
    throw (documentNameInvalid "agent must use a validated relative document path")
  else
    let nested := documentName.contains 0x2F
    let supported := match dialect with
      | .claudeCurrent => (ascii ".md").isSuffixOf documentName
      | .openCodeCurrent => !nested && (ascii ".md").isSuffixOf documentName
      | .codexCurrent => !nested && (ascii ".toml").isSuffixOf documentName
    if supported then pure ()
    else
      throw (documentNameInvalid
        "agent document path or extension is unsupported by the selected dialect")

def mapFrontmatterError : FlatFrontmatterError → AgentError
  | .byteLimit | .fieldLimit =>
    ⟨"agent.frontmatter_limit", "agent frontmatter exceeds a configured limit"⟩
  | .unclosed =>
    ⟨"agent.frontmatter_unclosed", "agent frontmatter is missing a closing delimiter"⟩
  | .nested =>
    ⟨"agent.frontmatter_nested", "agent frontmatter must contain only flat scalar fields"⟩
  | .invalid =>
    ⟨"agent.frontmatter_invalid", "agent frontmatter must contain simple named scalar fields"⟩
  | .duplicateKey =>
    ⟨"agent.frontmatter_duplicate_key", "agent frontmatter contains a duplicate field"⟩

/-- The fields a dialect's portable agents have. -/
def expectedFields : NativeAgentDialect → List Bytes
  | .claudeCurrent => [ascii "description", ascii "name"]
  | .openCodeCurrent => [ascii "description", ascii "mode"]
  | .codexCurrent => [ascii "description", ascii "developer_instructions", ascii "name"]

/-- An agent with its fields, blocked for the reason given first or for a field not expected. -/
def classify (dialect : NativeAgentDialect) (fields : List Bytes) (block : Option AgentBlockReason)
    (agent : Agent) : ParsedAgent where
  name := agent.name
  nativeFields := fields
  portability :=
    match block with
    | some reason => .blocked reason
    | none =>
      if fields.any fun field => !(expectedFields dialect).contains field then
        .blocked .unsupportedConfiguration
      else .portable agent

def claudeName (fields : List (Bytes × ObservedFrontmatterValue)) :
    Except AgentError (AgentName × Option AgentBlockReason) := do
  let value ← requiredString lib fields (ascii "name")
  let name ← AgentName.parse value.bytes
  pure (name, none)

/-- The value of the mode, if it is a string. -/
def modeOf (fields : List (Bytes × ObservedFrontmatterValue)) : Option Bytes :=
  (lookupField fields (ascii "mode")).bind fun value =>
    ((observedString lib value).toOption).map Utf8Text.bytes

def openCodeName (documentName : Bytes) (fields : List (Bytes × ObservedFrontmatterValue)) :
    Except AgentError (AgentName × Option AgentBlockReason) := do
  let stem ← directStem documentName (ascii ".md")
  let name ← AgentName.parse stem
  pure (name, if modeOf lib fields = some (ascii "subagent") then none else some .unsupportedMode)

/-- Instructions from the text behind frontmatter, which is valid because the whole source is. -/
def parseBody (body : Bytes) (maxBytes : Nat) : Except AgentError AgentInstructions :=
  if h : Utf8.valid body = true then AgentInstructions.parse ⟨body, h⟩ maxBytes
  else throw ⟨"agent.document_utf8", "native agent must contain valid UTF-8"⟩

/-- `parse_markdown`. -/
def parseMarkdown (dialect : NativeAgentDialect) (source : Bytes) (limits : AgentLimits)
    (readName : List (Bytes × ObservedFrontmatterValue) →
      Except AgentError (AgentName × Option AgentBlockReason)) : Except AgentError ParsedAgent := do
  let parsed ← (parseOptionalObservedMarkdown source frontmatterLimits).mapError mapFrontmatterError
  let value ← requiredString lib parsed.fields (ascii "description")
  let description ← AgentDescription.parse value
  let instructions ← parseBody parsed.body limits.maxInstructionsBytes
  let (name, block) ← readName parsed.fields
  pure (classify dialect (parsed.fields.map Prod.fst) block ⟨name, description, instructions⟩)

def parseCodex (documentName source : Bytes) (limits : AgentLimits) :
    Except AgentError ParsedAgent := do
  let _ ← directStem documentName (ascii ".toml")
  match lib.readToml source with
  | none => throw ⟨"agent.toml_invalid", "Codex agent must be valid TOML with unique keys"⟩
  | some table => do
    let nameValue ← requiredTomlString table (ascii "name")
    let name ← AgentName.parse nameValue.bytes
    let descriptionValue ← requiredTomlString table (ascii "description")
    let description ← AgentDescription.parse descriptionValue
    let instructionsValue ← requiredTomlString table (ascii "developer_instructions")
    let instructions ← AgentInstructions.parse instructionsValue limits.maxInstructionsBytes
    pure (classify .codexCurrent table.keys none ⟨name, description, instructions⟩)

def parseDialect (dialect : NativeAgentDialect) (documentName source : Bytes) (limits : AgentLimits) :
    Except AgentError ParsedAgent :=
  match dialect with
  | .claudeCurrent => parseMarkdown lib dialect source limits (claudeName lib)
  | .openCodeCurrent => parseMarkdown lib dialect source limits (openCodeName lib documentName)
  | .codexCurrent => parseCodex lib documentName source limits

def hashNative (blake3 : Bytes → Digest) (dialect : NativeAgentDialect) (documentName bytes : Bytes) :
    ContentHash :=
  .ofDigest (blake3 (ascii "kitrove-native-agent-v1" ++ [0] ++ [dialect.tag] ++
    textRecord documentName ++ textRecord bytes))

/-- Parses one exact native definition without launching a harness or evaluating its content. -/
def parseNativeAgent (dialect : NativeAgentDialect) (documentName bytes : Bytes)
    (limits : AgentLimits) : Except AgentError ObservedAgent :=
  if bytes.length > limits.maxDocumentBytes then
    throw ⟨"agent.document_limit", "native agent exceeds the configured document byte limit"⟩
  else if Utf8.valid bytes = false then
    throw ⟨"agent.document_utf8", "native agent must contain valid UTF-8"⟩
  else if bytes.contains 0 then
    throw ⟨"agent.document_nul", "native agent must not contain NUL bytes"⟩
  else do
    validateDocumentName dialect documentName
    let parsed ← parseDialect lib dialect documentName bytes limits
    pure
      { dialect
        sourceDocument := documentName
        name := parsed.name
        exactBytes := bytes
        exactHash := hashNative lib.blake3 dialect documentName bytes
        nativeFields := parsed.nativeFields
        portability := parsed.portability }

end Parsing

section Rendering

variable (lib : AgentLibraries)

/-- `yaml_scalar`. -/
def yamlScalar (value : Bytes) : Bytes := jsonString value

def renderClaude (agent : Agent) : Bytes :=
  ascii "---\nname: " ++ yamlScalar agent.name.bytes ++ ascii "\ndescription: " ++
    yamlScalar agent.description.text.bytes ++ ascii "\n---\n" ++ agent.instructions.text.bytes

def renderOpenCode (agent : Agent) : Bytes :=
  ascii "---\ndescription: " ++ yamlScalar agent.description.text.bytes ++
    ascii "\nmode: subagent\n---\n" ++ agent.instructions.text.bytes

def renderCodex (agent : Agent) : Except AgentError Bytes :=
  match lib.writeToml agent.name.bytes agent.description.text.bytes agent.instructions.text.bytes with
  | some text => pure text
  | none => throw ⟨"agent.render_toml_invalid", "agent could not be encoded as Codex TOML"⟩

def renderDialect (dialect : NativeAgentDialect) (agent : Agent) : Except AgentError Bytes :=
  match dialect with
  | .claudeCurrent => pure (renderClaude agent)
  | .openCodeCurrent => pure (renderOpenCode agent)
  | .codexCurrent => renderCodex lib agent

def extensionOf : NativeAgentDialect → Bytes
  | .claudeCurrent | .openCodeCurrent => ascii ".md"
  | .codexCurrent => ascii ".toml"

/-- The name a rendered agent is written to. -/
def documentName (dialect : NativeAgentDialect) (agent : Agent) : Bytes :=
  agent.name.bytes ++ extensionOf dialect

/-- Renders one portable agent to inert native syntax and verifies semantic round-trip fidelity. -/
def renderNativeAgent (dialect : NativeAgentDialect) (agent : Agent) : Except AgentError Bytes := do
  let rendered ← renderDialect lib dialect agent
  let reparsed ← parseNativeAgent lib dialect (documentName dialect agent) rendered .default
  if reparsed.portability ≠ .portable agent then
    throw ⟨"agent.render_round_trip_failed", "rendered agent does not preserve portable semantics"⟩
  else pure rendered

end Rendering

end Kitrove.Agents
