import Kitrove.Prompts.Frontmatter

/-! Reading a native prompt command as a portable one, and rendering a portable one natively. -/

namespace Kitrove.Prompts

open Substitution
open Mcp (isAsciiAlphanumeric jsonString)

inductive NativePromptDialect where
  | claudeLegacy
  | piLatest
  | openCodeV2
  deriving DecidableEq

/-- Whether the harness supplies invocation arguments without an explicit placeholder. -/
def NativePromptDialect.appendsImplicitArguments : NativePromptDialect → Bool
  | openCodeV2 => true
  | _ => false

def NativePromptDialect.tag : NativePromptDialect → UInt8
  | claudeLegacy => 0
  | piLatest => 1
  | openCodeV2 => 2

structure PromptCommandLimits where
  maxDocumentBytes : Nat
  maxBodyBytes : Nat

def PromptCommandLimits.default : PromptCommandLimits := ⟨512 * 1024, defaultMaxPromptBodyBytes⟩

def frontmatterLimits : FlatFrontmatterLimits := ⟨16 * 1024, 64⟩

inductive PromptCommandBlockReason where
  | nestedDocument
  | executableInterpolation
  | fileInterpolation
  | unsupportedFrontmatter
  | unsupportedArguments
  | implicitArguments
  | invalidBody
  deriving DecidableEq

inductive PromptCommandPortability where
  | portable (command : PromptCommand)
  | blocked (reason : PromptCommandBlockReason)
  deriving DecidableEq

structure ObservedPromptCommand where
  dialect : NativePromptDialect
  sourceDocument : Bytes
  name : PromptCommandName
  exactBytes : Bytes
  exactHash : ContentHash
  frontmatterFields : List Bytes
  contentClass : ContentClass
  portability : PromptCommandPortability
  deriving DecidableEq

structure ParsedDocument where
  description : Option PromptDescription
  fields : List Bytes
  body : Bytes
  deriving DecidableEq

section Scans

def argumentsToken : Bytes := ascii "$ARGUMENTS"
def everyArgument : Bytes := ascii "$@"

def recognizesShellInterpolation (dialect : NativePromptDialect) (body : Bytes) : Bool :=
  match dialect with
  | .claudeLegacy | .openCodeV2 => contains (ascii "!`") body
  | .piLatest => false

def startsReference (text : Bytes) : Bool :=
  text.head?.any fun next => isAsciiAlphanumeric next || (ascii "./_-").contains next

def endsWord (previous : Option UInt8) : Bool :=
  previous.any fun b => isAsciiAlphanumeric b || (ascii "_-").contains b

/-- Whether a file is referred to in what follows a byte. -/
def fileInterpolationAfter (previous : Option UInt8) : Bytes → Bool
  | [] => false
  | b :: rest =>
    (b == 0x40 && !endsWord previous && startsReference rest) || fileInterpolationAfter (some b) rest

def recognizesFileInterpolation (body : Bytes) : Bool := fileInterpolationAfter none body

def containsUnsupportedDollarSyntax : Bytes → Bool
  | [] => false
  | b :: rest =>
    (b == 0x24 &&
      (rest.head?.any fun next => isAsciiAlphanumeric next || (ascii "_\x7b@").contains next) &&
      !allArgumentsPlaceholder.isPrefixOf (b :: rest)) || containsUnsupportedDollarSyntax rest

def substituteArguments (dialect : NativePromptDialect) (body : Bytes) : Bytes :=
  let normalized := replace argumentsToken allArgumentsPlaceholder body
  if dialect = .piLatest then replace everyArgument allArgumentsPlaceholder normalized
  else normalized

def normalizeArguments (dialect : NativePromptDialect) (body : Bytes) :
    Option (Bytes × PromptArgumentMode) :=
  if contains allArgumentsPlaceholder body then none
  else
    let normalized := substituteArguments dialect body
    if containsUnsupportedDollarSyntax normalized then none
    else if contains allArgumentsPlaceholder normalized then some (normalized, .allArguments)
    else some (normalized, .none)

end Scans

section Parsing

variable (readYaml : Bytes → Option Utf8Text) (blake3 : Bytes → Digest)

def hashNative (dialect : NativePromptDialect) (documentName bytes : Bytes) : ContentHash :=
  ContentHash.ofDigest <| blake3 <|
    ascii "kitrove-native-prompt-command-v1" ++ [0] ++ [dialect.tag] ++ textRecord documentName ++
      textRecord bytes

def documentNameInvalid (message : String) : PromptCommandError :=
  ⟨"prompt_command.document_name_invalid", message⟩

/-- The name a document gives its command, and whether the document is nested. -/
def commandNameFromDocument (documentName : Bytes) :
    Except PromptCommandError (PromptCommandName × Bool) :=
  if documentName.contains 0x5C || documentName.head? == some 0x2F ||
      (splitOn 0x2F documentName).any fun component =>
        component.isEmpty || component == ascii "." || component == ascii ".." then
    throw (documentNameInvalid "prompt command must use a validated relative Markdown document path")
  else
    match stripSuffix (ascii ".md") ((splitOn 0x2F documentName).getLast?.getD []) with
    | none =>
      throw (documentNameInvalid "prompt command document must use the lowercase .md extension")
    | some name =>
      (PromptCommandName.parse name).map fun name => (name, (splitOn 0x2F documentName).length > 1)

def mapFrontmatterError : FlatFrontmatterError → PromptCommandError
  | .byteLimit | .fieldLimit =>
    ⟨"prompt_command.frontmatter_limit", "prompt-command frontmatter exceeds a configured limit"⟩
  | .unclosed =>
    ⟨"prompt_command.frontmatter_unclosed",
      "prompt-command frontmatter is missing a closing delimiter"⟩
  | .nested =>
    ⟨"prompt_command.frontmatter_nested",
      "prompt-command frontmatter must contain only flat scalar fields"⟩
  | .invalid =>
    ⟨"prompt_command.frontmatter_invalid",
      "prompt-command frontmatter must contain simple named scalar fields"⟩
  | .duplicateKey =>
    ⟨"prompt_command.frontmatter_duplicate_key",
      "prompt-command frontmatter contains a duplicate field"⟩

def parseStringScalar (scalar : Bytes) (code : String) : Except PromptCommandError Utf8Text :=
  match readYaml scalar with
  | some value => pure value
  | none => throw ⟨code, "prompt-command frontmatter field must be a YAML string scalar"⟩

def checkArgumentHint (value : Bytes) : Except PromptCommandError Unit :=
  if untrimmed value || value.isEmpty || charCount value > 1024 || breaksLine value then
    throw ⟨"prompt_command.argument_hint_invalid",
      "prompt-command argument hint must be bounded single-line text"⟩
  else pure ()

def readField (description : Option PromptDescription) (field : Bytes × Bytes) :
    Except PromptCommandError (Option PromptDescription) :=
  if field.1 = ascii "description" then do
    let value ← parseStringScalar readYaml field.2 "prompt_command.description_invalid"
    let parsed ← PromptDescription.parse value
    pure (some parsed)
  else if field.1 = ascii "argument-hint" then do
    let value ← parseStringScalar readYaml field.2 "prompt_command.argument_hint_invalid"
    checkArgumentHint value.bytes
    pure description
  else pure description

def parseDocument (source : Bytes) : Except PromptCommandError ParsedDocument := do
  let parsed ← (parseOptionalFlatMarkdown source frontmatterLimits).mapError mapFrontmatterError
  let description ← parsed.fields.foldlM (readField readYaml) none
  pure ⟨description, parsed.fields.map Prod.fst, parsed.body⟩

def hasUnsupportedFields (dialect : NativePromptDialect) (fields : List Bytes) : Bool :=
  fields.any fun field =>
    match dialect with
    | .claudeLegacy | .piLatest =>
      !(field == ascii "description" || field == ascii "argument-hint")
    | .openCodeV2 => field != ascii "description"

def portableCommand (name : PromptCommandName) (description : Option PromptDescription)
    (maxBodyBytes : Nat) (body : Bytes) (mode : PromptArgumentMode) : PromptCommandPortability :=
  match PromptBody.parse body maxBodyBytes with
  | .error _ => .blocked .invalidBody
  | .ok body =>
    match PromptCommand.tryNew name description body mode with
    | .error _ => .blocked .invalidBody
    | .ok command => .portable command

def projectPortable (dialect : NativePromptDialect) (name : PromptCommandName)
    (parsed : ParsedDocument) (maxBodyBytes : Nat) (execution : Bool) : PromptCommandPortability :=
  if execution then .blocked .executableInterpolation
  else if dialect = .claudeLegacy ∧ recognizesFileInterpolation parsed.body then
    .blocked .fileInterpolation
  else if hasUnsupportedFields dialect parsed.fields then .blocked .unsupportedFrontmatter
  else
    match normalizeArguments dialect parsed.body with
    | none => .blocked .unsupportedArguments
    | some (body, mode) =>
      if dialect.appendsImplicitArguments ∧ mode = .none then .blocked .implicitArguments
      else portableCommand name parsed.description maxBodyBytes body mode

/-- Parses an exact Markdown command without evaluating native syntax. -/
def parseNativePromptCommand (dialect : NativePromptDialect) (documentName bytes : Bytes)
    (limits : PromptCommandLimits) : Except PromptCommandError ObservedPromptCommand :=
  if bytes.length > limits.maxDocumentBytes then
    throw ⟨"prompt_command.document_limit",
      "native prompt command exceeds the configured document byte limit"⟩
  else if Utf8.valid bytes = false then
    throw ⟨"prompt_command.document_utf8", "native prompt command must contain valid UTF-8"⟩
  else if bytes.contains 0 then
    throw ⟨"prompt_command.document_nul", "native prompt command must not contain NUL bytes"⟩
  else do
    let named ← commandNameFromDocument documentName
    let parsed ← parseDocument readYaml bytes
    let execution := recognizesShellInterpolation dialect parsed.body
    pure
      { dialect
        sourceDocument := documentName
        name := named.1
        exactBytes := bytes
        exactHash := hashNative blake3 dialect documentName bytes
        frontmatterFields := parsed.fields
        contentClass := if execution then .executable else .agentActive
        portability :=
          if named.2 then .blocked .nestedDocument
          else projectPortable dialect named.1 parsed limits.maxBodyBytes execution }

end Parsing

section Rendering

variable (readYaml : Bytes → Option Utf8Text) (blake3 : Bytes → Digest)

def renderFrontmatter : Option PromptDescription → Bytes
  | none => []
  | some description =>
    ascii "---\n" ++ describedLine (jsonString description.text.bytes) ++ ascii "\n---\n"

def renderBody (command : PromptCommand) : Bytes :=
  match command.argumentMode with
  | .none => command.body.text
  | .allArguments => replace allArgumentsPlaceholder argumentsToken command.body.text

def documentName (name : PromptCommandName) : Bytes := name.bytes ++ ascii ".md"

/-- Renders one portable prompt command to inert native Markdown and verifies the round trip. -/
def renderNativePromptCommand (dialect : NativePromptDialect) (command : PromptCommand) :
    Except PromptCommandError Bytes :=
  if dialect.appendsImplicitArguments ∧ command.argumentMode = .none then
    throw ⟨"prompt_command.render_arguments_unsupported",
      "the target appends arguments implicitly and cannot preserve no-argument semantics"⟩
  else do
    let rendered := renderFrontmatter command.description ++ renderBody command
    let reparsed ← parseNativePromptCommand readYaml blake3 dialect (documentName command.name)
      rendered .default
    if reparsed.portability = .portable command then pure rendered
    else
      throw ⟨"prompt_command.render_round_trip_failed",
        "the rendered prompt command does not preserve portable semantics"⟩

end Rendering

end Kitrove.Prompts
