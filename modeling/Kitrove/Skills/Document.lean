import Kitrove.Skills.Capture
import Kitrove.Skills.Yaml

/-! Skill documents: the fields of their frontmatter, which every skill has or its harness knows, and
the text behind it. -/

namespace Kitrove.Skills

open Std Lines
open Prompts (charCount delimiter openingBytes stripReturn)

def maxSkillDocumentBytes : Nat := 4 * 1024 * 1024

structure ObservedSkillDocument where
  frontmatter : OrdMap Bytes BoundedYamlValue
  declaredName : Option Bytes
  description : Option Bytes
  license : Option Bytes
  compatibility : Option Bytes
  metadata : Option (OrdMap Bytes Bytes)
  allowedTools : Option Bytes
  body : Bytes
  nativeFields : OrdSet Bytes

structure SkillManifest where
  name : AssetId
  description : Bytes
  license : Option Bytes
  compatibility : Option Bytes
  metadata : OrdMap Bytes Bytes
  allowedTools : Option Bytes

structure ParsedSkillDocument where
  manifest : SkillManifest
  body : Bytes
  nativeFields : OrdSet Bytes

section Splitting

/-- The lines up to the closing delimiter, and what is behind it. -/
def closeDocument (frontmatter : Bytes) : List Bytes → Option (Bytes × Bytes)
  | [] => none
  | line :: lines =>
    if stripReturn (stripNewline line) = delimiter then some (frontmatter, lines.flatten)
    else closeDocument (frontmatter ++ line) lines

def splitFrontmatter (path source : Bytes) : Except SkillError (Bytes × Bytes) :=
  match openingBytes source with
  | none =>
    throw ⟨"skill.frontmatter_missing", path,
      "skill document must begin with a frontmatter delimiter"⟩
  | some opening =>
    match closeDocument [] (splitInclusive newline (source.drop opening)) with
    | some parts => pure parts
    | none =>
      throw ⟨"skill.frontmatter_missing", path,
        "skill document is missing a closing frontmatter delimiter"⟩

def startsFrontmatterDelimiter (bytes : Bytes) : Bool := (openingBytes bytes).isSome

end Splitting

section Frontmatter

def frontmatterError (path : Bytes) : Option FrontmatterFailure → SkillError
  | some .duplicateTopLevelKey =>
    ⟨"skill.frontmatter_duplicate_key", path, "frontmatter contains duplicate top-level keys"⟩
  | some .duplicateMetadataKey =>
    ⟨"skill.metadata_duplicate_key", path, "metadata contains duplicate keys"⟩
  | some .duplicateMappingKey =>
    ⟨"skill.frontmatter_duplicate_key", path, "frontmatter contains duplicate mapping keys"⟩
  | some .invalidMetadata =>
    ⟨"skill.metadata_invalid", path, "metadata must be a mapping of string keys to string values"⟩
  | some .depthLimit =>
    ⟨"skill.frontmatter_depth_limit", path,
      s!"frontmatter exceeds the {maxYamlDepth} level nesting limit"⟩
  | some .nodeLimit =>
    ⟨"skill.frontmatter_node_limit", path, s!"frontmatter exceeds the {maxYamlNodes} node limit"⟩
  | some .aliasLimit =>
    ⟨"skill.frontmatter_alias_limit", path,
      s!"frontmatter aliases exceed the {maxYamlAliasExpandedNodes} expanded-node limit"⟩
  | some .nonStringTopLevelKey | none =>
    ⟨"skill.frontmatter_invalid", path, "frontmatter must be valid YAML with string top-level keys"⟩

def standardFields : List Bytes :=
  [ascii "name", ascii "description", ascii "license", ascii "compatibility", ascii "metadata",
    ascii "allowed-tools"]

def isStandardField (key : Bytes) : Bool := standardFields.contains key

def stringField (frontmatter : OrdMap Bytes BoundedYamlValue) (key : Bytes) : Option Bytes :=
  match frontmatter[key]? with
  | some (.string value) => some value
  | _ => none

def textEntry : Bytes × BoundedYamlValue → Option (Bytes × Bytes)
  | (key, .string value) => some (key, value)
  | _ => none

def stringMappingField (frontmatter : OrdMap Bytes BoundedYamlValue) (key : Bytes) :
    Option (OrdMap Bytes Bytes) :=
  match frontmatter[key]? with
  | some (.mapping entries) => (entries.mapM textEntry).map OrdMap.mapOf
  | _ => none

/-- The fields of the frontmatter, and those among them that are native. -/
structure FrontmatterFields where
  frontmatter : OrdMap Bytes BoundedYamlValue
  nativeFields : OrdSet Bytes

def FrontmatterFields.insert (fields : FrontmatterFields) (key : Bytes) (value : BoundedYamlValue) :
    FrontmatterFields where
  frontmatter := fields.frontmatter.insert key value
  nativeFields := if isStandardField key then fields.nativeFields else fields.nativeFields.insert key

def topLevelFailure (failure : Option FrontmatterFailure) : Option FrontmatterFailure :=
  some (failure.getD .nonStringTopLevelKey)

/-- `FrontmatterVisitor::visit_map`: the keys met before are those of the fields. -/
def readFields (aliasesPresent : Bool) : List (Option Bytes × YamlNode) → FrontmatterFields → Nat →
    Claimed (FrontmatterFields × Nat)
  | [], fields, nodes => pure (fields, nodes)
  | (key, node) :: entries, fields, nodes => do
    let (key, nodes) ← (readKey aliasesPresent 1 key nodes).mapError topLevelFailure
    if fields.frontmatter.contains key then throw (some .duplicateTopLevelKey)
    else do
      let duplicateFailure :=
        if key = ascii "metadata" then FrontmatterFailure.duplicateMetadataKey else .duplicateMappingKey
      let (value, nodes) ← readValue aliasesPresent 1 duplicateFailure node nodes
      readFields aliasesPresent entries (fields.insert key value) nodes

def readFrontmatter (aliasesPresent : Bool) (node : YamlNode) : Claimed FrontmatterFields := do
  let nodes ← claim aliasesPresent 0 0
  match node with
  | .mapping entries => do
    let (fields, _) ← readFields aliasesPresent entries ⟨∅, ∅⟩ nodes
    pure fields
  | _ => throw none

/-- The fields and what they say, with the text behind them. -/
def FrontmatterFields.observed (fields : FrontmatterFields) (body : Bytes) : ObservedSkillDocument where
  frontmatter := fields.frontmatter
  declaredName := stringField fields.frontmatter (ascii "name")
  description := stringField fields.frontmatter (ascii "description")
  license := stringField fields.frontmatter (ascii "license")
  compatibility := stringField fields.frontmatter (ascii "compatibility")
  metadata := stringMappingField fields.frontmatter (ascii "metadata")
  allowedTools := stringField fields.frontmatter (ascii "allowed-tools")
  body := body
  nativeFields := fields.nativeFields

variable (readYaml : Bytes → YamlNode)

def parseFrontmatter (path source body : Bytes) : Except SkillError ObservedSkillDocument :=
  ((readFrontmatter (containsYamlAliasReference source) (readYaml source)).mapError
    (frontmatterError path)).map fun fields => fields.observed body

def parseObservedSkillDocument (path bytes : Bytes) : Except SkillError ObservedSkillDocument :=
  if bytes.length > maxSkillDocumentBytes then
    throw ⟨"skill.document_size_limit", path,
      s!"skill document exceeds the {maxSkillDocumentBytes} byte limit"⟩
  else if Utf8.valid bytes = false then
    throw ⟨"skill.frontmatter_invalid", path, "skill document must be valid UTF-8"⟩
  else
    match splitFrontmatter path bytes with
    | .ok (frontmatter, body) => parseFrontmatter readYaml path frontmatter body
    | .error error =>
      if error.code = "skill.frontmatter_missing" && !startsFrontmatterDelimiter bytes then
        pure ⟨∅, none, none, none, none, none, none, bytes, ∅⟩
      else throw error

end Frontmatter

section Fields

def toAsciiLowercase (b : UInt8) : UInt8 := if 0x41 ≤ b && b ≤ 0x5A then b + 0x20 else b

def terminalCredentialConcept (component : Bytes) : Bool :=
  [ascii "token", ascii "tokens", ascii "secret", ascii "secrets", ascii "password",
    ascii "passwords", ascii "credential", ascii "credentials"].contains component

def credentialKeys : List Bytes :=
  [ascii "privatekey", ascii "privatekeys", ascii "apikey", ascii "apikeys"]

def qualifiesKey (qualifier key : Bytes) : Bool :=
  [ascii "api", ascii "private"].contains qualifier && [ascii "key", ascii "keys"].contains key

/-- A key is split into components; compound ones are refused for their last component or pair. -/
def secretMetadataKey (key : Bytes) : Bool :=
  let components := ((key.splitOnP fun b => asciiBlank b || b == 0x2D || b == 0x5F).filter
    fun component => !component.isEmpty).map fun component => component.map toAsciiLowercase
  let compact := components.flatten
  terminalCredentialConcept compact || credentialKeys.contains compact ||
    components.getLast?.any terminalCredentialConcept ||
    match components.reverse with
    | key :: qualifier :: _ => qualifiesKey qualifier key
    | _ => false

def isStandardSkillName (value : Bytes) : Bool :=
  !value.isEmpty && value.length ≤ 64 && value.head? != some 0x2D && value.getLast? != some 0x2D &&
    !Substitution.contains (ascii "--") value && value.all fun b => lowercaseOrDigit b || b == 0x2D

def isStandardSkillDescription (value : Bytes) : Bool :=
  1 ≤ charCount value && charCount value ≤ 1024

def nameInvalid (path : Bytes) : SkillError :=
  ⟨"skill.name_invalid", path, "name must be a lowercase hyphenated identifier no longer than 64 bytes"⟩

def descriptionInvalid (path : Bytes) : SkillError :=
  ⟨"skill.description_invalid", path, "description must contain between 1 and 1,024 characters"⟩

def ObservedSkillDocument.declares (document : ObservedSkillDocument) (key : Bytes) : Bool :=
  document.frontmatter.contains key

/-- The checks of the optional fields, which the parser of portable documents and the projection make
alike, and the metadata. -/
def checkOptionalFields (path : Bytes) (document : ObservedSkillDocument) :
    Except SkillError (OrdMap Bytes Bytes) :=
  if document.declares (ascii "license") && document.license.isNone then
    throw (frontmatterError path none)
  else if document.declares (ascii "compatibility") && document.compatibility.isNone then
    throw ⟨"skill.compatibility_invalid", path, "optional field must be a string"⟩
  else if document.compatibility.any fun value => value.isEmpty || charCount value > 500 then
    throw ⟨"skill.compatibility_invalid", path,
      "compatibility must contain between 1 and 500 characters when present"⟩
  else if document.declares (ascii "metadata") && document.metadata.isNone then
    throw (frontmatterError path (some .invalidMetadata))
  else if (document.metadata.getD ∅).keys.any secretMetadataKey then
    throw ⟨"skill.credential_metadata", path,
      "secret-like metadata keys are not eligible for portable projection"⟩
  else if document.declares (ascii "allowed-tools") && document.allowedTools.isNone then
    throw (frontmatterError path none)
  else pure (document.metadata.getD ∅)

/-- The manifest of a document under its checked name and description. -/
def manifestOf (name : AssetId) (description : Bytes) (document : ObservedSkillDocument)
    (metadata : OrdMap Bytes Bytes) : SkillManifest where
  name := name
  description := description
  license := document.license
  compatibility := document.compatibility
  metadata := metadata
  allowedTools := document.allowedTools

def declaredSkillName (path : Bytes) (document : ObservedSkillDocument) : Except SkillError AssetId :=
  match document.declaredName with
  | none => throw ⟨"skill.name_invalid", path, "required field must be a string"⟩
  | some name =>
    if isStandardSkillName name = false then throw (nameInvalid path)
    else
      match Name.parse .asset name with
      | none => throw ⟨"skill.name_invalid", path, "name must be a valid asset identifier"⟩
      | some name => pure name

def declaredDescription (path : Bytes) (document : ObservedSkillDocument) : Except SkillError Bytes :=
  match document.description with
  | none => throw ⟨"skill.description_invalid", path, "required field must be a string"⟩
  | some description =>
    if isStandardSkillDescription description = false then throw (descriptionInvalid path)
    else pure description

variable (readYaml : Bytes → YamlNode)

def parseSkillDocument (path bytes : Bytes) : Except SkillError ParsedSkillDocument := do
  let observed ← parseObservedSkillDocument readYaml path bytes
  if startsFrontmatterDelimiter bytes = false then
    throw ⟨"skill.frontmatter_missing", path,
      "skill document must begin with a frontmatter delimiter"⟩
  else do
    let name ← declaredSkillName path observed
    let description ← declaredDescription path observed
    let metadata ← checkOptionalFields path observed
    pure ⟨manifestOf name description observed metadata, observed.body, observed.nativeFields⟩

end Fields

end Kitrove.Skills
