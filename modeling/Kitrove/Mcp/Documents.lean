import Kitrove.Mcp.Native

/-! Codex documents, documents of every dialect, and an entry in a document of its own. -/

namespace Kitrove.Mcp

open Jsonc (quote backslash)

section Toml

mutual

/-- An item as the TOML library takes it apart: where it stands, what it prints and what it is. -/
inductive TomlItem where
  | item (span : Option (Nat × Nat)) (display : Bytes) (shape : TomlShape)

inductive TomlShape where
  | none
  | string (value : Bytes)
  | boolean (value : Bool)
  | scalar
  | array (elements : List TomlItem)
  | inlineTable (entries : List (Bytes × TomlItem))
  | table (entries : List (Bytes × TomlItem))
  | arrayOfTables (tables : List (List (Bytes × TomlItem)))

end

namespace TomlItem

def span : TomlItem → Option (Nat × Nat)
  | item span _ _ => span

def display : TomlItem → Bytes
  | item _ display _ => display

def shape : TomlItem → TomlShape
  | item _ _ shape => shape

def asTableLike (i : TomlItem) : Option (List (Bytes × TomlItem)) :=
  match i.shape with
  | .table entries | .inlineTable entries => some entries
  | _ => none

def asStr (i : TomlItem) : Option Bytes :=
  match i.shape with
  | .string value => some value
  | _ => none

def asBool (i : TomlItem) : Option Bool :=
  match i.shape with
  | .boolean value => some value
  | _ => none

end TomlItem

def tomlGet (entries : List (Bytes × TomlItem)) (name : Bytes) : Option TomlItem :=
  (entries.find? fun p => p.1 == name).map Prod.snd

/-- One more node at a depth. -/
def countNode (limits : McpParseLimits) (depth nodes : Nat) : Except McpError Nat := do
  refuseIf (nodes + 1 > limits.maxNodes || depth > limits.maxDepth)
    (documentError "mcp.node_limit")
  pure (nodes + 1)

mutual

def validateTomlValue (limits : McpParseLimits) (depth nodes : Nat) :
    TomlItem → Except McpError Nat
  | .item _ _ shape => do
    let nodes ← countNode limits depth nodes
    match shape with
    | .array elements => validateTomlValues limits (depth + 1) nodes elements
    | .inlineTable entries => validateTomlFields limits (depth + 1) nodes entries
    | _ => pure nodes

def validateTomlValues (limits : McpParseLimits) (depth nodes : Nat) :
    List TomlItem → Except McpError Nat
  | [] => pure nodes
  | value :: values => do
    let nodes ← validateTomlValue limits depth nodes value
    validateTomlValues limits depth nodes values

def validateTomlFields (limits : McpParseLimits) (depth nodes : Nat) :
    List (Bytes × TomlItem) → Except McpError Nat
  | [] => pure nodes
  | (_, value) :: entries => do
    let nodes ← validateTomlValue limits depth nodes value
    validateTomlFields limits depth nodes entries

end

mutual

/-- A value item counts as an item and, a level below, as a value. -/
def validateTomlTree (limits : McpParseLimits) (depth nodes : Nat) :
    TomlItem → Except McpError Nat
  | .item span display shape => do
    let nodes ← countNode limits depth nodes
    match shape with
    | .table entries => validateTomlEntries limits (depth + 1) nodes entries
    | .arrayOfTables tables => validateTomlTables limits (depth + 1) nodes tables
    | .none => pure nodes
    | shape => validateTomlValue limits (depth + 1) nodes (.item span display shape)

def validateTomlEntries (limits : McpParseLimits) (depth nodes : Nat) :
    List (Bytes × TomlItem) → Except McpError Nat
  | [] => pure nodes
  | (_, child) :: entries => do
    let nodes ← validateTomlTree limits depth nodes child
    validateTomlEntries limits depth nodes entries

def validateTomlTables (limits : McpParseLimits) (depth nodes : Nat) :
    List (List (Bytes × TomlItem)) → Except McpError Nat
  | [] => pure nodes
  | table :: tables => do
    let nodes ← validateTomlEntries limits depth nodes table
    validateTomlTables limits depth nodes tables

end

mutual

def tableStarts : TomlItem → List Nat
  | .item span _ shape =>
    match shape with
    | .table entries => (span.map Prod.fst).toList ++ entriesStarts entries
    | .arrayOfTables tables => (span.map Prod.fst).toList ++ tablesStarts tables
    | _ => []

def entriesStarts : List (Bytes × TomlItem) → List Nat
  | [] => []
  | (_, child) :: entries => tableStarts child ++ entriesStarts entries

def tablesStarts : List (List (Bytes × TomlItem)) → List Nat
  | [] => []
  | table :: tables => entriesStarts table ++ tablesStarts tables

end

mutual

/-- The spans of an item and of all that stands in it. -/
def itemSpans : TomlItem → List (Nat × Nat)
  | .item span _ shape =>
    span.toList ++
      match shape with
      | .table entries | .inlineTable entries => entriesSpans entries
      | .array elements => itemsSpans elements
      | .arrayOfTables tables => tablesSpans tables
      | _ => []

def itemsSpans : List TomlItem → List (Nat × Nat)
  | [] => []
  | i :: items => itemSpans i ++ itemsSpans items

def entriesSpans : List (Bytes × TomlItem) → List (Nat × Nat)
  | [] => []
  | (_, child) :: entries => itemSpans child ++ entriesSpans entries

def tablesSpans : List (List (Bytes × TomlItem)) → List (Nat × Nat)
  | [] => []
  | table :: tables => entriesSpans table ++ tablesSpans tables

end

/-- The least range around an item and all that stands in it. -/
def itemExactRange (i : TomlItem) : Option (Nat × Nat) :=
  i.span.map fun span => (itemSpans i).foldl (fun range s => (min range.1 s.1, max range.2 s.2)) span

/-- `is_char_boundary`. -/
def isCharBoundary (text : Bytes) (position : Nat) : Bool :=
  position == text.length || text[position]?.any fun b => b < 0x80 || 0xC0 ≤ b

/-- `input.get(start..stop)`. -/
def slice (input : Bytes) (start stop : Nat) : Option Bytes :=
  if start ≤ stop ∧ isCharBoundary input start = true ∧ isCharBoundary input stop = true then
    some ((input.take stop).drop start)
  else none

/-- What stands from an item to the next table, or what the item prints. -/
def codexExactEntry (input : Bytes) (starts : List Nat) (i : TomlItem) : Bytes :=
  match (itemExactRange i).bind fun range =>
      slice input range.1
        ((starts.filter fun start => start > range.2).min?.getD input.length) with
  | some exact => exact
  | none => i.display

end Toml

/-- The libraries that the native documents are read with. -/
structure Libraries where
  parseUrl : Bytes → Option Url
  parseToml : Bytes → Option TomlItem
  blake3 : Bytes → Digest

section Codex

variable (lib : Libraries)

def codexFields : List Bytes := [ascii "url", ascii "bearer_token_env_var", ascii "enabled"]

def codexFieldReasons (table : List (Bytes × TomlItem)) : Finset McpBlockReason :=
  if table.any fun p => !codexFields.contains p.1 then
    if (tomlGet table (ascii "command")).isSome then {.localStdio} else {.nativeFields}
  else ∅

def codexEnabledReasons (table : List (Bytes × TomlItem)) : Finset McpBlockReason :=
  match tomlGet table (ascii "enabled") with
  | none => ∅
  | some i =>
    match i.asBool with
    | some false => {.disabled}
    | some true => ∅
    | none => {.malformedEntry}

def codexBearer (table : List (Bytes × TomlItem)) :
    Option EnvironmentVariableName × Finset McpBlockReason :=
  match tomlGet table (ascii "bearer_token_env_var") with
  | none => (none, ∅)
  | some i =>
    match i.asStr.bind EnvironmentVariableName.parse with
    | some bearer => (some bearer, ∅)
    | none => (none, {.malformedEntry})

def parseCodexEntry (parseUrl : Bytes → Option Url) (nativeName : Bytes) (i : TomlItem) :
    McpPortability parseUrl :=
  match i.asTableLike with
  | none => .blocked {.malformedEntry}
  | some table =>
    let (bearer, bearerReasons) := codexBearer table
    let credential : Finset McpBlockReason :=
      if containsCredentialShapedText i.display then {.staticCredential} else ∅
    let reasons := codexFieldReasons table ∪ credential ∪ codexEnabledReasons table ∪ bearerReasons
    let endpoint := ((tomlGet table (ascii "url")).bind TomlItem.asStr).bind fun value =>
      (McpHttpsEndpoint.parse parseUrl value).toOption
    portabilityOf reasons (McpServerName.parse nativeName) endpoint bearer

def codexEntry (input : Bytes) (starts : List Nat) (limits : McpParseLimits)
    (entry : Bytes × TomlItem) : Except McpError (ObservedMcpServer lib.parseUrl) := do
  let exact := codexExactEntry input starts entry.2
  refuseIf (exact.length > limits.maxEntryBytes) (documentError "mcp.entry_limit")
  pure (observedEntry lib.blake3 entry.1 exact .codexCurrent
    (parseCodexEntry lib.parseUrl entry.1 entry.2))

def parseCodexEntries (input : Bytes) (limits : McpParseLimits) :
    Except McpError (List (ObservedMcpServer lib.parseUrl)) :=
  match lib.parseToml input with
  | none => .error (documentError "mcp.document_invalid")
  | some root => do
    let _ ← validateTomlTree limits 0 0 root
    match (root.asTableLike.bind fun table => tomlGet table (ascii "mcp_servers")).bind
        TomlItem.asTableLike with
    | none => pure []
    | some servers => do
      refuseIf (servers.length > limits.maxEntries) (documentError "mcp.entry_limit")
      servers.mapM (codexEntry lib input (tableStarts root) limits)

end Codex

section Documents

variable (lib : Libraries)

def parseEntries (input : Bytes) (dialect : NativeMcpDialect) (limits : McpParseLimits) :
    Except McpError (List (ObservedMcpServer lib.parseUrl)) :=
  match dialect with
  | .codexCurrent => parseCodexEntries lib input limits
  | _ => parseJsonEntries lib.parseUrl lib.blake3 input dialect limits

def parseNativeMcpDocument (input : Bytes) (dialect : NativeMcpDialect) (limits : McpParseLimits) :
    Except McpError (ObservedMcpDocument lib.parseUrl) := do
  let limits ← limits.validated
  refuseIf (input.length > limits.maxDocumentBytes || input.contains 0)
    (documentError "mcp.document_limit")
  let entries ← parseEntries lib input dialect limits
  pure ⟨dialect, hashExact lib.blake3 (ascii "kitrove-mcp-document-v1" ++ [0]) dialect input,
    entries⟩

def hexCharacter (n : UInt8) : UInt8 := if n < 10 then 0x30 + n else 0x57 + n

def escapeByte (b : UInt8) : Bytes :=
  if b = quote ∨ b = backslash then [backslash, b]
  else if b = 0x08 then ascii "\\b"
  else if b = 0x09 then ascii "\\t"
  else if b = 0x0A then ascii "\\n"
  else if b = 0x0C then ascii "\\f"
  else if b = 0x0D then ascii "\\r"
  else if b < 0x20 then ascii "\\u00" ++ [hexCharacter (b / 16), hexCharacter (b % 16)]
  else [b]

/-- `serde_json::to_string` of a string. -/
def jsonString (value : Bytes) : Bytes := quote :: (value.flatMap escapeByte ++ [quote])

def claudeDocument (nativeName exact : Bytes) : Bytes :=
  ascii "\x7b\"mcpServers\":\x7b" ++ (jsonString nativeName ++ ascii ":" ++ exact) ++ ascii "\x7d\x7d"

def openCodeDocument (nativeName exact : Bytes) : Bytes :=
  ascii "\x7b\"mcp\":\x7b\"servers\":\x7b" ++ (jsonString nativeName ++ ascii ":" ++ exact) ++
    ascii "\x7d\x7d\x7d"

def isolatedDocuments (dialect : NativeMcpDialect) (nativeName exact : Bytes) :
    Except McpError (List Bytes) := do
  refuseIf (exact.length > hardMaxEntryBytes) (documentError "mcp.entry_limit")
  pure (match dialect with
    | .claudeCurrent => [claudeDocument nativeName exact]
    | .openCodeV2 => [openCodeDocument nativeName exact]
    | .codexCurrent =>
      [exact, ascii "[mcp_servers." ++ nativeName ++ ascii "]\n" ++ exact,
        ascii "mcp_servers = \x7b " ++ nativeName ++ ascii " = " ++ exact ++ ascii " \x7d"])

/-- The portable server of a name in a document that parses. -/
def isolatedEntry (dialect : NativeMcpDialect) (nativeName document : Bytes) :
    Option (McpNativeProjection lib.parseUrl) :=
  match parseNativeMcpDocument lib document dialect .default with
  | .error _ => none
  | .ok parsed =>
    match parsed.entries.find? fun entry => entry.nativeName == nativeName with
    | none => none
    | some entry =>
      match entry.portability with
      | .portable projection => some projection
      | .blocked _ => none

def validateIsolatedPortableEntry (dialect : NativeMcpDialect) (nativeName exact : Bytes) :
    Except McpError (ObservedMcpServer lib.parseUrl) := do
  let documents ← isolatedDocuments dialect nativeName exact
  match documents.findSome? (isolatedEntry lib dialect nativeName) with
  | some projection =>
    pure (observedEntry lib.blake3 nativeName exact dialect (.portable projection))
  | none => .error (documentError "mcp.native_entry_invalid")

end Documents

end Kitrove.Mcp
