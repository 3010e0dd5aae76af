import Mathlib.Data.Finset.Basic
import Kitrove.Jsonc.Assembly
import Kitrove.Mcp.Credential

/-! The native documents that harnesses keep their MCP servers in, and what is made of each
server that one of them names. -/

namespace Kitrove.Mcp

open Jsonc (Value Elem Options)

inductive NativeMcpDialect where
  | claudeCurrent
  | codexCurrent
  | openCodeV2
  deriving DecidableEq

def NativeMcpDialect.tag : NativeMcpDialect → UInt8
  | claudeCurrent => 0
  | codexCurrent => 1
  | openCodeV2 => 2

section Limits

def hardMaxDocumentBytes : Nat := 2 * 1024 * 1024
def hardMaxEntries : Nat := 512
def hardMaxNodes : Nat := 16 * 1024
def hardMaxDepth : Nat := 64
def hardMaxEntryBytes : Nat := 128 * 1024
def maxNativeNameBytes : Nat := 256

structure McpParseLimits where
  maxDocumentBytes : Nat
  maxEntries : Nat
  maxNodes : Nat
  maxDepth : Nat
  maxEntryBytes : Nat
  deriving DecidableEq

namespace McpParseLimits

def default : McpParseLimits where
  maxDocumentBytes := 1024 * 1024
  maxEntries := 256
  maxNodes := 8 * 1024
  maxDepth := 32
  maxEntryBytes := 64 * 1024

def outside (value ceiling : Nat) : Bool := value == 0 || value > ceiling

def validated (limits : McpParseLimits) : Except McpError McpParseLimits := do
  refuseIf (outside limits.maxDocumentBytes hardMaxDocumentBytes ||
      outside limits.maxEntries hardMaxEntries || outside limits.maxNodes hardMaxNodes ||
      outside limits.maxDepth hardMaxDepth || outside limits.maxEntryBytes hardMaxEntryBytes)
    ⟨"mcp.parse_limits_invalid", "MCP document parse limits are zero or exceed hard ceilings"⟩
  pure limits

end McpParseLimits

def documentError (code : String) : McpError :=
  ⟨code, "native MCP document is invalid or exceeds bounded parsing policy"⟩

end Limits

inductive McpBlockReason where
  | disabled
  | invalidName
  | localStdio
  | malformedEntry
  | nativeFields
  | oAuthConfiguration
  | staticCredential
  | unsupportedTransport
  | unsafeEndpoint
  deriving DecidableEq

section Observations

variable (parseUrl : Bytes → Option Url)

structure McpNativeProjection where
  name : McpServerName
  endpoint : McpHttpsEndpoint parseUrl
  bearerEnvironment : Option EnvironmentVariableName
  deriving DecidableEq

inductive McpPortability where
  | portable (projection : McpNativeProjection parseUrl)
  | blocked (reasons : Finset McpBlockReason)
  deriving DecidableEq

structure ObservedMcpServer where
  nativeName : Bytes
  exactEntry : Bytes
  exactEntryHash : ContentHash
  contentClass : ContentClass
  portability : McpPortability parseUrl
  deriving DecidableEq

structure ObservedMcpDocument where
  dialect : NativeMcpDialect
  exactDocumentHash : ContentHash
  entries : List (ObservedMcpServer parseUrl)
  deriving DecidableEq

end Observations

section Hashes

variable (blake3 : Bytes → Digest)

def hashExact (domain : Bytes) (dialect : NativeMcpDialect) (value : Bytes) : ContentHash :=
  .ofDigest (blake3 (domain ++ [dialect.tag] ++ textRecord value))

def hashNativeName (value : Bytes) : ContentHash :=
  .ofDigest (blake3 (ascii "kitrove-native-mcp-name-v1" ++ [0] ++ textRecord value))

def hashNativeEntry (dialect : NativeMcpDialect) (nativeName exact : Bytes) : ContentHash :=
  .ofDigest (blake3 (ascii "kitrove-native-mcp-entry-v1" ++ [0] ++ [dialect.tag] ++
    textRecord nativeName ++ textRecord exact))

def boundedNativeName (value : Bytes) : Bytes :=
  if value.length ≤ maxNativeNameBytes then value
  else ascii "oversized-" ++ (hashNativeName blake3 value).bytes

end Hashes

variable {parseUrl : Bytes → Option Url}

/-- Portable when nothing speaks against it, and then each part is there. -/
def portabilityOf (reasons : Finset McpBlockReason) (name : Except McpError McpServerName)
    (endpoint : Option (McpHttpsEndpoint parseUrl)) (bearer : Option EnvironmentVariableName) :
    McpPortability parseUrl :=
  match name, endpoint with
  | .ok name, some endpoint =>
    if reasons = ∅ then .portable ⟨name, endpoint, bearer⟩ else .blocked reasons
  | .error _, some _ => .blocked (insert .invalidName reasons)
  | .ok _, none => .blocked (insert .unsafeEndpoint reasons)
  | .error _, none => .blocked (insert .invalidName (insert .unsafeEndpoint reasons))

def observedEntry (blake3 : Bytes → Digest) (nativeName exact : Bytes)
    (dialect : NativeMcpDialect) (portability : McpPortability parseUrl) :
    ObservedMcpServer parseUrl where
  nativeName := boundedNativeName blake3 nativeName
  exactEntry := exact
  exactEntryHash := hashNativeEntry blake3 dialect nativeName exact
  contentClass :=
    match portability with
    | .blocked reasons => if .localStdio ∈ reasons then .executable else .agentActive
    | .portable _ => .agentActive
  portability := portability

section Json

/-- The properties of an object, in order. -/
def properties (object : List Elem) : List (Bytes × Value) :=
  object.filterMap fun
    | .member key value => some (key.name, value)
    | _ => none

def elements (array : List Elem) : List Value :=
  array.filterMap fun
    | .item value => some value
    | _ => none

def asObject : Value → Option (List Elem)
  | .object object => some object
  | _ => none

def asString : Value → Option Bytes
  | .string _ value => some value
  | _ => none

def asBoolean : Value → Option Bool
  | .scalar (.boolean value) _ => some value
  | _ => none

def get (object : List Elem) (name : Bytes) : Option Value :=
  ((properties object).find? fun p => p.1 == name).map Prod.snd

def optionalObject (object : List Elem) (name : Bytes) :
    Except McpError (Option (List Elem)) :=
  match get object name with
  | none => .ok none
  | some value =>
    match asObject value with
    | some inner => .ok (some inner)
    | none => .error (documentError "mcp.document_shape")

/-- Goes through the tree with a stack; `left` nodes may still be looked at. -/
def validateJsonNodes (maxDepth : Nat) : Nat → List (Value × Nat) → Except McpError Unit
  | _, [] => .ok ()
  | 0, _ :: _ => .error (documentError "mcp.node_limit")
  | left + 1, (value, depth) :: stack =>
    if depth > maxDepth then .error (documentError "mcp.node_limit")
    else
      match value with
      | .object object =>
        if ((properties object).map Prod.fst).Nodup then
          validateJsonNodes maxDepth left
            (((properties object).map fun p => (p.2, depth + 1)).reverse ++ stack)
        else .error (documentError "mcp.duplicate_key")
      | .array array =>
        validateJsonNodes maxDepth left
          (((elements array).map fun value => (value, depth + 1)).reverse ++ stack)
      | _ => validateJsonNodes maxDepth left stack

def validateJsonTree (value : Value) (limits : McpParseLimits) : Except McpError Unit :=
  validateJsonNodes limits.maxDepth limits.maxNodes [(value, 1)]

def allowedFields : NativeMcpDialect → List Bytes
  | .openCodeV2 =>
    [ascii "type", ascii "url", ascii "headers", ascii "oauth", ascii "disabled"]
  | _ => [ascii "type", ascii "url", ascii "headers"]

def expectedTypes : NativeMcpDialect → List Bytes
  | .openCodeV2 => [ascii "remote"]
  | _ => [ascii "http", ascii "streamable-http"]

def bearerPrefix : NativeMcpDialect → Bytes
  | .openCodeV2 => ascii "Bearer \x7benv:"
  | _ => ascii "Bearer $\x7b"

def lowercase (b : UInt8) : UInt8 := if 0x41 ≤ b && b ≤ 0x5A then b + 0x20 else b

def eqIgnoreAsciiCase (a b : Bytes) : Bool := a.map lowercase == b.map lowercase

/-- The bearer variable of an entry, and what speaks against its headers. -/
def parseJsonBearer (entry : List Elem) (dialect : NativeMcpDialect) :
    Option EnvironmentVariableName × Finset McpBlockReason :=
  match optionalObject entry (ascii "headers") with
  | .error _ => (none, {.malformedEntry})
  | .ok none =>
    if dialect = .openCodeV2 ∧ (get entry (ascii "oauth")).isSome then
      (none, {.oAuthConfiguration})
    else (none, ∅)
  | .ok (some headers) =>
    match properties headers with
    | [(name, value)] =>
      if !eqIgnoreAsciiCase name (ascii "authorization") then (none, {.nativeFields})
      else
        match asString value with
        | none => (none, {.malformedEntry})
        | some text =>
          match ((stripPrefix (bearerPrefix dialect) text).bind (stripSuffix [0x7D])).bind
              EnvironmentVariableName.parse with
          | none =>
            if containsCredentialShapedText text then (none, {.staticCredential})
            else (none, {.nativeFields})
          | some bearer =>
            if dialect = .openCodeV2 ∧
                (get entry (ascii "oauth")).bind asBoolean ≠ some false then
              (some bearer, {.oAuthConfiguration})
            else (some bearer, ∅)
    | _ => (none, {.nativeFields})

def fieldReasons (entry : List Elem) (dialect : NativeMcpDialect) : Finset McpBlockReason :=
  if (properties entry).any fun p => !(allowedFields dialect).contains p.1 then {.nativeFields}
  else ∅

def transportReasons (entry : List Elem) (dialect : NativeMcpDialect) : Finset McpBlockReason :=
  let typeValue := (get entry (ascii "type")).bind asString
  if typeValue.any fun value => (expectedTypes dialect).contains value then ∅
  else if (get entry (ascii "command")).isSome || typeValue == some (ascii "local") then
    {.localStdio}
  else {.unsupportedTransport}

def disabledReasons (entry : List Elem) (dialect : NativeMcpDialect) : Finset McpBlockReason :=
  match dialect, get entry (ascii "disabled") with
  | .openCodeV2, some value =>
    match asBoolean value with
    | some true => {.disabled}
    | some false => ∅
    | none => {.malformedEntry}
  | _, _ => ∅

def parseJsonEntry (parseUrl : Bytes → Option Url) (nativeName : Bytes) (entry : List Elem)
    (dialect : NativeMcpDialect) : McpPortability parseUrl :=
  let (bearer, bearerReasons) := parseJsonBearer entry dialect
  let reasons := fieldReasons entry dialect ∪ transportReasons entry dialect ∪
    disabledReasons entry dialect ∪ bearerReasons
  let endpoint := ((get entry (ascii "url")).bind asString).bind fun value =>
    (McpHttpsEndpoint.parse parseUrl value).toOption
  portabilityOf reasons (McpServerName.parse nativeName) endpoint bearer

def jsonOptions (dialect : NativeMcpDialect) : Options :=
  ⟨dialect = .openCodeV2, dialect = .openCodeV2⟩

/-- The object that names the servers of a document. -/
def serversObject (dialect : NativeMcpDialect) (root : List Elem) :
    Except McpError (Option (List Elem)) :=
  match dialect with
  | .openCodeV2 => do
    match ← optionalObject root (ascii "mcp") with
    | none => pure none
    | some mcp => optionalObject mcp (ascii "servers")
  | _ => optionalObject root (ascii "mcpServers")

def jsonEntry (parseUrl : Bytes → Option Url) (blake3 : Bytes → Digest)
    (dialect : NativeMcpDialect) (limits : McpParseLimits) (property : Bytes × Value) :
    Except McpError (ObservedMcpServer parseUrl) := do
  let exact := property.2.text
  refuseIf (exact.length > limits.maxEntryBytes) (documentError "mcp.entry_limit")
  let portability :=
    match asObject property.2 with
    | some entry => parseJsonEntry parseUrl property.1 entry dialect
    | none => .blocked {.malformedEntry}
  pure (observedEntry blake3 property.1 exact dialect portability)

def parseJsonEntries (parseUrl : Bytes → Option Url) (blake3 : Bytes → Digest) (input : Bytes)
    (dialect : NativeMcpDialect) (limits : McpParseLimits) :
    Except McpError (List (ObservedMcpServer parseUrl)) :=
  match Jsonc.parse (jsonOptions dialect) input with
  | none => .error (documentError "mcp.document_invalid")
  | some document => do
    validateJsonTree document.value limits
    match asObject document.value with
    | none => .error (documentError "mcp.document_shape")
    | some root =>
      match ← serversObject dialect root with
      | none => pure []
      | some servers => do
        refuseIf ((properties servers).length > limits.maxEntries)
          (documentError "mcp.entry_limit")
        (properties servers).mapM (jsonEntry parseUrl blake3 dialect limits)

end Json

end Kitrove.Mcp
