import Kitrove.Model.LocalState

/-! Credential-shaped text, and the names and endpoints of portable MCP declarations. -/

namespace Kitrove.Mcp

section Shapes

def isAsciiAlphanumeric (b : UInt8) : Bool :=
  (0x30 ≤ b && b ≤ 0x39) || (0x41 ≤ b && b ≤ 0x5A) || (0x61 ≤ b && b ≤ 0x7A)

/-- `value.trim_matches(|character| !character.is_ascii_alphanumeric())`. -/
def trimToAlphanumeric (value : Bytes) : Bytes :=
  ((value.dropWhile fun b => !isAsciiAlphanumeric b).reverse.dropWhile
    fun b => !isAsciiAlphanumeric b).reverse

def prefixedMinimums : List (Bytes × Nat) :=
  [(ascii "sk-ant-", 20), (ascii "sk-live-", 20), (ascii "sk_live_", 20), (ascii "rk_live_", 20),
    (ascii "github_pat_", 24), (ascii "ghp_", 20), (ascii "gho_", 20), (ascii "ghu_", 20),
    (ascii "ghs_", 20), (ascii "ghr_", 20), (ascii "npm_", 20), (ascii "xoxb-", 25),
    (ascii "xoxp-", 25)]

def uppercaseOrDigit (b : UInt8) : Bool := (0x41 ≤ b && b ≤ 0x5A) || (0x30 ≤ b && b ≤ 0x39)

def isCredentialShaped (value : Bytes) : Bool :=
  let value := trimToAlphanumeric value
  (prefixedMinimums.any fun p => p.1.isPrefixOf value && p.2 ≤ value.length) ||
    ((ascii "AKIA").isPrefixOf value && value.length == 20 && value.all uppercaseOrDigit) ||
    ((ascii "AIza").isPrefixOf value && 30 ≤ value.length) ||
    ((ascii "sk-").isPrefixOf value && 20 ≤ value.length)

def tokenByte (b : UInt8) : Bool := isAsciiAlphanumeric b || b == 0x5F || b == 0x2D

/-- The tokens are made of ASCII bytes, so each of them is valid UTF-8. -/
def containsCredentialShapedText (text : Bytes) : Bool :=
  (text.splitOnP fun b => !tokenByte b).any isCredentialShaped

end Shapes

structure McpError where
  code : String
  message : String
  deriving DecidableEq, Repr

def nameError : McpError :=
  ⟨"mcp.name_invalid",
    "MCP server name must be a bounded lowercase ASCII identifier with single hyphens"⟩

structure McpServerName where
  text : Bytes
  valid : isPortableMcpServerName text = true
  deriving DecidableEq

def McpServerName.parse (value : Bytes) : Except McpError McpServerName :=
  if h : isPortableMcpServerName value = true then .ok ⟨value, h⟩ else .error nameError

def validEnvironmentVariableName : Bytes → Bool
  | [] => false
  | first :: rest =>
    ((0x41 ≤ first && first ≤ 0x5A) || (0x61 ≤ first && first ≤ 0x7A) || first == 0x5F) &&
      rest.all fun b => isAsciiAlphanumeric b || b == 0x5F

structure EnvironmentVariableName where
  text : Bytes
  valid : validEnvironmentVariableName text = true
  deriving DecidableEq

def EnvironmentVariableName.parse (value : Bytes) : Option EnvironmentVariableName :=
  if h : validEnvironmentVariableName value = true then some ⟨value, h⟩ else none

section Endpoints

inductive Host where
  | domain (domain : Bytes)
  | ipv4
  | ipv6
  deriving DecidableEq

/-- A URL as the URL library takes it apart. -/
structure Url where
  scheme : Bytes
  username : Bytes
  password : Option Bytes
  host : Option Host
  path : Bytes
  query : Option Bytes
  fragment : Option Bytes
  asStr : Bytes
  deriving DecidableEq

def maxMcpEndpointBytes : Nat := 2048

def safeEndpointPath (path : Bytes) : Bool :=
  path.all fun b => isAsciiAlphanumeric b || b == 0x2F || b == 0x2D || b == 0x5F || b == 0x2E ||
    b == 0x7E

def endpointError : McpError :=
  ⟨"mcp.endpoint_invalid",
    "MCP endpoint must be a canonical credential-free HTTPS URL with a DNS host and simple path"⟩

def endpointCredentialShaped : McpError :=
  ⟨"mcp.endpoint_credential_shaped", "MCP endpoint contains a credential-shaped component"⟩

/-- The parts of an endpoint that are looked at one by one. -/
def endpointComponents (domain path : Bytes) : List Bytes :=
  splitOn 0x2E domain ++ (splitOn 0x2F path).filter fun segment => !segment.isEmpty

def validateEndpoint (parseUrl : Bytes → Option Url) (value : Bytes) : Except McpError Unit := do
  refuseIf (value.isEmpty || value.length > maxMcpEndpointBytes || value.contains 0) endpointError
  match parseUrl value with
  | none => .error endpointError
  | some parsed =>
    match parsed.host with
    | some (.domain domain) => do
      refuseIf (parsed.scheme != ascii "https" || parsed.username != [] ||
          parsed.password.isSome || parsed.query.isSome || parsed.fragment.isSome ||
          parsed.asStr != value || domain == ascii "localhost" ||
          (ascii ".localhost").isSuffixOf domain || !safeEndpointPath parsed.path)
        endpointError
      refuseIf ((endpointComponents domain parsed.path).any isCredentialShaped)
        endpointCredentialShaped
    | _ => .error endpointError

structure McpHttpsEndpoint (parseUrl : Bytes → Option Url) where
  text : Bytes
  valid : validateEndpoint parseUrl text = .ok ()
  deriving DecidableEq

def McpHttpsEndpoint.parse (parseUrl : Bytes → Option Url) (value : Bytes) :
    Except McpError (McpHttpsEndpoint parseUrl) :=
  match h : validateEndpoint parseUrl value with
  | .ok () => .ok ⟨value, h⟩
  | .error e => .error e

end Endpoints

end Kitrove.Mcp
