import Kitrove.Backend.Control
import Kitrove.Model.Packs
import Kitrove.Support.Utf8

/-! Verifying the key of an SSH server against the lines of a `known_hosts` file. -/

namespace Kitrove.Ssh

def maxKnownHostsBytes : Nat := 1024 * 1024
def maxKnownHostsLineBytes : Nat := 16 * 1024
def maxKnownHostsEntries : Nat := 4096
def maxHostsPerEntry : Nat := 32
def maxHostPatternBytes : Nat := 1024
def maxKeyFieldBytes : Nat := 12 * 1024

section Errors

def knownHostsLimit : BackendError :=
  ⟨"sync_backend.ssh_known_hosts_limit", "SSH host verification input exceeds a supported limit"⟩

def knownHostsInvalid : BackendError :=
  ⟨"sync_backend.ssh_known_hosts_invalid", "SSH host verification input is invalid"⟩

def knownHostsUnsupported : BackendError :=
  ⟨"sync_backend.ssh_known_hosts_unsupported",
    "SSH host verification entry uses an unsupported policy"⟩

def knownHostsAmbiguous : BackendError :=
  ⟨"sync_backend.ssh_known_hosts_ambiguous", "SSH host verification authority is ambiguous"⟩

def knownHostsChanged : BackendError :=
  ⟨"sync_backend.ssh_host_key_changed", "SSH host key does not match machine-local authority"⟩

def knownHostsUnknown : BackendError :=
  ⟨"sync_backend.ssh_host_unknown", "SSH host is not present in machine-local authority"⟩

end Errors

/-- What is taken from other libraries: keys and their algorithms, Base64 and the keyed hash. -/
structure SshLibrary (Key Algorithm : Type) where
  parseKey : Bytes → Option Key
  algorithm : Key → Algorithm
  algorithmName : Algorithm → Bytes
  decodeBase64 : Bytes → Option Bytes
  hmacSha1 : Bytes → Bytes → Bytes

section Words

def isAsciiWhitespace (b : UInt8) : Bool :=
  b == 0x20 || b == 0x09 || b == 0x0A || b == 0x0C || b == 0x0D

/-- `trim_ascii`. -/
def trimAscii (text : Bytes) : Bytes :=
  ((text.dropWhile isAsciiWhitespace).reverse.dropWhile isAsciiWhitespace).reverse

/-- `split_ascii_whitespace`. -/
def asciiWords (text : Bytes) : List Bytes :=
  (text.splitOnP isAsciiWhitespace).filter fun word => !word.isEmpty

/-- A line without the carriage return it may end with. -/
def stripReturn (line : Bytes) : Bytes := if line.getLast? = some 13 then line.dropLast else line

end Words

section Hosts

variable {Key Algorithm : Type} (lib : SshLibrary Key Algorithm)

def hashedPrefix : Bytes := ascii "|1|"

def decodedHashMatches (target salt expected : Bytes) : Except BackendError Bool :=
  if salt.isEmpty || salt.length > 64 || expected.length != 20 then throw knownHostsInvalid
  else pure (lib.hmacSha1 salt target == expected)

def hashedHostMatches (pattern target : Bytes) : Except BackendError Bool :=
  match splitOn 0x7C pattern with
  | [empty, version, salt, expected] =>
    if empty != [] || version != ascii "1" || salt.length > 256 || expected.length > 256 then
      throw knownHostsInvalid
    else
      match lib.decodeBase64 salt, lib.decodeBase64 expected with
      | some salt, some expected => decodedHashMatches lib target salt expected
      | _, _ => throw knownHostsInvalid
  | _ => throw knownHostsInvalid

def hasMetacharacter (pattern : Bytes) : Bool := pattern.any fun b => (ascii "*?!\\").contains b

def patternMatches (target pattern : Bytes) : Except BackendError Bool :=
  if hashedPrefix.isPrefixOf pattern then hashedHostMatches lib pattern target
  else if hasMetacharacter pattern then
    if pattern = target then throw knownHostsUnsupported else pure false
  else pure (pattern == target)

def hostListStep (target : Bytes) (state : Nat × Bool) (pattern : Bytes) :
    Except BackendError (Nat × Bool) :=
  if state.1 + 1 > maxHostsPerEntry || pattern.isEmpty then throw knownHostsLimit
  else do
    let named ← patternMatches lib target pattern
    pure (state.1 + 1, state.2 || named)

def hostListMatches (hosts target : Bytes) : Except BackendError Bool := do
  let state ← (splitOn 0x2C hosts).foldlM (hostListStep lib target) (0, false)
  pure state.2

end Hosts

section Lines

variable {Key Algorithm : Type} [DecidableEq Key] [DecidableEq Algorithm]
  (lib : SshLibrary Key Algorithm)

/-- The marker of a line, its host list, and the words behind them. -/
structure HostLine where
  marker : Option Bytes
  hosts : Bytes
  rest : List Bytes
  deriving DecidableEq

def splitHostLine (line : Bytes) : Except BackendError HostLine :=
  match asciiWords line with
  | [] => throw knownHostsInvalid
  | first :: rest =>
    if first.head? = some 0x40 then
      match rest with
      | [] => throw knownHostsInvalid
      | hosts :: rest => pure ⟨some first, hosts, rest⟩
    else pure ⟨none, first, rest⟩

def recordedKey (rest : List Bytes) : Except BackendError Key :=
  match rest with
  | algorithm :: encodedKey :: _ =>
    if algorithm.length > 128 || encodedKey.length > maxKeyFieldBytes then throw knownHostsLimit
    else
      match lib.parseKey encodedKey with
      | none => throw knownHostsInvalid
      | some recorded =>
        if algorithm ≠ lib.algorithmName (lib.algorithm recorded) then throw knownHostsInvalid
        else pure recorded
  | _ => throw knownHostsInvalid

/-- The key that a line records for the target, if it is for the target. -/
def lineKey (target : Bytes) (line : HostLine) : Except BackendError (Option Key) :=
  if line.hosts.length > maxHostPatternBytes then throw knownHostsLimit
  else do
    let matched ← hostListMatches lib line.hosts target
    if !matched then pure none
    else if line.marker.isSome then throw knownHostsUnsupported
    else (recordedKey lib line.rest).map some

def entryKey (target line : Bytes) : Except BackendError (Option Key) := do
  let fields ← splitHostLine line
  lineKey lib target fields

def noteKey (serverKey : Key) (matching : Option Key) (recorded : Key) :
    Except BackendError (Option Key) :=
  if lib.algorithm recorded ≠ lib.algorithm serverKey then pure matching
  else
    match matching with
    | none => pure (some recorded)
    | some existing =>
      if existing = recorded then pure (some existing) else throw knownHostsAmbiguous

/-- The text of a line that is an entry; nothing for an empty line or a comment. -/
def lineText (rawLine : Bytes) : Except BackendError (Option Bytes) :=
  let line := stripReturn rawLine
  if line.length > maxKnownHostsLineBytes then throw knownHostsLimit
  else if Utf8.valid line = false then throw knownHostsInvalid
  else if (trimAscii line).isEmpty || (trimAscii line).head? == some 0x23 then pure none
  else pure (some (trimAscii line))

/-- What the loop knows: the entries so far, and the key recorded under the server's algorithm. -/
structure VerifyState (Key : Type) where
  entries : Nat
  matching : Option Key
  deriving DecidableEq

def verifyEntry (target : Bytes) (serverKey : Key) (matching : Option Key) (line : Bytes) :
    Except BackendError (Option Key) := do
  match ← entryKey lib target line with
  | none => pure matching
  | some recorded => noteKey lib serverKey matching recorded

def verifyLine (target : Bytes) (serverKey : Key) (state : VerifyState Key) (rawLine : Bytes) :
    Except BackendError (VerifyState Key) := do
  match ← lineText rawLine with
  | none => pure state
  | some line =>
    if state.entries + 1 > maxKnownHostsEntries then throw knownHostsLimit
    else do
      let matching ← verifyEntry lib target serverKey state.matching line
      pure ⟨state.entries + 1, matching⟩

def targetOf (host : Bytes) (port : Nat) : Bytes :=
  if port = 22 then host else ascii "[" ++ host ++ ascii "]:" ++ decimal port

/-- What the key recorded under the server's algorithm says of the server's key. -/
def verdict (serverKey : Key) : Option Key → Except BackendError Unit
  | some recorded => if recorded = serverKey then pure () else throw knownHostsChanged
  | none => throw knownHostsUnknown

/-- Verifies one SSH server key against already-bounded `known_hosts` bytes. -/
def verifyKnownHostBytes (bytes host : Bytes) (port : Nat) (serverKey : Key) :
    Except BackendError Unit :=
  if bytes.length > maxKnownHostsBytes || host.any (fun b => 0x80 ≤ b) || host.isEmpty then
    throw knownHostsLimit
  else do
    let state ← (splitOn newline bytes).foldlM (verifyLine lib (targetOf host port) serverKey)
      ⟨0, none⟩
    verdict serverKey state.matching

end Lines

end Kitrove.Ssh
