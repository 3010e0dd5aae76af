import Kitrove.Prompts.Frontmatter
import Kitrove.Support.Hex
import Kitrove.Support.Segments
import Kitrove.Support.Utf8

/-! The names of quarantined entries: five families, told apart by what they begin with, whose
identities and nonces are digits of a fixed width. -/

namespace Kitrove.QuarantineName

open Prompts (splitOnce)
open Segments (join splitOn_join join_splitOn)

section Parts

inductive Platform where
  | unix
  | windows
  deriving DecidableEq

structure MetadataIdentity where
  device : UInt64
  inode : UInt64
  deriving DecidableEq

structure WindowsFileIdentity where
  volumeSerialNumber : UInt64
  fileId : Bytes
  length : fileId.length = 16
  deriving DecidableEq

abbrev PlatformIdentity : Platform → Type
  | .unix => MetadataIdentity
  | .windows => WindowsFileIdentity

inductive RemovedObjectKind where
  | file
  | directory
  deriving DecidableEq

namespace RemovedObjectKind

def tag : RemovedObjectKind → UInt8
  | .file => 0x66
  | .directory => 0x64

def fromTag (tag : UInt8) : Option RemovedObjectKind :=
  if tag = 0x66 then some .file else if tag = 0x64 then some .directory else none

end RemovedObjectKind

def nonceHexLen : Nat := 32
def identityHexLen : Nat := 16
def windowsFileIdHexLen : Nat := 32
def hyphen : UInt8 := 0x2D

def isLowerHex (value : Bytes) (expectedLen : Nat) : Bool :=
  value.length == expectedLen && value.all lowercaseHex

/-- `u64::from_str_radix(value, 16)`, of a text of digits. -/
def fromStrRadix (value : Bytes) : Option UInt64 :=
  if Hex.number value < 2 ^ 64 then some (UInt64.ofNat (Hex.number value)) else none

def parseFixedHex (value : Bytes) : Option UInt64 :=
  if isLowerHex value identityHexLen then fromStrRadix value else none

/-- A number as sixteen digits, which are enough for it. -/
def fixedHex (value : UInt64) : Bytes := Hex.fixed identityHexLen value.toNat

def singleAsciiByte : Bytes → Option UInt8
  | [b] => some b
  | _ => none

/-- `OsStr::to_str`. -/
def toStr (name : Bytes) : Option Bytes := if Utf8.valid name then some name else none

end Parts

section Identities

def encodeIdentityNonce : (platform : Platform) → Bytes → PlatformIdentity platform → Bytes →
    Option Bytes
  | .unix, front, identity, nonce =>
    if isLowerHex nonce nonceHexLen then
      some (front ++ (fixedHex identity.device ++ hyphen ::
        (fixedHex identity.inode ++ hyphen :: nonce)))
    else none
  | .windows, front, identity, nonce =>
    if isLowerHex nonce nonceHexLen then
      some (front ++ (fixedHex identity.volumeSerialNumber ++ hyphen ::
        (Hex.encode identity.fileId ++ hyphen :: nonce)))
    else none

/-- `HEXLOWER.decode` into sixteen bytes. -/
def decodeFileId (encoded : Bytes) (volume : UInt64) : Option WindowsFileIdentity :=
  match Hex.decode encoded with
  | none => none
  | some fileId => if h : fileId.length = 16 then some ⟨volume, fileId, h⟩ else none

def parseIdentityNonce : (platform : Platform) → Bytes → Option (PlatformIdentity platform)
  | .unix, encoded =>
    match splitOn hyphen encoded with
    | [device, inode, nonce] => do
      let device ← parseFixedHex device
      let inode ← parseFixedHex inode
      if isLowerHex nonce nonceHexLen then some ⟨device, inode⟩ else none
    | _ => none
  | .windows, encoded =>
    match splitOn hyphen encoded with
    | [volume, encodedFileId, nonce] => do
      let volume ← parseFixedHex volume
      if isLowerHex encodedFileId windowsFileIdHexLen && isLowerHex nonce nonceHexLen then
        decodeFileId encodedFileId volume
      else none
    | _ => none

end Identities

section Families

variable (platform : Platform)

def removedPrefix : Platform → Bytes
  | .unix => ascii ".kitrove-removed-v1-unix-"
  | .windows => ascii ".kitrove-removed-v1-windows-"

def cleanupPendingPrefix : Bytes := ascii ".kitrove-cleanup-pending-v1-"

def cleanupBatchPrefix : Platform → Bytes
  | .unix => ascii ".kitrove-cleanup-v1-unix-"
  | .windows => ascii ".kitrove-cleanup-v1-windows-"

def cleanupLeafPrefix : Platform → Bytes
  | .unix => ascii ".kitrove-cleanup-leaf-v1-unix-"
  | .windows => ascii ".kitrove-cleanup-leaf-v1-windows-"

def retainedPrefix : Bytes := ascii ".kitrove-retained-v1-"

structure RetainedTombstoneName where
  kind : RemovedObjectKind
  deriving DecidableEq

namespace RetainedTombstoneName

def encode (name : RetainedTombstoneName) (nonce : Bytes) : Option Bytes :=
  if isLowerHex nonce nonceHexLen then some (retainedPrefix ++ name.kind.tag :: hyphen :: nonce)
  else none

def parse (name : Bytes) : Option RetainedTombstoneName := do
  let encoded ← stripPrefix retainedPrefix (← toStr name)
  match splitOn hyphen encoded with
  | [kind, nonce] => do
    let kind ← RemovedObjectKind.fromTag (← singleAsciiByte kind)
    if isLowerHex nonce nonceHexLen then some ⟨kind⟩ else none
  | _ => none

end RetainedTombstoneName

structure RemovalTombstoneName where
  kind : RemovedObjectKind
  identity : PlatformIdentity platform

namespace RemovalTombstoneName

variable {platform}

def encode (name : RemovalTombstoneName platform) (nonce : Bytes) : Option Bytes :=
  encodeIdentityNonce platform (removedPrefix platform ++ [name.kind.tag, hyphen]) name.identity nonce

def parse (name : Bytes) : Option (RemovalTombstoneName platform) := do
  let encoded ← stripPrefix (removedPrefix platform) (← toStr name)
  let (kind, identityNonce) ← splitOnce hyphen encoded
  let kind ← RemovedObjectKind.fromTag (← singleAsciiByte kind)
  let identity ← parseIdentityNonce platform identityNonce
  some ⟨kind, identity⟩

end RemovalTombstoneName

namespace CleanupPendingName

def encode (nonce : Bytes) : Option Bytes :=
  if isLowerHex nonce nonceHexLen then some (cleanupPendingPrefix ++ nonce) else none

def parse (name : Bytes) : Option Unit := do
  let nonce ← stripPrefix cleanupPendingPrefix (← toStr name)
  if isLowerHex nonce nonceHexLen then some ⟨⟩ else none

end CleanupPendingName

structure CleanupBatchName where
  identity : PlatformIdentity platform

namespace CleanupBatchName

variable {platform}

def encode (name : CleanupBatchName platform) (nonce : Bytes) : Option Bytes :=
  encodeIdentityNonce platform (cleanupBatchPrefix platform) name.identity nonce

def parse (name : Bytes) : Option (CleanupBatchName platform) := do
  let encoded ← stripPrefix (cleanupBatchPrefix platform) (← toStr name)
  let identity ← parseIdentityNonce platform encoded
  some ⟨identity⟩

end CleanupBatchName

structure CleanupLeafName where
  identity : PlatformIdentity platform

namespace CleanupLeafName

variable {platform}

def encode (name : CleanupLeafName platform) (nonce : Bytes) : Option Bytes :=
  encodeIdentityNonce platform (cleanupLeafPrefix platform) name.identity nonce

def parse (name : Bytes) : Option (CleanupLeafName platform) := do
  let encoded ← stripPrefix (cleanupLeafPrefix platform) (← toStr name)
  let identity ← parseIdentityNonce platform encoded
  some ⟨identity⟩

end CleanupLeafName

end Families

end Kitrove.QuarantineName
