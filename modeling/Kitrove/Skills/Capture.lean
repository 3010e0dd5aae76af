import Kitrove.Model.Destination
import Kitrove.Support.Slices
import Mathlib.Data.List.Sort

/-! The capture of a directory tree: names that every supported platform can write, a walk in the
order of the paths, and the files that it keeps. -/

namespace Kitrove.Skills

open Std Slices

structure SkillError where
  code : String
  path : Bytes
  message : String
  deriving DecidableEq

abbrev Capture (α : Type) := Checked SkillError α

inductive FileMode where
  | regular
  | executable
  deriving DecidableEq

structure CapturedFile where
  mode : FileMode
  bytes : Bytes
  deriving DecidableEq

structure CapturedTree where
  files : OrdMap PortablePath CapturedFile
  hash : ContentHash
  deriving DecidableEq

structure CaptureLimits where
  maxFiles : Nat
  maxFileBytes : Nat
  maxTotalBytes : Nat

/-- The name of a directory entry as the platform encodes it. -/
structure FileName where
  encoded : Bytes
  nonempty : encoded ≠ []
  noSeparator : 0x2F ∉ encoded
  deriving DecidableEq

inductive FsNode where
  | file (mode : FileMode) (bytes : Bytes)
  | directory
  | symlink
  | reparsePoint
  | special
  deriving DecidableEq

/-- A directory tree by its paths: the entries of each directory, and what each of them is. -/
structure DirectoryTree where
  entries : List FileName → List FileName
  node : List FileName → FsNode

/-- The platform's Unicode: what is UTF-8, canonical normalization, and full case folding. -/
structure Unicode where
  isUtf8 : Bytes → Bool
  nfc : Bytes → Bytes
  foldCase : Bytes → Bytes

/-- The refusals of a caller: the policy of opened handles, and the meter. -/
structure CaptureHooks where
  validateDirectory : Bytes → Bool
  validateFile : Bytes → Bool
  reserveFileAttempt : Bytes → Bool
  readAllowance : Bytes → Nat → Nat

structure CaptureInventory where
  files : List Bytes
  directories : List Bytes

structure CaptureState where
  limits : CaptureLimits
  files : OrdMap PortablePath CapturedFile
  collisionPaths : OrdMap Bytes Bytes
  totalBytes : Nat
  visitedDirectories : Nat
  visitedEntries : Nat
  maxEntries : Nat
  inventory : Option CaptureInventory

def maxCaptureDirectories : Nat := 512

def maxCaptureDepth : Nat := 64

def saturatingAdd (a b : Nat) : Nat := min (a + b) (wordLimit - 1)

def CaptureState.new (limits : CaptureLimits) : CaptureState where
  limits := limits
  files := ∅
  collisionPaths := ∅
  totalBytes := 0
  visitedDirectories := 0
  visitedEntries := 0
  maxEntries := saturatingAdd limits.maxFiles maxCaptureDirectories
  inventory := none

/-- `file_name.to_str()`. -/
def FileName.toStr (unicode : Unicode) (name : FileName) : Option Bytes :=
  if unicode.isUtf8 name.encoded then some name.encoded else none

section Names

def deviceNumbers : List Bytes :=
  ["1", "2", "3", "4", "5", "6", "7", "8", "9"].map ascii ++ [[0xC2, 0xB9], [0xC2, 0xB2], [0xC2, 0xB3]]

def isDevice (deviceBase : Bytes) : Bool :=
  [ascii "CON", ascii "PRN", ascii "AUX", ascii "NUL"].contains deviceBase ||
    (stripPrefix (ascii "COM") deviceBase).any (fun number => deviceNumbers.contains number) ||
    (stripPrefix (ascii "LPT") deviceBase).any fun number => deviceNumbers.contains number

/-- `validate_portable_segment`, apart from the error. -/
def validPortableSegment (segment : Bytes) : Bool :=
  let deviceBase := (segment.map toAsciiUppercase).takeWhile (· != 0x2E)
  let invalid := segment.getLast? == some 0x2E || segment.getLast? == some 0x20 ||
    containsControl segment || segment.any fun b => (ascii "<>:\"|?*").contains b
  !(isDevice deviceBase || invalid)

def Unicode.supportedPlatformCollisionKey (unicode : Unicode) (path : Bytes) : Bytes :=
  unicode.nfc (unicode.foldCase (unicode.nfc path))

end Names

section Errors

def specialFileError (path : Bytes) : SkillError :=
  ⟨"capture.special_file", path, "only regular files and directories may be captured"⟩

def symlinkError (path : Bytes) : SkillError :=
  ⟨"capture.symlink", path, "symlinks are not followed during capture"⟩

def reparsePointError (path : Bytes) : SkillError :=
  ⟨"capture.reparse_point", path, "Windows reparse points are not followed during capture"⟩

def inventoryMismatch (path : Bytes) : SkillError :=
  ⟨"capture.inventory_mismatch", path, "tree differs from the admitted inventory"⟩

def captureBudgetError (path : Bytes) : SkillError :=
  ⟨"capture.request_budget_exhausted", path,
    "request-global capture capacity was exhausted before the next operation"⟩

def totalSizeError (path : Bytes) (limit : Nat) : SkillError :=
  ⟨"capture.total_size_limit", path, s!"capture exceeds the {limit} byte total limit"⟩

def handlePolicyError (path : Bytes) (kind : String) : SkillError :=
  ⟨"capture.handle_policy", path, s!"opened {kind} failed the capture handle policy"⟩

end Errors

section Walk

/-- An entry that waits for its turn: where it is, and what its parent is called. -/
structure PendingEntry where
  parent : List FileName
  fileName : FileName
  parentRelative : Option Bytes
  parentKey : Bytes
  displayPath : Bytes
  depth : Nat

abbrev Pending := OrdMap Bytes PendingEntry

/-- The key of an entry: the encoded names from the root to it. -/
def entryKey (directoryKey : Bytes) (name : FileName) : Bytes :=
  (if directoryKey.isEmpty then [] else directoryKey ++ [0x2F]) ++ name.encoded

def insertEntry (directory : List FileName) (relative : Option Bytes)
    (directoryKey displayPath : Bytes) (depth : Nat) (pending : Pending) (name : FileName) : Pending :=
  pending.insert (entryKey directoryKey name)
    ⟨directory, name, relative, directoryKey, displayPath ++ 0x2F :: name.encoded, depth⟩

def enqueueDirectoryEntries (tree : DirectoryTree) (directory : List FileName)
    (relative : Option Bytes) (directoryKey displayPath : Bytes) (depth : Nat)
    (state : CaptureState) (pending : Pending) : Capture (CaptureState × Pending) := do
  let entries := tree.entries directory
  let limit := state.maxEntries
  refuse (entries.length > limit - state.visitedEntries)
    ⟨"capture.traversal_limit", displayPath, s!"capture exceeds the {limit} total entry traversal limit"⟩
  let sorted := entries.insertionSort fun a b => (compare a.encoded b.encoded).isLE
  pure ({ state with visitedEntries := saturatingAdd state.visitedEntries entries.length },
    sorted.foldl (insertEntry directory relative directoryKey displayPath depth) pending)

def registerPortablePath (unicode : Unicode) (state : CaptureState) (portable : PortablePath)
    (displayPath : Bytes) : Capture CaptureState :=
  let key := unicode.supportedPlatformCollisionKey portable.bytes
  match state.collisionPaths[key]? with
  | some existing =>
    if existing ≠ portable.bytes then
      throw (.refused ⟨"capture.path_collision", displayPath,
        "captured paths collide under the supported-platform case-folding key"⟩)
    else pure state
  | none => pure { state with collisionPaths := state.collisionPaths.insert key portable.bytes }

variable (hooks : CaptureHooks)

/-- The file is read and opened again; one that does not change is the same each time. -/
def captureFile (path : Bytes) (portable : PortablePath) (mode : FileMode) (bytes : Bytes)
    (state : CaptureState) : Capture CaptureState := do
  let limits := state.limits
  let maxFiles := limits.maxFiles
  let maxFileBytes := limits.maxFileBytes
  let len := bytes.length
  refuse (maxFiles ≤ state.files.size)
    ⟨"capture.file_count_limit", path, s!"capture exceeds the {maxFiles} file limit"⟩
  refuse (!hooks.reserveFileAttempt path) (captureBudgetError path)
  refuse (!hooks.validateFile path) (handlePolicyError path "file")
  refuse (len > maxFileBytes) ⟨"capture.file_size_limit", path,
    s!"file is {len} bytes, exceeding the {maxFileBytes} byte per-file limit"⟩
  refuse (len > limits.maxTotalBytes - state.totalBytes) (totalSizeError path limits.maxTotalBytes)
  refuse (hooks.readAllowance path len < len) (captureBudgetError path)
  pure { state with
    totalBytes := state.totalBytes + len
    files := state.files.insert portable ⟨mode, bytes⟩ }

def captureDirectory (tree : DirectoryTree) (entry : PendingEntry) (portable : PortablePath)
    (state : CaptureState) (pending : Pending) : Capture (CaptureState × Pending) := do
  let path := entry.displayPath
  let depth := saturatingAdd entry.depth 1
  refuse (state.inventory.any fun inventory => !inventory.directories.contains portable.bytes)
    (inventoryMismatch path)
  refuse (state.inventory.isNone && decide (depth > maxCaptureDepth)) ⟨"capture.depth_limit", path,
    s!"capture exceeds the {maxCaptureDepth} directory depth limit"⟩
  let state := { state with visitedDirectories := saturatingAdd state.visitedDirectories 1 }
  refuse (state.inventory.isNone && decide (state.visitedDirectories > maxCaptureDirectories))
    ⟨"capture.traversal_limit", path,
      s!"capture exceeds the {maxCaptureDirectories} directory traversal limit"⟩
  refuse (!hooks.validateDirectory path) (handlePolicyError path "directory")
  let directoryKey := entryKey entry.parentKey entry.fileName
  enqueueDirectoryEntries tree (entry.parent ++ [entry.fileName]) (some portable.bytes) directoryKey
    path depth state pending

def relativePath : Option Bytes → Bytes → Bytes
  | some parent, name => parent ++ 0x2F :: name
  | none, name => name

/-- One round of `capture_directories`. -/
def captureEntry (unicode : Unicode) (tree : DirectoryTree) (entry : PendingEntry)
    (state : CaptureState) (pending : Pending) : Capture (CaptureState × Pending) := do
  let path := entry.displayPath
  let name ← okOr (entry.fileName.toStr unicode)
    ⟨"capture.non_utf8_path", path, "captured paths must contain only valid UTF-8"⟩
  refuse (!validPortableSegment name) ⟨"capture.invalid_portable_path", path,
    "path contains a name that is invalid on a supported platform"⟩
  let portable ← okOr (Name.parse .path (relativePath entry.parentRelative name))
    ⟨"capture.invalid_portable_path", path, "path is not portable"⟩
  let state ← registerPortablePath unicode state portable path
  match tree.node (entry.parent ++ [entry.fileName]) with
  | .symlink => throw (.refused (symlinkError path))
  | .reparsePoint => throw (.refused (reparsePointError path))
  | .special => throw (.refused (specialFileError path))
  | .directory => captureDirectory hooks tree entry portable state pending
  | .file mode bytes => do
    refuse (state.inventory.any fun inventory => !inventory.files.contains portable.bytes)
      (inventoryMismatch path)
    let state ← captureFile hooks path portable mode bytes state
    pure (state, pending)

/-- `pending.pop_first()`: the keys stand in their order. -/
def popFirst (pending : Pending) : Option (PendingEntry × Pending) := do
  let key ← pending.keys.head?
  let entry ← pending[key]?
  pure (entry, pending.erase key)

def captureLoop (unicode : Unicode) (tree : DirectoryTree) : Nat → CaptureState → Pending →
    Capture CaptureState
  | 0, _, _ => throw .outOfFuel
  | fuel + 1, state, pending =>
    match popFirst pending with
    | none => pure state
    | some (entry, pending) => do
      let (state, pending) ← captureEntry hooks unicode tree entry state pending
      captureLoop unicode tree fuel state pending

/-- Each round visits one of the entries that the limit admits. -/
def captureDirectories (unicode : Unicode) (tree : DirectoryTree) (rootPath : Bytes)
    (state : CaptureState) : Capture CaptureState := do
  let (state, pending) ← enqueueDirectoryEntries tree [] none [] rootPath 0 state ∅
  captureLoop hooks unicode tree (state.maxEntries + 1) state pending

end Walk

section Tree

variable (blake3 : Bytes → Digest)

def FileMode.tag : FileMode → UInt8
  | .regular => 0
  | .executable => 1

def treeRecord (path : PortablePath) (file : CapturedFile) : Bytes :=
  textRecord path.bytes ++ [file.mode.tag] ++ textRecord file.bytes

def hashTree (files : OrdMap PortablePath CapturedFile) : ContentHash :=
  .ofDigest (blake3 (ascii "kitrove-skill-tree-v1" ++ [0] ++
    files.toList.flatMap fun entry => treeRecord entry.1 entry.2))

/-- `capture_tree` and its variants, from an opened root on. -/
def captureTree (hooks : CaptureHooks) (unicode : Unicode) (tree : DirectoryTree)
    (limits : CaptureLimits) (rootPath : Bytes) : Capture CapturedTree := do
  refuse (!hooks.validateDirectory rootPath) (handlePolicyError rootPath "directory")
  let state ← captureDirectories hooks unicode tree rootPath (.new limits)
  pure ⟨state.files, hashTree blake3 state.files⟩

end Tree

section Stored

def maxStoredMetadataBytes : Nat := 4 * 1024 * 1024

/-- The ancestors of a path and the path itself, entered under their keys. -/
def registerPrefixes (unicode : Unicode) : OrdMap Bytes Bytes → Bytes → List Bytes →
    Option (OrdMap Bytes Bytes)
  | registered, _, [] => some registered
  | registered, front, segment :: segments =>
    let front := (if front.isEmpty then [] else front ++ [0x2F]) ++ segment
    let key := unicode.supportedPlatformCollisionKey front
    if registered[key]?.any fun existing => existing ≠ front then none
    else registerPrefixes unicode (registered.insert key front) front segments

def hasSupportedPlatformPathCollision (unicode : Unicode) (paths : List PortablePath) : Bool :=
  (paths.foldlM (fun registered path =>
    registerPrefixes unicode registered [] (splitOn 0x2F path.bytes)) ∅).isNone

structure StoredSkillTree where
  tree : CapturedTree
  deriving DecidableEq

/-- The JSON text of version and modes. -/
structure MetadataCodec where
  encode : List (PortablePath × FileMode) → Bytes

def CapturedTree.modes (tree : CapturedTree) : List (PortablePath × FileMode) :=
  tree.files.toList.map fun entry => (entry.1, entry.2.mode)

def StoredSkillTree.metadataJson (codec : MetadataCodec) (stored : StoredSkillTree) : Bytes :=
  codec.encode stored.tree.modes ++ [newline]

def storageError (code message : String) : SkillError := ⟨code, ascii "stored-tree", message⟩

def StoredSkillTree.new (blake3 : Bytes → Digest) (unicode : Unicode) (codec : MetadataCodec)
    (tree : CapturedTree) : Except SkillError StoredSkillTree :=
  if hasSupportedPlatformPathCollision unicode tree.files.keys then
    .error (storageError "stored_tree.path_collision"
      "stored tree paths collide on a supported platform")
  else if hashTree blake3 tree.files ≠ tree.hash then
    .error (storageError "stored_tree.hash_mismatch"
      "stored tree hash does not match its paths, modes, and bytes")
  else if ((⟨tree⟩ : StoredSkillTree).metadataJson codec).length > maxStoredMetadataBytes then
    .error (storageError "stored_tree.metadata_limit"
      "stored tree metadata exceeds the portable storage limit")
  else .ok ⟨tree⟩

end Stored

end Kitrove.Skills
