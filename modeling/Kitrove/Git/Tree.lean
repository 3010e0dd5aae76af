import Kitrove.Git.Packets
import Kitrove.Support.FileTree
import Kitrove.Support.Segments
import Kitrove.Support.Utf8

/-! The trees of a Git snapshot: how its files are put into trees, how these are written as objects,
and how the files are read back from the objects. -/

namespace Kitrove.Git

open Std

def invalidTree : BackendError :=
  ⟨"sync_backend.git_tree_invalid", "Git selected snapshot tree is invalid"⟩

def invalidPack : BackendError := ⟨"sync_backend.git_pack_invalid", "Git pack is invalid"⟩

/-- `ok_or`. -/
def required {α : Type} (value : Option α) (error : BackendError) : Except BackendError α :=
  match value with
  | some a => .ok a
  | none => .error error

def reject (condition : Bool) (error : BackendError) : Except BackendError Unit :=
  if condition then .error error else .ok ()

inductive ObjectKind where
  | commit
  | tree
  | blob
  | tag
  deriving DecidableEq

structure GitObject where
  kind : ObjectKind
  data : Bytes
  deriving DecidableEq

/-- An entry of a tree object. -/
structure TreeEntry (ObjectId : Type) where
  mode : Nat
  filename : Bytes
  oid : ObjectId

def treeMode : Nat := 0o040000

def blobMode : Nat := 0o100644

def slash : UInt8 := 0x2F

/-- The order of Git: a directory sorts as if its name ended with a slash. -/
def gitTreeKey (name : Bytes) (directory : Bool) : Bytes := if directory then name ++ [slash] else name

/-- What is used of the Git libraries. -/
structure GitLibrary (ObjectId : Type) where
  computeHash : ObjectKind → Bytes → Option ObjectId
  asSlice : ObjectId → Bytes
  entries : Bytes → Option (List (TreeEntry ObjectId))
  /-- The strict order of tree entries. -/
  precedes : TreeEntry ObjectId → TreeEntry ObjectId → Bool

section Writing

/-- An entry before it is written: its name, whether it is a directory, and its object. -/
structure PlainEntry (ObjectId : Type) where
  name : Bytes
  directory : Bool
  oid : ObjectId

variable {ObjectId : Type}

def PlainEntry.key (entry : PlainEntry ObjectId) : Bytes := gitTreeKey entry.name entry.directory

def PlainEntry.read (entry : PlainEntry ObjectId) : TreeEntry ObjectId :=
  ⟨if entry.directory then treeMode else blobMode, entry.name, entry.oid⟩

def encodeEntry (lib : GitLibrary ObjectId) (entry : PlainEntry ObjectId) : Bytes :=
  (if entry.directory then ascii "40000 " else ascii "100644 ") ++ entry.name ++
    0 :: lib.asSlice entry.oid

def encodeEntries (lib : GitLibrary ObjectId) (entries : List (PlainEntry ObjectId)) : Bytes :=
  entries.flatMap (encodeEntry lib)

def sortEntries (entries : List (PlainEntry ObjectId)) : List (PlainEntry ObjectId) :=
  entries.mergeSort fun left right => (compare left.key right.key).isLE

/-- The Git libraries read the entries that are written, and order them by their keys. -/
structure GitLibrary.Lawful (lib : GitLibrary ObjectId) : Prop where
  entries (plain : List (PlainEntry ObjectId)) (h : ∀ entry ∈ plain, entry.name ≠ [] ∧ 0 ∉ entry.name) :
    lib.entries (encodeEntries lib plain) = some (plain.map PlainEntry.read)
  order (left right : TreeEntry ObjectId) (hl : slash ∉ left.filename) (hr : slash ∉ right.filename) :
    lib.precedes left right = true ↔ compare (gitTreeKey left.filename (left.mode == treeMode))
      (gitTreeKey right.filename (right.mode == treeMode)) = .lt

abbrev GitTreeNode := FileTree Bytes Bytes

open FileTree (put)

/-- `GitTreeNode::insert` where only the name is left of the path. -/
def insertFile (bytes name : Bytes) : GitTreeNode → Except BackendError GitTreeNode
  | .node files directories =>
    if name.isEmpty || (files.lookup name).isSome then .error invalidTree
    else if (directories.lookup name).isSome then .error invalidTree
    else .ok (.node (files ++ [(name, bytes)]) directories)

/-- `GitTreeNode::insert`, with the bytes before the next slash gathered in the name. -/
def insertAt (bytes : Bytes) : Bytes → Bytes → GitTreeNode → Except BackendError GitTreeNode
  | [], name, node => insertFile bytes name node
  | b :: rest, name, .node files directories =>
    if b = slash then
      if rest.isEmpty then insertFile bytes name (.node files directories)
      else if name.isEmpty || (files.lookup name).isSome then .error invalidTree
      else
        (insertAt bytes rest [] ((directories.lookup name).getD .empty)).map fun child =>
          .node files (put name child directories)
    else insertAt bytes rest (name ++ [b]) (.node files directories)

def insertPath (path bytes : Bytes) (node : GitTreeNode) : Except BackendError GitTreeNode :=
  insertAt bytes path [] node

/-- The tree of the files of a snapshot. -/
def buildTree (flat : OrdMap PortablePath Bytes) : Except BackendError GitTreeNode :=
  flat.toList.foldlM (fun root file => insertPath file.1.bytes file.2 root) .empty

variable [Ord ObjectId] [TransOrd ObjectId]

abbrev GitObjectMap (ObjectId : Type) [Ord ObjectId] := OrdMap ObjectId GitObject

def insertGitObject (lib : GitLibrary ObjectId) (objects : GitObjectMap ObjectId) (kind : ObjectKind)
    (data : Bytes) : Except BackendError (ObjectId × GitObjectMap ObjectId) := do
  let oid ← required (lib.computeHash kind data) invalidPack
  match objects[oid]? with
  | some existing =>
    if existing.kind = kind ∧ existing.data = data then .ok (oid, objects) else .error invalidPack
  | none => .ok (oid, objects.insert oid ⟨kind, data⟩)

def storeFiles (lib : GitLibrary ObjectId) : List (Bytes × Bytes) → GitObjectMap ObjectId →
    Except BackendError (List (PlainEntry ObjectId) × GitObjectMap ObjectId)
  | [], objects => .ok ([], objects)
  | (name, bytes) :: rest, objects => do
    let (oid, objects) ← insertGitObject lib objects .blob bytes
    let (entries, objects) ← storeFiles lib rest objects
    .ok (⟨name, false, oid⟩ :: entries, objects)

mutual
/-- `GitTreeNode::store`. -/
def storeTree (lib : GitLibrary ObjectId) : GitTreeNode → GitObjectMap ObjectId →
    Except BackendError (ObjectId × GitObjectMap ObjectId)
  | .node files directories, objects => do
    let (fileEntries, objects) ← storeFiles lib files objects
    let (directoryEntries, objects) ← storeDirectories lib directories objects
    insertGitObject lib objects .tree
      (encodeEntries lib (sortEntries (fileEntries ++ directoryEntries)))

def storeDirectories (lib : GitLibrary ObjectId) : List (Bytes × GitTreeNode) → GitObjectMap ObjectId →
    Except BackendError (List (PlainEntry ObjectId) × GitObjectMap ObjectId)
  | [], objects => .ok ([], objects)
  | (name, tree) :: rest, objects => do
    let (oid, objects) ← storeTree lib tree objects
    let (entries, objects) ← storeDirectories lib rest objects
    .ok (⟨name, true, oid⟩ :: entries, objects)
end

end Writing

section Reading

variable {ObjectId : Type} [Ord ObjectId] [TransOrd ObjectId] (lib : GitLibrary ObjectId)
  (objects : GitObjectMap ObjectId)

/-- What the reading of a tree has come to: the trees it is inside of, the files it has found, and how
many more objects it may visit. -/
structure FlattenState (ObjectId : Type) [Ord ObjectId] where
  active : OrdSet ObjectId
  files : OrdMap PortablePath Bytes
  remainingVisits : Nat

def visit (state : FlattenState ObjectId) : Except BackendError (FlattenState ObjectId) :=
  if state.remainingVisits = 0 then .error limitExceeded
  else .ok { state with remainingVisits := state.remainingVisits - 1 }

def windowsOrdered : List (TreeEntry ObjectId) → Bool
  | first :: second :: rest => lib.precedes first second && windowsOrdered (second :: rest)
  | _ => true

def entryName (name : Bytes) : Bool :=
  Utf8.valid name && !(name.isEmpty || name == ascii "." || name == ascii ".." || name.contains slash)

def joinPath (leading name : Bytes) : Bytes :=
  if leading.isEmpty then name else leading ++ slash :: name

/-- One entry of a tree; `below` reads a subtree. -/
def flattenEntry (below : ObjectId → Bytes → FlattenState ObjectId → Except BackendError (FlattenState ObjectId))
    (leading : Bytes) (state : FlattenState ObjectId) (entry : TreeEntry ObjectId) :
    Except BackendError (FlattenState ObjectId) := do
  reject (!entryName entry.filename) invalidTree
  let path := joinPath leading entry.filename
  if entry.mode = treeMode then below entry.oid path state
  else if entry.mode = blobMode then
    let state ← visit state
    let path ← required (Name.parse .path path) invalidTree
    let blob ← required objects[entry.oid]? invalidTree
    reject (blob.kind ≠ .blob || state.files.contains path) invalidTree
    .ok { state with files := state.files.insert path blob.data }
  else .error invalidTree

/-- `flatten_tree`, with the depth counted down from the deepest allowed. -/
def flattenTree : Nat → ObjectId → Bytes → FlattenState ObjectId →
    Except BackendError (FlattenState ObjectId)
  | 0, _, _, state => do
    let _ ← visit state
    .error invalidTree
  | depth + 1, oid, leading, state => do
    let state ← visit state
    reject (state.active.contains oid) invalidTree
    let object ← required objects[oid]? invalidTree
    reject (object.kind ≠ .tree) invalidTree
    let entries ← required (lib.entries object.data) invalidTree
    reject (!windowsOrdered lib entries) invalidTree
    let state ← entries.foldlM (flattenEntry objects (flattenTree depth) leading)
      { state with active := state.active.insert oid }
    .ok { state with active := state.active.erase oid }

/-- How many trees may stand inside one another. -/
def maxTreeDepth : Nat := 64

/-- The files of a tree, as they are read for a snapshot, and the visits left. -/
def readTree (oid : ObjectId) (visits : Nat) : Except BackendError (OrdMap PortablePath Bytes × Nat) := do
  let state ← flattenTree lib objects (maxTreeDepth + 1) oid [] ⟨∅, ∅, visits⟩
  .ok (state.files, state.remainingVisits)

end Reading

end Kitrove.Git
