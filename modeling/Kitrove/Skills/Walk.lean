import Kitrove.Skills.Names
import Kitrove.Support.Segments
import Mathlib.Data.List.Induction

/-! The walk of a capture visits every entry of the tree, and keeps the files that it visits. -/

namespace Kitrove.Skills

open Std Slices Segments Except

/-- The entries of a tree that lie below its root. -/
inductive DirectoryTree.Entry (tree : DirectoryTree) : List FileName → Prop
  | root {name : FileName} : name ∈ tree.entries [] → tree.Entry [name]
  | child {path : List FileName} {name : FileName} : tree.Entry path →
      tree.node path = .directory → name ∈ tree.entries path → tree.Entry (path ++ [name])

def pathText (path : List FileName) : Bytes := join 0x2F (path.map FileName.encoded)

section Paths

variable {tree : DirectoryTree} {path other : List FileName} {name : FileName}

theorem FileName.ext_encoded {a b : FileName} (h : a.encoded = b.encoded) : a = b := by
  cases a
  cases b
  congr

theorem pathText_nil : pathText [] = [] := rfl

theorem pathText_singleton : pathText [name] = name.encoded := by
  simp [pathText, join]

theorem pathText_append (h : path ≠ []) :
    pathText (path ++ [name]) = pathText path ++ 0x2F :: name.encoded := by
  rw [pathText, List.map_append, join_append (by simpa using h) (by simp)]
  simp [pathText, join]

theorem pathText_ne_nil (h : path ≠ []) : pathText path ≠ [] := by
  intro hnil
  obtain ⟨name, hname⟩ := List.exists_mem_of_ne_nil path h
  obtain ⟨b, hb⟩ := List.exists_mem_of_ne_nil _ name.nonempty
  have hmem : b ∈ pathText path := mem_join_of_mem (List.mem_map_of_mem hname) hb
  rw [hnil] at hmem
  exact List.not_mem_nil hmem

theorem splitOn_pathText (h : path ≠ []) :
    splitOn 0x2F (pathText path) = path.map FileName.encoded := by
  rw [splitOn_eq_splitOn]
  refine splitOn_join (by simpa using h) fun segment hsegment => ?_
  obtain ⟨name, -, rfl⟩ := List.mem_map.mp hsegment
  exact name.noSeparator

theorem pathText_injective (hp : path ≠ []) (ho : other ≠ []) (h : pathText path = pathText other) :
    path = other := by
  have hsplit := congrArg (splitOn 0x2F) h
  rw [splitOn_pathText hp, splitOn_pathText ho] at hsplit
  exact List.map_injective_iff.mpr (fun _ _ => FileName.ext_encoded) hsplit

theorem entryKey_pathText : entryKey (pathText path) name = pathText (path ++ [name]) := by
  unfold entryKey
  by_cases h : path = []
  · subst h
    change name.encoded = pathText [name]
    rw [pathText_singleton]
  · rw [if_neg (by simpa using pathText_ne_nil h), pathText_append h, List.append_assoc]
    rfl

/-- An entry below another one lies in a directory. -/
theorem DirectoryTree.Entry.inside {rest : List FileName} (h : tree.Entry (path ++ name :: rest))
    (hpath : path ≠ []) : tree.node path = .directory ∧ name ∈ tree.entries path := by
  induction rest using List.reverseRecOn with
  | nil =>
    generalize hall : path ++ [name] = all at h
    cases h with
    | root hmem =>
      have hlength := congrArg List.length hall
      rw [List.length_append, List.length_singleton, List.length_singleton] at hlength
      exact absurd (List.length_eq_zero_iff.mp (by omega)) hpath
    | child hentry hnode hmem =>
      obtain ⟨rfl, hname⟩ := List.append_inj' hall rfl
      cases hname
      exact ⟨hnode, hmem⟩
  | append_singleton rest last ih =>
    generalize hall : path ++ name :: (rest ++ [last]) = all at h
    have hshape : (path ++ name :: rest) ++ [last] = all := by
      rw [← hall, List.append_assoc]
      rfl
    cases h with
    | root hmem =>
      have hlength := congrArg List.length hshape
      rw [List.length_append, List.length_append, List.length_cons, List.length_singleton,
        List.length_singleton] at hlength
      omega
    | child hentry hnode hmem =>
      obtain ⟨hinner, -⟩ := List.append_inj' hshape rfl
      rw [← hinner] at hentry
      exact ih hentry

theorem DirectoryTree.Entry.first (h : tree.Entry path) :
    ∃ name ∈ tree.entries [], [name] <+: path := by
  induction h with
  | root hmem => exact ⟨_, hmem, List.prefix_rfl⟩
  | child _ _ _ ih =>
    obtain ⟨name, hname, hopens⟩ := ih
    exact ⟨name, hname, hopens.trans (List.prefix_append _ _)⟩

end Paths

section Rounds

variable {hooks : CaptureHooks} {unicode : Unicode} {tree : DirectoryTree}
  {state next : CaptureState} {pending rest : Pending} {entry : PendingEntry}

def PendingEntry.path (entry : PendingEntry) : List FileName := entry.parent ++ [entry.fileName]

/-- An entry that has been visited: its path stands under its key, and its name is portable. -/
structure Visited (unicode : Unicode) (state : CaptureState) (path : List FileName) : Prop where
  registered : state.collisionPaths[unicode.supportedPlatformCollisionKey (pathText path)]? =
    some (pathText path)
  portable : ∀ name, path.getLast? = some name →
    validPortableSegment name.encoded = true ∧ 0x5C ∉ name.encoded

/-- The entry and each of its ancestors have been visited. -/
def AllVisited (unicode : Unicode) (state : CaptureState) (path : List FileName) : Prop :=
  ∀ front, front ≠ [] → front <+: path → Visited unicode state front

/-- One state registers what the other one does. -/
def RegistersMore (state next : CaptureState) : Prop :=
  ∀ (key path : Bytes), state.collisionPaths[key]? = some path →
    next.collisionPaths[key]? = some path

theorem AllVisited.mono {path : List FileName} (h : AllVisited unicode state path)
    (hmore : RegistersMore state next) : AllVisited unicode next path := by
  intro front hne hopens
  obtain ⟨hregistered, hportable⟩ := h front hne hopens
  exact ⟨hmore _ _ hregistered, hportable⟩

theorem AllVisited.append {path : List FileName} {name : FileName}
    (h : AllVisited unicode state path) (hlast : Visited unicode state (path ++ [name])) :
    AllVisited unicode state (path ++ [name]) := by
  intro front hne hopens
  rcases List.prefix_concat_iff.mp hopens with rfl | hopens
  · exact hlast
  · exact h front hne hopens

theorem allVisited_nil : AllVisited unicode state [] := fun _ hne hopens =>
  absurd (List.prefix_nil.mp hopens) hne

theorem popFirst_eq_some (h : popFirst pending = some (entry, rest)) :
    ∃ key, pending[key]? = some entry ∧ rest = pending.erase key := by
  obtain ⟨key, -, h⟩ := Option.bind_eq_some_iff.mp h
  obtain ⟨found, hfound, h⟩ := Option.bind_eq_some_iff.mp h
  cases h
  exact ⟨key, hfound, rfl⟩

theorem popFirst_eq_none (h : popFirst pending = none) : pending = ∅ := by
  unfold popFirst at h
  cases hkeys : pending.keys with
  | nil => exact ExtTreeMap.keys_eq_nil_iff.mp hkeys
  | cons key keys =>
    have hmem : key ∈ pending := ExtTreeMap.mem_keys.mp (hkeys ▸ List.mem_cons_self)
    obtain ⟨found, hfound⟩ := OrdMap.mem_iff_getElem?.mp hmem
    rw [hkeys] at h
    change (pending[key]? >>= _) = none at h
    rw [hfound] at h
    contradiction

theorem registerPortablePath_eq_ok {portable : PortablePath} {displayPath : Bytes}
    (h : registerPortablePath unicode state portable displayPath = .ok next) :
    ∃ paths, next = { state with collisionPaths := paths } ∧ RegistersMore state next ∧
      paths[unicode.supportedPlatformCollisionKey portable.bytes]? = some portable.bytes ∧
      ∀ key path : Bytes, paths[key]? = some path → state.collisionPaths[key]? = some path ∨
        key = unicode.supportedPlatformCollisionKey portable.bytes ∧ path = portable.bytes := by
  unfold registerPortablePath at h
  dsimp only at h
  split at h
  · rename_i existing hexisting
    split at h
    · contradiction
    · rename_i hsame
      rw [ne_eq, not_not] at hsame
      cases h
      rw [hsame] at hexisting
      exact ⟨state.collisionPaths, rfl, fun _ _ h => h, hexisting, fun _ _ h => .inl h⟩
  · rename_i hnew
    cases h
    refine ⟨_, rfl, fun key path hpath => ?_, ExtTreeMap.getElem?_insert_self, fun key path hpath => ?_⟩
    · change (state.collisionPaths.insert _ _)[key]? = some path
      rw [ExtTreeMap.getElem?_insert]
      split
      · rename_i heq
        rw [LawfulEqCmp.eq_of_compare heq, hpath] at hnew
        contradiction
      · exact hpath
    · rw [ExtTreeMap.getElem?_insert] at hpath
      split at hpath
      · rename_i heq
        cases hpath
        exact .inr ⟨(LawfulEqCmp.eq_of_compare heq).symm, rfl⟩
      · exact .inl hpath

/-- The entries of a directory are added to the pending ones. -/
theorem foldl_insertEntry {directory : List FileName} {relative : Option Bytes}
    {directoryKey displayPath : Bytes} {depth : Nat} {names : List FileName} :
    (∀ key e, (names.foldl (insertEntry directory relative directoryKey displayPath depth)
        pending)[key]? = some e → pending[key]? = some e ∨
        ∃ name ∈ names, key = entryKey directoryKey name ∧ e = ⟨directory, name, relative,
          directoryKey, displayPath ++ 0x2F :: name.encoded, depth⟩) ∧
      (∀ key, key ∈ pending → key ∈ names.foldl
        (insertEntry directory relative directoryKey displayPath depth) pending) ∧
      (∀ name ∈ names, entryKey directoryKey name ∈ names.foldl
        (insertEntry directory relative directoryKey displayPath depth) pending) ∧
      (names.foldl (insertEntry directory relative directoryKey displayPath depth) pending).size ≤
        pending.size + names.length := by
  induction names generalizing pending with
  | nil => exact ⟨fun _ _ h => .inl h, fun _ h => h, nofun, Nat.le_refl _⟩
  | cons name names ih =>
    rw [List.foldl_cons]
    obtain ⟨hfound, hkept, hadded, hsize⟩ :=
      @ih (insertEntry directory relative directoryKey displayPath depth pending name)
    refine ⟨fun key e he => ?_, fun key hkey => ?_, fun other hother => ?_, ?_⟩
    · rcases hfound key e he with he | ⟨other, hother, hrest⟩
      · rw [insertEntry, ExtTreeMap.getElem?_insert] at he
        split at he
        · rename_i heq
          cases he
          exact .inr ⟨name, List.mem_cons_self, (LawfulEqCmp.eq_of_compare heq).symm, rfl⟩
        · exact .inl he
      · exact .inr ⟨other, List.mem_cons_of_mem _ hother, hrest⟩
    · refine hkept key ?_
      rw [insertEntry, ExtTreeMap.mem_insert]
      exact .inr hkey
    · rcases List.mem_cons.mp hother with rfl | hother
      · refine hkept _ ?_
        rw [insertEntry, ExtTreeMap.mem_insert]
        exact .inl ReflCmp.compare_self
      · exact hadded other hother
    · have hinsert := @ExtTreeMap.size_insert_le _ _ _ pending _ (entryKey directoryKey name)
        ⟨directory, name, relative, directoryKey, displayPath ++ 0x2F :: name.encoded, depth⟩
      rw [insertEntry] at hsize
      rw [List.length_cons]
      exact Nat.le_trans hsize (by omega)

/-- What a round leaves: the visited entry, the kept file, or the entries of the directory. -/
structure RoundResult (unicode : Unicode) (tree : DirectoryTree) (entry : PendingEntry)
    (state : CaptureState) (pending : Pending) (next : CaptureState) (rest : Pending) : Prop where
  more : RegistersMore state next
  visited : Visited unicode next entry.path
  keys : (∀ key path : Bytes, state.collisionPaths[key]? = some path →
      unicode.supportedPlatformCollisionKey path = key) →
    ∀ key path : Bytes, next.collisionPaths[key]? = some path →
      unicode.supportedPlatformCollisionKey path = key
  files : ∀ portable ∈ next.files, portable ∈ state.files ∨ portable.bytes = pathText entry.path
  kept : ∀ key ∈ pending, key ∈ rest
  found : ∀ (key : Bytes) (e : PendingEntry), rest[key]? = some e → pending[key]? = some e ∨
    key = pathText e.path ∧ e.parent = entry.path ∧ e.parentKey = pathText e.parent ∧
      e.parentRelative = some (pathText e.parent) ∧ tree.node entry.path = .directory ∧
      e.fileName ∈ tree.entries entry.path
  inner : tree.node entry.path = .directory →
    ∀ name ∈ tree.entries entry.path, pathText (entry.path ++ [name]) ∈ rest
  maxEntries : next.maxEntries = state.maxEntries
  budget : next.visitedEntries ≤ next.maxEntries ∧
    rest.size + state.visitedEntries ≤ pending.size + next.visitedEntries

theorem captureFile_eq_ok {path bytes : Bytes} {portable : PortablePath} {mode : FileMode}
    (h : captureFile hooks path portable mode bytes state = .ok next) :
    next = { state with
      totalBytes := state.totalBytes + bytes.length
      files := state.files.insert portable ⟨mode, bytes⟩ } := by
  unfold captureFile at h
  dsimp only at h
  obtain ⟨-, h⟩ := refuse_bind_eq_ok.mp h
  obtain ⟨-, h⟩ := refuse_bind_eq_ok.mp h
  obtain ⟨-, h⟩ := refuse_bind_eq_ok.mp h
  obtain ⟨-, h⟩ := refuse_bind_eq_ok.mp h
  obtain ⟨-, h⟩ := refuse_bind_eq_ok.mp h
  obtain ⟨-, h⟩ := refuse_bind_eq_ok.mp h
  exact (pure_eq_ok_iff.mp h).symm

/-- The entries of a directory fit the limit, and wait for their turn. -/
theorem enqueueDirectoryEntries_eq_ok {directory : List FileName} {relative : Option Bytes}
    {directoryKey displayPath : Bytes} {depth : Nat}
    (h : enqueueDirectoryEntries tree directory relative directoryKey displayPath depth state pending =
      .ok (next, rest)) :
    (tree.entries directory).length ≤ state.maxEntries - state.visitedEntries ∧
      next = { state with
        visitedEntries := saturatingAdd state.visitedEntries (tree.entries directory).length } ∧
      ∃ names : List FileName, names.Perm (tree.entries directory) ∧
        rest = names.foldl (insertEntry directory relative directoryKey displayPath depth) pending := by
  unfold enqueueDirectoryEntries at h
  dsimp only at h
  obtain ⟨hfits, h⟩ := refuse_bind_eq_ok.mp h
  have hfits := of_decide_eq_false hfits
  cases h
  exact ⟨Nat.not_lt.mp hfits, rfl, _, List.perm_insertionSort _ _, rfl⟩

theorem captureDirectory_eq_ok {portable : PortablePath}
    (h : captureDirectory hooks tree entry portable state pending = .ok (next, rest)) :
    ∃ visited, enqueueDirectoryEntries tree entry.path (some portable.bytes)
      (entryKey entry.parentKey entry.fileName) entry.displayPath (saturatingAdd entry.depth 1)
      { state with visitedDirectories := visited } pending = .ok (next, rest) := by
  unfold captureDirectory at h
  dsimp only at h
  obtain ⟨-, h⟩ := refuse_bind_eq_ok.mp h
  obtain ⟨-, h⟩ := refuse_bind_eq_ok.mp h
  obtain ⟨-, h⟩ := refuse_bind_eq_ok.mp h
  obtain ⟨-, h⟩ := refuse_bind_eq_ok.mp h
  exact ⟨_, h⟩

/-- A path that is parsed is the text, and has no backslash in it. -/
theorem parsePath_eq_some {value : Bytes} {portable : PortablePath}
    (h : Name.parse .path value = some portable) : portable.bytes = value ∧ 0x5C ∉ value := by
  unfold Name.parse at h
  split at h
  · rename_i hvalid
    cases h
    have hpath : validPath value = true := hvalid.1
    unfold validPath at hpath
    simp only [Bool.not_eq_true', Bool.or_eq_false_iff] at hpath
    refine ⟨rfl, fun hmem => ?_⟩
    rw [List.contains_iff_mem.mpr hmem] at hpath
    exact absurd hpath.1.1.2 (by decide)
  · contradiction

variable (unicode tree) in
/-- What is known of the walk between two rounds. -/
structure Walking (state : CaptureState) (pending : Pending) : Prop where
  keys : ∀ key path : Bytes, state.collisionPaths[key]? = some path →
    unicode.supportedPlatformCollisionKey path = key
  files : ∀ portable ∈ state.files, ∃ path, tree.Entry path ∧ portable.bytes = pathText path ∧
    AllVisited unicode state path
  pendingKey : ∀ (key : Bytes) (e : PendingEntry), pending[key]? = some e → key = pathText e.path
  pendingEntry : ∀ (key : Bytes) (e : PendingEntry), pending[key]? = some e → tree.Entry e.path
  pendingNames : ∀ (key : Bytes) (e : PendingEntry), pending[key]? = some e → e.parentKey = pathText e.parent ∧
    e.parentRelative = if e.parent = [] then none else some (pathText e.parent)
  pendingVisited : ∀ (key : Bytes) (e : PendingEntry), pending[key]? = some e → AllVisited unicode state e.parent
  covered : ∀ path, tree.Entry path → AllVisited unicode state path ∨
    ∃ (key : Bytes) (e : PendingEntry), pending[key]? = some e ∧ e.path <+: path
  budget : state.visitedEntries ≤ state.maxEntries ∧ state.maxEntries < wordLimit

theorem saturatingAdd_of_lt {a b : Nat} (h : a + b < wordLimit) : saturatingAdd a b = a + b := by
  unfold saturatingAdd
  omega

/-- One round: the entry that was waiting is visited. -/
theorem captureEntry_eq_ok (hbudget : state.visitedEntries ≤ state.maxEntries ∧
      state.maxEntries < wordLimit)
    (hkey : entry.parentKey = pathText entry.parent)
    (hrelative : entry.parentRelative =
      if entry.parent = [] then none else some (pathText entry.parent))
    (h : captureEntry hooks unicode tree entry state pending = .ok (next, rest)) :
    RoundResult unicode tree entry state pending next rest := by
  unfold captureEntry at h
  dsimp only at h
  obtain ⟨name, hname, h⟩ := bind_eq_ok_iff.mp h
  have hname := okOr_eq_ok.mp hname
  unfold FileName.toStr at hname
  split at hname
  · cases hname
    obtain ⟨hsegment, h⟩ := refuse_bind_eq_ok.mp h
    rw [Bool.not_eq_false'] at hsegment
    obtain ⟨portable, hportable, h⟩ := bind_eq_ok_iff.mp h
    obtain ⟨hbytes, hback⟩ := parsePath_eq_some (okOr_eq_ok.mp hportable)
    have hnext : entryKey entry.parentKey entry.fileName = pathText entry.path := by
      rw [hkey, entryKey_pathText]
      rfl
    -- the path is that of the entry
    have htext : relativePath entry.parentRelative entry.fileName.encoded = pathText entry.path := by
      rw [hrelative, PendingEntry.path]
      by_cases hparent : entry.parent = []
      · rw [if_pos hparent, hparent]
        exact pathText_singleton.symm
      · rw [if_neg hparent, pathText_append hparent]
        rfl
    rw [htext] at hbytes hback
    obtain ⟨registered, hregister, h⟩ := bind_eq_ok_iff.mp h
    obtain ⟨paths, rfl, hmore, hentry, hkeys⟩ := registerPortablePath_eq_ok hregister
    rw [hbytes] at hentry hkeys
    have hlast : ∀ last, entry.path.getLast? = some last →
        validPortableSegment last.encoded = true ∧ 0x5C ∉ last.encoded := by
      intro last hlast
      rw [PendingEntry.path, List.getLast?_concat, Option.some.injEq] at hlast
      subst hlast
      refine ⟨hsegment, fun hmem => hback ?_⟩
      refine mem_join_of_mem (List.mem_map_of_mem ?_) hmem
      rw [PendingEntry.path]
      exact List.mem_append_right _ (List.mem_singleton.mpr rfl)
    have hsameKeys : (∀ key path : Bytes, state.collisionPaths[key]? = some path →
          unicode.supportedPlatformCollisionKey path = key) →
        ∀ key path : Bytes, paths[key]? = some path →
          unicode.supportedPlatformCollisionKey path = key := by
      intro hold key path hpath
      rcases hkeys key path hpath with hpath | ⟨rfl, rfl⟩
      · exact hold key path hpath
      · rfl
    cases hnode : tree.node (entry.parent ++ [entry.fileName]) with
    | symlink | reparsePoint | special =>
      rw [hnode] at h
      contradiction
    | file mode bytes =>
      rw [hnode] at h
      obtain ⟨-, h⟩ := refuse_bind_eq_ok.mp h
      obtain ⟨kept, hkept, h⟩ := bind_eq_ok_iff.mp h
      have hkept := captureFile_eq_ok hkept
      cases h
      subst hkept
      refine ⟨hmore, ⟨hentry, hlast⟩, hsameKeys, fun other hother => ?_, fun _ h => h,
        fun _ _ h => .inl h, fun hdirectory => ?_, rfl, hbudget.1, Nat.le_refl _⟩
      · rcases ExtTreeMap.mem_insert.mp hother with heq | hother
        · rw [← LawfulEqCmp.eq_of_compare heq]
          exact .inr hbytes
        · exact .inl hother
      · rw [PendingEntry.path, hnode] at hdirectory
        contradiction
    | directory =>
      rw [hnode] at h
      obtain ⟨visited, h⟩ := captureDirectory_eq_ok h
      obtain ⟨hfits, rfl, names, hperm, rfl⟩ := enqueueDirectoryEntries_eq_ok h
      dsimp only at hfits
      rw [hnext, hbytes]
      have hadd : saturatingAdd state.visitedEntries (tree.entries entry.path).length =
          state.visitedEntries + (tree.entries entry.path).length :=
        saturatingAdd_of_lt (by omega)
      obtain ⟨hfound, hkept, hadded, hsize⟩ := @foldl_insertEntry pending entry.path
        (some (pathText entry.path)) (pathText entry.path) entry.displayPath
        (saturatingAdd entry.depth 1) names
      refine ⟨hmore, ⟨hentry, hlast⟩, hsameKeys, fun _ h => .inl h, hkept, fun key e he => ?_,
        fun _ name hname => ?_, rfl, ?_, ?_⟩
      · rcases hfound key e he with he | ⟨name, hname, rfl, rfl⟩
        · exact .inl he
        · exact .inr ⟨entryKey_pathText, rfl, rfl, rfl, hnode, hperm.mem_iff.mp hname⟩
      · rw [← entryKey_pathText]
        exact hadded name (hperm.mem_iff.mpr hname)
      · change saturatingAdd state.visitedEntries (tree.entries entry.path).length ≤ state.maxEntries
        omega
      · change _ + state.visitedEntries ≤ pending.size +
          saturatingAdd state.visitedEntries (tree.entries entry.path).length
        rw [hperm.length_eq] at hsize
        omega
  · contradiction

/-- A round keeps what is known of the walk. -/
theorem Walking.round {key : Bytes} (hw : Walking unicode tree state pending)
    (hpop : pending[key]? = some entry)
    (h : RoundResult unicode tree entry state (pending.erase key) next rest) :
    Walking unicode tree next rest := by
  have herase : ∀ (other : Bytes) (e : PendingEntry), (pending.erase key)[other]? = some e →
      pending[other]? = some e := by
    intro other e he
    rw [ExtTreeMap.getElem?_erase] at he
    split at he
    · contradiction
    · exact he
  have hparent := (hw.pendingVisited key entry hpop).mono h.more
  have hentry : AllVisited unicode next entry.path := hparent.append h.visited
  have hkey : ∀ (other : Bytes) (e : PendingEntry), rest[other]? = some e →
      other = pathText e.path := by
    intro other e he
    rcases h.found other e he with he | ⟨hother, -⟩
    · exact hw.pendingKey other e (herase other e he)
    · exact hother
  -- what waits under the key of a path is that path
  have hwaiting : ∀ path, path ≠ [] → pathText path ∈ rest →
      ∃ (other : Bytes) (e : PendingEntry), rest[other]? = some e ∧ e.path = path := by
    intro path hne hmem
    obtain ⟨e, he⟩ := OrdMap.mem_iff_getElem?.mp hmem
    exact ⟨_, e, he, pathText_injective (by simp [PendingEntry.path]) hne (hkey _ e he).symm⟩
  refine ⟨h.keys hw.keys, ?_, hkey, ?_, ?_, ?_, ?_, ?_⟩
  · intro portable hportable
    rcases h.files portable hportable with hportable | hbytes
    · obtain ⟨path, hpath, hbytes, hvisited⟩ := hw.files portable hportable
      exact ⟨path, hpath, hbytes, hvisited.mono h.more⟩
    · exact ⟨entry.path, hw.pendingEntry key entry hpop, hbytes, hentry⟩
  · intro other e he
    rcases h.found other e he with he | ⟨-, hdirectory, -, -, hnode, hname⟩
    · exact hw.pendingEntry other e (herase other e he)
    · rw [PendingEntry.path, hdirectory]
      exact .child (hw.pendingEntry key entry hpop) hnode hname
  · intro other e he
    rcases h.found other e he with he | ⟨-, hdirectory, hparentKey, hrelative, -⟩
    · exact hw.pendingNames other e (herase other e he)
    · refine ⟨hparentKey, ?_⟩
      rw [hrelative, if_neg]
      rw [hdirectory]
      simp [PendingEntry.path]
  · intro other e he
    rcases h.found other e he with he | ⟨-, hdirectory, -⟩
    · exact (hw.pendingVisited other e (herase other e he)).mono h.more
    · rw [hdirectory]
      exact hentry
  · intro path hpath
    rcases hw.covered path hpath with hvisited | ⟨other, e, he, hopens⟩
    · exact .inl (hvisited.mono h.more)
    by_cases hother : other = key
    · -- the path is that of the entry, or below it
      rw [hother, hpop] at he
      cases he
      obtain ⟨below, rfl⟩ := hopens
      cases below with
      | nil =>
        rw [List.append_nil]
        exact .inl hentry
      | cons name below =>
        obtain ⟨hdirectory, hname⟩ := hpath.inside (by simp [PendingEntry.path])
        obtain ⟨other, e, he, hsame⟩ := hwaiting _ (by simp) (h.inner hdirectory name hname)
        refine .inr ⟨other, e, he, ?_⟩
        rw [hsame]
        exact ⟨below, by rw [List.append_assoc, List.singleton_append]⟩
    · have hkept : (pending.erase key)[other]? = some e := by
        rw [ExtTreeMap.getElem?_erase, if_neg, he]
        exact fun heq => hother (LawfulEqCmp.eq_of_compare heq).symm
      have hmem := h.kept other (OrdMap.mem_iff_getElem?.mpr ⟨e, hkept⟩)
      rw [hw.pendingKey other e he] at hmem
      obtain ⟨other', e', he', hsame⟩ := hwaiting _ (by simp [PendingEntry.path]) hmem
      exact .inr ⟨other', e', he', by rwa [hsame]⟩
  · obtain ⟨-, hlimit⟩ := hw.budget
    exact ⟨h.budget.1, by rwa [h.maxEntries]⟩

/-- When nothing is left to visit, every entry of the tree has been visited. -/
theorem captureLoop_eq_ok {fuel : Nat} (hw : Walking unicode tree state pending)
    (h : captureLoop hooks unicode tree fuel state pending = .ok next) :
    Walking unicode tree next ∅ := by
  induction fuel generalizing state pending with
  | zero => contradiction
  | succ fuel ih =>
    rw [captureLoop] at h
    cases hpop : popFirst pending with
    | none =>
      rw [hpop] at h
      cases h
      rwa [popFirst_eq_none hpop] at hw
    | some popped =>
      obtain ⟨entry, popped⟩ := popped
      rw [hpop] at h
      obtain ⟨⟨after, rest⟩, hround, hlater⟩ := bind_eq_ok_iff.mp h
      obtain ⟨key, hentry, rfl⟩ := popFirst_eq_some hpop
      obtain ⟨hparentKey, hrelative⟩ := hw.pendingNames key entry hentry
      exact ih (hw.round hentry (captureEntry_eq_ok hw.budget hparentKey hrelative hround)) hlater

theorem enqueueDirectoryEntries_safe {directory : List FileName} {relative : Option Bytes}
    {directoryKey displayPath : Bytes} {depth : Nat} :
    Safe (enqueueDirectoryEntries tree directory relative directoryKey displayPath depth state
      pending) := by
  unfold enqueueDirectoryEntries
  exact safe_refuse.bind fun _ _ => safe_pure

theorem captureEntry_safe : Safe (captureEntry hooks unicode tree entry state pending) := by
  unfold captureEntry
  dsimp only
  refine safe_okOr.bind fun name _ => safe_refuse.bind fun _ _ => safe_okOr.bind fun portable _ => ?_
  refine Safe.bind ?_ fun registered _ => ?_
  · unfold registerPortablePath
    dsimp only
    split
    · exact Safe.ite (fun _ => safe_refused) fun _ => safe_pure
    · exact safe_pure
  cases tree.node (entry.parent ++ [entry.fileName]) with
  | symlink | reparsePoint | special => exact safe_refused
  | file mode bytes =>
    refine safe_refuse.bind fun _ _ => Safe.bind ?_ fun _ _ => safe_pure
    unfold captureFile
    dsimp only
    refine safe_refuse.bind fun _ _ => safe_refuse.bind fun _ _ => safe_refuse.bind fun _ _ => ?_
    exact safe_refuse.bind fun _ _ => safe_refuse.bind fun _ _ => safe_refuse.bind fun _ _ => safe_pure
  | directory =>
    unfold captureDirectory
    dsimp only
    refine safe_refuse.bind fun _ _ => safe_refuse.bind fun _ _ => safe_refuse.bind fun _ _ => ?_
    exact safe_refuse.bind fun _ _ => enqueueDirectoryEntries_safe

/-- The walk ends within the limit on entries. -/
theorem captureLoop_safe {fuel : Nat} (hw : Walking unicode tree state pending)
    (hfuel : pending.size + (state.maxEntries - state.visitedEntries) < fuel) :
    Safe (captureLoop hooks unicode tree fuel state pending) := by
  induction fuel generalizing state pending with
  | zero => exact absurd hfuel (Nat.not_lt_zero _)
  | succ fuel ih =>
    rw [captureLoop]
    cases hpop : popFirst pending with
    | none => exact safe_pure
    | some popped =>
      obtain ⟨entry, popped⟩ := popped
      refine captureEntry_safe.bind fun result hround => ?_
      obtain ⟨after, rest⟩ := result
      obtain ⟨key, hentry, rfl⟩ := popFirst_eq_some hpop
      obtain ⟨hparentKey, hrelative⟩ := hw.pendingNames key entry hentry
      have hresult := captureEntry_eq_ok hw.budget hparentKey hrelative hround
      have hmem : key ∈ pending := OrdMap.mem_iff_getElem?.mpr ⟨entry, hentry⟩
      have hsize : (pending.erase key).size = pending.size - 1 := by
        rw [ExtTreeMap.size_erase, if_pos (ExtTreeMap.contains_iff_mem.mpr hmem)]
      have hpos : pending.size ≠ 0 := fun hzero => by
        rw [ExtTreeMap.eq_empty_iff_size_eq_zero.mpr hzero] at hmem
        exact ExtTreeMap.not_mem_empty hmem
      obtain ⟨hvisited, hgrown⟩ := hresult.budget
      have hmax := hresult.maxEntries
      have hbefore := hw.budget.1
      exact ih (hw.round hentry hresult) (by omega)

/-- The walk starts with the entries of the root. -/
theorem walking_root {displayPath : Bytes} {limits : CaptureLimits}
    (h : enqueueDirectoryEntries tree [] none [] displayPath 0 (.new limits) ∅ = .ok (next, rest)) :
    Walking unicode tree next rest ∧
      rest.size + (next.maxEntries - next.visitedEntries) < next.maxEntries + 1 := by
  obtain ⟨hfits, rfl, names, hperm, rfl⟩ := enqueueDirectoryEntries_eq_ok h
  have hlimit : (CaptureState.new limits).maxEntries < wordLimit := by
    change min _ (wordLimit - 1) < wordLimit
    have hpos : 0 < wordLimit := by decide
    omega
  have hstart : (CaptureState.new limits).visitedEntries = 0 := rfl
  have hvisited : saturatingAdd (CaptureState.new limits).visitedEntries (tree.entries []).length =
      (tree.entries []).length := by
    rw [saturatingAdd_of_lt (by omega), hstart, Nat.zero_add]
  obtain ⟨hfound, -, hadded, hsize⟩ := @foldl_insertEntry ∅ [] none [] displayPath 0 names
  have hentry : ∀ (key : Bytes) (e : PendingEntry),
      (names.foldl (insertEntry [] none [] displayPath 0) ∅)[key]? = some e →
      key = pathText e.path ∧ e.parent = [] ∧ e.parentKey = [] ∧ e.parentRelative = none ∧
        tree.Entry e.path := by
    intro key e he
    rcases hfound key e he with he | ⟨name, hname, rfl, rfl⟩
    · rw [ExtTreeMap.getElem?_empty] at he
      exact (nomatch he)
    · exact ⟨@entryKey_pathText [] name, rfl, rfl, rfl, .root (hperm.mem_iff.mp hname)⟩
  refine ⟨⟨?_, ?_, ?_, ?_, ?_, ?_, ?_, ?_⟩, ?_⟩
  · intro key path hpath
    change (∅ : OrdMap Bytes Bytes)[key]? = some path at hpath
    rw [ExtTreeMap.getElem?_empty] at hpath
    exact (nomatch hpath)
  · intro portable hportable
    exact absurd hportable ExtTreeMap.not_mem_empty
  · exact fun key e he => (hentry key e he).1
  · exact fun key e he => (hentry key e he).2.2.2.2
  · intro key e he
    obtain ⟨-, hparent, hkey, hrelative, -⟩ := hentry key e he
    rw [hparent, hkey, hrelative]
    exact ⟨rfl, rfl⟩
  · intro key e he
    rw [(hentry key e he).2.1]
    exact allVisited_nil
  · intro path hpath
    obtain ⟨name, hname, hopens⟩ := hpath.first
    obtain ⟨e, he⟩ := OrdMap.mem_iff_getElem?.mp (hadded name (hperm.mem_iff.mpr hname))
    obtain ⟨hkey, hparent, -⟩ := hentry _ e he
    have hsame : e.path = [name] := by
      refine (pathText_injective (by simp) (by simp [PendingEntry.path]) ?_).symm
      rw [← hkey]
      exact (@entryKey_pathText [] name).symm
    exact .inr ⟨_, e, he, by rwa [hsame]⟩
  · change saturatingAdd _ _ ≤ _ ∧ (CaptureState.new limits).maxEntries < wordLimit
    exact ⟨by dsimp only; omega, hlimit⟩
  · have hempty : (∅ : Pending).size = 0 := ExtTreeMap.size_empty
    rw [hperm.length_eq, hempty] at hsize
    dsimp only
    omega

end Rounds

end Kitrove.Skills
