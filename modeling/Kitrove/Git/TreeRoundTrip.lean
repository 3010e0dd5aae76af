import Kitrove.Git.TreeReading

/-! Snapshots as trees of objects: which snapshots can be written, and what is read back of them. -/

namespace Kitrove.Git

open Std
open FileTree (All Distinct WellFormed)

section Files

variable {files other flat : OrdMap PortablePath Bytes} {tree root : GitTreeNode} {path : List Bytes}

theorem nodup_shown : ((shown files).map Prod.fst).Nodup := by
  have hmap : (Prod.fst ∘ fun file : PortablePath × Bytes => (segments file.1, file.2)) =
    segments ∘ Prod.fst := rfl
  rw [shown, List.map_map, hmap, ← List.map_map]
  exact OrdMap.nodup_keys_toList.map fun _ _ => segments_injective

theorem mem_shown_iff {p : PortablePath} {bytes : Bytes} :
    (segments p, bytes) ∈ shown files ↔ files[p]? = some bytes := by
  rw [shown, List.mem_map]
  constructor
  · rintro ⟨⟨q, bytes'⟩, hmem, heq⟩
    obtain ⟨hsegments, rfl⟩ := Prod.mk.inj heq
    rw [← segments_injective hsegments]
    exact ExtTreeMap.mem_toList_iff_getElem?_eq_some.mp hmem
  · intro h
    exact ⟨(p, bytes), ExtTreeMap.mem_toList_iff_getElem?_eq_some.mpr h, rfl⟩

/-- A map of files is known from what it shows. -/
theorem eq_of_shown (h : (shown files).Perm (shown other)) : files = other := by
  refine ExtTreeMap.ext_getElem? fun p => Option.ext fun bytes => ?_
  rw [← mem_shown_iff, ← mem_shown_iff]
  exact h.mem_iff

theorem Shows.leaves (h : Shows tree flat.toList) : tree.leaves.Perm (shown flat) := by
  refine (List.perm_ext_iff_of_nodup (FileTree.nodup_leaves h.wellFormed.distinct).of_map
    nodup_shown.of_map).mpr fun leaf => ?_
  obtain ⟨path, bytes⟩ := leaf
  rw [FileTree.mem_leaves h.wellFormed.distinct, h.get, shown, List.mem_map]
  simp only [Prod.mk.injEq]

theorem mem_toList {p : PortablePath} : p ∈ files ↔ ∃ bytes, (p, bytes) ∈ files.toList := by
  simp only [OrdMap.mem_iff_getElem?, ExtTreeMap.mem_toList_iff_getElem?_eq_some]

/-- A snapshot is put into a tree exactly where none of its paths leads through another. -/
theorem buildTree_iff : (∃ root, buildTree flat = .ok root) ↔
    ∀ p ∈ flat, ∀ q ∈ flat, segments p <+: segments q → p = q := by
  have hiff := (insertAll_iff flat.toList shows_empty).1
  rw [buildTree, hiff, and_iff_left fun a ha => absurd ha List.not_mem_nil]
  constructor
  · intro hpairwise p hp q hq hle
    obtain ⟨bytes, hbytes⟩ := mem_toList.mp hp
    obtain ⟨bytes', hbytes'⟩ := mem_toList.mp hq
    by_contra hne
    have hsymm : Std.Symm fun a b : PortablePath × Bytes =>
        ¬ segments a.1 <+: segments b.1 ∧ ¬ segments b.1 <+: segments a.1 := ⟨fun _ _ h => ⟨h.2, h.1⟩⟩
    exact (hpairwise.forall hbytes hbytes' fun heq => hne (Prod.mk.inj heq).1).1 hle
  · intro hapart
    refine OrdMap.nodup_keys_toList.of_map.pairwise_of_forall_ne fun a ha b hb hne => ?_
    have hkeys : a.1 ≠ b.1 := fun heq =>
      hne (List.inj_on_of_nodup_map OrdMap.nodup_keys_toList ha hb heq)
    have hmem {file : PortablePath × Bytes} (hfile : file ∈ flat.toList) : file.1 ∈ flat :=
      mem_toList.mpr ⟨file.2, hfile⟩
    exact ⟨fun hle => hkeys (hapart a.1 (hmem ha) b.1 (hmem hb) hle),
      fun hle => hkeys (hapart b.1 (hmem hb) a.1 (hmem ha) hle).symm⟩

theorem Shows.of_buildTree (h : buildTree flat = .ok root) : Shows root flat.toList := by
  have hshows := (insertAll_iff flat.toList shows_empty).2 root h
  rwa [List.nil_append] at hshows

theorem valid_of_join {names : List Bytes} (h : Utf8.valid (Segments.join slash names) = true)
    {name : Bytes} (hname : name ∈ names) : Utf8.valid name = true := by
  induction names with
  | nil => contradiction
  | cons first rest ih =>
    by_cases hrest : rest = []
    · subst hrest
      rw [List.mem_singleton.mp hname]
      simpa [Segments.join] using h
    · rw [Segments.join_cons hrest, Utf8.valid_append_ascii (by decide)] at h
      rcases List.mem_cons.mp hname with rfl | hname
      · exact h.1
      · exact ih h.2 hname

theorem segment_plainName {p : PortablePath} (hutf8 : Utf8.valid p.bytes = true) (hnul : 0 ∉ p.bytes)
    {name : Bytes} (h : name ∈ segments p) : PlainName name := by
  obtain ⟨hne, hdot, hdots⟩ := segment_plain h
  have hjoin : Segments.join slash (segments p) = p.bytes := join_segments
  have hvalid : Utf8.valid name = true := valid_of_join (hjoin ▸ hutf8) h
  refine ⟨?_, fun hzero => hnul (hjoin ▸ Segments.mem_join_of_mem h hzero)⟩
  simp [entryName, hvalid, hne, hdot, hdots, slash_not_mem h]

theorem Shows.storable (h : Shows root flat.toList)
    (hflat : ∀ p ∈ flat, Utf8.valid p.bytes = true ∧ 0 ∉ p.bytes) : All Storable root := by
  have hnames : ∀ leaf ∈ root.leaves, ∀ name ∈ leaf.1, PlainName name := by
    intro leaf hleaf name hname
    obtain ⟨⟨p, bytes⟩, hmem, rfl⟩ := List.mem_map.mp (h.leaves.mem_iff.mp hleaf)
    obtain ⟨hutf8, hnul⟩ := hflat p (OrdMap.mem_iff_getElem?.mpr
      ⟨bytes, ExtTreeMap.mem_toList_iff_getElem?_eq_some.mp hmem⟩)
    exact segment_plainName hutf8 hnul hname
  exact (h.wellFormed.distinct.and (FileTree.all_names h.wellFormed hnames)).mono
    fun files directories hlevel => ⟨hlevel.1, hlevel.2.1, hlevel.2.2⟩

end Files

section RoundTrip

variable {ObjectId : Type} [Ord ObjectId] [TransOrd ObjectId] {lib : GitLibrary ObjectId}
  {objects stored fetched : GitObjectMap ObjectId} {oid : ObjectId} {tree root : GitTreeNode}
  {flat files : OrdMap PortablePath Bytes} {visits rest : Nat}

/-- Reading a held tree, from the root. -/
theorem readTree_eq_ok (hl : lib.Lawful) (hholds : Holds lib objects tree oid) (hstorable : All Storable tree)
    (hpaths : ∀ leaf ∈ tree.leaves, ∃ p : PortablePath, segments p = leaf.1) :
    readTree lib objects oid visits = .ok (files, rest) ↔
      tree.height ≤ maxTreeDepth ∧ rest + tree.size = visits ∧ (shown files).Perm tree.leaves := by
  have hunder : under [] tree.leaves = tree.leaves := by simp [under]
  have hempty : shown ∅ = [] := by simp [shown]
  obtain ⟨hok, herror⟩ := meets_flattenTree (maxTreeDepth + 1) [] hl hholds hstorable
    (fun _ h => absurd h List.not_mem_nil) hpaths ⟨∅, ∅, visits⟩
    (fun oid hactive => absurd hactive (by simp))
    (by rw [Fresh, hempty, hunder]; exact FileTree.nodup_leaves (hstorable.mono fun _ _ h => h.toDistinct))
  rw [hunder] at hok
  rw [readTree]
  by_cases hfits : tree.height < maxTreeDepth + 1 ∧ tree.size ≤ visits
  · obtain ⟨after, hafter, hreads⟩ := hok hfits
    have hvisits : after.remainingVisits + tree.size = visits := hreads.visits
    have hfiles := hreads.files
    rw [hempty, List.nil_append] at hfiles
    simp only [Segments.join, List.intercalate_nil] at hafter
    rw [hafter]
    constructor
    · intro h
      obtain ⟨rfl, rfl⟩ := Prod.mk.inj (Except.ok.inj h)
      exact ⟨Nat.le_of_lt_succ hfits.1, hvisits, hfiles⟩
    · rintro ⟨-, hrest, hshown⟩
      rw [eq_of_shown (hshown.trans hfiles.symm), Nat.add_right_cancel (hrest.trans hvisits.symm)]
      rfl
  · obtain ⟨e, he⟩ := herror hfits
    simp only [Segments.join, List.intercalate_nil] at he
    rw [he]
    constructor
    · intro h
      cases h
    · rintro ⟨hheight, hrest, -⟩
      exact absurd ⟨Nat.lt_succ_of_le hheight, hrest ▸ Nat.le_add_left _ _⟩ hfits

theorem Shows.paths (h : Shows root flat.toList) :
    ∀ leaf ∈ root.leaves, ∃ p : PortablePath, segments p = leaf.1 := by
  intro leaf hleaf
  obtain ⟨file, -, rfl⟩ := List.mem_map.mp (h.leaves.mem_iff.mp hleaf)
  exact ⟨file.1, rfl⟩

theorem Shows.height_le_iff (h : Shows root flat.toList) {n : Nat} :
    root.height ≤ n ↔ ∀ p ∈ flat, (segments p).length ≤ n + 1 := by
  rw [FileTree.height_le_iff h.wellFormed]
  constructor
  · intro hpaths p hp
    obtain ⟨bytes, hbytes⟩ := mem_toList.mp hp
    exact hpaths _ bytes ((h.get _ _).mpr ⟨_, hbytes, rfl, rfl⟩)
  · intro hpaths path bytes hget
    obtain ⟨file, hfile, rfl, -⟩ := (h.get _ _).mp hget
    exact hpaths file.1 (mem_toList.mpr ⟨file.2, hfile⟩)

/-- What is read of the objects that a snapshot's tree is stored as. -/
theorem Shows.readTree (hl : lib.Lawful) (h : Shows root flat.toList)
    (hflat : ∀ p ∈ flat, Utf8.valid p.bytes = true ∧ 0 ∉ p.bytes) (hholds : Holds lib objects root oid) :
    readTree lib objects oid visits = .ok (files, rest) ↔
      root.height ≤ maxTreeDepth ∧ rest + root.size = visits ∧ files = flat := by
  rw [readTree_eq_ok hl hholds (h.storable hflat) h.paths]
  constructor
  · rintro ⟨hheight, hrest, hshown⟩
    exact ⟨hheight, hrest, eq_of_shown (hshown.trans h.leaves)⟩
  · rintro ⟨hheight, hrest, rfl⟩
    exact ⟨hheight, hrest, h.leaves.symm⟩

/-- What is stored for a snapshot is read back, wherever no path is too long and the visits last; nothing
else is read, and the visits paid are the size of the tree. -/
theorem readTree_storeTree (hl : lib.Lawful) (hflat : ∀ p ∈ flat, Utf8.valid p.bytes = true ∧ 0 ∉ p.bytes)
    (hbuild : buildTree flat = .ok root) (hstore : storeTree lib root objects = .ok (oid, stored))
    (hfetched : Grows stored fetched) :
    readTree lib fetched oid visits = .ok (files, rest) ↔
      files = flat ∧ rest + root.size = visits ∧
        ∀ p ∈ flat, (segments p).length ≤ maxTreeDepth + 1 := by
  have hshows := Shows.of_buildTree hbuild
  have hholds := (storeTree_stored (hshows.storable hflat) hstore).2.mono hfetched
  rw [hshows.readTree hl hflat hholds, hshows.height_le_iff]
  constructor
  · rintro ⟨hlong, hrest, hfiles⟩
    exact ⟨hfiles, hrest, hlong⟩
  · rintro ⟨hfiles, hrest, hlong⟩
    exact ⟨hlong, hrest, hfiles⟩

end RoundTrip

section Sample

/-- Trees of objects with identifiers of twenty equal bytes. -/
def readSampleEntries : Nat → Bytes → Option (List (TreeEntry UInt8))
  | _, [] => some []
  | 0, _ => none
  | fuel + 1, first :: data =>
    let rest := if first = 0x34 then data.drop 5 else data.drop 6
    let name := rest.takeWhile (· ≠ 0)
    (rest.drop (name.length + 1)).head?.bind fun oid =>
      (readSampleEntries fuel (rest.drop (name.length + 21))).map fun entries =>
        ⟨if first = 0x34 then treeMode else blobMode, name, oid⟩ :: entries

def sampleGitLibrary : GitLibrary UInt8 where
  computeHash kind data := some (data.foldl (fun hash b => 31 * hash + b)
    (match kind with | .commit => 1 | .tree => 2 | .blob => 3 | .tag => 4))
  asSlice oid := List.replicate 20 oid
  entries data := readSampleEntries data.length data
  precedes left right := compare (gitTreeKey left.filename (left.mode == treeMode))
    (gitTreeKey right.filename (right.mode == treeMode)) == .lt

theorem readSampleEntries_encode {plain : List (PlainEntry UInt8)} {fuel : Nat}
    (h : ∀ entry ∈ plain, entry.name ≠ [] ∧ 0 ∉ entry.name)
    (hfuel : (encodeEntries sampleGitLibrary plain).length ≤ fuel) :
    readSampleEntries fuel (encodeEntries sampleGitLibrary plain) = some (plain.map PlainEntry.read) := by
  induction plain generalizing fuel with
  | nil => cases fuel <;> rfl
  | cons entry plain ih =>
    obtain ⟨hentry, hplain⟩ := List.forall_mem_cons.mp h
    obtain ⟨name, directory, oid⟩ := entry
    generalize hrest : encodeEntries sampleGitLibrary plain = rest at ih
    have hname : ∀ l : Bytes, (name ++ 0 :: l).takeWhile (· ≠ 0) = name := by
      intro l
      rw [List.takeWhile_append_of_pos fun b hb => by simpa using fun h : b = 0 => hentry.2 (h ▸ hb)]
      simp
    have hafter : ∀ l : Bytes, (name ++ 0 :: l).drop (name.length + 1) = l := by
      intro l
      rw [List.drop_append]
      simp
    have hbehind : (name ++ 0 :: (List.replicate 20 oid ++ rest)).drop (name.length + 21) = rest := by
      rw [List.drop_append]
      simp
    have hencode : encodeEntries sampleGitLibrary (⟨name, directory, oid⟩ :: plain) =
        (if directory then ascii "40000 " else ascii "100644 ") ++
          (name ++ 0 :: (List.replicate 20 oid ++ rest)) := by
      rw [encodeEntries, List.flatMap_cons, ← hrest, encodeEntry, List.append_assoc, List.append_assoc]
      rfl
    rw [hencode] at hfuel ⊢
    cases fuel with
    | zero => cases directory <;> simp [ascii] at hfuel
    | succ fuel =>
      have hlength : rest.length ≤ fuel := by
        cases directory <;> simp [ascii] at hfuel <;> omega
      have hread := ih hplain hlength
      have hne : (0x31 : UInt8) ≠ 0x34 := by decide
      have hhead : ((List.replicate 20 oid ++ rest).head?) = some oid := rfl
      generalize ht : name ++ 0 :: (List.replicate 20 oid ++ rest) = t at hbehind ⊢
      have hnamed : t.takeWhile (· ≠ 0) = name := ht ▸ hname _
      have hbody : t.drop (name.length + 1) = List.replicate 20 oid ++ rest := ht ▸ hafter _
      cases directory with
      | true =>
        have hopening : ascii "40000 " ++ t = 0x34 :: (ascii "0000 " ++ t) := rfl
        have hdrop : (ascii "0000 " ++ t).drop 5 = t := rfl
        simp only [hopening, readSampleEntries, if_true, hdrop, hnamed, hbody, hbehind, hhead, hread,
          Option.bind_some, Option.map_some, List.map_cons, PlainEntry.read]
      | false =>
        have hopening : ascii "100644 " ++ t = 0x31 :: (ascii "00644 " ++ t) := rfl
        have hdrop : (ascii "00644 " ++ t).drop 6 = t := rfl
        simp only [hopening, readSampleEntries, Bool.false_eq_true, if_false, hne, hdrop, hnamed, hbody,
          hbehind, hhead, hread, Option.bind_some, Option.map_some, List.map_cons, PlainEntry.read]

theorem sampleGitLibrary_lawful : sampleGitLibrary.Lawful where
  entries plain h := readSampleEntries_encode h (Nat.le_refl _)
  order left right _ _ := by simp [sampleGitLibrary]

theorem samplePath_valid : NameKind.path.valid (ascii "a/b") = true := by decide

theorem samplePath_bounded : (ascii "a/b").length < 2 ^ 63 := by decide

def samplePath : PortablePath := ⟨ascii "a/b", samplePath_valid, samplePath_bounded⟩

def sampleTree : GitTreeNode := .node [] [(ascii "a", .node [(ascii "b", [1])] [])]

def sampleSnapshot : OrdMap PortablePath Bytes := (∅ : OrdMap PortablePath Bytes).insert samplePath [1]

theorem buildTree_sample : buildTree sampleSnapshot = .ok sampleTree := rfl

theorem mem_sampleSnapshot {p : PortablePath} (h : p ∈ sampleSnapshot) : p = samplePath := by
  rw [sampleSnapshot, ExtTreeMap.mem_insert] at h
  rcases h with hsame | hempty
  · exact (LawfulEqCmp.eq_of_compare hsame).symm
  · exact absurd hempty ExtTreeMap.not_mem_empty

theorem storeTree_sample : ∃ oid stored, storeTree sampleGitLibrary sampleTree ∅ = .ok (oid, stored) := by
  have hok : (storeTree sampleGitLibrary sampleTree ∅).isOk = true := by decide +kernel
  cases hstore : storeTree sampleGitLibrary sampleTree ∅ with
  | error e => exact absurd (hstore ▸ hok) (by simp [Except.isOk, Except.toBool])
  | ok result => exact ⟨result.1, result.2, rfl⟩

theorem sampleSnapshot_plain : ∀ p ∈ sampleSnapshot, Utf8.valid p.bytes = true ∧ 0 ∉ p.bytes := by
  intro p hp
  rw [mem_sampleSnapshot hp]
  decide

theorem readTree_storeTree_sample : ∃ oid stored,
    storeTree sampleGitLibrary sampleTree ∅ = .ok (oid, stored) ∧
      readTree sampleGitLibrary stored oid 3 = .ok (sampleSnapshot, 0) := by
  obtain ⟨oid, stored, hstore⟩ := storeTree_sample
  refine ⟨oid, stored, hstore, (readTree_storeTree sampleGitLibrary_lawful sampleSnapshot_plain
    buildTree_sample hstore .refl).mpr ⟨rfl, rfl, fun p hp => ?_⟩⟩
  rw [mem_sampleSnapshot hp]
  decide

end Sample

end Kitrove.Git
