import Kitrove.Git.TreeBuilding

/-! The objects that a tree is stored as, and what they hold. -/

namespace Kitrove.Git

open Std
open FileTree (All Distinct)

section Names

/-- A name that an entry of a tree can be written and read under. -/
def PlainName (name : Bytes) : Prop := entryName name = true ∧ 0 ∉ name

variable {name : Bytes}

theorem PlainName.ne_nil (h : PlainName name) : name ≠ [] := by
  rintro rfl
  exact absurd h.1 (by decide)

theorem PlainName.noSlash (h : PlainName name) : slash ∉ name := by
  intro hslash
  have hname := h.1
  rw [entryName, List.contains_iff_mem.mpr hslash, Bool.or_true, Bool.not_true, Bool.and_false] at hname
  exact Bool.false_ne_true hname

/-- What stands on each level of a tree that can be stored. -/
structure Storable (files : List (Bytes × Bytes)) (directories : List (Bytes × GitTreeNode)) : Prop extends
    Distinct files directories where
  fileNames : ∀ file ∈ files, PlainName file.1
  directoryNames : ∀ d ∈ directories, PlainName d.1

end Names

section Labels

variable {ObjectId : Type} {entry other : PlainEntry ObjectId} {entries : List (PlainEntry ObjectId)}
  {files : List (Bytes × Bytes)} {directories : List (Bytes × GitTreeNode)}

/-- The name of an entry, and whether it is a directory. -/
def PlainEntry.label (entry : PlainEntry ObjectId) : Bytes × Bool := (entry.name, entry.directory)

def labels (files : List (Bytes × Bytes)) (directories : List (Bytes × GitTreeNode)) :
    List (Bytes × Bool) :=
  files.map (fun file => (file.1, false)) ++ directories.map fun d => (d.1, true)

theorem read_injective : Function.Injective (@PlainEntry.read ObjectId) := by
  rintro ⟨name, directory, oid⟩ ⟨name', directory', oid'⟩ h
  cases directory <;> cases directory' <;>
    simp [PlainEntry.read, treeMode, blobMode] at h <;> simp [h]

theorem gitTreeKey_injective {name name' : Bytes} {directory directory' : Bool} (h : slash ∉ name)
    (h' : slash ∉ name') (heq : gitTreeKey name directory = gitTreeKey name' directory') :
    (name, directory) = (name', directory') := by
  cases directory <;> cases directory' <;> simp only [gitTreeKey, if_true, Bool.false_eq_true, if_false] at heq
  · rw [heq]
  · exact absurd (heq ▸ List.mem_append_right _ List.mem_cons_self) h
  · exact absurd (heq ▸ List.mem_append_right _ List.mem_cons_self) h'
  · rw [List.append_cancel_right heq]

theorem encodeEntries_injective {lib : GitLibrary ObjectId} {entries' : List (PlainEntry ObjectId)} (hl : lib.Lawful)
    (h : ∀ entry ∈ entries, PlainName entry.name) (h' : ∀ entry ∈ entries', PlainName entry.name)
    (heq : encodeEntries lib entries = encodeEntries lib entries') : entries = entries' := by
  have hread := hl.entries entries fun entry hentry => ⟨(h entry hentry).ne_nil, (h entry hentry).2⟩
  rw [heq, hl.entries entries' fun entry hentry => ⟨(h' entry hentry).ne_nil, (h' entry hentry).2⟩] at hread
  exact (List.map_injective_iff.mpr read_injective (Option.some.inj hread)).symm

variable (hstorable : Storable files directories)
include hstorable

theorem plain_of_label (h : label ∈ labels files directories) : PlainName label.1 := by
  rcases List.mem_append.mp h with h | h
  · obtain ⟨file, hfile, rfl⟩ := List.mem_map.mp h
    exact hstorable.fileNames file hfile
  · obtain ⟨d, hd, rfl⟩ := List.mem_map.mp h
    exact hstorable.directoryNames d hd

theorem nodup_labels : (labels files directories).Nodup := by
  rw [labels, List.nodup_append']
  refine ⟨?_, ?_, ?_⟩
  · have hmap : (fun file : Bytes × Bytes => (file.1, false)) = (fun name => (name, false)) ∘ Prod.fst := rfl
    rw [hmap, ← List.map_map]
    exact hstorable.nodup_files.map fun a b heq => (Prod.mk.inj heq).1
  · have hmap : (fun d : Bytes × GitTreeNode => (d.1, true)) = (fun name => (name, true)) ∘ Prod.fst := rfl
    rw [hmap, ← List.map_map]
    exact hstorable.nodup_directories.map fun a b heq => (Prod.mk.inj heq).1
  · intro label hfile hdirectory
    obtain ⟨file, -, rfl⟩ := List.mem_map.mp hfile
    obtain ⟨d, -, heq⟩ := List.mem_map.mp hdirectory
    exact Bool.false_ne_true (Prod.mk.inj heq).2.symm

variable (hlabels : (entries.map PlainEntry.label).Perm (labels files directories))
include hlabels

theorem plain_of_entry (h : entry ∈ entries) : PlainName entry.name :=
  plain_of_label hstorable (hlabels.mem_iff.mp (List.mem_map_of_mem h))

omit hstorable in
theorem label_file (h : entry ∈ entries) (hfile : entry.directory = false) :
    ∃ bytes, (entry.name, bytes) ∈ files := by
  rcases List.mem_append.mp (hlabels.mem_iff.mp (List.mem_map_of_mem h)) with h | h
  · obtain ⟨file, hmem, heq⟩ := List.mem_map.mp h
    exact ⟨file.2, (Prod.mk.inj heq).1 ▸ hmem⟩
  · obtain ⟨d, -, heq⟩ := List.mem_map.mp h
    exact absurd ((Prod.mk.inj heq).2.trans hfile) Bool.noConfusion

omit hstorable in
theorem label_directory (h : entry ∈ entries) (hdirectory : entry.directory = true) :
    ∃ tree, (entry.name, tree) ∈ directories := by
  rcases List.mem_append.mp (hlabels.mem_iff.mp (List.mem_map_of_mem h)) with h | h
  · obtain ⟨file, -, heq⟩ := List.mem_map.mp h
    exact absurd ((Prod.mk.inj heq).2.trans hdirectory) Bool.false_ne_true
  · obtain ⟨d, hmem, heq⟩ := List.mem_map.mp h
    exact ⟨d.2, (Prod.mk.inj heq).1 ▸ hmem⟩

/-- Sorted entries follow one another strictly. -/
theorem pairwise_sortEntries :
    (sortEntries entries).Pairwise fun a b => compare a.key b.key = .lt := by
  have hsorted : (sortEntries entries).Pairwise fun a b => (compare a.key b.key).isLE = true :=
    List.pairwise_mergeSort (fun a b c => TransCmp.isLE_trans) (fun a b => by
      have hswap : compare b.key a.key = (compare a.key b.key).swap := OrientedCmp.eq_swap
      rw [hswap]
      cases compare a.key b.key <;> rfl) entries
  have hperm : (sortEntries entries).Perm entries := List.mergeSort_perm ..
  have hnodup : ((sortEntries entries).map PlainEntry.label).Nodup :=
    ((hperm.map _).trans hlabels).nodup_iff.mpr (nodup_labels hstorable)
  have hdistinct : (sortEntries entries).Pairwise fun a b => a.label ≠ b.label :=
    List.pairwise_map.mp hnodup
  refine (hsorted.and hdistinct).imp_of_mem fun {a b} ha hb hboth => ?_
  have hne : compare a.key b.key ≠ .eq := fun heq => hboth.2
    (gitTreeKey_injective (plain_of_entry hstorable hlabels (hperm.mem_iff.mp ha)).noSlash
      (plain_of_entry hstorable hlabels (hperm.mem_iff.mp hb)).noSlash (LawfulEqCmp.eq_of_compare heq))
  cases hcompare : compare a.key b.key with
  | lt => rfl
  | eq => exact absurd hcompare hne
  | gt => exact absurd hboth.1 (by rw [hcompare]; exact Bool.false_ne_true)

end Labels

section Costs

variable {ObjectId : Type} {entries : List (PlainEntry ObjectId)} {name : Bytes} {tree : GitTreeNode}
  {files : List (Bytes × Bytes)} {directories : List (Bytes × GitTreeNode)}

def directoryAt (directories : List (Bytes × GitTreeNode)) (name : Bytes) : GitTreeNode :=
  (directories.lookup name).getD .empty

theorem directoryAt_of_mem (h : (directories.map Prod.fst).Nodup) (hmem : (name, tree) ∈ directories) :
    directoryAt directories name = tree := by
  rw [directoryAt, FileTree.lookup_eq_some_of_mem h hmem, Option.getD_some]

/-- How many objects are visited to read an entry. -/
def labelCost (directories : List (Bytes × GitTreeNode)) (label : Bytes × Bool) : Nat :=
  if label.2 then (directoryAt directories label.1).size else 1

theorem size_eq_cost (h : (directories.map Prod.fst).Nodup)
    (hlabels : (entries.map PlainEntry.label).Perm (labels files directories)) :
    (FileTree.node files directories).size =
      1 + (entries.map fun entry => labelCost directories entry.label).sum := by
  have hfiles : (files.map fun file => labelCost directories (file.1, false)).sum = files.length := by
    have hone : (files.map fun file => labelCost directories (file.1, false)) = files.map fun _ => 1 :=
      List.map_congr_left fun _ _ => rfl
    rw [hone, List.map_const', List.sum_replicate_nat, Nat.mul_one]
  have hdirectories : (directories.map fun d => labelCost directories (d.1, true)) =
      directories.map fun d => d.2.size := by
    refine List.map_congr_left fun d hd => ?_
    rw [labelCost, if_pos rfl, directoryAt_of_mem h hd]
  have hentries : (entries.map fun entry => labelCost directories entry.label).sum =
      ((labels files directories).map (labelCost directories)).sum := by
    rw [← (hlabels.map (labelCost directories)).sum_nat, List.map_map]
    rfl
  rw [FileTree.size_node, hentries, labels, List.map_append, List.sum_append_nat, List.map_map,
    List.map_map]
  change _ = 1 + ((files.map fun file => labelCost directories (file.1, false)).sum +
    (directories.map fun d => labelCost directories (d.1, true)).sum)
  rw [hfiles, hdirectories, Nat.add_assoc]

end Costs

section Holding

variable {ObjectId : Type} [Ord ObjectId] [TransOrd ObjectId] {lib : GitLibrary ObjectId}
  {objects objects' : GitObjectMap ObjectId} {oid : ObjectId} {tree tree' : GitTreeNode}

/-- The objects hold a tree: at each directory a tree object whose entries are the directory's files and
directories, and at each file a blob of its bytes. -/
inductive Holds (lib : GitLibrary ObjectId) (objects : GitObjectMap ObjectId) : GitTreeNode → ObjectId → Prop
  | node {files : List (Bytes × Bytes)} {directories : List (Bytes × GitTreeNode)} {oid : ObjectId}
      (entries : List (PlainEntry ObjectId))
      (object : objects[oid]? = some ⟨.tree, encodeEntries lib entries⟩)
      (listed : (entries.map PlainEntry.label).Perm (labels files directories))
      (ordered : entries.Pairwise fun a b => compare a.key b.key = .lt)
      (blobs : ∀ entry ∈ entries, entry.directory = false → ∀ bytes, (entry.name, bytes) ∈ files →
        objects[entry.oid]? = some ⟨.blob, bytes⟩)
      (trees : ∀ entry ∈ entries, entry.directory = true → ∀ tree, (entry.name, tree) ∈ directories →
        Holds lib objects tree entry.oid) :
      Holds lib objects (.node files directories) oid

/-- What one map holds, the other holds too. -/
def Grows (objects objects' : GitObjectMap ObjectId) : Prop :=
  ∀ (oid : ObjectId) (object : GitObject), objects[oid]? = some object → objects'[oid]? = some object

theorem Grows.refl : Grows objects objects := fun _ _ h => h

theorem Grows.trans {objects'' : GitObjectMap ObjectId} (h : Grows objects objects')
    (h' : Grows objects' objects'') : Grows objects objects'' :=
  fun oid object hobject => h' oid object (h oid object hobject)

theorem Holds.mono (h : Holds lib objects tree oid) (hgrows : Grows objects objects') :
    Holds lib objects' tree oid := by
  induction h with
  | node entries hobject hlisted hordered hblobs _ ih =>
    exact .node entries (hgrows _ _ hobject) hlisted hordered
      (fun entry hentry hfile bytes hbytes => hgrows _ _ (hblobs entry hentry hfile bytes hbytes)) ih

/-- The trees that one object is held as are all of one size. -/
theorem Holds.size_unique (hl : lib.Lawful) (h : Holds lib objects tree oid) (hstorable : All Storable tree)
    (h' : Holds lib objects tree' oid) (hstorable' : All Storable tree') : tree.size = tree'.size := by
  induction h generalizing tree' with
  | @node files directories oid entries hobject hlisted hordered hblobs htrees ih =>
    cases h' with
    | @node files' directories' _ entries' hobject' hlisted' hordered' hblobs' htrees' =>
      obtain ⟨hlevel, hbelow⟩ := FileTree.all_node.mp hstorable
      obtain ⟨hlevel', hbelow'⟩ := FileTree.all_node.mp hstorable'
      rw [hobject, Option.some.injEq, GitObject.mk.injEq] at hobject'
      obtain rfl := encodeEntries_injective hl (fun _ => plain_of_entry hlevel hlisted)
        (fun _ => plain_of_entry hlevel' hlisted') hobject'.2
      rw [size_eq_cost hlevel.nodup_directories hlisted, size_eq_cost hlevel'.nodup_directories hlisted']
      congr 2
      refine List.map_congr_left fun entry hentry => ?_
      rw [labelCost, labelCost]
      cases hdirectory : entry.directory with
      | false => simp [PlainEntry.label, hdirectory]
      | true =>
        obtain ⟨child, hchild⟩ := label_directory hlisted hentry hdirectory
        obtain ⟨child', hchild'⟩ := label_directory hlisted' hentry hdirectory
        simp only [PlainEntry.label, hdirectory, if_true]
        rw [directoryAt_of_mem hlevel.nodup_directories hchild,
          directoryAt_of_mem hlevel'.nodup_directories hchild']
        exact ih entry hentry hdirectory child hchild (hbelow _ _ hchild)
          (htrees' entry hentry hdirectory child' hchild') (hbelow' _ _ hchild')

end Holding

section Storing

variable {ObjectId : Type} [Ord ObjectId] [TransOrd ObjectId] {lib : GitLibrary ObjectId}
  {objects stored : GitObjectMap ObjectId} {oid : ObjectId} {kind : ObjectKind} {data : Bytes}
  {tree : GitTreeNode} {entries : List (PlainEntry ObjectId)}

theorem insertGitObject_stored (h : insertGitObject lib objects kind data = .ok (oid, stored)) :
    Grows objects stored ∧ stored[oid]? = some ⟨kind, data⟩ := by
  obtain ⟨hash, -, h⟩ := Except.bind_eq_ok_iff.mp h
  split at h
  · rename_i existing hexisting
    split at h
    · rename_i hsame
      obtain ⟨rfl, rfl⟩ := Prod.mk.inj (Except.ok.inj h)
      obtain ⟨rfl, rfl⟩ := hsame
      exact ⟨.refl, hexisting⟩
    · cases h
  · rename_i hvacant
    obtain ⟨rfl, rfl⟩ := Prod.mk.inj (Except.ok.inj h)
    refine ⟨fun other object hobject => ?_, ExtTreeMap.getElem?_insert_self⟩
    rw [ExtTreeMap.getElem?_insert]
    split
    · rename_i hsame
      rw [← ExtTreeMap.getElem?_congr hsame, hvacant] at hobject
      cases hobject
    · exact hobject

theorem storeFiles_stored {files : List (Bytes × Bytes)}
    (h : storeFiles lib files objects = .ok (entries, stored)) :
    Grows objects stored ∧ List.Forall₂ (fun (file : Bytes × Bytes) entry =>
      entry.label = (file.1, false) ∧ stored[entry.oid]? = some ⟨.blob, file.2⟩) files entries := by
  induction files generalizing objects entries with
  | nil =>
    obtain ⟨rfl, rfl⟩ := Prod.mk.inj (Except.ok.inj h)
    exact ⟨.refl, .nil⟩
  | cons file rest ih =>
    obtain ⟨⟨hash, between⟩, hblob, h⟩ := Except.bind_eq_ok_iff.mp h
    obtain ⟨⟨others, final⟩, hrest, h⟩ := Except.bind_eq_ok_iff.mp h
    obtain ⟨rfl, rfl⟩ := Prod.mk.inj (Except.ok.inj h)
    obtain ⟨hgrows, hheld⟩ := insertGitObject_stored hblob
    obtain ⟨hgrows', hothers⟩ := ih hrest
    exact ⟨hgrows.trans hgrows', .cons ⟨rfl, hgrows' _ _ hheld⟩ hothers⟩

theorem storeDirectories_stored {directories : List (Bytes × GitTreeNode)}
    (hstore : ∀ name tree, (name, tree) ∈ directories → ∀ (objects stored : GitObjectMap ObjectId) oid,
      storeTree lib tree objects = .ok (oid, stored) → Grows objects stored ∧ Holds lib stored tree oid)
    (h : storeDirectories lib directories objects = .ok (entries, stored)) :
    Grows objects stored ∧ List.Forall₂ (fun (d : Bytes × GitTreeNode) entry =>
      entry.label = (d.1, true) ∧ Holds lib stored d.2 entry.oid) directories entries := by
  induction directories generalizing objects entries with
  | nil =>
    obtain ⟨rfl, rfl⟩ := Prod.mk.inj (Except.ok.inj h)
    exact ⟨.refl, .nil⟩
  | cons d rest ih =>
    obtain ⟨name, tree⟩ := d
    obtain ⟨⟨hash, between⟩, htree, h⟩ := Except.bind_eq_ok_iff.mp h
    obtain ⟨⟨others, final⟩, hrest, h⟩ := Except.bind_eq_ok_iff.mp h
    obtain ⟨rfl, rfl⟩ := Prod.mk.inj (Except.ok.inj h)
    obtain ⟨hgrows, hheld⟩ := hstore name tree List.mem_cons_self _ _ _ htree
    obtain ⟨hgrows', hothers⟩ :=
      ih (fun name tree hmem => hstore name tree (List.mem_cons_of_mem _ hmem)) hrest
    exact ⟨hgrows.trans hgrows', .cons ⟨rfl, hheld.mono hgrows'⟩ hothers⟩

variable {α : Type} {named : List (Bytes × α)} {directory : Bool}
  {p : Bytes × α → PlainEntry ObjectId → Prop} {entry : PlainEntry ObjectId} {a : α}

omit [Ord ObjectId] [TransOrd ObjectId] in
theorem labels_of_listed
    (h : List.Forall₂ (fun a entry => entry.label = (a.1, directory) ∧ p a entry) named entries) :
    entries.map PlainEntry.label = named.map fun a => (a.1, directory) := by
  induction h with
  | nil => rfl
  | cons hhead _ ih => rw [List.map_cons, List.map_cons, hhead.1, ih]

omit [Ord ObjectId] [TransOrd ObjectId] in
theorem directory_of_listed
    (h : List.Forall₂ (fun a entry => entry.label = (a.1, directory) ∧ p a entry) named entries)
    (hentry : entry ∈ entries) : entry.directory = directory := by
  have hlabel : entry.label ∈ named.map fun a => (a.1, directory) :=
    labels_of_listed h ▸ List.mem_map_of_mem hentry
  obtain ⟨a, -, heq⟩ := List.mem_map.mp hlabel
  exact (Prod.mk.inj heq).2.symm

omit [Ord ObjectId] [TransOrd ObjectId] in
/-- Where names stand once, an entry is listed for what its name stands for. -/
theorem of_listed (hnodup : (named.map Prod.fst).Nodup)
    (h : List.Forall₂ (fun a entry => entry.label = (a.1, directory) ∧ p a entry) named entries)
    (hentry : entry ∈ entries) (ha : (entry.name, a) ∈ named) : p (entry.name, a) entry := by
  have hlisted : ∃ b ∈ named, entry.label = (b.1, directory) ∧ p b entry := by
    clear hnodup ha
    induction h with
    | nil => contradiction
    | @cons b other named entries hhead _ ih =>
      rcases List.mem_cons.mp hentry with rfl | hentry
      · exact ⟨b, List.mem_cons_self, hhead⟩
      · obtain ⟨b, hb, hlabel⟩ := ih hentry
        exact ⟨b, List.mem_cons_of_mem _ hb, hlabel⟩
  obtain ⟨⟨name, b⟩, hb, hlabel, hp⟩ := hlisted
  obtain rfl : entry.name = name := (Prod.mk.inj hlabel).1
  have hsame := FileTree.lookup_eq_some_of_mem hnodup ha
  rw [FileTree.lookup_eq_some_of_mem hnodup hb, Option.some.injEq] at hsame
  rwa [hsame] at hp

/-- What is stored for a tree holds it, and takes nothing back. -/
theorem storeTree_stored (hstorable : All Storable tree)
    (h : storeTree lib tree objects = .ok (oid, stored)) :
    Grows objects stored ∧ Holds lib stored tree oid := by
  induction tree using FileTree.induct generalizing objects stored oid with
  | h files directories ih =>
    obtain ⟨hlevel, hbelow⟩ := FileTree.all_node.mp hstorable
    obtain ⟨⟨fileEntries, withFiles⟩, hfiles, h⟩ := Except.bind_eq_ok_iff.mp h
    obtain ⟨⟨directoryEntries, withDirectories⟩, hdirectories, h⟩ := Except.bind_eq_ok_iff.mp h
    obtain ⟨hgrows, hfiles⟩ := storeFiles_stored hfiles
    obtain ⟨hgrows', hdirectories⟩ := storeDirectories_stored
      (fun name tree hmem _ _ _ => ih name tree hmem (hbelow name tree hmem)) hdirectories
    obtain ⟨hgrows'', hobject⟩ := insertGitObject_stored h
    have hperm : (sortEntries (fileEntries ++ directoryEntries)).Perm (fileEntries ++ directoryEntries) :=
      List.mergeSort_perm ..
    have hlabels : (fileEntries ++ directoryEntries).map PlainEntry.label = labels files directories := by
      rw [List.map_append, labels_of_listed hfiles, labels_of_listed hdirectories, labels]
    refine ⟨(hgrows.trans hgrows').trans hgrows'', .node _ hobject (hlabels ▸ hperm.map _)
      (pairwise_sortEntries hlevel (hlabels ▸ .refl _)) ?_ ?_⟩
    · intro entry hentry hfile bytes hbytes
      rcases List.mem_append.mp (hperm.mem_iff.mp hentry) with hentry | hentry
      · exact hgrows'' _ _ (hgrows' _ _ (of_listed hlevel.nodup_files hfiles hentry hbytes))
      · exact absurd (hfile.symm.trans (directory_of_listed hdirectories hentry)) Bool.false_ne_true
    · intro entry hentry hdirectory tree htree
      rcases List.mem_append.mp (hperm.mem_iff.mp hentry) with hentry | hentry
      · exact absurd ((directory_of_listed hfiles hentry).symm.trans hdirectory) Bool.false_ne_true
      · exact (of_listed hlevel.nodup_directories hdirectories hentry htree).mono hgrows''

end Storing

end Kitrove.Git
