import Kitrove.Git.TreeObjects

/-! What is read back from the objects of a tree: its files, as long as the tree is not too deep and the
visits last. -/

namespace Kitrove.Git

open Std
open FileTree (All Distinct)

section Names

variable {lead path : List Bytes} {name : Bytes}

/-- The files of a map, under the components of their paths. -/
def shown (files : OrdMap PortablePath Bytes) : List (List Bytes × Bytes) :=
  files.toList.map fun file => (segments file.1, file.2)

/-- Leaves as they are named from above. -/
def under (lead : List Bytes) (leaves : List (List Bytes × Bytes)) : List (List Bytes × Bytes) :=
  leaves.map fun leaf => (lead ++ leaf.1, leaf.2)

theorem joinPath_join (h : ∀ name ∈ lead, name ≠ []) :
    joinPath (Segments.join slash lead) name = Segments.join slash (lead ++ [name]) := by
  cases lead with
  | nil => simp [joinPath, Segments.join]
  | cons first rest =>
    have hfirst : first ≠ [] := h first List.mem_cons_self
    have hjoin : (Segments.join slash (first :: rest)).isEmpty = false := by
      rw [List.isEmpty_eq_false_iff]
      cases rest with
      | nil => simpa [Segments.join] using hfirst
      | cons next rest =>
        rw [Segments.join_cons (List.cons_ne_nil _ _)]
        exact List.append_ne_nil_of_left_ne_nil hfirst _
    rw [joinPath, hjoin, if_neg Bool.false_ne_true,
      Segments.join_append (List.cons_ne_nil _ _) (List.cons_ne_nil _ _)]
    simp [Segments.join]

theorem shown_insert {files : OrdMap PortablePath Bytes} {p : PortablePath} (bytes : Bytes)
    (h : p ∉ files) : (shown (files.insert p bytes)).Perm (shown files ++ [(segments p, bytes)]) := by
  have hperm := (OrdMap.toList_insert_perm (v := bytes) h).map
    fun file : PortablePath × Bytes => (segments file.1, file.2)
  rwa [List.map_append] at hperm

theorem mem_shown {files : OrdMap PortablePath Bytes} {p : PortablePath} (h : p ∈ files) :
    segments p ∈ (shown files).map Prod.fst := by
  obtain ⟨bytes, hbytes⟩ := OrdMap.mem_iff_getElem?.mp h
  exact List.mem_map.mpr ⟨(segments p, bytes), List.mem_map.mpr
    ⟨(p, bytes), ExtTreeMap.mem_toList_iff_getElem?_eq_some.mpr hbytes, rfl⟩, rfl⟩

end Names

section Steps

variable {ObjectId : Type} [Ord ObjectId] [TransOrd ObjectId] {lib : GitLibrary ObjectId}
  {objects : GitObjectMap ObjectId} {before between after : FlattenState ObjectId} {n m cost cost' : Nat}
  {content content' : List (List Bytes × Bytes)} {fits fits' : Prop}

/-- What reading a part of a tree does: its files are added, and the visits are paid. -/
structure Reads (content : List (List Bytes × Bytes)) (cost : Nat) (before after : FlattenState ObjectId) :
    Prop where
  active (oid : ObjectId) : after.active.contains oid = before.active.contains oid
  visits : after.remainingVisits + cost = before.remainingVisits
  files : (shown after.files).Perm (shown before.files ++ content)

theorem Reads.trans (h : Reads content cost before between) (h' : Reads content' cost' between after) :
    Reads (content ++ content') (cost + cost') before after where
  active oid := (h'.active oid).trans (h.active oid)
  visits := by
    have := h.visits
    have := h'.visits
    omega
  files := by
    rw [← List.append_assoc]
    exact h'.files.trans (h.files.append_right content')

theorem Reads.perm (h : Reads content cost before after) (hperm : content.Perm content') :
    Reads content' cost before after where
  active := h.active
  visits := h.visits
  files := h.files.trans (hperm.append_left _)

/-- No path that is to be read stands among the files already. -/
def Fresh (content : List (List Bytes × Bytes)) (files : OrdMap PortablePath Bytes) : Prop :=
  ((shown files ++ content).map Prod.fst).Nodup

theorem Fresh.perm {files : OrdMap PortablePath Bytes} (h : Fresh content files)
    (hperm : content.Perm content') : Fresh content' files :=
  ((hperm.append_left _).map _).nodup_iff.mp h

/-- The trees that reading is inside of are at least of a size. -/
def Inside (lib : GitLibrary ObjectId) (objects : GitObjectMap ObjectId) (n : Nat)
    (active : OrdSet ObjectId) : Prop :=
  ∀ oid : ObjectId, active.contains oid = true → ∀ tree, Holds lib objects tree oid → All Storable tree →
    n ≤ tree.size

/-- A part of a tree of one size is read where its subtrees fit and the visits last, and is an error
elsewhere. -/
def Meets (lib : GitLibrary ObjectId) (objects : GitObjectMap ObjectId) (n : Nat)
    (step : FlattenState ObjectId → Except BackendError (FlattenState ObjectId)) (fits : Prop) (cost : Nat)
    (content : List (List Bytes × Bytes)) : Prop :=
  ∀ state, Inside lib objects n state.active → Fresh content state.files →
    (fits ∧ cost ≤ state.remainingVisits → ∃ after, step state = .ok after ∧ Reads content cost state after) ∧
      (¬ (fits ∧ cost ≤ state.remainingVisits) → ∃ e, step state = .error e)

variable {step step' : FlattenState ObjectId → Except BackendError (FlattenState ObjectId)}

theorem Meets.perm (h : Meets lib objects n step fits cost content) (hperm : content.Perm content') :
    Meets lib objects n step fits cost content' := by
  intro state hinside hfresh
  obtain ⟨hok, herror⟩ := h state hinside (hfresh.perm hperm.symm)
  refine ⟨fun hfits => ?_, herror⟩
  obtain ⟨after, hafter, hreads⟩ := hok hfits
  exact ⟨after, hafter, hreads.perm hperm⟩

theorem Meets.mono (h : Meets lib objects n step fits cost content) (hle : n ≤ m) :
    Meets lib objects m step fits cost content := fun state hinside =>
  h state fun oid hactive tree hholds hstorable =>
    Nat.le_trans hle (hinside oid hactive tree hholds hstorable)

theorem Meets.bind (h : Meets lib objects n step fits cost content)
    (h' : Meets lib objects n step' fits' cost' content') :
    Meets lib objects n (fun state => step state >>= step') (fits ∧ fits') (cost + cost')
      (content ++ content') := by
  intro state hinside hfresh
  rw [Fresh, ← List.append_assoc, List.map_append] at hfresh
  obtain ⟨hok, herror⟩ := h state hinside hfresh.of_append_left
  by_cases hfits : fits ∧ cost ≤ state.remainingVisits
  · obtain ⟨between, hbetween, hreads⟩ := hok hfits
    have hinside' : Inside lib objects n between.active := fun oid hactive =>
      hinside oid (hreads.active oid ▸ hactive)
    have hfresh' : Fresh content' between.files := by
      rw [Fresh, List.map_append]
      rw [← List.map_append] at hfresh
      refine List.Perm.nodup_iff ?_ |>.mp hfresh
      rw [← List.map_append]
      exact (hreads.files.symm.append_right content').map _
    obtain ⟨hok', herror'⟩ := h' between hinside' hfresh'
    have hvisits := hreads.visits
    simp only [hbetween]
    constructor
    · rintro ⟨⟨-, hfits'⟩, hle⟩
      obtain ⟨after, hafter, hreads'⟩ := hok' ⟨hfits', by omega⟩
      exact ⟨after, hafter, hreads.trans hreads'⟩
    · intro hnot
      exact herror' fun hboth => hnot ⟨⟨hfits.1, hboth.1⟩, by omega⟩
  · obtain ⟨e, he⟩ := herror hfits
    simp only [he]
    refine ⟨fun hboth => absurd ⟨hboth.1.1, ?_⟩ hfits, fun _ => ⟨e, rfl⟩⟩
    have := hboth.2
    omega

theorem Meets.nil : Meets lib objects n (fun state => .ok state) True 0 [] := by
  intro state _ _
  refine ⟨fun _ => ⟨state, rfl, fun _ => rfl, rfl, ?_⟩, fun hnot => absurd ⟨trivial, Nat.zero_le _⟩ hnot⟩
  rw [List.append_nil]

/-- A list is read where each of its members is. -/
theorem meets_foldlM {α : Type} {xs : List α}
    {step : FlattenState ObjectId → α → Except BackendError (FlattenState ObjectId)} {fits : α → Prop}
    {cost : α → Nat} {content : α → List (List Bytes × Bytes)}
    (h : ∀ x ∈ xs, Meets lib objects n (fun state => step state x) (fits x) (cost x) (content x)) :
    Meets lib objects n (fun state => xs.foldlM step state) (∀ x ∈ xs, fits x) (xs.map cost).sum
      (xs.flatMap content) := by
  induction xs with
  | nil =>
    have hfits : (∀ x ∈ ([] : List α), fits x) = True := by simp
    rw [hfits]
    exact Meets.nil
  | cons x xs ih =>
    obtain ⟨hx, hxs⟩ := List.forall_mem_cons.mp h
    have hfits : (∀ y ∈ x :: xs, fits y) = (fits x ∧ ∀ y ∈ xs, fits y) := propext List.forall_mem_cons
    rw [hfits, List.map_cons, List.sum_cons, List.flatMap_cons]
    exact hx.bind (ih hxs)

end Steps

section Entries

variable {ObjectId : Type} [Ord ObjectId] [TransOrd ObjectId] {lib : GitLibrary ObjectId}
  {objects : GitObjectMap ObjectId} {n depth : Nat} {lead : List Bytes} {oid oid' : ObjectId}
  {entry : PlainEntry ObjectId} {entries : List (PlainEntry ObjectId)} {tree : GitTreeNode}
  {files : List (Bytes × Bytes)} {directories : List (Bytes × GitTreeNode)}

/-- The files under an entry. -/
def labelContent (files : List (Bytes × Bytes)) (directories : List (Bytes × GitTreeNode))
    (lead : List Bytes) (label : Bytes × Bool) : List (List Bytes × Bytes) :=
  if label.2 then under (lead ++ [label.1]) (directoryAt directories label.1).leaves
  else [(lead ++ [label.1], (files.lookup label.1).getD [])]

def labelFits (directories : List (Bytes × GitTreeNode)) (depth : Nat) (label : Bytes × Bool) : Prop :=
  label.2 = true → (directoryAt directories label.1).height < depth

theorem labels_content (h : Distinct files directories) :
    (labels files directories).flatMap (labelContent files directories lead) =
      under lead (FileTree.node files directories).leaves := by
  have hfiles : files.flatMap (fun file => labelContent files directories lead (file.1, false)) =
      files.map fun file => (lead ++ [file.1], file.2) := by
    rw [List.map_eq_flatMap]
    refine List.flatMap_congr fun file hfile => ?_
    rw [labelContent, if_neg Bool.false_ne_true,
      FileTree.lookup_eq_some_of_mem h.nodup_files (show (file.1, file.2) ∈ files from hfile),
      Option.getD_some]
  have hdirectories : directories.flatMap (fun d => labelContent files directories lead (d.1, true)) =
      directories.flatMap fun d => under (lead ++ [d.1]) d.2.leaves := by
    refine List.flatMap_congr fun d hd => ?_
    rw [labelContent, if_pos rfl, directoryAt_of_mem h.nodup_directories (show (d.1, d.2) ∈ directories from hd)]
  rw [labels, List.flatMap_append, List.flatMap_map, List.flatMap_map, hfiles, hdirectories,
    FileTree.leaves_node, under, List.map_append, List.map_map, List.map_flatMap]
  congr 1
  refine List.flatMap_congr fun d _ => ?_
  rw [under, List.map_map]
  refine List.map_congr_left fun leaf _ => ?_
  simp

omit [Ord ObjectId] [TransOrd ObjectId] in
theorem labels_fit (h : Distinct files directories)
    (hlisted : (entries.map PlainEntry.label).Perm (labels files directories)) :
    (∀ entry ∈ entries, labelFits directories depth entry.label) ↔
      (FileTree.node files directories).height ≤ depth := by
  rw [FileTree.height_node_le]
  have hall : (∀ entry ∈ entries, labelFits directories depth entry.label) ↔
      ∀ label ∈ labels files directories, labelFits directories depth label := by
    constructor
    · intro hentries label hlabel
      obtain ⟨entry, hentry, rfl⟩ := List.mem_map.mp (hlisted.mem_iff.mpr hlabel)
      exact hentries entry hentry
    · exact fun hlabels entry hentry => hlabels _ (hlisted.mem_iff.mp (List.mem_map_of_mem hentry))
  rw [hall]
  constructor
  · intro hlabels name tree hmem
    have hfits := hlabels (name, true)
      (List.mem_append_right _ (List.mem_map.mpr ⟨(name, tree), hmem, rfl⟩)) rfl
    rwa [directoryAt_of_mem h.nodup_directories hmem] at hfits
  · intro hheights label hlabel hdirectory
    rcases List.mem_append.mp hlabel with hlabel | hlabel
    · obtain ⟨file, -, rfl⟩ := List.mem_map.mp hlabel
      exact absurd hdirectory Bool.false_ne_true
    · obtain ⟨⟨name, tree⟩, hmem, rfl⟩ := List.mem_map.mp hlabel
      rw [directoryAt_of_mem h.nodup_directories hmem]
      exact hheights name tree hmem

theorem entryName_plain (h : PlainName name) : (!entryName name) = false := by
  rw [h.1, Bool.not_true]

/-- A file is read where a visit is left. -/
theorem meets_file {below : ObjectId → Bytes → FlattenState ObjectId → Except BackendError (FlattenState ObjectId)}
    {bytes : Bytes} {p : PortablePath} (hlead : ∀ name ∈ lead, name ≠ []) (hname : PlainName entry.name)
    (hfile : entry.directory = false) (hpath : segments p = lead ++ [entry.name])
    (hblob : objects[entry.oid]? = some ⟨.blob, bytes⟩) :
    Meets lib objects n
      (fun state => flattenEntry objects below (Segments.join slash lead) state entry.read) True 1
      [(lead ++ [entry.name], bytes)] := by
  intro state _ hfresh
  have hbytes : joinPath (Segments.join slash lead) entry.name = p.bytes := by
    rw [joinPath_join hlead, ← hpath, join_segments]
  have hparse : Name.parse .path p.bytes = some p := dif_pos ⟨p.valid, p.bounded⟩
  have hvacant : p ∉ state.files := by
    intro hmem
    rw [Fresh, List.map_append, List.nodup_append'] at hfresh
    exact hfresh.2.2 (mem_shown hmem) (hpath ▸ List.mem_cons_self)
  have hstep : flattenEntry objects below (Segments.join slash lead) state entry.read =
      visit state >>= fun state => reject (state.files.contains p) invalidTree >>= fun _ =>
        .ok { state with files := state.files.insert p bytes } := by
    simp only [flattenEntry, PlainEntry.read, hfile, entryName_plain hname, hbytes, hparse, hblob, reject,
      required, bind, Except.bind, Bool.false_eq_true, if_false, blobMode, treeMode]
    cases visit state <;> simp
  simp only [hstep]
  constructor
  · rintro ⟨-, hvisits⟩
    refine ⟨{ state with
      remainingVisits := state.remainingVisits - 1
      files := state.files.insert p bytes }, ?_, fun _ => rfl, Nat.sub_add_cancel hvisits, ?_⟩
    · rw [visit, if_neg (Nat.ne_of_gt hvisits)]
      simp [bind, Except.bind, reject, hvacant]
    · rw [← hpath]
      exact shown_insert _ hvacant
  · intro hnot
    have hvisits : state.remainingVisits = 0 := by
      by_contra hne
      exact hnot ⟨trivial, Nat.pos_of_ne_zero hne⟩
    rw [visit, if_pos hvisits]
    exact ⟨_, rfl⟩

/-- A directory is read as what is below it. -/
theorem flattenEntry_directory
    {below : ObjectId → Bytes → FlattenState ObjectId → Except BackendError (FlattenState ObjectId)}
    {state : FlattenState ObjectId} (hlead : ∀ name ∈ lead, name ≠ []) (hname : PlainName entry.name)
    (hdirectory : entry.directory = true) :
    flattenEntry objects below (Segments.join slash lead) state entry.read =
      below entry.oid (Segments.join slash (lead ++ [entry.name])) state := by
  simp only [flattenEntry, PlainEntry.read, hdirectory, entryName_plain hname, joinPath_join hlead,
    reject, bind, Except.bind, Bool.false_eq_true, if_true, if_false]

omit [Ord ObjectId] [TransOrd ObjectId] in
theorem windowsOrdered_read (hl : lib.Lawful) (hplain : ∀ entry ∈ entries, PlainName entry.name)
    (h : entries.Pairwise fun a b => compare a.key b.key = .lt) :
    windowsOrdered lib (entries.map PlainEntry.read) = true := by
  have hkey (entry : PlainEntry ObjectId) :
      gitTreeKey entry.read.filename (entry.read.mode == treeMode) = entry.key := by
    obtain ⟨name, directory, oid⟩ := entry
    cases directory <;> rfl
  induction entries with
  | nil => rfl
  | cons first rest ih =>
    obtain ⟨hfirst, hrest⟩ := List.forall_mem_cons.mp hplain
    obtain ⟨hlt, hpairwise⟩ := List.pairwise_cons.mp h
    cases rest with
    | nil => rfl
    | cons second rest =>
      rw [List.map_cons, List.map_cons, windowsOrdered, ← List.map_cons, ih hrest hpairwise, Bool.and_true,
        hl.order _ _ hfirst.noSlash (hrest second List.mem_cons_self).noSlash, hkey, hkey]
      exact hlt second List.mem_cons_self

/-- Objects of the same identifier hold the same trees. -/
theorem Holds.congr (h : Holds lib objects tree oid) (hsame : compare oid' oid = .eq) :
    Holds lib objects tree oid' := by
  cases h with
  | node entries hobject hlisted hordered hblobs htrees =>
    exact .node entries (ExtTreeMap.getElem?_congr hsame ▸ hobject) hlisted hordered hblobs htrees

/-- An entry is read where its directory is. -/
theorem meets_entry (hlevel : Storable files directories)
    (hlisted : (entries.map PlainEntry.label).Perm (labels files directories)) (hentry : entry ∈ entries)
    (hlead : ∀ name ∈ lead, name ≠ [])
    (hpaths : ∀ file ∈ files, ∃ p : PortablePath, segments p = lead ++ [file.1])
    (hblob : entry.directory = false → ∀ bytes, (entry.name, bytes) ∈ files →
      objects[entry.oid]? = some ⟨.blob, bytes⟩)
    (hread : entry.directory = true → ∀ child, (entry.name, child) ∈ directories →
      Meets lib objects (child.size + 1)
        (flattenTree lib objects depth entry.oid (Segments.join slash (lead ++ [entry.name])))
        (child.height < depth) child.size (under (lead ++ [entry.name]) child.leaves)) :
    Meets lib objects (FileTree.node files directories).size
      (fun state => flattenEntry objects (flattenTree lib objects depth) (Segments.join slash lead) state
        entry.read)
      (labelFits directories depth entry.label) (labelCost directories entry.label)
      (labelContent files directories lead entry.label) := by
  have hplain := plain_of_entry hlevel hlisted hentry
  cases hdirectory : entry.directory with
  | false =>
    obtain ⟨bytes, hbytes⟩ := label_file hlisted hentry hdirectory
    obtain ⟨p, hp⟩ := hpaths (entry.name, bytes) hbytes
    have hfits : labelFits directories depth entry.label = True := by
      simp [labelFits, PlainEntry.label, hdirectory]
    have hcost : labelCost directories entry.label = 1 := by
      simp [labelCost, PlainEntry.label, hdirectory]
    have hcontent : labelContent files directories lead entry.label = [(lead ++ [entry.name], bytes)] := by
      simp [labelContent, PlainEntry.label, hdirectory,
        FileTree.lookup_eq_some_of_mem hlevel.nodup_files hbytes]
    rw [hfits, hcost, hcontent]
    exact meets_file hlead hplain hdirectory hp (hblob hdirectory bytes hbytes)
  | true =>
    obtain ⟨child, hchild⟩ := label_directory hlisted hentry hdirectory
    have hat := directoryAt_of_mem hlevel.nodup_directories hchild
    have hfits : labelFits directories depth entry.label = (child.height < depth) := by
      simp [labelFits, PlainEntry.label, hdirectory, hat]
    have hcost : labelCost directories entry.label = child.size := by
      simp [labelCost, PlainEntry.label, hdirectory, hat]
    have hcontent : labelContent files directories lead entry.label =
        under (lead ++ [entry.name]) child.leaves := by
      simp [labelContent, PlainEntry.label, hdirectory, hat]
    have hstep : (fun state => flattenEntry objects (flattenTree lib objects depth)
        (Segments.join slash lead) state entry.read) =
        flattenTree lib objects depth entry.oid (Segments.join slash (lead ++ [entry.name])) :=
      funext fun state => flattenEntry_directory hlead hplain hdirectory
    rw [hfits, hcost, hcontent, hstep]
    exact (hread hdirectory child hchild).mono (FileTree.size_lt hchild)

/-- A tree that the objects hold is read exactly where it is not deeper than allowed and the visits last
for its size; what is read is its files. -/
theorem meets_flattenTree (depth : Nat) (lead : List Bytes) (hl : lib.Lawful)
    (hholds : Holds lib objects tree oid) (hstorable : All Storable tree)
    (hlead : ∀ name ∈ lead, name ≠ [])
    (hpaths : ∀ leaf ∈ tree.leaves, ∃ p : PortablePath, segments p = lead ++ leaf.1) :
    Meets lib objects (tree.size + 1) (flattenTree lib objects depth oid (Segments.join slash lead))
      (tree.height < depth) tree.size (under lead tree.leaves) := by
  have hroot : Holds lib objects tree oid := hholds
  induction hholds generalizing lead depth with
  | @node files directories oid entries hobject hlisted hordered hblobs htrees ih =>
    obtain ⟨hlevel, hbelow⟩ := FileTree.all_node.mp hstorable
    cases depth with
    | zero =>
      intro state _ _
      refine ⟨fun hfits => absurd hfits.1 (Nat.not_lt_zero _), fun _ => ?_⟩
      rw [flattenTree]
      cases visit state with
      | error e => exact ⟨e, rfl⟩
      | ok state => exact ⟨invalidTree, rfl⟩
    | succ depth =>
      have hplain : ∀ entry ∈ entries, PlainName entry.name := fun _ => plain_of_entry hlevel hlisted
      have hfold : Meets lib objects (FileTree.node files directories).size
          (fun state => entries.foldlM (fun state entry => flattenEntry objects
            (flattenTree lib objects depth) (Segments.join slash lead) state entry.read) state)
          (∀ entry ∈ entries, labelFits directories depth entry.label)
          (entries.map fun entry => labelCost directories entry.label).sum
          (entries.flatMap fun entry => labelContent files directories lead entry.label) := by
        refine meets_foldlM fun entry hentry => meets_entry hlevel hlisted hentry hlead
          (fun file hfile => hpaths ([file.1], file.2)
            (FileTree.mem_leaves_node.mpr (.inl ⟨file, hfile, rfl, rfl⟩)))
          (hblobs entry hentry) fun hdirectory child hchild => ?_
        refine ih entry hentry hdirectory child hchild _ _ (hbelow _ _ hchild) (fun name hname => ?_)
          (fun leaf hleaf => ?_) (htrees entry hentry hdirectory child hchild)
        · rcases List.mem_append.mp hname with hname | hname
          · exact hlead name hname
          · rw [List.mem_singleton.mp hname]
            exact (hplain entry hentry).ne_nil
        · obtain ⟨p, hp⟩ := hpaths (entry.name :: leaf.1, leaf.2)
            (FileTree.mem_leaves_node.mpr (.inr ⟨_, hchild, leaf, hleaf, rfl, rfl⟩))
          exact ⟨p, by rw [hp, List.append_assoc]; rfl⟩
      have hcontent : (entries.flatMap fun entry => labelContent files directories lead entry.label).Perm
          (under lead (FileTree.node files directories).leaves) := by
        rw [← labels_content hlevel.toDistinct, ← List.flatMap_map]
        exact hlisted.flatMap_right _
      have hsize := size_eq_cost hlevel.nodup_directories hlisted
      rw [labels_fit hlevel.toDistinct hlisted] at hfold
      generalize (entries.map fun entry => labelCost directories entry.label).sum = cost at hfold hsize
      intro state hinside hfresh
      have houtside : state.active.contains oid = false := by
        rw [← Bool.not_eq_true]
        exact fun hactive => Nat.not_succ_le_self _ (hinside oid hactive _ hroot hstorable)
      have hinside' : Inside lib objects (FileTree.node files directories).size (state.active.insert oid) := by
        intro other hother tree hholds hstored
        rw [ExtTreeSet.contains_insert, Bool.or_eq_true, beq_iff_eq] at hother
        rcases hother with hsame | hactive
        · exact Nat.le_of_eq (hroot.size_unique hl hstorable (hholds.congr hsame) hstored)
        · exact Nat.le_of_succ_le (hinside other hactive tree hholds hstored)
      obtain ⟨active, held, visits⟩ := state
      cases visits with
      | zero =>
        refine ⟨fun hfits => absurd hfits.2 (Nat.not_le_of_gt FileTree.size_pos), fun _ => ?_⟩
        exact ⟨limitExceeded, rfl⟩
      | succ visits =>
        obtain ⟨hok, herror⟩ := hfold.perm hcontent ⟨active.insert oid, held, visits⟩ hinside' hfresh
        have hstep : flattenTree lib objects (depth + 1) oid (Segments.join slash lead)
            ⟨active, held, visits + 1⟩ =
            entries.foldlM (fun state entry => flattenEntry objects (flattenTree lib objects depth)
              (Segments.join slash lead) state entry.read) ⟨active.insert oid, held, visits⟩ >>=
              fun state => .ok { state with active := state.active.erase oid } := by
          have hread := hl.entries entries fun entry hentry =>
            ⟨(hplain entry hentry).ne_nil, (hplain entry hentry).2⟩
          have houtside : active.contains oid = false := houtside
          rw [flattenTree, visit, if_neg (Nat.succ_ne_zero _)]
          simp only [bind, Except.bind, houtside, hobject, required, reject, hread,
            windowsOrdered_read hl hplain hordered, List.foldlM_map]
          simp
        rw [hstep]
        constructor
        · rintro ⟨hheight, hle⟩
          have hle' : cost ≤ visits := by
            have : (FileTree.node files directories).size ≤ visits + 1 := hle
            omega
          obtain ⟨after, hafter, hreads⟩ := hok ⟨Nat.le_of_lt_succ hheight, hle'⟩
          simp only at hafter
          rw [hafter]
          refine ⟨_, rfl, fun other => ?_, ?_, hreads.files⟩
          · have hother := hreads.active other
            simp only [ExtTreeSet.contains_insert] at hother
            simp only [ExtTreeSet.contains_erase, hother]
            cases hsame : compare oid other with
            | lt => rfl
            | gt => rfl
            | eq =>
              rw [← ExtTreeSet.contains_congr hsame]
              exact houtside.symm
          · have := hreads.visits
            simp only at this ⊢
            omega
        · intro hnot
          obtain ⟨e, he⟩ := herror fun hfits => hnot ⟨Nat.lt_succ_of_le hfits.1, by
            have : cost ≤ visits := hfits.2
            simp only
            omega⟩
          simp only at he
          rw [he]
          exact ⟨e, rfl⟩

end Entries

end Kitrove.Git
