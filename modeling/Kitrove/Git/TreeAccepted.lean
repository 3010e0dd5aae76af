import Kitrove.Git.TreeRoundTrip

/-! Trees that others have written: what is accepted of them can be written again, and is read then under
the same limits. -/

namespace Kitrove.Git

open Std
open FileTree (All Distinct WellFormed)

section Ordering

variable {ObjectId : Type} {lib : GitLibrary ObjectId} {entries : List (TreeEntry ObjectId)}

/-- The name of an entry, and whether it is a directory. -/
def TreeEntry.label (entry : TreeEntry ObjectId) : Bytes × Bool := (entry.filename, entry.mode == treeMode)

def labelKey (label : Bytes × Bool) : Bytes := gitTreeKey label.1 label.2

theorem pairwise_of_windowsOrdered (hl : lib.Lawful) (h : windowsOrdered lib entries = true)
    (hplain : ∀ entry ∈ entries, slash ∉ entry.filename) :
    entries.Pairwise fun a b => compare (labelKey a.label) (labelKey b.label) = .lt := by
  induction entries with
  | nil => exact .nil
  | cons first rest ih =>
    obtain ⟨hfirst, hrest⟩ := List.forall_mem_cons.mp hplain
    cases rest with
    | nil => exact List.pairwise_singleton _ _
    | cons second rest =>
      rw [windowsOrdered, Bool.and_eq_true] at h
      have hpairwise := ih h.2 hrest
      have hlt : compare (labelKey first.label) (labelKey second.label) = .lt :=
        (hl.order first second hfirst (hrest second List.mem_cons_self)).mp h.1
      refine .cons (fun entry hentry => ?_) hpairwise
      rcases List.mem_cons.mp hentry with rfl | hentry
      · exact hlt
      · exact TransCmp.lt_trans hlt ((List.pairwise_cons.mp hpairwise).1 entry hentry)

theorem nodup_label (h : entries.Pairwise fun a b => compare (labelKey a.label) (labelKey b.label) = .lt) :
    (entries.map TreeEntry.label).Nodup := by
  refine List.pairwise_map.mpr (h.imp fun {a b} hlt heq => ?_)
  have hsame : compare (labelKey a.label) (labelKey b.label) = .eq := by
    rw [heq]
    exact ReflCmp.compare_self
  rw [hsame] at hlt
  cases hlt

theorem distinct_of_labels {files : List (Bytes × Bytes)} {directories : List (Bytes × GitTreeNode)}
    (h : (labels files directories).Nodup) : Distinct files directories := by
  rw [labels, List.nodup_append'] at h
  refine ⟨List.Nodup.of_map (fun name => (name, false)) ?_, List.Nodup.of_map (fun name => (name, true)) ?_⟩
  · rw [List.map_map]
    exact h.1
  · rw [List.map_map]
    exact h.2.1

end Ordering

section Accepted

variable {ObjectId : Type} [Ord ObjectId] [TransOrd ObjectId] {lib : GitLibrary ObjectId}
  {objects : GitObjectMap ObjectId} {depth : Nat} {lead : List Bytes} {oid : ObjectId}
  {state after : FlattenState ObjectId} {entries : List (TreeEntry ObjectId)}

theorem segments_of_joined {p : PortablePath} {names : List Bytes} (hne : names ≠ [])
    (hnames : ∀ name ∈ names, slash ∉ name) (h : p.bytes = Segments.join slash names) :
    segments p = names := by
  rw [segments, h, splitOn_eq_splitOn]
  exact Segments.splitOn_join hne hnames

omit [TransOrd ObjectId] in
theorem visit_eq_ok (h : visit state = .ok after) :
    after = { state with remainingVisits := after.remainingVisits } ∧
      after.remainingVisits + 1 = state.remainingVisits := by
  rw [visit] at h
  split at h
  · cases h
  · rename_i hne
    cases h
    exact ⟨rfl, Nat.sub_add_cancel (Nat.pos_of_ne_zero hne)⟩

/-- What reading a part of a tree has found: names of one level with their files and trees. -/
structure Found (depth : Nat) (lead : List Bytes) (entries : List (TreeEntry ObjectId))
    (files : List (Bytes × Bytes)) (directories : List (Bytes × GitTreeNode))
    (before after : FlattenState ObjectId) : Prop where
  listed : (entries.map TreeEntry.label).Perm (labels files directories)
  names : ∀ entry ∈ entries, slash ∉ entry.filename
  trees : ∀ d ∈ directories, All Distinct d.2 ∧ d.2.height < depth
  visits : after.remainingVisits + (files.length + (directories.map fun d => d.2.size).sum) =
    before.remainingVisits
  shown : (shown after.files).Perm (shown before.files ++
    (files.map (fun file => (lead ++ [file.1], file.2)) ++
      directories.flatMap fun d => under (lead ++ [d.1]) d.2.leaves))

variable {between : FlattenState ObjectId} {entries' : List (TreeEntry ObjectId)}
  {files files' : List (Bytes × Bytes)} {directories directories' : List (Bytes × GitTreeNode)}

omit [TransOrd ObjectId] in
theorem Found.append (h : Found depth lead entries files directories state between)
    (h' : Found depth lead entries' files' directories' between after) :
    Found depth lead (entries ++ entries') (files ++ files') (directories ++ directories') state after where
  listed := by
    rw [List.map_append, labels, List.map_append, List.map_append]
    refine (h.listed.append h'.listed).trans ?_
    rw [labels, labels, List.append_assoc, List.append_assoc]
    refine List.Perm.append_left _ ?_
    rw [← List.append_assoc, ← List.append_assoc]
    exact List.perm_append_comm.append_right _
  names entry hentry := (List.mem_append.mp hentry).elim (h.names entry) (h'.names entry)
  trees d hd := (List.mem_append.mp hd).elim (h.trees d) (h'.trees d)
  visits := by
    have := h.visits
    have := h'.visits
    rw [List.length_append, List.map_append, List.sum_append_nat]
    omega
  shown := by
    refine h'.shown.trans ((h.shown.append_right _).trans ?_)
    rw [List.append_assoc, List.map_append, List.flatMap_append]
    refine List.Perm.append_left _ ?_
    rw [List.append_assoc, List.append_assoc]
    refine List.Perm.append_left _ ?_
    rw [← List.append_assoc, ← List.append_assoc]
    exact List.perm_append_comm.append_right _

omit [TransOrd ObjectId] in
theorem Found.nil : Found depth lead [] [] [] state state where
  listed := .nil
  names _ h := absurd h List.not_mem_nil
  trees _ h := absurd h List.not_mem_nil
  visits := rfl
  shown := by
    rw [List.map_nil, List.flatMap_nil, List.append_nil, List.append_nil]

/-- What has been read of one subtree. -/
def FoundTree (depth : Nat) (lead : List Bytes) (before after : FlattenState ObjectId)
    (tree : GitTreeNode) : Prop :=
  All Distinct tree ∧ tree.height < depth ∧ after.remainingVisits + tree.size = before.remainingVisits ∧
    (shown after.files).Perm (shown before.files ++ under lead tree.leaves)

def PlainLead (lead : List Bytes) : Prop := ∀ name ∈ lead, name ≠ [] ∧ slash ∉ name

theorem plainLead_concat {name : Bytes} (hlead : PlainLead lead) (hname : name ≠ []) (hslash : slash ∉ name) :
    PlainLead (lead ++ [name]) := by
  intro other hother
  rcases List.mem_append.mp hother with hother | hother
  · exact hlead other hother
  · rw [List.mem_singleton.mp hother]
    exact ⟨hname, hslash⟩

theorem found_entry {entry : TreeEntry ObjectId} (hlead : PlainLead lead)
    (hbelow : ∀ lead, PlainLead lead → ∀ oid (state after : FlattenState ObjectId),
      flattenTree lib objects depth oid (Segments.join slash lead) state = .ok after →
        ∃ tree, FoundTree depth lead state after tree)
    (h : flattenEntry objects (flattenTree lib objects depth) (Segments.join slash lead) state entry =
      .ok after) :
    ∃ files directories, Found depth lead [entry] files directories state after := by
  obtain ⟨_, hname, h⟩ := Except.bind_eq_ok_iff.mp h
  rw [reject_eq_ok, Bool.not_eq_false'] at hname
  have hslash : slash ∉ entry.filename := by
    intro hslash
    rw [entryName, List.contains_iff_mem.mpr hslash, Bool.or_true, Bool.not_true, Bool.and_false] at hname
    exact Bool.false_ne_true hname
  have hne : entry.filename ≠ [] := by
    intro hnil
    rw [hnil] at hname
    exact absurd hname (by decide)
  simp only at h
  rw [joinPath_join fun name hname => (hlead name hname).1] at h
  have hnames : ∀ e ∈ [entry], slash ∉ e.filename := fun e he => List.mem_singleton.mp he ▸ hslash
  split at h
  · rename_i hmode
    obtain ⟨tree, hdistinct, hheight, hvisits, hshown⟩ :=
      hbelow _ (plainLead_concat hlead hne hslash) _ _ _ h
    refine ⟨[], [(entry.filename, tree)], ?_, hnames, ?_, ?_, ?_⟩
    · simp [TreeEntry.label, labels, hmode]
    · intro d hd
      rw [List.mem_singleton.mp hd]
      exact ⟨hdistinct, hheight⟩
    · simpa using hvisits
    · simpa using hshown
  · rename_i hmode
    split at h
    · rename_i hblob
      obtain ⟨between, hvisit, h⟩ := Except.bind_eq_ok_iff.mp h
      obtain ⟨p, hparse, h⟩ := Except.bind_eq_ok_iff.mp h
      obtain ⟨blob, hobject, h⟩ := Except.bind_eq_ok_iff.mp h
      obtain ⟨_, hvacant, h⟩ := Except.bind_eq_ok_iff.mp h
      obtain ⟨hstate, hvisits⟩ := visit_eq_ok hvisit
      rw [reject_eq_ok, Bool.or_eq_false_iff] at hvacant
      cases h
      have hbytes : p.bytes = Segments.join slash (lead ++ [entry.filename]) := by
        rw [required_eq_ok, Name.parse] at hparse
        split at hparse
        · rw [← Option.some.inj hparse]
        · cases hparse
      have hsegments := segments_of_joined (List.append_ne_nil_of_right_ne_nil _ (List.cons_ne_nil _ _))
        (fun name hname => (plainLead_concat hlead hne hslash name hname).2) hbytes
      have hfresh : p ∉ state.files := by
        have hcontains := hvacant.2
        rw [hstate] at hcontains
        rwa [← Bool.not_eq_true, ExtTreeMap.contains_iff_mem] at hcontains
      refine ⟨[(entry.filename, blob.data)], [], ?_, hnames, fun _ hd => absurd hd List.not_mem_nil, ?_, ?_⟩
      · simp [TreeEntry.label, labels, hmode]
      · simpa using hvisits
      · have hperm := shown_insert blob.data hfresh
        rw [hsegments] at hperm
        rw [hstate]
        simpa using hperm
    · cases h

theorem found_entries (hlead : PlainLead lead)
    (hbelow : ∀ lead, PlainLead lead → ∀ oid (state after : FlattenState ObjectId),
      flattenTree lib objects depth oid (Segments.join slash lead) state = .ok after →
        ∃ tree, FoundTree depth lead state after tree)
    (h : entries.foldlM (flattenEntry objects (flattenTree lib objects depth) (Segments.join slash lead))
      state = .ok after) :
    ∃ files directories, Found depth lead entries files directories state after := by
  induction entries generalizing state with
  | nil =>
    cases h
    exact ⟨[], [], .nil⟩
  | cons entry rest ih =>
    rw [List.foldlM_cons] at h
    obtain ⟨between, hentry, hrest⟩ := Except.bind_eq_ok_iff.mp h
    obtain ⟨files, directories, hfound⟩ := found_entry hlead hbelow hentry
    obtain ⟨files', directories', hfound'⟩ := ih hrest
    exact ⟨_, _, hfound.append hfound'⟩

/-- Whatever is accepted as a tree shows the files of a tree as large as the visits that were paid. -/
theorem found_flattenTree (hl : lib.Lawful) (hlead : PlainLead lead)
    (h : flattenTree lib objects depth oid (Segments.join slash lead) state = .ok after) :
    ∃ tree, FoundTree depth lead state after tree := by
  induction depth generalizing lead oid state after with
  | zero =>
    obtain ⟨_, -, h⟩ := Except.bind_eq_ok_iff.mp h
    cases h
  | succ depth ih =>
    obtain ⟨visited, hvisit, h⟩ := Except.bind_eq_ok_iff.mp h
    obtain ⟨_, -, h⟩ := Except.bind_eq_ok_iff.mp h
    obtain ⟨object, -, h⟩ := Except.bind_eq_ok_iff.mp h
    obtain ⟨_, -, h⟩ := Except.bind_eq_ok_iff.mp h
    obtain ⟨entries, -, h⟩ := Except.bind_eq_ok_iff.mp h
    obtain ⟨_, hordered, h⟩ := Except.bind_eq_ok_iff.mp h
    obtain ⟨last, hentries, h⟩ := Except.bind_eq_ok_iff.mp h
    cases h
    rw [reject_eq_ok, Bool.not_eq_false'] at hordered
    obtain ⟨hstate, hvisits⟩ := visit_eq_ok hvisit
    obtain ⟨files, directories, hfound⟩ :=
      found_entries hlead (fun _ hlead _ _ _ hread => ih hlead hread) hentries
    have hdistinct : Distinct files directories := distinct_of_labels
      (hfound.listed.nodup_iff.mp (nodup_label (pairwise_of_windowsOrdered hl hordered hfound.names)))
    refine ⟨.node files directories, .node hdistinct fun name tree hmem => (hfound.trees _ hmem).1, ?_, ?_, ?_⟩
    · exact Nat.lt_succ_of_le (FileTree.height_node_le.mpr fun name tree hmem => (hfound.trees _ hmem).2)
    · have hpaid : last.remainingVisits + (files.length + (directories.map fun d => d.2.size).sum) =
        visited.remainingVisits := hfound.visits
      generalize hsum : (directories.map fun d => d.2.size).sum = below at hpaid
      have hsize : (FileTree.node files directories).size = 1 + files.length + below :=
        hsum ▸ FileTree.size_node
      rw [hsize]
      change last.remainingVisits + _ = _
      omega
    · have hshown := hfound.shown
      rw [hstate] at hshown
      refine hshown.trans (List.Perm.append_left _ ?_)
      rw [FileTree.leaves_node, under, List.map_append, List.map_map, List.map_flatMap]
      refine .of_eq (congrArg _ (List.flatMap_congr fun d _ => ?_))
      rw [under, List.map_map]
      refine List.map_congr_left fun leaf _ => ?_
      simp

end Accepted

section Again

variable {ObjectId : Type} [Ord ObjectId] [TransOrd ObjectId] {lib : GitLibrary ObjectId}
  {objects given stored fetched : GitObjectMap ObjectId} {oid oid' : ObjectId} {root : GitTreeNode}
  {files files' : OrdMap PortablePath Bytes} {visits rest rest' : Nat}

/-- What is accepted of a tree and can be written as a tree again is read back of what is written under
the same limits, and with no fewer visits left. -/
theorem readTree_again (hl : lib.Lawful) (hread : readTree lib given oid visits = .ok (files, rest))
    (hflat : ∀ p ∈ files, Utf8.valid p.bytes = true ∧ 0 ∉ p.bytes) (hbuild : buildTree files = .ok root)
    (hstore : storeTree lib root objects = .ok (oid', stored)) (hfetched : Grows stored fetched) :
    ∃ rest', readTree lib fetched oid' visits = .ok (files, rest') ∧ rest ≤ rest' := by
  obtain ⟨after, hafter, h⟩ := Except.bind_eq_ok_iff.mp hread
  obtain ⟨rfl, rfl⟩ := Prod.mk.inj (Except.ok.inj h)
  have hlead : PlainLead [] := fun _ h => absurd h List.not_mem_nil
  obtain ⟨tree, hdistinct, hheight, hvisits, hshown⟩ := found_flattenTree hl hlead hafter
  have hshows := Shows.of_buildTree hbuild
  have hleaves : tree.leaves.Perm root.leaves := by
    have hempty : shown (∅ : OrdMap PortablePath Bytes) = [] := by simp [shown]
    have hunder : under [] tree.leaves = tree.leaves := by simp [under]
    rw [hempty, List.nil_append, hunder] at hshown
    exact hshown.symm.trans hshows.leaves.symm
  have hsize : root.size ≤ tree.size := by
    refine FileTree.size_le hshows.wellFormed fun path bytes hget => ?_
    rw [← FileTree.mem_leaves hshows.wellFormed.distinct, ← hleaves.mem_iff,
      FileTree.mem_leaves hdistinct] at hget
    rw [hget]
    rfl
  have hheights : root.height ≤ tree.height := by
    refine (FileTree.height_le_iff hshows.wellFormed).mpr fun path bytes hget => ?_
    rw [← FileTree.mem_leaves hshows.wellFormed.distinct, ← hleaves.mem_iff,
      FileTree.mem_leaves hdistinct] at hget
    exact FileTree.length_le hget
  have hholds := (storeTree_stored (hshows.storable hflat) hstore).2.mono hfetched
  have hpaid : after.remainingVisits + tree.size = visits := hvisits
  refine ⟨visits - root.size, (hshows.readTree hl hflat hholds).mpr ⟨?_, ?_, rfl⟩, ?_⟩
  · exact Nat.le_trans hheights (Nat.le_of_lt_succ hheight)
  · omega
  · omega

/-- The sample again, from what was stored of it. -/
theorem readTree_again_sample : ∃ oid stored rest, storeTree sampleGitLibrary sampleTree ∅ = .ok (oid, stored) ∧
    readTree sampleGitLibrary stored oid 9 = .ok (sampleSnapshot, rest) ∧ 6 ≤ rest := by
  obtain ⟨oid, stored, hstore⟩ := storeTree_sample
  have hshows := Shows.of_buildTree buildTree_sample
  have hholds := (storeTree_stored (hshows.storable sampleSnapshot_plain) hstore).2
  have hread : readTree sampleGitLibrary stored oid 9 = .ok (sampleSnapshot, 6) :=
    (hshows.readTree sampleGitLibrary_lawful sampleSnapshot_plain hholds).mpr ⟨by decide, rfl, rfl⟩
  obtain ⟨rest, hagain, hle⟩ := readTree_again sampleGitLibrary_lawful hread sampleSnapshot_plain
    buildTree_sample hstore .refl
  exact ⟨oid, stored, rest, hstore, hagain, hle⟩

end Again

end Kitrove.Git
