import Kitrove.Git.Log

/-! The snapshots that are read back from a Git remote: those of the publications it has accepted. -/

namespace Kitrove.Git

open Std Except

section Monotone

variable {ObjectId : Type} [Ord ObjectId] [TransOrd ObjectId] {lib : GitLibrary ObjectId}
  {objects objects' : GitObjectMap ObjectId} {state after : FlattenState ObjectId}

theorem flattenEntry_mono {below below' : ObjectId → Bytes → FlattenState ObjectId →
      Except BackendError (FlattenState ObjectId)} {lead : Bytes} {entry : TreeEntry ObjectId}
    (hgrows : Grows objects objects')
    (hbelow : ∀ oid path state after, below oid path state = .ok after → below' oid path state = .ok after)
    (h : flattenEntry objects below lead state entry = .ok after) :
    flattenEntry objects' below' lead state entry = .ok after := by
  obtain ⟨_, hname, h⟩ := bind_eq_ok_iff.mp h
  refine bind_eq_ok_iff.mpr ⟨_, hname, ?_⟩
  by_cases hmode : entry.mode = treeMode
  · rw [if_pos hmode] at h ⊢
    exact hbelow _ _ _ _ h
  rw [if_neg hmode] at h ⊢
  by_cases hblob : entry.mode = blobMode
  · rw [if_pos hblob] at h ⊢
    obtain ⟨visited, hvisit, h⟩ := bind_eq_ok_iff.mp h
    obtain ⟨path, hpath, h⟩ := bind_eq_ok_iff.mp h
    obtain ⟨blob, hread, h⟩ := bind_eq_ok_iff.mp h
    rw [required_eq_ok] at hread
    refine bind_eq_ok_iff.mpr ⟨visited, hvisit, bind_eq_ok_iff.mpr ⟨path, hpath, ?_⟩⟩
    exact bind_eq_ok_iff.mpr ⟨blob, required_eq_ok.mpr (hgrows _ _ hread), h⟩
  · rw [if_neg hblob] at h
    cases h

theorem foldlM_mono {α β : Type} {f g : β → α → Except BackendError β} {xs : List α} {b c : β}
    (hfg : ∀ b x c, f b x = .ok c → g b x = .ok c) (h : xs.foldlM f b = .ok c) : xs.foldlM g b = .ok c := by
  induction xs generalizing b with
  | nil => exact h
  | cons x xs ih =>
    rw [List.foldlM_cons] at h ⊢
    obtain ⟨next, hnext, h⟩ := bind_eq_ok_iff.mp h
    exact bind_eq_ok_iff.mpr ⟨next, hfg _ _ _ hnext, ih h⟩

/-- What is read of some objects is read of more objects. -/
theorem flattenTree_mono {depth : Nat} {oid : ObjectId} {lead : Bytes} (hgrows : Grows objects objects')
    (h : flattenTree lib objects depth oid lead state = .ok after) :
    flattenTree lib objects' depth oid lead state = .ok after := by
  induction depth generalizing oid lead state after with
  | zero => exact h
  | succ depth ih =>
    obtain ⟨visited, hvisit, h⟩ := bind_eq_ok_iff.mp h
    obtain ⟨_, houtside, h⟩ := bind_eq_ok_iff.mp h
    obtain ⟨object, hobject, h⟩ := bind_eq_ok_iff.mp h
    obtain ⟨_, hkind, h⟩ := bind_eq_ok_iff.mp h
    obtain ⟨entries, hentries, h⟩ := bind_eq_ok_iff.mp h
    obtain ⟨_, hordered, h⟩ := bind_eq_ok_iff.mp h
    obtain ⟨read, hread, h⟩ := bind_eq_ok_iff.mp h
    rw [required_eq_ok] at hobject
    refine bind_eq_ok_iff.mpr ⟨visited, hvisit, bind_eq_ok_iff.mpr ⟨_, houtside, ?_⟩⟩
    refine bind_eq_ok_iff.mpr ⟨object, required_eq_ok.mpr (hgrows _ _ hobject), ?_⟩
    refine bind_eq_ok_iff.mpr ⟨_, hkind, bind_eq_ok_iff.mpr ⟨entries, hentries, ?_⟩⟩
    refine bind_eq_ok_iff.mpr ⟨_, hordered, bind_eq_ok_iff.mpr ⟨read, ?_, h⟩⟩
    exact foldlM_mono (fun _ _ _ hentry => flattenEntry_mono hgrows (fun _ _ _ _ => ih) hentry) hread

theorem readTree_mono {oid : ObjectId} {visits rest : Nat} {files : FlatFiles}
    (hgrows : Grows objects objects') (h : readTree lib objects oid visits = .ok (files, rest)) :
    readTree lib objects' oid visits = .ok (files, rest) := by
  obtain ⟨after, hafter, h⟩ := bind_eq_ok_iff.mp h
  exact bind_eq_ok_iff.mpr ⟨after, flattenTree_mono hgrows hafter, h⟩

end Monotone

section Files

variable {Envelope : Type} {envelopes : EnvelopeLibrary Envelope} {files files' : FlatFiles}
  {path bytes : Bytes} {limits : SyncLimits}

/-- What is in some files is in the others. -/
def FilesGrow (files files' : FlatFiles) : Prop :=
  ∀ (path : PortablePath) (bytes : Bytes), files[path]? = some bytes → files'[path]? = some bytes

theorem FilesGrow.refl : FilesGrow files files := fun _ _ h => h

theorem FilesGrow.trans {files'' : FlatFiles} (h : FilesGrow files files') (h' : FilesGrow files' files'') :
    FilesGrow files files'' := fun path bytes hbytes => h' path bytes (h path bytes hbytes)

/-- A file is added under a path that was not taken. -/
theorem insertFlat_eq_ok : insertFlat files path bytes = .ok files' ↔
    ∃ p : PortablePath, path = p.bytes ∧ p ∉ files ∧ files' = files.insert p bytes := by
  constructor
  · intro h
    obtain ⟨p, hp, h⟩ := bind_eq_ok_iff.mp h
    rw [parsePath, required_eq_ok, parse_eq_some] at hp
    by_cases hmem : p ∈ files
    · rw [if_pos (ExtTreeMap.contains_iff_mem.mpr hmem)] at h
      cases h
    · rw [if_neg (fun hc => hmem (ExtTreeMap.contains_iff_mem.mp hc))] at h
      exact ⟨p, hp, hmem, (Except.ok.inj h).symm⟩
  · rintro ⟨p, hp, hmem, rfl⟩
    refine bind_eq_ok_iff.mpr ⟨p, required_eq_ok.mpr (parse_eq_some.mpr hp), ?_⟩
    rw [if_neg (fun hc => hmem (ExtTreeMap.contains_iff_mem.mp hc))]

theorem insertFlat_grows (h : insertFlat files path bytes = .ok files') :
    FilesGrow files files' ∧ ∃ p : PortablePath, path = p.bytes ∧ files'[p]? = some bytes := by
  obtain ⟨p, hp, hmem, rfl⟩ := insertFlat_eq_ok.mp h
  refine ⟨fun other bytes hother => ?_, p, hp, ExtTreeMap.getElem?_insert_self⟩
  have hne : p ≠ other := by
    rintro rfl
    rw [OrdMap.getElem?_eq_none.mpr hmem] at hother
    cases hother
  rw [ExtTreeMap.getElem?_insert, if_neg (fun hsame => hne (LawfulEqCmp.eq_of_compare hsame)), hother]

theorem foldlM_grows {α : Type} {f : FlatFiles → α → Except BackendError FlatFiles} {xs : List α}
    (hf : ∀ files x files', f files x = .ok files' → FilesGrow files files')
    (h : xs.foldlM f files = .ok files') : FilesGrow files files' := by
  induction xs generalizing files with
  | nil =>
    obtain rfl := Except.ok.inj h
    exact .refl
  | cons x xs ih =>
    rw [List.foldlM_cons] at h
    obtain ⟨next, hnext, h⟩ := bind_eq_ok_iff.mp h
    exact (hf _ _ _ hnext).trans (ih h)

theorem insertEnvelope_grows {state after : Nat × FlatFiles} {envelope : Envelope}
    (h : insertEnvelope envelopes limits state envelope = .ok after) : FilesGrow state.2 after.2 := by
  obtain ⟨_, -, h⟩ := bind_eq_ok_iff.mp h
  obtain ⟨_, -, h⟩ := bind_eq_ok_iff.mp h
  obtain ⟨⟨metadata, payload⟩, -, h⟩ := bind_eq_ok_iff.mp h
  obtain ⟨withMetadata, hmetadata, h⟩ := bind_eq_ok_iff.mp h
  obtain ⟨withPayload, hpayload, h⟩ := bind_eq_ok_iff.mp h
  obtain rfl := Except.ok.inj h
  exact (insertFlat_grows hmetadata).1.trans
    (foldlM_grows (fun _ _ _ hfile => (insertFlat_grows hfile).1) hpayload)

theorem insertEnvelopes_grows {supplied : List Envelope} {state after : Nat × FlatFiles}
    (h : supplied.foldlM (insertEnvelope envelopes limits) state = .ok after) :
    FilesGrow state.2 after.2 := by
  induction supplied generalizing state with
  | nil =>
    obtain rfl := Except.ok.inj h
    exact .refl
  | cons envelope supplied ih =>
    rw [List.foldlM_cons] at h
    obtain ⟨next, hnext, h⟩ := bind_eq_ok_iff.mp h
    exact (insertEnvelope_grows hnext).trans (ih h)

/-- The files of a publication hold the text of its snapshot. -/
theorem flatFiles_snapshot {snapshots : SnapshotCodec} {staged : PortableSnapshot} {supplied : List Envelope}
    (h : flatFiles envelopes snapshots staged supplied limits = .ok files) :
    ∃ (p : PortablePath) (text : Bytes), snapshotFile = p.bytes ∧
      staged.toJson snapshots limits = .ok text ∧ files[p]? = some text := by
  obtain ⟨_, -, h⟩ := bind_eq_ok_iff.mp h
  obtain ⟨text, htext, h⟩ := bind_eq_ok_iff.mp h
  obtain ⟨first, hfirst, h⟩ := bind_eq_ok_iff.mp h
  obtain ⟨⟨total, all⟩, hall, h⟩ := bind_eq_ok_iff.mp h
  obtain rfl := Except.ok.inj h
  obtain ⟨-, p, hp, hread⟩ := insertFlat_grows hfirst
  exact ⟨p, text, hp, mapError_eq_ok_iff.mp htext, insertEnvelopes_grows hall p text hread⟩

end Files

section Snapshots

variable {ObjectId : Type} [Ord ObjectId] [TransOrd ObjectId] {Envelope : Type} {lib : GitCodec ObjectId}
  {envelopes : EnvelopeLibrary Envelope} {blake3 : Bytes → Digest} {snapshots : SnapshotCodec}
  {p : Proposal lib envelopes blake3 snapshots} {objects : GitObjectMap ObjectId} {tree : ObjectId}
  {limits : SyncLimits} {snapshot : PortableSnapshot} {verified : VerifiedObjects Envelope}
  {visits rest budget left : Nat} {files : FlatFiles}

/-- The only snapshot that is taken out of the files of a publication is the one that was staged. -/
theorem takeSnapshot_flatFiles (hs : snapshots.Lawful) {staged : PortableSnapshot} {supplied : List Envelope}
    {published : SyncLimits} (hcanonical : Canonical blake3 snapshots staged)
    (hfiles : flatFiles envelopes snapshots staged supplied published = .ok files)
    (h : takeSnapshot envelopes blake3 snapshots limits files budget = .ok (snapshot, verified, left)) :
    snapshot = staged := by
  obtain ⟨path, text, hpath, htext, hread⟩ := flatFiles_snapshot hfiles
  obtain ⟨path', hpath', h⟩ := bind_eq_ok_iff.mp h
  obtain ⟨text', htext', h⟩ := bind_eq_ok_iff.mp h
  obtain ⟨_, -, h⟩ := bind_eq_ok_iff.mp h
  obtain ⟨_, -, h⟩ := bind_eq_ok_iff.mp h
  obtain ⟨snapshot', hsnapshot, h⟩ := bind_eq_ok_iff.mp h
  obtain ⟨⟨remaining, taken⟩, -, h⟩ := bind_eq_ok_iff.mp h
  obtain ⟨_, -, h⟩ := bind_eq_ok_iff.mp h
  obtain rfl := (Prod.mk.inj (Except.ok.inj h)).1
  rw [parsePath, required_eq_ok, parse_eq_some] at hpath'
  rw [required_eq_ok, Name.ext_bytes (hpath'.symm.trans hpath), hread] at htext'
  obtain rfl := Option.some.inj htext'
  obtain ⟨hcanonical', hwithin⟩ := fromJson_sound (mapError_eq_ok_iff.mp hsnapshot)
  exact toJson_snapshot hs hcanonical' hcanonical hwithin.encoded htext

/-- The only files that are read of the tree of a publication are those that it was stored as. -/
theorem Proposal.Made.readTree (hl : lib.Lawful) {parent : Option ObjectId} {flat : FlatFiles}
    {root : GitTreeNode} (hmade : p.Made parent tree flat root) (hstored : Grows p.objects objects)
    (h : readTree lib.toGitLibrary objects tree visits = .ok (files, rest)) : files = flat := by
  obtain ⟨before, hbefore, hgrows⟩ := hmade.stored
  have hplain := p.plain flat hmade.flat
  have hshows := Shows.of_buildTree hmade.built
  have hholds := (storeTree_stored (hshows.storable hplain) hbefore).2.mono (hgrows.trans hstored)
  exact ((hshows.readTree hl.toLawful hplain hholds).mp h).2.2

/-- A snapshot that some objects show at a tree, within some limits. -/
def Shown (lib : GitCodec ObjectId) (envelopes : EnvelopeLibrary Envelope) (blake3 : Bytes → Digest)
    (snapshots : SnapshotCodec) (objects : GitObjectMap ObjectId) (tree : ObjectId)
    (snapshot : PortableSnapshot) : Prop :=
  ∃ (visits rest budget left : Nat) (files : FlatFiles) (limits : SyncLimits)
    (verified : VerifiedObjects Envelope),
    readTree lib.toGitLibrary objects tree visits = .ok (files, rest) ∧
      takeSnapshot envelopes blake3 snapshots limits files budget = .ok (snapshot, verified, left)

theorem Shown.eq_staged (hl : lib.Lawful) (hs : snapshots.Lawful) (hstored : Grows p.objects objects)
    (htree : treeOf lib objects p.commit = some tree)
    (h : Shown lib envelopes blake3 snapshots objects tree snapshot) : snapshot = p.staged := by
  obtain ⟨visits, rest, budget, left, files, limits, verified, hread, htake⟩ := h
  obtain ⟨parent, tree', flat, root, hmade⟩ := p.made
  have hnamed := treeOf_mono hstored (links_of_deterministic hl hmade.named).2
  rw [htree] at hnamed
  obtain rfl := Option.some.inj hnamed
  obtain rfl := hmade.readTree hl hstored hread
  exact takeSnapshot_flatFiles hs p.canonical hmade.flat htake

/-- The snapshots shown at the trees of accepted publications are those that were staged. -/
theorem shown_staged {accepted : List (Proposal lib envelopes blake3 snapshots)}
    {objects : GitObjectMap ObjectId}
    {history : List (ObjectId × ObjectId)} {read : List (RemoteRevision × PortableSnapshot)}
    (hl : lib.Lawful) (hs : snapshots.Lawful) (hstored : ∀ p ∈ accepted, Grows p.objects objects)
    (hcommits : history.map Prod.fst = accepted.map Proposal.commit)
    (htrees : ∀ commit ∈ history, treeOf lib objects commit.1 = some commit.2)
    (hread : List.Forall₂ (fun commit s => s.1.bytes = commitRevision lib commit.1 ∧
      Shown lib envelopes blake3 snapshots objects commit.2 s.2) history read) :
    read.map (fun s => (s.1.bytes, s.2)) =
      accepted.map fun p => (commitRevision lib p.commit, p.staged) := by
  induction hread generalizing accepted with
  | nil =>
    rw [List.map_eq_nil_iff.mp hcommits.symm]
    rfl
  | @cons commit s history read hfirst hrest ih =>
    cases accepted with
    | nil => cases hcommits
    | cons p accepted =>
      obtain ⟨hcommit, hcommits⟩ := List.cons.inj hcommits
      obtain ⟨hp, hstored⟩ := List.forall_mem_cons.mp hstored
      obtain ⟨htree, htrees⟩ := List.forall_mem_cons.mp htrees
      rw [hcommit] at htree
      rw [List.map_cons, List.map_cons, ih hstored hcommits htrees, hfirst.1, hcommit,
        hfirst.2.eq_staged hl hs hp htree]

end Snapshots

section Histories

variable {ObjectId : Type} [Ord ObjectId] [TransOrd ObjectId] [LawfulEqOrd ObjectId] {Envelope : Type}
  {lib : GitCodec ObjectId} {envelopes : EnvelopeLibrary Envelope} {blake3 : Bytes → Digest}
  {snapshots : SnapshotCodec} {objects : GitObjectMap ObjectId} {given : FetchedGit ObjectId}
  {limits : GitLimits} {state after : HistoryState ObjectId Envelope} {tree : ObjectId}
  {snapshot : PortableSnapshot} {history : List (ObjectId × ObjectId)}

/-- The snapshots that a reading keeps by their trees are those that the objects show. -/
def Remembers (lib : GitCodec ObjectId) (envelopes : EnvelopeLibrary Envelope) (blake3 : Bytes → Digest)
    (snapshots : SnapshotCodec) (objects : GitObjectMap ObjectId) (state : HistoryState ObjectId Envelope) :
    Prop :=
  ∀ (tree : ObjectId) (snapshot : PortableSnapshot), state.verifiedTrees[tree]? = some snapshot →
    Shown lib envelopes blake3 snapshots objects tree snapshot

theorem snapshotOfTree_shown (hgrows : Grows given.objects objects)
    (hstate : Remembers lib envelopes blake3 snapshots objects state)
    (h : snapshotOfTree lib envelopes blake3 snapshots given limits state tree = .ok (snapshot, after)) :
    Shown lib envelopes blake3 snapshots objects tree snapshot ∧
      Remembers lib envelopes blake3 snapshots objects after := by
  rw [snapshotOfTree] at h
  split at h
  · rename_i known hknown
    obtain ⟨rfl, rfl⟩ := Prod.mk.inj (Except.ok.inj h)
    exact ⟨hstate tree known hknown, hstate⟩
  · obtain ⟨⟨read, verified, budget, visits⟩, hread, h⟩ := bind_eq_ok_iff.mp h
    obtain ⟨merged, -, h⟩ := bind_eq_ok_iff.mp h
    obtain ⟨rfl, rfl⟩ := Prod.mk.inj (Except.ok.inj h)
    obtain ⟨⟨files, rest⟩, hfiles, hread⟩ := bind_eq_ok_iff.mp hread
    obtain ⟨⟨taken, takenObjects, left⟩, htake, hread⟩ := bind_eq_ok_iff.mp hread
    obtain ⟨rfl, -⟩ := Prod.mk.inj (Except.ok.inj hread)
    have hshown : Shown lib envelopes blake3 snapshots objects tree taken :=
      ⟨_, rest, _, left, files, _, takenObjects, readTree_mono hgrows hfiles, htake⟩
    refine ⟨hshown, fun other snapshot hother => ?_⟩
    rw [ExtTreeMap.getElem?_insert] at hother
    split at hother
    · rename_i hsame
      rw [← LawfulEqCmp.eq_of_compare hsame, ← Option.some.inj hother]
      exact hshown
    · exact hstate other snapshot hother

/-- The snapshots of a history that has been read are those that the objects show at its trees. -/
theorem readCommits_shown (hgrows : Grows given.objects objects)
    (hstate : Remembers lib envelopes blake3 snapshots objects state)
    (h : history.foldlM (readCommit lib envelopes blake3 snapshots given limits) state = .ok after) :
    ∃ read, after.snapshots = state.snapshots ++ read ∧ List.Forall₂ (fun commit s =>
      s.1.bytes = commitRevision lib commit.1 ∧
        Shown lib envelopes blake3 snapshots objects commit.2 s.2) history read := by
  induction history generalizing state with
  | nil =>
    obtain rfl := Except.ok.inj h
    exact ⟨[], (List.append_nil _).symm, .nil⟩
  | cons commit history ih =>
    rw [List.foldlM_cons] at h
    obtain ⟨next, hnext, h⟩ := bind_eq_ok_iff.mp h
    obtain ⟨⟨snapshot, between⟩, hread, hnext⟩ := bind_eq_ok_iff.mp hnext
    obtain ⟨revision, hrevision, hnext⟩ := bind_eq_ok_iff.mp hnext
    rw [required_eq_ok, parse_eq_some] at hrevision
    obtain rfl := Except.ok.inj hnext
    obtain ⟨hshown, hbetween⟩ := snapshotOfTree_shown hgrows hstate hread
    have hremembers : Remembers lib envelopes blake3 snapshots objects
        { between with snapshots := between.snapshots ++ [(revision, snapshot)] } := hbetween
    obtain ⟨read, hafter, hall⟩ := ih hremembers h
    refine ⟨(revision, snapshot) :: read, ?_, .cons ⟨hrevision.symm, hshown⟩ hall⟩
    rw [hafter, snapshotOfTree_snapshots hread, List.append_assoc]
    rfl

end Histories

section Results

variable {ObjectId : Type} [Ord ObjectId] [TransOrd ObjectId] [LawfulEqOrd ObjectId] {Envelope : Type}
  {lib : GitCodec ObjectId} {envelopes : EnvelopeLibrary Envelope} {blake3 : Bytes → Digest}
  {snapshots : SnapshotCodec} {w : World lib envelopes blake3 snapshots}
  {fetched : Option (FetchedGit ObjectId)} {limits : GitLimits}
  {observation : GitObservation ObjectId Envelope}

/-- Whatever is fetched of a remote, what is read of it is the log of what it has accepted: its commits, and
for each of them the snapshot that was staged. -/
theorem observation_exact (hl : lib.Lawful) (hs : snapshots.Lawful) (h : Reachable w)
    (hfetched : Fetched w.objects fetched)
    (hobserved : finishGitObservation lib envelopes blake3 snapshots limits w.head fetched =
      .ok observation) :
    observation.history = w.accepted.map Proposal.commit ∧
      observation.remote.revision.bytes = revisionOf lib w.head ∧
      observation.remote.snapshot = (w.accepted.map Proposal.staged).head? ∧
      (observation.rollbackHistory.getD []).map (fun s => (s.1.bytes, s.2)) =
        w.accepted.map fun p => (commitRevision lib p.commit, p.staged) := by
  have hinv := h.inv hl
  obtain ⟨hrevision, hlineage⟩ := finishGitObservation_history hfetched hobserved
  refine ⟨hlineage.unique (hinv.lineage hl), hrevision, ?_⟩
  have hhead := hinv.head
  cases hselected : w.head with
  | none =>
    rw [hselected] at hobserved hhead
    rw [List.map_eq_nil_iff.mp (List.head?_eq_none_iff.mp hhead.symm)]
    cases fetched with
    | some given => cases hobserved
    | none =>
      obtain ⟨revision, -, hobserved⟩ := bind_eq_ok_iff.mp hobserved
      obtain rfl := Except.ok.inj hobserved
      exact ⟨rfl, rfl⟩
  | some commit =>
    rw [hselected] at hobserved
    cases fetched with
    | none => cases hobserved
    | some given =>
      obtain ⟨verified, hverified, hobserved⟩ := bind_eq_ok_iff.mp hobserved
      obtain ⟨checked, hchecked, hobserved⟩ := bind_eq_ok_iff.mp hobserved
      obtain ⟨commits, hcommits, hverified⟩ := bind_eq_ok_iff.mp hverified
      obtain ⟨state, hstate, hverified⟩ := bind_eq_ok_iff.mp hverified
      obtain ⟨_, -, hverified⟩ := bind_eq_ok_iff.mp hverified
      obtain ⟨_, -, hchecked⟩ := bind_eq_ok_iff.mp hchecked
      obtain ⟨_, -, hchecked⟩ := bind_eq_ok_iff.mp hchecked
      obtain rfl := Except.ok.inj hverified
      obtain rfl := Except.ok.inj hchecked
      have hgrows := hfetched given rfl
      obtain ⟨hchain, htrees⟩ := verifyCommitChain_lineage hcommits
      have hchain := hchain.mono fun id next hid => parentOf_mono hgrows hid
      have hsame : commits.map Prod.fst = w.accepted.map Proposal.commit :=
        hchain.unique (hselected ▸ hinv.lineage hl)
      have hempty : Remembers lib envelopes blake3 snapshots w.objects
          ⟨[], ∅, ∅, limits.maxSnapshotBytes.toNat, limits.git.maxDecodedObjects⟩ := by
        intro tree snapshot hknown
        simp at hknown
      obtain ⟨read, hread, hshown⟩ := readCommits_shown hgrows hempty hstate
      have hall := shown_staged hl hs hinv.stored hsame
        (fun commit hcommit => treeOf_mono hgrows (htrees commit hcommit)) hshown
      rw [List.nil_append] at hread
      rw [hread] at hobserved
      cases read with
      | nil => cases hobserved
      | cons current older =>
        obtain rfl := Except.ok.inj hobserved
        refine ⟨?_, hall⟩
        have hstaged := congrArg (fun read => (read.map Prod.snd).head?) hall
        rw [List.map_map, List.map_map] at hstaged
        exact hstaged

/-- The first publication is read back. -/
theorem observation_exact_sample : ∃ (w : World firstGitCodec noEnvelopes (fun _ => zeroDigest) sampleCodec)
    (observation : GitObservation UInt8 Empty), Reachable w ∧
      observation.history = w.accepted.map Proposal.commit ∧
      observation.remote.snapshot = some emptySnapshot := by
  obtain ⟨p, hp, h⟩ := reachable_first
  obtain ⟨observation, hobserved⟩ := observes_first hp
  obtain ⟨hhistory, -, hsnapshot, -⟩ :=
    observation_exact firstGitCodec_lawful sampleCodec_lawful h fetched_first hobserved
  exact ⟨firstWorld p, observation, h, hhistory, hsnapshot.trans (congrArg some hp.staged)⟩

end Results

end Kitrove.Git
