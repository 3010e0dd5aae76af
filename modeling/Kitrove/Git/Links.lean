import Kitrove.Git.Publication
import Kitrove.Git.TreeRoundTrip
import Kitrove.Support.Lineage

/-! The commits of publications: what each one names, and what a verified chain of them is. -/

namespace Kitrove.Git

open Std Except

/-- What is read of what the libraries have written. -/
structure GitCodec.Lawful {ObjectId : Type} (lib : GitCodec ObjectId) : Prop extends
    lib.toGitLibrary.Lawful where
  hex (oid : ObjectId) : lib.fromHex (lib.hex oid) = some oid
  hash_ne_null (kind : ObjectKind) (data : Bytes) : lib.computeHash kind data ≠ some lib.null
  commit (tree : ObjectId) (parents : List ObjectId) (message : Bytes) :
    lib.parseCommit (commitLinks lib tree parents ++ commitSignatures ++ message) =
      some ⟨lib.hex tree, parents.map lib.hex⟩
  intent (value : GitPublicationIntent) (text : Bytes) (h : lib.encodeIntent value = some text) :
    lib.decodeIntent (text ++ [newline]) = some value

section Names

variable {kind : NameKind} {text : Bytes} {name : Name kind}

theorem parse_eq_some : Name.parse kind text = some name ↔ text = name.bytes := by
  rw [Name.parse]
  constructor
  · intro h
    split at h
    · rw [← Option.some.inj h]
    · cases h
  · rintro rfl
    rw [dif_pos ⟨name.valid, name.bounded⟩]

end Names

section Revisions

variable {ObjectId : Type} {lib : GitCodec ObjectId} {expected : RemoteRevision} {head : Option ObjectId}

theorem hex_injective (hl : lib.Lawful) : Function.Injective lib.hex := by
  intro oid oid' h
  have hsame := hl.hex oid
  rw [h, hl.hex oid'] at hsame
  exact (Option.some.inj hsame).symm

theorem commitRevision_ne_absent {commit : ObjectId} : commitRevision lib commit ≠ absentRevision := by
  intro h
  have hstrip : stripPrefix commitQualifier absentRevision = none := by decide
  rw [← h, commitRevision, stripPrefix_append] at hstrip
  cases hstrip

theorem revisionOf_injective (hl : lib.Lawful) : Function.Injective (revisionOf lib) := by
  intro head head' h
  cases head with
  | none =>
    cases head' with
    | none => rfl
    | some commit' => exact absurd h.symm commitRevision_ne_absent
  | some commit =>
    cases head' with
    | none => exact absurd h commitRevision_ne_absent
    | some commit' => rw [hex_injective hl (List.append_cancel_left h)]

theorem parseExpectedParent_revisionOf (hl : lib.Lawful) (h : expected.bytes = revisionOf lib head) :
    parseExpectedParent lib expected = .ok head := by
  cases head with
  | none => exact if_pos h
  | some commit =>
    have hne : expected.bytes ≠ absentRevision := h ▸ commitRevision_ne_absent
    have hstrip : stripPrefix commitQualifier expected.bytes = some (lib.hex commit) := by
      rw [h, revisionOf, commitRevision, stripPrefix_append]
    rw [parseExpectedParent, if_neg hne, hstrip, Option.bind_some, hl.hex]

end Revisions

section Links

variable {ObjectId : Type} [Ord ObjectId] [TransOrd ObjectId] {lib : GitCodec ObjectId}
  {objects objects' : GitObjectMap ObjectId} {id tree : ObjectId} {parent : Option ObjectId}

def commitOf (lib : GitCodec ObjectId) (objects : GitObjectMap ObjectId) (id : ObjectId) : Option CommitRef :=
  objects[id]?.bind fun object => if object.kind = .commit then lib.parseCommit object.data else none

/-- The commit before a commit, if it names one. -/
def parentOf (lib : GitCodec ObjectId) (objects : GitObjectMap ObjectId) (id : ObjectId) :
    Option (Option ObjectId) :=
  (commitOf lib objects id).bind fun commit =>
    match commit.parents with
    | [] => some none
    | [parent] => (lib.fromHex parent).map some
    | _ => none

def treeOf (lib : GitCodec ObjectId) (objects : GitObjectMap ObjectId) (id : ObjectId) : Option ObjectId :=
  (commitOf lib objects id).bind fun commit => lib.fromHex commit.tree

theorem commitOf_mono (hgrows : Grows objects objects') {commit : CommitRef}
    (h : commitOf lib objects id = some commit) : commitOf lib objects' id = some commit := by
  obtain ⟨object, hobject, h⟩ := Option.bind_eq_some_iff.mp h
  rw [commitOf, hgrows id object hobject]
  exact h

theorem parentOf_mono (hgrows : Grows objects objects') (h : parentOf lib objects id = some parent) :
    parentOf lib objects' id = some parent := by
  obtain ⟨commit, hcommit, h⟩ := Option.bind_eq_some_iff.mp h
  rw [parentOf, commitOf_mono hgrows hcommit]
  exact h

theorem treeOf_mono (hgrows : Grows objects objects') (h : treeOf lib objects id = some tree) :
    treeOf lib objects' id = some tree := by
  obtain ⟨commit, hcommit, h⟩ := Option.bind_eq_some_iff.mp h
  rw [treeOf, commitOf_mono hgrows hcommit]
  exact h

/-- What the commit of a publication names. -/
theorem links_of_deterministic (hl : lib.Lawful) {publicationId : PublicationId} {digest : SnapshotDigest}
    (h : objects[id]? = some ⟨.commit, deterministicCommit lib tree parent publicationId digest⟩) :
    parentOf lib objects id = some parent ∧ treeOf lib objects id = some tree := by
  have hcommit : commitOf lib objects id = some ⟨lib.hex tree, parent.toList.map lib.hex⟩ := by
    rw [commitOf, h, Option.bind_some, if_pos rfl, deterministicCommit, hl.commit]
  constructor
  · rw [parentOf, hcommit, Option.bind_some]
    cases parent with
    | none => rfl
    | some parent => simp [hl.hex]
  · rw [treeOf, hcommit, Option.bind_some, hl.hex]

theorem insertGitObject_hash {lib : GitLibrary ObjectId} {kind : ObjectKind} {data : Bytes}
    (h : insertGitObject lib objects kind data = .ok (id, objects')) :
    lib.computeHash kind data = some id := by
  obtain ⟨hash, hhash, h⟩ := bind_eq_ok_iff.mp h
  rw [required_eq_ok] at hhash
  split at h
  · split at h
    · rw [hhash, (Prod.mk.inj (Except.ok.inj h)).1]
    · cases h
  · rw [hhash, (Prod.mk.inj (Except.ok.inj h)).1]

variable {fetched : FetchedGit ObjectId} {fuel : Nat} {seen : OrdSet ObjectId} {current : ObjectId}
  {history : List (ObjectId × ObjectId)}

/-- A verified chain follows the parents of its commits to a first one, and names the tree of each. -/
theorem verifyCommitChain_lineage (h : verifyCommitChain lib fetched fuel seen current = .ok history) :
    Lineage (parentOf lib fetched.objects) (some current) (history.map Prod.fst) ∧
      ∀ commit ∈ history, treeOf lib fetched.objects commit.1 = some commit.2 := by
  induction fuel generalizing seen current history with
  | zero => cases h
  | succ fuel ih =>
    obtain ⟨_, -, h⟩ := bind_eq_ok_iff.mp h
    obtain ⟨object, hobject, h⟩ := bind_eq_ok_iff.mp h
    obtain ⟨_, hkind, h⟩ := bind_eq_ok_iff.mp h
    obtain ⟨commit, hcommit, h⟩ := bind_eq_ok_iff.mp h
    obtain ⟨_, hparents, h⟩ := bind_eq_ok_iff.mp h
    obtain ⟨tree, htree, h⟩ := bind_eq_ok_iff.mp h
    rw [required_eq_ok] at hobject hcommit htree
    rw [reject_eq_ok, decide_eq_false_iff_not, ne_eq, not_not] at hkind
    rw [reject_eq_ok, decide_eq_false_iff_not, Nat.not_lt] at hparents
    have hread : commitOf lib fetched.objects current = some commit := by
      rw [commitOf, hobject, Option.bind_some, if_pos hkind, hcommit]
    have htreeOf : treeOf lib fetched.objects current = some tree := by
      rw [treeOf, hread, Option.bind_some, htree]
    obtain ⟨commitTree, parents⟩ := commit
    cases parents with
    | nil =>
      dsimp only at h
      obtain ⟨_, -, h⟩ := bind_eq_ok_iff.mp h
      have hparent : parentOf lib fetched.objects current = some none := by
        rw [parentOf, hread, Option.bind_some]
      rw [← Except.ok.inj h]
      refine ⟨.cons hparent .nil, fun commit hmem => ?_⟩
      rw [List.mem_singleton.mp hmem]
      exact htreeOf
    | cons parentHex others =>
      dsimp only at h
      obtain ⟨_, -, h⟩ := bind_eq_ok_iff.mp h
      obtain ⟨parent, hparentHex, h⟩ := bind_eq_ok_iff.mp h
      obtain ⟨rest, hrest, h⟩ := bind_eq_ok_iff.mp h
      rw [required_eq_ok] at hparentHex
      have hnone : others = [] := by
        cases others with
        | nil => rfl
        | cons other others => simp at hparents
      have hparent : parentOf lib fetched.objects current = some (some parent) := by
        rw [parentOf, hread, Option.bind_some, hnone]
        simp only [hparentHex, Option.map_some]
      obtain ⟨hlineage, htrees⟩ := ih hrest
      rw [← Except.ok.inj h]
      refine ⟨.cons hparent hlineage, fun commit hmem => ?_⟩
      rcases List.mem_cons.mp hmem with rfl | hmem
      · exact htreeOf
      · exact htrees commit hmem

end Links

section Observations

variable {ObjectId : Type} [Ord ObjectId] [TransOrd ObjectId] {lib : GitCodec ObjectId} {Envelope : Type}
  {envelopes : EnvelopeLibrary Envelope} {blake3 : Bytes → Digest} {snapshots : SnapshotCodec}
  {objects : GitObjectMap ObjectId} {selected : Option ObjectId} {fetched : Option (FetchedGit ObjectId)}
  {limits : GitLimits} {observation : GitObservation ObjectId Envelope}

/-- What is fetched of a remote is some of its objects. -/
def Fetched (objects : GitObjectMap ObjectId) (fetched : Option (FetchedGit ObjectId)) : Prop :=
  ∀ given, fetched = some given → Grows given.objects objects

theorem snapshotOfTree_snapshots {given : FetchedGit ObjectId} {state after : HistoryState ObjectId Envelope}
    {tree : ObjectId} {snapshot : PortableSnapshot}
    (h : snapshotOfTree lib envelopes blake3 snapshots given limits state tree = .ok (snapshot, after)) :
    after.snapshots = state.snapshots := by
  rw [snapshotOfTree] at h
  split at h
  · obtain ⟨-, rfl⟩ := Prod.mk.inj (Except.ok.inj h)
    rfl
  · obtain ⟨_, -, h⟩ := bind_eq_ok_iff.mp h
    obtain ⟨_, -, h⟩ := bind_eq_ok_iff.mp h
    obtain ⟨-, rfl⟩ := Prod.mk.inj (Except.ok.inj h)
    rfl

/-- The revisions of a history that has been read are those of its commits. -/
theorem readCommits_revisions {given : FetchedGit ObjectId} {history : List (ObjectId × ObjectId)}
    {state after : HistoryState ObjectId Envelope}
    (h : history.foldlM (readCommit lib envelopes blake3 snapshots given limits) state = .ok after) :
    after.snapshots.map (fun s => s.1.bytes) =
      state.snapshots.map (fun s => s.1.bytes) ++ history.map fun commit => commitRevision lib commit.1 := by
  induction history generalizing state with
  | nil =>
    obtain rfl := Except.ok.inj h
    simp
  | cons commit history ih =>
    rw [List.foldlM_cons] at h
    obtain ⟨next, hnext, h⟩ := bind_eq_ok_iff.mp h
    obtain ⟨⟨snapshot, between⟩, hread, hnext⟩ := bind_eq_ok_iff.mp hnext
    obtain ⟨revision, hrevision, hnext⟩ := bind_eq_ok_iff.mp hnext
    rw [required_eq_ok, parse_eq_some] at hrevision
    obtain rfl := Except.ok.inj hnext
    rw [ih h, List.map_append, snapshotOfTree_snapshots hread, List.append_assoc]
    simp [hrevision]

/-- An observation names the selected commit and the commits that it follows. -/
theorem finishGitObservation_history (hfetched : Fetched objects fetched)
    (h : finishGitObservation lib envelopes blake3 snapshots limits selected fetched = .ok observation) :
    observation.remote.revision.bytes = revisionOf lib selected ∧
      Lineage (parentOf lib objects) selected observation.history := by
  cases selected with
  | none =>
    cases fetched with
    | some given => cases h
    | none =>
      obtain ⟨revision, hrevision, h⟩ := bind_eq_ok_iff.mp h
      rw [required_eq_ok, parse_eq_some] at hrevision
      obtain rfl := Except.ok.inj h
      exact ⟨hrevision.symm, .nil⟩
  | some commit =>
    cases fetched with
    | none => cases h
    | some given =>
      obtain ⟨verified, hverified, h⟩ := bind_eq_ok_iff.mp h
      obtain ⟨history, hchecked, h⟩ := bind_eq_ok_iff.mp h
      obtain ⟨commits, hcommits, hverified⟩ := bind_eq_ok_iff.mp hverified
      obtain ⟨state, hstate, hverified⟩ := bind_eq_ok_iff.mp hverified
      obtain ⟨_, -, hverified⟩ := bind_eq_ok_iff.mp hverified
      obtain ⟨_, -, hchecked⟩ := bind_eq_ok_iff.mp hchecked
      obtain ⟨_, -, hchecked⟩ := bind_eq_ok_iff.mp hchecked
      obtain rfl := Except.ok.inj hverified
      obtain rfl := Except.ok.inj hchecked
      have hlineage := (verifyCommitChain_lineage hcommits).1.mono fun id next hid =>
        parentOf_mono (hfetched given rfl) hid
      have hrevisions := readCommits_revisions hstate
      cases hsnapshots : state.snapshots with
      | nil =>
        rw [hsnapshots] at h
        cases h
      | cons current older =>
        rw [hsnapshots] at h hrevisions
        obtain rfl := Except.ok.inj h
        refine ⟨?_, hlineage⟩
        have hhead := hlineage.head_eq
        rw [List.head?_map] at hhead
        cases commits with
        | nil => cases hhead
        | cons first rest =>
          rw [revisionOf, Option.some.inj hhead]
          exact (List.cons.inj hrevisions).1

end Observations

end Kitrove.Git
