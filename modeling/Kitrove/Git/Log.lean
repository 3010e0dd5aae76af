import Kitrove.Backend.Readability
import Kitrove.Git.Links
import Kitrove.Sync.SnapshotCodec
import Mathlib.Logic.Relation

/-! The log of a Git remote over any order of steps of the machines that publish to it: what they
observe, prepare and send, and what the remote accepts of it. -/

namespace Kitrove.Git

open Std Except

section Proposals

variable {ObjectId : Type} [Ord ObjectId] [TransOrd ObjectId] {Envelope : Type}

/-- What a machine publishes, with what is constructed of it. A path is a string of a file system, and a
snapshot is built before it is published. -/
structure Proposal (lib : GitCodec ObjectId) (envelopes : EnvelopeLibrary Envelope)
    (blake3 : Bytes → Digest) (snapshots : SnapshotCodec) where
  expected : RemoteRevision
  id : PublicationId
  staged : PortableSnapshot
  supplied : List Envelope
  limits : GitLimits
  constructed : ConstructedPublication ObjectId
  constructs : constructGitPublication lib envelopes snapshots expected id staged supplied limits =
    .ok constructed
  canonical : Canonical blake3 snapshots staged
  plain : ∀ files, flatFiles envelopes snapshots staged supplied limits.toSyncLimits = .ok files →
    ∀ path ∈ files, Utf8.valid path.bytes = true ∧ 0 ∉ path.bytes

variable {lib : GitCodec ObjectId} {envelopes : EnvelopeLibrary Envelope} {blake3 : Bytes → Digest}
  {snapshots : SnapshotCodec}

namespace Proposal

def commit (p : Proposal lib envelopes blake3 snapshots) : ObjectId := p.constructed.commitOid

def intent (p : Proposal lib envelopes blake3 snapshots) : PublicationIntent := p.constructed.intent

def objects (p : Proposal lib envelopes blake3 snapshots) : GitObjectMap ObjectId := p.constructed.objects

/-- What a construction has come to: its files, the tree they are stored as, and its commit. -/
structure Made (p : Proposal lib envelopes blake3 snapshots) (parent : Option ObjectId) (tree : ObjectId)
    (files : FlatFiles) (root : GitTreeNode) : Prop where
  flat : flatFiles envelopes snapshots p.staged p.supplied p.limits.toSyncLimits = .ok files
  built : buildTree files = .ok root
  stored : ∃ before, storeTree lib.toGitLibrary root ∅ = .ok (tree, before) ∧ Grows before p.objects
  follows : parseExpectedParent lib p.expected = .ok parent
  replaces : p.constructed.expectedOid = parent.getD lib.null
  hashed : ∃ data, lib.computeHash .commit data = some p.commit
  named : p.objects[p.commit]? =
    some ⟨.commit, deterministicCommit lib tree parent p.id p.staged.snapshotDigest⟩
  proposed : p.intent.proposedRevision.bytes = commitRevision lib p.commit
  recorded : ∃ persisted encoded, lib.encodeIntent persisted = some encoded ∧
    p.intent.encoded = encoded ++ [newline] ∧ persisted.expected = p.expected ∧
    persisted.commitOid = lib.hex p.commit

theorem made (p : Proposal lib envelopes blake3 snapshots) : ∃ parent tree files root,
    p.Made parent tree files root := by
  have h := p.constructs
  obtain ⟨files, hfiles, h⟩ := bind_eq_ok_iff.mp h
  obtain ⟨root, hroot, h⟩ := bind_eq_ok_iff.mp h
  obtain ⟨⟨tree, before⟩, hstore, h⟩ := bind_eq_ok_iff.mp h
  obtain ⟨parent, hparent, h⟩ := bind_eq_ok_iff.mp h
  obtain ⟨⟨commit, objects⟩, hcommit, h⟩ := bind_eq_ok_iff.mp h
  obtain ⟨⟨pack, checksum⟩, -, h⟩ := bind_eq_ok_iff.mp h
  obtain ⟨encoded, hencoded, h⟩ := bind_eq_ok_iff.mp h
  obtain ⟨proposed, hproposed, h⟩ := bind_eq_ok_iff.mp h
  obtain ⟨intent, hintent, h⟩ := bind_eq_ok_iff.mp h
  rw [required_eq_ok] at hencoded hproposed
  obtain ⟨hgrows, hobject⟩ := insertGitObject_stored hcommit
  have hrecorded : intent = ⟨encoded ++ [newline], proposed⟩ := by
    rw [PublicationIntent.fromPersisted] at hintent
    split at hintent
    · cases hintent
    · exact (Except.ok.inj hintent).symm
  have hconstructed := (Except.ok.inj h).symm
  have hobjects : p.objects = objects := congrArg ConstructedPublication.objects hconstructed
  have hoid : p.commit = commit := congrArg ConstructedPublication.commitOid hconstructed
  have hsame : p.intent = ⟨encoded ++ [newline], proposed⟩ :=
    (congrArg ConstructedPublication.intent hconstructed).trans hrecorded
  refine ⟨parent, tree, files, root, ⟨hfiles, hroot, ⟨before, hstore, hobjects ▸ hgrows⟩, hparent,
    congrArg ConstructedPublication.expectedOid hconstructed, ?_, ?_, ?_, ?_⟩⟩
  · rw [hoid]
    exact ⟨_, insertGitObject_hash hcommit⟩
  · rw [hobjects, hoid]
    exact hobject
  · rw [hsame, hoid]
    exact (parse_eq_some.mp hproposed).symm
  · rw [hsame, hoid]
    exact ⟨_, encoded, hencoded, rfl, rfl, rfl⟩

variable {p q : Proposal lib envelopes blake3 snapshots} {head : Option ObjectId}
  {objects : GitObjectMap ObjectId}
  {limits : SyncLimits} {parsed : GitPublicationIntent}

theorem commit_ne_null (hl : lib.Lawful) : p.commit ≠ lib.null := by
  obtain ⟨parent, tree, files, root, h⟩ := p.made
  obtain ⟨data, hdata⟩ := h.hashed
  intro hnull
  rw [hnull] at hdata
  exact hl.hash_ne_null .commit data hdata

/-- The parent of a commit, by the revision that its publication expects. -/
theorem parent_of_expected (hl : lib.Lawful) (h : p.expected.bytes = revisionOf lib head)
    (hstored : Grows p.objects objects) :
    parentOf lib objects p.commit = some head ∧ p.constructed.expectedOid = head.getD lib.null := by
  obtain ⟨parent, tree, files, root, hmade⟩ := p.made
  have hfollows := hmade.follows
  rw [parseExpectedParent_revisionOf hl h] at hfollows
  obtain rfl := Except.ok.inj hfollows
  exact ⟨parentOf_mono hstored (links_of_deterministic hl hmade.named).1, hmade.replaces⟩

/-- What is recorded of a publication is read back from its intent. -/
theorem parsed_eq (hl : lib.Lawful) (h : parsePublicationIntent lib p.intent limits = .ok parsed) :
    parsed.expected = p.expected ∧ lib.fromHex parsed.commitOid = some p.commit := by
  obtain ⟨parent, tree, files, root, hmade⟩ := p.made
  obtain ⟨persisted, encoded, hencoded, hintent, hexpected, hcommit⟩ := hmade.recorded
  obtain ⟨_, -, h⟩ := bind_eq_ok_iff.mp h
  obtain ⟨decoded, hdecoded, h⟩ := bind_eq_ok_iff.mp h
  obtain ⟨_, -, h⟩ := bind_eq_ok_iff.mp h
  obtain ⟨_, -, h⟩ := bind_eq_ok_iff.mp h
  obtain ⟨_, -, h⟩ := bind_eq_ok_iff.mp h
  rw [required_eq_ok, hintent, hl.intent _ _ hencoded] at hdecoded
  obtain rfl := Option.some.inj hdecoded
  obtain rfl := Except.ok.inj h
  exact ⟨hexpected, by rw [hcommit, hl.hex]⟩

theorem expected_of_intent (hl : lib.Lawful) (h : p.intent = q.intent) : p.expected = q.expected := by
  obtain ⟨parent, tree, files, root, hp⟩ := p.made
  obtain ⟨parent', tree', files', root', hq⟩ := q.made
  obtain ⟨persisted, encoded, hencoded, hintent, hexpected, -⟩ := hp.recorded
  obtain ⟨persisted', encoded', hencoded', hintent', hexpected', -⟩ := hq.recorded
  have hsame : encoded ++ [newline] = encoded' ++ [newline] := by
    rw [← hintent, ← hintent', h]
  have hdecoded := hl.intent _ _ hencoded
  rw [hsame, hl.intent _ _ hencoded'] at hdecoded
  rw [← hexpected, ← hexpected', Option.some.inj hdecoded]

end Proposal

theorem validateGitPublication_eq_ok {intent : PublicationIntent} {staged : PortableSnapshot}
    {supplied : List Envelope} {limits : GitLimits} {constructed : ConstructedPublication ObjectId}
    (h : validateGitPublication lib envelopes snapshots intent staged supplied limits = .ok constructed) :
    constructed.intent = intent := by
  obtain ⟨parsed, -, h⟩ := bind_eq_ok_iff.mp h
  obtain ⟨other, -, h⟩ := bind_eq_ok_iff.mp h
  obtain ⟨_, hsame, h⟩ := bind_eq_ok_iff.mp h
  rw [reject_eq_ok, decide_eq_false_iff_not, ne_eq, not_not] at hsame
  obtain rfl := Except.ok.inj h
  exact hsame

end Proposals

section World

variable {ObjectId : Type} [Ord ObjectId] [TransOrd ObjectId] {Envelope : Type}

/-- The remote, what machines have observed of it, prepared and sent so far, and what the remote has
accepted, the newest first. -/
structure World (lib : GitCodec ObjectId) (envelopes : EnvelopeLibrary Envelope)
    (blake3 : Bytes → Digest) (snapshots : SnapshotCodec) where
  head : Option ObjectId
  objects : GitObjectMap ObjectId
  observed : List RemoteRevision
  prepared : List PublicationIntent
  sent : List (Proposal lib envelopes blake3 snapshots)
  accepted : List (Proposal lib envelopes blake3 snapshots)

variable {lib : GitCodec ObjectId} {envelopes : EnvelopeLibrary Envelope} {blake3 : Bytes → Digest}
  {snapshots : SnapshotCodec}

/-- A remote without the branch, before any machine has looked at it. -/
def World.start (lib : GitCodec ObjectId) (envelopes : EnvelopeLibrary Envelope) (blake3 : Bytes → Digest)
    (snapshots : SnapshotCodec) (objects : GitObjectMap ObjectId) : World lib envelopes blake3 snapshots :=
  ⟨none, objects, [], [], [], []⟩

/-- One step of a machine or of the remote. A request that was sent may arrive late, several times or never;
the remote replaces the selected commit only where it is the one that the request names. -/
inductive LogStep : World lib envelopes blake3 snapshots → World lib envelopes blake3 snapshots → Prop
  | observe {w : World lib envelopes blake3 snapshots} {limits : GitLimits}
      {fetched : Option (FetchedGit ObjectId)} {observation : GitObservation ObjectId Envelope}
      (hfetched : Fetched w.objects fetched)
      (h : finishGitObservation lib envelopes blake3 snapshots limits w.head fetched = .ok observation) :
      LogStep w { w with observed := observation.remote.revision :: w.observed }
  | prepare {w : World lib envelopes blake3 snapshots} {observed : RemoteRevision}
      {p : Proposal lib envelopes blake3 snapshots} (hobserved : observed ∈ w.observed)
      (h : preparePublication lib envelopes snapshots observed p.expected p.id p.staged p.supplied p.limits =
        .ok p.intent) :
      LogStep w { w with prepared := p.intent :: w.prepared }
  | send {w : World lib envelopes blake3 snapshots} {intent : PublicationIntent} {request : Bytes}
      {p : Proposal lib envelopes blake3 snapshots} (hintent : intent ∈ w.prepared)
      (h : validateGitPublication lib envelopes snapshots intent p.staged p.supplied p.limits =
        .ok p.constructed)
      (hadvertised : w.head.getD lib.null = p.constructed.expectedOid)
      (hrequest : buildReceiveRequest lib p.constructed.expectedOid p.commit p.constructed.pack
        p.limits.git = .ok request) :
      LogStep w { w with sent := p :: w.sent }
  | store {w : World lib envelopes blake3 snapshots} {objects : GitObjectMap ObjectId}
      (h : Grows w.objects objects) : LogStep w { w with objects }
  | accept {w : World lib envelopes blake3 snapshots} {objects : GitObjectMap ObjectId}
      {p : Proposal lib envelopes blake3 snapshots} (hsent : p ∈ w.sent) (hold : Grows w.objects objects)
      (hnew : Grows p.objects objects) (hselected : w.head.getD lib.null = p.constructed.expectedOid) :
      LogStep w { w with head := some p.commit, objects, accepted := p :: w.accepted }

abbrev LogRun : World lib envelopes blake3 snapshots → World lib envelopes blake3 snapshots → Prop :=
  Relation.ReflTransGen LogStep

def Reachable (w : World lib envelopes blake3 snapshots) : Prop :=
  ∃ objects, LogRun (.start lib envelopes blake3 snapshots objects) w

end World

section Invariant

variable {ObjectId : Type} [Ord ObjectId] [TransOrd ObjectId] {Envelope : Type} {lib : GitCodec ObjectId}
  {envelopes : EnvelopeLibrary Envelope} {blake3 : Bytes → Digest} {snapshots : SnapshotCodec}
  {w w' : World lib envelopes blake3 snapshots} {p : Proposal lib envelopes blake3 snapshots}
  {accepted : List (Proposal lib envelopes blake3 snapshots)} {head head' : Option ObjectId}
  {objects : GitObjectMap ObjectId}

/-- Each publication expects the one before it, and the first expects none. -/
def Linked (lib : GitCodec ObjectId) {envelopes : EnvelopeLibrary Envelope} {blake3 : Bytes → Digest}
    {snapshots : SnapshotCodec} : List (Proposal lib envelopes blake3 snapshots) → Prop
  | [] => True
  | p :: older => p.expected.bytes = revisionOf lib (older.map Proposal.commit).head? ∧ Linked lib older

theorem Linked.lineage (hl : lib.Lawful) (h : Linked lib accepted)
    (hstored : ∀ p ∈ accepted, Grows p.objects objects) :
    Lineage (parentOf lib objects) (accepted.map Proposal.commit).head? (accepted.map Proposal.commit) := by
  induction accepted with
  | nil => exact .nil
  | cons p older ih =>
    obtain ⟨hp, hstored⟩ := List.forall_mem_cons.mp hstored
    exact .cons (Proposal.parent_of_expected hl h.1 hp).1 (ih h.2 hstored)

/-- A commit that the remote has selected at some time, or none. -/
def Known (w : World lib envelopes blake3 snapshots) (head : Option ObjectId) : Prop :=
  head = none ∨ ∃ p ∈ w.accepted, head = some p.commit

/-- A publication that follows a commit which has been selected. -/
def Follows (w : World lib envelopes blake3 snapshots) (p : Proposal lib envelopes blake3 snapshots) : Prop :=
  ∃ head, Known w head ∧ p.expected.bytes = revisionOf lib head

theorem Known.mono (hsub : ∀ p ∈ w.accepted, p ∈ w'.accepted) (h : Known w head) : Known w' head :=
  h.imp_right fun hp => hp.imp fun p hp => ⟨hsub p hp.1, hp.2⟩

theorem Follows.mono (hsub : ∀ p ∈ w.accepted, p ∈ w'.accepted) (h : Follows w p) : Follows w' p :=
  h.imp fun _ hhead => ⟨hhead.1.mono hsub, hhead.2⟩

/-- A selected commit is not the null identifier, so it is known by the identifier in a request. -/
theorem Known.eq_of_getD (hl : lib.Lawful) (h : Known w head) (h' : Known w head')
    (heq : head.getD lib.null = head'.getD lib.null) : head = head' := by
  rcases h with rfl | ⟨p, -, rfl⟩
  · rcases h' with rfl | ⟨q, -, rfl⟩
    · rfl
    · exact absurd heq.symm (Proposal.commit_ne_null hl)
  · rcases h' with rfl | ⟨q, -, rfl⟩
    · exact absurd heq (Proposal.commit_ne_null hl)
    · exact congrArg some heq

/-- What holds of the log after every step. -/
structure Inv (w : World lib envelopes blake3 snapshots) : Prop where
  head : w.head = (w.accepted.map Proposal.commit).head?
  linked : Linked lib w.accepted
  stored : ∀ p ∈ w.accepted, Grows p.objects w.objects
  observed : ∀ revision ∈ w.observed, ∃ head, Known w head ∧ revision.bytes = revisionOf lib head
  prepared : ∀ intent ∈ w.prepared, ∃ p : Proposal lib envelopes blake3 snapshots,
    p.intent = intent ∧ Follows w p
  sent : ∀ p ∈ w.sent, Follows w p

theorem Inv.known (h : Inv w) : Known w w.head := by
  have hhead := h.head
  cases haccepted : w.accepted with
  | nil =>
    rw [haccepted] at hhead
    exact .inl hhead
  | cons p older =>
    rw [haccepted] at hhead
    exact .inr ⟨p, haccepted ▸ List.mem_cons_self, hhead⟩

theorem Inv.lineage (hl : lib.Lawful) (h : Inv w) :
    Lineage (parentOf lib w.objects) w.head (w.accepted.map Proposal.commit) :=
  h.head ▸ h.linked.lineage hl h.stored

theorem Inv.start : Inv (World.start lib envelopes blake3 snapshots objects) where
  head := rfl
  linked := trivial
  stored := fun _ h => absurd h List.not_mem_nil
  observed := fun _ h => absurd h List.not_mem_nil
  prepared := fun _ h => absurd h List.not_mem_nil
  sent := fun _ h => absurd h List.not_mem_nil

theorem Inv.step (hl : lib.Lawful) (h : Inv w) (hstep : LogStep w w') : Inv w' := by
  cases hstep with
  | observe hfetched hobserved =>
    refine { h with observed := List.forall_mem_cons.mpr ⟨?_, h.observed⟩ }
    exact ⟨w.head, h.known, (finishGitObservation_history hfetched hobserved).1⟩
  | @prepare observed p hobserved hprepare =>
    refine { h with prepared := List.forall_mem_cons.mpr ⟨⟨p, rfl, ?_⟩, h.prepared⟩ }
    obtain ⟨_, hsame, -⟩ := bind_eq_ok_iff.mp hprepare
    rw [reject_eq_ok, decide_eq_false_iff_not, ne_eq, not_not] at hsame
    obtain ⟨head, hknown, hrevision⟩ := h.observed observed hobserved
    exact ⟨head, hknown, hsame ▸ hrevision⟩
  | @send intent request p hintent hvalid hadvertised hrequest =>
    refine { h with sent := List.forall_mem_cons.mpr ⟨?_, h.sent⟩ }
    obtain ⟨q, hq, head, hknown, hrevision⟩ := h.prepared intent hintent
    have hsame : p.intent = q.intent := (validateGitPublication_eq_ok hvalid).trans hq.symm
    exact ⟨head, hknown, Proposal.expected_of_intent hl hsame ▸ hrevision⟩
  | store hgrows =>
    exact { h with stored := fun p hp => (h.stored p hp).trans hgrows }
  | @accept objects p hsent hold hnew hselected =>
    have hsub : ∀ q ∈ w.accepted, q ∈ p :: w.accepted := fun _ => List.mem_cons_of_mem p
    obtain ⟨head, hknown, hrevision⟩ := h.sent p hsent
    obtain ⟨-, hreplaces⟩ := Proposal.parent_of_expected hl hrevision hnew
    obtain rfl := h.known.eq_of_getD hl hknown (hselected.trans hreplaces)
    constructor
    · rfl
    · exact ⟨h.head ▸ hrevision, h.linked⟩
    · exact List.forall_mem_cons.mpr ⟨hnew, fun q hq => (h.stored q hq).trans hold⟩
    · exact fun revision hmem => (h.observed revision hmem).imp fun _ hhead => ⟨hhead.1.mono hsub, hhead.2⟩
    · exact fun intent hmem => (h.prepared intent hmem).imp fun _ hq => ⟨hq.1, hq.2.mono hsub⟩
    · exact fun q hq => (h.sent q hq).mono hsub

theorem Inv.run (hl : lib.Lawful) (h : Inv w) (hrun : LogRun w w') : Inv w' := by
  induction hrun with
  | refl => exact h
  | tail _ hstep ih => exact ih.step hl hstep

theorem Reachable.inv (hl : lib.Lawful) (h : Reachable w) : Inv w := by
  obtain ⟨objects, hrun⟩ := h
  exact Inv.start.run hl hrun

theorem LogStep.keeps (h : LogStep w w') : w.accepted <:+ w'.accepted := by
  cases h with
  | observe _ _ => exact List.suffix_refl _
  | prepare _ _ => exact List.suffix_refl _
  | send _ _ _ _ => exact List.suffix_refl _
  | store _ => exact List.suffix_refl _
  | accept _ _ _ _ => exact List.suffix_cons _ _

theorem LogRun.keeps (h : LogRun w w') : w.accepted <:+ w'.accepted := by
  induction h with
  | refl => exact List.suffix_refl _
  | tail _ hstep ih => exact ih.trans hstep.keeps

end Invariant

section Results

variable {ObjectId : Type} [Ord ObjectId] [TransOrd ObjectId] {Envelope : Type} {lib : GitCodec ObjectId}
  {envelopes : EnvelopeLibrary Envelope} {blake3 : Bytes → Digest} {snapshots : SnapshotCodec}
  {w w' : World lib envelopes blake3 snapshots} {p q : Proposal lib envelopes blake3 snapshots}
  {newer older : List (Proposal lib envelopes blake3 snapshots)} {head : Option ObjectId}

/-- However requests are delayed, repeated or lost, the remote selects the newest of the publications it
has accepted, each of them once and on top of the one that it expects; none is undone later. -/
theorem log_linear (hl : lib.Lawful) (h : Reachable w) (hrun : LogRun w w') :
    w.accepted <:+ w'.accepted ∧ (w'.accepted.map Proposal.commit).Nodup ∧
      w'.head = (w'.accepted.map Proposal.commit).head? ∧ Linked lib w'.accepted := by
  have hinv := (h.inv hl).run hl hrun
  exact ⟨LogRun.keeps hrun, (hinv.lineage hl).nodup, hinv.head, hinv.linked⟩

theorem Linked.of_append (h : Linked lib (newer ++ p :: older)) :
    p.expected.bytes = revisionOf lib (older.map Proposal.commit).head? := by
  induction newer with
  | nil => exact h.1
  | cons q newer ih => exact ih h.2

theorem Proposal.commit_of_intent (hl : lib.Lawful) (h : p.intent = q.intent) : p.commit = q.commit := by
  obtain ⟨_, _, _, _, hp⟩ := p.made
  obtain ⟨_, _, _, _, hq⟩ := q.made
  have hsame : commitRevision lib p.commit = commitRevision lib q.commit := by
    rw [← hp.proposed, ← hq.proposed, h]
  exact hex_injective hl (List.append_cancel_left hsame)

/-- What follows a commit that is no longer selected is not accepted any more. -/
theorem Inv.not_accepted (hl : lib.Lawful) (h : Inv w) (hrun : LogRun w w') (hknown : Known w head)
    (hexpected : p.expected.bytes = revisionOf lib head) (hold : head ≠ w.head) (hnew : p ∉ w.accepted) :
    p ∉ w'.accepted := by
  intro hp
  have hinv := h.run hl hrun
  obtain ⟨newer, hnewer⟩ := LogRun.keeps hrun
  rw [← hnewer] at hp
  have hp := (List.mem_append.mp hp).resolve_right hnew
  obtain ⟨above, below, rfl⟩ := List.append_of_mem hp
  have hlinked : Linked lib (above ++ p :: (below ++ w.accepted)) := by
    have := hinv.linked
    rwa [← hnewer, List.append_assoc, List.cons_append] at this
  have hhead : head = ((below ++ w.accepted).map Proposal.commit).head? :=
    revisionOf_injective hl (hexpected.symm.trans hlinked.of_append)
  cases below with
  | nil => exact hold (hhead.trans h.head.symm)
  | cons q below =>
    rcases hknown with hnone | ⟨r, hr, hsome⟩
    · rw [hnone] at hhead
      cases hhead
    · have hcommit : r.commit = q.commit := by
        rw [hsome] at hhead
        exact Option.some.inj hhead
      have hnodup := (hinv.lineage hl).nodup
      rw [← hnewer, List.append_assoc, List.map_append, List.cons_append, List.map_cons, List.cons_append,
        List.map_cons] at hnodup
      have htail := (List.nodup_cons.mp (List.nodup_cons.mp hnodup.of_append_right).2).1
      exact htail (List.mem_map.mpr ⟨r, List.mem_append_right _ hr, hcommit⟩)

variable [DecidableEq ObjectId] {intent : PublicationIntent} {fetched : Option (FetchedGit ObjectId)}
  {limits : GitLimits} {recorded : SyncLimits} {observation : GitObservation ObjectId Envelope}
  {status : PublicationStatus}

/-- An intent that was prepared is reconciled with an observation of the remote as its publication stands:
published where its commit was accepted; ready where it was not, and the remote would accept it; uncertain
where it was not, and never will be. -/
theorem reconcile_exact (hl : lib.Lawful) (h : Reachable w) (hintent : intent ∈ w.prepared)
    (hfetched : Fetched w.objects fetched)
    (hobserved : finishGitObservation lib envelopes blake3 snapshots limits w.head fetched = .ok observation)
    (hstatus : reconcile lib intent recorded (.ok observation) = .ok status) :
    (status = .published intent.proposedRevision ↔
      ∃ p ∈ w.accepted, intent.proposedRevision.bytes = commitRevision lib p.commit) ∧
    (status = .ready → ∀ p : Proposal lib envelopes blake3 snapshots, p.intent = intent →
      p ∉ w.accepted ∧ w.head.getD lib.null = p.constructed.expectedOid) ∧
    (status = .uncertain → ∀ w', LogRun w w' → ∀ p ∈ w'.accepted, p.intent ≠ intent) := by
  have hinv := h.inv hl
  obtain ⟨q, rfl, head, hknown, hexpected⟩ := hinv.prepared intent hintent
  obtain ⟨hrevision, hlineage⟩ := finishGitObservation_history hfetched hobserved
  have hhistory : observation.history = w.accepted.map Proposal.commit := hlineage.unique (hinv.lineage hl)
  obtain ⟨parsed, hparsed, hstatus⟩ := bind_eq_ok_iff.mp hstatus
  obtain ⟨hparsedExpected, hparsedCommit⟩ := Proposal.parsed_eq hl hparsed
  obtain ⟨proposed, hproposed, hstatus⟩ := bind_eq_ok_iff.mp hstatus
  rw [required_eq_ok, hparsedCommit] at hproposed
  obtain rfl := Option.some.inj hproposed
  have hmem : observation.history.contains q.commit = true ↔
      ∃ p ∈ w.accepted, q.intent.proposedRevision.bytes = commitRevision lib p.commit := by
    obtain ⟨_, _, _, _, hmade⟩ := q.made
    rw [hhistory, List.contains_iff_mem, List.mem_map, hmade.proposed]
    constructor
    · rintro ⟨p, hp, hcommit⟩
      exact ⟨p, hp, by rw [hcommit]⟩
    · rintro ⟨p, hp, hcommit⟩
      exact ⟨p, hp, hex_injective hl (List.append_cancel_left hcommit.symm)⟩
  have hselected : observation.remote.revision = parsed.expected ↔ head = w.head := by
    rw [hparsedExpected]
    constructor
    · intro hsame
      exact revisionOf_injective hl (by rw [← hexpected, ← hsame, hrevision])
    · rintro rfl
      exact Name.ext_bytes (hrevision.trans hexpected.symm)
  have hunaccepted (hnot : ¬ observation.history.contains q.commit = true)
      (p : Proposal lib envelopes blake3 snapshots) (hp : p.intent = q.intent) : p ∉ w.accepted := by
    intro haccepted
    refine hnot (hmem.mpr ⟨p, haccepted, ?_⟩)
    obtain ⟨_, _, _, _, hmade⟩ := p.made
    rw [← hp, hmade.proposed]
  obtain rfl := Except.ok.inj hstatus
  rw [reconcileGitObservation]
  by_cases hpublished : observation.history.contains q.commit = true
  · rw [if_pos hpublished]
    refine ⟨iff_of_true rfl (hmem.mp hpublished), ?_, ?_⟩
    · intro hready
      cases hready
    · intro huncertain
      cases huncertain
  rw [if_neg hpublished]
  have hfollows (p : Proposal lib envelopes blake3 snapshots) (hp : p.intent = q.intent) :
      p.expected.bytes = revisionOf lib head := by
    rw [Proposal.expected_of_intent hl hp, hexpected]
  by_cases hready : observation.remote.revision = parsed.expected
  · rw [if_pos hready]
    refine ⟨iff_of_false (fun h => ?_) fun h => hpublished (hmem.mpr h), fun _ p hp => ⟨?_, ?_⟩, ?_⟩
    · cases h
    · exact hunaccepted hpublished p hp
    · rw [(Proposal.parent_of_expected hl (hfollows p hp) .refl).2, hselected.mp hready]
    · intro huncertain
      cases huncertain
  · rw [if_neg hready]
    refine ⟨iff_of_false (fun h => ?_) fun h => hpublished (hmem.mpr h), ?_, fun _ w' hrun p hp hsame => ?_⟩
    · cases h
    · intro hready
      cases hready
    · exact hinv.not_accepted hl hrun hknown (hfollows p hsame) (fun heq => hready (hselected.mpr heq))
        (hunaccepted hpublished p hsame) hp

end Results

section Sample

def readSampleParents : Nat → Bytes → List Bytes
  | 0, _ => []
  | fuel + 1, data =>
    match stripPrefix (ascii "parent ") data with
    | none => []
    | some rest => rest.take 40 :: readSampleParents fuel (rest.drop 41)

def readSampleCommit (data : Bytes) : Option CommitRef :=
  (stripPrefix (ascii "tree ") data).map fun rest =>
    ⟨rest.take 40, readSampleParents data.length (rest.drop 41)⟩

def sampleHex (oid : UInt8) : Bytes := List.replicate 40 oid

theorem absentRevision_valid : NameKind.remoteRevision.valid absentRevision = true := by decide

theorem absentRevision_bounded : absentRevision.length < 2 ^ 63 := by decide

def absent : RemoteRevision := ⟨absentRevision, absentRevision_valid, absentRevision_bounded⟩

def commitId : UInt8 := 0x61

def treeId : UInt8 := 0x62

def blobId : UInt8 := 0x63

theorem firstRevision_valid :
    NameKind.remoteRevision.valid (commitQualifier ++ sampleHex commitId) = true := by decide

theorem firstRevision_bounded : (commitQualifier ++ sampleHex commitId).length < 2 ^ 63 := by decide

def firstRevision : RemoteRevision :=
  ⟨commitQualifier ++ sampleHex commitId, firstRevision_valid, firstRevision_bounded⟩

def firstRecord : GitPublicationIntent where
  schemaVersion := 1
  expected := absent
  publicationId := ⟨zeroDigest⟩
  snapshotDigest := emptySnapshot.snapshotDigest
  objectOids := OrdMap.setOf [sampleHex commitId, sampleHex treeId, sampleHex blobId]
  treeOid := sampleHex treeId
  commitOid := sampleHex commitId
  packChecksum := sampleHex 0x64

def recordJson (record : GitPublicationIntent) : Bytes :=
  jsonRecord [jsonField "schema_version" (jsonNat record.schemaVersion.toNat),
    jsonField "expected" (jsonText record.expected.bytes),
    jsonField "publication_id" (jsonText record.publicationId.asStr),
    jsonField "snapshot_digest" (jsonText record.snapshotDigest.bytes),
    jsonField "object_oids" (ascii "[\n    " ++ ((record.objectOids.toList.map jsonText).intersperse
      (ascii ",\n    ")).flatten ++ ascii "\n  ]"),
    jsonField "tree_oid" (jsonText record.treeOid), jsonField "commit_oid" (jsonText record.commitOid),
    jsonField "pack_checksum" (jsonText record.packChecksum)]

/-- The libraries on the first publication, whose objects are one of each kind. -/
def firstGitCodec : GitCodec UInt8 where
  toGitLibrary :=
    { sampleGitLibrary with
      computeHash := fun kind _ => some <|
        if kind = .commit then commitId else if kind = .tree then treeId else blobId }
  null := 0
  hex := sampleHex
  fromHex text := text.head?.bind fun oid => if text = sampleHex oid then some oid else none
  parseCommit := readSampleCommit
  packHeader count := ascii "PACK" ++ [0, 0, 0, 2, 0, 0, 0, UInt8.ofNat count]
  packEntry object := some object.data
  packChecksum _ := some 0x64
  encodeIntent record := if record = firstRecord then some (recordJson record) else none
  decodeIntent text := if text = recordJson firstRecord ++ [newline] then some firstRecord else none

theorem readSampleParents_append {parents : List UInt8} {fuel : Nat} {message : Bytes}
    (hfuel : parents.length ≤ fuel) : readSampleParents fuel ((parents.flatMap fun parent =>
      ascii "parent " ++ sampleHex parent ++ [newline]) ++ (commitSignatures ++ message)) =
        parents.map sampleHex := by
  induction parents generalizing fuel with
  | nil =>
    cases fuel with
    | zero => rfl
    | succ fuel => rfl
  | cons parent parents ih =>
    cases fuel with
    | zero => exact absurd hfuel (Nat.not_succ_le_zero _)
    | succ fuel =>
      rw [List.flatMap_cons, List.append_assoc, List.append_assoc, List.append_assoc, readSampleParents,
        stripPrefix_append]
      have htake : ∀ rest : Bytes, (sampleHex parent ++ rest).take 40 = sampleHex parent := fun rest => by
        simp [sampleHex]
      have hdrop : ∀ rest : Bytes, (sampleHex parent ++ ([newline] ++ rest)).drop 41 = rest := fun rest => by
        simp [sampleHex]
      simp only [htake, hdrop]
      rw [ih (Nat.le_of_succ_le_succ hfuel), List.map_cons]

theorem length_le_parents {parents : List UInt8} : parents.length ≤
    (parents.flatMap fun parent => ascii "parent " ++ sampleHex parent ++ [newline]).length := by
  induction parents with
  | nil => exact Nat.le_refl _
  | cons parent parents ih =>
    have hline : (ascii "parent " ++ sampleHex parent ++ [newline]).length = 48 := by
      rw [List.length_append, List.length_append, sampleHex, List.length_replicate]
      rfl
    rw [List.flatMap_cons, List.length_append, List.length_cons, hline]
    omega

theorem firstGitCodec_lawful : firstGitCodec.Lawful where
  toLawful := ⟨sampleGitLibrary_lawful.entries, sampleGitLibrary_lawful.order⟩
  hex oid := by simp [firstGitCodec, sampleHex, List.replicate_succ]
  hash_ne_null kind data h := by
    have hnull : (if kind = .commit then commitId else if kind = .tree then treeId else blobId) = 0 :=
      Option.some.inj h
    revert hnull
    cases kind <;> decide
  commit tree parents message := by
    have hlinks : commitLinks firstGitCodec tree parents ++ commitSignatures ++ message =
        ascii "tree " ++ (sampleHex tree ++ ([newline] ++ ((parents.flatMap fun parent =>
          ascii "parent " ++ sampleHex parent ++ [newline]) ++ (commitSignatures ++ message)))) := by
      simp only [commitLinks, List.append_assoc]
      rfl
    have htake : ∀ rest : Bytes, (sampleHex tree ++ rest).take 40 = sampleHex tree := fun rest => by
      simp [sampleHex]
    have hdrop : ∀ rest : Bytes, (sampleHex tree ++ ([newline] ++ rest)).drop 41 = rest := fun rest => by
      simp [sampleHex]
    have hfuel : parents.length ≤
        (commitLinks firstGitCodec tree parents ++ commitSignatures ++ message).length := by
      have hle := @length_le_parents parents
      rw [hlinks]
      simp only [List.length_append]
      omega
    have hparse : firstGitCodec.parseCommit = readSampleCommit := rfl
    have hhex : firstGitCodec.hex = sampleHex := rfl
    rw [hparse, hhex, readSampleCommit]
    generalize (commitLinks firstGitCodec tree parents ++ commitSignatures ++ message).length = fuel at hfuel
    rw [hlinks, stripPrefix_append, Option.map_some, htake, hdrop, readSampleParents_append hfuel]
  intent value text h := by
    simp only [firstGitCodec] at h ⊢
    split at h
    · rename_i hv
      cases h
      rw [hv, if_pos rfl]
    · contradiction

/-- The empty environment has no objects. -/
def noEnvelopes : EnvelopeLibrary Empty where
  descriptor := Empty.elim
  stored := Empty.elim
  fromStored _ _ _ _ _ := .error objectMismatch

def defaultGitLimits : GitLimits := ⟨SyncLimits.default, ⟨67108864, 67108864, 131072⟩⟩

def firstGitIntent : PublicationIntent := ⟨recordJson firstRecord ++ [newline], firstRevision⟩

theorem emptySnapshot_canonical : Canonical (fun _ => zeroDigest) sampleCodec emptySnapshot := by
  have hnew : PortableSnapshot.new (fun _ => zeroDigest) sampleCodec ⟨∅, ∅, ∅, ∅⟩ ∅ .default =
      .ok emptySnapshot := by decide +kernel
  exact (Constructed.canonical (.inl ⟨_, _, hnew⟩)).1

theorem preparePublication_first : preparePublication firstGitCodec noEnvelopes sampleCodec absent absent
    ⟨zeroDigest⟩ emptySnapshot [] defaultGitLimits = .ok firstGitIntent := by decide +kernel

theorem parsePublicationIntent_first :
    parsePublicationIntent firstGitCodec firstGitIntent SyncLimits.default = .ok firstRecord := by
  decide +kernel

abbrev FirstProposal := Proposal firstGitCodec noEnvelopes (fun _ => zeroDigest) sampleCodec

/-- The publication of the empty environment to a remote without the branch. -/
structure IsFirst (p : FirstProposal) : Prop where
  expected : p.expected = absent
  id : p.id = ⟨zeroDigest⟩
  staged : p.staged = emptySnapshot
  supplied : p.supplied = []
  limits : p.limits = defaultGitLimits
  intent : p.intent = firstGitIntent

theorem IsFirst.constructs {p : FirstProposal} (h : IsFirst p) : constructGitPublication firstGitCodec
    noEnvelopes sampleCodec absent ⟨zeroDigest⟩ emptySnapshot [] defaultGitLimits = .ok p.constructed := by
  have hconstructs := p.constructs
  rwa [h.expected, h.id, h.staged, h.supplied, h.limits] at hconstructs

theorem snapshotFile_valid : NameKind.path.valid snapshotFile = true := by decide

theorem snapshotFile_bounded : snapshotFile.length < 2 ^ 63 := by decide

def snapshotPath : PortablePath := ⟨snapshotFile, snapshotFile_valid, snapshotFile_bounded⟩

theorem flatFiles_first {limits : SyncLimits} {files : FlatFiles}
    (h : flatFiles noEnvelopes sampleCodec emptySnapshot [] limits = .ok files) :
    ∃ text, files = (∅ : FlatFiles).insert snapshotPath text := by
  obtain ⟨_, -, h⟩ := bind_eq_ok_iff.mp h
  obtain ⟨text, -, h⟩ := bind_eq_ok_iff.mp h
  obtain ⟨first, hfirst, h⟩ := bind_eq_ok_iff.mp h
  obtain rfl : first = files := Except.ok.inj h
  obtain ⟨path, hpath, hfirst⟩ := bind_eq_ok_iff.mp hfirst
  rw [parsePath, required_eq_ok, parse_eq_some] at hpath
  obtain rfl : snapshotPath = path := Name.ext_bytes hpath
  exact ⟨text, (Except.ok.inj hfirst).symm⟩

theorem exists_firstProposal : ∃ p : FirstProposal, IsFirst p := by
  obtain ⟨_, -, h⟩ := bind_eq_ok_iff.mp preparePublication_first
  obtain ⟨constructed, hconstructed, h⟩ := bind_eq_ok_iff.mp h
  refine ⟨⟨absent, ⟨zeroDigest⟩, emptySnapshot, [], defaultGitLimits, constructed, hconstructed,
    emptySnapshot_canonical, fun files hfiles path hpath => ?_⟩, ⟨rfl, rfl, rfl, rfl, rfl, Except.ok.inj h⟩⟩
  obtain ⟨text, rfl⟩ := flatFiles_first hfiles
  rw [ExtTreeMap.mem_insert] at hpath
  obtain rfl := LawfulEqCmp.eq_of_compare (hpath.resolve_right ExtTreeMap.not_mem_empty)
  decide

/-- The remote after the first publication has been observed, prepared, sent and accepted. -/
def firstWorld (p : FirstProposal) : World firstGitCodec noEnvelopes (fun _ => zeroDigest) sampleCodec :=
  ⟨some p.commit, p.objects, [absent], [p.intent], [p], [p]⟩

theorem firstRequest_sent : ((constructGitPublication firstGitCodec noEnvelopes sampleCodec absent
    ⟨zeroDigest⟩ emptySnapshot [] defaultGitLimits).toOption.all fun constructed =>
      constructed.expectedOid == 0 && (buildReceiveRequest firstGitCodec constructed.expectedOid
        constructed.commitOid constructed.pack defaultGitLimits.git).isOk) = true := by decide +kernel

theorem reachable_first : ∃ p : FirstProposal, IsFirst p ∧ Reachable (firstWorld p) := by
  obtain ⟨p, hp⟩ := exists_firstProposal
  refine ⟨p, hp, ∅, ?_⟩
  have hprepare : preparePublication firstGitCodec noEnvelopes sampleCodec absent p.expected p.id p.staged
      p.supplied p.limits = .ok p.intent := by
    rw [hp.expected, hp.id, hp.staged, hp.supplied, hp.limits, hp.intent]
    exact preparePublication_first
  have hvalid : validateGitPublication firstGitCodec noEnvelopes sampleCodec p.intent p.staged p.supplied
      p.limits = .ok p.constructed := by
    have hrecorded : firstRecord.expected = p.expected ∧ firstRecord.publicationId = p.id :=
      ⟨hp.expected.symm, hp.id.symm⟩
    refine bind_eq_ok_iff.mpr ⟨firstRecord, ?_, bind_eq_ok_iff.mpr ⟨p.constructed, ?_, ?_⟩⟩
    · rw [hp.intent, hp.limits]
      exact parsePublicationIntent_first
    · rw [hrecorded.1, hrecorded.2]
      exact p.constructs
    · exact bind_eq_ok_iff.mpr ⟨(), reject_eq_ok.mpr (by simp [Proposal.intent]), rfl⟩
  have hsent := firstRequest_sent
  rw [hp.constructs, Except.toOption, Option.all_some, Bool.and_eq_true, beq_iff_eq] at hsent
  obtain ⟨request, hrequest⟩ : ∃ request, buildReceiveRequest firstGitCodec p.constructed.expectedOid p.commit
      p.constructed.pack p.limits.git = .ok request := by
    rw [hp.limits]
    cases hbuilt : buildReceiveRequest firstGitCodec p.constructed.expectedOid p.commit p.constructed.pack
      defaultGitLimits.git with
    | error e =>
      have hok := hsent.2
      rw [Proposal.commit] at hbuilt
      rw [hbuilt] at hok
      cases hok
    | ok request => exact ⟨request, rfl⟩
  have hobserved : finishGitObservation firstGitCodec noEnvelopes (fun _ => zeroDigest) sampleCodec
      defaultGitLimits none none = .ok ⟨⟨absent, none⟩, ∅, [], none⟩ :=
    bind_eq_ok_iff.mpr ⟨absent, required_eq_ok.mpr (parse_eq_some.mpr rfl), rfl⟩
  have hselected : (none : Option UInt8).getD firstGitCodec.null = p.constructed.expectedOid := hsent.1.symm
  refine .tail (.tail (.tail (.tail .refl (.observe (fun _ h => ?_) hobserved))
    (.prepare List.mem_cons_self hprepare)) (.send List.mem_cons_self hvalid hselected hrequest))
    (.accept List.mem_cons_self (fun oid object h => ?_) .refl hselected)
  · cases h
  · exact absurd h (by simp [World.start])

theorem log_linear_sample : ∃ w : World firstGitCodec noEnvelopes (fun _ => zeroDigest) sampleCodec,
    Reachable w ∧ w.accepted.length = 1 ∧ (w.accepted.map Proposal.commit).Nodup ∧
      Linked firstGitCodec w.accepted := by
  obtain ⟨p, -, h⟩ := reachable_first
  obtain ⟨-, hnodup, -, hlinked⟩ := log_linear firstGitCodec_lawful h .refl
  exact ⟨firstWorld p, h, rfl, hnodup, hlinked⟩

theorem firstObservation_read : ((constructGitPublication firstGitCodec noEnvelopes sampleCodec absent
    ⟨zeroDigest⟩ emptySnapshot [] defaultGitLimits).toOption.all fun constructed =>
      (finishGitObservation firstGitCodec noEnvelopes (fun _ => zeroDigest) sampleCodec defaultGitLimits
        (some constructed.commitOid) (some ⟨constructed.objects, ∅⟩)).isOk) = true := by decide +kernel

/-- The first publication is observed where it was accepted. -/
theorem observes_first {p : FirstProposal} (h : IsFirst p) : ∃ observation,
    finishGitObservation firstGitCodec noEnvelopes (fun _ => zeroDigest) sampleCodec defaultGitLimits
      (firstWorld p).head (some ⟨p.objects, ∅⟩) = .ok observation := by
  have hread := firstObservation_read
  rw [h.constructs, Except.toOption, Option.all_some] at hread
  cases hobserved : finishGitObservation firstGitCodec noEnvelopes (fun _ => zeroDigest) sampleCodec
      defaultGitLimits (some p.constructed.commitOid) (some ⟨p.constructed.objects, ∅⟩) with
  | error e =>
    rw [hobserved] at hread
    cases hread
  | ok observation => exact ⟨observation, hobserved⟩

theorem fetched_first {p : FirstProposal} : Fetched (firstWorld p).objects (some ⟨p.objects, ∅⟩) := by
  intro given hgiven
  obtain rfl := Option.some.inj hgiven
  exact .refl

theorem reconcile_exact_sample : ∃ (w : World firstGitCodec noEnvelopes (fun _ => zeroDigest) sampleCodec)
    (observation : GitObservation UInt8 Empty), Reachable w ∧
      reconcile firstGitCodec firstGitIntent .default (.ok observation) = .ok (.published firstRevision) := by
  obtain ⟨p, hp, h⟩ := reachable_first
  obtain ⟨observation, hobserved⟩ := observes_first hp
  have hstatus : reconcile firstGitCodec firstGitIntent .default (.ok observation) =
      .ok (reconcileGitObservation firstGitIntent firstRecord commitId observation) :=
    bind_eq_ok_iff.mpr ⟨firstRecord, parsePublicationIntent_first,
      bind_eq_ok_iff.mpr ⟨commitId, required_eq_ok.mpr (firstGitCodec_lawful.hex commitId), rfl⟩⟩
  have hprepared : firstGitIntent ∈ (firstWorld p).prepared := hp.intent ▸ List.mem_cons_self
  have hexact := (reconcile_exact firstGitCodec_lawful h hprepared fetched_first hobserved hstatus).1
  have hpublished := hexact.mpr ⟨p, List.mem_cons_self, by
    obtain ⟨_, _, _, _, hmade⟩ := p.made
    rw [← hmade.proposed, hp.intent]⟩
  exact ⟨firstWorld p, observation, h, hpublished ▸ hstatus⟩

end Sample

end Kitrove.Git
