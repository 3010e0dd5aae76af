import Kitrove.Backend.History

/-! Publishing to a filesystem remote, step by step: what is written and when the pointer
moves. -/

namespace Kitrove

open Crash Except BackendError

def pointerPath : PortablePath := ⟨pointerArea, by decide +kernel, by decide +kernel⟩

theorem currentPath_eq : currentPath = .ok pointerPath := portable_eq_ok.mpr rfl

section Preparing

variable {blake3 : Bytes → Digest} {codec : ControlCodec} {snapshots : SnapshotCodec}
  {texts : Files} {expected : RemoteRevision} {id : PublicationId} {staged : PortableSnapshot}
  {objects : List VerifiedObjectEnvelope} {limits : SyncLimits} {intent : PublicationIntent}
  {head : Head} {text : Bytes}

theorem canonical_eq_ok {α : Type} {encode : α → Option Bytes} {value : α} :
    canonical encode value = .ok text ↔
      ∃ encoded, encode value = some encoded ∧ text = encoded ++ [newline] := by
  unfold canonical
  cases encode value <;> simp [eq_comm]

theorem parseCanonical_eq_ok {α : Type} {encode : α → Option Bytes} {decode : Bytes → Option α}
    {value : α} : parseCanonical encode decode text = .ok value ↔
      decode text = some value ∧ canonical encode value = .ok text := by
  unfold parseCanonical
  cases decode text with
  | none => simp
  | some found =>
    rw [bind_eq_ok_iff]
    simp only [refuseIf_bind_eq_ok, decide_eq_false_iff_not, ne_eq, not_not, pure_eq_ok_iff,
      Option.some.injEq]
    constructor
    · rintro ⟨encoded, hencoded, rfl, rfl⟩
      exact ⟨rfl, hencoded⟩
    · rintro ⟨rfl, hencoded⟩
      exact ⟨text, hencoded, rfl, rfl⟩

theorem ControlCodec.Lawful.parseHead (hcodec : codec.Lawful)
    (h : canonical codec.encodeHead head = .ok text) :
    parseCanonical codec.encodeHead codec.decodeHead text = .ok head := by
  obtain ⟨encoded, hencode, rfl⟩ := canonical_eq_ok.mp h
  exact parseCanonical_eq_ok.mpr ⟨hcodec.head _ _ hencode, h⟩

theorem ControlCodec.Lawful.parseCurrent {current : Current} (hcodec : codec.Lawful)
    (h : canonical codec.encodeCurrent current = .ok text) :
    parseCanonical codec.encodeCurrent codec.decodeCurrent text = .ok current := by
  obtain ⟨encoded, hencode, rfl⟩ := canonical_eq_ok.mp h
  exact parseCanonical_eq_ok.mpr ⟨hcodec.current _ _ hencode, h⟩

/-- What a prepared intent holds. -/
structure Prepared (blake3 : Bytes → Digest) (codec : ControlCodec) (inspected : Inspected)
    (expected : RemoteRevision) (id : PublicationId) (staged : PortableSnapshot)
    (limits : SyncLimits) (intent : PublicationIntent) (head : Head) : Prop where
  current : inspected.remote.revision = expected
  next : nextGeneration inspected limits =
    .ok (head.generation, head.priorHeadPath, head.priorGeneration)
  version : head.schemaVersion = 1
  publicationId : head.publicationId = id
  snapshotDigest : head.snapshotDigest = staged.snapshotDigest
  snapshotFile : snapshotPath staged.snapshotDigest = .ok head.snapshotFile
  priorRevision : head.priorRevision = expected
  encoded : canonical codec.encodeHead head = .ok intent.encoded
  revision : headRevision blake3 intent.encoded = .ok intent.proposedRevision
  bounded : intent.encoded.length ≤ limits.maxControlBytes.toNat

theorem preparePublication_eq_ok
    (h : preparePublication blake3 codec snapshots texts expected id staged objects limits =
      .ok intent) :
    requireSupplied staged objects = .ok () ∧ validateObjectBudget objects limits = .ok () ∧
      ∃ inspected head, inspectStore blake3 codec snapshots texts limits = .ok inspected ∧
        Prepared blake3 codec inspected expected id staged limits intent head := by
  unfold preparePublication at h
  obtain ⟨⟨⟩, hsupplied, h⟩ := bind_eq_ok_iff.mp h
  obtain ⟨⟨⟩, hbudget, h⟩ := bind_eq_ok_iff.mp h
  obtain ⟨inspected, hinspected, h⟩ := bind_eq_ok_iff.mp h
  obtain ⟨hcurrent, h⟩ := refuseIf_bind_eq_ok.mp h
  obtain ⟨⟨generation, priorHeadPath, priorGeneration⟩, hnext, h⟩ := bind_eq_ok_iff.mp h
  obtain ⟨snapshotFile, hfile, h⟩ := bind_eq_ok_iff.mp h
  obtain ⟨encoded, hencoded, h⟩ := bind_eq_ok_iff.mp h
  obtain ⟨revision, hrevision, h⟩ := bind_eq_ok_iff.mp h
  unfold PublicationIntent.fromPersisted at h
  split at h
  · contradiction
  · rename_i hok
    cases h
    simp only [Bool.or_eq_true, decide_eq_true_eq, not_or, gt_iff_lt, Nat.not_lt] at hok
    rw [decide_eq_false_iff_not, ne_eq, not_not] at hcurrent
    exact ⟨hsupplied, hbudget, inspected, _, hinspected, hcurrent, hnext, rfl, rfl, rfl, hfile,
      rfl, hencoded, hrevision, hok.1.2⟩

theorem intentHead_eq_ok : intentHead blake3 codec intent limits = .ok head ↔
    parseHead codec intent.encoded limits = .ok head ∧
      headRevision blake3 intent.encoded = .ok intent.proposedRevision := by
  unfold intentHead
  constructor
  · intro h
    obtain ⟨head', hparse, h⟩ := bind_eq_ok_iff.mp h
    obtain ⟨revision, hrevision, h⟩ := bind_eq_ok_iff.mp h
    obtain ⟨hsame, h⟩ := refuseIf_bind_eq_ok.mp h
    rw [pure_eq_ok_iff] at h
    rw [decide_eq_false_iff_not, ne_eq, not_not] at hsame
    exact ⟨h ▸ hparse, hsame ▸ hrevision⟩
  · rintro ⟨hparse, hrevision⟩
    refine bind_eq_ok_iff.mpr ⟨head, hparse, bind_eq_ok_iff.mpr ⟨_, hrevision, ?_⟩⟩
    exact refuseIf_bind_eq_ok.mpr ⟨by simp, rfl⟩

/-- A prepared intent is read back as its head. -/
theorem Prepared.intentHead {inspected : Inspected} (hcodec : codec.Lawful)
    (h : Prepared blake3 codec inspected expected id staged limits intent head) :
    Kitrove.intentHead blake3 codec intent limits = .ok head :=
  intentHead_eq_ok.mpr
    ⟨parseHead_eq_ok.mpr ⟨h.bounded, hcodec.parseHead h.encoded, h.version⟩, h.revision⟩

end Preparing

section Publishing

variable {blake3 : Bytes → Digest} {codec : ControlCodec} {snapshots : SnapshotCodec}
  {decode : ObjectDecoder} {exchange : Bool} {intent : PublicationIntent}
  {staged : PortableSnapshot} {objects : List VerifiedObjectEnvelope} {limits : SyncLimits}
  {stage : PortablePath} {object : VerifiedObjectEnvelope} {store : RemoteStore} {head : Head}

theorem publishObject_steps :
    (publishObject decode stage limits object).Upholds (fun s t => t.texts = s.texts)
      (fun _ t => t.texts = store.texts) (fun _ _ => True) store := by
  unfold publishObject
  rw [Program.bind_upholds]
  cases remoteObjectPath object.descriptor with
  | error e => simp
  | ok destination =>
    rw [Program.ofExcept_ok_upholds, Program.bind_upholds]
    cases joined stage object.descriptor.root.bytes with
    | error e => simp
    | ok staging =>
      rw [Program.ofExcept_ok_upholds, Program.zoom_upholds]
      exact Program.upholds_true.mono (fun _ _ _ => rfl) (fun _ _ _ => rfl) fun _ _ h => h

theorem publishObjects_steps :
    (objects.forM (publishObject decode stage limits)).Upholds (fun s t => t.texts = s.texts)
      (fun _ t => t.texts = store.texts) (fun _ _ => True) store :=
  Program.forM_upholds (R := fun _ t => t.texts = store.texts)
    (fun _ _ _ ht => publishObject_steps.mono (fun _ _ h => h) (fun _ _ h => h.trans ht)
      fun _ _ h => h) rfl

/-- The texts that publishing an intent writes. -/
structure Written (blake3 : Bytes → Digest) (codec : ControlCodec) (snapshots : SnapshotCodec)
    (intent : PublicationIntent) (staged : PortableSnapshot) (limits : SyncLimits) (head : Head)
    (path : PortablePath) (snapshotText pointerText : Bytes) : Prop where
  headPath : headPath blake3 head intent.encoded = .ok path
  snapshot : staged.toJson snapshots limits = .ok snapshotText
  pointer : canonical codec.encodeCurrent ⟨1, path, intent.proposedRevision⟩ = .ok pointerText

/-- A remote in which the head of an intent and its snapshot are in place. -/
structure Installed (intent : PublicationIntent) (head : Head) (path : PortablePath)
    (snapshotText : Bytes) (texts : Files) : Prop where
  headText : texts path = some intent.encoded
  snapshotText : texts head.snapshotFile = some snapshotText

/-- Whether a path is that of an immutable control file. -/
def Immutable (path : PortablePath) : Prop :=
  headsArea <+: path.bytes ∨ snapshotsArea <+: path.bytes

theorem Immutable.not_staging {path : PortablePath} (h : Immutable path) : ¬ InStaging path := by
  rcases h with h | h
  · exact not_inStaging_of_prefix h (by decide +kernel)
  · exact not_inStaging_of_prefix h (by decide +kernel)

theorem Immutable.ne_pointerPath {path : PortablePath} (h : Immutable path) :
    path ≠ pointerPath := by
  have hp : pointerArea <+: pointerPath.bytes := List.prefix_rfl
  rcases h with h | h
  · exact ne_of_areas h hp (by decide +kernel)
  · exact ne_of_areas h hp (by decide +kernel)

theorem immutable_headPath {path : PortablePath} {text : Bytes}
    (h : headPath blake3 head text = .ok path) : Immutable path :=
  .inl (headsArea_headPath h)

theorem immutable_snapshotPath {digest : SnapshotDigest} {path : PortablePath}
    (h : snapshotPath digest = .ok path) : Immutable path :=
  .inr (snapshotsArea_snapshotPath h)

/-- Every immutable text that was there is still there. -/
def KeepsImmutable (s t : RemoteStore) : Prop :=
  ∀ path, Immutable path → ∀ text, s.texts path = some text → t.texts path = some text

/-- One step of a publication: immutable texts stay, and the pointer moves only over the
installed head. -/
structure PublishStep (blake3 : Bytes → Digest) (codec : ControlCodec)
    (snapshots : SnapshotCodec) (exchange : Bool) (intent : PublicationIntent)
    (staged : PortableSnapshot) (limits : SyncLimits) (head : Head) (old : Option Bytes)
    (current : RemoteRevision) (s t : RemoteStore) : Prop where
  kept : KeepsImmutable s t
  pointer : t.texts pointerPath = s.texts pointerPath ∨
    current = head.priorRevision ∧ ∃ path snapshotText pointerText,
      Written blake3 codec snapshots intent staged limits head path snapshotText pointerText ∧
      Installed intent head path snapshotText t.texts ∧
      (s.texts pointerPath = old ∧ t.texts pointerPath = some pointerText ∨
        exchange = false ∧ old ≠ none ∧ s.texts pointerPath = old ∧ t.texts pointerPath = none ∨
        old ≠ none ∧ s.texts pointerPath = none ∧ t.texts pointerPath = some pointerText)

theorem PublishStep.of_texts {old : Option Bytes} {current : RemoteRevision} {s t : RemoteStore}
    (h : t.texts = s.texts) :
    PublishStep blake3 codec snapshots exchange intent staged limits head old current s t :=
  ⟨fun _ _ _ hs => h ▸ hs, .inl (congrFun h _)⟩

/-- Installing an immutable text changes no other one and does not touch the pointer. -/
theorem ControlStep.keeps {destination : PortablePath} {new : Bytes} {s t : RemoteStore}
    (hd : Immutable destination) (h : ControlStep exchange destination none new s t) :
    KeepsImmutable s t ∧ t.texts pointerPath = s.texts pointerPath := by
  refine ⟨fun path hpath text htext => ?_, ?_⟩
  · by_cases he : path = destination
    · subst he
      rcases h.destination with hsame | ⟨hnone, -⟩ | ⟨-, hold, -⟩ | ⟨hold, -⟩
      · rw [hsame, htext]
      · rw [hnone] at htext
        contradiction
      · exact absurd rfl hold
      · exact absurd rfl hold
    · rw [h.frame path hpath.not_staging he, htext]
  · exact h.frame _ (currentPath_not_staging currentPath_eq) hd.ne_pointerPath.symm

theorem ControlDone.keeps {destination : PortablePath} {new : Bytes} {s t : RemoteStore}
    (hd : Immutable destination) (h : ControlDone destination none new s t) :
    KeepsImmutable s t ∧ t.texts pointerPath = s.texts pointerPath := by
  refine ⟨fun path hpath text htext => ?_, ?_⟩
  · by_cases he : path = destination
    · subst he
      rcases h.found with hsame | hnone | ⟨hold, -⟩
      · rw [h.installed, ← hsame, htext]
      · rw [hnone] at htext
        contradiction
      · exact absurd rfl hold
    · rw [h.frame path hpath.not_staging he, htext]
  · exact h.frame _ (currentPath_not_staging currentPath_eq) hd.ne_pointerPath.symm

theorem inspectStore_currentText {texts : Files} {inspected : Inspected}
    (h : inspectStore blake3 codec snapshots texts limits = .ok inspected) :
    inspected.currentText = texts pointerPath := by
  unfold inspectStore at h
  obtain ⟨history, hhistory, h⟩ := bind_eq_ok_iff.mp h
  unfold inspectHistoryChain at hhistory
  obtain ⟨path, hpath, hhistory⟩ := bind_eq_ok_iff.mp hhistory
  rw [currentPath_eq, ok.injEq] at hpath
  subst hpath
  obtain ⟨⟨found, rest⟩, hread, hhistory⟩ := bind_eq_ok_iff.mp hhistory
  cases found with
  | none =>
    rw [pure_eq_ok_iff] at hhistory
    subst hhistory
    rw [pure_eq_ok_iff] at h
    rw [← h, (readBudgetedText_none.mp hread).1]
  | some currentText =>
    obtain ⟨current, -, hhistory⟩ := bind_eq_ok_iff.mp hhistory
    obtain ⟨-, hhistory⟩ := refuseIf_bind_eq_ok.mp hhistory
    obtain ⟨entries, -, hhistory⟩ := bind_eq_ok_iff.mp hhistory
    rw [pure_eq_ok_iff] at hhistory
    subst hhistory
    cases entries with
    | nil => contradiction
    | cons selected others =>
      obtain ⟨snapshot, -, h⟩ := bind_eq_ok_iff.mp h
      rw [pure_eq_ok_iff] at h
      rw [← h, (readBudgetedText_some.mp hread).1]

/-- What a publication that returns leaves. -/
structure PublishDone (blake3 : Bytes → Digest) (codec : ControlCodec)
    (snapshots : SnapshotCodec) (intent : PublicationIntent) (staged : PortableSnapshot)
    (limits : SyncLimits) (head : Head) (s t : RemoteStore) : Prop where
  kept : KeepsImmutable s t
  selected : ∃ path snapshotText pointerText,
    Written blake3 codec snapshots intent staged limits head path snapshotText pointerText ∧
    Installed intent head path snapshotText t.texts ∧ t.texts pointerPath = some pointerText

theorem KeepsImmutable.trans {s t u : RemoteStore} (h : KeepsImmutable s t)
    (h' : KeepsImmutable t u) : KeepsImmutable s u :=
  fun path hpath text htext => h' path hpath text (h path hpath text htext)

/-- A publication takes only its own steps; one that returns has selected its head or, over
another head than the planned one, has changed nothing. -/
theorem publish_steps {inspected : Inspected}
    (hintent : Kitrove.intentHead blake3 codec intent limits = .ok head)
    (hfile : snapshotPath head.snapshotDigest = .ok head.snapshotFile)
    (hinspected : inspectStore blake3 codec snapshots store.texts limits = .ok inspected) :
    (publish blake3 codec snapshots decode exchange intent staged objects limits).Upholds
      (PublishStep blake3 codec snapshots exchange intent staged limits head
        (store.texts pointerPath) inspected.remote.revision)
      (fun status t =>
        status = .uncertain ∧ inspected.remote.revision ≠ head.priorRevision ∧ t = store ∨
        status = .published intent.proposedRevision ∧
          inspected.remote.revision = head.priorRevision ∧
          PublishDone blake3 codec snapshots intent staged limits head store t)
      (fun _ _ => True) store := by
  have hold := inspectStore_currentText hinspected
  unfold publish
  rw [Program.bind_upholds, hintent, Program.ofExcept_ok_upholds, Program.bind_upholds,
    Program.require_upholds]
  split
  swap
  · trivial
  rw [Program.bind_upholds, Program.inspect_upholds, Program.bind_upholds, id_eq, hinspected,
    Program.ofExcept_ok_upholds]
  by_cases hcurrent : inspected.remote.revision ≠ head.priorRevision
  · rw [if_pos hcurrent, Program.pure_upholds]
    exact .inl ⟨rfl, hcurrent, rfl⟩
  rw [if_neg hcurrent]
  rw [ne_eq, not_not] at hcurrent
  rw [Program.bind_upholds]
  cases requireSupplied staged objects with
  | error e => simp
  | ok =>
  rw [Program.ofExcept_ok_upholds, Program.bind_upholds]
  cases validateObjectBudget objects limits with
  | error e => simp
  | ok =>
  rw [Program.ofExcept_ok_upholds, Program.bind_upholds]
  cases hstage : stagePrefix head.publicationId with
  | error e => simp
  | ok stage =>
  have hstaging := inStaging_stagePrefix hstage
  rw [Program.ofExcept_ok_upholds, Program.bind_upholds]
  refine publishObjects_steps.mono (fun _ _ => PublishStep.of_texts) ?_ fun _ _ h => h
  intro _ t ht
  rw [Program.bind_upholds]
  cases hsnapshot : staged.toJson snapshots limits with
  | error e => simp [Except.mapError]
  | ok snapshotText =>
  rw [Except.mapError, Program.ofExcept_ok_upholds, Program.bind_upholds]
  cases hsnapshotStaging : joined stage (ascii "snapshot.json") with
  | error e => simp
  | ok snapshotStaging =>
  rw [Program.ofExcept_ok_upholds, Program.bind_upholds]
  have hfileImmutable := immutable_snapshotPath hfile
  refine (replaceText_steps (inStaging_joined hstaging hsnapshotStaging)
    hfileImmutable.not_staging).mono (fun s t hs => ?_) ?_ fun _ _ h => h
  · exact ⟨(hs.keeps hfileImmutable).1, .inl (hs.keeps hfileImmutable).2⟩
  intro _ t₁ hdone₁
  obtain ⟨hkept₁, hpointer₁⟩ := hdone₁.keeps hfileImmutable
  rw [Program.bind_upholds]
  cases hpath : Kitrove.headPath blake3 head intent.encoded with
  | error e => simp
  | ok path =>
  have hpathImmutable := immutable_headPath hpath
  rw [Program.ofExcept_ok_upholds, Program.bind_upholds]
  cases hheadStaging : joined stage (ascii "head.json") with
  | error e => simp
  | ok headStaging =>
  rw [Program.ofExcept_ok_upholds, Program.bind_upholds]
  refine (replaceText_steps (inStaging_joined hstaging hheadStaging)
    hpathImmutable.not_staging).mono (fun s t hs => ?_) ?_ fun _ _ h => h
  · exact ⟨(hs.keeps hpathImmutable).1, .inl (hs.keeps hpathImmutable).2⟩
  intro _ t₂ hdone₂
  obtain ⟨hkept₂, hpointer₂⟩ := hdone₂.keeps hpathImmutable
  rw [Program.bind_upholds]
  cases hpointerText : canonical codec.encodeCurrent ⟨1, path, intent.proposedRevision⟩ with
  | error e => simp
  | ok pointerText =>
  rw [Program.ofExcept_ok_upholds, Program.bind_upholds]
  cases hpointerStaging : joined stage (ascii "current.json") with
  | error e => simp
  | ok pointerStaging =>
  rw [Program.ofExcept_ok_upholds, Program.bind_upholds, currentPath_eq,
    Program.ofExcept_ok_upholds, Program.bind_upholds]
  have hwritten : Written blake3 codec snapshots intent staged limits head path snapshotText
      pointerText := ⟨hpath, hsnapshot, hpointerText⟩
  have hinstalled : Installed intent head path snapshotText t₂.texts :=
    ⟨hdone₂.installed, hkept₂ _ hfileImmutable _ hdone₁.installed⟩
  have hnotStaging := currentPath_not_staging currentPath_eq
  have hkeep : ∀ {s t : RemoteStore}, (∀ path, ¬ InStaging path → path ≠ pointerPath →
      t.texts path = s.texts path) → KeepsImmutable s t := by
    intro s t hframe path hpath text htext
    rw [hframe path hpath.not_staging hpath.ne_pointerPath, htext]
  refine ((replaceText_steps (inStaging_joined hstaging hpointerStaging) hnotStaging).keeps
    (I := fun t => Installed intent head path snapshotText t.texts) hinstalled
    fun t u hstep hi => ?_).mono ?_ ?_ fun _ _ _ => trivial
  · have hk := hkeep hstep.frame
    exact ⟨hk _ hpathImmutable _ hi.headText, hk _ hfileImmutable _ hi.snapshotText⟩
  · rintro s t ⟨hstep, -, hi⟩
    refine ⟨hkeep hstep.frame, ?_⟩
    rw [← hold]
    rcases hstep.destination with hsame | hrest
    · exact .inl hsame
    · exact .inr ⟨hcurrent, path, snapshotText, pointerText, hwritten, hi, hrest⟩
  · rintro - u ⟨hdone, hi⟩
    rw [Program.pure_upholds]
    refine .inr ⟨rfl, hcurrent, ?_, path, snapshotText, pointerText, hwritten, hi, hdone.installed⟩
    have hkept₀ : KeepsImmutable store t := fun _ _ _ hs => ht ▸ hs
    exact ((hkept₀.trans hkept₁).trans hkept₂).trans (hkeep hdone.frame)

end Publishing

end Kitrove
