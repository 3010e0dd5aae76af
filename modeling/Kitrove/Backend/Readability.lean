import Kitrove.Backend.Selection

/-! When a publication leaves the remote readable under the limits it was made with. -/

namespace Kitrove

open Crash Except BackendError

section Readability

variable (blake3 : Bytes → Digest) (codec : ControlCodec) (snapshots : SnapshotCodec)
  (decode : ObjectDecoder)

/-- The bytes of the heads that the selected history already has. -/
def priorControlBytes (texts : Files) (limits : SyncLimits) : Nat :=
  match inspectHistoryChain blake3 codec texts limits with
  | .ok (some history) => textBytes texts (headPaths history.headPath history.entries)
  | _ => 0

/-- The pointer to an intent's head. -/
def pointerTo (intent : PublicationIntent) (limits : SyncLimits) : Except BackendError Bytes := do
  let head ← intentHead blake3 codec intent limits
  let path ← headPath blake3 head intent.encoded
  canonical codec.encodeCurrent ⟨1, path, intent.proposedRevision⟩

/-- Whether a reader with these limits can afford a publication: the pointer and all the heads
within the control budget, the snapshot's documents and components within theirs. -/
structure WithinReadBudget (texts : Files) (intent : PublicationIntent) (staged : PortableSnapshot)
    (limits : SyncLimits) : Prop where
  control : ∀ pointerText, pointerTo blake3 codec intent limits = .ok pointerText →
    pointerText.length + (intent.encoded.length + priorControlBytes blake3 codec texts limits) ≤
      limits.maxControlBytes.toNat
  components : componentCountOf staged.manifest ≤ limits.maxComponents.toNat
  manifestToml : staged.manifestToml.length ≤ limits.maxManifestBytes.toNat
  lockJson : staged.lockJson.length ≤ limits.maxLockBytes.toNat

/-- No text of a remote other than the new head has its hash. -/
def Fresh (texts : Files) (encoded : Bytes) : Prop :=
  ∀ path text, texts path = some text → blake3 text = blake3 encoded → text = encoded

/-- A prepared publication of a snapshot that succeeds. -/
def Publishes (limits : SyncLimits) (s : RemoteStore) (intent : PublicationIntent)
    (staged : PortableSnapshot) (t : RemoteStore) : Prop :=
  ∃ exchange expected id objects revision,
    preparePublication blake3 codec snapshots s.texts expected id staged objects limits =
      .ok intent ∧
    (publish blake3 codec snapshots decode exchange intent staged objects limits s).result =
      .ok (.published revision) ∧
    t = (publish blake3 codec snapshots decode exchange intent staged objects limits).final s

def ReadableRemote (limits : SyncLimits) (s : RemoteStore) : Prop :=
  ∃ inspected, inspectStore blake3 codec snapshots s.texts limits = .ok inspected

/-- Whether an inspection gives exactly what was published. -/
def ReadsBack (limits : SyncLimits) (intent : PublicationIntent) (staged : PortableSnapshot)
    (s : RemoteStore) : Prop :=
  ∃ inspected, inspectStore blake3 codec snapshots s.texts limits = .ok inspected ∧
    inspected.remote = ⟨intent.proposedRevision, some staged⟩

/-- A publication of a constructed snapshot within what its reader can afford. -/
def AffordablePublication (limits : SyncLimits) (s t : RemoteStore) : Prop :=
  ∃ intent staged limits₀, Constructed blake3 snapshots limits₀ staged ∧
    Fresh blake3 s.texts intent.encoded ∧
    Publishes blake3 codec snapshots decode limits s intent staged t ∧
    WithinReadBudget blake3 codec s.texts intent staged limits

variable {blake3} {codec} {snapshots} {decode} {limits : SyncLimits} {s t : RemoteStore}
  {intent : PublicationIntent} {staged : PortableSnapshot} {head : Head}
  {expected : RemoteRevision} {id : PublicationId} {inspected : Inspected}

theorem inspectStore_revision (hpresent : s.texts pointerPath = none → False)
    (h : inspectStore blake3 codec snapshots s.texts limits = .ok inspected) :
    ∃ history selected others bytes,
      Selects blake3 codec s.texts history.currentText history.headPath selected.revision
        (selected :: others) bytes ∧
      inspectHistoryChain blake3 codec s.texts limits = .ok (some history) ∧
      history.entries = selected :: others ∧
      inspected.remote.revision = selected.revision ∧ inspected.head = some selected.head ∧
      inspected.headPath = some history.headPath ∧
      inspected.history = (selected :: others).map HistoryEntry.revision := by
  rcases inspectStore_eq_ok.mp h with ⟨hnone, -⟩ | ⟨history, selected, others, snapshot, hchain,
    hentries, -, rfl⟩
  · exact (hpresent hnone).elim
  · obtain ⟨revision, bytes, hselects, -⟩ := inspectHistoryChain_some.mp hchain
    obtain ⟨head, rest, he, -⟩ := hselects.chain.generations
    rw [hentries, List.cons.injEq] at he
    have hrevision : revision = selected.revision := by rw [he.1]
    rw [hentries, hrevision] at hselects
    exact ⟨history, selected, others, bytes, hselects, hchain, hentries, rfl, rfl, rfl,
      congrArg _ hentries⟩

/-- The chain that a publication selects: its head, then the heads that were there. -/
theorem Prepared.chain (hcodec : codec.Lawful)
    (hinspected : inspectStore blake3 codec snapshots s.texts limits = .ok inspected)
    (hprepared : Prepared blake3 codec inspected expected id staged limits intent head)
    {path : PortablePath} (hpath : headPath blake3 head intent.encoded = .ok path)
    {texts : Files} (htext : texts path = some intent.encoded)
    (hkept : ∀ path, Immutable path → ∀ text, s.texts path = some text → texts path = some text) :
    ∃ others, Chain blake3 codec texts none path intent.proposedRevision
        (⟨intent.proposedRevision, head⟩ :: others)
        (intent.encoded.length + priorControlBytes blake3 codec s.texts limits) ∧
      others.map HistoryEntry.revision = inspected.history ∧
      others.length + 1 = head.generation.toNat ∧
      head.generation.toNat ≤ limits.maxBackendHistory.toNat ∧
      (others.map HistoryEntry.revision).Nodup ∧
      ∀ entry ∈ others, entry.head.generation.toNat ≤ others.length ∧ ∃ path text,
        HeadAt blake3 codec s.texts path entry.revision entry.head text := by
  have hat : HeadAt blake3 codec texts path intent.proposedRevision head intent.encoded :=
    ⟨htext, hcodec.parseHead hprepared.encoded, hprepared.version, hprepared.revision, hpath⟩
  have hlinked : LinkedTo none path intent.proposedRevision head := fun _ h => nomatch h
  have hnext := hprepared.next
  unfold nextGeneration at hnext
  by_cases habsent : s.texts pointerPath = none
  · have hchain : inspectHistoryChain blake3 codec s.texts limits = .ok none :=
      inspectHistoryChain_none.mpr habsent
    have hnone : inspected = absentRemote := by
      rcases inspectStore_eq_ok.mp hinspected with ⟨-, h⟩ | ⟨history, -, -, -, h, -⟩
      · exact h
      · simp [hchain] at h
    subst hnone
    simp only [absentRemote, ok.injEq, Prod.mk.injEq] at hnext
    obtain ⟨hone, hprior, hgeneration⟩ := hnext
    have hroot : priorOf head = .ok none := by
      have habsentRevision : head.priorRevision = absentRevision := by
        rw [hprepared.priorRevision, ← hprepared.current]
        rfl
      simp [priorOf, ← hprior, ← hgeneration, ← hone, habsentRevision]
    have hprior : priorControlBytes blake3 codec s.texts limits = 0 := by
      rw [priorControlBytes, hchain]
    obtain ⟨n, hn⟩ := limits.history_pos
    refine ⟨[], ?_, rfl, ?_, ?_, List.nodup_nil, by simp⟩
    · rw [hprior]
      exact .first hat hlinked hroot
    · rw [← hone]
      rfl
    · rw [← hone, hn]
      exact Nat.succ_le_succ (Nat.zero_le n)
  · obtain ⟨history, selected, others, bytes, hselects, hchain, hentries, hrevision, hhead,
      hheadPath, hhistory⟩ := inspectStore_revision habsent hinspected
    simp only [hhead] at hnext
    cases hsucc : checkedSucc selected.head.generation with
    | none => simp [hsucc] at hnext
    | some generation =>
      simp only [hsucc] at hnext
      obtain ⟨hmax, hnext⟩ := refuseIf_bind_eq_ok.mp hnext
      simp only [pure_eq_ok_iff, Prod.mk.injEq] at hnext
      obtain ⟨rfl, hprior, hgeneration⟩ := hnext
      rw [hheadPath] at hprior
      rw [decide_eq_false_iff_not, gt_iff_lt, Nat.not_lt] at hmax
      have hpriorOf : priorOf head = .ok (some history.headPath) :=
        priorOf_some.mpr ⟨hprior.symm, _, hgeneration.symm, hsucc⟩
      have hrelinked : LinkedTo (some head) history.headPath selected.revision selected.head := by
        rintro next hnext
        cases hnext
        refine ⟨hprior.symm, hgeneration.symm, ?_, hsucc⟩
        rw [hprepared.priorRevision, ← hprepared.current, hrevision]
      have hbelow := (hselects.chain.relink hrelinked).keep hkept
      rw [← hrevision, hprepared.current, ← hprepared.priorRevision] at hbelow
      obtain ⟨below, rest, he, hlength, hall⟩ := hselects.chain.generations
      have hbytes : bytes = priorControlBytes blake3 codec s.texts limits := by
        rw [priorControlBytes, hchain]
        dsimp only
        rw [hentries]
        exact hselects.chain.bytes_eq
      obtain ⟨revision, bytes', hselects', -, hnodup, -⟩ := inspectHistoryChain_some.mp hchain
      refine ⟨selected :: others, ?_, hhistory.symm, ?_, hmax, hentries ▸ hnodup, hall⟩
      · rw [← hbytes]
        exact .next hat hlinked hpriorOf hbelow
      · rw [List.cons.injEq] at he
        rw [checkedSucc_eq_some, he.1] at hsucc
        rw [← hsucc, hlength]

theorem readSnapshot_eq_ok {texts : Files} {snapshot : PortableSnapshot} :
    readSnapshot blake3 snapshots texts limits head = .ok snapshot ↔
      ∃ text, texts head.snapshotFile = some text ∧
        text.length ≤ limits.maxSnapshotBytes.toNat ∧
        PortableSnapshot.fromJson blake3 snapshots text limits = .ok snapshot ∧
        snapshot.snapshotDigest = head.snapshotDigest ∧
        snapshotPath snapshot.snapshotDigest = .ok head.snapshotFile := by
  unfold readSnapshot Files.readText
  cases htext : texts head.snapshotFile with
  | none => simp
  | some text =>
    by_cases hlen : text.length ≤ limits.maxSnapshotBytes.toNat
    swap
    · simp [hlen]
    simp only [Option.all_some, hlen, decide_true, if_true, Option.some.injEq, exists_eq_left',
      true_and]
    cases hjson : PortableSnapshot.fromJson blake3 snapshots text limits with
    | error e => simp
    | ok found =>
      simp only [ok.injEq]
      rw [bind_eq_ok_iff]
      constructor
      · rintro ⟨path, hpath, h⟩
        obtain ⟨hsame, h⟩ := refuseIf_bind_eq_ok.mp h
        rw [pure_eq_ok_iff] at h
        subst h
        simp only [Bool.or_eq_false_iff, decide_eq_false_iff_not, ne_eq, not_not] at hsame
        exact ⟨rfl, hsame.1, hsame.2 ▸ hpath⟩
      · rintro ⟨rfl, hdigest, hpath⟩
        exact ⟨_, hpath, refuseIf_bind_eq_ok.mpr ⟨by simp [hdigest], rfl⟩⟩

theorem headRevision_bytes {text : Bytes} {revision : RemoteRevision}
    (h : headRevision blake3 text = .ok revision) :
    revision.bytes = ascii "filesystem:head:blake3:" ++ (blake3 text).hex := by
  unfold headRevision parseRevision Name.parse at h
  split at h
  · contradiction
  · rename_i found hfound
    split at hfound
    · cases hfound
      cases h
      rfl
    · contradiction

/-- A revision names the digest of its head. -/
theorem headRevision_digest {text text' : Bytes} {revision : RemoteRevision}
    (h : headRevision blake3 text = .ok revision) (h' : headRevision blake3 text' = .ok revision) :
    blake3 text = blake3 text' := by
  have hhex := headRevision_bytes h
  rw [headRevision_bytes h', List.append_cancel_left_eq] at hhex
  cases hd : blake3 text
  cases hd' : blake3 text'
  simp only [hd, hd'] at hhex
  simp [hhex]

/-- The new head is not among the heads before it. -/
theorem proposed_not_mem {others : List HistoryEntry} (hcodec : codec.Lawful)
    (hprepared : Prepared blake3 codec inspected expected id staged limits intent head)
    (hfresh : Fresh blake3 s.texts intent.encoded)
    (hlength : others.length + 1 = head.generation.toNat)
    (hall : ∀ entry ∈ others, entry.head.generation.toNat ≤ others.length ∧ ∃ path text,
      HeadAt blake3 codec s.texts path entry.revision entry.head text) :
    intent.proposedRevision ∉ others.map HistoryEntry.revision := by
  intro hmem
  obtain ⟨entry, hentry, he⟩ := List.mem_map.mp hmem
  obtain ⟨hle, path, text, hat⟩ := hall entry hentry
  have hrevision := hat.revision
  rw [he] at hrevision
  have htext := hfresh path text hat.read (headRevision_digest hrevision hprepared.revision)
  have hparsed := hcodec.parseHead hprepared.encoded
  rw [← htext, hat.parsed, ok.injEq] at hparsed
  rw [hparsed] at hle
  omega

/-- A successful publication reads back exactly when its reader can afford it. -/
theorem Publishes.readsBack_iff (hcodec : codec.Lawful) (hsnapshots : snapshots.Lawful)
    {limits₀ : SyncLimits} (hstaged : Constructed blake3 snapshots limits₀ staged)
    (hfresh : Fresh blake3 s.texts intent.encoded)
    (h : Publishes blake3 codec snapshots decode limits s intent staged t) :
    ReadsBack blake3 codec snapshots limits intent staged t ↔
      WithinReadBudget blake3 codec s.texts intent staged limits := by
  obtain ⟨exchange, expected, id, objects, revision, hprepare, hpublish, rfl⟩ := h
  obtain ⟨-, -, inspected, head, hinspected, hprepared⟩ := preparePublication_eq_ok hprepare
  have hintent := hprepared.intentHead hcodec
  have hfile : snapshotPath head.snapshotDigest = .ok head.snapshotFile := by
    rw [hprepared.snapshotDigest]
    exact hprepared.snapshotFile
  obtain ⟨h, -⟩ | ⟨-, -, hdone⟩ := (publish_steps hintent hfile hinspected).returned hpublish
  · contradiction
  clear hpublish
  generalize (publish blake3 codec snapshots decode exchange intent staged objects limits).final s =
    t at hdone ⊢
  obtain ⟨path, snapshotText, pointerText, hwritten, hinstalled, hpointer⟩ := hdone.selected
  obtain ⟨others, hchain, -, hlength, hmax, hnodup, hall⟩ := hprepared.chain hcodec hinspected
    hwritten.headPath hinstalled.headText hdone.kept
  have hselects : Selects blake3 codec t.texts pointerText path intent.proposedRevision
      (⟨intent.proposedRevision, head⟩ :: others) _ :=
    ⟨hpointer, hcodec.parseCurrent hwritten.pointer, hchain⟩
  have hpointerTo : pointerTo blake3 codec intent limits = .ok pointerText :=
    bind_eq_ok_iff.mpr ⟨head, hintent, bind_eq_ok_iff.mpr ⟨path, hwritten.headPath, hwritten.pointer⟩⟩
  obtain ⟨hcanonical, -⟩ := hstaged.canonical
  constructor
  · rintro ⟨found, hfound, -⟩
    rcases inspectStore_eq_ok.mp hfound with ⟨hnone, -⟩ | ⟨history, selected, rest, snapshot,
      hhistory, hentries, hsnapshot, -⟩
    · rw [hpointer] at hnone
      contradiction
    obtain ⟨revision', bytes, hselects', -, -, hbytes⟩ := inspectHistoryChain_some.mp hhistory
    obtain ⟨htext, -, -, he, hsame⟩ := hselects.unique hselects'
    rw [← htext, ← hsame] at hbytes
    rw [hentries, List.cons.injEq] at he
    obtain ⟨text, hread, -, hjson, -⟩ := readSnapshot_eq_ok.mp hsnapshot
    rw [← he.1, hinstalled.snapshotText, Option.some.injEq] at hread
    subst hread
    obtain ⟨hcanonical', hwithin⟩ := fromJson_sound hjson
    have hstagedSame := toJson_snapshot hsnapshots hcanonical' hcanonical hwithin.encoded
      hwritten.snapshot
    subst hstagedSame
    refine ⟨fun pointerText' h => ?_, hwithin.components, hwithin.manifestToml, hwithin.lockJson⟩
    rw [hpointerTo, ok.injEq] at h
    rwa [← h]
  · intro hwithin
    have hnew := proposed_not_mem hcodec hprepared hfresh hlength hall
    have hhistory : inspectHistoryChain blake3 codec t.texts limits = .ok (some ⟨pointerText, path,
        ⟨intent.proposedRevision, head⟩ :: others⟩) := by
      refine inspectHistoryChain_some.mpr ⟨_, _, hselects, ?_, ?_, hwithin.control _ hpointerTo⟩
      · rw [List.length_cons, hlength]
        exact hmax
      · rw [List.map_cons, List.nodup_cons]
        exact ⟨hnew, hnodup⟩
    obtain ⟨hcatalog, encoded, hencoded, htext, hsize⟩ := toJson_eq_ok.mp hwritten.snapshot
    have hjson : PortableSnapshot.fromJson blake3 snapshots snapshotText limits = .ok staged :=
      fromJson_complete hsnapshots hcanonical ⟨hwithin.components, hwithin.manifestToml,
        hwithin.lockJson, hcatalog, hwritten.snapshot⟩
    have hsnapshot : readSnapshot blake3 snapshots t.texts limits head = .ok staged := by
      refine readSnapshot_eq_ok.mpr ⟨snapshotText, hinstalled.snapshotText, hsize, hjson,
        hprepared.snapshotDigest.symm, hprepared.snapshotFile⟩
    exact ⟨_, inspectStore_eq_ok.mpr (.inr ⟨_, _, others, staged, hhistory, rfl, hsnapshot, rfl⟩), rfl⟩

/-- Each publication reads back exactly when it is within the reader's budget, and a remote
that was only published to within it stays readable. -/
theorem publication_readable (hcodec : codec.Lawful) (hsnapshots : snapshots.Lawful) :
    (∀ limits limits₀ s t intent staged, Constructed blake3 snapshots limits₀ staged →
      Fresh blake3 s.texts intent.encoded →
      Publishes blake3 codec snapshots decode limits s intent staged t →
      (ReadsBack blake3 codec snapshots limits intent staged t ↔
        WithinReadBudget blake3 codec s.texts intent staged limits)) ∧
    ∀ limits s t, ReadableRemote blake3 codec snapshots limits s →
      Relation.ReflTransGen (AffordablePublication blake3 codec snapshots decode limits) s t →
      ReadableRemote blake3 codec snapshots limits t := by
  refine ⟨fun limits limits₀ s t intent staged hstaged hfresh h =>
    h.readsBack_iff hcodec hsnapshots hstaged hfresh, fun limits s t hs hrun => ?_⟩
  cases hrun with
  | refl => exact hs
  | tail _ hstep =>
    obtain ⟨intent, staged, limits₀, hstaged, hfresh, hpublish, hwithin⟩ := hstep
    obtain ⟨inspected, hinspected, -⟩ :=
      (hpublish.readsBack_iff hcodec hsnapshots hstaged hfresh).mpr hwithin
    exact ⟨inspected, hinspected⟩

end Readability

section Sample

def jsonField (name : String) (value : Bytes) : Bytes :=
  ascii "  \"" ++ ascii name ++ ascii "\": " ++ value

def jsonRecord (fields : List Bytes) : Bytes :=
  0x7B :: newline :: (fields.intersperse [0x2C, newline]).flatten ++ [newline, 0x7D]

def jsonOption (value : Option Bytes) : Bytes := value.getD (ascii "null")

def jsonNat (n : Nat) : Bytes := ascii (toString n)

def headJson (head : Head) : Bytes :=
  jsonRecord [jsonField "schema_version" (jsonNat head.schemaVersion.toNat),
    jsonField "publication_id" (jsonText head.publicationId.asStr),
    jsonField "generation" (jsonNat head.generation.toNat),
    jsonField "snapshot_digest" (jsonText head.snapshotDigest.bytes),
    jsonField "snapshot_file" (jsonText head.snapshotFile.bytes),
    jsonField "prior_head_path" (jsonOption (head.priorHeadPath.map fun path => jsonText path.bytes)),
    jsonField "prior_generation" (jsonOption (head.priorGeneration.map fun n => jsonNat n.toNat)),
    jsonField "prior_revision" (jsonText head.priorRevision.bytes)]

def currentJson (current : Current) : Bytes :=
  jsonRecord [jsonField "schema_version" (jsonNat current.schemaVersion.toNat),
    jsonField "head_path" (jsonText current.headPath.bytes),
    jsonField "revision" (jsonText current.revision.bytes)]

def firstHead : Head where
  schemaVersion := 1
  publicationId := ⟨zeroDigest⟩
  generation := 1
  snapshotDigest := SnapshotDigest.ofDigest zeroDigest
  snapshotFile := ⟨snapshotsArea ++ zeroDigest.hex ++ ascii ".json", by decide +kernel,
    by decide +kernel⟩
  priorHeadPath := none
  priorGeneration := none
  priorRevision := absentRevision

def firstCurrent : Current where
  schemaVersion := 1
  headPath := ⟨headsArea ++ zeroPadded 1 ++ ascii "-" ++ zeroDigest.hex ++ ascii ".json",
    by decide +kernel, by decide +kernel⟩
  revision := ⟨ascii "filesystem:head:blake3:" ++ zeroDigest.hex, by decide +kernel,
    by decide +kernel⟩

/-- The JSON library on the control documents of the first publication. -/
def firstControlCodec : ControlCodec where
  encodeCurrent current := if current = firstCurrent then some (currentJson current) else none
  decodeCurrent text :=
    if text = currentJson firstCurrent ++ [newline] then some firstCurrent else none
  encodeHead head := if head = firstHead then some (headJson head) else none
  decodeHead text := if text = headJson firstHead ++ [newline] then some firstHead else none

theorem firstControlCodec_lawful : firstControlCodec.Lawful where
  current value text h := by
    simp only [firstControlCodec] at h ⊢
    split at h
    · rename_i hv
      cases h
      rw [hv, if_pos rfl]
    · contradiction
  head value text h := by
    simp only [firstControlCodec] at h ⊢
    split at h
    · rename_i hv
      cases h
      rw [hv, if_pos rfl]
    · contradiction

def emptySnapshot : PortableSnapshot where
  manifest := ⟨∅, ∅, ∅, ∅⟩
  manifestToml := sampleEnvelope.manifestToml
  manifestRevision := sampleEnvelope.manifestRevision
  lockfile := ⟨∅, ∅⟩
  lockJson := sampleEnvelope.lockJson
  lockDigest := sampleEnvelope.lockDigest
  objects := ∅
  snapshotDigest := sampleEnvelope.snapshotDigest

def emptyRemote : RemoteStore := ⟨fun _ => none, fun _ => none⟩

def firstIntent : PublicationIntent := ⟨headJson firstHead ++ [newline], firstCurrent.revision⟩

def publishFirst (limits : SyncLimits) : RemoteProgram PublicationStatus :=
  publish (fun _ => zeroDigest) firstControlCodec sampleCodec (fun _ _ _ => none) true firstIntent
    emptySnapshot [] limits

/-- Limits that admit the pointer and each head, but not both of them together. -/
def tightLimits : SyncLimits :=
  { SyncLimits.default with
    maxControlBytes := 600
    nonzero := by decide +kernel }

/-- A publication that succeeds under limits under which the remote can no longer be read. -/
theorem publication_unreadable :
    firstControlCodec.Lawful ∧
    preparePublication (fun _ => zeroDigest) firstControlCodec sampleCodec emptyRemote.texts
      absentRevision ⟨zeroDigest⟩ emptySnapshot [] tightLimits = .ok firstIntent ∧
    (publishFirst tightLimits emptyRemote).result = .ok (.published firstIntent.proposedRevision) ∧
    inspectStore (fun _ => zeroDigest) firstControlCodec sampleCodec
      ((publishFirst tightLimits).final emptyRemote).texts tightLimits =
        .error controlBudgetExceeded :=
  ⟨firstControlCodec_lawful, by decide +kernel⟩

theorem publication_readable_sample :
    ReadsBack (fun _ => zeroDigest) firstControlCodec sampleCodec .default firstIntent emptySnapshot
      ((publishFirst .default).final emptyRemote) := by
  have hstaged : PortableSnapshot.new (fun _ => zeroDigest) sampleCodec ⟨∅, ∅, ∅, ∅⟩ ∅ .default =
      .ok emptySnapshot := by decide +kernel
  have hpublishes : Publishes (fun _ => zeroDigest) firstControlCodec sampleCodec
      (fun _ _ _ => none) .default emptyRemote firstIntent emptySnapshot
      ((publishFirst .default).final emptyRemote) :=
    ⟨true, absentRevision, ⟨zeroDigest⟩, [], firstIntent.proposedRevision, by decide +kernel,
      by decide +kernel, rfl⟩
  refine ((publication_readable firstControlCodec_lawful sampleCodec_lawful).1 .default .default
    emptyRemote _ firstIntent emptySnapshot (.inl ⟨_, _, hstaged⟩) (fun _ _ h => nomatch h)
    hpublishes).mpr ⟨fun pointerText h => ?_, by decide +kernel, by decide +kernel,
      by decide +kernel⟩
  have hpointer : pointerTo (fun _ => zeroDigest) firstControlCodec firstIntent .default =
      .ok (currentJson firstCurrent ++ [newline]) := by decide +kernel
  rw [hpointer, ok.injEq] at h
  subst h
  decide +kernel

end Sample

end Kitrove
