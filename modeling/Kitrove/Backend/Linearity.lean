import Kitrove.Backend.Availability
import Kitrove.Backend.Readability
import Kitrove.Crash.Recovery

/-! The history of a filesystem remote over any sequence of client sessions, each of which
may stop at any step. -/

namespace Kitrove

open Crash Except BackendError

section Runs

variable (blake3 : Bytes → Digest) (codec : ControlCodec) (snapshots : SnapshotCodec)
  (decode : ObjectDecoder)

/-- The revisions that a remote selects, the newest first. -/
def History (texts : Files) (revisions : List RemoteRevision) : Prop :=
  texts pointerPath = none ∧ revisions = [] ∨
    ∃ pointerText path revision entries bytes,
      Selects blake3 codec texts pointerText path revision entries bytes ∧
      revisions = entries.map HistoryEntry.revision

/-- The revision that a history ends in. -/
def headOf (revisions : List RemoteRevision) : RemoteRevision :=
  revisions.head?.getD absentRevision

/-- A client that is about to publish what it prepared. -/
structure Session where
  exchange : Bool
  intent : PublicationIntent
  staged : PortableSnapshot
  objects : List VerifiedObjectEnvelope
  limits : SyncLimits

namespace Session

variable (session : Session)

def program : RemoteProgram PublicationStatus :=
  publish blake3 codec snapshots decode session.exchange session.intent session.staged
    session.objects session.limits

def status (s : RemoteStore) : Except BackendError PublicationStatus :=
  reconcile blake3 codec snapshots s.texts session.intent session.limits

def PreparedAt (s : RemoteStore) : Prop :=
  ∃ expected id, preparePublication blake3 codec snapshots s.texts expected id session.staged
    session.objects session.limits = .ok session.intent

/-- Whether a session stopped between taking the old pointer away and putting the new one in
place, which only the variant without atomic exchange does. -/
def Displaced (s t : RemoteStore) : Prop :=
  session.exchange = false ∧ s.texts pointerPath ≠ none ∧ t.texts pointerPath = none

/-- Whether everything that the session's publication writes has room. -/
def HasRoom (s : RemoteStore) : Prop :=
  ∃ head stage path snapshotText pointerText,
    intentHead blake3 codec session.intent session.limits = .ok head ∧
    PublicationRoom blake3 codec snapshots decode session.intent session.staged session.objects
      session.limits head s stage path snapshotText pointerText

end Session

/-- No two texts of a remote and a new head have the same digest. -/
def CollisionFree (texts : Files) (encoded : Bytes) : Prop :=
  ∀ text text', (text = encoded ∨ ∃ path, texts path = some text) →
    (text' = encoded ∨ ∃ path, texts path = some text') → blake3 text = blake3 text' → text = text'

/-- The states that clients leave one after the other, the newest first: each client has
prepared its publication on some earlier state and stops at some step, though not while the
pointer is displaced. -/
inductive RemoteRun : List RemoteStore → RemoteStore → Prop
  | start : RemoteRun [] emptyRemote
  | session {past : List RemoteStore} {s s₀ : RemoteStore} {session : Session}
      {visited : List RemoteStore} : RemoteRun past s → s₀ ∈ s :: past →
      session.PreparedAt blake3 codec snapshots s₀ →
      CollisionFree blake3 s.texts session.intent.encoded →
      (session.program blake3 codec snapshots decode).Interrupted s visited →
      ¬ session.Displaced s (visited.getLastD s) →
      RemoteRun (s :: past) (visited.getLastD s)

end Runs

section History

variable {blake3 : Bytes → Digest} {codec : ControlCodec} {snapshots : SnapshotCodec}
  {decode : ObjectDecoder} {texts : Files} {limits : SyncLimits} {inspected : Inspected}
  {revisions revisions' : List RemoteRevision} {s t : RemoteStore}

theorem History.unique (h : History blake3 codec texts revisions)
    (h' : History blake3 codec texts revisions') : revisions = revisions' := by
  rcases h with ⟨hnone, rfl⟩ | ⟨_, _, _, _, _, hselects, rfl⟩ <;>
    rcases h' with ⟨hnone', rfl⟩ | ⟨_, _, _, _, _, hselects', rfl⟩
  · rfl
  · rw [hselects'.read] at hnone
    contradiction
  · rw [hselects.read] at hnone'
    contradiction
  · rw [(hselects.unique hselects').2.2.2.1]

theorem inspectStore_history
    (h : inspectStore blake3 codec snapshots texts limits = .ok inspected) :
    History blake3 codec texts inspected.history ∧
      inspected.remote.revision = headOf inspected.history := by
  by_cases habsent : texts pointerPath = none
  · rcases inspectStore_eq_ok.mp h with ⟨-, rfl⟩ | ⟨history, _, _, _, hchain, -⟩
    · exact ⟨.inl ⟨habsent, rfl⟩, rfl⟩
    · have hnone : inspectHistoryChain blake3 codec texts limits = .ok none :=
        inspectHistoryChain_none.mpr habsent
      simp [hnone] at hchain
  · obtain ⟨history, selected, others, bytes, hselects, -, -, hrevision, -, -, hhistory⟩ :=
      inspectStore_revision (s := ⟨texts, fun _ => none⟩) habsent h
    refine ⟨.inr ⟨_, _, _, _, _, hselects, hhistory⟩, ?_⟩
    rw [hhistory, hrevision]
    rfl

/-- The same pointer over kept heads selects the same history. -/
theorem History.keep (h : History blake3 codec s.texts revisions) (hkept : KeepsImmutable s t)
    (hpointer : t.texts pointerPath = s.texts pointerPath) :
    History blake3 codec t.texts revisions := by
  rcases h with ⟨hnone, rfl⟩ | ⟨pointerText, path, revision, entries, bytes, hselects, rfl⟩
  · exact .inl ⟨hpointer.trans hnone, rfl⟩
  · exact .inr ⟨pointerText, path, revision, entries, bytes,
      ⟨hpointer.trans hselects.read, hselects.pointer, hselects.chain.keep hkept⟩, rfl⟩

theorem Chain.headAt {path : PortablePath} {revision : RemoteRevision} {child : Option Head}
    {entry : HistoryEntry} {others : List HistoryEntry} {bytes : Nat}
    (h : Chain blake3 codec texts child path revision (entry :: others) bytes) :
    ∃ text, HeadAt blake3 codec texts path revision entry.head text := by
  cases h with
  | first hat _ _ => exact ⟨_, hat⟩
  | next hat _ _ _ => exact ⟨_, hat⟩

theorem headRevision_ne_absent {text : Bytes} {revision : RemoteRevision}
    (h : headRevision blake3 text = .ok revision) : revision ≠ absentRevision := by
  rintro rfl
  have hbytes := congrArg (List.take 15) (headRevision_bytes h)
  rw [List.take_append_of_le_length (by decide)] at hbytes
  exact absurd hbytes (by decide +kernel)

/-- Two inspections of a remote that kept its heads see the same head under one revision. -/
theorem inspectStore_same {i₀ i : Inspected} {encoded : Bytes} (hkept : KeepsImmutable s t)
    (hfree : CollisionFree blake3 t.texts encoded)
    (h₀ : inspectStore blake3 codec snapshots s.texts limits = .ok i₀)
    (h : inspectStore blake3 codec snapshots t.texts limits = .ok i)
    (hrevision : i₀.remote.revision = i.remote.revision) :
    i₀.head = i.head ∧ i₀.headPath = i.headPath := by
  have hsome : ∀ {u : RemoteStore} {i : Inspected},
      inspectStore blake3 codec snapshots u.texts limits = .ok i →
      (i = absentRemote ∧ i.remote.revision = absentRevision) ∨
        ∃ head path text, HeadAt blake3 codec u.texts path i.remote.revision head text ∧
          i.head = some head ∧ i.headPath = some path := by
    intro u i h
    by_cases habsent : u.texts pointerPath = none
    · rcases inspectStore_eq_ok.mp h with ⟨-, rfl⟩ | ⟨history, _, _, _, hchain, -⟩
      · exact .inl ⟨rfl, rfl⟩
      · have hnone : inspectHistoryChain blake3 codec u.texts limits = .ok none :=
          inspectHistoryChain_none.mpr habsent
        simp [hnone] at hchain
    · obtain ⟨history, selected, others, bytes, hselects, -, -, hr, hhead, hpath, -⟩ :=
        inspectStore_revision habsent h
      obtain ⟨text, hat⟩ := hselects.chain.headAt
      rw [hr]
      exact .inr ⟨selected.head, history.headPath, text, hat, hhead, hpath⟩
  rcases hsome h₀ with ⟨rfl, ha₀⟩ | ⟨head₀, path₀, text₀, hat₀, hhead₀, hpath₀⟩ <;>
    rcases hsome h with ⟨rfl, ha⟩ | ⟨head, path, text, hat, hhead, hpath⟩
  · exact ⟨rfl, rfl⟩
  · rw [← hrevision, ha₀] at hat
    exact absurd rfl (headRevision_ne_absent hat.revision)
  · rw [hrevision, ha] at hat₀
    exact absurd rfl (headRevision_ne_absent hat₀.revision)
  · have hat₁ := hat₀.keep hkept
    rw [hrevision] at hat₁
    have htext := hfree _ _ (.inr ⟨_, hat₁.read⟩) (.inr ⟨_, hat.read⟩)
      (headRevision_digest hat₁.revision hat.revision)
    subst htext
    have hparsed := hat₁.parsed
    rw [hat.parsed, ok.injEq] at hparsed
    subst hparsed
    have hsame := hat₁.path
    rw [hat.path, ok.injEq] at hsame
    rw [hhead₀, hhead, hpath₀, hpath, hsame]
    exact ⟨rfl, rfl⟩

theorem KeepsImmutable.refl (s : RemoteStore) : KeepsImmutable s s := fun _ _ _ h => h

theorem CollisionFree.fresh {encoded : Bytes} (h : CollisionFree blake3 texts encoded) :
    Fresh blake3 texts encoded :=
  fun path text htext hsame => h text encoded (.inr ⟨path, htext⟩) (.inl rfl) hsame

/-- An intent that was prepared on the same head is one prepared now. -/
theorem Prepared.now {i₀ i : Inspected} {expected : RemoteRevision} {id : PublicationId}
    {staged : PortableSnapshot} {intent : PublicationIntent} {head : Head} {encoded : Bytes}
    (hkept : KeepsImmutable s t) (hfree : CollisionFree blake3 t.texts encoded)
    (h₀ : inspectStore blake3 codec snapshots s.texts limits = .ok i₀)
    (h : inspectStore blake3 codec snapshots t.texts limits = .ok i)
    (hprepared : Prepared blake3 codec i₀ expected id staged limits intent head)
    (hcurrent : i.remote.revision = head.priorRevision) :
    Prepared blake3 codec i expected id staged limits intent head := by
  have hexpected : i.remote.revision = expected := hcurrent.trans hprepared.priorRevision
  obtain ⟨hhead, hpath⟩ := inspectStore_same hkept hfree h₀ h
    (hprepared.current.trans hexpected.symm)
  have hnext := hprepared.next
  unfold nextGeneration at hnext
  rw [hhead, hpath] at hnext
  exact { hprepared with current := hexpected, next := hnext }

end History

section Sessions

variable {blake3 : Bytes → Digest} {codec : ControlCodec} {snapshots : SnapshotCodec}
  {decode : ObjectDecoder} {session : Session} {s s₀ : RemoteStore} {visited : List RemoteStore}
  {head : Head} {inspected : Inspected} {past : List RemoteStore}

/-- What a session leaves at whatever step it stops. -/
structure Stopped (blake3 : Bytes → Digest) (codec : ControlCodec) (snapshots : SnapshotCodec)
    (session : Session) (head : Head) (current : RemoteRevision) (s t : RemoteStore) : Prop where
  kept : KeepsImmutable s t
  pointer : t.texts pointerPath = s.texts pointerPath ∨ session.Displaced s t ∨
    current = head.priorRevision ∧ ∃ path snapshotText pointerText,
      Written blake3 codec snapshots session.intent session.staged session.limits head path
        snapshotText pointerText ∧
      Installed session.intent head path snapshotText t.texts ∧
      t.texts pointerPath = some pointerText

theorem Stopped.step {current : RemoteRevision} {t u : RemoteStore}
    (hfile : snapshotPath head.snapshotDigest = .ok head.snapshotFile)
    (hstep : PublishStep blake3 codec snapshots session.exchange session.intent session.staged
      session.limits head (s.texts pointerPath) current t u)
    (h : Stopped blake3 codec snapshots session head current s t) :
    Stopped blake3 codec snapshots session head current s u := by
  refine ⟨h.kept.trans hstep.kept, ?_⟩
  rcases hstep.pointer with hsame | ⟨hcurrent, path, snapshotText, pointerText, hwritten,
    hinstalled, ⟨-, hnew⟩ | ⟨hexchange, hold, -, hnone⟩ | ⟨-, -, hnew⟩⟩
  · rcases h.pointer with hp | ⟨hexchange, hold, hnone⟩ | ⟨hcurrent, path, snapshotText,
      pointerText, hwritten, hinstalled, hnew⟩
    · exact .inl (hsame.trans hp)
    · exact .inr (.inl ⟨hexchange, hold, hsame.trans hnone⟩)
    · refine .inr (.inr ⟨hcurrent, path, snapshotText, pointerText, hwritten, ?_,
        hsame.trans hnew⟩)
      exact ⟨hstep.kept _ (immutable_headPath hwritten.headPath) _ hinstalled.headText,
        hstep.kept _ (immutable_snapshotPath hfile) _ hinstalled.snapshotText⟩
  · exact .inr (.inr ⟨hcurrent, path, snapshotText, pointerText, hwritten, hinstalled, hnew⟩)
  · exact .inr (.inl ⟨hexchange, hold, hnone⟩)
  · exact .inr (.inr ⟨hcurrent, path, snapshotText, pointerText, hwritten, hinstalled, hnew⟩)

theorem Session.stopped
    (hintent : intentHead blake3 codec session.intent session.limits = .ok head)
    (hfile : snapshotPath head.snapshotDigest = .ok head.snapshotFile)
    (hinspected : inspectStore blake3 codec snapshots s.texts session.limits = .ok inspected)
    (h : (session.program blake3 codec snapshots decode).Interrupted s visited) :
    Stopped blake3 codec snapshots session head inspected.remote.revision s
      (visited.getLastD s) := by
  have hchain := Program.Upholds.interrupted (publish_steps hintent hfile hinspected) h
  exact getLastD_of_stable (hchain.imp fun _ _ hstep => Stopped.step hfile hstep)
    List.mem_cons_self ⟨KeepsImmutable.refl s, .inl rfl⟩

/-- Nothing is published over a remote that cannot be read. -/
theorem Session.unreadable {e : BackendError}
    (hinspected : inspectStore blake3 codec snapshots s.texts session.limits = .error e)
    (h : (session.program blake3 codec snapshots decode).Interrupted s visited) : visited = [] := by
  have hsteps : (session.program blake3 codec snapshots decode).Upholds (fun _ _ => False)
      (fun _ _ => True) (fun _ _ => True) s := by
    unfold Session.program publish
    rw [Program.bind_upholds]
    cases intentHead blake3 codec session.intent session.limits with
    | error e => simp
    | ok head =>
      rw [Program.ofExcept_ok_upholds, Program.bind_upholds, Program.require_upholds]
      split
      · rw [Program.bind_upholds, Program.inspect_upholds, Program.bind_upholds, id_eq, hinspected]
        simp
      · trivial
  have hchain := hsteps.interrupted h
  cases visited with
  | nil => rfl
  | cons t rest =>
    rw [List.isChain_cons_cons] at hchain
    exact hchain.1.elim

theorem Session.PreparedAt.eq_ok (h : session.PreparedAt blake3 codec snapshots s) :
    requireSupplied session.staged session.objects = .ok () ∧
      validateObjectBudget session.objects session.limits = .ok () ∧
      ∃ expected id inspected head,
        inspectStore blake3 codec snapshots s.texts session.limits = .ok inspected ∧
        Prepared blake3 codec inspected expected id session.staged session.limits session.intent
          head := by
  obtain ⟨expected, id, hprepare⟩ := h
  obtain ⟨hsupplied, hbudget, inspected, head, hinspected, hprepared⟩ :=
    preparePublication_eq_ok hprepare
  exact ⟨hsupplied, hbudget, expected, id, inspected, head, hinspected, hprepared⟩

/-- Over the planned head the session's head extends the history by itself. -/
theorem Prepared.extends {i : Inspected} {expected : RemoteRevision} {id : PublicationId}
    {t : RemoteStore} {path : PortablePath} {snapshotText pointerText : Bytes}
    (hcodec : codec.Lawful)
    (hinspected : inspectStore blake3 codec snapshots s.texts session.limits = .ok i)
    (hprepared : Prepared blake3 codec i expected id session.staged session.limits session.intent
      head)
    (hwritten : Written blake3 codec snapshots session.intent session.staged session.limits head
      path snapshotText pointerText)
    (hinstalled : Installed session.intent head path snapshotText t.texts)
    (hpointer : t.texts pointerPath = some pointerText) (hkept : KeepsImmutable s t) :
    History blake3 codec t.texts (session.intent.proposedRevision :: i.history) := by
  obtain ⟨others, hchain, hothers, -⟩ := hprepared.chain hcodec hinspected hwritten.headPath
    hinstalled.headText hkept
  exact .inr ⟨pointerText, path, session.intent.proposedRevision, _, _,
    ⟨hpointer, hcodec.parseCurrent hwritten.pointer, hchain⟩, congrArg _ hothers.symm⟩

/-- A session that does not stop while the pointer is displaced keeps the history or extends
it by its own revision. -/
theorem Session.keeps_history (hcodec : codec.Lawful) {revisions : List RemoteRevision}
    (hprepared : session.PreparedAt blake3 codec snapshots s₀) (hkept₀ : KeepsImmutable s₀ s)
    (hfree : CollisionFree blake3 s.texts session.intent.encoded)
    (hhistory : History blake3 codec s.texts revisions)
    (hrun : (session.program blake3 codec snapshots decode).Interrupted s visited)
    (hplace : ¬ session.Displaced s (visited.getLastD s)) :
    KeepsImmutable s (visited.getLastD s) ∧
      ∃ newer, History blake3 codec (visited.getLastD s).texts newer ∧
        (newer = revisions ∨ newer = session.intent.proposedRevision :: revisions) := by
  obtain ⟨-, -, expected, id, i₀, head, hinspected₀, hprepared⟩ := hprepared.eq_ok
  have hfile : snapshotPath head.snapshotDigest = .ok head.snapshotFile := by
    rw [hprepared.snapshotDigest]
    exact hprepared.snapshotFile
  cases hinspected : inspectStore blake3 codec snapshots s.texts session.limits with
  | error e =>
    rw [Session.unreadable hinspected hrun]
    exact ⟨KeepsImmutable.refl s, revisions, hhistory, .inl rfl⟩
  | ok i =>
    have hstopped := Session.stopped (hprepared.intentHead hcodec) hfile hinspected hrun
    refine ⟨hstopped.kept, ?_⟩
    rcases hstopped.pointer with hsame | hdisplaced | ⟨hcurrent, path, snapshotText, pointerText,
      hwritten, hinstalled, hpointer⟩
    · exact ⟨revisions, hhistory.keep hstopped.kept hsame, .inl rfl⟩
    · exact (hplace hdisplaced).elim
    · have hnow := hprepared.now hkept₀ hfree hinspected₀ hinspected hcurrent
      have hsame := (inspectStore_history hinspected).1.unique hhistory
      exact ⟨_, hnow.extends hcodec hinspected hwritten hinstalled hpointer hstopped.kept,
        .inr (congrArg _ hsame)⟩

/-- Whether a remote stands after another one: its immutable files and its history are
among those that are there now. -/
structure Extends (blake3 : Bytes → Digest) (codec : ControlCodec) (older newer : RemoteStore) :
    Prop where
  kept : KeepsImmutable older newer
  history : ∀ revisions, History blake3 codec newer.texts revisions →
    ∃ prior, History blake3 codec older.texts prior ∧ prior <:+ revisions

theorem RemoteRun.extends (hcodec : codec.Lawful) (h : RemoteRun blake3 codec snapshots decode past s) :
    (∃ revisions, History blake3 codec s.texts revisions) ∧
      ∀ older ∈ s :: past, Extends blake3 codec older s := by
  induction h with
  | start =>
    refine ⟨⟨[], .inl ⟨rfl, rfl⟩⟩, ?_⟩
    rintro older hmem
    obtain rfl := List.mem_singleton.mp hmem
    exact ⟨KeepsImmutable.refl _, fun revisions h => ⟨revisions, h, List.suffix_refl _⟩⟩
  | @session past s s₀ session visited hrun hmem hprepared hfree hinterrupted hplace ih =>
    obtain ⟨⟨revisions, hhistory⟩, hextends⟩ := ih
    obtain ⟨hkept, newer, hnewer, hcases⟩ := Session.keeps_history hcodec hprepared
      (hextends s₀ hmem).kept hfree hhistory hinterrupted hplace
    have hsuffix : revisions <:+ newer := by
      rcases hcases with rfl | rfl
      · exact List.suffix_refl _
      · exact List.suffix_cons _ _
    refine ⟨⟨newer, hnewer⟩, fun older holder => ?_⟩
    rcases List.mem_cons.mp holder with rfl | holder
    · exact ⟨KeepsImmutable.refl _, fun revisions h => ⟨revisions, h, List.suffix_refl _⟩⟩
    · refine ⟨(hextends older holder).kept.trans hkept, fun found hfound => ?_⟩
      obtain ⟨prior, hprior, hle⟩ := (hextends older holder).history revisions hhistory
      rw [hfound.unique hnewer]
      exact ⟨prior, hprior, hle.trans hsuffix⟩

/-- The generations of a chain count down to one. -/
theorem Chain.countdown {texts : Files} {child : Option Head} {path : PortablePath}
    {revision : RemoteRevision} {entries : List HistoryEntry} {bytes : Nat}
    (h : Chain blake3 codec texts child path revision entries bytes) :
    entries.map (fun entry => entry.head.generation.toNat) =
      (List.range' 1 entries.length).reverse := by
  induction h with
  | first hat hlinked hprior =>
    rw [List.map_singleton, (priorOf_none hprior).1]
    rfl
  | next hat hlinked hprior hrest ih =>
    obtain ⟨head, rest, he, hlength, -⟩ := (Chain.next hat hlinked hprior hrest).generations
    rw [List.cons.injEq, HistoryEntry.mk.injEq] at he
    rw [← he.1.2] at hlength
    rw [List.map_cons, ih, List.length_cons, List.range'_concat, List.reverse_append, hlength,
      List.length_cons, Nat.add_comm]
    simp

/-- The heads before the one that is prepared. -/
theorem Prepared.before {i : Inspected} {expected : RemoteRevision} {id : PublicationId}
    (hinspected : inspectStore blake3 codec snapshots s.texts session.limits = .ok i)
    (hprepared : Prepared blake3 codec i expected id session.staged session.limits session.intent
      head) :
    ∃ entries : List HistoryEntry, entries.map HistoryEntry.revision = i.history ∧
      entries.length + 1 = head.generation.toNat ∧
      ∀ entry ∈ entries, entry.head.generation.toNat ≤ entries.length ∧ ∃ path text,
        HeadAt blake3 codec s.texts path entry.revision entry.head text := by
  have hnext := hprepared.next
  unfold nextGeneration at hnext
  by_cases habsent : s.texts pointerPath = none
  · rcases inspectStore_eq_ok.mp hinspected with ⟨-, rfl⟩ | ⟨history, -, -, -, hchain, -⟩
    · simp only [absentRemote, ok.injEq, Prod.mk.injEq] at hnext
      rw [← hnext.1]
      exact ⟨[], rfl, rfl, by simp⟩
    · have hnone : inspectHistoryChain blake3 codec s.texts session.limits = .ok none :=
        inspectHistoryChain_none.mpr habsent
      simp [hnone] at hchain
  · obtain ⟨history, selected, others, bytes, hselects, -, -, -, hhead, -, hhistory⟩ :=
      inspectStore_revision habsent hinspected
    obtain ⟨below, rest, he, hlength, hall⟩ := hselects.chain.generations
    rw [List.cons.injEq] at he
    refine ⟨selected :: others, hhistory.symm, ?_, hall⟩
    simp only [hhead] at hnext
    cases hsucc : checkedSucc selected.head.generation with
    | none => simp [hsucc] at hnext
    | some generation =>
      simp only [hsucc] at hnext
      obtain ⟨-, hnext⟩ := refuseIf_bind_eq_ok.mp hnext
      simp only [pure_eq_ok_iff, Prod.mk.injEq] at hnext
      rw [checkedSucc_eq_some, he.1] at hsucc
      rw [← hnext.1, ← hsucc, hlength]

theorem Session.status_eq
    (hintent : intentHead blake3 codec session.intent session.limits = .ok head)
    (hinspected : inspectStore blake3 codec snapshots s.texts session.limits = .ok inspected) :
    session.status blake3 codec snapshots s =
      if session.intent.proposedRevision ∈ inspected.history then
        .ok (.published session.intent.proposedRevision)
      else if inspected.remote.revision = head.priorRevision then .ok .ready
      else .ok .uncertain := by
  unfold Session.status reconcile
  rw [hintent, hinspected]
  simp only [Bind.bind, Except.bind, List.contains_iff_mem]
  rfl

/-- A remote that can be read answers published exactly for the revisions of its history, and
ready exactly for the intents that follow its head. -/
theorem Session.answers (hcodec : codec.Lawful) {revisions : List RemoteRevision}
    (hprepared : session.PreparedAt blake3 codec snapshots s₀) (hkept : KeepsImmutable s₀ s)
    (hfree : CollisionFree blake3 s.texts session.intent.encoded)
    (hhistory : History blake3 codec s.texts revisions)
    (hintent : intentHead blake3 codec session.intent session.limits = .ok head)
    (hreadable : ReadableRemote blake3 codec snapshots session.limits s) :
    (session.status blake3 codec snapshots s = .ok (.published session.intent.proposedRevision) ↔
      session.intent.proposedRevision ∈ revisions) ∧
    (session.status blake3 codec snapshots s = .ok .ready ↔
      head.priorRevision = headOf revisions) := by
  obtain ⟨-, -, expected, id, i₀, head', hinspected₀, hprepared⟩ := hprepared.eq_ok
  have hsame := hprepared.intentHead hcodec
  rw [hintent, ok.injEq] at hsame
  subst hsame
  obtain ⟨i, hinspected⟩ := hreadable
  obtain ⟨hselected, hrevision⟩ := inspectStore_history hinspected
  obtain rfl := hselected.unique hhistory
  rw [Session.status_eq hintent hinspected, ← hrevision, eq_comm (a := head.priorRevision)]
  by_cases hmem : session.intent.proposedRevision ∈ i.history
  · have hprior : i.remote.revision ≠ head.priorRevision := by
      intro hcurrent
      have hnow := hprepared.now hkept hfree hinspected₀ hinspected hcurrent
      obtain ⟨entries, hentries, hlength, hall⟩ := hnow.before hinspected
      rw [← hentries] at hmem
      exact proposed_not_mem hcodec hnow hfree.fresh hlength hall hmem
    simp [hmem, hprior]
  · by_cases hprior : i.remote.revision = head.priorRevision
    · simp [hmem, hprior]
    · simp [hmem, hprior]

/-- Publishing an intent that is ready succeeds where there is room. -/
theorem Session.succeeds (hcodec : codec.Lawful)
    (hprepared : session.PreparedAt blake3 codec snapshots s₀)
    (hready : session.status blake3 codec snapshots s = .ok .ready)
    (hroom : session.HasRoom blake3 codec snapshots decode s) :
    (session.program blake3 codec snapshots decode s).result =
      .ok (.published session.intent.proposedRevision) := by
  obtain ⟨hsupplied, hbudget, expected, id, i₀, head, hinspected₀, hprepared⟩ := hprepared.eq_ok
  have hintent := hprepared.intentHead hcodec
  have hfile : snapshotPath head.snapshotDigest = .ok head.snapshotFile := by
    rw [hprepared.snapshotDigest]
    exact hprepared.snapshotFile
  obtain ⟨head', stage, path, snapshotText, pointerText, hintent', hroom⟩ := hroom
  rw [hintent, ok.injEq] at hintent'
  subst hintent'
  cases hinspected : inspectStore blake3 codec snapshots s.texts session.limits with
  | error e =>
    unfold Session.status reconcile at hready
    rw [hintent, hinspected] at hready
    simp only [Bind.bind, Except.bind, pure_eq_ok_iff] at hready
    contradiction
  | ok i =>
    rw [Session.status_eq hintent hinspected] at hready
    have hcurrent : i.remote.revision = head.priorRevision := by
      by_contra hne
      rw [if_neg hne] at hready
      split at hready
      · simp at hready
      · simp at hready
    have hsucceeds : (session.program blake3 codec snapshots decode).Upholds (fun _ _ => True)
        (fun status _ => status = .published session.intent.proposedRevision)
        (fun _ _ => False) s :=
      publish_succeeds hintent hprepared.snapshotDigest hfile hsupplied hbudget hinspected hcurrent
        hroom
    obtain ⟨status, hresult, rfl⟩ := hsucceeds.returns
    exact hresult

/-- An intent that does not follow the head never moves the pointer. -/
theorem Session.stale (hcodec : codec.Lawful) {revisions : List RemoteRevision}
    (hprepared : session.PreparedAt blake3 codec snapshots s₀)
    (hhistory : History blake3 codec s.texts revisions)
    (hintent : intentHead blake3 codec session.intent session.limits = .ok head)
    (hstale : head.priorRevision ≠ headOf revisions)
    (hrun : (session.program blake3 codec snapshots decode).Interrupted s visited) :
    ∀ t ∈ visited, t.texts pointerPath = s.texts pointerPath := by
  obtain ⟨-, -, expected, id, i₀, head', hinspected₀, hprepared⟩ := hprepared.eq_ok
  have hsame := hprepared.intentHead hcodec
  rw [hintent, ok.injEq] at hsame
  subst hsame
  have hfile : snapshotPath head.snapshotDigest = .ok head.snapshotFile := by
    rw [hprepared.snapshotDigest]
    exact hprepared.snapshotFile
  cases hinspected : inspectStore blake3 codec snapshots s.texts session.limits with
  | error e =>
    rw [Session.unreadable hinspected hrun]
    exact fun _ h => nomatch h
  | ok i =>
    obtain ⟨hselected, hrevision⟩ := inspectStore_history hinspected
    obtain rfl := hselected.unique hhistory
    intro t ht
    obtain ⟨before, after, rfl⟩ := List.append_of_mem ht
    have hstarts : (session.program blake3 codec snapshots decode).Interrupted s
        (before ++ [t]) := by
      refine List.IsPrefix.trans ?_ hrun
      exact ⟨after, by simp⟩
    have hchain := Program.Upholds.interrupted (publish_steps hintent hfile hinspected) hstarts
    have hkeeps := getLastD_of_stable (I := fun u => u.texts pointerPath = s.texts pointerPath)
      (hchain.imp fun u v hstep hu => ?_) List.mem_cons_self rfl
    · rwa [getLastD_append] at hkeeps
    · rcases hstep.pointer with hsame | ⟨hcurrent, -⟩
      · exact hsame.trans hu
      · exact absurd (hcurrent.symm.trans hrevision) hstale

end Sessions

section Results

variable {blake3 : Bytes → Digest} {codec : ControlCodec} {snapshots : SnapshotCodec}
  {decode : ObjectDecoder}

/-- Over every run in which no session stops while the pointer is displaced, the selected
history only grows and its generations are linked; a remote that can be read tells published
and ready intents exactly; a ready intent is published where there is room; and an intent on
a stale head never moves the pointer. -/
theorem history_linear (hcodec : codec.Lawful) {past : List RemoteStore} {s : RemoteStore}
    (hrun : RemoteRun blake3 codec snapshots decode past s) :
    (∃ revisions, History blake3 codec s.texts revisions ∧ ∀ older ∈ past, ∃ prior,
      History blake3 codec older.texts prior ∧ prior <:+ revisions) ∧
    (∀ pointerText path revision (entries : List HistoryEntry) bytes,
      Selects blake3 codec s.texts pointerText path revision entries bytes →
      entries.map (fun entry => entry.head.generation.toNat) =
        (List.range' 1 entries.length).reverse) ∧
    ∀ (session : Session) (s₀ : RemoteStore), s₀ ∈ s :: past →
      session.PreparedAt blake3 codec snapshots s₀ →
      CollisionFree blake3 s.texts session.intent.encoded →
      ∃ head, intentHead blake3 codec session.intent session.limits = .ok head ∧
        ∀ revisions, History blake3 codec s.texts revisions →
        (ReadableRemote blake3 codec snapshots session.limits s →
          (session.status blake3 codec snapshots s =
              .ok (.published session.intent.proposedRevision) ↔
            session.intent.proposedRevision ∈ revisions) ∧
          (session.status blake3 codec snapshots s = .ok .ready ↔
            head.priorRevision = headOf revisions)) ∧
        (session.status blake3 codec snapshots s = .ok .ready →
          session.HasRoom blake3 codec snapshots decode s →
          (session.program blake3 codec snapshots decode s).result =
            .ok (.published session.intent.proposedRevision)) ∧
        (head.priorRevision ≠ headOf revisions → ∀ visited,
          (session.program blake3 codec snapshots decode).Interrupted s visited →
          ∀ t ∈ visited, t.texts pointerPath = s.texts pointerPath) := by
  obtain ⟨⟨revisions, hhistory⟩, hextends⟩ := hrun.extends hcodec
  refine ⟨⟨revisions, hhistory, fun older holder => ?_⟩, fun _ _ _ _ _ hselects =>
    hselects.chain.countdown, fun session s₀ hmem hprepared hfree => ?_⟩
  · exact (hextends older (List.mem_cons_of_mem _ holder)).history revisions hhistory
  · obtain ⟨-, -, expected, id, i₀, head, -, hprepared'⟩ := hprepared.eq_ok
    have hintent := hprepared'.intentHead hcodec
    refine ⟨head, hintent, fun revisions hhistory => ⟨fun hreadable => ?_, fun hready hroom => ?_,
      fun hstale visited hvisited => ?_⟩⟩
    · exact Session.answers hcodec hprepared (hextends s₀ hmem).kept hfree hhistory hintent hreadable
    · exact Session.succeeds hcodec hprepared hready hroom
    · exact Session.stale hcodec hprepared hhistory hintent hstale hvisited

end Results

section Sample

def oneDigest : Digest := ⟨List.replicate 64 0x31, validDigest_ones⟩

def secondHead : Head where
  schemaVersion := 1
  publicationId := ⟨oneDigest⟩
  generation := 2
  snapshotDigest := firstHead.snapshotDigest
  snapshotFile := firstHead.snapshotFile
  priorHeadPath := some firstCurrent.headPath
  priorGeneration := some 1
  priorRevision := firstCurrent.revision

def secondCurrent : Current where
  schemaVersion := 1
  headPath := ⟨headsArea ++ zeroPadded 2 ++ ascii "-" ++ oneDigest.hex ++ ascii ".json",
    by decide +kernel, by decide +kernel⟩
  revision := ⟨ascii "filesystem:head:blake3:" ++ oneDigest.hex, by decide +kernel,
    by decide +kernel⟩

/-- A hash that tells the second head from every other text. -/
def secondHash (text : Bytes) : Digest :=
  if text = headJson secondHead ++ [newline] then oneDigest else zeroDigest

/-- The JSON library on the control documents of the first two publications. -/
def secondControlCodec : ControlCodec where
  encodeCurrent current :=
    if current ∈ [firstCurrent, secondCurrent] then some (currentJson current) else none
  decodeCurrent text :=
    [firstCurrent, secondCurrent].find? fun current => currentJson current ++ [newline] = text
  encodeHead head := if head ∈ [firstHead, secondHead] then some (headJson head) else none
  decodeHead text := [firstHead, secondHead].find? fun head => headJson head ++ [newline] = text

theorem secondControlCodec_lawful : secondControlCodec.Lawful where
  current value text h := by
    simp only [secondControlCodec] at h ⊢
    split at h
    · rename_i hv
      cases h
      revert value
      decide +kernel
    · contradiction
  head value text h := by
    simp only [secondControlCodec] at h ⊢
    split at h
    · rename_i hv
      cases h
      revert value
      decide +kernel
    · contradiction

def firstSession : Session := ⟨false, firstIntent, emptySnapshot, [], .default⟩

def secondSession : Session :=
  ⟨false, ⟨headJson secondHead ++ [newline], secondCurrent.revision⟩, emptySnapshot, [], .default⟩

def sampleProgram (session : Session) : RemoteProgram PublicationStatus :=
  session.program secondHash secondControlCodec sampleCodec fun _ _ _ => none

def sampleStatus (session : Session) (s : RemoteStore) : Except BackendError PublicationStatus :=
  session.status secondHash secondControlCodec sampleCodec s

def firstRemote : RemoteStore := (sampleProgram firstSession).final emptyRemote

/-- The second session's states up to the one without a pointer. -/
def displacing : List RemoteStore := (sampleProgram secondSession firstRemote).visited.take 7

theorem firstSession_prepared :
    firstSession.PreparedAt secondHash secondControlCodec sampleCodec emptyRemote :=
  ⟨absentRevision, ⟨zeroDigest⟩, by decide +kernel⟩

/-- A session that stops while the pointer is displaced loses the history: what was published
is ready to be published again. -/
theorem history_lost :
    secondControlCodec.Lawful ∧
    firstSession.PreparedAt secondHash secondControlCodec sampleCodec emptyRemote ∧
    secondSession.PreparedAt secondHash secondControlCodec sampleCodec firstRemote ∧
    (sampleProgram secondSession).Interrupted firstRemote displacing ∧
    sampleStatus firstSession firstRemote = .ok (.published firstIntent.proposedRevision) ∧
    sampleStatus firstSession (displacing.getLastD firstRemote) = .ok .ready := by
  refine ⟨secondControlCodec_lawful, firstSession_prepared, ?_, List.take_prefix _ _, ?_⟩
  · exact ⟨firstIntent.proposedRevision, ⟨oneDigest⟩, by decide +kernel⟩
  · decide +kernel

theorem history_linear_sample :
    ∃ revisions, History secondHash secondControlCodec firstRemote.texts revisions ∧
      ∀ older ∈ [emptyRemote], ∃ prior,
        History secondHash secondControlCodec older.texts prior ∧ prior <:+ revisions := by
  have hvisited : (firstSession.program secondHash secondControlCodec sampleCodec
      fun _ _ _ => none).Interrupted emptyRemote (sampleProgram firstSession emptyRemote).visited :=
    Program.interrupted_visited _ _
  have hfree : CollisionFree secondHash emptyRemote.texts firstIntent.encoded := by
    rintro text text' (rfl | ⟨_, h⟩) (rfl | ⟨_, h'⟩) -
    · rfl
    all_goals contradiction
  have hrun := RemoteRun.session .start List.mem_cons_self firstSession_prepared hfree hvisited
    fun h => h.2.1 rfl
  exact (history_linear secondControlCodec_lawful hrun).1

end Sample

end Kitrove
