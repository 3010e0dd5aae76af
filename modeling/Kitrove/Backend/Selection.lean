import Kitrove.Backend.Publication

/-! What a pointer selects, whatever the limits of the reader: a chain of heads that is
determined by the files, and what an inspection says of it. -/

namespace Kitrove

open Crash Except BackendError

section Chains

variable {blake3 : Bytes → Digest} {codec : ControlCodec} {texts texts' : Files}
  {child : Option Head} {path : PortablePath} {revision : RemoteRevision}
  {entries : List HistoryEntry} {bytes : Nat}

theorem HeadAt.unique {head head' : Head} {text text' : Bytes} {revision' : RemoteRevision}
    (h : HeadAt blake3 codec texts path revision head text)
    (h' : HeadAt blake3 codec texts path revision' head' text') : head = head' ∧ text = text' := by
  have htext := h.read
  rw [h'.read, Option.some.injEq] at htext
  subst htext
  have hparsed := h.parsed
  rw [h'.parsed, ok.injEq] at hparsed
  exact ⟨hparsed.symm, rfl⟩

/-- The files determine the chain. -/
theorem Chain.unique {entries' : List HistoryEntry} {bytes' : Nat}
    (h : Chain blake3 codec texts child path revision entries bytes)
    (h' : Chain blake3 codec texts child path revision entries' bytes') :
    entries = entries' ∧ bytes = bytes' := by
  induction h generalizing entries' bytes' with
  | first hat hlinked hprior =>
    cases h' with
    | first hat' hlinked' hprior' =>
      obtain ⟨rfl, rfl⟩ := hat.unique hat'
      exact ⟨rfl, rfl⟩
    | next hat' hlinked' hprior' hrest' =>
      obtain ⟨rfl, rfl⟩ := hat.unique hat'
      simp [hprior] at hprior'
  | next hat hlinked hprior hrest ih =>
    cases h' with
    | first hat' hlinked' hprior' =>
      obtain ⟨rfl, rfl⟩ := hat.unique hat'
      simp [hprior] at hprior'
    | next hat' hlinked' hprior' hrest' =>
      obtain ⟨rfl, rfl⟩ := hat.unique hat'
      rw [hprior, ok.injEq, Option.some.injEq] at hprior'
      subst hprior'
      obtain ⟨rfl, rfl⟩ := ih hrest'
      exact ⟨rfl, rfl⟩

theorem HeadAt.keep {head : Head} {text : Bytes}
    (h : HeadAt blake3 codec texts path revision head text)
    (keeps : ∀ path, Immutable path → ∀ text, texts path = some text → texts' path = some text) :
    HeadAt blake3 codec texts' path revision head text :=
  { h with read := keeps path (immutable_headPath h.path) text h.read }

/-- A chain stays what it is while its files stay. -/
theorem Chain.keep (h : Chain blake3 codec texts child path revision entries bytes)
    (keeps : ∀ path, Immutable path → ∀ text, texts path = some text → texts' path = some text) :
    Chain blake3 codec texts' child path revision entries bytes := by
  induction h with
  | first hat hlinked hprior => exact .first (hat.keep keeps) hlinked hprior
  | next hat hlinked hprior _ ih => exact .next (hat.keep keeps) hlinked hprior ih

theorem priorOf_none {head : Head} (h : priorOf head = .ok none) :
    head.generation = 1 ∧ head.priorRevision = absentRevision ∧ head.priorHeadPath = none := by
  unfold priorOf at h
  split at h
  · rename_i hpath _
    split at h
    · rename_i hfirst
      exact ⟨hfirst.1, hfirst.2, hpath⟩
    · contradiction
  · split at h <;> simp at h
  · contradiction

theorem priorOf_some {head : Head} {prior : PortablePath} : priorOf head = .ok (some prior) ↔
    head.priorHeadPath = some prior ∧ ∃ generation, head.priorGeneration = some generation ∧
      checkedSucc generation = some head.generation := by
  unfold priorOf
  split
  · rename_i hpath hgeneration
    rw [hpath]
    split <;> simp
  · rename_i found generation hpath hgeneration
    rw [hpath, hgeneration]
    split
    · rename_i hsucc
      simp [hsucc]
    · rename_i hsucc
      simp [hsucc]
  · rename_i _ hboth
    constructor
    · intro h
      contradiction
    · rintro ⟨hpath, generation, hgeneration, -⟩
      exact (hboth _ _ hpath hgeneration).elim

/-- The generations of a chain count down to one. -/
theorem Chain.generations (h : Chain blake3 codec texts child path revision entries bytes) :
    ∃ head rest, entries = ⟨revision, head⟩ :: rest ∧ head.generation.toNat = entries.length ∧
      ∀ entry ∈ entries, entry.head.generation.toNat ≤ entries.length ∧
        ∃ path text, HeadAt blake3 codec texts path entry.revision entry.head text := by
  induction h with
  | @first child path revision head text hat hlinked hprior =>
    have hone : head.generation.toNat = 1 := by
      rw [(priorOf_none hprior).1]
      rfl
    exact ⟨head, [], rfl, by simpa using hone, by simpa using ⟨hone.le, path, text, hat⟩⟩
  | @next child path prior revision head text entries bytes hat hlinked hprior hrest ih =>
    obtain ⟨below, others, rfl, hbelow, hall⟩ := ih
    obtain ⟨-, generation, hgeneration, hsucc⟩ := priorOf_some.mp hprior
    rw [checkedSucc_eq_some] at hsucc
    have hsame : generation = below.generation := by
      cases hrest with
      | first _ hlinked' _ | next _ hlinked' _ _ =>
        have := (hlinked' head rfl).2.1
        rw [hgeneration, Option.some.injEq] at this
        exact this
    rw [hsame, hbelow] at hsucc
    have hlength : head.generation.toNat = (⟨revision, head⟩ :: ⟨head.priorRevision, below⟩ ::
        others : List HistoryEntry).length := by
      rw [List.length_cons, ← hsucc]
    refine ⟨head, _, rfl, hlength, ?_⟩
    rw [List.forall_mem_cons]
    refine ⟨⟨hlength.le, path, text, hat⟩, fun entry hentry => ?_⟩
    obtain ⟨hle, hat'⟩ := hall entry hentry
    exact ⟨hle.trans (Nat.le_succ _), hat'⟩

/-- The first head of a chain can be read as the one before another head. -/
theorem Chain.relink {child' : Option Head} {entry : HistoryEntry} {others : List HistoryEntry}
    (h : Chain blake3 codec texts child path revision (entry :: others) bytes)
    (hlinked : LinkedTo child' path revision entry.head) :
    Chain blake3 codec texts child' path revision (entry :: others) bytes := by
  cases h with
  | first hat _ hprior => exact .first hat hlinked hprior
  | next hat _ hprior hrest => exact .next hat hlinked hprior hrest

/-- The paths of a chain's heads. -/
def headPaths (path : PortablePath) (entries : List HistoryEntry) : List PortablePath :=
  path :: entries.filterMap fun entry => entry.head.priorHeadPath

def textBytes (texts : Files) (paths : List PortablePath) : Nat :=
  (paths.map fun path => ((texts path).getD []).length).sum

theorem Chain.bytes_eq (h : Chain blake3 codec texts child path revision entries bytes) :
    bytes = textBytes texts (headPaths path entries) := by
  induction h with
  | first hat hlinked hprior =>
    simp [textBytes, headPaths, (priorOf_none hprior).2.2, hat.read]
  | next hat hlinked hprior hrest ih =>
    rw [ih]
    simp [textBytes, headPaths, (priorOf_some.mp hprior).1, hat.read]

end Chains

section Selection

variable (blake3 : Bytes → Digest) (codec : ControlCodec)

/-- What the pointer of a remote selects, whatever the limits. -/
structure Selects (texts : Files) (pointerText : Bytes) (path : PortablePath)
    (revision : RemoteRevision) (entries : List HistoryEntry) (bytes : Nat) : Prop where
  read : texts pointerPath = some pointerText
  pointer : parseCanonical codec.encodeCurrent codec.decodeCurrent pointerText =
    .ok ⟨1, path, revision⟩
  chain : Chain blake3 codec texts none path revision entries bytes

variable {blake3} {codec} {snapshots : SnapshotCodec} {texts : Files} {limits : SyncLimits}
  {history : InspectedHistory} {inspected : Inspected} {revision : RemoteRevision}

theorem Selects.unique {pointerText pointerText' : Bytes} {path path' : PortablePath}
    {revision' : RemoteRevision} {entries entries' : List HistoryEntry} {bytes bytes' : Nat}
    (h : Selects blake3 codec texts pointerText path revision entries bytes)
    (h' : Selects blake3 codec texts pointerText' path' revision' entries' bytes') :
    pointerText = pointerText' ∧ path = path' ∧ revision = revision' ∧ entries = entries' ∧
      bytes = bytes' := by
  have hread := h.read
  rw [h'.read, Option.some.injEq] at hread
  subst hread
  have hpointer := h.pointer
  rw [h'.pointer, ok.injEq, Current.mk.injEq] at hpointer
  obtain ⟨-, rfl, rfl⟩ := hpointer
  exact ⟨rfl, rfl, rfl, h.chain.unique h'.chain⟩

theorem SyncLimits.history_pos (limits : SyncLimits) : ∃ n, limits.maxBackendHistory.toNat = n + 1 := by
  refine Nat.exists_eq_succ_of_ne_zero fun hzero => limits.nonzero ?_
  have : limits.maxBackendHistory = 0 := UInt64.toNat_inj.mp hzero
  simp [this]

/-- Within the limits a reader sees exactly the selected chain. -/
theorem inspectHistoryChain_some :
    inspectHistoryChain blake3 codec texts limits = .ok (some history) ↔
      ∃ revision bytes, Selects blake3 codec texts history.currentText history.headPath revision
          history.entries bytes ∧
        history.entries.length ≤ limits.maxBackendHistory.toNat ∧
        (history.entries.map HistoryEntry.revision).Nodup ∧
        history.currentText.length + bytes ≤ limits.maxControlBytes.toNat := by
  obtain ⟨n, hn⟩ := limits.history_pos
  unfold inspectHistoryChain
  rw [currentPath_eq, hn]
  constructor
  · intro h
    obtain ⟨path, hpath, h⟩ := bind_eq_ok_iff.mp h
    rw [ok.injEq] at hpath
    subst hpath
    obtain ⟨⟨found, rest⟩, hread, h⟩ := bind_eq_ok_iff.mp h
    cases found with
    | none =>
      rw [pure_eq_ok_iff] at h
      contradiction
    | some currentText =>
      obtain ⟨htext, hlen, rfl⟩ := readBudgetedText_some.mp hread
      obtain ⟨current, hcurrent, h⟩ := bind_eq_ok_iff.mp h
      obtain ⟨hversion, h⟩ := refuseIf_bind_eq_ok.mp h
      obtain ⟨entries, hentries, h⟩ := bind_eq_ok_iff.mp h
      rw [pure_eq_ok_iff, Option.some.injEq] at h
      subst h
      rw [decide_eq_false_iff_not, ne_eq, not_not] at hversion
      obtain ⟨bytes, hchain, hlength, hnodup, -, hbytes⟩ :=
        (followChain_eq_ok (Nat.sub_le _ _)).mp hentries
      refine ⟨current.revision, bytes, ⟨htext, ?_, hchain⟩, hlength, hnodup, ?_⟩
      · rw [hcurrent, ← hversion]
      · dsimp only at hbytes ⊢
        omega
  · rintro ⟨revision, bytes, hselects, hlength, hnodup, hbytes⟩
    refine bind_eq_ok_iff.mpr ⟨_, rfl, bind_eq_ok_iff.mpr ⟨_,
      readBudgetedText_some.mpr ⟨hselects.read, by omega, rfl⟩, ?_⟩⟩
    refine bind_eq_ok_iff.mpr ⟨_, hselects.pointer, ?_⟩
    refine refuseIf_bind_eq_ok.mpr ⟨by simp, bind_eq_ok_iff.mpr ⟨history.entries, ?_, rfl⟩⟩
    refine (followChain_eq_ok (Nat.sub_le _ _)).mpr
      ⟨bytes, hselects.chain, hlength, hnodup, by simp, ?_⟩
    dsimp only
    omega

theorem inspectHistoryChain_none :
    inspectHistoryChain blake3 codec texts limits = .ok none ↔ texts pointerPath = none := by
  unfold inspectHistoryChain
  rw [currentPath_eq]
  constructor
  · intro h
    obtain ⟨path, hpath, h⟩ := bind_eq_ok_iff.mp h
    rw [ok.injEq] at hpath
    subst hpath
    obtain ⟨⟨found, rest⟩, hread, h⟩ := bind_eq_ok_iff.mp h
    cases found with
    | none => exact (readBudgetedText_none.mp hread).1
    | some currentText =>
      obtain ⟨current, -, h⟩ := bind_eq_ok_iff.mp h
      obtain ⟨-, h⟩ := refuseIf_bind_eq_ok.mp h
      obtain ⟨entries, -, h⟩ := bind_eq_ok_iff.mp h
      rw [pure_eq_ok_iff] at h
      contradiction
  · intro hnone
    exact bind_eq_ok_iff.mpr ⟨_, rfl, bind_eq_ok_iff.mpr ⟨_,
      readBudgetedText_none.mpr ⟨hnone, rfl⟩, rfl⟩⟩

/-- The inspection of a remote without a pointer. -/
def absentRemote : Inspected := ⟨⟨absentRevision, none⟩, none, none, none, []⟩

/-- The inspection of a selected history. -/
def presentRemote (history : InspectedHistory) (selected : HistoryEntry)
    (snapshot : PortableSnapshot) : Inspected where
  remote := ⟨selected.revision, some snapshot⟩
  currentText := some history.currentText
  head := some selected.head
  headPath := some history.headPath
  history := history.entries.map HistoryEntry.revision

theorem inspectStore_eq_ok : inspectStore blake3 codec snapshots texts limits = .ok inspected ↔
    texts pointerPath = none ∧ inspected = absentRemote ∨
      ∃ history selected others snapshot,
        inspectHistoryChain blake3 codec texts limits = .ok (some history) ∧
        history.entries = selected :: others ∧
        readSnapshot blake3 snapshots texts limits selected.head = .ok snapshot ∧
        inspected = presentRemote history selected snapshot := by
  unfold inspectStore
  rw [bind_eq_ok_iff]
  constructor
  · rintro ⟨found, hfound, h⟩
    cases found with
    | none =>
      rw [pure_eq_ok_iff] at h
      exact .inl ⟨inspectHistoryChain_none.mp hfound, h.symm⟩
    | some history =>
      cases hentries : history.entries with
      | nil => simp [hentries] at h
      | cons selected others =>
        simp only [hentries] at h
        obtain ⟨snapshot, hsnapshot, h⟩ := bind_eq_ok_iff.mp h
        rw [pure_eq_ok_iff] at h
        refine .inr ⟨history, selected, others, snapshot, hfound, hentries, hsnapshot, ?_⟩
        rw [← h, presentRemote, hentries]
  · rintro (⟨hnone, rfl⟩ | ⟨history, selected, others, snapshot, hfound, hentries, hsnapshot, rfl⟩)
    · exact ⟨none, inspectHistoryChain_none.mpr hnone, rfl⟩
    · refine ⟨some history, hfound, ?_⟩
      simp only [hentries]
      refine bind_eq_ok_iff.mpr ⟨snapshot, hsnapshot, ?_⟩
      rw [pure_eq_ok_iff, presentRemote, hentries]

end Selection

end Kitrove
