import Kitrove.Batch.Ownership

/-! Recording progress: the files of a batch stay recoverable while its journal is
installed, replaced and loaded. -/

namespace Kitrove

open Crash AtomicApplyBatchTransactionError

section Phases

variable {d : StoredDisposition} {progress : ParticipantProgress}

theorem validProgress_of_phaseAllows {phase : AtomicApplyBatchPhase}
    (h : PhaseAllows phase d progress) : validProgress phase d progress = true := by
  cases phase with
  | rollingBack => exact h
  | _ => cases d <;> cases progress <;> first | rfl | (exact absurd h (by decide))

theorem phaseAllows_of_transition {old next : AtomicApplyBatchPhase}
    (h : PhaseAllows old d progress) (ht : validPhaseTransition old next = true)
    (hv : validProgress next d progress = true) : PhaseAllows next d progress := by
  cases next with
  | rollingBack => exact hv
  | rolledBack => simpa [validProgress, PhaseAllows] using hv
  | _ =>
    cases old <;> first
      | contradiction
      | (cases d <;> cases progress <;> first
          | (exact absurd hv (by decide)) | (exact absurd h (by decide)) | decide)

/-- Whatever a phase before the machine state is committed allows can be rolled back. -/
theorem validRollbackProgress_of_phaseAllows {phase : AtomicApplyBatchPhase}
    (h : PhaseAllows phase d progress) (ht : validPhaseTransition phase .rollingBack = true) :
    validRollbackProgress d progress = true := by
  cases phase <;> first
    | contradiction
    | (cases d <;> cases progress <;> first | rfl | (exact absurd h (by decide)))

end Phases

namespace PreparedBatch

variable {τ C H R A : Type} [DecidableEq H] {b : PreparedBatch τ C H R A}
  {j : AtomicApplyBatchJournal H R A} {s : BatchStore τ C R}

theorem Consistent.validateJournal (h : b.Consistent j s) :
    validateJournal b.env.format j = .ok () := by
  refine h.owns.validateJournal_iff.mpr fun p hp => ?_
  obtain ⟨i, hi⟩ := List.mem_iff_getElem?.mp hp
  obtain ⟨item, hitem⟩ := h.owns.hasItem hi
  exact validProgress_of_phaseAllows (h.participant i p item hi hitem).1

theorem Consistent.set_journal (h : b.Consistent j s) (files : Slots τ) :
    b.Consistent j (BatchStore.journalFiles.set files s) :=
  ⟨h.owns, h.revision, h.participant, h.state⟩

/-- One participant's entry and paths change together. -/
theorem Consistent.set_participant (h : b.Consistent j s) {i : Nat}
    {p : BatchParticipantJournal H} {item : AtomicApplyItem C}
    (hp : j.participants[i]? = some p) (hi : b.plan.items[i]? = some item)
    {progress : ParticipantProgress} (ha : PhaseAllows j.phase p.disposition progress)
    {files : Slots C} (hs : SlotsConsistent item progress files) :
    b.Consistent
      { j with participants := j.participants.set i { p with progress := progress } }
      ((BatchStore.targetFiles i).set files s) := by
  refine ⟨⟨h.owns.1, (map_authority_set hp).trans h.owns.2⟩, h.revision, ?_, h.state⟩
  intro k q item' hq hitem'
  simp only [List.getElem?_set] at hq
  split at hq
  · rename_i hk
    subst hk
    rw [if_pos (List.getElem?_eq_some_iff.mp hp).1, Option.some.injEq] at hq
    subst hq
    rw [hi, Option.some.injEq] at hitem'
    subst hitem'
    exact ⟨ha, by simpa [BatchStore.targetFiles] using hs⟩
  · rename_i hk
    have hc := h.participant k q item' hq hitem'
    exact ⟨hc.1, by simpa [BatchStore.targetFiles, Function.update_of_ne (Ne.symm hk)] using hc.2⟩

theorem Consistent.set_target (h : b.Consistent j s) {i : Nat}
    {p : BatchParticipantJournal H} {item : AtomicApplyItem C}
    (hp : j.participants[i]? = some p) (hi : b.plan.items[i]? = some item)
    {files : Slots C} (hs : SlotsConsistent item p.progress files) :
    b.Consistent j ((BatchStore.targetFiles i).set files s) := by
  have hset := h.set_participant hp hi (h.participant i p item hp hi).1 hs
  rwa [show j.participants.set i { p with progress := p.progress } = j.participants from by
    obtain ⟨hlt, he⟩ := List.getElem?_eq_some_iff.mp hp
    rw [← he]
    exact List.set_getElem_self hlt] at hset

theorem Consistent.set_state (h : b.Consistent j s) {files : Slots τ}
    (hs : StateConsistent b.plan.observedLocalStateText b.plan.proposedLocalStateText j.phase
      files) :
    b.Consistent j (BatchStore.stateFiles.set files s) :=
  ⟨h.owns, h.revision, h.participant, hs⟩

variable (b) in
/-- The journal files hold exactly the cursor's journal, and the other files agree. -/
structure At (cursor : AtomicApplyBatchJournalCursor τ H R A) (s : BatchStore τ C R) : Prop where
  parsed : parseJournal b.env.format cursor.encoded = .ok cursor.journal
  len : b.env.platform.len cursor.encoded ≤ maxBatchJournalBytes
  files : s.journal = ⟨some cursor.encoded, none, none⟩
  consistent : b.Consistent cursor.journal s

variable [DecidableEq R] [DecidableEq A]

variable (b) in
/-- Every valid journal that may be written next is within its limit: the first one while
there is none, then those one step after the journal in place. -/
structure Within (s : BatchStore τ C R) : Prop where
  first : s.journal = ⟨none, none, none⟩ →
    b.env.platform.len (b.env.format.encode b.journal) ≤ maxBatchJournalBytes
  next : ∀ cursor : AtomicApplyBatchJournalCursor τ H R A, b.At cursor s →
    ∀ next, b.Owns next → validateJournal b.env.format next = .ok () →
      validJournalTransition cursor.journal next = true →
      b.env.platform.len (b.env.format.encode next) ≤ maxBatchJournalBytes

theorem Fits.within (h : b.Fits) (s : BatchStore τ C R) : b.Within s :=
  ⟨fun _ => h.journal _ (.initial b), fun _ _ next howns _ _ => h.journal next howns⟩

variable (b) in
/-- Files that a stopped commit or a stopped recovery of the batch may leave. -/
inductive Recoverable (s : BatchStore τ C R) : Prop
  | settled (cursor : AtomicApplyBatchJournalCursor τ H R A) : b.At cursor s → Recoverable s
  | between (r : GuardedJournal.Replacement b.env.platform (batchJournalFormat b.env.format)
      maxBatchJournalBytes) :
      r.Reachable s.journal → b.Consistent r.old s → b.Consistent r.new s → Recoverable s
  | installing (text : τ) : parseJournal b.env.format text = .ok b.journal →
      b.env.platform.len text ≤ maxBatchJournalBytes → s.journal = ⟨none, some text, none⟩ →
      b.Consistent b.journal s → Recoverable s
  | untouched : s = b.start → Recoverable s
  | finished : s.journal = ⟨none, none, none⟩ → b.AllOld s ∨ b.AllNew s → b.Swept s →
      Recoverable s

variable {cursor : AtomicApplyBatchJournalCursor τ H R A}

variable [DecidableEq τ]
  {Q : AtomicApplyBatchJournalCursor τ H R A → BatchStore τ C R → Prop}
  {E : AtomicApplyBatchTransactionError → BatchStore τ C R → Prop}

theorem persistTransition_upholds
    {transition : AtomicApplyBatchJournal H R A →
      Except AtomicApplyBatchJournalError (AtomicApplyBatchJournal H R A)}
    (h : b.At cursor s)
    (hstep : ∀ next, transition cursor.journal = .ok next →
      validateJournal b.env.format next = .ok () →
      validJournalTransition cursor.journal next = true ∧ b.Consistent next s)
    (hQ : ∀ after : AtomicApplyBatchJournalCursor τ H R A,
      transition cursor.journal = .ok after.journal →
      b.At after (BatchStore.journalFiles.set ⟨some after.encoded, none, none⟩ s) →
      Q after (BatchStore.journalFiles.set ⟨some after.encoded, none, none⟩ s))
    (hE : ∀ e, (∀ next, transition cursor.journal = .ok next →
      validateJournal b.env.format next = .ok () →
      ¬ b.env.platform.len (b.env.format.encode next) ≤ maxBatchJournalBytes) → E e s) :
    (cursor.persistTransition b.env transition).Upholds (fun _ t => b.Recoverable t) Q E s := by
  simp only [AtomicApplyBatchJournalCursor.persistTransition, Program.bind_upholds,
    Program.mapError_upholds]
  cases ht : transition cursor.journal with
  | error e => exact Program.ofExcept_error_upholds.mpr (hE _ (by simp [ht]))
  | ok next =>
    rw [Program.ofExcept_ok_upholds]
    cases he : next.encoded b.env.platform.len b.env.format with
    | error e =>
      refine Program.ofExcept_error_upholds.mpr (hE _ fun next' hn hv hl => ?_)
      rw [ht, Except.ok.injEq] at hn
      subst hn
      rw [encoded_eq_ok.mpr ⟨hv, rfl, hl⟩] at he
      contradiction
    | ok text =>
      rw [Program.ofExcept_ok_upholds, Program.zoom_upholds]
      obtain ⟨hv, rfl, hl⟩ := encoded_eq_ok.mp he
      obtain ⟨htrans, hnext⟩ := hstep next ht hv
      let r : GuardedJournal.Replacement b.env.platform (batchJournalFormat b.env.format)
          maxBatchJournalBytes :=
        { oldText := cursor.encoded
          newText := b.env.format.encode next
          old := cursor.journal
          new := next
          parse_old := h.parsed
          parse_new := parseJournal_encode hv
          valid := htrans
          irreversible := validJournalTransition_irreversible htrans
          len_old := h.len
          len_new := hl }
      have hr := r.replace_steps
      have hget : BatchStore.journalFiles.get s = r.start := h.files
      rw [hget]
      refine hr.mono ?_ ?_ (fun _ _ hf => hf.elim)
      · intro t u hstep
        exact .between r hstep.2 (h.consistent.set_journal u) (hnext.set_journal u)
      · rintro ⟨⟩ t rfl
        rw [Program.pure_upholds]
        exact hQ ⟨next, b.env.format.encode next⟩ ht
          ⟨parseJournal_encode hv, hl, rfl, hnext.set_journal _⟩

/-- The journal is in place and has the entry `p` for the item. -/
structure Entry (b : PreparedBatch τ C H R A) (cursor : AtomicApplyBatchJournalCursor τ H R A)
    (s : BatchStore τ C R) (i : Nat) (item : AtomicApplyItem C)
    (p : BatchParticipantJournal H) : Prop where
  settled : b.At cursor s
  entry : cursor.journal.participants[i]? = some p
  planned : b.plan.items[i]? = some item

section Entries

variable {i : Nat} {item : AtomicApplyItem C} {p : BatchParticipantJournal H}

omit [DecidableEq τ] [DecidableEq R] [DecidableEq A] in
theorem At.hasEntry (h : b.At cursor s) (hi : b.plan.items[i]? = some item) :
    ∃ p, b.Entry cursor s i item p := by
  have hlt : i < cursor.journal.participants.length := by
    rw [h.consistent.owns.length]
    exact (List.getElem?_eq_some_iff.mp hi).1
  exact ⟨_, h, List.getElem?_eq_getElem hlt, hi⟩

omit [DecidableEq τ] [DecidableEq R] [DecidableEq A] in
theorem Entry.describes (h : b.Entry cursor s i item p) :
    Describes b.env.view b.env.format.absentTargetHash item p.toParticipantAuthority :=
  h.settled.consistent.owns.describes h.entry h.planned

omit [DecidableEq τ] [DecidableEq R] [DecidableEq A] in
theorem Entry.allows (h : b.Entry cursor s i item p) :
    PhaseAllows cursor.journal.phase item.disposition p.progress := by
  rw [← h.describes.disposition]
  exact (h.settled.consistent.participant i p item h.entry h.planned).1

omit [DecidableEq τ] [DecidableEq R] [DecidableEq A] in
theorem Entry.slots (h : b.Entry cursor s i item p) :
    SlotsConsistent item p.progress (s.targets i) :=
  (h.settled.consistent.participant i p item h.entry h.planned).2

omit [DecidableEq τ] [DecidableEq R] [DecidableEq A] in
theorem Entry.set_target (h : b.Entry cursor s i item p) {files : Slots C}
    (hs : SlotsConsistent item p.progress files) :
    b.Entry cursor ((BatchStore.targetFiles i).set files s) i item p :=
  ⟨⟨h.settled.parsed, h.settled.len, h.settled.files,
    h.settled.consistent.set_target h.entry h.planned hs⟩, h.entry, h.planned⟩

omit [DecidableEq τ] in
/-- A target operation that keeps the item's paths consistent keeps the batch so. -/
theorem onTarget_upholds {α : Type} {e : AtomicApplyBatchTransactionError}
    {m : TargetProgram C α} {Q : α → BatchStore τ C R → Prop} (h : b.Entry cursor s i item p)
    (hm : m.Upholds (fun _ u => SlotsConsistent item p.progress u)
      (fun a u => Q a ((BatchStore.targetFiles i).set u s))
      (fun _ u => E e ((BatchStore.targetFiles i).set u s)) (s.targets i)) :
    (onTarget i e m).Upholds (fun _ t => b.Recoverable t) Q E s := by
  simp only [onTarget, Program.mapError_upholds, Program.zoom_upholds]
  exact hm.mono (fun _ u hu => .settled cursor (h.set_target hu).settled) (fun _ _ => id)
    (fun _ _ => id)

/-- Recording a participant's progress keeps every file but the journal. -/
theorem transitionParticipant_upholds {next : ParticipantProgress}
    (h : b.Entry cursor s i item p)
    (hstep : validParticipantTransition cursor.journal.phase item.disposition p.progress next =
      true → PhaseAllows cursor.journal.phase item.disposition next ∧
        SlotsConsistent item next (s.targets i))
    (hQ : ∀ (after : AtomicApplyBatchJournalCursor τ H R A) (t : BatchStore τ C R),
      validParticipantTransition cursor.journal.phase item.disposition p.progress next = true →
      b.Entry after t i item { p with progress := next } →
      t.state = s.state → t.targets = s.targets →
      after.journal = { cursor.journal with
        participants := cursor.journal.participants.set i { p with progress := next } } →
      Q after t)
    (hE : ∀ e, (validParticipantTransition cursor.journal.phase item.disposition p.progress
      next = true → ¬ b.Within s) → E e s) :
    (cursor.transitionParticipant b.env i next).Upholds (fun _ t => b.Recoverable t) Q E s := by
  rw [← h.describes.disposition] at hstep hQ hE
  have hset : ∀ j', cursor.journal.transitionParticipant i next = .ok j' →
      validParticipantTransition cursor.journal.phase p.disposition p.progress next = true ∧
      j' = { cursor.journal with
        participants := cursor.journal.participants.set i { p with progress := next } } := by
    intro j' ht
    obtain ⟨q, hq, hv, rfl⟩ := transitionParticipant_eq_ok.mp ht
    rw [h.entry, Option.some.injEq] at hq
    subst hq
    exact ⟨hv, rfl⟩
  have hnext : validParticipantTransition cursor.journal.phase p.disposition p.progress next =
      true → b.Consistent { cursor.journal with
        participants := cursor.journal.participants.set i { p with progress := next } } s := by
    intro hv
    have hc := h.settled.consistent.set_participant h.entry h.planned (hstep hv).1 (hstep hv).2
    rwa [show s.targets i = (BatchStore.targetFiles i).get s from rfl, Lens.set_get] at hc
  refine persistTransition_upholds h.settled ?_ ?_ ?_
  · intro j' ht _
    obtain ⟨hv, rfl⟩ := hset j' ht
    exact ⟨transitionParticipant_valid ht, hnext hv⟩
  · intro after ht hat
    obtain ⟨hv, hafter⟩ := hset _ ht
    refine hQ after _ hv ⟨hat, ?_, h.planned⟩ rfl rfl hafter
    rw [hafter, List.getElem?_set_self (List.getElem?_eq_some_iff.mp h.entry).1]
  · intro e hno
    refine hE e fun hv hwithin => ?_
    have ht := transitionParticipant_eq_ok.mpr ⟨p, h.entry, hv, rfl⟩
    have hvalid := (hnext hv).validateJournal
    exact hno _ ht hvalid (hwithin.next cursor h.settled _ (hnext hv).owns hvalid
      (transitionParticipant_valid ht))

end Entries

omit [DecidableEq τ] [DecidableEq R] [DecidableEq A] in
theorem At.set_state (h : b.At cursor s) {files : Slots τ}
    (hs : StateConsistent b.plan.observedLocalStateText b.plan.proposedLocalStateText
      cursor.journal.phase files) :
    b.At cursor (BatchStore.stateFiles.set files s) :=
  ⟨h.parsed, h.len, h.files, h.consistent.set_state hs⟩

omit [DecidableEq τ] in
/-- An operation on the state files that keeps them consistent keeps the batch so. -/
theorem onState_upholds {α : Type} {e : AtomicApplyBatchTransactionError} {m : TextProgram τ α}
    {Q : α → BatchStore τ C R → Prop} (h : b.At cursor s)
    (hm : m.Upholds (fun _ u => StateConsistent b.plan.observedLocalStateText
        b.plan.proposedLocalStateText cursor.journal.phase u)
      (fun a u => Q a (BatchStore.stateFiles.set u s))
      (fun _ u => E e (BatchStore.stateFiles.set u s)) s.state) :
    (onState e m).Upholds (fun _ t => b.Recoverable t) Q E s := by
  simp only [onState, Program.mapError_upholds, Program.zoom_upholds, BatchStore.stateFiles_get]
  exact hm.mono (fun _ u hu => .settled cursor (h.set_state hu)) (fun _ _ => id) (fun _ _ => id)

/-- Recording a phase keeps every file but the journal. -/
theorem transitionPhase_upholds {next : AtomicApplyBatchPhase} (h : b.At cursor s)
    (hstep : validPhaseTransition cursor.journal.phase next = true →
      (∀ p ∈ cursor.journal.participants, PhaseAllows next p.disposition p.progress) →
      StateConsistent b.plan.observedLocalStateText b.plan.proposedLocalStateText next s.state)
    (hQ : ∀ (after : AtomicApplyBatchJournalCursor τ H R A) (t : BatchStore τ C R),
      b.At after t → t.state = s.state → t.targets = s.targets →
      validPhaseTransition cursor.journal.phase next = true →
      after.journal = { cursor.journal with phase := next } → Q after t)
    (hE : ∀ e, (validPhaseTransition cursor.journal.phase next = true →
      (∀ p ∈ cursor.journal.participants, validProgress next p.disposition p.progress = true) →
      ¬ b.Within s) → E e s) :
    (cursor.transitionPhase b.env next).Upholds (fun _ t => b.Recoverable t) Q E s := by
  have hset : ∀ j', cursor.journal.transitionPhase next = .ok j' →
      validPhaseTransition cursor.journal.phase next = true ∧
        j' = { cursor.journal with phase := next } := fun j' ht => transitionPhase_eq_ok.mp ht
  have howns : b.Owns { cursor.journal with phase := next } := h.consistent.owns
  refine persistTransition_upholds h ?_ ?_ ?_
  · intro j' ht hval
    obtain ⟨hv, rfl⟩ := hset j' ht
    have hprogress := howns.validateJournal_iff.mp hval
    have hallows : ∀ p ∈ cursor.journal.participants,
        PhaseAllows next p.disposition p.progress := by
      intro p hp
      obtain ⟨i, hi⟩ := List.mem_iff_getElem?.mp hp
      obtain ⟨item, hitem⟩ := h.consistent.owns.hasItem hi
      exact phaseAllows_of_transition (h.consistent.participant i p item hi hitem).1 hv
        (hprogress p hp)
    refine ⟨transitionPhase_valid ht, howns, h.consistent.revision, ?_, hstep hv hallows⟩
    intro i p item hp hitem
    exact ⟨hallows p (List.mem_of_getElem? hp), (h.consistent.participant i p item hp hitem).2⟩
  · intro after ht hat
    exact hQ after _ hat rfl rfl (hset _ ht).1 (hset _ ht).2
  · intro e hno
    refine hE e fun hv hprogress hwithin => ?_
    have ht := transitionPhase_eq_ok.mpr ⟨hv, rfl⟩
    have hvalid := howns.validateJournal_iff.mpr hprogress
    exact hno _ ht hvalid (hwithin.next cursor h _ howns hvalid (transitionPhase_valid ht))

/-- Installing the journal of a prepared batch over untouched files. -/
theorem install_upholds
    (hQ : ∀ (cursor : AtomicApplyBatchJournalCursor τ H R A) (t : BatchStore τ C R),
      b.At cursor t → cursor.journal = b.journal → t.state = b.start.state →
      t.targets = b.start.targets → Q cursor t)
    (hE : ∀ e, ¬ b.Within b.start → E e b.start) :
    (AtomicApplyBatchJournalCursor.install b.env b.plan).Upholds
      (fun _ t => b.Recoverable t) Q E b.start := by
  have hc := b.start_consistent
  simp only [AtomicApplyBatchJournalCursor.install, Program.bind_upholds,
    Program.mapError_upholds, b.initial, Program.ofExcept_ok_upholds]
  cases he : b.journal.encoded b.env.platform.len b.env.format with
  | error e =>
    refine Program.ofExcept_error_upholds.mpr (hE _ fun hwithin => ?_)
    rw [encoded_eq_ok.mpr ⟨b.initial_valid.1, rfl, hwithin.first b.start_journal⟩] at he
    contradiction
  | ok text =>
    obtain ⟨hv, rfl, hl⟩ := encoded_eq_ok.mp he
    have hget : BatchStore.journalFiles.get b.start = ⟨none, none, none⟩ := b.start_journal
    rw [Program.ofExcept_ok_upholds, Program.zoom_upholds, hget]
    simp only [replaceTextAtomicallyGuarded, Program.bind_upholds, stageText_upholds,
      installStagedTextGuarded_none_upholds hl, Program.pure_upholds]
    have hat : b.At ⟨b.journal, b.env.format.encode b.journal⟩
        (BatchStore.journalFiles.set ⟨some (b.env.format.encode b.journal), none, none⟩
          b.start) :=
      ⟨parseJournal_encode hv, hl, rfl, hc.set_journal _⟩
    exact ⟨.installing _ (parseJournal_encode hv) hl rfl (hc.set_journal _), .settled _ hat,
      .settled _ hat, hQ _ _ hat rfl rfl rfl⟩

omit [DecidableEq τ] in
theorem At.recoverable (h : b.At cursor s) : b.Recoverable s := .settled cursor h

omit [DecidableEq τ] [DecidableEq R] [DecidableEq A] in
/-- In a terminal phase every destination and the machine state are on one side. -/
theorem At.sides (h : b.At cursor s) :
    (cursor.journal.phase = .verified → b.AllNew s) ∧
      (cursor.journal.phase = .rolledBack → b.AllOld s) := by
  have hstate := h.consistent.state
  constructor <;> intro hphase <;> rw [hphase] at hstate <;> refine ⟨?_, hstate.1⟩ <;>
    intro i item hi <;> obtain ⟨p, hp⟩ := h.hasEntry hi <;> have hallows := hp.allows <;>
    have hslots := hp.slots <;> rw [hphase] at hallows <;>
    rw [show p.progress = _ from hallows] at hslots
  · exact hslots.1.1
  · exact hslots.1.1

omit [DecidableEq τ] in
/-- Removing the journal of a terminal batch ends it with every file on one side. -/
theorem removeTerminal_upholds {Q : Unit → BatchStore τ C R → Prop} (h : b.At cursor s)
    (hswept : b.Swept s)
    (hQ : ∀ t : BatchStore τ C R, t.journal = ⟨none, none, none⟩ → t.state = s.state →
      t.targets = s.targets →
      (cursor.journal.phase = .verified ∧ b.AllNew t ∨
        cursor.journal.phase = .rolledBack ∧ b.AllOld t) → Q () t)
    (hE : ∀ e, cursor.journal.phase ≠ .verified ∧ cursor.journal.phase ≠ .rolledBack → E e s) :
    cursor.removeTerminal.Upholds (fun _ t => b.Recoverable t) Q E s := by
  have hget : BatchStore.journalFiles.get s = ⟨some cursor.encoded, none, none⟩ := h.files
  simp only [AtomicApplyBatchJournalCursor.removeTerminal, Program.bind_upholds,
    Program.require_upholds, Program.zoom_upholds, Slots.remove_upholds, hget,
    Slots.set_destination, Slots.set_staging, Lens.get_set, Lens.set_set]
  split
  · rename_i hphase
    rw [Bool.or_eq_true, beq_iff_eq, beq_iff_eq] at hphase
    obtain ⟨hnew, hold⟩ := h.sides
    have hside : ∀ files : Slots τ, cursor.journal.phase = .verified ∧
        b.AllNew (BatchStore.journalFiles.set files s) ∨
        cursor.journal.phase = .rolledBack ∧ b.AllOld (BatchStore.journalFiles.set files s) :=
      fun _ => hphase.imp (fun hv => ⟨hv, hnew hv⟩) (fun hr => ⟨hr, hold hr⟩)
    have hend : b.Recoverable (BatchStore.journalFiles.set ⟨none, none, none⟩ s) :=
      .finished rfl ((hside _).symm.imp And.right And.right) ⟨hswept.target, hswept.state⟩
    exact ⟨hend, hend, hQ _ rfl rfl rfl (hside _)⟩
  · rename_i hphase
    rw [Bool.or_eq_true, beq_iff_eq, beq_iff_eq] at hphase
    exact hE _ (not_or.mp hphase)

section Load

variable {Q : Option (AtomicApplyBatchJournalCursor τ H R A) → BatchStore τ C R → Prop}

omit [DecidableEq τ] [DecidableEq R] [DecidableEq A] in
theorem read_at_upholds {G : BatchStore τ C R → BatchStore τ C R → Prop} (h : b.At cursor s)
    (hQ : Q (some cursor) s) :
    (AtomicApplyBatchJournalCursor.read b.env).Upholds G Q E s := by
  have hget : BatchStore.journalFiles.get s = ⟨some cursor.encoded, none, none⟩ := h.files
  have hset : BatchStore.journalFiles.set ⟨some cursor.encoded, none, none⟩ s = s := by
    rw [← hget, Lens.set_get]
  simp [AtomicApplyBatchJournalCursor.read, readText_upholds, hget, h.len, h.parsed, hset, hQ]

/-- Loading a journal that is in place changes nothing. -/
theorem load_at_upholds {G : BatchStore τ C R → BatchStore τ C R → Prop} (h : b.At cursor s)
    (hQ : Q (some cursor) s) :
    (AtomicApplyBatchJournalCursor.load b.env).Upholds G Q E s := by
  have hget : BatchStore.journalFiles.get s = ⟨some cursor.encoded, none, none⟩ := h.files
  have hset : BatchStore.journalFiles.set ⟨some cursor.encoded, none, none⟩ s = s := by
    rw [← hget, Lens.set_get]
  simp only [AtomicApplyBatchJournalCursor.load, Program.bind_upholds, Program.mapError_upholds,
    Program.zoom_upholds, hget]
  simp [GuardedJournal.reconcile, GuardedJournal.readTexts, GuardedJournal.storage,
    GuardedJournal.parse, batchJournalFormat, readText_upholds, h.len, h.parsed, hset,
    read_at_upholds h hQ]

/-- Loading settles the journal files of a stopped run and touches no other file. -/
theorem load_upholds (h : b.Recoverable s)
    (hnone : s.journal = ⟨none, none, none⟩ → s = b.start ∨ b.Swept s → b.AllOld s ∨ b.AllNew s →
      Q none s)
    (hsome : ∀ (cursor : AtomicApplyBatchJournalCursor τ H R A) (t : BatchStore τ C R),
      b.At cursor t → t.state = s.state → t.targets = s.targets → Q (some cursor) t) :
    (AtomicApplyBatchJournalCursor.load b.env).Upholds (fun _ t => b.Recoverable t) Q E s := by
  have hempty : s.journal = ⟨none, none, none⟩ → s = b.start ∨ b.Swept s →
      b.AllOld s ∨ b.AllNew s →
      (AtomicApplyBatchJournalCursor.load b.env).Upholds (fun _ t => b.Recoverable t) Q E s := by
    intro hfiles hs hside
    have hget : BatchStore.journalFiles.get s = ⟨none, none, none⟩ := hfiles
    have hset : BatchStore.journalFiles.set ⟨none, none, none⟩ s = s := by
      rw [← hget, Lens.set_get]
    simp [AtomicApplyBatchJournalCursor.load, AtomicApplyBatchJournalCursor.read, hget, hset,
      GuardedJournal.reconcile, GuardedJournal.readTexts, GuardedJournal.storage,
      readText_upholds, hnone hfiles hs hside]
  cases h with
  | settled cursor h => exact load_at_upholds h (hsome cursor s h rfl rfl)
  | between r hr hold hnew =>
    have hbetween : ∀ files, r.Reachable files →
        b.Recoverable (BatchStore.journalFiles.set files s) := fun files hf =>
      .between r hf (hold.set_journal files) (hnew.set_journal files)
    simp only [AtomicApplyBatchJournalCursor.load, Program.bind_upholds, Program.mapError_upholds,
      Program.zoom_upholds]
    rcases hr with hr | hr
    · refine (r.reconcile_retains hr).mono (fun _ u hu => hbetween u hu.2) ?_
        (fun _ _ hf => hf.elim)
      rintro ⟨⟩ files rfl
      have hat : b.At ⟨r.old, r.oldText⟩
          (BatchStore.journalFiles.set ⟨some r.oldText, none, none⟩ s) :=
        ⟨r.parse_old, r.len_old, rfl, hold.set_journal _⟩
      exact read_at_upholds hat (hsome _ _ hat rfl rfl)
    · refine (r.reconcile_advances hr).mono (fun _ u hu => hbetween u hu.2) ?_
        (fun _ _ hf => hf.elim)
      rintro ⟨⟩ files rfl
      have hat : b.At ⟨r.new, r.newText⟩
          (BatchStore.journalFiles.set ⟨some r.newText, none, none⟩ s) :=
        ⟨r.parse_new, r.len_new, rfl, hnew.set_journal _⟩
      exact read_at_upholds hat (hsome _ _ hat rfl rfl)
  | installing text hparse hlen hfiles hc =>
    have hget : BatchStore.journalFiles.get s = ⟨none, some text, none⟩ := hfiles
    have hat : b.At ⟨b.journal, text⟩
        (BatchStore.journalFiles.set ⟨some text, none, none⟩ s) :=
      ⟨hparse, hlen, rfl, hc.set_journal _⟩
    simp only [AtomicApplyBatchJournalCursor.load, Program.bind_upholds, Program.mapError_upholds,
      Program.zoom_upholds, hget]
    simp only [GuardedJournal.reconcile, GuardedJournal.readTexts, GuardedJournal.storage,
      GuardedJournal.parse, batchJournalFormat, Program.bind_upholds, Program.mapError_upholds,
      readText_upholds, Slots.get_destination, Slots.get_staging, Slots.get_backup, hparse,
      Program.ofExcept_ok_upholds, installStagedTextGuarded_none_upholds hlen,
      Program.pure_upholds]
    simp only [Option.all_none, Option.all_some, hlen, decide_true, if_true]
    exact ⟨hat.recoverable, hat.recoverable, read_at_upholds hat (hsome _ _ hat rfl rfl)⟩
  | untouched hs =>
    have hold : b.AllOld b.start := ⟨fun i item hi => (b.start_target i item hi).1, b.start_state.1⟩
    exact hempty (hs ▸ b.start_journal) (.inl hs) (.inl (hs ▸ hold))
  | finished hfiles hside hswept => exact hempty hfiles (.inr hswept) hside

end Load

end PreparedBatch

end Kitrove
