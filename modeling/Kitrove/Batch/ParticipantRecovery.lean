import Kitrove.Batch.CommitStops

/-! Recovering one participant: what is read of its paths, and that its completion, its
rollback and its cleanup keep the files of the batch recoverable. -/

namespace Kitrove

open Crash AtomicApplyBatchTransactionError

section Reads

variable {τ C H R A : Type} [DecidableEq H] {env : BatchEnvironment τ C H R A}
  {participant : ParticipantAuthority H} {index : Nat} {path : SlotName}
  {s : BatchStore τ C R} {G : BatchStore τ C R → BatchStore τ C R → Prop}
  {E : AtomicApplyBatchTransactionError → BatchStore τ C R → Prop}

/-- Whatever a path holds can be read. -/
def Readable (env : BatchEnvironment τ C H R A) (content : Option C) : Prop :=
  ∀ c ∈ content, (env.view.hash c).isSome = true

omit [DecidableEq H] in
theorem Readable.all {content : Option C} (h : Readable env content) :
    (content.all fun c => (env.view.hash c).isSome) = true := by
  cases content with
  | none => rfl
  | some c => exact h c rfl

omit [DecidableEq H] in
theorem readParticipant_upholds {Q : Option C → BatchStore τ C R → Prop}
    (h : Readable env ((s.targets index).get path)) :
    (readParticipant env participant index path).Upholds G Q E s ↔
      Q ((s.targets index).get path) s := by
  unfold readParticipant
  cases participant.kind.target <;> simp [h.all]

theorem participantMatches_upholds {Q : Bool → BatchStore τ C R → Prop} {old : Bool} {hash : H}
    (he : expectedHash participant old = .ok hash)
    (h : Readable env ((s.targets index).get path)) :
    (participantMatches env participant index path old).Upholds G Q E s ↔
      Q (((s.targets index).get path).any fun c => env.view.hash c == some hash) s := by
  rw [participantMatches, Program.bind_upholds, readParticipant_upholds h]
  cases (s.targets index).get path with
  | none => simp
  | some c => simp [he]

theorem participantIsNew_upholds {Q : Bool → BatchStore τ C R → Prop}
    (h : Readable env ((s.targets index).get path)) :
    (participantIsNew env participant index path).Upholds G Q E s ↔
      Q (((s.targets index).get path).any fun c =>
        env.view.hash c == some participant.newTargetHash) s :=
  participantMatches_upholds rfl h

theorem participantIsOld_upholds {Q : Bool → BatchStore τ C R → Prop} {hash : H}
    (hold : participant.oldTargetHash = some hash)
    (h : Readable env ((s.targets index).get path)) :
    (participantIsOld env participant index path).Upholds G Q E s ↔
      Q (((s.targets index).get path).any fun c => env.view.hash c == some hash) s := by
  have he : expectedHash participant true = .ok hash := by simp [expectedHash, hold]
  rw [participantIsOld, hold]
  exact participantMatches_upholds he h

omit [DecidableEq H] in
theorem participantIsMissing_upholds {Q : Bool → BatchStore τ C R → Prop}
    (h : Readable env ((s.targets index).get path)) :
    (participantIsMissing env participant index path).Upholds G Q E s ↔
      Q ((s.targets index).get path).isNone s := by
  unfold participantIsMissing
  cases participant.kind.target <;> simp [h.all]

/-- The identity of content that has the expected hash names it. -/
theorem recoveryIdentity_upholds {Q : ApplyTargetIdentity C H → BatchStore τ C R → Prop}
    {old : Bool} {expected : H} {content : C} (he : expectedHash participant old = .ok expected)
    (hc : (s.targets index).get path = some content)
    (hh : env.view.hash content = some expected)
    (hQ : ∀ identity : ApplyTargetIdentity C H, identity.Names env.view content → Q identity s) :
    (recoveryIdentity env participant index path old).Upholds G Q E s := by
  unfold recoveryIdentity
  cases participant.kind.target with
  | skill => simpa [he] using hQ (.skill expected) hh
  | extension => simpa [he, hc, hh] using hQ (.extension expected) hh
  | exactText => simpa [he, hc, hh] using hQ (.exactText content) rfl

end Reads

section Items

variable {C H : Type} [DecidableEq H] {view : ContentView C H} {absent : H}
  {item : AtomicApplyItem C} {p : ParticipantAuthority H}

/-- Nothing that a batch puts at a destination is unreadable. -/
theorem Describes.readable (h : Describes view absent item p) {content : Option C}
    (hc : content = none ∨ content = item.observed ∨ content = item.new) :
    ∀ c ∈ content, (view.hash c).isSome = true := by
  rintro c hmem
  rcases hc with rfl | rfl | rfl
  · contradiction
  · exact h.old_readable c hmem
  · rw [h.readable_new c hmem]
    rfl

end Items

section Places

variable {C : Type} {item : AtomicApplyItem C} {progress : ParticipantProgress}
  {destination backup : Option C}

theorem Displaced.destination_cases (h : Displaced item progress destination backup) :
    destination = none ∨ destination = item.observed ∨ destination = item.new := by
  cases progress <;> simp only [Displaced] at h <;> tauto

/-- An item to restore has its old content at the destination or in the backup. -/
theorem Displaced.old_place (h : Displaced item progress destination backup)
    (hq : item.disposition.requiresQuarantine = true)
    (hp : validRollbackProgress item.disposition progress = true) (hr : progress ≠ .rolledBack)
    (hn : item.disposition = .managedUpdate →
      progress ≠ .commitPending ∧ progress ≠ .committed ∧ progress ≠ .removePending) :
    (destination = item.observed ∧ backup = none ∧
        validRollbackTransition item.disposition progress .rolledBack = true) ∨
      (destination = none ∧ backup = item.observed ∧ (progress = .restorePending ∨
        validRollbackTransition item.disposition progress .restorePending = true)) := by
  have hheld : item.held = item.observed := if_pos hq
  cases hd : item.disposition <;> simp [hd, StoredDisposition.requiresQuarantine] at hq
  · cases progress <;>
      simp_all [Displaced, validRollbackProgress, validRollbackTransition,
        StoredDisposition.requiresQuarantine]
  · have hnew : item.new = none := if_pos hd
    cases progress <;>
      simp_all [Displaced, validRollbackProgress, validRollbackTransition,
        StoredDisposition.requiresQuarantine]

/-- A rollback that takes more than one step starts from a prepared item. -/
theorem SlotsConsistent.staged {s : Slots C} {next : ParticipantProgress}
    (h : SlotsConsistent item progress s)
    (hv : validRollbackTransition item.disposition progress next = true)
    (hn : next ≠ .rolledBack) : Staged item s.staging := by
  obtain ⟨-, h⟩ := h
  cases progress with
  | unstaged | stagingPending | rolledBack =>
    cases next <;> simp [validRollbackTransition] at hv hn
  | _ => exact h

end Places

namespace PreparedBatch

variable {τ C H R A : Type} [DecidableEq τ] [DecidableEq C] [DecidableEq H] [DecidableEq R]
  [DecidableEq A] {b : PreparedBatch τ C H R A} {origin : BatchStore τ C R}
  {before cursor : AtomicApplyBatchJournalCursor τ H R A} {s : BatchStore τ C R}
  {i : Nat} {item : AtomicApplyItem C} {p : BatchParticipantJournal H}

/-- Rolling back item `i`: no other entry, no staging and no state file changes. -/
structure Rolling (b : PreparedBatch τ C H R A) (origin : BatchStore τ C R)
    (before cursor : AtomicApplyBatchJournalCursor τ H R A) (s : BatchStore τ C R) (i : Nat)
    (item : AtomicApplyItem C) (p : BatchParticipantJournal H) : Prop
    extends b.Entry cursor s i item p where
  phase : cursor.journal.phase = .rollingBack
  others : ∀ j ≠ i, cursor.journal.participants[j]? = before.journal.participants[j]?
  state : s.state = origin.state
  staging : ∀ j, (s.targets j).staging = (origin.targets j).staging

omit [DecidableEq τ] [DecidableEq C] [DecidableEq R] [DecidableEq A] in
theorem Rolling.set_target (h : b.Rolling origin before cursor s i item p)
    {destination backup : Option C}
    (hs : SlotsConsistent item p.progress ⟨destination, (s.targets i).staging, backup⟩) :
    b.Rolling origin before cursor
      ((BatchStore.targetFiles i).set ⟨destination, (s.targets i).staging, backup⟩ s) i item p := by
  refine ⟨h.toEntry.set_target hs, h.phase, h.others, h.state, fun j => ?_⟩
  by_cases hj : j = i
  · subst hj
    simp [h.staging]
  · rw [BatchStore.targetFiles_set_ne hj, h.staging]

omit [DecidableEq τ] [DecidableEq C] [DecidableEq R] [DecidableEq A] in
theorem Rolling.progress (h : b.Rolling origin before cursor s i item p) :
    validRollbackProgress item.disposition p.progress = true := by
  have hallows := h.allows
  rwa [h.phase] at hallows

omit [DecidableEq C] in
/-- Recording the next step of a rollback succeeds whenever the journal fits its file. -/
theorem Rolling.record {next : ParticipantProgress}
    {Q : AtomicApplyBatchJournalCursor τ H R A → BatchStore τ C R → Prop}
    (h : b.Rolling origin before cursor s i item p)
    (hv : validRollbackTransition item.disposition p.progress next = true)
    (hn : validRollbackProgress item.disposition next = true)
    (hs : SlotsConsistent item next (s.targets i))
    (hQ : ∀ (after : AtomicApplyBatchJournalCursor τ H R A) (t : BatchStore τ C R),
      b.Rolling origin before after t i item { p with progress := next } →
      t.targets = s.targets → Q after t) :
    (cursor.transitionParticipant b.env i next).Upholds (fun _ t => b.Recoverable t) Q
      (fun _ t => ¬ b.Within t) s := by
  have hvalid : validParticipantTransition cursor.journal.phase item.disposition p.progress next =
      true := by
    rw [h.phase]
    exact hv
  refine transitionParticipant_upholds h.toEntry ?_ ?_ (fun _ hno => hno hvalid)
  · intro _
    rw [h.phase]
    exact ⟨hn, hs⟩
  · intro after t _ hentry hstate htargets hj
    refine hQ after t ⟨hentry, ?_, ?_, hstate.trans h.state, ?_⟩ htargets
    · rw [hj]
      exact h.phase
    · intro j hne
      rw [hj, List.getElem?_set_ne (Ne.symm hne)]
      exact h.others j hne
    · intro j
      rw [htargets, h.staging]

/-- A rollback of item `i` that ends with its entry rolled back, or finds no room to
record a step. -/
abbrev RollsBack (b : PreparedBatch τ C H R A) (origin : BatchStore τ C R)
    (before : AtomicApplyBatchJournalCursor τ H R A) (i : Nat) (item : AtomicApplyItem C)
    (m : BatchProgram τ C R (AtomicApplyBatchJournalCursor τ H R A)) (s : BatchStore τ C R) :
    Prop :=
  m.Upholds (fun _ t => b.Recoverable t)
    (fun after t => ∃ p, b.Rolling origin before after t i item p ∧ p.progress = .rolledBack)
    (fun _ t => ¬ b.Within t) s

omit [DecidableEq C] in
theorem Rolling.finish (h : b.Rolling origin before cursor s i item p)
    (hv : validRollbackTransition item.disposition p.progress .rolledBack = true)
    (hd : (s.targets i).destination = item.observed) (hb : (s.targets i).backup = none) :
    b.RollsBack origin before i item (cursor.transitionParticipant b.env i .rolledBack) s := by
  have hprogress : validRollbackProgress item.disposition .rolledBack = true := by
    cases item.disposition <;> rfl
  exact h.record hv hprogress ⟨⟨hd, hb⟩, h.slots.remove_staging⟩
    fun after t hafter _ => ⟨_, hafter, rfl⟩

/-- Putting the old content back from the backup. -/
theorem restoreParticipant_upholds (h : b.Rolling origin before cursor s i item p)
    (hq : item.disposition.requiresQuarantine = true)
    (hd : (s.targets i).destination = none) (hb : (s.targets i).backup = item.observed)
    (hv : p.progress = .restorePending ∨
      validRollbackTransition item.disposition p.progress .restorePending = true) :
    b.RollsBack origin before i item
      (restoreParticipant b.env cursor p.toParticipantAuthority p.progress i) s := by
  obtain ⟨content, hash, hobserved, hhash, hold, -⟩ := h.describes.quarantined hq
  have he : expectedHash p.toParticipantAuthority true = .ok hash := by simp [expectedHash, hold]
  have hvalid : validRollbackProgress item.disposition .restorePending = true ∧
      validRollbackTransition item.disposition .restorePending .rolledBack = true := by
    cases hdisp : item.disposition <;>
      simp [hdisp, StoredDisposition.requiresQuarantine, validRollbackTransition,
        validRollbackProgress] at hq ⊢
  have hrestore : ∀ (pending : AtomicApplyBatchJournalCursor τ H R A) (t : BatchStore τ C R)
      (q : BatchParticipantJournal H), b.Rolling origin before pending t i item q →
      q.progress = .restorePending → t.targets = s.targets →
      b.RollsBack origin before i item (do
        let identity ← recoveryIdentity b.env p.toParticipantAuthority i .backup true
        onTarget i recoveryBlocked (ApplyTarget.restoreQuarantined b.env.view identity)
        pending.transitionParticipant b.env i .rolledBack) t := by
    intro pending t q hpending hprogress htargets
    rw [← htargets] at hd hb
    have hstaged := hpending.slots
    rw [hprogress] at hstaged
    have hfiles : t.targets i = ⟨none, (t.targets i).staging, some content⟩ :=
      Slots.ext hd rfl (hb.trans hobserved)
    have hrestored : SlotsConsistent item q.progress
        ⟨some content, (t.targets i).staging, none⟩ := by
      rw [hprogress]
      exact ⟨.inl ⟨hobserved.symm, rfl⟩, hstaged.2⟩
    simp only [RollsBack, Program.bind_upholds]
    refine recoveryIdentity_upholds he (hb.trans hobserved) hhash fun identity hnames => ?_
    refine onTarget_upholds hpending.toEntry ?_
    rw [hfiles, ApplyTarget.restoreQuarantined_upholds hnames (by rw [hhash]; rfl)]
    refine ⟨hrestored, ?_⟩
    refine (hpending.set_target hrestored).finish ?_ ?_ ?_
    · rw [hprogress]
      exact hvalid.2
    · simp [hobserved]
    · simp
  simp only [restoreParticipant, recordProgress]
  by_cases hp : p.progress = .restorePending
  · simp only [hp, ne_eq, not_true_eq_false, if_false, pure_bind]
    exact hrestore cursor s p h hp rfl
  · rw [if_pos hp]
    simp only [RollsBack]
    rw [Program.bind_upholds]
    have hstaged := h.slots.staged (hv.resolve_left hp) (by simp)
    refine h.record (hv.resolve_left hp) hvalid.1 ⟨.inr ⟨hd, hb⟩, hstaged⟩ ?_
    exact fun pending t hpending htargets => hrestore pending t _ hpending rfl htargets

/-- A participant whose old content is in one of its two places gets it back. -/
theorem rollbackDisplaced_upholds (h : b.Rolling origin before cursor s i item p)
    (hq : item.disposition.requiresQuarantine = true) (hr : p.progress ≠ .rolledBack)
    (hn : item.disposition = .managedUpdate → p.progress ≠ .commitPending ∧
      p.progress ≠ .committed ∧ p.progress ≠ .removePending) :
    b.RollsBack origin before i item
      (rollbackDisplaced b.env cursor p.toParticipantAuthority p.progress i) s := by
  obtain ⟨content, hash, hobserved, hhash, hold, -⟩ := h.describes.quarantined hq
  have hplace := h.slots.1.old_place hq h.progress hr hn
  have hreadable : Readable b.env ((s.targets i).get .destination) := by
    refine h.describes.readable ?_
    rcases hplace with ⟨hd, -, -⟩ | ⟨hd, -, -⟩
    · exact .inr (.inl hd)
    · exact .inl hd
  simp only [RollsBack, rollbackDisplaced]
  rw [Program.bind_upholds, participantIsOld_upholds hold hreadable, Slots.get_destination]
  rcases hplace with ⟨hd, hb, hv⟩ | ⟨hd, hb, hv⟩
  · rw [hd, hobserved]
    simp only [Option.any_some, hhash, beq_self_eq_true, if_true]
    exact h.finish hv hd hb
  · rw [hd, Option.any_none, if_neg (by simp), Program.bind_upholds,
      participantIsMissing_upholds hreadable, Slots.get_destination, hd]
    simp only [Option.isNone_none, Program.bind_upholds, Program.require_upholds, if_true]
    exact restoreParticipant_upholds h hq hd hb hv

/-- What a rollback does once an item's new content is gone from its destination. -/
theorem rollbackUninstalled_upholds (h : b.Rolling origin before cursor s i item p)
    (hn : item.disposition = .install ∨ item.disposition = .restore ∨
      item.disposition = .managedUpdate)
    (hp : p.progress ≠ .commitPending ∧ p.progress ≠ .committed ∧ p.progress ≠ .removePending)
    (hr : p.progress ≠ .rolledBack) :
    b.RollsBack origin before i item
      (rollbackUninstalled b.env cursor p.toParticipantAuthority p.progress i) s := by
  unfold rollbackUninstalled
  rw [h.describes.disposition]
  by_cases hm : item.disposition = .managedUpdate
  · rw [if_pos hm]
    exact rollbackDisplaced_upholds h (by simp [hm, StoredDisposition.requiresQuarantine]) hr
      fun _ => hp
  · rw [if_neg hm]
    have hinstall : item.disposition = .install ∨ item.disposition = .restore := by tauto
    have hobserved := h.describes.install_observed hinstall
    have hheld : item.held = none :=
      if_neg (by rcases hinstall with hd | hd <;> simp [hd, StoredDisposition.requiresQuarantine])
    have hdisplaced := h.slots.1
    have hprogress := h.progress
    refine h.finish ?_ ?_ ?_ <;> rcases hinstall with hd | hd <;> rw [hd] at hprogress <;>
      cases hstep : p.progress <;>
      simp_all [Displaced, validRollbackProgress, validRollbackTransition]

omit [DecidableEq τ] in
/-- Removing new content leaves a free destination. -/
theorem removeInstalled_upholds {destinationIsNew : Bool}
    {Q : Unit → BatchStore τ C R → Prop} {E : AtomicApplyBatchTransactionError →
      BatchStore τ C R → Prop}
    (h : b.Rolling origin before cursor s i item p) (hp : p.progress = .removePending)
    (hd : destinationIsNew = true ∧ (∃ content, item.new = some content ∧
        (s.targets i).destination = some content) ∨
      destinationIsNew = false ∧ (s.targets i).destination = none)
    (hQ : ∀ t : BatchStore τ C R, b.Rolling origin before cursor t i item p →
      (t.targets i).destination = none → Q () t) :
    (removeInstalled b.env p.toParticipantAuthority i destinationIsNew).Upholds
      (fun _ t => b.Recoverable t) Q E s := by
  unfold removeInstalled
  rcases hd with ⟨rfl, content, hnew, hd⟩ | ⟨rfl, hd⟩
  · have hhash := h.describes.readable_new content hnew
    have hslots := h.slots
    have hcleared : SlotsConsistent item p.progress
        ⟨none, (s.targets i).staging, (s.targets i).backup⟩ := by
      rw [hp] at hslots ⊢
      exact ⟨⟨.inl rfl, hslots.1.2⟩, hslots.2⟩
    rw [if_pos rfl, Program.bind_upholds]
    refine recoveryIdentity_upholds rfl hd hhash fun identity hnames => ?_
    refine onTarget_upholds h.toEntry ?_
    refine ApplyTarget.removeExact_upholds hcleared hslots (fun _ => ?_) ?_
    · exact hQ _ (h.set_target hcleared) (by simp)
    · rintro e ⟨c, hc, hno⟩
      rw [Slots.get_destination, hd, Option.mem_some_iff] at hc
      exact absurd (hc ▸ hnames) hno
  · have hreadable : Readable b.env ((s.targets i).get .destination) :=
      h.describes.readable (.inl hd)
    rw [if_neg (by simp), Program.bind_upholds, participantIsMissing_upholds hreadable,
      Slots.get_destination, hd]
    exact Program.pure_upholds.mpr (hQ s h hd)

/-- An item that was being installed is free of its new content once that is recorded. -/
theorem uninstall_upholds {destinationIsNew : Bool}
    (h : b.Rolling origin before cursor s i item p)
    (hn : item.disposition = .install ∨ item.disposition = .restore ∨
      item.disposition = .managedUpdate)
    (hp : p.progress = .commitPending ∨ p.progress = .committed ∨ p.progress = .removePending)
    (hnew : destinationIsNew = ((s.targets i).destination.any fun c =>
      b.env.view.hash c == some p.newTargetHash)) :
    b.RollsBack origin before i item (do
      let cursor ← recordProgress b.env cursor p.progress .removePending i
      removeInstalled b.env p.toParticipantAuthority i destinationIsNew
      let cursor ← cursor.transitionParticipant b.env i .removed
      rollbackUninstalled b.env cursor p.toParticipantAuthority .removed i) s := by
  have hvalid : validRollbackProgress item.disposition .removePending = true ∧
      validRollbackProgress item.disposition .removed = true ∧
      validRollbackTransition item.disposition .commitPending .removePending = true ∧
      validRollbackTransition item.disposition .committed .removePending = true ∧
      validRollbackTransition item.disposition .removePending .removed = true := by
    rcases hn with hd | hd | hd <;> rw [hd] <;> decide
  obtain ⟨hremoving, hremoved, hpending, hcommitted, hlast⟩ := hvalid
  have hslots := h.slots
  have hplaced : (s.targets i).destination = none ∨ (s.targets i).destination = item.new := by
    rcases hp with hp | hp | hp <;> rw [hp] at hslots
    · exact hslots.1.1
    · exact .inr hslots.1.1
    · exact hslots.1.1
  have hheld : (s.targets i).backup = item.held := by
    rcases hp with hp | hp | hp <;> rw [hp] at hslots <;> exact hslots.1.2
  have hstaged : Staged item (s.targets i).staging := by
    rcases hp with hp | hp | hp <;> rw [hp] at hslots <;> exact hslots.2
  have hcases : destinationIsNew = true ∧ (∃ content, item.new = some content ∧
        (s.targets i).destination = some content) ∨
      destinationIsNew = false ∧ (s.targets i).destination = none := by
    cases hd : (s.targets i).destination with
    | none => exact .inr ⟨by rw [hnew, hd, Option.any_none], rfl⟩
    | some content =>
      have hmem : item.new = some content := by
        rcases hplaced with hno | hplaced
        · rw [hd] at hno
          contradiction
        · rw [← hplaced, hd]
      have hhash := h.describes.readable_new content hmem
      exact .inl ⟨by rw [hnew, hd, Option.any_some, hhash, beq_self_eq_true], content, hmem, rfl⟩
  have hremove : ∀ (pending : AtomicApplyBatchJournalCursor τ H R A) (t : BatchStore τ C R),
      b.Rolling origin before pending t i item { p with progress := .removePending } →
      t.targets = s.targets →
      b.RollsBack origin before i item (do
        removeInstalled b.env p.toParticipantAuthority i destinationIsNew
        let cursor ← pending.transitionParticipant b.env i .removed
        rollbackUninstalled b.env cursor p.toParticipantAuthority .removed i) t := by
    intro pending t hrolling htargets
    rw [← htargets] at hcases
    simp only [RollsBack, Program.bind_upholds]
    refine removeInstalled_upholds (p := { p with progress := .removePending }) hrolling rfl hcases
      fun u hu hd => ?_
    refine hu.record hlast hremoved ⟨⟨hd, hu.slots.1.2⟩, hu.slots.2⟩ fun after v hafter _ => ?_
    exact rollbackUninstalled_upholds (p := { p with progress := .removed }) hafter hn
      ⟨nofun, nofun, nofun⟩ nofun
  by_cases hsame : p.progress = .removePending
  · simp only [recordProgress, hsame, ne_eq, not_true_eq_false, if_false, pure_bind]
    refine hremove cursor s ?_ rfl
    rwa [show ({ p with progress := .removePending } : BatchParticipantJournal H) = p from by
      rw [← hsame]]
  · simp only [recordProgress, RollsBack]
    rw [if_pos hsame, Program.bind_upholds]
    refine h.record ?_ hremoving ⟨⟨hplaced, hheld⟩, hstaged⟩ hremove
    rcases hp with hp | hp | hp
    · rwa [hp]
    · rwa [hp]
    · exact absurd hp hsame

theorem rollbackInstalled_upholds (h : b.Rolling origin before cursor s i item p)
    (hn : item.disposition = .install ∨ item.disposition = .restore ∨
      item.disposition = .managedUpdate) (hr : p.progress ≠ .rolledBack) :
    b.RollsBack origin before i item
      (rollbackInstalled b.env cursor p.toParticipantAuthority p.progress i) s := by
  have hreadable : Readable b.env ((s.targets i).get .destination) :=
    h.describes.readable h.slots.1.destination_cases
  simp only [RollsBack, rollbackInstalled]
  rw [Program.bind_upholds, participantIsNew_upholds hreadable]
  by_cases hp : p.progress = .commitPending ∨ p.progress = .committed ∨
    p.progress = .removePending
  · rw [if_pos hp]
    exact uninstall_upholds h hn hp rfl
  · rw [if_neg hp]
    have hdisplaced := h.slots.1
    have hprogress := h.progress
    -- before its commit an item has its old content or nothing at the destination
    have hkept : (s.targets i).destination = none ∨
        (s.targets i).destination = item.observed := by
      rcases hn with hd | hd | hd <;> rw [hd] at hprogress <;> cases hstep : p.progress <;>
        simp_all [Displaced, validRollbackProgress] <;> tauto
    have hold : ((s.targets i).destination.any fun c =>
        b.env.view.hash c == some p.newTargetHash) = false := by
      rcases hkept with hd | hd
      · rw [hd, Option.any_none]
      · by_cases hm : item.disposition = .managedUpdate
        · obtain ⟨content, hash, hobserved, hhash, -, hne⟩ := h.describes.quarantined
            (by simp [hm, StoredDisposition.requiresQuarantine])
          simp [hd, hobserved, hhash, hne hm]
        · rw [hd, h.describes.install_observed (by tauto), Option.any_none]
    rw [Slots.get_destination, hold, Program.bind_upholds, Program.require_upholds,
      if_pos (by simp)]
    exact rollbackUninstalled_upholds h hn (by tauto) hr

omit [DecidableEq C] in
theorem rollbackNoOp_upholds (h : b.Rolling origin before cursor s i item p)
    (hn : item.disposition = .noOp) (hr : p.progress ≠ .rolledBack) :
    b.RollsBack origin before i item (do
      let new ← participantIsNew b.env p.toParticipantAuthority i .destination
      Program.require new recoveryBlocked
      cursor.transitionParticipant b.env i .rolledBack) s := by
  have hkept : item.observed = item.new :=
    h.describes.noOp_new hn (b.noOp_content item (List.mem_of_getElem? h.planned))
  obtain ⟨content, hrendered, hhash⟩ := h.describes.new (by simp [hn])
  have hnew : item.new = some content := by
    rw [AtomicApplyItem.new_eq_rendered (by simp [hn]), hrendered]
  have hheld : item.held = none :=
    if_neg (by simp [hn, StoredDisposition.requiresQuarantine])
  have hprogress := h.progress
  have hplaced : (s.targets i).destination = some content ∧ (s.targets i).backup = none ∧
      validRollbackTransition item.disposition p.progress .rolledBack = true := by
    have hdisplaced := h.slots.1
    rw [hn] at hprogress
    cases hstep : p.progress <;>
      simp_all [Displaced, validRollbackProgress, validRollbackTransition]
  obtain ⟨hd, hb, hv⟩ := hplaced
  have hreadable : Readable b.env ((s.targets i).get .destination) :=
    h.describes.readable (.inr (.inr (hd.trans hnew.symm)))
  rw [RollsBack, Program.bind_upholds, participantIsNew_upholds hreadable, Slots.get_destination,
    hd, Option.any_some, hhash, beq_self_eq_true, Program.bind_upholds, Program.require_upholds,
    if_pos rfl]
  exact h.finish hv (hd.trans (hkept.trans hnew).symm) hb

theorem rollbackParticipant_upholds (h : b.Rolling origin cursor cursor s i item p) :
    b.RollsBack origin cursor i item (rollbackParticipant b.env cursor i) s := by
  unfold rollbackParticipant
  simp only [h.entry, h.describes.disposition]
  by_cases hr : p.progress = .rolledBack
  · rw [if_pos hr]
    exact Program.pure_upholds.mpr ⟨p, h, hr⟩
  rw [if_neg hr]
  cases hd : item.disposition with
  | noOp => exact rollbackNoOp_upholds h hd hr
  | remove =>
    exact rollbackDisplaced_upholds h (by simp [hd, StoredDisposition.requiresQuarantine]) hr
      (by simp [hd])
  | install => exact rollbackInstalled_upholds h (.inl hd) hr
  | restore => exact rollbackInstalled_upholds h (.inr (.inl hd)) hr
  | managedUpdate => exact rollbackInstalled_upholds h (.inr (.inr hd)) hr

end PreparedBatch

end Kitrove
