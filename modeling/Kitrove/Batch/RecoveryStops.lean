import Kitrove.Batch.ParticipantRecovery

/-! Wherever a recovery of a prepared batch stops, its files are recoverable, and a
recovery that ends leaves every file on one side. -/

namespace Kitrove

open Crash AtomicApplyBatchTransactionError

namespace PreparedBatch

variable {τ C H R A : Type} [DecidableEq τ] [DecidableEq C] [DecidableEq H] [DecidableEq R]
  [DecidableEq A] {b : PreparedBatch τ C H R A} {origin : BatchStore τ C R}
  {cursor : AtomicApplyBatchJournalCursor τ H R A} {s : BatchStore τ C R}
  {i : Nat} {item : AtomicApplyItem C} {p : BatchParticipantJournal H}

/-- What is staged has the hash of the new content or text, and no text is held back. -/
structure Clear (b : PreparedBatch τ C H R A) (s : BatchStore τ C R) : Prop where
  target : ∀ i item, b.plan.items[i]? = some item → ∀ staged ∈ (s.targets i).staging,
    ∃ new ∈ item.new, b.env.view.hash staged = b.env.view.hash new
  state : ∀ staged ∈ s.state.staging, b.env.platform.len staged ≤ maxControlBytes ∧
    b.env.digest staged = b.env.digest b.plan.proposedLocalStateText
  backup : s.state.backup = none

section Cleanup

variable {path : SlotName} {old : Bool} {Q : Unit → BatchStore τ C R → Prop}
  {E : AtomicApplyBatchTransactionError → BatchStore τ C R → Prop}

omit [DecidableEq τ] in
/-- Clearing a path succeeds exactly when what it holds has the expected hash. -/
theorem clearExactRecoveryPath_upholds (h : b.Entry cursor s i item p)
    (hclear : SlotsConsistent item p.progress ((s.targets i).set path none))
    (hQ : (∀ c ∈ (s.targets i).get path, ∃ hash,
        expectedHash p.toParticipantAuthority old = .ok hash ∧ b.env.view.hash c = some hash) →
      Q () ((BatchStore.targetFiles i).set ((s.targets i).set path none) s))
    (hE : (∃ c ∈ (s.targets i).get path, ∀ hash,
      expectedHash p.toParticipantAuthority old = .ok hash → b.env.view.hash c ≠ some hash) →
      ∀ t, E recoveryBlocked t) :
    (clearExactRecoveryPath b.env p.toParticipantAuthority i path old).Upholds
      (fun _ t => b.Recoverable t) Q E s := by
  simp only [clearExactRecoveryPath, Program.bind_upholds]
  cases hc : (s.targets i).get path with
  | none =>
    have hreadable : Readable b.env ((s.targets i).get path) := by simp [Readable, hc]
    have hsame : (BatchStore.targetFiles i).set ((s.targets i).set path none) s = s := by
      rw [← hc, Slots.set_get, ← BatchStore.targetFiles_get, Lens.set_get]
    rw [hsame] at hQ
    rw [participantIsMissing_upholds hreadable, hc, Option.isNone_none, if_pos rfl]
    exact Program.pure_upholds.mpr (hQ (by simp [hc]))
  | some c =>
    by_cases hmatch : ∃ hash, expectedHash p.toParticipantAuthority old = .ok hash ∧
      b.env.view.hash c = some hash
    · obtain ⟨hash, he, hhash⟩ := hmatch
      have hreadable : Readable b.env ((s.targets i).get path) := by simp [Readable, hc, hhash]
      rw [participantIsMissing_upholds hreadable, hc, Option.isNone_some, if_neg (by simp)]
      rw [Program.bind_upholds]
      refine recoveryIdentity_upholds he hc hhash fun identity hnames => ?_
      refine onTarget_upholds h (ApplyTarget.removeExact_upholds hclear h.slots (fun _ => ?_) ?_)
      · exact hQ fun c' hc' => by
          rw [hc, Option.mem_some_iff] at hc'
          exact ⟨hash, he, hc' ▸ hhash⟩
      · rintro e ⟨c', hc', hno⟩
        rw [hc, Option.mem_some_iff] at hc'
        exact absurd (hc' ▸ hnames) hno
    · have hblocked : ∀ t, E recoveryBlocked t := by
        refine hE ⟨c, hc, fun hash he hhash => hmatch ⟨hash, he, hhash⟩⟩
      have hremove : ∀ identity : ApplyTargetIdentity C H, ¬ identity.Names b.env.view c →
          (onTarget i recoveryBlocked (ApplyTarget.removeExact b.env.view path identity)).Upholds
            (fun _ t => b.Recoverable t) Q E s := by
        intro identity hno
        refine onTarget_upholds h (ApplyTarget.removeExact_upholds hclear h.slots ?_
          fun _ _ => hblocked _)
        exact fun hnames => absurd (hnames c hc) hno
      unfold participantIsMissing recoveryIdentity
      cases he : expectedHash p.toParticipantAuthority old with
      | error e =>
        have hblamed : e = recoveryBlocked := by
          unfold expectedHash at he
          split at he
          · split at he <;> cases he
            rfl
          · cases he
        subst hblamed
        cases p.kind.target <;> simp [hc, hblocked]
      | ok hash =>
        have hno : ¬ b.env.view.hash c = some hash := fun hhash => hmatch ⟨hash, he, hhash⟩
        cases p.kind.target with
        | skill => simpa [hc] using hremove (.skill hash) hno
        | extension => simp [hc, hno, hblocked]
        | exactText => simp [hc, hno, hblocked]

/-- Cleaning up after a terminal batch, participants below `k` swept. -/
structure Sweeping (b : PreparedBatch τ C H R A) (origin : BatchStore τ C R)
    (cursor : AtomicApplyBatchJournalCursor τ H R A) (k : Nat) (s : BatchStore τ C R) : Prop where
  settled : b.At cursor s
  state : s.state = origin.state
  swept : ∀ j < k, ∀ item, b.plan.items[j]? = some item →
    (s.targets j).staging = none ∧ (s.targets j).backup = none ∧
      ∀ staged ∈ (origin.targets j).staging, ∃ new ∈ item.new,
        b.env.view.hash staged = b.env.view.hash new
  waiting : ∀ j ≥ k, (s.targets j).staging = (origin.targets j).staging

omit [DecidableEq τ] [DecidableEq C] [DecidableEq R] [DecidableEq A] in
/-- At the end of a batch an item's backup is gone or holds its old content. -/
theorem Entry.terminal (h : b.Entry cursor s i item p)
    (ht : cursor.journal.phase = .verified ∨ cursor.journal.phase = .rolledBack) :
    SlotsConsistent item p.progress ((s.targets i).set .backup none) ∧
      ∀ c ∈ (s.targets i).backup, ∃ hash,
        expectedHash p.toParticipantAuthority true = .ok hash ∧ b.env.view.hash c = some hash := by
  have hallows := h.allows
  have hslots := h.slots
  rcases ht with ht | ht <;> rw [ht] at hallows <;>
    rw [show p.progress = _ from hallows] at hslots ⊢
  · refine ⟨⟨⟨hslots.1.1, .inl rfl⟩, hslots.2⟩, fun c hc => ?_⟩
    rcases hslots.1.2 with hb | hb
    · rw [hb] at hc
      contradiction
    · rw [hb, AtomicApplyItem.held] at hc
      split at hc
      · rename_i hq
        obtain ⟨content, hash, hobserved, hhash, hold, -⟩ := h.describes.quarantined hq
        rw [hobserved, Option.mem_some_iff] at hc
        exact ⟨hash, by simp [expectedHash, hold], hc ▸ hhash⟩
      · contradiction
  · refine ⟨⟨⟨hslots.1.1, rfl⟩, hslots.2⟩, fun c hc => ?_⟩
    rw [hslots.1.2] at hc
    contradiction

omit [DecidableEq τ] in
theorem cleanupRecoveryParticipant_upholds (h : b.Sweeping origin cursor i s)
    (ht : cursor.journal.phase = .verified ∨ cursor.journal.phase = .rolledBack)
    (hp : cursor.journal.participants[i]? = some p) :
    (cleanupRecoveryParticipant b.env (p, i)).Upholds (fun _ t => b.Recoverable t)
      (fun _ t => b.Sweeping origin cursor (i + 1) t)
      (fun e _ => e = recoveryBlocked ∧ ¬ b.Clear origin) s := by
  obtain ⟨item, hi⟩ := h.settled.consistent.owns.hasItem hp
  have hentry : b.Entry cursor s i item p := ⟨h.settled, hp, hi⟩
  -- clearing the backup comes second, and nothing can be wrong with it
  have hbackup : ∀ t : BatchStore τ C R, b.Entry cursor t i item p → t.state = s.state →
      (∀ j ≠ i, t.targets j = s.targets j) → (t.targets i).staging = none →
      (∀ staged ∈ (origin.targets i).staging, ∃ new ∈ item.new,
        b.env.view.hash staged = b.env.view.hash new) →
      (clearExactRecoveryPath b.env p.toParticipantAuthority i .backup true).Upholds
        (fun _ t => b.Recoverable t) (fun _ t => b.Sweeping origin cursor (i + 1) t)
        (fun e _ => e = recoveryBlocked ∧ ¬ b.Clear origin) t := by
    intro t hentry hstate htargets hstaging hnew
    obtain ⟨hclear, hheld⟩ := hentry.terminal ht
    refine clearExactRecoveryPath_upholds hentry hclear (fun _ => ?_) ?_
    · refine ⟨(hentry.set_target hclear).settled, hstate.trans h.state, ?_, ?_⟩
      · intro j hj item' hi'
        by_cases he : j = i
        · subst he
          rw [hi, Option.some.injEq] at hi'
          subst hi'
          exact ⟨by simpa using hstaging, by simp, hnew⟩
        · rw [BatchStore.targetFiles_set_ne he, htargets j he]
          exact h.swept j (by omega) item' hi'
      · intro j hj
        rw [BatchStore.targetFiles_set_ne (by omega), htargets j (by omega)]
        exact h.waiting j (by omega)
    · rintro ⟨c, hc, hno⟩
      obtain ⟨hash, he, hhash⟩ := hheld c hc
      exact absurd hhash (hno hash he)
  simp only [cleanupRecoveryParticipant, clearRecoveryStaging, Program.bind_upholds]
  rw [hentry.describes.disposition]
  by_cases hr : item.disposition = .remove
  · have hnone := hentry.slots.remove_staging hr
    rw [if_neg (by simp [hr])]
    refine Program.pure_upholds.mpr (hbackup s hentry rfl (fun _ _ => rfl) hnone ?_)
    rw [← h.waiting i le_rfl, hnone]
    simp
  · rw [if_pos hr]
    obtain ⟨new, hrendered, hnew⟩ := hentry.describes.new hr
    have hmem : item.new = some new := by rw [AtomicApplyItem.new_eq_rendered hr, hrendered]
    refine clearExactRecoveryPath_upholds hentry hentry.slots.clear_staging ?_ ?_
    · intro hstaged
      refine hbackup _ (hentry.set_target hentry.slots.clear_staging) rfl
        (fun j hj => BatchStore.targetFiles_set_ne hj) (by simp) ?_
      rw [← h.waiting i le_rfl]
      intro staged hs
      obtain ⟨hash, he, hhash⟩ := hstaged staged hs
      obtain rfl : p.newTargetHash = hash := Except.ok.inj he
      exact ⟨new, hmem, hhash.trans hnew.symm⟩
    · rintro ⟨staged, hs, hno⟩ _
      refine ⟨rfl, fun hc => ?_⟩
      rw [Slots.get_staging, h.waiting i le_rfl] at hs
      obtain ⟨new', hmem', hhash⟩ := hc.target i item hi staged hs
      rw [hmem, Option.mem_some_iff] at hmem'
      subst hmem'
      exact hno _ rfl (hhash.trans hnew)

/-- What a recovery that removed its journal leaves, and what it says of where it began. -/
structure Cleaned (b : PreparedBatch τ C H R A) (origin s : BatchStore τ C R) : Prop where
  journal : s.journal = ⟨none, none, none⟩
  swept : b.Swept s
  backup : s.state.backup = origin.state.backup
  clear : origin.state.backup = none → b.Clear origin

omit [DecidableEq C] [DecidableEq τ] in
/-- The staged machine state is removed once it is known to be the new one. -/
theorem cleanupRecoveryState_upholds {Q : Unit → BatchStore τ C R → Prop} (h : b.At cursor s)
    (ht : cursor.journal.phase = .verified ∨ cursor.journal.phase = .rolledBack)
    (hQ : ∀ t : BatchStore τ C R, b.At cursor t → t.targets = s.targets →
      t.state = { s.state with staging := none } →
      (∀ staged ∈ s.state.staging, b.env.platform.len staged ≤ maxControlBytes ∧
        b.env.digest staged = b.env.digest b.plan.proposedLocalStateText) → Q () t) :
    (cleanupRecoveryState b.env cursor.journal.newStateHash).Upholds (fun _ t => b.Recoverable t) Q
      (fun e _ => e = recoveryBlocked ∧ ∃ staged ∈ s.state.staging,
        ¬ (b.env.platform.len staged ≤ maxControlBytes ∧
          b.env.digest staged = b.env.digest b.plan.proposedLocalStateText)) s := by
  have hc := h.consistent.state
  have hclear : StateConsistent b.plan.observedLocalStateText b.plan.proposedLocalStateText
      cursor.journal.phase { s.state with staging := none } := by
    rcases ht with ht | ht <;> rw [ht] at hc ⊢
    · refine ⟨hc.1, .inl ⟨rfl, ?_⟩⟩
      rcases hc.2 with ⟨-, hbackup⟩ | ⟨-, hbackup⟩
      · exact hbackup
      · exact .inl hbackup
    · exact ⟨hc.1, hc.2⟩
  have hread : (onState recoveryBlocked
      (readText b.env.platform .staging maxControlBytes)).Upholds
      (fun _ t => b.Recoverable t) (fun staged t => t = s ∧ staged = s.state.staging ∧
        ∀ text ∈ staged, b.env.platform.len text ≤ maxControlBytes)
      (fun e _ => e = recoveryBlocked ∧
        ∃ text ∈ s.state.staging, ¬ b.env.platform.len text ≤ maxControlBytes) s := by
    refine onState_upholds h (readText_upholds.mpr ?_)
    rw [← BatchStore.stateFiles_get, Lens.set_get]
    cases hs : (BatchStore.stateFiles.get s).get .staging with
    | none => simpa using hs.symm
    | some text =>
      by_cases hlen : b.env.platform.len text ≤ maxControlBytes
      · simpa [hlen] using hs.symm
      · simpa [hlen] using ⟨text, hs, by omega⟩
  simp only [cleanupRecoveryState, Program.bind_upholds]
  refine hread.mono (fun _ _ => id) ?_ ?_
  · rintro staged t ⟨rfl, rfl, hlen⟩
    rw [h.consistent.owns.newStateHash]
    cases hs : t.state.staging with
    | none =>
      have hsame : { t.state with staging := none } = t.state := Slots.ext rfl hs.symm rfl
      rw [hsame] at hQ
      exact Program.pure_upholds.mpr (hQ t h rfl rfl (by simp [hs]))
    | some text =>
      rw [hs] at hlen
      dsimp only
      split
      · rename_i hd
        refine onState_upholds h (Slots.remove_upholds.mpr ⟨hclear, ?_⟩)
        refine hQ _ (h.set_state hclear) rfl rfl ?_
        rw [hs]
        rintro staged ⟨⟩
        exact ⟨hlen text rfl, hd⟩
      · rename_i hd
        exact Program.fail_upholds.mpr ⟨rfl, text, rfl, fun hc => hd hc.2⟩
  · rintro _ _ ⟨he, text, hs, hlen⟩
    exact ⟨he, text, hs, fun hc => hlen hc.1⟩

omit [DecidableEq τ] in
theorem cleanupRecoveryArtifacts_upholds (h : b.At cursor s)
    (ht : cursor.journal.phase = .verified ∨ cursor.journal.phase = .rolledBack)
    (hstate : s.state = origin.state)
    (hstaging : ∀ j, (s.targets j).staging = (origin.targets j).staging) :
    (cleanupRecoveryArtifacts b.env cursor).Upholds (fun _ t => b.Recoverable t)
      (fun _ t => b.Cleaned origin t ∧ (cursor.journal.phase = .verified ∧ b.AllNew t ∨
        cursor.journal.phase = .rolledBack ∧ b.AllOld t))
      (fun e _ => e = recoveryBlocked ∧ ¬ b.Clear origin) s := by
  simp only [cleanupRecoveryArtifacts, Program.bind_upholds]
  refine (Program.foldlM_zipIdx_upholds
    (R := fun k _ t => b.Sweeping origin cursor k t) ?_
    ⟨h, hstate, by simp, fun j _ => hstaging j⟩).mono (fun _ _ => id) ?_ (fun _ _ => id)
  · intro k p _ t hk ht'
    exact cleanupRecoveryParticipant_upholds ht' ht hk
  intro _ t hsweeping
  refine (cleanupRecoveryState_upholds hsweeping.settled ht ?_).mono (fun _ _ => id) (fun _ _ => id)
    ?_
  · intro u hu htargets hustate hstaged
    have hlt : ∀ j item, b.plan.items[j]? = some item → j < cursor.journal.participants.length := by
      intro j item hj
      rw [h.consistent.owns.length]
      exact (List.getElem?_eq_some_iff.mp hj).1
    have hswept : b.Swept u := by
      refine ⟨fun j item hj => ?_, by rw [hustate]⟩
      obtain ⟨hs, hb, -⟩ := hsweeping.swept j (hlt j item hj) item hj
      rw [htargets]
      exact ⟨hs, hb⟩
    refine removeTerminal_upholds hu hswept ?_ ?_
    · intro v hjournal hvstate hvtargets hside
      refine ⟨⟨hjournal, ⟨?_, ?_⟩, ?_, fun hb => ⟨?_, ?_, hb⟩⟩, hside⟩
      · rw [hvtargets]
        exact hswept.target
      · rw [hvstate]
        exact hswept.state
      · rw [hvstate, hustate, hsweeping.state]
      · exact fun j item hj => (hsweeping.swept j (hlt j item hj) item hj).2.2
      · rwa [hsweeping.state] at hstaged
    · rintro e ⟨hv, hr⟩
      rcases ht with ht | ht
      · exact absurd ht hv
      · exact absurd ht hr
  · rintro _ _ ⟨he, staged, hs, hno⟩
    refine ⟨he, fun hc => ?_⟩
    rw [hsweeping.state] at hs
    exact hno (hc.state staged hs)

end Cleanup

/-- A recovery in progress: the journal is in place, no staging and no state file changed. -/
structure Recovering (b : PreparedBatch τ C H R A) (origin : BatchStore τ C R)
    (cursor : AtomicApplyBatchJournalCursor τ H R A) (s : BatchStore τ C R) : Prop where
  settled : b.At cursor s
  state : s.state = origin.state
  staging : ∀ j, (s.targets j).staging = (origin.targets j).staging

variable (b) in
/-- Why a recovery from `origin` fails: a journal does not fit, the machine state cannot be
read, or something staged is unknown. -/
inductive Blocked (origin : BatchStore τ C R) (e : AtomicApplyBatchTransactionError)
    (s : BatchStore τ C R) : Prop
  | journal : ¬ b.Within s → Blocked origin e s
  | state : ¬ (b.Fits ∧ b.Clear origin) → (∀ text ∈ origin.state.destination,
      ¬ b.env.platform.len text ≤ maxControlBytes) → Blocked origin e s
  | staged : e = recoveryBlocked → ¬ b.Clear origin → Blocked origin e s

omit [DecidableEq τ] [DecidableEq C] in
theorem Blocked.not_clear {e : AtomicApplyBatchTransactionError} (h : b.Blocked origin e s) :
    ¬ (b.Fits ∧ b.Clear origin) := by
  rintro ⟨hfits, hclear⟩
  cases h with
  | journal hno => exact hno (hfits.within s)
  | state hno => exact hno ⟨hfits, hclear⟩
  | staged _ hno => exact hno hclear

/-- A recovery step fails only where it is blocked. -/
abbrev RecoveryUpholds (b : PreparedBatch τ C H R A) (origin : BatchStore τ C R) {α : Type}
    (m : BatchProgram τ C R α) (Q : α → BatchStore τ C R → Prop) (s : BatchStore τ C R) : Prop :=
  m.Upholds (fun _ t => b.Recoverable t) Q (b.Blocked origin) s

section Forward

omit [DecidableEq τ] [DecidableEq R] [DecidableEq A] in
/-- In the phases recovered forward every item has its new content in place. -/
theorem completeParticipant_upholds {G : BatchStore τ C R → BatchStore τ C R → Prop}
    {Q : Unit → BatchStore τ C R → Prop}
    {E : AtomicApplyBatchTransactionError → BatchStore τ C R → Prop}
    (h : b.At cursor s) (hp : cursor.journal.participants[i]? = some p)
    (hdone : p.progress = .committed ∨ p.progress = .verified) (hQ : Q () s) :
    (completeParticipant b.env (p, i)).Upholds G Q E s := by
  obtain ⟨item, hi⟩ := h.consistent.owns.hasItem hp
  have hentry : b.Entry cursor s i item p := ⟨h, hp, hi⟩
  have hslots := hentry.slots
  have hplaced : (s.targets i).get .destination = item.new := by
    rcases hdone with hd | hd <;> rw [hd] at hslots <;> exact hslots.1.1
  have hreadable : Readable b.env ((s.targets i).get .destination) :=
    hentry.describes.readable (.inr (.inr hplaced))
  simp only [completeParticipant, hentry.describes.disposition]
  by_cases hr : item.disposition = .remove
  · have hnone : item.new = none := if_pos hr
    rw [if_pos hr, Program.bind_upholds, participantIsMissing_upholds hreadable, hplaced, hnone]
    simpa using hQ
  · obtain ⟨new, hrendered, hnew⟩ := hentry.describes.new hr
    have hmem : item.new = some new := by rw [AtomicApplyItem.new_eq_rendered hr, hrendered]
    rw [if_neg hr, Program.bind_upholds, participantIsNew_upholds hreadable, hplaced, hmem]
    simpa [hnew] using hQ

/-- Participants below `k` of a committed batch are recorded as verified. -/
structure Verifying (b : PreparedBatch τ C H R A) (origin : BatchStore τ C R) (n k : Nat)
    (cursor : AtomicApplyBatchJournalCursor τ H R A) (s : BatchStore τ C R) : Prop
    extends b.Recovering origin cursor s where
  phase : cursor.journal.phase = .stateCommitted
  length : cursor.journal.participants.length = n
  verified : ∀ j < k, ∀ q, cursor.journal.participants[j]? = some q → q.progress = .verified

omit [DecidableEq C] in
theorem verifyParticipant_upholds {n k : Nat} (h : b.Verifying origin n k cursor s) (hk : k < n) :
    b.RecoveryUpholds origin (verifyParticipant b.env cursor k)
      (fun after t => b.Verifying origin n (k + 1) after t) s := by
  obtain ⟨p, hp⟩ : ∃ p, cursor.journal.participants[k]? = some p :=
    ⟨_, List.getElem?_eq_getElem (h.length ▸ hk)⟩
  obtain ⟨item, hi⟩ := h.settled.consistent.owns.hasItem hp
  have hentry : b.Entry cursor s k item p := ⟨h.settled, hp, hi⟩
  have hallows := hentry.allows
  rw [h.phase] at hallows
  have hbelow : ∀ (after : AtomicApplyBatchJournalCursor τ H R A) (q : BatchParticipantJournal H),
      after.journal.participants[k]? = some q → q.progress = .verified →
      (∀ j ≠ k, after.journal.participants[j]? = cursor.journal.participants[j]?) →
      ∀ j < k + 1, ∀ q', after.journal.participants[j]? = some q' → q'.progress = .verified := by
    intro after q hq hprogress hothers j hj q' hq'
    by_cases he : j = k
    · subst he
      rw [hq, Option.some.injEq] at hq'
      rwa [← hq']
    · rw [hothers j he] at hq'
      exact h.verified j (by omega) q' hq'
  simp only [RecoveryUpholds, verifyParticipant, hp, Option.map_some, Option.some.injEq]
  by_cases hc : p.progress = .committed
  · have hslots := hentry.slots
    rw [hc] at hslots
    have hvalid : validParticipantTransition cursor.journal.phase item.disposition p.progress
        .verified = true := by simp [h.phase, hc, validParticipantTransition]
    rw [if_pos hc]
    refine transitionParticipant_upholds hentry ?_ ?_ (fun _ hno => .journal (hno hvalid))
    · intro _
      rw [h.phase]
      exact ⟨.inr rfl, ⟨hslots.1.1, .inr hslots.1.2⟩, hslots.2⟩
    · intro after t _ hafter hstate htargets hj
      refine ⟨⟨hafter.settled, hstate.trans h.state, fun j => ?_⟩, ?_, ?_, ?_⟩
      · rw [htargets, h.staging]
      · rw [hj]
        exact h.phase
      · rw [hj, List.length_set, h.length]
      · refine hbelow after _ hafter.entry rfl fun j hne => ?_
        rw [hj, List.getElem?_set_ne (Ne.symm hne)]
  · rw [if_neg hc]
    exact Program.pure_upholds.mpr ⟨h.toRecovering, h.phase, h.length,
      hbelow cursor p hp (hallows.resolve_left hc) fun _ _ => rfl⟩

omit [DecidableEq C] in
theorem verifyRecovered_upholds (h : b.Recovering origin cursor s)
    (hphase : cursor.journal.phase = .stateCommitted ∨ cursor.journal.phase = .verified) :
    b.RecoveryUpholds origin (verifyRecovered b.env cursor)
      (fun after t => b.Recovering origin after t ∧ after.journal.phase = .verified) s := by
  unfold verifyRecovered
  by_cases hp : cursor.journal.phase = .stateCommitted
  · rw [if_pos hp]
    simp only [RecoveryUpholds, Program.bind_upholds]
    refine (Program.foldlM_range_upholds
      (R := fun k after t => b.Verifying origin cursor.journal.participants.length k after t)
      (fun k after t hk ht => ?_) ⟨h, hp, rfl, by simp⟩).mono (fun _ _ => id) ?_ (fun _ _ => id)
    · exact verifyParticipant_upholds ht hk
    intro after t ht
    have hverified : ∀ q ∈ after.journal.participants, q.progress = .verified := by
      intro q hq
      obtain ⟨j, hj⟩ := List.mem_iff_getElem?.mp hq
      refine ht.verified j ?_ q hj
      rw [← ht.length]
      exact (List.getElem?_eq_some_iff.mp hj).1
    have hstate := ht.settled.consistent.state
    rw [ht.phase] at hstate
    refine transitionPhase_upholds ht.settled (fun _ _ => hstate) ?_ ?_
    · intro final u hat hustate hutargets _ hj
      refine ⟨⟨hat, hustate.trans ht.state, fun j => ?_⟩, by rw [hj]⟩
      rw [hutargets, ht.staging]
    · intro e hno
      refine .journal (hno (by rw [ht.phase]; rfl) fun q hq => ?_)
      simp [validProgress, hverified q hq]
  · rw [if_neg hp]
    exact Program.pure_upholds.mpr ⟨h, hphase.resolve_left hp⟩

theorem recoverForward_upholds (h : b.Recovering origin cursor s)
    (hphase : cursor.journal.phase = .newTargetsCommitted ∨
      cursor.journal.phase = .stateCommitted ∨ cursor.journal.phase = .verified)
    (hstate : StateConsistent b.plan.observedLocalStateText b.plan.proposedLocalStateText
      .stateCommitted s.state) :
    b.RecoveryUpholds origin (recoverForward b.env cursor)
      (fun _ t => b.Cleaned origin t ∧ b.AllNew t) s := by
  have hdone : ∀ p ∈ cursor.journal.participants,
      p.progress = .committed ∨ p.progress = .verified := by
    intro p hp
    obtain ⟨i, hi⟩ := List.mem_iff_getElem?.mp hp
    obtain ⟨item, hitem⟩ := h.settled.consistent.owns.hasItem hi
    have hallows := Entry.allows ⟨h.settled, hi, hitem⟩
    rcases hphase with hphase | hphase | hphase <;> rw [hphase] at hallows
    · exact .inl hallows
    · exact hallows
    · exact .inr hallows
  simp only [RecoveryUpholds, recoverForward, Program.bind_upholds, Program.inspect_upholds,
    Program.require_upholds, h.settled.consistent.revision,
    h.settled.consistent.owns.manifestRevision, beq_self_eq_true, if_true]
  refine (Program.foldlM_zipIdx_upholds (R := fun _ _ t => t = s) ?_ rfl).mono
    (fun _ _ => id) ?_ (fun _ _ => id)
  · rintro k p _ t hk rfl
    exact completeParticipant_upholds h.settled hk (hdone p (List.mem_of_getElem? hk)) rfl
  rintro _ t rfl
  have hverify : ∀ (after : AtomicApplyBatchJournalCursor τ H R A) (u : BatchStore τ C R),
      b.Recovering origin after u →
      (after.journal.phase = .stateCommitted ∨ after.journal.phase = .verified) →
      b.RecoveryUpholds origin (do
        let cursor ← verifyRecovered b.env after
        Program.require (cursor.journal.phase == .verified) recoveryBlocked
        cleanupRecoveryArtifacts b.env cursor)
        (fun _ t => b.Cleaned origin t ∧ b.AllNew t) u := by
    intro after u hu hp
    simp only [RecoveryUpholds, Program.bind_upholds]
    refine (verifyRecovered_upholds hu hp).mono (fun _ _ => id) ?_ (fun _ _ => id)
    rintro verified v ⟨hv, hpv⟩
    rw [hpv, Program.require_upholds, if_pos (by simp)]
    refine (cleanupRecoveryArtifacts_upholds hv.settled (.inl hpv) hv.state hv.staging).mono
      (fun _ _ => id) ?_ (fun _ _ hno => .staged hno.1 hno.2)
    rintro _ w ⟨hcleaned, ⟨-, hside⟩ | ⟨hp, -⟩⟩
    · exact ⟨hcleaned, hside⟩
    · rw [hpv] at hp
      contradiction
  unfold commitRecoveredState
  split
  · rename_i hp
    refine transitionPhase_upholds h.settled (fun _ _ => hstate) ?_ ?_
    · intro after u hat hustate hutargets _ hj
      have hu : b.Recovering origin after u := by
        refine ⟨hat, hustate.trans h.state, fun j => ?_⟩
        rw [hutargets, h.staging]
      have := hverify after u hu (.inl (by rw [hj]))
      simpa only [RecoveryUpholds, Program.bind_upholds, Program.require_upholds] using this
    · intro e hno
      refine .journal (hno (by rw [hp]; rfl) fun q hq => ?_)
      rcases hdone q hq with hd | hd <;> simp [validProgress, hd]
  · rename_i hp
    have := hverify cursor t h (hphase.resolve_left hp)
    simpa only [RecoveryUpholds, Program.bind_upholds, Program.pure_upholds,
      Program.require_upholds] using this

end Forward

section Rollback

/-- Participants from `k` on of a batch that is rolled back are recorded as rolled back. -/
structure RollingBack (b : PreparedBatch τ C H R A) (origin : BatchStore τ C R) (n k : Nat)
    (cursor : AtomicApplyBatchJournalCursor τ H R A) (s : BatchStore τ C R) : Prop
    extends b.Recovering origin cursor s where
  phase : cursor.journal.phase = .rollingBack
  length : cursor.journal.participants.length = n
  rolledBack : ∀ j ≥ k, ∀ q, cursor.journal.participants[j]? = some q → q.progress = .rolledBack

theorem rollbackStep_upholds {n k : Nat} (hk : k < n)
    (h : b.RollingBack origin n (k + 1) cursor s) :
    b.RecoveryUpholds origin (rollbackParticipant b.env cursor k)
      (fun after t => b.RollingBack origin n k after t) s := by
  have hp : cursor.journal.participants[k]? = some _ :=
    List.getElem?_eq_getElem (h.length ▸ hk)
  obtain ⟨item, hi⟩ := h.settled.consistent.owns.hasItem hp
  have hrolling : b.Rolling origin cursor cursor s k item _ :=
    ⟨⟨h.settled, hp, hi⟩, h.phase, fun _ _ => rfl, h.state, h.staging⟩
  refine (rollbackParticipant_upholds hrolling).mono (fun _ _ => id) ?_ (fun _ _ => .journal)
  rintro after t ⟨q, hafter, hq⟩
  refine ⟨⟨hafter.settled, hafter.state, hafter.staging⟩, hafter.phase, ?_, ?_⟩
  · rw [hafter.settled.consistent.owns.length, ← h.settled.consistent.owns.length, h.length]
  · intro j hj q' hq'
    by_cases he : j = k
    · subst he
      rw [hafter.entry, Option.some.injEq] at hq'
      rwa [← hq']
    · rw [hafter.others j he] at hq'
      exact h.rolledBack j (by omega) q' hq'

theorem recoverRollback_upholds (h : b.Recovering origin cursor s)
    (hphase : cursor.journal.phase = .rolledBack ∨ cursor.journal.phase = .rollingBack ∨
      validPhaseTransition cursor.journal.phase .rollingBack = true)
    (hstate : StateConsistent b.plan.observedLocalStateText b.plan.proposedLocalStateText
      .rollingBack s.state) :
    b.RecoveryUpholds origin (recoverRollback b.env cursor)
      (fun _ t => b.Cleaned origin t ∧ b.AllOld t) s := by
  have hcleanup : ∀ (after : AtomicApplyBatchJournalCursor τ H R A) (t : BatchStore τ C R),
      b.Recovering origin after t → after.journal.phase = .rolledBack →
      b.RecoveryUpholds origin (cleanupRecoveryArtifacts b.env after)
        (fun _ t => b.Cleaned origin t ∧ b.AllOld t) t := by
    intro after t ht hp
    refine (cleanupRecoveryArtifacts_upholds ht.settled (.inr hp) ht.state ht.staging).mono
      (fun _ _ => id) ?_ (fun _ _ hno => .staged hno.1 hno.2)
    rintro _ u ⟨hcleaned, ⟨hv, -⟩ | ⟨-, hside⟩⟩
    · rw [hp] at hv
      contradiction
    · exact ⟨hcleaned, hside⟩
  unfold recoverRollback
  by_cases hrolled : cursor.journal.phase = .rolledBack
  · rw [if_pos hrolled]
    exact hcleanup cursor s h hrolled
  rw [if_neg hrolled]
  simp only [RecoveryUpholds]
  have hloop : ∀ (after : AtomicApplyBatchJournalCursor τ H R A) (t : BatchStore τ C R),
      b.Recovering origin after t → after.journal.phase = .rollingBack →
      b.RecoveryUpholds origin (do
        let cursor ← (List.range after.journal.participants.length).reverse.foldlM
          (rollbackParticipant b.env) after
        let cursor ← cursor.transitionPhase b.env .rolledBack
        cleanupRecoveryArtifacts b.env cursor)
        (fun _ t => b.Cleaned origin t ∧ b.AllOld t) t := by
    intro after t ht hp
    simp only [RecoveryUpholds, Program.bind_upholds]
    refine (Program.foldlM_range_reverse_upholds
      (R := fun k cursor u => b.RollingBack origin after.journal.participants.length k cursor u)
      (fun k cursor u hk hu => ?_) ⟨ht, hp, rfl, ?_⟩).mono (fun _ _ => id) ?_ (fun _ _ => id)
    · exact rollbackStep_upholds hk hu
    · intro j hj q hq
      have hlt := (List.getElem?_eq_some_iff.mp hq).1
      omega
    intro rolled u hu
    have hall : ∀ q ∈ rolled.journal.participants, q.progress = .rolledBack := by
      intro q hq
      obtain ⟨j, hj⟩ := List.mem_iff_getElem?.mp hq
      exact hu.rolledBack j (Nat.zero_le j) q hj
    have hstate := hu.settled.consistent.state
    rw [hu.phase] at hstate
    refine transitionPhase_upholds hu.settled (fun _ _ => hstate) ?_ ?_
    · intro final v hat hvstate hvtargets _ hj
      refine hcleanup final v ⟨hat, hvstate.trans hu.state, fun j => ?_⟩ (by rw [hj])
      rw [hvtargets, hu.staging]
    · intro e hno
      refine .journal (hno (by rw [hu.phase]; rfl) fun q hq => ?_)
      simp [validProgress, hall q hq]
  unfold beginRollback
  by_cases hrolling : cursor.journal.phase = .rollingBack
  · rw [if_neg (by simp [hrolling]), pure_bind]
    exact hloop cursor s h hrolling
  · have hvalid := (hphase.resolve_left hrolled).resolve_left hrolling
    rw [if_pos hrolling, Program.bind_upholds]
    refine transitionPhase_upholds h.settled (fun _ _ => hstate) ?_ ?_
    · intro after t hat htstate httargets _ hj
      refine hloop after t ⟨hat, htstate.trans h.state, fun j => ?_⟩ (by rw [hj])
      rw [httargets, h.staging]
    · intro e hno
      refine .journal (hno hvalid fun q hq => ?_)
      obtain ⟨j, hj⟩ := List.mem_iff_getElem?.mp hq
      obtain ⟨item, hi⟩ := h.settled.consistent.owns.hasItem hj
      have hentry : b.Entry cursor s j item q := ⟨h.settled, hj, hi⟩
      rw [hentry.describes.disposition]
      exact validRollbackProgress_of_phaseAllows hentry.allows hvalid

end Rollback

section Direction

omit [DecidableEq τ] [DecidableEq C] [DecidableEq R] [DecidableEq A] in
theorem recoveryDirection_new (h : b.At cursor s)
    (hphase : cursor.journal.phase = .stateCommitted ∨ cursor.journal.phase = .verified ∨
      b.plan.observedLocalStateText ≠ b.plan.proposedLocalStateText) :
    recoveryDirection cursor.journal (b.env.digest b.plan.proposedLocalStateText) =
      .ok .forward := by
  have hold := h.consistent.owns.oldStateHash
  have hnew := h.consistent.owns.newStateHash
  rcases hphase with hp | hp | hne
  · simp [recoveryDirection, hnew, hp]
  · simp [recoveryDirection, hnew, hp]
  · have hdigest : b.env.digest b.plan.proposedLocalStateText ≠
        b.env.digest b.plan.observedLocalStateText := fun he => hne (b.state_text he.symm)
    simp [recoveryDirection, hnew, hold, hdigest]

omit [DecidableEq τ] [DecidableEq C] [DecidableEq R] [DecidableEq A] in
theorem recoveryDirection_old (h : b.At cursor s)
    (hphase : cursor.journal.phase ≠ .stateCommitted ∧ cursor.journal.phase ≠ .verified) :
    recoveryDirection cursor.journal (b.env.digest b.plan.observedLocalStateText) =
      .ok .rollback := by
  simp [recoveryDirection, h.consistent.owns.oldStateHash, hphase.1, hphase.2]

/-- Where a recovery goes from the machine state it finds. -/
inductive Directed (b : PreparedBatch τ C H R A)
    (cursor : AtomicApplyBatchJournalCursor τ H R A) (s : BatchStore τ C R) : Prop
  | missing : s.state.destination = none → s.state.backup ≠ none → Directed b cursor s
  | forward : s.state.destination = some b.plan.proposedLocalStateText →
      recoveryDirection cursor.journal (b.env.digest b.plan.proposedLocalStateText) =
        .ok .forward →
      (cursor.journal.phase = .newTargetsCommitted ∨ cursor.journal.phase = .stateCommitted ∨
        cursor.journal.phase = .verified) →
      StateConsistent b.plan.observedLocalStateText b.plan.proposedLocalStateText
        .stateCommitted s.state → Directed b cursor s
  | rollback : s.state.destination = some b.plan.observedLocalStateText →
      recoveryDirection cursor.journal (b.env.digest b.plan.observedLocalStateText) =
        .ok .rollback →
      (cursor.journal.phase = .rolledBack ∨ cursor.journal.phase = .rollingBack ∨
        validPhaseTransition cursor.journal.phase .rollingBack = true) →
      StateConsistent b.plan.observedLocalStateText b.plan.proposedLocalStateText
        .rollingBack s.state → Directed b cursor s

omit [DecidableEq τ] [DecidableEq C] [DecidableEq R] [DecidableEq A] in
theorem At.directed (h : b.At cursor s) : b.Directed cursor s := by
  have hc := h.consistent.state
  have hrollback : (cursor.journal.phase ≠ .stateCommitted ∧ cursor.journal.phase ≠ .verified) →
      s.state.destination = some b.plan.observedLocalStateText → s.state.backup = none →
      b.Directed cursor s := by
    intro hp hd hb
    refine .rollback hd (recoveryDirection_old h hp) ?_ ⟨hd, hb⟩
    cases hphase : cursor.journal.phase <;> simp_all [validPhaseTransition]
  cases hp : cursor.journal.phase with
  | stateCommitted =>
    rw [hp] at hc
    exact .forward hc.1 (recoveryDirection_new h (.inl hp)) (.inr (.inl hp)) hc
  | verified =>
    rw [hp] at hc
    exact .forward hc.1 (recoveryDirection_new h (.inr (.inl hp))) (.inr (.inr hp)) hc
  | newTargetsCommitted =>
    rw [hp] at hc
    rcases hc with ⟨hd, -, hb⟩ | ⟨hne, hc⟩
    · exact hrollback (by simp [hp]) hd hb
    · have hforward := recoveryDirection_new h (.inr (.inr hne))
      rcases hc with hs | hs | hs | hs
      · refine .forward ?_ hforward (.inl hp) ⟨?_, .inr ⟨?_, ?_⟩⟩ <;> rw [hs]
      · refine .forward ?_ hforward (.inl hp) ⟨?_, .inl ⟨?_, .inl ?_⟩⟩ <;> rw [hs]
      · refine .missing ?_ ?_ <;> simp [hs]
      · refine .forward ?_ hforward (.inl hp) ⟨?_, .inl ⟨?_, .inr ?_⟩⟩ <;> rw [hs]
  | preparing | rollingBack | rolledBack =>
    rw [hp] at hc
    exact hrollback (by simp [hp]) hc.1 hc.2
  | prepared | quarantiningOldTargets | oldTargetsQuarantined | committingNewTargets =>
    rw [hp] at hc
    exact hrollback (by simp [hp]) hc.1 hc.2.2

end Direction

section Recover

/-- What an uninterrupted recovery guarantees of its outcome. -/
def Settles (b : PreparedBatch τ C H R A) (origin : BatchStore τ C R) :
    AtomicApplyBatchRecoveryOutcome → BatchStore τ C R → Prop
  | .noJournal, s => s = origin ∧ s.journal = ⟨none, none, none⟩ ∧
      (s = b.start ∨ b.Swept s) ∧ (b.AllOld s ∨ b.AllNew s)
  | .completed, s => b.Cleaned origin s ∧ b.AllNew s
  | .rolledBack, s => b.Cleaned origin s ∧ b.AllOld s

omit [DecidableEq τ] [DecidableEq C] in
theorem requiredState_upholds (h : b.At cursor s) (hstate : s.state = origin.state) :
    b.RecoveryUpholds origin (requiredState b.env)
      (fun text t => t = s ∧ s.state.destination = some text) s := by
  have hread : ∀ content, s.state.destination = content →
      (content = none → s.state.backup ≠ none) →
      (∀ text ∈ content, b.Fits → b.env.platform.len text ≤ maxControlBytes) →
      b.RecoveryUpholds origin (requiredState b.env)
        (fun text t => t = s ∧ content = some text) s := by
    intro content hd hmissing hlen
    have hget : (BatchStore.stateFiles.get s).get .destination = content := hd
    simp only [RecoveryUpholds, requiredState, Program.bind_upholds]
    refine onState_upholds h (readText_upholds.mpr ?_)
    rw [← BatchStore.stateFiles_get, Lens.set_get, hget]
    cases content with
    | none =>
      rw [Option.all_none, if_pos rfl]
      refine Program.fail_upholds.mpr (.state (fun hc => hmissing rfl ?_) ?_)
      · rw [hstate]
        exact hc.2.backup
      · rw [← hstate, hd]
        nofun
    | some text =>
      by_cases hfit : b.env.platform.len text ≤ maxControlBytes
      · simp [hfit]
      · rw [Option.all_some, if_neg (by simpa using hfit)]
        refine .state (fun hc => hfit (hlen text rfl hc.1)) ?_
        rw [← hstate, hd]
        rintro _ ⟨⟩
        exact hfit
  cases h.directed with
  | missing hd hb => rw [hd]; exact hread none hd (fun _ => hb) (by simp)
  | forward hd =>
    rw [hd]
    refine hread _ hd (by simp) ?_
    rintro text ⟨⟩ hfits
    exact hfits.proposed
  | rollback hd =>
    rw [hd]
    refine hread _ hd (by simp) ?_
    rintro text ⟨⟩ hfits
    exact hfits.observed

/-- Wherever a recovery of a prepared batch stops, its files are recoverable. -/
theorem recoverAtomicApplyBatch_upholds (h : b.Recoverable s) :
    b.RecoveryUpholds s (recoverAtomicApplyBatch b.env) (b.Settles s) s := by
  simp only [RecoveryUpholds, recoverAtomicApplyBatch]
  rw [Program.bind_upholds]
  refine load_upholds h ?_ ?_
  · intro hjournal hswept hside
    exact Program.pure_upholds.mpr ⟨rfl, hjournal, hswept, hside⟩
  intro cursor t hat hstate htargets
  have hrecovering : b.Recovering s cursor t := ⟨hat, hstate, fun j => by rw [htargets]⟩
  rw [Program.bind_upholds]
  refine load_at_upholds hat ?_
  simp only [beq_self_eq_true, Program.bind_upholds, Program.require_upholds, if_true]
  refine (requiredState_upholds hat hstate).mono (fun _ _ => id) ?_ (fun _ _ => id)
  rintro text u ⟨rfl, htext⟩
  cases hat.directed with
  | missing hd _ =>
    rw [hd] at htext
    contradiction
  | forward hd hdirection hphase hc =>
    rw [hd, Option.some.injEq] at htext
    subst htext
    rw [hdirection, Program.ofExcept_ok_upholds]
    simp only [Program.bind_upholds]
    refine (recoverForward_upholds hrecovering hphase hc).mono (fun _ _ => id) ?_ (fun _ _ => id)
    exact fun _ v hv => Program.pure_upholds.mpr hv
  | rollback hd hdirection hphase hc =>
    rw [hd, Option.some.injEq] at htext
    subst htext
    rw [hdirection, Program.ofExcept_ok_upholds]
    simp only [Program.bind_upholds]
    refine (recoverRollback_upholds hrecovering hphase hc).mono (fun _ _ => id) ?_ (fun _ _ => id)
    exact fun _ v hv => Program.pure_upholds.mpr hv

end Recover

end PreparedBatch

end Kitrove
