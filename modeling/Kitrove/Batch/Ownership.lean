import Kitrove.Batch.Invariant
import Kitrove.Support.Except
import Mathlib.Data.List.Forall2

/-! The journals of one batch: which item each participant describes, and which steps
keep a journal one of the batch's own. -/

namespace Kitrove

open Crash

section Validation

variable {τ C H R A : Type} [DecidableEq H] {format : BatchFormat H R A τ}
  {j : AtomicApplyBatchJournal H R A}

theorem validateJournal_eq_ok :
    validateJournal format j = .ok () ↔
      (j.participants ≠ [] ∧ j.participants.length ≤ maxBatchParticipants) ∧
      (∀ p ∈ j.participants,
        validHashAuthority format.absentTargetHash p.toParticipantAuthority = true ∧
          validProgress j.phase p.disposition p.progress = true) ∧
      format.validIdentity j.toBatchAuthority
        (j.participants.map (·.toParticipantAuthority)) = true := by
  unfold validateJournal
  split
  · rename_i h
    simp only [Bool.or_eq_true, List.isEmpty_iff, decide_eq_true_eq] at h
    constructor
    · intro hc
      contradiction
    · rintro ⟨⟨hne, hle⟩, -⟩
      rcases h with h | h
      · exact absurd h hne
      · omega
  rename_i hsize
  simp only [Bool.or_eq_true, List.isEmpty_iff, decide_eq_true_eq, not_or, not_lt] at hsize
  split
  · rename_i h
    simp only [List.any_eq_true, Bool.or_eq_true, Bool.not_eq_true'] at h
    obtain ⟨p, hp, h⟩ := h
    constructor
    · intro hc
      contradiction
    · rintro ⟨-, hall, -⟩
      have hv := hall p hp
      rcases h with h | h <;> simp [h] at hv
  rename_i hall
  simp only [List.any_eq_true, Bool.or_eq_true, Bool.not_eq_true', not_exists, not_and, not_or,
    Bool.not_eq_false] at hall
  split
  · rename_i h
    simp only [Bool.not_eq_true'] at h
    simp [h]
  · rename_i h
    simp only [Bool.not_eq_true', Bool.not_eq_false] at h
    exact iff_of_true rfl ⟨hsize, hall, h⟩

theorem parseJournal_encode (h : validateJournal format j = .ok ()) :
    parseJournal format (format.encode j) = .ok j := by
  simp [parseJournal, format.decode_encode, h, pure, Except.pure, bind, Except.bind]

theorem encoded_eq_ok {len : τ → Nat} {text : τ} :
    j.encoded len format = .ok text ↔
      validateJournal format j = .ok () ∧ text = format.encode j ∧
        len text ≤ maxBatchJournalBytes := by
  unfold AtomicApplyBatchJournal.encoded
  rw [Except.bind_eq_ok_iff]
  constructor
  · rintro ⟨⟨⟩, hv, h⟩
    simp only at h
    split at h
    · contradiction
    · cases h
      exact ⟨hv, rfl, by omega⟩
  · rintro ⟨hv, rfl, hle⟩
    exact ⟨(), hv, by simp only; rw [if_neg (by omega)]⟩

end Validation

section Items

variable {τ C H R A : Type} {env : BatchEnvironment τ C H R A} {item : AtomicApplyItem C}
  {authority : ParticipantAuthority H}

theorem participantAuthority_eq_ok (h : participantAuthority env item = .ok authority) :
    authority.kind = item.kind ∧ authority.disposition = item.disposition ∧
      authority.oldTargetHash = item.observed.bind env.view.hash ∧
      (∀ content ∈ item.observed, (env.view.hash content).isSome = true) ∧
      (item.disposition ≠ .remove → ∃ content, item.rendered = some content ∧
        env.view.hash content = some authority.newTargetHash) := by
  unfold participantAuthority at h
  rw [Except.bind_eq_ok_iff] at h
  obtain ⟨old, hold, h⟩ := h
  rw [Except.bind_eq_ok_iff] at h
  obtain ⟨new, hnew, h⟩ := h
  rw [Except.pure_eq_ok_iff] at h
  subst h
  refine ⟨rfl, rfl, ?_, ?_, ?_⟩
  · cases ho : item.observed with
    | none =>
      simp only [observedTargetHash, ho, Except.ok.injEq] at hold
      exact hold.symm
    | some content =>
      cases hh : env.view.hash content with
      | none => simp [observedTargetHash, ho, hh] at hold
      | some hash =>
        simp only [observedTargetHash, ho, hh, Except.ok.injEq] at hold
        simp [hh, hold]
  · intro content hc
    rw [Option.mem_def] at hc
    cases hh : env.view.hash content with
    | none => simp [observedTargetHash, hc, hh] at hold
    | some hash => rfl
  · intro hd
    rw [proposedTargetHash, if_neg hd] at hnew
    cases hr : item.rendered with
    | none => simp [hr] at hnew
    | some content =>
      cases hh : env.view.hash content with
      | none => simp [hr, hh] at hnew
      | some hash =>
        simp only [hr, hh, Option.bind_some, Except.ok.injEq] at hnew
        exact ⟨content, rfl, by rw [hh, hnew]⟩

end Items

namespace PreparedBatch

variable {τ C H R A : Type} [DecidableEq H] {b : PreparedBatch τ C H R A}
  {j j' : AtomicApplyBatchJournal H R A} {i : Nat} {p : BatchParticipantJournal H}
  {item : AtomicApplyItem C}

theorem initial_valid (b : PreparedBatch τ C H R A) :
    validateJournal b.env.format b.journal = .ok () ∧
      List.Forall₂ (fun item (p : BatchParticipantJournal H) =>
        participantAuthority b.env item = .ok p.toParticipantAuthority ∧ p.progress = .unstaged)
        b.plan.items b.journal.participants ∧
      b.journal.phase = .preparing ∧
      b.journal.manifestRevision = b.plan.manifestRevision ∧
      b.journal.oldStateHash = b.env.digest b.plan.observedLocalStateText ∧
      b.journal.newStateHash = b.env.digest b.plan.proposedLocalStateText := by
  have h := b.initial
  unfold initialJournal at h
  rw [Except.bind_eq_ok_iff] at h
  obtain ⟨participants, hp, h⟩ := h
  rw [Except.bind_eq_ok_iff] at h
  obtain ⟨⟨⟩, hv, h⟩ := h
  rw [Except.pure_eq_ok_iff] at h
  rw [← h]
  refine ⟨hv, (Except.mapM_eq_ok hp).imp ?_, rfl, rfl, rfl, rfl⟩
  intro item p hip
  rw [Except.bind_eq_ok_iff] at hip
  obtain ⟨authority, ha, hip⟩ := hip
  rw [Except.pure_eq_ok_iff] at hip
  rw [← hip]
  exact ⟨ha, rfl⟩

theorem Owns.initial (b : PreparedBatch τ C H R A) : b.Owns b.journal := ⟨rfl, rfl⟩

/-- The files a batch starts from agree with its first journal. -/
theorem start_consistent (b : PreparedBatch τ C H R A) : b.Consistent b.journal b.start := by
  obtain ⟨-, hparticipants, hphase, -⟩ := b.initial_valid
  refine ⟨.initial b, b.start_revision, ?_, ?_⟩
  · intro i p item hp hi
    obtain ⟨hlt, hpe⟩ := List.getElem?_eq_some_iff.mp hp
    obtain ⟨hlt', hie⟩ := List.getElem?_eq_some_iff.mp hi
    have hprogress : p.progress = .unstaged := by
      have hget := (hparticipants.get hlt' hlt).2
      rwa [List.get_eq_getElem, hpe] at hget
    obtain ⟨hdestination, hbackup, hstaging⟩ := b.start_target i item hi
    rw [hprogress, hphase]
    exact ⟨.inl rfl, ⟨hdestination, hbackup⟩, hstaging⟩
  · rw [hphase]
    exact b.start_state

theorem Owns.length (h : b.Owns j) : j.participants.length = b.plan.items.length := by
  have hl := congrArg List.length h.2
  simp only [List.length_map] at hl
  rw [hl, (b.initial_valid).2.1.length_eq]

theorem Owns.hasItem (h : b.Owns j) (hp : j.participants[i]? = some p) :
    ∃ item, b.plan.items[i]? = some item := by
  have hi := (List.getElem?_eq_some_iff.mp hp).1
  rw [h.length] at hi
  exact ⟨_, List.getElem?_eq_getElem hi⟩

/-- Whatever progress a journal of the batch records, its entries describe the items. -/
theorem Owns.describes (h : b.Owns j) (hp : j.participants[i]? = some p)
    (hi : b.plan.items[i]? = some item) :
    Describes b.env.view b.env.format.absentTargetHash item p.toParticipantAuthority := by
  obtain ⟨hv, hparticipants, -⟩ := b.initial_valid
  have hmap := congrArg (·[i]?) h.2
  simp only [List.getElem?_map, hp, Option.map_some] at hmap
  cases hq : b.journal.participants[i]? with
  | none => simp [hq] at hmap
  | some q =>
    rw [hq, Option.map_some, Option.some.injEq] at hmap
    obtain ⟨hlt, hqe⟩ := List.getElem?_eq_some_iff.mp hq
    obtain ⟨hlt', hie⟩ := List.getElem?_eq_some_iff.mp hi
    have hiq := (hparticipants.get hlt' hlt).1
    rw [List.get_eq_getElem, List.get_eq_getElem, hie, hqe] at hiq
    obtain ⟨hk, hd, ho, hr, hn⟩ := participantAuthority_eq_ok hiq
    have hvalid := (validateJournal_eq_ok.mp hv).2.1 q (List.mem_of_getElem? hq)
    rw [hmap]
    exact ⟨hk, hd, ho, hr, hn, hvalid.1⟩

theorem Owns.oldStateHash (h : b.Owns j) :
    j.oldStateHash = b.env.digest b.plan.observedLocalStateText := by
  rw [show j.oldStateHash = j.toBatchAuthority.oldStateHash from rfl, h.1]
  exact b.initial_valid.2.2.2.2.1

theorem Owns.newStateHash (h : b.Owns j) :
    j.newStateHash = b.env.digest b.plan.proposedLocalStateText := by
  rw [show j.newStateHash = j.toBatchAuthority.newStateHash from rfl, h.1]
  exact b.initial_valid.2.2.2.2.2

theorem Owns.manifestRevision (h : b.Owns j) :
    j.manifestRevision = b.plan.manifestRevision := by
  rw [show j.manifestRevision = j.toBatchAuthority.manifestRevision from rfl, h.1]
  exact b.initial_valid.2.2.2.1

/-- A journal of the batch is valid when its phase allows the progress it records. -/
theorem Owns.validateJournal_iff (h : b.Owns j) :
    validateJournal b.env.format j = .ok () ↔
      ∀ p ∈ j.participants, validProgress j.phase p.disposition p.progress = true := by
  have hlen : j.participants.length = b.journal.participants.length := by
    simpa using congrArg List.length h.2
  obtain ⟨⟨hne, hle⟩, hall, hid⟩ := validateJournal_eq_ok.mp b.initial_valid.1
  rw [validateJournal_eq_ok]
  constructor
  · exact fun hv p hp => (hv.2.1 p hp).2
  · intro hprogress
    refine ⟨⟨fun hnil => ?_, by omega⟩, fun p hp => ⟨?_, hprogress p hp⟩, ?_⟩
    · rw [hnil, List.length_nil] at hlen
      exact hne (List.length_eq_zero_iff.mp hlen.symm)
    · obtain ⟨i, hi⟩ := List.mem_iff_getElem?.mp hp
      obtain ⟨item, hitem⟩ := h.hasItem hi
      exact (h.describes hi hitem).valid
    · rw [h.1, h.2]
      exact hid

theorem Owns.transitionPhase {next : AtomicApplyBatchPhase} (h : b.Owns j)
    (ht : j.transitionPhase next = .ok j') : b.Owns j' := by
  obtain ⟨-, rfl⟩ := transitionPhase_eq_ok.mp ht
  exact h

theorem Owns.transitionParticipant {next : ParticipantProgress} (h : b.Owns j)
    (ht : j.transitionParticipant i next = .ok j') : b.Owns j' := by
  obtain ⟨p, hp, -, rfl⟩ := transitionParticipant_eq_ok.mp ht
  exact ⟨h.1, (map_authority_set hp).trans h.2⟩

end PreparedBatch

end Kitrove
