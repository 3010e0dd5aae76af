import Mathlib.Algebra.Ring.Nat
import Kitrove.Batch.Journal
import Mathlib.Logic.Relation

/-! A batch journal moves in one direction only: what one step changes, and that no
step can be taken back by another. -/

namespace Kitrove

def AtomicApplyBatchPhase.rank : AtomicApplyBatchPhase → Nat
  | .preparing => 0
  | .prepared => 1
  | .quarantiningOldTargets => 2
  | .oldTargetsQuarantined => 3
  | .committingNewTargets => 4
  | .newTargetsCommitted => 5
  | .stateCommitted => 6
  | .verified => 7
  | .rollingBack => 8
  | .rolledBack => 9

def ParticipantProgress.rank : ParticipantProgress → Nat
  | .unstaged => 0
  | .stagingPending => 1
  | .prepared => 2
  | .quarantinePending => 3
  | .quarantined => 4
  | .commitPending => 5
  | .committed => 6
  | .verified => 7
  | .removePending => 8
  | .removed => 9
  | .restorePending => 10
  | .rolledBack => 11

section Steps

variable {d : StoredDisposition} {phase : AtomicApplyBatchPhase}

theorem validPhaseTransition_rank {old next : AtomicApplyBatchPhase}
    (h : validPhaseTransition old next = true) : old.rank < next.rank := by
  cases old <;> cases next <;> first | contradiction | decide

theorem validRollbackTransition_rank {old next : ParticipantProgress}
    (h : validRollbackTransition d old next = true) : old.rank < next.rank := by
  cases old <;> cases next <;> first | contradiction | decide

theorem validParticipantTransition_rank {old next : ParticipantProgress}
    (h : validParticipantTransition phase d old next = true) : old.rank < next.rank := by
  cases phase with
  | preparing =>
    simp only [validParticipantTransition] at h
    split at h <;> first | contradiction | decide
  | quarantiningOldTargets =>
    simp only [validParticipantTransition, Bool.and_eq_true] at h
    obtain ⟨h, -⟩ := h
    split at h <;> first | contradiction | decide
  | committingNewTargets =>
    simp only [validParticipantTransition, Bool.or_eq_true, Bool.and_eq_true, beq_iff_eq] at h
    rcases h with h | ⟨⟨-, rfl⟩, rfl⟩
    · split at h <;> first | contradiction | decide
    · decide
  | stateCommitted =>
    simp only [validParticipantTransition, Bool.and_eq_true, beq_iff_eq] at h
    obtain ⟨rfl, rfl⟩ := h
    decide
  | rollingBack => exact validRollbackTransition_rank h
  | prepared | oldTargetsQuarantined | newTargetsCommitted | verified | rolledBack =>
    simp [validParticipantTransition] at h

end Steps

section Journals

variable {H R A τ : Type} {j j' : AtomicApplyBatchJournal H R A}

theorem withProgress_eq_iff {next old : List (BatchParticipantJournal H)} :
    withProgress next old = next ↔
      old.map (·.toParticipantAuthority) = next.map (·.toParticipantAuthority) := by
  induction next generalizing old with
  | nil => cases old <;> simp [withProgress]
  | cons n next ih =>
    cases old with
    | nil => simp [withProgress]
    | cons o old =>
      obtain ⟨oa, op⟩ := o
      obtain ⟨na, np⟩ := n
      simp [withProgress, ih]

theorem eq_of_mem_zip_self {α : Type} {l : List α} {a b : α} (h : (a, b) ∈ l.zip l) : a = b := by
  induction l with
  | nil => simp at h
  | cons c l ih =>
    rcases List.mem_cons.mp h with h | h
    · cases h
      rfl
    · exact ih h

theorem rank_le_of_zip {old next : List (BatchParticipantJournal H)}
    (hlen : old.length = next.length)
    (h : ∀ pair ∈ old.zip next, pair.1.progress.rank ≤ pair.2.progress.rank) :
    (old.map (·.progress.rank)).sum ≤ (next.map (·.progress.rank)).sum := by
  induction old generalizing next with
  | nil => simp
  | cons o old ih =>
    cases next with
    | nil => simp at hlen
    | cons n next =>
      simp only [List.zip_cons_cons, List.mem_cons, forall_eq_or_imp] at h
      have hrest := ih (by simpa using hlen) h.2
      simp only [List.map_cons, List.sum_cons]
      omega

theorem rank_lt_of_zip {old next : List (BatchParticipantJournal H)}
    (hlen : old.length = next.length)
    (h : ∀ pair ∈ old.zip next, pair.1.progress.rank ≤ pair.2.progress.rank)
    {pair : BatchParticipantJournal H × BatchParticipantJournal H} (hp : pair ∈ old.zip next)
    (hlt : pair.1.progress.rank < pair.2.progress.rank) :
    (old.map (·.progress.rank)).sum < (next.map (·.progress.rank)).sum := by
  induction old generalizing next with
  | nil => simp at hp
  | cons o old ih =>
    cases next with
    | nil => simp at hlen
    | cons n next =>
      simp only [List.zip_cons_cons, List.mem_cons, forall_eq_or_imp] at h hp
      simp only [List.map_cons, List.sum_cons]
      have hl : old.length = next.length := by simpa using hlen
      rcases hp with rfl | hp
      · have hrest := rank_le_of_zip hl h.2
        simp only at hlt
        omega
      · have hrest := ih hl h.2 hp
        have ho := h.1
        omega

/-- The sum of the ranks of a journal's phase and of its participants' progress. -/
def AtomicApplyBatchJournal.rank (j : AtomicApplyBatchJournal H R A) : Nat :=
  j.phase.rank + (j.participants.map (·.progress.rank)).sum

variable [DecidableEq H] [DecidableEq R] [DecidableEq A]

theorem sameTransitionAuthority_iff :
    sameTransitionAuthority j j' = true ↔
      j.toBatchAuthority = j'.toBatchAuthority ∧
        j.participants.map (·.toParticipantAuthority) =
          j'.participants.map (·.toParticipantAuthority) := by
  obtain ⟨a, phase, ps⟩ := j
  obtain ⟨a', phase', ps'⟩ := j'
  simp [sameTransitionAuthority, withProgress_eq_iff]

theorem validJournalTransition_rank (h : validJournalTransition j j' = true) :
    j.rank < j'.rank := by
  unfold validJournalTransition at h
  split at h
  · contradiction
  rename_i hs
  simp only [Bool.not_eq_true', Bool.not_eq_false] at hs
  have hlen : j.participants.length = j'.participants.length := by
    simpa using congrArg List.length (sameTransitionAuthority_iff.mp hs).2
  split at h
  · simp only [Bool.and_eq_true, List.all_eq_true, beq_iff_eq] at h
    have hsum := rank_le_of_zip hlen fun pair hp => le_of_eq (congrArg _ (h.1 pair hp))
    have hphase := validPhaseTransition_rank h.2
    simp only [AtomicApplyBatchJournal.rank]
    omega
  · rename_i hphase
    simp only [ne_eq, not_not] at hphase
    split at h
    · rename_i o n hf
      have hlt := validParticipantTransition_rank h
      have hmem : ∀ pair ∈ j.participants.zip j'.participants,
          pair.1.progress = pair.2.progress ∨ pair = (o, n) := by
        intro pair hp
        by_cases he : pair.1.progress = pair.2.progress
        · exact .inl he
        · have : pair ∈ [(o, n)] := hf ▸ List.mem_filter.mpr ⟨hp, by simpa using he⟩
          exact .inr (List.mem_singleton.mp this)
      have hon : (o, n) ∈ j.participants.zip j'.participants := by
        have : (o, n) ∈ [(o, n)] := List.mem_singleton_self _
        rw [← hf] at this
        exact (List.mem_filter.mp this).1
      have hsum := rank_lt_of_zip hlen
        (fun pair hp => (hmem pair hp).elim (fun he => by rw [he]) fun he => by
          rw [he]; exact hlt.le) hon hlt
      simp only [AtomicApplyBatchJournal.rank, hphase]
      omega
    · contradiction

/-- No step of a batch journal can be taken back by another step. -/
theorem validJournalTransition_irreversible (h : validJournalTransition j j' = true) :
    validJournalTransition j' j = false := by
  by_contra hb
  simp only [Bool.not_eq_false] at hb
  have hlt := validJournalTransition_rank h
  have hgt := validJournalTransition_rank hb
  omega

/-- The steps of a journal lead nowhere back. -/
theorem validJournalTransition_acyclic (hne : j ≠ j') :
    ¬ (Relation.ReflTransGen (fun old next => validJournalTransition old next = true) j j' ∧
      Relation.ReflTransGen (fun old next => validJournalTransition old next = true) j' j) := by
  have hrank : ∀ {old next : AtomicApplyBatchJournal H R A},
      Relation.ReflTransGen (fun old next => validJournalTransition old next = true) old next →
      old = next ∨ old.rank < next.rank := by
    intro old next h
    induction h with
    | refl => exact .inl rfl
    | tail _ hstep ih =>
      have hlt := validJournalTransition_rank hstep
      rcases ih with rfl | ih
      · exact .inr hlt
      · exact .inr (ih.trans hlt)
  rintro ⟨hthere, hback⟩
  have hup := (hrank hthere).resolve_left hne
  have hdown := (hrank hback).resolve_left (Ne.symm hne)
  omega

omit [DecidableEq H] [DecidableEq R] [DecidableEq A] in
theorem transitionPhase_eq_ok {next : AtomicApplyBatchPhase} :
    j.transitionPhase next = .ok j' ↔
      validPhaseTransition j.phase next = true ∧ j' = { j with phase := next } := by
  unfold AtomicApplyBatchJournal.transitionPhase
  split
  · rename_i hv
    simp only [Except.ok.injEq, hv, true_and]
    exact eq_comm
  · rename_i hv
    simp [hv]

omit [DecidableEq H] [DecidableEq R] [DecidableEq A] in
theorem transitionParticipant_eq_ok {index : Nat} {next : ParticipantProgress} :
    j.transitionParticipant index next = .ok j' ↔
      ∃ participant, j.participants[index]? = some participant ∧
        validParticipantTransition j.phase participant.disposition participant.progress next =
          true ∧
        j' = { j with
          participants := j.participants.set index { participant with progress := next } } := by
  unfold AtomicApplyBatchJournal.transitionParticipant
  cases j.participants[index]? with
  | none => simp
  | some participant =>
    simp only [Option.some.injEq, exists_eq_left']
    split
    · rename_i hv
      simp only [Except.ok.injEq, hv, true_and]
      exact eq_comm
    · rename_i hv
      simp [hv]

theorem transitionPhase_valid {next : AtomicApplyBatchPhase}
    (h : j.transitionPhase next = .ok j') : validJournalTransition j j' = true := by
  obtain ⟨hv, rfl⟩ := transitionPhase_eq_ok.mp h
  have hne : j.phase ≠ next := by
    rintro rfl
    exact lt_irrefl _ (validPhaseTransition_rank hv)
  have hs : sameTransitionAuthority j { j with phase := next } = true :=
    sameTransitionAuthority_iff.mpr ⟨rfl, rfl⟩
  have hz : ∀ pair ∈ j.participants.zip j.participants,
      (pair.1.progress == pair.2.progress) = true := by
    rintro ⟨a, b⟩ hp
    simp [eq_of_mem_zip_self hp]
  simp only [validJournalTransition, hs, hne, Bool.not_true, Bool.false_eq_true, if_false, ne_eq,
    not_false_eq_true, if_true, hv, Bool.and_true, List.all_eq_true]
  exact hz

omit [DecidableEq H] [DecidableEq R] [DecidableEq A] in
theorem filter_zip_set {participants : List (BatchParticipantJournal H)} {index : Nat}
    {participant : BatchParticipantJournal H} {next : ParticipantProgress}
    (h : participants[index]? = some participant) (hne : participant.progress ≠ next) :
    (participants.zip (participants.set index { participant with progress := next })).filter
        (fun pair => pair.1.progress != pair.2.progress) =
      [(participant, { participant with progress := next })] := by
  induction participants generalizing index with
  | nil => simp at h
  | cons p ps ih =>
    cases index with
    | zero =>
      simp only [List.getElem?_cons_zero, Option.some.injEq] at h
      subst h
      have hz : (ps.zip ps).filter (fun pair => pair.1.progress != pair.2.progress) = [] := by
        simp only [List.filter_eq_nil_iff, Prod.forall]
        intro a b hp
        simp [eq_of_mem_zip_self hp]
      simp [hne, hz]
    | succ index =>
      simp only [List.getElem?_cons_succ] at h
      simp [ih h]

omit [DecidableEq H] [DecidableEq R] [DecidableEq A] in
theorem map_authority_set {participants : List (BatchParticipantJournal H)} {index : Nat}
    {participant : BatchParticipantJournal H} {next : ParticipantProgress}
    (h : participants[index]? = some participant) :
    (participants.set index { participant with progress := next }).map
        (·.toParticipantAuthority) =
      participants.map (·.toParticipantAuthority) := by
  refine List.ext_getElem? fun i => ?_
  rw [List.map_set, List.getElem?_set]
  split
  · rename_i hi
    subst hi
    obtain ⟨hlt, he⟩ := List.getElem?_eq_some_iff.mp h
    simp [hlt, he]
  · rfl

theorem transitionParticipant_valid {index : Nat} {next : ParticipantProgress}
    (h : j.transitionParticipant index next = .ok j') : validJournalTransition j j' = true := by
  obtain ⟨participant, hp, hv, rfl⟩ := transitionParticipant_eq_ok.mp h
  have hne : participant.progress ≠ next := by
    rintro rfl
    exact lt_irrefl _ (validParticipantTransition_rank hv)
  have hs : sameTransitionAuthority j { j with
      participants := j.participants.set index { participant with progress := next } } = true :=
    sameTransitionAuthority_iff.mpr ⟨rfl, (map_authority_set hp).symm⟩
  simp only [validJournalTransition, hs, Bool.not_true, Bool.false_eq_true, if_false, ne_eq,
    not_true_eq_false, filter_zip_set hp hne, hv]

end Journals

end Kitrove
