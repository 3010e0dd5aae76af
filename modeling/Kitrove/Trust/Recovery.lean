import Kitrove.Trust.Transaction

/-! Every shape in which a stopped decision leaves its files, and what recovery makes of it. -/

namespace Kitrove.ExecutableTrust

open Crash Kitrove GuardedJournal

/-- What holds of the texts of a change that the commit has prepared. -/
structure Sound (env : TrustEnvironment) (c : PreparedChange) (committedText : Bytes) : Prop where
  phase : c.journal.phase = .prepared
  parse_prepared : parseTrustJournal env c.preparedText = .ok c.journal
  parse_committed : parseTrustJournal env committedText =
    .ok { c.journal with phase := .stateCommitted }
  oldHash : c.journal.oldStateHash = contentDigest env.blake3 c.oldState
  newHash : c.journal.newStateHash = contentDigest env.blake3 c.newState
  hash_ne : contentDigest env.blake3 c.oldState ≠ contentDigest env.blake3 c.newState
  newDecision : validateNewDecision env c.newState c.journal = .ok ()
  transition : validateDecisionTransition env c.oldState c.newState c.journal = .ok ()
  len_old : c.oldState.length ≤ maxControlBytes
  len_new : c.newState.length ≤ maxControlBytes
  len_prepared : c.preparedText.length ≤ maxControlBytes
  len_committed : committedText.length ≤ maxControlBytes

section Shapes

variable {env : TrustEnvironment} {c : PreparedChange} {committedText : Bytes}

namespace Sound

theorem old_ne_new (h : Sound env c committedText) : c.oldState ≠ c.newState := fun heq =>
  h.hash_ne (congrArg (contentDigest env.blake3) heq)

/-- Recording that the state is committed replaces the journal. -/
def replacement (h : Sound env c committedText) :
    Replacement (bytePlatform env.exchange) (journalFormat env) maxControlBytes where
  oldText := c.preparedText
  newText := committedText
  old := c.journal
  new := { c.journal with phase := .stateCommitted }
  parse_old := h.parse_prepared
  parse_new := h.parse_committed
  valid := by simp [journalFormat, validTrustJournalTransition, h.phase]
  irreversible := rfl
  len_old := h.len_prepared
  len_new := h.len_committed

end Sound

/-- The state files before the new state is in place. -/
inductive Waiting (c : PreparedChange) : Slots Bytes → Prop
  | staged : Waiting c ⟨some c.oldState, some c.newState, none⟩
  | displaced : Waiting c ⟨none, some c.newState, some c.oldState⟩

/-- The state files once the new state is in place. -/
inductive Installed (c : PreparedChange) : Slots Bytes → Prop
  | exchanged : Installed c ⟨some c.newState, some c.oldState, none⟩
  | backedUp : Installed c ⟨some c.newState, none, some c.oldState⟩
  | settled : Installed c ⟨some c.newState, none, none⟩

/-- The journal files until the state is replaced. -/
inductive Opening (c : PreparedChange) : Slots Bytes → Prop
  | pending : Opening c ⟨none, some c.preparedText, none⟩
  | durable : Opening c ⟨some c.preparedText, none, none⟩

/-- What a change and its recoveries can leave at any stop. -/
inductive Shape (h : Sound env c committedText) : TrustStore → Prop
  | aborting {state journal : Slots Bytes} :
      Waiting c state → Opening c journal → Shape h ⟨state, journal⟩
  | completing {state journal : Slots Bytes} :
      Installed c state → h.replacement.Reachable journal → Shape h ⟨state, journal⟩
  | stranded : Shape h ⟨⟨some c.oldState, none, none⟩, ⟨some c.preparedText, none, none⟩⟩
  | torn (k : Nat) : Shape h
      ⟨⟨some c.newState, none, none⟩, ⟨some c.preparedText, some (committedText.take k), none⟩⟩
  | settled {text : Bytes} : text = c.oldState ∨ text = c.newState →
      Shape h ⟨⟨some text, none, none⟩, ⟨none, none, none⟩⟩

end Shapes

section Inspection

variable {env : TrustEnvironment} {c : PreparedChange} {committedText : Bytes}
  (h : Sound env c committedText) {state journal : Slots Bytes} {value : TrustJournal}

theorem onJournal_reads {m : JournalProgram Bytes TransactionError (Option TrustJournal)}
    (hm : m.Upholds (fun _ _ => False) (fun r t => r = some value ∧ t = journal)
      (fun _ _ => False) journal) :
    (Program.zoom TrustStore.journalFiles (m.mapError TransactionError.ofJournal)).Upholds
      (fun _ _ => False) (fun r t => r = some value ∧ t = ⟨state, journal⟩) (fun _ _ => False)
      ⟨state, journal⟩ := by
  rw [Program.zoom_upholds, Program.mapError_upholds]
  exact hm.mono (fun _ _ => id) (fun _ _ ⟨hr, ht⟩ => ⟨hr, by rw [ht]; rfl⟩) (fun _ _ => id)

include h in
theorem inspect_opening (state : Slots Bytes) (hj : Opening c journal) :
    (inspectTrustJournal env).Upholds (fun _ _ => False)
      (fun r t => r = some c.journal ∧ t = ⟨state, journal⟩) (fun _ _ => False)
      ⟨state, journal⟩ := by
  refine onJournal_reads ?_
  cases hj with
  | pending =>
    simp [GuardedJournal.inspect, readTexts, storage, GuardedJournal.parse, readText_upholds,
      bytePlatform, h.len_prepared,
      journalFormat, h.parse_prepared]
  | durable => exact h.replacement.inspect_retains .untouched

theorem inspect_reachable (state : Slots Bytes) (hj : h.replacement.Reachable journal) :
    ∃ value, validateNewDecision env c.newState value = .ok () ∧
      value.oldStateHash = c.journal.oldStateHash ∧ value.newStateHash = c.journal.newStateHash ∧
      (inspectTrustJournal env).Upholds (fun _ _ => False)
        (fun r t => r = some value ∧ t = ⟨state, journal⟩) (fun _ _ => False)
        ⟨state, journal⟩ := by
  rcases hj with hj | hj
  · exact ⟨c.journal, h.newDecision, rfl, rfl, onJournal_reads (h.replacement.inspect_retains hj)⟩
  · exact ⟨{ c.journal with phase := .stateCommitted }, h.newDecision, rfl, rfl,
      onJournal_reads (h.replacement.inspect_advances hj)⟩

theorem onState_reads {value : TrustJournal} (found : GuardedControlState Bytes)
    (hold : value.oldStateHash = contentDigest env.blake3 c.oldState)
    (hnew : value.newStateHash = contentDigest env.blake3 c.newState)
    (hs : GuardedControl.classify (contentDigest env.blake3) state.backup state.destination
      state.staging ⟨some (contentDigest env.blake3 c.oldState),
        contentDigest env.blake3 c.newState, false⟩ = some found)
    (hb : GuardedControl.Bounded (bytePlatform env.exchange) maxControlBytes state) :
    (inspectTrustState env value).Upholds (fun _ _ => False)
      (fun r t => r = found.effectiveText ∧ t = ⟨state, journal⟩) (fun _ _ => False)
      ⟨state, journal⟩ := by
  rw [inspectTrustState, Program.zoom_upholds, Program.mapError_upholds, hold, hnew]
  refine (GuardedControl.inspect_upholds hs hb).mono (fun _ _ => id) ?_ (fun _ _ => id)
  rintro _ _ ⟨hr, ht⟩
  exact ⟨hr, by rw [ht]; rfl⟩

include h in
theorem waiting_bounded (hs : Waiting c state) :
    GuardedControl.Bounded (bytePlatform env.exchange) maxControlBytes state := by
  intro name text htext
  cases hs <;> cases name <;> simp at htext <;> subst htext <;>
    simp [bytePlatform, h.len_old, h.len_new]

include h in
theorem installed_bounded (hs : Installed c state) :
    GuardedControl.Bounded (bytePlatform env.exchange) maxControlBytes state := by
  intro name text htext
  cases hs <;> cases name <;> simp at htext <;> subst htext <;>
    simp [bytePlatform, h.len_old, h.len_new]

include h in
theorem inspect_waiting (journal : Slots Bytes) (hs : Waiting c state) :
    (inspectTrustState env c.journal).Upholds (fun _ _ => False)
      (fun r t => r = some c.oldState ∧ t = ⟨state, journal⟩) (fun _ _ => False)
      ⟨state, journal⟩ := by
  have hb := waiting_bounded h hs
  cases hs with
  | staged =>
    refine onState_reads (.stable (some c.oldState)) h.oldHash h.newHash ?_ hb
    simp [GuardedControl.classify, h.hash_ne]
  | displaced =>
    refine onState_reads (.restoreBackup (some c.oldState)) h.oldHash h.newHash ?_ hb
    simp [GuardedControl.classify, GuardedControl.classifyBackup]

include h in
theorem inspect_installed {value : TrustJournal} (hs : Installed c state)
    (hold : value.oldStateHash = c.journal.oldStateHash)
    (hnew : value.newStateHash = c.journal.newStateHash) :
    (inspectTrustState env value).Upholds (fun _ _ => False)
      (fun r t => r = some c.newState ∧ t = ⟨state, journal⟩) (fun _ _ => False)
      ⟨state, journal⟩ := by
  have hb := installed_bounded h hs
  have hold := hold.trans h.oldHash
  have hnew := hnew.trans h.newHash
  cases hs with
  | exchanged =>
    refine onState_reads (.stable (some c.newState)) hold hnew ?_ hb
    simp [GuardedControl.classify]
  | backedUp =>
    refine onState_reads (.removeBackup (some c.newState)) hold hnew ?_ hb
    simp [GuardedControl.classify, GuardedControl.classifyBackup]
  | settled =>
    refine onState_reads (.stable (some c.newState)) hold hnew ?_ hb
    simp [GuardedControl.classify]

theorem inspectRecovery_completing (hs : Installed c state)
    (hj : h.replacement.Reachable journal) :
    ∃ value, value.oldStateHash = c.journal.oldStateHash ∧
      value.newStateHash = c.journal.newStateHash ∧
      (inspectRecovery env).Upholds (fun _ _ => False)
        (fun r t => r = some ⟨value, c.newState, .completed⟩ ∧ t = ⟨state, journal⟩)
        (fun _ _ => False) ⟨state, journal⟩ := by
  obtain ⟨value, hvalid, hold, hnew, hinspect⟩ := inspect_reachable h state hj
  refine ⟨value, hold, hnew, ?_⟩
  rw [inspectRecovery, Program.bind_upholds]
  refine hinspect.mono (fun _ _ => id) ?_ (fun _ _ => id)
  rintro _ _ ⟨rfl, rfl⟩
  rw [Program.bind_upholds]
  refine (inspect_installed h hs hold hnew).mono (fun _ _ => id) ?_ (fun _ _ => id)
  rintro _ _ ⟨rfl, rfl⟩
  have hhash : contentDigest env.blake3 c.newState = value.newStateHash := by
    rw [hnew, h.newHash]
  simp [hhash, hvalid]

include h in
theorem inspectRecovery_aborting (hs : Waiting c state) (hj : Opening c journal) :
    (inspectRecovery env).Upholds (fun _ _ => False)
      (fun r t => r = some ⟨c.journal, c.oldState, .aborted⟩ ∧ t = ⟨state, journal⟩)
      (fun _ _ => False) ⟨state, journal⟩ := by
  rw [inspectRecovery, Program.bind_upholds]
  refine (inspect_opening h state hj).mono (fun _ _ => id) ?_ (fun _ _ => id)
  rintro _ _ ⟨rfl, rfl⟩
  rw [Program.bind_upholds]
  refine (inspect_waiting h journal hs).mono (fun _ _ => id) ?_ (fun _ _ => id)
  rintro _ _ ⟨rfl, rfl⟩
  have hnew : ¬ contentDigest env.blake3 c.oldState = c.journal.newStateHash := by
    rw [h.newHash]
    exact h.hash_ne
  have hold : contentDigest env.blake3 c.oldState = c.journal.oldStateHash := h.oldHash.symm
  have hstaged : state.staging = some c.newState := by cases hs <;> rfl
  simp only [if_neg hnew, if_pos (And.intro hold h.phase)]
  simp [readState, onState, readText_upholds, bytePlatform, hstaged, h.len_new, ← h.newHash,
    h.transition]

include h in
/-- Once the staged state is gone, an announced change that did not happen cannot be told. -/
theorem inspectRecovery_stranded :
    (inspectRecovery env).Upholds (fun _ _ => False) (fun _ _ => False) (fun _ _ => True)
      ⟨⟨some c.oldState, none, none⟩, ⟨some c.preparedText, none, none⟩⟩ := by
  rw [inspectRecovery, Program.bind_upholds]
  refine (inspect_opening h _ (.durable)).mono (fun _ _ => id) ?_ (fun _ _ => False.elim)
  rintro _ _ ⟨rfl, rfl⟩
  rw [Program.bind_upholds, inspectTrustState, Program.zoom_upholds, Program.mapError_upholds]
  refine (GuardedControl.inspect_upholds_of_none ?_).mono (fun _ _ => id)
    (fun _ _ => False.elim) (fun _ _ _ => trivial)
  simp [GuardedControl.classify, h.oldHash, h.newHash, h.hash_ne]

/-- A journal is read only from the text it is written as. -/
theorem journalText_of_parse {text : Bytes} {value : TrustJournal}
    (hp : parseTrustJournal env text = .ok value) : journalText env value = .ok text := by
  unfold parseTrustJournal at hp
  cases hd : env.decodeJournal text with
  | none => rw [hd] at hp; contradiction
  | some decoded =>
    simp only [hd, Except.bind_eq_ok_iff, Except.pure_eq_ok_iff] at hp
    obtain ⟨-, -, encoded, hencoded, _, hsame, rfl⟩ := hp
    rw [hencoded]
    simpa using refuseIf_eq_ok.mp hsame

include h in
/-- A pending journal that is not the one to come blocks recovery. -/
theorem inspectRecovery_torn {pending : Bytes} (hne : pending ≠ committedText) :
    (inspectRecovery env).Upholds (fun _ _ => False) (fun _ _ => False) (fun _ _ => True)
      ⟨state, ⟨some c.preparedText, some pending, none⟩⟩ := by
  rw [inspectRecovery, Program.bind_upholds, inspectTrustJournal, Program.zoom_upholds,
    Program.mapError_upholds, TrustStore.journalFiles_get]
  have hno : ∀ next, parseTrustJournal env pending = .ok next →
      validTrustJournalTransition c.journal next = false ∧
        validTrustJournalTransition next c.journal = false := by
    intro next hnext
    have htext := journalText_of_parse hnext
    constructor
    · rw [Bool.eq_false_iff]
      intro hvalid
      simp only [validTrustJournalTransition, Bool.and_eq_true, beq_iff_eq] at hvalid
      rw [← hvalid.2, journalText_of_parse h.parse_committed] at htext
      exact hne (Except.ok.inj htext).symm
    · rw [Bool.eq_false_iff]
      intro hvalid
      simp only [validTrustJournalTransition, Bool.and_eq_true, beq_iff_eq] at hvalid
      have hphase := congrArg TrustJournal.phase hvalid.2
      rw [h.phase] at hphase
      contradiction
  by_cases hlen : pending.length ≤ maxControlBytes
  · cases hnext : parseTrustJournal env pending with
    | error e =>
      simp [GuardedJournal.inspect, readTexts, storage, GuardedJournal.parse, readText_upholds,
        bytePlatform, h.len_prepared,
        hlen, journalFormat, h.parse_prepared, hnext]
    | ok next =>
      obtain ⟨hforward, hback⟩ := hno next hnext
      simp [GuardedJournal.inspect, readTexts, storage, GuardedJournal.parse, readText_upholds,
        bytePlatform, h.len_prepared,
        hlen, journalFormat, h.parse_prepared, hnext, hforward, hback]
  · simp [GuardedJournal.inspect, readTexts, storage, readText_upholds, bytePlatform,
      h.len_prepared, hlen]

end Inspection

section Settling

variable {env : TrustEnvironment} {c : PreparedChange} {committedText : Bytes}
  (h : Sound env c committedText) {state journal : Slots Bytes}

include h in
theorem reconcile_opening (hj : Opening c journal) :
    (reconcileTrustJournal env).Upholds
      (fun _ t => t.state = state ∧ Opening c t.journal)
      (fun _ t => t = ⟨state, ⟨some c.preparedText, none, none⟩⟩) (fun _ _ => False)
      ⟨state, journal⟩ := by
  rw [reconcileTrustJournal, Program.zoom_upholds, Program.mapError_upholds]
  have hlen : (bytePlatform env.exchange).len c.preparedText ≤ maxControlBytes := h.len_prepared
  cases hj with
  | pending =>
    simpa [GuardedJournal.reconcile, readTexts, storage, GuardedJournal.parse, readText_upholds,
      hlen, journalFormat,
      h.parse_prepared, installStagedTextGuarded_none_upholds hlen] using .durable
  | durable =>
    simp [GuardedJournal.reconcile, readTexts, storage, GuardedJournal.parse, readText_upholds,
      hlen, journalFormat,
      h.parse_prepared]

theorem reconcile_reachable (hj : h.replacement.Reachable journal) :
    (reconcileTrustJournal env).Upholds
      (fun _ t => t.state = state ∧ h.replacement.Reachable t.journal)
      (fun _ t => ∃ text, t = ⟨state, ⟨some text, none, none⟩⟩ ∧
        h.replacement.Reachable ⟨some text, none, none⟩) (fun _ _ => False)
      ⟨state, journal⟩ := by
  rw [reconcileTrustJournal, Program.zoom_upholds, Program.mapError_upholds]
  rcases hj with hj | hj
  · refine (h.replacement.reconcile_retains hj).mono (fun _ _ hstep => ⟨rfl, hstep.2⟩) ?_
      (fun _ _ => id)
    intro _ t ht
    exact ⟨c.preparedText, by rw [ht]; rfl, .inl .untouched⟩
  · refine (h.replacement.reconcile_advances hj).mono (fun _ _ hstep => ⟨rfl, hstep.2⟩) ?_
      (fun _ _ => id)
    intro _ t ht
    exact ⟨committedText, by rw [ht]; rfl, .inr .settled⟩

include h in
theorem reconcile_waiting (hs : Waiting c state) :
    (reconcileTrustState env c.journal).Upholds
      (fun _ t => t.journal = journal ∧ Waiting c t.state)
      (fun _ t => t = ⟨⟨some c.oldState, some c.newState, none⟩, journal⟩) (fun _ _ => False)
      ⟨state, journal⟩ := by
  have hb := waiting_bounded h hs
  rw [reconcileTrustState, Program.zoom_upholds, Program.mapError_upholds, h.oldHash, h.newHash]
  cases hs with
  | staged =>
    refine GuardedControl.reconcile_upholds ?_ (.inl hb) (.inl ?_) <;>
      simp [GuardedControl.classify, h.hash_ne, GuardedControl.settle]
  | displaced =>
    refine GuardedControl.reconcile_upholds ?_ (.inl hb) (.inl ?_)
    · simp [GuardedControl.classify, GuardedControl.classifyBackup, GuardedControl.settle,
        GuardedControl.storage, restoreGuardedBackup_upholds]
      exact .staged
    · simp [GuardedControl.classify, GuardedControl.classifyBackup]

include h in
theorem reconcile_installed {value : TrustJournal} (hs : Installed c state)
    (hold : value.oldStateHash = c.journal.oldStateHash)
    (hnew : value.newStateHash = c.journal.newStateHash) :
    (reconcileTrustState env value).Upholds
      (fun _ t => t.journal = journal ∧ Installed c t.state)
      (fun _ t => ∃ staging, t = ⟨⟨some c.newState, staging, none⟩, journal⟩) (fun _ _ => False)
      ⟨state, journal⟩ := by
  have hb := installed_bounded h hs
  rw [reconcileTrustState, Program.zoom_upholds, Program.mapError_upholds, hold, hnew, h.oldHash,
    h.newHash]
  cases hs with
  | backedUp =>
    refine GuardedControl.reconcile_upholds ?_ (.inl hb) (.inl ?_)
    · simp [GuardedControl.classify, GuardedControl.classifyBackup, GuardedControl.settle]
      exact .settled
    · simp [GuardedControl.classify, GuardedControl.classifyBackup]
  | _ =>
    refine GuardedControl.reconcile_upholds ?_ (.inl hb) (.inl ?_) <;>
      simp [GuardedControl.classify, GuardedControl.settle]

/-- A recovery that sees the old state in place removes what was staged for the new one. -/
theorem recover_aborting (hs : Waiting c state) (hj : Opening c journal) :
    (recover env).Upholds (fun _ t => Shape h t)
      (fun outcome t => outcome = .aborted ∧
        t = ⟨⟨some c.oldState, none, none⟩, ⟨none, none, none⟩⟩)
      (fun _ _ => False) ⟨state, journal⟩ := by
  have hinspect := inspectRecovery_aborting h hs hj
  rw [recover, Program.bind_upholds]
  refine hinspect.mono (fun _ _ => False.elim) ?_ (fun _ _ => id)
  rintro _ _ ⟨rfl, rfl⟩
  simp only [recoverLockedInner]
  rw [Program.bind_upholds]
  refine hinspect.mono (fun _ _ => False.elim) ?_ (fun _ _ => id)
  rintro _ _ ⟨rfl, rfl⟩
  simp only [beq_self_eq_true, Program.bind_upholds, Program.require_upholds, if_true]
  refine (reconcile_opening h hj).mono (fun t u hboth => ?_) ?_ (fun _ _ => id)
  · obtain ⟨hstate, hopen⟩ := hboth
    obtain ⟨_, _⟩ := u
    obtain rfl : _ = state := hstate
    exact .aborting hs hopen
  rintro _ _ rfl
  refine (reconcile_waiting h hs).mono (fun t u hboth => ?_) ?_ (fun _ _ => id)
  · obtain ⟨hjournal, hwait⟩ := hboth
    obtain ⟨_, _⟩ := u
    obtain rfl : _ = _ := hjournal
    exact .aborting hwait .durable
  rintro _ _ rfl
  simp [cleanupTransactionFiles, onState, onJournal, Shape.stranded,
    Shape.settled (h := h) (.inl rfl)]

/-- A recovery that sees the new state in place removes what was kept of the old one. -/
theorem recover_completing (hs : Installed c state) (hj : h.replacement.Reachable journal) :
    (recover env).Upholds (fun _ t => Shape h t)
      (fun outcome t => outcome = .completed ∧
        t = ⟨⟨some c.newState, none, none⟩, ⟨none, none, none⟩⟩)
      (fun _ _ => False) ⟨state, journal⟩ := by
  obtain ⟨value, hold, hnew, hinspect⟩ := inspectRecovery_completing h hs hj
  rw [recover, Program.bind_upholds]
  refine hinspect.mono (fun _ _ => False.elim) ?_ (fun _ _ => id)
  rintro _ _ ⟨rfl, rfl⟩
  simp only [recoverLockedInner]
  rw [Program.bind_upholds]
  refine hinspect.mono (fun _ _ => False.elim) ?_ (fun _ _ => id)
  rintro _ _ ⟨rfl, rfl⟩
  simp only [beq_self_eq_true, Program.bind_upholds, Program.require_upholds, if_true]
  refine (reconcile_reachable h hj).mono (fun t u hboth => ?_) ?_ (fun _ _ => id)
  · obtain ⟨hstate, hreach⟩ := hboth
    obtain ⟨_, _⟩ := u
    obtain rfl : _ = state := hstate
    exact .completing hs hreach
  rintro _ _ ⟨text, rfl, hreach⟩
  refine (reconcile_installed h hs hold hnew).mono (fun t u hboth => ?_) ?_
    (fun _ _ => id)
  · obtain ⟨hjournal, hin⟩ := hboth
    obtain ⟨_, _⟩ := u
    obtain rfl : _ = _ := hjournal
    exact .completing hin hreach
  rintro _ _ ⟨staging, rfl⟩
  simp [cleanupTransactionFiles, onState, onJournal, Shape.completing Installed.settled hreach,
    Shape.settled (h := h) (.inr rfl)]

theorem recover_settled {text : Bytes} :
    (recover env).Upholds (fun _ _ => False)
      (fun outcome t => outcome = .absent ∧ t = ⟨⟨some text, none, none⟩, ⟨none, none, none⟩⟩)
      (fun _ _ => False) ⟨⟨some text, none, none⟩, ⟨none, none, none⟩⟩ := by
  simp [recover, inspectRecovery, inspectTrustJournal, GuardedJournal.inspect, readTexts, storage,
    readText_upholds]

/-- A recovery that cannot tell what happened changes nothing. -/
theorem recover_blocked {s : TrustStore}
    (hs : (inspectRecovery env).Upholds (fun _ _ => False) (fun _ _ => False) (fun _ _ => True) s) :
    (recover env).Upholds (fun _ _ => False) (fun _ _ => False) (fun _ _ => True) s := by
  rw [recover, Program.bind_upholds]
  exact hs.mono (fun _ _ => id) (fun _ _ => False.elim) (fun _ _ => id)

end Settling

end Kitrove.ExecutableTrust
