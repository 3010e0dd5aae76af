import Kitrove.Trust.Recovery

/-! A decision about an executable object is atomic and recoverable, except where a stop in the
middle of an abort's cleanup, or of writing the pending journal, loses what recovery looks for. -/

namespace Kitrove.ExecutableTrust

open Std Crash Kitrove GuardedJournal

section Preparation

variable {env : TrustEnvironment} {plan refreshed : ExecutableTrustPlan}
  {oldState newState text : Bytes} {state : LocalState}

theorem stateDecision_of_fromJson (h : LocalState.fromJson env.states text = .ok state)
    (objectHash : ContentHash) : stateDecision env text objectHash =
      .ok (state.trust[objectHash]?.map ExecutableTrustDecision.ofRecord) := by
  rw [stateDecision, h]
  rfl

theorem OnlyDecision.erase {objectHash : ContentHash} {old new : LocalState}
    (h : OnlyDecision objectHash old new) :
    { old with trust := old.trust.erase objectHash } =
      { new with trust := new.trust.erase objectHash } := by
  have htrust : old.trust.erase objectHash = new.trust.erase objectHash := by
    refine ExtTreeMap.ext_getElem? fun hash => ?_
    simp only [ExtTreeMap.getElem?_erase]
    split
    · rfl
    · rename_i hne
      refine (h.trust hash fun heq => hne ?_).symm
      rw [heq]
      exact ReflCmp.compare_self
  rw [h.others, htrust]

/-- What a prepared change is made of. -/
structure Prepares (env : TrustEnvironment) (plan : ExecutableTrustPlan) (c : PreparedChange) :
    Prop where
  refreshed : ∃ refreshed stagingState oldDecision,
    planExecutableTrust env.blake3 env.states env.authority c.oldState plan.assetId plan.decision =
      .ok refreshed ∧ refreshed.disposition ≠ .noOp ∧
    refreshed.proposedLocalState.toJson env.states = .ok c.newState ∧
    stagingStatePath refreshed.digest = .ok stagingState ∧
    stateDecision env c.oldState refreshed.objectHash = .ok oldDecision ∧
    c.journal = initialJournal env refreshed oldDecision c.oldState c.newState stagingState
  text : journalText env c.journal = .ok c.preparedText
  len_old : c.oldState.length ≤ maxControlBytes

theorem dispositionMatches_of_ne_noOp {journal : TrustJournal} {current : Option TrustDecision}
    (hdisposition : journal.disposition = dispositionFor current journal.newDecision)
    (hold : journal.oldDecision = current.map ExecutableTrustDecision.ofRecord)
    (h : journal.disposition ≠ .noOp) : dispositionMatches journal = true := by
  have hne := dispositionFor_ne_noOp (hdisposition ▸ h)
  rw [← hold] at hne
  rw [dispositionMatches, hdisposition]
  rw [hdisposition] at h
  cases current with
  | none => simp [dispositionFor, hold]
  | some record =>
    have hsome : journal.oldDecision.isSome = true := by simp [hold]
    have hreplace : dispositionFor (some record) journal.newDecision = .replace := by
      cases record <;> cases hd : journal.newDecision <;> simp_all [dispositionFor]
    simp [hreplace, hsome, hne]

/-- The two texts of a prepared change, and the states they are read as. -/
structure Changes (env : TrustEnvironment) (plan : ExecutableTrustPlan) (c : PreparedChange)
    (old new : LocalState) : Prop where
  parse_old : LocalState.fromJson env.states c.oldState = .ok old
  parse_new : LocalState.fromJson env.states c.newState = .ok new
  only : OnlyDecision c.journal.objectHash old new
  entered : new.trust[c.journal.objectHash]? = some plan.decision.record
  unlike : old.trust[c.journal.objectHash]?.map ExecutableTrustDecision.ofRecord ≠
    some plan.decision
  object : ∃ revision, env.authority plan.assetId = .ok (revision, c.journal.objectHash)

/-- A prepared change enters one decision, and its journal passes its own check in both
phases. -/
theorem Prepares.changes (hl : env.Lawful) {c : PreparedChange} (h : Prepares env plan c) :
    (∃ old new, Changes env plan c old new) ∧
      (contentDigest env.blake3 c.oldState ≠ contentDigest env.blake3 c.newState →
        ∀ phase, validateJournal env { c.journal with phase := phase } = .ok ()) ∧
      c.journal.phase = .prepared ∧ c.journal.newDecision = plan.decision ∧
      stateDecision env c.oldState c.journal.objectHash = .ok c.journal.oldDecision ∧
      c.journal.oldStateHash = contentDigest env.blake3 c.oldState ∧
      c.journal.newStateHash = contentDigest env.blake3 c.newState := by
  obtain ⟨refreshed, stagingState, oldDecision, hplan, hnoOp, hnew, hpath, hold, hjournal⟩ :=
    h.refreshed
  obtain ⟨hasset, hdecision, state, proposedText, hplanned⟩ := planExecutableTrust_planned hplan
  obtain rfl : proposedText = c.newState := by
    have := hplanned.encoded.symm.trans hnew
    exact Except.ok.inj this
  have hnewState := LocalState.fromJson_toJson hl.states hnew
  have holdDecision := stateDecision_of_fromJson hplanned.observed refreshed.objectHash
  rw [hold] at holdDecision
  have holdDecision := Except.ok.inj holdDecision
  have hne : dispositionFor state.trust[refreshed.objectHash]? refreshed.decision ≠ .noOp := by
    rw [← hplanned.disposition]
    exact hnoOp
  have hobject : ∃ revision, env.authority plan.assetId = .ok (revision, refreshed.objectHash) := by
    rw [planExecutableTrust, Except.bind_eq_ok_iff] at hplan
    obtain ⟨⟨revision, objectHash⟩, hauthority, hplan⟩ := hplan
    simp only [Except.bind_eq_ok_iff, Except.pure_eq_ok_iff] at hplan
    obtain ⟨-, -, -, -, rfl⟩ := hplan
    exact ⟨revision, hauthority⟩
  rw [hjournal]
  refine ⟨⟨state, refreshed.proposedLocalState, hplanned.observed, hnewState, ?_, ?_, ?_, ?_⟩, ?_,
    rfl, hdecision, ?_, rfl, rfl⟩
  · rw [hjournal, hplanned.proposed]
    exact propose_onlyDecision
  · rw [hjournal, hplanned.proposed, ← hdecision]
    exact propose_decision hne
  · rw [hjournal, ← hdecision]
    exact dispositionFor_ne_noOp hne
  · rw [hjournal]
    exact hobject
  · intro hhash phase
    have hmatches : dispositionMatches { initialJournal env refreshed oldDecision c.oldState
        c.newState stagingState with phase := phase } = true :=
      dispositionMatches_of_ne_noOp hplanned.disposition holdDecision hnoOp
    rw [validateJournal]
    have hpath' : stagingStatePath { initialJournal env refreshed oldDecision c.oldState c.newState
        stagingState with phase := phase }.planDigest = .ok stagingState := hpath
    rw [hpath']
    simp only [bind, Except.bind]
    rw [refuseIf_eq_ok, hmatches]
    simp [initialJournal, hhash, hplanned.digest]
  · exact hold

/-- The texts that the commit still has to write are within the limit for control files. -/
structure Storable (env : TrustEnvironment) (c : PreparedChange) : Prop where
  newState : c.newState.length ≤ maxControlBytes
  committed : ∃ text, journalText env { c.journal with phase := .stateCommitted } = .ok text ∧
    text.length ≤ maxControlBytes

theorem parseTrustJournal_journalText (hl : env.Lawful) {journal : TrustJournal}
    (hvalid : validateJournal env journal = .ok ()) (htext : journalText env journal = .ok text) :
    parseTrustJournal env text = .ok journal := by
  have hencoded := htext
  unfold journalText at hencoded
  cases he : env.encodeJournal journal with
  | none => rw [he] at hencoded; contradiction
  | some encoded =>
    rw [he] at hencoded
    obtain rfl := Except.ok.inj hencoded
    rw [parseTrustJournal, hl.journal journal encoded he]
    simp only [hvalid, htext, bind, Except.bind]
    simp [refuseIf, pure, Except.pure]

theorem Prepares.sound (hl : env.Lawful) {c : PreparedChange} (h : Prepares env plan c)
    (hcollision : env.blake3 c.oldState = env.blake3 c.newState → c.oldState = c.newState)
    (hstorable : Storable env c) (hlen : c.preparedText.length ≤ maxControlBytes) :
    ∃ committedText, journalText env { c.journal with phase := .stateCommitted } =
      .ok committedText ∧ Sound env c committedText := by
  obtain ⟨⟨old, new, hchanges⟩, hvalid, hphase, hdecision, hold, holdHash, hnewHash⟩ := h.changes hl
  obtain ⟨committedText, hcommitted, hlenCommitted⟩ := hstorable.committed
  have hnewDecision := stateDecision_of_fromJson hchanges.parse_new c.journal.objectHash
  rw [hchanges.entered, Option.map_some, ExecutableTrustDecision.ofRecord_record] at hnewDecision
  have hne : contentDigest env.blake3 c.oldState ≠ contentDigest env.blake3 c.newState := by
    intro heq
    have hsame := hchanges.parse_old
    rw [hcollision (contentDigest_injective heq), hchanges.parse_new] at hsame
    have hunlike := hchanges.unlike
    rw [← Except.ok.inj hsame, hchanges.entered] at hunlike
    exact hunlike (by simp)
  have hprepared : validateJournal env c.journal = .ok () := by
    have := hvalid hne .prepared
    rwa [← hphase] at this
  refine ⟨committedText, hcommitted, hphase, parseTrustJournal_journalText hl hprepared h.text,
    parseTrustJournal_journalText hl (hvalid hne .stateCommitted) hcommitted, holdHash, hnewHash,
    hne, ?_, ?_, h.len_old, hstorable.newState, hlen, hlenCommitted⟩
  · rw [validateNewDecision, hnewDecision, hdecision]
    simp [bind, Except.bind, refuseIf]
  · rw [validateDecisionTransition, hchanges.parse_old, hchanges.parse_new, hnewDecision, hold,
      hdecision]
    simp [bind, Except.bind, Except.mapError, refuseIf, hchanges.only.erase]

end Preparation

section Commit

variable {env : TrustEnvironment} {plan : ExecutableTrustPlan} {c : PreparedChange}
  {committedText : Bytes} {start : TrustStore}

/-- The files when no change is under way; a leftover staged state does not matter. -/
structure Idle (s : TrustStore) : Prop where
  journal : s.journal = ⟨none, none, none⟩
  backup : s.state.backup = none

/-- The files when a change is staged and its journal pending. -/
def Staged (c : PreparedChange) (s : TrustStore) : Prop :=
  s = ⟨⟨some c.oldState, some c.newState, none⟩, ⟨none, some c.preparedText, none⟩⟩

theorem recover_idle (h : Idle start) :
    (recover env).Upholds (fun _ _ => False) (fun outcome t => outcome = .absent ∧ t = start)
      (fun _ _ => False) start := by
  obtain ⟨state, journal⟩ := start
  obtain rfl : journal = ⟨none, none, none⟩ := h.journal
  simp [recover, inspectRecovery, inspectTrustJournal, GuardedJournal.inspect, readTexts, storage,
    readText_upholds]

/-- Until the pending journal is staged, no journal is in place. -/
theorem stageChange_upholds {refreshed : ExecutableTrustPlan} {oldState : Bytes}
    {staging : Option Bytes} (hlen : oldState.length ≤ maxControlBytes)
    (hplan : planExecutableTrust env.blake3 env.states env.authority oldState plan.assetId
      plan.decision = .ok refreshed) (hnoOp : refreshed.disposition ≠ .noOp) :
    (stageChange env refreshed oldState).Upholds (fun _ t => t.journal.destination = none)
      (fun c t => Prepares env plan c ∧ Staged c t ∧ c.oldState = oldState) (fun _ _ => True)
      ⟨⟨some oldState, staging, none⟩, ⟨none, none, none⟩⟩ := by
  rw [stageChange, Program.bind_upholds]
  refine Program.ofExcept_upholds_of (fun newState hnew => ?_) fun _ _ => trivial
  rw [Program.bind_upholds]
  refine Program.ofExcept_upholds_of (fun stagingState hpath => ?_) fun _ _ => trivial
  rw [Program.bind_upholds]
  refine Program.ofExcept_upholds_of (fun oldDecision hold => ?_) fun _ _ => trivial
  rw [Program.bind_upholds]
  refine Program.ofExcept_upholds_of (fun preparedText htext => ?_) fun _ _ => trivial
  rw [Program.bind_upholds, onState, Program.zoom_upholds, Program.mapError_upholds]
  refine stagePrivateText_upholds (fun _ => rfl) ?_ fun _ _ => trivial
  rw [Program.bind_upholds, onJournal, Program.zoom_upholds, Program.mapError_upholds]
  refine stagePrivateText_upholds (fun _ => rfl) ?_ fun _ _ => trivial
  exact Program.pure_upholds.mpr ⟨⟨⟨refreshed, stagingState, oldDecision, hplan, hnoOp,
    Except.mapError_eq_ok_iff.mp hnew, hpath, hold, rfl⟩, htext, hlen⟩, rfl, rfl⟩

theorem prepareCommit_upholds (h : Idle start) :
    (prepareCommit env plan).Upholds (fun _ t => t.journal.destination = none)
      (fun r t => ∀ c, r = .inr c → Prepares env plan c ∧ Staged c t ∧
        start.state.destination = some c.oldState) (fun _ _ => True) start := by
  have hrecover : (recover env).Upholds _ _ _ start := recover_idle h
  obtain ⟨⟨destination, staging, backup⟩, journal⟩ := start
  obtain rfl : journal = ⟨none, none, none⟩ := h.journal
  obtain rfl : backup = none := h.backup
  rw [prepareCommit, Program.bind_upholds]
  refine hrecover.mono (fun _ _ => False.elim) ?_ (fun _ _ => False.elim)
  rintro _ _ ⟨rfl, rfl⟩
  rw [Program.bind_upholds, readState, onState, Program.zoom_upholds, Program.mapError_upholds,
    readText_upholds, TrustStore.stateFiles_get, Slots.get_destination]
  cases destination with
  | none => simp
  | some oldState =>
    by_cases hlen : (bytePlatform env.exchange).len oldState ≤ maxControlBytes
    swap
    · simp [hlen]
    simp only [Option.all_some, decide_eq_true hlen, if_true]
    rw [Program.bind_upholds]
    refine Program.ofExcept_upholds_of (fun refreshed hplan => ?_) fun _ _ => trivial
    split
    · split
      · exact Program.pure_upholds.mpr fun c hc => (Sum.inl_ne_inr hc).elim
      · exact Program.fail_upholds.mpr trivial
    split
    · exact Program.pure_upholds.mpr fun c hc => (Sum.inl_ne_inr hc).elim
    rename_i hnoOp
    rw [Program.bind_upholds]
    refine (stageChange_upholds hlen (Except.mapError_eq_ok_iff.mp hplan) hnoOp).mono
      (fun _ _ => id) ?_ (fun _ _ => id)
    rintro change _ ⟨hprepares, hstaged, rfl⟩
    refine Program.pure_upholds.mpr fun c hc => ?_
    obtain rfl := Sum.inr.inj hc
    exact ⟨hprepares, hstaged, rfl⟩

/-- A journal that is too long to be installed never becomes durable. -/
theorem commitChange_unreadable (hlen : ¬ c.preparedText.length ≤ maxControlBytes)
    {s : TrustStore} (hs : Staged c s) :
    (commitChange env c).Upholds (fun _ _ => False) (fun _ _ => True) (fun _ _ => True) s := by
  rw [hs, commitChange, Program.bind_upholds]
  simp [onJournal, installStagedTextGuarded, installStagedTextGuardedWithHook, readText_upholds,
    bytePlatform, hlen]

/-- From the durable journal on, every stop of a commit leaves a known shape. -/
theorem commitChange_upholds (h : Sound env c committedText)
    (htext : journalText env { c.journal with phase := .stateCommitted } = .ok committedText)
    {s : TrustStore} (hs : Staged c s) :
    (commitChange env c).Upholds (fun _ t => Shape h t) (fun _ _ => True) (fun _ _ => True) s := by
  have hdurable : Shape h ⟨⟨some c.oldState, some c.newState, none⟩,
      ⟨some c.preparedText, none, none⟩⟩ := .aborting .staged .durable
  have hinstalled : ∀ {state}, Installed c state → Shape h ⟨state,
      ⟨some c.preparedText, none, none⟩⟩ := fun hi => .completing hi .untouched
  have hlens := h.len_prepared
  have hold : (bytePlatform env.exchange).len c.oldState ≤ maxControlBytes := h.len_old
  have hnew : (bytePlatform env.exchange).len c.newState ≤ maxControlBytes := h.len_new
  have hprepared : (bytePlatform env.exchange).len c.preparedText ≤ maxControlBytes :=
    h.len_prepared
  rw [hs, commitChange, Program.bind_upholds, onJournal, Program.zoom_upholds,
    Program.mapError_upholds]
  refine (installStagedTextGuarded_none_upholds hprepared).mpr ⟨hdurable, hdurable, ?_⟩
  -- the rest of the commit, once the state is in place
  have hrest : Program.Upholds (do
      let committedText ← Program.ofExcept
        (journalText env { c.journal with phase := .stateCommitted })
      onJournal (stagePrivateText (bytePlatform env.exchange) .staging committedText
        maxControlBytes)
      onJournal (installStagedTextGuarded (bytePlatform env.exchange) (some c.preparedText)
        committedText maxControlBytes)
      cleanupTransactionFiles
      pure CommitOutcome.committed) (fun _ t => Shape h t) (fun _ _ => True) (fun _ _ => True)
      ⟨⟨some c.newState, none, none⟩, ⟨some c.preparedText, none, none⟩⟩ := by
    rw [htext, Program.bind_upholds, Program.ofExcept_ok_upholds, Program.bind_upholds, onJournal,
      Program.zoom_upholds, Program.mapError_upholds]
    refine stagePrivateText_upholds (fun k => Shape.torn k) ?_ fun _ _ => trivial
    rw [Program.bind_upholds, onJournal, Program.zoom_upholds, Program.mapError_upholds]
    refine (h.replacement.installs rfl).mono (fun t u hstep => .completing .settled hstep.2) ?_
      (fun _ _ => False.elim)
    rintro _ _ rfl
    have hdone : Shape h ⟨⟨some c.newState, none, none⟩, ⟨some committedText, none, none⟩⟩ :=
      .completing .settled .settled
    simp [cleanupTransactionFiles, onState, onJournal, hdone, Shape.settled (h := h) (.inr rfl),
      Sound.replacement]
  rw [Program.bind_upholds, onState, Program.zoom_upholds, Program.mapError_upholds]
  refine (installStagedTextGuarded_upholds hold hnew h.old_ne_new).mpr ?_
  split
  · exact ⟨hinstalled .exchanged, hinstalled .settled, hrest⟩
  · exact ⟨.aborting .displaced .durable, hinstalled .backedUp, hinstalled .settled, hrest⟩

end Commit

section Recoverability

variable {env : TrustEnvironment} {plan : ExecutableTrustPlan} {c : PreparedChange}
  {committedText : Bytes}

/-- The next uninterrupted recovery succeeds, and leaves `state.json` as its outcome says and
nothing else. -/
def Settles (env : TrustEnvironment) (c : PreparedChange) (s : TrustStore) : Prop :=
  ∃ outcome text, (recover env s).result = .ok outcome ∧
    (recover env).final s = ⟨⟨some text, none, none⟩, ⟨none, none, none⟩⟩ ∧
    (outcome = .aborted → text = c.oldState) ∧ (outcome = .completed → text = c.newState) ∧
    (text = c.oldState ∨ text = c.newState)

/-- No abort was stopped between removing the staged state and removing the journal, and the
commit was not stopped while it wrote the pending journal. -/
structure Resumable (env : TrustEnvironment) (c : PreparedChange) (s : TrustStore) : Prop where
  staged : s.journal ≠ ⟨none, none, none⟩ → s.state.destination = some c.oldState →
    s.state.staging ≠ none
  whole : ∀ pending ∈ s.journal.staging, s.journal.destination ≠ some pending ∧ ∃ phase,
    journalText env { c.journal with phase := phase } = .ok pending

theorem settles_of_upholds {s : TrustStore} {G : TrustStore → TrustStore → Prop}
    {outcome : RecoveryOutcome} {text : Bytes}
    (h : (recover env).Upholds G
      (fun o t => o = outcome ∧ t = ⟨⟨some text, none, none⟩, ⟨none, none, none⟩⟩)
      (fun _ _ => False) s)
    (haborted : outcome = .aborted → text = c.oldState)
    (hcompleted : outcome = .completed → text = c.newState)
    (htext : text = c.oldState ∨ text = c.newState) : Settles env c s := by
  obtain ⟨_, hresult, rfl, hfinal⟩ := h.returns
  exact ⟨_, text, hresult, hfinal, haborted, hcompleted, htext⟩

theorem not_settles_of_upholds {s : TrustStore}
    (h : (recover env).Upholds (fun _ _ => False) (fun _ _ => False) (fun _ _ => True) s) :
    ¬ Settles env c s := by
  rintro ⟨outcome, _, hresult, -⟩
  exact h.returned hresult

theorem Sound.journalText_prepared (h : Sound env c committedText) :
    ∃ phase, journalText env { c.journal with phase := phase } = .ok c.preparedText := by
  have htext := journalText_of_parse h.parse_prepared
  exact ⟨.prepared, by rwa [← h.phase]⟩

theorem whole_of_reachable (h : Sound env c committedText) {journal : Slots Bytes}
    (hj : h.replacement.Reachable journal) : ∀ pending ∈ journal.staging,
      journal.destination ≠ some pending ∧
        ∃ phase, journalText env { c.journal with phase := phase } = .ok pending := by
  have hne : c.preparedText ≠ committedText := h.replacement.oldText_ne_newText
  have hcommitted : ∃ phase, journalText env { c.journal with phase := phase } =
      .ok committedText := ⟨.stateCommitted, journalText_of_parse h.parse_committed⟩
  intro pending hpending
  rcases hj with hj | hj <;> cases hj
  case inl.displaced =>
    obtain rfl := Option.some.inj hpending
    exact ⟨by simp, hcommitted⟩
  case inr.staged =>
    obtain rfl := Option.some.inj hpending
    exact ⟨fun heq => hne (Option.some.inj heq), hcommitted⟩
  case inr.exchanged =>
    obtain rfl := Option.some.inj hpending
    exact ⟨fun heq => hne (Option.some.inj heq).symm, h.journalText_prepared⟩
  all_goals contradiction

/-- Of the shapes a change can leave, recovery settles exactly those from which it can be
resumed. -/
theorem settles_iff_resumable (h : Sound env c committedText) {s : TrustStore} (hs : Shape h s) :
    Settles env c s ↔ Resumable env c s := by
  cases hs with
  | @aborting state journal hstate hjournal =>
    refine iff_of_true (settles_of_upholds (recover_aborting h hstate hjournal) (fun _ => rfl)
      (fun hc => nomatch hc) (.inl rfl)) ⟨fun _ _ => ?_, fun pending hp => ?_⟩
    · cases hstate <;> simp
    · cases hjournal with
      | pending =>
        obtain rfl := Option.some.inj hp
        exact ⟨by simp, h.journalText_prepared⟩
      | durable => contradiction
  | @completing state journal hstate hjournal =>
    refine iff_of_true (settles_of_upholds (recover_completing h hstate hjournal)
      (fun hc => nomatch hc) (fun _ => rfl) (.inr rfl))
      ⟨fun _ hold => ?_, whole_of_reachable h hjournal⟩
    have hnew : state.destination = some c.newState := by cases hstate <;> rfl
    rw [hnew] at hold
    exact absurd (Option.some.inj hold).symm h.old_ne_new
  | stranded =>
    refine iff_of_false (not_settles_of_upholds (recover_blocked (inspectRecovery_stranded h))) ?_
    exact fun hr => hr.staged (by simp) rfl rfl
  | torn k =>
    by_cases hk : committedText.take k = committedText
    · have hstaged : h.replacement.Reachable
          ⟨some c.preparedText, some (committedText.take k), none⟩ := by
        rw [hk]
        exact .staged
      refine iff_of_true (settles_of_upholds (recover_completing h .settled hstaged)
        (fun hc => nomatch hc) (fun _ => rfl) (.inr rfl))
        ⟨fun _ hold => ?_, whole_of_reachable h hstaged⟩
      exact absurd (Option.some.inj hold).symm h.old_ne_new
    · refine iff_of_false (not_settles_of_upholds
        (recover_blocked (inspectRecovery_torn h hk))) fun hr => ?_
      obtain ⟨hne, phase, hphase⟩ := hr.whole _ rfl
      cases phase with
      | prepared =>
        rw [← h.phase, journalText_of_parse h.parse_prepared] at hphase
        exact hne (congrArg some (Except.ok.inj hphase))
      | stateCommitted =>
        rw [journalText_of_parse h.parse_committed] at hphase
        exact hk (Except.ok.inj hphase).symm
  | @settled text htext =>
    exact iff_of_true (settles_of_upholds recover_settled (fun hc => nomatch hc)
      (fun hc => nomatch hc) htext) ⟨fun hne => absurd rfl hne, fun _ hp => nomatch hp⟩

/-- Every stop of a recovery, from a known shape, leaves a known shape. -/
theorem recover_upholds (h : Sound env c committedText) {s : TrustStore} (hs : Shape h s) :
    ∃ Q E, (recover env).Upholds (fun _ t => Shape h t) Q E s := by
  cases hs with
  | aborting hstate hjournal => exact ⟨_, _, recover_aborting h hstate hjournal⟩
  | completing hstate hjournal => exact ⟨_, _, recover_completing h hstate hjournal⟩
  | stranded => exact ⟨_, _, (recover_blocked (inspectRecovery_stranded h)).mono
      (fun _ _ => False.elim) (fun _ _ => id) (fun _ _ => id)⟩
  | torn k =>
    by_cases hk : committedText.take k = committedText
    · refine ⟨_, _, recover_completing h .settled ?_⟩
      rw [hk]
      exact .staged
    · exact ⟨_, _, (recover_blocked (inspectRecovery_torn h hk)).mono
        (fun _ _ => False.elim) (fun _ _ => id) (fun _ _ => id)⟩
  | settled htext => exact ⟨_, _, recover_settled.mono (fun _ _ => False.elim) (fun _ _ => id)
      (fun _ _ => id)⟩

/-- Whatever a commit stopped after its journal was durable and any number of stopped
recoveries leave behind, the next recovery settles the change exactly when it can still be
resumed. -/
theorem trust_change_recoverable (hl : env.Lawful) {start : TrustStore} (hidle : Idle start)
    (hcollision : ∀ c, (prepareCommit env plan start).result = .ok (.inr c) →
      env.blake3 c.oldState = env.blake3 c.newState → c.oldState = c.newState)
    {crash recoveries : List TrustStore} (hcrash : (commit env plan).Interrupted start crash)
    (hdurable : ∃ s ∈ crash, s.journal.destination ≠ none)
    (hrecoveries : (recover env).Attempts (crash.getLastD start) recoveries) :
    ∃ c old new, (prepareCommit env plan start).result = .ok (.inr c) ∧
      start.state.destination = some c.oldState ∧ Changes env plan c old new ∧
      (Storable env c →
        (Settles env c ((crash ++ recoveries).getLastD start) ↔
          Resumable env c ((crash ++ recoveries).getLastD start))) := by
  have hprepare : (prepareCommit env plan).Upholds _ _ _ start := prepareCommit_upholds hidle
  obtain ⟨durable, hmem, hdestination⟩ := hdurable
  rcases Program.interrupted_bind hcrash with hearly | ⟨r, rest, hresult, rfl, hrest⟩
  · have hnone := mem_of_isChain (I := fun t : TrustStore => t.journal.destination = none)
      (hprepare.interrupted hearly)
    exact absurd (hnone durable hmem) hdestination
  have hbefore := mem_of_isChain (I := fun t : TrustStore => t.journal.destination = none) hprepare.1
  have hlate : durable ∈ rest := (List.mem_append.mp hmem).resolve_left
    fun h => hdestination (hbefore durable h)
  cases r with
  | inl outcome =>
    have hvisited : rest = [] := List.prefix_nil.mp hrest
    rw [hvisited] at hlate
    contradiction
  | inr c =>
    obtain ⟨hprepares, hstaged, hold⟩ := hprepare.returned hresult c rfl
    obtain ⟨⟨old, new, hchanges⟩, -⟩ := hprepares.changes hl
    refine ⟨c, old, new, hresult, hold, hchanges, fun hstorable => ?_⟩
    by_cases hlen : c.preparedText.length ≤ maxControlBytes
    swap
    · have hnone := mem_of_isChain (I := fun _ => False)
        ((commitChange_unreadable hlen hstaged).interrupted hrest)
      exact (hnone durable hlate).elim
    obtain ⟨committedText, htext, hsound⟩ := hprepares.sound hl (hcollision c hresult) hstorable
      hlen
    have hshapes := mem_of_isChain ((commitChange_upholds hsound htext hstaged).interrupted hrest)
    rw [getLastD_append]
    refine settles_iff_resumable hsound (hrecoveries.invariant ?_ fun t ht =>
      recover_upholds hsound ht)
    rw [getLastD_append]
    have hne : rest ≠ [] := List.ne_nil_of_mem hlate
    have hlast : rest.getLastD (((prepareCommit env plan) start).visited.getLastD start) ∈ rest := by
      rw [List.getLastD_eq_getLast?, List.getLast?_eq_getLast_of_ne_nil hne]
      exact List.getLast_mem hne
    exact hshapes _ hlast

end Recoverability

section Samples

def hexDigest (b : UInt8) (h : lowercaseHex b = true := by decide) : Digest where
  hex := List.replicate 64 b
  valid := validDigest_replicate h

def sampleObject : ContentHash := ContentHash.ofDigest (hexDigest 0x61)

theorem sampleRevision_valid : NameKind.revision.valid (ascii "r1") = true := by decide

theorem sampleRevision_bounded : (ascii "r1").length < 2 ^ 63 := by decide

def sampleRevision : Revision := ⟨ascii "r1", sampleRevision_valid, sampleRevision_bounded⟩

theorem sampleAsset_valid : NameKind.asset.valid (ascii "a") = true := by decide

theorem sampleAsset_bounded : (ascii "a").length < 2 ^ 63 := by decide

def sampleAsset : AssetId := ⟨ascii "a", sampleAsset_valid, sampleAsset_bounded⟩

theorem sampleMachine_valid : NameKind.machine.valid (ascii "m") = true := by decide

theorem sampleMachine_bounded : (ascii "m").length < 2 ^ 63 := by decide

def sampleMachine : MachineConfig :=
  ⟨⟨ascii "m", sampleMachine_valid, sampleMachine_bounded⟩, none, ∅, ∅⟩

def undecidedState : LocalState := ⟨sampleMachine, ∅, ∅, ∅, ∅, []⟩

def trustedState : LocalState := propose undecidedState sampleObject .trusted

def sampleStates : LocalStateCodec where
  encode state :=
    if state = undecidedState then some [1] else if state = trustedState then some [2] else none
  decode text :=
    if text = [1, newline] then some undecidedState
    else if text = [2, newline] then some trustedState else none

/-- A digest that tells the two states apart. -/
def sampleBlake3 (text : Bytes) : Digest :=
  if text = [1, newline] then hexDigest 0x31 lowercaseHex_one
  else if text = [2, newline] then hexDigest 0x32 lowercaseHex_two else hexDigest 0x30 lowercaseHex_zero

def sampleJournal (phase : TrustJournalPhase) : TrustJournal where
  schemaVersion := 1
  phase := phase
  planDigest := ContentHash.ofDigest (hexDigest 0x30 lowercaseHex_zero)
  assetId := sampleAsset
  objectHash := sampleObject
  manifestRevision := sampleRevision
  disposition := .first
  oldDecision := none
  newDecision := .trusted
  oldStateHash := ContentHash.ofDigest (hexDigest 0x31 lowercaseHex_one)
  newStateHash := ContentHash.ofDigest (hexDigest 0x32 lowercaseHex_two)
  stagingState := ⟨ascii ".kitrove/trust-staging/" ++ List.replicate 64 0x30 ++ ascii ".json",
    by decide +kernel, by decide +kernel⟩

def sampleEnvironment : TrustEnvironment where
  blake3 := sampleBlake3
  states := sampleStates
  encodeJournal journal :=
    if journal = sampleJournal .prepared then some [3]
    else if journal = sampleJournal .stateCommitted then some [4] else none
  decodeJournal text :=
    if text = [3, newline] then some (sampleJournal .prepared)
    else if text = [4, newline] then some (sampleJournal .stateCommitted) else none
  exchange := true
  authority _ := .ok (sampleRevision, sampleObject)

def samplePlan : ExecutableTrustPlan where
  assetId := sampleAsset
  objectHash := sampleObject
  decision := .trusted
  disposition := .first
  manifestRevision := sampleRevision
  proposedLocalState := trustedState
  digest := ContentHash.ofDigest (hexDigest 0x30 lowercaseHex_zero)

def sampleStart : TrustStore := ⟨⟨some [1, newline], none, none⟩, ⟨none, none, none⟩⟩

def sampleChange : PreparedChange :=
  ⟨[1, newline], [2, newline], sampleJournal .prepared, [3, newline]⟩

theorem sampleEnvironment_lawful : sampleEnvironment.Lawful := by
  refine ⟨⟨fun state text h => ?_⟩, fun journal text h => ?_⟩
  · simp only [sampleEnvironment, sampleStates] at h
    split at h
    · rename_i hs
      obtain rfl := Option.some.inj h
      simp [sampleEnvironment, sampleStates, hs]
    split at h
    · rename_i hs
      obtain rfl := Option.some.inj h
      simp [sampleEnvironment, sampleStates, hs]
    · contradiction
  · simp only [sampleEnvironment] at h
    split at h
    · rename_i hs
      obtain rfl := Option.some.inj h
      simp [sampleEnvironment, hs]
    split at h
    · rename_i hs
      obtain rfl := Option.some.inj h
      simp [sampleEnvironment, hs]
    · contradiction

theorem prepareCommit_sample :
    (prepareCommit sampleEnvironment samplePlan sampleStart).result = .ok (.inr sampleChange) := by
  decide +kernel

/-- The commit stops once its journal is durable. -/
def sampleCrash : List TrustStore := ((commit sampleEnvironment samplePlan) sampleStart).visited.take 8

theorem trust_change_recoverable_sample : ∃ c old new,
    (prepareCommit sampleEnvironment samplePlan sampleStart).result = .ok (.inr c) ∧
      sampleStart.state.destination = some c.oldState ∧
      Changes sampleEnvironment samplePlan c old new ∧
      (Storable sampleEnvironment c →
        (Settles sampleEnvironment c ((sampleCrash ++ []).getLastD sampleStart) ↔
          Resumable sampleEnvironment c ((sampleCrash ++ []).getLastD sampleStart))) := by
  refine trust_change_recoverable sampleEnvironment_lawful ⟨rfl, rfl⟩ ?_ (List.take_prefix 8 _)
    (by decide +kernel) .none
  intro c hc hcollision
  obtain rfl := Sum.inr.inj (Except.ok.inj (prepareCommit_sample.symm.trans hc))
  revert hcollision
  decide +kernel

/-- The recovery stops once it has removed the staged state. -/
def sampleRecovery : List TrustStore :=
  ((recover sampleEnvironment) (sampleCrash.getLastD sampleStart)).visited.take 1

theorem trust_change_stranded :
    (commit sampleEnvironment samplePlan).Interrupted sampleStart sampleCrash ∧
      (∃ s ∈ sampleCrash, s.journal.destination ≠ none) ∧
      (recover sampleEnvironment).Attempts (sampleCrash.getLastD sampleStart) sampleRecovery ∧
      (prepareCommit sampleEnvironment samplePlan sampleStart).result = .ok (.inr sampleChange) ∧
      ¬ Settles sampleEnvironment sampleChange
        ((sampleCrash ++ sampleRecovery).getLastD sampleStart) := by
  refine ⟨List.take_prefix 8 _, by decide +kernel, .once (List.take_prefix 1 _),
    prepareCommit_sample, ?_⟩
  rintro ⟨outcome, text, hresult, -⟩
  have hfails : (recover sampleEnvironment
      ((sampleCrash ++ sampleRecovery).getLastD sampleStart)).result =
        .error TransactionError.recoveryConflict := by
    decide +kernel
  rw [hfails] at hresult
  contradiction

end Samples

end Kitrove.ExecutableTrust
