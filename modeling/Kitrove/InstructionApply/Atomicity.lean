import Kitrove.InstructionApply.Recovery

/-! Applying an instruction is all or nothing and recoverable, except where a stop leaves the
staged files half removed or `state.json` moved aside. -/

namespace Kitrove.InstructionApply

open Std Crash Kitrove GuardedJournal

section Preparation

variable {env : ApplyEnvironment} {plan refreshed : InstructionApplyPlan} {c : PreparedApply}
  {oldState newState : Bytes} {journal : InstructionApplyJournal}

theorem upsertManagedRegion_length {limits : InstructionLimits} {input output : Bytes}
    {assetId : AssetName} {body : InstructionBody}
    (h : upsertManagedRegion limits input assetId body = .ok output) :
    output.length ≤ limits.maxDocumentBytes := by
  have hbound : ∀ {text : Bytes}, (if text.length > limits.maxDocumentBytes then
      Except.error InstructionError.updatedDocumentLimit else .ok text) = .ok output →
      output.length ≤ limits.maxDocumentBytes := by
    intro text htext
    split at htext
    · contradiction
    · rename_i hle
      exact Except.ok.inj htext ▸ Nat.le_of_not_lt hle
  rw [upsertManagedRegion, Except.bind_eq_ok_iff] at h
  obtain ⟨document, -, h⟩ := h
  dsimp only at h
  split at h
  · contradiction
  rw [Except.bind_eq_ok_iff] at h
  obtain ⟨rendered, -, h⟩ := h
  split at h <;> exact hbound h

/-- What a plan keeps of the files it was made from. -/
structure Planned (env : PlanEnvironment) (policy : InstructionTargetPolicy)
    (document : Option Document) (plan : InstructionApplyPlan) : Prop where
  of_policy : plan.policy = policy
  of_document : plan.document = document
  destination : env.destinationOf policy.relativeDocument = some plan.destination
  mode : plan.rendered.mode =
    (document.map Document.mode).getD (RegularFileMode.conservative env.unix)
  length : plan.rendered.text.length ≤ env.limits.maxDocumentBytes

theorem planInstructionApply_planned {env : PlanEnvironment} {assetId : AssetId}
    {policy : InstructionTargetPolicy} {document : Option Document} {text : Bytes}
    (h : planInstructionApply env assetId policy document text = .ok plan) :
    Planned env policy document plan ∧ plan.observedLocalStateText = text := by
  rw [planInstructionApply] at h
  cases hdestination : env.destinationOf policy.relativeDocument with
  | none => rw [hdestination] at h; contradiction
  | some destination =>
    rw [hdestination] at h
    simp only [Except.bind_eq_ok_iff, Except.pure_eq_ok_iff] at h
    obtain ⟨_, ⟨⟩, region, -, source, -, -, -, state, -, observed, -, -, -, regionText, -,
      renderedText, hrendered, ⟨disposition, priorHash⟩, -, receiptId, -, proposedState, -,
      proposedText, -, rfl⟩ := h
    exact ⟨⟨rfl, rfl, hdestination, rfl,
      upsertManagedRegion_length (Except.mapError_eq_ok_iff.mp hrendered)⟩, rfl⟩

/-- What a journal says of the plan and the state texts it was made from. -/
structure Journals (env : ApplyEnvironment) (plan : InstructionApplyPlan)
    (oldState newState : Bytes) (journal : InstructionApplyJournal) : Prop where
  phase : journal.phase = .preparing
  destination : journal.destination = plan.destination
  relativeDocument : journal.relativeDocument = plan.policy.relativeDocument
  oldDocument : journal.oldDocumentHash = plan.document.map (documentHash env)
  newDocument : journal.newDocumentHash = documentHash env plan.rendered
  mode : journal.mode = plan.rendered.mode
  valid : validateJournal env journal = .ok ()
  transition : validateStateTransition env oldState newState journal = .ok ()

theorem journalFromPlan_journals (h : journalFromPlan env plan oldState newState = .ok journal) :
    Journals env plan oldState newState journal := by
  simp only [journalFromPlan, Except.bind_eq_ok_iff, Except.pure_eq_ok_iff] at h
  obtain ⟨disposition, -, digest, -, ⟨⟩, hvalid, ⟨⟩, htransition, rfl⟩ := h
  exact ⟨rfl, rfl, rfl, rfl, rfl, rfl, hvalid, htransition⟩

/-- A state that follows another one in a transaction also passes on its own. -/
theorem validateNewState_of_transition
    (h : validateStateTransition env oldState newState journal = .ok ()) :
    validateNewState env newState journal = .ok () ∧
      journal.oldStateHash = contentDigest env.blake3 oldState ∧
      journal.newStateHash = contentDigest env.blake3 newState := by
  rw [validateStateTransition, refuseIf_bind_eq_ok, Except.bind_eq_ok_iff] at h
  obtain ⟨hhashes, old, -, h⟩ := h
  rw [Except.bind_eq_ok_iff] at h
  obtain ⟨new, hnew, h⟩ := h
  rw [Except.bind_eq_ok_iff] at h
  obtain ⟨newId, hid, h⟩ := h
  rw [refuseIf_bind_eq_ok, refuseIf_bind_eq_ok] at h
  obtain ⟨-, hreceipt, -⟩ := h
  obtain ⟨hold, hnewHash⟩ : contentDigest env.blake3 oldState = journal.oldStateHash ∧
      contentDigest env.blake3 newState = journal.newStateHash := by
    simpa using hhashes
  refine ⟨?_, hold.symm, hnewHash.symm⟩
  rw [validateNewState, refuseIf_bind_eq_ok, Except.bind_eq_ok_iff]
  refine ⟨by simp [hnewHash], new, hnew, ?_⟩
  rw [Except.bind_eq_ok_iff]
  exact ⟨newId, hid, refuseIf_eq_ok.mpr hreceipt⟩

/-- What a prepared apply is made of: the plan made again from the files as they are. -/
structure Prepares (env : ApplyEnvironment) (plan : InstructionApplyPlan) (c : PreparedApply)
    (refreshed : InstructionApplyPlan) : Prop where
  planned : planInstructionApply env.toPlanEnvironment plan.assetId plan.policy c.old c.oldState =
    .ok refreshed
  digest : refreshed.digest = plan.digest
  applies : refreshed.disposition ≠ .noOp
  rendered : refreshed.rendered = c.new
  encoded : refreshed.proposedLocalState.toJson env.states = .ok c.newState
  journal : journalFromPlan env refreshed c.oldState c.newState = .ok c.journal
  len_old : ∀ document ∈ c.old, document.text.length ≤ env.limits.maxDocumentBytes
  len_oldState : c.oldState.length ≤ maxControlBytes

/-- The texts that the commit still has to write are within the limit for control files. -/
structure Storable (env : ApplyEnvironment) (c : PreparedApply) : Prop where
  newState : c.newState.length ≤ maxControlBytes
  journal : ∀ phase, ∃ text, journalText env (c.journalAt phase) = .ok text ∧
    text.length ≤ maxControlBytes

/-- The two documents of an apply and its two states are told apart by their hashes. -/
structure Distinguished (env : ApplyEnvironment) (c : PreparedApply) : Prop where
  documents : c.old.map (documentHash env) = some (documentHash env c.new) →
    c.old.map Document.text = some c.new.text
  states : contentDigest env.blake3 c.oldState = contentDigest env.blake3 c.newState →
    c.oldState = c.newState

theorem parseJournal_journalText {text : Bytes} (hl : env.Lawful)
    (hvalid : validateJournal env journal = .ok ()) (htext : journalText env journal = .ok text) :
    parseJournal env text = .ok journal := by
  unfold journalText at htext
  cases he : env.encodeJournal journal with
  | none => rw [he] at htext; contradiction
  | some encoded =>
    rw [he] at htext
    obtain rfl := Except.ok.inj htext
    rw [parseJournal, hl.journal journal encoded he]
    simp [hvalid, bind, Except.bind, pure, Except.pure]

theorem Prepares.sound (hl : env.Lawful) (h : Prepares env plan c refreshed)
    (hd : Distinguished env c) (hs : Storable env c) : ∃ texts, Sound env c texts := by
  obtain ⟨hplanned, -⟩ := planInstructionApply_planned h.planned
  have hjournal := journalFromPlan_journals h.journal
  obtain ⟨hnew, hold, hnewHash⟩ := validateNewState_of_transition hjournal.transition
  choose texts htexts hlen using hs.journal
  have hparse : ∀ phase, parseJournal env (texts phase) = .ok (c.journalAt phase) :=
    fun phase => parseJournal_journalText hl hjournal.valid (htexts phase)
  refine ⟨texts, htexts, hparse, hlen, ?_, ?_, ?_, hold, hnewHash, ?_, hjournal.transition, hnew,
    ?_, hd.states, h.len_old, ?_, h.len_oldState, hs.newState⟩
  · rw [validateTargetAnchor, refuseIf_eq_ok, hjournal.relativeDocument, hjournal.destination,
      hplanned.of_policy, hplanned.destination]
    simp
  · rw [hjournal.oldDocument, hplanned.of_document]
  · rw [hjournal.newDocument, h.rendered]
  · rw [hjournal.mode, h.rendered]
  · -- a document that keeps its text keeps its permissions too
    intro hne hhash
    have htext := hd.documents hhash
    refine hne ?_
    have hmode := hplanned.mode
    rw [h.rendered] at hmode
    cases hold : c.old with
    | none => rw [hold] at htext; contradiction
    | some old =>
      rw [hold, Option.map_some, Option.getD_some] at hmode
      rw [hold, Option.map_some, Option.some.injEq] at htext
      rw [Option.some.injEq]
      exact Document.ext htext hmode.symm
  · rw [← h.rendered]
    exact hplanned.length

end Preparation

section Commit

variable {env : ApplyEnvironment} {plan refreshed : InstructionApplyPlan} {c : PreparedApply}
  {texts : JournalPhase → Bytes} {start : ApplyStore}

/-- The files when no apply is under way. -/
structure Idle (s : ApplyStore) : Prop where
  journal : s.journal = ⟨none, none, none⟩
  state : s.state.staging = none ∧ s.state.backup = none
  target : s.target.staging = none ∧ s.target.backup = none

/-- Planning again reads `state.json` and the document and changes nothing. -/
theorem refreshPlan_upholds {s : ApplyStore} :
    (refreshPlan env plan).Upholds (fun _ _ => False)
      (fun refreshed t => t = s ∧ (∀ document ∈ s.target.destination,
          document.text.length ≤ env.limits.maxDocumentBytes) ∧
        ∃ state, s.state.destination = some state ∧ state.length ≤ maxControlBytes ∧
          planInstructionApply env.toPlanEnvironment plan.assetId plan.policy s.target.destination
            state = .ok refreshed) (fun _ _ => True) s := by
  rw [refreshPlan, Program.bind_upholds, readState, onState, Program.zoom_upholds,
    Program.mapError_upholds, readText_upholds]
  split
  swap
  · trivial
  rename_i hstate
  obtain ⟨⟨destination, staging, backup⟩, journal, target⟩ := s
  cases destination with
  | none => exact Program.fail_upholds.mpr trivial
  | some state =>
    have hstate : state.length ≤ maxControlBytes := of_decide_eq_true hstate
    dsimp only [Slots.get_destination, ApplyStore.stateFiles_get]
    rw [Program.bind_upholds, readTarget, onTarget, Program.zoom_upholds, Program.mapError_upholds,
      readText_upholds]
    split
    swap
    · trivial
    rename_i htarget
    have htarget : ∀ document ∈ target.destination,
        document.text.length ≤ env.limits.maxDocumentBytes := by
      intro document hd
      have hd : target.destination = some document := hd
      rw [ApplyStore.targetFiles_get, ApplyStore.stateFiles_set, Slots.get_destination, hd, Option.all_some] at htarget
      exact of_decide_eq_true htarget
    refine Program.ofExcept_upholds_of (fun refreshed hplan => ?_) fun _ _ => trivial
    exact ⟨rfl, htarget, state, rfl, hstate, Except.mapError_eq_ok_iff.mp hplan⟩

/-- Until the journal is written a commit changes nothing but what its recovery changes. -/
theorem prepareCommit_upholds (hidle : Idle ((recover env).final start)) :
    (prepareCommit env plan).Upholds (fun _ _ => True)
      (fun r t => ∀ c, r = .inr c → (∃ refreshed, Prepares env plan c refreshed) ∧
        t = (recover env).final start ∧
        t = ⟨⟨some c.oldState, none, none⟩, ⟨none, none, none⟩, ⟨c.old, none, none⟩⟩)
      (fun _ _ => True) start := by
  rw [prepareCommit, Program.bind_upholds]
  refine (Program.upholds_final (recover env) start).mono (fun _ _ => id) ?_ (fun _ _ _ => trivial)
  rintro recovered t rfl
  generalize (recover env).final start = t at hidle ⊢
  rw [Program.bind_upholds]
  refine refreshPlan_upholds.mono (fun _ _ => False.elim) ?_ (fun _ _ => id)
  rintro refreshed t ⟨rfl, htarget, state, hstate, hlen, hplan⟩
  split
  · split
    · exact Program.pure_upholds.mpr fun c hc => nomatch hc
    · exact Program.fail_upholds.mpr trivial
  rename_i hdigest
  split
  · exact Program.pure_upholds.mpr fun c hc => nomatch hc
  rename_i hnoOp
  rw [Program.bind_upholds]
  refine Program.ofExcept_upholds_of (fun newState hnew => ?_) fun _ _ => trivial
  rw [Program.bind_upholds]
  refine Program.ofExcept_upholds_of (fun journal hjournal => ?_) fun _ _ => trivial
  refine Program.pure_upholds.mpr fun c hc => ?_
  obtain rfl := Sum.inr.inj hc
  obtain ⟨hplanned, htext⟩ := planInstructionApply_planned hplan
  have hdocument := hplanned.of_document
  refine ⟨⟨refreshed, ?_, not_not.mp hdigest, hnoOp, rfl, Except.mapError_eq_ok_iff.mp hnew,
    hjournal, ?_, ?_⟩, rfl, ?_⟩
  · rw [hdocument, htext]
    exact hplan
  · rwa [hdocument]
  · rwa [htext]
  · rw [hdocument, htext, ← hstate]
    obtain ⟨⟨_, _, _⟩, ⟨_, _, _⟩, ⟨_, _, _⟩⟩ := t
    obtain ⟨⟨⟩, ⟨⟨⟩, ⟨⟩⟩, ⟨⟨⟩, ⟨⟩⟩⟩ := hidle
    rfl

theorem advanceJournal_upholds (h : Sound env c texts) {p q : JournalPhase}
    (hq : p.next = some q) {state : Slots Bytes} {target : Slots Document}
    (hshape : ∀ files, (h.replacement hq).Reachable files → Shape h ⟨state, files, target⟩)
    {E : TransactionError → ApplyStore → Prop} :
    (advanceJournal env (c.journalAt p) q).Upholds (fun _ t => Shape h t)
      (fun r t => r = c.journalAt q ∧ t = ⟨state, ⟨some (texts q), none, none⟩, target⟩) E
      ⟨state, ⟨some (texts p), none, none⟩, target⟩ := by
  have hnext : (c.journalAt p).phase.next = some q := hq
  rw [advanceJournal, hnext, Program.bind_upholds, Program.require_upholds, beq_self_eq_true,
    if_pos rfl]
  change Program.Upholds (do
    let text ← Program.ofExcept (journalText env (c.journalAt q))
    onJournal (stageText (textPlatform env) .staging text maxControlBytes)
    reconcileJournal env
    pure (c.journalAt q)) _ _ _ _
  rw [h.text, Program.bind_upholds, Program.ofExcept_ok_upholds, Program.bind_upholds, onJournal,
    Program.zoom_upholds, Program.mapError_upholds]
  refine stageText_upholds.mpr ⟨hshape _ .staged, ?_⟩
  rw [Program.bind_upholds]
  refine (reconcileJournal_upholds (standsFor_advances h hq .staged) hshape).mono (fun _ _ => id) ?_
    (fun _ _ => id)
  rintro _ _ rfl
  exact Program.pure_upholds.mpr ⟨rfl, rfl⟩

/-- Installing the new document only over the old one: where the two are equal nothing happens
and the commit fails. -/
theorem installTarget_upholds (h : Sound env c texts) {state journal : Slots Bytes}
    (hs : StateInstalling c state) (hj : Committing h journal) {Q : Unit → ApplyStore → Prop}
    (hQ : c.old ≠ some c.new → Q () ⟨state, journal, ⟨some c.new, none, none⟩⟩) :
    (onTarget (installStagedTextGuardedFromOld (documentPlatform env.exchange) c.old c.new
      env.limits.maxDocumentBytes)).Upholds (fun _ t => Shape h t) Q (fun _ _ => True)
      ⟨state, journal, ⟨c.old, some c.new, none⟩⟩ := by
  have hnew : (documentPlatform env.exchange).len c.new ≤ env.limits.maxDocumentBytes := h.len_new
  have hshape : ∀ {target}, c.old ≠ some c.new → TargetInstalling c target →
      Shape h ⟨state, journal, target⟩ := fun hne ht => .installing hne hs hj ht
  rw [onTarget, Program.zoom_upholds, Program.mapError_upholds]
  by_cases hsame : c.old = some c.new
  · rw [hsame]
    exact (installStagedTextGuardedFromOld_same_upholds hnew).mpr trivial
  have hdone := hQ hsame
  have hsettled := hshape hsame .settled
  refine (installStagedTextGuardedFromOld_upholds hsame).mpr ?_
  cases hold : c.old with
  | none => exact (installStagedTextGuarded_none_upholds hnew).mpr ⟨hsettled, hsettled, hdone⟩
  | some old =>
    have hlen : (documentPlatform env.exchange).len old ≤ env.limits.maxDocumentBytes :=
      h.len_old old hold
    have hne : old ≠ c.new := fun heq => hsame (heq ▸ hold)
    refine (installStagedTextGuarded_upholds hlen hnew hne).mpr ?_
    split
    · exact ⟨hshape hsame (.exchanged hold), hsettled, hdone⟩
    · exact ⟨hshape hsame (.displaced hold), hshape hsame (.backedUp hold), hsettled, hdone⟩

theorem installInitialJournal_upholds (h : Sound env c texts)
    (htext : journalText env c.journal = .ok (texts .preparing)) {state : Slots Bytes}
    {target : Slots Document} (hs : StateWaiting c state) (ht : TargetWaiting c target)
    {E : TransactionError → ApplyStore → Prop} :
    (installInitialJournal env c.journal).Upholds (fun _ t => Shape h t)
      (fun _ t => t = ⟨state, ⟨some (texts .preparing), none, none⟩, target⟩) E
      ⟨state, ⟨none, none, none⟩, target⟩ := by
  have hshape : Shape h ⟨state, ⟨some (texts .preparing), none, none⟩, target⟩ := .staging hs ht
  rw [installInitialJournal, Program.bind_upholds]
  refine inspectJournal_absent.mono (fun _ _ => id) ?_ (fun _ _ => id)
  rintro _ _ ⟨rfl, rfl⟩
  dsimp only
  rw [htext, Program.bind_upholds, Program.ofExcept_ok_upholds]
  simp [onJournal, stageText, readText_upholds, hshape]

/-- From the written journal on, every stop of a commit leaves a known shape. -/
theorem commitApply_upholds (h : Sound env c texts) (hphase : c.journal.phase = .preparing)
    (hstart : start = ⟨⟨some c.oldState, none, none⟩, ⟨none, none, none⟩, ⟨c.old, none, none⟩⟩) :
    (commitApply env plan c).Upholds (fun _ t => Shape h t) (fun _ _ => True) (fun _ _ => True)
      start := by
  have hjournal : c.journalAt .preparing = c.journal := by rw [← hphase]
  have htext : journalText env c.journal = .ok (texts .preparing) := by
    rw [← hjournal]
    exact h.text .preparing
  have hprepare : (advanceJournal env (c.journalAt .preparing) .prepared).Upholds
      (fun _ t => Shape h t) (fun r t => r = c.journalAt .prepared ∧
        t = ⟨⟨some c.oldState, some c.newState, none⟩, ⟨some (texts .prepared), none, none⟩,
          ⟨c.old, some c.new, none⟩⟩) (fun _ _ => True)
      ⟨⟨some c.oldState, some c.newState, none⟩, ⟨some (texts .preparing), none, none⟩,
        ⟨c.old, some c.new, none⟩⟩ :=
    advanceJournal_upholds h next_preparing fun _ hfiles => .staged hfiles
  rw [hjournal] at hprepare
  have hwithin : ∀ {p q : JournalPhase} (hq : p.next = some q), p ≠ .preparing →
      ∀ files, (h.replacement hq).Reachable files → Committing h files :=
    fun hq hp files hfiles => ⟨_, _, hq, hp, hfiles⟩
  have hprepared : JournalPhase.next .prepared = some .targetCommitted := rfl
  have hcommitted : JournalPhase.next .targetCommitted = some .stateCommitted := rfl
  rw [hstart, commitApply, Program.bind_upholds]
  refine (installInitialJournal_upholds h htext .unstaged .unstaged).mono (fun _ _ => id) ?_
    (fun _ _ => id)
  rintro _ _ rfl
  rw [Program.bind_upholds, Program.require_upholds]
  split
  swap
  · trivial
  rw [Program.bind_upholds, onTarget, Program.zoom_upholds, Program.mapError_upholds]
  refine stageText_upholds.mpr ⟨.staging .unstaged .staged, ?_⟩
  rw [Program.bind_upholds, onState, Program.zoom_upholds, Program.mapError_upholds]
  refine stageText_upholds.mpr ⟨.staging .staged .staged, ?_⟩
  rw [Program.bind_upholds]
  refine hprepare.mono (fun _ _ => id) ?_ (fun _ _ => id)
  rintro _ _ ⟨rfl, rfl⟩
  rw [Program.bind_upholds]
  refine refreshPlan_upholds.mono (fun _ _ => False.elim) ?_ (fun _ _ => id)
  rintro revalidated _ ⟨rfl, -⟩
  rw [Program.bind_upholds, Program.require_upholds]
  split
  swap
  · trivial
  rw [Program.bind_upholds]
  refine installTarget_upholds h .staged (hwithin hprepared (by simp) _ .untouched) fun hne => ?_
  rw [Program.bind_upholds]
  refine (advanceJournal_upholds h hprepared fun files hfiles =>
    .installing hne .staged (hwithin hprepared (by simp) files hfiles) .settled).mono
    (fun _ _ => id) ?_ (fun _ _ => id)
  rintro _ _ ⟨rfl, rfl⟩
  rw [Program.bind_upholds]
  refine installState_upholds h hne (hwithin hcommitted (by simp) _ .untouched) .settled ?_
  rw [Program.bind_upholds]
  refine (advanceJournal_upholds h hcommitted fun files hfiles =>
    .installing hne .settled (hwithin hcommitted (by simp) files hfiles) .settled).mono
    (fun _ _ => id) ?_ (fun _ _ => id)
  rintro _ _ ⟨rfl, rfl⟩
  rw [Program.bind_upholds]
  refine (finishRecovery_settled h hne .settled (hwithin hcommitted (by simp) _ .settled) .settled
    rfl rfl).mono (fun _ _ => id) ?_ (fun _ _ => False.elim)
  rintro _ _ rfl
  exact Program.pure_upholds.mpr trivial

end Commit

section Recoverability

variable {env : ApplyEnvironment} {plan : InstructionApplyPlan} {c : PreparedApply}
  {texts : JournalPhase → Bytes} {s : ApplyStore}

/-- The next uninterrupted recovery succeeds, leaves the two files as its outcome says, both old
or both new, and leaves nothing else. -/
def Settles (env : ApplyEnvironment) (c : PreparedApply) (s : ApplyStore) : Prop :=
  ∃ outcome state document, (recover env s).result = .ok outcome ∧
    (recover env).final s = ⟨⟨some state, none, none⟩, ⟨none, none, none⟩, ⟨document, none, none⟩⟩ ∧
    (outcome = .aborted → state = c.oldState ∧ document = c.old) ∧
    (outcome = .completed → state = c.newState ∧ document = some c.new) ∧
    (state = c.oldState ∧ document = c.old ∨ state = c.newState ∧ document = some c.new)

/-- `state.json` was not left moved aside, and no abort of a prepared apply was stopped between
removing the staged document and removing the journal. -/
structure Resumable (env : ApplyEnvironment) (c : PreparedApply) (s : ApplyStore) : Prop where
  live : s.journal ≠ ⟨none, none, none⟩ → s.state.destination ≠ none
  staged : ∀ text, journalText env (c.journalAt .prepared) = .ok text →
    s.journal.destination = some text → s.target.destination = c.old → s.target.staging ≠ none

theorem settles_of_aborted {G : ApplyStore → ApplyStore → Prop}
    (h : (recover env).Upholds G (Aborted c) (fun _ _ => False) s) : Settles env c s := by
  obtain ⟨_, hresult, rfl, hfinal⟩ := h.returns
  exact ⟨_, _, _, hresult, hfinal, fun _ => ⟨rfl, rfl⟩, (fun hc => nomatch hc), .inl ⟨rfl, rfl⟩⟩

theorem settles_of_completed {G : ApplyStore → ApplyStore → Prop}
    (h : (recover env).Upholds G (Completed c) (fun _ _ => False) s) : Settles env c s := by
  obtain ⟨_, hresult, rfl, hfinal⟩ := h.returns
  exact ⟨_, _, _, hresult, hfinal, (fun hc => nomatch hc), fun _ => ⟨rfl, rfl⟩, .inr ⟨rfl, rfl⟩⟩

theorem settles_absent {state : Bytes} {document : Option Document}
    (h : state = c.oldState ∧ document = c.old ∨ state = c.newState ∧ document = some c.new) :
    Settles env c ⟨⟨some state, none, none⟩, ⟨none, none, none⟩, ⟨document, none, none⟩⟩ := by
  have hrecover : (recover env).Upholds _ _ _
      ⟨⟨some state, none, none⟩, ⟨none, none, none⟩, ⟨document, none, none⟩⟩ := recover_absent
  obtain ⟨_, hresult, rfl, hfinal⟩ := hrecover.returns
  exact ⟨_, _, _, hresult, hfinal, (fun hc => nomatch hc), (fun hc => nomatch hc), h⟩

theorem not_settles_of_upholds
    (h : (recover env).Upholds (fun _ _ => False) (fun _ _ => False) (fun _ _ => True) s) :
    ¬ Settles env c s := by
  rintro ⟨outcome, _, _, hresult, -⟩
  exact h.returned hresult

theorem TargetInstalling.destination_ne {target : Slots Document} (ht : TargetInstalling c target)
    (hne : c.old ≠ some c.new) : target.destination ≠ c.old := by
  rcases ht.destination with ⟨hnew, -⟩ | ⟨old, hold, rfl⟩
  · rw [hnew]
    exact hne.symm
  · rw [hold]
    exact nofun

theorem Committing.journal_ne {h : Sound env c texts} {journal : Slots Bytes}
    (hj : Committing h journal) : journal ≠ ⟨none, none, none⟩ := by
  obtain ⟨p, q, hq, -, hj⟩ := hj
  rcases hj with hj | hj <;> cases hj <;> simp

/-- Of the shapes an apply can leave, recovery settles exactly those from which it can be
resumed. -/
theorem settles_iff_resumable (h : Sound env c texts) (hs : Shape h s) :
    Settles env c s ↔ Resumable env c s := by
  cases hs with
  | staging hstate htarget =>
    refine iff_of_true (settles_of_aborted (recover_staging h hstate htarget)) ⟨fun _ => ?_, ?_⟩
    · rw [hstate.destination.1]
      exact nofun
    · intro text htext hplace
      obtain rfl := Except.ok.inj ((h.text .prepared).symm.trans htext)
      exact absurd (Option.some.inj hplace) (h.replacement next_preparing).oldText_ne_newText
  | staged hj =>
    exact iff_of_true (settles_of_aborted (recover_staged h hj))
      ⟨fun _ => nofun, fun _ _ _ _ => nofun⟩
  | stranded hstate =>
    exact iff_of_false (not_settles_of_upholds (recover_stranded h hstate))
      fun hr => hr.staged _ (h.text .prepared) rfl rfl rfl
  | installing hne hstate hj htarget =>
    refine iff_of_true (settles_of_completed (recover_installing h hne hstate hj htarget))
      ⟨fun _ => ?_, fun _ _ _ hold => absurd hold (htarget.destination_ne hne)⟩
    rcases hstate.destination with hnew | rfl
    · rw [hnew]
      exact nofun
    · exact nofun
  | missing hne hj htarget =>
    exact iff_of_false (not_settles_of_upholds (recover_missing h hj rfl))
      fun hr => hr.live hj.journal_ne rfl
  | aborted =>
    exact iff_of_true (settles_absent (.inl ⟨rfl, rfl⟩))
      ⟨fun hne => absurd rfl hne, fun _ _ hplace => nomatch hplace⟩
  | completed =>
    exact iff_of_true (settles_absent (.inr ⟨rfl, rfl⟩))
      ⟨fun hne => absurd rfl hne, fun _ _ hplace => nomatch hplace⟩

/-- Every stop of a recovery, from a known shape, leaves a known shape. -/
theorem recover_upholds (h : Sound env c texts) (hs : Shape h s) :
    ∃ Q E, (recover env).Upholds (fun _ t => Shape h t) Q E s := by
  cases hs with
  | staging hstate htarget => exact ⟨_, _, recover_staging h hstate htarget⟩
  | staged hj => exact ⟨_, _, recover_staged h hj⟩
  | stranded hstate => exact ⟨_, _, (recover_stranded h hstate).mono (fun _ _ => False.elim)
      (fun _ _ => id) (fun _ _ => id)⟩
  | installing hne hstate hj htarget => exact ⟨_, _, recover_installing h hne hstate hj htarget⟩
  | missing hne hj htarget => exact ⟨_, _, (recover_missing h hj rfl).mono
      (fun _ _ => False.elim) (fun _ _ => id) (fun _ _ => id)⟩
  | aborted => exact ⟨_, _, recover_absent.mono (fun _ _ => False.elim) (fun _ _ => id)
      (fun _ _ => id)⟩
  | completed => exact ⟨_, _, recover_absent.mono (fun _ _ => False.elim) (fun _ _ => id)
      (fun _ _ => id)⟩

/-- Whatever a commit stopped after its journal was durable (the first step it takes once it is
prepared) and any number of stopped recoveries leave behind, the next recovery settles the apply
exactly when it can still be resumed. -/
theorem instruction_apply_recoverable (hl : env.Lawful) {start : ApplyStore}
    (hidle : Idle ((recover env).final start))
    (hhash : ∀ c, (prepareCommit env plan start).result = .ok (.inr c) → Distinguished env c)
    {crash recoveries : List ApplyStore} (hcrash : (commit env plan).Interrupted start crash)
    (hdurable : (prepareCommit env plan start).visited.length < crash.length)
    (hrecoveries : (recover env).Attempts (crash.getLastD start) recoveries) :
    ∃ c refreshed, (prepareCommit env plan start).result = .ok (.inr c) ∧
      Prepares env plan c refreshed ∧
      (recover env).final start =
        ⟨⟨some c.oldState, none, none⟩, ⟨none, none, none⟩, ⟨c.old, none, none⟩⟩ ∧
      (Storable env c →
        (Settles env c ((crash ++ recoveries).getLastD start) ↔
          Resumable env c ((crash ++ recoveries).getLastD start))) := by
  have hprepare : (prepareCommit env plan).Upholds _ _ _ start := prepareCommit_upholds hidle
  rcases Program.interrupted_bind hcrash with hearly | ⟨r, rest, hresult, rfl, hrest⟩
  · exact absurd hdurable (Nat.not_lt.mpr hearly.length_le)
  have hne : rest ≠ [] := by
    rintro rfl
    simp at hdurable
  cases r with
  | inl outcome => exact absurd (List.prefix_nil.mp hrest) hne
  | inr c =>
    obtain ⟨⟨refreshed, hprepares⟩, hstart, hfinal⟩ := hprepare.returned hresult c rfl
    refine ⟨c, refreshed, hresult, hprepares, hstart ▸ hfinal, fun hstorable => ?_⟩
    obtain ⟨texts, hsound⟩ := hprepares.sound hl (hhash c hresult) hstorable
    have hphase := (journalFromPlan_journals hprepares.journal).phase
    have hshapes := mem_of_isChain ((commitApply_upholds hsound hphase hfinal).interrupted hrest)
    rw [getLastD_append]
    refine settles_iff_resumable hsound (hrecoveries.invariant ?_ fun t ht =>
      recover_upholds hsound ht)
    rw [getLastD_append]
    have hlast : rest.getLastD (((prepareCommit env plan) start).visited.getLastD start) ∈ rest := by
      rw [List.getLastD_eq_getLast?, List.getLast?_eq_getLast_of_ne_nil hne]
      exact List.getLast_mem hne
    exact hshapes _ hlast

end Recoverability

section Samples

def hexDigest (b : UInt8) (h : lowercaseHex b = true := by decide) : Digest where
  hex := List.replicate 64 b
  valid := validDigest_replicate h

def sampleHash : ContentHash := ContentHash.ofDigest (hexDigest 0x30)

def sampleRevision : Revision := ⟨ascii "r1", by decide +kernel, by decide +kernel⟩

def sampleAsset : AssetId := ⟨ascii "a", by decide +kernel, by decide +kernel⟩

def sampleDestination : NormalizedDestination := ⟨ascii "/project/AGENTS.md"⟩

def samplePolicy : InstructionTargetPolicy where
  harness := .codex
  scope := .project
  policyLine := ascii "codex"
  anchor := .scope
  relativeDocument := ⟨ascii "AGENTS.md", by decide +kernel, by decide +kernel⟩
  adapterVersion := ascii "1"
  evidence := ascii "documented"

def sampleSource : InstructionSource where
  contentHash := sampleHash
  manifestRevision := sampleRevision
  body := ⟨ascii "x\n", by decide +kernel, by decide +kernel, by decide +kernel, by decide +kernel⟩

def sampleReceipt : DeploymentReceipt :=
  proposedReceipt sampleAsset samplePolicy sampleDestination sampleSource sampleHash none

def emptyState : LocalState :=
  ⟨⟨⟨ascii "m", by decide +kernel, by decide +kernel⟩, none, ∅, ∅⟩, ∅, ∅, ∅, ∅, []⟩

def ownedState : LocalState :=
  { emptyState with
    receipts := OrdMap.mapOf [(ReceiptId.ofDigest (hexDigest 0x30), sampleReceipt)] }

def sampleStates : LocalStateCodec where
  encode state :=
    if state = emptyState then some [1] else if state = ownedState then some [2] else none
  decode text :=
    if text = [1, newline] then some emptyState
    else if text = [2, newline] then some ownedState else none

/-- A digest that tells the two states apart. -/
def sampleBlake3 (text : Bytes) : Digest :=
  if text = [1, newline] then hexDigest 0x31
  else if text = [2, newline] then hexDigest 0x32 else hexDigest 0x30

def sampleJournal (phase : JournalPhase) : InstructionApplyJournal where
  schemaVersion := 1
  phase := phase
  transactionDigest := sampleHash
  planDigest := sampleHash
  assetId := sampleAsset
  manifestRevision := sampleRevision
  destination := sampleDestination
  relativeDocument := samplePolicy.relativeDocument
  disposition := .install
  oldDocumentHash := none
  newDocumentHash := sampleHash
  newRegionHash := sampleHash
  oldStateHash := ContentHash.ofDigest (hexDigest 0x31)
  newStateHash := ContentHash.ofDigest (hexDigest 0x32)
  mode := RegularFileMode.conservative true
  observedReceipt := none
  proposedReceipt := sampleReceipt

def phaseText : JournalPhase → Bytes
  | .preparing => [3]
  | .prepared => [4]
  | .targetCommitted => [5]
  | .stateCommitted => [6]

def sampleEnvironment (exchange : Bool) : ApplyEnvironment where
  blake3 := sampleBlake3
  states := sampleStates
  limits := .standard
  unix := true
  source _ _ := .ok sampleSource
  receiptsValid _ := true
  destinationOf _ := some sampleDestination
  encodeReceipt _ := some []
  encodeJournal journal :=
    if journal = sampleJournal journal.phase then some (phaseText journal.phase) else none
  decodeJournal text :=
    [.preparing, .prepared, .targetCommitted, .stateCommitted].findSome? fun phase =>
      if text = phaseText phase ++ [newline] then some (sampleJournal phase) else none
  exchange := exchange

def sampleText : Bytes :=
  ascii "<!-- kitrove:instruction a begin -->\nx\n<!-- kitrove:instruction a end -->\n"

def samplePlan : InstructionApplyPlan where
  policy := samplePolicy
  assetId := sampleAsset
  manifestRevision := sampleRevision
  disposition := .install
  destination := sampleDestination
  document := none
  rendered := ⟨sampleText, RegularFileMode.conservative true⟩
  regionHash := sampleHash
  observedReceipt := none
  proposedReceipt := sampleReceipt
  proposedLocalState := ownedState
  observedLocalStateText := [1, newline]
  digest := sampleHash

def sampleApply : PreparedApply :=
  ⟨none, ⟨sampleText, RegularFileMode.conservative true⟩, [1, newline], [2, newline],
    sampleJournal .preparing⟩

def sampleStart : ApplyStore :=
  ⟨⟨some [1, newline], none, none⟩, ⟨none, none, none⟩, ⟨none, none, none⟩⟩

theorem sampleEnvironment_lawful : (sampleEnvironment true).Lawful := by
  refine ⟨fun journal text h => ?_⟩
  simp only [sampleEnvironment] at h
  split at h
  · rename_i hjournal
    obtain rfl := Option.some.inj h
    rw [hjournal]
    cases journal.phase <;> rfl
  · contradiction

theorem prepareCommit_sample :
    (prepareCommit (sampleEnvironment true) samplePlan sampleStart).result =
      .ok (.inr sampleApply) := by
  decide +kernel

theorem recover_sample : (recover (sampleEnvironment true)).final sampleStart = sampleStart := by
  decide +kernel

/-- The commit stops once both files are staged and its journal says so. -/
def sampleCrash : List ApplyStore :=
  ((commit (sampleEnvironment true) samplePlan) sampleStart).visited.take 6

theorem instruction_apply_recoverable_sample : ∃ c refreshed,
    (prepareCommit (sampleEnvironment true) samplePlan sampleStart).result = .ok (.inr c) ∧
      Prepares (sampleEnvironment true) samplePlan c refreshed ∧
      (recover (sampleEnvironment true)).final sampleStart =
        ⟨⟨some c.oldState, none, none⟩, ⟨none, none, none⟩, ⟨c.old, none, none⟩⟩ ∧
      (Storable (sampleEnvironment true) c →
        (Settles (sampleEnvironment true) c ((sampleCrash ++ []).getLastD sampleStart) ↔
          Resumable (sampleEnvironment true) c ((sampleCrash ++ []).getLastD sampleStart))) := by
  refine instruction_apply_recoverable sampleEnvironment_lawful ?_ ?_ (List.take_prefix 6 _)
    (by decide +kernel) .none
  · rw [recover_sample]
    exact ⟨rfl, ⟨rfl, rfl⟩, rfl, rfl⟩
  · intro c hc
    obtain rfl := Sum.inr.inj (Except.ok.inj (prepareCommit_sample.symm.trans hc))
    exact ⟨(fun hdocuments => nomatch hdocuments), by decide +kernel⟩

/-- The recovery stops once it has removed the staged document. -/
def sampleRecovery : List ApplyStore :=
  ((recover (sampleEnvironment true)) (sampleCrash.getLastD sampleStart)).visited.take 1

theorem instruction_apply_stranded :
    Idle ((recover (sampleEnvironment true)).final sampleStart) ∧
      (commit (sampleEnvironment true) samplePlan).Interrupted sampleStart sampleCrash ∧
      (prepareCommit (sampleEnvironment true) samplePlan sampleStart).visited.length <
        sampleCrash.length ∧
      (recover (sampleEnvironment true)).Attempts (sampleCrash.getLastD sampleStart)
        sampleRecovery ∧
      (prepareCommit (sampleEnvironment true) samplePlan sampleStart).result =
        .ok (.inr sampleApply) ∧
      ¬ Settles (sampleEnvironment true) sampleApply
        ((sampleCrash ++ sampleRecovery).getLastD sampleStart) := by
  refine ⟨?_, List.take_prefix 6 _, by decide +kernel, .once (List.take_prefix 1 _),
    prepareCommit_sample, ?_⟩
  · rw [recover_sample]
    exact ⟨rfl, ⟨rfl, rfl⟩, rfl, rfl⟩
  rintro ⟨outcome, state, document, hresult, -⟩
  have hfails : (recover (sampleEnvironment true)
      ((sampleCrash ++ sampleRecovery).getLastD sampleStart)).result =
        .error TransactionError.recoveryConflict := by
    decide +kernel
  rw [hfails] at hresult
  contradiction

end Samples

end Kitrove.InstructionApply
