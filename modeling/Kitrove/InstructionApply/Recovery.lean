import Kitrove.InstructionApply.Transaction

/-! Every shape in which a stopped instruction apply leaves its files, and what recovery makes
of it. -/

namespace Kitrove.InstructionApply

open Crash Kitrove GuardedJournal

/-- The journal of a prepared apply in one of its phases. -/
abbrev PreparedApply.journalAt (c : PreparedApply) (phase : JournalPhase) :
    InstructionApplyJournal :=
  { c.journal with phase := phase }

/-- What holds of the texts of an apply that the commit has prepared; `texts` is its journal in
every phase. -/
structure Sound (env : ApplyEnvironment) (c : PreparedApply) (texts : JournalPhase → Bytes) :
    Prop where
  text : ∀ phase, journalText env (c.journalAt phase) = .ok (texts phase)
  parse : ∀ phase, parseJournal env (texts phase) = .ok (c.journalAt phase)
  len : ∀ phase, (texts phase).length ≤ maxControlBytes
  anchor : validateTargetAnchor env c.journal = .ok ()
  oldDocument : c.journal.oldDocumentHash = c.old.map (documentHash env)
  newDocument : c.journal.newDocumentHash = documentHash env c.new
  oldState : c.journal.oldStateHash = contentDigest env.blake3 c.oldState
  newState : c.journal.newStateHash = contentDigest env.blake3 c.newState
  mode : c.new.mode = c.journal.mode
  transition : validateStateTransition env c.oldState c.newState c.journal = .ok ()
  newValid : validateNewState env c.newState c.journal = .ok ()
  documents : c.old ≠ some c.new → c.old.map (documentHash env) ≠ some (documentHash env c.new)
  states : contentDigest env.blake3 c.oldState = contentDigest env.blake3 c.newState →
    c.oldState = c.newState
  len_old : ∀ old ∈ c.old, old.text.length ≤ env.limits.maxDocumentBytes
  len_new : c.new.text.length ≤ env.limits.maxDocumentBytes
  len_oldState : c.oldState.length ≤ maxControlBytes
  len_newState : c.newState.length ≤ maxControlBytes

section Journals

variable {env : ApplyEnvironment} {c : PreparedApply} {texts : JournalPhase → Bytes}
  {phase p q : JournalPhase} {journal : Slots Bytes}

/-- Recording that a phase is over replaces the journal. -/
def Sound.replacement (h : Sound env c texts) (hq : p.next = some q) :
    Replacement (textPlatform env) (journalFormat env) maxControlBytes where
  oldText := texts p
  newText := texts q
  old := c.journalAt p
  new := c.journalAt q
  parse_old := h.parse p
  parse_new := h.parse q
  valid := by simp [journalFormat, validTransition, hq]
  irreversible := by
    cases p <;> cases q <;> simp_all [journalFormat, validTransition, JournalPhase.next]
  len_old := h.len p
  len_new := h.len q

/-- Journal files that stand for one phase and are settled by steps within `I`. -/
structure StandsFor (env : ApplyEnvironment) (c : PreparedApply) (texts : JournalPhase → Bytes)
    (phase : JournalPhase) (I : Slots Bytes → Prop) (journal : Slots Bytes) : Prop where
  inspect : (inspect (textPlatform env) (journalFormat env) maxControlBytes).Upholds
    (fun _ _ => False) (fun r t => r = some (c.journalAt phase) ∧ t = journal) (fun _ _ => False)
    journal
  reconcile : (reconcile (textPlatform env) (journalFormat env) maxControlBytes).Upholds
    (fun _ t => I t) (fun _ t => t = ⟨some (texts phase), none, none⟩) (fun _ _ => False) journal

theorem standsFor_settled (h : Sound env c texts) (phase : JournalPhase) :
    StandsFor env c texts phase (fun _ => False) ⟨some (texts phase), none, none⟩ := by
  have hlen : (textPlatform env).len (texts phase) ≤ maxControlBytes := h.len phase
  refine ⟨?_, ?_⟩
  · simp [GuardedJournal.inspect, readTexts, storage, GuardedJournal.parse, readText_upholds, hlen,
      journalFormat, h.parse]
  · simp [GuardedJournal.reconcile, readTexts, storage, GuardedJournal.parse, readText_upholds,
      hlen, journalFormat, h.parse]

theorem standsFor_retains (h : Sound env c texts) (hq : p.next = some q)
    (hj : (h.replacement hq).Retains journal) :
    StandsFor env c texts p (h.replacement hq).Reachable journal :=
  ⟨(h.replacement hq).inspect_retains hj,
    ((h.replacement hq).reconcile_retains hj).mono (fun _ _ hstep => hstep.2) (fun _ _ => id)
      (fun _ _ => id)⟩

theorem standsFor_advances (h : Sound env c texts) (hq : p.next = some q)
    (hj : (h.replacement hq).Advances journal) :
    StandsFor env c texts q (h.replacement hq).Reachable journal :=
  ⟨(h.replacement hq).inspect_advances hj,
    ((h.replacement hq).reconcile_advances hj).mono (fun _ _ hstep => hstep.2) (fun _ _ => id)
      (fun _ _ => id)⟩

end Journals

section Cleanup

variable {env : ApplyEnvironment} {c : PreparedApply} {texts : JournalPhase → Bytes}
  {phase : JournalPhase} {P : ApplyStore → Prop}

theorem removeIfMatches_upholds {τ : Type} {p : TextPlatform τ} {path : SlotName} {maxBytes : Nat}
    {expected : τ → Bool} {s : Slots τ} {G : Slots τ → Slots τ → Prop} {Q : Unit → Slots τ → Prop}
    {E : ObjectMutationError → Slots τ → Prop}
    (hmatch : ∀ text ∈ s.get path, p.len text ≤ maxBytes ∧ expected text = true)
    (hG : G s (s.set path none)) (hQ : Q () (s.set path none)) :
    (removeIfMatches p path maxBytes expected).Upholds G Q E s := by
  rw [removeIfMatches, Program.bind_upholds, Program.inspect_upholds]
  cases hget : s.get path with
  | none =>
    rw [← hget, Slots.set_get] at hQ
    exact Program.pure_upholds.mpr hQ
  | some text =>
    obtain ⟨hlen, hexpected⟩ := hmatch text hget
    simp [hlen, hexpected, hG, hQ]

/-- What a cleanup may find beside the state, the journal and the document. -/
structure Removable (env : ApplyEnvironment) (c : PreparedApply) (state : Slots Bytes)
    (target : Slots Document) : Prop where
  stagedDocument : ∀ document ∈ target.staging, some document = c.old ∨ document = c.new
  keptDocument : ∀ document ∈ target.backup, some document = c.old
  stagedState : ∀ text ∈ state.staging, text = c.oldState ∨ text = c.newState
  keptState : ∀ text ∈ state.backup, text = c.oldState

/-- A cleanup removes the staged and the kept documents, then the staged and the kept states,
then the journal. -/
theorem cleanup_upholds (h : Sound env c texts) {state : Slots Bytes} {target : Slots Document}
    (hr : Removable env c state target)
    (hstaged : P ⟨state, ⟨some (texts phase), none, none⟩, ⟨target.destination, none, target.backup⟩⟩)
    (hkept : P ⟨state, ⟨some (texts phase), none, none⟩, ⟨target.destination, none, none⟩⟩)
    (hstate : P ⟨⟨state.destination, none, state.backup⟩, ⟨some (texts phase), none, none⟩,
      ⟨target.destination, none, none⟩⟩)
    (hbackup : P ⟨⟨state.destination, none, none⟩, ⟨some (texts phase), none, none⟩,
      ⟨target.destination, none, none⟩⟩)
    (hdone : P ⟨⟨state.destination, none, none⟩, ⟨none, none, none⟩,
      ⟨target.destination, none, none⟩⟩) :
    (cleanup env (c.journalAt phase)).Upholds (fun _ t => P t)
      (fun _ t => t = ⟨⟨state.destination, none, none⟩, ⟨none, none, none⟩,
        ⟨target.destination, none, none⟩⟩) (fun _ _ => False)
      ⟨state, ⟨some (texts phase), none, none⟩, target⟩ := by
  have hjournal : isTransactionJournal env (c.journalAt phase) (texts phase) = true := by
    simp [isTransactionJournal, h.parse]
  have hold : ∀ document, some document = c.old →
      isDocument env c.journal.oldDocumentHash document = true ∧
        document.text.length ≤ env.limits.maxDocumentBytes := by
    intro document hdocument
    refine ⟨?_, h.len_old document hdocument.symm⟩
    rw [h.oldDocument, ← hdocument]
    simp [isDocument]
  simp only [cleanup, Program.bind_upholds, onTarget, onState, onJournal, Program.zoom_upholds,
    Program.mapError_upholds]
  refine removeIfMatches_upholds (fun document hd => ?_) hstaged ?_
  · rcases hr.stagedDocument document hd with hd | rfl
    · exact ⟨(hold document hd).2, by rw [(hold document hd).1, Bool.or_true]⟩
    · exact ⟨h.len_new, by simp [isDocument, h.newDocument]⟩
  refine removeIfMatches_upholds (fun document hd => ?_) hkept ?_
  · have hd := hold document (hr.keptDocument document hd)
    exact ⟨hd.2, hd.1⟩
  refine removeIfMatches_upholds (fun text ht => ?_) hstate ?_
  · rcases hr.stagedState text ht with rfl | rfl
    · exact ⟨h.len_oldState, by simp [isState, h.oldState]⟩
    · exact ⟨h.len_newState, by simp [isState, h.newState]⟩
  refine removeIfMatches_upholds (fun text ht => ?_) hbackup ?_
  · obtain rfl := hr.keptState text ht
    exact ⟨h.len_oldState, by simp [isState, h.oldState]⟩
  refine removeIfMatches_upholds (fun _ ht => absurd ht.symm (Option.some_ne_none _)) hbackup ?_
  refine removeIfMatches_upholds (fun _ ht => absurd ht.symm (Option.some_ne_none _)) hbackup ?_
  refine removeIfMatches_upholds (fun text ht => ?_) hdone rfl
  obtain rfl := Option.some.inj ht
  exact ⟨h.len phase, hjournal⟩

end Cleanup

section Shapes

variable {env : ApplyEnvironment} {c : PreparedApply} {texts : JournalPhase → Bytes}

/-- The document files before the new document is in place. -/
inductive TargetWaiting (c : PreparedApply) : Slots Document → Prop
  | unstaged : TargetWaiting c ⟨c.old, none, none⟩
  | staged : TargetWaiting c ⟨c.old, some c.new, none⟩

/-- The state files before the new state is in place. -/
inductive StateWaiting (c : PreparedApply) : Slots Bytes → Prop
  | unstaged : StateWaiting c ⟨some c.oldState, none, none⟩
  | staged : StateWaiting c ⟨some c.oldState, some c.newState, none⟩

/-- The document files from the first step of installing the new document. -/
inductive TargetInstalling (c : PreparedApply) : Slots Document → Prop
  | exchanged {old : Document} : c.old = some old →
      TargetInstalling c ⟨some c.new, some old, none⟩
  | displaced {old : Document} : c.old = some old →
      TargetInstalling c ⟨none, some c.new, some old⟩
  | backedUp {old : Document} : c.old = some old →
      TargetInstalling c ⟨some c.new, none, some old⟩
  | settled : TargetInstalling c ⟨some c.new, none, none⟩

/-- The state files from then on, while `state.json` is there. -/
inductive StateInstalling (c : PreparedApply) : Slots Bytes → Prop
  | staged : StateInstalling c ⟨some c.oldState, some c.newState, none⟩
  | exchanged : StateInstalling c ⟨some c.newState, some c.oldState, none⟩
  | backedUp : StateInstalling c ⟨some c.newState, none, some c.oldState⟩
  | settled : StateInstalling c ⟨some c.newState, none, none⟩

/-- The journal files from the first step of installing the new document. -/
def Committing (h : Sound env c texts) (journal : Slots Bytes) : Prop :=
  ∃ p q, ∃ hq : JournalPhase.next p = some q, p ≠ .preparing ∧ (h.replacement hq).Reachable journal

theorem next_preparing : JournalPhase.next .preparing = some .prepared := rfl

/-- What an apply and its recoveries can leave at any stop. -/
inductive Shape (h : Sound env c texts) : ApplyStore → Prop
  | staging {state : Slots Bytes} {target : Slots Document} :
      StateWaiting c state → TargetWaiting c target →
      Shape h ⟨state, ⟨some (texts .preparing), none, none⟩, target⟩
  | staged {journal : Slots Bytes} : (h.replacement next_preparing).Reachable journal →
      Shape h ⟨⟨some c.oldState, some c.newState, none⟩, journal, ⟨c.old, some c.new, none⟩⟩
  | stranded {state : Slots Bytes} : StateWaiting c state →
      Shape h ⟨state, ⟨some (texts .prepared), none, none⟩, ⟨c.old, none, none⟩⟩
  | installing {state journal : Slots Bytes} {target : Slots Document} :
      c.old ≠ some c.new → StateInstalling c state → Committing h journal →
      TargetInstalling c target → Shape h ⟨state, journal, target⟩
  | missing {journal : Slots Bytes} {target : Slots Document} :
      c.old ≠ some c.new → Committing h journal → TargetInstalling c target →
      Shape h ⟨⟨none, some c.newState, some c.oldState⟩, journal, target⟩
  | aborted : Shape h
      ⟨⟨some c.oldState, none, none⟩, ⟨none, none, none⟩, ⟨c.old, none, none⟩⟩
  | completed : Shape h
      ⟨⟨some c.newState, none, none⟩, ⟨none, none, none⟩, ⟨some c.new, none, none⟩⟩

end Shapes

section Reading

variable {env : ApplyEnvironment} {s : ApplyStore} {path : SlotName}
  {G : ApplyStore → ApplyStore → Prop} {E : TransactionError → ApplyStore → Prop}

theorem readState_upholds {R : Option Bytes → ApplyStore → Prop}
    (hlen : ∀ text ∈ s.state.get path, text.length ≤ maxControlBytes)
    (hR : R (s.state.get path) s) : (readState env path).Upholds G R E s := by
  rw [readState, onState, Program.zoom_upholds, Program.mapError_upholds, readText_upholds, if_pos]
  · exact hR
  · rw [Option.all_eq_true_iff_get]
    exact fun hsome => decide_eq_true (hlen _ (Option.get_mem hsome))

theorem readTarget_upholds {R : Option Document → ApplyStore → Prop}
    (hlen : ∀ document ∈ s.target.get path, document.text.length ≤ env.limits.maxDocumentBytes)
    (hR : R (s.target.get path) s) : (readTarget env path).Upholds G R E s := by
  rw [readTarget, onTarget, Program.zoom_upholds, Program.mapError_upholds, readText_upholds,
    if_pos]
  · exact hR
  · rw [Option.all_eq_true_iff_get]
    exact fun hsome => decide_eq_true (hlen _ (Option.get_mem hsome))

theorem presentState_upholds {R : Bytes → ApplyStore → Prop} {text : Bytes}
    (hget : s.state.get path = some text) (hlen : text.length ≤ maxControlBytes) (hR : R text s) :
    (present (readState env path)).Upholds G R E s := by
  rw [present, Program.bind_upholds]
  refine readState_upholds (fun other hother => ?_) ?_
  · rw [hget, Option.mem_some_iff] at hother
    exact hother ▸ hlen
  · rw [hget]
    exact Program.pure_upholds.mpr hR

theorem presentTarget_upholds {R : Document → ApplyStore → Prop} {document : Document}
    (hget : s.target.get path = some document)
    (hlen : document.text.length ≤ env.limits.maxDocumentBytes) (hR : R document s) :
    (present (readTarget env path)).Upholds G R E s := by
  rw [present, Program.bind_upholds]
  refine readTarget_upholds (fun other hother => ?_) ?_
  · rw [hget, Option.mem_some_iff] at hother
    exact hother ▸ hlen
  · rw [hget]
    exact Program.pure_upholds.mpr hR

theorem absentState_upholds {R : Bytes → ApplyStore → Prop} (hget : s.state.get path = none)
    (hE : ∀ e, E e s) : (present (readState env path)).Upholds G R E s := by
  rw [present, Program.bind_upholds]
  refine readState_upholds (by rw [hget]; simp) ?_
  rw [hget]
  exact Program.fail_upholds.mpr (hE _)

theorem absentTarget_upholds {R : Document → ApplyStore → Prop} (hget : s.target.get path = none)
    (hE : ∀ e, E e s) : (present (readTarget env path)).Upholds G R E s := by
  rw [present, Program.bind_upholds]
  refine readTarget_upholds (by rw [hget]; simp) ?_
  rw [hget]
  exact Program.fail_upholds.mpr (hE _)

end Reading

section Directions

variable {env : ApplyEnvironment} {c : PreparedApply} {texts : JournalPhase → Bytes}
  {phase : JournalPhase} {journal : Slots Bytes} {state : Slots Bytes} {target : Slots Document}
  {P : ApplyStore → Prop} {I : Slots Bytes → Prop}

theorem inspectJournal_upholds (hj : StandsFor env c texts phase I journal)
    {G : ApplyStore → ApplyStore → Prop} {E : TransactionError → ApplyStore → Prop} :
    (inspectJournal env).Upholds G
      (fun r t => r = some (c.journalAt phase) ∧ t = ⟨state, journal, target⟩) E
      ⟨state, journal, target⟩ := by
  rw [inspectJournal, Program.zoom_upholds, Program.mapError_upholds]
  refine hj.inspect.mono (fun _ _ => False.elim) ?_ (fun _ _ => False.elim)
  rintro _ _ ⟨hr, rfl⟩
  exact ⟨hr, rfl⟩

theorem reconcileJournal_upholds (hj : StandsFor env c texts phase I journal)
    (hI : ∀ files, I files → P ⟨state, files, target⟩)
    {E : TransactionError → ApplyStore → Prop} :
    (reconcileJournal env).Upholds (fun _ t => P t)
      (fun _ t => t = ⟨state, ⟨some (texts phase), none, none⟩, target⟩) E
      ⟨state, journal, target⟩ := by
  rw [reconcileJournal, Program.zoom_upholds, Program.mapError_upholds]
  refine hj.reconcile.mono (fun _ u hu => hI u hu) ?_ (fun _ _ => False.elim)
  rintro _ _ rfl
  rfl

/-- A recovery reads the journal and both files, decides, settles the journal and goes on. -/
theorem recover_upholds_of (h : Sound env c texts) (hj : StandsFor env c texts phase I journal)
    {current : Bytes} {direction : RecoveryDirection} {Q : RecoveryOutcome → ApplyStore → Prop}
    {E : TransactionError → ApplyStore → Prop} (hstate : state.destination = some current)
    (hlen : current.length ≤ maxControlBytes)
    (htarget : ∀ document ∈ target.destination, document.text.length ≤ env.limits.maxDocumentBytes)
    (hdirection : (recoveryDirection env (c.journalAt phase) current target.destination).Upholds
      (fun _ _ => False) (fun r t => r = direction ∧ t = ⟨state, journal, target⟩)
      (fun _ _ => False) ⟨state, journal, target⟩)
    (hI : ∀ files, I files → P ⟨state, files, target⟩)
    (hrest : (finishRecovery env (c.journalAt phase) current target.destination direction).Upholds
      (fun _ t => P t) Q E ⟨state, ⟨some (texts phase), none, none⟩, target⟩) :
    (recover env).Upholds (fun _ t => P t) Q E ⟨state, journal, target⟩ := by
  have hanchor : validateTargetAnchor env (c.journalAt phase) = .ok () := h.anchor
  rw [recover, Program.bind_upholds]
  refine (inspectJournal_upholds hj).mono (fun _ _ => id) ?_ (fun _ _ => id)
  rintro _ _ ⟨rfl, rfl⟩
  simp only [hanchor, Program.bind_upholds, Program.ofExcept_ok_upholds]
  refine presentState_upholds hstate hlen (readTarget_upholds htarget ?_)
  refine hdirection.mono (fun _ _ => False.elim) ?_ (fun _ _ => False.elim)
  rintro _ _ ⟨rfl, rfl⟩
  refine (reconcileJournal_upholds hj hI).mono (fun _ _ => id) ?_ (fun _ _ => id)
  rintro _ _ rfl
  refine (inspectJournal_upholds (standsFor_settled h phase)).mono (fun _ _ => id) ?_
    (fun _ _ => id)
  rintro _ _ ⟨rfl, rfl⟩
  simpa using hrest

theorem recoveryDirection_abort (h : Sound env c texts) {s : ApplyStore}
    (hphase : phase = .preparing ∨ phase = .prepared)
    (hstaged : phase = .prepared → s.target.staging = some c.new ∧
      s.state = ⟨some c.oldState, some c.newState, none⟩) :
    (recoveryDirection env (c.journalAt phase) c.oldState c.old).Upholds (fun _ _ => False)
      (fun r t => r = .abort ∧ t = s) (fun _ _ => False) s := by
  have htransition : validateStateTransition env c.oldState c.newState (c.journalAt phase) =
      .ok () := h.transition
  rw [recoveryDirection, if_pos ⟨h.oldDocument.symm, h.oldState.symm, hphase⟩]
  split
  · rename_i hprepared
    obtain ⟨htarget, hstate⟩ := hstaged hprepared
    have hnew : isDocument env (some (c.journalAt phase).newDocumentHash) c.new = true := by
      simp [isDocument, h.newDocument]
    have hnewState : isState env (c.journalAt phase).newStateHash c.newState = true := by
      simp [isState, h.newState]
    rw [Program.bind_upholds, validateStagedAuthority, Program.bind_upholds]
    refine presentTarget_upholds htarget h.len_new ?_
    rw [Program.bind_upholds]
    refine presentState_upholds (by rw [hstate]; rfl) h.len_newState ?_
    rw [Program.bind_upholds, Program.require_upholds, hnew, hnewState, h.mode]
    simp only [beq_self_eq_true, Bool.and_self, if_true]
    rw [Program.bind_upholds]
    refine presentState_upholds (by rw [hstate]; rfl) h.len_oldState ?_
    rw [htransition, Program.ofExcept_ok_upholds]
    exact Program.pure_upholds.mpr ⟨rfl, rfl⟩
  · exact Program.pure_upholds.mpr ⟨rfl, rfl⟩

theorem recoveryDirection_forward (h : Sound env c texts) {s : ApplyStore} {current : Bytes}
    {document : Option Document} (hne : c.old ≠ some c.new)
    (hdocument : document = some c.new ∨ document = none ∧ c.old ≠ none)
    (hphase : phase ≠ .preparing) :
    (recoveryDirection env (c.journalAt phase) current document).Upholds (fun _ _ => False)
      (fun r t => r = .forward ∧ t = s) (fun _ _ => False) s := by
  rw [recoveryDirection, if_neg, if_neg hphase]
  · exact Program.pure_upholds.mpr ⟨rfl, rfl⟩
  · rintro ⟨hold, -⟩
    have hold := hold.trans h.oldDocument
    rcases hdocument with rfl | ⟨rfl, hsome⟩
    · exact h.documents hne hold.symm
    · exact hsome (Option.map_eq_none_iff.mp hold.symm)

end Directions

section Aborting

variable {env : ApplyEnvironment} {c : PreparedApply} {texts : JournalPhase → Bytes}
  {journal : Slots Bytes} {state : Slots Bytes} {target : Slots Document}

/-- What a recovery that undoes an apply ends with. -/
abbrev Aborted (c : PreparedApply) (outcome : RecoveryOutcome) (t : ApplyStore) : Prop :=
  outcome = .aborted ∧
    t = ⟨⟨some c.oldState, none, none⟩, ⟨none, none, none⟩, ⟨c.old, none, none⟩⟩

/-- What a recovery that completes an apply ends with. -/
abbrev Completed (c : PreparedApply) (outcome : RecoveryOutcome) (t : ApplyStore) : Prop :=
  outcome = .completed ∧
    t = ⟨⟨some c.newState, none, none⟩, ⟨none, none, none⟩, ⟨some c.new, none, none⟩⟩

theorem removable_waiting (hs : StateWaiting c state) (ht : TargetWaiting c target) :
    Removable env c state target := by
  refine ⟨fun document hd => ?_, fun document hd => ?_, fun text hd => ?_, fun text hd => ?_⟩
  · cases ht with
    | unstaged => contradiction
    | staged => exact .inr (Option.some.inj hd).symm
  · cases ht <;> contradiction
  · cases hs with
    | unstaged => contradiction
    | staged => exact .inr (Option.some.inj hd).symm
  · cases hs <;> contradiction

theorem StateWaiting.destination (hs : StateWaiting c state) :
    state.destination = some c.oldState ∧ state.backup = none := by
  cases hs <;> exact ⟨rfl, rfl⟩

theorem TargetWaiting.destination (ht : TargetWaiting c target) :
    target.destination = c.old ∧ target.backup = none := by
  cases ht <;> exact ⟨rfl, rfl⟩

theorem finishRecovery_staging (h : Sound env c texts) (hs : StateWaiting c state)
    (ht : TargetWaiting c target) {document : Option Document} {current : Bytes} :
    (finishRecovery env (c.journalAt .preparing) current document .abort).Upholds
      (fun _ t => Shape h t) (Aborted c) (fun _ _ => False)
      ⟨state, ⟨some (texts .preparing), none, none⟩, target⟩ := by
  obtain ⟨hstate, hstateBackup⟩ := hs.destination
  obtain ⟨htarget, htargetBackup⟩ := ht.destination
  rw [finishRecovery, Program.bind_upholds]
  refine (cleanup_upholds h (P := Shape h) (removable_waiting hs ht) ?_ ?_ ?_ ?_ ?_).mono
    (fun _ _ => id) ?_ (fun _ _ => id)
  · rw [htarget, htargetBackup]
    exact .staging hs .unstaged
  · rw [htarget]
    exact .staging hs .unstaged
  · rw [hstate, hstateBackup, htarget]
    exact .staging .unstaged .unstaged
  · rw [hstate, htarget]
    exact .staging .unstaged .unstaged
  · rw [hstate, htarget]
    exact .aborted
  · rintro _ _ rfl
    rw [hstate, htarget]
    exact Program.pure_upholds.mpr ⟨rfl, rfl⟩

theorem recover_staging (h : Sound env c texts) (hs : StateWaiting c state)
    (ht : TargetWaiting c target) :
    (recover env).Upholds (fun _ t => Shape h t) (Aborted c) (fun _ _ => False)
      ⟨state, ⟨some (texts .preparing), none, none⟩, target⟩ := by
  have hdirection : (recoveryDirection env (c.journalAt .preparing) c.oldState c.old).Upholds _ _ _
      ⟨state, ⟨some (texts .preparing), none, none⟩, target⟩ :=
    recoveryDirection_abort h (.inl rfl) fun hprepared => nomatch hprepared
  rw [← ht.destination.1] at hdirection
  refine recover_upholds_of h (standsFor_settled h .preparing) hs.destination.1 h.len_oldState ?_
    hdirection (fun _ => False.elim) (finishRecovery_staging h hs ht)
  rw [ht.destination.1]
  exact h.len_old

/-- Once both files are staged, an abort demands both until it has removed the first one. -/
theorem recover_staged (h : Sound env c texts)
    (hj : (h.replacement next_preparing).Reachable journal) :
    (recover env).Upholds (fun _ t => Shape h t) (Aborted c) (fun _ _ => False)
      ⟨⟨some c.oldState, some c.newState, none⟩, journal, ⟨c.old, some c.new, none⟩⟩ := by
  rcases hj with hj | hj
  · exact recover_upholds_of h (standsFor_retains h next_preparing hj) rfl h.len_oldState h.len_old
      (recoveryDirection_abort h (.inl rfl) fun hprepared => nomatch hprepared)
      (fun _ hfiles => .staged hfiles) (finishRecovery_staging h .staged .staged)
  · refine recover_upholds_of h (standsFor_advances h next_preparing hj) rfl h.len_oldState
      h.len_old (recoveryDirection_abort h (.inr rfl) fun _ => ⟨rfl, rfl⟩)
      (fun _ hfiles => .staged hfiles) ?_
    rw [finishRecovery, Program.bind_upholds]
    refine (cleanup_upholds h (P := Shape h) (removable_waiting .staged .staged)
      (.stranded .staged) (.stranded .staged) (.stranded .unstaged) (.stranded .unstaged)
      .aborted).mono (fun _ _ => id) ?_ (fun _ _ => id)
    rintro _ _ rfl
    exact Program.pure_upholds.mpr ⟨rfl, rfl⟩

/-- Once an abort has removed the staged document, the next one cannot tell what happened. -/
theorem recover_stranded (h : Sound env c texts) (hs : StateWaiting c state) :
    (recover env).Upholds (fun _ _ => False) (fun _ _ => False) (fun _ _ => True)
      ⟨state, ⟨some (texts .prepared), none, none⟩, ⟨c.old, none, none⟩⟩ := by
  have hanchor : validateTargetAnchor env (c.journalAt .prepared) = .ok () := h.anchor
  rw [recover, Program.bind_upholds]
  refine (inspectJournal_upholds (standsFor_settled h .prepared)).mono (fun _ _ => id) ?_
    (fun _ _ => id)
  rintro _ _ ⟨rfl, rfl⟩
  simp only [hanchor, Program.bind_upholds, Program.ofExcept_ok_upholds]
  refine presentState_upholds hs.destination.1 h.len_oldState (readTarget_upholds h.len_old ?_)
  rw [recoveryDirection, if_pos ⟨h.oldDocument.symm, h.oldState.symm, .inr rfl⟩, if_pos rfl]
  rw [Program.bind_upholds, validateStagedAuthority, Program.bind_upholds]
  exact absentTarget_upholds rfl fun _ => trivial

end Aborting

section Completing

variable {env : ApplyEnvironment} {c : PreparedApply} {texts : JournalPhase → Bytes}
  {phase : JournalPhase} {journal : Slots Bytes} {state : Slots Bytes} {target : Slots Document}

theorem Committing.standsFor {h : Sound env c texts} (hj : Committing h journal) :
    ∃ phase, phase ≠ .preparing ∧ Committing h ⟨some (texts phase), none, none⟩ ∧
      StandsFor env c texts phase (Committing h) journal := by
  obtain ⟨p, q, hq, hp, hj⟩ := hj
  have hwithin : ∀ files, (h.replacement hq).Reachable files → Committing h files :=
    fun files hfiles => ⟨p, q, hq, hp, hfiles⟩
  rcases hj with hj | hj
  · have hstands := standsFor_retains h hq hj
    exact ⟨p, hp, hwithin _ .untouched, hstands.inspect,
      hstands.reconcile.mono (fun _ u => hwithin u) (fun _ _ => id) (fun _ _ => id)⟩
  · have hstands := standsFor_advances h hq hj
    have hq' : q ≠ .preparing := by
      rintro rfl
      cases p <;> contradiction
    exact ⟨q, hq', hwithin _ .settled, hstands.inspect,
      hstands.reconcile.mono (fun _ u => hwithin u) (fun _ _ => id) (fun _ _ => id)⟩

/-- A recovery that goes on brings the document to its new text. -/
theorem resumeIncompleteTarget_upholds (h : Sound env c texts) {old : Document}
    (hold : c.old = some old) (hne : c.old ≠ some c.new) (hs : StateInstalling c state)
    (hj : Committing h journal) :
    (resumeIncompleteTarget env (c.journalAt phase)).Upholds (fun _ t => Shape h t)
      (fun _ t => t = ⟨state, journal, ⟨some c.new, none, none⟩⟩) (fun _ _ => False)
      ⟨state, journal, ⟨none, some c.new, some old⟩⟩ := by
  have hlenOld : old.text.length ≤ env.limits.maxDocumentBytes := h.len_old old hold
  have holdHash : isDocument env c.journal.oldDocumentHash old = true := by
    simp [isDocument, h.oldDocument, hold]
  have hnewHash : isDocument env (some c.journal.newDocumentHash) c.new = true := by
    simp [isDocument, h.newDocument]
  have hsome : c.journal.oldDocumentHash.isSome = true := by simp [h.oldDocument, hold]
  rw [resumeIncompleteTarget, Program.bind_upholds, Program.require_upholds, hsome, if_pos rfl,
    Program.bind_upholds]
  refine presentTarget_upholds rfl hlenOld ?_
  rw [Program.bind_upholds]
  refine presentTarget_upholds rfl h.len_new ?_
  rw [Program.bind_upholds, Program.require_upholds, holdHash, hnewHash, Bool.and_self, if_pos rfl,
    onTarget, Program.zoom_upholds, Program.mapError_upholds]
  have hbacked : Shape h ⟨state, journal, ⟨some c.new, none, some old⟩⟩ :=
    .installing hne hs hj (.backedUp hold)
  have hsettled : Shape h ⟨state, journal, ⟨some c.new, none, none⟩⟩ :=
    .installing hne hs hj .settled
  have hlens : (documentPlatform env.exchange).len old ≤ env.limits.maxDocumentBytes := hlenOld
  have hlenNew : (documentPlatform env.exchange).len c.new ≤ env.limits.maxDocumentBytes :=
    h.len_new
  simp [installStagedTextGuarded, installStagedTextGuardedWithHook, resumeGuardedTextInstall,
    readText_upholds, Slots.moveNoreplace, hlens, hlenNew, hbacked, hsettled]

theorem StateInstalling.destination (hs : StateInstalling c state) :
    state.destination = some c.newState ∨
      state = ⟨some c.oldState, some c.newState, none⟩ := by
  cases hs <;> simp

/-- Installing the new state is the one step of a recovery during which `state.json` may be
missing. -/
theorem installState_upholds (h : Sound env c texts) (hne : c.old ≠ some c.new)
    (hj : Committing h journal) (ht : TargetInstalling c target)
    {Q : Unit → ApplyStore → Prop} {E : TransactionError → ApplyStore → Prop}
    (hQ : Q () ⟨⟨some c.newState, none, none⟩, journal, target⟩) :
    (onState (installStagedTextGuarded (textPlatform env) (some c.oldState) c.newState
      maxControlBytes)).Upholds (fun _ t => Shape h t) Q E
      ⟨⟨some c.oldState, some c.newState, none⟩, journal, target⟩ := by
  have hold : (textPlatform env).len c.oldState ≤ maxControlBytes := h.len_oldState
  have hnew : (textPlatform env).len c.newState ≤ maxControlBytes := h.len_newState
  have hinstalling : ∀ {state}, StateInstalling c state → Shape h ⟨state, journal, target⟩ :=
    fun hs => .installing hne hs hj ht
  rw [onState, Program.zoom_upholds, Program.mapError_upholds]
  by_cases hsame : c.oldState = c.newState
  · rw [hsame]
    exact (installStagedTextGuarded_same_upholds hnew).mpr ⟨hinstalling .settled, hQ⟩
  · refine (installStagedTextGuarded_upholds hold hnew hsame).mpr ?_
    split
    · exact ⟨hinstalling .exchanged, hinstalling .settled, hQ⟩
    · exact ⟨.missing hne hj ht, hinstalling .backedUp, hinstalling .settled, hQ⟩

theorem completeState_upholds (h : Sound env c texts) (hne : c.old ≠ some c.new)
    (hs : StateInstalling c state) (hj : Committing h journal) (ht : TargetInstalling c target)
    {current : Bytes} (hcurrent : state.destination = some current) :
    (completeState env (c.journalAt phase) current).Upholds (fun _ t => Shape h t)
      (fun _ t => ∃ state, StateInstalling c state ∧ state.destination = some c.newState ∧
        t = ⟨state, journal, target⟩) (fun _ _ => False) ⟨state, journal, target⟩ := by
  have hvalid : validateNewState env c.newState (c.journalAt phase) = .ok () := h.newValid
  have htransition : validateStateTransition env c.oldState c.newState (c.journalAt phase) =
    .ok () := h.transition
  have hdone : current = c.newState → (Program.ofExcept
      (validateNewState env current (c.journalAt phase)) : ApplyProgram Unit).Upholds
      (fun _ t => Shape h t) (fun _ t => ∃ state, StateInstalling c state ∧
        state.destination = some c.newState ∧ t = ⟨state, journal, target⟩) (fun _ _ => False)
      ⟨state, journal, target⟩ := by
    rintro rfl
    rw [hvalid, Program.ofExcept_ok_upholds]
    exact ⟨state, hs, hcurrent, rfl⟩
  rw [completeState, h.oldState, h.newState]
  split
  · rename_i hsame
    have hsame := h.states hsame
    refine hdone ?_
    rcases hs.destination with hnew | rfl
    · exact Option.some.inj (hcurrent.symm.trans hnew)
    · exact (Option.some.inj hcurrent).symm.trans hsame
  rename_i hhash
  rcases hs.destination with hnew | rfl
  · obtain rfl : current = c.newState := Option.some.inj (hcurrent.symm.trans hnew)
    rw [if_neg fun heq => hhash heq.symm, if_pos rfl]
    exact hdone rfl
  · obtain rfl : current = c.oldState := (Option.some.inj hcurrent).symm
    have hstaged : isState env (contentDigest env.blake3 c.newState) c.newState = true := by
      simp [isState]
    rw [if_pos rfl, Program.bind_upholds]
    refine presentState_upholds rfl h.len_newState ?_
    rw [Program.bind_upholds, Program.require_upholds, hstaged, if_pos rfl, Program.bind_upholds,
      htransition, Program.ofExcept_ok_upholds]
    exact installState_upholds h hne hj ht ⟨_, .settled, rfl, rfl⟩

theorem finishRecovery_settled (h : Sound env c texts) (hne : c.old ≠ some c.new)
    (hs : StateInstalling c state) (hj : Committing h ⟨some (texts phase), none, none⟩)
    (ht : TargetInstalling c target) (hstate : state.destination = some c.newState)
    (htarget : target.destination = some c.new) :
    (cleanup env (c.journalAt phase)).Upholds (fun _ t => Shape h t)
      (fun _ t => t = ⟨⟨some c.newState, none, none⟩, ⟨none, none, none⟩,
        ⟨some c.new, none, none⟩⟩) (fun _ _ => False)
      ⟨state, ⟨some (texts phase), none, none⟩, target⟩ := by
  have hr : Removable env c state target := by
    refine ⟨fun document hd => ?_, fun document hd => ?_, fun text hd => ?_, fun text hd => ?_⟩
    · cases ht with
      | exchanged hold => exact .inl (hd ▸ hold.symm)
      | displaced hold => exact .inr (Option.some.inj hd).symm
      | backedUp hold => contradiction
      | settled => contradiction
    · cases ht with
      | displaced hold => exact hd ▸ hold.symm
      | backedUp hold => exact hd ▸ hold.symm
      | exchanged hold => contradiction
      | settled => contradiction
    · cases hs with
      | staged => exact .inr (Option.some.inj hd).symm
      | exchanged => exact .inl (Option.some.inj hd).symm
      | backedUp => contradiction
      | settled => contradiction
    · cases hs with
      | backedUp => exact (Option.some.inj hd).symm
      | staged => contradiction
      | exchanged => contradiction
      | settled => contradiction
  have hunstaged : TargetInstalling c ⟨some c.new, none, target.backup⟩ := by
    cases ht with
    | exchanged hold => exact .settled
    | displaced hold => contradiction
    | backedUp hold => exact .backedUp hold
    | settled => exact .settled
  have hunstagedState : StateInstalling c ⟨some c.newState, none, state.backup⟩ := by
    cases hs with
    | staged => exact .settled
    | exchanged => exact .settled
    | backedUp => exact .backedUp
    | settled => exact .settled
  refine (cleanup_upholds h (P := Shape h) hr ?_ ?_ ?_ ?_ ?_).mono (fun _ _ => id) ?_
    (fun _ _ => id) <;> rw [htarget]
  · exact .installing hne hs hj hunstaged
  · exact .installing hne hs hj .settled
  · rw [hstate]
    exact .installing hne hunstagedState hj .settled
  · rw [hstate]
    exact .installing hne .settled hj .settled
  · rw [hstate]
    exact .completed
  · rw [hstate]
    exact fun _ _ => id

theorem TargetInstalling.destination (ht : TargetInstalling c target) :
    target.destination = some c.new ∧ (∀ document ∈ target.staging, some document = c.old) ∨
      ∃ old, c.old = some old ∧ target = ⟨none, some c.new, some old⟩ := by
  cases ht with
  | exchanged hold => exact .inl ⟨rfl, fun document hd => hd ▸ hold.symm⟩
  | displaced hold => exact .inr ⟨_, hold, rfl⟩
  | backedUp hold => exact .inl ⟨rfl, fun _ hd => nomatch hd⟩
  | settled => exact .inl ⟨rfl, fun _ hd => nomatch hd⟩

theorem completeTransaction_upholds (h : Sound env c texts) (hne : c.old ≠ some c.new)
    (hs : StateInstalling c state) (hj : Committing h ⟨some (texts phase), none, none⟩)
    (ht : TargetInstalling c target) {current : Bytes} (hcurrent : state.destination = some current) :
    (completeTransaction env (c.journalAt phase) current target.destination).Upholds
      (fun _ t => Shape h t)
      (fun _ t => t = ⟨⟨some c.newState, none, none⟩, ⟨none, none, none⟩,
        ⟨some c.new, none, none⟩⟩) (fun _ _ => False)
      ⟨state, ⟨some (texts phase), none, none⟩, target⟩ := by
  have hrest : ∀ {target}, TargetInstalling c target → target.destination = some c.new →
      Program.Upholds (do
        let installed ← readTarget env .destination
        Program.require (installed.map (documentHash env) ==
          some (c.journalAt phase).newDocumentHash) TransactionError.recoveryConflict
        completeState env (c.journalAt phase) current
        cleanup env (c.journalAt phase)) (fun _ t => Shape h t)
      (fun _ t => t = ⟨⟨some c.newState, none, none⟩, ⟨none, none, none⟩,
        ⟨some c.new, none, none⟩⟩) (fun _ _ => False)
      ⟨state, ⟨some (texts phase), none, none⟩, target⟩ := by
    intro target ht htarget
    have hlen : ∀ document ∈ target.destination,
        document.text.length ≤ env.limits.maxDocumentBytes := by
      rw [htarget]
      rintro _ hd
      exact Option.some.inj hd ▸ h.len_new
    rw [Program.bind_upholds]
    refine readTarget_upholds hlen ?_
    rw [Program.bind_upholds, Program.require_upholds, Slots.get_destination, htarget,
      Option.map_some, h.newDocument, if_pos (beq_self_eq_true _), Program.bind_upholds]
    refine (completeState_upholds h hne hs hj ht hcurrent).mono (fun _ _ => id) ?_ (fun _ _ => id)
    rintro _ _ ⟨state, hs, hstate, rfl⟩
    exact finishRecovery_settled h hne hs hj ht hstate htarget
  rw [completeTransaction]
  rcases ht.destination with ⟨htarget, hstaged⟩ | ⟨old, hold, rfl⟩
  · rw [htarget, Option.map_some, if_neg (by simp [h.newDocument]), Program.bind_upholds,
      proveTargetInstall, Program.bind_upholds]
    have hlen : ∀ document ∈ target.staging, document.text.length ≤ env.limits.maxDocumentBytes :=
      fun document hd => h.len_old document (hstaged document hd).symm
    refine readTarget_upholds hlen ?_
    rw [Program.require_upholds, if_pos]
    · exact hrest ht htarget
    · rw [Option.all_eq_true_iff_get]
      intro hsome
      rw [isDocument, h.oldDocument, ← hstaged _ (Option.get_mem hsome), Option.map_some]
      exact beq_self_eq_true _
  · rw [if_pos (by simp), Program.bind_upholds]
    refine (resumeIncompleteTarget_upholds h hold hne hs hj).mono (fun _ _ => id) ?_ (fun _ _ => id)
    rintro _ _ rfl
    exact hrest .settled rfl

theorem recover_installing (h : Sound env c texts) (hne : c.old ≠ some c.new)
    (hs : StateInstalling c state) (hj : Committing h journal) (ht : TargetInstalling c target) :
    (recover env).Upholds (fun _ t => Shape h t) (Completed c) (fun _ _ => False)
      ⟨state, journal, target⟩ := by
  obtain ⟨phase, hphase, hsettled, hstands⟩ := hj.standsFor
  obtain ⟨current, hcurrent, hlen⟩ : ∃ current, state.destination = some current ∧
      current.length ≤ maxControlBytes := by
    rcases hs.destination with hnew | rfl
    · exact ⟨_, hnew, h.len_newState⟩
    · exact ⟨_, rfl, h.len_oldState⟩
  have htarget : (target.destination = some c.new ∨ target.destination = none ∧ c.old ≠ none) ∧
      ∀ document ∈ target.destination, document.text.length ≤ env.limits.maxDocumentBytes := by
    rcases ht.destination with ⟨hnew, -⟩ | ⟨old, hold, rfl⟩
    · refine ⟨.inl hnew, fun document hd => ?_⟩
      rw [hnew] at hd
      exact Option.some.inj hd ▸ h.len_new
    · exact ⟨.inr ⟨rfl, by simp [hold]⟩, fun _ hd => nomatch hd⟩
  refine recover_upholds_of h hstands hcurrent hlen htarget.2
    (recoveryDirection_forward h hne htarget.1 hphase)
    (fun _ hfiles => .installing hne hs hfiles ht) ?_
  rw [finishRecovery, Program.bind_upholds]
  refine (completeTransaction_upholds h hne hs hsettled ht hcurrent).mono (fun _ _ => id) ?_
    (fun _ _ => id)
  rintro _ _ rfl
  exact Program.pure_upholds.mpr ⟨rfl, rfl⟩

/-- A recovery refuses to go on while `state.json` is moved aside. -/
theorem recover_missing (h : Sound env c texts) (hj : Committing h journal)
    (hstate : state.destination = none) :
    (recover env).Upholds (fun _ _ => False) (fun _ _ => False) (fun _ _ => True)
      ⟨state, journal, target⟩ := by
  obtain ⟨phase, -, -, hstands⟩ := hj.standsFor
  have hanchor : validateTargetAnchor env (c.journalAt phase) = .ok () := h.anchor
  rw [recover, Program.bind_upholds]
  refine (inspectJournal_upholds hstands).mono (fun _ _ => id) ?_ (fun _ _ => id)
  rintro _ _ ⟨rfl, rfl⟩
  simp only [hanchor, Program.bind_upholds, Program.ofExcept_ok_upholds]
  exact absentState_upholds hstate fun _ => trivial

theorem inspectJournal_absent {G : ApplyStore → ApplyStore → Prop}
    {E : TransactionError → ApplyStore → Prop} :
    (inspectJournal env).Upholds G
      (fun r t => r = none ∧ t = ⟨state, ⟨none, none, none⟩, target⟩) E
      ⟨state, ⟨none, none, none⟩, target⟩ := by
  simp [inspectJournal, GuardedJournal.inspect, readTexts, storage, readText_upholds]

theorem recover_absent :
    (recover env).Upholds (fun _ _ => False)
      (fun outcome t => outcome = .absent ∧ t = ⟨state, ⟨none, none, none⟩, target⟩)
      (fun _ _ => False) ⟨state, ⟨none, none, none⟩, target⟩ := by
  rw [recover, Program.bind_upholds]
  refine inspectJournal_absent.mono (fun _ _ => id) ?_ (fun _ _ => id)
  rintro _ _ ⟨rfl, rfl⟩
  exact Program.pure_upholds.mpr ⟨rfl, rfl⟩

end Completing

end Kitrove.InstructionApply
