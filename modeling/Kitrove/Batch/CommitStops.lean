import Kitrove.Batch.Journaling

/-! Wherever a commit of a prepared batch stops, its files are recoverable. -/

namespace Kitrove

open Crash AtomicApplyBatchTransactionError

section Identities

variable {τ C H R A : Type} {env : BatchEnvironment τ C H R A} {item : AtomicApplyItem C}
  {identity : ApplyTargetIdentity C H}

theorem newIdentity_names (h : newIdentity env item = .ok identity) :
    ∃ content, item.rendered = some content ∧ identity.Names env.view content := by
  unfold newIdentity at h
  cases hr : item.rendered with
  | none => simp [hr] at h
  | some content =>
    refine ⟨content, rfl, ?_⟩
    simp only [hr] at h
    split at h
    · rename_i hh
      cases h
      exact hh
    · rename_i hh
      cases h
      exact hh
    · cases h
      rfl
    · contradiction

theorem oldIdentity_names [DecidableEq H] {missing : AtomicApplyBatchTransactionError}
    {found : Option C} (h : oldIdentity env item missing found = .ok identity) :
    ∃ content, item.observed = some content ∧ identity.Names env.view content := by
  unfold oldIdentity at h
  cases ho : item.observed with
  | none => simp [ho] at h
  | some content =>
    refine ⟨content, rfl, ?_⟩
    simp only [ho] at h
    split at h
    · rename_i hh
      cases h
      exact hh
    · rename_i hh
      split at h
      · cases h
        exact hh
      · contradiction
    · cases h
      rfl
    · contradiction

theorem newIdentity_error {e : AtomicApplyBatchTransactionError}
    (h : newIdentity env item = .error e) : e = staleManifest := by
  unfold newIdentity at h
  cases hr : item.rendered with
  | none =>
    simp only [hr, Except.error.injEq] at h
    exact h.symm
  | some content =>
    simp only [hr] at h
    split at h <;> cases h
    rfl

theorem oldIdentity_error [DecidableEq H] {missing e : AtomicApplyBatchTransactionError}
    {found : Option C} (h : oldIdentity env item missing found = .error e) : e = missing := by
  unfold oldIdentity at h
  cases ho : item.observed with
  | none =>
    simp only [ho, Except.error.injEq] at h
    exact h.symm
  | some content =>
    simp only [ho] at h
    split at h
    · cases h
    · split at h <;> cases h
      rfl
    · cases h
    · cases h
      rfl

end Identities

section Items

variable {C H : Type} [DecidableEq H] {view : ContentView C H} {absent : H}
  {item : AtomicApplyItem C} {p : ParticipantAuthority H}

theorem Describes.install_observed (h : Describes view absent item p)
    (hd : item.disposition = .install ∨ item.disposition = .restore) : item.observed = none := by
  have hv := h.valid
  have ho := h.old
  cases hobs : item.observed with
  | none => rfl
  | some content =>
    obtain ⟨hash, hh⟩ := Option.isSome_iff_exists.mp (h.old_readable content hobs)
    rw [hobs, Option.bind_some, hh] at ho
    rcases hd with hd | hd <;> simp [validHashAuthority, h.disposition, hd, ho] at hv

theorem Describes.held_eq (h : Describes view absent item p) (hn : item.disposition ≠ .noOp) :
    item.held = item.observed := by
  unfold AtomicApplyItem.held
  split
  · rfl
  · rename_i hq
    cases hd : item.disposition with
    | install => exact (h.install_observed (.inl hd)).symm
    | restore => exact (h.install_observed (.inr hd)).symm
    | noOp => exact absurd hd hn
    | managedUpdate => simp [hd, StoredDisposition.requiresQuarantine] at hq
    | remove => simp [hd, StoredDisposition.requiresQuarantine] at hq

/-- An item that is quarantined has old content, named by its entry and never also new. -/
theorem Describes.quarantined (h : Describes view absent item p)
    (hq : item.disposition.requiresQuarantine = true) :
    ∃ content hash, item.observed = some content ∧ view.hash content = some hash ∧
      p.oldTargetHash = some hash ∧
      (item.disposition = .managedUpdate → hash ≠ p.newTargetHash) := by
  have hv := h.valid
  have ho := h.old
  cases hold : p.oldTargetHash with
  | none =>
    cases hd : item.disposition <;>
      simp [validHashAuthority, h.disposition, hd, hold, StoredDisposition.requiresQuarantine]
        at hv hq
  | some hash =>
    rw [hold] at ho
    obtain ⟨content, hobserved, hhash⟩ := Option.bind_eq_some_iff.mp ho.symm
    refine ⟨content, hash, hobserved, hhash, rfl, fun hd => ?_⟩
    simpa [validHashAuthority, h.disposition, hd, hold] using hv

/-- An item that keeps its target already has there what it proposes. -/
theorem Describes.noOp_new (h : Describes view absent item p) (hd : item.disposition = .noOp)
    (heq : ∀ old ∈ item.observed, ∀ new ∈ item.rendered, view.hash old = view.hash new →
      old = new) : item.observed = item.new := by
  obtain ⟨new, hrendered, hnew⟩ := h.new (by simp [hd])
  have hv := h.valid
  have ho := h.old
  simp only [validHashAuthority, h.disposition, hd, beq_iff_eq] at hv
  cases hobs : item.observed with
  | none => simp [hv, hobs] at ho
  | some old =>
    rw [hobs, Option.bind_some, hv] at ho
    have he : old = new := heq old hobs new hrendered (ho.symm.trans hnew.symm)
    simp [AtomicApplyItem.new, hd, hrendered, he]

theorem AtomicApplyItem.new_eq_rendered (hd : item.disposition ≠ .remove) :
    item.new = item.rendered := if_neg hd

theorem Describes.readable_new (h : Describes view absent item p) :
    ∀ c ∈ item.new, view.hash c = some p.newTargetHash := by
  intro c hc
  by_cases hr : item.disposition = .remove
  · rw [AtomicApplyItem.new, if_pos hr] at hc
    contradiction
  · obtain ⟨content, hrendered, hhash⟩ := h.new hr
    rw [AtomicApplyItem.new_eq_rendered hr, hrendered, Option.mem_some_iff] at hc
    rwa [← hc]

end Items

section States

variable {τ : Type} [DecidableEq τ] {platform : TextPlatform τ} {maxBytes : Nat}
  {destination staging backup : Option τ} {new : τ} {I : Slots τ → Prop}

theorem resetIncompleteStagedText_upholds (hI : ∀ staging, I ⟨destination, staging, backup⟩) :
    (resetIncompleteStagedText platform new maxBytes).Upholds (fun _ u => I u)
      (fun _ u => u = ⟨destination, none, backup⟩ ∨ u = ⟨destination, some new, backup⟩)
      (fun _ _ => ∃ text ∈ staging, ¬ platform.len text ≤ maxBytes)
      ⟨destination, staging, backup⟩ := by
  simp only [resetIncompleteStagedText, Program.bind_upholds, readText_upholds, Slots.get_staging]
  cases staging with
  | none => simp
  | some current =>
    by_cases hlen : platform.len current ≤ maxBytes
    · by_cases he : current = new
      · simp [he]
      · simp [hlen, he, hI]
    · simp only [Option.all_some, hlen, decide_false, Bool.false_eq_true, if_false]
      exact ⟨current, rfl, hlen⟩

end States

namespace PreparedBatch

variable {τ C H R A : Type} [DecidableEq τ] [DecidableEq C] [DecidableEq H] [DecidableEq R]
  [DecidableEq A] {b : PreparedBatch τ C H R A}
  {cursor : AtomicApplyBatchJournalCursor τ H R A} {s : BatchStore τ C R}
  {i : Nat} {item : AtomicApplyItem C} {phase : AtomicApplyBatchPhase}
  {progress : Nat → AtomicApplyItem C → ParticipantProgress} {next : ParticipantProgress}
  {files : Slots τ}

variable (b) in
/-- No file operation of the commit is refused: whatever the staging paths hold can be
replaced, and every text of the machine state can be read. -/
structure Ready : Prop where
  target : ∀ i item, b.plan.items[i]? = some item → ∀ content identity,
    item.rendered = some content → newIdentity b.env item = .ok identity →
    ∀ destination backup, ∃ done : Unit, (ApplyTarget.stage b.env.view content identity
      ⟨destination, (b.start.targets i).staging, backup⟩).result = .ok done
  staged : ∀ text ∈ b.start.state.staging, b.env.platform.len text ≤ maxControlBytes
  observed : b.env.platform.len b.plan.observedLocalStateText ≤ maxControlBytes
  proposed : b.env.platform.len b.plan.proposedLocalStateText ≤ maxControlBytes

variable (b) in
/-- The storage fails a commit only where a journal does not fit or a file is not ready. -/
def Refused (e : AtomicApplyBatchTransactionError) (s : BatchStore τ C R) : Prop :=
  e = storageFailed → ¬ b.Within s ∨ ¬ b.Ready

variable (b) in
/-- The journal of a commit is in place and says exactly how far each item has come. -/
structure Standing (phase : AtomicApplyBatchPhase)
    (progress : Nat → AtomicApplyItem C → ParticipantProgress) (files : Slots τ)
    (cursor : AtomicApplyBatchJournalCursor τ H R A) (s : BatchStore τ C R) : Prop where
  settled : b.At cursor s
  phase : cursor.journal.phase = phase
  state : s.state = files
  entry : ∀ i item p, b.plan.items[i]? = some item → cursor.journal.participants[i]? = some p →
    p.progress = progress i item
  waiting : ∀ i item, b.plan.items[i]? = some item → progress i item = .unstaged →
    (s.targets i).staging = (b.start.targets i).staging
  staged : ∀ i item, b.plan.items[i]? = some item → item.disposition ≠ .noOp →
    progress i item = .prepared ∨ progress i item = .quarantined →
    (s.targets i).staging = item.new

omit [DecidableEq τ] [DecidableEq C] [DecidableEq R] [DecidableEq A] in
theorem Standing.hasEntry (h : b.Standing phase progress files cursor s)
    (hi : b.plan.items[i]? = some item) :
    ∃ p, b.Entry cursor s i item p ∧ p.progress = progress i item := by
  obtain ⟨p, hp⟩ := h.settled.hasEntry hi
  exact ⟨p, hp, h.entry i item p hi hp.entry⟩

omit [DecidableEq τ] [DecidableEq C] [DecidableEq R] [DecidableEq A] in
theorem Standing.congr {progress' : Nat → AtomicApplyItem C → ParticipantProgress}
    (h : b.Standing phase progress files cursor s)
    (he : ∀ j item, b.plan.items[j]? = some item → progress j item = progress' j item) :
    b.Standing phase progress' files cursor s := by
  refine ⟨h.settled, h.phase, h.state, fun j item p hj hp => ?_, fun j item hj hw => ?_,
    fun j item hj hn hs => ?_⟩
  · rw [← he j item hj, h.entry j item p hj hp]
  · exact h.waiting j item hj ((he j item hj).trans hw)
  · exact h.staged j item hj hn (by rwa [he j item hj])

omit [DecidableEq τ] [DecidableEq C] [DecidableEq R] [DecidableEq A] in
theorem Standing.set_target (h : b.Standing phase progress files cursor s)
    (hi : b.plan.items[i]? = some item) {paths : Slots C}
    (hs : SlotsConsistent item (progress i item) paths) (hw : progress i item ≠ .unstaged)
    (hstaged : item.disposition ≠ .noOp →
      progress i item = .prepared ∨ progress i item = .quarantined → paths.staging = item.new) :
    b.Standing phase progress files cursor ((BatchStore.targetFiles i).set paths s) := by
  obtain ⟨p, hp, hprogress⟩ := h.hasEntry hi
  rw [← hprogress] at hs
  refine ⟨(hp.set_target hs).settled, h.phase, h.state, h.entry, fun j other hj hwait => ?_,
    fun j other hj hn hdone => ?_⟩
  · by_cases hne : j = i
    · subst hne
      rw [hi, Option.some.injEq] at hj
      exact absurd (hj ▸ hwait) hw
    · rw [BatchStore.targetFiles_set_ne hne]
      exact h.waiting j other hj hwait
  · by_cases hne : j = i
    · subst hne
      rw [hi, Option.some.injEq] at hj
      subst hj
      rw [BatchStore.targetFiles_set_self]
      exact hstaged hn hdone
    · rw [BatchStore.targetFiles_set_ne hne]
      exact h.staged j other hj hn hdone

/-- A step on item `i` records its progress and keeps every other item where it is. -/
abbrev ItemUpholds (b : PreparedBatch τ C H R A) (phase : AtomicApplyBatchPhase)
    (progress : Nat → AtomicApplyItem C → ParticipantProgress) (files : Slots τ) (i : Nat)
    (next : ParticipantProgress)
    (m : BatchProgram τ C R (AtomicApplyBatchJournalCursor τ H R A)) (s : BatchStore τ C R) :
    Prop :=
  m.Upholds (fun _ t => b.Recoverable t)
    (fun after t => b.Standing phase (Function.update progress i fun _ => next) files after t)
    b.Refused s

theorem Standing.record (h : b.Standing phase progress files cursor s)
    (hi : b.plan.items[i]? = some item)
    (hv : validParticipantTransition phase item.disposition (progress i item) next = true)
    (ha : PhaseAllows phase item.disposition next)
    (hs : SlotsConsistent item next (s.targets i)) (hw : next ≠ .unstaged)
    (hstaged : item.disposition ≠ .noOp → next = .prepared ∨ next = .quarantined →
      (s.targets i).staging = item.new) :
    (cursor.transitionParticipant b.env i next).Upholds (fun _ t => b.Recoverable t)
      (fun after t => b.Standing phase (Function.update progress i fun _ => next) files after t ∧
        t.targets = s.targets) b.Refused s := by
  obtain ⟨p, hp, hprogress⟩ := h.hasEntry hi
  rw [← h.phase, ← hprogress] at hv
  rw [← h.phase] at ha
  refine transitionParticipant_upholds hp (fun _ => ⟨ha, hs⟩) ?_ ?_
  · intro after t _ hentry hstate htargets hj
    have hothers : ∀ j, j ≠ i →
        after.journal.participants[j]? = cursor.journal.participants[j]? := by
      intro j hne
      rw [hj, List.getElem?_set_ne (Ne.symm hne)]
    refine ⟨⟨hentry.settled, ?_, hstate.trans h.state, ?_, ?_, ?_⟩, htargets⟩
    · rw [hj]
      exact h.phase
    · intro j other q hother hq
      by_cases hne : j = i
      · subst hne
        rw [hentry.entry, Option.some.injEq] at hq
        rw [← hq, Function.update_self]
      · rw [Function.update_of_ne hne]
        rw [hothers j hne] at hq
        exact h.entry j other q hother hq
    · intro j other hother hwait
      rw [htargets]
      by_cases hne : j = i
      · subst hne
        rw [Function.update_self] at hwait
        exact absurd hwait hw
      · rw [Function.update_of_ne hne] at hwait
        exact h.waiting j other hother hwait
    · intro j other hother hn hdone
      rw [htargets]
      by_cases hne : j = i
      · subst hne
        rw [Function.update_self] at hdone
        rw [hi, Option.some.injEq] at hother
        subst hother
        exact hstaged hn hdone
      · rw [Function.update_of_ne hne] at hdone
        exact h.staged j other hother hn hdone
  · exact fun _ hno _ => .inl (hno hv)

/-- Recording the last step of an item ends it. -/
theorem Standing.finish {between : ParticipantProgress}
    (h : b.Standing phase (Function.update progress i fun _ => between) files cursor s)
    (hi : b.plan.items[i]? = some item)
    (hv : validParticipantTransition phase item.disposition between next = true)
    (ha : PhaseAllows phase item.disposition next)
    (hs : SlotsConsistent item next (s.targets i)) (hw : next ≠ .unstaged)
    (hstaged : item.disposition ≠ .noOp → next = .prepared ∨ next = .quarantined →
      (s.targets i).staging = item.new) :
    b.ItemUpholds phase progress files i next (cursor.transitionParticipant b.env i next) s := by
  refine (h.record hi (by rwa [Function.update_self]) ha hs hw hstaged).mono (fun _ _ => id) ?_
    (fun _ _ => id)
  rintro after t ⟨hafter, -⟩
  rwa [Function.update_idem] at hafter

omit [DecidableEq τ] in
theorem stageTarget_upholds {Q : Unit → BatchStore τ C R → Prop} {p : BatchParticipantJournal H}
    (h : b.Entry cursor s i item p) (hp : p.progress = .stagingPending)
    (hstart : (s.targets i).staging = (b.start.targets i).staging)
    (hQ : ∀ paths : Slots C, SlotsConsistent item .prepared paths → paths.staging = item.new →
      Q () ((BatchStore.targetFiles i).set paths s)) :
    (stageTarget b.env item i).Upholds (fun _ t => b.Recoverable t) Q b.Refused s := by
  obtain ⟨hdisplaced, hremove⟩ := hp ▸ h.slots
  have hbefore : s.targets i = ⟨(s.targets i).destination, (b.start.targets i).staging,
    (s.targets i).backup⟩ := Slots.ext rfl hstart rfl
  unfold stageTarget
  split
  · rename_i hm
    have hr : item.disposition ≠ .remove := by
      simpa [StoredDisposition.materializesTarget] using hm
    cases hnew : newIdentity b.env item with
    | error e =>
      obtain ⟨content, hrendered, hhash⟩ := h.describes.new hr
      simp only [newIdentity, hrendered, hhash] at hnew
      cases hk : item.kind.target <;> simp [hk] at hnew
    | ok identity =>
      obtain ⟨content, hrendered, hnames⟩ := newIdentity_names hnew
      have hcontent : item.new = some content := (if_neg hr).trans hrendered
      simp only [Program.bind_upholds, Program.ofExcept_ok_upholds, hrendered]
      refine onTarget_upholds h ?_
      rw [hp, hbefore]
      have hstage : (ApplyTarget.stage b.env.view content identity).Upholds
            (fun _ u => SlotsConsistent item .stagingPending u)
            (fun a u => Q a ((BatchStore.targetFiles i).set u s)) (fun _ _ => True)
            ⟨(s.targets i).destination, (b.start.targets i).staging, (s.targets i).backup⟩ := by
        refine ApplyTarget.stage_upholds hnames (fun _ => ⟨hdisplaced, fun hd => absurd hd hr⟩) ?_
          (fun _ _ => trivial)
        exact hQ _ ⟨hdisplaced, .inr hcontent.symm⟩ hcontent.symm
      by_cases hready : b.Ready
      · obtain ⟨done, hdone⟩ := hready.target i item h.planned content identity hrendered hnew
          (s.targets i).destination (s.targets i).backup
        exact hstage.of_returned hdone
      · exact hstage.mono (fun _ _ => id) (fun _ _ => id) fun _ _ _ _ => .inr hready
  · rename_i hm
    have hr : item.disposition = .remove := by
      simpa [StoredDisposition.materializesTarget] using hm
    have hsame : (BatchStore.targetFiles i).set (s.targets i) s = s := Lens.set_get ..
    have hnone : (s.targets i).staging = item.new := (hremove hr).trans (if_pos hr).symm
    have hdone := hQ (s.targets i) ⟨hdisplaced, .inl (hremove hr)⟩ hnone
    rw [hsame] at hdone
    exact Program.pure_upholds.mpr hdone

theorem stageItem_upholds (h : b.Standing .preparing progress files cursor s)
    (hi : b.plan.items[i]? = some item) (hp : progress i item = .unstaged) :
    b.ItemUpholds .preparing progress files i .prepared (stageItem b.env cursor (item, i)) s := by
  obtain ⟨p, hentry, hprogress⟩ := h.hasEntry hi
  have hslots := hentry.slots
  rw [hprogress, hp] at hslots
  simp only [ItemUpholds, stageItem, Program.bind_upholds]
  have hvalid : validParticipantTransition .preparing item.disposition (progress i item)
      .stagingPending = true := by
    rw [hp]
    rfl
  refine (h.record hi hvalid (by simp [PhaseAllows]) hslots (by decide) (by simp)).mono
    (fun _ _ => id) ?_ (fun _ _ => id)
  rintro pending t ⟨hpending, htargets⟩
  obtain ⟨q, hq, hqprogress⟩ := hpending.hasEntry hi
  rw [Function.update_self] at hqprogress
  have hstart := h.waiting i item hi hp
  rw [← htargets] at hstart
  refine stageTarget_upholds hq hqprogress hstart fun paths hpaths hstaged => ?_
  have hbetween : SlotsConsistent item .stagingPending paths := by
    refine ⟨hpaths.1, fun hd => ?_⟩
    rw [hstaged]
    exact if_pos hd
  refine (hpending.set_target hi (by rwa [Function.update_self]) (by simp) (by simp)).finish hi rfl
    (by simp [PhaseAllows]) ?_ (by decide) fun _ _ => ?_
  · rwa [BatchStore.targetFiles_set_self]
  · rwa [BatchStore.targetFiles_set_self]

/-- The progress of an item whose old target no longer stands in the way. -/
def displacedProgress (item : AtomicApplyItem C) : ParticipantProgress :=
  if item.disposition.requiresQuarantine then .quarantined else .prepared

theorem quarantineItem_upholds (h : b.Standing .quarantiningOldTargets progress files cursor s)
    (hi : b.plan.items[i]? = some item) (hp : progress i item = .prepared) :
    b.ItemUpholds .quarantiningOldTargets progress files i (displacedProgress item)
      (quarantineItem b.env cursor (item, i)) s := by
  obtain ⟨p, hentry, hprogress⟩ := h.hasEntry hi
  have hslots := hentry.slots
  rw [hprogress, hp] at hslots
  simp only [ItemUpholds, quarantineItem, displacedProgress]
  by_cases hq : item.disposition.requiresQuarantine = true
  · obtain ⟨content, hash, hobserved, -⟩ := hentry.describes.quarantined hq
    have hreadable := hentry.describes.old_readable content hobserved
    simp only [hq, if_true, Program.bind_upholds]
    have hvalid : validParticipantTransition .quarantiningOldTargets item.disposition
        (progress i item) .quarantinePending = true := by
      rw [hp]
      simpa [validParticipantTransition]
    refine (h.record hi hvalid (by simp [PhaseAllows, hq]) ⟨.inl hslots.1, hslots.2⟩ (by decide) (by simp)).mono
      (fun _ _ => id) ?_ (fun _ _ => id)
    rintro pending t ⟨hpending, htargets⟩
    obtain ⟨q, hentry', hqprogress⟩ := hpending.hasEntry hi
    rw [Function.update_self] at hqprogress
    have hstaged : item.disposition ≠ .noOp → (t.targets i).staging = item.new := by
      rw [htargets]
      exact fun hn => h.staged i item hi hn (.inl hp)
    rw [← htargets] at hslots
    have hfiles : t.targets i = ⟨some content, (t.targets i).staging, none⟩ :=
      Slots.ext (hslots.1.1.trans hobserved) rfl hslots.1.2
    simp only [Program.inspect_upholds]
    cases hold : oldIdentity b.env item staleTarget (t.targets i).destination with
    | error e =>
      refine Program.ofExcept_error_upholds.mpr fun he => ?_
      rw [oldIdentity_error hold] at he
      exact absurd he (by decide)
    | ok identity =>
      obtain ⟨content', hobserved', hnames⟩ := oldIdentity_names hold
      rw [hobserved, Option.some.injEq] at hobserved'
      subst hobserved'
      simp only [Program.ofExcept_ok_upholds]
      refine onTarget_upholds hentry' ?_
      rw [hfiles, ApplyTarget.quarantine_upholds hnames hreadable, hqprogress]
      have hmoved : SlotsConsistent item .quarantinePending
          ⟨none, (t.targets i).staging, some content⟩ :=
        ⟨.inr ⟨rfl, hobserved.symm⟩, hslots.2⟩
      refine ⟨hmoved, ?_⟩
      refine (hpending.set_target hi (by rwa [Function.update_self]) (by simp) (by simp)).finish hi
        (by simpa [validParticipantTransition]) (by simp [PhaseAllows, hq]) ?_ (by decide)
        fun hn _ => ?_
      · rw [BatchStore.targetFiles_set_self]
        exact ⟨⟨rfl, hobserved.symm⟩, hslots.2⟩
      · rw [BatchStore.targetFiles_set_self]
        exact hstaged hn
  · simp only [hq]
    refine Program.pure_upholds.mpr (h.congr fun j other hj => ?_)
    by_cases hne : j = i
    · subst hne
      rw [hi, Option.some.injEq] at hj
      rw [Function.update_self, ← hj, hp]
      simp
    · rw [Function.update_of_ne hne]

omit [DecidableEq τ] [DecidableEq C] [DecidableEq R] [DecidableEq A] in
/-- The destination of an item to install is free, its old content in the backup. -/
theorem Entry.displaced {p : BatchParticipantJournal H} (h : b.Entry cursor s i item p)
    (hold : p.progress = displacedProgress item) (hn : item.disposition ≠ .noOp) :
    (s.targets i).destination = none ∧ (s.targets i).backup = item.held := by
  have hslots := h.slots
  rw [h.describes.held_eq hn]
  rw [hold, displacedProgress] at hslots
  by_cases hq : item.disposition.requiresQuarantine = true
  · rw [if_pos hq] at hslots
    exact hslots.1
  · rw [if_neg hq] at hslots
    have hobserved : item.observed = none := by
      apply h.describes.install_observed
      cases hd : item.disposition <;>
        simp [StoredDisposition.requiresQuarantine, hd] at hq hn ⊢
    exact ⟨hslots.1.1.trans hobserved, hslots.1.2.trans hobserved.symm⟩

omit [DecidableEq C] in
theorem displacedProgress_staged :
    displacedProgress item = .prepared ∨ displacedProgress item = .quarantined := by
  unfold displacedProgress
  split
  · exact .inr rfl
  · exact .inl rfl

/-- An item whose new content is in place is recorded as committed. -/
theorem Standing.commit {between : ParticipantProgress}
    (h : b.Standing .committingNewTargets (Function.update progress i fun _ => between) files cursor
      s)
    (hi : b.plan.items[i]? = some item)
    (hv : validParticipantTransition .committingNewTargets item.disposition between .committed =
      true)
    (hdestination : (s.targets i).destination = item.new)
    (hbackup : (s.targets i).backup = item.held) (hstaged : Staged item (s.targets i).staging) :
    b.ItemUpholds .committingNewTargets progress files i .committed
      (cursor.transitionParticipant b.env i .committed) s :=
  h.finish hi hv (.inl rfl) ⟨⟨hdestination, hbackup⟩, hstaged⟩ (by decide) (by simp)

theorem keepItem_upholds (h : b.Standing .committingNewTargets progress files cursor s)
    (hi : b.plan.items[i]? = some item) (hp : progress i item = displacedProgress item)
    (hn : item.disposition = .noOp) :
    b.ItemUpholds .committingNewTargets progress files i .committed (do
      let identity ← Program.ofExcept (newIdentity b.env item)
      onTarget i storageFailed (ApplyTarget.clearStaging b.env.view identity)
      cursor.transitionParticipant b.env i .committed) s := by
  have hprepared : displacedProgress item = .prepared :=
    if_neg (by simp [hn, StoredDisposition.requiresQuarantine])
  rw [hprepared] at hp
  obtain ⟨p, hentry, hprogress⟩ := h.hasEntry hi
  have hslots := hentry.slots
  rw [hprogress, hp] at hslots
  have hkept : item.observed = item.new :=
    hentry.describes.noOp_new hn (b.noOp_content item (List.mem_of_getElem? hi))
  have hheld : item.held = none :=
    if_neg (by simp [hn, StoredDisposition.requiresQuarantine])
  simp only [ItemUpholds, Program.bind_upholds]
  cases hnew : newIdentity b.env item with
  | error e =>
    refine Program.ofExcept_error_upholds.mpr fun he => ?_
    rw [newIdentity_error hnew] at he
    exact absurd he (by decide)
  | ok identity =>
    obtain ⟨content, hrendered, hnames⟩ := newIdentity_names hnew
    have hcontent : item.new = some content := (if_neg (by simp [hn])).trans hrendered
    have hclear : SlotsConsistent item (progress i item)
        { s.targets i with staging := none } := by
      rw [hp]
      exact hslots.clear_staging
    rw [Program.ofExcept_ok_upholds]
    refine onTarget_upholds hentry ?_
    rw [hprogress]
    refine ApplyTarget.clearStaging_upholds hclear (by rwa [hp]) (fun _ => ?_) ?_
    · refine (h.set_target hi hclear (by simp [hp]) fun hne => absurd hn hne).record hi
        (by rw [hp, hn]; rfl) (.inl rfl) ?_ (by decide) (by simp) |>.mono (fun _ _ => id)
        (fun _ _ => And.left) (fun _ _ => id)
      rw [BatchStore.targetFiles_set_self]
      exact ⟨⟨hslots.1.1.trans hkept, hslots.1.2.trans hheld.symm⟩, .inl rfl⟩
    · rintro e ⟨c, hc, hno⟩
      rcases hslots.2 with hstaging | hstaging <;> rw [hstaging] at hc
      · contradiction
      · rw [hcontent, Option.mem_some_iff] at hc
        exact absurd (hc ▸ hnames) hno

theorem installItem_upholds (h : b.Standing .committingNewTargets progress files cursor s)
    (hi : b.plan.items[i]? = some item) (hp : progress i item = displacedProgress item) :
    b.ItemUpholds .committingNewTargets progress files i .committed
      (installItem b.env cursor (item, i)) s := by
  by_cases hn : item.disposition = .noOp
  · unfold installItem
    dsimp only
    rw [if_neg (by simp [hn]), if_pos hn]
    exact keepItem_upholds h hi hp hn
  obtain ⟨p, hentry, hprogress⟩ := h.hasEntry hi
  rw [hp] at hprogress
  have hstaged : (s.targets i).staging = item.new := by
    refine h.staged i item hi hn ?_
    rw [hp]
    exact displacedProgress_staged
  obtain ⟨hdestination, hbackup⟩ := hentry.displaced hprogress hn
  -- the commit is announced before the destination is touched
  have hpending : ∀ Q : AtomicApplyBatchJournalCursor τ H R A → BatchStore τ C R → Prop,
      (∀ pending t, b.Standing .committingNewTargets
        (Function.update progress i fun _ => .commitPending) files pending t →
        t.targets = s.targets → Q pending t) →
      (cursor.transitionParticipant b.env i .commitPending).Upholds (fun _ t => b.Recoverable t) Q
        b.Refused s := by
    intro Q hQ
    have hslots : SlotsConsistent item .commitPending (s.targets i) :=
      ⟨⟨.inl hdestination, hbackup⟩, .inr hstaged⟩
    refine (h.record hi ?_ (by simp [PhaseAllows, hn]) hslots (by decide) (by simp)).mono (fun _ _ => id) (fun after t ht => hQ after t ht.1 ht.2)
      (fun _ _ => id)
    rw [hp]
    rcases @displacedProgress_staged _ item with hd | hd <;> rw [hd] <;> rfl
  unfold installItem
  dsimp only
  by_cases hr : item.disposition = .remove
  · have hnew : item.new = none := if_pos hr
    rw [if_pos hr]
    simp only [ItemUpholds, Program.bind_upholds]
    refine hpending _ fun pending t ht htargets => ?_
    refine ht.commit hi rfl ?_ ?_ (.inr ?_) <;> rw [htargets]
    · rw [hdestination, hnew]
    · exact hbackup
    · exact hstaged
  rw [if_neg hr, if_neg hn]
  simp only [ItemUpholds, Program.bind_upholds]
  cases hnew : newIdentity b.env item with
  | error e =>
    refine Program.ofExcept_error_upholds.mpr fun he => ?_
    rw [newIdentity_error hnew] at he
    exact absurd he (by decide)
  | ok identity =>
    obtain ⟨content, hrendered, hnames⟩ := newIdentity_names hnew
    have hcontent : item.new = some content := (if_neg hr).trans hrendered
    have hreadable : (b.env.view.hash content).isSome = true := by
      rw [hentry.describes.readable_new content hcontent]
      rfl
    rw [Program.ofExcept_ok_upholds]
    refine hpending _ fun pending t ht htargets => ?_
    obtain ⟨q, hq, hqprogress⟩ := ht.hasEntry hi
    rw [Function.update_self] at hqprogress
    rw [← htargets] at hdestination hbackup hstaged
    have hfiles : t.targets i = ⟨none, some content, (t.targets i).backup⟩ :=
      Slots.ext hdestination (hstaged.trans hcontent) rfl
    have hmoved : SlotsConsistent item .commitPending
        ⟨some content, none, (t.targets i).backup⟩ :=
      ⟨⟨.inr hcontent.symm, hbackup⟩, .inl rfl⟩
    refine onTarget_upholds hq ?_
    rw [hfiles, ApplyTarget.install_upholds hnames hreadable, hqprogress]
    refine ⟨hmoved, ?_⟩
    refine (ht.set_target hi (by rwa [Function.update_self]) (by simp) (by simp)).commit hi rfl ?_
      ?_ ?_ <;> rw [BatchStore.targetFiles_set_self]
    · exact hcontent.symm
    · exact hbackup
    · exact .inl rfl

omit [DecidableEq τ] [DecidableEq R] [DecidableEq A] in
theorem Standing.set_state {files' : Slots τ} (h : b.Standing phase progress files cursor s)
    (hs : StateConsistent b.plan.observedLocalStateText b.plan.proposedLocalStateText phase
      files') :
    b.Standing phase progress files' cursor (BatchStore.stateFiles.set files' s) := by
  rw [← h.phase] at hs
  exact ⟨h.settled.set_state hs, h.phase, rfl, h.entry, h.waiting, h.staged⟩

/-- Staging the new state text clears whatever an earlier attempt left staged. -/
theorem stageState_upholds (h : b.Standing .preparing progress b.start.state cursor s) :
    (onState storageFailed (resetIncompleteStagedText b.env.platform b.plan.proposedLocalStateText
        maxControlBytes) >>= fun _ =>
      onState storageFailed (stageText b.env.platform .staging b.plan.proposedLocalStateText
        maxControlBytes)).Upholds (fun _ t => b.Recoverable t)
      (fun _ t => b.Standing .preparing progress ⟨some b.plan.observedLocalStateText,
        some b.plan.proposedLocalStateText, none⟩ cursor t) b.Refused s := by
  have hfiles : ∀ staging, StateConsistent b.plan.observedLocalStateText
      b.plan.proposedLocalStateText .preparing
      ⟨some b.plan.observedLocalStateText, staging, none⟩ := fun _ => ⟨rfl, rfl⟩
  have hstate : s.state = ⟨some b.plan.observedLocalStateText, b.start.state.staging, none⟩ := by
    rw [h.state]
    exact Slots.ext b.start_state.1 rfl b.start_state.2
  rw [Program.bind_upholds]
  refine onState_upholds h.settled ?_
  rw [hstate, h.phase]
  refine (resetIncompleteStagedText_upholds hfiles).mono (fun _ _ => id) ?_ ?_
  · intro _ u hu
    have hat : ∀ staging, b.Standing .preparing progress
        ⟨some b.plan.observedLocalStateText, staging, none⟩ cursor
        (BatchStore.stateFiles.set ⟨some b.plan.observedLocalStateText, staging, none⟩ s) :=
      fun staging => h.set_state (hfiles staging)
    rcases hu with rfl | rfl
    · refine onState_upholds (hat none).settled ?_
      rw [BatchStore.stateFiles_set_state, h.phase, stageText_upholds]
      exact ⟨hfiles _, (hat none).set_state (hfiles _)⟩
    · refine onState_upholds (hat _).settled ?_
      rw [BatchStore.stateFiles_set_state]
      simp only [stageText, Program.bind_upholds, readText_upholds, Slots.get_staging,
        Program.require_upholds, beq_self_eq_true, if_true]
      split
      · exact (hat _).set_state (hfiles _)
      · rename_i hlen
        exact fun _ => .inr fun hready => hlen (by simpa using hready.proposed)
  · rintro _ _ ⟨text, ht, hlen⟩ _
    exact .inr fun hready => hlen (hready.staged text ht)

theorem installState_upholds (h : b.Standing .newTargetsCommitted progress
      ⟨some b.plan.observedLocalStateText, some b.plan.proposedLocalStateText, none⟩ cursor s) :
    (onState storageFailed (installStagedTextGuarded b.env.platform
      (some b.plan.observedLocalStateText) b.plan.proposedLocalStateText
      maxControlBytes)).Upholds (fun _ t => b.Recoverable t)
      (fun _ t => b.Standing .newTargetsCommitted progress
        ⟨some b.plan.proposedLocalStateText, none, none⟩ cursor t) b.Refused s := by
  refine onState_upholds h.settled ?_
  have hdone : ∀ u : Slots τ, StateConsistent b.plan.observedLocalStateText
      b.plan.proposedLocalStateText .newTargetsCommitted u →
      b.Standing .newTargetsCommitted progress u cursor (BatchStore.stateFiles.set u s) :=
    fun u hu => h.set_state hu
  have hready : b.Ready → b.env.platform.len b.plan.observedLocalStateText ≤ maxControlBytes ∧
      b.env.platform.len b.plan.proposedLocalStateText ≤ maxControlBytes :=
    fun hready => ⟨hready.observed, hready.proposed⟩
  rw [h.state, h.phase]
  generalize b.plan.observedLocalStateText = old at hdone hready
  generalize b.plan.proposedLocalStateText = new at hdone hready
  by_cases hlen : b.env.platform.len old ≤ maxControlBytes ∧
    b.env.platform.len new ≤ maxControlBytes
  · by_cases hne : old = new
    · subst hne
      have hkept : StateConsistent old old .newTargetsCommitted ⟨some old, none, none⟩ :=
        .inl ⟨rfl, .inl rfl, rfl⟩
      rw [installStagedTextGuarded_same_upholds hlen.1]
      exact ⟨hkept, hdone _ hkept⟩
    · have hexchanged : StateConsistent old new .newTargetsCommitted ⟨some new, some old, none⟩ :=
        .inr ⟨hne, .inl rfl⟩
      have hmoved : StateConsistent old new .newTargetsCommitted ⟨none, some new, some old⟩ :=
        .inr ⟨hne, .inr (.inr (.inl rfl))⟩
      have hinstalled : StateConsistent old new .newTargetsCommitted ⟨some new, none, some old⟩ :=
        .inr ⟨hne, .inr (.inr (.inr rfl))⟩
      have hcleared : StateConsistent old new .newTargetsCommitted ⟨some new, none, none⟩ :=
        .inr ⟨hne, .inr (.inl rfl)⟩
      rw [installStagedTextGuarded_upholds hlen.1 hlen.2 hne]
      split
      · exact ⟨hexchanged, hcleared, hdone _ hcleared⟩
      · exact ⟨hmoved, hinstalled, hcleared, hdone _ hcleared⟩
  · exact (installStagedTextGuarded_unreadable hlen).mpr fun _ =>
      .inr fun hr => hlen (hready hr)

omit [DecidableEq τ] in
theorem clearVerifiedStaging_upholds (hi : b.plan.items[i]? = some item) (h : b.At cursor s)
    (hphase : cursor.journal.phase = .verified) :
    (clearVerifiedStaging b.env item i).Upholds (fun _ t => b.Recoverable t)
      (fun _ t => b.At cursor t ∧
        t = (BatchStore.targetFiles i).set { s.targets i with staging := none } s)
      b.Refused s := by
  obtain ⟨p, hp⟩ := h.hasEntry hi
  have hclear : SlotsConsistent item p.progress { s.targets i with staging := none } :=
    hp.slots.clear_staging
  have hstaged : item.disposition ≠ .remove →
      (s.targets i).staging = none ∨ (s.targets i).staging = item.rendered := by
    intro hr
    have hslots := hp.slots.2
    have hallows := hp.allows
    rw [hphase] at hallows
    rw [show p.progress = _ from hallows] at hslots
    rwa [← AtomicApplyItem.new_eq_rendered hr]
  unfold clearVerifiedStaging
  split
  · rename_i hm
    have hr : item.disposition ≠ .remove := by
      simpa [StoredDisposition.materializesTarget] using hm
    cases hnew : newIdentity b.env item with
    | error e =>
      refine Program.ofExcept_error_upholds.mpr fun he => ?_
      rw [newIdentity_error hnew] at he
      exact absurd he (by decide)
    | ok identity =>
      obtain ⟨content, hrendered, hnames⟩ := newIdentity_names hnew
      simp only [Program.bind_upholds, Program.ofExcept_ok_upholds]
      refine onTarget_upholds hp ?_
      refine ApplyTarget.clearStaging_upholds hclear hp.slots
        (fun _ => ⟨(hp.set_target hclear).settled, rfl⟩) ?_
      rintro e ⟨c, hc, hno⟩
      rcases hstaged hr with hstaging | hstaging <;> rw [hstaging] at hc
      · contradiction
      · rw [hrendered, Option.mem_some_iff] at hc
        exact absurd (hc ▸ hnames) hno
  · rename_i hm
    have hr : item.disposition = .remove := by
      simpa [StoredDisposition.materializesTarget] using hm
    have hsame : { s.targets i with staging := none } = s.targets i :=
      Slots.ext rfl (hp.slots.remove_staging hr).symm rfl
    rw [hsame, ← BatchStore.targetFiles_get, Lens.set_get]
    exact Program.pure_upholds.mpr ⟨h, rfl⟩

omit [DecidableEq τ] in
theorem removeVerifiedBackup_upholds (hi : b.plan.items[i]? = some item) (h : b.At cursor s)
    (hphase : cursor.journal.phase = .verified) :
    (removeVerifiedBackup b.env item i).Upholds (fun _ t => b.Recoverable t)
      (fun _ t => b.At cursor t ∧
        t = (BatchStore.targetFiles i).set { s.targets i with backup := none } s)
      b.Refused s := by
  obtain ⟨p, hp⟩ := h.hasEntry hi
  have hslots := hp.slots
  have hverified : p.progress = .verified := by
    have hallows := hp.allows
    rwa [hphase] at hallows
  have hclear : SlotsConsistent item p.progress { s.targets i with backup := none } := by
    rw [hverified] at hslots ⊢
    exact ⟨⟨hslots.1.1, .inl rfl⟩, hslots.2⟩
  unfold removeVerifiedBackup
  split
  · rename_i hq
    simp only [Program.bind_upholds, Program.inspect_upholds]
    cases hold : oldIdentity b.env item verificationFailed (s.targets i).backup with
    | error e =>
      refine Program.ofExcept_error_upholds.mpr fun he => ?_
      rw [oldIdentity_error hold] at he
      exact absurd he (by decide)
    | ok identity =>
      obtain ⟨content, hobserved, hnames⟩ := oldIdentity_names hold
      rw [Program.ofExcept_ok_upholds]
      refine onTarget_upholds hp ?_
      refine ApplyTarget.removeExact_upholds hclear hslots
        (fun _ => ⟨(hp.set_target hclear).settled, rfl⟩) ?_
      rintro e ⟨c, hc, hno⟩
      have hheld : item.held = some content := (if_pos hq).trans hobserved
      rw [hverified] at hslots
      rcases hslots.1.2 with hbackup | hbackup <;> rw [Slots.get_backup, hbackup] at hc
      · contradiction
      · rw [hheld, Option.mem_some_iff] at hc
        exact absurd (hc ▸ hnames) hno
  · rename_i hq
    have hheld : item.held = none := if_neg hq
    have hbackup : (s.targets i).backup = none := by
      rw [hverified] at hslots
      exact hslots.1.2.elim id fun h => h.trans hheld
    have hsame : { s.targets i with backup := none } = s.targets i :=
      Slots.ext rfl rfl hbackup.symm
    rw [hsame, ← BatchStore.targetFiles_get, Lens.set_get]
    exact Program.pure_upholds.mpr ⟨h, rfl⟩

omit [DecidableEq τ] in
theorem cleanupVerifiedBatch_upholds (h : b.At cursor s)
    (hphase : cursor.journal.phase = .verified) :
    (cleanupVerifiedBatch b.env b.plan cursor).Upholds (fun _ t => b.Recoverable t)
      (fun _ _ => True) b.Refused s := by
  simp only [cleanupVerifiedBatch, Program.bind_upholds]
  refine (Program.foldlM_zipIdx_upholds (R := fun k _ t => b.At cursor t ∧
    ∀ j < k, (t.targets j).staging = none ∧ (t.targets j).backup = none) ?_ ⟨h, by simp⟩).mono
    (fun _ _ => id) ?_ (fun _ _ => id)
  · rintro k item _ t hk ⟨ht, hswept⟩
    simp only [cleanupVerifiedItem, Program.bind_upholds]
    refine (removeVerifiedBackup_upholds hk ht hphase).mono (fun _ _ => id) ?_ (fun _ _ => id)
    rintro _ u ⟨hu, rfl⟩
    refine (clearVerifiedStaging_upholds hk hu hphase).mono (fun _ _ => id) ?_ (fun _ _ => id)
    rintro _ v ⟨hv, rfl⟩
    refine ⟨hv, fun j hj => ?_⟩
    by_cases he : j = k
    · subst he
      simp
    · simp only [BatchStore.targetFiles_set_ne he]
      exact hswept j (by omega)
  rintro _ t ⟨ht, hswept⟩
  have hc := ht.consistent.state
  rw [hphase] at hc
  have hclear : StateConsistent b.plan.observedLocalStateText b.plan.proposedLocalStateText
      cursor.journal.phase (t.state.set .staging none) := by
    rw [hphase]
    refine ⟨hc.1, .inl ⟨rfl, ?_⟩⟩
    rcases hc.2 with ⟨-, hbackup⟩ | ⟨-, hbackup⟩
    · exact hbackup
    · exact .inl hbackup
  refine onState_upholds ht (Slots.remove_upholds.mpr ⟨hclear, ?_⟩)
  have htargets : ∀ i item, b.plan.items[i]? = some item →
      (t.targets i).staging = none ∧ (t.targets i).backup = none :=
    fun i item hi => hswept i (List.getElem?_eq_some_iff.mp hi).1
  exact removeTerminal_upholds (ht.set_state hclear) ⟨htargets, rfl⟩
    (fun _ _ _ _ _ => trivial) (fun _ hno => absurd hphase hno.1)

theorem Standing.advance {next : AtomicApplyBatchPhase}
    (h : b.Standing phase progress files cursor s) (hv : validPhaseTransition phase next = true)
    (hp : ∀ i item, b.plan.items[i]? = some item →
      validProgress next item.disposition (progress i item) = true)
    (hstate : StateConsistent b.plan.observedLocalStateText b.plan.proposedLocalStateText next
      files) :
    (cursor.transitionPhase b.env next).Upholds (fun _ t => b.Recoverable t)
      (fun after t => b.Standing next progress files after t) b.Refused s := by
  rw [← h.phase] at hv
  refine transitionPhase_upholds h.settled (fun _ _ => h.state ▸ hstate) ?_ ?_
  · intro after t hat htstate htargets _ hj
    refine ⟨hat, by rw [hj], htstate.trans h.state, fun i item p hi hentry => ?_, ?_, ?_⟩
    · rw [hj] at hentry
      exact h.entry i item p hi hentry
    · rw [htargets]
      exact h.waiting
    · rw [htargets]
      exact h.staged
  · refine fun _ hno _ => .inl (hno hv fun p hmem => ?_)
    obtain ⟨i, hi⟩ := List.mem_iff_getElem?.mp hmem
    obtain ⟨item, hitem⟩ := h.settled.consistent.owns.hasItem hi
    have hdescribes := h.settled.consistent.owns.describes hi hitem
    rw [h.entry i item p hitem hi, hdescribes.disposition]
    exact hp i item hitem

/-- A loop over the items takes each of them one step further. -/
theorem items_upholds {before : AtomicApplyItem C → ParticipantProgress}
    (after : AtomicApplyItem C → ParticipantProgress)
    {f : AtomicApplyBatchJournalCursor τ H R A → AtomicApplyItem C × Nat →
      BatchProgram τ C R (AtomicApplyBatchJournalCursor τ H R A)}
    (hf : ∀ (k : Nat) (item : AtomicApplyItem C) progress
      (cursor : AtomicApplyBatchJournalCursor τ H R A) (t : BatchStore τ C R),
      b.Standing phase progress files cursor t → b.plan.items[k]? = some item →
      progress k item = before item →
      b.ItemUpholds phase progress files k (after item) (f cursor (item, k)) t)
    (h : b.Standing phase (fun _ => before) files cursor s) :
    (b.plan.items.zipIdx.foldlM f cursor).Upholds (fun _ t => b.Recoverable t)
      (fun cursor t => b.Standing phase (fun _ => after) files cursor t) b.Refused s := by
  refine (Program.foldlM_zipIdx_upholds
    (R := fun k cursor t => b.Standing phase
      (fun j item => if j < k then after item else before item) files cursor t) ?_ ?_).mono
    (fun _ _ => id) ?_ (fun _ _ => id)
  · intro k item cursor t hk ht
    refine (hf k item _ cursor t ht hk (if_neg (lt_irrefl k))).mono (fun _ _ => id) ?_
      (fun _ _ => id)
    intro next u hu
    refine hu.congr fun j other hj => ?_
    by_cases hne : j = k
    · subst hne
      rw [hk, Option.some.injEq] at hj
      rw [Function.update_self, if_pos (by omega), hj]
    · have hlt : j < k ↔ j < k + 1 := by omega
      simp only [Function.update_of_ne hne, hlt]
  · exact h.congr fun j item _ => (if_neg (Nat.not_lt_zero j)).symm
  · intro cursor t ht
    exact ht.congr fun j item hj => if_pos (List.getElem?_eq_some_iff.mp hj).1

/-- The commit once the machine state is to be replaced. -/
theorem commitState_upholds (h : b.Standing .newTargetsCommitted (fun _ _ => .committed)
      ⟨some b.plan.observedLocalStateText, some b.plan.proposedLocalStateText, none⟩ cursor s) :
    (onState storageFailed (installStagedTextGuarded b.env.platform
        (some b.plan.observedLocalStateText) b.plan.proposedLocalStateText maxControlBytes) >>=
      fun _ => cursor.transitionPhase b.env .stateCommitted >>= fun cursor =>
      Program.inspect (fun s => b.env.verifyBatch b.plan s) >>= fun verified =>
      Program.require verified verificationFailed >>= fun _ =>
      b.plan.items.zipIdx.foldlM
        (fun cursor item => cursor.transitionParticipant b.env item.2 .verified) cursor >>=
      fun cursor => cursor.transitionPhase b.env .verified >>= fun cursor =>
      cleanupVerifiedBatch b.env b.plan cursor).Upholds (fun _ t => b.Recoverable t)
      (fun _ _ => True) b.Refused s := by
  have hstate : StateConsistent b.plan.observedLocalStateText b.plan.proposedLocalStateText
      .stateCommitted ⟨some b.plan.proposedLocalStateText, none, none⟩ :=
    ⟨rfl, .inl ⟨rfl, .inl rfl⟩⟩
  rw [Program.bind_upholds]
  refine (installState_upholds h).mono (fun _ _ => id) ?_ (fun _ _ => id)
  intro _ s₁ h₁
  rw [Program.bind_upholds]
  refine (h₁.advance rfl (fun _ _ _ => rfl) hstate).mono (fun _ _ => id) ?_ (fun _ _ => id)
  intro committed s₂ h₂
  rw [Program.bind_upholds, Program.inspect_upholds, Program.bind_upholds,
    Program.require_upholds]
  split
  swap
  · exact fun he => absurd he (by decide)
  rw [Program.bind_upholds]
  refine (items_upholds (fun _ => .verified) (fun k item progress cursor t ht hk hp => ?_)
    h₂).mono (fun _ _ => id) ?_ (fun _ _ => id)
  · obtain ⟨p, hentry, hprogress⟩ := ht.hasEntry hk
    have hslots := hentry.slots
    rw [hprogress, hp] at hslots
    refine (ht.record hk (by rw [hp]; rfl) (.inr rfl) ⟨⟨hslots.1.1, .inr hslots.1.2⟩, hslots.2⟩
      (by decide) (by simp)).mono (fun _ _ => id) (fun _ _ => And.left) (fun _ _ => id)
  intro checked s₃ h₃
  rw [Program.bind_upholds]
  have hdone : StateConsistent b.plan.observedLocalStateText b.plan.proposedLocalStateText
      .verified ⟨some b.plan.proposedLocalStateText, none, none⟩ := hstate
  refine (h₃.advance rfl (fun _ _ _ => rfl) hdone).mono (fun _ _ => id) ?_ (fun _ _ => id)
  intro verified s₄ h₄
  exact cleanupVerifiedBatch_upholds h₄.settled h₄.phase

omit [DecidableEq τ] [DecidableEq C] [DecidableEq R] [DecidableEq A] in
/-- Where the items of a batch stand when its journal is first written. -/
theorem Standing.initial (h : b.At cursor s) (hj : cursor.journal = b.journal)
    (hstate : s.state = b.start.state) (htargets : s.targets = b.start.targets) :
    b.Standing .preparing (fun _ _ => .unstaged) b.start.state cursor s := by
  refine ⟨h, by rw [hj, b.initial_valid.2.2.1], hstate, fun i item p hi hp => ?_,
    fun i item _ _ => by rw [htargets], fun i item _ _ hs => by simp at hs⟩
  rw [hj] at hp
  obtain ⟨hlt, hpe⟩ := List.getElem?_eq_some_iff.mp hp
  obtain ⟨hlt', -⟩ := List.getElem?_eq_some_iff.mp hi
  have hget := (b.initial_valid.2.1.get hlt' hlt).2
  rwa [List.get_eq_getElem, hpe] at hget

/-- Wherever a commit of a prepared batch stops, its files are recoverable; and nothing but
a journal over its limit, a file that is not ready or a failed check stops it. -/
theorem commitLockedBatch_upholds (b : PreparedBatch τ C H R A) :
    (commitLockedBatch b.env b.plan).Upholds (fun _ t => b.Recoverable t)
      (fun _ _ => True) b.Refused b.start := by
  have hstaged : ∀ phase, phase = .prepared ∨ phase = .quarantiningOldTargets ∨
      phase = .oldTargetsQuarantined ∨ phase = .committingNewTargets ∨
      phase = .newTargetsCommitted → StateConsistent b.plan.observedLocalStateText
        b.plan.proposedLocalStateText phase ⟨some b.plan.observedLocalStateText,
          some b.plan.proposedLocalStateText, none⟩ := by
    rintro _ (rfl | rfl | rfl | rfl | rfl)
    · exact ⟨rfl, .inr rfl, rfl⟩
    · exact ⟨rfl, .inr rfl, rfl⟩
    · exact ⟨rfl, .inr rfl, rfl⟩
    · exact ⟨rfl, .inr rfl, rfl⟩
    · exact .inl ⟨rfl, .inr rfl, rfl⟩
  unfold commitLockedBatch
  rw [Program.bind_upholds]
  refine install_upholds ?_ fun _ hno _ => .inl hno
  intro cursor s₁ hat hj hstate htargets
  have h₁ := Standing.initial hat hj hstate htargets
  rw [Program.bind_upholds]
  refine (items_upholds (fun _ => .prepared)
    (fun _ _ _ _ _ => stageItem_upholds) h₁).mono (fun _ _ => id) ?_ (fun _ _ => id)
  intro staged s₂ h₂
  have hstage := stageState_upholds h₂
  rw [Program.bind_upholds] at hstage
  rw [Program.bind_upholds]
  refine hstage.mono (fun _ _ => id) ?_ (fun _ _ => id)
  intro _ s₃ h₃
  rw [Program.bind_upholds]
  refine h₃.mono (fun _ _ => id) ?_ (fun _ _ => id)
  intro _ s₄ h₄
  rw [Program.bind_upholds]
  refine (h₄.advance rfl (fun _ _ _ => rfl) (hstaged _ (by simp))).mono (fun _ _ => id) ?_
    (fun _ _ => id)
  intro prepared s₅ h₅
  rw [Program.bind_upholds, Program.inspect_upholds, Program.bind_upholds,
    Program.require_upholds]
  split
  swap
  · exact fun he => absurd he (by decide)
  rw [Program.bind_upholds]
  refine (h₅.advance rfl (fun _ _ _ => rfl) (hstaged _ (by simp))).mono (fun _ _ => id) ?_
    (fun _ _ => id)
  intro quarantining s₆ h₆
  rw [Program.bind_upholds]
  refine (items_upholds displacedProgress
    (fun _ _ _ _ _ => quarantineItem_upholds) h₆).mono (fun _ _ => id) ?_ (fun _ _ => id)
  intro quarantined s₇ h₇
  rw [Program.bind_upholds]
  refine (h₇.advance rfl (fun _ item _ => ?_) (hstaged _ (by simp))).mono (fun _ _ => id) ?_
    (fun _ _ => id)
  · unfold displacedProgress
    split
    · rename_i hq
      exact hq
    · rename_i hq
      simpa [validProgress] using hq
  intro displaced s₈ h₈
  rw [Program.bind_upholds]
  refine (h₈.advance rfl (fun _ item _ => ?_) (hstaged _ (by simp))).mono (fun _ _ => id) ?_
    (fun _ _ => id)
  · rcases @displacedProgress_staged _ item with hd | hd <;> rw [hd] <;> rfl
  intro committing s₉ h₉
  rw [Program.bind_upholds]
  refine (items_upholds (fun _ => .committed)
    (fun _ _ _ _ _ => installItem_upholds) h₉).mono (fun _ _ => id) ?_ (fun _ _ => id)
  intro installed s₁₀ h₁₀
  rw [Program.bind_upholds]
  refine (h₁₀.advance rfl (fun _ _ _ => rfl) (hstaged _ (by simp))).mono (fun _ _ => id) ?_
    (fun _ _ => id)
  intro ready s₁₁ h₁₁
  exact commitState_upholds h₁₁

end PreparedBatch

end Kitrove
