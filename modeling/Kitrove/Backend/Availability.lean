import Kitrove.Backend.Selection

/-! When publishing an intent over the head it was prepared on succeeds. -/

namespace Kitrove

open Crash Except BackendError

section Objects

variable (decode : ObjectDecoder) (stage : PortablePath) (limits : SyncLimits)

/-- Whether an object can be staged and installed: it is a valid one of its kind, and both of
its roots hold it already or hold nothing. -/
structure ObjectRoom (objects : Objects) (object : VerifiedObjectEnvelope)
    (staging destination : PortablePath) : Prop where
  destinationPath : remoteObjectPath object.descriptor = .ok destination
  stagingPath : joined stage object.descriptor.root.bytes = .ok staging
  outside : ¬ InStaging destination
  verified : decode object.descriptor.kind (captureLimits limits) object.files =
    some object.descriptor.objectHash
  staging : Objects.Usable decode objects staging (captureLimits limits)
    object.descriptor.objectHash object.descriptor.kind
  destination : Objects.Usable decode objects destination (captureLimits limits)
    object.descriptor.objectHash object.descriptor.kind

/-- Whether all the objects of a publication can be installed, each at roots of its own. -/
structure ObjectsRoom (store : Objects) (objects : List VerifiedObjectEnvelope) : Prop where
  room : ∀ object ∈ objects, ∃ staging destination,
    ObjectRoom decode stage limits store object staging destination
  roots : ∀ object ∈ objects, ∀ other ∈ objects,
    object.descriptor.root = other.descriptor.root → object = other

variable {decode} {stage} {limits} {objects : List VerifiedObjectEnvelope} {store : RemoteStore}
  {object : VerifiedObjectEnvelope}

theorem remoteObjectPath_inj {left right : ObjectDescriptor} {path : PortablePath}
    (h : remoteObjectPath left = .ok path) (h' : remoteObjectPath right = .ok path) :
    left.root = right.root := by
  have hbytes := portable_eq_ok.mp h
  rw [portable_eq_ok.mp h', List.append_cancel_left_eq] at hbytes
  exact Name.ext_bytes hbytes.symm

theorem joined_inj {left right path : PortablePath} (h : joined stage left.bytes = .ok path)
    (h' : joined stage right.bytes = .ok path) : left = right := by
  have hbytes := joined_bytes h
  rw [joined_bytes h', List.append_cancel_left_eq] at hbytes
  exact Name.ext_bytes hbytes.symm

/-- Staging and installing one object leaves room for all of them. -/
theorem publishObject_succeeds (hstage : InStaging stage) (hmem : object ∈ objects)
    (h : ObjectsRoom decode stage limits store.objects objects) :
    (publishObject decode stage limits object).Upholds (fun _ _ => True)
      (fun _ t => ObjectsRoom decode stage limits t.objects objects) (fun _ _ => False) store := by
  obtain ⟨staging, destination, hroom⟩ := h.room object hmem
  have hstaging := inStaging_joined hstage hroom.stagingPath
  have hne : staging ≠ destination := by
    rintro rfl
    exact hroom.outside hstaging
  unfold publishObject
  rw [hroom.destinationPath, hroom.stagingPath, Program.bind_upholds, Program.ofExcept_ok_upholds,
    Program.bind_upholds, Program.ofExcept_ok_upholds, Program.zoom_upholds,
    Program.mapError_upholds, Program.bind_upholds]
  refine (Objects.stage_succeeds hroom.verified hroom.staging).mono (fun _ _ _ => trivial) ?_
    fun _ _ h => h
  rintro - staged ⟨hverified, hframe⟩
  have hdestination : Objects.Usable decode staged destination (captureLimits limits)
      object.descriptor.objectHash object.descriptor.kind := by
    rw [Objects.Usable, Objects.inspectStored_congr (hframe destination hne.symm)]
    exact hroom.destination
  refine (Objects.install_succeeds hne hverified hdestination).mono (fun _ _ _ => trivial) ?_
    fun _ _ h => h
  rintro - installed ⟨husable, hinstalled, hframe'⟩
  refine ⟨fun other hother => ?_, h.roots⟩
  obtain ⟨staging', destination', hroom'⟩ := h.room other hother
  by_cases hsame : other = object
  · subst hsame
    exact ⟨staging, destination, { hroom with staging := husable, destination := .inl hinstalled }⟩
  · have hroots : other.descriptor.root ≠ object.descriptor.root :=
      fun he => hsame (h.roots other hother object hmem he)
    have hstaging' := inStaging_joined hstage hroom'.stagingPath
    have hkept : ∀ path, path ≠ staging → path ≠ destination →
        installed path = store.objects path := by
      intro path hs hd
      rw [hframe' path hs hd, hframe path hs]
    have hs : (RemoteStore.objectsLens.set installed store).objects staging' =
        store.objects staging' := by
      refine hkept _ ?_ ?_
      · rintro rfl
        exact hroots (joined_inj hroom'.stagingPath hroom.stagingPath)
      · rintro rfl
        exact hroom.outside hstaging'
    have hd : (RemoteStore.objectsLens.set installed store).objects destination' =
        store.objects destination' := by
      refine hkept _ ?_ ?_
      · rintro rfl
        exact hroom'.outside hstaging
      · rintro rfl
        exact hroots (remoteObjectPath_inj hroom'.destinationPath hroom.destinationPath)
    refine ⟨staging', destination', { hroom' with staging := ?_, destination := ?_ }⟩
    · rw [Objects.Usable, Objects.inspectStored_congr hs]
      exact hroom'.staging
    · rw [Objects.Usable, Objects.inspectStored_congr hd]
      exact hroom'.destination

theorem publishObjects_succeed (hstage : InStaging stage)
    (h : ObjectsRoom decode stage limits store.objects objects) :
    (objects.forM (publishObject decode stage limits)).Upholds (fun _ _ => True)
      (fun _ _ => True) (fun _ _ => False) store := by
  refine (Program.forM_upholds (R := fun rest t => rest ⊆ objects ∧
    ObjectsRoom decode stage limits t.objects objects) ?_ ⟨List.Subset.refl _, h⟩).mono
    (fun _ _ h => h) (fun _ _ _ => trivial) fun _ _ h => h
  rintro object rest t ⟨hrest, hroom⟩
  refine (publishObject_succeeds hstage (hrest List.mem_cons_self) hroom).mono (fun _ _ h => h) ?_
    fun _ _ h => h
  exact fun _ _ hroom' => ⟨fun _ hmem => hrest (List.mem_cons_of_mem _ hmem), hroom'⟩

end Objects

section Texts

variable {stage staging destination : PortablePath} {exchange : Bool} {old : Option Bytes}
  {new : Bytes} {maxBytes : Nat} {error : BackendError} {store : RemoteStore} {name : Bytes}

/-- Whether a control file can be replaced through a name in a staging directory: nothing but
the new text is in the way. -/
structure TextRoom (texts : Files) (stage : PortablePath) (name : Bytes)
    (destination : PortablePath) (old : Option Bytes) (new : Bytes) (maxBytes : Nat) : Prop where
  paths : ∃ staging backup, joined stage name = .ok staging ∧
    guardedBackupPath staging = .ok backup ∧
    (texts staging = none ∨ texts staging = some new) ∧ texts backup = none
  destination : texts destination = some new ∨ texts destination = old
  bounded : new.length ≤ maxBytes

/-- Replacing a control file touches that file and what lies in the staging directory under
its name. -/
structure TextFrame (stage : PortablePath) (name : Bytes) (destination : PortablePath)
    (s t : RemoteStore) : Prop where
  frame : ∀ path, path ≠ destination → path.bytes ≠ stage.bytes ++ (ascii "/" ++ name) →
    path.bytes ≠ stage.bytes ++ (ascii "/" ++ name ++ ascii ".previous") →
    t.texts path = s.texts path

theorem replaceText_succeeds (hstage : InStaging stage) (hdestination : ¬ InStaging destination)
    (hstaging : joined stage name = .ok staging) (hold : ∀ o ∈ old, o.length ≤ maxBytes)
    (h : TextRoom store.texts stage name destination old new maxBytes) :
    (replaceText exchange staging destination old new maxBytes error).Upholds (fun _ _ => True)
      (fun _ t => TextFrame stage name destination store t ∧ t.texts destination = some new)
      (fun _ _ => False) store := by
  obtain ⟨staging', backup, hstaging', hbackup, hstaged, hnone⟩ := h.paths
  rw [hstaging, ok.injEq] at hstaging'
  subst hstaging'
  have hdistinct : ∀ backup, guardedBackupPath staging = .ok backup →
      GuardedPaths.Distinct ⟨destination, staging, backup⟩ := fun backup hb =>
    guardedPaths_distinct (inStaging_joined hstage hstaging) hdestination hb
  unfold replaceText
  rw [Program.zoom_upholds, Program.mapError_upholds]
  refine ((Files.replaceTextAtomicallyGuarded_steps hdistinct).and
    (Files.replaceTextAtomicallyGuarded_succeeds hbackup (hdistinct backup hbackup) h.destination
      hstaged hnone hold h.bounded)).mono (fun _ _ _ => trivial) ?_ fun _ _ h => h.2
  rintro - t ⟨⟨backup', hbackup', hslots, -, hrest⟩, -⟩
  rw [hbackup, ok.injEq] at hbackup'
  subst hbackup'
  refine ⟨⟨fun path hd hs hb => hrest path hd ?_ ?_⟩, congrArg Slots.destination hslots⟩
  · rintro rfl
    rw [joined_bytes hstaging, List.append_assoc] at hs
    exact hs rfl
  · rintro rfl
    rw [guardedBackupPath_bytes hbackup, joined_bytes hstaging] at hb
    simp at hb

theorem inStaging_of_bytes {path : PortablePath} {suffix : Bytes} (hstage : InStaging stage)
    (h : path.bytes = stage.bytes ++ suffix) : InStaging path := by
  rw [InStaging, h]
  exact hstage.trans (List.prefix_append _ _)

/-- Two names of a staging directory that share no file. -/
def Apart (name other : Bytes) : Prop :=
  name ≠ other ∧ name ≠ other ++ ascii ".previous" ∧ name ++ ascii ".previous" ≠ other ∧
    name ++ ascii ".previous" ≠ other ++ ascii ".previous"

instance (name other : Bytes) : Decidable (Apart name other) :=
  inferInstanceAs (Decidable (_ ∧ _))

/-- Replacing one control file leaves the room that another one needs. -/
theorem TextRoom.keep {other : Bytes} {destination' : PortablePath} {t : RemoteStore}
    (hstage : InStaging stage) (hd : ¬ InStaging destination) (hd' : ¬ InStaging destination')
    (hne : destination ≠ destination') (hapart : Apart name other)
    (h : TextRoom store.texts stage name destination old new maxBytes)
    (hframe : TextFrame stage other destination' store t) :
    TextRoom t.texts stage name destination old new maxBytes := by
  obtain ⟨staging, backup, hstaging, hbackup, hstaged, hnone⟩ := h.paths
  have hin := inStaging_joined hstage hstaging
  have hin' := inStaging_backup hin hbackup
  have hkept : ∀ (path : PortablePath) (suffix : Bytes), path ≠ destination' →
      path.bytes = stage.bytes ++ (ascii "/" ++ suffix) → suffix ≠ other →
      suffix ≠ other ++ ascii ".previous" → t.texts path = store.texts path := by
    intro path suffix hpath hbytes hs hb
    refine hframe.frame path hpath ?_ ?_
    · rw [hbytes]
      simpa using hs
    · rw [hbytes]
      simpa using hb
  have hs : t.texts staging = store.texts staging := by
    refine hkept staging name ?_ ?_ hapart.1 hapart.2.1
    · rintro rfl
      exact hd' hin
    · rw [joined_bytes hstaging, List.append_assoc]
  have hb : t.texts backup = store.texts backup := by
    refine hkept backup (name ++ ascii ".previous") ?_ ?_ hapart.2.2.1 hapart.2.2.2
    · rintro rfl
      exact hd' hin'
    · rw [guardedBackupPath_bytes hbackup, joined_bytes hstaging]
      simp
  have hdestination : t.texts destination = store.texts destination := by
    refine hframe.frame destination hne ?_ ?_
    · exact fun hbytes => hd (inStaging_of_bytes hstage hbytes)
    · exact fun hbytes => hd (inStaging_of_bytes hstage hbytes)
  refine ⟨⟨staging, backup, hstaging, hbackup, ?_, ?_⟩, ?_, h.bounded⟩
  · rwa [hs]
  · rwa [hb]
  · rw [hdestination]
    exact h.destination

end Texts

section Publication

variable {blake3 : Bytes → Digest} {codec : ControlCodec} {snapshots : SnapshotCodec}
  {decode : ObjectDecoder} {exchange : Bool} {intent : PublicationIntent}
  {staged : PortableSnapshot} {objects : List VerifiedObjectEnvelope} {limits : SyncLimits}
  {store : RemoteStore} {head : Head} {inspected : Inspected}

/-- Whether everything that publishing an intent writes has room. -/
structure PublicationRoom (blake3 : Bytes → Digest) (codec : ControlCodec)
    (snapshots : SnapshotCodec) (decode : ObjectDecoder) (intent : PublicationIntent)
    (staged : PortableSnapshot) (objects : List VerifiedObjectEnvelope) (limits : SyncLimits)
    (head : Head) (store : RemoteStore) (stage path : PortablePath)
    (snapshotText pointerText : Bytes) : Prop where
  area : stagePrefix head.publicationId = .ok stage
  written : Written blake3 codec snapshots intent staged limits head path snapshotText pointerText
  objectRoom : ObjectsRoom decode stage limits store.objects objects
  snapshotRoom : TextRoom store.texts stage (ascii "snapshot.json") head.snapshotFile none snapshotText
    limits.maxSnapshotBytes.toNat
  headRoom : TextRoom store.texts stage (ascii "head.json") path none intent.encoded
    limits.maxSnapshotBytes.toNat
  pointerRoom : TextRoom store.texts stage (ascii "current.json") pointerPath
    (store.texts pointerPath) pointerText limits.maxControlBytes.toNat

theorem inspectStore_bounded {texts : Files}
    (h : inspectStore blake3 codec snapshots texts limits = .ok inspected) :
    ∀ text ∈ inspected.currentText, text.length ≤ limits.maxControlBytes.toNat := by
  rcases inspectStore_eq_ok.mp h with ⟨-, rfl⟩ | ⟨history, selected, others, snapshot, hchain, -, -,
    rfl⟩
  · exact fun _ h => nomatch h
  · obtain ⟨revision, bytes, -, -, -, hbytes⟩ := inspectHistoryChain_some.mp hchain
    rintro text ⟨⟩
    omega

theorem publish_succeeds {stage path : PortablePath} {snapshotText pointerText : Bytes}
    (hintent : Kitrove.intentHead blake3 codec intent limits = .ok head)
    (hdigest : head.snapshotDigest = staged.snapshotDigest)
    (hfile : snapshotPath head.snapshotDigest = .ok head.snapshotFile)
    (hsupplied : requireSupplied staged objects = .ok ())
    (hbudget : validateObjectBudget objects limits = .ok ())
    (hinspected : inspectStore blake3 codec snapshots store.texts limits = .ok inspected)
    (hcurrent : inspected.remote.revision = head.priorRevision)
    (hroom : PublicationRoom blake3 codec snapshots decode intent staged objects limits head store
      stage path snapshotText pointerText) :
    (publish blake3 codec snapshots decode exchange intent staged objects limits).Upholds
      (fun _ _ => True) (fun status _ => status = .published intent.proposedRevision)
      (fun _ _ => False) store := by
  have hold := inspectStore_currentText hinspected
  have hbounded := inspectStore_bounded hinspected
  have hstage := inStaging_stagePrefix hroom.area
  have hsnapshot := (immutable_snapshotPath hfile)
  have hhead := immutable_headPath hroom.written.headPath
  have hpointer := currentPath_not_staging currentPath_eq
  obtain ⟨snapshotStaging, _, hsnapshotStaging, -⟩ := hroom.snapshotRoom.paths
  obtain ⟨headStaging, _, hheadStaging, -⟩ := hroom.headRoom.paths
  obtain ⟨pointerStaging, _, hpointerStaging, -⟩ := hroom.pointerRoom.paths
  unfold publish
  rw [Program.bind_upholds, hintent, Program.ofExcept_ok_upholds, Program.bind_upholds,
    Program.require_upholds]
  simp only [hdigest, decide_true, if_true]
  rw [Program.bind_upholds, Program.inspect_upholds, Program.bind_upholds, id_eq, hinspected,
    Program.ofExcept_ok_upholds, if_neg (not_not.mpr hcurrent), Program.bind_upholds, hsupplied,
    Program.ofExcept_ok_upholds, Program.bind_upholds, hbudget, Program.ofExcept_ok_upholds,
    Program.bind_upholds, hroom.area, Program.ofExcept_ok_upholds, Program.bind_upholds]
  refine (publishObjects_steps.and (publishObjects_succeed hstage hroom.objectRoom)).mono
    (fun _ _ _ => trivial) ?_ fun _ _ h => h.2
  rintro - t ⟨ht, -⟩
  rw [Program.bind_upholds, hroom.written.snapshot, Except.mapError, Program.ofExcept_ok_upholds,
    Program.bind_upholds, hsnapshotStaging, Program.ofExcept_ok_upholds, Program.bind_upholds]
  refine (replaceText_succeeds hstage hsnapshot.not_staging hsnapshotStaging (by simp)
    (ht ▸ hroom.snapshotRoom)).mono (fun _ _ h => h) ?_ fun _ _ h => h
  rintro - t₁ ⟨hframe₁, hinstalled₁⟩
  have hhead₁ := (ht ▸ hroom.headRoom : TextRoom t.texts _ _ _ _ _ _).keep hstage hhead.not_staging
    hsnapshot.not_staging (headPath_ne_snapshotPath hroom.written.headPath hfile) (by decide)
    hframe₁
  have hpointer₀ : TextRoom t.texts stage (ascii "current.json") pointerPath inspected.currentText
      pointerText limits.maxControlBytes.toNat := by
    rw [ht, hold]
    exact hroom.pointerRoom
  have hpointer₁ := hpointer₀.keep hstage hpointer hsnapshot.not_staging
    hsnapshot.ne_pointerPath.symm (by decide) hframe₁
  rw [Program.bind_upholds, hroom.written.headPath, Program.ofExcept_ok_upholds,
    Program.bind_upholds, hheadStaging, Program.ofExcept_ok_upholds, Program.bind_upholds]
  refine (replaceText_succeeds hstage hhead.not_staging hheadStaging (by simp) hhead₁).mono
    (fun _ _ h => h) ?_ fun _ _ h => h
  rintro - t₂ ⟨hframe₂, hinstalled₂⟩
  have hpointer₂ := hpointer₁.keep hstage hpointer hhead.not_staging hhead.ne_pointerPath.symm
    (by decide) hframe₂
  rw [Program.bind_upholds, hroom.written.pointer, Program.ofExcept_ok_upholds,
    Program.bind_upholds, hpointerStaging, Program.ofExcept_ok_upholds, Program.bind_upholds,
    currentPath_eq, Program.ofExcept_ok_upholds, Program.bind_upholds]
  refine (replaceText_succeeds hstage hpointer hpointerStaging hbounded hpointer₂).mono
    (fun _ _ h => h) ?_ fun _ _ h => h
  exact fun _ _ _ => Program.pure_upholds.mpr rfl

end Publication

end Kitrove
