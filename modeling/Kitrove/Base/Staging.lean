import Kitrove.Base.Store

/-! Staging a generation again after it was cut short: whatever whole objects and documents
are there already, the same directory comes out. -/

namespace Kitrove

open Std Crash SyncBaseStore

namespace BaseArea

section Lookup

variable {area area' : Option BaseArea} {root name path : PortablePath} {files : ObjectFiles}
  {contents : Bytes}

@[simp] theorem objectsOf_putObject : objectsOf (putObject root files area) path =
    if path = root then some files else objectsOf area path := by
  simp only [objectsOf, putObject, Option.bind_some]
  rw [ExtTreeMap.getElem?_insert]
  by_cases h : path = root
  · simp [h]
  · have hne : ¬ compare root path = .eq := fun he => h (LawfulEqCmp.eq_of_compare he).symm
    rw [if_neg hne, if_neg h]
    cases area <;> simp [empty]

@[simp] theorem textOf_putObject : textOf (putObject root files area) name = textOf area name := by
  cases area <;> simp [textOf, putObject, empty]

@[simp] theorem textOf_putText : textOf (putText root contents area) path =
    if path = root then some contents else textOf area path := by
  simp only [textOf, putText, Option.bind_some]
  rw [ExtTreeMap.getElem?_insert]
  by_cases h : path = root
  · simp [h]
  · have hne : ¬ compare root path = .eq := fun he => h (LawfulEqCmp.eq_of_compare he).symm
    rw [if_neg hne, if_neg h]
    cases area <;> simp [empty]

@[simp] theorem objectsOf_putText : objectsOf (putText root contents area) name =
    objectsOf area name := by
  cases area <;> simp [objectsOf, putText, empty]

/-- Two present directories with the same files are the same. -/
theorem eq_of_lookup {here there : BaseArea}
    (hobjects : ∀ root, objectsOf (some here) root = objectsOf (some there) root)
    (htexts : ∀ name, textOf (some here) name = textOf (some there) name) : here = there := by
  obtain ⟨texts, objects⟩ := here
  obtain ⟨texts', objects'⟩ := there
  congr 1
  · exact ExtTreeMap.ext_getElem? htexts
  · exact ExtTreeMap.ext_getElem? hobjects

end Lookup

end BaseArea

section Staging

variable {decode : ObjectDecoder} {proposal : Proposal} {record : Bytes} {area : Option BaseArea}
  {object : VerifiedObjectEnvelope} {limits : CaptureLimits}

/-- A staging directory in which nothing lies but what a proposal stages, the last object
written perhaps only in part. -/
structure StagedWithin (proposal : Proposal) (record : Bytes) (area : Option BaseArea) : Prop where
  objects : ∀ root files, BaseArea.objectsOf area root = some files →
    ∃ object ∈ proposal.objects, object.descriptor.root = root ∧ files <+: object.files
  texts : ∀ name text, BaseArea.textOf area name = some text →
    name = recordName ∧ text = record ∨ name = manifestName ∧ text = proposal.snapshot.manifestToml

/-- Whether each object of a proposal is staged completely or not at all. -/
def StagedWhole (proposal : Proposal) (area : Option BaseArea) : Prop :=
  ∀ object ∈ proposal.objects, BaseArea.objectsOf area object.descriptor.root = none ∨
    BaseArea.objectsOf area object.descriptor.root = some object.files

/-- Whether a directory is the generation that a proposal stages. -/
structure StagedFully (proposal : Proposal) (record : Bytes) (area : Option BaseArea) : Prop where
  within : StagedWithin proposal record area
  whole : ∀ object ∈ proposal.objects,
    BaseArea.objectsOf area object.descriptor.root = some object.files
  record : BaseArea.textOf area recordName = some record
  manifest : BaseArea.textOf area manifestName = some proposal.snapshot.manifestToml

/-- Whether the objects of a proposal are valid ones of their kinds. -/
def Stageable (decode : ObjectDecoder) (proposal : Proposal) : Prop :=
  ∀ object ∈ proposal.objects, decode object.descriptor.kind (captureLimits proposal.limits)
    object.files = some object.descriptor.objectHash

/-- Whether each object of a proposal has a root of its own. -/
def DistinctRoots (proposal : Proposal) : Prop :=
  ∀ object ∈ proposal.objects, ∀ other ∈ proposal.objects,
    object.descriptor.root = other.descriptor.root → object = other

theorem recordName_ne_manifestName : recordName ≠ manifestName := by decide +kernel

/-- A proposal stages one directory. -/
theorem StagedFully.unique {area' : Option BaseArea} (h : StagedFully proposal record area)
    (h' : StagedFully proposal record area') : area = area' := by
  cases area with
  | none => exact absurd h.record (by simp [BaseArea.textOf])
  | some here =>
    cases area' with
    | none => exact absurd h'.record (by simp [BaseArea.textOf])
    | some there =>
      refine congrArg some (BaseArea.eq_of_lookup (fun root => ?_) fun name => ?_)
      · have hsome : ∀ {left right : Option BaseArea}, StagedFully proposal record left →
            StagedFully proposal record right → ∀ files, BaseArea.objectsOf left root = some files →
            BaseArea.objectsOf right root = some files := by
          intro left right hl hr files hfiles
          obtain ⟨object, hobject, rfl, -⟩ := hl.within.objects root files hfiles
          rw [hr.whole object hobject, ← hl.whole object hobject, hfiles]
        cases hfiles : BaseArea.objectsOf (some here) root with
        | some files => exact (hsome h h' files hfiles).symm
        | none =>
          cases hfiles' : BaseArea.objectsOf (some there) root with
          | none => rfl
          | some files => rw [hsome h' h files hfiles'] at hfiles; contradiction
      · have hsome : ∀ {left right : Option BaseArea}, StagedFully proposal record left →
            StagedFully proposal record right → ∀ text, BaseArea.textOf left name = some text →
            BaseArea.textOf right name = some text := by
          intro left right hl hr text htext
          rcases hl.within.texts name text htext with ⟨rfl, rfl⟩ | ⟨rfl, rfl⟩
          · exact hr.record
          · exact hr.manifest
        cases htext : BaseArea.textOf (some here) name with
        | some text => exact (hsome h h' text htext).symm
        | none =>
          cases htext' : BaseArea.textOf (some there) name with
          | none => rfl
          | some text => rw [hsome h' h text htext'] at htext; contradiction

theorem stagedWithin_none : StagedWithin proposal record none :=
  ⟨(fun _ _ h => nomatch h), (fun _ _ h => nomatch h)⟩

theorem stagedWhole_none : StagedWhole proposal none := fun _ _ => .inl rfl

theorem StagedWithin.putObject {files : ObjectFiles} (h : StagedWithin proposal record area)
    (hobject : object ∈ proposal.objects) (hfiles : files <+: object.files) :
    StagedWithin proposal record (BaseArea.putObject object.descriptor.root files area) := by
  refine ⟨fun root found hfound => ?_, fun name text htext => ?_⟩
  · rw [BaseArea.objectsOf_putObject] at hfound
    split at hfound
    · rename_i hroot
      cases hfound
      exact ⟨object, hobject, hroot.symm, hfiles⟩
    · exact h.objects root found hfound
  · rw [BaseArea.textOf_putObject] at htext
    exact h.texts name text htext

theorem StagedWithin.putText {name : PortablePath} {contents : Bytes} (h : StagedWithin proposal record area)
    (hname : name = recordName ∧ contents = record ∨
      name = manifestName ∧ contents = proposal.snapshot.manifestToml) :
    StagedWithin proposal record (BaseArea.putText name contents area) := by
  refine ⟨fun root files hfiles => ?_, fun other text htext => ?_⟩
  · rw [BaseArea.objectsOf_putText] at hfiles
    exact h.objects root files hfiles
  · rw [BaseArea.textOf_putText] at htext
    split at htext
    · rename_i hother
      cases htext
      rw [hother]
      exact hname
    · exact h.texts other text htext

/-- Writing an object from nothing passes through the prefixes of its files. -/
theorem writeObject_upholds (hobject : object ∈ proposal.objects)
    (h : StagedWithin proposal record area) :
    (BaseArea.writeEnvelope object.descriptor.root object.files).Upholds
      (fun _ t => StagedWithin proposal record t)
      (fun _ t => t = BaseArea.putObject object.descriptor.root object.files area)
      (fun _ _ => False) area := by
  unfold BaseArea.writeEnvelope
  rw [Program.bind_upholds, Program.act_upholds]
  refine ⟨h.putObject hobject (List.nil_prefix), ?_⟩
  have hput : ∀ left right : ObjectFiles,
      BaseArea.putObject object.descriptor.root right
          (BaseArea.putObject object.descriptor.root left area) =
        BaseArea.putObject object.descriptor.root right area := by
    intro left right
    have hpresent : ∀ files : ObjectFiles, ∃ there,
        BaseArea.putObject object.descriptor.root files area = some there := fun _ => ⟨_, rfl⟩
    obtain ⟨there, hthere⟩ := hpresent right
    have hleft : ∃ here, BaseArea.putObject object.descriptor.root right
        (BaseArea.putObject object.descriptor.root left area) = some here := ⟨_, rfl⟩
    obtain ⟨here, hhere⟩ := hleft
    rw [hthere, hhere]
    refine congrArg some (BaseArea.eq_of_lookup (fun root => ?_) fun name => ?_)
    · rw [← hthere, ← hhere]
      simp only [BaseArea.objectsOf_putObject]
      split
      · rfl
      · rfl
    · rw [← hthere, ← hhere]
      simp only [BaseArea.textOf_putObject]
  refine (Program.forM_upholds (R := fun rest t => ∃ written, written ++ rest = object.files ∧
    t = BaseArea.putObject object.descriptor.root written area) ?_ ⟨[], rfl, rfl⟩).mono
      (fun _ _ h => h) ?_ fun _ _ h => h
  · rintro file rest t ⟨written, hfiles, rfl⟩
    rw [Program.act_upholds]
    have hstarts : written ++ [file] <+: object.files := ⟨rest, by simpa using hfiles⟩
    simp only [BaseArea.objectsOf_putObject, if_true, Option.getD_some, hput]
    exact ⟨h.putObject hobject hstarts, written ++ [file], by simpa using hfiles, rfl⟩
  · rintro - t ⟨written, hfiles, rfl⟩
    rw [List.append_nil] at hfiles
    rw [hfiles]

theorem stageObject_within (hobject : object ∈ proposal.objects)
    (h : StagedWithin proposal record area) :
    (BaseArea.stageObject decode limits object).Upholds (fun _ t => StagedWithin proposal record t)
      (fun _ t => StagedWithin proposal record t) (fun _ _ => True) area := by
  unfold BaseArea.stageObject
  rw [Program.bind_upholds, Program.inspect_upholds]
  cases BaseArea.stateOf decode area limits object with
  | verified => exact Program.pure_upholds.mpr h
  | missing =>
    refine Program.bind_upholds.mpr ((writeObject_upholds hobject h).mono (fun _ _ h => h) ?_
      fun _ _ h => h.elim)
    rintro - t rfl
    rw [Program.bind_upholds, Program.inspect_upholds, Program.require_upholds]
    split
    · exact h.putObject hobject List.prefix_rfl
    · trivial
  | hashMismatch => exact Program.fail_upholds.mpr trivial
  | invalid => exact Program.fail_upholds.mpr trivial

theorem stageDocument_within {name : PortablePath} {contents : Bytes} {maxBytes : Nat}
    (h : StagedWithin proposal record area)
    (hname : name = recordName ∧ contents = record ∨
      name = manifestName ∧ contents = proposal.snapshot.manifestToml) :
    (BaseArea.stageText name contents maxBytes).Upholds (fun _ t => StagedWithin proposal record t)
      (fun _ t => StagedWithin proposal record t) (fun _ _ => True) area := by
  unfold BaseArea.stageText
  rw [Program.bind_upholds, Program.inspect_upholds, Program.bind_upholds, id_eq]
  cases BaseArea.readText area name maxBytes with
  | error e => exact Program.ofExcept_error_upholds.mpr trivial
  | ok found =>
    rw [Program.ofExcept_ok_upholds]
    cases found with
    | some existing =>
      rw [Program.require_upholds]
      split
      · exact h
      · trivial
    | none =>
      rw [Program.act_upholds]
      exact ⟨h.putText hname, h.putText hname⟩

/-- Staging never leaves anything in the directory but what the proposal stages. -/
theorem stageGeneration_within (h : StagedWithin proposal record area) :
    (stageGeneration decode proposal record).Upholds (fun _ t => StagedWithin proposal record t)
      (fun _ t => StagedWithin proposal record t) (fun _ _ => True) area := by
  unfold stageGeneration
  rw [Program.bind_upholds]
  refine (Program.forM_upholds (R := fun rest t => rest ⊆ proposal.objects ∧
    StagedWithin proposal record t) ?_ ⟨List.Subset.refl _, h⟩).mono (fun _ _ h => h) ?_ fun _ _ h => h
  · rintro object rest t ⟨hrest, ht⟩
    refine (stageObject_within (hrest List.mem_cons_self) ht).mono (fun _ _ h => h)
      (fun _ _ h => ⟨?_, h⟩) fun _ _ h => h
    exact fun _ hmem => hrest (List.mem_cons_of_mem _ hmem)
  · rintro - t ⟨-, ht⟩
    rw [Program.bind_upholds]
    refine (stageDocument_within ht (.inl ⟨rfl, rfl⟩)).mono (fun _ _ h => h) ?_ fun _ _ h => h
    exact fun _ _ hu => stageDocument_within hu (.inr ⟨rfl, rfl⟩)

theorem StagedWhole.putObject (hroots : DistinctRoots proposal) (h : StagedWhole proposal area)
    (hobject : object ∈ proposal.objects) :
    StagedWhole proposal (BaseArea.putObject object.descriptor.root object.files area) := by
  intro other hother
  rw [BaseArea.objectsOf_putObject]
  split
  · rename_i hroot
    rw [hroots other hother object hobject hroot]
    exact .inr rfl
  · exact h other hother

/-- An object that is there or not there at all is staged if it is a valid one. -/
theorem stageObject_upholds (hobject : object ∈ proposal.objects)
    (hwithin : StagedWithin proposal record area) (hwhole : StagedWhole proposal area)
    {E : ObjectMutationError → Option BaseArea → Prop}
    (hE : decode object.descriptor.kind limits object.files = some object.descriptor.objectHash ∨
      ∀ e t, E e t) :
    (BaseArea.stageObject decode limits object).Upholds (fun _ _ => True)
      (fun _ t => decode object.descriptor.kind limits object.files =
          some object.descriptor.objectHash ∧
        BaseArea.objectsOf t object.descriptor.root = some object.files ∧
        (t = area ∨ t = BaseArea.putObject object.descriptor.root object.files area)) E area := by
  unfold BaseArea.stageObject
  rw [Program.bind_upholds, Program.inspect_upholds]
  have hverified : ∀ area : Option BaseArea,
      BaseArea.objectsOf area object.descriptor.root = some object.files →
      (BaseArea.stateOf decode area limits object = .verified ↔
        decode object.descriptor.kind limits object.files = some object.descriptor.objectHash) := by
    intro area hfiles
    rw [BaseArea.stateOf, Objects.inspectStored_verified, hfiles]
    simp
  rcases hwhole object hobject with hnone | hsome
  · have hstate : BaseArea.stateOf decode area limits object = .missing :=
      Objects.inspectStored_missing.mpr hnone
    rw [hstate]
    refine Program.bind_upholds.mpr ((writeObject_upholds hobject hwithin).mono
      (fun _ _ _ => trivial) ?_ fun _ _ h => h.elim)
    rintro - t rfl
    have hput : BaseArea.objectsOf
        (BaseArea.putObject object.descriptor.root object.files area) object.descriptor.root =
          some object.files := by
      rw [BaseArea.objectsOf_putObject, if_pos rfl]
    rw [Program.bind_upholds, Program.inspect_upholds, Program.require_upholds]
    split
    · rename_i hok
      exact ⟨(hverified _ hput).mp (of_decide_eq_true hok), hput, .inr rfl⟩
    · rename_i hbad
      rcases hE with hdecode | hE
      · exact absurd ((hverified _ hput).mpr hdecode) (by simpa using hbad)
      · exact hE _ _
  · by_cases hdecode : decode object.descriptor.kind limits object.files =
        some object.descriptor.objectHash
    · rw [(hverified area hsome).mpr hdecode]
      exact Program.pure_upholds.mpr ⟨hdecode, hsome, .inl rfl⟩
    · have hE := hE.resolve_left hdecode
      cases hstate : BaseArea.stateOf decode area limits object with
      | verified => exact absurd ((hverified area hsome).mp hstate) hdecode
      | missing =>
        rw [BaseArea.stateOf, Objects.inspectStored_missing, hsome] at hstate
        contradiction
      | hashMismatch => exact Program.fail_upholds.mpr (hE _ _)
      | invalid => exact Program.fail_upholds.mpr (hE _ _)

/-- The loop over the objects, from a directory that holds whole ones only. -/
theorem stageObjects_upholds (hroots : DistinctRoots proposal)
    (hwithin : StagedWithin proposal record area) (hwhole : StagedWhole proposal area)
    {E : ObjectMutationError → Option BaseArea → Prop}
    (hE : Stageable decode proposal ∨ ∀ e t, E e t) :
    (proposal.objects.forM
      (BaseArea.stageObject decode (captureLimits proposal.limits))).Upholds (fun _ _ => True)
      (fun _ t => Stageable decode proposal ∧ StagedWithin proposal record t ∧
        ∀ object ∈ proposal.objects,
          BaseArea.objectsOf t object.descriptor.root = some object.files) E area := by
  refine (Program.forM_upholds (R := fun rest t => rest ⊆ proposal.objects ∧
    StagedWithin proposal record t ∧ StagedWhole proposal t ∧
    ∀ object ∈ proposal.objects, object ∉ rest →
      decode object.descriptor.kind (captureLimits proposal.limits) object.files =
          some object.descriptor.objectHash ∧
        BaseArea.objectsOf t object.descriptor.root = some object.files) ?_
    ⟨List.Subset.refl _, hwithin, hwhole, fun _ h hn => absurd h hn⟩).mono (fun _ _ h => h) ?_
      fun _ _ h => h
  · rintro object rest t ⟨hrest, hwithin, hwhole, hdone⟩
    have hobject := hrest List.mem_cons_self
    refine (stageObject_upholds hobject hwithin hwhole (hE.imp_left fun h => h object hobject)).mono
      (fun _ _ h => h) ?_ fun _ _ h => h
    rintro - u ⟨hdecode, hfiles, hcases⟩
    have hkept : ∀ other ∈ proposal.objects,
        BaseArea.objectsOf t other.descriptor.root = some other.files →
        BaseArea.objectsOf u other.descriptor.root = some other.files := by
      intro other hother ht
      rcases hcases with rfl | rfl
      · exact ht
      · rw [BaseArea.objectsOf_putObject]
        split
        · rename_i hroot
          rw [hroots other hother object hobject hroot]
        · exact ht
    refine ⟨fun _ hmem => hrest (List.mem_cons_of_mem _ hmem), ?_, ?_, fun other hother hnot => ?_⟩
    · rcases hcases with rfl | rfl
      · exact hwithin
      · exact hwithin.putObject hobject List.prefix_rfl
    · rcases hcases with rfl | rfl
      · exact hwhole
      · exact hwhole.putObject hroots hobject
    · by_cases hsame : other = object
      · subst hsame
        exact ⟨hdecode, hfiles⟩
      · obtain ⟨hdecode', hfiles'⟩ := hdone other hother
          (fun hmem => (List.mem_cons.mp hmem).elim hsame hnot)
        exact ⟨hdecode', hkept other hother hfiles'⟩
  · rintro - t ⟨-, hwithin, -, hdone⟩
    exact ⟨fun object hobject => (hdone object hobject (List.not_mem_nil)).1, hwithin,
      fun object hobject => (hdone object hobject (List.not_mem_nil)).2⟩

theorem stageDocument_upholds {name : PortablePath} {contents : Bytes} {maxBytes : Nat}
    (htext : BaseArea.textOf area name = none ∨ BaseArea.textOf area name = some contents)
    {E : ObjectMutationError → Option BaseArea → Prop}
    (hE : contents.length ≤ maxBytes ∨ ∀ e t, E e t) :
    (BaseArea.stageText name contents maxBytes).Upholds (fun _ _ => True)
      (fun _ t => BaseArea.textOf t name = some contents ∧
        (t = area ∨ t = BaseArea.putText name contents area)) E area := by
  unfold BaseArea.stageText BaseArea.readText
  rw [Program.bind_upholds, Program.inspect_upholds, Program.bind_upholds, id_eq]
  rcases htext with hnone | hsome
  · rw [hnone]
    simp only [Option.all_none, if_true]
    rw [Program.ofExcept_ok_upholds, Program.act_upholds]
    refine ⟨trivial, ?_, .inr rfl⟩
    rw [BaseArea.textOf_putText, if_pos rfl]
  · rw [hsome]
    by_cases hlen : contents.length ≤ maxBytes
    · simp only [Option.all_some, hlen, decide_true, if_true]
      rw [Program.ofExcept_ok_upholds, Program.require_upholds]
      simp only [decide_true, if_true]
      exact ⟨hsome, .inl trivial⟩
    · simp only [Option.all_some, hlen, decide_false]
      exact Program.ofExcept_error_upholds.mpr (hE.resolve_left hlen _ _)

/-- Staging from a directory that holds whole objects only ends with the whole generation. -/
theorem stageGeneration_upholds (hroots : DistinctRoots proposal)
    (hwithin : StagedWithin proposal record area) (hwhole : StagedWhole proposal area)
    {E : ObjectMutationError → Option BaseArea → Prop}
    (hE : (Stageable decode proposal ∧
      record.length ≤ proposal.limits.maxControlBytes.toNat ∧
      proposal.snapshot.manifestToml.length ≤ proposal.limits.maxManifestBytes.toNat) ∨
      ∀ e t, E e t) :
    (stageGeneration decode proposal record).Upholds (fun _ _ => True)
      (fun _ t => Stageable decode proposal ∧ StagedFully proposal record t) E area := by
  have htext : ∀ {t : Option BaseArea} {name : PortablePath} {contents : Bytes},
      StagedWithin proposal record t →
      (∀ text, name = recordName ∧ text = record ∨
        name = manifestName ∧ text = proposal.snapshot.manifestToml → text = contents) →
      BaseArea.textOf t name = none ∨ BaseArea.textOf t name = some contents := by
    intro t name contents ht hname
    cases hfound : BaseArea.textOf t name with
    | none => exact .inl rfl
    | some text => exact .inr (congrArg some (hname text (ht.texts name text hfound)))
  unfold stageGeneration
  rw [Program.bind_upholds]
  refine (stageObjects_upholds hroots hwithin hwhole (hE.imp_left And.left)).mono (fun _ _ h => h)
    ?_ fun _ _ h => h
  rintro - t ⟨hstageable, ht, hobjects⟩
  rw [Program.bind_upholds]
  refine (stageDocument_upholds (htext ht fun text hname => ?_) (hE.imp_left fun h => h.2.1)).mono
    (fun _ _ h => h) ?_ fun _ _ h => h
  · exact hname.elim And.right fun h => absurd h.1 recordName_ne_manifestName
  rintro - u ⟨hrecord, hu⟩
  have hwithin' : StagedWithin proposal record u := by
    rcases hu with rfl | rfl
    · exact ht
    · exact ht.putText (.inl ⟨rfl, rfl⟩)
  have hobjects' : ∀ object ∈ proposal.objects,
      BaseArea.objectsOf u object.descriptor.root = some object.files := by
    rcases hu with rfl | rfl
    · exact hobjects
    · simpa using hobjects
  refine (stageDocument_upholds (htext hwithin' fun text hname => ?_) (hE.imp_left fun h => h.2.2)).mono
    (fun _ _ h => h) ?_ fun _ _ h => h
  · exact hname.elim (fun h => absurd h.1.symm recordName_ne_manifestName) And.right
  rintro - v ⟨hmanifest, hv⟩
  refine ⟨hstageable, ?_, ?_, ?_, hmanifest⟩
  · rcases hv with rfl | rfl
    · exact hwithin'
    · exact hwithin'.putText (.inr ⟨rfl, rfl⟩)
  · rcases hv with rfl | rfl
    · exact hobjects'
    · simpa using hobjects'
  · rcases hv with rfl | rfl
    · exact hrecord
    · rw [BaseArea.textOf_putText, if_neg recordName_ne_manifestName]
      exact hrecord

end Staging

end Kitrove
