import Kitrove.Git.LogReading

/-! Where the objects of a snapshot lie among the files of its tree, and that they are found there. -/

namespace Kitrove.Git

open Std Except

section Paths

variable {a b : Bytes} {root other path relative : PortablePath}

theorem splitOn_append : splitOn slash (a ++ slash :: b) = splitOn slash a ++ splitOn slash b := by
  induction a with
  | nil => exact if_pos rfl
  | cons c a ih =>
    rw [List.cons_append, splitOn, splitOn, ih]
    by_cases hc : c = slash
    · rw [if_pos hc, if_pos hc, List.cons_append]
    · rw [if_neg hc, if_neg hc]
      cases ha : splitOn slash a with
      | nil => exact absurd ha splitOn_ne_nil
      | cons first rest => rfl

def objectsName : Bytes := ascii "objects"

def metadataName : Bytes := ascii "metadata.json"

def payloadName : Bytes := ascii "payload"

theorem objectLead_eq : objectLead root = objectsName ++ slash :: (root.bytes ++ [slash]) := by
  rw [objectLead, List.append_assoc]
  rfl

theorem payloadLead_eq : payloadLead root =
    (objectsName ++ slash :: (root.bytes ++ slash :: payloadName)) ++ [slash] := by
  rw [payloadLead, objectLead_eq]
  simp only [List.append_assoc, List.cons_append, List.nil_append]
  rfl

theorem splitOn_payload {rest : Bytes} : splitOn slash (payloadLead root ++ rest) =
    objectsName :: (segments root ++ payloadName :: splitOn slash rest) := by
  have hobjects : splitOn slash objectsName = [objectsName] := by decide
  have hpayload : splitOn slash payloadName = [payloadName] := by decide
  rw [payloadLead_eq, List.append_assoc, List.singleton_append, splitOn_append, splitOn_append,
    splitOn_append, hobjects, hpayload, segments]
  simp

theorem splitOn_metadata : splitOn slash (metadataFile root) =
    objectsName :: (segments root ++ [metadataName]) := by
  have hobjects : splitOn slash objectsName = [objectsName] := by decide
  have hmetadata : splitOn slash metadataName = [metadataName] := by decide
  have hfile : metadataFile root = objectsName ++ slash :: (root.bytes ++ slash :: metadataName) := by
    rw [metadataFile, objectLead_eq]
    simp only [List.append_assoc, List.cons_append, List.nil_append]
    rfl
  rw [hfile, splitOn_append, splitOn_append, hobjects, hmetadata, segments]
  simp

theorem payload_ne_metadata {rest : Bytes} : payloadLead root ++ rest ≠ metadataFile root := by
  intro h
  have hparts := congrArg (splitOn slash) h
  rw [splitOn_payload, splitOn_metadata] at hparts
  have hnames := (List.cons.inj (List.append_cancel_left (List.cons.inj hparts).2)).1
  exact absurd hnames (by decide)

theorem objectLead_ne_snapshot {rest : Bytes} : objectLead root ++ rest ≠ snapshotFile := by
  intro h
  have hparts := congrArg (splitOn slash) h
  have hobjects : splitOn slash objectsName = [objectsName] := by decide
  have hsnapshot : splitOn slash snapshotFile = [snapshotFile] := by decide
  rw [objectLead_eq, List.append_assoc, List.cons_append, splitOn_append, hobjects, hsnapshot] at hparts
  exact absurd (List.cons.inj hparts).1 (by decide)

theorem metadataFile_injective (h : metadataFile root = metadataFile other) : root = other := by
  rw [metadataFile, metadataFile, objectLead, objectLead] at h
  exact Name.ext_bytes (List.append_cancel_left (List.append_cancel_right (List.append_cancel_right h)))

/-- Neither of two roots leads into the payload of the other. -/
def RootsApart (root other : PortablePath) : Prop :=
  ¬ segments root ++ [payloadName] <+: segments other ∧ ¬ segments other ++ [payloadName] <+: segments root

theorem RootsApart.symm (h : RootsApart root other) : RootsApart other root := And.symm h

/-- The files below the payload of one root and those of another root are apart, where neither root leads
into the payload of the other. -/
theorem payload_apart (hne : root ≠ other) (h : RootsApart root other) :
    ¬ payloadLead root <+: metadataFile other ∧ ∀ rest, ¬ payloadLead root <+: payloadLead other ++ rest := by
  have hsplit : ∀ (last : Bytes) (more : List Bytes), last = metadataName ∧ more = [] ∨ last = payloadName →
      ∀ rest : List Bytes, rest ≠ [] →
      segments other ++ last :: more ≠ segments root ++ payloadName :: rest := by
    intro last more hlast rest hrest heq
    rcases List.append_eq_append_iff.mp heq with ⟨middle, hroot, hmiddle⟩ | ⟨middle, hother, hmiddle⟩
    · cases middle with
      | nil =>
        rw [List.append_nil] at hroot
        exact hne (segments_injective hroot)
      | cons name middle =>
        obtain ⟨rfl, hmore⟩ := List.cons.inj hmiddle
        rcases hlast with ⟨-, rfl⟩ | rfl
        · exact absurd hmore (by simp)
        · exact h.2 ⟨middle, by rw [hroot, List.append_assoc, List.singleton_append]⟩
    · cases middle with
      | nil =>
        rw [List.append_nil] at hother
        exact hne (segments_injective hother.symm)
      | cons name middle =>
        obtain ⟨rfl, -⟩ := List.cons.inj hmiddle
        exact h.1 ⟨middle, by rw [hother, List.append_assoc, List.singleton_append]⟩
  constructor
  · rintro ⟨rest, hrest⟩
    have hparts := congrArg (splitOn slash) hrest
    rw [splitOn_payload, splitOn_metadata] at hparts
    exact hsplit metadataName [] (.inl ⟨rfl, rfl⟩) _ splitOn_ne_nil (List.cons.inj hparts).2.symm
  · rintro more ⟨rest, hrest⟩
    have hparts := congrArg (splitOn slash) hrest
    rw [splitOn_payload, splitOn_payload] at hparts
    exact hsplit payloadName _ (.inr rfl) _ splitOn_ne_nil (List.cons.inj hparts).2.symm

end Paths

section Taking

variable {root path : PortablePath} {paths : List PortablePath} {payload files : FlatFiles} {bytes : Bytes}

theorem getElem?_erase {V : Type} {m : OrdMap PortablePath V} {other : PortablePath} {value : V} :
    (m.erase path)[other]? = some value ↔ other ≠ path ∧ m[other]? = some value := by
  rw [ExtTreeMap.getElem?_erase]
  by_cases hsame : path = other
  · rw [if_pos (LawfulEqCmp.compare_eq_iff_eq.mpr hsame)]
    exact iff_of_false (Option.some_ne_none value ∘ Eq.symm) fun h => h.1 hsame.symm
  · rw [if_neg fun h => hsame (LawfulEqCmp.eq_of_compare h)]
    exact ⟨fun h => ⟨Ne.symm hsame, h⟩, fun h => h.2⟩

theorem getElem?_insert {V : Type} {m : OrdMap PortablePath V} {other : PortablePath} {given value : V} :
    (m.insert path given)[other]? = some value ↔
      other = path ∧ given = value ∨ other ≠ path ∧ m[other]? = some value := by
  rw [ExtTreeMap.getElem?_insert]
  by_cases hsame : path = other
  · rw [if_pos (LawfulEqCmp.compare_eq_iff_eq.mpr hsame), Option.some.injEq]
    exact ⟨fun h => .inl ⟨hsame.symm, h⟩, fun h => h.elim (fun h => h.2) fun h => absurd hsame.symm h.1⟩
  · rw [if_neg fun h => hsame (LawfulEqCmp.eq_of_compare h)]
    exact ⟨fun h => .inr ⟨Ne.symm hsame, h⟩, fun h => h.elim (fun h => absurd h.1.symm hsame) fun h => h.2⟩

/-- The payload at a path below the payload's root. -/
structure PayloadAt (root : PortablePath) (files : FlatFiles) (path relative : PortablePath) (bytes : Bytes) :
    Prop where
  below : path.bytes = payloadLead root ++ relative.bytes
  found : files[path]? = some bytes

theorem PayloadAt.unique {relative relative' : PortablePath} {bytes' : Bytes}
    (h : PayloadAt root files path relative bytes) (h' : PayloadAt root files path relative' bytes') :
    relative = relative' ∧ bytes = bytes' := by
  refine ⟨Name.ext_bytes (List.append_cancel_left (h.below.symm.trans h'.below)), ?_⟩
  have hbytes := h.found
  rw [h'.found] at hbytes
  exact (Option.some.inj hbytes).symm

/-- Moving the files at some paths below a payload's root moves these and no others. -/
theorem takePayloads (hnodup : paths.Nodup)
    (hpaths : ∀ path ∈ paths, ∃ relative bytes,
      PayloadAt root files path relative bytes ∧ relative ∉ payload) :
    ∃ payload' files', paths.foldlM (takePayload root) (payload, files) = .ok (payload', files') ∧
      (∀ (relative : PortablePath) (bytes : Bytes), payload'[relative]? = some bytes ↔
        payload[relative]? = some bytes ∨ ∃ path ∈ paths, PayloadAt root files path relative bytes) ∧
      ∀ (path : PortablePath) (bytes : Bytes), files'[path]? = some bytes ↔
        path ∉ paths ∧ files[path]? = some bytes := by
  induction paths generalizing payload files with
  | nil => exact ⟨payload, files, rfl, by simp, by simp⟩
  | cons path paths ih =>
    obtain ⟨hpath, hnodup⟩ := List.nodup_cons.mp hnodup
    obtain ⟨⟨relative, bytes, hat, hfresh⟩, hpaths⟩ := List.forall_mem_cons.mp hpaths
    have hstep : takePayload root (payload, files) path =
        .ok (payload.insert relative bytes, files.erase path) := by
      refine bind_eq_ok_iff.mpr ⟨relative.bytes, ?_, bind_eq_ok_iff.mpr ⟨relative, ?_, ?_⟩⟩
      · rw [required_eq_ok, hat.below, stripPrefix_append]
      · rw [parsePath, required_eq_ok, parse_eq_some]
      refine bind_eq_ok_iff.mpr ⟨bytes, required_eq_ok.mpr hat.found, bind_eq_ok_iff.mpr ⟨(), ?_, rfl⟩⟩
      rw [reject_eq_ok, ← Bool.not_eq_true, ExtTreeMap.contains_iff_mem]
      exact hfresh
    have hkeeps {other relative' : PortablePath} {bytes' : Bytes} (hother : other ∈ paths) :
        PayloadAt root (files.erase path) other relative' bytes' ↔
          PayloadAt root files other relative' bytes' := by
      have hne : other ≠ path := fun heq => hpath (heq ▸ hother)
      exact ⟨fun h => ⟨h.below, (getElem?_erase.mp h.found).2⟩,
        fun h => ⟨h.below, getElem?_erase.mpr ⟨hne, h.found⟩⟩⟩
    have hrest : ∀ other ∈ paths, ∃ relative' bytes',
        PayloadAt root (files.erase path) other relative' bytes' ∧ relative' ∉ payload.insert relative bytes := by
      intro other hother
      obtain ⟨relative', bytes', hat', hfresh'⟩ := hpaths other hother
      refine ⟨relative', bytes', (hkeeps hother).mpr hat', ?_⟩
      rw [ExtTreeMap.mem_insert]
      rintro (hsame | hmem)
      · have hpathSame : path = other := Name.ext_bytes (by
          rw [hat.below, hat'.below, LawfulEqCmp.eq_of_compare hsame])
        exact hpath (hpathSame ▸ hother)
      · exact hfresh' hmem
    obtain ⟨payload', files', hfold, hpayload', hfiles'⟩ := ih hnodup hrest
    refine ⟨payload', files', ?_, fun relative' bytes' => ?_, fun other bytes' => ?_⟩
    · rw [List.foldlM_cons, hstep]
      exact hfold
    · rw [hpayload', getElem?_insert]
      constructor
      · rintro ((⟨rfl, rfl⟩ | ⟨-, hold⟩) | ⟨other, hother, hat'⟩)
        · exact .inr ⟨path, List.mem_cons_self, hat⟩
        · exact .inl hold
        · exact .inr ⟨other, List.mem_cons_of_mem _ hother, (hkeeps hother).mp hat'⟩
      · rintro (hold | ⟨other, hother, hat'⟩)
        · refine .inl (.inr ⟨?_, hold⟩)
          rintro rfl
          exact hfresh (OrdMap.mem_iff_getElem?.mpr ⟨bytes', hold⟩)
        · rcases List.mem_cons.mp hother with rfl | hother
          · exact .inl (.inl ((hat'.unique hat).imp_right Eq.symm))
          · exact .inr ⟨other, hother, (hkeeps hother).mpr hat'⟩
    · rw [hfiles', getElem?_erase, List.mem_cons, not_or]
      exact ⟨fun h => ⟨⟨h.2.1, h.1⟩, h.2.2⟩, fun h => ⟨h.1.2, h.1.1, h.2⟩⟩

end Taking

section Laying

variable {Envelope : Type} {envelopes : EnvelopeLibrary Envelope} {envelope other : Envelope}
  {supplied : List Envelope} {files files' : FlatFiles} {path : PortablePath} {bytes : Bytes}
  {limits : SyncLimits} {state after : Nat × FlatFiles}

def rootOf (envelopes : EnvelopeLibrary Envelope) (envelope : Envelope) : PortablePath :=
  (envelopes.descriptor envelope).root

/-- A file of a stored object. -/
inductive FileOf (envelopes : EnvelopeLibrary Envelope) (envelope : Envelope) (path : PortablePath)
    (bytes : Bytes) : Prop
  | metadata {payload : FlatFiles} (h : envelopes.stored envelope = .ok (bytes, payload))
      (hpath : path.bytes = metadataFile (rootOf envelopes envelope))
  | payload {metadata : Bytes} {payload : FlatFiles} {relative : PortablePath}
      (h : envelopes.stored envelope = .ok (metadata, payload)) (hfile : payload[relative]? = some bytes)
      (hpath : path.bytes = payloadLead (rootOf envelopes envelope) ++ relative.bytes)

/-- An object that is stored, each of its files at a portable path. -/
structure Placed (envelopes : EnvelopeLibrary Envelope) (envelope : Envelope) (metadata : Bytes)
    (payload : FlatFiles) : Prop where
  stored : envelopes.stored envelope = .ok (metadata, payload)
  metadataPath : ∃ path : PortablePath, path.bytes = metadataFile (rootOf envelopes envelope)
  payloadPaths : ∀ (relative : PortablePath) (bytes : Bytes), payload[relative]? = some bytes →
    ∃ path : PortablePath, path.bytes = payloadLead (rootOf envelopes envelope) ++ relative.bytes

theorem insertFlat_files {text : Bytes} (h : insertFlat files text bytes = .ok files') {given : Bytes} :
    files'[path]? = some given ↔ files[path]? = some given ∨ path.bytes = text ∧ given = bytes := by
  obtain ⟨p, hp, hfresh, rfl⟩ := insertFlat_eq_ok.mp h
  rw [getElem?_insert]
  constructor
  · rintro (⟨rfl, rfl⟩ | ⟨-, hold⟩)
    · exact .inr ⟨hp.symm, rfl⟩
    · exact .inl hold
  · rintro (hold | ⟨hpath, rfl⟩)
    · refine .inr ⟨?_, hold⟩
      rintro rfl
      exact hfresh (OrdMap.mem_iff_getElem?.mpr ⟨given, hold⟩)
    · exact .inl ⟨Name.ext_bytes (hpath.trans hp), rfl⟩

theorem insertPayloads_files {root : PortablePath} {payload : List (PortablePath × Bytes)}
    (h : payload.foldlM (insertPayload root) files = .ok files') :
    (∀ (path : PortablePath) (bytes : Bytes), files'[path]? = some bytes ↔ files[path]? = some bytes ∨
      ∃ file ∈ payload, path.bytes = payloadLead root ++ file.1.bytes ∧ bytes = file.2) ∧
    ∀ file ∈ payload, ∃ path : PortablePath, path.bytes = payloadLead root ++ file.1.bytes := by
  induction payload generalizing files with
  | nil =>
    obtain rfl := Except.ok.inj h
    simp
  | cons file payload ih =>
    rw [List.foldlM_cons] at h
    obtain ⟨next, hnext, h⟩ := bind_eq_ok_iff.mp h
    obtain ⟨hfiles, hpaths⟩ := ih h
    refine ⟨fun path bytes => ?_, List.forall_mem_cons.mpr ⟨?_, hpaths⟩⟩
    · rw [hfiles, insertFlat_files hnext, or_assoc, List.exists_mem_cons_iff]
    · obtain ⟨p, hp, -⟩ := insertFlat_eq_ok.mp hnext
      exact ⟨p, hp.symm⟩

/-- Adding an object adds its files, where its metadata was not. -/
theorem insertEnvelope_files (h : insertEnvelope envelopes limits state envelope = .ok after) :
    (∃ metadata payload, Placed envelopes envelope metadata payload) ∧
    (∀ path : PortablePath, path.bytes = metadataFile (rootOf envelopes envelope) → path ∉ state.2) ∧
    ∀ (path : PortablePath) (bytes : Bytes), after.2[path]? = some bytes ↔
      state.2[path]? = some bytes ∨ FileOf envelopes envelope path bytes := by
  obtain ⟨_, -, h⟩ := bind_eq_ok_iff.mp h
  obtain ⟨_, -, h⟩ := bind_eq_ok_iff.mp h
  obtain ⟨⟨metadata, payload⟩, hstored, h⟩ := bind_eq_ok_iff.mp h
  obtain ⟨withMetadata, hmetadata, h⟩ := bind_eq_ok_iff.mp h
  obtain ⟨withPayload, hpayload, h⟩ := bind_eq_ok_iff.mp h
  obtain rfl := Except.ok.inj h
  obtain ⟨hfiles, hpaths⟩ := insertPayloads_files hpayload
  obtain ⟨p, hp, hfresh, -⟩ := insertFlat_eq_ok.mp hmetadata
  refine ⟨⟨metadata, payload, hstored, ⟨p, hp.symm⟩, fun relative bytes hfile => ?_⟩, ?_,
    fun path bytes => ?_⟩
  · exact hpaths (relative, bytes) (ExtTreeMap.mem_toList_iff_getElem?_eq_some.mpr hfile)
  · intro path hpath
    rwa [Name.ext_bytes (hpath.trans hp)]
  · rw [hfiles, insertFlat_files hmetadata, or_assoc]
    refine or_congr_right ?_
    constructor
    · rintro (⟨hpath, rfl⟩ | ⟨⟨relative, given⟩, hfile, hpath, rfl⟩)
      · exact .metadata hstored hpath
      · exact .payload hstored (ExtTreeMap.mem_toList_iff_getElem?_eq_some.mp hfile) hpath
    · intro hfile
      cases hfile with
      | metadata hstored' hpath =>
        rw [hstored] at hstored'
        exact .inl ⟨hpath, (Prod.mk.inj (Except.ok.inj hstored')).1.symm⟩
      | payload hstored' hfile hpath =>
        rw [hstored] at hstored'
        obtain ⟨-, rfl⟩ := Prod.mk.inj (Except.ok.inj hstored')
        exact .inr ⟨_, ExtTreeMap.mem_toList_iff_getElem?_eq_some.mpr hfile, hpath, rfl⟩

/-- The files of some objects with different roots. -/
structure Laid (envelopes : EnvelopeLibrary Envelope) (files : FlatFiles) (rest : List Envelope) : Prop where
  files : ∀ (path : PortablePath) (bytes : Bytes), files[path]? = some bytes ↔
    ∃ envelope ∈ rest, FileOf envelopes envelope path bytes
  placed : ∀ envelope ∈ rest, ∃ metadata payload, Placed envelopes envelope metadata payload
  roots : (rest.map (rootOf envelopes)).Nodup

theorem insertEnvelopes_laid (h : supplied.foldlM (insertEnvelope envelopes limits) state = .ok after) :
    (∀ envelope ∈ supplied, ∃ metadata payload, Placed envelopes envelope metadata payload) ∧
    (supplied.map (rootOf envelopes)).Nodup ∧
    (∀ envelope ∈ supplied, ∀ path : PortablePath,
      path.bytes = metadataFile (rootOf envelopes envelope) → path ∉ state.2) ∧
    ∀ (path : PortablePath) (bytes : Bytes), after.2[path]? = some bytes ↔
      state.2[path]? = some bytes ∨ ∃ envelope ∈ supplied, FileOf envelopes envelope path bytes := by
  induction supplied generalizing state with
  | nil =>
    obtain rfl := Except.ok.inj h
    simp
  | cons envelope supplied ih =>
    rw [List.foldlM_cons] at h
    obtain ⟨next, hnext, h⟩ := bind_eq_ok_iff.mp h
    obtain ⟨hplaced, hroots, hvacant, hfiles⟩ := ih h
    obtain ⟨⟨metadata, payload, hfirst⟩, hfresh, hadded⟩ := insertEnvelope_files hnext
    have hgrows {path : PortablePath} (hmem : path ∈ state.2) : path ∈ next.2 := by
      obtain ⟨bytes, hbytes⟩ := OrdMap.mem_iff_getElem?.mp hmem
      exact OrdMap.mem_iff_getElem?.mpr ⟨bytes, (hadded path bytes).mpr (.inl hbytes)⟩
    refine ⟨List.forall_mem_cons.mpr ⟨⟨metadata, payload, hfirst⟩, hplaced⟩, ?_, ?_, fun path bytes => ?_⟩
    · rw [List.map_cons, List.nodup_cons]
      refine ⟨fun hmem => ?_, hroots⟩
      obtain ⟨other, hother, hroot⟩ := List.mem_map.mp hmem
      obtain ⟨path, hpath⟩ := hfirst.metadataPath
      refine hvacant other hother path (by rw [hpath, hroot]) (OrdMap.mem_iff_getElem?.mpr ⟨metadata, ?_⟩)
      exact (hadded path metadata).mpr (.inr (.metadata hfirst.stored hpath))
    · exact List.forall_mem_cons.mpr ⟨hfresh, fun other hother path hpath hmem =>
        hvacant other hother path hpath (hgrows hmem)⟩
    · rw [hfiles, hadded, or_assoc, List.exists_mem_cons_iff]

end Laying

section TakingObjects

variable {Envelope : Type} {envelopes : EnvelopeLibrary Envelope} {envelope other : Envelope}
  {before after rest : List Envelope} {files files' payload : FlatFiles} {path : PortablePath}
  {bytes metadata : Bytes}

/-- An object is read back of what it is stored as. -/
structure EnvelopeLibrary.Lawful (envelopes : EnvelopeLibrary Envelope) : Prop where
  utf8 (envelope : Envelope) (metadata : Bytes) (payload : FlatFiles)
    (h : envelopes.stored envelope = .ok (metadata, payload)) : Utf8.valid metadata = true
  document (envelope : Envelope) (metadata : Bytes) (payload : FlatFiles)
    (h : envelopes.stored envelope = .ok (metadata, payload))
    (hkind : isDocument (envelopes.descriptor envelope).kind = true) : payload.isEmpty = true
  fromStored (envelope : Envelope) (metadata : Bytes) (payload : FlatFiles)
    (h : envelopes.stored envelope = .ok (metadata, payload)) :
    envelopes.fromStored (envelopes.descriptor envelope).kind (envelopes.descriptor envelope).root
      (envelopes.descriptor envelope).encodedLen metadata payload = .ok envelope

theorem Placed.fileOf (h : Placed envelopes envelope metadata payload) :
    FileOf envelopes envelope path bytes ↔
      path.bytes = metadataFile (rootOf envelopes envelope) ∧ bytes = metadata ∨
      ∃ relative : PortablePath, payload[relative]? = some bytes ∧
        path.bytes = payloadLead (rootOf envelopes envelope) ++ relative.bytes := by
  constructor
  · intro hfile
    cases hfile with
    | metadata hstored hpath =>
      rw [h.stored] at hstored
      exact .inl ⟨hpath, (Prod.mk.inj (Except.ok.inj hstored)).1.symm⟩
    | @payload _ _ relative hstored hfile hpath =>
      rw [h.stored] at hstored
      obtain ⟨-, rfl⟩ := Prod.mk.inj (Except.ok.inj hstored)
      exact .inr ⟨relative, hfile, hpath⟩
  · rintro (⟨hpath, rfl⟩ | ⟨relative, hfile, hpath⟩)
    · exact .metadata h.stored hpath
    · exact .payload h.stored hfile hpath

/-- A file of another object is not below the payload of an object that is apart from it. -/
theorem FileOf.not_below {root : PortablePath} (h : FileOf envelopes other path bytes)
    (hne : root ≠ rootOf envelopes other) (hapart : RootsApart root (rootOf envelopes other)) :
    ¬ payloadLead root <+: path.bytes := by
  cases h with
  | metadata _ hpath =>
    rw [hpath]
    exact (payload_apart hne hapart).1
  | payload _ _ hpath =>
    rw [hpath]
    exact (payload_apart hne hapart).2 _

/-- A file of another object is not the metadata of an object that is apart from it. -/
theorem FileOf.not_metadata {root : PortablePath} (h : FileOf envelopes other path bytes)
    (hne : root ≠ rootOf envelopes other) (hapart : RootsApart root (rootOf envelopes other)) :
    path.bytes ≠ metadataFile root := by
  cases h with
  | metadata _ hpath =>
    rw [hpath]
    exact fun hsame => hne (metadataFile_injective hsame).symm
  | payload _ _ hpath =>
    intro hsame
    refine (payload_apart (Ne.symm hne) hapart.symm).1 ⟨_, hpath.symm.trans hsame⟩

theorem FileOf.not_snapshot (h : FileOf envelopes envelope path bytes) : path.bytes ≠ snapshotFile := by
  cases h with
  | metadata _ hpath =>
    rw [hpath, metadataFile]
    exact objectLead_ne_snapshot
  | payload _ _ hpath =>
    rw [hpath, payloadLead, List.append_assoc]
    exact objectLead_ne_snapshot

/-- An object is taken out of the files of some objects that are apart from it, and their files are left. -/
theorem takeVerifiedObject_laid (he : envelopes.Lawful)
    (h : Laid envelopes files (before ++ envelope :: after))
    (hapart : ∀ other ∈ before ++ after, RootsApart (rootOf envelopes envelope) (rootOf envelopes other)) :
    ∃ files', takeVerifiedObject envelopes files (envelopes.descriptor envelope) = .ok (envelope, files') ∧
      Laid envelopes files' (before ++ after) := by
  have hsplit : (before ++ envelope :: after).Perm (envelope :: (before ++ after)) := List.perm_middle
  have hmem : envelope ∈ before ++ envelope :: after := List.mem_append_right _ List.mem_cons_self
  obtain ⟨hnew, hroots⟩ := List.nodup_cons.mp ((hsplit.map (rootOf envelopes)).nodup h.roots)
  have hne : ∀ other ∈ before ++ after, rootOf envelopes envelope ≠ rootOf envelopes other :=
    fun other hother heq => hnew (List.mem_map.mpr ⟨other, hother, heq.symm⟩)
  have hfiles (path : PortablePath) (bytes : Bytes) : files[path]? = some bytes ↔
      FileOf envelopes envelope path bytes ∨
        ∃ other ∈ before ++ after, FileOf envelopes other path bytes := by
    rw [h.files]
    exact (exists_congr fun other => and_congr_left fun _ => hsplit.mem_iff).trans
      (List.exists_mem_cons_iff _ _ _)
  obtain ⟨metadata, payload, hplaced⟩ := h.placed envelope hmem
  obtain ⟨path, hpath⟩ := hplaced.metadataPath
  have hread : files[path]? = some metadata :=
    (hfiles path metadata).mpr (.inl (.metadata hplaced.stored hpath))
  generalize hleft : files.erase path = left
  have hbelow (q : PortablePath) (bytes : Bytes)
      (hlead : payloadLead (rootOf envelopes envelope) <+: q.bytes) :
      left[q]? = some bytes ↔ ∃ relative : PortablePath, payload[relative]? = some bytes ∧
        q.bytes = payloadLead (rootOf envelopes envelope) ++ relative.bytes := by
    have hnot : q.bytes ≠ metadataFile (rootOf envelopes envelope) := by
      obtain ⟨tail, htail⟩ := hlead
      rw [← htail]
      exact payload_ne_metadata
    have hother : q ≠ path := fun heq => hnot (heq ▸ hpath)
    rw [← hleft, getElem?_erase, and_iff_right hother, hfiles, hplaced.fileOf]
    constructor
    · rintro ((⟨hmetadata, -⟩ | hpayload) | ⟨other, hother, hfile⟩)
      · exact absurd hmetadata hnot
      · exact hpayload
      · exact absurd hlead (hfile.not_below (hne other hother) (hapart other hother))
    · exact fun hpayload => .inl (.inr hpayload)
  generalize hpaths : (left.keys.filter fun path =>
    (payloadLead (rootOf envelopes envelope)).isPrefixOf path.bytes) = paths
  have hmemPaths (q : PortablePath) : q ∈ paths ↔
      q ∈ left ∧ payloadLead (rootOf envelopes envelope) <+: q.bytes := by
    rw [← hpaths, List.mem_filter, ExtTreeMap.mem_keys, List.isPrefixOf_iff_prefix]
  have hnodup : paths.Nodup := hpaths ▸ ExtTreeMap.nodup_keys.filter _
  have hat : ∀ q ∈ paths, ∃ relative bytes,
      PayloadAt (rootOf envelopes envelope) left q relative bytes ∧ relative ∉ (∅ : FlatFiles) := by
    intro q hq
    obtain ⟨hin, hlead⟩ := (hmemPaths q).mp hq
    obtain ⟨bytes, hbytes⟩ := OrdMap.mem_iff_getElem?.mp hin
    obtain ⟨relative, -, hrelative⟩ := (hbelow q bytes hlead).mp hbytes
    exact ⟨relative, bytes, ⟨hrelative, hbytes⟩, ExtTreeMap.not_mem_empty⟩
  obtain ⟨payload', files', hfold, hpayload, hfiles'⟩ := takePayloads hnodup hat
  have hsame : payload' = payload := by
    refine ExtTreeMap.ext_getElem? fun relative => Option.ext fun bytes => ?_
    rw [hpayload]
    constructor
    · rintro (hempty | ⟨q, hq, hfound⟩)
      · simp at hempty
      · obtain ⟨other, hother, hbytes⟩ := (hbelow q bytes ((hmemPaths q).mp hq).2).mp hfound.found
        rwa [Name.ext_bytes (List.append_cancel_left (hbytes.symm.trans hfound.below))] at hother
    · intro hfile
      obtain ⟨q, hq⟩ := hplaced.payloadPaths relative bytes hfile
      have hlead : payloadLead (rootOf envelopes envelope) <+: q.bytes := ⟨_, hq.symm⟩
      have hfound := (hbelow q bytes hlead).mpr ⟨relative, hfile, hq⟩
      exact .inr ⟨q, (hmemPaths q).mpr ⟨OrdMap.mem_iff_getElem?.mpr ⟨bytes, hfound⟩, hlead⟩, hq, hfound⟩
  subst hsame
  refine ⟨files', ?_, ?_,
    fun other hother => h.placed other (hsplit.mem_iff.mpr (List.mem_cons_of_mem _ hother)), hroots⟩
  · refine bind_eq_ok_iff.mpr ⟨path, required_eq_ok.mpr (parse_eq_some.mpr hpath.symm), ?_⟩
    refine bind_eq_ok_iff.mpr ⟨metadata, required_eq_ok.mpr hread, ?_⟩
    refine bind_eq_ok_iff.mpr ⟨(), ?_, ?_⟩
    · rw [reject_eq_ok, he.utf8 _ _ _ hplaced.stored, Bool.not_true]
    simp only [hleft]
    refine bind_eq_ok_iff.mpr ⟨(payload', files'), hpaths ▸ hfold, bind_eq_ok_iff.mpr ⟨(), ?_, ?_⟩⟩
    · rw [reject_eq_ok, Bool.and_eq_false_iff]
      cases hkind : isDocument (envelopes.descriptor envelope).kind with
      | false => exact .inl rfl
      | true =>
        refine .inr ?_
        rw [he.document _ _ _ hplaced.stored hkind]
        rfl
    · exact bind_eq_ok_iff.mpr ⟨envelope, he.fromStored _ _ _ hplaced.stored, rfl⟩
  · intro q bytes
    rw [hfiles', ← hleft, getElem?_erase, hfiles]
    constructor
    · rintro ⟨hq, hnot, hfile | hother⟩
      · rcases hplaced.fileOf.mp hfile with ⟨hmetadata, -⟩ | ⟨relative, hfile', hrelative⟩
        · exact absurd (Name.ext_bytes (hmetadata.trans hpath.symm)) hnot
        · refine absurd ((hmemPaths q).mpr ⟨?_, _, hrelative.symm⟩) hq
          refine OrdMap.mem_iff_getElem?.mpr ⟨bytes, ?_⟩
          rw [← hleft, getElem?_erase]
          exact ⟨hnot, (hfiles q bytes).mpr (.inl hfile)⟩
      · exact hother
    · rintro ⟨other, hother, hfile⟩
      refine ⟨fun hq => ?_, fun hq => ?_, .inr ⟨other, hother, hfile⟩⟩
      · exact hfile.not_below (hne other hother) (hapart other hother) ((hmemPaths q).mp hq).2
      · exact hfile.not_metadata (hne other hother) (hapart other hother) (hq ▸ hpath)

/-- The objects of some descriptors are taken one after the other, and no file is left. -/
theorem takeDescriptors_laid (he : envelopes.Lawful) {descriptors : List ObjectDescriptor}
    {verified : VerifiedObjects Envelope} (hperm : descriptors.Perm (rest.map envelopes.descriptor))
    (h : Laid envelopes files rest)
    (hapart : ∀ a ∈ rest, ∀ b ∈ rest, RootsApart (rootOf envelopes a) (rootOf envelopes b))
    (hfresh : ∀ envelope ∈ rest, rootOf envelopes envelope ∉ verified) :
    ∃ files' verified',
      descriptors.foldlM (takeDescriptor envelopes) (files, verified) = .ok (files', verified') ∧
      Laid envelopes files' [] ∧
      ∀ (root : PortablePath) (envelope : Envelope), verified'[root]? = some envelope ↔
        verified[root]? = some envelope ∨ envelope ∈ rest ∧ rootOf envelopes envelope = root := by
  induction descriptors generalizing files verified rest with
  | nil =>
    rw [List.map_eq_nil_iff.mp hperm.nil_eq.symm] at h ⊢
    exact ⟨files, verified, rfl, h, by simp⟩
  | cons descriptor descriptors ih =>
    obtain ⟨envelope, henvelope, rfl⟩ := List.mem_map.mp (hperm.mem_iff.mp List.mem_cons_self)
    obtain ⟨before, after, rfl⟩ := List.append_of_mem henvelope
    have hsplit : (before ++ envelope :: after).Perm (envelope :: (before ++ after)) := List.perm_middle
    have hin {other : Envelope} (hother : other ∈ before ++ after) : other ∈ before ++ envelope :: after :=
      hsplit.mem_iff.mpr (List.mem_cons_of_mem _ hother)
    obtain ⟨hnew, -⟩ := List.nodup_cons.mp ((hsplit.map (rootOf envelopes)).nodup h.roots)
    obtain ⟨next, htake, hnext⟩ := takeVerifiedObject_laid he h fun other hother =>
      hapart envelope henvelope other (hin hother)
    have hvacant : rootOf envelopes envelope ∉ verified := hfresh envelope henvelope
    have hstep : takeDescriptor envelopes (files, verified) (envelopes.descriptor envelope) =
        .ok (next, verified.insert (rootOf envelopes envelope) envelope) := by
      refine bind_eq_ok_iff.mpr ⟨(envelope, next), htake, bind_eq_ok_iff.mpr ⟨(), ?_, rfl⟩⟩
      rw [reject_eq_ok, Bool.or_eq_false_iff, ← Bool.not_eq_true, ← Bool.not_eq_true,
        ExtTreeMap.contains_iff_mem]
      exact ⟨by simp, hvacant⟩
    have hfresh' : ∀ other ∈ before ++ after,
        rootOf envelopes other ∉ verified.insert (rootOf envelopes envelope) envelope := by
      intro other hother
      rw [ExtTreeMap.mem_insert]
      rintro (hsame | hmem)
      · exact hnew (List.mem_map.mpr ⟨other, hother, (LawfulEqCmp.eq_of_compare hsame).symm⟩)
      · exact hfresh other (hin hother) hmem
    have hrest : descriptors.Perm ((before ++ after).map envelopes.descriptor) :=
      (hperm.trans (hsplit.map envelopes.descriptor)).cons_inv
    obtain ⟨files', verified', hfold, hlaid, hverified⟩ := ih hrest hnext
      (fun a ha b hb => hapart a (hin ha) b (hin hb)) hfresh'
    refine ⟨files', verified', ?_, hlaid, fun root other => ?_⟩
    · rw [List.foldlM_cons, hstep]
      exact hfold
    · rw [hverified, getElem?_insert, hsplit.mem_iff, List.mem_cons]
      constructor
      · rintro ((⟨rfl, rfl⟩ | ⟨-, hold⟩) | ⟨hother, hroot⟩)
        · exact .inr ⟨.inl rfl, rfl⟩
        · exact .inl hold
        · exact .inr ⟨.inr hother, hroot⟩
      · rintro (hold | ⟨rfl | hother, hroot⟩)
        · refine .inl (.inr ⟨?_, hold⟩)
          rintro rfl
          exact hvacant (OrdMap.mem_iff_getElem?.mpr ⟨other, hold⟩)
        · exact .inl (.inl ⟨hroot.symm, rfl⟩)
        · exact .inr ⟨hother, hroot⟩

end TakingObjects

section Published

variable {Envelope : Type} {envelopes : EnvelopeLibrary Envelope} {blake3 : Bytes → Digest}
  {snapshots : SnapshotCodec} {staged : PortableSnapshot} {supplied : List Envelope} {published : SyncLimits}
  {files : FlatFiles}

/-- The files of a publication: the text of its snapshot, and the files of its objects. -/
theorem flatFiles_laid (h : flatFiles envelopes snapshots staged supplied published = .ok files) :
    OrdMap.setOf (supplied.map envelopes.descriptor) = staged.objects ∧
    ∃ (path : PortablePath) (text : Bytes), snapshotFile = path.bytes ∧
      staged.toJson snapshots published = .ok text ∧ files[path]? = some text ∧
      Laid envelopes (files.erase path) supplied := by
  obtain ⟨_, hsupplied, h⟩ := bind_eq_ok_iff.mp h
  obtain ⟨text, htext, h⟩ := bind_eq_ok_iff.mp h
  obtain ⟨first, hfirst, h⟩ := bind_eq_ok_iff.mp h
  obtain ⟨⟨total, all⟩, hall, h⟩ := bind_eq_ok_iff.mp h
  obtain rfl := Except.ok.inj h
  rw [reject_eq_ok, decide_eq_false_iff_not, ne_eq, not_not] at hsupplied
  obtain ⟨hplaced, hroots, -, hfiles⟩ := insertEnvelopes_laid hall
  obtain ⟨path, hpath, -, hinserted⟩ := insertFlat_eq_ok.mp hfirst
  have hempty {other : PortablePath} {bytes : Bytes} :
      first[other]? = some bytes ↔ other = path ∧ text = bytes := by
    rw [hinserted, getElem?_insert]
    simp
  refine ⟨hsupplied, path, text, hpath, mapError_eq_ok_iff.mp htext, ?_, fun other bytes => ?_, hplaced,
    hroots⟩
  · exact (hfiles path text).mpr (.inl (hempty.mpr ⟨rfl, rfl⟩))
  · rw [getElem?_erase, hfiles, hempty]
    constructor
    · rintro ⟨hne, ⟨hpath, -⟩ | hfile⟩
      · exact absurd hpath hne
      · exact hfile
    · rintro ⟨envelope, henvelope, hfile⟩
      refine ⟨?_, .inr ⟨envelope, henvelope, hfile⟩⟩
      rintro rfl
      exact hfile.not_snapshot hpath.symm

theorem Laid.files_empty (h : Laid envelopes files []) : files.isEmpty = true := by
  rw [ExtTreeMap.isEmpty_iff, ExtTreeMap.eq_empty_iff_forall_not_mem]
  intro path hmem
  obtain ⟨bytes, hbytes⟩ := OrdMap.mem_iff_getElem?.mp hmem
  obtain ⟨envelope, henvelope, -⟩ := (h.files path bytes).mp hbytes
  exact absurd henvelope List.not_mem_nil

/-- The snapshot and the objects of a publication are found among its files, where no object's root leads
into the payload of another. -/
theorem takeSnapshot_published (hs : snapshots.Lawful) (he : envelopes.Lawful) {limits : SyncLimits}
    {budget : Nat} {text : Bytes} (hcanonical : Canonical blake3 snapshots staged)
    (hfiles : flatFiles envelopes snapshots staged supplied published = .ok files)
    (hwithin : WithinLimits snapshots staged limits text) (hutf8 : Utf8.valid text = true)
    (hbudget : text.length ≤ budget)
    (hapart : ∀ d ∈ staged.objects, ∀ d' ∈ staged.objects, RootsApart d.root d'.root) :
    ∃ verified, takeSnapshot envelopes blake3 snapshots limits files budget =
        .ok (staged, verified, budget - text.length) ∧
      ∀ (root : PortablePath) (envelope : Envelope), verified[root]? = some envelope ↔
        envelope ∈ supplied ∧ rootOf envelopes envelope = root := by
  obtain ⟨hobjects, path, text', hpath, htext, hread, hlaid⟩ := flatFiles_laid hfiles
  obtain rfl := toJson_text hwithin.encoded htext
  have hmem {envelope : Envelope} (henvelope : envelope ∈ supplied) :
      envelopes.descriptor envelope ∈ staged.objects := by
    rw [← hobjects, OrdMap.mem_setOf]
    exact List.mem_map.mpr ⟨envelope, henvelope, rfl⟩
  have hnodup : (supplied.map envelopes.descriptor).Nodup := by
    refine List.Nodup.of_map ObjectDescriptor.root ?_
    rw [List.map_map]
    exact hlaid.roots
  have hperm : staged.objects.toList.Perm (supplied.map envelopes.descriptor) := by
    refine (List.perm_ext_iff_of_nodup OrdMap.nodup_toList hnodup).mpr fun descriptor => ?_
    rw [ExtTreeSet.mem_toList, ← hobjects, OrdMap.mem_setOf]
  obtain ⟨left, verified, hfold, hleft, hverified⟩ := takeDescriptors_laid he hperm hlaid
    (fun a ha b hb => hapart _ (hmem ha) _ (hmem hb))
    (fun envelope _ =>
      (ExtTreeMap.not_mem_empty : rootOf envelopes envelope ∉ (∅ : VerifiedObjects Envelope)))
  refine ⟨verified, ?_, fun root envelope => ?_⟩
  · refine bind_eq_ok_iff.mpr ⟨path, required_eq_ok.mpr (parse_eq_some.mpr hpath), ?_⟩
    refine bind_eq_ok_iff.mpr ⟨text, required_eq_ok.mpr hread, bind_eq_ok_iff.mpr ⟨(), ?_, ?_⟩⟩
    · rw [reject_eq_ok, decide_eq_false_iff_not, Nat.not_lt]
      exact hbudget
    refine bind_eq_ok_iff.mpr ⟨(), ?_, bind_eq_ok_iff.mpr ⟨staged, ?_, ?_⟩⟩
    · rw [reject_eq_ok, hutf8, Bool.not_true]
    · exact mapError_eq_ok_iff.mpr (fromJson_complete hs hcanonical hwithin)
    refine bind_eq_ok_iff.mpr ⟨(left, verified), hfold, bind_eq_ok_iff.mpr ⟨(), ?_, rfl⟩⟩
    rw [reject_eq_ok, hleft.files_empty, Bool.not_true]
  · rw [hverified]
    simp

end Published

section Reading

variable {ObjectId : Type} [Ord ObjectId] [TransOrd ObjectId] {Envelope : Type} {lib : GitCodec ObjectId}
  {envelopes : EnvelopeLibrary Envelope} {blake3 : Bytes → Digest} {snapshots : SnapshotCodec}
  {p : Proposal lib envelopes blake3 snapshots} {parent : Option ObjectId} {tree : ObjectId}
  {flat : FlatFiles} {root : GitTreeNode} {fetched : FetchedGit ObjectId} {limits : GitLimits}
  {budget visits : Nat} {text : Bytes}

theorem noEnvelopes_lawful : noEnvelopes.Lawful where
  utf8 envelope := envelope.elim
  document envelope := envelope.elim
  fromStored envelope := envelope.elim

theorem emptySnapshot_read : Utf8.valid (sampleEnvelopeText ++ [newline]) = true ∧
    (sampleEnvelopeText ++ [newline]).length ≤ 4096 ∧
    emptySnapshot.toJson sampleCodec SyncLimits.default = .ok (sampleEnvelopeText ++ [newline]) ∧
    PortableSnapshot.new (fun _ => zeroDigest) sampleCodec ⟨∅, ∅, ∅, ∅⟩ ∅ SyncLimits.default =
      .ok emptySnapshot := by decide +kernel

end Reading

end Kitrove.Git
