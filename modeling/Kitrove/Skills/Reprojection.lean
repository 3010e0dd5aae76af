import Kitrove.Skills.Frontmatter

/-! Portable skills: a projected document is read as its manifest and its body, and projected again
as it is, as far as it is within the limits. -/

namespace Kitrove.Skills

open Std Lines
open Prompts (Utf8Text delimiter openingBytes replaceCrlf_of_noReturn stripReturn)

/-- A library that reads back the mappings it writes, in lines of which none is a delimiter. -/
structure YamlLibrary.Lawful (library : YamlLibrary) : Prop where
  reads : ∀ manifest text, library.write manifest = some text →
    library.read text.bytes = .mapping (writtenEntries manifest.fields)
  ended : ∀ manifest text, library.write manifest = some text → Ended newline text.bytes
  undelimited : ∀ manifest text, library.write manifest = some text →
    ∀ line ∈ splitInclusive newline text.bytes, stripReturn (stripNewline line) ≠ delimiter

section Splitting

variable {front text body : Bytes} {lines : List Bytes}

theorem closeDocument_append {line : Bytes} {rest : List Bytes}
    (h : ∀ line ∈ lines, stripReturn (stripNewline line) ≠ delimiter)
    (hline : stripReturn (stripNewline line) = delimiter) :
    closeDocument front (lines ++ line :: rest) = some (front ++ lines.flatten, rest.flatten) := by
  induction lines generalizing front with
  | nil => rw [List.nil_append, closeDocument, if_pos hline, List.flatten_nil, List.append_nil]
  | cons other lines ih =>
    obtain ⟨hother, hlines⟩ := List.forall_mem_cons.mp h
    rw [List.cons_append, closeDocument, if_neg hother, ih hlines, List.flatten_cons,
      List.append_assoc]

theorem splitInclusive_append (h : Ended newline text) :
    splitInclusive newline (text ++ body) =
      splitInclusive newline text ++ splitInclusive newline body := by
  have hlines : AreLines newline (splitInclusive newline text ++ splitInclusive newline body) := by
    refine areLines_append.mpr ⟨areLines_splitInclusive, areLines_splitInclusive, fun _ => ?_⟩
    refine (@areLines_splitInclusive _ _ newline text).ended_iff.mpr (.inr ?_)
    rwa [flatten_splitInclusive]
  rw [← splitInclusive_flatten hlines, List.flatten_append, flatten_splitInclusive,
    flatten_splitInclusive]

theorem splitFrontmatter_document (path : Bytes) (hended : Ended newline text)
    (h : ∀ line ∈ splitInclusive newline text, stripReturn (stripNewline line) ≠ delimiter) :
    splitFrontmatter path (ascii "---\n" ++ (text ++ (ascii "---\n" ++ body))) = .ok (text, body) := by
  have hclosing : splitInclusive newline (ascii "---\n" ++ body) =
      ascii "---\n" :: splitInclusive newline body :=
    splitInclusive_ended_append (l := delimiter) (by decide)
  have hclose : closeDocument [] (splitInclusive newline (text ++ (ascii "---\n" ++ body))) =
      some (text, body) := by
    rw [splitInclusive_append hended, hclosing, closeDocument_append h (by decide),
      flatten_splitInclusive, flatten_splitInclusive, List.nil_append]
  have hopening : openingBytes (ascii "---\n" ++ (text ++ (ascii "---\n" ++ body))) = some 4 := rfl
  have hdrop : (ascii "---\n" ++ (text ++ (ascii "---\n" ++ body))).drop 4 =
      text ++ (ascii "---\n" ++ body) := rfl
  simp only [splitFrontmatter, hopening, hdrop, hclose]
  rfl

end Splitting

section Reading

variable {library : YamlLibrary} {manifest : ProjectedManifest} {text : Utf8Text} {body path : Bytes}

def documentOf (text body : Bytes) : Bytes := ascii "---\n" ++ (text ++ (ascii "---\n" ++ body))

theorem documentOf_length (text body : Bytes) :
    (documentOf text body).length = 8 + text.length + body.length := by
  have hopening : (ascii "---\n").length = 4 := rfl
  simp only [documentOf, List.length_append, hopening]
  omega

theorem documentOf_valid (hbody : Utf8.valid body = true) :
    Utf8.valid (documentOf text.bytes body) = true := by
  have hopening : Utf8.valid (ascii "---\n") = true := by decide
  rw [documentOf, Utf8.valid_append hopening, Utf8.valid_append text.utf8, Utf8.valid_append hopening]
  exact hbody

/-- The limits of the parser, in the terms of what is written. -/
def WithinLimits (manifest : ProjectedManifest) (text body : Bytes) : Prop :=
  8 + text.length + body.length ≤ maxSkillDocumentBytes ∧
    1 + writtenNodes manifest.fields ≤ maxYamlNodes

theorem parseObserved_written (hlaw : library.Lawful) (hwrite : library.write manifest = some text)
    (hbody : Utf8.valid body = true) (document : ObservedSkillDocument) :
    parseObservedSkillDocument library.read path (documentOf text.bytes body) = .ok document ↔
      WithinLimits manifest text.bytes body ∧ document = manifest.read.observed body := by
  have hlength := documentOf_length text.bytes body
  have hsplit : splitFrontmatter path (documentOf text.bytes body) = .ok (text.bytes, body) :=
    splitFrontmatter_document path (hlaw.ended manifest text hwrite)
      (hlaw.undelimited manifest text hwrite)
  rw [parseObservedSkillDocument, hlength, documentOf_valid hbody, hsplit, WithinLimits]
  by_cases hsize : 8 + text.bytes.length + body.length ≤ maxSkillDocumentBytes
  · rw [if_neg (Nat.not_lt.mpr hsize), if_neg nofun]
    change parseFrontmatter library.read path text.bytes body = _ ↔ _
    rw [parseFrontmatter, hlaw.reads manifest text hwrite, manifest.readFrontmatter_fields]
    by_cases hnodes : 1 + writtenNodes manifest.fields ≤ maxYamlNodes
    · rw [if_pos hnodes]
      constructor
      · intro h
        exact ⟨⟨hsize, hnodes⟩, (Except.ok.inj h).symm⟩
      · rintro ⟨-, rfl⟩
        rfl
    · rw [if_neg hnodes]
      exact iff_of_false nofun fun h => hnodes h.1.2
  · rw [if_pos (Nat.lt_of_not_le hsize)]
    exact iff_of_false nofun fun h => hsize h.1.1

end Reading

section Manifests

variable {library : YamlLibrary} {document : ObservedSkillDocument} {metadata : OrdMap Bytes Bytes}
  {name : AssetId} {description path body : Bytes} {manifest : SkillManifest}

/-- The conditions on the optional fields. -/
structure OptionalFields (document : ObservedSkillDocument) : Prop where
  license : (document.declares (ascii "license") && document.license.isNone) = false
  compatibility : (document.declares (ascii "compatibility") && document.compatibility.isNone) = false
  compatibilityLength :
    (document.compatibility.any fun value => value.isEmpty || Prompts.charCount value > 500) = false
  metadata : (document.declares (ascii "metadata") && document.metadata.isNone) = false
  secretFree : (document.metadata.getD ∅).keys.any secretMetadataKey = false
  allowedTools : (document.declares (ascii "allowed-tools") && document.allowedTools.isNone) = false

theorem ite_throw_eq_ok {α : Type} {refused : Bool} {error : SkillError} {rest : Except SkillError α}
    {value : α} : (if refused = true then throw error else rest) = .ok value ↔
      refused = false ∧ rest = .ok value := by
  cases refused with
  | false => exact iff_of_eq (by rw [if_neg nofun, eq_self, true_and])
  | true => exact iff_of_false nofun nofun

theorem checkOptionalFields_eq_ok : checkOptionalFields path document = .ok metadata ↔
    OptionalFields document ∧ document.metadata.getD ∅ = metadata := by
  rw [checkOptionalFields, ite_throw_eq_ok, ite_throw_eq_ok, ite_throw_eq_ok, ite_throw_eq_ok,
    ite_throw_eq_ok, ite_throw_eq_ok, Except.pure_eq_ok_iff]
  constructor
  · rintro ⟨hlicense, hcompatibility, hlength, hmetadata, hsecret, htools, h⟩
    exact ⟨⟨hlicense, hcompatibility, hlength, hmetadata, hsecret, htools⟩, h⟩
  · rintro ⟨⟨hlicense, hcompatibility, hlength, hmetadata, hsecret, htools⟩, h⟩
    exact ⟨hlicense, hcompatibility, hlength, hmetadata, hsecret, htools, h⟩

theorem projectedManifest_eq_ok : projectedManifest path document name description = .ok manifest ↔
    isStandardSkillName name.bytes = true ∧ isStandardSkillDescription description = true ∧
      OptionalFields document ∧
        manifest = manifestOf name description document (document.metadata.getD ∅) := by
  unfold projectedManifest
  cases isStandardSkillName name.bytes with
  | false => exact iff_of_false nofun fun h => nomatch h.1
  | true =>
    cases isStandardSkillDescription description with
    | false => exact iff_of_false nofun fun h => nomatch h.2.1
    | true =>
      rw [if_neg nofun, if_neg nofun, Except.bind_eq_ok_iff]
      constructor
      · rintro ⟨metadata, hcheck, h⟩
        obtain ⟨hfields, rfl⟩ := checkOptionalFields_eq_ok.mp hcheck
        exact ⟨rfl, rfl, hfields, (Except.ok.inj h).symm⟩
      · rintro ⟨-, -, hfields, rfl⟩
        exact ⟨_, checkOptionalFields_eq_ok.mpr ⟨hfields, rfl⟩, rfl⟩

/-- The fields that a projection writes of a document. -/
def portableFields (document : ObservedSkillDocument) (name : AssetId) (description : Bytes) :
    ProjectedManifest :=
  (manifestOf name description document (document.metadata.getD ∅)).projected

/-- The document as which the written fields are read again. -/
def rereadDocument (document : ObservedSkillDocument) (name : AssetId) (description : Bytes) :
    ObservedSkillDocument :=
  (portableFields document name description).read.observed (canonicalBody document.body)

theorem portableFields_metadata :
    (portableFields document name description).metadata.getD ∅ = document.metadata.getD ∅ := by
  change (if (document.metadata.getD ∅).isEmpty then none else some (document.metadata.getD ∅)).getD ∅
    = _
  split
  · rename_i hempty
    exact (ExtTreeMap.isEmpty_iff.mp hempty).symm
  · rfl

theorem rereadDocument_fields : OptionalFields document →
    OptionalFields (rereadDocument document name description) := by
  intro hfields
  obtain ⟨hlicense, hlicense'⟩ := stringField_read
    (portableFields document name description).lookup_license
  obtain ⟨hcompatibility, hcompatibility'⟩ := stringField_read
    (portableFields document name description).lookup_compatibility
  obtain ⟨htools, htools'⟩ := stringField_read
    (portableFields document name description).lookup_allowedTools
  obtain ⟨hmetadata, hmetadata'⟩ :=
    @stringMappingField_read (portableFields document name description)
  have hpresent : ∀ value : Option Bytes, (value.isSome && value.isNone) = false := by
    intro value
    cases value <;> rfl
  exact {
    license := by
      rw [rereadDocument, ObservedSkillDocument.declares, FrontmatterFields.observed, hlicense',
        hlicense, hpresent]
    compatibility := by
      rw [rereadDocument, ObservedSkillDocument.declares, FrontmatterFields.observed, hcompatibility',
        hcompatibility, hpresent]
    compatibilityLength := by
      rw [rereadDocument, FrontmatterFields.observed, hcompatibility]
      exact hfields.compatibilityLength
    metadata := by
      rw [rereadDocument, ObservedSkillDocument.declares, FrontmatterFields.observed, hmetadata',
        hmetadata]
      cases (portableFields document name description).metadata <;> rfl
    secretFree := by
      rw [rereadDocument, FrontmatterFields.observed, hmetadata, portableFields_metadata]
      exact hfields.secretFree
    allowedTools := by
      rw [rereadDocument, ObservedSkillDocument.declares, FrontmatterFields.observed, htools', htools,
        hpresent] }

theorem manifestOf_reread :
    manifestOf name description (rereadDocument document name description)
        ((rereadDocument document name description).metadata.getD ∅) =
      manifestOf name description document (document.metadata.getD ∅) := by
  obtain ⟨hlicense, -⟩ := stringField_read
    (portableFields document name description).lookup_license
  obtain ⟨hcompatibility, -⟩ := stringField_read
    (portableFields document name description).lookup_compatibility
  obtain ⟨htools, -⟩ := stringField_read
    (portableFields document name description).lookup_allowedTools
  obtain ⟨hmetadata, -⟩ := @stringMappingField_read (portableFields document name description)
  rw [manifestOf, rereadDocument, FrontmatterFields.observed, hlicense, hcompatibility, htools,
    hmetadata, portableFields_metadata]
  rfl

theorem declaredSkillName_reread (hname : isStandardSkillName name.bytes = true) :
    declaredSkillName path (rereadDocument document name description) = .ok name := by
  have hread : (rereadDocument document name description).declaredName = some name.bytes :=
    (@stringField_read (portableFields document name description) _ (some name.bytes) rfl).1
  have hparse : Name.parse .asset name.bytes = some name := dif_pos ⟨name.valid, name.bounded⟩
  simp only [declaredSkillName, hread, hname, Bool.true_eq_false, if_false, hparse]
  rfl

theorem declaredDescription_reread (hdescription : isStandardSkillDescription description = true) :
    declaredDescription path (rereadDocument document name description) = .ok description := by
  have hread : (rereadDocument document name description).description = some description :=
    (@stringField_read (portableFields document name description) _ (some description) rfl).1
  rw [declaredDescription, hread]
  change (if isStandardSkillDescription description = false then _ else pure description) = _
  rw [hdescription, if_neg nofun]
  rfl

theorem rereadDocument_native : (rereadDocument document name description).nativeFields = ∅ :=
  nativeFields_insertWritten (portableFields document name description).fields_standard

end Manifests

section Results

variable {library : YamlLibrary} {blake3 : Bytes → Digest} {captured : CapturedSkillSource}
  {name : AssetId} {description path bytes : Bytes} {reasons : List FidelityReason}
  {projection : PortableProjection} {document : ObservedSkillDocument}

theorem closeDocument_valid {front : Bytes} {lines : List Bytes} {parts : Bytes × Bytes}
    (hlines : AreLines newline lines) (hvalid : Utf8.valid lines.flatten = true)
    (h : closeDocument front lines = some parts) : Utf8.valid parts.2 = true := by
  induction lines generalizing front with
  | nil => exact nomatch h
  | cons line lines ih =>
    have hrest := Prompts.valid_lines hlines (by rwa [List.flatten_cons] at hvalid)
    rw [closeDocument] at h
    split at h
    · cases h
      exact hrest
    · exact ih hlines.2.2 hrest h

theorem splitFrontmatter_valid {source : Bytes} {parts : Bytes × Bytes}
    (hvalid : Utf8.valid source = true) (h : splitFrontmatter path source = .ok parts) :
    Utf8.valid parts.2 = true := by
  rw [splitFrontmatter] at h
  cases hopening : openingBytes source with
  | none =>
    rw [hopening] at h
    exact nomatch h
  | some opening =>
    obtain ⟨front, hsource, hfront⟩ := Prompts.openingBytes_eq_some hopening
    have hrest : Utf8.valid (source.drop opening) = true := by
      rwa [hsource, Utf8.valid_append hfront] at hvalid
    rw [hopening] at h
    cases hclose : closeDocument [] (splitInclusive newline (source.drop opening)) with
    | none =>
      simp only [hclose] at h
      exact nomatch h
    | some closed =>
      simp only [hclose] at h
      cases h
      exact closeDocument_valid areLines_splitInclusive (by rwa [flatten_splitInclusive]) hclose

theorem parseFrontmatter_body {source body : Bytes}
    (h : parseFrontmatter library.read path source body = .ok document) : document.body = body := by
  rw [parseFrontmatter] at h
  cases hread : (readFrontmatter (containsYamlAliasReference source) (library.read source)).mapError
      (frontmatterError path) with
  | error e =>
    rw [hread] at h
    exact nomatch h
  | ok fields =>
    rw [hread] at h
    cases h
    rfl

/-- The body of an observed document is valid text. -/
theorem parseObserved_body (h : parseObservedSkillDocument library.read path bytes = .ok document) :
    Utf8.valid document.body = true := by
  rw [parseObservedSkillDocument] at h
  split at h
  · exact nomatch h
  split at h
  · exact nomatch h
  rename_i hutf8
  have hvalid : Utf8.valid bytes = true := Bool.eq_true_of_not_eq_false hutf8
  cases hsplit : splitFrontmatter path bytes with
  | ok parts =>
    rw [hsplit] at h
    rw [parseFrontmatter_body h]
    exact splitFrontmatter_valid hvalid hsplit
  | error e =>
    simp only [hsplit] at h
    split at h
    · cases h
      exact hvalid
    · exact nomatch h

/-- A successful projection, by the text of its frontmatter. -/
theorem projectSkillSource_eq_ok :
    projectSkillSource library blake3 captured name description reasons = .ok projection ↔
      ∃ text, library.write (portableFields captured.document name description) = some text ∧
        isStandardSkillName name.bytes = true ∧ isStandardSkillDescription description = true ∧
        OptionalFields captured.document ∧
        (captured.exactTree.files.erase captured.originalDocumentName).contains skillDocumentPath =
          false ∧
        projection = .available
          (manifestOf name description captured.document (captured.document.metadata.getD ∅))
          captured.document.body
          ⟨projectedFiles captured (documentOf text.bytes (canonicalBody captured.document.body)),
            hashTree blake3 (projectedFiles captured
              (documentOf text.bytes (canonicalBody captured.document.body)))⟩
          (if captured.document.nativeFields.isEmpty then reasons
            else reasons ++ [nativeFieldOmitted]) := by
  rw [projectSkillSource, Except.bind_eq_ok_iff]
  constructor
  · rintro ⟨manifest, hmanifest, h⟩
    obtain ⟨hname, hdescription, hfields, rfl⟩ := projectedManifest_eq_ok.mp hmanifest
    obtain ⟨bytes, hbytes, h⟩ := Except.bind_eq_ok_iff.mp h
    rw [ite_throw_eq_ok] at h
    obtain ⟨hvacant, h⟩ := h
    rw [projectDocument] at hbytes
    cases hwrite : library.write (portableFields captured.document name description) with
    | none =>
      rw [portableFields] at hwrite
      simp only [hwrite] at hbytes
      exact nomatch hbytes
    | some text =>
      rw [portableFields] at hwrite
      simp only [hwrite] at hbytes
      cases hbytes
      exact ⟨text, rfl, hname, hdescription, hfields, hvacant, (Except.ok.inj h).symm⟩
  · rintro ⟨text, hwrite, hname, hdescription, hfields, hvacant, rfl⟩
    rw [portableFields] at hwrite
    refine ⟨_, projectedManifest_eq_ok.mpr ⟨hname, hdescription, hfields, rfl⟩, ?_⟩
    refine Except.bind_eq_ok_iff.mpr
      ⟨documentOf text.bytes (canonicalBody captured.document.body), ?_, ?_⟩
    · rw [projectDocument, hwrite]
      rfl
    · rw [ite_throw_eq_ok]
      exact ⟨hvacant, rfl⟩

theorem getElem?_projectedFiles : (projectedFiles captured bytes)[skillDocumentPath]? =
    some ⟨(captured.exactTree.files.get captured.originalDocumentName captured.principal).mode,
      bytes⟩ :=
  ExtTreeMap.getElem?_insert_self

/-- A document that is written again where it stands changes no file. -/
theorem projectedFiles_again {layout : SkillSourceLayout} {tree : CapturedTree} {mode : FileMode}
    (hmem : skillDocumentPath ∈ tree.files) (hfile : tree.files[skillDocumentPath]? = some ⟨mode, bytes⟩) :
    projectedFiles ⟨layout, skillDocumentPath, document, tree, hmem⟩ bytes = tree.files := by
  have hget : tree.files.get skillDocumentPath hmem = ⟨mode, bytes⟩ :=
    Option.some.inj ((ExtTreeMap.getElem?_eq_some_getElem hmem).symm.trans hfile)
  refine ExtTreeMap.ext_getElem? fun key => ?_
  rw [projectedFiles, ExtTreeMap.getElem?_insert, ExtTreeMap.getElem?_erase]
  by_cases hsame : compare skillDocumentPath key = .eq
  · obtain rfl : skillDocumentPath = key := LawfulEqCmp.eq_of_compare hsame
    rw [if_pos hsame, hget, hfile]
  · rw [if_neg hsame, if_neg hsame]

theorem skillDocumentPath_mem : skillDocumentPath ∈ projectedFiles captured bytes :=
  OrdMap.mem_iff_getElem?.mpr ⟨_, getElem?_projectedFiles⟩

variable (library blake3 captured name description projection) in
/-- The projected document is read as the manifest and the canonical body, and projected again as it
is. -/
def ReadsBack : Prop :=
  ∃ manifest tree reasons file,
    projection = .available manifest captured.document.body tree reasons ∧
    tree.files[skillDocumentPath]? = some file ∧
    (∀ path, parseSkillDocument library.read path file.bytes =
      .ok ⟨manifest, canonicalBody captured.document.body, ∅⟩) ∧
    ∃ (hfile : skillDocumentPath ∈ tree.files) (document : ObservedSkillDocument),
      (∀ path, parseObservedSkillDocument library.read path file.bytes = .ok document) ∧
      ∀ reasons, projectSkillSource library blake3
        ⟨.directory, skillDocumentPath, document, tree, hfile⟩ name description reasons =
          .ok (.available manifest document.body tree reasons)

/-- What is written of a document, with the delimiters and the canonical body, is within the limits of
the parser. -/
def Fits (library : YamlLibrary) (document : ObservedSkillDocument) (name : AssetId)
    (description : Bytes) : Prop :=
  ∀ text, library.write (portableFields document name description) = some text →
    WithinLimits (portableFields document name description) text.bytes (canonicalBody document.body)

theorem fits_of_readsBack (hlaw : library.Lawful)
    (hread : parseObservedSkillDocument library.read path bytes = .ok captured.document)
    (hproject : projectSkillSource library blake3 captured name description reasons =
      .ok projection)
    (h : ReadsBack library blake3 captured name description projection) :
    Fits library captured.document name description := by
  obtain ⟨text, hwrite, -, -, -, -, rfl⟩ := projectSkillSource_eq_ok.mp hproject
  have hbody : Utf8.valid (canonicalBody captured.document.body) = true :=
    canonicalBody_valid (parseObserved_body hread)
  obtain ⟨manifest, tree, reasons', file, hprojection, hfile, -, -, document, hdocument, -⟩ := h
  intro text' htext'
  obtain rfl : text = text' := Option.some.inj (hwrite.symm.trans htext')
  cases hprojection
  rw [getElem?_projectedFiles] at hfile
  cases hfile
  exact ((parseObserved_written hlaw hwrite hbody document).mp (hdocument [])).1

theorem readsBack_of_fits (hlaw : library.Lawful)
    (hread : parseObservedSkillDocument library.read path bytes = .ok captured.document)
    (hproject : projectSkillSource library blake3 captured name description reasons =
      .ok projection)
    (hfits : Fits library captured.document name description) :
    ReadsBack library blake3 captured name description projection := by
  obtain ⟨text, hwrite, hname, hdescription, hfields, hvacant, rfl⟩ :=
    projectSkillSource_eq_ok.mp hproject
  have hbody : Utf8.valid (canonicalBody captured.document.body) = true :=
    canonicalBody_valid (parseObserved_body hread)
  have hobserved : ∀ path, parseObservedSkillDocument library.read path
      (documentOf text.bytes (canonicalBody captured.document.body)) =
        .ok (rereadDocument captured.document name description) := fun path =>
    (parseObserved_written hlaw hwrite hbody _).mpr ⟨hfits text hwrite, rfl⟩
  have hagain := @rereadDocument_fields captured.document name description hfields
  refine ⟨_, _, _, _, rfl, getElem?_projectedFiles, fun path => ?_, skillDocumentPath_mem, _,
    hobserved, fun reasons' => ?_⟩
  · have hstarts : startsFrontmatterDelimiter
        (documentOf text.bytes (canonicalBody captured.document.body)) = true := rfl
    refine Except.bind_eq_ok_iff.mpr ⟨_, hobserved path, ?_⟩
    rw [if_neg (by rw [hstarts]; exact nofun)]
    refine Except.bind_eq_ok_iff.mpr ⟨_, declaredSkillName_reread hname, ?_⟩
    refine Except.bind_eq_ok_iff.mpr ⟨_, declaredDescription_reread hdescription, ?_⟩
    refine Except.bind_eq_ok_iff.mpr ⟨_, checkOptionalFields_eq_ok.mpr ⟨hagain, rfl⟩, ?_⟩
    rw [manifestOf_reread, rereadDocument_native]
    rfl
  · have hwrite' : library.write (portableFields (rereadDocument captured.document name description)
        name description) = some text := by
      rw [portableFields, manifestOf_reread]
      exact hwrite
    have herased : ((projectedFiles captured (documentOf text.bytes
        (canonicalBody captured.document.body))).erase skillDocumentPath).contains
          skillDocumentPath = false := by
      rw [ExtTreeMap.contains_erase, compare_self]
      rfl
    refine projectSkillSource_eq_ok.mpr
      ⟨text, hwrite', hname, hdescription, hagain, herased, ?_⟩
    have hfiles : projectedFiles ⟨.directory, skillDocumentPath,
        rereadDocument captured.document name description,
        ⟨projectedFiles captured (documentOf text.bytes (canonicalBody captured.document.body)),
          hashTree blake3 (projectedFiles captured
            (documentOf text.bytes (canonicalBody captured.document.body)))⟩,
        skillDocumentPath_mem⟩
        (documentOf text.bytes
          (canonicalBody (rereadDocument captured.document name description).body)) =
        projectedFiles captured
          (documentOf text.bytes (canonicalBody captured.document.body)) := by
      change projectedFiles _ (documentOf text.bytes
        (canonicalBody (canonicalBody captured.document.body))) = _
      rw [canonicalBody_idem]
      exact projectedFiles_again skillDocumentPath_mem getElem?_projectedFiles
    rw [hfiles, manifestOf_reread, rereadDocument_native]
    rfl

end Results

section Samples

variable {body : Bytes}

theorem sampleSkillName_valid : NameKind.asset.valid (ascii "a") = true := by decide

theorem sampleSkillName_bounded : (ascii "a").length < 2 ^ 63 := by decide

def sampleSkillName : AssetId := ⟨ascii "a", sampleSkillName_valid, sampleSkillName_bounded⟩

def sampleManifest : ProjectedManifest := ⟨ascii "a", ascii "b", none, none, none, none⟩

def sampleFrontmatter : Utf8Text := ⟨ascii "name: a\ndescription: b\n", by decide⟩

/-- A library of one mapping. -/
def sampleYaml : YamlLibrary where
  read text :=
    if text = sampleFrontmatter.bytes then .mapping (writtenEntries sampleManifest.fields) else .broken
  write manifest := if manifest = sampleManifest then some sampleFrontmatter else none

theorem sampleYaml_write {manifest : ProjectedManifest} {text : Utf8Text}
    (h : sampleYaml.write manifest = some text) :
    manifest = sampleManifest ∧ text = sampleFrontmatter := by
  change (if manifest = sampleManifest then some sampleFrontmatter else none) = _ at h
  split at h
  · rename_i hmanifest
    exact ⟨hmanifest, (Option.some.inj h).symm⟩
  · exact nomatch h

theorem sampleYaml_lawful : sampleYaml.Lawful where
  reads manifest text h := by
    obtain ⟨rfl, rfl⟩ := sampleYaml_write h
    exact @if_pos (sampleFrontmatter.bytes = sampleFrontmatter.bytes) _ rfl _ _ YamlNode.broken
  ended manifest text h := by
    obtain ⟨rfl, rfl⟩ := sampleYaml_write h
    rfl
  undelimited manifest text h := by
    obtain ⟨rfl, rfl⟩ := sampleYaml_write h
    decide

/-- The document of a text without frontmatter. -/
def plainDocument (body : Bytes) : ObservedSkillDocument :=
  ⟨∅, none, none, none, none, none, none, body, ∅⟩

theorem parseObserved_plain {readYaml : Bytes → YamlNode} {path : Bytes}
    (hlength : body.length ≤ maxSkillDocumentBytes) (hvalid : Utf8.valid body = true)
    (hplain : openingBytes body = none) :
    parseObservedSkillDocument readYaml path body = .ok (plainDocument body) := by
  have hsplit : splitFrontmatter path body = .error ⟨"skill.frontmatter_missing", path,
      "skill document must begin with a frontmatter delimiter"⟩ := by
    rw [splitFrontmatter, hplain]
    rfl
  rw [parseObservedSkillDocument, if_neg (Nat.not_lt.mpr hlength), hvalid, if_neg nofun, hsplit]
  simp only [startsFrontmatterDelimiter, hplain, Option.isSome_none, Bool.not_false, Bool.and_true,
    decide_true, if_true]
  rfl

def sampleSourcePath : PortablePath := ⟨ascii "a.md", by decide, by decide⟩

def sampleSource (blake3 : Bytes → Digest) (body : Bytes) : CapturedSkillSource where
  layout := .standalone
  originalDocumentName := sampleSourcePath
  document := plainDocument body
  exactTree := ⟨(∅ : OrdMap PortablePath CapturedFile).insert sampleSourcePath ⟨.regular, body⟩,
    hashTree blake3 ((∅ : OrdMap PortablePath CapturedFile).insert sampleSourcePath ⟨.regular, body⟩)⟩
  principal := ExtTreeMap.mem_insert_self

theorem portableFields_sample :
    portableFields (plainDocument body) sampleSkillName (ascii "b") = sampleManifest := rfl

theorem write_sample : sampleYaml.write
    (portableFields (plainDocument body) sampleSkillName (ascii "b")) = some sampleFrontmatter := by
  rw [portableFields_sample]
  exact @if_pos (sampleManifest = sampleManifest) _ rfl _ _ none

theorem projects_sample (blake3 : Bytes → Digest) (body : Bytes) :
    ∃ projection, projectSkillSource sampleYaml blake3 (sampleSource blake3 body) sampleSkillName
      (ascii "b") [] = .ok projection := by
  have hvacant : ((sampleSource blake3 body).exactTree.files.erase
      (sampleSource blake3 body).originalDocumentName).contains skillDocumentPath = false := by
    change (((∅ : OrdMap PortablePath CapturedFile).insert sampleSourcePath
      ⟨.regular, body⟩).erase sampleSourcePath).contains skillDocumentPath = false
    rw [ExtTreeMap.contains_erase, ExtTreeMap.contains_insert]
    decide
  exact ⟨_, projectSkillSource_eq_ok.mpr ⟨sampleFrontmatter, write_sample, by decide, by decide,
    ⟨rfl, rfl, rfl, rfl, rfl, rfl⟩, hvacant, rfl⟩⟩

def sampleBlake3 (_ : Bytes) : Digest := ⟨List.replicate 64 0x30, validDigest_zeros⟩

/-- A document at the limit of the parser, so that it has no room for frontmatter. -/
def fullBody : Bytes := 0x61 :: List.replicate (4 * 1024 * 1024 - 1) 0x61

theorem fullBody_byte {b : UInt8} (hb : b ∈ fullBody) : b = 0x61 := by
  rcases List.mem_cons.mp hb with hb | hb
  · exact hb
  · exact (List.mem_replicate.mp hb).2

theorem fullBody_length : fullBody.length = maxSkillDocumentBytes := by
  rw [fullBody, List.length_cons, List.length_replicate]
  rfl

theorem fullBody_plain : openingBytes fullBody = none := by
  rw [Prompts.openingBytes_eq_none]
  rintro (⟨rest, h⟩ | ⟨rest, h⟩)
  all_goals exact absurd (List.cons.inj h).1 (by decide)

theorem trimEndNewlines_text {b : UInt8} {text : Bytes} (h : newline ∉ b :: text) :
    trimEndNewlines (b :: text) = b :: text := by
  induction text generalizing b with
  | nil => exact if_neg fun hb => h (List.mem_singleton.mpr hb.symm)
  | cons c text ih =>
    rw [List.mem_cons, not_or] at h
    rw [trimEndNewlines, ih h.2]

theorem canonicalBody_text {b : UInt8} {text : Bytes} (hnewline : newline ∉ b :: text)
    (hreturn : 13 ∉ b :: text) : canonicalBody (b :: text) = b :: text ++ [newline] := by
  rw [canonicalBody, replaceCrlf_of_noReturn hreturn, replaceReturns_of_noReturn hreturn,
    trimEndNewlines_text hnewline]
  rfl

theorem not_fits_fullBody :
    ¬ Fits sampleYaml (plainDocument fullBody) sampleSkillName (ascii "b") := by
  intro h
  obtain ⟨hsize, -⟩ := h sampleFrontmatter write_sample
  have hcanonical : canonicalBody fullBody = fullBody ++ [newline] :=
    canonicalBody_text (fun hmem => absurd (fullBody_byte hmem) (by decide))
      fun hmem => absurd (fullBody_byte hmem) (by decide)
  have hbody : (canonicalBody (plainDocument fullBody).body).length = maxSkillDocumentBytes + 1 := by
    change (canonicalBody fullBody).length = _
    rw [hcanonical, List.length_append, fullBody_length, List.length_singleton]
  rw [hbody] at hsize
  omega

end Samples

end Kitrove.Skills
