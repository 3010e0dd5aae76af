import Kitrove.Prompts.Projection
import Kitrove.Skills.Document

/-! The portable projection of a captured skill: a manifest of standard fields, the body in canonical
lines, and the supporting files as they are. -/

namespace Kitrove.Skills

open Std
open Prompts (Utf8Text trimEndNewlines_idem replaceCrlf_of_noReturn)

inductive SkillSourceLayout where
  | directory
  | standalone
  deriving DecidableEq

/-- Evidence of one native source: its principal document is one of its files. -/
structure CapturedSkillSource where
  layout : SkillSourceLayout
  originalDocumentName : PortablePath
  document : ObservedSkillDocument
  exactTree : CapturedTree
  principal : originalDocumentName ∈ exactTree.files

inductive PortableProjection where
  | available (manifest : SkillManifest) (body : Bytes) (tree : CapturedTree)
    (reasons : List FidelityReason)
  | unavailable (reasons : List FidelityReason)

structure ProjectedManifest where
  name : Bytes
  description : Bytes
  license : Option Bytes
  compatibility : Option Bytes
  metadata : Option (OrdMap Bytes Bytes)
  allowedTools : Option Bytes
  deriving DecidableEq

inductive WrittenValue where
  | text (value : Bytes)
  | mapping (entries : OrdMap Bytes Bytes)

/-- The fields that are written, in the order of the structure. -/
def ProjectedManifest.fields (manifest : ProjectedManifest) : List (Bytes × WrittenValue) :=
  [(ascii "name", .text manifest.name), (ascii "description", .text manifest.description)] ++
    manifest.license.toList.map (fun value => (ascii "license", .text value)) ++
    manifest.compatibility.toList.map (fun value => (ascii "compatibility", .text value)) ++
    manifest.metadata.toList.map (fun entries => (ascii "metadata", .mapping entries)) ++
    manifest.allowedTools.toList.map fun value => (ascii "allowed-tools", .text value)

/-- The YAML library, by the two directions in which skills use it. -/
structure YamlLibrary where
  read : Bytes → YamlNode
  write : ProjectedManifest → Option Utf8Text

section Projecting

def SkillManifest.projected (manifest : SkillManifest) : ProjectedManifest where
  name := manifest.name.bytes
  description := manifest.description
  license := manifest.license
  compatibility := manifest.compatibility
  metadata := if manifest.metadata.isEmpty then none else some manifest.metadata
  allowedTools := manifest.allowedTools

def projectedManifest (path : Bytes) (document : ObservedSkillDocument) (name : AssetId)
    (description : Bytes) : Except SkillError SkillManifest :=
  if isStandardSkillName name.bytes = false then throw (nameInvalid path)
  else if isStandardSkillDescription description = false then throw (descriptionInvalid path)
  else do
    let metadata ← checkOptionalFields path document
    pure (manifestOf name description document metadata)

/-- `replace('\r', "\n")`. -/
def replaceReturns (text : Bytes) : Bytes := text.map fun b => if b = 13 then newline else b

/-- Lines that a newline ends, with none empty at the end. -/
def canonicalBody (body : Bytes) : Bytes :=
  let trimmed := trimEndNewlines (replaceReturns (replaceCrlf body))
  if trimmed.isEmpty then [] else trimmed ++ [newline]

def projectDocument (library : YamlLibrary) (path : Bytes) (manifest : SkillManifest) (body : Bytes) :
    Except SkillError Bytes :=
  match library.write manifest.projected with
  | none =>
    throw ⟨"skill.projection_failed", path, "portable SKILL.md frontmatter could not be rendered"⟩
  | some frontmatter =>
    pure (ascii "---\n" ++ (frontmatter.bytes ++ (ascii "---\n" ++ canonicalBody body)))

theorem skillDocumentPath_valid : NameKind.path.valid (ascii "SKILL.md") = true := by decide

theorem skillDocumentPath_bounded : (ascii "SKILL.md").length < 2 ^ 63 := by decide

def skillDocumentPath : PortablePath :=
  ⟨ascii "SKILL.md", skillDocumentPath_valid, skillDocumentPath_bounded⟩

def nativeFieldOmitted : FidelityReason :=
  ⟨ascii "skill.native_field_omitted",
    ascii "origin-native frontmatter fields are retained only in the exact native object"⟩

/-- The files with the projected document in the place of the principal one. -/
def projectedFiles (captured : CapturedSkillSource) (bytes : Bytes) :
    OrdMap PortablePath CapturedFile :=
  (captured.exactTree.files.erase captured.originalDocumentName).insert skillDocumentPath
    ⟨(captured.exactTree.files.get captured.originalDocumentName captured.principal).mode, bytes⟩

def projectSkillSource (library : YamlLibrary) (blake3 : Bytes → Digest)
    (captured : CapturedSkillSource) (name : AssetId) (description : Bytes)
    (reasons : List FidelityReason) : Except SkillError PortableProjection := do
  let path := captured.originalDocumentName.bytes
  let manifest ← projectedManifest path captured.document name description
  let bytes ← projectDocument library path manifest captured.document.body
  if (captured.exactTree.files.erase captured.originalDocumentName).contains skillDocumentPath then
    throw ⟨"skill.projection_failed", path,
      "portable SKILL.md would conflict with a supporting file"⟩
  else
    let files := projectedFiles captured bytes
    let reasons :=
      if captured.document.nativeFields.isEmpty then reasons else reasons ++ [nativeFieldOmitted]
    pure (.available manifest captured.document.body ⟨files, hashTree blake3 files⟩ reasons)

end Projecting

section Bodies

variable {owed next : Utf8.Owed} {l : Bytes}

theorem step_replaceReturn {b : UInt8} (ho : Utf8.Multibyte owed) (h : Utf8.step owed b = some next) :
    Utf8.step owed (if b = 13 then newline else b) = some next := by
  by_cases hb : b = 13
  · obtain ⟨rfl, rfl⟩ := Utf8.step_ascii ho (by rw [hb]; decide) h
    rw [if_pos hb]
    rfl
  · rwa [if_neg hb]

theorem run_replaceReturns (ho : Utf8.Multibyte owed) (h : Utf8.run owed l = some next) :
    Utf8.run owed (replaceReturns l) = some next := by
  induction l generalizing owed with
  | nil => exact h
  | cons b l ih =>
    rw [Utf8.run] at h
    cases hs : Utf8.step owed b with
    | none => simp [hs] at h
    | some mid =>
      rw [hs] at h
      rw [replaceReturns, List.map_cons, Utf8.run, step_replaceReturn ho hs]
      exact ih (Utf8.step_multibyte ho hs) h

theorem canonicalBody_valid (h : Utf8.valid l = true) : Utf8.valid (canonicalBody l) = true := by
  have hreplaced : Utf8.valid (replaceReturns (replaceCrlf l)) = true :=
    Utf8.valid_iff.mpr (run_replaceReturns Utf8.multibyte_nil
      (run_replaceCrlf Utf8.multibyte_nil (Utf8.valid_iff.mp h)))
  obtain ⟨k, hk⟩ := trimEndNewlines_append (l := replaceReturns (replaceCrlf l))
  rw [canonicalBody]
  split
  · rfl
  · rw [Utf8.valid_append_ascii newline_ascii]
    refine ⟨?_, rfl⟩
    cases k with
    | zero => rwa [hk, List.replicate_zero, List.append_nil] at hreplaced
    | succ k =>
      rw [hk, List.replicate_succ, Utf8.valid_append_ascii newline_ascii] at hreplaced
      exact hreplaced.1

theorem canonicalBody_noReturn : 13 ∉ canonicalBody l := by
  obtain ⟨k, hk⟩ := trimEndNewlines_append (l := replaceReturns (replaceCrlf l))
  have hreplaced : 13 ∉ replaceReturns (replaceCrlf l) := by
    intro hmem
    obtain ⟨b, -, hb⟩ := List.mem_map.mp hmem
    by_cases h13 : b = 13
    · rw [if_pos h13] at hb
      exact absurd hb (by decide)
    · rw [if_neg h13] at hb
      exact h13 hb
  rw [hk, List.mem_append, not_or] at hreplaced
  rw [canonicalBody]
  split
  · exact List.not_mem_nil
  · rw [List.mem_append, not_or]
    exact ⟨hreplaced.1, by decide⟩

theorem replaceReturns_of_noReturn (h : 13 ∉ l) : replaceReturns l = l := by
  have hsame : ∀ b ∈ l, (if b = 13 then newline else b) = b := by
    intro b hb
    rw [if_neg]
    rintro rfl
    exact h hb
  rw [replaceReturns, List.map_congr_left hsame, List.map_id']

/-- A body that was read back is written as it is. -/
theorem canonicalBody_idem : canonicalBody (canonicalBody l) = canonicalBody l := by
  have hlines : replaceReturns (replaceCrlf (canonicalBody l)) = canonicalBody l := by
    rw [replaceCrlf_of_noReturn canonicalBody_noReturn,
      replaceReturns_of_noReturn canonicalBody_noReturn]
  have htrim : trimEndNewlines (canonicalBody l) =
      trimEndNewlines (replaceReturns (replaceCrlf l)) := by
    rw [canonicalBody]
    split
    · rename_i hempty
      rw [List.isEmpty_iff.mp hempty]
      rfl
    · exact trimEndNewlines_idem
  rw [canonicalBody, hlines, htrim, ← canonicalBody]

end Bodies

end Kitrove.Skills
