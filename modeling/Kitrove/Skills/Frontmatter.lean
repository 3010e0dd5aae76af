import Kitrove.Skills.Projection

/-! The frontmatter of a projected document: its fields as they are read again, and the lines between
the delimiters. -/

namespace Kitrove.Skills

open Std Lines
open Prompts (delimiter stripReturn)

section Fields

variable {aliasesPresent : Bool} {value : WrittenValue} {fields : List (Bytes × WrittenValue)}
  {start : FrontmatterFields} {key : Bytes}

def WrittenValue.node : WrittenValue → YamlNode
  | .text value => .string value
  | .mapping entries => .mapping (stringEntries entries.toList)

def WrittenValue.bounded : WrittenValue → BoundedYamlValue
  | .text value => .string value
  | .mapping entries => .mapping (stringValues entries.toList)

/-- The nodes of a value. -/
def WrittenValue.cost : WrittenValue → Nat
  | .text _ => 1
  | .mapping entries => 1 + 2 * entries.size

theorem pairwise_toList (entries : OrdMap Bytes Bytes) :
    entries.toList.Pairwise fun a b => compare a.1 b.1 = .lt :=
  ExtTreeMap.ordered_keys_toList

theorem readValue_written (failure : FrontmatterFailure) : ReadsWithin aliasesPresent
    (readValue aliasesPresent 1 failure value.node) value.bounded value.cost := by
  cases value with
  | text text => exact readValue_string (by decide) failure text
  | mapping entries =>
    have hread := @readValue_strings aliasesPresent 1 (by decide) failure entries.toList
      (pairwise_toList entries)
    rwa [ExtTreeMap.length_toList] at hread

/-- The entries of a document with the fields, their nodes, and what becomes of them. -/
def writtenEntries (fields : List (Bytes × WrittenValue)) : List (Option Bytes × YamlNode) :=
  fields.map fun field => (some field.1, field.2.node)

def writtenNodes (fields : List (Bytes × WrittenValue)) : Nat :=
  (fields.map fun field => 1 + field.2.cost).sum

def insertWritten (start : FrontmatterFields) (fields : List (Bytes × WrittenValue)) :
    FrontmatterFields :=
  fields.foldl (fun read field => read.insert field.1 field.2.bounded) start

theorem topLevelFailure_some (failure : FrontmatterFailure) :
    topLevelFailure (some failure) = some failure := rfl

theorem readFields_written (hkeys : (fields.map Prod.fst).Nodup)
    (hnew : ∀ field ∈ fields, field.1 ∉ start.frontmatter) :
    ReadsWithin aliasesPresent (readFields aliasesPresent (writtenEntries fields) start)
      (insertWritten start fields) (writtenNodes fields) := by
  induction fields generalizing start with
  | nil =>
    intro nodes hnodes
    rw [writtenNodes, List.map_nil, List.sum_nil, Nat.add_zero, if_pos hnodes]
    rfl
  | cons field fields ih =>
    obtain ⟨hfield, hfields⟩ := List.forall_mem_cons.mp hnew
    rw [List.map_cons, List.nodup_cons] at hkeys
    have hvacant : start.frontmatter.contains field.1 = false := by
      rwa [← Bool.not_eq_true, ← ExtTreeMap.mem_iff_contains]
    have hrest : ∀ other ∈ fields, other.1 ∉ (start.insert field.1 field.2.bounded).frontmatter := by
      intro other hother hmem
      rw [FrontmatterFields.insert, ExtTreeMap.mem_insert] at hmem
      rcases hmem with hsame | hold
      · have heq : field.1 = other.1 := LawfulEqCmp.eq_of_compare hsame
        exact hkeys.1 (heq ▸ List.mem_map_of_mem hother)
      · exact hfields other hother hold
    have hvalue := (@readValue_written aliasesPresent field.2
      (if field.1 = ascii "metadata" then .duplicateMetadataKey else .duplicateMappingKey)).bind
        (g := fun value => readFields aliasesPresent (writtenEntries fields)
          (start.insert field.1 value)) (ih hkeys.2 hrest)
    have hkey : ReadsWithin aliasesPresent (readKey aliasesPresent 1 (some field.1)) field.1 1 :=
      readKey_within (by decide) field.1
    have hentry := (hkey.mapError topLevelFailure_some).bind (g := fun key nodes =>
      if start.frontmatter.contains key then throw (some .duplicateTopLevelKey)
      else do
        let duplicateFailure :=
          if key = ascii "metadata" then FrontmatterFailure.duplicateMetadataKey
          else .duplicateMappingKey
        let read ← readValue aliasesPresent 1 duplicateFailure field.2.node nodes
        readFields aliasesPresent (writtenEntries fields) (start.insert key read.1) read.2) (by
      simp only [hvacant, Bool.false_eq_true, if_false]
      exact hvalue)
    have hcost : writtenNodes (field :: fields) = 1 + (field.2.cost + writtenNodes fields) := by
      rw [writtenNodes, List.map_cons, List.sum_cons, ← writtenNodes, Nat.add_assoc]
    rw [hcost]
    exact hentry

theorem lookup_insertWritten (hkeys : (fields.map Prod.fst).Nodup) :
    (insertWritten start fields).frontmatter[key]? =
      ((fields.lookup key).map WrittenValue.bounded).or start.frontmatter[key]? := by
  induction fields generalizing start with
  | nil => rfl
  | cons field fields ih =>
    rw [List.map_cons, List.nodup_cons] at hkeys
    have hrest := @ih (start.insert field.1 field.2.bounded) hkeys.2
    rw [insertWritten, List.foldl_cons, ← insertWritten, hrest, FrontmatterFields.insert,
      ExtTreeMap.getElem?_insert, List.lookup_cons]
    by_cases hkey : key = field.1
    · subst hkey
      have habsent : fields.lookup field.1 = none := by
        rw [List.lookup_eq_none_iff]
        intro other hother
        rw [bne_iff_ne, ne_eq]
        intro hsame
        exact hkeys.1 (hsame ▸ List.mem_map_of_mem hother)
      rw [habsent, compare_self]
      simp
    · have hne : compare field.1 key ≠ .eq := fun h => hkey (LawfulEqCmp.eq_of_compare h).symm
      rw [if_neg hne, beq_eq_false_iff_ne.mpr hkey]

theorem nativeFields_insertWritten (hstandard : ∀ field ∈ fields, isStandardField field.1 = true) :
    (insertWritten start fields).nativeFields = start.nativeFields := by
  induction fields generalizing start with
  | nil => rfl
  | cons field fields ih =>
    obtain ⟨hfield, hfields⟩ := List.forall_mem_cons.mp hstandard
    rw [insertWritten, List.foldl_cons, ← insertWritten, ih hfields, FrontmatterFields.insert,
      if_pos hfield]

end Fields

section Manifest

variable {manifest : ProjectedManifest} {aliasesPresent : Bool} {body : Bytes}

theorem ProjectedManifest.fields_sublist :
    (manifest.fields.map Prod.fst).Sublist standardFields := by
  obtain ⟨name, description, _ | license, _ | compatibility, _ | metadata, _ | allowedTools⟩ := manifest
  all_goals exact List.isSublist_iff_sublist.mp rfl

theorem ProjectedManifest.fields_nodup : (manifest.fields.map Prod.fst).Nodup :=
  manifest.fields_sublist.nodup (by decide)

theorem ProjectedManifest.fields_standard : ∀ field ∈ manifest.fields,
    isStandardField field.1 = true := fun _ hfield =>
  List.contains_iff_mem.mpr (manifest.fields_sublist.subset (List.mem_map_of_mem hfield))

/-- What the fields of a manifest are read as. -/
def ProjectedManifest.read (manifest : ProjectedManifest) : FrontmatterFields :=
  insertWritten ⟨∅, ∅⟩ manifest.fields

theorem ProjectedManifest.readFrontmatter_fields :
    readFrontmatter aliasesPresent (.mapping (writtenEntries manifest.fields)) =
      if 1 + writtenNodes manifest.fields ≤ maxYamlNodes then .ok manifest.read
      else .error (some (limitFailure aliasesPresent)) := by
  have hclaim : claim aliasesPresent 0 0 = .ok 1 := claim_eq (by decide)
  have hfields := @readFields_written aliasesPresent manifest.fields ⟨∅, ∅⟩ manifest.fields_nodup
    (fun _ _ => ExtTreeMap.not_mem_empty) 1 (by decide)
  rw [readFrontmatter, hclaim]
  change (readFields aliasesPresent (writtenEntries manifest.fields) ⟨∅, ∅⟩ 1 >>= _) = _
  rw [hfields]
  by_cases hroom : 1 + writtenNodes manifest.fields ≤ maxYamlNodes
  · rw [if_pos hroom, if_pos hroom]
    rfl
  · rw [if_neg hroom, if_neg hroom]
    rfl

theorem ProjectedManifest.read_lookup (key : Bytes) :
    manifest.read.frontmatter[key]? = (manifest.fields.lookup key).map WrittenValue.bounded := by
  rw [read, lookup_insertWritten manifest.fields_nodup]
  cases manifest.fields.lookup key with
  | none => exact ExtTreeMap.getElem?_empty
  | some value => rfl

theorem ProjectedManifest.lookup_license :
    manifest.fields.lookup (ascii "license") = manifest.license.map .text := by
  obtain ⟨name, description, _ | license, _ | compatibility, _ | metadata, _ | allowedTools⟩ := manifest
  all_goals rfl

theorem ProjectedManifest.lookup_compatibility :
    manifest.fields.lookup (ascii "compatibility") = manifest.compatibility.map .text := by
  obtain ⟨name, description, _ | license, _ | compatibility, _ | metadata, _ | allowedTools⟩ := manifest
  all_goals rfl

theorem ProjectedManifest.lookup_metadata :
    manifest.fields.lookup (ascii "metadata") = manifest.metadata.map .mapping := by
  obtain ⟨name, description, _ | license, _ | compatibility, _ | metadata, _ | allowedTools⟩ := manifest
  all_goals rfl

theorem ProjectedManifest.lookup_allowedTools :
    manifest.fields.lookup (ascii "allowed-tools") = manifest.allowedTools.map .text := by
  obtain ⟨name, description, _ | license, _ | compatibility, _ | metadata, _ | allowedTools⟩ := manifest
  all_goals rfl

theorem stringField_read {key : Bytes} {value : Option Bytes}
    (h : manifest.fields.lookup key = value.map .text) :
    stringField manifest.read.frontmatter key = value ∧
      manifest.read.frontmatter.contains key = value.isSome := by
  have hread := manifest.read_lookup key
  rw [h] at hread
  constructor
  · rw [stringField, hread]
    cases value <;> rfl
  · rw [← ExtTreeMap.isSome_getElem?_eq_contains, hread]
    cases value <;> rfl

theorem mapM_stringValues (entries : List (Bytes × Bytes)) :
    (stringValues entries).mapM textEntry = some entries := by
  induction entries with
  | nil => rfl
  | cons entry entries ih =>
    rw [stringValues, List.map_cons, List.mapM_cons, ← stringValues, ih]
    rfl

theorem mapOf_toList (entries : OrdMap Bytes Bytes) : OrdMap.mapOf entries.toList = entries := by
  have hkeys : (entries.toList.map Prod.fst).Nodup := by
    rw [List.nodup_iff_pairwise_ne, List.pairwise_map]
    exact (pairwise_toList entries).imp fun h heq => by
      rw [heq, compare_self] at h
      exact absurd h nofun
  refine ExtTreeMap.ext_getElem? fun key => Option.ext fun value => ?_
  rw [OrdMap.getElem?_mapOf hkeys, ExtTreeMap.mem_toList_iff_getElem?_eq_some]

theorem stringMappingField_read : stringMappingField manifest.read.frontmatter (ascii "metadata") =
    manifest.metadata ∧
      manifest.read.frontmatter.contains (ascii "metadata") = manifest.metadata.isSome := by
  have hread := manifest.read_lookup (ascii "metadata")
  rw [manifest.lookup_metadata] at hread
  constructor
  · rw [stringMappingField, hread]
    cases manifest.metadata with
    | none => rfl
    | some entries =>
      change ((stringValues entries.toList).mapM textEntry).map OrdMap.mapOf = _
      rw [mapM_stringValues, Option.map_some, mapOf_toList]
  · rw [← ExtTreeMap.isSome_getElem?_eq_contains, hread]
    cases manifest.metadata <;> rfl

end Manifest

end Kitrove.Skills
