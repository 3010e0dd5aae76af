import Kitrove.Instructions.Layout

/-! Parsing an instruction body to its canonical bytes, and the region it is rendered as. -/

namespace Kitrove

open InstructionError Lines

section Normalization

variable {owed next : Utf8.Owed} {l : Bytes}

theorem newline_ascii : newline < 0x80 := by decide

theorem run_replaceCrlf (ho : Utf8.Multibyte owed) (h : Utf8.run owed l = some next) :
    Utf8.run owed (replaceCrlf l) = some next := by
  induction l using replaceCrlf.induct generalizing owed with
  | case1 rest ih =>
    rw [Utf8.run] at h
    cases hs : Utf8.step owed 13 with
    | none => simp [hs] at h
    | some mid =>
      obtain ⟨rfl, rfl⟩ := Utf8.step_ascii ho (by decide) hs
      rw [hs] at h
      rw [replaceCrlf]
      exact ih Utf8.multibyte_nil h
  | case2 b rest hno ih =>
    rw [Utf8.run] at h
    cases hs : Utf8.step owed b with
    | none => simp [hs] at h
    | some mid =>
      rw [hs] at h
      rw [replaceCrlf, Utf8.run, hs]
      · exact ih (Utf8.step_multibyte ho hs) h
      · exact hno
  | case3 => exact h

theorem mem_replaceCrlf {b : UInt8} (h : b ∈ replaceCrlf l) : b ∈ l := by
  induction l using replaceCrlf.induct with
  | case1 rest ih =>
    rw [replaceCrlf, List.mem_cons] at h
    rcases h with rfl | h
    · simp
    · exact List.mem_cons_of_mem _ (List.mem_cons_of_mem _ (ih h))
  | case2 c rest hno ih =>
    rw [replaceCrlf, List.mem_cons] at h
    · rcases h with rfl | h
      · simp
      · exact List.mem_cons_of_mem _ (ih h)
    · exact hno
  | case3 => exact h

/-- Trimming takes newlines off the end and nothing else. -/
theorem trimEndNewlines_append : ∃ k, l = trimEndNewlines l ++ List.replicate k newline := by
  induction l with
  | nil => exact ⟨0, rfl⟩
  | cons b rest ih =>
    obtain ⟨k, hk⟩ := ih
    rw [trimEndNewlines]
    cases ht : trimEndNewlines rest with
    | nil =>
      rw [ht, List.nil_append] at hk
      by_cases hb : b = newline
      · exact ⟨k + 1, by rw [if_pos hb, hk, hb]; rfl⟩
      · exact ⟨k, by rw [if_neg hb, hk]; rfl⟩
    | cons c trimmed =>
      rw [ht] at hk
      exact ⟨k, by rw [hk]; rfl⟩

theorem normalizeBody_valid (h : Utf8.valid l = true) : Utf8.valid (normalizeBody l) = true := by
  have hreplaced : Utf8.valid (replaceCrlf l) = true :=
    Utf8.valid_iff.mpr (run_replaceCrlf Utf8.multibyte_nil (Utf8.valid_iff.mp h))
  obtain ⟨k, hk⟩ := trimEndNewlines_append (l := replaceCrlf l)
  rw [normalizeBody, Utf8.valid_append_ascii newline_ascii]
  refine ⟨?_, rfl⟩
  cases k with
  | zero => rwa [hk, List.replicate_zero, List.append_nil] at hreplaced
  | succ k =>
    rw [hk, List.replicate_succ, Utf8.valid_append_ascii newline_ascii] at hreplaced
    exact hreplaced.1

theorem normalizeBody_noNul (h : 0 ∉ l) : 0 ∉ normalizeBody l := by
  obtain ⟨k, hk⟩ := trimEndNewlines_append (l := replaceCrlf l)
  have hreplaced : 0 ∉ replaceCrlf l := fun hm => h (mem_replaceCrlf hm)
  rw [hk, List.mem_append, not_or] at hreplaced
  rw [normalizeBody, List.mem_append, not_or]
  exact ⟨hreplaced.1, by decide⟩

end Normalization

/-- Normalizes CRLF to LF and ensures exactly one trailing newline. -/
def InstructionBody.parse (input : Bytes) (hutf8 : Utf8.valid input = true)
    (maxBodyBytes : Nat) : Except InstructionError InstructionBody :=
  if h : input = [] ∨ 0 ∈ input then .error bodyInvalid
  else if input.length > maxBodyBytes then .error inputLimit
  else if (replaceCrlf input).contains 13 then .error bodyLineEndings
  else if isBlank (normalizeBody input) || (normalizeBody input).length > maxBodyBytes then
    .error bodyLimit
  else if hm : containsMarker (normalizeBody input) = true then .error bodyMarker
  else
    .ok
      { bytes := normalizeBody input
        utf8 := normalizeBody_valid hutf8
        noNul := normalizeBody_noNul (not_or.mp h).2
        ended := by simp [normalizeBody]
        noMarker := by simpa using hm }

section Markers

variable {assetId : AssetName} {line pattern rest : Bytes}

theorem lowercaseOrDigit_bounds {b : UInt8} (h : lowercaseOrDigit b = true) :
    0x20 < b ∧ b < 0x80 := by
  simp only [lowercaseOrDigit, Bool.or_eq_true, Bool.and_eq_true, decide_eq_true_eq,
    UInt8.le_iff_toNat_le] at h
  simp only [UInt8.lt_iff_toNat_lt]
  have h20 : (0x20 : UInt8).toNat = 32 := rfl
  have h30 : (0x30 : UInt8).toNat = 48 := rfl
  have h39 : (0x39 : UInt8).toNat = 57 := rfl
  have h61 : (0x61 : UInt8).toNat = 97 := rfl
  have h7a : (0x7A : UInt8).toNat = 122 := rfl
  have h80 : (0x80 : UInt8).toNat = 128 := rfl
  omega

/-- The bytes of an identifier are printable ASCII. -/
theorem AssetName.printable (assetId : AssetName) : ∀ b ∈ assetId.bytes, 0x20 < b ∧ b < 0x80 := by
  obtain ⟨bytes, hv⟩ := assetId
  cases bytes with
  | nil => simp [validIdentifier] at hv
  | cons first rest =>
    simp only [validIdentifier, Bool.and_eq_true, List.all_eq_true, Bool.or_eq_true,
      beq_iff_eq] at hv
    intro b hb
    rcases List.mem_cons.mp hb with rfl | hb
    · exact lowercaseOrDigit_bounds hv.1
    · rcases hv.2 b hb with ((h | rfl) | rfl) | rfl
      · exact lowercaseOrDigit_bounds h
      all_goals decide

theorem stripNewline_append (h : line.getLast? ≠ some newline) :
    stripNewline (line ++ [newline]) = stripNewline line := by
  simp [stripNewline, h]

theorem parseMarkerId_eq_ok (h : assetId.bytes.length ≤ maxAssetIdBytes) :
    parseMarkerId assetId.bytes = .ok assetId := by
  obtain ⟨bytes, hv⟩ := assetId
  rw [parseMarkerId, if_neg (by simpa using h), AssetName.parse, dif_pos hv]

theorem markerNamespace_isPrefixOf : markerNamespace.isPrefixOf (markerPrefix ++ rest) = true := by
  have h : markerNamespace <+: markerPrefix := by decide +kernel
  exact List.isPrefixOf_iff_prefix.mpr (h.trans (List.prefix_append _ _))

theorem parseMarker_begin (h : assetId.bytes.length ≤ maxAssetIdBytes) :
    parseMarker (markerPrefix ++ (assetId.bytes ++ beginSuffix)) =
      .ok (some (.begin assetId)) := by
  rw [parseMarker, markerNamespace_isPrefixOf, stripPrefix_append]
  simp only [Bool.not_true, Bool.false_eq_true, if_false, stripSuffix_append,
    parseMarkerId_eq_ok h]
  rfl

/-- No end marker reads as a begin marker. -/
theorem stripSuffix_begin_end : stripSuffix beginSuffix (rest ++ endSuffix) = none := by
  rw [stripSuffix, if_neg]
  intro h
  have hbegin := List.isSuffixOf_iff_suffix.mp h
  have hend : endSuffix <:+ beginSuffix :=
    List.suffix_of_suffix_length_le (List.suffix_append rest endSuffix) hbegin (by decide +kernel)
  exact absurd hend (by decide +kernel)

theorem parseMarker_end (h : assetId.bytes.length ≤ maxAssetIdBytes) :
    parseMarker (markerPrefix ++ (assetId.bytes ++ endSuffix)) = .ok (some (.end assetId)) := by
  rw [parseMarker, markerNamespace_isPrefixOf, stripPrefix_append]
  simp only [Bool.not_true, Bool.false_eq_true, if_false, stripSuffix_begin_end,
    stripSuffix_append, parseMarkerId_eq_ok h]
  rfl

end Markers

end Kitrove
