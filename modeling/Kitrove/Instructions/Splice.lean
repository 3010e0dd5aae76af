import Kitrove.Instructions.Body

/-! Replacing a run of chunks in the layout of a document, and the chunk that a rendered
region is. -/

namespace Kitrove

open InstructionError Lines

namespace Layout

variable {limits : InstructionLimits} {input : Bytes} {document : ManagedDocument}
  {chunks pre mid mid' post : Layout}

/-- Nothing more is to come on the last line. -/
def Finished (chunks : Layout) : Prop := ∀ line ∈ (lines chunks).getLast?, Ended newline line

/-- A layout whose bytes split into its lines again, and are text. -/
structure Clean (chunks : Layout) : Prop where
  areLines : AreLines newline (lines chunks)
  utf8 : Utf8.valid (bytes chunks) = true
  noNul : 0 ∉ bytes chunks

/-- The layout that a bounded scan finds in a document. -/
structure Reads (limits : InstructionLimits) (input : Bytes) (chunks : Layout) : Prop where
  bytes : input = bytes chunks
  length : input.length ≤ limits.maxDocumentBytes
  clean : Clean chunks
  accepted : Accepted limits chunks

theorem lines_eq_nil : lines chunks = [] ↔ chunks = [] := by
  cases chunks with
  | nil => simp [lines]
  | cons c chunks => cases c <;> simp [Chunk.lines]

theorem inspect_eq_ok_iff_reads :
    inspectManagedDocument limits input = .ok document ↔
      ∃ chunks, Reads limits input chunks ∧ document = ⟨regionsAt 0 chunks⟩ := by
  rw [inspectManagedDocument_eq_ok]
  constructor
  · rintro ⟨⟨hlength, hutf8, hnul⟩, chunks, hlines, ha, hr⟩
    have hbytes : input = Layout.bytes chunks := by
      rw [Layout.bytes, ← hlines, flatten_splitInclusive]
    have hclean : Clean chunks :=
      ⟨hlines ▸ areLines_splitInclusive, hbytes ▸ hutf8, hbytes ▸ hnul⟩
    refine ⟨chunks, ⟨hbytes, hlength, hclean, ha⟩, ?_⟩
    cases document
    exact congrArg ManagedDocument.mk hr
  · rintro ⟨chunks, ⟨rfl, hlength, hclean, ha⟩, rfl⟩
    exact ⟨⟨hlength, hclean.utf8, hclean.noNul⟩, chunks, splitInclusive_flatten hclean.areLines,
      ha, rfl⟩

/-- Bytes between lines are a boundary between characters. -/
theorem valid_bytes_append (h : post ≠ [] → Finished pre) :
    Utf8.valid (bytes (pre ++ post)) = true ↔
      Utf8.valid (bytes pre) = true ∧ Utf8.valid (bytes post) = true := by
  rw [bytes_append]
  by_cases hp : post = []
  · simp [hp]
  · rcases flatten_ended (h hp) with hnil | hended
    · simp [show bytes pre = [] from hnil]
    · have hsplit : bytes pre = (bytes pre).dropLast ++ [newline] :=
        (List.dropLast_append_getLast? _ hended).symm
      have hleft := Utf8.valid_append_ascii newline_ascii (l := (bytes pre).dropLast) (k := [])
      have hboth := Utf8.valid_append_ascii newline_ascii (l := (bytes pre).dropLast)
        (k := bytes post)
      rw [hsplit, List.append_assoc, List.singleton_append, hboth, hleft]
      simp

theorem clean_append :
    Clean (pre ++ post) ↔ Clean pre ∧ Clean post ∧ (post ≠ [] → Finished pre) := by
  have hne : lines post ≠ [] ↔ post ≠ [] := not_congr lines_eq_nil
  constructor
  · rintro ⟨hlines, hutf8, hnul⟩
    rw [lines_append, areLines_append, hne] at hlines
    rw [valid_bytes_append hlines.2.2] at hutf8
    rw [bytes_append, List.mem_append, not_or] at hnul
    exact ⟨⟨hlines.1, hutf8.1, hnul.1⟩, ⟨hlines.2.1, hutf8.2, hnul.2⟩, hlines.2.2⟩
  · rintro ⟨hpre, hpost, hfinished⟩
    refine ⟨?_, (valid_bytes_append hfinished).mpr ⟨hpre.utf8, hpost.utf8⟩, ?_⟩
    · rw [lines_append, areLines_append, hne]
      exact ⟨hpre.areLines, hpost.areLines, hfinished⟩
    · rw [bytes_append, List.mem_append, not_or]
      exact ⟨hpre.noNul, hpost.noNul⟩

theorem Clean.finished_iff (h : Clean chunks) :
    Finished chunks ↔ bytes chunks = [] ∨ (bytes chunks).getLast? = some newline :=
  h.areLines.ended_iff

theorem Clean.bytes_eq_nil (h : Clean chunks) : bytes chunks = [] ↔ chunks = [] := by
  refine ⟨fun hn => ?_, fun hn => hn ▸ rfl⟩
  by_contra hne
  obtain ⟨line, hl⟩ := List.exists_mem_of_ne_nil _ (mt lines_eq_nil.mp hne)
  exact (h.areLines.isLine line hl).1 (List.flatten_eq_nil_iff.mp hn line hl)

theorem clean_nil : Clean [] := ⟨trivial, rfl, by simp⟩

theorem finished_nil : Finished [] := by simp [Finished, lines]

theorem finished_append (h : post ≠ []) : Finished (pre ++ post) ↔ Finished post := by
  have hne : lines post ≠ [] := fun hn => h (lines_eq_nil.mp hn)
  obtain ⟨last, hlast⟩ : ∃ last, (lines post).getLast? = some last :=
    ⟨_, List.getLast?_eq_some_getLast hne⟩
  simp [Finished, List.getLast?_append, hlast]

/-- Chunks may take the place of others when they are clean and end their last line. -/
theorem clean_splice (h : Clean (pre ++ mid ++ post)) (hpre : mid' ++ post ≠ [] → Finished pre)
    (hmid : Clean mid') (hfinished : mid' ≠ [] → post ≠ [] → Finished mid') :
    Clean (pre ++ mid' ++ post) := by
  obtain ⟨hpremid, hpost, -⟩ := clean_append.mp h
  have hinit := (clean_append.mp hpremid).1
  rw [List.append_assoc, clean_append, clean_append]
  refine ⟨hinit, ⟨hmid, hpost, fun hp => ?_⟩, hpre⟩
  by_cases hn : mid' = []
  · rw [hn]
    exact finished_nil
  · exact hfinished hn hp

theorem accepted_append :
    Accepted limits (pre ++ post) ↔
      (∀ c ∈ pre, c.Valid limits.maxBodyBytes) ∧ (∀ c ∈ post, c.Valid limits.maxBodyBytes) ∧
        (assetIds pre ++ assetIds post).Nodup ∧
        (assetIds pre).length + (assetIds post).length ≤ limits.maxRegions := by
  constructor
  · rintro ⟨hv, hd, hc⟩
    rw [assetIds_append] at hd hc
    rw [List.length_append] at hc
    exact ⟨fun c h => hv c (List.mem_append_left _ h), fun c h => hv c (List.mem_append_right _ h),
      hd, hc⟩
  · rintro ⟨hpre, hpost, hd, hc⟩
    refine ⟨fun c h => (List.mem_append.mp h).elim (hpre c) (hpost c), ?_, ?_⟩
    · rwa [assetIds_append]
    · rwa [assetIds_append, List.length_append]

end Layout

section Finishing

variable {c : Chunk} {maxBodyBytes : Nat}

/-- The chunk with a newline after its last line. -/
def Chunk.finish : Chunk → Chunk
  | .text line => .text (line ++ [newline])
  | .region assetId opening body closing => .region assetId opening body (closing ++ [newline])

theorem Chunk.assetId?_finish : c.finish.assetId? = c.assetId? := by
  cases c <;> rfl

theorem Chunk.bytes_finish : c.finish.bytes = c.bytes ++ [newline] := by
  cases c <;> simp [Chunk.finish, Chunk.bytes, Chunk.lines]

theorem Chunk.lines_finish :
    ∃ before last, c.lines = before ++ [last] ∧ c.finish.lines = before ++ [last ++ [newline]] := by
  cases c with
  | text line => exact ⟨[], line, rfl, rfl⟩
  | region assetId opening body closing => exact ⟨opening :: body, closing, rfl, rfl⟩

theorem Layout.lines_singleton : Layout.lines [c] = c.lines := by
  simp [Layout.lines]

theorem Chunk.finish_finished : Layout.Finished [c.finish] := by
  obtain ⟨before, last, -, hlines⟩ := c.lines_finish
  rw [Layout.Finished, Layout.lines_singleton, hlines, List.getLast?_concat]
  rintro line ⟨⟩
  exact List.getLast?_concat

/-- A newline at the end of an unended line changes nothing that the scan reads. -/
theorem Chunk.finish_valid (h : c.Valid maxBodyBytes) (hf : ¬ Layout.Finished [c]) :
    c.finish.Valid maxBodyBytes := by
  rw [Layout.Finished, Layout.lines_singleton] at hf
  cases c with
  | text line =>
    have hlast : line.getLast? ≠ some newline := by simpa [Chunk.lines, Ended] using hf
    rw [Chunk.finish, Chunk.Valid, Chunk.Unmarked, stripNewline_append hlast]
    exact h
  | region assetId opening body closing =>
    have hlast : closing.getLast? ≠ some newline := by
      rw [Chunk.lines, ← List.cons_append, List.getLast?_concat] at hf
      simpa [Ended] using hf
    obtain ⟨hopening, hbody, hclosing, hlength⟩ := h
    exact ⟨hopening, hbody, by rwa [stripNewline_append hlast], hlength⟩

theorem Layout.finish_clean (h : Layout.Clean [c]) (hf : ¬ Layout.Finished [c]) :
    Layout.Clean [c.finish] := by
  obtain ⟨before, last, hlines, hfinish⟩ := c.lines_finish
  have hbytes : Layout.bytes [c.finish] = Layout.bytes [c] ++ newline :: [] := by
    simp [Chunk.bytes_finish]
  have hare := h.areLines
  rw [Layout.lines_singleton, hlines] at hare
  rw [Layout.Finished, Layout.lines_singleton, hlines, List.getLast?_concat] at hf
  refine ⟨?_, ?_, ?_⟩
  · rw [Layout.lines_singleton, hfinish]
    exact hare.finish (by simpa using hf)
  · rw [hbytes, Utf8.valid_append_ascii newline_ascii]
    exact ⟨h.utf8, rfl⟩
  · rw [hbytes, List.mem_append, not_or]
    exact ⟨h.noNul, by decide⟩

end Finishing

section Rendering

variable {assetId : AssetName} {body : InstructionBody} {rendered : Bytes} {maxBodyBytes : Nat}

/-- The region that an asset's body is rendered as. -/
def renderedChunk (assetId : AssetName) (body : InstructionBody) : Chunk :=
  .region assetId (markerPrefix ++ (assetId.bytes ++ beginSuffix) ++ [newline])
    (splitInclusive newline body.bytes)
    (markerPrefix ++ (assetId.bytes ++ endSuffix) ++ [newline])

theorem renderManagedRegion_eq_ok :
    renderManagedRegion assetId body = .ok rendered ↔
      assetId.bytes.length ≤ maxAssetIdBytes ∧ rendered = (renderedChunk assetId body).bytes := by
  have hbytes : (renderedChunk assetId body).bytes =
      markerPrefix ++ assetId.bytes ++ beginSuffix ++ [newline] ++ body.bytes ++
        markerPrefix ++ assetId.bytes ++ endSuffix ++ [newline] := by
    simp [renderedChunk, Chunk.bytes, Chunk.lines, flatten_splitInclusive]
  rw [renderManagedRegion, hbytes]
  split
  · simp only [reduceCtorEq, false_iff, not_and]
    intro h
    omega
  · simp only [Except.ok.injEq]
    exact ⟨fun h => ⟨by omega, h.symm⟩, fun h => h.2.symm⟩

/-- A marker line is printable but for its newline. -/
theorem markerLine_ascii (assetId : AssetName) {suffix : Bytes} (hs : ∀ b ∈ suffix, 0x20 ≤ b ∧ b < 0x80) :
    ∀ b ∈ markerPrefix ++ (assetId.bytes ++ suffix), 0x20 ≤ b ∧ b < 0x80 := by
  have hstarts : ∀ b ∈ markerPrefix, 0x20 ≤ b ∧ b < 0x80 := by decide +kernel
  intro b hb
  rcases List.mem_append.mp hb with hb | hb
  · exact hstarts b hb
  · rcases List.mem_append.mp hb with hb | hb
    · exact ⟨UInt8.le_of_lt (assetId.printable b hb).1, (assetId.printable b hb).2⟩
    · exact hs b hb

theorem beginSuffix_ascii : ∀ b ∈ beginSuffix, 0x20 ≤ b ∧ b < 0x80 := by decide +kernel

theorem endSuffix_ascii : ∀ b ∈ endSuffix, 0x20 ≤ b ∧ b < 0x80 := by decide +kernel

theorem newline_notMem {line : Bytes} (h : ∀ b ∈ line, 0x20 ≤ b ∧ b < 0x80) : newline ∉ line :=
  fun hm => absurd (h newline hm).1 (by decide)

theorem stripNewline_ended {line : Bytes} : stripNewline (line ++ [newline]) = line := by
  simp [stripNewline]

theorem InstructionBody.unmarked {line : Bytes} (h : line ∈ splitInclusive newline body.bytes) :
    Chunk.Unmarked line := by
  have hm := body.noMarker
  rw [containsMarker, List.any_eq_false] at hm
  rw [Chunk.Unmarked, parseMarker]
  simp [hm line h]

theorem renderedChunk_valid (hid : assetId.bytes.length ≤ maxAssetIdBytes)
    (hbody : body.bytes.length ≤ maxBodyBytes) : (renderedChunk assetId body).Valid maxBodyBytes := by
  refine ⟨?_, fun _ hl => body.unmarked hl, ?_, ?_⟩
  · rw [stripNewline_ended]
    exact parseMarker_begin hid
  · rw [stripNewline_ended]
    exact parseMarker_end hid
  · rwa [flatten_splitInclusive]

theorem renderedChunk_finished : Layout.Finished [renderedChunk assetId body] := by
  have hlast : (Layout.lines [renderedChunk assetId body]).getLast? =
      some (markerPrefix ++ (assetId.bytes ++ endSuffix) ++ [newline]) := by
    simp only [Layout.lines, List.flatMap_cons, List.flatMap_nil, List.append_nil, renderedChunk,
      Chunk.lines]
    rw [← List.cons_append, List.getLast?_concat]
  rw [Layout.Finished, hlast]
  rintro line ⟨⟩
  exact List.getLast?_concat

theorem renderedChunk_clean : Layout.Clean [renderedChunk assetId body] := by
  have hopening := markerLine_ascii assetId beginSuffix_ascii
  have hclosing := markerLine_ascii assetId endSuffix_ascii
  have hbody : AreLines newline (splitInclusive newline body.bytes) := areLines_splitInclusive
  have hended : ∀ line ∈ (splitInclusive newline body.bytes).getLast?, Ended newline line := by
    rw [hbody.ended_iff, flatten_splitInclusive]
    exact .inr body.ended
  have hnul : ∀ line : Bytes, (∀ b ∈ line, 0x20 ≤ b ∧ b < 0x80) → (0 : UInt8) ∉ line :=
    fun _ h hm => absurd (h 0 hm).1 (by decide)
  have hbytes : Layout.bytes [renderedChunk assetId body] =
      markerPrefix ++ (assetId.bytes ++ beginSuffix) ++ newline :: (body.bytes ++
        (markerPrefix ++ (assetId.bytes ++ endSuffix) ++ [newline])) := by
    simp [Layout.bytes, Layout.lines, renderedChunk, Chunk.lines, flatten_splitInclusive]
  refine ⟨?_, ?_, ?_⟩
  · rw [Layout.lines_cons]
    simp only [renderedChunk, Chunk.lines, Layout.lines, List.flatMap_nil, List.append_nil]
    refine ⟨ended_isLine (newline_notMem hopening), fun _ => List.getLast?_concat, ?_⟩
    rw [areLines_append]
    exact ⟨hbody, ⟨ended_isLine (newline_notMem hclosing), by simp, trivial⟩, fun _ => hended⟩
  · rw [hbytes, Utf8.valid_append_ascii newline_ascii, Utf8.valid_append body.utf8,
      Utf8.valid_append_ascii newline_ascii]
    exact ⟨Utf8.valid_of_ascii fun b hb => (hopening b hb).2,
      Utf8.valid_of_ascii fun b hb => (hclosing b hb).2, rfl⟩
  · rw [hbytes]
    intro hm
    rcases List.mem_append.mp hm with hm | hm
    · exact hnul _ hopening hm
    rcases List.mem_cons.mp hm with hm | hm
    · exact absurd hm (by decide)
    rcases List.mem_append.mp hm with hm | hm
    · exact body.noNul hm
    rcases List.mem_append.mp hm with hm | hm
    · exact hnul _ hclosing hm
    · exact absurd hm (by decide)

end Rendering

end Kitrove
