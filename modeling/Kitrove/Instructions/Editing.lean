import Mathlib.Data.List.Nodup
import Kitrove.Instructions.Splice

/-! Editing one managed region: what an insertion, a replacement and a removal leave of the
other regions and of the bytes around them. -/

namespace Kitrove

open InstructionError Lines

/-- The input without the bytes of a range. -/
def cut (input : Bytes) (range : ByteRange) : Bytes :=
  input.take range.start ++ input.drop range.stop

/-- The regions of the other assets, each with its exact bytes, in document order. -/
def otherRegions (input : Bytes) (document : ManagedDocument) (assetId : AssetName) :
    List (AssetName × Bytes) :=
  (document.regions.filter fun region => region.assetId ≠ assetId).map fun region =>
    (region.assetId, slice input region.range)

/-- The document ends with a marker line that no newline ends. -/
def EndsWithUnendedMarker (input : Bytes) (document : ManagedDocument) : Prop :=
  input.getLast? ≠ some newline ∧ ∃ region ∈ document.regions, region.range.stop = input.length

/-- An edit gave the asset's region the body and kept every other region and byte. -/
def UpsertPreserves (limits : InstructionLimits) (input : Bytes) (document : ManagedDocument)
    (assetId : AssetName) (body : InstructionBody) (output : Bytes) : Prop :=
  ∃ updated region, inspectManagedDocument limits output = .ok updated ∧
    updated.region assetId = some region ∧ slice output region.bodyRange = body.bytes ∧
    otherRegions output updated assetId = otherRegions input document assetId ∧
    match document.region assetId with
    | some old => cut output region.range = cut input old.range
    | none => ∃ separating ∈ [[], [newline], [newline, newline]],
        cut output region.range = input ++ separating

/-- A removal took out the asset's region and kept every other region and byte. -/
def RemovePreserves (limits : InstructionLimits) (input : Bytes) (document : ManagedDocument)
    (assetId : AssetName) (output : Bytes) : Prop :=
  ∃ updated region, inspectManagedDocument limits output = .ok updated ∧
    document.region assetId = some region ∧ output = cut input region.range ∧
    updated.region assetId = none ∧
    otherRegions output updated assetId = otherRegions input document assetId

section Chunks

variable {chunks pre post : Layout} {c : Chunk} {offset : Nat} {assetId : AssetName}
  {region : ManagedRegion}

theorem Chunk.bytes_eq_append {assetId : AssetName} {opening closing : Bytes}
    {body : List Bytes} :
    (Chunk.region assetId opening body closing).bytes = opening ++ body.flatten ++ closing := by
  simp [Chunk.bytes, Chunk.lines]

theorem Chunk.range_regionAt (h : c.regionAt offset = some region) :
    region.range = ⟨offset, offset + c.bytes.length⟩ := by
  cases c with
  | text line => contradiction
  | region assetId opening body closing =>
    cases h
    rw [Chunk.bytes_eq_append, List.length_append, List.length_append, ← Nat.add_assoc,
      ← Nat.add_assoc]

theorem Chunk.assetId_regionAt (h : c.regionAt offset = some region) :
    c.assetId? = some region.assetId := by
  rw [← Layout.assetId?_regionAt offset, h]
  rfl

/-- The exact bytes of the regions of a layout. -/
def Layout.contents (chunks : Layout) : List (AssetName × Bytes) :=
  chunks.filterMap fun c => c.assetId?.map fun assetId => (assetId, c.bytes)

theorem slice_middle {a b c : Bytes} : slice (a ++ b ++ c) ⟨a.length, a.length + b.length⟩ = b := by
  rw [slice, List.take_append_of_le_length (by simp), List.take_of_length_le (by simp)]
  simp

theorem cut_middle {a b c : Bytes} :
    cut (a ++ b ++ c) ⟨a.length, a.length + b.length⟩ = a ++ c := by
  rw [cut, List.append_assoc, List.take_left, ← List.append_assoc]
  congr 1
  rw [← List.length_append, List.drop_left]

theorem Layout.otherRegions_eq (before : Bytes) :
    (((regionsAt before.length chunks).filter fun region => region.assetId ≠ assetId).map
      fun region => (region.assetId, slice (before ++ bytes chunks) region.range)) =
    (contents chunks).filter fun content => content.1 ≠ assetId := by
  induction chunks generalizing before with
  | nil => rfl
  | cons c chunks ih =>
    have hrest := ih (before ++ c.bytes)
    rw [List.length_append, List.append_assoc] at hrest
    rw [regionsAt, List.filter_append, List.map_append, bytes_cons, hrest]
    cases hr : c.regionAt before.length with
    | none =>
      have hnone : c.assetId? = none := by
        rw [← assetId?_regionAt before.length, hr]
        rfl
      simp [contents, hnone]
    | some region =>
      have hid := Chunk.assetId_regionAt hr
      have hslice : slice (before ++ (c.bytes ++ bytes chunks)) region.range = c.bytes := by
        rw [Chunk.range_regionAt hr, ← List.append_assoc, slice_middle]
      have hcontents : contents (c :: chunks) = (region.assetId, c.bytes) :: contents chunks := by
        simp [contents, hid]
      rw [hcontents, Option.toList_some, List.filter_cons, List.filter_cons]
      by_cases he : region.assetId = assetId
      · simp [he]
      · simp [he, hslice]

/-- The region found for an asset is the first chunk that has it. -/
theorem Layout.find_region (h : ((regionsAt offset chunks).find? fun region =>
      region.assetId = assetId) = some region) :
    ∃ pre c post, chunks = pre ++ c :: post ∧ c.assetId? = some assetId ∧
      c.regionAt (offset + (bytes pre).length) = some region ∧ assetId ∉ assetIds pre := by
  induction chunks generalizing offset with
  | nil => contradiction
  | cons c chunks ih =>
    rw [regionsAt, List.find?_append] at h
    have hrest : ((c.regionAt offset).toList.find? fun region => region.assetId = assetId) = none →
        ((regionsAt (offset + c.bytes.length) chunks).find? fun region =>
          region.assetId = assetId) = some region → c.assetId? ≠ some assetId →
        ∃ pre c' post, c :: chunks = pre ++ c' :: post ∧ c'.assetId? = some assetId ∧
          c'.regionAt (offset + (bytes pre).length) = some region ∧ assetId ∉ assetIds pre := by
      intro _ hfound hne
      obtain ⟨pre, c', post, rfl, hid, hr, hmem⟩ := ih hfound
      refine ⟨c :: pre, c', post, rfl, hid, ?_, ?_⟩
      · rwa [bytes_cons, List.length_append, ← Nat.add_assoc]
      · cases hc : c.assetId? with
        | none => simpa [assetIds, hc] using hmem
        | some other =>
          rw [hc] at hne
          simpa [assetIds, hc] using ⟨fun he => hne (by rw [he]), by simpa [assetIds] using hmem⟩
    cases hr : c.regionAt offset with
    | none =>
      have hnone : c.assetId? = none := by
        rw [← assetId?_regionAt offset, hr]
        rfl
      rw [hr] at h
      exact hrest (by rw [hr]; rfl) (by simpa using h) (by rw [hnone]; simp)
    | some found =>
      have hid := Chunk.assetId_regionAt hr
      by_cases he : found.assetId = assetId
      · rw [hr] at h
        simp only [Option.toList_some, List.find?_cons, he, decide_true, Option.some_or,
          Option.some.injEq] at h
        subst h
        exact ⟨[], c, chunks, rfl, by rw [hid, he], by simpa using hr, by simp [assetIds]⟩
      · rw [hr] at h
        refine hrest (by rw [hr]; simp [he]) ?_ (by rw [hid]; simpa using he)
        simpa [he] using h

/-- The region of an asset that no chunk before has. -/
theorem Layout.region_middle (hid : c.assetId? = some assetId) (hpre : assetId ∉ assetIds pre) :
    ((⟨regionsAt 0 (pre ++ c :: post)⟩ : ManagedDocument)).region assetId =
      c.regionAt (bytes pre).length := by
  rw [ManagedDocument.region, regionsAt_append, List.find?_append, Nat.zero_add, regionsAt]
  have hnone : ((regionsAt 0 pre).find? fun region => region.assetId = assetId) = none := by
    rw [List.find?_eq_none]
    intro region hr
    rw [← map_assetId_regionsAt 0] at hpre
    simpa using fun he : region.assetId = assetId => hpre (he ▸ List.mem_map_of_mem hr)
  cases hr : c.regionAt (bytes pre).length with
  | none =>
    rw [← assetId?_regionAt (bytes pre).length, hr] at hid
    contradiction
  | some region =>
    have he := (Chunk.assetId_regionAt hr).symm.trans hid
    simp [hnone, Option.some.inj he]

end Chunks

section Edits

open Layout

variable {limits : InstructionLimits} {input output : Bytes} {document : ManagedDocument}
  {assetId : AssetName} {body : InstructionBody} {chunks pre post : Layout} {c : Chunk}
  {region : ManagedRegion}

theorem Layout.contents_append : contents (pre ++ post) = contents pre ++ contents post := by
  simp [contents]

theorem Layout.contents_cons (hid : c.assetId? = some assetId) :
    contents (c :: post) = (assetId, c.bytes) :: contents post := by
  simp [contents, hid]

theorem Layout.assetIds_cons (hid : c.assetId? = some assetId) :
    assetIds (c :: post) = assetId :: assetIds post := by
  simp [assetIds, hid]

theorem Layout.Accepted.sublist (h : Accepted limits chunks) (hs : pre.Sublist chunks) :
    Accepted limits pre := by
  have hids : (assetIds pre).Sublist (assetIds chunks) := hs.filterMap _
  exact ⟨fun c hc => h.valid c (hs.subset hc), h.distinct.sublist hids,
    Nat.le_trans hids.length_le h.count⟩

theorem otherRegions_reads (h : Reads limits input chunks) :
    otherRegions input ⟨regionsAt 0 chunks⟩ assetId =
      (contents chunks).filter fun content => content.1 ≠ assetId := by
  rw [h.bytes]
  exact otherRegions_eq []

/-- The bytes around a chunk are those without its range. -/
theorem cut_regionAt (hr : c.regionAt (bytes pre).length = some region) :
    cut (bytes (pre ++ c :: post)) region.range = bytes (pre ++ post) := by
  rw [Chunk.range_regionAt hr, bytes_append, bytes_cons, ← List.append_assoc, cut_middle,
    bytes_append]

theorem reads_remove (h : Reads limits input (pre ++ c :: post)) :
    Reads limits (bytes (pre ++ post)) (pre ++ post) := by
  have hlength := h.length
  rw [h.bytes, bytes_append, bytes_cons, List.length_append, List.length_append] at hlength
  have hclean := clean_append.mp h.clean
  refine ⟨rfl, ?_, ?_, h.accepted.sublist ((List.sublist_cons_self c post).append_left pre)⟩
  · rw [bytes_append, List.length_append]
    omega
  · rw [clean_append]
    have hpost : Clean ([c] ++ post) := hclean.2.1
    exact ⟨hclean.1, (clean_append.mp hpost).2.1, fun _ => hclean.2.2 (by simp)⟩

/-- A removal takes out exactly the range of the region. -/
theorem removeManagedRegion_preserves (h : inspectManagedDocument limits input = .ok document)
    (hid : document.region assetId = some region) :
    ∃ output, removeManagedRegion limits input assetId = .ok (some output) ∧
      RemovePreserves limits input document assetId output := by
  refine ⟨cut input region.range, ?_, ?_⟩
  · rw [removeManagedRegion, h]
    simp only [bind, Except.bind, hid]
    rfl
  obtain ⟨chunks, hreads, rfl⟩ := inspect_eq_ok_iff_reads.mp h
  obtain ⟨pre, c, post, rfl, hc, hr, hpre⟩ := find_region hid
  rw [Nat.zero_add] at hr
  have hcut : cut input region.range = bytes (pre ++ post) := by
    rw [hreads.bytes, cut_regionAt hr]
  have hafter : Reads limits (cut input region.range) (pre ++ post) := by
    rw [hcut]
    exact reads_remove hreads
  have hdistinct := hreads.accepted.distinct
  rw [assetIds_append, assetIds_cons hc, List.nodup_middle, List.nodup_cons,
    ← assetIds_append] at hdistinct
  refine ⟨_, region, inspect_eq_ok_iff_reads.mpr ⟨_, hafter, rfl⟩, hid, rfl, ?_, ?_⟩
  · rw [ManagedDocument.region, List.find?_eq_none]
    intro other ho
    have hmem := List.mem_map_of_mem (f := ManagedRegion.assetId) ho
    rw [map_assetId_regionsAt] at hmem
    simpa using fun he : other.assetId = assetId => hdistinct.1 (he ▸ hmem)
  · rw [otherRegions_reads hafter, otherRegions_reads hreads, contents_append, contents_append,
      contents_cons hc, List.filter_append, List.filter_append, List.filter_cons]
    simp

theorem limited_eq_ok {text : Bytes} {limit : Nat} {e : InstructionError} :
    (if text.length > limit then .error e else .ok text) = (.ok output : Except _ Bytes) ↔
      output.length ≤ limit ∧ output = text := by
  split
  · simp only [reduceCtorEq, false_iff]
    rintro ⟨hl, rfl⟩
    omega
  · simp only [Except.ok.injEq]
    exact ⟨fun h => ⟨h ▸ by omega, h.symm⟩, fun h => h.2.symm⟩

theorem upsertManagedRegion_eq_ok (h : inspectManagedDocument limits input = .ok document) :
    upsertManagedRegion limits input assetId body = .ok output ↔
      (document.region assetId = none → document.regions.length < limits.maxRegions) ∧
        assetId.bytes.length ≤ maxAssetIdBytes ∧ output.length ≤ limits.maxDocumentBytes ∧
        output = match document.region assetId with
          | some region => input.take region.range.start ++ (renderedChunk assetId body).bytes ++
              input.drop region.range.stop
          | none => input ++ separator input ++ (renderedChunk assetId body).bytes := by
  rw [upsertManagedRegion, h]
  simp only [bind, Except.bind]
  by_cases hfull : (document.region assetId).isNone = true ∧
      document.regions.length ≥ limits.maxRegions
  · rw [if_pos (by simpa using hfull)]
    simp only [reduceCtorEq, false_iff]
    rintro ⟨hcount, -⟩
    have hlt := hcount (by simpa using hfull.1)
    omega
  rw [if_neg (by simpa using hfull)]
  have hcount : document.region assetId = none → document.regions.length < limits.maxRegions := by
    intro hn
    rw [hn] at hfull
    simp only [Option.isNone_none, true_and, ge_iff_le, Nat.not_le] at hfull
    exact hfull
  cases hrender : renderManagedRegion assetId body with
  | error e =>
    simp only [reduceCtorEq, false_iff]
    rintro ⟨-, hid, -⟩
    rw [renderManagedRegion_eq_ok.mpr ⟨hid, rfl⟩] at hrender
    contradiction
  | ok rendered =>
    obtain ⟨hid, rfl⟩ := renderManagedRegion_eq_ok.mp hrender
    cases hr : document.region assetId with
    | none =>
      refine limited_eq_ok.trans ⟨fun ho => ⟨fun _ => hcount hr, hid, ho⟩, fun ho => ho.2.2⟩
    | some region =>
      refine limited_eq_ok.trans ⟨fun ho => ⟨fun hn => ?_, hid, ho⟩, fun ho => ho.2.2⟩
      contradiction

/-- The region of an asset in a document that has its rendered chunk. -/
theorem region_renderedChunk
    (h : Reads limits output (pre ++ renderedChunk assetId body :: post))
    (hpre : assetId ∉ assetIds pre) :
    ∃ region, (⟨regionsAt 0 (pre ++ renderedChunk assetId body :: post)⟩ :
        ManagedDocument).region assetId = some region ∧
      slice output region.bodyRange = body.bytes ∧
      cut output region.range = bytes (pre ++ post) := by
  obtain ⟨region, hr⟩ : ∃ region,
      (renderedChunk assetId body).regionAt (bytes pre).length = some region := ⟨_, rfl⟩
  refine ⟨region, by rw [region_middle rfl hpre, hr], ?_, ?_⟩
  · have hsplit : output = bytes pre ++ (markerPrefix ++ (assetId.bytes ++ beginSuffix) ++
        [newline]) ++ body.bytes ++ (markerPrefix ++ (assetId.bytes ++ endSuffix) ++ [newline] ++
          bytes post) := by
      rw [h.bytes]
      simp [renderedChunk, Chunk.bytes, Chunk.lines, flatten_splitInclusive]
    cases hr
    rw [hsplit, flatten_splitInclusive, ← List.length_append]
    exact slice_middle
  · rw [h.bytes]
    exact cut_regionAt hr

theorem upsert_replaces {old : ManagedRegion}
    (h : inspectManagedDocument limits input = .ok document)
    (hold : document.region assetId = some old) (hbody : body.bytes.length ≤ limits.maxBodyBytes)
    (ho : upsertManagedRegion limits input assetId body = .ok output) :
    UpsertPreserves limits input document assetId body output := by
  obtain ⟨-, hid, hlength, houtput⟩ := (upsertManagedRegion_eq_ok h).mp ho
  rw [hold] at houtput
  obtain ⟨chunks, hreads, rfl⟩ := inspect_eq_ok_iff_reads.mp h
  obtain ⟨pre, c, post, rfl, hc, hr, hpre⟩ := find_region hold
  rw [Nat.zero_add] at hr
  have houtput : output = bytes (pre ++ renderedChunk assetId body :: post) := by
    rw [houtput, hreads.bytes]
    simp only [Chunk.range_regionAt hr, bytes_append, bytes_cons]
    rw [List.take_left, ← List.append_assoc (bytes pre) c.bytes, ← List.length_append,
      List.drop_left, List.append_assoc]
  have haccepted : Accepted limits (pre ++ renderedChunk assetId body :: post) := by
    have hids : assetIds (pre ++ renderedChunk assetId body :: post) =
        assetIds (pre ++ c :: post) := by
      rw [assetIds_append, assetIds_append, assetIds_cons hc,
        assetIds_cons (c := renderedChunk assetId body) rfl]
    refine ⟨fun c' hm => ?_, hids ▸ hreads.accepted.distinct, hids ▸ hreads.accepted.count⟩
    rcases List.mem_append.mp hm with hm | hm
    · exact hreads.accepted.valid c' (List.mem_append_left _ hm)
    · rcases List.mem_cons.mp hm with rfl | hm
      · exact renderedChunk_valid hid hbody
      · exact hreads.accepted.valid c' (by simp [hm])
  have hclean : Clean (pre ++ renderedChunk assetId body :: post) := by
    have hsplit : Clean (pre ++ [c] ++ post) := by simpa using hreads.clean
    have hfinished := (clean_append.mp hreads.clean).2.2 (by simp)
    have hchunk : Clean [renderedChunk assetId body] := renderedChunk_clean
    have hsplice := clean_splice hsplit (fun _ => hfinished) hchunk
      (fun _ _ => renderedChunk_finished)
    simpa using hsplice
  have hafter : Reads limits output (pre ++ renderedChunk assetId body :: post) :=
    ⟨houtput, hlength, hclean, haccepted⟩
  obtain ⟨region, hregion, hslice, hcut⟩ := region_renderedChunk hafter hpre
  refine ⟨_, region, inspect_eq_ok_iff_reads.mpr ⟨_, hafter, rfl⟩, hregion, hslice, ?_, ?_⟩
  · rw [otherRegions_reads hafter, otherRegions_reads hreads, contents_append, contents_append,
      contents_cons hc, contents_cons (c := renderedChunk assetId body) rfl]
    simp
  · rw [hold]
    simp only
    rw [hcut, hreads.bytes, cut_regionAt hr]

theorem Layout.filter_contents (h : assetId ∉ assetIds chunks) :
    ((contents chunks).filter fun content => content.1 ≠ assetId) = contents chunks := by
  rw [List.filter_eq_self]
  intro content hm
  obtain ⟨c, hc, hcontent⟩ := List.mem_filterMap.mp hm
  obtain ⟨other, hid, rfl⟩ := Option.map_eq_some_iff.mp hcontent
  have hmem : other ∈ assetIds chunks := List.mem_filterMap.mpr ⟨c, hc, hid⟩
  simpa using fun he : other = assetId => h (he ▸ hmem)

/-- What an insertion puts before the new region: the document, ended and separated. -/
structure Opens (limits : InstructionLimits) (input : Bytes) (chunks before : Layout) : Prop where
  bytes : bytes before = input ++ separator input
  clean : Clean before
  finished : Finished before
  assetIds : assetIds before = assetIds chunks
  valid : ∀ c ∈ before, c.Valid limits.maxBodyBytes

theorem unmarked_newline : Chunk.Unmarked [newline] := by
  have h : parseMarker (stripNewline [newline]) = .ok none := by decide +kernel
  exact h

theorem spacer_clean : Clean [.text [newline]] :=
  ⟨⟨ended_isLine (l := []) (by simp), by simp, trivial⟩, rfl, by decide⟩

theorem spacer_finished : Finished [.text [newline]] := by
  rw [Finished, lines_singleton]
  rintro line ⟨⟩
  rfl

/-- A document that ends its last line is separated by at most one blank line. -/
theorem opens_finished (h : Reads limits input chunks) (hf : Finished chunks) :
    ∃ before, Opens limits input chunks before ∧ contents before = contents chunks ∧
      separator input ∈ [[], [newline]] := by
  have hended := (h.clean.finished_iff.mp hf)
  rw [← h.bytes] at hended
  by_cases hs : separator input = []
  · exact ⟨chunks, ⟨by rw [hs, List.append_nil, h.bytes], h.clean, hf, rfl, h.accepted.valid⟩, rfl,
      by simp [hs]⟩
  have hspacer : separator input = [newline] := by
    rcases hended with rfl | hlast
    · exact absurd rfl hs
    · rw [separator, hlast] at hs ⊢
      simp only [if_true] at hs ⊢
      split at hs
      · exact absurd rfl hs
      · rename_i hblank
        rw [if_neg hblank]
  refine ⟨chunks ++ [.text [newline]], ⟨?_, ?_, ?_, ?_, ?_⟩, ?_, by simp [hspacer]⟩
  · rw [hspacer, bytes_append, h.bytes]
    rfl
  · exact clean_append.mpr ⟨h.clean, spacer_clean, fun _ => hf⟩
  · exact (finished_append (by simp)).mpr spacer_finished
  · simp [Layout.assetIds, Chunk.assetId?]
  · intro c hc
    rcases List.mem_append.mp hc with hc | hc
    · exact h.accepted.valid c hc
    · rw [List.mem_singleton] at hc
      rw [hc]
      exact unmarked_newline
  · rw [contents_append]
    simp [contents, Chunk.assetId?]

/-- A document whose last line is open has that line ended first. -/
theorem opens_unfinished (h : Reads limits input (pre ++ [c])) (hf : ¬ Finished (pre ++ [c])) :
    Opens limits input (pre ++ [c]) (pre ++ [c.finish] ++ [.text [newline]]) ∧
      separator input = [newline, newline] := by
  have hended := (not_congr h.clean.finished_iff).mp hf
  rw [← h.bytes, not_or] at hended
  obtain ⟨hpre, hlast, hfinished⟩ := clean_append.mp h.clean
  rw [finished_append (by simp)] at hf
  have hseparator : separator input = [newline, newline] := by
    rw [separator]
    cases hl : input.getLast? with
    | none => exact absurd (List.getLast?_eq_none_iff.mp hl) hended.1
    | some last =>
      have hne : last ≠ newline := fun he => hended.2 (by rw [hl, he])
      simp only
      rw [if_neg hne]
  refine ⟨⟨?_, ?_, ?_, ?_, ?_⟩, hseparator⟩
  · rw [hseparator, h.bytes]
    simp [Chunk.bytes_finish, show Chunk.bytes (.text [newline]) = [newline] from rfl]
  · rw [clean_append, clean_append]
    exact ⟨⟨hpre, finish_clean hlast hf, fun _ => hfinished (by simp)⟩, spacer_clean, fun _ =>
      (finished_append (by simp)).mpr Chunk.finish_finished⟩
  · exact (finished_append (by simp)).mpr spacer_finished
  · have hfinish : Layout.assetIds [c.finish] = Layout.assetIds [c] := by
      simp [Layout.assetIds, List.filterMap_cons, Chunk.assetId?_finish]
    rw [assetIds_append, assetIds_append, assetIds_append, hfinish]
    exact List.append_nil _
  · intro c' hc
    simp only [List.append_assoc, List.cons_append, List.nil_append, List.mem_append,
      List.mem_cons, List.not_mem_nil, or_false] at hc
    rcases hc with hc | rfl | rfl
    · exact h.accepted.valid c' (List.mem_append_left _ hc)
    · exact Chunk.finish_valid (h.accepted.valid c (by simp)) hf
    · exact unmarked_newline

/-- An insertion preserves the other regions exactly when ending the last line did. -/
theorem upsert_inserts {before : Layout} (hreads : Reads limits input chunks)
    (hnone : (⟨regionsAt 0 chunks⟩ : ManagedDocument).region assetId = none)
    (hopens : Opens limits input chunks before)
    (hseparator : separator input ∈ [[], [newline], [newline, newline]])
    (hbody : body.bytes.length ≤ limits.maxBodyBytes)
    (ho : upsertManagedRegion limits input assetId body = .ok output) :
    UpsertPreserves limits input ⟨regionsAt 0 chunks⟩ assetId body output ↔
      contents before = contents chunks := by
  have h := inspect_eq_ok_iff_reads.mpr ⟨chunks, hreads, rfl⟩
  obtain ⟨hcount, hid, hlength, houtput⟩ := (upsertManagedRegion_eq_ok h).mp ho
  have hcount := hcount hnone
  rw [hnone] at houtput
  simp only at houtput
  have hnew : assetId ∉ assetIds chunks := by
    rw [ManagedDocument.region, List.find?_eq_none] at hnone
    rw [← map_assetId_regionsAt 0]
    intro hm
    obtain ⟨region, hr, he⟩ := List.mem_map.mp hm
    exact hnone region hr (by simpa using he)
  have hnew' : assetId ∉ assetIds before := hopens.assetIds ▸ hnew
  have hafter : Reads limits output (before ++ [renderedChunk assetId body]) := by
    refine ⟨?_, hlength, ?_, ?_⟩
    · rw [houtput, bytes_append, hopens.bytes]
      simp
    · exact clean_append.mpr ⟨hopens.clean, renderedChunk_clean, fun _ => hopens.finished⟩
    · have hids : assetIds (before ++ [renderedChunk assetId body]) = assetIds chunks ++ [assetId] := by
        rw [assetIds_append, hopens.assetIds, assetIds_cons (c := renderedChunk assetId body) rfl]
        rfl
      have hregions : (regionsAt 0 chunks).length = (assetIds chunks).length := by
        rw [← map_assetId_regionsAt 0, List.length_map]
      refine ⟨fun c hc => ?_, ?_, ?_⟩
      · rcases List.mem_append.mp hc with hc | hc
        · exact hopens.valid c hc
        · rw [List.mem_singleton.mp hc]
          exact renderedChunk_valid hid hbody
      · rw [hids, List.nodup_append]
        refine ⟨hreads.accepted.distinct, by simp, fun a ha b hb => ?_⟩
        rintro rfl
        exact hnew (List.mem_singleton.mp hb ▸ ha)
      · rw [hids, List.length_append, List.length_singleton, ← hregions]
        exact hcount
  obtain ⟨region, hregion, hslice, hcut⟩ := region_renderedChunk hafter hnew'
  have hothers : otherRegions output ⟨regionsAt 0 (before ++ [renderedChunk assetId body])⟩ assetId =
      contents before := by
    rw [otherRegions_reads hafter, contents_append, List.filter_append, filter_contents hnew',
      contents_cons (c := renderedChunk assetId body) rfl]
    simp [contents]
  have hinspect := inspect_eq_ok_iff_reads.mpr ⟨_, hafter, rfl⟩
  constructor
  · rintro ⟨updated, -, hupdated, -, -, hsame, -⟩
    cases hinspect.symm.trans hupdated
    rwa [hothers, otherRegions_reads hreads, filter_contents hnew] at hsame
  · intro hsame
    refine ⟨_, region, hinspect, hregion, hslice, ?_, ?_⟩
    · rw [hothers, otherRegions_reads hreads, filter_contents hnew, hsame]
    · rw [hnone]
      exact ⟨_, hseparator, by rw [hcut, List.append_nil, hopens.bytes]⟩

theorem Layout.range_le {offset : Nat} (hr : region ∈ regionsAt offset chunks) :
    region.range.stop ≤ offset + (bytes chunks).length := by
  induction chunks generalizing offset with
  | nil => contradiction
  | cons c chunks ih =>
    rw [bytes_cons, List.length_append]
    rcases List.mem_append.mp hr with hr | hr
    · rw [Chunk.range_regionAt (by simpa using hr)]
      simp only
      omega
    · have hle := ih hr
      omega

/-- The last chunk of a layout is a region exactly when a region ends the document. -/
theorem exists_stop_iff (h : Reads limits input (pre ++ [c])) :
    (∃ region ∈ regionsAt 0 (pre ++ [c]), region.range.stop = input.length) ↔
      c.assetId?.isSome = true := by
  have hlength : input.length = (bytes pre).length + c.bytes.length := by
    rw [h.bytes, bytes_append, List.length_append]
    simp
  have hne : bytes [c] ≠ [] := mt (clean_append.mp h.clean).2.1.bytes_eq_nil.mp (by simp)
  rw [bytes_cons, bytes_nil, List.append_nil] at hne
  have hpos := List.length_pos_of_ne_nil hne
  rw [regionsAt_append, Nat.zero_add]
  constructor
  · rintro ⟨region, hr, hstop⟩
    rcases List.mem_append.mp hr with hr | hr
    · have hle := range_le hr
      omega
    · have hat : c.regionAt (bytes pre).length = some region := by
        simpa [regionsAt] using hr
      rw [Chunk.assetId_regionAt hat]
      rfl
  · intro hs
    rw [← assetId?_regionAt (bytes pre).length, Option.isSome_map] at hs
    obtain ⟨region, hr⟩ := Option.isSome_iff_exists.mp hs
    refine ⟨region, List.mem_append_right _ (by simp [regionsAt, hr]), ?_⟩
    rw [Chunk.range_regionAt hr, hlength]

theorem contents_finish :
    contents (pre ++ [c.finish] ++ [.text [newline]]) = contents (pre ++ [c]) ↔
      c.assetId? = none := by
  have hspacer : contents [.text [newline]] = [] := rfl
  rw [contents_append, contents_append, contents_append, hspacer, List.append_nil,
    List.append_cancel_left_eq]
  cases hid : c.assetId? with
  | none => simp [contents, hid, Chunk.assetId?_finish]
  | some assetId =>
    rw [contents_cons hid, contents_cons (c.assetId?_finish.trans hid), Chunk.bytes_finish]
    simp

/-- An insertion preserves everything unless a managed region ends the document with no
newline after its end marker. -/
theorem upsert_inserts_iff (h : inspectManagedDocument limits input = .ok document)
    (hnone : document.region assetId = none) (hbody : body.bytes.length ≤ limits.maxBodyBytes)
    (ho : upsertManagedRegion limits input assetId body = .ok output) :
    UpsertPreserves limits input document assetId body output ↔
      ¬ EndsWithUnendedMarker input document := by
  obtain ⟨chunks, hreads, rfl⟩ := inspect_eq_ok_iff_reads.mp h
  by_cases hf : Finished chunks
  · obtain ⟨before, hopens, hsame, hseparator⟩ := opens_finished hreads hf
    have hmem : separator input ∈ [[], [newline], [newline, newline]] := by
      rcases List.mem_cons.mp hseparator with hs | hs <;> simp_all
    refine iff_of_true ((upsert_inserts hreads hnone hopens hmem hbody ho).mpr hsame) ?_
    rintro ⟨hlast, region, hr, hstop⟩
    have hended := hreads.clean.finished_iff.mp hf
    rw [← hreads.bytes] at hended
    rcases hended with hnil | hended
    · rw [hreads.clean.bytes_eq_nil.mp (hreads.bytes ▸ hnil)] at hr
      contradiction
    · exact hlast hended
  · obtain ⟨pre, c, rfl⟩ := (List.eq_nil_or_concat chunks).resolve_left
      fun hn => hf (hn ▸ finished_nil)
    rw [List.concat_eq_append] at *
    obtain ⟨hopens, hseparator⟩ := opens_unfinished hreads hf
    have hmem : separator input ∈ [[], [newline], [newline, newline]] := by simp [hseparator]
    have hlast : input.getLast? ≠ some newline := by
      have hended := (not_congr hreads.clean.finished_iff).mp hf
      rw [← hreads.bytes, not_or] at hended
      exact hended.2
    rw [upsert_inserts hreads hnone hopens hmem hbody ho, contents_finish, EndsWithUnendedMarker,
      exists_stop_iff hreads]
    cases c.assetId? <;> simp [hlast]

/-- Editing a managed region gives it exactly the body, and keeps every other region and
byte, unless it inserts a region after an end marker that no newline ends; removing one
takes out exactly its bytes. -/
theorem managedRegion_edits_preserve_iff
    (h : inspectManagedDocument limits input = .ok document)
    (hbody : body.bytes.length ≤ limits.maxBodyBytes)
    (ho : upsertManagedRegion limits input assetId body = .ok output) :
    (UpsertPreserves limits input document assetId body output ∧
        ∀ present region, document.region present = some region →
          ∃ removed, removeManagedRegion limits input present = .ok (some removed) ∧
            RemovePreserves limits input document present removed) ↔
      ¬ (document.region assetId = none ∧ EndsWithUnendedMarker input document) := by
  have hremove : ∀ present region, document.region present = some region →
      ∃ removed, removeManagedRegion limits input present = .ok (some removed) ∧
        RemovePreserves limits input document present removed :=
    fun _ _ hr => removeManagedRegion_preserves h hr
  rw [and_iff_left hremove]
  cases hr : document.region assetId with
  | none =>
    rw [upsert_inserts_iff h hr hbody ho]
    simp
  | some old => exact iff_of_true (upsert_replaces h hr hbody ho) (by simp)

end Edits

section Samples

def sampleAsset : AssetName := ⟨ascii "a", by decide +kernel⟩

def sampleOther : AssetName := ⟨ascii "b", by decide +kernel⟩

theorem sampleBody_utf8 : Utf8.valid (ascii "x\n") = true := by decide +kernel

theorem sampleBody_noNul : 0 ∉ ascii "x\n" := by decide +kernel

theorem sampleBody_ended : (ascii "x\n").getLast? = some newline := by decide +kernel

theorem sampleBody_noMarker : containsMarker (ascii "x\n") = false := by decide +kernel

def sampleBody : InstructionBody :=
  ⟨ascii "x\n", sampleBody_utf8, sampleBody_noNul, sampleBody_ended, sampleBody_noMarker⟩

/-- A region whose end marker is the last line, with no newline after it. -/
def unendedDocument : Bytes :=
  ascii "<!-- kitrove:instruction a begin -->\nx\n<!-- kitrove:instruction a end -->"

def endedDocument : Bytes := unendedDocument ++ [newline]

def sampleDocument (stop : Nat) : ManagedDocument := ⟨[⟨sampleAsset, ⟨0, stop⟩, ⟨37, 39⟩⟩]⟩

theorem managedRegion_edits_preserve_iff_sample :
    ∃ output, upsertManagedRegion .standard endedDocument sampleOther sampleBody = .ok output ∧
      UpsertPreserves .standard endedDocument (sampleDocument 74) sampleOther sampleBody output := by
  have h : inspectManagedDocument .standard endedDocument = .ok (sampleDocument 74) := by
    decide +kernel
  have ho : upsertManagedRegion .standard endedDocument sampleOther sampleBody =
      .ok (endedDocument ++ [newline] ++ (renderedChunk sampleOther sampleBody).bytes) := by
    decide +kernel
  refine ⟨_, ho, ((managedRegion_edits_preserve_iff h (by decide +kernel) ho).mpr ?_).1⟩
  rintro ⟨-, hlast, -⟩
  exact hlast (by decide +kernel)

/-- Inserting after an unended end marker appends a newline to the other asset's region. -/
theorem upsertManagedRegion_unended :
    ∃ output updated,
      inspectManagedDocument .standard unendedDocument = .ok (sampleDocument 73) ∧
      upsertManagedRegion .standard unendedDocument sampleOther sampleBody = .ok output ∧
      inspectManagedDocument .standard output = .ok updated ∧
      otherRegions unendedDocument (sampleDocument 73) sampleOther =
        [(sampleAsset, unendedDocument)] ∧
      otherRegions output updated sampleOther =
        [(sampleAsset, unendedDocument ++ [newline])] ∧
      ¬ UpsertPreserves .standard unendedDocument (sampleDocument 73) sampleOther sampleBody
        output := by
  have hupdated : inspectManagedDocument .standard (unendedDocument ++ [newline, newline] ++
      (renderedChunk sampleOther sampleBody).bytes) =
      .ok ⟨[⟨sampleAsset, ⟨0, 74⟩, ⟨37, 39⟩⟩, ⟨sampleOther, ⟨75, 149⟩, ⟨112, 114⟩⟩]⟩ := by
    decide +kernel
  have hbefore : otherRegions unendedDocument (sampleDocument 73) sampleOther =
      [(sampleAsset, unendedDocument)] := by decide +kernel
  have hafter : otherRegions (unendedDocument ++ [newline, newline] ++
      (renderedChunk sampleOther sampleBody).bytes)
      ⟨[⟨sampleAsset, ⟨0, 74⟩, ⟨37, 39⟩⟩, ⟨sampleOther, ⟨75, 149⟩, ⟨112, 114⟩⟩]⟩ sampleOther =
      [(sampleAsset, unendedDocument ++ [newline])] := by decide +kernel
  refine ⟨_, _, by decide +kernel, by decide +kernel, hupdated, hbefore, hafter, ?_⟩
  rintro ⟨updated, region, hu, -, -, hsame, -⟩
  cases hupdated.symm.trans hu
  rw [hafter, hbefore] at hsame
  exact absurd hsame (by decide +kernel)

end Samples

end Kitrove
