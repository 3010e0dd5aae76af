import Kitrove.Instructions.Document
import Kitrove.Support.Except

/-! The layout of a document as co-owned lines and managed regions: a document is accepted
exactly when it has one, and the regions reported are those of the layout. -/

namespace Kitrove

open InstructionError Lines

inductive Chunk where
  | text (line : Bytes)
  | region (assetId : AssetName) (opening : Bytes) (body : List Bytes) (closing : Bytes)

namespace Chunk

def lines : Chunk → List Bytes
  | .text line => [line]
  | .region _ opening body closing => opening :: (body ++ [closing])

def bytes (c : Chunk) : Bytes := c.lines.flatten

def assetId? : Chunk → Option AssetName
  | .text _ => none
  | .region assetId .. => some assetId

/-- The region a chunk is when it starts at an offset. -/
def regionAt (offset : Nat) : Chunk → Option ManagedRegion
  | .text _ => none
  | .region assetId opening body closing =>
    some
      { assetId := assetId
        range := ⟨offset, offset + opening.length + body.flatten.length + closing.length⟩
        bodyRange := ⟨offset + opening.length, offset + opening.length + body.flatten.length⟩ }

def Unmarked (line : Bytes) : Prop := parseMarker (stripNewline line) = .ok none

/-- The lines of a chunk are the markers and the plain lines they should be. -/
def Valid (maxBodyBytes : Nat) : Chunk → Prop
  | .text line => Unmarked line
  | .region assetId opening body closing =>
    parseMarker (stripNewline opening) = .ok (some (.begin assetId)) ∧
      (∀ line ∈ body, Unmarked line) ∧
      parseMarker (stripNewline closing) = .ok (some (.end assetId)) ∧
      body.flatten.length ≤ maxBodyBytes

end Chunk

abbrev Layout := List Chunk

namespace Layout

def lines (chunks : Layout) : List Bytes := chunks.flatMap Chunk.lines

def bytes (chunks : Layout) : Bytes := (lines chunks).flatten

def assetIds (chunks : Layout) : List AssetName := chunks.filterMap Chunk.assetId?

def regionsAt (offset : Nat) : Layout → List ManagedRegion
  | [] => []
  | c :: chunks => (c.regionAt offset).toList ++ regionsAt (offset + c.bytes.length) chunks

/-- A layout that a bounded scan accepts. -/
structure Accepted (limits : InstructionLimits) (chunks : Layout) : Prop where
  valid : ∀ c ∈ chunks, c.Valid limits.maxBodyBytes
  distinct : (assetIds chunks).Nodup
  count : (assetIds chunks).length ≤ limits.maxRegions

section Shape

variable {chunks rest : Layout} {c : Chunk} {offset : Nat}

@[simp] theorem lines_cons : lines (c :: chunks) = c.lines ++ lines chunks := rfl

@[simp] theorem lines_append : lines (chunks ++ rest) = lines chunks ++ lines rest := by
  simp [lines]

@[simp] theorem bytes_nil : bytes [] = [] := rfl

@[simp] theorem bytes_cons : bytes (c :: chunks) = c.bytes ++ bytes chunks := by
  simp [bytes, Chunk.bytes]

@[simp] theorem bytes_append : bytes (chunks ++ rest) = bytes chunks ++ bytes rest := by
  simp [bytes]

@[simp] theorem assetIds_append : assetIds (chunks ++ rest) = assetIds chunks ++ assetIds rest := by
  simp [assetIds]

theorem assetId?_regionAt (offset : Nat) : (c.regionAt offset).map ManagedRegion.assetId = c.assetId? := by
  cases c <;> rfl

theorem map_assetId_regionsAt (offset : Nat) :
    (regionsAt offset chunks).map ManagedRegion.assetId = assetIds chunks := by
  induction chunks generalizing offset with
  | nil => rfl
  | cons c chunks ih =>
    rw [regionsAt, List.map_append, ih]
    cases c <;> rfl

theorem regionsAt_append :
    regionsAt offset (chunks ++ rest) =
      regionsAt offset chunks ++ regionsAt (offset + (bytes chunks).length) rest := by
  induction chunks generalizing offset with
  | nil => simp [regionsAt]
  | cons c chunks ih =>
    rw [List.cons_append, regionsAt, regionsAt, ih, bytes_cons, List.length_append,
      List.append_assoc, Nat.add_assoc]

end Shape

section Scan

variable {limits : InstructionLimits} {regions : List ManagedRegion} {offset : Nat}
  {opened : Option OpenRegion} {chunks : Layout} {xs : List Bytes}

theorem inspectLine_unmarked {s : InspectState} {line : Bytes} (h : Chunk.Unmarked line) :
    inspectLine limits s line = .ok { s with offset := s.offset + line.length } := by
  rw [inspectLine, h]
  rfl

theorem inspectLine_begin {s : InspectState} {line : Bytes} {assetId : AssetName}
    (h : parseMarker (stripNewline line) = .ok (some (.begin assetId))) :
    inspectLine limits s line = beginRegion limits s line.length assetId := by
  rw [inspectLine, h]
  rfl

theorem inspectLine_end {s : InspectState} {line : Bytes} {assetId : AssetName}
    (h : parseMarker (stripNewline line) = .ok (some (.end assetId))) :
    inspectLine limits s line = endRegion limits s line.length assetId := by
  rw [inspectLine, h]
  rfl

theorem foldlM_cons_ok {s t : InspectState} {line : Bytes} (h : inspectLine limits s line = .ok t) :
    (line :: xs).foldlM (inspectLine limits) s = xs.foldlM (inspectLine limits) t := by
  rw [List.foldlM_cons, h]
  rfl

/-- Plain lines move the offset and nothing else. -/
theorem foldlM_unmarked (h : ∀ line ∈ xs, Chunk.Unmarked line) :
    xs.foldlM (inspectLine limits) ⟨regions, opened, offset⟩ =
      .ok ⟨regions, opened, offset + xs.flatten.length⟩ := by
  induction xs generalizing offset with
  | nil => rfl
  | cons line xs ih =>
    rw [foldlM_cons_ok (inspectLine_unmarked (h line List.mem_cons_self)),
      ih fun line hl => h line (List.mem_cons_of_mem _ hl), List.flatten_cons, List.length_append,
      Nat.add_assoc]

theorem foldlM_append_ok {s t : InspectState} {ys : List Bytes}
    (h : xs.foldlM (inspectLine limits) s = .ok t) :
    (xs ++ ys).foldlM (inspectLine limits) s = ys.foldlM (inspectLine limits) t := by
  rw [List.foldlM_append, h]
  rfl

/-- The scan of one chunk adds its region. -/
theorem foldlM_chunk {c : Chunk} (hv : c.Valid limits.maxBodyBytes)
    (hnew : ∀ assetId ∈ c.assetId?, assetId ∉ regions.map ManagedRegion.assetId)
    (hcount : (c.assetId?).isSome = true → regions.length < limits.maxRegions) :
    c.lines.foldlM (inspectLine limits) ⟨regions, none, offset⟩ =
      .ok ⟨regions ++ (c.regionAt offset).toList, none, offset + c.bytes.length⟩ := by
  cases c with
  | text line =>
    rw [Chunk.lines, foldlM_cons_ok (inspectLine_unmarked hv)]
    simp [Chunk.regionAt, Chunk.bytes, Chunk.lines, pure, Except.pure]
  | region assetId opening body closing =>
    obtain ⟨hopening, hbody, hclosing, hlength⟩ := hv
    have hlt : regions.length < limits.maxRegions := hcount rfl
    have hfresh : assetId ∉ regions.map ManagedRegion.assetId := hnew assetId rfl
    have hbegin : inspectLine limits ⟨regions, none, offset⟩ opening =
        .ok ⟨regions, some ⟨assetId, offset, offset + opening.length⟩, offset + opening.length⟩ := by
      rw [inspectLine_begin hopening, beginRegion]
      simp only
      rw [if_neg (by omega)]
    rw [Chunk.lines, foldlM_cons_ok hbegin, foldlM_append_ok (foldlM_unmarked hbody)]
    have hend : inspectLine limits ⟨regions, some ⟨assetId, offset, offset + opening.length⟩,
        offset + opening.length + body.flatten.length⟩ closing =
        .ok ⟨regions ++ ((Chunk.region assetId opening body closing).regionAt offset).toList, none,
          offset + (Chunk.region assetId opening body closing).bytes.length⟩ := by
      rw [inspectLine_end hclosing, endRegion]
      simp only
      rw [if_neg (by simp), if_neg (by simp only [ByteRange.len]; omega), if_neg]
      · simp [Chunk.regionAt, Chunk.bytes, Chunk.lines]
        omega
      · simp only [List.any_eq_true, decide_eq_true_eq, not_exists, not_and]
        intro region hr he
        exact hfresh (he ▸ List.mem_map_of_mem hr)
    rw [foldlM_cons_ok hend]
    rfl

/-- An accepted layout is scanned to its regions. -/
theorem foldlM_lines (hv : ∀ c ∈ chunks, c.Valid limits.maxBodyBytes)
    (hdistinct : (regions.map ManagedRegion.assetId ++ assetIds chunks).Nodup)
    (hcount : regions.length + (assetIds chunks).length ≤ limits.maxRegions) :
    (lines chunks).foldlM (inspectLine limits) ⟨regions, none, offset⟩ =
      .ok ⟨regions ++ regionsAt offset chunks, none, offset + (bytes chunks).length⟩ := by
  induction chunks generalizing regions offset with
  | nil => simp [lines, regionsAt, pure, Except.pure]
  | cons c chunks ih =>
    have hids : assetIds (c :: chunks) = c.assetId?.toList ++ assetIds chunks := by
      cases h : c.assetId? <;> simp [assetIds, h]
    have hregion : (c.regionAt offset).toList.map ManagedRegion.assetId = c.assetId?.toList := by
      rw [← assetId?_regionAt offset]
      cases c.regionAt offset <;> rfl
    have hlength : (c.regionAt offset).toList.length = c.assetId?.toList.length := by
      rw [← hregion, List.length_map]
    rw [hids] at hdistinct hcount
    rw [List.length_append] at hcount
    rw [← List.append_assoc] at hdistinct
    have hchunk : c.lines.foldlM (inspectLine limits) ⟨regions, none, offset⟩ =
        .ok ⟨regions ++ (c.regionAt offset).toList, none, offset + c.bytes.length⟩ := by
      refine foldlM_chunk (hv c List.mem_cons_self) ?_ ?_
      · intro assetId ha hmem
        have hd := (List.nodup_append.mp (List.nodup_append.mp hdistinct).1).2.2
        exact hd _ hmem _ (by simpa using ha) rfl
      · intro hsome
        obtain ⟨assetId, ha⟩ := Option.isSome_iff_exists.mp hsome
        rw [ha, Option.toList_some, List.length_singleton] at hcount
        omega
    rw [lines_cons, foldlM_append_ok hchunk, ih]
    · rw [regionsAt, bytes_cons, List.length_append, List.append_assoc, Nat.add_assoc]
    · exact fun c hc => hv c (List.mem_cons_of_mem _ hc)
    · rwa [List.map_append, hregion]
    · rw [List.length_append, hlength]
      omega

/-- What one line does to a scan that goes on. -/
theorem inspectLine_cases {s t : InspectState} {line : Bytes}
    (h : inspectLine limits s line = .ok t) :
    (Chunk.Unmarked line ∧ t = { s with offset := s.offset + line.length }) ∨
    (∃ assetId, parseMarker (stripNewline line) = .ok (some (.begin assetId)) ∧
      s.opened = none ∧ s.regions.length < limits.maxRegions ∧
      t = { s with
        opened := some ⟨assetId, s.offset, s.offset + line.length⟩
        offset := s.offset + line.length }) ∨
    (∃ current, parseMarker (stripNewline line) = .ok (some (.end current.assetId)) ∧
      s.opened = some current ∧ s.offset - current.bodyStart ≤ limits.maxBodyBytes ∧
      current.assetId ∉ s.regions.map ManagedRegion.assetId ∧
      t = { regions := s.regions ++ [⟨current.assetId, ⟨current.start, s.offset + line.length⟩,
              ⟨current.bodyStart, s.offset⟩⟩]
            opened := none
            offset := s.offset + line.length }) := by
  cases hm : parseMarker (stripNewline line) with
  | error e =>
    rw [inspectLine, hm] at h
    contradiction
  | ok marker =>
    cases marker with
    | none =>
      rw [inspectLine_unmarked hm] at h
      exact .inl ⟨hm, (Except.ok.inj h).symm⟩
    | some marker =>
      rcases marker with assetId | assetId
      · rw [inspectLine_begin hm, beginRegion] at h
        cases ho : s.opened with
        | some current => simp [ho] at h
        | none =>
          simp only [ho] at h
          split at h
          · contradiction
          · exact .inr (.inl ⟨assetId, rfl, rfl, by omega, (Except.ok.inj h).symm⟩)
      · rw [inspectLine_end hm, endRegion] at h
        cases ho : s.opened with
        | none => simp [ho] at h
        | some current =>
          simp only [ho] at h
          split at h
          · contradiction
          rename_i hid
          split at h
          · contradiction
          rename_i hlength
          split at h
          · contradiction
          rename_i hnew
          rw [not_not] at hid
          simp only [ByteRange.len, gt_iff_lt, Nat.not_lt] at hlength
          refine .inr (.inr ⟨current, by rw [hid], rfl, hlength, ?_, (Except.ok.inj h).symm⟩)
          simpa using hnew

/-- The scan keeps the regions distinct and within their limit. -/
def Bounded (limits : InstructionLimits) (s : InspectState) : Prop :=
  (s.regions.map ManagedRegion.assetId).Nodup ∧
    s.regions.length + s.opened.toList.length ≤ limits.maxRegions

theorem inspectLine_bounded {s t : InspectState} {line : Bytes} (hs : Bounded limits s)
    (h : inspectLine limits s line = .ok t) : Bounded limits t := by
  obtain ⟨hdistinct, hcount⟩ := hs
  rcases inspectLine_cases h with ⟨-, rfl⟩ | ⟨assetId, -, ho, hlt, rfl⟩ |
    ⟨current, -, ho, -, hnew, rfl⟩
  · exact ⟨hdistinct, hcount⟩
  · exact ⟨hdistinct, by simpa using Nat.succ_le_of_lt hlt⟩
  · refine ⟨?_, by simpa [ho] using hcount⟩
    rw [List.map_append, List.nodup_append]
    refine ⟨hdistinct, by simp, fun a ha b hb => ?_⟩
    rw [List.map_singleton, List.mem_singleton] at hb
    rintro rfl
    rw [hb] at ha
    exact hnew ha

theorem foldlM_bounded {s t : InspectState} (hs : Bounded limits s)
    (h : xs.foldlM (inspectLine limits) s = .ok t) : Bounded limits t := by
  induction xs generalizing s with
  | nil =>
    cases h
    exact hs
  | cons line xs ih =>
    rw [List.foldlM_cons] at h
    cases hl : inspectLine limits s line with
    | error e => simp [hl, bind, Except.bind] at h
    | ok mid =>
      rw [hl] at h
      exact ih (inspectLine_bounded hs hl) h

/-- The lines that close a region, and the layout after it. -/
def Closes (limits : InstructionLimits) (xs : List Bytes) (s t : InspectState)
    (current : OpenRegion) : Prop :=
  ∃ (body : List Bytes) (closing : Bytes) (chunks : Layout),
    xs = body ++ closing :: lines chunks ∧ (∀ line ∈ body, Chunk.Unmarked line) ∧
    parseMarker (stripNewline closing) = .ok (some (.end current.assetId)) ∧
    s.offset + body.flatten.length - current.bodyStart ≤ limits.maxBodyBytes ∧
    (∀ c ∈ chunks, c.Valid limits.maxBodyBytes) ∧
    t.regions = s.regions ++
      ⟨current.assetId, ⟨current.start, s.offset + body.flatten.length + closing.length⟩,
        ⟨current.bodyStart, s.offset + body.flatten.length⟩⟩ ::
      regionsAt (s.offset + body.flatten.length + closing.length) chunks

/-- A scan that ends outside a region read a layout. -/
theorem foldlM_layout {s t : InspectState} (h : xs.foldlM (inspectLine limits) s = .ok t)
    (ht : t.opened = none) :
    (s.opened = none → ∃ chunks, xs = lines chunks ∧
      (∀ c ∈ chunks, c.Valid limits.maxBodyBytes) ∧
      t.regions = s.regions ++ regionsAt s.offset chunks) ∧
    ∀ current, s.opened = some current → Closes limits xs s t current := by
  induction xs generalizing s with
  | nil =>
    cases h
    refine ⟨fun _ => ⟨[], rfl, by simp, by simp [regionsAt]⟩, fun current hc => ?_⟩
    rw [ht] at hc
    contradiction
  | cons line xs ih =>
    rw [List.foldlM_cons] at h
    cases hl : inspectLine limits s line with
    | error e => simp [hl, bind, Except.bind] at h
    | ok mid =>
      rw [hl] at h
      obtain ⟨hnone, hsome⟩ := ih h
      rcases inspectLine_cases hl with ⟨hline, rfl⟩ | ⟨assetId, hline, ho, -, rfl⟩ |
        ⟨current, hline, ho, hlength, -, rfl⟩
      · constructor
        · intro ho
          obtain ⟨chunks, rfl, hv, hr⟩ := hnone ho
          refine ⟨.text line :: chunks, rfl, List.forall_mem_cons.mpr ⟨hline, hv⟩, ?_⟩
          simpa [regionsAt, Chunk.regionAt, Chunk.bytes, Chunk.lines] using hr
        · intro current ho
          obtain ⟨body, closing, chunks, rfl, hbody, hclosing, hlength, hv, hr⟩ := hsome current ho
          refine ⟨line :: body, closing, chunks, rfl, List.forall_mem_cons.mpr ⟨hline, hbody⟩,
            hclosing, ?_, hv, ?_⟩
          · rw [List.flatten_cons, List.length_append, ← Nat.add_assoc]
            exact hlength
          · rw [List.flatten_cons, List.length_append, ← Nat.add_assoc]
            exact hr
      · refine ⟨fun _ => ?_, fun current hc => by rw [ho] at hc; contradiction⟩
        obtain ⟨body, closing, chunks, rfl, hbody, hclosing, hlength, hv, hr⟩ := hsome _ rfl
        refine ⟨.region assetId line body closing :: chunks, by simp [Chunk.lines], ?_, ?_⟩
        · refine List.forall_mem_cons.mpr ⟨⟨hline, hbody, hclosing, ?_⟩, hv⟩
          simpa using hlength
        · rw [hr, regionsAt]
          simp only [Chunk.regionAt, Chunk.bytes, Chunk.lines, Option.toList_some,
            List.singleton_append, List.flatten_cons, List.flatten_append, List.length_append,
            List.flatten_nil, List.append_nil]
          congr 3
          omega
      · refine ⟨fun hc => by rw [ho] at hc; contradiction, fun current' hc => ?_⟩
        obtain rfl : current = current' := Option.some.inj (ho.symm.trans hc)
        obtain ⟨chunks, rfl, hv, hr⟩ := hnone rfl
        refine ⟨[], line, chunks, rfl, by simp, hline, by simpa using hlength, hv, ?_⟩
        simpa using hr

end Scan

section Inspect

variable {limits : InstructionLimits} {input : Bytes} {document : ManagedDocument}

/-- A document is accepted exactly when its lines have an accepted layout, and the regions
found are those of the layout. -/
theorem inspectManagedDocument_eq_ok :
    inspectManagedDocument limits input = .ok document ↔
      (input.length ≤ limits.maxDocumentBytes ∧ Utf8.valid input = true ∧ 0 ∉ input) ∧
        ∃ chunks, splitInclusive newline input = lines chunks ∧ Accepted limits chunks ∧
          document.regions = regionsAt 0 chunks := by
  unfold inspectManagedDocument
  split
  · rename_i hlength
    simp only [reduceCtorEq, false_iff]
    exact fun h => absurd h.1.1 (by omega)
  rename_i hlength
  split
  · rename_i hutf8
    simp only [reduceCtorEq, false_iff]
    exact fun h => by simp [h.1.2.1] at hutf8
  rename_i hutf8
  split
  · rename_i hnul
    simp only [reduceCtorEq, false_iff]
    exact fun h => h.1.2.2 (by simpa using hnul)
  rename_i hnul
  have hbytes : input.length ≤ limits.maxDocumentBytes ∧ Utf8.valid input = true ∧ 0 ∉ input :=
    ⟨by omega, by simpa using hutf8, by simpa using hnul⟩
  rw [Except.bind_eq_ok_iff]
  constructor
  · rintro ⟨t, hscan, h⟩
    split at h
    · contradiction
    rename_i ho
    obtain ⟨chunks, hlines, hv, hregions⟩ := (foldlM_layout hscan (by simpa using ho)).1 rfl
    have hbounded := foldlM_bounded ⟨by simp, by simp⟩ hscan
    cases h
    rw [List.nil_append] at hregions
    refine ⟨hbytes, chunks, hlines, ⟨hv, ?_, ?_⟩, hregions⟩
    · rw [← map_assetId_regionsAt 0, ← hregions]
      exact hbounded.1
    · rw [← map_assetId_regionsAt 0, ← hregions, List.length_map]
      exact Nat.le_trans (Nat.le_add_right _ _) hbounded.2
  · rintro ⟨-, chunks, hlines, hl, hregions⟩
    have hscan : (lines chunks).foldlM (inspectLine limits) ⟨[], none, 0⟩ =
        .ok ⟨[] ++ regionsAt 0 chunks, none, 0 + (bytes chunks).length⟩ :=
      foldlM_lines hl.valid (by simpa using hl.distinct) (by simpa using hl.count)
    rw [← hlines] at hscan
    refine ⟨_, hscan, ?_⟩
    simp only [List.nil_append, ← hregions]
    rfl

end Inspect

end Layout

end Kitrove
