import Kitrove.Git.Frames
import Kitrove.Git.Records
import Mathlib.Data.List.TakeWhile

/-! The grammar of an advertisement, and that it is what the parser accepts. -/

namespace Kitrove.Git

open Slices

variable {ObjectId : Type} {fromHex : Bytes → Option ObjectId} {state final : AdvertisementState ObjectId}
  {data : Bytes} {datas : List Bytes} {refs : List AdvertisedRef} {capabilities : List Bytes}

section Step

theorem AdvertisedRef.WellFormed.text_nul {ref : AdvertisedRef} (h : ref.WellFormed fromHex) :
    0 ∉ ref.text := by
  intro hmem
  rcases List.mem_append.mp hmem with hoid | hname
  · exact (h.oidPlain 0 hoid).2 rfl
  · rcases List.mem_cons.mp hname with hspace | hname
    · exact absurd hspace (by decide)
    · exact (printable_ne (h.namePrintable 0 hname)).2.1 rfl

theorem AdvertisedRef.WellFormed.text_last {ref : AdvertisedRef} (h : ref.WellFormed fromHex) :
    ref.text.getLast? ≠ some 0x0A := by
  have htext : ref.text = (ref.oid ++ [0x20]) ++ ref.name := by
    rw [AdvertisedRef.text, List.append_assoc, List.singleton_append]
  rw [htext]
  exact getLast_ne_newline h.nameNonempty fun b hb => (printable_ne (h.namePrintable b hb)).2.2

theorem join_capabilities_last (hne : capabilities ≠ [])
    (h : ∀ capability ∈ capabilities, WellFormedCapability capability) (leading : Bytes) :
    (leading ++ 0 :: Segments.join 0x20 capabilities).getLast? ≠ some 0x0A := by
  refine getLast_ne_newline (List.cons_ne_nil _ _) fun b hb => ?_
  rcases List.mem_cons.mp hb with rfl | hb
  · decide
  · rcases Segments.mem_join hb with rfl | ⟨capability, hmem, hb⟩
    · decide
    · exact (printable_ne ((h capability hmem).2 b hb)).2.2

/-- Charging a record and taking its capabilities leaves the names and the head. -/
theorem HeadNamed.charged {taken : Finset Bytes} {remaining : Nat} (h : HeadNamed state) :
    HeadNamed (⟨false, state.names, state.selected, taken, remaining⟩ : AdvertisementState ObjectId) := h

/-- A later record. -/
theorem takeData_later (hfirst : state.first = false) (hhead : HeadNamed state) :
    takeData fromHex state data = .ok final ↔ 0 < state.remainingAdvertisedRefs ∧
      ∃ ref : AdvertisedRef, TextLine ref.text data ∧ ref.WellFormed fromHex ∧
        ref.name ∉ state.names ∧ final = ⟨false, insert ref.name state.names,
          headAfter fromHex state.selected ref, state.capabilities,
          state.remainingAdvertisedRefs - 1⟩ := by
  unfold takeData
  rw [Except.bind_eq_ok_iff]
  constructor
  · rintro ⟨remaining, hremaining, h⟩
    obtain ⟨hroom, rfl⟩ := checkedSub_eq_some.mp (okOr_eq_ok.mp hremaining)
    obtain ⟨⟨record, supplied⟩, hrecord, htaken⟩ := Except.bind_eq_ok_iff.mp h
    rw [hfirst, splitRecord, if_neg Bool.false_ne_true] at hrecord
    split at hrecord
    · exact (nomatch hrecord)
    · rename_i hnul
      cases hrecord
      change takeRecord fromHex _ _ = _ at htaken
      rw [List.contains_iff_mem] at hnul
      rw [takeRecord_eq_ok hhead.charged hnul] at htaken
      obtain ⟨ref, htext, hformed, hnew, rfl⟩ := htaken
      refine ⟨hroom, ref, ?_, hformed, hnew, rfl⟩
      rw [← htext]
      exact textLine_stripLine data
  · rintro ⟨hroom, ref, hline, hformed, hnew, rfl⟩
    refine ⟨_, okOr_eq_ok.mpr (checkedSub_eq_some.mpr ⟨hroom, rfl⟩), ?_⟩
    rw [(stripLine_eq hformed.text_last).mpr hline]
    refine Except.bind_eq_ok_iff.mpr ⟨(ref.text, none), ?_, ?_⟩
    · rw [hfirst, splitRecord, if_neg Bool.false_ne_true, if_neg]
      · rfl
      · rw [List.contains_iff_mem]
        exact hformed.text_nul
    · change takeRecord fromHex _ _ = _
      rw [takeRecord_eq_ok hhead.charged hformed.text_nul]
      exact ⟨ref, rfl, hformed, hnew, rfl⟩

theorem splitRecord_first (data : Bytes) :
    splitRecord true data = .ok (data.takeWhile (· ≠ 0), some ((data.dropWhile (· ≠ 0)).drop 1)) := rfl

/-- What stands before the first zero byte of a text and what stands behind it. -/
theorem takeWhile_nul {text behind : Bytes} (h : 0 ∉ text) :
    (text ++ 0 :: behind).takeWhile (· ≠ 0) = text ∧
      ((text ++ 0 :: behind).dropWhile (· ≠ 0)).drop 1 = behind := by
  have hall : ∀ b ∈ text, decide (b ≠ 0) = true := by
    intro b hb
    rw [decide_eq_true_eq]
    rintro rfl
    exact h hb
  rw [List.takeWhile_append_of_pos hall, List.dropWhile_append_of_pos hall]
  simp

theorem nul_of_dropWhile {text : Bytes} (h : (text.dropWhile (· ≠ 0)).drop 1 ≠ []) :
    text = text.takeWhile (· ≠ 0) ++ 0 :: (text.dropWhile (· ≠ 0)).drop 1 := by
  cases hrest : text.dropWhile (· ≠ 0) with
  | nil =>
    rw [hrest] at h
    exact absurd rfl h
  | cons b rest =>
    have hb : b = 0 := by
      have hhead := List.head?_dropWhile_not (fun b : UInt8 => decide (b ≠ 0)) text
      rw [hrest] at hhead
      simpa using hhead
    have hwhole := List.takeWhile_append_dropWhile (p := fun b : UInt8 => decide (b ≠ 0)) (l := text)
    rw [hrest, hb] at hwhole
    exact hwhole.symm

/-- The first record. -/
theorem takeData_first (hfirst : state.first = true) (hhead : HeadNamed state) :
    takeData fromHex state data = .ok final ↔ 0 < state.remainingAdvertisedRefs ∧
      ∃ (ref : AdvertisedRef) (capabilities : List Bytes),
        TextLine (ref.text ++ 0 :: Segments.join 0x20 capabilities) data ∧ capabilities ≠ [] ∧
        (∀ capability ∈ capabilities,
          WellFormedCapability capability ∧ capability ∉ state.capabilities) ∧
        capabilities.Nodup ∧ ref.WellFormed fromHex ∧ ref.name ∉ state.names ∧
        final = ⟨false, insert ref.name state.names, headAfter fromHex state.selected ref,
          state.capabilities ∪ capabilities.toFinset, state.remainingAdvertisedRefs - 1⟩ := by
  unfold takeData
  rw [Except.bind_eq_ok_iff]
  constructor
  · rintro ⟨remaining, hremaining, h⟩
    obtain ⟨hroom, rfl⟩ := checkedSub_eq_some.mp (okOr_eq_ok.mp hremaining)
    rw [hfirst, splitRecord_first] at h
    obtain ⟨parts, hparts, hbehind⟩ := Except.bind_eq_ok_iff.mp h
    cases hparts
    obtain ⟨taken, htaken, hrecord⟩ := Except.bind_eq_ok_iff.mp hbehind
    clear h hbehind
    generalize hline : (stripSuffix (ascii "\n") data).getD data = line at htaken hrecord
    obtain ⟨hwords, hnodup, rfl⟩ := takeCapability_foldlM.mp htaken
    have hraw : (line.dropWhile (· ≠ 0)).drop 1 ≠ [] := by
      intro hnil
      rw [hnil] at hwords
      exact (hwords [] List.mem_cons_self).1.1 rfl
    have hnul : 0 ∉ line.takeWhile (· ≠ 0) := by
      intro hmem
      have hne := List.mem_takeWhile_imp hmem
      exact absurd rfl (of_decide_eq_true hne)
    rw [takeRecord_eq_ok hhead.charged hnul] at hrecord
    obtain ⟨ref, htext, hformed, hnew, rfl⟩ := hrecord
    refine ⟨hroom, ref, _, ?_, ?_, hwords, hnodup, hformed, hnew, rfl⟩
    · rw [splitOn_eq_splitOn, Segments.join_splitOn, ← htext, ← nul_of_dropWhile hraw, ← hline]
      exact textLine_stripLine data
    · rw [splitOn_eq_splitOn]
      exact List.splitOn_ne_nil _ _
  · rintro ⟨hroom, ref, capabilities, hline, hne, hwords, hnodup, hformed, hnew, rfl⟩
    refine ⟨_, okOr_eq_ok.mpr (checkedSub_eq_some.mpr ⟨hroom, rfl⟩), ?_⟩
    have hlast := join_capabilities_last hne (fun capability hmem => (hwords capability hmem).1) ref.text
    obtain ⟨htake, hdrop⟩ := @takeWhile_nul ref.text (Segments.join 0x20 capabilities) hformed.text_nul
    rw [(stripLine_eq hlast).mpr hline, hfirst, splitRecord_first, htake, hdrop]
    have hsplit : splitOn 0x20 (Segments.join 0x20 capabilities) = capabilities := by
      rw [splitOn_eq_splitOn]
      refine Segments.splitOn_join hne fun capability hmem hspace => ?_
      exact (printable_ne ((hwords capability hmem).1.2 _ hspace)).1 rfl
    refine Except.bind_eq_ok_iff.mpr ⟨_, rfl, Except.bind_eq_ok_iff.mpr
      ⟨state.capabilities ∪ capabilities.toFinset, ?_, ?_⟩⟩
    · rw [takeCapabilities, hsplit]
      exact takeCapability_foldlM.mpr ⟨hwords, hnodup, rfl⟩
    · rw [takeRecord_eq_ok hhead.charged hformed.text_nul]
      exact ⟨ref, rfl, hformed, hnew, rfl⟩

end Step

section Run

theorem HeadNamed.next {ref : AdvertisedRef} {taken : Finset Bytes} {remaining : Nat}
    (h : HeadNamed state) : HeadNamed (⟨false, insert ref.name state.names,
      headAfter fromHex state.selected ref, taken, remaining⟩ : AdvertisementState ObjectId) := by
  intro hsome
  by_cases hname : ref.name = fixedRef
  · rw [← hname]
    exact Finset.mem_insert_self _ _
  · change (headAfter fromHex state.selected ref).isSome = true at hsome
    rw [headAfter, if_neg hname] at hsome
    exact Finset.mem_insert_of_mem (h hsome)

/-- The later records: each on its line, with names that are new. -/
theorem takeData_foldlM (hfirst : state.first = false) (hhead : HeadNamed state) :
    datas.foldlM (takeData fromHex) state = .ok final ↔
      datas.length ≤ state.remainingAdvertisedRefs ∧ ∃ refs : List AdvertisedRef,
        List.Forall₂ (fun ref data => TextLine ref.text data) refs datas ∧
        (∀ ref ∈ refs, ref.WellFormed fromHex ∧ ref.name ∉ state.names) ∧
        (refs.map AdvertisedRef.name).Nodup ∧
        final = ⟨false, state.names ∪ (refs.map AdvertisedRef.name).toFinset,
          refs.foldl (headAfter fromHex) state.selected, state.capabilities,
          state.remainingAdvertisedRefs - datas.length⟩ := by
  induction datas generalizing state with
  | nil =>
    rw [List.foldlM_nil, Except.pure_eq_ok_iff]
    constructor
    · rintro rfl
      refine ⟨Nat.zero_le _, [], .nil, nofun, List.nodup_nil, ?_⟩
      rw [List.map_nil, List.toFinset_nil, Finset.union_empty, ← hfirst]
      rfl
    · rintro ⟨-, refs, hlines, -, -, rfl⟩
      cases hlines
      rw [List.map_nil, List.toFinset_nil, Finset.union_empty, ← hfirst]
      rfl
  | cons data datas ih =>
    rw [List.foldlM_cons, Except.bind_eq_ok_iff, List.length_cons]
    have hunion (ref : AdvertisedRef) (refs : List AdvertisedRef) :
        insert ref.name state.names ∪ (refs.map AdvertisedRef.name).toFinset =
          state.names ∪ ((ref :: refs).map AdvertisedRef.name).toFinset := by
      rw [List.map_cons, List.toFinset_cons, Finset.insert_union, Finset.union_insert]
    have hcount : state.remainingAdvertisedRefs - 1 - datas.length =
        state.remainingAdvertisedRefs - (datas.length + 1) := by omega
    constructor
    · rintro ⟨next, hnext, hrest⟩
      obtain ⟨hroom, ref, hline, hformed, hnew, rfl⟩ := (takeData_later hfirst hhead).mp hnext
      obtain ⟨hlength, refs, hlines, hrefs, hnodup, rfl⟩ := (ih rfl hhead.next).mp hrest
      dsimp only at hlength
      refine ⟨by omega, ref :: refs, .cons hline hlines, List.forall_mem_cons.mpr
        ⟨⟨hformed, hnew⟩, fun other hmem => ⟨(hrefs other hmem).1, fun hold => ?_⟩⟩,
        List.nodup_cons.mpr ⟨fun hmem => ?_, hnodup⟩, ?_⟩
      · exact (hrefs other hmem).2 (Finset.mem_insert_of_mem hold)
      · obtain ⟨other, hother, hsame⟩ := List.mem_map.mp hmem
        exact (hrefs other hother).2 (hsame ▸ Finset.mem_insert_self _ _)
      · dsimp only
        rw [hunion, hcount]
        rfl
    · rintro ⟨hlength, refs, hlines, hrefs, hnodup, rfl⟩
      cases hlines with
      | @cons ref _ refs _ hline hlines =>
        obtain ⟨⟨hformed, hnew⟩, hrefs⟩ := List.forall_mem_cons.mp hrefs
        obtain ⟨hfresh, hnodup⟩ := List.nodup_cons.mp hnodup
        refine ⟨_, (takeData_later hfirst hhead).mpr ⟨by omega, ref, hline, hformed, hnew, rfl⟩,
          (ih rfl hhead.next).mpr ⟨by dsimp only; omega, refs, hlines, fun other hmem => ?_, hnodup, ?_⟩⟩
        · refine ⟨(hrefs other hmem).1, fun hold => ?_⟩
          rcases Finset.mem_insert.mp hold with hsame | hold
          · exact hfresh (hsame ▸ List.mem_map_of_mem hmem)
          · exact (hrefs other hmem).2 hold
        · dsimp only
          rw [hunion, hcount]
          rfl

/-- The payloads of the records: the first one with capabilities behind a zero byte. -/
inductive Records : List Bytes → List AdvertisedRef → List Bytes → Prop
  | none : Records [] [] []
  | some {data : Bytes} {datas : List Bytes} {ref : AdvertisedRef} {refs : List AdvertisedRef}
      {capabilities : List Bytes} (hne : capabilities ≠ [])
      (hline : TextLine (ref.text ++ 0 :: Segments.join 0x20 capabilities) data)
      (hlines : List.Forall₂ (fun ref data => TextLine ref.text data) refs datas) :
      Records (data :: datas) (ref :: refs) capabilities

variable (fromHex) in
/-- The head that the records select. -/
def headOf (refs : List AdvertisedRef) : Option ObjectId := refs.foldl (headAfter fromHex) none

def freshState (ObjectId : Type) (remaining : Nat) : AdvertisementState ObjectId :=
  ⟨true, ∅, none, ∅, remaining⟩

theorem takeDatas_eq_ok {remaining : Nat} :
    datas.foldlM (takeData fromHex) (freshState ObjectId remaining) = .ok final ↔
      datas.length ≤ remaining ∧ ∃ (refs : List AdvertisedRef) (capabilities : List Bytes),
        Records datas refs capabilities ∧ (∀ ref ∈ refs, ref.WellFormed fromHex) ∧
        (refs.map AdvertisedRef.name).Nodup ∧
        (∀ capability ∈ capabilities, WellFormedCapability capability) ∧ capabilities.Nodup ∧
        final = ⟨datas.isEmpty, (refs.map AdvertisedRef.name).toFinset, headOf fromHex refs,
          capabilities.toFinset, remaining - datas.length⟩ := by
  have hhead : HeadNamed (freshState ObjectId remaining) := nofun
  cases datas with
  | nil =>
    rw [List.foldlM_nil, Except.pure_eq_ok_iff]
    constructor
    · rintro rfl
      exact ⟨Nat.zero_le _, [], [], .none, nofun, List.nodup_nil, nofun, List.nodup_nil, rfl⟩
    · rintro ⟨-, refs, capabilities, hrecords, -, -, -, -, rfl⟩
      cases hrecords
      rfl
  | cons data datas =>
    rw [List.foldlM_cons, Except.bind_eq_ok_iff, List.length_cons]
    have hnames (ref : AdvertisedRef) (refs : List AdvertisedRef) :
        insert ref.name ∅ ∪ (refs.map AdvertisedRef.name).toFinset =
          ((ref :: refs).map AdvertisedRef.name).toFinset := by
      rw [List.map_cons, List.toFinset_cons, Finset.insert_union, Finset.empty_union]
    have hcount : remaining - 1 - datas.length = remaining - (datas.length + 1) := by omega
    constructor
    · rintro ⟨next, hnext, hrest⟩
      obtain ⟨hroom, ref, capabilities, hline, hne, hwords, hdistinct, hformed, -, rfl⟩ :=
        (takeData_first rfl hhead).mp hnext
      obtain ⟨hlength, refs, hlines, hrefs, hnodup, rfl⟩ :=
        (takeData_foldlM rfl hhead.next).mp hrest
      change 0 < remaining at hroom
      change datas.length ≤ remaining - 1 at hlength
      refine ⟨by omega, ref :: refs, capabilities, .some hne hline hlines,
        List.forall_mem_cons.mpr ⟨hformed, fun other hmem => (hrefs other hmem).1⟩,
        List.nodup_cons.mpr ⟨fun hmem => ?_, hnodup⟩, fun word hmem => (hwords word hmem).1,
        hdistinct, ?_⟩
      · obtain ⟨other, hother, hsame⟩ := List.mem_map.mp hmem
        exact (hrefs other hother).2 (hsame ▸ Finset.mem_insert_self _ _)
      · dsimp only [freshState]
        rw [hnames, hcount, Finset.empty_union]
        rfl
    · rintro ⟨hlength, refs, capabilities, hrecords, hrefs, hnodup, hwords, hdistinct, rfl⟩
      cases hrecords with
      | @some _ _ ref refs _ hne hline hlines =>
        obtain ⟨hformed, hrefs⟩ := List.forall_mem_cons.mp hrefs
        obtain ⟨hfresh, hnodup⟩ := List.nodup_cons.mp hnodup
        refine ⟨_, (takeData_first rfl hhead).mpr ⟨by change 0 < remaining; omega, ref, capabilities,
          hline, hne, fun word hmem => ⟨hwords word hmem, Finset.notMem_empty _⟩, hdistinct, hformed,
          Finset.notMem_empty _, rfl⟩, (takeData_foldlM rfl hhead.next).mpr
            ⟨?_, refs, hlines, fun other hmem => ⟨hrefs other hmem, fun hold => ?_⟩, hnodup, ?_⟩⟩
        · change datas.length ≤ remaining - 1
          omega
        · rcases Finset.mem_insert.mp hold with hsame | hold
          · exact hfresh (hsame ▸ List.mem_map_of_mem hmem)
          · exact Finset.notMem_empty _ hold
        · dsimp only [freshState]
          rw [hnames, hcount, Finset.empty_union]
          rfl

/-- With distinct names the head is the object id of the record for the fixed reference. -/
theorem headOf_eq_some {id : ObjectId} (hnodup : (refs.map AdvertisedRef.name).Nodup) : headOf fromHex refs = some id ↔
      ∃ ref ∈ refs, ref.name = fixedRef ∧ fromHex ref.oid = some id := by
  have hrun (selected : Option ObjectId) : refs.foldl (headAfter fromHex) selected = some id ↔
      (∃ ref ∈ refs, ref.name = fixedRef ∧ fromHex ref.oid = some id) ∨
        (∀ ref ∈ refs, ref.name ≠ fixedRef) ∧ selected = some id := by
    induction refs generalizing selected with
    | nil => simp
    | cons ref refs ih =>
      obtain ⟨hfresh, hnodup⟩ := List.nodup_cons.mp hnodup
      rw [List.foldl_cons, ih hnodup]
      by_cases hname : ref.name = fixedRef
      · have hothers : ∀ other ∈ refs, other.name ≠ fixedRef := by
          intro other hmem hsame
          exact hfresh (hname ▸ hsame ▸ List.mem_map_of_mem hmem)
        rw [headAfter, if_pos hname]
        simp only [List.mem_cons, exists_eq_or_imp, forall_eq_or_imp]
        constructor
        · rintro (⟨other, hmem, hsame, -⟩ | ⟨-, hid⟩)
          · exact absurd hsame (hothers other hmem)
          · exact .inl (.inl ⟨hname, hid⟩)
        · rintro ((⟨-, hid⟩ | ⟨other, hmem, hsame, -⟩) | ⟨⟨hne, -⟩, -⟩)
          · exact .inr ⟨hothers, hid⟩
          · exact absurd hsame (hothers other hmem)
          · exact absurd hname hne
      · rw [headAfter, if_neg hname]
        simp only [List.mem_cons, exists_eq_or_imp, forall_eq_or_imp, hname, false_and, false_or,
          ne_eq, not_false_eq_true, true_and]
  rw [headOf, hrun]
  exact or_iff_left fun h => nomatch h.2

end Run

end Kitrove.Git
