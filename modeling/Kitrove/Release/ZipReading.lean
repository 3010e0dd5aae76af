import Kitrove.Release.ZipLayout
import Mathlib.Data.List.Induction
import Mathlib.Data.List.Nodup

/-! The local records of a ZIP in the order of their starts, and the one reading of the archive. -/

namespace Kitrove

open Slices Except

section Local

variable {bytes : Bytes} {centralStart start stop : Nat} {ce : CentralEntry}

theorem parseLocalRecord_eq_ok (hend : centralStart ≤ bytes.length) (hword : centralStart < wordLimit)
    {data : Nat × Nat} : parseLocalRecord bytes centralStart ce.record start = .ok data ↔
      ∃ e : ZipEntry, e.toCentralEntry = ce ∧ e.localStart.toNat = start ∧
        cut bytes start (start + e.localRecord.length) = e.localRecord ∧
        start + e.localRecord.length ≤ centralStart ∧ data = e.record.data := by
  unfold parseLocalRecord CentralEntry.record
  dsimp only
  constructor
  · intro h
    obtain ⟨hstart, h⟩ := refuse_bind_eq_ok.mp h
    rw [decide_eq_false_iff_not, ne_eq, not_not] at hstart
    obtain ⟨fixedEnd, hfixedEnd, h⟩ := bind_eq_ok_iff.mp h
    obtain ⟨hadd, hle⟩ := filter_le_eq_some.mp (okOr_eq_ok.mp hfixedEnd)
    obtain ⟨-, rfl⟩ := checkedAdd_eq_some.mp hadd
    obtain ⟨fixed, hfixed, h⟩ := bind_eq_ok_iff.mp h
    obtain ⟨-, hfixed⟩ := slice_eq_ok.mp hfixed
    have hlength : fixed.length = 30 := by
      rw [← hfixed, length_cut (by omega)]
      unfold localBytes
      omega
    simp (disch := omega) only [leU16_eq, leU32_eq, pure_bind] at h
    obtain ⟨dataStart, hdataStart, h⟩ := bind_eq_ok_iff.mp h
    obtain ⟨dataEnd, hdataEnd, h⟩ := bind_eq_ok_iff.mp h
    obtain ⟨hsignature, h⟩ := refuse_bind_eq_ok.mp h
    obtain ⟨hflags, h⟩ := refuse_bind_eq_ok.mp h
    obtain ⟨hcompression, h⟩ := refuse_bind_eq_ok.mp h
    obtain ⟨hcrc, h⟩ := refuse_bind_eq_ok.mp h
    obtain ⟨hcompressed, h⟩ := refuse_bind_eq_ok.mp h
    obtain ⟨hexpanded, h⟩ := refuse_bind_eq_ok.mp h
    obtain ⟨hextra, h⟩ := refuse_bind_eq_ok.mp h
    obtain ⟨nameEnd, hnameEnd, h⟩ := bind_eq_ok_iff.mp h
    obtain ⟨hname, h⟩ := refuse_bind_eq_ok.mp h
    cases h
    simp only [decide_eq_false_iff_not, ne_eq, not_not]
      at hsignature hflags hcompression hcrc hcompressed hexpanded hextra hname
    obtain ⟨hdataStart, -⟩ := filter_le_eq_some.mp (okOr_eq_ok.mp hdataStart)
    obtain ⟨first, hfirst, hdataStart⟩ := Option.bind_eq_some_iff.mp hdataStart
    rw [hextra] at hdataStart
    obtain ⟨-, rfl⟩ := checkedAdd_eq_some.mp hfirst
    obtain ⟨-, rfl⟩ := checkedAdd_eq_some.mp hdataStart
    obtain ⟨hdataEnd, hin⟩ := filter_le_eq_some.mp (okOr_eq_ok.mp hdataEnd)
    obtain ⟨-, rfl⟩ := checkedAdd_eq_some.mp hdataEnd
    obtain ⟨-, rfl⟩ := plus_eq_ok.mp hnameEnd
    obtain ⟨⟨-, hnameIn⟩, hname⟩ := get_eq_some.mp hname
    have hnameLength := congrArg List.length hname
    rw [length_cut (by omega), Nat.add_sub_cancel_left] at hnameLength
    rw [hnameLength] at hname hin
    rw [hstart] at hname hin hfixed
    let e : ZipEntry :=
      { toCentralEntry := ce
        localVersion := u16At fixed 4
        localTime := u32At fixed 10
        data := cut bytes (start + localBytes + ce.name.length)
          (start + localBytes + ce.name.length + ce.compressedSize.toNat)
        dataLength := by rw [length_cut (by omega), Nat.add_sub_cancel_left] }
    have hheader : fixed = e.localPieces.flatten := localHeader_eq hlength hsignature rfl hflags
      hcompression rfl hcrc (UInt32.toNat_inj.mp hcompressed) (UInt32.toNat_inj.mp hexpanded)
      (by rw [← nameLen_eq, UInt16.toNat_inj] at hnameLength; exact hnameLength)
      (UInt16.toNat_inj.mp hextra)
    have hrecord : e.localRecord.length =
        localBytes + ce.name.length + ce.compressedSize.toNat := by
      rw [length_localRecord, e.dataLength]
    refine ⟨e, rfl, hstart, ?_, by omega, ?_⟩
    · have hstop : start + e.localRecord.length =
          start + localBytes + ce.name.length + ce.compressedSize.toNat := by omega
      have hnamed : cut bytes start (start + localBytes) ++
          cut bytes (start + localBytes) (start + localBytes + ce.name.length) =
            cut bytes start (start + localBytes + ce.name.length) :=
        cut_append (by omega) (by omega)
      have hall : cut bytes start (start + localBytes + ce.name.length) ++ e.data =
          cut bytes start (start + localBytes + ce.name.length + ce.compressedSize.toNat) :=
        cut_append (by omega) (by omega)
      rw [hstop, ZipEntry.localRecord, ← hheader, ← hall, ← hnamed, hfixed, hname]
    · rw [hnameLength]
      rfl
  · rintro ⟨e, rfl, hstart, hcut, hle, rfl⟩
    have hlength := @length_localRecord e
    rw [e.dataLength] at hlength
    have hfits : localBytes = 30 := rfl
    obtain ⟨hnamed, hdata, -⟩ := cut_eq_append hcut (by omega) (by omega)
    rw [List.length_append, length_localPieces] at hnamed
    obtain ⟨hfixed, hname, -⟩ := cut_eq_append hnamed (by omega) (by omega)
    rw [length_localPieces] at hfixed hname
    obtain ⟨hfixedLength, hsignature, hflags, hcompression, hcrc, hcompressed, hexpanded, hnameLen,
      hextra⟩ := localHeader_read hfixed
    subst hstart
    refine refuse_bind_eq_ok.mpr ⟨by simp, ?_⟩
    refine bind_eq_ok_iff.mpr ⟨e.localStart.toNat + localBytes, okOr_eq_ok.mpr (filter_le_eq_some.mpr
      ⟨checkedAdd_eq_some.mpr ⟨by omega, rfl⟩, by omega⟩), ?_⟩
    refine bind_eq_ok_iff.mpr ⟨_, slice_eq_ok.mpr ⟨⟨by omega, by omega⟩, rfl⟩, ?_⟩
    simp (disch := omega) only [leU16_eq, leU32_eq, pure_bind]
    rw [hflags, hcompression, hcrc, hcompressed, hexpanded, hnameLen, hextra, nameLen_eq]
    refine bind_eq_ok_iff.mpr ⟨e.localStart.toNat + localBytes + e.name.length,
      okOr_eq_ok.mpr (filter_le_eq_some.mpr ⟨Option.bind_eq_some_iff.mpr
        ⟨_, checkedAdd_eq_some.mpr ⟨by omega, rfl⟩, checkedAdd_eq_some.mpr
          ⟨by change _ + 0 < _; omega, rfl⟩⟩, by omega⟩), ?_⟩
    refine bind_eq_ok_iff.mpr ⟨_, okOr_eq_ok.mpr (filter_le_eq_some.mpr
      ⟨checkedAdd_eq_some.mpr ⟨by omega, rfl⟩, by omega⟩), ?_⟩
    refine refuse_bind_eq_ok.mpr ⟨by simpa using hsignature, ?_⟩
    refine refuse_bind_eq_ok.mpr ⟨by simp, refuse_bind_eq_ok.mpr ⟨by simp, ?_⟩⟩
    refine refuse_bind_eq_ok.mpr ⟨by simp, refuse_bind_eq_ok.mpr ⟨by simp, ?_⟩⟩
    refine refuse_bind_eq_ok.mpr ⟨by simp, refuse_bind_eq_ok.mpr ⟨rfl, ?_⟩⟩
    rw [← Nat.add_assoc] at hname
    refine bind_eq_ok_iff.mpr ⟨_, plus_eq_ok.mpr ⟨by omega, rfl⟩, refuse_bind_eq_ok.mpr ⟨?_, rfl⟩⟩
    have hget := get_eq_some.mpr ⟨⟨Nat.le_add_right _ _, by omega⟩, hname⟩
    simpa using hget

theorem parseLocalRecord_safe (hend : centralStart ≤ bytes.length) {record : ZipEntryRecord} :
    Safe (parseLocalRecord bytes centralStart record start) := by
  unfold parseLocalRecord
  refine safe_refuse.bind fun _ _ => safe_okOr.bind fun fixedEnd hfixedEnd => ?_
  obtain ⟨hadd, hle⟩ := filter_le_eq_some.mp (okOr_eq_ok.mp hfixedEnd)
  obtain ⟨-, rfl⟩ := checkedAdd_eq_some.mp hadd
  refine (safe_slice (by omega) (by omega)).bind fun fixed hfixed => ?_
  obtain ⟨-, hfixed⟩ := slice_eq_ok.mp hfixed
  have hlength : fixed.length = 30 := by
    rw [← hfixed, length_cut (by omega)]
    unfold localBytes
    omega
  simp (disch := omega) only [leU16_eq, leU32_eq, pure_bind]
  refine safe_okOr.bind fun dataStart hdataStart => safe_okOr.bind fun _ _ => ?_
  obtain ⟨hdataStart, -⟩ := filter_le_eq_some.mp (okOr_eq_ok.mp hdataStart)
  obtain ⟨first, hfirst, -⟩ := Option.bind_eq_some_iff.mp hdataStart
  obtain ⟨hsum, -⟩ := checkedAdd_eq_some.mp hfirst
  refine safe_refuse.bind fun _ _ => safe_refuse.bind fun _ _ => safe_refuse.bind fun _ _ => ?_
  refine safe_refuse.bind fun _ _ => safe_refuse.bind fun _ _ => safe_refuse.bind fun _ _ => ?_
  exact safe_refuse.bind fun _ _ => (safe_plus hsum).bind fun _ _ =>
    safe_refuse.bind fun _ _ => safe_pure

end Local

section Order

variable {bytes : Bytes} {centralStart start stop : Nat} {table : List CentralEntry}
  {records result : List ZipEntryRecord} {order : List Nat}

/-- Local records that stand one after the other, each where its central record says. -/
def Tiled : Nat → List ZipEntry → Prop
  | _, [] => True
  | start, e :: es => e.localStart.toNat = start ∧ Tiled (start + e.localRecord.length) es

theorem record_data_end {e : ZipEntry} :
    e.record.data.2 = e.localStart.toNat + e.localRecord.length := by
  rw [length_localRecord, e.dataLength, ZipEntry.record]
  dsimp only
  omega

theorem validateLocalStep_eq_ok (hend : centralStart ≤ bytes.length) (hword : centralStart < wordLimit)
    {i : Nat} (hrecord : records[i]? = (table[i]?).map CentralEntry.record) :
    validateLocalStep bytes centralStart (records, start) i = .ok (result, stop) ↔
      ∃ e : ZipEntry, table[i]? = some e.toCentralEntry ∧ e.localStart.toNat = start ∧
        cut bytes start stop = e.localRecord ∧ stop = start + e.localRecord.length ∧
        stop ≤ centralStart ∧ result = records.set i e.record := by
  unfold validateLocalStep
  dsimp only
  rw [bind_eq_ok_iff]
  constructor
  · rintro ⟨record, hindex, h⟩
    obtain ⟨data, hdata, h⟩ := bind_eq_ok_iff.mp h
    cases h
    rw [index_eq_ok, hrecord] at hindex
    obtain ⟨ce, hce, rfl⟩ := Option.map_eq_some_iff.mp hindex
    obtain ⟨e, rfl, hstart, hcut, hle, rfl⟩ := (parseLocalRecord_eq_ok hend hword).mp hdata
    have hstop : e.record.data.2 = start + e.localRecord.length := hstart ▸ record_data_end
    exact ⟨e, hce, hstart, hstop ▸ hcut, hstop, hstop ▸ hle, rfl⟩
  · rintro ⟨e, hce, hstart, hcut, rfl, hle, rfl⟩
    have hstop : e.record.data.2 = start + e.localRecord.length := hstart ▸ record_data_end
    refine ⟨e.toCentralEntry.record, index_eq_ok.mpr (by rw [hrecord, hce, Option.map_some]),
      bind_eq_ok_iff.mpr ⟨e.record.data, (parseLocalRecord_eq_ok hend hword).mpr
        ⟨e, rfl, hstart, hcut, hle, rfl⟩, ?_⟩⟩
    rw [hstop]
    rfl

/-- In an order without repetitions the loop finds an entry for each index, and these tile the
bytes. -/
theorem validateLocalSteps_eq_ok (hend : centralStart ≤ bytes.length)
    (hword : centralStart < wordLimit) (horder : order.Nodup)
    (hrecords : ∀ i ∈ order, records[i]? = (table[i]?).map CentralEntry.record)
    (hstart : start ≤ centralStart) :
    order.foldlM (validateLocalStep bytes centralStart) (records, start) = .ok (result, stop) ↔
      ∃ f : Nat → Option ZipEntry,
        (∀ i ∈ order, ∃ e, f i = some e ∧ table[i]? = some e.toCentralEntry) ∧
        Tiled start (order.filterMap f) ∧
        cut bytes start stop = (order.filterMap f).flatMap ZipEntry.localRecord ∧
        stop = start + ((order.filterMap f).flatMap ZipEntry.localRecord).length ∧
        stop ≤ centralStart ∧ result.length = records.length ∧
        ∀ i, result[i]? = if i ∈ order then (f i).map ZipEntry.record else records[i]? := by
  induction order generalizing records start with
  | nil =>
    constructor
    · intro h
      cases h
      exact ⟨fun _ => none, nofun, trivial, cut_self, rfl, hstart, rfl, fun i => by simp⟩
    · rintro ⟨f, -, -, -, rfl, -, -, hresult⟩
      have heq : result = records := List.ext_getElem? fun i => by simpa using hresult i
      rw [heq]
      rfl
  | cons i order ih =>
    obtain ⟨hnot, horder⟩ := List.nodup_cons.mp horder
    have hfirst := hrecords i List.mem_cons_self
    have hother : ∀ e : ZipEntry, ∀ j ∈ order,
        (records.set i e.record)[j]? = (table[j]?).map CentralEntry.record := by
      intro e j hj
      have hne : i ≠ j := by
        rintro rfl
        exact hnot hj
      rw [List.getElem?_set_ne hne]
      exact hrecords j (List.mem_cons_of_mem i hj)
    rw [List.foldlM_cons, bind_eq_ok_iff]
    constructor
    · rintro ⟨⟨next, middle⟩, hstep, hrest⟩
      obtain ⟨e, hce, hestart, hcut, hmiddle, hle, rfl⟩ :=
        (validateLocalStep_eq_ok hend hword hfirst).mp hstep
      obtain ⟨f, hf, htiled, hcuts, hstop, hstopLe, hlength, hresult⟩ :=
        (ih horder (hother e) hle).mp hrest
      have hsame : order.filterMap (Function.update f i (some e)) = order.filterMap f := by
        refine List.filterMap_congr fun j hj => ?_
        rw [Function.update_of_ne]
        rintro rfl
        exact hnot hj
      have hall : (i :: order).filterMap (Function.update f i (some e)) =
          e :: order.filterMap f := by
        rw [List.filterMap_cons_some (Function.update_self _ _ _), hsame]
      refine ⟨Function.update f i (some e), fun j hj => ?_, ?_, ?_, ?_, hstopLe, ?_, fun j => ?_⟩
      · rcases List.mem_cons.mp hj with rfl | hmem
        · exact ⟨e, Function.update_self _ _ _, hce⟩
        · rw [Function.update_of_ne]
          · exact hf j hmem
          · rintro rfl
            exact hnot hmem
      · rw [hall]
        exact ⟨hestart, hmiddle ▸ htiled⟩
      · rw [hall, List.flatMap_cons, ← hcut, ← hcuts, cut_append (by omega) (by omega)]
      · rw [hall, List.flatMap_cons, List.length_append]
        omega
      · rw [hlength, List.length_set]
      · rw [hresult j]
        by_cases hji : j = i
        · subst hji
          have hlt : j < records.length := by
            rw [hce, Option.map_some] at hfirst
            exact (List.getElem?_eq_some_iff.mp hfirst).1
          rw [if_neg hnot, if_pos List.mem_cons_self, Function.update_self,
            List.getElem?_set_self hlt, Option.map_some]
        · rw [Function.update_of_ne hji, List.getElem?_set_ne (Ne.symm hji)]
          simp only [List.mem_cons, hji, false_or]
    · rintro ⟨f, hf, htiled, hcut, hstop, hstopLe, hlength, hresult⟩
      obtain ⟨e, hfe, hce⟩ := hf i List.mem_cons_self
      rw [List.filterMap_cons_some hfe] at htiled hcut hstop
      rw [List.flatMap_cons] at hcut
      rw [List.flatMap_cons, List.length_append] at hstop
      obtain ⟨hone, hrest, hmiddle⟩ := cut_eq_append hcut (by omega) (by omega)
      have hlt : i < records.length := by
        rw [hce, Option.map_some] at hfirst
        exact (List.getElem?_eq_some_iff.mp hfirst).1
      refine ⟨(records.set i e.record, start + e.localRecord.length),
        (validateLocalStep_eq_ok hend hword hfirst).mpr
          ⟨e, hce, htiled.1, hone, rfl, by omega, rfl⟩, ?_⟩
      refine (ih horder (hother e) (by omega)).mpr ⟨f, fun j hj => hf j (List.mem_cons_of_mem i hj),
        htiled.2, hrest, by omega, hstopLe, by rw [hlength, List.length_set], fun j => ?_⟩
      rw [hresult j]
      by_cases hji : j = i
      · subst hji
        rw [if_pos List.mem_cons_self, if_neg hnot, hfe, List.getElem?_set_self hlt,
          Option.map_some]
      · rw [List.getElem?_set_ne (Ne.symm hji)]
        simp only [List.mem_cons, hji, false_or]

theorem validateLocalSteps_safe (hend : centralStart ≤ bytes.length)
    (hin : ∀ i ∈ order, i < records.length) :
    Safe (order.foldlM (validateLocalStep bytes centralStart) (records, start)) := by
  induction order generalizing records start with
  | nil => exact safe_pure
  | cons i order ih =>
    rw [List.foldlM_cons]
    refine Safe.bind ((safe_index (hin i List.mem_cons_self)).bind fun record _ =>
      (parseLocalRecord_safe hend).bind fun data _ => safe_pure) fun s hs => ?_
    obtain ⟨record, -, hs⟩ := bind_eq_ok_iff.mp hs
    obtain ⟨data, -, hs⟩ := bind_eq_ok_iff.mp hs
    cases hs
    exact ih fun j hj => by
      rw [List.length_set]
      exact hin j (List.mem_cons_of_mem i hj)

theorem localOrder_perm : (localOrder records).Perm (List.range records.length) :=
  List.mergeSort_perm _ _

theorem localOrder_pairwise : (localOrder records).Pairwise fun i j =>
    (records[i]?.map ZipEntryRecord.localStart).getD 0 ≤
      (records[j]?.map ZipEntryRecord.localStart).getD 0 := by
  refine (List.pairwise_mergeSort (fun i j k hij hjk => ?_) (fun i j => ?_) _).imp
    fun h => of_decide_eq_true h
  · exact decide_eq_true (Nat.le_trans (of_decide_eq_true hij) (of_decide_eq_true hjk))
  · rw [Bool.or_eq_true, decide_eq_true_eq, decide_eq_true_eq]
    exact Nat.le_total _ _

/-- In a tiling each record starts after those before it. -/
theorem Tiled.pairwise {start : Nat} {es : List ZipEntry} (h : Tiled start es) :
    es.Pairwise (fun a b => a.localStart.toNat < b.localStart.toNat) ∧
      ∀ e ∈ es, start ≤ e.localStart.toNat := by
  induction es generalizing start with
  | nil => exact ⟨.nil, nofun⟩
  | cons e es ih =>
    obtain ⟨hpairwise, hafter⟩ := ih h.2
    have hlength := @length_localRecord e
    have hfits : localBytes = 30 := rfl
    have hfirst := h.1
    refine ⟨List.pairwise_cons.mpr ⟨fun other hother => ?_, hpairwise⟩, fun other hother => ?_⟩
    · have := hafter other hother
      omega
    · rcases List.mem_cons.mp hother with rfl | hother
      · omega
      · have := hafter other hother
        omega

theorem filterMap_getElem?_range {α : Type} {xs : List α} :
    (List.range xs.length).filterMap (xs[·]?) = xs := by
  induction xs using List.reverseRecOn with
  | nil => rfl
  | append_singleton xs x ih =>
    have hsame : (List.range xs.length).filterMap ((xs ++ [x])[·]?) =
        (List.range xs.length).filterMap (xs[·]?) := by
      refine List.filterMap_congr fun i hi => ?_
      rw [List.getElem?_append_left (List.mem_range.mp hi)]
    rw [List.length_append, List.length_singleton, List.range_succ, List.filterMap_append, hsame, ih]
    simp

theorem filterMap_localOrder_perm {α : Type} {xs : List α} (hlength : records.length = xs.length) :
    ((localOrder records).filterMap (xs[·]?)).Perm xs := by
  have hfiltered := (@localOrder_perm records).filterMap (xs[·]?)
  rwa [hlength, filterMap_getElem?_range] at hfiltered

/-- A function with a value at each index below a bound is the list of these values. -/
theorem exists_list_of_some {α : Type} {f : Nat → Option α} {n : Nat}
    (h : ∀ i < n, ∃ x, f i = some x) : ∃ xs : List α, xs.length = n ∧ ∀ i < n, xs[i]? = f i := by
  induction n with
  | zero => exact ⟨[], rfl, nofun⟩
  | succ n ih =>
    obtain ⟨xs, hlength, hxs⟩ := ih fun i hi => h i (Nat.lt_succ_of_lt hi)
    obtain ⟨x, hx⟩ := h n (Nat.lt_succ_self n)
    refine ⟨xs ++ [x], by rw [List.length_append, hlength, List.length_singleton], fun i hi => ?_⟩
    by_cases hlt : i < n
    · rw [List.getElem?_append_left (by omega), hxs i hlt]
    · have heq : i = xs.length := by omega
      rw [heq, List.getElem?_concat_length, hlength, hx]

/-- The order of the starts is the only one in which the records tile the bytes. -/
theorem filterMap_localOrder {entries locals : List ZipEntry} (hperm : locals.Perm entries)
    (htiled : Tiled start locals) (hrecords : records = entries.map fun e => e.toCentralEntry.record) :
    (localOrder records).filterMap (entries[·]?) = locals := by
  have hlength : records.length = entries.length := by rw [hrecords, List.length_map]
  have hall := filterMap_localOrder_perm hlength
  have hstarts : ∀ (i : Nat) (e : ZipEntry), entries[i]? = some e →
      (records[i]?.map ZipEntryRecord.localStart).getD 0 = e.localStart.toNat := by
    intro i e he
    rw [hrecords, List.getElem?_map, he]
    rfl
  have hsorted : ((localOrder records).filterMap (entries[·]?)).Pairwise fun a b =>
      a.localStart.toNat ≤ b.localStart.toNat := by
    rw [List.pairwise_filterMap]
    refine localOrder_pairwise.imp fun {i j} hij a ha b hb => ?_
    rw [← hstarts i a ha, ← hstarts j b hb]
    exact hij
  obtain ⟨hpairwise, -⟩ := htiled.pairwise
  have hnodup : (locals.map fun e => e.localStart.toNat).Nodup :=
    List.pairwise_map.mpr (hpairwise.imp Nat.ne_of_lt)
  refine List.Perm.eq_of_pairwise (fun a b ha hb hab hba => ?_) hsorted
    (hpairwise.imp Nat.le_of_lt) (hall.trans hperm.symm)
  have ha : a ∈ locals := hperm.symm.mem_iff.mp (hall.mem_iff.mp ha)
  exact List.inj_on_of_nodup_map hnodup ha hb (Nat.le_antisymm hab hba)

end Order

section Envelope

variable {bytes : Bytes} {zipEnd : ZipEndRecord} {records : List ZipEntryRecord}
  {entries locals : List ZipEntry}

theorem parseEndRecord_eq_ok : parseEndRecord bytes = .ok zipEnd ↔
    ∃ (count : UInt16) (size start : UInt32), endBytes ≤ bytes.length ∧
      cut bytes (bytes.length - endBytes) bytes.length = (endPieces count size start).flatten ∧
      start.toNat + size.toNat = bytes.length - endBytes ∧
      count.toNat ≤ applicationArchiveLimits.maxEntries ∧
      size.toNat ≤ applicationArchiveLimits.maxZipCentralDirectoryBytes ∧
      zipEnd = ⟨count.toNat, start.toNat, bytes.length - endBytes⟩ := by
  have hentries : applicationArchiveLimits.maxEntries = 10000 := rfl
  constructor
  · intro h
    obtain ⟨stop, hstop, h⟩ := bind_eq_ok_iff.mp h
    obtain ⟨hle, rfl⟩ := checkedSub_eq_some.mp (okOr_eq_ok.mp hstop)
    obtain ⟨record, hrecord, h⟩ := bind_eq_ok_iff.mp h
    obtain ⟨-, hrecord⟩ := slice_eq_ok.mp hrecord
    have hlength : record.length = 22 := by
      rw [← hrecord, length_cut (Nat.le_refl _)]
      change _ - (_ - 22) = 22
      change 22 ≤ _ at hle
      omega
    simp (disch := omega) only [leU16_eq, leU32_eq, pure_bind] at h
    obtain ⟨centralEnd, hcentralEnd, h⟩ := bind_eq_ok_iff.mp h
    obtain ⟨hsignature, h⟩ := refuse_bind_eq_ok.mp h
    obtain ⟨hdisk, h⟩ := refuse_bind_eq_ok.mp h
    obtain ⟨hstart, h⟩ := refuse_bind_eq_ok.mp h
    obtain ⟨htotal, h⟩ := refuse_bind_eq_ok.mp h
    obtain ⟨hcount, h⟩ := refuse_bind_eq_ok.mp h
    obtain ⟨hcomment, h⟩ := refuse_bind_eq_ok.mp h
    obtain ⟨hsize, h⟩ := refuse_bind_eq_ok.mp h
    cases h
    simp only [ne_eq, gt_iff_lt, decide_eq_false_iff_not, not_or, not_not, Nat.not_lt]
      at hsignature hdisk hstart htotal hcount hcomment hsize
    obtain ⟨-, hsum⟩ := checkedAdd_eq_some.mp (okOr_eq_ok.mp hcentralEnd)
    rw [hsize.2] at hsum ⊢
    refine ⟨u16At record 8, u32At record 12, u32At record 16, hle, ?_, hsum, hcount.2, hsize.1, rfl⟩
    rw [hrecord]
    exact endRecord_eq hlength hsignature hdisk hstart rfl (UInt16.toNat_inj.mp htotal).symm rfl rfl
      hcomment
  · rintro ⟨count, size, start, hle, hcut, hsum, hcount, hsize, rfl⟩
    obtain ⟨hlength, hsignature, hdisk, hstart, hentriesAt, htotal, hsizeAt, hstartAt, hcomment⟩ :=
      endRecord_read hcut
    have hcountLt := count.toNat_lt
    have hsizeLt := size.toNat_lt
    have hstartLt := start.toNat_lt
    refine bind_eq_ok_iff.mpr ⟨_, okOr_eq_ok.mpr (checkedSub_eq_some.mpr ⟨hle, rfl⟩), ?_⟩
    refine bind_eq_ok_iff.mpr ⟨_, slice_eq_ok.mpr ⟨⟨Nat.sub_le _ _, Nat.le_refl _⟩, rfl⟩, ?_⟩
    simp (disch := omega) only [leU16_eq, leU32_eq, pure_bind]
    rw [hdisk, hstart, hentriesAt, htotal, hsizeAt, hstartAt, hcomment]
    refine bind_eq_ok_iff.mpr ⟨_, okOr_eq_ok.mpr (checkedAdd_eq_some.mpr
      ⟨by change _ < 2 ^ 64; omega, rfl⟩), ?_⟩
    refine refuse_bind_eq_ok.mpr ⟨by simpa using hsignature, refuse_bind_eq_ok.mpr ⟨rfl, ?_⟩⟩
    refine refuse_bind_eq_ok.mpr ⟨rfl, refuse_bind_eq_ok.mpr ⟨by simp, refuse_bind_eq_ok.mpr ⟨?_, ?_⟩⟩⟩
    · rw [decide_eq_false_iff_not]
      omega
    refine refuse_bind_eq_ok.mpr ⟨rfl, refuse_bind_eq_ok.mpr ⟨?_, ?_⟩⟩
    · rw [decide_eq_false_iff_not]
      omega
    · rw [hsum]
      rfl

/-- The bytes of an archive: the local records in the order of their starts, the central records in
the order of the directory, and the end record. -/
structure ZipLayout (bytes : Bytes) (entries locals : List ZipEntry) : Prop where
  perm : locals.Perm entries
  tiled : Tiled 0 locals
  count : entries.length ≤ applicationArchiveLimits.maxEntries
  directory : (entries.flatMap fun e => e.centralRecord).length ≤
    applicationArchiveLimits.maxZipCentralDirectoryBytes
  localsFit : (locals.flatMap ZipEntry.localRecord).length < 2 ^ 32
  bytes_eq : bytes = locals.flatMap ZipEntry.localRecord ++
    (entries.flatMap fun e => e.centralRecord) ++
    (endPieces (UInt16.ofNat entries.length)
      (UInt32.ofNat (entries.flatMap fun e => e.centralRecord).length)
      (UInt32.ofNat (locals.flatMap ZipEntry.localRecord).length)).flatten

theorem readZipEnvelope_layout (h : readZipEnvelope bytes = .ok records) :
    ∃ entries locals : List ZipEntry,
      ZipLayout bytes entries locals ∧ records = entries.map ZipEntry.record := by
  obtain ⟨zipEnd, hzipEnd, h⟩ := bind_eq_ok_iff.mp h
  obtain ⟨count, size, start, hle, hendCut, hsum, hcount, hsize, rfl⟩ := parseEndRecord_eq_ok.mp hzipEnd
  have hsizeLt := size.toNat_lt
  have hstartLt := start.toNat_lt
  have hword : bytes.length - endBytes < wordLimit := by
    change _ < 2 ^ 64
    omega
  obtain ⟨table, htable, h⟩ := bind_eq_ok_iff.mp h
  obtain ⟨ces, hlength, rfl, hcentral⟩ := (parseCentralRecords_eq_ok (by dsimp only; omega) hword
    (by dsimp only; omega)).mp htable
  dsimp only at hlength hcentral
  obtain ⟨⟨result, stop⟩, hfold, h⟩ := bind_eq_ok_iff.mp h
  obtain ⟨hstop, h⟩ := refuse_bind_eq_ok.mp h
  rw [decide_eq_false_iff_not, ne_eq, not_not] at hstop
  cases h
  have hperm := @localOrder_perm (ces.map CentralEntry.record)
  rw [List.length_map] at hperm
  have horder : ∀ i, i ∈ localOrder (ces.map CentralEntry.record) ↔ i < ces.length := fun i =>
    hperm.mem_iff.trans List.mem_range
  dsimp only at hstop hfold
  obtain ⟨f, hf, htiled, hcut, hstopEq, -, hresultLength, hresult⟩ :=
    (@validateLocalSteps_eq_ok bytes start.toNat 0 stop ces _ records _ (by omega) (by omega)
      (hperm.nodup_iff.mpr List.nodup_range) (fun i _ => List.getElem?_map) (Nat.zero_le _)).mp hfold
  rw [List.length_map] at hresultLength
  obtain ⟨entries, hentriesLength, hentries⟩ := exists_list_of_some fun i (hi : i < ces.length) =>
    (hf i ((horder i).mpr hi)).imp fun _ he => he.1
  have hlocals : (localOrder (ces.map CentralEntry.record)).filterMap f =
      (localOrder (ces.map CentralEntry.record)).filterMap (entries[·]?) :=
    List.filterMap_congr fun i hi => (hentries i ((horder i).mp hi)).symm
  have hcentrals : entries.map ZipEntry.toCentralEntry = ces := by
    refine List.ext_getElem? fun i => ?_
    rw [List.getElem?_map]
    by_cases hi : i < ces.length
    · obtain ⟨e, he, hce⟩ := hf i ((horder i).mpr hi)
      rw [hentries i hi, he, hce, Option.map_some]
    · rw [List.getElem?_eq_none (by omega), List.getElem?_eq_none (by omega), Option.map_none]
  have hrecords : records = entries.map ZipEntry.record := by
    refine List.ext_getElem? fun i => ?_
    rw [hresult i]
    by_cases hi : i < ces.length
    · rw [if_pos ((horder i).mpr hi), List.getElem?_map, hentries i hi]
    · rw [if_neg fun hin => hi ((horder i).mp hin), List.getElem?_map, List.getElem?_map,
        List.getElem?_eq_none (by omega), List.getElem?_eq_none (by omega), Option.map_none,
        Option.map_none]
  rw [hlocals] at htiled hcut hstopEq
  have hdirectory : ces.flatMap CentralEntry.centralRecord =
      entries.flatMap fun e => e.centralRecord := by
    rw [← hcentrals, List.flatMap_map]
  rw [hdirectory] at hcentral
  have hcentralLength := congrArg List.length hcentral
  rw [length_cut (by omega)] at hcentralLength
  refine ⟨entries, _, ⟨filterMap_localOrder_perm (by rw [List.length_map, hentriesLength]), htiled,
    by omega, by omega, by omega, ?_⟩, hrecords⟩
  rw [hstop] at hcut
  have hcountEq : UInt16.ofNat entries.length = count := by
    rw [hentriesLength, hlength, UInt16.ofNat_toNat]
  have hsizeEq : UInt32.ofNat (entries.flatMap fun e => e.centralRecord).length = size := by
    have heq : (entries.flatMap fun e => e.centralRecord).length = size.toNat := by omega
    rw [heq, UInt32.ofNat_toNat]
  rw [hcountEq, hsizeEq, ← hcut, ← hcentral, length_cut (by omega), Nat.sub_zero,
    UInt32.ofNat_toNat, ← hendCut, cut_append (by omega) (by omega), cut_append (by omega) (by omega),
    cut_zero_length]

theorem layout_readZipEnvelope (h : ZipLayout bytes entries locals) :
    readZipEnvelope bytes = .ok (entries.map ZipEntry.record) := by
  obtain ⟨hperm, htiled, hcount, hdirectory, hlocals, hbytes⟩ := h
  have hcountLimit : applicationArchiveLimits.maxEntries = 10000 := rfl
  have hdirectoryLimit : applicationArchiveLimits.maxZipCentralDirectoryBytes = 16777216 := rfl
  obtain ⟨size, hsize⟩ : ∃ size, size = (entries.flatMap fun e => e.centralRecord).length := ⟨_, rfl⟩
  obtain ⟨start, hstart⟩ : ∃ start, start = (locals.flatMap ZipEntry.localRecord).length := ⟨_, rfl⟩
  rw [← hsize, ← hstart] at hbytes
  rw [← hsize] at hdirectory
  rw [← hstart] at hlocals
  have hcountNat : (UInt16.ofNat entries.length).toNat = entries.length := by
    rw [UInt16.toNat_ofNat', Nat.mod_eq_of_lt (by omega)]
  have hsizeNat : (UInt32.ofNat size).toNat = size := by
    rw [UInt32.toNat_ofNat', Nat.mod_eq_of_lt (by omega)]
  have hstartNat : (UInt32.ofNat start).toNat = start := by
    rw [UInt32.toNat_ofNat', Nat.mod_eq_of_lt (by omega)]
  have hlength : bytes.length = start + size + endBytes := by
    rw [hbytes, List.length_append, List.length_append, length_endPieces, ← hsize, ← hstart]
  have hwhole := (@cut_zero_length UInt8 bytes).trans hbytes
  obtain ⟨hhead, hend, -⟩ := cut_eq_append hwhole (by omega) (Nat.le_refl _)
  obtain ⟨hlocalsCut, hcentralCut, -⟩ := cut_eq_append hhead (by omega) (by
    rw [List.length_append]
    omega)
  rw [List.length_append, ← hstart, ← hsize, Nat.zero_add] at hend hcentralCut
  rw [← hstart, Nat.zero_add] at hlocalsCut
  rw [Nat.zero_add] at hcentralCut
  have hstop : bytes.length - endBytes = start + size := by omega
  have hfirst : parseEndRecord bytes = .ok ⟨entries.length, start, start + size⟩ := by
    refine parseEndRecord_eq_ok.mpr ⟨UInt16.ofNat entries.length, UInt32.ofNat size,
      UInt32.ofNat start, by omega, ?_, ?_, ?_, ?_, ?_⟩
    · rw [hstop, hend]
    · rw [hsizeNat, hstartNat, hstop]
    · rwa [hcountNat]
    · rwa [hsizeNat]
    · rw [hcountNat, hstartNat, hstop]
  have hword : start + size < wordLimit := by
    change _ < 2 ^ 64
    omega
  have hdirectoryEq : (entries.map ZipEntry.toCentralEntry).flatMap CentralEntry.centralRecord =
      entries.flatMap fun e => e.centralRecord := List.flatMap_map _ _ _
  have htable : parseCentralRecords bytes ⟨entries.length, start, start + size⟩ =
      .ok ((entries.map ZipEntry.toCentralEntry).map CentralEntry.record) :=
    (parseCentralRecords_eq_ok (by dsimp only; omega) hword (Nat.le_add_right _ _)).mpr
      ⟨_, List.length_map _, rfl, hcentralCut.trans hdirectoryEq.symm⟩
  refine bind_eq_ok_iff.mpr ⟨_, hfirst, bind_eq_ok_iff.mpr ⟨_, htable, ?_⟩⟩
  obtain ⟨records, hrecords⟩ : ∃ records, records =
    (entries.map ZipEntry.toCentralEntry).map CentralEntry.record := ⟨_, rfl⟩
  have hrecordsLength : records.length = entries.length := by
    rw [hrecords, List.length_map, List.length_map]
  rw [← hrecords]
  have horder := @localOrder_perm records
  rw [hrecordsLength] at horder
  have hmem : ∀ i, i ∈ localOrder records ↔ i < entries.length := fun i =>
    horder.mem_iff.trans List.mem_range
  have hfiltered : (localOrder records).filterMap (entries[·]?) = locals :=
    filterMap_localOrder hperm htiled (by rw [hrecords, List.map_map]; rfl)
  have hfold : (localOrder records).foldlM (validateLocalStep bytes start) (records, 0) =
      .ok (entries.map ZipEntry.record, start) := by
    refine (@validateLocalSteps_eq_ok bytes start 0 start (entries.map ZipEntry.toCentralEntry) records
      _ _ (by omega) (by omega) (horder.nodup_iff.mpr List.nodup_range)
      (fun i _ => by rw [hrecords, List.getElem?_map]) (Nat.zero_le _)).mpr
        ⟨(entries[·]?), fun i hi => ?_, ?_, ?_, ?_, Nat.le_refl _, ?_, fun i => ?_⟩
    · have he := List.getElem?_eq_getElem ((hmem i).mp hi)
      exact ⟨_, he, by rw [List.getElem?_map, he, Option.map_some]⟩
    · rwa [hfiltered]
    · rw [hfiltered, hlocalsCut]
    · rw [hfiltered, ← hstart, Nat.zero_add]
    · rw [hrecordsLength, List.length_map]
    · by_cases hi : i < entries.length
      · rw [if_pos ((hmem i).mpr hi), List.getElem?_map]
      · rw [if_neg fun hin => hi ((hmem i).mp hin), List.getElem?_map,
          List.getElem?_eq_none (by omega), List.getElem?_eq_none (by omega), Option.map_none]
  exact bind_eq_ok_iff.mpr ⟨_, hfold, refuse_bind_eq_ok.mpr ⟨by simp, rfl⟩⟩

theorem readZipEnvelope_safe : Safe (readZipEnvelope bytes) := by
  have hend : Safe (parseEndRecord bytes) := by
    refine safe_okOr.bind fun stop hstop => ?_
    obtain ⟨hle, rfl⟩ := checkedSub_eq_some.mp (okOr_eq_ok.mp hstop)
    refine (safe_slice (Nat.sub_le _ _) (Nat.le_refl _)).bind fun record hrecord => ?_
    obtain ⟨-, hrecord⟩ := slice_eq_ok.mp hrecord
    have hlength : record.length = 22 := by
      rw [← hrecord, length_cut (Nat.le_refl _)]
      change _ - (_ - 22) = 22
      change 22 ≤ _ at hle
      omega
    simp (disch := omega) only [leU16_eq, leU32_eq, pure_bind]
    refine safe_okOr.bind fun _ _ => safe_refuse.bind fun _ _ => safe_refuse.bind fun _ _ => ?_
    refine safe_refuse.bind fun _ _ => safe_refuse.bind fun _ _ => safe_refuse.bind fun _ _ => ?_
    exact safe_refuse.bind fun _ _ => safe_refuse.bind fun _ _ => safe_pure
  refine hend.bind fun zipEnd hzipEnd => ?_
  obtain ⟨count, size, start, hle, -, hsum, -, -, rfl⟩ := parseEndRecord_eq_ok.mp hzipEnd
  have hcentral : bytes.length - endBytes ≤ bytes.length := Nat.sub_le _ _
  refine Safe.bind ((parseCentralLoop_safe hcentral).bind fun _ _ => safe_refuse.bind fun _ _ =>
    safe_pure) fun records _ => ?_
  refine Safe.bind (validateLocalSteps_safe (by dsimp only; omega) fun i hi => ?_) fun _ _ =>
    safe_refuse.bind fun _ _ => safe_pure
  exact List.mem_range.mp (localOrder_perm.mem_iff.mp hi)

/-- A ZIP is accepted exactly when it is laid out so, and then it has one reading; no step of the
reader runs out of range or wraps. -/
theorem zip_one_reading (bytes : Bytes) :
    (∀ records, readZipEnvelope bytes = .ok records ↔ ∃ entries locals : List ZipEntry,
      ZipLayout bytes entries locals ∧ records = entries.map ZipEntry.record) ∧
    (∀ entries locals entries' locals', ZipLayout bytes entries locals →
      ZipLayout bytes entries' locals' → entries.map ZipEntry.record = entries'.map ZipEntry.record) ∧
    ∀ fault, readZipEnvelope bytes = .error fault → ∃ e, fault = .refused e := by
  refine ⟨fun records => ⟨readZipEnvelope_layout, ?_⟩, fun entries locals entries' locals' h h' => ?_,
    readZipEnvelope_safe⟩
  · rintro ⟨entries, locals, h, rfl⟩
    exact layout_readZipEnvelope h
  · have hboth := (layout_readZipEnvelope h).symm.trans (layout_readZipEnvelope h')
    exact Except.ok.inj hboth

/-- A stored file of two bytes. -/
def storedEntry : ZipEntry where
  name := ascii "a"
  flags := 0
  compression := 0
  crc32 := 0
  compressedSize := 2
  expandedSize := 2
  localStart := 0
  madeBy := 0x0314
  centralVersion := 20
  centralTime := 0
  internal := 0
  external := 0x81A40000
  mode := some 0o100644
  flagsKnown := by decide
  compressionKnown := by decide
  stored := fun _ => rfl
  nameFits := by decide
  compressedFits := by decide
  expandedFits := by decide
  startFits := by decide
  modeKnown := by rfl
  localVersion := 20
  localTime := 0
  data := ascii "hi"
  dataLength := by rfl

def storedZip : Bytes :=
  storedEntry.localRecord ++ storedEntry.centralRecord ++ (endPieces 1 47 33).flatten

theorem zip_one_reading_sample : readZipEnvelope storedZip = .ok [storedEntry.record] := by
  obtain ⟨hread, -, -⟩ := zip_one_reading storedZip
  refine (hread _).mpr ⟨[storedEntry], [storedEntry], ⟨.refl _, ⟨rfl, trivial⟩, by decide,
    by decide +kernel, by decide +kernel, by decide +kernel⟩, rfl⟩

end Envelope

end Kitrove
