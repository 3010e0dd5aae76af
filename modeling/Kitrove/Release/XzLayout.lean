import Kitrove.Release.XzBlocks

/-! What the preflight of an XZ envelope walks over: block headers, blocks, and their index. -/

namespace Kitrove

open Slices Except

section Header

variable {header : Bytes} {position fieldsEnd stop n value : Nat}

theorem parseXzHeaderVli_eq_ok (h : parseXzHeaderVli header position fieldsEnd = .ok (value, stop)) :
    value < 2 ^ 63 ∧ position ≤ stop ∧ stop ≤ fieldsEnd ∧ fieldsEnd ≤ header.length ∧
      cut header position stop = vliBytes value := by
  obtain ⟨remaining, hremaining, h⟩ := bind_eq_ok_iff.mp h
  obtain ⟨⟨hle, hin⟩, rfl⟩ := get_eq_some.mp (okOr_eq_ok.mp hremaining)
  obtain ⟨⟨v, consumed⟩, hvli, h⟩ := bind_eq_ok_iff.mp h
  obtain ⟨next, hnext, h⟩ := bind_eq_ok_iff.mp h
  cases h
  obtain ⟨hadd, hend⟩ := filter_le_eq_some.mp (okOr_eq_ok.mp hnext)
  obtain ⟨-, rfl⟩ := checkedAdd_eq_some.mp hadd
  obtain ⟨hvalue, rest, hcut, rfl⟩ := parseXzVli_eq_ok.mp hvli
  obtain ⟨hread, -, -⟩ := cut_eq_append hcut hle hin
  exact ⟨hvalue, by omega, hend, hin, hread⟩

theorem parseXzHeaderVli_safe : Safe (parseXzHeaderVli header position fieldsEnd) :=
  safe_okOr.bind fun _ _ => parseXzVli_safe.bind fun _ _ => safe_okOr.bind fun _ _ => safe_pure

/-- The sizes that the flags announce stand one after the other. -/
theorem foldlM_skipPresent_eq_ok {present : List Bool}
    (hposition : position ≤ fieldsEnd)
    (h : present.foldlM (skipPresent header fieldsEnd) position = .ok stop) :
    position ≤ stop ∧ stop ≤ fieldsEnd ∧ ∃ sizes : List Nat, (∀ size ∈ sizes, size < 2 ^ 63) ∧
      sizes.length = (present.filter id).length ∧
      cut header position stop = sizes.flatMap vliBytes := by
  induction present generalizing position with
  | nil =>
    cases h
    exact ⟨Nat.le_refl _, hposition, [], nofun, rfl, cut_self⟩
  | cons p present ih =>
    rw [List.foldlM_cons] at h
    obtain ⟨next, hnext, hlater⟩ := bind_eq_ok_iff.mp h
    cases p with
    | false =>
      cases hnext
      exact ih hposition hlater
    | true =>
      obtain ⟨⟨size, next'⟩, hvli, hnext⟩ := bind_eq_ok_iff.mp hnext
      cases hnext
      obtain ⟨hsize, hle, hend, -, hcut⟩ := parseXzHeaderVli_eq_ok hvli
      obtain ⟨hstop, hstopEnd, sizes, hsizes, hlength, hrest⟩ := ih hend hlater
      refine ⟨by omega, hstopEnd, size :: sizes, ?_, ?_, ?_⟩
      · intro other hother
        rcases List.mem_cons.mp hother with rfl | hother
        · exact hsize
        · exact hsizes other hother
      · rw [List.filter_cons_of_pos rfl, List.length_cons, List.length_cons, hlength]
      · rw [List.flatMap_cons, ← hcut, ← hrest, cut_append (by omega) (by omega)]

theorem foldlM_skipPresent_safe {present : List Bool} :
    Safe (present.foldlM (skipPresent header fieldsEnd) position) := by
  induction present generalizing position with
  | nil => exact safe_pure
  | cons p present ih =>
    rw [List.foldlM_cons]
    refine Safe.bind ?_ fun _ _ => ih
    exact Safe.ite (fun _ => parseXzHeaderVli_safe.bind fun _ _ => safe_pure) fun _ => safe_pure

/-- One filter, and LZMA2 when no other one is behind it. -/
theorem parseXzFilters_succ {later : Nat}
    (h : parseXzFilters header fieldsEnd (later + 1) position = .ok stop) :
    ∃ (filter : XzFilter) (next : Nat), position ≤ next ∧ next ≤ fieldsEnd ∧
      cut header position next = filter.bytes ∧
      (later = 0 → requireLzma2 filter.id filter.properties = .ok ()) ∧
      parseXzFilters header fieldsEnd later next = .ok stop := by
  obtain ⟨⟨filterId, idEnd⟩, hid, h⟩ := bind_eq_ok_iff.mp h
  obtain ⟨⟨propertiesSize, sizeEnd⟩, hsize, h⟩ := bind_eq_ok_iff.mp h
  obtain ⟨propertiesEnd, hend, h⟩ := bind_eq_ok_iff.mp h
  obtain ⟨properties, hproperties, h⟩ := bind_eq_ok_iff.mp h
  obtain ⟨hadd, hle⟩ := filter_le_eq_some.mp (okOr_eq_ok.mp hend)
  obtain ⟨-, rfl⟩ := checkedAdd_eq_some.mp hadd
  obtain ⟨hidFits, hidLe, -, -, hidCut⟩ := parseXzHeaderVli_eq_ok hid
  obtain ⟨hsizeFits, hsizeLe, -, hin, hsizeCut⟩ := parseXzHeaderVli_eq_ok hsize
  obtain ⟨-, rfl⟩ := get_eq_some.mp (okOr_eq_ok.mp hproperties)
  have hlength : (cut header sizeEnd (sizeEnd + propertiesSize)).length = propertiesSize := by
    rw [length_cut (by omega), Nat.add_sub_cancel_left]
  refine ⟨⟨filterId, cut header sizeEnd (sizeEnd + propertiesSize), hidFits, by rwa [hlength]⟩,
    sizeEnd + propertiesSize, by omega, hle, ?_, ?_, ?_⟩
  · rw [XzFilter.bytes]
    dsimp only
    rw [hlength, ← hidCut, ← hsizeCut, cut_append hidLe hsizeLe, cut_append (by omega) (by omega)]
  · rintro rfl
    rw [if_pos rfl] at h
    obtain ⟨⟨⟩, hlzma2, -⟩ := bind_eq_ok_iff.mp h
    exact hlzma2
  · cases later with
    | zero =>
      rw [if_pos rfl] at h
      obtain ⟨⟨⟩, -, h⟩ := bind_eq_ok_iff.mp h
      exact h
    | succ later =>
      rw [if_neg (Nat.succ_ne_zero later)] at h
      exact h

theorem requireLzma2_eq_ok {properties : Bytes} (h : requireLzma2 n properties = .ok ()) :
    n = 0x21 ∧ ∃ property, properties = [property] ∧
      ∃ size ≤ applicationArchiveLimits.maxXzDictionaryBytes,
        lzma2DictionarySize property = .ok size := by
  obtain ⟨hshape, h⟩ := refuse_bind_eq_ok.mp h
  rw [decide_eq_false_iff_not, not_or, ne_eq, not_not, ne_eq, not_not] at hshape
  obtain ⟨hid, hlength⟩ := hshape
  obtain ⟨property, rfl⟩ := List.length_eq_one_iff.mp hlength
  obtain ⟨property', hproperty, h⟩ := bind_eq_ok_iff.mp h
  have hsame : property = property' := Option.some.inj (index_eq_ok.mp hproperty)
  subst hsame
  obtain ⟨dictionary, hdictionary, h⟩ := bind_eq_ok_iff.mp h
  have hfits := of_decide_eq_false (refuse_eq_ok.mp h)
  exact ⟨hid, property, rfl, dictionary, Nat.not_lt.mp hfits, hdictionary⟩

/-- The last filter of the header is LZMA2. -/
theorem parseXzFilters_eq_ok (h : parseXzFilters header fieldsEnd (n + 1) position = .ok stop) :
    position ≤ stop ∧ stop ≤ fieldsEnd ∧ ∃ (filters : List XzFilter) (dictionary : UInt8),
      filters.length = n ∧
      (∃ size ≤ applicationArchiveLimits.maxXzDictionaryBytes,
        lzma2DictionarySize dictionary = .ok size) ∧
      cut header position stop =
        filters.flatMap XzFilter.bytes ++ (lzma2Filter dictionary).bytes := by
  induction n generalizing position with
  | zero =>
    obtain ⟨filter, next, hle, hend, hcut, hlast, h⟩ := parseXzFilters_succ h
    cases h
    obtain ⟨hid, property, hproperties, hdictionary⟩ := requireLzma2_eq_ok (hlast rfl)
    refine ⟨hle, hend, [], property, rfl, hdictionary, ?_⟩
    rw [hcut, XzFilter.bytes, hid, hproperties]
    rfl
  | succ n ih =>
    obtain ⟨filter, next, hle, hend, hcut, -, h⟩ := parseXzFilters_succ h
    obtain ⟨hstop, hstopEnd, filters, dictionary, hlength, hdictionary, hrest⟩ := ih h
    refine ⟨by omega, hstopEnd, filter :: filters, dictionary, ?_, hdictionary, ?_⟩
    · rw [List.length_cons, hlength]
    · rw [List.flatMap_cons, List.append_assoc, ← hcut, ← hrest, cut_append hle hstop]

theorem parseXzFilters_safe : Safe (parseXzFilters header fieldsEnd n position) := by
  induction n generalizing position with
  | zero => exact safe_pure
  | succ later ih =>
    refine parseXzHeaderVli_safe.bind fun id _ => parseXzHeaderVli_safe.bind fun size _ => ?_
    refine safe_okOr.bind fun propertiesEnd _ => safe_okOr.bind fun properties _ => ?_
    refine Safe.ite (fun _ => Safe.bind ?_ fun _ _ => ih) fun _ => ih
    refine safe_refuse.bind fun _ hshape => ?_
    have hshape := of_decide_eq_false (refuse_eq_ok.mp hshape)
    rw [not_or, ne_eq, not_not, ne_eq, not_not] at hshape
    refine (safe_index (by omega)).bind fun property _ => Safe.bind ?_ fun _ _ => safe_refuse
    exact safe_refuse.bind fun _ _ => safe_pure

end Header

/-- What the index says about a block. -/
def XzBlock.record (block : XzBlock) : Bytes :=
  vliBytes block.unpaddedSize ++ vliBytes block.uncompressedSize

section Block

variable {bytes : Bytes} {blockStart unpaddedSize : Nat}

/-- A string of zeros. -/
theorem eq_replicate_of_any {padding : Bytes} (h : padding.any (fun byte => byte ≠ 0) = false) :
    padding = List.replicate padding.length 0 := by
  refine List.eq_replicate_iff.mpr ⟨rfl, fun b hb => ?_⟩
  have hb := List.any_eq_false.mp h b hb
  rwa [decide_eq_true_eq, ne_eq, not_not] at hb

/-- The header of a block, the chunks behind it, and where they end. -/
theorem validateXzBlockHeader_eq_ok (h : validateXzBlockHeader bytes blockStart unpaddedSize = .ok ())
    (hend : blockStart + unpaddedSize ≤ bytes.length) :
    ∃ (header : XzBlockHeader) (chunks : List Lzma2Chunk),
      header.bytes.length = (header.encodedSize.toNat + 1) * 4 ∧
      header.bytes.length + (lzma2Stream chunks).length + 8 = unpaddedSize ∧
      cut bytes blockStart (blockStart + header.bytes.length + (lzma2Stream chunks).length) =
        header.bytes ++ lzma2Stream chunks := by
  obtain ⟨encodedSize, hencoded, h⟩ := bind_eq_ok_iff.mp h
  obtain ⟨-, h⟩ := refuse_bind_eq_ok.mp h
  obtain ⟨headerSize, hsize, h⟩ := bind_eq_ok_iff.mp h
  obtain ⟨fieldsEnd, hfieldsEnd, h⟩ := bind_eq_ok_iff.mp h
  obtain ⟨headerEnd, hheaderEnd, h⟩ := bind_eq_ok_iff.mp h
  obtain ⟨header, hheader, h⟩ := bind_eq_ok_iff.mp h
  obtain ⟨flags, hflags, h⟩ := bind_eq_ok_iff.mp h
  obtain ⟨hreserved, h⟩ := refuse_bind_eq_ok.mp h
  obtain ⟨sizesEnd, hsizes, h⟩ := bind_eq_ok_iff.mp h
  obtain ⟨filtersEnd, hfilters, h⟩ := bind_eq_ok_iff.mp h
  obtain ⟨padding, hpadding, h⟩ := bind_eq_ok_iff.mp h
  obtain ⟨hzeros, h⟩ := refuse_bind_eq_ok.mp h
  obtain ⟨blockEnd, hblockEnd, h⟩ := bind_eq_ok_iff.mp h
  obtain ⟨payloadEnd, hpayloadEnd, h⟩ := bind_eq_ok_iff.mp h
  obtain ⟨stop, hstop, h⟩ := bind_eq_ok_iff.mp h
  have hmeet := of_decide_eq_false (refuse_eq_ok.mp h)
  rw [ne_eq, not_not] at hmeet
  subst hmeet
  -- the numbers
  have hencoded := okOr_eq_ok.mp hencoded
  obtain ⟨hmul, hsizeLe⟩ := filter_le_eq_some.mp (okOr_eq_ok.mp hsize)
  obtain ⟨-, rfl⟩ := checkedMul_eq_some.mp hmul
  obtain ⟨hsub, hfour⟩ := Option.filter_eq_some_iff.mp (okOr_eq_ok.mp hfieldsEnd)
  have hfour := of_decide_eq_true hfour
  obtain ⟨hfourLe, rfl⟩ := checkedSub_eq_some.mp hsub
  obtain ⟨-, rfl⟩ := checkedAdd_eq_some.mp (okOr_eq_ok.mp hheaderEnd)
  obtain ⟨⟨-, hheaderIn⟩, hcut⟩ := get_eq_some.mp (okOr_eq_ok.mp hheader)
  obtain ⟨-, rfl⟩ := checkedAdd_eq_some.mp (okOr_eq_ok.mp hblockEnd)
  obtain ⟨height, rfl⟩ := checkedSub_eq_some.mp (okOr_eq_ok.mp hpayloadEnd)
  have hlength : header.length = (encodedSize.toNat + 1) * 4 := by
    rw [← hcut, length_cut hheaderIn, Nat.add_sub_cancel_left]
  -- the fields of the header
  have hreserved := of_decide_eq_false hreserved
  rw [ne_eq, not_not] at hreserved
  obtain ⟨htwo, hsizesEnd, sizes, hsizesFit, hannounced, hsizesCut⟩ :=
    foldlM_skipPresent_eq_ok (by omega) hsizes
  obtain ⟨hsizesLe, hfiltersEnd, filters, dictionary, hfiltersLength, hdictionary, hfiltersCut⟩ :=
    parseXzFilters_eq_ok hfilters
  obtain ⟨-, rfl⟩ := slice_eq_ok.mp hpadding
  have hzeros := eq_replicate_of_any hzeros
  have hfirst : header[0]? = some encodedSize := by
    rw [← hcut, cut, List.getElem?_take_of_lt (by omega), List.getElem?_drop, Nat.add_zero, hencoded]
  have hsecond := index_eq_ok.mp hflags
  have hcrc : (cut header ((encodedSize.toNat + 1) * 4 - 4) header.length).length = 4 := by
    rw [length_cut (Nat.le_refl _), hlength]
    omega
  let parsed : XzBlockHeader := ⟨encodedSize, flags, sizes, filters, dictionary,
    (cut header filtersEnd ((encodedSize.toNat + 1) * 4 - 4)).length,
    cut header ((encodedSize.toNat + 1) * 4 - 4) header.length, hsizesFit, hannounced, hreserved,
    hfiltersLength, hdictionary, hcrc⟩
  have hparsed : parsed.bytes = header := by
    have hstart : [encodedSize, flags] = cut header 0 2 := by
      rw [← @cut_append _ header 0 1 2 (by omega) (by omega), cut_succ hfirst, cut_succ hsecond]
      rfl
    rw [XzBlockHeader.bytes, XzBlockHeader.fields]
    dsimp only [parsed]
    rw [← hzeros, List.append_assoc (sizes.flatMap vliBytes), ← hfiltersCut, ← hsizesCut, hstart,
      cut_append htwo hsizesLe, cut_append (by omega) (by omega), cut_append (by omega) hfiltersEnd,
      cut_append (by omega) (by omega), cut_zero_length]
  -- the chunks
  obtain ⟨⟨hlt, -⟩, hchunks⟩ := scanLzma2Loop_eq_ok hstop
  obtain ⟨chunks, hstream⟩ := hchunks (by omega)
  have hstreamLength := congrArg List.length hstream
  rw [length_cut (by omega)] at hstreamLength
  refine ⟨parsed, chunks, by rw [hparsed, hlength], by rw [hparsed]; omega, ?_⟩
  have hstopEq : blockStart + header.length + (lzma2Stream chunks).length =
      blockStart + unpaddedSize - 8 := by omega
  rw [hparsed, hstopEq, ← hstream, ← hcut, cut_append (by omega) (by omega)]

theorem validateXzBlockHeader_safe (hslice : bytes.length < 2 ^ 63) :
    Safe (validateXzBlockHeader bytes blockStart unpaddedSize) := by
  refine safe_okOr.bind fun encodedSize _ => safe_refuse.bind fun _ _ => ?_
  refine safe_okOr.bind fun headerSize hsize => safe_okOr.bind fun fieldsEnd hfieldsEnd => ?_
  refine safe_okOr.bind fun headerEnd hheaderEnd => safe_okOr.bind fun header hheader => ?_
  obtain ⟨hsub, hfour⟩ := Option.filter_eq_some_iff.mp (okOr_eq_ok.mp hfieldsEnd)
  have hfour := of_decide_eq_true hfour
  obtain ⟨hfourLe, rfl⟩ := checkedSub_eq_some.mp hsub
  obtain ⟨-, rfl⟩ := checkedAdd_eq_some.mp (okOr_eq_ok.mp hheaderEnd)
  obtain ⟨⟨-, hin⟩, rfl⟩ := get_eq_some.mp (okOr_eq_ok.mp hheader)
  have hlength := @length_cut _ bytes blockStart _ hin
  refine (safe_index (by omega)).bind fun flags _ => safe_refuse.bind fun _ _ => ?_
  refine foldlM_skipPresent_safe.bind fun sizesEnd _ => parseXzFilters_safe.bind fun _ hfilters => ?_
  obtain ⟨-, hfiltersEnd, -⟩ := parseXzFilters_eq_ok hfilters
  refine (safe_slice hfiltersEnd (by omega)).bind fun _ _ => safe_refuse.bind fun _ _ => ?_
  refine safe_okOr.bind fun _ _ => safe_okOr.bind fun _ _ => Safe.bind ?_ fun _ _ => safe_refuse
  exact scanLzma2Loop_safe hslice (Nat.lt_succ_self _)

end Block

end Kitrove
