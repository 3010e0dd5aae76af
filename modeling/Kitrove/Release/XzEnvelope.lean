import Kitrove.Release.XzLayout

/-! An XZ envelope that the preflight accepts is nothing but the blocks that its index names. -/

namespace Kitrove

open Slices Except

section Blocks

variable {bytes indexRecords : Bytes} {s t : Nat × Nat} {count : Nat}

/-- One round of the loop: a record of the index, and the block that it names. -/
theorem preflightXzBlock_le (h : preflightXzBlock bytes indexRecords s = .ok t) :
    s.1 ≤ t.1 ∧ t.1 ≤ indexRecords.length ∧ s.2 ≤ t.2 := by
  obtain ⟨recordPosition, blockPosition⟩ := s
  obtain ⟨rest, hrest, h⟩ := bind_eq_ok_iff.mp h
  obtain ⟨⟨unpaddedSize, consumed⟩, hunpadded, h⟩ := bind_eq_ok_iff.mp h
  obtain ⟨next, hnext, h⟩ := bind_eq_ok_iff.mp h
  obtain ⟨rest', hrest', h⟩ := bind_eq_ok_iff.mp h
  obtain ⟨⟨uncompressedSize, consumed'⟩, huncompressed, h⟩ := bind_eq_ok_iff.mp h
  obtain ⟨last, hlast, h⟩ := bind_eq_ok_iff.mp h
  obtain ⟨⟨⟩, -, h⟩ := bind_eq_ok_iff.mp h
  obtain ⟨paddedSize, -, h⟩ := bind_eq_ok_iff.mp h
  obtain ⟨blockEnd, hblockEnd, h⟩ := bind_eq_ok_iff.mp h
  cases h
  obtain ⟨-, rfl⟩ := checkedAdd_eq_some.mp (okOr_eq_ok.mp hnext)
  obtain ⟨-, rfl⟩ := checkedAdd_eq_some.mp (okOr_eq_ok.mp hlast)
  obtain ⟨-, rfl⟩ := checkedAdd_eq_some.mp (okOr_eq_ok.mp hblockEnd)
  obtain ⟨⟨hle', -⟩, rfl⟩ := slice_eq_ok.mp hrest'
  obtain ⟨-, rest'', hcut, rfl⟩ := parseXzVli_eq_ok.mp huncompressed
  obtain ⟨-, -, hin⟩ := cut_eq_append hcut hle' (Nat.le_refl _)
  dsimp only
  omega

theorem preflightXzBlock_eq_ok (h : preflightXzBlock bytes indexRecords s = .ok t)
    (hend : t.2 ≤ bytes.length) : ∃ block : XzBlock,
      cut indexRecords s.1 t.1 = block.record ∧ cut bytes s.2 t.2 = block.bytes := by
  obtain ⟨recordPosition, blockPosition⟩ := s
  obtain ⟨rest, hrest, h⟩ := bind_eq_ok_iff.mp h
  obtain ⟨⟨unpaddedSize, consumed⟩, hunpadded, h⟩ := bind_eq_ok_iff.mp h
  obtain ⟨next, hnext, h⟩ := bind_eq_ok_iff.mp h
  obtain ⟨rest', hrest', h⟩ := bind_eq_ok_iff.mp h
  obtain ⟨⟨uncompressedSize, consumed'⟩, huncompressed, h⟩ := bind_eq_ok_iff.mp h
  obtain ⟨last, hlast, h⟩ := bind_eq_ok_iff.mp h
  obtain ⟨⟨⟩, hblock, h⟩ := bind_eq_ok_iff.mp h
  obtain ⟨paddedSize, hpadded, h⟩ := bind_eq_ok_iff.mp h
  obtain ⟨blockEnd, hblockEnd, h⟩ := bind_eq_ok_iff.mp h
  cases h
  obtain ⟨-, rfl⟩ := checkedAdd_eq_some.mp (okOr_eq_ok.mp hnext)
  obtain ⟨-, rfl⟩ := checkedAdd_eq_some.mp (okOr_eq_ok.mp hlast)
  obtain ⟨-, rfl⟩ := checkedAdd_eq_some.mp (okOr_eq_ok.mp hblockEnd)
  obtain ⟨size, hsize, rfl⟩ := Option.map_eq_some_iff.mp (okOr_eq_ok.mp hpadded)
  obtain ⟨-, rfl⟩ := checkedAdd_eq_some.mp hsize
  -- the record
  obtain ⟨⟨hle, -⟩, rfl⟩ := slice_eq_ok.mp hrest
  obtain ⟨hunpaddedFits, after, hcut, rfl⟩ := parseXzVli_eq_ok.mp hunpadded
  obtain ⟨hfirst, -, -⟩ := cut_eq_append hcut hle (Nat.le_refl _)
  obtain ⟨⟨hle', -⟩, rfl⟩ := slice_eq_ok.mp hrest'
  obtain ⟨huncompressedFits, after', hcut', rfl⟩ := parseXzVli_eq_ok.mp huncompressed
  obtain ⟨hsecond, -, -⟩ := cut_eq_append hcut' hle' (Nat.le_refl _)
  -- the block
  dsimp only at hend ⊢
  obtain ⟨header, chunks, hlength, hchunks, hbytes⟩ :=
    validateXzBlockHeader_eq_ok hblock (by omega)
  let streamEnd := blockPosition + header.bytes.length + (lzma2Stream chunks).length
  let block : XzBlock := ⟨header, chunks,
    cut bytes streamEnd (blockPosition + (unpaddedSize + 3) / 4 * 4), unpaddedSize,
    uncompressedSize, hlength, hchunks, by rw [length_cut hend]; omega, hunpaddedFits,
    huncompressedFits⟩
  refine ⟨block, ?_, ?_⟩
  · rw [← cut_append (Nat.le_add_right recordPosition _) (Nat.le_add_right _ _), hfirst, hsecond]
    rfl
  · change _ = header.bytes ++ lzma2Stream chunks ++ cut bytes streamEnd _
    rw [← hbytes, cut_append (by omega) (by omega)]

/-- The blocks tile what lies between the two positions. -/
theorem preflightXzBlocks_eq_ok (hs : s.1 ≤ indexRecords.length)
    (h : preflightXzBlocks bytes indexRecords count s = .ok t) :
    s.1 ≤ t.1 ∧ t.1 ≤ indexRecords.length ∧ s.2 ≤ t.2 ∧
      (t.2 ≤ bytes.length → ∃ blocks : List XzBlock, blocks.length = count ∧
        cut indexRecords s.1 t.1 = blocks.flatMap XzBlock.record ∧
        cut bytes s.2 t.2 = blocks.flatMap XzBlock.bytes) := by
  induction count generalizing s with
  | zero =>
    cases h
    exact ⟨Nat.le_refl _, hs, Nat.le_refl _, fun _ => ⟨[], rfl, cut_self, cut_self⟩⟩
  | succ count ih =>
    obtain ⟨next, hnext, h⟩ := bind_eq_ok_iff.mp h
    obtain ⟨hrecord, hrecordEnd, hblock⟩ := preflightXzBlock_le hnext
    obtain ⟨hrecords, hrecordsEnd, hblocks, hall⟩ := ih hrecordEnd h
    refine ⟨by omega, hrecordsEnd, by omega, fun hend => ?_⟩
    obtain ⟨block, hfirst, hfirstBytes⟩ := preflightXzBlock_eq_ok hnext (by omega)
    obtain ⟨blocks, hlength, hrest, hrestBytes⟩ := hall hend
    refine ⟨block :: blocks, by rw [List.length_cons, hlength], ?_, ?_⟩
    · rw [List.flatMap_cons, ← hfirst, ← hrest, cut_append hrecord hrecords]
    · rw [List.flatMap_cons, ← hfirstBytes, ← hrestBytes, cut_append hblock hblocks]

theorem preflightXzBlock_safe (hslice : bytes.length < 2 ^ 63) (hs : s.1 ≤ indexRecords.length) :
    Safe (preflightXzBlock bytes indexRecords s) := by
  obtain ⟨recordPosition, blockPosition⟩ := s
  refine (safe_slice hs (Nat.le_refl _)).bind fun rest hrest => ?_
  obtain ⟨⟨hle, -⟩, rfl⟩ := slice_eq_ok.mp hrest
  refine parseXzVli_safe.bind fun value hvalue => safe_okOr.bind fun next hnext => ?_
  obtain ⟨unpaddedSize, consumed⟩ := value
  obtain ⟨-, rfl⟩ := checkedAdd_eq_some.mp (okOr_eq_ok.mp hnext)
  obtain ⟨-, after, hcut, rfl⟩ := parseXzVli_eq_ok.mp hvalue
  obtain ⟨-, -, hin⟩ := cut_eq_append hcut hle (Nat.le_refl _)
  refine (safe_slice hin (Nat.le_refl _)).bind fun _ _ => parseXzVli_safe.bind fun _ _ => ?_
  refine safe_okOr.bind fun _ _ => (validateXzBlockHeader_safe hslice).bind fun _ _ => ?_
  exact safe_okOr.bind fun _ _ => safe_okOr.bind fun _ _ => safe_pure

theorem preflightXzBlocks_safe (hslice : bytes.length < 2 ^ 63) (hs : s.1 ≤ indexRecords.length) :
    Safe (preflightXzBlocks bytes indexRecords count s) := by
  induction count generalizing s with
  | zero => exact safe_pure
  | succ count ih =>
    exact (preflightXzBlock_safe hslice hs).bind fun _ hnext => ih (preflightXzBlock_le hnext).2.1

end Blocks

/-- An envelope: the blocks between the stream header and the index, and the index of the blocks. -/
structure XzEnvelope where
  headerCrc : Bytes
  blocks : List XzBlock
  padding : Nat
  indexCrc : Bytes
  footerCrc : Bytes
  backwardSize : Bytes
  headerCrcLength : headerCrc.length = 4
  blocksFit : blocks.length ≤ applicationArchiveLimits.maxXzBlocks
  indexCrcLength : indexCrc.length = 4
  footerCrcLength : footerCrc.length = 4
  backwardSizeLength : backwardSize.length = 4

def XzEnvelope.index (envelope : XzEnvelope) : Bytes :=
  [0] ++ vliBytes envelope.blocks.length ++ envelope.blocks.flatMap XzBlock.record ++
    List.replicate envelope.padding 0 ++ envelope.indexCrc

def XzEnvelope.streamHeader (envelope : XzEnvelope) : Bytes :=
  xzMagic ++ [0, 4] ++ envelope.headerCrc

def XzEnvelope.footer (envelope : XzEnvelope) : Bytes :=
  envelope.footerCrc ++ envelope.backwardSize ++ [0, 4] ++ ascii "YZ"

def XzEnvelope.bytes (envelope : XzEnvelope) : Bytes :=
  envelope.streamHeader ++ envelope.blocks.flatMap XzBlock.bytes ++ envelope.index ++
    envelope.footer

/-- The index has the size that the footer says. -/
def XzEnvelope.Sized (envelope : XzEnvelope) : Prop :=
  envelope.index.length = (littleEndian envelope.backwardSize + 1) * 4 ∧
    envelope.index.length ≤ applicationArchiveLimits.maxXzIndexBytes

section Preflight

variable {bytes : Bytes}

/-- The envelope that the preflight has walked over. -/
theorem preflightXzEnvelope_layout (h : preflightXzEnvelope bytes = .ok ()) :
    ∃ envelope : XzEnvelope, envelope.Sized ∧ bytes = envelope.bytes := by
  obtain ⟨footerStart, hfooterStart, h⟩ := bind_eq_ok_iff.mp h
  obtain ⟨footer, hfooter, h⟩ := bind_eq_ok_iff.mp h
  obtain ⟨hmagic, h⟩ := refuse_bind_eq_ok.mp h
  obtain ⟨encoded, hencoded, h⟩ := bind_eq_ok_iff.mp h
  obtain ⟨indexSize, hindexSize, h⟩ := bind_eq_ok_iff.mp h
  obtain ⟨indexStart, hindexStart, h⟩ := bind_eq_ok_iff.mp h
  obtain ⟨hindicator, h⟩ := refuse_bind_eq_ok.mp h
  obtain ⟨recordsStart, hrecordsStart, h⟩ := bind_eq_ok_iff.mp h
  obtain ⟨indexRecords, hindexRecords, h⟩ := bind_eq_ok_iff.mp h
  obtain ⟨⟨count, recordPosition⟩, hcount, h⟩ := bind_eq_ok_iff.mp h
  obtain ⟨hcountFits, h⟩ := refuse_bind_eq_ok.mp h
  obtain ⟨⟨recordEnd, blockEnd⟩, hblocks, h⟩ := bind_eq_ok_iff.mp h
  obtain ⟨indexCrcStart, hindexCrcStart, h⟩ := bind_eq_ok_iff.mp h
  obtain ⟨hmeet, h⟩ := refuse_bind_eq_ok.mp h
  obtain ⟨padding, hpadding, h⟩ := bind_eq_ok_iff.mp h
  have hzeros := eq_replicate_of_any (refuse_eq_ok.mp h)
  -- the footer and the start of the stream header
  obtain ⟨hlong, hfooterStart⟩ := checkedSub_eq_some.mp (okOr_eq_ok.mp hfooterStart)
  change 12 ≤ bytes.length at hlong
  change bytes.length - 12 = footerStart at hfooterStart
  obtain ⟨-, hfooter⟩ := slice_eq_ok.mp hfooter
  have hfooterLength : footer.length = 12 := by
    rw [← hfooter, length_cut (Nat.le_refl _)]
    omega
  simp only [decide_eq_false_iff_not, not_or, ne_eq, not_not] at hmagic
  obtain ⟨hmagic, hflags, hfooterFlags, hfooterMagic⟩ := hmagic
  obtain ⟨-, hmagic⟩ := get_eq_some.mp hmagic
  obtain ⟨-, hflags⟩ := get_eq_some.mp hflags
  obtain ⟨-, hfooterFlags⟩ := get_eq_some.mp hfooterFlags
  obtain ⟨-, hfooterMagic⟩ := get_eq_some.mp hfooterMagic
  obtain ⟨-, hencoded⟩ := slice_eq_ok.mp hencoded
  -- where the index lies
  obtain ⟨hmul, hindexLe⟩ := filter_le_eq_some.mp (okOr_eq_ok.mp hindexSize)
  obtain ⟨-, rfl⟩ := checkedMul_eq_some.mp hmul
  obtain ⟨hsub, hafter⟩ := Option.filter_eq_some_iff.mp (okOr_eq_ok.mp hindexStart)
  obtain ⟨hindexFits, hindexStartEq⟩ := checkedSub_eq_some.mp hsub
  have hafter : 12 ≤ indexStart := of_decide_eq_true hafter
  simp only [decide_eq_false_iff_not, ne_eq, not_not] at hindicator
  obtain ⟨-, rfl⟩ := plus_eq_ok.mp hrecordsStart
  obtain ⟨⟨hrecordsLe, -⟩, hrecords⟩ := slice_eq_ok.mp hindexRecords
  have hrecordsLength := congrArg List.length hrecords
  rw [length_cut (by omega)] at hrecordsLength
  -- the blocks
  obtain ⟨-, afterCount, hcountBytes, rfl⟩ := parseXzVli_eq_ok.mp hcount
  have hcountIn : (vliBytes count).length ≤ indexRecords.length := by
    rw [hcountBytes, List.length_append]
    omega
  have hcountCut : cut indexRecords 0 (vliBytes count).length = vliBytes count := by
    rw [hcountBytes, cut_append_of_le (Nat.le_refl _), cut_zero_length]
  simp only [decide_eq_false_iff_not, Nat.not_lt] at hcountFits
  simp only [decide_eq_false_iff_not, not_or, ne_eq, not_not, Nat.not_lt] at hmeet
  obtain ⟨rfl, hrecordEnd⟩ := hmeet
  obtain ⟨hcountEnd, -, -, hall⟩ := preflightXzBlocks_eq_ok hcountIn hblocks
  dsimp only at hcountEnd hall
  obtain ⟨blocks, rfl, hrecordBytes, hblockBytes⟩ := hall (by omega)
  have hsize : footerStart - blockEnd = (littleEndian encoded + 1) * 4 := by
    rw [← hindexStartEq, Nat.sub_sub_self hindexFits]
  -- the end of the index
  obtain ⟨hfour, rfl⟩ := checkedSub_eq_some.mp (okOr_eq_ok.mp hindexCrcStart)
  obtain ⟨-, rfl⟩ := slice_eq_ok.mp hpadding
  let envelope : XzEnvelope := {
    headerCrc := cut bytes 8 12
    blocks := blocks
    padding := (cut indexRecords recordEnd (indexRecords.length - 4)).length
    indexCrc := cut indexRecords (indexRecords.length - 4) indexRecords.length
    footerCrc := cut footer 0 4
    backwardSize := encoded
    headerCrcLength := by rw [length_cut (by omega)]
    blocksFit := hcountFits
    indexCrcLength := by
      rw [length_cut (Nat.le_refl _)]
      omega
    footerCrcLength := by rw [length_cut (by omega)]
    backwardSizeLength := by rw [← hencoded, length_cut (by omega)] }
  have hindex : envelope.index = cut bytes blockEnd (footerStart) := by
    rw [XzEnvelope.index]
    dsimp only [envelope]
    rw [← hzeros, ← hrecordBytes, ← cut_succ hindicator, ← hcountCut]
    have hparts : ∀ first, first ++ cut indexRecords 0 (vliBytes blocks.length).length ++
        cut indexRecords (vliBytes blocks.length).length recordEnd ++
        cut indexRecords recordEnd (indexRecords.length - 4) ++
        cut indexRecords (indexRecords.length - 4) indexRecords.length = first ++ indexRecords := by
      intro first
      rw [List.append_assoc first, cut_append (by omega) hcountEnd, List.append_assoc first,
        cut_append (by omega) hrecordEnd, List.append_assoc first,
        cut_append (by omega) (by omega), cut_zero_length]
    rw [hcountCut] at hparts ⊢
    rw [hparts, ← hrecords, cut_append (by omega) hrecordsLe]
  have hheader : envelope.streamHeader = cut bytes 0 12 := by
    rw [XzEnvelope.streamHeader, ← hmagic, ← hflags]
    dsimp only [envelope]
    rw [cut_append (by omega) (by omega), cut_append (by omega) (by omega)]
  have hfooterAll : envelope.footer = cut bytes (footerStart) bytes.length := by
    rw [XzEnvelope.footer, ← hfooterFlags, ← hfooterMagic]
    dsimp only [envelope]
    rw [← hencoded, cut_append (by omega) (by omega), cut_append (by omega) (by omega),
      cut_append (by omega) (by omega), hfooter, ← hfooterLength, cut_zero_length]
  have hfirst : cut bytes 12 blockEnd = envelope.blocks.flatMap XzBlock.bytes := hblockBytes
  refine ⟨envelope, ⟨?_, ?_⟩, ?_⟩
  · rw [hindex, length_cut (by omega)]
    exact hsize
  · rw [hindex, length_cut (by omega), hsize]
    exact hindexLe
  · rw [XzEnvelope.bytes, hindex, hheader, hfooterAll, ← hfirst, cut_append (by omega) (by omega),
      cut_append (by omega) (by omega), cut_append (by omega) (by omega), cut_zero_length]

theorem preflightXzEnvelope_safe (hslice : bytes.length < 2 ^ 63) :
    Safe (preflightXzEnvelope bytes) := by
  refine safe_okOr.bind fun footerStart hfooterStart => ?_
  obtain ⟨hlong, rfl⟩ := checkedSub_eq_some.mp (okOr_eq_ok.mp hfooterStart)
  have hfooterBytes : footerBytes = 12 := rfl
  refine (safe_slice (by omega) (Nat.le_refl _)).bind fun footer hfooter => ?_
  obtain ⟨-, hfooter⟩ := slice_eq_ok.mp hfooter
  have hfooterLength := congrArg List.length hfooter
  rw [length_cut (Nat.le_refl _)] at hfooterLength
  refine safe_refuse.bind fun _ _ => (safe_slice (by omega) (by omega)).bind fun encoded _ => ?_
  refine safe_okOr.bind fun indexSize hindexSize => safe_okOr.bind fun indexStart hindexStart => ?_
  obtain ⟨hmul, -⟩ := filter_le_eq_some.mp (okOr_eq_ok.mp hindexSize)
  obtain ⟨-, rfl⟩ := checkedMul_eq_some.mp hmul
  obtain ⟨hsub, -⟩ := Option.filter_eq_some_iff.mp (okOr_eq_ok.mp hindexStart)
  obtain ⟨hindexFits, rfl⟩ := checkedSub_eq_some.mp hsub
  refine safe_refuse.bind fun _ _ => (safe_plus ?_).bind fun recordsStart hrecordsStart => ?_
  · change _ < 2 ^ 64
    omega
  obtain ⟨-, rfl⟩ := plus_eq_ok.mp hrecordsStart
  refine (safe_slice (by omega) (by omega)).bind fun indexRecords _ => ?_
  refine parseXzVli_safe.bind fun value hvalue => safe_refuse.bind fun _ _ => ?_
  obtain ⟨count, recordPosition⟩ := value
  obtain ⟨-, after, hcount, rfl⟩ := parseXzVli_eq_ok.mp hvalue
  have hin : (vliBytes count).length ≤ indexRecords.length := by
    rw [hcount, List.length_append]
    omega
  refine (preflightXzBlocks_safe hslice hin).bind fun last _ => ?_
  refine safe_okOr.bind fun indexCrcStart hindexCrcStart => safe_refuse.bind fun _ hmeet => ?_
  obtain ⟨hfour, rfl⟩ := checkedSub_eq_some.mp (okOr_eq_ok.mp hindexCrcStart)
  have hmeet := of_decide_eq_false (refuse_eq_ok.mp hmeet)
  rw [not_or, Nat.not_lt] at hmeet
  exact (safe_slice hmeet.2 (by omega)).bind fun _ _ => safe_refuse

/-- The preflight stops at its own checks only, and hides nothing: what it accepts is the stream
header, the blocks of the index one behind the other, the index, and the footer. Its numbers
are the shortest encodings of what is below `2 ^ 63`. A slice has fewer than `2 ^ 63` bytes. -/
theorem xz_preflight_hides_nothing (hslice : bytes.length < 2 ^ 63) :
    Safe (preflightXzEnvelope bytes) ∧
      (preflightXzEnvelope bytes = .ok () →
        ∃ envelope : XzEnvelope, envelope.Sized ∧ bytes = envelope.bytes) ∧
      ∀ (encoded : Bytes) (value consumed : Nat), parseXzVli encoded = .ok (value, consumed) ↔
        value < 2 ^ 63 ∧ ∃ number rest : Bytes, encoded = number ++ rest ∧
          ShortestVli number value ∧ consumed = number.length := by
  refine ⟨preflightXzEnvelope_safe hslice, preflightXzEnvelope_layout, ?_⟩
  intro encoded value consumed
  rw [parseXzVli_eq_ok, and_congr_right_iff]
  intro hvalue
  constructor
  · rintro ⟨rest, hencoded, hconsumed⟩
    exact ⟨vliBytes value, rest, hencoded, (shortestVli_iff hvalue).mpr rfl, hconsumed⟩
  · rintro ⟨number, rest, hencoded, hshortest, hconsumed⟩
    have hnumber := (shortestVli_iff hvalue).mp hshortest
    rw [hnumber] at hencoded hconsumed
    exact ⟨rest, hencoded, hconsumed⟩

/-- A block of one uncompressed byte. -/
def sampleXz : Bytes :=
  xzMagic ++ [0, 4, 0, 0, 0, 0] ++
    [2, 0, 0x21, 1, 22, 0, 0, 0, 0, 0, 0, 0] ++ [1, 0, 0, 97, 0] ++ List.replicate 11 0 ++
    [0, 1, 25, 1, 0, 0, 0, 0] ++ [0, 0, 0, 0, 1, 0, 0, 0, 0, 4] ++ ascii "YZ"

theorem xz_preflight_hides_nothing_sample : Safe (preflightXzEnvelope sampleXz) ∧
    ∃ envelope : XzEnvelope, envelope.Sized ∧ sampleXz = envelope.bytes := by
  have hslice : sampleXz.length < 2 ^ 63 := by decide
  have haccepted : preflightXzEnvelope sampleXz = .ok () := by rfl
  obtain ⟨hsafe, hlayout, -⟩ := xz_preflight_hides_nothing hslice
  exact ⟨hsafe, hlayout haccepted⟩

end Preflight

end Kitrove
