import Kitrove.Release.XzNumbers

/-! The blocks of an XZ envelope as bytes: a header, the chunks of an LZMA2 stream, and a check. -/

namespace Kitrove

open Slices Except

/-- A chunk of an LZMA2 stream, with what its control byte says stands before its data. -/
structure Lzma2Chunk where
  control : UInt8
  unpacked : Bytes
  properties : Bytes
  data : Bytes
  known : ((control = 1 ∨ control = 2) ∧ unpacked = [] ∧ properties = []) ∨
    (0x80 ≤ control ∧ unpacked.length = 2 ∧ properties.length = if 0xc0 ≤ control then 1 else 0)
  nonempty : 0 < data.length
  dataFits : data.length ≤ 65536

def beBytes (n : Nat) : Bytes := [UInt8.ofNat (n / 256), UInt8.ofNat n]

def Lzma2Chunk.bytes (chunk : Lzma2Chunk) : Bytes :=
  [chunk.control] ++ chunk.unpacked ++ beBytes (chunk.data.length - 1) ++ chunk.properties ++
    chunk.data

/-- Chunks and the byte that ends them. -/
def lzma2Stream (chunks : List Lzma2Chunk) : Bytes := chunks.flatMap Lzma2Chunk.bytes ++ [0]

structure XzFilter where
  id : Nat
  properties : Bytes
  idFits : id < 2 ^ 63
  propertiesFit : properties.length < 2 ^ 63

def XzFilter.bytes (filter : XzFilter) : Bytes :=
  vliBytes filter.id ++ vliBytes filter.properties.length ++ filter.properties

/-- The filter whose property is the size of its dictionary. -/
def lzma2Filter (property : UInt8) : XzFilter := ⟨0x21, [property], by decide, by
  rw [List.length_singleton]
  decide⟩

/-- A block header: the sizes that its flags announce, and its filters, LZMA2 as the last one. -/
structure XzBlockHeader where
  encodedSize : UInt8
  flags : UInt8
  sizes : List Nat
  filters : List XzFilter
  dictionary : UInt8
  padding : Nat
  crc : Bytes
  sizesFit : ∀ size ∈ sizes, size < 2 ^ 63
  sizesAnnounced : sizes.length =
    ([decide (flags &&& 0x40 ≠ 0), decide (flags &&& 0x80 ≠ 0)].filter id).length
  unreserved : flags &&& 0x3c = 0
  filtersAnnounced : filters.length = (flags &&& 3).toNat
  dictionaryFits : ∃ size ≤ applicationArchiveLimits.maxXzDictionaryBytes,
    lzma2DictionarySize dictionary = .ok size
  crcLength : crc.length = 4

def XzBlockHeader.fields (header : XzBlockHeader) : Bytes :=
  header.sizes.flatMap vliBytes ++ header.filters.flatMap XzFilter.bytes ++
    (lzma2Filter header.dictionary).bytes

def XzBlockHeader.bytes (header : XzBlockHeader) : Bytes :=
  [header.encodedSize, header.flags] ++ header.fields ++ List.replicate header.padding 0 ++ header.crc

/-- A block: its header has the size that it says, and its chunks end eight bytes before the
unpadded end. -/
structure XzBlock where
  header : XzBlockHeader
  chunks : List Lzma2Chunk
  tail : Bytes
  unpaddedSize : Nat
  uncompressedSize : Nat
  headerLength : header.bytes.length = (header.encodedSize.toNat + 1) * 4
  chunksEnd : header.bytes.length + (lzma2Stream chunks).length + 8 = unpaddedSize
  padded : header.bytes.length + (lzma2Stream chunks).length + tail.length =
    (unpaddedSize + 3) / 4 * 4
  unpaddedFits : unpaddedSize < 2 ^ 63
  uncompressedFits : uncompressedSize < 2 ^ 63

def XzBlock.bytes (block : XzBlock) : Bytes :=
  block.header.bytes ++ lzma2Stream block.chunks ++ block.tail

section Chunks

variable {bytes : Bytes} {position payloadEnd fuel stop next n : Nat}

theorem beU16_eq_ok (h : beU16 bytes position = .ok n) :
    position + 2 ≤ bytes.length ∧ n < 65536 ∧ cut bytes position (position + 2) = beBytes n := by
  obtain ⟨end', hend, h⟩ := bind_eq_ok_iff.mp h
  obtain ⟨-, rfl⟩ := checkedAdd_eq_some.mp (okOr_eq_ok.mp hend)
  obtain ⟨value, hvalue, h⟩ := bind_eq_ok_iff.mp h
  obtain ⟨⟨-, hin⟩, hcut⟩ := get_eq_some.mp (okOr_eq_ok.mp hvalue)
  obtain ⟨high, hhigh, h⟩ := bind_eq_ok_iff.mp h
  obtain ⟨low, hlow, h⟩ := bind_eq_ok_iff.mp h
  cases h
  have hlength := @length_cut _ bytes position _ hin
  rw [hcut, Nat.add_sub_cancel_left] at hlength
  obtain ⟨a, b, rfl⟩ := List.length_eq_two.mp hlength
  have ha : a = high := Option.some.inj (index_eq_ok.mp hhigh)
  have hb : b = low := Option.some.inj (index_eq_ok.mp hlow)
  subst ha hb
  have ha := a.toNat_lt
  have hb := b.toNat_lt
  refine ⟨hin, by omega, ?_⟩
  have hhigh : UInt8.ofNat ((a.toNat * 256 + b.toNat) / 256) = a := by
    refine UInt8.toNat_inj.mp ?_
    rw [UInt8.toNat_ofNat']
    omega
  have hlow : UInt8.ofNat (a.toNat * 256 + b.toNat) = b := by
    refine UInt8.toNat_inj.mp ?_
    rw [UInt8.toNat_ofNat']
    omega
  rw [hcut, beBytes, hhigh, hlow]

theorem beU16_safe : Safe (beU16 bytes position) := by
  refine safe_okOr.bind fun end' hend => safe_okOr.bind fun value hvalue => ?_
  obtain ⟨-, rfl⟩ := checkedAdd_eq_some.mp (okOr_eq_ok.mp hend)
  obtain ⟨⟨-, hin⟩, rfl⟩ := get_eq_some.mp (okOr_eq_ok.mp hvalue)
  have hlength := @length_cut _ bytes position _ hin
  exact (safe_index (by omega)).bind fun _ _ => (safe_index (by omega)).bind fun _ _ => safe_pure

theorem scanLzma2Chunk_stop (h : scanLzma2Chunk bytes payloadEnd position = .ok (.inl stop)) :
    bytes[position]? = some 0 ∧ position < payloadEnd ∧ stop = position + 1 := by
  obtain ⟨control, hcontrol, h⟩ := bind_eq_ok_iff.mp h
  obtain ⟨hget, hlt⟩ := Option.filter_eq_some_iff.mp (okOr_eq_ok.mp hcontrol)
  obtain ⟨position', hposition, h⟩ := bind_eq_ok_iff.mp h
  obtain ⟨-, rfl⟩ := plus_eq_ok.mp hposition
  by_cases hzero : control = 0
  · rw [if_pos hzero] at h
    cases h
    rw [hzero] at hget
    exact ⟨hget, of_decide_eq_true hlt, rfl⟩
  · rw [if_neg hzero] at h
    obtain ⟨s, -, h⟩ := bind_eq_ok_iff.mp h
    obtain ⟨next, -, h⟩ := bind_eq_ok_iff.mp h
    cases h

theorem scanLzma2Sizes_le {control : UInt8} {size : Nat}
    (h : scanLzma2Sizes bytes control position = .ok (next, size)) : position ≤ next ∧ 0 < size := by
  unfold scanLzma2Sizes at h
  split at h
  · obtain ⟨n, -, h⟩ := bind_eq_ok_iff.mp h
    obtain ⟨position', hposition, h⟩ := bind_eq_ok_iff.mp h
    obtain ⟨-, rfl⟩ := plus_eq_ok.mp hposition
    cases h
    omega
  · split at h
    · obtain ⟨start, hstart, h⟩ := bind_eq_ok_iff.mp h
      obtain ⟨-, rfl⟩ := checkedAdd_eq_some.mp (okOr_eq_ok.mp hstart)
      obtain ⟨n, -, h⟩ := bind_eq_ok_iff.mp h
      obtain ⟨position', hposition, h⟩ := bind_eq_ok_iff.mp h
      obtain ⟨-, rfl⟩ := plus_eq_ok.mp hposition
      obtain ⟨stop, hstop, h⟩ := bind_eq_ok_iff.mp h
      cases h
      have hstop := okOr_eq_ok.mp hstop
      split at hstop
      · obtain ⟨-, rfl⟩ := checkedAdd_eq_some.mp hstop
        omega
      · cases hstop
        omega
    · contradiction

theorem scanLzma2Sizes_eq_ok {control : UInt8} {size : Nat} (hnext : next ≤ bytes.length)
    (h : scanLzma2Sizes bytes control position = .ok (next, size)) :
    ∃ unpacked properties : Bytes,
      (((control = 1 ∨ control = 2) ∧ unpacked = [] ∧ properties = []) ∨
        (0x80 ≤ control ∧ unpacked.length = 2 ∧
          properties.length = if 0xc0 ≤ control then 1 else 0)) ∧ size ≤ 65536 ∧
      cut bytes position next = unpacked ++ beBytes (size - 1) ++ properties := by
  unfold scanLzma2Sizes at h
  split at h
  · rename_i hcontrol
    obtain ⟨n, hn, h⟩ := bind_eq_ok_iff.mp h
    obtain ⟨position', hposition, h⟩ := bind_eq_ok_iff.mp h
    obtain ⟨-, rfl⟩ := plus_eq_ok.mp hposition
    cases h
    obtain ⟨-, hlt, hcut⟩ := beU16_eq_ok hn
    refine ⟨[], [], .inl ⟨hcontrol, rfl, rfl⟩, by omega, ?_⟩
    rw [hcut, Nat.add_sub_cancel, List.nil_append, List.append_nil]
  · rename_i hcontrol
    split at h
    · rename_i hhigh
      obtain ⟨start, hstart, h⟩ := bind_eq_ok_iff.mp h
      obtain ⟨-, rfl⟩ := checkedAdd_eq_some.mp (okOr_eq_ok.mp hstart)
      obtain ⟨n, hn, h⟩ := bind_eq_ok_iff.mp h
      obtain ⟨position', hposition, h⟩ := bind_eq_ok_iff.mp h
      obtain ⟨-, rfl⟩ := plus_eq_ok.mp hposition
      obtain ⟨stop, hstop, h⟩ := bind_eq_ok_iff.mp h
      cases h
      obtain ⟨hin, hlt, hcut⟩ := beU16_eq_ok hn
      have hstop := okOr_eq_ok.mp hstop
      have hnextEq : next = position + 2 + 2 + if 0xc0 ≤ control then 1 else 0 := by
        split at hstop
        · rename_i hlzma
          obtain ⟨-, hsum⟩ := checkedAdd_eq_some.mp hstop
          rw [if_pos hlzma, ← hsum]
        · rename_i hlzma
          rw [if_neg hlzma]
          exact (Option.some.inj hstop).symm
      refine ⟨cut bytes position (position + 2), cut bytes (position + 2 + 2) next,
        .inr ⟨hhigh, ?_, ?_⟩, by omega, ?_⟩
      · rw [length_cut (by omega), Nat.add_sub_cancel_left]
      · rw [length_cut hnext, hnextEq, Nat.add_sub_cancel_left]
      · rw [Nat.add_sub_cancel, ← hcut, cut_append (by omega) (by omega),
          cut_append (by omega) (by omega)]
    · contradiction

theorem scanLzma2Sizes_safe {control : UInt8} (hslice : bytes.length < 2 ^ 63) :
    Safe (scanLzma2Sizes bytes control position) := by
  have hadd : ∀ position n, beU16 bytes position = .ok n → position + 2 < wordLimit := by
    intro position n hn
    have hin := (beU16_eq_ok hn).1
    change _ < 2 ^ 64
    omega
  refine Safe.ite (fun _ => ?_) fun _ => Safe.ite (fun _ => ?_) fun _ => safe_refused
  · exact beU16_safe.bind fun n hn => (safe_plus (hadd _ n hn)).bind fun _ _ => safe_pure
  · exact safe_okOr.bind fun start _ => beU16_safe.bind fun n hn =>
      (safe_plus (hadd _ n hn)).bind fun _ _ => safe_okOr.bind fun _ _ => safe_pure

/-- A chunk that is not the last one ends behind its first byte. -/
theorem scanLzma2Chunk_lt (h : scanLzma2Chunk bytes payloadEnd position = .ok (.inr next)) :
    position < next ∧ next ≤ payloadEnd := by
  obtain ⟨control, hcontrol, h⟩ := bind_eq_ok_iff.mp h
  obtain ⟨position', hposition, h⟩ := bind_eq_ok_iff.mp h
  obtain ⟨-, rfl⟩ := plus_eq_ok.mp hposition
  by_cases hzero : control = 0
  · rw [if_pos hzero] at h
    cases h
  · rw [if_neg hzero] at h
    obtain ⟨⟨start, size⟩, hsizes, h⟩ := bind_eq_ok_iff.mp h
    obtain ⟨next', hnext, h⟩ := bind_eq_ok_iff.mp h
    cases h
    obtain ⟨hadd, hle⟩ := Option.filter_eq_some_iff.mp (okOr_eq_ok.mp hnext)
    obtain ⟨-, rfl⟩ := checkedAdd_eq_some.mp hadd
    obtain ⟨hstart, hsize⟩ := scanLzma2Sizes_le hsizes
    exact ⟨by omega, of_decide_eq_true hle⟩

theorem scanLzma2Chunk_next (hend : payloadEnd ≤ bytes.length)
    (h : scanLzma2Chunk bytes payloadEnd position = .ok (.inr next)) :
    ∃ chunk : Lzma2Chunk, cut bytes position next = chunk.bytes := by
  obtain ⟨control, hcontrol, h⟩ := bind_eq_ok_iff.mp h
  obtain ⟨hget, -⟩ := Option.filter_eq_some_iff.mp (okOr_eq_ok.mp hcontrol)
  obtain ⟨position', hposition, h⟩ := bind_eq_ok_iff.mp h
  obtain ⟨-, rfl⟩ := plus_eq_ok.mp hposition
  by_cases hzero : control = 0
  · rw [if_pos hzero] at h
    cases h
  · rw [if_neg hzero] at h
    obtain ⟨⟨start, size⟩, hsizes, h⟩ := bind_eq_ok_iff.mp h
    obtain ⟨next', hnext, h⟩ := bind_eq_ok_iff.mp h
    cases h
    obtain ⟨hadd, hle⟩ := Option.filter_eq_some_iff.mp (okOr_eq_ok.mp hnext)
    have hle := of_decide_eq_true hle
    obtain ⟨-, rfl⟩ := checkedAdd_eq_some.mp hadd
    obtain ⟨hstart, hsize⟩ := scanLzma2Sizes_le hsizes
    obtain ⟨unpacked, properties, hknown, hfits, hcut⟩ :=
      scanLzma2Sizes_eq_ok (by omega) hsizes
    have hdata : (cut bytes start (start + size)).length = size := by
      rw [length_cut (by omega), Nat.add_sub_cancel_left]
    refine ⟨⟨control, unpacked, properties, cut bytes start (start + size), hknown, by omega,
      by omega⟩, ?_⟩
    rw [Lzma2Chunk.bytes]
    dsimp only
    rw [hdata, List.append_assoc [control], List.append_assoc [control], ← hcut, ← cut_succ hget,
      cut_append (by omega) (by omega), cut_append (by omega) (by omega)]

/-- The scan ends within the bytes, and what it has walked over is chunks. -/
theorem scanLzma2Loop_eq_ok (h : scanLzma2Loop bytes payloadEnd fuel position = .ok stop) :
    (position < stop ∧ stop ≤ bytes.length) ∧
      (payloadEnd ≤ bytes.length → ∃ chunks, cut bytes position stop = lzma2Stream chunks) := by
  induction fuel generalizing position with
  | zero => contradiction
  | succ fuel ih =>
    obtain ⟨step, hstep, h⟩ := bind_eq_ok_iff.mp h
    cases step with
    | inl stop' =>
      cases h
      obtain ⟨hget, -, rfl⟩ := scanLzma2Chunk_stop hstep
      have hlt := (List.getElem?_eq_some_iff.mp hget).1
      refine ⟨⟨by omega, by omega⟩, fun _ => ⟨[], ?_⟩⟩
      rw [cut_succ hget]
      rfl
    | inr next =>
      obtain ⟨hnext, hle⟩ := scanLzma2Chunk_lt hstep
      obtain ⟨⟨hstop, hin⟩, hchunks⟩ := ih h
      refine ⟨⟨by omega, hin⟩, fun hend => ?_⟩
      obtain ⟨chunk, hchunk⟩ := scanLzma2Chunk_next hend hstep
      obtain ⟨chunks, hcut⟩ := hchunks hend
      refine ⟨chunk :: chunks, ?_⟩
      rw [lzma2Stream, List.flatMap_cons, List.append_assoc, ← lzma2Stream, ← hchunk, ← hcut,
        cut_append (by omega) (by omega)]

theorem scanLzma2Loop_safe (hslice : bytes.length < 2 ^ 63) (hfuel : payloadEnd - position < fuel) :
    Safe (scanLzma2Loop bytes payloadEnd fuel position) := by
  induction fuel generalizing position with
  | zero => exact absurd hfuel (Nat.not_lt_zero _)
  | succ fuel ih =>
    refine Safe.bind ?_ fun step hstep => ?_
    · refine safe_okOr.bind fun control hcontrol => ?_
      obtain ⟨hget, -⟩ := Option.filter_eq_some_iff.mp (okOr_eq_ok.mp hcontrol)
      have hlt := (List.getElem?_eq_some_iff.mp hget).1
      have hadd : position + 1 < wordLimit := by
        change _ < 2 ^ 64
        omega
      refine (safe_plus hadd).bind fun _ _ => Safe.ite (fun _ => safe_pure) fun _ => ?_
      exact (scanLzma2Sizes_safe hslice).bind fun _ _ => safe_okOr.bind fun _ _ => safe_pure
    · cases step with
      | inl stop => exact safe_pure
      | inr next =>
        obtain ⟨hnext, hle⟩ := scanLzma2Chunk_lt hstep
        exact ih (by omega)

end Chunks

end Kitrove
