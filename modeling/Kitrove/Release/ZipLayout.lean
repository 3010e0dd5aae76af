import Kitrove.Release.Zip

/-! An accepted ZIP is its local records, its central records and its end record, one after the
other. -/

namespace Kitrove

open Slices Except

/-- An entry as the central directory has it, within the limits. -/
structure CentralEntry where
  name : Bytes
  flags : UInt16
  compression : UInt16
  crc32 : UInt32
  compressedSize : UInt32
  expandedSize : UInt32
  localStart : UInt32
  madeBy : UInt16
  centralVersion : UInt16
  centralTime : UInt32
  internal : UInt16
  external : UInt32
  mode : Option UInt32
  flagsKnown : flags &&& ~~~ utf8Flag = 0
  compressionKnown : compression = 0 ∨ compression = 8
  stored : compression = 0 → compressedSize = expandedSize
  nameFits : name.length ≤ applicationArchiveLimits.maxPathBytes
  compressedFits : compressedSize.toNat ≠ 4294967295
  expandedFits : expandedSize.toNat ≠ 4294967295
  startFits : localStart.toNat ≠ 4294967295
  modeKnown : zipEntryMode (madeBy >>> 8) external = .ok mode

/-- An entry with what only its local record has. -/
structure ZipEntry extends CentralEntry where
  localVersion : UInt16
  localTime : UInt32
  data : Bytes
  dataLength : data.length = compressedSize.toNat

section Formats

def CentralEntry.centralPieces (e : CentralEntry) : List Bytes :=
  [centralSignature, u16Bytes e.madeBy, u16Bytes e.centralVersion, u16Bytes e.flags,
    u16Bytes e.compression, u32Bytes e.centralTime, u32Bytes e.crc32, u32Bytes e.compressedSize,
    u32Bytes e.expandedSize, u16Bytes (UInt16.ofNat e.name.length), u16Bytes 0, u16Bytes 0,
    u16Bytes 0, u16Bytes e.internal, u32Bytes e.external, u32Bytes e.localStart]

/-- A central record: a header without extra field and comment, and the name. -/
def CentralEntry.centralRecord (e : CentralEntry) : Bytes := e.centralPieces.flatten ++ e.name

def ZipEntry.localPieces (e : ZipEntry) : List Bytes :=
  [localSignature, u16Bytes e.localVersion, u16Bytes e.flags, u16Bytes e.compression,
    u32Bytes e.localTime, u32Bytes e.crc32, u32Bytes e.compressedSize, u32Bytes e.expandedSize,
    u16Bytes (UInt16.ofNat e.name.length), u16Bytes 0]

/-- A local record: a header without extra field, the name and the data. -/
def ZipEntry.localRecord (e : ZipEntry) : Bytes := e.localPieces.flatten ++ e.name ++ e.data

def endPieces (entries : UInt16) (centralSize centralStart : UInt32) : List Bytes :=
  [endSignature, u16Bytes 0, u16Bytes 0, u16Bytes entries, u16Bytes entries, u32Bytes centralSize,
    u32Bytes centralStart, u16Bytes 0]

def CentralEntry.record (e : CentralEntry) : ZipEntryRecord :=
  ⟨e.name, e.flags, e.compression, e.crc32, e.compressedSize.toNat, e.expandedSize.toNat,
    e.localStart.toNat, (0, 0), e.mode, entryKind e.name e.mode⟩

def ZipEntry.record (e : ZipEntry) : ZipEntryRecord :=
  let dataStart := e.localStart.toNat + localBytes + e.name.length
  { e.toCentralEntry.record with data := (dataStart, dataStart + e.compressedSize.toNat) }

variable {e : CentralEntry}

theorem length_centralPieces : e.centralPieces.flatten.length = centralBytes := by
  simp [CentralEntry.centralPieces, centralSignature, ascii, length_u16Bytes, length_u32Bytes,
    centralBytes]

theorem length_localPieces {e : ZipEntry} : e.localPieces.flatten.length = localBytes := by
  simp [ZipEntry.localPieces, localSignature, ascii, length_u16Bytes, length_u32Bytes, localBytes]

theorem length_endPieces {entries : UInt16} {centralSize centralStart : UInt32} :
    (endPieces entries centralSize centralStart).flatten.length = endBytes := by
  simp [endPieces, endSignature, ascii, length_u16Bytes, length_u32Bytes, endBytes]

theorem length_centralRecord : e.centralRecord.length = centralBytes + e.name.length := by
  rw [CentralEntry.centralRecord, List.length_append, length_centralPieces]

theorem length_localRecord {e : ZipEntry} :
    e.localRecord.length = localBytes + e.name.length + e.data.length := by
  rw [ZipEntry.localRecord, List.length_append, List.length_append, length_localPieces]

theorem nameLen_eq : (UInt16.ofNat e.name.length).toNat = e.name.length := by
  have hname : e.name.length ≤ 4096 := e.nameFits
  rw [UInt16.toNat_ofNat', Nat.mod_eq_of_lt (by omega)]

end Formats

section Numbers

variable {bytes : Bytes} {offset : Nat}

theorem leU16_eq (h : offset + 2 ≤ bytes.length) (hword : offset + 2 < 2 ^ 64) :
    leU16 bytes offset = pure (u16At bytes offset) := by
  have hplus : (plus offset 2 : Intake Nat) = .ok (offset + 2) := plus_eq_ok.mpr ⟨hword, rfl⟩
  have hget : get bytes offset (offset + 2) = some (cut bytes offset (offset + 2)) :=
    get_eq_some.mpr ⟨⟨by omega, h⟩, rfl⟩
  unfold leU16
  rw [hplus]
  change (invalidZip (get bytes offset (offset + 2)) >>= fun _ => _) = _
  rw [hget]
  rfl

theorem leU32_eq (h : offset + 4 ≤ bytes.length) (hword : offset + 4 < 2 ^ 64) :
    leU32 bytes offset = pure (u32At bytes offset) := by
  have hplus : (plus offset 4 : Intake Nat) = .ok (offset + 4) := plus_eq_ok.mpr ⟨hword, rfl⟩
  have hget : get bytes offset (offset + 4) = some (cut bytes offset (offset + 4)) :=
    get_eq_some.mpr ⟨⟨by omega, h⟩, rfl⟩
  unfold leU32
  rw [hplus]
  change (invalidZip (get bytes offset (offset + 4)) >>= fun _ => _) = _
  rw [hget]
  rfl

end Numbers

section Headers

variable {fixed : Bytes}

def centralWidths : List Nat := [4, 2, 2, 2, 2, 4, 4, 4, 4, 2, 2, 2, 2, 2, 4, 4]

def localWidths : List Nat := [4, 2, 2, 2, 4, 4, 4, 4, 2, 2]

def endWidths : List Nat := [4, 2, 2, 2, 2, 4, 4, 2]

theorem centralWidths_eq {e : CentralEntry} :
    e.centralPieces.map List.length = centralWidths := by
  simp [CentralEntry.centralPieces, centralSignature, ascii, length_u16Bytes, length_u32Bytes,
    centralWidths]

theorem fields_central : fields fixed 0 centralWidths =
    [cut fixed 0 4, cut fixed 4 6, cut fixed 6 8, cut fixed 8 10, cut fixed 10 12, cut fixed 12 16,
      cut fixed 16 20, cut fixed 20 24, cut fixed 24 28, cut fixed 28 30, cut fixed 30 32,
      cut fixed 32 34, cut fixed 34 36, cut fixed 36 38, cut fixed 38 42, cut fixed 42 46] := rfl

/-- The fields of a central header are where the reader looks for them. -/
theorem central_fields {e : CentralEntry} : fields e.centralPieces.flatten 0 centralWidths =
    e.centralPieces := by
  have h := @fields_flatten UInt8 e.centralPieces [] []
  rwa [List.append_nil, List.nil_append, centralWidths_eq] at h

/-- What the reader finds in the header of an entry. -/
theorem centralHeader_read {e : CentralEntry} (h : fixed = e.centralPieces.flatten) :
    fixed.length = 46 ∧ get fixed 0 4 = some centralSignature ∧ u16At fixed 4 = e.madeBy ∧
      u16At fixed 8 = e.flags ∧ u16At fixed 10 = e.compression ∧ u32At fixed 16 = e.crc32 ∧
      u32At fixed 20 = e.compressedSize ∧ u32At fixed 24 = e.expandedSize ∧
      u16At fixed 28 = UInt16.ofNat e.name.length ∧ u16At fixed 30 = 0 ∧ u16At fixed 32 = 0 ∧
      u16At fixed 34 = 0 ∧ u32At fixed 38 = e.external ∧ u32At fixed 42 = e.localStart := by
  have hlength : fixed.length = 46 := by
    rw [h]
    exact length_centralPieces
  have hfields := @central_fields e
  rw [← h, fields_central, CentralEntry.centralPieces] at hfields
  simp only [List.cons.injEq, and_true] at hfields
  obtain ⟨hsignature, hmadeBy, -, hflags, hcompression, -, hcrc, hcompressed, hexpanded, hname, hextra,
    hcomment, hdisk, -, hexternal, hstart⟩ := hfields
  refine ⟨hlength, get_eq_some.mpr ⟨⟨by omega, by omega⟩, hsignature⟩, ?_⟩
  exact ⟨u16At_eq hmadeBy, u16At_eq hflags, u16At_eq hcompression, u32At_eq hcrc,
    u32At_eq hcompressed, u32At_eq hexpanded, u16At_eq hname, u16At_eq hextra, u16At_eq hcomment,
    u16At_eq hdisk, u32At_eq hexternal, u32At_eq hstart⟩

/-- A header that reads so is the header of the entry. -/
theorem centralHeader_eq (hlength : fixed.length = 46) (hsignature : get fixed 0 4 = some centralSignature)
    {e : CentralEntry} (hmadeBy : u16At fixed 4 = e.madeBy)
    (hversion : u16At fixed 6 = e.centralVersion) (hflags : u16At fixed 8 = e.flags)
    (hcompression : u16At fixed 10 = e.compression) (htime : u32At fixed 12 = e.centralTime)
    (hcrc : u32At fixed 16 = e.crc32) (hcompressed : u32At fixed 20 = e.compressedSize)
    (hexpanded : u32At fixed 24 = e.expandedSize)
    (hname : u16At fixed 28 = UInt16.ofNat e.name.length) (hextra : u16At fixed 30 = 0)
    (hcomment : u16At fixed 32 = 0) (hdisk : u16At fixed 34 = 0)
    (hinternal : u16At fixed 36 = e.internal) (hexternal : u32At fixed 38 = e.external)
    (hstart : u32At fixed 42 = e.localStart) : fixed = e.centralPieces.flatten := by
  have hall := @flatten_fields UInt8 fixed 0 centralWidths
  have hsum : 0 + centralWidths.sum = fixed.length := by
    rw [hlength]
    rfl
  rw [hsum, cut_zero_length, fields_central] at hall
  rw [← hall, CentralEntry.centralPieces, ← (get_eq_some.mp hsignature).2, ← hmadeBy, ← hversion,
    ← hflags, ← hcompression, ← htime, ← hcrc, ← hcompressed, ← hexpanded, ← hname, ← hinternal,
    ← hexternal, ← hstart, u16Bytes_u16At (by omega), u16Bytes_u16At (by omega),
    u16Bytes_u16At (by omega), u16Bytes_u16At (by omega), u32Bytes_u32At (by omega),
    u32Bytes_u32At (by omega), u32Bytes_u32At (by omega), u32Bytes_u32At (by omega),
    u16Bytes_u16At (by omega), u16Bytes_u16At (by omega), u32Bytes_u32At (by omega),
    u32Bytes_u32At (by omega), ← @u16Bytes_u16At fixed 30 (by omega),
    ← @u16Bytes_u16At fixed 32 (by omega), ← @u16Bytes_u16At fixed 34 (by omega), hextra,
    hcomment, hdisk]

theorem localWidths_eq {e : ZipEntry} : e.localPieces.map List.length = localWidths := by
  simp [ZipEntry.localPieces, localSignature, ascii, length_u16Bytes, length_u32Bytes, localWidths]

theorem fields_local : fields fixed 0 localWidths =
    [cut fixed 0 4, cut fixed 4 6, cut fixed 6 8, cut fixed 8 10, cut fixed 10 14, cut fixed 14 18,
      cut fixed 18 22, cut fixed 22 26, cut fixed 26 28, cut fixed 28 30] := rfl

theorem local_fields {e : ZipEntry} : fields e.localPieces.flatten 0 localWidths =
    e.localPieces := by
  have h := @fields_flatten UInt8 e.localPieces [] []
  rwa [List.append_nil, List.nil_append, localWidths_eq] at h

theorem localHeader_read {e : ZipEntry} (h : fixed = e.localPieces.flatten) :
    fixed.length = 30 ∧ get fixed 0 4 = some localSignature ∧ u16At fixed 6 = e.flags ∧
      u16At fixed 8 = e.compression ∧ u32At fixed 14 = e.crc32 ∧
      u32At fixed 18 = e.compressedSize ∧ u32At fixed 22 = e.expandedSize ∧
      u16At fixed 26 = UInt16.ofNat e.name.length ∧ u16At fixed 28 = 0 := by
  have hlength : fixed.length = 30 := by
    rw [h]
    exact length_localPieces
  have hfields := @local_fields e
  rw [← h, fields_local, ZipEntry.localPieces] at hfields
  simp only [List.cons.injEq, and_true] at hfields
  obtain ⟨hsignature, -, hflags, hcompression, -, hcrc, hcompressed, hexpanded, hname, hextra⟩ := hfields
  refine ⟨hlength, get_eq_some.mpr ⟨⟨by omega, by omega⟩, hsignature⟩, ?_⟩
  exact ⟨u16At_eq hflags, u16At_eq hcompression, u32At_eq hcrc, u32At_eq hcompressed,
    u32At_eq hexpanded, u16At_eq hname, u16At_eq hextra⟩

theorem localHeader_eq (hlength : fixed.length = 30) (hsignature : get fixed 0 4 = some localSignature)
    {e : ZipEntry} (hversion : u16At fixed 4 = e.localVersion) (hflags : u16At fixed 6 = e.flags)
    (hcompression : u16At fixed 8 = e.compression) (htime : u32At fixed 10 = e.localTime)
    (hcrc : u32At fixed 14 = e.crc32) (hcompressed : u32At fixed 18 = e.compressedSize)
    (hexpanded : u32At fixed 22 = e.expandedSize)
    (hname : u16At fixed 26 = UInt16.ofNat e.name.length) (hextra : u16At fixed 28 = 0) :
    fixed = e.localPieces.flatten := by
  have hall := @flatten_fields UInt8 fixed 0 localWidths
  have hsum : 0 + localWidths.sum = fixed.length := by
    rw [hlength]
    rfl
  rw [hsum, cut_zero_length, fields_local] at hall
  rw [← hall, ZipEntry.localPieces, ← (get_eq_some.mp hsignature).2, ← hversion, ← hflags,
    ← hcompression, ← htime, ← hcrc, ← hcompressed, ← hexpanded, ← hname,
    u16Bytes_u16At (by omega), u16Bytes_u16At (by omega), u16Bytes_u16At (by omega),
    u32Bytes_u32At (by omega), u32Bytes_u32At (by omega), u32Bytes_u32At (by omega),
    u32Bytes_u32At (by omega), u16Bytes_u16At (by omega), ← @u16Bytes_u16At fixed 28 (by omega),
    hextra]

theorem endWidths_eq {entries : UInt16} {centralSize centralStart : UInt32} :
    (endPieces entries centralSize centralStart).map List.length = endWidths := by
  simp [endPieces, endSignature, ascii, length_u16Bytes, length_u32Bytes, endWidths]

theorem fields_end : fields fixed 0 endWidths =
    [cut fixed 0 4, cut fixed 4 6, cut fixed 6 8, cut fixed 8 10, cut fixed 10 12, cut fixed 12 16,
      cut fixed 16 20, cut fixed 20 22] := rfl

theorem endRecord_read {entries : UInt16} {centralSize centralStart : UInt32}
    (h : fixed = (endPieces entries centralSize centralStart).flatten) :
    fixed.length = 22 ∧ get fixed 0 4 = some endSignature ∧ u16At fixed 4 = 0 ∧
      u16At fixed 6 = 0 ∧ u16At fixed 8 = entries ∧ u16At fixed 10 = entries ∧
      u32At fixed 12 = centralSize ∧ u32At fixed 16 = centralStart ∧ u16At fixed 20 = 0 := by
  have hlength : fixed.length = 22 := by
    rw [h]
    exact length_endPieces
  have hfields := @fields_flatten UInt8 (endPieces entries centralSize centralStart) [] []
  rw [List.append_nil, List.nil_append, endWidths_eq, ← h] at hfields
  change fields fixed 0 endWidths = _ at hfields
  rw [fields_end, endPieces] at hfields
  simp only [List.cons.injEq, and_true] at hfields
  obtain ⟨hsignature, hdisk, hstart, hentries, htotal, hsize, hcentral, hcomment⟩ := hfields
  refine ⟨hlength, get_eq_some.mpr ⟨⟨by omega, by omega⟩, hsignature⟩, ?_⟩
  exact ⟨u16At_eq hdisk, u16At_eq hstart, u16At_eq hentries, u16At_eq htotal, u32At_eq hsize,
    u32At_eq hcentral, u16At_eq hcomment⟩

theorem endRecord_eq (hlength : fixed.length = 22) (hsignature : get fixed 0 4 = some endSignature)
    {entries : UInt16} {centralSize centralStart : UInt32} (hdisk : u16At fixed 4 = 0)
    (hstart : u16At fixed 6 = 0) (hentries : u16At fixed 8 = entries)
    (htotal : u16At fixed 10 = entries) (hsize : u32At fixed 12 = centralSize)
    (hcentral : u32At fixed 16 = centralStart) (hcomment : u16At fixed 20 = 0) :
    fixed = (endPieces entries centralSize centralStart).flatten := by
  have hall := @flatten_fields UInt8 fixed 0 endWidths
  have hsum : 0 + endWidths.sum = fixed.length := by
    rw [hlength]
    rfl
  rw [hsum, cut_zero_length, fields_end] at hall
  rw [← hall, endPieces, ← (get_eq_some.mp hsignature).2, ← hsize, ← hcentral,
    u32Bytes_u32At (by omega), u32Bytes_u32At (by omega), ← @u16Bytes_u16At fixed 4 (by omega),
    ← @u16Bytes_u16At fixed 6 (by omega), ← @u16Bytes_u16At fixed 8 (by omega),
    ← @u16Bytes_u16At fixed 10 (by omega), ← @u16Bytes_u16At fixed 20 (by omega), hdisk, hstart,
    hentries, htotal, hcomment]

end Headers

section Central

variable {bytes : Bytes} {centralEnd cursor next : Nat} {record : ZipEntryRecord}

theorem refuseCentral_bind_eq_ok {α : Type} {compression : UInt16} {condition : Bool}
    {rest : Unit → Intake α} {a : α} :
    (refuseCentral compression condition >>= rest) = .ok a ↔ condition = false ∧ rest () = .ok a :=
  refuse_bind_eq_ok

theorem parseCentralRecord_eq_ok (hend : centralEnd ≤ bytes.length) (hword : centralEnd < wordLimit) :
    parseCentralRecord bytes centralEnd cursor = .ok (record, next) ↔ ∃ e : CentralEntry,
      e.record = record ∧ cut bytes cursor next = e.centralRecord ∧
        next = cursor + e.centralRecord.length ∧ next ≤ centralEnd := by
  constructor
  · intro h
    obtain ⟨fixedEnd, hfixedEnd, h⟩ := bind_eq_ok_iff.mp h
    obtain ⟨hadd, hle⟩ := filter_le_eq_some.mp (okOr_eq_ok.mp hfixedEnd)
    obtain ⟨-, rfl⟩ := checkedAdd_eq_some.mp hadd
    obtain ⟨fixed, hfixed, h⟩ := bind_eq_ok_iff.mp h
    obtain ⟨-, hfixed⟩ := slice_eq_ok.mp hfixed
    have hlength : fixed.length = 46 := by
      rw [← hfixed, length_cut (by omega)]
      unfold centralBytes
      omega
    obtain ⟨hsignature, h⟩ := refuse_bind_eq_ok.mp h
    simp (disch := omega) only [leU16_eq, leU32_eq, pure_bind] at h
    obtain ⟨variableEnd, hvariable, h⟩ := bind_eq_ok_iff.mp h
    obtain ⟨hrefused, h⟩ := refuseCentral_bind_eq_ok.mp h
    obtain ⟨hrefused', h⟩ := refuseCentral_bind_eq_ok.mp h
    obtain ⟨nameEnd, hnameEnd, h⟩ := bind_eq_ok_iff.mp h
    obtain ⟨name, hname, h⟩ := bind_eq_ok_iff.mp h
    obtain ⟨mode, hmode, h⟩ := bind_eq_ok_iff.mp h
    cases h
    simp only [ne_eq, gt_iff_lt, decide_eq_false_iff_not, not_or, not_not, not_and, Nat.not_lt]
      at hrefused hrefused'
    obtain ⟨hflags, hcompression, hstored, hnameLen, hcompressed, hexpanded, hstart⟩ := hrefused
    obtain ⟨hdisk, hextra, hcomment⟩ := hrefused'
    obtain ⟨hvariable, hnext⟩ := filter_le_eq_some.mp (okOr_eq_ok.mp hvariable)
    rw [hextra, hcomment] at hvariable
    obtain ⟨position, hposition, hvariable⟩ := Option.bind_eq_some_iff.mp hvariable
    obtain ⟨first, hfirst, hposition⟩ := Option.bind_eq_some_iff.mp hposition
    obtain ⟨-, rfl⟩ := checkedAdd_eq_some.mp hfirst
    obtain ⟨-, rfl⟩ := checkedAdd_eq_some.mp hposition
    obtain ⟨-, rfl⟩ := checkedAdd_eq_some.mp hvariable
    obtain ⟨-, rfl⟩ := plus_eq_ok.mp hnameEnd
    obtain ⟨⟨-, hin⟩, rfl⟩ := slice_eq_ok.mp hname
    have hnameLength := @length_cut _ bytes (cursor + centralBytes) _ hin
    rw [Nat.add_sub_cancel_left] at hnameLength
    have hknown : u16At fixed 10 = 0 ∨ u16At fixed 10 = 8 := by
      by_cases hzero : u16At fixed 10 = 0
      · exact .inl hzero
      · exact .inr (hcompression hzero)
    let e : CentralEntry :=
      { name := _
        flags := _
        compression := _
        crc32 := u32At fixed 16
        compressedSize := u32At fixed 20
        expandedSize := u32At fixed 24
        localStart := u32At fixed 42
        madeBy := u16At fixed 4
        centralVersion := u16At fixed 6
        centralTime := u32At fixed 12
        internal := u16At fixed 36
        external := u32At fixed 38
        mode
        flagsKnown := hflags
        compressionKnown := hknown
        stored := fun hzero => UInt32.toNat_inj.mp (hstored hzero)
        nameFits := hnameLength ▸ hnameLen
        compressedFits := hcompressed
        expandedFits := hexpanded
        startFits := hstart
        modeKnown := hmode }
    have hname : u16At fixed 28 = UInt16.ofNat e.name.length := by
      change _ = UInt16.ofNat (cut bytes _ _).length
      rw [hnameLength, UInt16.ofNat_toNat]
    have hheader : fixed = e.centralPieces.flatten := centralHeader_eq hlength (by simpa using hsignature)
      rfl rfl rfl rfl rfl rfl rfl rfl hname (UInt16.toNat_inj.mp hextra)
      (UInt16.toNat_inj.mp hcomment) hdisk rfl rfl rfl
    have hrecord : e.centralRecord.length = centralBytes + (u16At fixed 28).toNat := by
      rw [length_centralRecord]
      exact congrArg _ hnameLength
    refine ⟨e, rfl, ?_, ?_, hnext⟩
    · rw [CentralEntry.centralRecord, ← hheader]
      change cut bytes cursor (cursor + centralBytes + (u16At fixed 28).toNat) = _
      calc _ = cut bytes cursor (cursor + centralBytes) ++ e.name :=
            (cut_append (by omega) (by omega)).symm
        _ = fixed ++ e.name := by rw [hfixed]
    · rw [hrecord]
      omega
  · rintro ⟨e, rfl, hcut, hnext, hle⟩
    rw [length_centralRecord] at hnext
    have hcursor : cursor ≤ next := by omega
    obtain ⟨hfixed, hname, -⟩ := cut_eq_append hcut hcursor (Nat.le_trans hle hend)
    rw [length_centralPieces] at hfixed hname
    obtain ⟨hlength, hsignature, hmadeBy, hflags, hcompression, hcrc, hcompressed, hexpanded, hnameLen,
      hextra, hcomment, hdisk, hexternal, hstart⟩ := centralHeader_read hfixed
    have hfits : centralBytes = 46 := rfl
    refine bind_eq_ok_iff.mpr ⟨cursor + centralBytes, okOr_eq_ok.mpr (filter_le_eq_some.mpr
      ⟨checkedAdd_eq_some.mpr ⟨by omega, rfl⟩, by omega⟩), ?_⟩
    refine bind_eq_ok_iff.mpr ⟨_, slice_eq_ok.mpr ⟨⟨by omega, by omega⟩, rfl⟩, ?_⟩
    refine refuse_bind_eq_ok.mpr ⟨by simpa using hsignature, ?_⟩
    simp (disch := omega) only [leU16_eq, leU32_eq, pure_bind]
    rw [hflags, hcompression, hcompressed, hexpanded, hnameLen, hextra, hcomment, hdisk, hstart, hcrc,
      hmadeBy, hexternal, nameLen_eq]
    have hname : cut bytes (cursor + centralBytes) (cursor + centralBytes + e.name.length) = e.name := by
      have hstop : cursor + centralBytes + e.name.length = next := by omega
      rw [hstop]
      exact hname
    refine bind_eq_ok_iff.mpr ⟨next, okOr_eq_ok.mpr (filter_le_eq_some.mpr ⟨?_, hle⟩), ?_⟩
    · refine Option.bind_eq_some_iff.mpr ⟨cursor + centralBytes + e.name.length,
        Option.bind_eq_some_iff.mpr ⟨_, checkedAdd_eq_some.mpr ⟨by omega, rfl⟩, ?_⟩, ?_⟩
      · exact checkedAdd_eq_some.mpr ⟨by change _ + 0 < _; omega, rfl⟩
      · exact checkedAdd_eq_some.mpr ⟨by change _ + 0 < _; omega, by change _ + 0 = _; omega⟩
    refine refuseCentral_bind_eq_ok.mpr ⟨?_, refuseCentral_bind_eq_ok.mpr ⟨rfl, ?_⟩⟩
    · have hnameFits := e.nameFits
      simp only [ne_eq, gt_iff_lt, decide_eq_false_iff_not, not_or, not_not, not_and, Nat.not_lt]
      exact ⟨e.flagsKnown, fun hzero => e.compressionKnown.resolve_left hzero,
        fun hzero => congrArg UInt32.toNat (e.stored hzero), hnameFits, e.compressedFits,
        e.expandedFits, e.startFits⟩
    · exact bind_eq_ok_iff.mpr ⟨_, plus_eq_ok.mpr ⟨by omega, rfl⟩, bind_eq_ok_iff.mpr ⟨e.name,
        slice_eq_ok.mpr ⟨⟨by omega, by omega⟩, hname⟩, bind_eq_ok_iff.mpr ⟨e.mode, e.modeKnown, rfl⟩⟩⟩

/-- The loop reads one record after the other. -/
theorem parseCentralLoop_eq_ok (hend : centralEnd ≤ bytes.length) (hword : centralEnd < wordLimit)
    {entries stop : Nat} {records : List ZipEntryRecord} (hcursor : cursor ≤ centralEnd) :
    parseCentralLoop bytes centralEnd entries cursor = .ok (records, stop) ↔
      ∃ es : List CentralEntry, es.length = entries ∧ es.map CentralEntry.record = records ∧
        cut bytes cursor stop = es.flatMap CentralEntry.centralRecord ∧
        stop = cursor + (es.flatMap CentralEntry.centralRecord).length ∧ stop ≤ centralEnd := by
  induction entries generalizing cursor records with
  | zero =>
    rw [parseCentralLoop]
    constructor
    · intro h
      cases h
      exact ⟨[], rfl, rfl, cut_self, rfl, hcursor⟩
    · rintro ⟨es, hlength, rfl, -, hstop, -⟩
      rw [List.length_eq_zero_iff] at hlength
      subst hlength
      rw [hstop]
      rfl
  | succ entries ih =>
    rw [parseCentralLoop, bind_eq_ok_iff]
    constructor
    · rintro ⟨⟨record, next⟩, hrecord, h⟩
      obtain ⟨⟨rest, stop'⟩, hrest, h⟩ := bind_eq_ok_iff.mp h
      cases h
      obtain ⟨e, rfl, hcut, hnext, hle⟩ := (parseCentralRecord_eq_ok hend hword).mp hrecord
      obtain ⟨es, hlength, rfl, hcuts, hstop, hstopLe⟩ := (ih hle).mp hrest
      refine ⟨e :: es, congrArg _ hlength, rfl, ?_, ?_, hstopLe⟩
      · rw [List.flatMap_cons, ← hcut, ← hcuts, cut_append (by omega) (by omega)]
      · rw [List.flatMap_cons, List.length_append]
        omega
    · rintro ⟨es, hlength, rfl, hcut, hstop, hle⟩
      cases es with
      | nil => contradiction
      | cons e es =>
        rw [List.flatMap_cons, List.length_append] at hstop
        rw [List.flatMap_cons] at hcut
        obtain ⟨hfirst, hrest, hnext⟩ := cut_eq_append hcut (by omega) (by omega)
        refine ⟨(e.record, cursor + e.centralRecord.length), (parseCentralRecord_eq_ok hend hword).mpr
          ⟨e, rfl, hfirst, rfl, by omega⟩, bind_eq_ok_iff.mpr ⟨(es.map CentralEntry.record, stop),
            (ih (by omega)).mpr ⟨es, Nat.succ.inj hlength, rfl, hrest, by omega, hle⟩, rfl⟩⟩

theorem parseCentralRecords_eq_ok {zipEnd : ZipEndRecord} {records : List ZipEntryRecord}
    (hend : zipEnd.centralEnd ≤ bytes.length) (hword : zipEnd.centralEnd < wordLimit)
    (hstart : zipEnd.centralStart ≤ zipEnd.centralEnd) :
    parseCentralRecords bytes zipEnd = .ok records ↔ ∃ es : List CentralEntry,
      es.length = zipEnd.entries ∧ es.map CentralEntry.record = records ∧
        cut bytes zipEnd.centralStart zipEnd.centralEnd = es.flatMap CentralEntry.centralRecord := by
  unfold parseCentralRecords
  rw [bind_eq_ok_iff]
  constructor
  · rintro ⟨⟨records', cursor⟩, hloop, h⟩
    obtain ⟨hcursor, h⟩ := refuse_bind_eq_ok.mp h
    cases h
    rw [decide_eq_false_iff_not, ne_eq, not_not] at hcursor
    obtain ⟨es, hlength, hrecords, hcut, -⟩ := (parseCentralLoop_eq_ok hend hword hstart).mp hloop
    exact ⟨es, hlength, hrecords, hcursor ▸ hcut⟩
  · rintro ⟨es, hlength, hrecords, hcut⟩
    have hsize := @length_cut _ bytes zipEnd.centralStart _ hend
    rw [hcut] at hsize
    refine ⟨(records, zipEnd.centralEnd), (parseCentralLoop_eq_ok hend hword hstart).mpr
      ⟨es, hlength, hrecords, hcut, by omega, Nat.le_refl _⟩, refuse_bind_eq_ok.mpr ⟨by simp, rfl⟩⟩

theorem parseCentralRecord_safe (hend : centralEnd ≤ bytes.length) :
    Safe (parseCentralRecord bytes centralEnd cursor) := by
  unfold parseCentralRecord
  refine safe_okOr.bind fun fixedEnd hfixedEnd => ?_
  obtain ⟨hadd, hle⟩ := filter_le_eq_some.mp (okOr_eq_ok.mp hfixedEnd)
  obtain ⟨-, rfl⟩ := checkedAdd_eq_some.mp hadd
  refine (safe_slice (by omega) (by omega)).bind fun fixed hfixed => safe_refuse.bind fun _ _ => ?_
  obtain ⟨-, hfixed⟩ := slice_eq_ok.mp hfixed
  have hlength : fixed.length = 46 := by
    rw [← hfixed, length_cut (by omega)]
    unfold centralBytes
    omega
  simp (disch := omega) only [leU16_eq, leU32_eq, pure_bind]
  refine safe_okOr.bind fun variableEnd hvariable => safe_refuse.bind fun _ _ =>
    safe_refuse.bind fun _ _ => ?_
  obtain ⟨hvariable, hnext⟩ := filter_le_eq_some.mp (okOr_eq_ok.mp hvariable)
  obtain ⟨position, hposition, hvariable⟩ := Option.bind_eq_some_iff.mp hvariable
  obtain ⟨first, hfirst, hposition⟩ := Option.bind_eq_some_iff.mp hposition
  obtain ⟨hsum, rfl⟩ := checkedAdd_eq_some.mp hfirst
  obtain ⟨-, rfl⟩ := checkedAdd_eq_some.mp hposition
  obtain ⟨-, rfl⟩ := checkedAdd_eq_some.mp hvariable
  refine (safe_plus hsum).bind fun nameEnd hnameEnd => ?_
  obtain ⟨-, rfl⟩ := plus_eq_ok.mp hnameEnd
  refine (safe_slice (by omega) (by omega)).bind fun name _ => ?_
  refine Safe.bind ?_ fun mode _ => safe_pure
  unfold zipEntryMode
  refine Safe.ite (fun _ => safe_pure) fun _ => Safe.ite (fun _ => ?_) fun _ => safe_refused
  exact safe_refuse.bind fun _ _ => safe_pure

theorem parseCentralLoop_safe (hend : centralEnd ≤ bytes.length) {entries : Nat} : Safe (parseCentralLoop bytes centralEnd entries cursor) := by
  induction entries generalizing cursor with
  | zero => exact safe_pure
  | succ entries ih =>
    exact (parseCentralRecord_safe hend).bind fun _ _ => ih.bind fun _ _ => safe_pure

end Central

end Kitrove
