import Kitrove.Git.Parsing

/-! An advertisement is accepted exactly when it follows its grammar within the limits, and packets
are read back as they were encoded. -/

namespace Kitrove.Git

open Slices

variable {ObjectId : Type} {fromHex : Bytes → Option ObjectId} {input : Bytes}
  {leading : AdvertisementPrefix} {maxBytes : UInt64} {budget : GitBudget}

section Grammar

variable (fromHex input leading) in
/-- The packets of an advertisement: the prefix, the records with distinct well-formed names, the
first one with distinct well-formed capabilities of the supported format, and a flush. -/
structure AdvertisementGrammar (datas : List Bytes) (refs : List AdvertisedRef)
    (capabilities : List Bytes) : Prop where
  frames : Frames (prefixPackets leading ++ recordPackets datas) input
  records : Records datas refs capabilities
  refsFormed : ∀ ref ∈ refs, ref.WellFormed fromHex
  names : (refs.map AdvertisedRef.name).Nodup
  capabilitiesFormed : ∀ capability ∈ capabilities, WellFormedCapability capability
  distinct : capabilities.Nodup
  format : ∀ capability ∈ capabilities, objectFormatPrefix <+: capability →
    capability = ascii "object-format=sha1"

/-- What the grammar leaves of a budget it fits into. -/
structure WithinBudget (input : Bytes) (maxBytes : UInt64) (packets refs : Nat)
    (budget left : GitBudget) : Prop where
  bytes : input.length ≤ maxBytes.toNat
  packetLines : left.remainingPacketLines + packets = budget.remainingPacketLines
  advertisedRefs : left.remainingAdvertisedRefs + refs = budget.remainingAdvertisedRefs

theorem foreignFormat_false {capability : Bytes} : foreignFormat capability = false ↔
    (objectFormatPrefix <+: capability → capability = ascii "object-format=sha1") := by
  rw [foreignFormat, Bool.and_eq_false_imp, List.isPrefixOf_iff_prefix, bne_eq_false_iff_eq]

theorem finishAdvertisement_eq_ok {cursor : PacketCursor} {state : AdvertisementState ObjectId}
    {advertisement : Advertisement ObjectId} {left : GitBudget} :
    finishAdvertisement input cursor state = .ok (advertisement, left) ↔
      cursor.offset = input.length ∧
        (∀ capability ∈ state.capabilities, foreignFormat capability = false) ∧
        advertisement = ⟨state.selected, state.capabilities⟩ ∧
        left = ⟨cursor.remainingRecords, state.remainingAdvertisedRefs⟩ := by
  unfold finishAdvertisement
  rw [Except.bind_eq_ok_iff]
  constructor
  · rintro ⟨⟨packet, after⟩, hnext, h⟩
    cases packet with
    | some packet => exact (nomatch h)
    | none =>
      obtain ⟨hend, rfl⟩ := next_eq_none.mp hnext
      dsimp only [Option.isSome_none] at h
      rw [if_neg Bool.false_ne_true] at h
      split at h
      · exact (nomatch h)
      · rename_i hformats
        cases h
        refine ⟨hend, fun capability hmem => ?_, rfl, rfl⟩
        exact Bool.eq_false_iff.mpr fun hforeign => hformats ⟨capability, hmem, hforeign⟩
  · rintro ⟨hend, hformats, rfl, rfl⟩
    refine ⟨(none, cursor), next_eq_none.mpr ⟨hend, rfl⟩, ?_⟩
    dsimp only [Option.isSome_none]
    rw [if_neg Bool.false_ne_true, if_neg]
    · rfl
    · rintro ⟨capability, hmem, hforeign⟩
      rw [hformats capability hmem] at hforeign
      exact Bool.false_ne_true hforeign

theorem finishAdvertisement_safe {cursor : PacketCursor} {state : AdvertisementState ObjectId}
    (hinput : input.length < wordLimit) (hoffset : cursor.offset ≤ input.length) :
    Safe (finishAdvertisement input cursor state) :=
  Safe.bind (next_safe hinput hoffset) fun _ _ => Safe.ite (fun _ => safe_refused) fun _ =>
    Safe.ite (fun _ => safe_refused) fun _ => safe_pure

theorem input_lt (h : input.length ≤ maxBytes.toNat) : input.length < wordLimit :=
  Nat.lt_of_le_of_lt h maxBytes.toNat_lt

/-- The parser accepts what follows the grammar, and nothing else. -/
theorem parsePrefixedAdvertisement_eq_ok {advertisement : Advertisement ObjectId} {left : GitBudget} :
    parsePrefixedAdvertisement fromHex input leading maxBytes budget = .ok (advertisement, left) ↔
      ∃ datas refs capabilities, AdvertisementGrammar fromHex input leading datas refs capabilities ∧
        WithinBudget input maxBytes (prefixPackets leading ++ recordPackets datas).length refs.length
          budget left ∧
        advertisement = ⟨headOf fromHex refs, capabilities.toFinset⟩ := by
  unfold parsePrefixedAdvertisement
  split
  · rename_i hlarge
    refine iff_of_false nofun ?_
    rintro ⟨datas, refs, capabilities, -, hbudget, -⟩
    exact Nat.not_le.mpr hlarge hbudget.bytes
  · rename_i hsmall
    have hbytes := Nat.not_lt.mp hsmall
    have hinput := input_lt hbytes
    rw [Except.bind_eq_ok_iff]
    constructor
    · rintro ⟨cursor, hopens, h⟩
      obtain ⟨hleading, -, hoffset, hlines⟩ := (expectPrefix_eq_ok hinput (Nat.zero_le _)).mp hopens
      obtain ⟨⟨after, state⟩, hloop, hfinish⟩ := Except.bind_eq_ok_iff.mp h
      obtain ⟨datas, hframes, hle, -, hcount, hrun⟩ :=
        (advertisementLoop_eq_ok hinput hoffset (by omega)).mp hloop
      obtain ⟨hroom, refs, capabilities, hrecords, hrefs, hnames, hwords, hdistinct, rfl⟩ :=
        takeDatas_eq_ok.mp hrun
      obtain ⟨hend, hformats, rfl, rfl⟩ := finishAdvertisement_eq_ok.mp hfinish
      dsimp only at hlines hend hformats ⊢
      have hlength : refs.length = datas.length := by
        cases hrecords with
        | none => rfl
        | some _ _ hlines => rw [List.length_cons, List.length_cons, hlines.length_eq]
      refine ⟨datas, refs, capabilities, ⟨?_, hrecords, hrefs, hnames, hwords, hdistinct, ?_⟩,
        ⟨hbytes, ?_, ?_⟩, rfl⟩
      · rw [← @cut_zero_length _ input, ← hend, ← cut_append (Nat.zero_le _) hle]
        exact hleading.append hframes
      · exact fun capability hmem =>
          foreignFormat_false.mp (hformats capability (List.mem_toFinset.mpr hmem))
      · rw [List.length_append]
        dsimp only
        omega
      · dsimp only
        omega
    · rintro ⟨datas, refs, capabilities, hgrammar, hbudget, rfl⟩
      obtain ⟨pre, rest, rfl, hpre, hrest⟩ := frames_append_iff.mp hgrammar.frames
      obtain ⟨-, hpackets, hadvertised⟩ := hbudget
      rw [List.length_append] at hpackets
      have hlength : refs.length = datas.length := by
        cases hgrammar.records with
        | none => rfl
        | some _ _ hlines => rw [List.length_cons, List.length_cons, hlines.length_eq]
      have hcut : Slices.cut (pre ++ rest) 0 pre.length = pre := by
        rw [Slices.cut, List.drop_zero, Nat.sub_zero, List.take_left]
      have hcut' : Slices.cut (pre ++ rest) pre.length (pre ++ rest).length = rest := by
        rw [Slices.cut, List.drop_left, List.length_append, Nat.add_sub_cancel_left, List.take_length]
      have hle : pre.length ≤ (pre ++ rest).length := by
        rw [List.length_append]
        omega
      refine ⟨⟨pre.length, left.remainingPacketLines + (recordPackets datas).length⟩,
        (expectPrefix_eq_ok hinput (Nat.zero_le _)).mpr ⟨?_, Nat.zero_le _, hle, ?_⟩,
        Except.bind_eq_ok_iff.mpr ⟨(⟨(pre ++ rest).length, left.remainingPacketLines⟩, _),
          (advertisementLoop_eq_ok hinput hle (by dsimp only; omega)).mpr
            ⟨datas, ?_, hle, Nat.le_refl _, rfl, takeDatas_eq_ok.mpr
              ⟨by omega, refs, capabilities, hgrammar.records, hgrammar.refsFormed, hgrammar.names,
                hgrammar.capabilitiesFormed, hgrammar.distinct, rfl⟩⟩,
          finishAdvertisement_eq_ok.mpr ⟨rfl, fun capability hmem => ?_, rfl, ?_⟩⟩⟩
      · rwa [hcut]
      · dsimp only
        omega
      · rwa [hcut']
      · exact foreignFormat_false.mpr (hgrammar.format capability (List.mem_toFinset.mp hmem))
      · dsimp only
        have hleft : budget.remainingAdvertisedRefs - datas.length = left.remainingAdvertisedRefs := by
          omega
        rw [hleft]

theorem parsePrefixedAdvertisement_safe :
    Safe (parsePrefixedAdvertisement fromHex input leading maxBytes budget) := by
  refine Safe.ite (fun _ => safe_refused) fun hsmall => ?_
  have hinput := input_lt (Nat.not_lt.mp hsmall)
  refine Safe.bind (expectPrefix_safe hinput (Nat.zero_le _)) fun cursor hopens => ?_
  obtain ⟨-, -, hoffset, -⟩ := (expectPrefix_eq_ok hinput (Nat.zero_le _)).mp hopens
  refine Safe.bind (advertisementLoop_safe hinput hoffset (by omega)) fun ⟨after, state⟩ hloop => ?_
  obtain ⟨datas, -, -, hend, -⟩ := (advertisementLoop_eq_ok hinput hoffset (by omega)).mp hloop
  exact finishAdvertisement_safe hinput hend

end Grammar

section Encoding

variable {payloads : List Bytes}

def lineBytes (payload : Bytes) : Bytes := hexPadded 4 (payload.length + 4) ++ payload

theorem lineBytes_framed {payload : Bytes} (h : payload.length + 4 ≤ maxPacketLineBytes) :
    Framed (.data payload) (lineBytes payload) := by
  refine .data length_hexPadded (hexPadded_number ?_) h
  have hlimit : maxPacketLineBytes < 16 ^ 4 := by decide
  omega

theorem encodePacketLines_eq_ok (h : ∀ payload ∈ payloads, payload.length + 4 ≤ maxPacketLineBytes) :
    encodePacketLines payloads = .ok (payloads.map lineBytes).flatten := by
  have hrun (output : Bytes) :
      payloads.foldlM (fun output payload => encodePacketLine payload output) output =
        .ok (output ++ (payloads.map lineBytes).flatten) := by
    induction payloads generalizing output with
    | nil =>
      rw [List.map_nil, List.flatten_nil, List.append_nil]
      rfl
    | cons payload payloads ih =>
      obtain ⟨hfits, hrest⟩ := List.forall_mem_cons.mp h
      have hword : payload.length + 4 < wordLimit := by
        have hlimit : maxPacketLineBytes < wordLimit := by decide
        omega
      have hline : encodePacketLine payload output = .ok (output ++ lineBytes payload) := by
        unfold encodePacketLine
        rw [checkedAdd_eq_some.mpr ⟨hword, rfl⟩]
        change (if payload.length + 4 > maxPacketLineBytes then _ else _) = _
        rw [if_neg (Nat.not_lt.mpr hfits), lineBytes, ← List.append_assoc]
        rfl
      rw [List.foldlM_cons, hline]
      change payloads.foldlM _ (output ++ lineBytes payload) = _
      rw [ih hrest, List.map_cons, List.flatten_cons, List.append_assoc]
  exact hrun []

theorem lines_frames (h : ∀ payload ∈ payloads, payload.length + 4 ≤ maxPacketLineBytes) :
    Frames (payloads.map PacketLine.data) (payloads.map lineBytes).flatten := by
  induction payloads with
  | nil => exact .nil
  | cons payload payloads ih =>
    obtain ⟨hfits, hrest⟩ := List.forall_mem_cons.mp h
    exact .cons (lineBytes_framed hfits) (ih hrest)

/-- Where frames stand up to the end, the cursor reads their packets. -/
theorem readPackets_eq_ok {packets : List PacketLine} {cursor : PacketCursor} {fuel : Nat}
    (hinput : input.length < wordLimit) (hoffset : cursor.offset ≤ input.length)
    (hfuel : input.length - cursor.offset < fuel) (hcount : packets.length ≤ cursor.remainingRecords)
    (h : Frames packets (Slices.cut input cursor.offset input.length)) :
    readPackets input fuel cursor = .ok packets := by
  induction fuel generalizing cursor packets with
  | zero => exact absurd hfuel (Nat.not_lt_zero _)
  | succ fuel ih =>
    have hlength := @length_cut _ input cursor.offset _ (Nat.le_refl _)
    rw [readPackets]
    generalize hwhole : Slices.cut input cursor.offset input.length = bytes at h
    cases h with
    | nil =>
      rw [hwhole, List.length_nil] at hlength
      have hend : cursor.offset = input.length := by omega
      rw [next_eq_none.mpr ⟨hend, rfl⟩]
      rfl
    | @cons packet packets frame rest hframe hrest =>
      obtain ⟨hhead, htail, hmid⟩ := cut_eq_append hwhole hoffset (Nat.le_refl _)
      have hfour := hframe.length
      rw [List.length_cons] at hcount
      have hnext : cursor.next input = .ok (some packet,
          ⟨cursor.offset + frame.length, cursor.remainingRecords - 1⟩) := by
        refine (next_eq_some hinput hoffset).mpr ⟨?_, ?_, hmid, ?_⟩
        · dsimp only
          rwa [hhead]
        · dsimp only
          omega
        · dsimp only
          omega
      rw [hnext]
      change (readPackets input fuel _ >>= fun packets => pure (packet :: packets)) = _
      refine Except.bind_eq_ok_iff.mpr ⟨packets, ih hmid ?_ ?_ ?_, rfl⟩
      · dsimp only
        omega
      · dsimp only
        omega
      · dsimp only
        rwa [htail]

/-- Encoded payloads are read back, where the sum of their lines is one that memory can hold. -/
theorem readPackets_encoded {output : Bytes} {remaining : Nat}
    (h : ∀ payload ∈ payloads, payload.length + 4 ≤ maxPacketLineBytes)
    (hcount : payloads.length ≤ remaining) (houtput : encodePacketLines payloads = .ok output)
    (hword : output.length < wordLimit) :
    readPackets output (output.length + 1) ⟨0, remaining⟩ = .ok (payloads.map PacketLine.data) := by
  rw [encodePacketLines_eq_ok h] at houtput
  cases houtput
  refine readPackets_eq_ok hword (Nat.zero_le _) (by dsimp only; omega) ?_ ?_
  · rwa [List.length_map]
  · dsimp only
    rw [cut_zero_length]
    exact lines_frames h

end Encoding

/-- An input has one head by the grammar, whatever its reading. -/
theorem headOf_unique {datas datas' : List Bytes} {refs refs' : List AdvertisedRef}
    {capabilities capabilities' : List Bytes} (hbytes : input.length ≤ maxBytes.toNat)
    (h : AdvertisementGrammar fromHex input leading datas refs capabilities)
    (h' : AdvertisementGrammar fromHex input leading datas' refs' capabilities') :
    headOf fromHex refs = headOf fromHex refs' := by
  have hparse {datas : List Bytes} {refs : List AdvertisedRef} {capabilities : List Bytes}
      (budget : GitBudget) (h : AdvertisementGrammar fromHex input leading datas refs capabilities)
      (hlines : (prefixPackets leading ++ recordPackets datas).length ≤ budget.remainingPacketLines)
      (hrefs : refs.length ≤ budget.remainingAdvertisedRefs) :
      ∃ left, parsePrefixedAdvertisement fromHex input leading maxBytes budget =
        .ok (⟨headOf fromHex refs, capabilities.toFinset⟩, left) :=
    ⟨⟨_, _⟩, parsePrefixedAdvertisement_eq_ok.mpr ⟨datas, refs, capabilities, h,
      ⟨hbytes, Nat.sub_add_cancel hlines, Nat.sub_add_cancel hrefs⟩, rfl⟩⟩
  obtain ⟨left, hleft⟩ := hparse
    ⟨(prefixPackets leading ++ recordPackets datas).length +
      (prefixPackets leading ++ recordPackets datas').length, refs.length + refs'.length⟩ h
    (Nat.le_add_right _ _) (Nat.le_add_right _ _)
  obtain ⟨left', hleft'⟩ := hparse
    ⟨(prefixPackets leading ++ recordPackets datas).length +
      (prefixPackets leading ++ recordPackets datas').length, refs.length + refs'.length⟩ h'
    (Nat.le_add_left _ _) (Nat.le_add_left _ _)
  have hsame := Except.ok.inj (hleft.symm.trans hleft')
  exact congrArg (fun result => result.1.selected) hsame

/-- No input makes the parser read out of range; it accepts exactly the grammar within the limits and
selects the head of the fixed reference. Encoded packets are read back. -/
theorem git_advertisement_exact (fromHex : Bytes → Option ObjectId) (input : Bytes)
    (leading : AdvertisementPrefix) (maxBytes : UInt64) (budget : GitBudget) :
    (∀ fault, parsePrefixedAdvertisement fromHex input leading maxBytes budget = .error fault →
      ∃ e, fault = .refused e) ∧
    (∀ advertisement left,
      parsePrefixedAdvertisement fromHex input leading maxBytes budget = .ok (advertisement, left) ↔
        ∃ datas refs capabilities,
          AdvertisementGrammar fromHex input leading datas refs capabilities ∧
          WithinBudget input maxBytes (prefixPackets leading ++ recordPackets datas).length
            refs.length budget left ∧
          advertisement = ⟨headOf fromHex refs, capabilities.toFinset⟩) ∧
    (∀ advertisement left datas refs capabilities,
      parsePrefixedAdvertisement fromHex input leading maxBytes budget = .ok (advertisement, left) →
        AdvertisementGrammar fromHex input leading datas refs capabilities → ∀ id,
          advertisement.selected = some id ↔
            ∃ ref ∈ refs, ref.name = fixedRef ∧ fromHex ref.oid = some id) ∧
    ∀ (payloads : List Bytes) (remaining : Nat),
      (∀ payload ∈ payloads, payload.length + 4 ≤ maxPacketLineBytes) → payloads.length ≤ remaining →
        ∃ output, encodePacketLines payloads = .ok output ∧ (output.length < wordLimit →
          readPackets output (output.length + 1) ⟨0, remaining⟩ =
            .ok (payloads.map PacketLine.data)) := by
  refine ⟨parsePrefixedAdvertisement_safe, fun advertisement left => parsePrefixedAdvertisement_eq_ok,
    fun advertisement left datas refs capabilities hparse hgrammar id => ?_,
    fun payloads remaining hfits hcount => ?_⟩
  · obtain ⟨datas', refs', capabilities', hgrammar', hbudget, rfl⟩ :=
      parsePrefixedAdvertisement_eq_ok.mp hparse
    dsimp only
    rw [headOf_unique hbudget.bytes hgrammar' hgrammar, headOf_eq_some hgrammar.names]
  · exact ⟨_, encodePacketLines_eq_ok hfits,
      readPackets_encoded hfits hcount (encodePacketLines_eq_ok hfits)⟩

/-- A remote whose one reference is the fixed one. -/
example : parsePrefixedAdvertisement (fun hex => if hex = absentOid then none else some hex)
    (hexPadded 4 81 ++ List.replicate 40 0x31 ++ 0x20 :: fixedRef ++ 0 :: ascii "ofs-delta" ++
      ascii "0000") .ssh 4096 ⟨2, 1⟩ =
    .ok (⟨some (List.replicate 40 0x31), {ascii "ofs-delta"}⟩, ⟨0, 0⟩) := by decide +kernel

end Kitrove.Git
