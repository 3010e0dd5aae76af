import Kitrove.Receipts.Claims
import Mathlib.Data.List.Nodup

/-! Every record of an envelope is on exactly one side of the inspection, and on the same side
wherever it stands. -/

namespace Kitrove

open Std Except

instance {a b : InspectedReceipt} : Decidable (ConflictingClaims a b) :=
  inferInstanceAs (Decidable (_ ∧ _))

section Placement

variable (json : StateJson) (blake3 : Bytes → Digest)

/-- The receipts that are valid on their own. -/
def ownValid (records : List RawReceiptRecord) : List InspectedReceipt :=
  records.filterMap fun record => (inspectRecord json blake3 record).getRight?

/-- The side of a record among the others: invalid on its own, in conflict with another receipt
that is valid on its own, or valid. -/
def placeRecord (records : List RawReceiptRecord) (record : RawReceiptRecord) :
    InvalidReceipt ⊕ InspectedReceipt :=
  match inspectRecord json blake3 record with
  | .inl invalid => .inl invalid
  | .inr a =>
    if ∃ b ∈ ownValid json blake3 records, b ≠ a ∧ ConflictingClaims a b then
      .inl (conflictingReceipt a)
    else .inr a

variable {json blake3} {records others : List RawReceiptRecord} {record : RawReceiptRecord}
  {a : InspectedReceipt}

theorem placeRecord_perm (h : others.Perm records) :
    placeRecord json blake3 others record = placeRecord json blake3 records record := by
  unfold placeRecord
  have hmem : ∀ b, b ∈ ownValid json blake3 others ↔ b ∈ ownValid json blake3 records :=
    fun b => (h.filterMap _).mem_iff
  simp only [hmem]

theorem mem_ownValid : a ∈ ownValid json blake3 records ↔
    ∃ record ∈ records, inspectRecord json blake3 record = .inr a := by
  simp only [ownValid, List.mem_filterMap, Sum.getRight?_eq_some_iff]

theorem bytes_of_parse {key : Bytes} {id : ReceiptId} (h : Name.parse .receipt key = some id) :
    id.bytes = key := by
  unfold Name.parse at h
  split at h
  · cases h
    rfl
  · contradiction

/-- A side whose receipt has a key as its identity, or no other one. -/
def KeyedBy (key : Bytes) : InvalidReceipt ⊕ InspectedReceipt → Prop
  | .inl i => ∀ id, i.receiptId = some id → id.bytes = key
  | .inr a => a.receiptId.bytes = key

theorem invalidRecord_keyed {key : Bytes} {scope : ReceiptInvalidityScope} :
    KeyedBy key (invalidRecord (Name.parse .receipt key) scope) := fun _ => bytes_of_parse

theorem inspectReceipt_keyed {key raw : Bytes} : KeyedBy key (inspectReceipt json blake3 key raw) := by
  unfold inspectReceipt
  dsimp only
  split
  · rename_i receipt stored _ hstored
    split
    · split
      · exact invalidRecord_keyed
      · exact bytes_of_parse hstored
    · exact invalidRecord_keyed
  · exact invalidRecord_keyed

theorem inspectRecord_keyed : KeyedBy record.key (inspectRecord json blake3 record) := by
  unfold inspectRecord
  split
  · exact inspectReceipt_keyed
  · exact invalidRecord_keyed

theorem inspectRecord_key (h : inspectRecord json blake3 record = .inr a) :
    a.receiptId.bytes = record.key := by
  have hkeyed := @inspectRecord_keyed json blake3 record
  rwa [h] at hkeyed

theorem placeRecord_inr : placeRecord json blake3 records record = .inr a ↔
    inspectRecord json blake3 record = .inr a ∧
      ∀ b ∈ ownValid json blake3 records, b ≠ a → ¬ ConflictingClaims a b := by
  unfold placeRecord
  split
  · rename_i invalid h
    rw [h]
    exact ⟨nofun, fun h => nomatch h.1⟩
  · rename_i a' h
    rw [h]
    split
    · rename_i hconflict
      obtain ⟨b, hb, hne, hclash⟩ := hconflict
      refine ⟨nofun, ?_⟩
      rintro ⟨heq, hnone⟩
      cases heq
      exact absurd hclash (hnone b hb hne)
    · rename_i hnone
      constructor
      · intro heq
        cases heq
        exact ⟨rfl, fun b hb hne hclash => hnone ⟨b, hb, hne, hclash⟩⟩
      · rintro ⟨heq, -⟩
        exact heq

theorem placeRecord_keyed : KeyedBy record.key (placeRecord json blake3 records record) := by
  have hkeyed := @inspectRecord_keyed json blake3 record
  unfold placeRecord
  split
  · rename_i invalid h
    rwa [h] at hkeyed
  · rename_i a h
    rw [h] at hkeyed
    split
    · intro id hid
      cases hid
      exact hkeyed
    · exact hkeyed

/-- Records with different keys have receipts with different identities. -/
theorem nodup_ownValid (hkeys : (records.map RawReceiptRecord.key).Nodup) :
    ((ownValid json blake3 records).map InspectedReceipt.receiptId).Nodup := by
  induction records with
  | nil => exact List.nodup_nil
  | cons record records ih =>
    obtain ⟨hnew, hkeys⟩ := List.nodup_cons.mp hkeys
    rw [ownValid, List.filterMap_cons]
    cases hinspect : inspectRecord json blake3 record with
    | inl invalid => exact ih hkeys
    | inr a =>
      refine List.nodup_cons.mpr ⟨fun hmem => ?_, ih hkeys⟩
      obtain ⟨b, hb, hid⟩ := List.mem_map.mp hmem
      obtain ⟨other, hother, hinspect'⟩ := mem_ownValid.mp hb
      refine hnew (List.mem_map.mpr ⟨other, hother, ?_⟩)
      rw [← inspectRecord_key hinspect', hid, inspectRecord_key hinspect]

end Placement

section Sides

variable {α β γ : Type} {f : α → β ⊕ γ} {g : γ → β} {p : γ → Prop} [DecidablePred p] {xs : List α}

/-- What is on the right side is moved to the left one where it has to be. -/
def moveSide (g : γ → β) (p : γ → Prop) [DecidablePred p] : β ⊕ γ → β ⊕ γ
  | .inl b => .inl b
  | .inr c => if p c then .inl (g c) else .inr c

theorem filterMap_moved_perm :
    (xs.filterMap (fun x => (f x).getLeft?) ++
      ((xs.filterMap fun x => (f x).getRight?).filter (fun c => p c)).map g).Perm
      (xs.filterMap fun x => (moveSide g p (f x)).getLeft?) := by
  induction xs with
  | nil => exact .refl _
  | cons x xs ih =>
    simp only [List.filterMap_cons]
    cases f x with
    | inl b => exact ih.cons b
    | inr c =>
      by_cases h : p c
      · simp only [moveSide, Sum.getLeft?_inr, Sum.getRight?_inr, if_pos h, Sum.getLeft?_inl]
        rw [List.filter_cons, if_pos (decide_eq_true h), List.map_cons]
        exact List.perm_middle.trans (ih.cons (g c))
      · simp only [moveSide, Sum.getLeft?_inr, Sum.getRight?_inr, if_neg h]
        rw [List.filter_cons, if_neg (by rwa [decide_eq_true_eq])]
        exact ih

theorem filterMap_kept :
    (xs.filterMap fun x => (f x).getRight?).filter (fun c => ¬ p c) =
      xs.filterMap fun x => (moveSide g p (f x)).getRight? := by
  rw [List.filter_filterMap]
  refine List.filterMap_congr fun x _ => ?_
  cases f x with
  | inl b => rfl
  | inr c => by_cases h : p c <;> simp [moveSide, h]

end Sides

section Envelope

variable {json : StateJson} {blake3 : Bytes → Digest} {maxReceipts maxReceiptBytes : Nat}

theorem readReceiptMap_keys {members : List (Bytes × Bytes)} {seen : List Bytes}
    {records all : List RawReceiptRecord} (hseen : ∀ record ∈ records, record.key ∈ seen)
    (hkeys : (records.map RawReceiptRecord.key).Nodup)
    (h : readReceiptMap maxReceipts maxReceiptBytes members seen records = some all) :
    (all.map RawReceiptRecord.key).Nodup := by
  induction members generalizing seen records with
  | nil =>
    cases h
    exact hkeys
  | cons member members ih =>
    obtain ⟨key, raw⟩ := member
    rw [readReceiptMap] at h
    by_cases hduplicate : seen.contains key = true
    · rw [if_pos hduplicate] at h
      contradiction
    rw [if_neg hduplicate] at h
    by_cases hmany : maxReceipts ≤ records.length
    · rw [if_pos hmany] at h
      contradiction
    rw [if_neg hmany] at h
    refine ih ?_ ?_ h
    · intro record hrecord
      rcases List.mem_append.mp hrecord with hrecord | hrecord
      · exact List.mem_cons_of_mem _ (hseen record hrecord)
      · rw [List.mem_singleton.mp hrecord]
        exact List.mem_cons_self
    · rw [List.map_append, List.nodup_append]
      refine ⟨hkeys, List.nodup_singleton _, ?_⟩
      intro k hk k' hk' heq
      rw [List.map_singleton, List.mem_singleton] at hk'
      obtain ⟨record, hrecord, hrecordKey⟩ := List.mem_map.mp hk
      have hmem := hseen record hrecord
      rw [hrecordKey, heq, hk'] at hmem
      exact hduplicate (List.contains_iff_mem.mpr hmem)

/-- What has been read of the receipts has no key twice. -/
def EnvelopeFields.KeysDistinct (fields : EnvelopeFields) : Prop :=
  ∀ records, fields.receipts = some records → (records.map RawReceiptRecord.key).Nodup

theorem visitEnvelopeField_keys {fields next : EnvelopeFields} {key raw : Bytes}
    (hfields : fields.KeysDistinct)
    (h : visitEnvelopeField json maxReceipts maxReceiptBytes fields key raw = some next) :
    next.KeysDistinct := by
  unfold visitEnvelopeField at h
  split at h
  · cases h
    exact hfields
  split at h
  · cases h
    exact hfields
  split at h
  · cases h
    exact hfields
  split at h
  · obtain ⟨members, -, h⟩ := Option.bind_eq_some_iff.mp h
    obtain ⟨records, hrecords, h⟩ := Option.bind_eq_some_iff.mp h
    cases h
    intro all hall
    cases hall
    have hseen : ∀ record ∈ ([] : List RawReceiptRecord), record.key ∈ ([] : List Bytes) :=
      fun _ h => absurd h List.not_mem_nil
    exact readReceiptMap_keys hseen List.nodup_nil hrecords
  split at h
  · cases h
    exact hfields
  split at h
  · cases h
    exact hfields
  split at h
  · cases h
    exact hfields
  · contradiction

theorem readEnvelopeFields_keys {members : List (Bytes × Bytes)} {seen : List Bytes}
    {fields last : EnvelopeFields} (hfields : fields.KeysDistinct)
    (h : readEnvelopeFields json maxReceipts maxReceiptBytes members seen fields = some last) :
    last.KeysDistinct := by
  induction members generalizing seen fields with
  | nil =>
    cases h
    exact hfields
  | cons member members ih =>
    obtain ⟨key, raw⟩ := member
    rw [readEnvelopeFields] at h
    by_cases hduplicate : seen.contains key = true
    · rw [if_pos hduplicate] at h
      contradiction
    rw [if_neg hduplicate] at h
    obtain ⟨next, hnext, h⟩ := Option.bind_eq_some_iff.mp h
    exact ih (visitEnvelopeField_keys hfields hnext) h

theorem readEnvelope_keys {input : Bytes} {envelope : RawEnvelope}
    (h : readEnvelope json maxReceipts maxReceiptBytes input = some envelope) :
    (envelope.receipts.map RawReceiptRecord.key).Nodup := by
  obtain ⟨members, -, h⟩ := Option.bind_eq_some_iff.mp h
  obtain ⟨fields, hfields, h⟩ := Option.bind_eq_some_iff.mp h
  obtain ⟨schemaVersion, -, h⟩ := Option.bind_eq_some_iff.mp h
  obtain ⟨machine, -, h⟩ := Option.bind_eq_some_iff.mp h
  obtain ⟨bindings, -, h⟩ := Option.bind_eq_some_iff.mp h
  obtain ⟨receipts, hreceipts, h⟩ := Option.bind_eq_some_iff.mp h
  obtain ⟨trust, -, h⟩ := Option.bind_eq_some_iff.mp h
  obtain ⟨scans, -, h⟩ := Option.bind_eq_some_iff.mp h
  cases h
  have hempty : EnvelopeFields.empty.KeysDistinct := fun _ h => nomatch h
  exact readEnvelopeFields_keys hempty hfields receipts hreceipts

end Envelope

section Index

variable {json : StateJson} {blake3 : Bytes → Digest} {envelope : RawEnvelope}
  {inspection : ReceiptInspection}

theorem foldl_pushRecord {records : List RawReceiptRecord} {sides : ReceiptInspection} :
    records.foldl (pushRecord json blake3) sides =
      ⟨sides.valid ++ ownValid json blake3 records, sides.invalid ++
        records.filterMap fun record => (inspectRecord json blake3 record).getLeft?⟩ := by
  induction records generalizing sides with
  | nil => simp [ownValid]
  | cons record records ih =>
    rw [List.foldl_cons, ih, pushRecord, ownValid, ownValid]
    cases h : inspectRecord json blake3 record with
    | inl i => simp [h]
    | inr a => simp [h]

/-- Both sides of an inspection, up to the order in which they are reported. -/
theorem inspectReceipts_sides {records : List RawReceiptRecord}
    (hkeys : (records.map RawReceiptRecord.key).Nodup) :
    (inspectReceipts json blake3 records).valid.Perm (records.filterMap fun record =>
        (placeRecord json blake3 records record).getRight?) ∧
      (inspectReceipts json blake3 records).invalid.Perm (records.filterMap fun record =>
        (placeRecord json blake3 records record).getLeft?) := by
  have hids := @nodup_ownValid json blake3 records hkeys
  have hnodup : (ownValid json blake3 records).Nodup := List.Nodup.of_map _ hids
  -- a receipt is demoted when it is in conflict with another one
  have hconflicts : ∀ a ∈ ownValid json blake3 records,
      a.receiptId ∈ destinationConflicts (ownValid json blake3 records) ↔
        ∃ b ∈ ownValid json blake3 records, b ≠ a ∧ ConflictingClaims a b := by
    intro a ha
    rw [mem_destinationConflicts hnodup]
    constructor
    · rintro ⟨a', ha', hid, hrest⟩
      rwa [← List.inj_on_of_nodup_map hids ha' ha hid]
    · exact fun hrest => ⟨a, ha, rfl, hrest⟩
  have hkept : (ownValid json blake3 records).filter (fun a =>
        a.receiptId ∉ destinationConflicts (ownValid json blake3 records)) =
      (ownValid json blake3 records).filter fun a =>
        ¬ ∃ b ∈ ownValid json blake3 records, b ≠ a ∧ ConflictingClaims a b :=
    List.filter_congr fun a ha => by simp only [hconflicts a ha]
  have hdemoted : (ownValid json blake3 records).filter (fun a =>
        a.receiptId ∈ destinationConflicts (ownValid json blake3 records)) =
      (ownValid json blake3 records).filter fun a =>
        ∃ b ∈ ownValid json blake3 records, b ≠ a ∧ ConflictingClaims a b :=
    List.filter_congr fun a ha => by simp only [hconflicts a ha]
  have hplace : ∀ record, placeRecord json blake3 records record = moveSide conflictingReceipt
      (fun a => ∃ b ∈ ownValid json blake3 records, b ≠ a ∧ ConflictingClaims a b)
      (inspectRecord json blake3 record) := by
    intro record
    unfold placeRecord moveSide
    cases inspectRecord json blake3 record <;> rfl
  simp only [hplace]
  rw [← filterMap_kept]
  unfold inspectReceipts rejectDuplicateDestinationClaims
  rw [foldl_pushRecord]
  dsimp only
  rw [List.nil_append, List.nil_append, foldl_demoteRecord hids, hkept, hdemoted]
  refine ⟨(List.mergeSort_perm _ _).trans ?_, (List.mergeSort_perm _ _).trans ?_⟩
  · dsimp only
    rw [List.nil_append]
    exact .refl _
  · exact filterMap_moved_perm

theorem inspectEnvelope_eq_ok : inspectEnvelope json blake3 envelope = .ok inspection ↔
    validateEnvelope json envelope = .ok () ∧
      inspectReceipts json blake3 envelope.receipts = inspection := by
  unfold inspectEnvelope
  rw [bind_eq_ok_iff]
  constructor
  · rintro ⟨⟨⟩, hvalid, h⟩
    exact ⟨hvalid, Except.pure_eq_ok_iff.mp h⟩
  · rintro ⟨hvalid, h⟩
    exact ⟨(), hvalid, Except.pure_eq_ok_iff.mpr h⟩

variable (json blake3) in
/-- What an inspection makes of the records of an envelope. -/
structure ReceiptPartition (records : List RawReceiptRecord) (inspection : ReceiptInspection) :
    Prop where
  valid : inspection.valid.Perm (records.filterMap fun record =>
    (placeRecord json blake3 records record).getRight?)
  invalid : inspection.invalid.Perm (records.filterMap fun record =>
    (placeRecord json blake3 records record).getLeft?)
  separate : ∀ a ∈ inspection.valid, ∀ i ∈ inspection.invalid, i.receiptId ≠ some a.receiptId
  exclusive : ∀ a ∈ inspection.valid, ∀ b ∈ inspection.valid, a ≠ b →
    a.receipt.destination = b.receipt.destination →
    (a.receipt.target = .managedInstructionRegion ∧ b.receipt.target = .managedInstructionRegion ∧
        a.receipt.assetId ≠ b.receipt.assetId) ∨
      a.receipt.target = .managedMcpEntry ∧ b.receipt.target = .managedMcpEntry ∧
        a.receipt.logicalKey ≠ b.receipt.logicalKey
  demoted : ∀ a ∈ ownValid json blake3 records, ∀ b ∈ ownValid json blake3 records, a ≠ b →
    ConflictingClaims a b → a ∉ inspection.valid ∧ conflictingReceipt a ∈ inspection.invalid

/-- Receipts that do not conflict share a destination only as different regions or entries. -/
theorem regions_of_not_conflicting {a b : InspectedReceipt} (h : ¬ ConflictingClaims a b)
    (hdestination : a.receipt.destination = b.receipt.destination) :
    (a.receipt.target = .managedInstructionRegion ∧ b.receipt.target = .managedInstructionRegion ∧
        a.receipt.assetId ≠ b.receipt.assetId) ∨
      a.receipt.target = .managedMcpEntry ∧ b.receipt.target = .managedMcpEntry ∧
        a.receipt.logicalKey ≠ b.receipt.logicalKey := by
  rw [ConflictingClaims, not_and] at h
  have h := h hdestination
  simp only [not_or, ne_eq, not_not] at h
  obtain ⟨hwhole, -, hsame, hregion⟩ := h
  unfold InspectedReceipt.region at hregion
  rw [← hsame] at hregion ⊢
  cases htarget : a.receipt.target with
  | wholeTarget => exact absurd htarget hwhole
  | managedInstructionRegion =>
    rw [htarget] at hregion
    exact .inl ⟨rfl, rfl, fun heq => hregion (by rw [heq])⟩
  | managedMcpEntry =>
    rw [htarget] at hregion
    exact .inr ⟨rfl, rfl, hregion⟩

theorem inspectReceipts_partition {records : List RawReceiptRecord}
    (hkeys : (records.map RawReceiptRecord.key).Nodup) :
    ReceiptPartition json blake3 records (inspectReceipts json blake3 records) := by
  obtain ⟨hvalid, hinvalid⟩ := @inspectReceipts_sides json blake3 records hkeys
  have hids := @nodup_ownValid json blake3 records hkeys
  -- where the receipts of both sides come from
  have hright : ∀ a, a ∈ (inspectReceipts json blake3 records).valid ↔
      ∃ record ∈ records, placeRecord json blake3 records record = .inr a := by
    intro a
    rw [hvalid.mem_iff, List.mem_filterMap]
    simp only [Sum.getRight?_eq_some_iff]
  have hleft : ∀ i, i ∈ (inspectReceipts json blake3 records).invalid ↔
      ∃ record ∈ records, placeRecord json blake3 records record = .inl i := by
    intro i
    rw [hinvalid.mem_iff, List.mem_filterMap]
    simp only [Sum.getLeft?_eq_some_iff]
  refine ⟨hvalid, hinvalid, ?_, ?_, ?_⟩
  · intro a ha i hi hid
    obtain ⟨record, hrecord, hplace⟩ := (hright a).mp ha
    obtain ⟨other, hother, hplace'⟩ := (hleft i).mp hi
    have hkey := @placeRecord_keyed json blake3 records record
    have hkey' := @placeRecord_keyed json blake3 records other
    rw [hplace] at hkey
    rw [hplace'] at hkey'
    have hsame : record.key = other.key := hkey.symm.trans (hkey' _ hid)
    rw [List.inj_on_of_nodup_map hkeys hrecord hother hsame, hplace'] at hplace
    contradiction
  · intro a ha b hb hne hdestination
    obtain ⟨record, hrecord, hplace⟩ := (hright a).mp ha
    obtain ⟨other, hother, hplace'⟩ := (hright b).mp hb
    obtain ⟨-, hnone⟩ := placeRecord_inr.mp hplace
    obtain ⟨hinspect, -⟩ := placeRecord_inr.mp hplace'
    have hclash := hnone b (mem_ownValid.mpr ⟨other, hother, hinspect⟩) hne.symm
    exact regions_of_not_conflicting hclash hdestination
  · intro a ha b hb hne hclash
    obtain ⟨record, hrecord, hinspect⟩ := mem_ownValid.mp ha
    constructor
    · intro hmem
      obtain ⟨other, -, hplace⟩ := (hright a).mp hmem
      obtain ⟨-, hnone⟩ := placeRecord_inr.mp hplace
      exact hnone b hb hne.symm hclash
    · refine (hleft _).mpr ⟨record, hrecord, ?_⟩
      unfold placeRecord
      rw [hinspect]
      exact if_pos ⟨b, hb, hne.symm, hclash⟩

/-- Whatever the order of its records, an envelope has each of them on one side of its
inspection, and the same one. -/
theorem receipt_index_partition {input : Bytes}
    (h : inspectJson json blake3 input = .ok inspection) :
    ∃ envelope, readEnvelope json defaultMaxReceipts defaultMaxReceiptBytes input = some envelope ∧
      ReceiptPartition json blake3 envelope.receipts inspection ∧
      ∀ records, records.Perm envelope.receipts → ∃ other,
        inspectEnvelope json blake3 { envelope with receipts := records } = .ok other ∧
          other.valid.Perm inspection.valid ∧ other.invalid.Perm inspection.invalid ∧
          ∀ record, placeRecord json blake3 records record =
            placeRecord json blake3 envelope.receipts record := by
  unfold inspectJson inspectJsonBounded at h
  split at h
  · contradiction
  split at h
  · contradiction
  rename_i envelope hread
  obtain ⟨hvalid, rfl⟩ := inspectEnvelope_eq_ok.mp h
  have hkeys := readEnvelope_keys hread
  refine ⟨envelope, hread, inspectReceipts_partition hkeys, fun records hperm => ?_⟩
  have hkeys' : (records.map RawReceiptRecord.key).Nodup := (hperm.map _).nodup_iff.mpr hkeys
  have hplace : ∀ record, placeRecord json blake3 records record =
      placeRecord json blake3 envelope.receipts record := fun _ => placeRecord_perm hperm
  have hsides := @inspectReceipts_sides json blake3 envelope.receipts hkeys
  obtain ⟨hright, hleft⟩ := @inspectReceipts_sides json blake3 records hkeys'
  simp only [hplace] at hright hleft
  refine ⟨inspectReceipts json blake3 records, inspectEnvelope_eq_ok.mpr ⟨hvalid, rfl⟩, ?_, ?_, hplace⟩
  · exact (hright.trans (hperm.filterMap _)).trans hsides.1.symm
  · exact (hleft.trans (hperm.filterMap _)).trans hsides.2.symm

end Index

section Sample

def repeatedDigest (b : UInt8) (h : lowercaseHex b = true) : Digest where
  hex := List.replicate 64 b
  valid := validDigest_replicate h

def claimHash : ContentHash := .ofDigest (repeatedDigest 0x30 rfl)

/-- A receipt for the whole of one destination. -/
def claimReceipt (asset : AssetId) : DeploymentReceipt where
  assetId := asset
  harness := .claude
  scope := .user
  destination := ⟨ascii "/skills"⟩
  target := .wholeTarget
  logicalKey := none
  sharedWith := ∅
  sharedAdapterVersions := ∅
  sourceHash := claimHash
  renderedHash := claimHash
  documentHash := none
  priorHash := none
  adapterVersion := ascii "1"
  environmentRevision := ⟨ascii "manifest:" ++ claimHash.bytes, by decide +kernel, by decide +kernel⟩

def quotedText (text : Bytes) : Bytes := [0x22] ++ text ++ [0x22]

/-- The members of the receipt's JSON, in the order in which it is written. -/
def claimMembers (asset : AssetId) : List (Bytes × Bytes) :=
  [(ascii "asset_id", asset.bytes), (ascii "harness", ascii "claude"), (ascii "scope", ascii "user"),
    (ascii "destination", ascii "/skills"), (ascii "source_hash", claimHash.bytes),
    (ascii "rendered_hash", claimHash.bytes), (ascii "adapter_version", ascii "1"),
    (ascii "environment_revision", ascii "manifest:" ++ claimHash.bytes)]

/-- A JSON object with the members' names and raw values. -/
def objectText (members : List (Bytes × Bytes)) : Bytes :=
  [0x7B] ++ List.intercalate [0x2C] (members.map fun m => quotedText m.1 ++ [0x3A] ++ m.2) ++ [0x7D]

def claimText (asset : AssetId) : Bytes :=
  objectText ((claimMembers asset).map fun m => (m.1, quotedText m.2))

def claimAlpha : AssetId := ⟨ascii "alpha", by decide +kernel, by decide +kernel⟩

def claimBeta : AssetId := ⟨ascii "beta", by decide +kernel, by decide +kernel⟩

def claimAlphaId : ReceiptId := .ofDigest (repeatedDigest 0x61 rfl)

def claimBetaId : ReceiptId := .ofDigest (repeatedDigest 0x62 rfl)

def claimsMembers : List (Bytes × Bytes) :=
  [(claimAlphaId.bytes, claimText claimAlpha), (claimBetaId.bytes, claimText claimBeta)]

def machineMembers : List (Bytes × Bytes) :=
  [(ascii "id", quotedText (ascii "m")), (ascii "active_profile", ascii "null")]

def stateMembers : List (Bytes × Bytes) :=
  [(ascii "schema_version", ascii "1"), (ascii "machine", objectText machineMembers),
    (ascii "bindings", objectText []), (ascii "receipts", objectText claimsMembers),
    (ascii "trust", objectText []), (ascii "scans", ascii "[]")]

/-- The state with two receipts that claim one destination. -/
def claimsInput : Bytes := objectText stateMembers

def claimTree (asset : AssetId) : JsonTree :=
  .object ((claimMembers asset).map fun m => (m.1, .string m.2))

def claimsJson : StateJson where
  members text :=
    if text = claimsInput then some stateMembers
    else if text = objectText claimsMembers then some claimsMembers else none
  tree text :=
    if text = ascii "1" then some (.number text)
    else if text = objectText [] then some (.object [])
    else if text = ascii "[]" then some (.array [])
    else if text = objectText machineMembers then
      some (.object [(ascii "id", .string (ascii "m")), (ascii "active_profile", .null)])
    else if text = claimText claimAlpha then some (claimTree claimAlpha)
    else if text = claimText claimBeta then some (claimTree claimBeta) else none
  schemaVersion text := text == ascii "1"
  machine text := text == objectText machineMembers
  bindings text := text == objectText []
  packApplications text := text == objectText []
  trust text := text == objectText []
  scans text := text == ascii "[]"
  receipt text :=
    if text = claimText claimAlpha then some (claimReceipt claimAlpha)
    else if text = claimText claimBeta then some (claimReceipt claimBeta) else none

/-- A digest that tells the two receipts apart. -/
def claimsBlake3 (text : Bytes) : Digest :=
  if text = (claimReceipt claimAlpha).receiptIdPreimage then repeatedDigest 0x61 rfl
  else if text = (claimReceipt claimBeta).receiptIdPreimage then repeatedDigest 0x62 rfl
  else repeatedDigest 0x30 rfl

def claimsRecords : List RawReceiptRecord :=
  claimsMembers.map fun m => ⟨m.1, some m.2⟩

theorem receipt_index_partition_sample : ∃ inspection,
    inspectJson claimsJson claimsBlake3 claimsInput = .ok inspection ∧ inspection.valid = [] ∧
      inspection.invalid.Perm [conflictingReceipt ⟨claimAlphaId, claimReceipt claimAlpha⟩,
        conflictingReceipt ⟨claimBetaId, claimReceipt claimBeta⟩] := by
  have hread : (readEnvelope claimsJson defaultMaxReceipts defaultMaxReceiptBytes claimsInput).map
      RawEnvelope.receipts = some claimsRecords := by decide +kernel
  have hok : (inspectJson claimsJson claimsBlake3 claimsInput).isOk = true := by decide +kernel
  cases h : inspectJson claimsJson claimsBlake3 claimsInput with
  | error e =>
    rw [h] at hok
    exact Bool.noConfusion hok
  | ok inspection =>
    obtain ⟨envelope, hread', hpartition, -⟩ := receipt_index_partition h
    rw [hread', Option.map_some, Option.some.injEq] at hread
    have hright : claimsRecords.filterMap (fun record =>
        (placeRecord claimsJson claimsBlake3 claimsRecords record).getRight?) = [] := by
      decide +kernel
    have hleft : claimsRecords.filterMap (fun record =>
        (placeRecord claimsJson claimsBlake3 claimsRecords record).getLeft?) =
        [conflictingReceipt ⟨claimAlphaId, claimReceipt claimAlpha⟩,
          conflictingReceipt ⟨claimBetaId, claimReceipt claimBeta⟩] := by
      decide +kernel
    have hvalid := hpartition.valid
    have hinvalid := hpartition.invalid
    rw [hread] at hvalid hinvalid
    rw [hright] at hvalid
    rw [hleft] at hinvalid
    exact ⟨inspection, rfl, hvalid.eq_nil, hinvalid⟩

end Sample

end Kitrove
