import Kitrove.Git.Grammar

/-! An advertisement is accepted exactly when it follows the grammar, and packets are read back as
they were encoded. -/

namespace Kitrove.Git

open Slices

variable {ObjectId : Type} {fromHex : Bytes → Option ObjectId} {input : Bytes}
  {cursor after : PacketCursor} {state final : AdvertisementState ObjectId}

section Loop

/-- The packets of records and the flush behind them. -/
def recordPackets (datas : List Bytes) : List PacketLine := datas.map PacketLine.data ++ [.flush]

theorem length_recordPackets {datas : List Bytes} : (recordPackets datas).length = datas.length + 1 := by
  rw [recordPackets, List.length_append, List.length_map, List.length_singleton]

/-- The loop reads records up to the first flush. -/
theorem advertisementLoop_eq_ok {fuel : Nat} (hinput : input.length < wordLimit)
    (hoffset : cursor.offset ≤ input.length) (hfuel : input.length - cursor.offset < fuel) :
    advertisementLoop fromHex input fuel cursor state = .ok (after, final) ↔
      ∃ datas, Frames (recordPackets datas) (Slices.cut input cursor.offset after.offset) ∧
        cursor.offset ≤ after.offset ∧ after.offset ≤ input.length ∧
        after.remainingRecords + (recordPackets datas).length = cursor.remainingRecords ∧
        datas.foldlM (takeData fromHex) state = .ok final := by
  induction fuel generalizing cursor state with
  | zero => exact absurd hfuel (Nat.not_lt_zero _)
  | succ fuel ih =>
    rw [advertisementLoop, Except.bind_eq_ok_iff]
    constructor
    · rintro ⟨⟨packet, next⟩, hnext, h⟩
      cases packet with
      | none => exact (nomatch h)
      | some packet =>
        obtain ⟨hframe, hle, hend, hremaining⟩ := (next_eq_some hinput hoffset).mp hnext
        cases packet with
        | delimiter => exact (nomatch h)
        | responseEnd => exact (nomatch h)
        | flush =>
          cases h
          exact ⟨[], frames_singleton.mpr hframe, hle, hend, hremaining, rfl⟩
        | data data =>
          obtain ⟨taken, htaken, hrest⟩ := Except.bind_eq_ok_iff.mp h
          have hlength := hframe.length
          rw [length_cut hend] at hlength
          obtain ⟨datas, hframes, hle', hend', hcount, hrun⟩ := (ih hend (by omega)).mp hrest
          rw [length_recordPackets] at hcount
          refine ⟨data :: datas, ?_, by omega, hend', ?_, ?_⟩
          · rw [← cut_append hle hle']
            exact .cons hframe hframes
          · rw [length_recordPackets, List.length_cons]
            omega
          · rw [List.foldlM_cons]
            exact Except.bind_eq_ok_iff.mpr ⟨taken, htaken, hrun⟩
    · rintro ⟨datas, hframes, hle, hend, hcount, hrun⟩
      rw [length_recordPackets] at hcount
      generalize hwhole : Slices.cut input cursor.offset after.offset = bytes at hframes
      cases datas with
      | nil =>
        cases hrun
        have hframe := frames_singleton.mp hframes
        rw [← hwhole] at hframe
        exact ⟨(some .flush, after), (next_eq_some hinput hoffset).mpr ⟨hframe, hle, hend, hcount⟩, rfl⟩
      | cons data datas =>
        rw [List.foldlM_cons] at hrun
        obtain ⟨taken, htaken, hrun⟩ := Except.bind_eq_ok_iff.mp hrun
        cases hframes with
        | @cons _ _ frame rest hframe hrest =>
          obtain ⟨hhead, htail, hmid⟩ := cut_eq_append hwhole hle hend
          have hlength := hframe.length
          rw [List.length_cons] at hcount
          refine ⟨(some (.data data), ⟨cursor.offset + frame.length, cursor.remainingRecords - 1⟩),
            (next_eq_some hinput hoffset).mpr ⟨?_, by dsimp only; omega, by dsimp only; omega,
              by dsimp only; omega⟩, Except.bind_eq_ok_iff.mpr ⟨taken, htaken, ?_⟩⟩
          · dsimp only
            rwa [hhead]
          · refine (ih (by dsimp only; omega) (by dsimp only; omega)).mpr ⟨datas, ?_, hmid, hend, ?_, hrun⟩
            · dsimp only
              rwa [htail]
            · rw [length_recordPackets]
              dsimp only
              omega

theorem takeRecord_safe (record : Bytes) : Safe (takeRecord fromHex state record) := by
  unfold takeRecord
  refine Safe.bind safe_okOr fun separator hseparator => ?_
  obtain ⟨oid, name, rfl, -, rfl⟩ := findIdx_space (okOr_eq_ok.mp hseparator)
  have hlength : (oid ++ 0x20 :: name).length = oid.length + (name.length + 1) := by
    rw [List.length_append, List.length_cons]
  refine Safe.bind (safe_slice (Nat.zero_le _) (by omega)) fun _ _ => ?_
  refine Safe.bind (safe_slice (by omega) (Nat.le_refl _)) fun rest hrest => ?_
  have hrest' : rest.length = name.length + 1 := by
    rw [← (slice_eq_ok.mp hrest).2, length_cut (Nat.le_refl _)]
    omega
  refine Safe.bind (safe_slice (by omega) (Nat.le_refl _)) fun _ _ => ?_
  refine Safe.ite (fun _ => safe_refused) fun _ => Safe.bind ?_ fun _ _ => safe_pure
  unfold selectHead
  exact Safe.ite (fun _ => safe_pure) fun _ => Safe.ite (fun _ => safe_refused) fun _ =>
    Safe.bind safe_okOr fun _ _ => Safe.ite (fun _ => safe_pure) fun _ =>
      Safe.ite (fun _ => safe_refused) fun _ => safe_pure

theorem takeData_safe (data : Bytes) : Safe (takeData fromHex state data) := by
  unfold takeData
  refine Safe.bind safe_okOr fun _ _ => Safe.bind ?_ fun parts _ => Safe.bind ?_ fun _ _ =>
    takeRecord_safe parts.1
  · exact Safe.ite (fun _ => safe_pure) fun _ => Safe.ite (fun _ => safe_refused) fun _ => safe_pure
  · cases parts.2 with
    | none => exact safe_pure
    | some raw =>
      have hwords (words : List Bytes) (taken : Finset Bytes) :
          Safe (words.foldlM takeCapability taken) := by
        induction words generalizing taken with
        | nil => exact safe_pure
        | cons word words ih =>
          rw [List.foldlM_cons]
          exact Safe.bind (Safe.ite (fun _ => safe_refused) fun _ => safe_pure) fun taken _ => ih taken
      exact hwords _ _

theorem advertisementLoop_safe {fuel : Nat} (hinput : input.length < wordLimit)
    (hoffset : cursor.offset ≤ input.length) (hfuel : input.length - cursor.offset < fuel) :
    Safe (advertisementLoop fromHex input fuel cursor state) := by
  induction fuel generalizing cursor state with
  | zero => exact absurd hfuel (Nat.not_lt_zero _)
  | succ fuel ih =>
    rw [advertisementLoop]
    refine Safe.bind (next_safe hinput hoffset) fun ⟨packet, next⟩ hnext => ?_
    cases packet with
    | none => exact safe_refused
    | some packet =>
      obtain ⟨hframe, hle, hend, -⟩ := (next_eq_some hinput hoffset).mp hnext
      have hlength := hframe.length
      rw [length_cut hend] at hlength
      cases packet with
      | flush => exact safe_pure
      | delimiter => exact safe_refused
      | responseEnd => exact safe_refused
      | data data => exact Safe.bind (takeData_safe data) fun _ _ => ih hend (by omega)

end Loop

section Prefix

/-- The packets before the records. -/
def prefixPackets : AdvertisementPrefix → List PacketLine
  | .httpService service => [.data (ascii "# service=" ++ service ++ ascii "\n"), .flush]
  | .ssh => []

theorem expectPacket_eq_ok {expected : PacketLine} :
    expectPacket input cursor expected = .ok after ↔ cursor.next input = .ok (some expected, after) := by
  unfold expectPacket
  rw [Except.bind_eq_ok_iff]
  constructor
  · rintro ⟨⟨packet, next⟩, hnext, h⟩
    dsimp only at h
    split at h
    · exact (nomatch h)
    · rename_i hsame
      cases h
      rw [hnext, not_not.mp hsame]
  · intro hnext
    refine ⟨_, hnext, ?_⟩
    dsimp only
    rw [if_neg (not_not.mpr rfl)]
    rfl

theorem expectPacket_safe {expected : PacketLine} (hinput : input.length < wordLimit)
    (hoffset : cursor.offset ≤ input.length) : Safe (expectPacket input cursor expected) :=
  Safe.bind (next_safe hinput hoffset) fun _ _ => Safe.ite (fun _ => safe_refused) fun _ => safe_pure

theorem expectPrefix_eq_ok {leading : AdvertisementPrefix} (hinput : input.length < wordLimit)
    (hoffset : cursor.offset ≤ input.length) :
    expectPrefix input cursor leading = .ok after ↔
      Frames (prefixPackets leading) (Slices.cut input cursor.offset after.offset) ∧
        cursor.offset ≤ after.offset ∧ after.offset ≤ input.length ∧
        after.remainingRecords + (prefixPackets leading).length = cursor.remainingRecords := by
  cases leading with
  | ssh =>
    constructor
    · intro h
      cases h
      refine ⟨?_, Nat.le_refl _, hoffset, rfl⟩
      rw [cut_self]
      exact .nil
    · rintro ⟨hframes, hle, hend, hcount⟩
      generalize hwhole : Slices.cut input cursor.offset after.offset = bytes at hframes
      cases hframes
      have hlength := @length_cut _ input cursor.offset _ hend
      rw [hwhole, List.length_nil] at hlength
      obtain ⟨offset, remaining⟩ := cursor
      obtain ⟨offset', remaining'⟩ := after
      have hsame : offset = offset' := by
        dsimp only at hle hlength
        omega
      cases hsame
      cases hcount
      rfl
  | httpService service =>
    rw [expectPrefix, Except.bind_eq_ok_iff]
    constructor
    · rintro ⟨next, hnext, hafter⟩
      obtain ⟨hframe, hle, hend, hremaining⟩ :=
        (next_eq_some hinput hoffset).mp (expectPacket_eq_ok.mp hnext)
      obtain ⟨hframe', hle', hend', hremaining'⟩ :=
        (next_eq_some hinput hend).mp (expectPacket_eq_ok.mp hafter)
      refine ⟨?_, by omega, hend', ?_⟩
      · rw [← cut_append hle hle']
        exact .cons hframe (frames_singleton.mpr hframe')
      · change after.remainingRecords + 2 = cursor.remainingRecords
        omega
    · rintro ⟨hframes, hle, hend, hcount⟩
      generalize hwhole : Slices.cut input cursor.offset after.offset = bytes at hframes
      change after.remainingRecords + 2 = cursor.remainingRecords at hcount
      cases hframes with
      | @cons _ _ frame rest hframe hrest =>
        obtain ⟨hhead, htail, hmid⟩ := cut_eq_append hwhole hle hend
        refine ⟨⟨cursor.offset + frame.length, cursor.remainingRecords - 1⟩,
          expectPacket_eq_ok.mpr ((next_eq_some hinput hoffset).mpr ⟨?_, ?_, ?_, ?_⟩),
          expectPacket_eq_ok.mpr ((next_eq_some hinput ?_).mpr ⟨?_, hmid, hend, ?_⟩)⟩
        · dsimp only
          rwa [hhead]
        · dsimp only
          omega
        · dsimp only
          omega
        · dsimp only
          omega
        · dsimp only
          omega
        · dsimp only
          rw [htail]
          exact frames_singleton.mp hrest
        · dsimp only
          omega

theorem expectPrefix_safe {leading : AdvertisementPrefix} (hinput : input.length < wordLimit)
    (hoffset : cursor.offset ≤ input.length) : Safe (expectPrefix input cursor leading) := by
  cases leading with
  | ssh => exact safe_pure
  | httpService service =>
    refine Safe.bind (expectPacket_safe hinput hoffset) fun next hnext => ?_
    obtain ⟨-, -, hend, -⟩ := (next_eq_some hinput hoffset).mp (expectPacket_eq_ok.mp hnext)
    exact expectPacket_safe hinput hend

end Prefix

end Kitrove.Git
