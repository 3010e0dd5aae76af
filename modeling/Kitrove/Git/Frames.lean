import Kitrove.Git.Packets

/-! The frames of packets, and what the cursor reads of them. -/

namespace Kitrove.Git

open Slices

/-- The bytes of one packet. -/
inductive Framed : PacketLine → Bytes → Prop
  | flush {header : Bytes} (hlength : header.length = 4) (h : HexNumber header 0) : Framed .flush header
  | delimiter {header : Bytes} (hlength : header.length = 4) (h : HexNumber header 1) :
      Framed .delimiter header
  | responseEnd {header : Bytes} (hlength : header.length = 4) (h : HexNumber header 2) :
      Framed .responseEnd header
  | data {header payload : Bytes} (hlength : header.length = 4)
      (h : HexNumber header (payload.length + 4)) (hfits : payload.length + 4 ≤ maxPacketLineBytes) :
      Framed (.data payload) (header ++ payload)

/-- The bytes of packets, one after the other. -/
inductive Frames : List PacketLine → Bytes → Prop
  | nil : Frames [] []
  | cons {packet : PacketLine} {packets : List PacketLine} {frame rest : Bytes}
      (h : Framed packet frame) (hrest : Frames packets rest) :
      Frames (packet :: packets) (frame ++ rest)

variable {packet : PacketLine} {packets : List PacketLine} {input frame : Bytes}
  {cursor final : PacketCursor}

theorem Framed.length (h : Framed packet frame) : 4 ≤ frame.length := by
  cases h with
  | flush hlength => omega
  | delimiter hlength => omega
  | responseEnd hlength => omega
  | data hlength =>
    rw [List.length_append]
    omega

theorem Frames.append {packets' : List PacketLine} {bytes bytes' : Bytes} (h : Frames packets bytes)
    (h' : Frames packets' bytes') : Frames (packets ++ packets') (bytes ++ bytes') := by
  induction h with
  | nil => exact h'
  | cons hframe _ ih =>
    rw [List.cons_append, List.append_assoc]
    exact .cons hframe ih

theorem frames_append_iff {packets' : List PacketLine} {bytes : Bytes} :
    Frames (packets ++ packets') bytes ↔
      ∃ pre rest, bytes = pre ++ rest ∧ Frames packets pre ∧ Frames packets' rest := by
  constructor
  · intro h
    induction packets generalizing bytes with
    | nil => exact ⟨[], bytes, rfl, .nil, h⟩
    | cons packet packets ih =>
      cases h with
      | cons hframe hframes =>
        obtain ⟨pre, rest, rfl, hpre, hrest⟩ := ih hframes
        exact ⟨_, rest, (List.append_assoc _ _ _).symm, .cons hframe hpre, hrest⟩
  · rintro ⟨pre, rest, rfl, hpre, hrest⟩
    exact hpre.append hrest

theorem frames_singleton : Frames [packet] frame ↔ Framed packet frame := by
  constructor
  · intro h
    cases h with
    | cons h hrest =>
      cases hrest
      rwa [List.append_nil]
  · intro h
    have hframes := Frames.cons h .nil
    rwa [List.append_nil] at hframes

section Next

theorem next_eq_none : cursor.next input = .ok (none, final) ↔
    cursor.offset = input.length ∧ final = cursor := by
  unfold PacketCursor.next
  split
  · rename_i hend
    rw [and_iff_right hend]
    exact ⟨fun h => by cases h; rfl, fun h => by rw [h]; rfl⟩
  · rename_i hmore
    refine iff_of_false ?_ fun h => hmore h.1
    split
    · exact nofun
    · intro h
      obtain ⟨stop, -, h⟩ := Except.bind_eq_ok_iff.mp h
      obtain ⟨header, -, h⟩ := Except.bind_eq_ok_iff.mp h
      obtain ⟨length, -, h⟩ := Except.bind_eq_ok_iff.mp h
      unfold packetBody at h
      split at h
      · exact (nomatch h)
      · exact (nomatch h)
      · exact (nomatch h)
      · exact (nomatch h)
      · split at h
        · exact (nomatch h)
        · obtain ⟨stop, -, h⟩ := Except.bind_eq_ok_iff.mp h
          obtain ⟨payload, -, h⟩ := Except.bind_eq_ok_iff.mp h
          exact (nomatch h)

/-- The packet that a length announces. -/
theorem packetBody_eq_ok {n : Nat} (hinput : input.length < wordLimit) :
    packetBody input cursor n = .ok (some packet, final) ↔
      final.remainingRecords = cursor.remainingRecords ∧
        ((n = 0 ∧ packet = .flush ∧ final.offset = cursor.offset) ∨
          (n = 1 ∧ packet = .delimiter ∧ final.offset = cursor.offset) ∨
          (n = 2 ∧ packet = .responseEnd ∧ final.offset = cursor.offset) ∨
          (4 ≤ n ∧ n ≤ maxPacketLineBytes ∧ final.offset = cursor.offset + (n - 4) ∧
            final.offset ≤ input.length ∧
            packet = .data (Slices.cut input cursor.offset final.offset))) := by
  obtain ⟨offset, remaining⟩ := cursor
  obtain ⟨offset', remaining'⟩ := final
  unfold packetBody
  split
  · constructor
    · intro h
      cases h
      exact ⟨rfl, .inl ⟨rfl, rfl, rfl⟩⟩
    · rintro ⟨hremaining, ⟨-, rfl, hoffset⟩ | ⟨hn, -⟩ | ⟨hn, -⟩ | ⟨hn, -⟩⟩
      · dsimp only at hremaining hoffset
        rw [hremaining, hoffset]
        rfl
      · omega
      · omega
      · omega
  · constructor
    · intro h
      cases h
      exact ⟨rfl, .inr (.inl ⟨rfl, rfl, rfl⟩)⟩
    · rintro ⟨hremaining, ⟨hn, -⟩ | ⟨-, rfl, hoffset⟩ | ⟨hn, -⟩ | ⟨hn, -⟩⟩
      · omega
      · dsimp only at hremaining hoffset
        rw [hremaining, hoffset]
        rfl
      · omega
      · omega
  · constructor
    · intro h
      cases h
      exact ⟨rfl, .inr (.inr (.inl ⟨rfl, rfl, rfl⟩))⟩
    · rintro ⟨hremaining, ⟨hn, -⟩ | ⟨hn, -⟩ | ⟨-, rfl, hoffset⟩ | ⟨hn, -⟩⟩
      · omega
      · omega
      · dsimp only at hremaining hoffset
        rw [hremaining, hoffset]
        rfl
      · omega
  · refine iff_of_false nofun ?_
    rintro ⟨-, ⟨hn, -⟩ | ⟨hn, -⟩ | ⟨hn, -⟩ | ⟨hn, -⟩⟩ <;> omega
  · rename_i h0 h1 h2 h3
    split
    · rename_i hrange
      refine iff_of_false nofun ?_
      rintro ⟨-, ⟨hn, -⟩ | ⟨hn, -⟩ | ⟨hn, -⟩ | ⟨hn, hfits, -⟩⟩
      · exact h0 hn
      · exact h1 hn
      · exact h2 hn
      · exact hrange ⟨hn, hfits⟩
    · rename_i hrange
      obtain ⟨hlow, hfits⟩ := not_not.mp hrange
      rw [Except.bind_eq_ok_iff]
      constructor
      · rintro ⟨stop, hstop, h⟩
        obtain ⟨payload, hpayload, h⟩ := Except.bind_eq_ok_iff.mp h
        obtain ⟨-, rfl⟩ := checkedAdd_eq_some.mp (okOr_eq_ok.mp hstop)
        obtain ⟨⟨-, hend⟩, hcut⟩ := get_eq_some.mp (okOr_eq_ok.mp hpayload)
        cases h
        exact ⟨rfl, .inr (.inr (.inr ⟨hlow, hfits, rfl, hend, by rw [hcut]⟩))⟩
      · rintro ⟨hremaining, ⟨hn, -⟩ | ⟨hn, -⟩ | ⟨hn, -⟩ | ⟨-, -, hstop, hend, rfl⟩⟩
        · exact absurd hn h0
        · exact absurd hn h1
        · exact absurd hn h2
        · dsimp only at hremaining hstop hend
          refine ⟨offset', okOr_eq_ok.mpr (checkedAdd_eq_some.mpr ⟨by dsimp only; omega, hstop.symm⟩),
            Except.bind_eq_ok_iff.mpr ⟨Slices.cut input offset offset', okOr_eq_ok.mpr
              (get_eq_some.mpr ⟨⟨by dsimp only; omega, hend⟩, rfl⟩), ?_⟩⟩
          rw [hremaining]
          rfl

/-- The cursor reads a packet exactly when its frame stands there. -/
theorem next_eq_some (hinput : input.length < wordLimit) (hoffset : cursor.offset ≤ input.length) :
    cursor.next input = .ok (some packet, final) ↔
      Framed packet (Slices.cut input cursor.offset final.offset) ∧ cursor.offset ≤ final.offset ∧
        final.offset ≤ input.length ∧ final.remainingRecords + 1 = cursor.remainingRecords := by
  unfold PacketCursor.next
  split
  · rename_i hend
    refine iff_of_false nofun ?_
    rintro ⟨hframe, hle, hstop, -⟩
    have hlength := hframe.length
    rw [length_cut hstop] at hlength
    omega
  · split
    · rename_i hmore hrefused
      refine iff_of_false nofun ?_
      rintro ⟨hframe, hle, hstop, hremaining⟩
      have hlength := hframe.length
      rw [length_cut hstop] at hlength
      omega
    · rename_i hmore hrefused
      have hroom : cursor.offset + 4 ≤ input.length := by omega
      have hplus : plus cursor.offset 4 = (.ok (cursor.offset + 4) : Checked BackendError Nat) :=
        plus_eq_ok.mpr ⟨by omega, rfl⟩
      have hslice : Slices.slice input cursor.offset (cursor.offset + 4) =
          (.ok (Slices.cut input cursor.offset (cursor.offset + 4)) : Checked BackendError Bytes) :=
        slice_eq_ok.mpr ⟨⟨by omega, hroom⟩, rfl⟩
      have hheader : (Slices.cut input cursor.offset (cursor.offset + 4)).length = 4 := by
        rw [length_cut hroom]
        omega
      rw [hplus]
      change (Slices.slice input cursor.offset (cursor.offset + 4) >>= _) = _ ↔ _
      rw [hslice]
      change (parseHexLength _ >>= _) = _ ↔ _
      rw [Except.bind_eq_ok_iff]
      constructor
      · rintro ⟨n, hn, hbody⟩
        rw [parseHexLength_eq_ok (by omega)] at hn
        obtain ⟨hremaining, hbody⟩ := (packetBody_eq_ok hinput).mp hbody
        dsimp only at hremaining hbody
        have hcount : final.remainingRecords + 1 = cursor.remainingRecords := by omega
        rcases hbody with ⟨rfl, rfl, hstop⟩ | ⟨rfl, rfl, hstop⟩ | ⟨rfl, rfl, hstop⟩ |
          ⟨hlow, hfits, hstop, hend, rfl⟩
        · rw [hstop]
          exact ⟨.flush hheader hn, by omega, hroom, hcount⟩
        · rw [hstop]
          exact ⟨.delimiter hheader hn, by omega, hroom, hcount⟩
        · rw [hstop]
          exact ⟨.responseEnd hheader hn, by omega, hroom, hcount⟩
        · refine ⟨?_, by omega, hend, hcount⟩
          have hlength : (Slices.cut input (cursor.offset + 4) final.offset).length + 4 = n := by
            rw [length_cut hend]
            omega
          rw [← hlength] at hn hfits
          rw [← @cut_append _ _ cursor.offset (cursor.offset + 4) final.offset (by omega) (by omega)]
          exact .data hheader hn hfits
      · rintro ⟨hframe, hle, hend, hremaining⟩
        have hlength := @length_cut _ input cursor.offset _ hend
        have hshort : final.offset = cursor.offset + 4 →
            Slices.cut input cursor.offset (cursor.offset + 4) = Slices.cut input cursor.offset final.offset := by
          intro hstop
          rw [hstop]
        have hafter : final.remainingRecords = cursor.remainingRecords - 1 := by omega
        generalize hwhole : Slices.cut input cursor.offset final.offset = frame at hframe
        rw [hwhole] at hlength hshort
        cases hframe with
        | flush hfour hnumber =>
          have hstop : final.offset = cursor.offset + 4 := by omega
          rw [hshort hstop]
          exact ⟨0, (parseHexLength_eq_ok (by omega)).mpr hnumber,
            (packetBody_eq_ok hinput).mpr ⟨hafter, .inl ⟨rfl, rfl, hstop⟩⟩⟩
        | delimiter hfour hnumber =>
          have hstop : final.offset = cursor.offset + 4 := by omega
          rw [hshort hstop]
          exact ⟨1, (parseHexLength_eq_ok (by omega)).mpr hnumber,
            (packetBody_eq_ok hinput).mpr ⟨hafter, .inr (.inl ⟨rfl, rfl, hstop⟩)⟩⟩
        | responseEnd hfour hnumber =>
          have hstop : final.offset = cursor.offset + 4 := by omega
          rw [hshort hstop]
          exact ⟨2, (parseHexLength_eq_ok (by omega)).mpr hnumber,
            (packetBody_eq_ok hinput).mpr ⟨hafter, .inr (.inr (.inl ⟨rfl, rfl, hstop⟩))⟩⟩
        | @data header payload hfour hnumber hfits =>
          obtain ⟨hhead, hpayload, -⟩ := cut_eq_append hwhole hle hend
          rw [hfour] at hhead hpayload
          rw [List.length_append] at hlength
          rw [hhead]
          refine ⟨payload.length + 4, (parseHexLength_eq_ok (by omega)).mpr hnumber,
            (packetBody_eq_ok hinput).mpr ⟨hafter, .inr (.inr (.inr
              ⟨by omega, hfits, ?_, hend, ?_⟩))⟩⟩
          · dsimp only
            omega
          · dsimp only
            rw [hpayload]

theorem next_safe (hinput : input.length < wordLimit) (hoffset : cursor.offset ≤ input.length) :
    Safe (cursor.next input) := by
  unfold PacketCursor.next
  refine Safe.ite (fun _ => safe_pure) fun hmore => Safe.ite (fun _ => safe_refused) fun hroom => ?_
  refine Safe.bind (safe_plus (by omega)) fun stop hstop => ?_
  obtain ⟨-, rfl⟩ := plus_eq_ok.mp hstop
  refine Safe.bind (safe_slice (by omega) (by omega)) fun header _ => ?_
  refine Safe.bind (parseHexLength_safe header) fun length _ => ?_
  unfold packetBody
  split
  · exact safe_pure
  · exact safe_pure
  · exact safe_pure
  · exact safe_refused
  · exact Safe.ite (fun _ => safe_refused) fun _ =>
      Safe.bind safe_okOr fun _ _ => Safe.bind safe_okOr fun _ _ => safe_pure

end Next

end Kitrove.Git
