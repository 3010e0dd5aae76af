import Kitrove.Backend.Control
import Kitrove.Support.Slices

/-! The packet lines of the Git protocol: the frames, the cursor that reads them, and that what was
encoded is read back. -/

namespace Kitrove.Git

open Slices

def maxPacketLineBytes : Nat := 65520

def invalidProtocol : BackendError :=
  ⟨"sync_backend.git_protocol_invalid", "Git remote protocol response is invalid"⟩

def limitExceeded : BackendError :=
  ⟨"sync_backend.git_limit_exceeded", "Git remote exceeded a configured request limit"⟩

section Reading

inductive PacketLine where
  | data (payload : Bytes)
  | flush
  | delimiter
  | responseEnd
  deriving DecidableEq

/-- Where the next frame starts, and how many may still be read. -/
structure PacketCursor where
  offset : Nat
  remainingRecords : Nat
  deriving DecidableEq

def hexDigit (byte : UInt8) : Option Nat :=
  if 0x30 ≤ byte ∧ byte ≤ 0x39 then some (byte - 0x30).toNat
  else if 0x61 ≤ byte ∧ byte ≤ 0x66 then some (byte - 0x61 + 10).toNat
  else if 0x41 ≤ byte ∧ byte ≤ 0x46 then some (byte - 0x41 + 10).toNat
  else none

def parseHexStep (value : Nat) (byte : UInt8) : Checked BackendError Nat := do
  let digit ← okOr (hexDigit byte) invalidProtocol
  okOr ((checkedMul value 16).bind fun current => checkedAdd current digit) invalidProtocol

def parseHexLength (header : Bytes) : Checked BackendError Nat := header.foldlM parseHexStep 0

/-- The packet behind a header with the length. -/
def packetBody (input : Bytes) (cursor : PacketCursor) :
    Nat → Checked BackendError (Option PacketLine × PacketCursor)
  | 0 => pure (some .flush, cursor)
  | 1 => pure (some .delimiter, cursor)
  | 2 => pure (some .responseEnd, cursor)
  | 3 => throw (.refused invalidProtocol)
  | length =>
    if ¬ (4 ≤ length ∧ length ≤ maxPacketLineBytes) then throw (.refused invalidProtocol)
    else do
      let stop ← okOr (checkedAdd cursor.offset (length - 4)) invalidProtocol
      let payload ← okOr (get input cursor.offset stop) invalidProtocol
      pure (some (.data payload), ⟨stop, cursor.remainingRecords⟩)

def PacketCursor.next (input : Bytes) (cursor : PacketCursor) :
    Checked BackendError (Option PacketLine × PacketCursor) :=
  if cursor.offset = input.length then pure (none, cursor)
  else if cursor.remainingRecords = 0 ∨ input.length - cursor.offset < 4 then
    throw (.refused invalidProtocol)
  else do
    let stop ← plus cursor.offset 4
    let header ← Slices.slice input cursor.offset stop
    let length ← parseHexLength header
    packetBody input ⟨stop, cursor.remainingRecords - 1⟩ length

/-- Reads packets until there are none. -/
def readPackets (input : Bytes) : Nat → PacketCursor → Checked BackendError (List PacketLine)
  | 0, _ => throw .outOfFuel
  | fuel + 1, cursor => do
    match ← cursor.next input with
    | (none, _) => pure []
    | (some packet, cursor) =>
      let packets ← readPackets input fuel cursor
      pure (packet :: packets)

end Reading

section Encoding

def hexCharacter (digit : Nat) : UInt8 := UInt8.ofNat (if digit < 10 then 0x30 + digit else 0x57 + digit)

/-- The digits of a number in lower case, as many as the width. -/
def hexPadded : Nat → Nat → Bytes
  | 0, _ => []
  | width + 1, n => hexPadded width (n / 16) ++ [hexCharacter (n % 16)]

def encodePacketLine (payload output : Bytes) : Checked BackendError Bytes := do
  let length ← okOr (checkedAdd payload.length 4) limitExceeded
  if length > maxPacketLineBytes then throw (.refused limitExceeded)
  else pure (output ++ hexPadded 4 length ++ payload)

def encodePacketLines (payloads : List Bytes) : Checked BackendError Bytes :=
  payloads.foldlM (fun output payload => encodePacketLine payload output) []

end Encoding

section Numbers

def HexDigit (b : UInt8) (digit : Nat) : Prop :=
  (ascii "0123456789abcdef")[digit]? = some b ∨ (ascii "0123456789ABCDEF")[digit]? = some b

/-- A number in hexadecimal, the most significant digit first, each in either case. -/
inductive HexNumber : Bytes → Nat → Prop
  | nil : HexNumber [] 0
  | snoc {text : Bytes} {n digit : Nat} {b : UInt8} (h : HexNumber text n) (hb : HexDigit b digit) :
      HexNumber (text ++ [b]) (n * 16 + digit)

variable {text header : Bytes} {b : UInt8} {n digit width : Nat}

theorem hexDigit_eq_some : hexDigit b = some digit ↔ HexDigit b digit := by
  have hall : ∀ b, ∀ d < 16, hexDigit b = some d ↔ HexDigit b d := by
    unfold HexDigit
    exact UInt8.forall_ofNat (by decide +kernel)
  have hbound : ∀ b, (hexDigit b).all (fun d => decide (d < 16)) = true :=
    UInt8.forall_ofNat (by decide +kernel)
  have hrange (h : hexDigit b = some digit) : digit < 16 := by
    have hb := hbound b
    rw [h] at hb
    exact of_decide_eq_true hb
  by_cases hdigit : digit < 16
  · exact hall b digit hdigit
  · refine iff_of_false (fun h => hdigit (hrange h)) ?_
    · rintro (h | h)
      · exact hdigit (List.getElem?_eq_some_iff.mp h).1
      · exact hdigit (List.getElem?_eq_some_iff.mp h).1

theorem HexDigit.lt (h : HexDigit b digit) : digit < 16 := by
  rcases h with h | h
  · exact (List.getElem?_eq_some_iff.mp h).1
  · exact (List.getElem?_eq_some_iff.mp h).1

theorem HexNumber.lt (h : HexNumber text n) : n < 16 ^ text.length := by
  induction h with
  | nil => exact Nat.one_pos
  | snoc h hb ih =>
    have hdigit := hb.lt
    rw [List.length_append, List.length_singleton, Nat.pow_succ]
    omega

theorem parseHexStep_eq_ok {value : Nat} (hvalue : value * 16 + 16 < wordLimit) :
    parseHexStep value b = .ok n ↔ ∃ digit, HexDigit b digit ∧ n = value * 16 + digit := by
  unfold parseHexStep
  rw [Except.bind_eq_ok_iff]
  refine exists_congr fun digit => ?_
  rw [okOr_eq_ok, hexDigit_eq_some]
  refine and_congr_right fun hdigit => ?_
  have hlt := hdigit.lt
  have hmul : checkedMul value 16 = some (value * 16) := checkedMul_eq_some.mpr ⟨by omega, rfl⟩
  rw [okOr_eq_ok, hmul, Option.bind_some, checkedAdd_eq_some, and_iff_right (by omega), eq_comm]

/-- A short header is read exactly when it is a number. -/
theorem parseHexLength_eq_ok (h : header.length < 15) :
    parseHexLength header = .ok n ↔ HexNumber header n := by
  induction header using List.reverseRecOn generalizing n with
  | nil =>
    constructor
    · intro hn
      cases hn
      exact .nil
    · intro hn
      generalize hnil : ([] : Bytes) = text at hn
      cases hn with
      | nil => rfl
      | snoc => exact absurd hnil.symm (List.append_ne_nil_of_right_ne_nil _ (List.cons_ne_nil _ _))
  | append_singleton text b ih =>
    rw [List.length_append, List.length_singleton] at h
    have hword {value : Nat} (hvalue : HexNumber text value) : value * 16 + 16 < wordLimit := by
      have hlt := hvalue.lt
      have hpow : 16 ^ text.length ≤ 16 ^ 14 := Nat.pow_le_pow_right (by decide) (by omega)
      have hlimit : 16 ^ 14 * 16 + 16 < wordLimit := by decide
      omega
    have hlast (value : Nat) : [b].foldlM parseHexStep value = parseHexStep value b := by
      simp only [List.foldlM_cons, List.foldlM_nil, bind_pure]
    unfold parseHexLength at ih ⊢
    rw [List.foldlM_append, Except.bind_eq_ok_iff]
    constructor
    · rintro ⟨value, hvalue, hstep⟩
      have hnumber := (ih (by omega)).mp hvalue
      rw [hlast, parseHexStep_eq_ok (hword hnumber)] at hstep
      obtain ⟨digit, hdigit, rfl⟩ := hstep
      exact .snoc hnumber hdigit
    · intro hn
      generalize hwhole : text ++ [b] = whole at hn
      cases hn with
      | nil => exact absurd hwhole (List.append_ne_nil_of_right_ne_nil _ (List.cons_ne_nil _ _))
      | snoc hnumber hdigit =>
        obtain ⟨rfl, hb⟩ := List.append_inj' hwhole rfl
        cases hb
        refine ⟨_, (ih (by omega)).mpr hnumber, ?_⟩
        rw [hlast, parseHexStep_eq_ok (hword hnumber)]
        exact ⟨_, hdigit, rfl⟩

theorem parseHexLength_safe (header : Bytes) : Safe (parseHexLength header) := by
  have hsteps (value : Nat) : Safe (header.foldlM parseHexStep value) := by
    induction header generalizing value with
    | nil => exact safe_pure
    | cons b header ih =>
      rw [List.foldlM_cons]
      exact (safe_okOr.bind fun _ _ => safe_okOr).bind fun value _ => ih value
  exact hsteps 0

theorem hexCharacter_digit (h : digit < 16) : HexDigit (hexCharacter digit) digit := by
  have hall : ∀ d : Fin 16, HexDigit (hexCharacter d) d := by
    unfold HexDigit
    decide
  exact hall ⟨digit, h⟩

theorem length_hexPadded : (hexPadded width n).length = width := by
  induction width generalizing n with
  | zero => rfl
  | succ width ih => rw [hexPadded, List.length_append, ih, List.length_singleton]

theorem hexPadded_number (h : n < 16 ^ width) : HexNumber (hexPadded width n) n := by
  induction width generalizing n with
  | zero =>
    rw [Nat.pow_zero] at h
    have hn : n = 0 := by omega
    rw [hn]
    exact .nil
  | succ width ih =>
    rw [Nat.pow_succ] at h
    have hnumber := HexNumber.snoc (ih (by omega : n / 16 < 16 ^ width))
      (hexCharacter_digit (Nat.mod_lt n (by decide : 0 < 16)))
    rwa [Nat.div_add_mod'] at hnumber

end Numbers

end Kitrove.Git
