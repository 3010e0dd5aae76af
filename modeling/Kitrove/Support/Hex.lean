import Mathlib.Data.List.Induction
import Kitrove.Support.Bytes

/-! Lower-case hexadecimal: digits, numbers of a fixed width, and bytes of two digits each. -/

namespace Hex

def digit (n : Nat) : UInt8 := if n < 10 then UInt8.ofNat (0x30 + n) else UInt8.ofNat (0x57 + n)

def isDigit (b : UInt8) : Bool := (0x30 ≤ b && b ≤ 0x39) || (0x61 ≤ b && b ≤ 0x66)

def value (b : UInt8) : Nat := if b ≤ 0x39 then b.toNat - 0x30 else b.toNat - 0x57

/-- The last digits of a number, as many as the width says. -/
def fixed : Nat → Nat → List UInt8
  | 0, _ => []
  | width + 1, n => fixed width (n / 16) ++ [digit (n % 16)]

def number (text : List UInt8) : Nat := text.foldl (fun n b => 16 * n + value b) 0

section Digits

variable {n width : Nat} {b : UInt8} {text : List UInt8}

theorem value_digit (h : n < 16) : value (digit n) = n := by
  have hall : ∀ i : Fin 16, value (digit i) = i := by decide
  exact hall ⟨n, h⟩

theorem isDigit_digit (h : n < 16) : isDigit (digit n) = true := by
  have hall : ∀ i : Fin 16, isDigit (digit i) = true := by decide
  exact hall ⟨n, h⟩

theorem digit_facts (b : UInt8) :
    isDigit b = true → digit (value b) = b ∧ value b < 16 ∧ b < 0x80 := by
  revert b
  exact UInt8.forall_ofNat (by decide +kernel)

theorem digit_value (h : isDigit b = true) : digit (value b) = b := (digit_facts b h).1

theorem value_lt (h : isDigit b = true) : value b < 16 := (digit_facts b h).2.1

theorem isDigit_ascii (h : isDigit b = true) : b < 0x80 := (digit_facts b h).2.2

end Digits

section Numbers

variable {n width : Nat} {b : UInt8} {text : List UInt8}

theorem length_fixed : (fixed width n).length = width := by
  induction width generalizing n with
  | zero => rfl
  | succ width ih => rw [fixed, List.length_append, ih, List.length_singleton]

theorem isDigit_fixed : (fixed width n).all isDigit = true := by
  induction width generalizing n with
  | zero => rfl
  | succ width ih =>
    have hlast : isDigit (digit (n % 16)) = true := isDigit_digit (Nat.mod_lt n (by decide))
    rw [fixed, List.all_append, ih, List.all_cons, hlast]
    rfl

theorem number_concat : number (text ++ [b]) = 16 * number text + value b := by
  rw [number, List.foldl_append]
  rfl

theorem number_fixed (h : n < 16 ^ width) : number (fixed width n) = n := by
  induction width generalizing n with
  | zero =>
    rw [Nat.pow_zero, Nat.lt_one_iff] at h
    rw [h]
    rfl
  | succ width ih =>
    have hfront : n / 16 < 16 ^ width := by
      rw [Nat.pow_succ] at h
      exact Nat.div_lt_of_lt_mul (by omega)
    rw [fixed, number_concat, ih hfront, value_digit (Nat.mod_lt n (by decide))]
    omega

theorem number_lt (h : text.all isDigit = true) : number text < 16 ^ text.length := by
  induction text using List.reverseRecOn with
  | nil => exact Nat.one_pos
  | append_singleton front b ih =>
    rw [List.all_append, Bool.and_eq_true, List.all_cons, Bool.and_eq_true] at h
    have hfront := ih h.1
    have hb := value_lt h.2.1
    rw [number_concat, List.length_append, List.length_singleton, Nat.pow_succ]
    omega

/-- A text of digits is the spelling of its number. -/
theorem fixed_number (h : text.all isDigit = true) : fixed text.length (number text) = text := by
  induction text using List.reverseRecOn with
  | nil => rfl
  | append_singleton front b ih =>
    rw [List.all_append, Bool.and_eq_true, List.all_cons, Bool.and_eq_true] at h
    have hb := value_lt h.2.1
    have hdiv : (16 * number front + value b) / 16 = number front := by omega
    have hmod : (16 * number front + value b) % 16 = value b := by omega
    rw [number_concat, List.length_append, List.length_singleton, fixed, hdiv, hmod, ih h.1,
      digit_value h.2.1]

end Numbers

section Bytes

def encode (bytes : List UInt8) : List UInt8 := bytes.flatMap fun b => fixed 2 b.toNat

/-- The bytes of a text of pairs of digits. -/
def decode : List UInt8 → Option (List UInt8)
  | [] => some []
  | [_] => none
  | a :: b :: rest =>
    if isDigit a && isDigit b then (decode rest).map (UInt8.ofNat (number [a, b]) :: ·) else none

variable {bytes text : List UInt8}

theorem length_encode : (encode bytes).length = 2 * bytes.length := by
  induction bytes with
  | nil => rfl
  | cons b bytes ih =>
    rw [encode, List.flatMap_cons, List.length_append, length_fixed, List.length_cons]
    rw [encode] at ih
    omega

theorem isDigit_encode : (encode bytes).all isDigit = true := by
  rw [encode, List.all_flatMap, List.all_eq_true]
  exact fun _ _ => isDigit_fixed

theorem decode_encode : decode (encode bytes) = some bytes := by
  induction bytes with
  | nil => rfl
  | cons b bytes ih =>
    have hlt : b.toNat < 16 ^ 2 := b.toNat_lt
    have hpair : fixed 2 b.toNat = [digit (b.toNat / 16 % 16), digit (b.toNat % 16)] := rfl
    have hnumber := number_fixed hlt
    have hdigits : (fixed 2 b.toNat).all isDigit = true := isDigit_fixed
    rw [hpair] at hnumber hdigits
    rw [List.all_cons, List.all_cons, Bool.and_eq_true, Bool.and_eq_true] at hdigits
    change decode (fixed 2 b.toNat ++ encode bytes) = _
    rw [hpair, List.cons_append, List.cons_append, List.nil_append, decode, hnumber, hdigits.1,
      hdigits.2.1, ih, UInt8.ofNat_toNat]
    rfl

/-- What is decoded is encoded as it was. -/
theorem encode_decode (h : decode text = some bytes) : encode bytes = text := by
  induction text using decode.induct generalizing bytes with
  | case1 =>
    obtain rfl := Option.some.inj h
    rfl
  | case2 => contradiction
  | case3 a b rest hdigits ih =>
    rw [decode, if_pos hdigits, Option.map_eq_some_iff] at h
    obtain ⟨tail, htail, rfl⟩ := h
    have hall : [a, b].all isDigit = true := by
      rw [List.all_cons, List.all_cons, List.all_nil, Bool.and_true]
      exact hdigits
    have hbyte : (UInt8.ofNat (number [a, b])).toNat = number [a, b] :=
      Nat.mod_eq_of_lt (number_lt hall)
    have hpair : fixed 2 (number [a, b]) = [a, b] := fixed_number hall
    change fixed 2 (UInt8.ofNat (number [a, b])).toNat ++ encode tail = _
    rw [hbyte, hpair, ih htail]
    rfl
  | case4 a b rest hdigits =>
    rw [decode, if_neg hdigits] at h
    contradiction

/-- Digits in pairs are decoded. -/
theorem decode_isSome (h : text.all isDigit = true) {n : Nat} (hlength : text.length = 2 * n) :
    ∃ bytes, decode text = some bytes ∧ bytes.length = n := by
  induction n generalizing text with
  | zero =>
    rw [List.eq_nil_of_length_eq_zero hlength]
    exact ⟨[], rfl, rfl⟩
  | succ n ih =>
    match text, hlength with
    | a :: b :: rest, hlength =>
      rw [List.all_cons, List.all_cons, Bool.and_eq_true, Bool.and_eq_true] at h
      rw [List.length_cons, List.length_cons] at hlength
      obtain ⟨bytes, hbytes, hn⟩ := ih h.2.2 (by omega)
      refine ⟨UInt8.ofNat (number [a, b]) :: bytes, ?_, by rw [List.length_cons, hn]⟩
      rw [decode, h.1, h.2.1, hbytes]
      rfl

end Bytes

end Hex
