import Mathlib.Data.List.Basic
import Kitrove.Support.Bytes

/-! Texts as their UTF-8 bytes: the shapes that identifiers, paths and digests have. -/

namespace Kitrove

abbrev Bytes := List UInt8

instance lawfulBEqBytes : LawfulBEq Bytes := inferInstance

def newline : UInt8 := 10

/-- The bytes of an ASCII text. -/
def ascii (text : String) : Bytes := text.toList.map fun c => c.toNat.toUInt8

def lowercaseOrDigit (b : UInt8) : Bool := (0x61 ≤ b && b ≤ 0x7A) || (0x30 ≤ b && b ≤ 0x39)

def validIdentifier : Bytes → Bool
  | [] => false
  | first :: rest =>
    lowercaseOrDigit first &&
      rest.all fun b => lowercaseOrDigit b || b == 0x2D || b == 0x5F || b == 0x2E

def stripPrefix (pattern text : Bytes) : Option Bytes :=
  if pattern.isPrefixOf text then some (text.drop pattern.length) else none

def stripSuffix (pattern text : Bytes) : Option Bytes :=
  if pattern.isSuffixOf text then some (text.take (text.length - pattern.length)) else none

variable {pattern rest : Bytes}

theorem stripPrefix_append : stripPrefix pattern (pattern ++ rest) = some rest := by
  simp [stripPrefix]

theorem stripSuffix_append : stripSuffix pattern (rest ++ pattern) = some rest := by
  simp [stripSuffix]

/-- Whether a valid text holds nothing but Unicode white space. -/
def isBlank : Bytes → Bool
  | [] => true
  | 0xC2 :: b :: rest => (b == 0x85 || b == 0xA0) && isBlank rest
  | 0xE1 :: 0x9A :: 0x80 :: rest => isBlank rest
  | 0xE2 :: 0x80 :: b :: rest =>
    ((0x80 ≤ b && b ≤ 0x8A) || b == 0xA8 || b == 0xA9 || b == 0xAF) && isBlank rest
  | 0xE2 :: 0x81 :: 0x9F :: rest => isBlank rest
  | 0xE3 :: 0x80 :: 0x80 :: rest => isBlank rest
  | b :: rest => ((0x09 ≤ b && b ≤ 0x0D) || b == 0x20) && isBlank rest

/-- Whether a valid text holds a Unicode white space character. -/
def containsBlank : Bytes → Bool
  | [] => false
  | b :: rest =>
    (match b :: rest with
      | 0xC2 :: c :: _ => c == 0x85 || c == 0xA0
      | 0xE1 :: 0x9A :: 0x80 :: _ => true
      | 0xE2 :: 0x80 :: c :: _ => (0x80 ≤ c && c ≤ 0x8A) || c == 0xA8 || c == 0xA9 || c == 0xAF
      | 0xE2 :: 0x81 :: 0x9F :: _ => true
      | 0xE3 :: 0x80 :: 0x80 :: _ => true
      | c :: _ => (0x09 ≤ c && c ≤ 0x0D) || c == 0x20
      | [] => false) || containsBlank rest

/-- `split(separator)`. -/
def splitOn (separator : UInt8) : Bytes → List Bytes
  | [] => [[]]
  | b :: rest =>
    if b = separator then [] :: splitOn separator rest
    else
      match splitOn separator rest with
      | [] => [[b]]
      | segment :: segments => (b :: segment) :: segments

theorem splitOn_eq (separator : UInt8) (text : Bytes) :
    splitOn separator text = text.splitOnP fun b => b == separator := by
  induction text with
  | nil => rfl
  | cons b text ih =>
    rw [splitOn, List.splitOnP_cons_eq_if_modifyHead, ih]
    obtain ⟨part, parts, hparts⟩ := List.exists_cons_of_ne_nil
      (List.splitOnP_ne_nil (fun b => b == separator) text)
    rw [hparts]
    by_cases hb : b = separator <;> simp [hb]

theorem splitOn_eq_splitOn (separator : UInt8) (text : Bytes) :
    splitOn separator text = text.splitOn separator :=
  splitOn_eq separator text

def lowercaseHex (b : UInt8) : Bool := (0x30 ≤ b && b ≤ 0x39) || (0x61 ≤ b && b ≤ 0x66)

def validDigest (digest : Bytes) : Bool := digest.length == 64 && digest.all lowercaseHex

theorem validDigest_replicate (h : lowercaseHex b = true) :
    validDigest (List.replicate 64 b) = true := by
  simp [validDigest, h]

theorem lowercaseHex_zero : lowercaseHex 0x30 = true := by decide

theorem lowercaseHex_one : lowercaseHex 0x31 = true := by decide

theorem lowercaseHex_two : lowercaseHex 0x32 = true := by decide

theorem validDigest_zeros : validDigest (List.replicate 64 0x30) = true :=
  validDigest_replicate lowercaseHex_zero

theorem validDigest_ones : validDigest (List.replicate 64 0x31) = true :=
  validDigest_replicate lowercaseHex_one

def bigEndian64 (n : Nat) : Bytes := (List.range 8).map fun i => UInt8.ofNat (n / 256 ^ (7 - i))

def littleEndian64 (n : Nat) : Bytes := (List.range 8).map fun i => UInt8.ofNat (n / 256 ^ i)

theorem littleEndian64_injective {m n : Nat} (hm : m < 256 ^ 8) (hn : n < 256 ^ 8)
    (h : littleEndian64 m = littleEndian64 n) : m = n := by
  simp only [littleEndian64, List.range, List.range.loop, List.map_cons, List.map_nil,
    List.cons.injEq, and_true] at h
  obtain ⟨h0, h1, h2, h3, h4, h5, h6, h7⟩ := h
  have hstep : ∀ i, m / 256 ^ (i + 1) = n / 256 ^ (i + 1) →
      UInt8.ofNat (m / 256 ^ i) = UInt8.ofNat (n / 256 ^ i) → m / 256 ^ i = n / 256 ^ i := by
    intro i hquotient hbyte
    have hdigit : m / 256 ^ i % 256 = n / 256 ^ i % 256 := by
      simpa using congrArg UInt8.toNat hbyte
    have hm := Nat.div_add_mod (m / 256 ^ i) 256
    have hn := Nat.div_add_mod (n / 256 ^ i) 256
    rw [Nat.div_div_eq_div_mul, ← Nat.pow_succ, Nat.succ_eq_add_one] at hm hn
    omega
  have h8 : m / 256 ^ 8 = n / 256 ^ 8 := by rw [Nat.div_eq_of_lt hm, Nat.div_eq_of_lt hn]
  have hall := hstep 0 (hstep 1 (hstep 2 (hstep 3 (hstep 4 (hstep 5 (hstep 6 (hstep 7 h8 h7) h6)
    h5) h4) h3) h2) h1) h0
  simpa using hall

theorem bigEndian64_injective {m n : Nat} (hm : m < 256 ^ 8) (hn : n < 256 ^ 8)
    (h : bigEndian64 m = bigEndian64 n) : m = n :=
  littleEndian64_injective hm hn (List.reverse_injective h)

/-- `write_text_record`. -/
def textRecord (value : Bytes) : Bytes := bigEndian64 value.length ++ value

/-- `write_count`. -/
def countRecord (count : Nat) : Bytes := bigEndian64 count

def optionalRecord : Option Bytes → Bytes
  | some value => 1 :: textRecord value
  | none => [0]

end Kitrove
