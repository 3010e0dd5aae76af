import Kitrove.Release.Xz
import Mathlib.Tactic.Ring

/-! The numbers of an XZ envelope: seven bits a byte, and no encoding but the shortest one. -/

namespace Kitrove

open Slices Except

section Encodings

/-- Every byte but the last one says that another one follows. -/
def IsVli : Bytes → Prop
  | [] => False
  | [b] => b.toNat < 128
  | b :: c :: bytes => 128 ≤ b.toNat ∧ IsVli (c :: bytes)

def vliValue : Bytes → Nat
  | [] => 0
  | b :: bytes => b.toNat % 128 + 128 * vliValue bytes

/-- The digits of a number below `128 ^ width`, without leading zeros. -/
def vliDigits : Nat → Nat → Bytes
  | 0, _ => []
  | width + 1, n =>
    if n < 128 then [UInt8.ofNat n]
    else UInt8.ofNat (n % 128 + 128) :: vliDigits width (n / 128)

def vliBytes (n : Nat) : Bytes := vliDigits 9 n

/-- An encoding of the number that no other one is shorter than. -/
structure ShortestVli (encoded : Bytes) (n : Nat) : Prop where
  isVli : IsVli encoded
  value : vliValue encoded = n
  shortest : ∀ other, IsVli other → vliValue other = n → encoded.length ≤ other.length

variable {width n : Nat} {encoded other : Bytes} {b : UInt8}

theorem isVli_cons (h : encoded ≠ []) : IsVli (b :: encoded) ↔ 128 ≤ b.toNat ∧ IsVli encoded := by
  cases encoded with
  | nil => exact absurd rfl h
  | cons c bytes => rfl

theorem IsVli.ne_nil (h : IsVli encoded) : encoded ≠ [] := by
  rintro rfl
  exact h

theorem vliDigits_isVli (h : n < 128 ^ (width + 1)) :
    IsVli (vliDigits (width + 1) n) ∧ vliValue (vliDigits (width + 1) n) = n := by
  induction width generalizing n with
  | zero =>
    rw [Nat.zero_add, Nat.pow_one] at h
    have hbyte : (UInt8.ofNat n).toNat = n := by
      rw [UInt8.toNat_ofNat', Nat.mod_eq_of_lt (by omega)]
    rw [vliDigits, if_pos h]
    refine ⟨?_, ?_⟩
    · rw [IsVli, hbyte]
      exact h
    · rw [vliValue, vliValue, hbyte]
      omega
  | succ width ih =>
    rw [vliDigits]
    by_cases hlt : n < 128
    · have hbyte : (UInt8.ofNat n).toNat = n := by
        rw [UInt8.toNat_ofNat', Nat.mod_eq_of_lt (by omega)]
      rw [if_pos hlt]
      refine ⟨?_, ?_⟩
      · rw [IsVli, hbyte]
        exact hlt
      · rw [vliValue, vliValue, hbyte]
        omega
    · rw [Nat.pow_succ] at h
      obtain ⟨hvli, hvalue⟩ := @ih (n / 128) (by omega)
      have hbyte : (UInt8.ofNat (n % 128 + 128)).toNat = n % 128 + 128 := by
        rw [UInt8.toNat_ofNat', Nat.mod_eq_of_lt (by omega)]
      rw [if_neg hlt, isVli_cons hvli.ne_nil, vliValue, hbyte, hvalue]
      exact ⟨⟨by omega, hvli⟩, by omega⟩

/-- No encoding is shorter than the digits. -/
theorem length_vliDigits_le (h : IsVli encoded) :
    (vliDigits width (vliValue encoded)).length ≤ encoded.length := by
  induction width generalizing encoded with
  | zero => exact Nat.zero_le _
  | succ width ih =>
    cases encoded with
    | nil => exact h.elim
    | cons b bytes =>
      rw [vliDigits]
      split
      · simp
      · rename_i hlt
        have hne : bytes ≠ [] := by
          rintro rfl
          rw [vliValue, vliValue] at hlt
          omega
        have hrest := ((isVli_cons hne).mp h).2
        have hdiv : vliValue (b :: bytes) / 128 = vliValue bytes := by
          rw [vliValue]
          omega
        rw [hdiv, List.length_cons, List.length_cons]
        exact Nat.succ_le_succ (ih hrest)

/-- Encodings of one number and one length are the same. -/
theorem IsVli.eq_of_value (h : IsVli encoded) (h' : IsVli other)
    (hlength : encoded.length = other.length) (hvalue : vliValue encoded = vliValue other) :
    encoded = other := by
  induction encoded generalizing other with
  | nil => exact h.elim
  | cons b bytes ih =>
    cases other with
    | nil => exact h'.elim
    | cons c others =>
      rw [List.length_cons, List.length_cons, Nat.succ.injEq] at hlength
      rw [vliValue, vliValue] at hvalue
      by_cases hne : bytes = []
      · subst hne
        rw [List.length_nil] at hlength
        have hnil := List.length_eq_zero_iff.mp hlength.symm
        subst hnil
        have hb : b.toNat < 128 := h
        have hc : c.toNat < 128 := h'
        rw [UInt8.toNat_inj.mp (show b.toNat = c.toNat by omega)]
      · have hne' : others ≠ [] := by
          rintro rfl
          exact hne (List.length_eq_zero_iff.mp hlength)
        obtain ⟨hb, hrest⟩ := (isVli_cons hne).mp h
        obtain ⟨hc, hrest'⟩ := (isVli_cons hne').mp h'
        have hblt := b.toNat_lt
        have hclt := c.toNat_lt
        rw [ih hrest hrest' hlength (by omega),
          UInt8.toNat_inj.mp (show b.toNat = c.toNat by omega)]

theorem shortestVli_iff (h : n < 2 ^ 63) : ShortestVli encoded n ↔ encoded = vliBytes n := by
  obtain ⟨hvli, hvalue⟩ := @vliDigits_isVli 8 n h
  constructor
  · rintro ⟨hencoded, rfl, hshortest⟩
    refine hencoded.eq_of_value hvli (Nat.le_antisymm (hshortest _ hvli hvalue) ?_) hvalue.symm
    exact length_vliDigits_le hencoded
  · rintro rfl
    refine ⟨hvli, hvalue, fun other hother hsame => ?_⟩
    rw [vliBytes, ← hsame]
    exact length_vliDigits_le hother

end Encodings

section Reader

variable {bytes : Bytes} {position value k n : Nat}

theorem and_127 {b : UInt8} : (b &&& 0x7f).toNat = b.toNat % 128 := by
  rw [UInt8.toNat_and]
  exact Nat.and_two_pow_sub_one_eq_mod b.toNat 7

theorem and_128 {b : UInt8} : b &&& 0x80 = 0 ↔ b.toNat < 128 := by
  have hall : ∀ k < 256, (UInt8.ofNat k &&& 0x80 = 0 ↔ k < 128) := by decide +kernel
  have hb := hall b.toNat b.toNat_lt
  rwa [UInt8.ofNat_toNat] at hb

/-- One byte of the loop: seven more bits. -/
theorem parseXzVliLoop_cons {b : UInt8} {index : Nat} (hindex : index ≤ 8)
    (hvalue : value < 128 ^ index) : parseXzVliLoop (b :: bytes) index value =
      if b.toNat < 128 then
        if index ≠ 0 ∧ b = 0 then throw (.refused .invalidXz)
        else pure (value + b.toNat % 128 * 128 ^ index, index + 1)
      else parseXzVliLoop bytes (index + 1) (value + b.toNat % 128 * 128 ^ index) := by
  have hpow : 2 ^ (index * 7) = 128 ^ index := by
    rw [Nat.mul_comm, Nat.pow_mul]
  have hle : 128 ^ index ≤ 128 ^ 8 := Nat.pow_le_pow_right (by decide) hindex
  have hmod : b.toNat % 128 < 128 := Nat.mod_lt _ (by decide)
  have hpart : b.toNat % 128 * 128 ^ index ≤ 127 * 128 ^ 8 :=
    Nat.mul_le_mul (by omega) hle
  have hshl : checkedShl (b &&& 0x7f).toNat (index * 7) = some (b.toNat % 128 * 128 ^ index) := by
    unfold checkedShl
    rw [if_pos (by omega), and_127, hpow, Nat.mod_eq_of_lt]
    change _ < 2 ^ 64
    omega
  have hadd : checkedAdd value (b.toNat % 128 * 128 ^ index) =
      some (value + b.toNat % 128 * 128 ^ index) := by
    refine checkedAdd_eq_some.mpr ⟨?_, rfl⟩
    change _ < 2 ^ 64
    omega
  rw [parseXzVliLoop, hshl]
  change (invalidXz (checkedAdd value _) >>= fun _ => _) = _
  rw [hadd]
  change (if b &&& 0x80 = 0 then _ else _) = _
  simp only [and_128]

theorem parseXzVliLoop_eq_ok {index : Nat} (hindex : k + index = 9) (hvalue : value < 128 ^ index)
    {v : Nat} : parseXzVliLoop (bytes.take k) index value = .ok (v, n) ↔
      ∃ w rest, w < 128 ^ k ∧ (index ≠ 0 → w ≠ 0) ∧ 0 < k ∧ bytes = vliDigits k w ++ rest ∧
        v = value + 128 ^ index * w ∧ n = index + (vliDigits k w).length := by
  induction k generalizing bytes index value with
  | zero =>
    rw [List.take_zero]
    refine iff_of_false nofun ?_
    rintro ⟨w, rest, -, -, hpos, -⟩
    exact Nat.lt_irrefl 0 hpos
  | succ k ih =>
    cases bytes with
    | nil =>
      rw [List.take_nil]
      refine iff_of_false nofun ?_
      rintro ⟨w, rest, -, -, -, hbytes, -⟩
      rw [vliDigits] at hbytes
      split at hbytes <;> contradiction
    | cons b bytes =>
      have hmod : b.toNat % 128 < 128 := Nat.mod_lt _ (by decide)
      rw [List.take_succ_cons, parseXzVliLoop_cons (by omega) hvalue]
      by_cases hlast : b.toNat < 128
      · rw [if_pos hlast, Nat.mod_eq_of_lt hlast]
        constructor
        · intro h
          split at h
          · contradiction
          · rename_i hzero
            cases h
            have hpow : 128 ≤ 128 ^ (k + 1) := Nat.le_self_pow (Nat.succ_ne_zero k) 128
            have hdigits : vliDigits (k + 1) b.toNat = [b] := by
              rw [vliDigits, if_pos hlast, UInt8.ofNat_toNat]
            refine ⟨b.toNat, bytes, by omega, fun hindex hb => hzero ⟨hindex, ?_⟩,
              Nat.succ_pos k, by rw [hdigits]; rfl, by rw [Nat.mul_comm], by rw [hdigits]; rfl⟩
            exact UInt8.toNat_inj.mp hb
        · rintro ⟨w, rest, hw, hne, -, hbytes, rfl, rfl⟩
          rw [vliDigits] at hbytes ⊢
          by_cases hlt : w < 128
          · rw [if_pos hlt] at hbytes ⊢
            have hb : b = UInt8.ofNat w := (List.cons.inj hbytes).1
            have hbw : b.toNat = w := by
              rw [hb, UInt8.toNat_ofNat', Nat.mod_eq_of_lt (by omega)]
            rw [if_neg, hbw, Nat.mul_comm]
            · rfl
            · rintro ⟨hindex, hzero⟩
              refine hne hindex ?_
              rw [← hbw, hzero]
              rfl
          · rw [if_neg hlt] at hbytes
            have hb : b = UInt8.ofNat (w % 128 + 128) := (List.cons.inj hbytes).1
            rw [hb, UInt8.toNat_ofNat', Nat.mod_eq_of_lt (by omega)] at hlast
            omega
      · rw [if_neg hlast]
        have hnext : value + b.toNat % 128 * 128 ^ index < 128 ^ (index + 1) := by
          have hpart := Nat.mul_le_mul_right (128 ^ index) (Nat.le_of_lt_succ hmod)
          rw [Nat.pow_succ]
          omega
        rw [ih (by omega) hnext]
        have hb := b.toNat_lt
        constructor
        · rintro ⟨w, rest, hw, hne, hpos, rfl, rfl, rfl⟩
          have hwne := hne (Nat.succ_ne_zero index)
          have hdiv : (b.toNat % 128 + 128 * w) / 128 = w := by omega
          have hdigit : UInt8.ofNat ((b.toNat % 128 + 128 * w) % 128 + 128) = b := by
            refine UInt8.toNat_inj.mp ?_
            rw [UInt8.toNat_ofNat']
            omega
          have hdigits : vliDigits (k + 1) (b.toNat % 128 + 128 * w) = b :: vliDigits k w := by
            rw [vliDigits, if_neg (by omega), hdiv, hdigit]
          refine ⟨b.toNat % 128 + 128 * w, rest, ?_, fun _ => by omega, Nat.succ_pos k, ?_, ?_, ?_⟩
          · rw [Nat.pow_succ]
            omega
          · rw [hdigits]
            rfl
          · rw [Nat.pow_succ]
            ring
          · rw [hdigits, List.length_cons]
            omega
        · rintro ⟨w, rest, hw, -, -, hbytes, rfl, rfl⟩
          rw [vliDigits] at hbytes ⊢
          by_cases hlt : w < 128
          · rw [if_pos hlt] at hbytes
            have hbw : b = UInt8.ofNat w := (List.cons.inj hbytes).1
            rw [hbw, UInt8.toNat_ofNat', Nat.mod_eq_of_lt (by omega)] at hlast
            omega
          · rw [if_neg hlt] at hbytes ⊢
            obtain ⟨hbw, hrest⟩ := List.cons.inj hbytes
            have hbNat : b.toNat % 128 = w % 128 := by
              rw [hbw, UInt8.toNat_ofNat']
              omega
            rw [Nat.pow_succ] at hw
            have hk : 0 < k := by
              rcases Nat.eq_zero_or_pos k with rfl | hk
              · omega
              · exact hk
            refine ⟨w / 128, rest, by omega, fun _ => by omega, hk, hrest, ?_, ?_⟩
            · calc value + 128 ^ index * w = value + 128 ^ index * (w % 128 + 128 * (w / 128)) := by
                    rw [Nat.mod_add_div]
                _ = value + b.toNat % 128 * 128 ^ index + 128 ^ (index + 1) * (w / 128) := by
                    rw [hbNat, Nat.pow_succ]
                    ring
            · rw [List.length_cons]
              omega

/-- The reader accepts the shortest encodings of the numbers below `2 ^ 63`. -/
theorem parseXzVli_eq_ok {v : Nat} : parseXzVli bytes = .ok (v, n) ↔
    v < 2 ^ 63 ∧ ∃ rest, bytes = vliBytes v ++ rest ∧ n = (vliBytes v).length := by
  rw [parseXzVli, parseXzVliLoop_eq_ok rfl Nat.one_pos]
  constructor
  · rintro ⟨w, rest, hw, -, -, hbytes, rfl, rfl⟩
    rw [Nat.pow_zero, Nat.one_mul, Nat.zero_add, Nat.zero_add]
    exact ⟨hw, rest, hbytes, rfl⟩
  · rintro ⟨hv, rest, hbytes, rfl⟩
    exact ⟨v, rest, hv, fun h => absurd rfl h, by decide, hbytes, by omega, by rw [Nat.zero_add]; rfl⟩

theorem parseXzVli_safe : Safe (parseXzVli bytes) := by
  have hloop : ∀ (bytes : Bytes) (index value : Nat), Safe (parseXzVliLoop bytes index value) := by
    intro bytes
    induction bytes with
    | nil => exact fun _ _ => safe_refused
    | cons b bytes ih =>
      intro index value
      refine safe_okOr.bind fun part _ => safe_okOr.bind fun value _ => ?_
      refine Safe.ite (fun _ => Safe.ite (fun _ => safe_refused) fun _ => safe_pure) fun _ => ?_
      exact ih _ _
  exact hloop _ _ _

end Reader

end Kitrove
