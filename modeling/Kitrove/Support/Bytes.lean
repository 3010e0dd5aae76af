import Mathlib.Algebra.Ring.Nat
import Mathlib.Data.List.Basic

/-! Facts about every byte and about every byte of a text, settled by running through them. -/

namespace UInt8

theorem forall_ofNat {p : UInt8 → Prop} (h : ∀ n < 256, p (UInt8.ofNat n)) (b : UInt8) : p b := by
  have hb := h b.toNat b.toNat_lt
  rwa [UInt8.ofNat_toNat] at hb

variable (p : UInt8 → Prop) [DecidablePred p]

/-- What holds of each byte of a text is decided on the text, not on all bytes there are. -/
instance (priority := high) decidableForallMemList (text : List UInt8) :
    Decidable (∀ b ∈ text, p b) :=
  List.decidableBAll p text

instance (priority := high) decidableForallMemOption (o : Option UInt8) :
    Decidable (∀ b ∈ o, p b) :=
  Option.decidableForallMem o

end UInt8
