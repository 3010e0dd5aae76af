import Mathlib.Data.List.Basic
import Kitrove.Support.Bytes

/-! UTF-8 validity of a byte string, read one byte at a time. -/

namespace Utf8

/-- The bounds of the continuation bytes a character still owes. -/
abbrev Owed := List (UInt8 × UInt8)

def continuation : UInt8 × UInt8 := (0x80, 0xBF)

/-- What the first byte of a character owes. -/
def leading (b : UInt8) : Option Owed :=
  if b < 0x80 then some []
  else if b < 0xC2 then none
  else if b < 0xE0 then some [continuation]
  else if b = 0xE0 then some [(0xA0, 0xBF), continuation]
  else if b = 0xED then some [(0x80, 0x9F), continuation]
  else if b < 0xF0 then some [continuation, continuation]
  else if b = 0xF0 then some [(0x90, 0xBF), continuation, continuation]
  else if b < 0xF4 then some [continuation, continuation, continuation]
  else if b = 0xF4 then some [(0x80, 0x8F), continuation, continuation]
  else none

def step : Owed → UInt8 → Option Owed
  | [], b => leading b
  | (low, high) :: owed, b => if low ≤ b ∧ b ≤ high then some owed else none

def run : Owed → List UInt8 → Option Owed
  | owed, [] => some owed
  | owed, b :: bytes =>
    match step owed b with
    | none => none
    | some owed => run owed bytes

def valid (bytes : List UInt8) : Bool := run [] bytes == some []

variable {owed next : Owed} {b : UInt8} {l k : List UInt8}

theorem valid_iff : valid l = true ↔ run [] l = some [] := by
  simp [valid]

@[simp] theorem valid_nil : valid [] = true := rfl

theorem run_append : run owed (l ++ k) = (run owed l).bind fun owed => run owed k := by
  induction l generalizing owed with
  | nil => rfl
  | cons b l ih =>
    rw [List.cons_append, run, run]
    cases step owed b with
    | none => rfl
    | some next => exact ih

/-- No continuation byte is an ASCII byte. -/
def Multibyte (owed : Owed) : Prop := ∀ r ∈ owed, 0x80 ≤ r.1

theorem leading_multibyte (h : leading b = some owed) : Multibyte owed := by
  unfold leading at h
  repeat' split at h
  all_goals
    simp only [Option.some.injEq, reduceCtorEq] at h
    try subst h
    try (simp [Multibyte, continuation])

theorem step_multibyte (ho : Multibyte owed) (h : step owed b = some next) : Multibyte next := by
  cases owed with
  | nil => exact leading_multibyte h
  | cons r owed =>
    simp only [step] at h
    split at h
    · cases h
      exact fun r hr => ho r (List.mem_cons_of_mem _ hr)
    · contradiction

/-- An ASCII byte stands between characters only. -/
theorem step_ascii (ho : Multibyte owed) (hb : b < 0x80) (h : step owed b = some next) :
    owed = [] ∧ next = [] := by
  cases owed with
  | nil =>
    simp only [step, leading, hb, if_true, Option.some.injEq] at h
    exact ⟨rfl, h.symm⟩
  | cons r owed =>
    simp only [step] at h
    split at h
    · rename_i hr
      have hlow := ho r List.mem_cons_self
      exact absurd (UInt8.lt_of_lt_of_le hb (UInt8.le_trans hlow hr.1)) (UInt8.lt_irrefl b)
    · contradiction

theorem run_multibyte (ho : Multibyte owed) (h : run owed l = some next) : Multibyte next := by
  induction l generalizing owed with
  | nil =>
    cases h
    exact ho
  | cons b l ih =>
    rw [run] at h
    cases hs : step owed b with
    | none => simp [hs] at h
    | some mid =>
      rw [hs] at h
      exact ih (step_multibyte ho hs) h

theorem multibyte_nil : Multibyte [] := by simp [Multibyte]

theorem valid_append (hl : valid l = true) : valid (l ++ k) = valid k := by
  rw [valid, run_append, valid_iff.mp hl]
  rfl

/-- A text is valid exactly when it is on both sides of an ASCII byte. -/
theorem valid_append_ascii (hb : b < 0x80) :
    valid (l ++ b :: k) = true ↔ valid l = true ∧ valid k = true := by
  have hlead : run [] (b :: k) = run [] k := by simp [run, step, leading, hb]
  constructor
  · intro h
    rw [valid_iff, run_append] at h
    cases hr : run [] l with
    | none => simp [hr] at h
    | some owed =>
      rw [hr, Option.bind_some, run] at h
      cases hs : step owed b with
      | none => simp [hs] at h
      | some next =>
        obtain ⟨rfl, rfl⟩ := step_ascii (run_multibyte multibyte_nil hr) hb hs
        rw [hs] at h
        exact ⟨valid_iff.mpr hr, valid_iff.mpr h⟩
  · rintro ⟨hl, hk⟩
    rw [valid_append hl, valid_iff, hlead]
    exact valid_iff.mp hk

theorem valid_of_ascii (h : ∀ b ∈ l, b < 0x80) : valid l = true := by
  induction l with
  | nil => rfl
  | cons b l ih =>
    have hb := h b List.mem_cons_self
    exact (valid_append_ascii (l := []) hb).mpr
      ⟨rfl, ih fun c hc => h c (List.mem_cons_of_mem _ hc)⟩

end Utf8
