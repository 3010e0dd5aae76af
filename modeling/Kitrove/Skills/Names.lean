import Kitrove.Skills.Capture
import Mathlib.Data.List.TakeWhile

/-! The two policies for names on Windows: where the one of the capture is the weaker one. -/

namespace Kitrove.Skills

section Names

def trimmedBase (name : Bytes) : Bytes :=
  ((name.takeWhile (· != 0x2E)).reverse.dropWhile (· == 0x20)).reverse

/-- A device of Windows that a name stands for although its part before the first dot is no
device: a console or the clock, or a device with spaces behind it. -/
def missedDevice (name : Bytes) : Bool :=
  let device := (trimmedBase name).map toAsciiUppercase
  [ascii "CLOCK$", ascii "CONIN$", ascii "CONOUT$"].contains device ||
    (isDevice device && trimmedBase name != name.takeWhile (· != 0x2E))

variable {name device : Bytes}

theorem any_stripPrefix {front : Bytes} {numbers : List Bytes} :
    (stripPrefix front device).any (fun number => numbers.contains number) = true ↔
      device ∈ numbers.map (front ++ ·) := by
  rw [Option.any_eq_true, List.mem_map]
  constructor
  · rintro ⟨number, hstrip, hnumber⟩
    unfold stripPrefix at hstrip
    split at hstrip
    · rename_i hfront
      obtain ⟨rest, rfl⟩ := List.isPrefixOf_iff_prefix.mp hfront
      rw [List.drop_left, Option.some.injEq] at hstrip
      subst hstrip
      exact ⟨rest, List.contains_iff_mem.mp hnumber, rfl⟩
    · contradiction
  · rintro ⟨number, hnumber, rfl⟩
    exact ⟨number, stripPrefix_append, List.contains_iff_mem.mpr hnumber⟩

/-- The reserved names are the devices of the capture, the clock and the consoles. -/
theorem mem_reservedWindowsNames : device ∈ reservedWindowsNames ↔
    device ∈ [ascii "CLOCK$", ascii "CONIN$", ascii "CONOUT$"] ∨ isDevice device = true := by
  have hperm : reservedWindowsNames.Perm ([ascii "CLOCK$", ascii "CONIN$", ascii "CONOUT$"] ++
      ([ascii "CON", ascii "PRN", ascii "AUX", ascii "NUL"] ++
        deviceNumbers.map (ascii "COM" ++ ·) ++ deviceNumbers.map (ascii "LPT" ++ ·))) := by
    decide +kernel
  rw [hperm.mem_iff, List.mem_append, List.mem_append, List.mem_append, isDevice, Bool.or_eq_true,
    Bool.or_eq_true, any_stripPrefix, any_stripPrefix, List.contains_iff_mem]

theorem toAsciiUppercase_dot {b : UInt8} : (toAsciiUppercase b != 0x2E) = (b != 0x2E) := by
  have hall : ∀ k < 256, (toAsciiUppercase (UInt8.ofNat k) != 0x2E) = (UInt8.ofNat k != 0x2E) := by
    decide +kernel
  have hb := hall b.toNat b.toNat_lt
  rwa [UInt8.ofNat_toNat] at hb

theorem deviceBase_eq : (name.map toAsciiUppercase).takeWhile (· != 0x2E) =
    (name.takeWhile (· != 0x2E)).map toAsciiUppercase := by
  induction name with
  | nil => rfl
  | cons b name ih =>
    rw [List.map_cons, List.takeWhile_cons, List.takeWhile_cons, toAsciiUppercase_dot, ih]
    cases b != 0x2E <;> rfl

theorem dropWhile_congr {p q : UInt8 → Bool} {text : Bytes} (h : ∀ b ∈ text, p b = q b) :
    text.dropWhile p = text.dropWhile q := by
  induction text with
  | nil => rfl
  | cons b text ih =>
    rw [List.dropWhile_cons, List.dropWhile_cons, h b List.mem_cons_self,
      ih fun c hc => h c (List.mem_cons_of_mem _ hc)]

theorem stem_eq : ((name.takeWhile (· != 0x2E)).reverse.dropWhile
    fun b => b == 0x20 || b == 0x2E).reverse = trimmedBase name := by
  unfold trimmedBase
  congr 1
  refine dropWhile_congr fun b hb => ?_
  have hdot := List.mem_takeWhile_imp (List.mem_reverse.mp hb)
  rw [bne_iff_ne] at hdot
  rw [beq_eq_false_iff_ne.mpr hdot, Bool.or_false]

/-- A name that the capture accepts is lossless on Windows unless it stands for a missed device. -/
theorem isLossless_iff (hne : name ≠ []) (hslash : 0x2F ∉ name) (hback : 0x5C ∉ name)
    (h : validPortableSegment name = true) :
    isLosslessWindowsComponent name = true ↔ missedDevice name = false := by
  unfold validPortableSegment at h
  dsimp only at h
  rw [Bool.not_eq_true', Bool.or_eq_false_iff, deviceBase_eq] at h
  obtain ⟨hdevice, hinvalid⟩ := h
  simp only [Bool.or_eq_false_iff] at hinvalid
  obtain ⟨⟨⟨hdot, hspace⟩, hcontrol⟩, hpunctuation⟩ := hinvalid
  have hnonempty : name.isEmpty = false := by
    rw [List.isEmpty_eq_false_iff]
    exact hne
  have hforbidden : (name.any fun b => (ascii "<>:\"/\\|?*").contains b) = false := by
    rw [List.any_eq_false] at hpunctuation ⊢
    intro b hb hmem
    have hb' := hpunctuation b hb
    have hperm : (ascii "<>:\"/\\|?*").Perm (0x2F :: 0x5C :: ascii "<>:\"|?*") := by decide +kernel
    rw [List.contains_iff_mem, hperm.mem_iff, List.mem_cons, List.mem_cons] at hmem
    rcases hmem with rfl | rfl | hmem
    · exact hslash hb
    · exact hback hb
    · exact hb' (List.contains_iff_mem.mpr hmem)
  unfold isLosslessWindowsComponent missedDevice
  rw [hnonempty, hdot, hspace, hcontrol, hforbidden, if_neg (by simp)]
  dsimp only
  rw [stem_eq, Bool.not_eq_true', ← Bool.not_eq_true, List.contains_iff_mem, mem_reservedWindowsNames,
    ← Bool.not_eq_true, Bool.or_eq_true, Bool.and_eq_true, List.contains_iff_mem, bne_iff_ne]
  refine not_congr (or_congr_right ?_)
  rw [iff_self_and]
  intro hreserved heq
  rw [heq, hdevice] at hreserved
  contradiction

end Names

end Kitrove.Skills
