import Kitrove.Model.Text
import Kitrove.Support.Slices

/-! What the readers of release archives share: the limits, and numbers at fixed offsets. -/

namespace Kitrove

open Slices

inductive ArchiveIntakeError where
  | archiveTooLarge
  | invalidZip
  | invalidXz
  | invalidTar
  | unsupportedFormat
  | unsupportedCompression
  | unsupportedTarMetadata
  deriving DecidableEq

abbrev Intake (α : Type) := Checked ArchiveIntakeError α

structure ArchiveLimits where
  maxXzBlocks : Nat
  maxXzDictionaryBytes : Nat
  maxXzIndexBytes : Nat
  maxZipCentralDirectoryBytes : Nat
  maxEntries : Nat
  maxPathBytes : Nat

/-- `APPLICATION_ARCHIVE_LIMITS`. -/
def applicationArchiveLimits : ArchiveLimits where
  maxXzBlocks := 1024
  maxXzDictionaryBytes := 64 * 1024 * 1024
  maxXzIndexBytes := 32 * 1024
  maxZipCentralDirectoryBytes := 16 * 1024 * 1024
  maxEntries := 10000
  maxPathBytes := 4096

section LittleEndian

def u16Bytes (value : UInt16) : Bytes := littleBytes 2 value.toNat

def u32Bytes (value : UInt32) : Bytes := littleBytes 4 value.toNat

/-- `u16::from_le_bytes` of the two bytes at an offset. -/
def u16At (bytes : Bytes) (offset : Nat) : UInt16 :=
  UInt16.ofNat (littleEndian (cut bytes offset (offset + 2)))

def u32At (bytes : Bytes) (offset : Nat) : UInt32 :=
  UInt32.ofNat (littleEndian (cut bytes offset (offset + 4)))

variable {bytes : Bytes} {offset : Nat}

theorem length_u16Bytes {value : UInt16} : (u16Bytes value).length = 2 := length_littleBytes

theorem length_u32Bytes {value : UInt32} : (u32Bytes value).length = 4 := length_littleBytes

theorem u16Bytes_u16At (h : offset + 2 ≤ bytes.length) :
    u16Bytes (u16At bytes offset) = cut bytes offset (offset + 2) := by
  have hlength := @length_cut _ bytes offset _ h
  have hlt := @littleEndian_lt (cut bytes offset (offset + 2))
  have hbytes := @littleBytes_littleEndian (cut bytes offset (offset + 2))
  rw [hlength, Nat.add_sub_cancel_left] at hlt hbytes
  have hlt : littleEndian (cut bytes offset (offset + 2)) < 2 ^ 16 := hlt
  rw [u16Bytes, u16At, UInt16.toNat_ofNat', Nat.mod_eq_of_lt hlt, hbytes]

theorem u32Bytes_u32At (h : offset + 4 ≤ bytes.length) :
    u32Bytes (u32At bytes offset) = cut bytes offset (offset + 4) := by
  have hlength := @length_cut _ bytes offset _ h
  have hlt := @littleEndian_lt (cut bytes offset (offset + 4))
  have hbytes := @littleBytes_littleEndian (cut bytes offset (offset + 4))
  rw [hlength, Nat.add_sub_cancel_left] at hlt hbytes
  have hlt : littleEndian (cut bytes offset (offset + 4)) < 2 ^ 32 := hlt
  rw [u32Bytes, u32At, UInt32.toNat_ofNat', Nat.mod_eq_of_lt hlt, hbytes]

theorem u16At_eq {value : UInt16} (h : cut bytes offset (offset + 2) = u16Bytes value) :
    u16At bytes offset = value := by
  rw [u16At, h, u16Bytes, littleEndian_littleBytes value.toNat_lt, UInt16.ofNat_toNat]

theorem u32At_eq {value : UInt32} (h : cut bytes offset (offset + 4) = u32Bytes value) :
    u32At bytes offset = value := by
  rw [u32At, h, u32Bytes, littleEndian_littleBytes value.toNat_lt, UInt32.ofNat_toNat]

end LittleEndian

end Kitrove
