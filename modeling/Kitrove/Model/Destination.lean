import Kitrove.Model.LocalState
import Kitrove.Support.Segments

/-! Absolute destinations, in Unix and drive-letter form, and the paths below them. -/

namespace Kitrove

open Except Segments

section Windows

/-- The bytes of a Unicode control character. -/
def containsControl : Bytes → Bool
  | [] => false
  | b :: rest =>
    b < 0x20 || b == 0x7F || (b == 0xC2 && rest.head?.any fun c => 0x80 ≤ c && c ≤ 0x9F) ||
      containsControl rest

def toAsciiUppercase (b : UInt8) : UInt8 := if 0x61 ≤ b ∧ b ≤ 0x7A then b - 0x20 else b

def reservedWindowsNames : List Bytes :=
  ["CON", "PRN", "AUX", "NUL", "CLOCK$", "CONIN$", "CONOUT$", "COM1", "COM2", "COM3", "COM4",
    "COM5", "COM6", "COM7", "COM8", "COM9", "LPT1", "LPT2", "LPT3", "LPT4", "LPT5", "LPT6",
    "LPT7", "LPT8", "LPT9"].map ascii ++
  [ascii "COM", ascii "LPT"].flatMap fun device =>
    [device ++ [0xC2, 0xB9], device ++ [0xC2, 0xB2], device ++ [0xC2, 0xB3]]

/-- Whether a component names the same file in the ordinary Win32 namespace. -/
def isLosslessWindowsComponent (component : Bytes) : Bool :=
  if component.isEmpty || component.getLast? == some 0x2E || component.getLast? == some 0x20 ||
      containsControl component || component.any fun b => (ascii "<>:\"/\\|?*").contains b then
    false
  else
    let stem := component.takeWhile (· != 0x2E)
    let stem := (stem.reverse.dropWhile fun b => b == 0x20 || b == 0x2E).reverse
    !reservedWindowsNames.contains (stem.map toAsciiUppercase)

end Windows

namespace NormalizedDestination

def invalid (message : String) : ValidationError := ⟨"destination.invalid", ascii message⟩

/-- The drive letter that a text begins with, and what follows it. -/
def driveOf : Bytes → Option (UInt8 × Bytes)
  | letter :: 0x3A :: suffix =>
    if (0x41 ≤ letter ∧ letter ≤ 0x5A) ∨ (0x61 ≤ letter ∧ letter ≤ 0x7A) then
      some (letter, suffix)
    else none
  | _ => none

/-- The text with forward slashes, and whether it has a drive letter. -/
def normalizeForm (value : Bytes) : Except ValidationError (Bytes × Bool) :=
  match driveOf value with
  | some (letter, suffix) =>
    if suffix.head? = some 0x2F ∨ suffix.head? = some 0x5C then
      .ok ((toAsciiUppercase letter :: 0x3A :: suffix).map fun b => if b = 0x5C then 0x2F else b,
        true)
    else .error (invalid "Windows destinations must be drive-letter absolute paths")
  | none =>
    if value.head? = some 0x2F then .ok (value, false)
    else .error (invalid "destination must be an absolute Unix or drive-letter Windows path")

/-- A component that the canonical text keeps; empty ones are left out. -/
def checkComponent (isWindows : Bool) (component : Bytes) :
    Except ValidationError (Option Bytes) := do
  if component.isEmpty then pure none
  else
    refuseIf (component = ascii "." ∨ component = ascii "..")
      (invalid "destination must not contain '.' or '..' components")
    refuseIf (isWindows && !isLosslessWindowsComponent component)
      (invalid "Windows destination components must be lossless in the ordinary Win32 namespace")
    pure (some component)

def rootLength (isWindows : Bool) : Nat := if isWindows then 3 else 1

def parse (value : Bytes) : Except ValidationError NormalizedDestination := do
  refuseIf (value.isEmpty || value.contains 0)
    (invalid "destination must be a non-empty path without NUL bytes")
  refuseIf ((ascii "//").isPrefixOf value || (ascii "\\\\").isPrefixOf value)
    (invalid "destination must not use a UNC, verbatim, or device path form")
  let (normalized, isWindows) ← normalizeForm value
  let components ← (splitOn 0x2F (normalized.drop (rootLength isWindows))).mapM
    (checkComponent isWindows)
  pure ⟨normalized.take (rootLength isWindows) ++ join 0x2F (components.filterMap id)⟩

def joinPortable (destination : NormalizedDestination) (relative : PortablePath) :
    Except ValidationError NormalizedDestination :=
  let separator := if destination.text.getLast? = some 0x2F then [] else [0x2F]
  parse (destination.text ++ separator ++ relative.bytes)

def componentBoundary : ValidationError :=
  invalid "destination does not contain the portable relative path at a component boundary"

def anchorFor (destination : NormalizedDestination) (relative : PortablePath) :
    Except ValidationError NormalizedDestination := do
  match stripSuffix relative.bytes destination.text with
  | none => throw componentBoundary
  | some front =>
    refuseIf (front.getLast? ≠ some 0x2F) componentBoundary
    if front = [0x2F] ∨ (ascii ":/").isSuffixOf front then parse front
    else
      match stripSuffix [0x2F] front with
      | none => throw componentBoundary
      | some anchor => parse anchor

/-- The texts of the strict ancestors, from the root to the parent. -/
def strictAncestorStrings (destination : NormalizedDestination) : List Bytes :=
  let text := destination.text
  let root := if text.head? = some 0x2F then 1 else 3
  (if text.length > root then [text.take root] else []) ++
    ((List.range text.length).filter fun i => text[i]? = some 0x2F ∧ i > root).map (text.take ·)

def isAncestorOf (destination other : NormalizedDestination) : Bool :=
  other.strictAncestorStrings.any (· = destination.text)

end NormalizedDestination

end Kitrove
