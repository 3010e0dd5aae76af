import Kitrove.Instructions.Body
import Kitrove.Mcp.Documents
import Kitrove.Model.Destination
import Kitrove.Support.Substitution

/-! Portable prompt commands: names, descriptions, canonical bodies and the arguments they take. -/

namespace Kitrove.Prompts

open Substitution (contains)

structure PromptCommandError where
  code : String
  message : String
  deriving DecidableEq

def allArgumentsPlaceholder : Bytes := ascii "$\x7bKITROVE_ARGUMENTS\x7d"

def defaultMaxPromptBodyBytes : Nat := 256 * 1024
def maxCommandNameBytes : Nat := 64
def maxDescriptionCharacters : Nat := 1024

/-- A `String`. -/
structure Utf8Text where
  bytes : Bytes
  utf8 : Utf8.valid bytes = true
  deriving DecidableEq

theorem Utf8Text.eq_of_bytes {text other : Utf8Text} (h : text.bytes = other.bytes) : text = other := by
  cases text
  cases other
  cases h
  rfl

section Characters

/-- `trim_start()` of a valid text. -/
def trimStart : Bytes → Bytes
  | [] => []
  | 0xC2 :: b :: rest => if b == 0x85 || b == 0xA0 then trimStart rest else 0xC2 :: b :: rest
  | 0xE1 :: 0x9A :: 0x80 :: rest => trimStart rest
  | 0xE2 :: 0x80 :: b :: rest =>
    if (0x80 ≤ b && b ≤ 0x8A) || b == 0xA8 || b == 0xA9 || b == 0xAF then trimStart rest
    else 0xE2 :: 0x80 :: b :: rest
  | 0xE2 :: 0x81 :: 0x9F :: rest => trimStart rest
  | 0xE3 :: 0x80 :: 0x80 :: rest => trimStart rest
  | b :: rest => if (0x09 ≤ b && b ≤ 0x0D) || b == 0x20 then trimStart rest else b :: rest

/-- `starts_with(char::is_whitespace)` of a valid text. -/
def startsBlank (text : Bytes) : Bool := trimStart text != text

/-- The white space characters of more than one byte. -/
def wideBlanks : List Bytes :=
  [[0xC2, 0x85], [0xC2, 0xA0], [0xE1, 0x9A, 0x80], [0xE2, 0x80, 0xA8], [0xE2, 0x80, 0xA9],
    [0xE2, 0x80, 0xAF], [0xE2, 0x81, 0x9F], [0xE3, 0x80, 0x80]] ++
  (List.range 11).map fun i => [0xE2, 0x80, 0x80 + UInt8.ofNat i]

/-- Whether a valid text ends in white space. -/
def endsBlank (text : Bytes) : Bool :=
  (text.getLast?.any fun b => (0x09 ≤ b && b ≤ 0x0D) || b == 0x20) ||
    wideBlanks.any fun blank => blank.isSuffixOf text

/-- `value.trim() != value`. -/
def untrimmed (text : Bytes) : Bool := startsBlank text || endsBlank text

/-- `value.chars().count()` of a valid text. -/
def charCount (text : Bytes) : Nat := text.countP fun b => b < 0x80 || 0xC0 ≤ b

/-- Whether a valid text holds a control character or a line or paragraph separator. -/
def breaksLine (text : Bytes) : Bool :=
  containsControl text || contains [0xE2, 0x80, 0xA8] text || contains [0xE2, 0x80, 0xA9] text

end Characters

section Names

def isPromptCommandName (value : Bytes) : Bool :=
  !(value.isEmpty || value.length > maxCommandNameBytes || value.head? == some 0x2D ||
    value.getLast? == some 0x2D || contains (ascii "--") value ||
    !value.all fun b => lowercaseOrDigit b || b == 0x2D)

structure PromptCommandName where
  bytes : Bytes
  valid : isPromptCommandName bytes = true
  deriving DecidableEq

def PromptCommandName.parse (value : Bytes) : Except PromptCommandError PromptCommandName :=
  if h : isPromptCommandName value = true then pure ⟨value, h⟩
  else
    throw ⟨"prompt_command.name_invalid",
      "command name must be one lowercase hyphenated segment no longer than 64 bytes"⟩

end Names

section Bodies

/-- Canonical prompt text: not blank, in lines that a newline ends, with no empty line at its end. -/
structure PromptBody where
  text : Bytes
  noNul : 0 ∉ text
  noReturn : 13 ∉ text
  trimmed : trimEndNewlines text ++ [newline] = text
  notBlank : isBlank text = false
  deriving DecidableEq

theorem trimEndNewlines_idem {l : Bytes} : trimEndNewlines (trimEndNewlines l ++ [newline]) =
    trimEndNewlines l := by
  induction l with
  | nil => rfl
  | cons b l ih =>
    rw [trimEndNewlines]
    cases ht : trimEndNewlines l with
    | nil =>
      by_cases hb : b = newline
      · rw [hb, if_pos rfl]
        rfl
      · rw [if_neg hb, List.singleton_append, trimEndNewlines]
        simp [trimEndNewlines, hb]
    | cons c trimmed =>
      rw [ht] at ih
      rw [List.cons_append, trimEndNewlines, ih]

theorem normalizeBody_trimmed {l : Bytes} :
    trimEndNewlines (normalizeBody l) ++ [newline] = normalizeBody l := by
  rw [normalizeBody, trimEndNewlines_idem]

theorem normalizeBody_noReturn {l : Bytes} (h : (replaceCrlf l).contains 13 = false) :
    13 ∉ normalizeBody l := by
  obtain ⟨k, hk⟩ := trimEndNewlines_append (l := replaceCrlf l)
  have hreplaced : 13 ∉ replaceCrlf l := by simpa using h
  rw [hk, List.mem_append, not_or] at hreplaced
  rw [normalizeBody, List.mem_append, not_or]
  exact ⟨hreplaced.1, by decide⟩

theorem normalizeBody_noNul_of_accepted {l : Bytes} (h : ¬(l = [] ∨ 0 ∈ l)) : 0 ∉ normalizeBody l :=
  normalizeBody_noNul (not_or.mp h).2

/-- Normalizes CRLF to LF and ensures exactly one trailing newline. -/
def PromptBody.parse (input : Bytes) (maxBodyBytes : Nat) : Except PromptCommandError PromptBody :=
  if h : input = [] ∨ 0 ∈ input then
    throw ⟨"prompt_command.body_invalid", "prompt body must be non-empty UTF-8 without NUL bytes"⟩
  else if input.length > maxBodyBytes then
    throw ⟨"prompt_command.body_limit", "prompt body exceeds the configured byte limit"⟩
  else if hreturn : (replaceCrlf input).contains 13 = true then
    throw ⟨"prompt_command.body_line_endings", "prompt body must use LF or CRLF line endings"⟩
  else if hblank : isBlank (normalizeBody input) = true ∨
      (normalizeBody input).length > maxBodyBytes then
    throw ⟨"prompt_command.body_limit", "prompt body is empty or exceeds the configured byte limit"⟩
  else
    pure
      { text := normalizeBody input
        noNul := normalizeBody_noNul_of_accepted h
        noReturn := normalizeBody_noReturn (Bool.not_eq_true _ ▸ hreturn)
        trimmed := normalizeBody_trimmed
        notBlank := Bool.not_eq_true _ ▸ (not_or.mp hblank).1 }

end Bodies

section Descriptions

def isPromptDescription (value : Bytes) : Bool :=
  !(untrimmed value || charCount value < 1 || charCount value > maxDescriptionCharacters ||
    breaksLine value)

structure PromptDescription where
  text : Utf8Text
  valid : isPromptDescription text.bytes = true
  deriving DecidableEq

def PromptDescription.parse (value : Utf8Text) : Except PromptCommandError PromptDescription :=
  if h : isPromptDescription value.bytes = true then pure ⟨value, h⟩
  else
    throw ⟨"prompt_command.description_invalid",
      "description must be trimmed, single-line text containing at most 1,024 characters"⟩

end Descriptions

section Commands

inductive PromptArgumentMode where
  | none
  | allArguments
  deriving DecidableEq

/-- A command whose mode says whether its body holds the placeholder. -/
structure PromptCommand where
  name : PromptCommandName
  description : Option PromptDescription
  body : PromptBody
  argumentMode : PromptArgumentMode
  contract : contains allArgumentsPlaceholder body.text = decide (argumentMode = .allArguments)
  deriving DecidableEq

def PromptCommand.tryNew (name : PromptCommandName) (description : Option PromptDescription)
    (body : PromptBody) (argumentMode : PromptArgumentMode) :
    Except PromptCommandError PromptCommand :=
  if h : contains allArgumentsPlaceholder body.text = decide (argumentMode = .allArguments) then
    pure ⟨name, description, body, argumentMode, h⟩
  else
    throw ⟨"prompt_command.argument_contract",
      "argument mode must exactly describe use of the portable all-arguments placeholder"⟩

end Commands

end Kitrove.Prompts
