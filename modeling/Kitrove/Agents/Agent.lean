import Kitrove.Prompts.Rendering

/-! Portable agents: a name, a description and canonical system instructions. -/

namespace Kitrove.Agents

open Prompts (Utf8Text untrimmed breaksLine normalizeBody_noReturn normalizeBody_trimmed)
open Substitution (contains)

structure AgentError where
  code : String
  message : String
  deriving DecidableEq

def defaultMaxAgentInstructionsBytes : Nat := 256 * 1024
def maxAgentNameBytes : Nat := 64
def maxAgentDescriptionBytes : Nat := 1024

def lowercaseOrHyphen (b : UInt8) : Bool := (0x61 ≤ b && b ≤ 0x7A) || b == 0x2D

def isAgentName (value : Bytes) : Bool :=
  !(value.isEmpty || value.length > maxAgentNameBytes || value.head? == some 0x2D ||
    value.getLast? == some 0x2D || contains (ascii "--") value || !value.all lowercaseOrHyphen)

structure AgentName where
  bytes : Bytes
  valid : isAgentName bytes = true
  deriving DecidableEq

def AgentName.parse (value : Bytes) : Except AgentError AgentName :=
  if h : isAgentName value = true then pure ⟨value, h⟩
  else
    throw ⟨"agent.name_invalid",
      "agent name must be lowercase words separated by single hyphens and no longer than 64 bytes"⟩

def isAgentDescription (value : Bytes) : Bool :=
  !(untrimmed value || value.isEmpty || value.length > maxAgentDescriptionBytes || breaksLine value)

structure AgentDescription where
  text : Utf8Text
  valid : isAgentDescription text.bytes = true
  deriving DecidableEq

def AgentDescription.parse (value : Utf8Text) : Except AgentError AgentDescription :=
  if h : isAgentDescription value.bytes = true then pure ⟨value, h⟩
  else
    throw ⟨"agent.description_invalid",
      "agent description must be trimmed, bounded, non-empty single-line UTF-8"⟩

/-- Canonical system instructions: not blank, in lines that a newline ends, with no empty line at the
end. -/
structure AgentInstructions where
  text : Utf8Text
  noNul : 0 ∉ text.bytes
  noReturn : 13 ∉ text.bytes
  trimmed : trimEndNewlines text.bytes ++ [newline] = text.bytes
  notBlank : isBlank text.bytes = false
  deriving DecidableEq

def instructionsInvalid (message : String) : AgentError := ⟨"agent.instructions_invalid", message⟩

/-- Normalizes CRLF to LF and ensures exactly one trailing newline. -/
def AgentInstructions.parse (input : Utf8Text) (maxBytes : Nat) : Except AgentError AgentInstructions :=
  if h : input.bytes = [] ∨ 0 ∈ input.bytes ∨ input.bytes.length > maxBytes then
    throw (instructionsInvalid "agent instructions must be bounded, non-empty UTF-8 without NUL bytes")
  else if hreturn : (replaceCrlf input.bytes).contains 13 = true then
    throw ⟨"agent.instructions_line_endings",
      "agent instructions must use LF or CRLF line endings"⟩
  else if hblank : isBlank (normalizeBody input.bytes) = true ∨
      (normalizeBody input.bytes).length > maxBytes then
    throw (instructionsInvalid "agent instructions must contain bounded non-whitespace content")
  else
    pure
      { text := ⟨normalizeBody input.bytes, normalizeBody_valid input.utf8⟩
        noNul := normalizeBody_noNul (not_or.mp (not_or.mp h).2).1
        noReturn := normalizeBody_noReturn (Bool.not_eq_true _ ▸ hreturn)
        trimmed := normalizeBody_trimmed
        notBlank := Bool.not_eq_true _ ▸ (not_or.mp hblank).1 }

/-- Canonical portable subagent definition. It contains no runtime authority. -/
structure Agent where
  name : AgentName
  description : AgentDescription
  instructions : AgentInstructions
  deriving DecidableEq

section Identity

variable (blake3 : Bytes → Digest)

def Agent.contentHash (agent : Agent) : ContentHash :=
  .ofDigest (blake3 (ascii "kitrove-agent-v1" ++ [0] ++ textRecord agent.name.bytes ++
    textRecord agent.description.text.bytes ++ textRecord agent.instructions.text.bytes))

end Identity

section Parsing

variable {name : AgentName} {description : AgentDescription} {instructions : AgentInstructions}
  {input : Utf8Text} {maxBytes : Nat}

theorem AgentName.parse_bytes : AgentName.parse name.bytes = .ok name := dif_pos name.valid

theorem AgentDescription.parse_text : AgentDescription.parse description.text = .ok description :=
  dif_pos description.valid

theorem AgentInstructions.normalized : normalizeBody instructions.text.bytes =
    instructions.text.bytes := by
  rw [normalizeBody, Prompts.replaceCrlf_of_noReturn instructions.noReturn, instructions.trimmed]

theorem AgentInstructions.ext_bytes {other : AgentInstructions}
    (h : instructions.text.bytes = other.text.bytes) : instructions = other := by
  have htext := Utf8Text.eq_of_bytes h
  cases instructions
  cases other
  cases htext
  rfl

/-- Instructions within the limit are read back as they are. -/
theorem AgentInstructions.parse_text (h : instructions.text.bytes.length ≤ maxBytes) :
    AgentInstructions.parse instructions.text maxBytes = .ok instructions := by
  have hnonempty : instructions.text.bytes ≠ [] := by
    intro hnil
    have hended := instructions.trimmed
    rw [hnil] at hended
    exact (nomatch hended)
  have hrefused : ¬ (instructions.text.bytes = [] ∨ 0 ∈ instructions.text.bytes ∨
      instructions.text.bytes.length > maxBytes) := by
    rintro (hnil | hnul | hlong)
    · exact hnonempty hnil
    · exact instructions.noNul hnul
    · exact Nat.not_le.mpr hlong h
  have hreturn : ¬ (replaceCrlf instructions.text.bytes).contains 13 = true := by
    rw [Prompts.replaceCrlf_of_noReturn instructions.noReturn, List.contains_iff_mem]
    exact instructions.noReturn
  have hblank : ¬ (isBlank (normalizeBody instructions.text.bytes) = true ∨
      (normalizeBody instructions.text.bytes).length > maxBytes) := by
    rw [AgentInstructions.normalized, instructions.notBlank]
    rintro (hblank | hlong)
    · exact Bool.false_ne_true hblank
    · exact Nat.not_le.mpr hlong h
  rw [AgentInstructions.parse, dif_neg hrefused, dif_neg hreturn, dif_neg hblank]
  exact congrArg Except.ok (AgentInstructions.ext_bytes AgentInstructions.normalized)

theorem AgentInstructions.parse_length (h : AgentInstructions.parse input maxBytes = .ok instructions) :
    instructions.text.bytes.length ≤ maxBytes := by
  unfold AgentInstructions.parse at h
  split at h
  · exact (nomatch h)
  · split at h
    · exact (nomatch h)
    · split at h
      · exact (nomatch h)
      · rename_i hblank
        cases h
        exact Nat.not_lt.mp (not_or.mp hblank).2

theorem AgentDescription.printable : ∀ b ∈ description.text.bytes, ¬ b < 0x20 := by
  have h := description.valid
  simp only [isAgentDescription, breaksLine, Bool.not_eq_true', Bool.or_eq_false_iff] at h
  exact Prompts.containsControl_bytes h.2.1.1

theorem AgentDescription.length : description.text.bytes.length ≤ maxAgentDescriptionBytes := by
  have h := description.valid
  simp only [isAgentDescription, Bool.not_eq_true', Bool.or_eq_false_iff,
    decide_eq_false_iff_not] at h
  exact Nat.not_lt.mp h.1.2

theorem AgentName.byte : ∀ b ∈ name.bytes, lowercaseOrHyphen b = true := by
  have h := name.valid
  simp only [isAgentName, Bool.not_eq_true', Bool.or_eq_false_iff, Bool.not_eq_false',
    List.all_eq_true] at h
  exact h.2

theorem AgentName.length : name.bytes.length ≤ maxAgentNameBytes := by
  have h := name.valid
  simp only [isAgentName, Bool.not_eq_true', Bool.or_eq_false_iff, decide_eq_false_iff_not] at h
  exact Nat.not_lt.mp h.1.1.1.1.2

theorem AgentName.ne_nil : name.bytes ≠ [] := by
  have h := name.valid
  intro hnil
  rw [hnil] at h
  exact Bool.noConfusion h

end Parsing

end Kitrove.Agents
