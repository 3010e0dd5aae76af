import Kitrove.Agents.Native
import Kitrove.Model.Packs

/-! The portable storage envelope of one canonical agent. -/

namespace Kitrove.Agents

open Prompts (Utf8Text)
open Mcp (jsonString)

def storedFormat : Bytes := ascii "kitrove-agent/v1"
def storedSchemaVersion : Nat := 1
def maxStoredAgentBytes : Nat := 2 * 1024 * 1024

structure StoredAgent where
  agent : Agent
  objectHash : ContentHash
  deriving DecidableEq

structure PersistedAgent where
  schemaVersion : Nat
  format : Bytes
  name : AgentName
  description : AgentDescription
  instructions : Utf8Text
  objectHash : ContentHash
  deriving DecidableEq

def hashObject (blake3 : Bytes → Digest) (agent : Agent) : ContentHash :=
  .ofDigest (blake3 (ascii "kitrove-stored-agent-v1" ++ [0] ++
    textRecord (agent.contentHash blake3).bytes))

/-- A field of a pretty-printed JSON object. -/
def prettyField (key : String) (value : Bytes) : Bytes :=
  ascii "  \"" ++ ascii key ++ ascii "\": " ++ value

/-- `serde_json::to_string_pretty`. -/
def PersistedAgent.text (persisted : PersistedAgent) : Bytes :=
  ascii "\x7b\n" ++
    prettyField "schema_version" (decimal persisted.schemaVersion) ++ ascii ",\n" ++
    prettyField "format" (jsonString persisted.format) ++ ascii ",\n" ++
    prettyField "name" (jsonString persisted.name.bytes) ++ ascii ",\n" ++
    prettyField "description" (jsonString persisted.description.text.bytes) ++ ascii ",\n" ++
    prettyField "instructions" (jsonString persisted.instructions.bytes) ++ ascii ",\n" ++
    prettyField "object_hash" (jsonString persisted.objectHash.bytes) ++ ascii "\n\x7d"

namespace StoredAgent

variable (blake3 : Bytes → Digest) (readJson : Bytes → Option PersistedAgent)

def new (agent : Agent) : StoredAgent := ⟨agent, hashObject blake3 agent⟩

def persisted (stored : StoredAgent) : PersistedAgent where
  schemaVersion := storedSchemaVersion
  format := storedFormat
  name := stored.agent.name
  description := stored.agent.description
  instructions := stored.agent.instructions.text
  objectHash := stored.objectHash

/-- The agent of an envelope whose version, canonical form and identity are checked. -/
def ofPersisted (persisted : PersistedAgent) (maxInstructionsBytes : Nat) :
    Except AgentError StoredAgent :=
  if persisted.schemaVersion ≠ storedSchemaVersion ∨ persisted.format ≠ storedFormat then
    throw ⟨"agent.storage_version", "stored agent schema or format is unsupported"⟩
  else do
    let instructions ← AgentInstructions.parse persisted.instructions maxInstructionsBytes
    if instructions.text ≠ persisted.instructions then
      throw ⟨"agent.storage_noncanonical", "stored agent instructions are not in canonical form"⟩
    else if (new blake3 ⟨persisted.name, persisted.description, instructions⟩).objectHash ≠
        persisted.objectHash then
      throw ⟨"agent.storage_hash_mismatch",
        "stored agent identity does not match its canonical content"⟩
    else pure (new blake3 ⟨persisted.name, persisted.description, instructions⟩)

def fromJson (input : Bytes) (maxInstructionsBytes : Nat) : Except AgentError StoredAgent :=
  if input.length > maxStoredAgentBytes then
    throw ⟨"agent.storage_limit", "stored agent exceeds the portable envelope byte limit"⟩
  else
    match readJson input with
    | none => throw ⟨"agent.storage_invalid", "stored agent is not strict version-1 JSON"⟩
    | some persisted => ofPersisted blake3 persisted maxInstructionsBytes

def toJson (stored : StoredAgent) : Except AgentError Bytes :=
  if (stored.persisted.text ++ [newline]).length > maxStoredAgentBytes then
    throw ⟨"agent.storage_limit", "stored agent exceeds the portable envelope byte limit"⟩
  else pure (stored.persisted.text ++ [newline])

variable {blake3 readJson} {agent : Agent} {input : Bytes} {maxBytes : Nat}

/-- An agent with instructions within the limit is taken from its envelope. -/
theorem ofPersisted_persisted (h : agent.instructions.text.bytes.length ≤ maxBytes) :
    ofPersisted blake3 (new blake3 agent).persisted maxBytes = .ok (new blake3 agent) := by
  have hversion : ¬ ((new blake3 agent).persisted.schemaVersion ≠ storedSchemaVersion ∨
      (new blake3 agent).persisted.format ≠ storedFormat) := fun h => h.elim (· rfl) (· rfl)
  have hparse : AgentInstructions.parse (new blake3 agent).persisted.instructions maxBytes =
      .ok agent.instructions := AgentInstructions.parse_text h
  rw [ofPersisted, if_neg hversion, hparse]
  change (if agent.instructions.text ≠ agent.instructions.text then _ else _) = _
  rw [if_neg (not_not.mpr rfl)]
  change (if hashObject blake3 agent ≠ hashObject blake3 agent then _ else _) = _
  rw [if_neg (not_not.mpr rfl)]
  rfl

theorem fromJson_length {stored : StoredAgent}
    (h : fromJson blake3 readJson input maxBytes = .ok stored) :
    stored.agent.instructions.text.bytes.length ≤ maxBytes := by
  unfold fromJson at h
  split at h
  · exact (nomatch h)
  · split at h
    · exact (nomatch h)
    · unfold ofPersisted at h
      split at h
      · exact (nomatch h)
      · obtain ⟨instructions, hparse, h⟩ := Except.bind_eq_ok_iff.mp h
        split at h
        · exact (nomatch h)
        · split at h
          · exact (nomatch h)
          · cases h
            exact AgentInstructions.parse_length hparse

end StoredAgent

section Growth

variable {text : Bytes} {agent : Agent}

theorem length_escapeByte (b : UInt8) : (Mcp.escapeByte b).length ≤ 6 := by
  revert b
  exact UInt8.forall_ofNat (by decide +kernel)

/-- A JSON string is at most six times its text. -/
theorem length_jsonString (text : Bytes) : (jsonString text).length ≤ 6 * text.length + 2 := by
  have hescape : (text.flatMap Mcp.escapeByte).length ≤ 6 * text.length := by
    induction text with
    | nil => exact Nat.le_refl _
    | cons b text ih =>
      have hb := length_escapeByte b
      rw [List.flatMap_cons, List.length_append, List.length_cons]
      omega
  rw [jsonString, List.length_cons, List.length_append, List.length_singleton]
  omega

theorem length_prettyField {key : String} {value : Bytes} :
    (prettyField key value).length = (ascii key).length + 6 + value.length := by
  rw [prettyField, List.length_append, List.length_append, List.length_append]
  change 3 + _ + 3 + _ = _
  omega

/-- The envelope of an agent within the default limit always fits. -/
theorem persisted_fits {blake3 : Bytes → Digest}
    (h : agent.instructions.text.bytes.length ≤ defaultMaxAgentInstructionsBytes) :
    ((StoredAgent.new blake3 agent).persisted.text ++ [newline]).length ≤ maxStoredAgentBytes := by
  have hname := length_jsonString agent.name.bytes
  have hdescription := length_jsonString agent.description.text.bytes
  have hinstructions := length_jsonString agent.instructions.text.bytes
  have hhash := length_jsonString (hashObject blake3 agent).bytes
  have hnameLength := agent.name.length
  have hdescriptionLength := agent.description.length
  have hhashLength : (hashObject blake3 agent).bytes.length = 71 := by
    rw [hashObject, ContentHash.ofDigest, List.length_append, Digest.length]
    rfl
  have hversion : (decimal storedSchemaVersion).length = 1 := by decide
  have hformat : (jsonString storedFormat).length = 18 := by decide
  simp only [PersistedAgent.text, StoredAgent.persisted, StoredAgent.new, List.length_append,
    length_prettyField, hversion, hformat]
  rw [defaultMaxAgentInstructionsBytes] at h
  rw [maxAgentNameBytes] at hnameLength
  rw [maxAgentDescriptionBytes] at hdescriptionLength
  have hkeys : (ascii "schema_version").length + (ascii "format").length + (ascii "name").length +
      (ascii "description").length + (ascii "instructions").length + (ascii "object_hash").length +
      (ascii "\x7b\n").length + 5 * (ascii ",\n").length + (ascii "\n\x7d").length +
      [newline].length ≤ 100 := by decide
  rw [maxStoredAgentBytes]
  omega

end Growth

end Kitrove.Agents
