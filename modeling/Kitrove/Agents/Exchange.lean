import Kitrove.Agents.RoundTrip

/-! An agent is exchanged between the dialects and storage, as far as its TOML document fits. -/

namespace Kitrove.Agents

open Prompts (Utf8Text)
open Mcp (jsonString escapeByte)

variable {lib : AgentLibraries} {agent : Agent} {text : Bytes} {readJson : Bytes → Option PersistedAgent}

section Conversion

/-- A JSON library that reads back the envelopes it writes, with a newline behind them. -/
def ReadsStored (blake3 : Bytes → Digest) (readJson : Bytes → Option PersistedAgent) : Prop :=
  ∀ agent : Agent, readJson ((StoredAgent.new blake3 agent).persisted.text ++ [newline]) =
    some (StoredAgent.new blake3 agent).persisted

variable (lib readJson agent) in
/-- An agent that every dialect renders and reads back, and storage too. -/
structure Converts : Prop where
  renders : ∀ dialect, ∃ text, renderNativeAgent lib dialect agent = .ok text ∧
    ReadsAs lib agent dialect text
  stores : ∃ text, (StoredAgent.new lib.blake3 agent).toJson = .ok text ∧
    StoredAgent.fromJson lib.blake3 readJson text defaultMaxAgentInstructionsBytes =
      .ok (StoredAgent.new lib.blake3 agent)

theorem stores_accepted (hjson : ReadsStored lib.blake3 readJson)
    (h : agent.instructions.text.bytes.length ≤ defaultMaxAgentInstructionsBytes) :
    ∃ text, (StoredAgent.new lib.blake3 agent).toJson = .ok text ∧
      StoredAgent.fromJson lib.blake3 readJson text defaultMaxAgentInstructionsBytes =
        .ok (StoredAgent.new lib.blake3 agent) := by
  have hfits := @persisted_fits agent lib.blake3 h
  refine ⟨_, if_neg (Nat.not_lt.mpr hfits), ?_⟩
  rw [StoredAgent.fromJson, if_neg (Nat.not_lt.mpr hfits), hjson agent]
  exact StoredAgent.ofPersisted_persisted h

/-- An accepted agent is converted to every dialect and back, and stored, exactly when its TOML
document fits into what may be read of one. -/
theorem agent_converts_iff (hlib : lib.Lawful) (hjson : ReadsStored lib.blake3 readJson)
    (haccepted : Accepted lib agent readJson) :
    Converts lib agent readJson ↔ CodexFits lib agent := by
  have hlength := haccepted.length
  constructor
  · rintro ⟨hrenders, -⟩ text hrender
    obtain ⟨text', hrender', -⟩ := hrenders .codexCurrent
    obtain ⟨hdialect, observed, hparse, -⟩ := renderNativeAgent_eq_ok.mp hrender'
    obtain rfl : text = text' := Except.ok.inj (hrender.symm.trans hdialect)
    exact (parseNativeAgent_eq_ok.mp hparse).1
  · intro hfits
    refine ⟨fun dialect => ?_, stores_accepted hjson hlength⟩
    by_cases hdialect : dialect = .codexCurrent
    · subst hdialect
      obtain ⟨text, -, hrender, -⟩ := @renderCodex_clean lib agent hlib
      have hreads := readsAs_codex hlib hlength hrender (hfits text hrender)
      obtain ⟨observed, hparse, hportable, -⟩ := id hreads
      exact ⟨text, renderNativeAgent_eq_ok.mpr ⟨hrender, observed, hparse, hportable⟩, hreads⟩
    · have hreads := readsAs_markdown hlib hdialect hlength
      obtain ⟨observed, hparse, hportable, -⟩ := id hreads
      exact ⟨_, renderNativeAgent_eq_ok.mpr
        ⟨renderDialect_markdown hdialect, observed, hparse, hportable⟩, hreads⟩

end Conversion

section Samples

/-- The byte behind a backslash. -/
def shortEscape (c : UInt8) : UInt8 :=
  if c = 0x62 then 0x08 else if c = 0x74 then 0x09 else if c = 0x6E then 0x0A
  else if c = 0x66 then 0x0C else if c = 0x72 then 0x0D else c

def nibble (c : UInt8) : UInt8 := if c < 0x3A then c - 0x30 else c - 0x57

/-- The text up to the closing quote, and what is behind it. -/
def readString : Bytes → Option (Bytes × Bytes)
  | [] => none
  | 0x22 :: rest => some ([], rest)
  | 0x5C :: 0x75 :: 0x30 :: 0x30 :: high :: low :: rest =>
    (readString rest).map fun read => ((nibble high * 16 + nibble low) :: read.1, read.2)
  | 0x5C :: c :: rest => (readString rest).map fun read => (shortEscape c :: read.1, read.2)
  | b :: rest => (readString rest).map fun read => (b :: read.1, read.2)

/-- Whether a text is one that is read as the byte. -/
def spellsByte (b : UInt8) : Bytes → Bool
  | [c] => c == b && c != 0x22 && c != 0x5C
  | [0x5C, c] => c != 0x75 && shortEscape c == b
  | [0x5C, 0x75, 0x30, 0x30, high, low] => nibble high * 16 + nibble low == b
  | _ => false

theorem readString_spelled {b : UInt8} {spelled rest : Bytes} (h : spellsByte b spelled = true) :
    readString (spelled ++ rest) = (readString rest).map fun read => (b :: read.1, read.2) := by
  unfold spellsByte at h
  split at h
  · rename_i c
    rw [Bool.and_eq_true, Bool.and_eq_true, beq_iff_eq, bne_iff_ne, bne_iff_ne] at h
    obtain ⟨⟨rfl, hquote⟩, hbackslash⟩ := h
    rw [List.singleton_append, readString]
    · exact fun hc => hquote hc
    · rintro _ _ _ hc -
      exact hbackslash hc
    · rintro _ _ hc -
      exact hbackslash hc
  · rename_i c
    rw [Bool.and_eq_true, bne_iff_ne, beq_iff_eq] at h
    obtain ⟨hunicode, rfl⟩ := h
    change readString (0x5C :: c :: rest) = _
    rw [readString]
    rintro _ _ _ hc -
    exact hunicode hc
  · rw [beq_iff_eq] at h
    subst h
    rfl
  · exact Bool.noConfusion h

theorem readString_flatMap {spell : UInt8 → Bytes} (h : ∀ b, spellsByte b (spell b) = true)
    (value rest : Bytes) : readString (value.flatMap spell ++ 0x22 :: rest) = some (value, rest) := by
  induction value with
  | nil => rfl
  | cons b value ih =>
    rw [List.flatMap_cons, List.append_assoc, readString_spelled (h b), ih]
    rfl

/-- The bytes of a string over several lines: as in JSON, but for the newlines. -/
def escapeLine (b : UInt8) : Bytes := if b = newline then [b] else escapeByte b

theorem escapeByte_spells (b : UInt8) : spellsByte b (escapeByte b) = true := by
  revert b
  exact UInt8.forall_ofNat (by decide +kernel)

theorem escapeLine_spells (b : UInt8) : spellsByte b (escapeLine b) = true := by
  rw [escapeLine]
  split
  · rename_i hb
    rw [hb]
    decide
  · exact escapeByte_spells b

def textOf (bytes : Bytes) : Option Utf8Text :=
  if h : Utf8.valid bytes = true then some ⟨bytes, h⟩ else none

theorem textOf_bytes (value : Utf8Text) : textOf value.bytes = some value := dif_pos value.utf8

/-- A reader of quoted scalars and of plain words. -/
def sampleYaml : Bytes → Option Utf8Text
  | 0x22 :: rest => (readString rest).bind fun read => textOf read.1
  | word => textOf word

def sampleToml (name description instructions : Bytes) : Bytes :=
  ascii "name = \"" ++ (name.flatMap escapeByte ++ [0x22] ++
    (ascii "\ndescription = \"" ++ (description.flatMap escapeByte ++ [0x22] ++
      (ascii "\ndeveloper_instructions = \"\"\"\n" ++
        (instructions.flatMap escapeLine ++ 0x22 :: ascii "\"\"\n")))))

def tableOf (name description instructions : Utf8Text) : TomlTable where
  keys := expectedFields .codexCurrent
  string key :=
    if key = ascii "name" then some name
    else if key = ascii "description" then some description
    else if key = ascii "developer_instructions" then some instructions
    else none

/-- A string behind an opening. -/
def readBehind (opening input : Bytes) : Option (Utf8Text × Bytes) := do
  let rest ← stripPrefix opening input
  let read ← readString rest
  let value ← textOf read.1
  pure (value, read.2)

theorem readBehind_spelled {spell : UInt8 → Bytes} (h : ∀ b, spellsByte b (spell b) = true)
    (opening : Bytes) (value : Utf8Text) (rest : Bytes) :
    readBehind opening (opening ++ (value.bytes.flatMap spell ++ 0x22 :: rest)) = some (value, rest) := by
  rw [readBehind, stripPrefix_append]
  change (readString _ >>= _) = _
  rw [readString_flatMap h]
  change (textOf value.bytes >>= _) = _
  rw [textOf_bytes]
  rfl

def sampleReadToml (input : Bytes) : Option TomlTable := do
  let (name, rest) ← readBehind (ascii "name = \"") input
  let (description, rest) ← readBehind (ascii "\ndescription = \"") rest
  let (instructions, _) ← readBehind (ascii "\ndeveloper_instructions = \"\"\"\n") rest
  pure (tableOf name description instructions)

def sampleHash (_ : Bytes) : Digest := ⟨List.replicate 64 0x30, validDigest_zeros⟩

def sampleLibraries : AgentLibraries where
  readYaml := sampleYaml
  readToml := sampleReadToml
  writeToml name description instructions := some (sampleToml name description instructions)
  blake3 := sampleHash

theorem spell_ascii (b : UInt8) : (escapeByte b = [b] ∨ b < 0x80 ∧ ∀ c ∈ escapeByte b, c < 0x80) ∧
    (0 ∈ escapeByte b → b = 0) := by
  revert b
  exact UInt8.forall_ofNat (by decide +kernel)

theorem spell_line_ascii (b : UInt8) : (escapeLine b = [b] ∨ b < 0x80 ∧ ∀ c ∈ escapeLine b, c < 0x80) ∧
    (0 ∈ escapeLine b → b = 0) := by
  rw [escapeLine]
  split
  · rename_i hb
    refine ⟨.inl rfl, fun h => ?_⟩
    exact (List.mem_singleton.mp h).symm
  · exact spell_ascii b

/-- Spelling bytes in ASCII leaves a text valid. -/
theorem run_spelled {spell : UInt8 → Bytes} {owed next : Utf8.Owed} {value : Bytes}
    (h : ∀ b, spell b = [b] ∨ b < 0x80 ∧ ∀ c ∈ spell b, c < 0x80) (howed : Utf8.Multibyte owed)
    (hrun : Utf8.run owed value = some next) : Utf8.run owed (value.flatMap spell) = some next := by
  induction value generalizing owed with
  | nil => exact hrun
  | cons b value ih =>
    rw [Utf8.run] at hrun
    cases hstep : Utf8.step owed b with
    | none =>
      rw [hstep] at hrun
      cases hrun
    | some mid =>
      rw [hstep] at hrun
      have hrest := ih (Utf8.step_multibyte howed hstep) hrun
      rw [List.flatMap_cons]
      rcases h b with hplain | ⟨hascii, hspelled⟩
      · rw [hplain, List.singleton_append, Utf8.run, hstep]
        exact hrest
      · obtain ⟨rfl, rfl⟩ := Utf8.step_ascii howed hascii hstep
        rw [Utf8.run_append, Prompts.run_ascii hspelled]
        exact hrest

theorem valid_spelled {spell : UInt8 → Bytes} (value : Utf8Text)
    (h : ∀ b, spell b = [b] ∨ b < 0x80 ∧ ∀ c ∈ spell b, c < 0x80) :
    Utf8.valid (value.bytes.flatMap spell) = true :=
  Utf8.valid_iff.mpr (run_spelled h Utf8.multibyte_nil (Utf8.valid_iff.mp value.utf8))

theorem noNul_spelled {spell : UInt8 → Bytes} {value : Bytes} (h : ∀ b, 0 ∈ spell b → b = 0)
    (hvalue : 0 ∉ value) : 0 ∉ value.flatMap spell := by
  intro hmem
  obtain ⟨b, hb, hnul⟩ := List.mem_flatMap.mp hmem
  exact hvalue (h b hnul ▸ hb)

theorem sampleYaml_json (value : Utf8Text) : sampleYaml (jsonString value.bytes) = some value := by
  change (readString (value.bytes.flatMap escapeByte ++ 0x22 :: [])).bind (fun read => textOf read.1) = _
  rw [readString_flatMap escapeByte_spells]
  exact textOf_bytes value

theorem sampleReadToml_written (name description instructions : Utf8Text) :
    sampleReadToml (sampleToml name.bytes description.bytes instructions.bytes) =
      some (tableOf name description instructions) := by
  have hname := readBehind_spelled escapeByte_spells (ascii "name = \"") name
    (ascii "\ndescription = \"" ++ (description.bytes.flatMap escapeByte ++ [0x22] ++
      (ascii "\ndeveloper_instructions = \"\"\"\n" ++
        (instructions.bytes.flatMap escapeLine ++ 0x22 :: ascii "\"\"\n"))))
  have hdescription := readBehind_spelled escapeByte_spells (ascii "\ndescription = \"") description
    (ascii "\ndeveloper_instructions = \"\"\"\n" ++
      (instructions.bytes.flatMap escapeLine ++ 0x22 :: ascii "\"\"\n"))
  have hinstructions := readBehind_spelled escapeLine_spells
    (ascii "\ndeveloper_instructions = \"\"\"\n") instructions (ascii "\"\"\n")
  have htext : sampleToml name.bytes description.bytes instructions.bytes =
      ascii "name = \"" ++ (name.bytes.flatMap escapeByte ++ 0x22 ::
        (ascii "\ndescription = \"" ++ (description.bytes.flatMap escapeByte ++ 0x22 ::
          (ascii "\ndeveloper_instructions = \"\"\"\n" ++
            (instructions.bytes.flatMap escapeLine ++ 0x22 :: ascii "\"\"\n"))))) := by
    simp only [sampleToml, List.append_assoc, List.singleton_append]
  simp only [List.append_assoc, List.singleton_append] at hname
  rw [htext, sampleReadToml]
  refine Option.bind_eq_some_iff.mpr ⟨_, hname, Option.bind_eq_some_iff.mpr ⟨_, hdescription, ?_⟩⟩
  exact Option.bind_eq_some_iff.mpr ⟨_, hinstructions, rfl⟩

theorem sampleToml_valid (name description instructions : Utf8Text) :
    Utf8.valid (sampleToml name.bytes description.bytes instructions.bytes) = true := by
  have happend {front back : Bytes} (hfront : Utf8.valid front = true) (hback : Utf8.valid back = true) :
      Utf8.valid (front ++ back) = true := by rw [Utf8.valid_append hfront, hback]
  have hvalue (value : Utf8Text) := valid_spelled value fun b => (spell_ascii b).1
  have hquote : Utf8.valid [0x22] = true := by decide
  refine happend (by decide) (happend (happend (hvalue name) hquote) (happend (by decide)
    (happend (happend (hvalue description) hquote) (happend (by decide) (happend ?_ (by decide))))))
  exact valid_spelled instructions fun b => (spell_line_ascii b).1

theorem sampleToml_noNul {name description instructions : Bytes} (hname : 0 ∉ name)
    (hdescription : 0 ∉ description) (hinstructions : 0 ∉ instructions) :
    0 ∉ sampleToml name description instructions := by
  have hvalue {value : Bytes} := @noNul_spelled escapeByte value fun b => (spell_ascii b).2
  have hquote : (0 : UInt8) ∉ [0x22] := by decide
  refine List.not_mem_append (by decide) (List.not_mem_append (List.not_mem_append (hvalue hname) hquote)
    (List.not_mem_append (by decide) (List.not_mem_append (List.not_mem_append (hvalue hdescription)
      hquote) (List.not_mem_append (by decide) (List.not_mem_append ?_ (by decide))))))
  exact noNul_spelled (fun b => (spell_line_ascii b).2) hinstructions

theorem sampleLibraries_lawful : sampleLibraries.Lawful where
  yaml value _ := sampleYaml_json value
  yamlWord := by decide +kernel
  toml name description instructions :=
    ⟨_, _, rfl, sampleToml_valid name description instructions, sampleToml_noNul,
      sampleReadToml_written name description instructions, fun _ hkey => hkey, rfl, rfl, rfl⟩

section Envelopes

def nameOf (bytes : Bytes) : Option AgentName :=
  if h : isAgentName bytes = true then some ⟨bytes, h⟩ else none

def descriptionOf (value : Utf8Text) : Option AgentDescription :=
  if h : isAgentDescription value.bytes = true then some ⟨value, h⟩ else none

def hashOf (bytes : Bytes) : Option ContentHash :=
  if h : NameKind.contentHash.valid bytes = true ∧ bytes.length < 2 ^ 63 then some ⟨bytes, h.1, h.2⟩
  else none

def sampleReadJson (input : Bytes) : Option PersistedAgent := do
  let (name, rest) ← readBehind (ascii ("\x7b\n  \"schema_version\": 1,\n" ++
    "  \"format\": \"kitrove-agent/v1\",\n  \"name\": \"")) input
  let (description, rest) ← readBehind (ascii ",\n  \"description\": \"") rest
  let (instructions, rest) ← readBehind (ascii ",\n  \"instructions\": \"") rest
  let (hash, _) ← readBehind (ascii ",\n  \"object_hash\": \"") rest
  let name ← nameOf name.bytes
  let description ← descriptionOf description
  let hash ← hashOf hash.bytes
  pure ⟨storedSchemaVersion, storedFormat, name, description, instructions, hash⟩

def sampleHashText : Utf8Text := ⟨contentHashQualifier ++ List.replicate 64 0x30, by decide +kernel⟩

theorem sampleReadJson_written : ReadsStored sampleHash sampleReadJson := by
  intro agent
  have hspelled := @readBehind_spelled escapeByte escapeByte_spells
  have htext : (StoredAgent.new sampleHash agent).persisted.text ++ [newline] =
      ascii ("\x7b\n  \"schema_version\": 1,\n" ++
          "  \"format\": \"kitrove-agent/v1\",\n  \"name\": \"") ++
        (agent.name.text.bytes.flatMap escapeByte ++ 0x22 :: (ascii ",\n  \"description\": \"" ++
          (agent.description.text.bytes.flatMap escapeByte ++ 0x22 ::
            (ascii ",\n  \"instructions\": \"" ++
              (agent.instructions.text.bytes.flatMap escapeByte ++ 0x22 ::
                (ascii ",\n  \"object_hash\": \"" ++
                  (sampleHashText.bytes.flatMap escapeByte ++ 0x22 :: ascii "\n\x7d\n"))))))) := by
    have hversion : decimal storedSchemaVersion = ascii "1" := by decide
    have hformat : storedFormat.flatMap escapeByte = storedFormat := by decide
    have hhash : (StoredAgent.new sampleHash agent).objectHash.bytes = sampleHashText.bytes := rfl
    simp only [PersistedAgent.text, StoredAgent.persisted, prettyField, jsonString, hversion, hformat,
      hhash, List.append_assoc, List.cons_append, List.nil_append]
    rfl
  have hhash : hashOf sampleHashText.bytes = some (hashObject sampleHash agent) := rfl
  rw [htext, sampleReadJson]
  refine Option.bind_eq_some_iff.mpr ⟨_, hspelled _ agent.name.text _, Option.bind_eq_some_iff.mpr
    ⟨_, hspelled _ agent.description.text _, Option.bind_eq_some_iff.mpr
      ⟨_, hspelled _ agent.instructions.text _, Option.bind_eq_some_iff.mpr
        ⟨_, hspelled _ sampleHashText _, ?_⟩⟩⟩⟩
  exact Option.bind_eq_some_iff.mpr ⟨agent.name, dif_pos agent.name.valid,
    Option.bind_eq_some_iff.mpr ⟨agent.description, dif_pos agent.description.valid,
      Option.bind_eq_some_iff.mpr ⟨_, hhash, rfl⟩⟩⟩

end Envelopes

def reviewName : AgentName := ⟨ascii "review", by decide⟩

def reviewDescription : AgentDescription := ⟨⟨ascii "Review changes", by decide⟩, by decide⟩

def reviewInstructions : AgentInstructions where
  text := ⟨ascii "Review carefully.\n", by decide⟩
  noNul := by decide
  noReturn := by decide
  trimmed := by decide
  notBlank := by decide

def reviewAgent : Agent := ⟨reviewName, reviewDescription, reviewInstructions⟩

/-- Instructions of control characters only. -/
def controlText (n : Nat) : Bytes := List.replicate (n + 1) 0x01 ++ [newline]

theorem mem_controlText {n : Nat} {b : UInt8} (h : b ∈ controlText n) : b = 0x01 ∨ b = newline := by
  rcases List.mem_append.mp h with h | h
  · exact .inl (List.eq_of_mem_replicate h)
  · exact .inr (List.mem_singleton.mp h)

theorem trimEndNewlines_control (n : Nat) :
    trimEndNewlines (List.replicate n 0x01 ++ [newline]) = List.replicate n 0x01 := by
  induction n with
  | zero => rfl
  | succ n ih =>
    rw [List.replicate_succ, List.cons_append, trimEndNewlines, ih]
    cases n with
    | zero => rfl
    | succ n => rfl

def controlInstructions (n : Nat) : AgentInstructions where
  text := ⟨controlText n, Utf8.valid_of_ascii fun b hb => by
    rcases mem_controlText hb with rfl | rfl <;> decide⟩
  noNul h := by rcases mem_controlText h with h | h <;> exact absurd h (by decide)
  noReturn h := by rcases mem_controlText h with h | h <;> exact absurd h (by decide)
  trimmed := by
    dsimp only [controlText]
    rw [trimEndNewlines_control]
  notBlank := rfl

def controlAgent (n : Nat) : Agent := ⟨reviewName, reviewDescription, controlInstructions n⟩

theorem length_controlText (n : Nat) : (controlText n).length = n + 2 := by
  rw [controlText, List.length_append, List.length_replicate, List.length_singleton]

/-- Each control character takes six bytes of TOML. -/
theorem length_escapeLine_control (n : Nat) : 6 * n ≤ ((controlText n).flatMap escapeLine).length := by
  have hrun (m : Nat) : ((List.replicate m 0x01).flatMap escapeLine).length = 6 * m := by
    induction m with
    | zero => rfl
    | succ m ih =>
      rw [List.replicate_succ, List.flatMap_cons, List.length_append, ih]
      change 6 + 6 * m = _
      omega
  rw [controlText, List.flatMap_append, List.length_append, hrun]
  omega

theorem accepted_markdown {agent : Agent}
    (h : agent.instructions.text.bytes.length ≤ defaultMaxAgentInstructionsBytes) :
    Accepted sampleLibraries agent sampleReadJson := by
  obtain ⟨observed, hparse, hportable, -⟩ :=
    @readsAs_markdown sampleLibraries agent .claudeCurrent sampleLibraries_lawful nofun h
  exact .inl ⟨_, _, _, observed, hparse, hportable⟩

end Samples

section Results

theorem agent_converts_iff_sample : Converts sampleLibraries reviewAgent sampleReadJson :=
  (agent_converts_iff sampleLibraries_lawful sampleReadJson_written
    (accepted_markdown (by decide +kernel))).mpr fun text htext => by
      have hsame : sampleToml (ascii "review") (ascii "Review changes")
        (ascii "Review carefully.\n") = text := Except.ok.inj htext
      rw [← hsame]
      decide +kernel

/-- A hundred thousand control characters are an agent's instructions, but their TOML is too long. -/
theorem agent_converts_counterexample :
    sampleLibraries.Lawful ∧ ReadsStored sampleLibraries.blake3 sampleReadJson ∧
      Accepted sampleLibraries (controlAgent 99999) sampleReadJson ∧
        ¬ ∃ text, renderNativeAgent sampleLibraries .codexCurrent (controlAgent 99999) = .ok text := by
  have hlength : (controlAgent 99999).instructions.text.bytes.length ≤
      defaultMaxAgentInstructionsBytes := by
    change (controlText 99999).length ≤ 262144
    rw [length_controlText]
    omega
  refine ⟨sampleLibraries_lawful, sampleReadJson_written, accepted_markdown hlength, ?_⟩
  rintro ⟨text, hrender⟩
  obtain ⟨hdialect, observed, hparse, -⟩ := renderNativeAgent_eq_ok.mp hrender
  have hfits : text.length ≤ 524288 := (parseNativeAgent_eq_ok.mp hparse).1
  have hsame : sampleToml (ascii "review") (ascii "Review changes") (controlText 99999) = text :=
    Except.ok.inj hdialect
  have hlong := length_escapeLine_control 99999
  rw [← hsame, sampleToml] at hfits
  simp only [List.length_append] at hfits
  omega

end Results

end Kitrove.Agents
