import Kitrove.Prompts.Frontmatter

/-! Observed frontmatter: the fields between two delimiters, with those that hold more than a scalar
kept as they are named. -/

namespace Kitrove.Agents

open Lines Prompts

inductive ObservedFrontmatterValue where
  | scalar (text : Bytes)
  | complex
  deriving DecidableEq

/-- The fields in the order of their names, and the exact text behind them. -/
structure ObservedMarkdownDocument where
  fields : List (Bytes × ObservedFrontmatterValue)
  body : Bytes
  deriving DecidableEq

/-- The fields so far, and the last one, to which indented lines belong. -/
structure ObservedFields where
  fields : List (Bytes × ObservedFrontmatterValue)
  currentKey : Option Bytes

section Parsing

def insertObserved (key : Bytes) (value : ObservedFrontmatterValue) :
    List (Bytes × ObservedFrontmatterValue) → List (Bytes × ObservedFrontmatterValue)
  | [] => [(key, value)]
  | field :: fields =>
    if key = field.1 then (key, value) :: fields
    else if key < field.1 then (key, value) :: field :: fields
    else field :: insertObserved key value fields

def observedValue (scalar : Bytes) : ObservedFrontmatterValue :=
  if scalar.isEmpty || complexYamlScalar scalar then .complex else .scalar scalar

def parseObservedField (maxFields : Nat) (state : ObservedFields) (line : Bytes) :
    Except FlatFrontmatterError ObservedFields :=
  match splitOnce 0x3A line with
  | none => throw .invalid
  | some (key, scalar) =>
    if !validFieldName key then throw .invalid
    else if state.fields.length ≥ maxFields then throw .fieldLimit
    else if state.fields.any fun field => field.1 == key then throw .duplicateKey
    else pure ⟨insertObserved key (observedValue (trimStart scalar)) state.fields, some key⟩

def parseObservedLine (maxFields : Nat) (state : ObservedFields) (rawLine : Bytes) :
    Except FlatFrontmatterError ObservedFields :=
  let line := stripReturn rawLine
  if line.isEmpty || (trimStart line).head? == some 0x23 then pure state
  else if startsBlank line then
    match state.currentKey with
    | none => throw .invalid
    | some key => pure ⟨insertObserved key .complex state.fields, some key⟩
  else parseObservedField maxFields state line

def parseObservedFields (source : Bytes) (maxFields : Nat) :
    Except FlatFrontmatterError (List (Bytes × ObservedFrontmatterValue)) := do
  let state ← (splitOn newline source).foldlM (parseObservedLine maxFields) ⟨[], none⟩
  pure state.fields

def parseOptionalObservedMarkdown (source : Bytes) (limits : FlatFrontmatterLimits) :
    Except FlatFrontmatterError ObservedMarkdownDocument := do
  match ← splitOptionalFrontmatter source limits.maxBytes with
  | none => pure ⟨[], source⟩
  | some (frontmatter, body) => do
    let fields ← parseObservedFields frontmatter limits.maxFields
    pure ⟨fields, body⟩

end Parsing

section Lines

variable {front line body : Bytes} {lines : List Bytes} {maxBytes maxFields : Nat}

/-- A line that is neither a delimiter nor cut by a carriage return. -/
structure FieldLine (line : Bytes) : Prop where
  single : newline ∉ line
  uncut : line.getLast? ≠ some 13
  field : line ≠ delimiter

theorem FieldLine.stripReturn_eq (h : FieldLine line) : stripReturn line = line := if_neg h.uncut

theorem FieldLine.stripped (h : FieldLine line) :
    stripReturn (stripNewline (line ++ [newline])) = line := by
  rw [stripNewline, List.getLast?_concat, if_pos rfl, List.dropLast_concat, h.stripReturn_eq]

theorem closeFrontmatter_line {rest : Bytes} (h : FieldLine line) :
    closeFrontmatter maxBytes front (splitInclusive newline (line ++ newline :: rest)) =
      closeFrontmatter maxBytes (front ++ (line ++ [newline])) (splitInclusive newline rest) := by
  rw [splitInclusive_ended_append h.single, closeFrontmatter, h.stripped, if_neg h.field,
    List.getLast?_concat, if_pos rfl]

/-- The text of field lines. -/
def fieldText (lines : List Bytes) : Bytes := lines.flatMap fun line => line ++ [newline]

theorem closeFrontmatter_lines (h : ∀ line ∈ lines, FieldLine line)
    (hlength : front.length + (fieldText lines).length ≤ maxBytes) :
    closeFrontmatter maxBytes front
        (splitInclusive newline (fieldText lines ++ (delimiter ++ newline :: body))) =
      .ok (front ++ fieldText lines, body) := by
  induction lines generalizing front with
  | nil =>
    have hclosing : stripReturn (stripNewline (delimiter ++ [newline])) = delimiter := by decide
    have hshort : ¬ front.length > maxBytes := by
      rw [fieldText, List.flatMap_nil, List.length_nil] at hlength
      omega
    rw [fieldText, List.flatMap_nil, List.nil_append, List.append_nil,
      splitInclusive_ended_append (by decide), closeFrontmatter, hclosing, if_pos rfl, if_neg hshort,
      flatten_splitInclusive]
    rfl
  | cons line lines ih =>
    obtain ⟨hline, hlines⟩ := List.forall_mem_cons.mp h
    have htext : fieldText (line :: lines) = line ++ newline :: fieldText lines := by
      rw [fieldText, List.flatMap_cons, List.append_assoc]
      rfl
    rw [htext, List.length_append, List.length_cons] at hlength
    rw [htext, List.append_assoc, List.cons_append, closeFrontmatter_line hline, ih hlines]
    · rw [List.append_assoc, List.append_assoc, List.singleton_append]
    · rw [List.length_append, List.length_append, List.length_singleton]
      omega

theorem splitOn_fieldText (h : ∀ line ∈ lines, FieldLine line) :
    splitOn newline (fieldText lines) = lines ++ [[]] := by
  rw [splitOn_eq_splitOn]
  induction lines with
  | nil => rfl
  | cons line lines ih =>
    obtain ⟨hline, hlines⟩ := List.forall_mem_cons.mp h
    have htext : fieldText (line :: lines) = line ++ newline :: fieldText lines := by
      rw [fieldText, List.flatMap_cons, List.append_assoc]
      rfl
    rw [htext, List.splitOn_append_cons_self_of_not_mem hline.single, ih hlines, List.cons_append]

/-- A document of field lines between delimiters is its fields and the text behind them. -/
theorem parseOptionalObservedMarkdown_lines {limits : FlatFrontmatterLimits} {final : ObservedFields}
    (h : ∀ line ∈ lines, FieldLine line) (hlength : (fieldText lines).length ≤ limits.maxBytes)
    (hfields : lines.foldlM (parseObservedLine limits.maxFields) ⟨[], none⟩ = .ok final) :
    parseOptionalObservedMarkdown
        (ascii "---\n" ++ fieldText lines ++ ascii "---\n" ++ body) limits =
      .ok ⟨final.fields, body⟩ := by
  have hsplit : splitOptionalFrontmatter
      (ascii "---\n" ++ fieldText lines ++ ascii "---\n" ++ body) limits.maxBytes =
        .ok (some (fieldText lines, body)) := by
    rw [List.append_assoc, List.append_assoc]
    change (closeFrontmatter limits.maxBytes [] (splitInclusive newline
      (fieldText lines ++ (delimiter ++ newline :: body)))).map some = _
    rw [closeFrontmatter_lines h (by rw [List.length_nil]; omega)]
    rfl
  have hlast : parseObservedLine limits.maxFields final [] = .ok final := rfl
  have hparse : parseObservedFields (fieldText lines) limits.maxFields = .ok final.fields := by
    rw [parseObservedFields, splitOn_fieldText h, List.foldlM_append, hfields]
    rfl
  rw [parseOptionalObservedMarkdown, hsplit]
  change (parseObservedFields _ _ >>= _) = _
  rw [hparse]
  rfl

end Lines

section Fields

variable {maxFields : Nat} {state : ObservedFields} {key value : Bytes}

/-- A field in a line of its own. -/
def scalarLine (key value : Bytes) : Bytes := key ++ ascii ": " ++ value

/-- A name of a field, and a value of one line that starts a scalar. -/
structure ScalarField (key value : Bytes) : Prop where
  named : validFieldName key = true
  starts : ∃ b rest, value = b :: rest ∧ 0x20 < b ∧ b < 0x80
  simple : complexYamlScalar value = false
  single : newline ∉ value
  uncut : value.getLast? ≠ some 13

theorem validFieldName_byte {b : UInt8} (h : validFieldName key = true) (hb : b ∈ key) :
    (lowercaseOrDigit b || b == 0x2D) = true := by
  rw [validFieldName, Bool.and_eq_true, List.all_eq_true] at h
  exact h.2 b hb

theorem splitOnce_append {separator : UInt8} {before after : Bytes} (h : separator ∉ before) :
    splitOnce separator (before ++ separator :: after) = some (before, after) := by
  induction before with
  | nil => exact if_pos rfl
  | cons b before ih =>
    rw [List.mem_cons, not_or] at h
    rw [List.cons_append, splitOnce, if_neg (Ne.symm h.1), ih h.2]
    rfl

/-- Printable ASCII at the start of a text is not white space. -/
theorem trimStart_printable {b : UInt8} {rest : Bytes} (hlow : 0x20 < b) (hhigh : b < 0x80) :
    trimStart (b :: rest) = b :: rest := by
  have hall : ∀ b : UInt8, 0x20 < b → b < 0x80 → (b ≠ 0xC2 ∧ b ≠ 0xE1 ∧ b ≠ 0xE2 ∧ b ≠ 0xE3) ∧
      ((0x09 ≤ b && b ≤ 0x0D) || b == 0x20) = false := UInt8.forall_ofNat (by decide +kernel)
  obtain ⟨⟨hc2, he1, he2, he3⟩, hspace⟩ := hall b hlow hhigh
  rw [trimStart]
  · rw [hspace]
    rfl
  · rintro _ _ rfl
    exact absurd rfl hc2
  · rintro _ rfl
    exact absurd rfl he1
  · rintro _ _ rfl
    exact absurd rfl he2
  · rintro _ rfl
    exact absurd rfl he2
  · rintro _ rfl
    exact absurd rfl he3

theorem key_byte {b : UInt8} (h : (lowercaseOrDigit b || b == 0x2D) = true) :
    (0x20 < b ∧ b < 0x80) ∧ b ≠ 0x3A ∧ b ≠ 0x23 := by
  have hall : ∀ b, (lowercaseOrDigit b || b == 0x2D) = true →
      (0x20 < b ∧ b < 0x80) ∧ b ≠ 0x3A ∧ b ≠ 0x23 := UInt8.forall_ofNat (by decide +kernel)
  exact hall b h

theorem scalarLine_eq : scalarLine key value = key ++ 0x3A :: (0x20 :: value) := by
  rw [scalarLine, List.append_assoc]
  rfl

theorem ScalarField.fieldLine (h : ScalarField key value) : FieldLine (scalarLine key value) where
  single := by
    rw [scalarLine_eq]
    intro hmem
    rcases List.mem_append.mp hmem with hkey | hmem
    · have hlow := (key_byte (validFieldName_byte h.named hkey)).1.1
      exact absurd hlow (by decide)
    · rcases List.mem_cons.mp hmem with hcolon | hmem
      · exact absurd hcolon (by decide)
      · rcases List.mem_cons.mp hmem with hspace | hmem
        · exact absurd hspace (by decide)
        · exact h.single hmem
  uncut := by
    obtain ⟨b, rest, rfl, -⟩ := h.starts
    have huncut := h.uncut
    rw [scalarLine, List.getLast?_append]
    rw [List.getLast?_eq_some_getLast (List.cons_ne_nil b rest)] at huncut ⊢
    exact huncut
  field := by
    intro hdelimiter
    have hcolon : 0x3A ∈ scalarLine key value := by
      rw [scalarLine_eq]
      exact List.mem_append_right _ List.mem_cons_self
    rw [hdelimiter] at hcolon
    exact absurd hcolon (by decide)

/-- A line with a new field adds its scalar. -/
theorem parseObservedLine_scalar (h : ScalarField key value) (hroom : state.fields.length < maxFields)
    (hnew : ∀ field ∈ state.fields, field.1 ≠ key) :
    parseObservedLine maxFields state (scalarLine key value) =
      .ok ⟨insertObserved key (.scalar value) state.fields, some key⟩ := by
  have hcolon : 0x3A ∉ key := fun hmem => (key_byte (validFieldName_byte h.named hmem)).2.1 rfl
  have hsplit : splitOnce 0x3A (scalarLine key value) = some (key, 0x20 :: value) := by
    rw [scalarLine_eq]
    exact splitOnce_append hcolon
  have hfresh : (state.fields.any fun field => field.1 == key) = false := by
    rw [List.any_eq_false]
    intro field hmem
    rw [beq_iff_eq]
    exact hnew field hmem
  have htrim : trimStart (0x20 :: value) = value := by
    obtain ⟨b, rest, rfl, hlow, hhigh⟩ := h.starts
    exact trimStart_printable hlow hhigh
  have hvalue : observedValue value = .scalar value := by
    obtain ⟨b, rest, rfl, -⟩ := h.starts
    rw [observedValue, h.simple]
    rfl
  have hfield : parseObservedField maxFields state (scalarLine key value) =
      .ok ⟨insertObserved key (.scalar value) state.fields, some key⟩ := by
    rw [parseObservedField, hsplit]
    simp only [h.named, hfresh, htrim, hvalue, Nat.not_le.mpr hroom, ge_iff_le, Bool.not_true,
      Bool.false_eq_true, if_false]
    rfl
  cases key with
  | nil => exact absurd h.named (by decide)
  | cons first rest =>
    obtain ⟨⟨hlow, hhigh⟩, -, hcomment⟩ := key_byte (validFieldName_byte h.named List.mem_cons_self)
    have hstart : trimStart (scalarLine (first :: rest) value) = scalarLine (first :: rest) value := by
      rw [scalarLine_eq, List.cons_append]
      exact trimStart_printable hlow hhigh
    have hhead : (scalarLine (first :: rest) value).head? = some first := rfl
    have hskip : ((scalarLine (first :: rest) value).isEmpty ||
        (trimStart (scalarLine (first :: rest) value)).head? == some 0x23) = false := by
      rw [hstart, hhead, Bool.or_eq_false_iff, beq_eq_false_iff_ne]
      exact ⟨rfl, fun hsame => hcomment (Option.some.inj hsame)⟩
    have hblank : startsBlank (scalarLine (first :: rest) value) = false := by
      rw [startsBlank, hstart, bne_self_eq_false]
    rw [parseObservedLine, h.fieldLine.stripReturn_eq, hskip]
    simp only [hblank, Bool.false_eq_true, if_false]
    exact hfield

end Fields

end Kitrove.Agents
