import Kitrove.Prompts.Command

/-! Flat frontmatter: the lines between two delimiters at the start of a Markdown document. -/

namespace Kitrove.Prompts

open Lines

structure FlatFrontmatterLimits where
  maxBytes : Nat
  maxFields : Nat

inductive FlatFrontmatterError where
  | byteLimit
  | fieldLimit
  | unclosed
  | nested
  | invalid
  | duplicateKey
  deriving DecidableEq

/-- A document in its fields, in the order of their names, and the exact text behind them. -/
structure FlatMarkdownDocument where
  fields : List (Bytes × Bytes)
  body : Bytes
  deriving DecidableEq

section Splitting

def delimiter : Bytes := ascii "---"

/-- A line without the carriage return it may end with. -/
def stripReturn (line : Bytes) : Bytes := if line.getLast? = some 13 then line.dropLast else line

/-- The lines up to the closing delimiter, and what is behind it. -/
def closeFrontmatter (maxBytes : Nat) (frontmatter : Bytes) :
    List Bytes → Except FlatFrontmatterError (Bytes × Bytes)
  | [] => throw .unclosed
  | line :: lines =>
    if stripReturn (stripNewline line) = delimiter then
      if frontmatter.length > maxBytes then throw .byteLimit
      else pure (frontmatter, lines.flatten)
    else if line.getLast? = some newline then closeFrontmatter maxBytes (frontmatter ++ line) lines
    else throw .unclosed

def openingBytes (source : Bytes) : Option Nat :=
  if (ascii "---\n").isPrefixOf source then some 4
  else if (ascii "---\r\n").isPrefixOf source then some 5
  else none

def splitOptionalFrontmatter (source : Bytes) (maxBytes : Nat) :
    Except FlatFrontmatterError (Option (Bytes × Bytes)) :=
  match openingBytes source with
  | none => pure none
  | some opening =>
    (closeFrontmatter maxBytes [] (splitInclusive newline (source.drop opening))).map some

end Splitting

section Fields

def validFieldName (key : Bytes) : Bool :=
  !key.isEmpty && key.all fun b => lowercaseOrDigit b || b == 0x2D

def complexYamlScalar (value : Bytes) : Bool := value.head?.any fun b => (ascii "&*!|>[\x7b").contains b

/-- `line.split_once(separator)`. -/
def splitOnce (separator : UInt8) : Bytes → Option (Bytes × Bytes)
  | [] => none
  | b :: rest =>
    if b = separator then some ([], rest)
    else (splitOnce separator rest).map fun parts => (b :: parts.1, parts.2)

def insertField (key scalar : Bytes) : List (Bytes × Bytes) → List (Bytes × Bytes)
  | [] => [(key, scalar)]
  | field :: fields =>
    if key < field.1 then (key, scalar) :: field :: fields
    else field :: insertField key scalar fields

def parseFlatField (maxFields : Nat) (fields : List (Bytes × Bytes)) (line : Bytes) :
    Except FlatFrontmatterError (List (Bytes × Bytes)) :=
  if startsBlank line then throw .nested
  else
    match splitOnce 0x3A line with
    | none => throw .invalid
    | some (key, scalar) =>
      if !validFieldName key || isBlank scalar then throw .invalid
      else if fields.length ≥ maxFields then throw .fieldLimit
      else if complexYamlScalar (trimStart scalar) then throw .nested
      else if fields.any fun field => field.1 == key then throw .duplicateKey
      else pure (insertField key (trimStart scalar) fields)

def parseFlatLine (maxFields : Nat) (fields : List (Bytes × Bytes)) (rawLine : Bytes) :
    Except FlatFrontmatterError (List (Bytes × Bytes)) :=
  let line := stripReturn rawLine
  if line.isEmpty || line.head? == some 0x23 then pure fields
  else parseFlatField maxFields fields line

def parseFlatFields (source : Bytes) (maxFields : Nat) :
    Except FlatFrontmatterError (List (Bytes × Bytes)) :=
  (splitOn newline source).foldlM (parseFlatLine maxFields) []

def parseOptionalFlatMarkdown (source : Bytes) (limits : FlatFrontmatterLimits) :
    Except FlatFrontmatterError FlatMarkdownDocument := do
  match ← splitOptionalFrontmatter source limits.maxBytes with
  | none => pure ⟨[], source⟩
  | some (frontmatter, body) => do
    let fields ← parseFlatFields frontmatter limits.maxFields
    pure ⟨fields, body⟩

end Fields

section Results

variable {source frontmatter body : Bytes} {maxBytes : Nat} {lines : List Bytes}

/-- Text with which a reader of frontmatter does not begin to read. -/
def OpensFrontmatter (source : Bytes) : Prop :=
  ascii "---\n" <+: source ∨ ascii "---\r\n" <+: source

theorem openingBytes_eq_none : openingBytes source = none ↔ ¬ OpensFrontmatter source := by
  unfold openingBytes OpensFrontmatter
  rw [not_or]
  by_cases hlf : ascii "---\n" <+: source
  · rw [if_pos (List.isPrefixOf_iff_prefix.mpr hlf)]
    exact iff_of_false nofun fun h => h.1 hlf
  · rw [if_neg fun h => hlf (List.isPrefixOf_iff_prefix.mp h)]
    by_cases hcrlf : ascii "---\r\n" <+: source
    · rw [if_pos (List.isPrefixOf_iff_prefix.mpr hcrlf)]
      exact iff_of_false nofun fun h => h.2 hcrlf
    · rw [if_neg fun h => hcrlf (List.isPrefixOf_iff_prefix.mp h)]
      exact iff_of_true rfl ⟨hlf, hcrlf⟩

theorem parseOptionalFlatMarkdown_plain {limits : FlatFrontmatterLimits}
    (h : ¬ OpensFrontmatter source) : parseOptionalFlatMarkdown source limits = .ok ⟨[], source⟩ := by
  rw [parseOptionalFlatMarkdown, splitOptionalFrontmatter, openingBytes_eq_none.mpr h]
  rfl

/-- The text behind the frontmatter ends the document. -/
theorem closeFrontmatter_suffix {front : Bytes}
    (h : closeFrontmatter maxBytes front lines = .ok (frontmatter, body)) : body <:+ lines.flatten := by
  induction lines generalizing front with
  | nil => exact (nomatch h)
  | cons line lines ih =>
    rw [closeFrontmatter] at h
    rw [List.flatten_cons]
    split at h
    · split at h
      · exact (nomatch h)
      · cases h
        exact List.suffix_append _ _
    · split at h
      · exact (ih h).trans (List.suffix_append _ _)
      · exact (nomatch h)

/-- Behind a line a valid text is valid. -/
theorem valid_lines {line : Bytes} (hlines : AreLines newline (line :: lines))
    (h : Utf8.valid (line ++ lines.flatten) = true) : Utf8.valid lines.flatten = true := by
  obtain ⟨-, hended, -⟩ := hlines
  by_cases hnil : lines = []
  · rw [hnil]
    rfl
  · have hline : line = line.dropLast ++ [newline] :=
      (List.dropLast_append_getLast? newline (hended hnil)).symm
    rw [hline, List.append_assoc, List.singleton_append, Utf8.valid_append_ascii (by decide)] at h
    exact h.2

theorem closeFrontmatter_valid {front : Bytes} (hlines : AreLines newline lines)
    (hvalid : Utf8.valid lines.flatten = true)
    (h : closeFrontmatter maxBytes front lines = .ok (frontmatter, body)) :
    Utf8.valid body = true := by
  induction lines generalizing front with
  | nil => exact (nomatch h)
  | cons line lines ih =>
    have hrest := valid_lines hlines (by rwa [List.flatten_cons] at hvalid)
    rw [closeFrontmatter] at h
    split at h
    · split at h
      · exact (nomatch h)
      · cases h
        exact hrest
    · split at h
      · exact ih hlines.2.2 hrest h
      · exact (nomatch h)

theorem openingBytes_eq_some {opening : Nat} (h : openingBytes source = some opening) :
    ∃ front, source = front ++ source.drop opening ∧ Utf8.valid front = true := by
  unfold openingBytes at h
  split at h
  · rename_i hopens
    obtain ⟨rest, rfl⟩ := List.isPrefixOf_iff_prefix.mp hopens
    cases h
    exact ⟨ascii "---\n", rfl, by decide⟩
  · split at h
    · rename_i hopens
      obtain ⟨rest, rfl⟩ := List.isPrefixOf_iff_prefix.mp hopens
      cases h
      exact ⟨ascii "---\r\n", rfl, by decide⟩
    · exact (nomatch h)

theorem parseOptionalFlatMarkdown_valid {limits : FlatFrontmatterLimits}
    {document : FlatMarkdownDocument} (hvalid : Utf8.valid source = true)
    (h : parseOptionalFlatMarkdown source limits = .ok document) :
    Utf8.valid document.body = true := by
  rw [parseOptionalFlatMarkdown, splitOptionalFrontmatter] at h
  cases hopening : openingBytes source with
  | none =>
    rw [hopening] at h
    cases h
    exact hvalid
  | some opening =>
    obtain ⟨front, hsource, hfront⟩ := openingBytes_eq_some hopening
    have hrest : Utf8.valid (source.drop opening) = true := by
      rwa [hsource, Utf8.valid_append hfront] at hvalid
    rw [hopening] at h
    obtain ⟨split, hsplit, h⟩ := Except.bind_eq_ok_iff.mp h
    change (closeFrontmatter limits.maxBytes [] (splitInclusive newline (source.drop opening))).map
      some = .ok split at hsplit
    cases hclose : closeFrontmatter limits.maxBytes []
        (splitInclusive newline (source.drop opening)) with
    | error e =>
      rw [hclose] at hsplit
      exact (nomatch hsplit)
    | ok parts =>
      rw [hclose] at hsplit
      cases hsplit
      obtain ⟨fields, -, h⟩ := Except.bind_eq_ok_iff.mp h
      cases h
      exact closeFrontmatter_valid areLines_splitInclusive (by rwa [flatten_splitInclusive]) hclose

theorem parseOptionalFlatMarkdown_opened {limits : FlatFrontmatterLimits}
    {document : FlatMarkdownDocument} (hopen : ascii "---\n" <+: source)
    (h : parseOptionalFlatMarkdown source limits = .ok document) :
    document.body <:+ source.drop 4 := by
  have hopening : openingBytes source = some 4 := if_pos (List.isPrefixOf_iff_prefix.mpr hopen)
  rw [parseOptionalFlatMarkdown, splitOptionalFrontmatter, hopening] at h
  obtain ⟨split, hsplit, h⟩ := Except.bind_eq_ok_iff.mp h
  change (closeFrontmatter limits.maxBytes [] (splitInclusive newline (source.drop 4))).map some =
    .ok split at hsplit
  cases hclose : closeFrontmatter limits.maxBytes [] (splitInclusive newline (source.drop 4)) with
  | error e =>
    rw [hclose] at hsplit
    exact (nomatch hsplit)
  | ok parts =>
    rw [hclose] at hsplit
    cases hsplit
    obtain ⟨fields, -, h⟩ := Except.bind_eq_ok_iff.mp h
    cases h
    have hsuffix := closeFrontmatter_suffix hclose
    rwa [flatten_splitInclusive] at hsuffix

section Described

variable {inner : Bytes} {limits : FlatFrontmatterLimits}

def describedLine (scalar : Bytes) : Bytes := ascii "description: " ++ scalar

theorem describedLine_newline {scalar : Bytes} (h : newline ∉ scalar) :
    newline ∉ describedLine scalar := by
  rw [describedLine, List.mem_append, not_or]
  exact ⟨by decide, h⟩

/-- A scalar between double quotes. -/
def quoted (inner : Bytes) : Bytes := 0x22 :: (inner ++ [0x22])

theorem stripReturn_quoted : stripReturn (describedLine (quoted inner)) = describedLine (quoted inner) := by
  have hlast : (describedLine (quoted inner)).getLast? = some 0x22 := by
    rw [describedLine, quoted, ← List.cons_append, ← List.append_assoc, List.getLast?_append]
    rfl
  rw [stripReturn, hlast, if_neg (by decide)]

theorem parseFlatField_described {maxFields : Nat} (hfields : 0 < maxFields) :
    parseFlatField maxFields [] (describedLine (quoted inner)) =
      .ok [(ascii "description", quoted inner)] := by
  have hsplit : splitOnce 0x3A (describedLine (quoted inner)) =
      some (ascii "description", 0x20 :: quoted inner) := rfl
  have hblank : startsBlank (describedLine (quoted inner)) = false := bne_eq_false_iff_eq.mpr rfl
  have hscalar : isBlank (0x20 :: quoted inner) = false := rfl
  have htrim : trimStart (0x20 :: quoted inner) = quoted inner := rfl
  have hkey : validFieldName (ascii "description") = true := by decide
  have hcomplex : complexYamlScalar (quoted inner) = false := rfl
  have hroom : ¬ (0 ≥ maxFields) := Nat.not_le.mpr hfields
  rw [parseFlatField, hblank, hsplit]
  simp only [hkey, hscalar, htrim, hcomplex, List.length_nil, List.any_nil, hroom, Bool.not_true,
    Bool.or_false, Bool.false_eq_true, if_false]
  rfl

theorem parseFlatLine_described {maxFields : Nat} (hfields : 0 < maxFields) :
    parseFlatLine maxFields [] (describedLine (quoted inner)) =
      .ok [(ascii "description", quoted inner)] := by
  have hfield : ((describedLine (quoted inner)).isEmpty ||
      (describedLine (quoted inner)).head? == some 0x23) = false := rfl
  rw [parseFlatLine, stripReturn_quoted, hfield]
  exact parseFlatField_described hfields

theorem parseFlatFields_described {maxFields : Nat} (hfields : 0 < maxFields)
    (hinner : newline ∉ describedLine (quoted inner)) :
    parseFlatFields (describedLine (quoted inner) ++ [newline]) maxFields =
      .ok [(ascii "description", quoted inner)] := by
  rw [parseFlatFields, splitOn_eq_splitOn, List.splitOn_append_cons_self_of_not_mem hinner,
    List.splitOn_nil, List.foldlM_cons, parseFlatLine_described hfields]
  rfl

theorem closeFrontmatter_described {maxBytes : Nat} {body : Bytes}
    (hinner : newline ∉ describedLine (quoted inner)) (hlength : inner.length + 16 ≤ maxBytes) :
    closeFrontmatter maxBytes [] (splitInclusive newline
        (describedLine (quoted inner) ++ newline :: (delimiter ++ newline :: body))) =
      .ok (describedLine (quoted inner) ++ [newline], body) := by
  have hstrip : stripReturn (stripNewline (describedLine (quoted inner) ++ [newline])) =
      describedLine (quoted inner) := by
    rw [stripNewline, List.getLast?_concat, if_pos rfl, List.dropLast_concat, stripReturn_quoted]
  have hline : describedLine (quoted inner) ≠ delimiter := by
    intro h
    cases h
  have hclosing : stripReturn (stripNewline (delimiter ++ [newline])) = delimiter := by decide
  have hshort : ¬ (describedLine (quoted inner) ++ [newline]).length > maxBytes := by
    simp only [describedLine, quoted, ascii, List.length_append, List.length_cons, List.length_nil,
      List.length_map]
    change ¬ 13 + (inner.length + 1 + 1) + 1 > maxBytes
    omega
  rw [splitInclusive_ended_append hinner, splitInclusive_ended_append (by decide), closeFrontmatter,
    hstrip, if_neg hline, List.getLast?_concat, if_pos rfl, List.nil_append, closeFrontmatter, hclosing,
    if_pos rfl, if_neg hshort, flatten_splitInclusive]
  rfl

/-- A document of one line of frontmatter, which is a quoted description. -/
theorem parseOptionalFlatMarkdown_described {body : Bytes} (hinner : newline ∉ inner)
    (hfields : 0 < limits.maxFields) (hlength : inner.length + 16 ≤ limits.maxBytes) :
    parseOptionalFlatMarkdown
        (ascii "---\n" ++ describedLine (quoted inner) ++ ascii "\n---\n" ++ body) limits =
      .ok ⟨[(ascii "description", quoted inner)], body⟩ := by
  have hline : newline ∉ describedLine (quoted inner) := by
    refine describedLine_newline ?_
    rw [quoted, List.mem_cons, List.mem_append, List.mem_singleton]
    rintro (h | h | h)
    · exact absurd h (by decide)
    · exact hinner h
    · exact absurd h (by decide)
  have hsplit : splitOptionalFrontmatter
      (ascii "---\n" ++ describedLine (quoted inner) ++ ascii "\n---\n" ++ body) limits.maxBytes =
      .ok (some (describedLine (quoted inner) ++ [newline], body)) := by
    rw [List.append_assoc, List.append_assoc]
    change (closeFrontmatter limits.maxBytes [] (splitInclusive newline
      (describedLine (quoted inner) ++ newline :: (delimiter ++ newline :: body)))).map some = _
    rw [closeFrontmatter_described hline hlength]
    rfl
  rw [parseOptionalFlatMarkdown, hsplit]
  change (parseFlatFields _ _ >>= _) = _
  rw [parseFlatFields_described hfields hline]
  rfl

end Described

end Results

end Kitrove.Prompts
