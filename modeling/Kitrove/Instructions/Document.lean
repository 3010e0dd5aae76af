import Kitrove.Model.Text
import Kitrove.Support.Lines
import Kitrove.Support.Utf8

/-! Managed regions of a co-owned instruction document: marker lines, the bounded scan
of a document, and the edits that insert, replace and remove one region. -/

namespace Kitrove

structure InstructionLimits where
  maxDocumentBytes : Nat
  maxBodyBytes : Nat
  maxRegions : Nat

def InstructionLimits.standard : InstructionLimits := ⟨1024 * 1024, 256 * 1024, 256⟩

structure InstructionError where
  code : String
  message : String
  deriving DecidableEq, Repr

namespace InstructionError

def bodyInvalid : InstructionError :=
  ⟨"instruction.body_invalid", "instruction body must be non-empty UTF-8 without NUL bytes"⟩

def inputLimit : InstructionError :=
  ⟨"instruction.body_limit", "instruction body exceeds the configured byte limit"⟩

def bodyLineEndings : InstructionError :=
  ⟨"instruction.body_line_endings", "instruction body must use LF or CRLF line endings"⟩

def bodyLimit : InstructionError :=
  ⟨"instruction.body_limit", "instruction body is empty or exceeds the configured byte limit"⟩

def bodyMarker : InstructionError :=
  ⟨"instruction.body_marker",
    "instruction body must not contain Kitrove managed-region markers"⟩

def documentLimit : InstructionError :=
  ⟨"instruction.document_limit",
    "co-owned instruction document exceeds the configured byte limit"⟩

def documentUtf8 : InstructionError :=
  ⟨"instruction.document_utf8", "co-owned instruction document must contain valid UTF-8"⟩

def documentNul : InstructionError :=
  ⟨"instruction.document_nul", "co-owned instruction document must not contain NUL bytes"⟩

def regionNested : InstructionError :=
  ⟨"instruction.region_nested", "managed instruction regions must not be nested"⟩

def regionUnmatchedEnd : InstructionError :=
  ⟨"instruction.region_unmatched_end",
    "managed instruction end marker has no matching begin marker"⟩

def regionLimit : InstructionError :=
  ⟨"instruction.region_limit",
    "co-owned instruction document contains too many managed regions"⟩

def regionMismatch : InstructionError :=
  ⟨"instruction.region_mismatch",
    "managed instruction marker asset identifiers do not match"⟩

def regionBodyLimit : InstructionError :=
  ⟨"instruction.body_limit", "managed instruction body exceeds the configured byte limit"⟩

def regionDuplicate : InstructionError :=
  ⟨"instruction.region_duplicate",
    "co-owned instruction document contains a duplicate managed region"⟩

def regionUnclosed : InstructionError :=
  ⟨"instruction.region_unclosed",
    "managed instruction begin marker has no matching end marker"⟩

def updatedRegionLimit : InstructionError :=
  ⟨"instruction.region_limit",
    "updated instruction document would contain too many managed regions"⟩

def updatedDocumentLimit : InstructionError :=
  ⟨"instruction.document_limit",
    "updated instruction document exceeds the configured byte limit"⟩

def markerMalformed : InstructionError :=
  ⟨"instruction.marker_invalid", "Kitrove instruction marker line is malformed"⟩

def markerIdentifier : InstructionError :=
  ⟨"instruction.marker_invalid", "Kitrove instruction marker asset identifier is invalid"⟩

def assetIdLimit : InstructionError :=
  ⟨"instruction.asset_id_limit",
    "instruction asset identifier exceeds the managed-marker limit"⟩

end InstructionError

open InstructionError Lines

/-- A validated asset identifier. -/
structure AssetName where
  bytes : Bytes
  valid : validIdentifier bytes = true
  deriving DecidableEq

def AssetName.parse (value : Bytes) : Option AssetName :=
  if h : validIdentifier value = true then some ⟨value, h⟩ else none

section Markers

def markerNamespace : Bytes := ascii "<!-- kitrove:instruction"
def markerPrefix : Bytes := ascii "<!-- kitrove:instruction "
def beginSuffix : Bytes := ascii " begin -->"
def endSuffix : Bytes := ascii " end -->"
def maxAssetIdBytes : Nat := 128

inductive Marker where
  | begin (assetId : AssetName)
  | end (assetId : AssetName)
  deriving DecidableEq

def parseMarkerId (rawId : Bytes) : Except InstructionError AssetName :=
  if rawId.length > maxAssetIdBytes then .error markerIdentifier
  else
    match AssetName.parse rawId with
    | none => .error markerIdentifier
    | some assetId => .ok assetId

def parseMarker (line : Bytes) : Except InstructionError (Option Marker) :=
  if !markerNamespace.isPrefixOf line then .ok none
  else
    match stripPrefix markerPrefix line with
    | none => .error markerMalformed
    | some rest =>
      match stripSuffix beginSuffix rest with
      | some rawId => (parseMarkerId rawId).map fun assetId => some (.begin assetId)
      | none =>
        match stripSuffix endSuffix rest with
        | some rawId => (parseMarkerId rawId).map fun assetId => some (.end assetId)
        | none => .error markerMalformed

/-- A line without the newline it may end with. -/
def stripNewline (line : Bytes) : Bytes :=
  if line.getLast? = some newline then line.dropLast else line

end Markers

section Bodies

/-- `replace("\r\n", "\n")`. -/
def replaceCrlf : Bytes → Bytes
  | 13 :: 10 :: rest => 10 :: replaceCrlf rest
  | b :: rest => b :: replaceCrlf rest
  | [] => []

/-- `trim_end_matches('\n')`. -/
def trimEndNewlines : Bytes → Bytes
  | [] => []
  | b :: rest =>
    match trimEndNewlines rest with
    | [] => if b = newline then [] else [b]
    | trimmed => b :: trimmed

def normalizeBody (input : Bytes) : Bytes := trimEndNewlines (replaceCrlf input) ++ [newline]

def containsMarker (text : Bytes) : Bool :=
  (splitInclusive newline text).any fun line => markerNamespace.isPrefixOf (stripNewline line)

/-- Canonical instruction bytes: UTF-8 without NUL, ended by a newline, with no marker line. -/
structure InstructionBody where
  bytes : Bytes
  utf8 : Utf8.valid bytes = true
  noNul : 0 ∉ bytes
  ended : bytes.getLast? = some newline
  noMarker : containsMarker bytes = false

end Bodies

section Documents

structure ByteRange where
  start : Nat
  stop : Nat
  deriving DecidableEq, Repr

def ByteRange.len (range : ByteRange) : Nat := range.stop - range.start

/-- `input[range]`. -/
def slice (input : Bytes) (range : ByteRange) : Bytes :=
  (input.take range.stop).drop range.start

structure ManagedRegion where
  assetId : AssetName
  range : ByteRange
  bodyRange : ByteRange
  deriving DecidableEq

/-- The regions of a document, in the order in which it has them. -/
structure ManagedDocument where
  regions : List ManagedRegion
  deriving DecidableEq

def ManagedDocument.region (document : ManagedDocument) (assetId : AssetName) :
    Option ManagedRegion :=
  document.regions.find? fun region => region.assetId = assetId

structure OpenRegion where
  assetId : AssetName
  start : Nat
  bodyStart : Nat
  deriving DecidableEq

structure InspectState where
  regions : List ManagedRegion
  opened : Option OpenRegion
  offset : Nat
  deriving DecidableEq

variable (limits : InstructionLimits)

def beginRegion (s : InspectState) (lineLength : Nat) (assetId : AssetName) :
    Except InstructionError InspectState :=
  match s.opened with
  | some _ => .error regionNested
  | none =>
    if s.regions.length ≥ limits.maxRegions then .error regionLimit
    else
      .ok { s with
        opened := some ⟨assetId, s.offset, s.offset + lineLength⟩
        offset := s.offset + lineLength }

def endRegion (s : InspectState) (lineLength : Nat) (assetId : AssetName) :
    Except InstructionError InspectState :=
  match s.opened with
  | none => .error regionUnmatchedEnd
  | some current =>
    if assetId ≠ current.assetId then .error regionMismatch
    else if (⟨current.bodyStart, s.offset⟩ : ByteRange).len > limits.maxBodyBytes then
      .error regionBodyLimit
    else if s.regions.any fun region => region.assetId = current.assetId then
      .error regionDuplicate
    else
      .ok
        { regions := s.regions ++ [⟨current.assetId, ⟨current.start, s.offset + lineLength⟩,
            ⟨current.bodyStart, s.offset⟩⟩]
          opened := none
          offset := s.offset + lineLength }

def inspectLine (s : InspectState) (lineWithEnding : Bytes) :
    Except InstructionError InspectState := do
  match ← parseMarker (stripNewline lineWithEnding) with
  | none => pure { s with offset := s.offset + lineWithEnding.length }
  | some (.begin assetId) => beginRegion limits s lineWithEnding.length assetId
  | some (.end assetId) => endRegion limits s lineWithEnding.length assetId

/-- Parses exact managed-region marker lines and leaves all other bytes unowned. -/
def inspectManagedDocument (input : Bytes) : Except InstructionError ManagedDocument :=
  if input.length > limits.maxDocumentBytes then .error documentLimit
  else if !Utf8.valid input then .error documentUtf8
  else if input.contains 0 then .error documentNul
  else do
    let s ← (splitInclusive newline input).foldlM (inspectLine limits) ⟨[], none, 0⟩
    if s.opened.isSome then .error regionUnclosed else .ok ⟨s.regions⟩

def renderManagedRegion (assetId : AssetName) (body : InstructionBody) :
    Except InstructionError Bytes :=
  if assetId.bytes.length > maxAssetIdBytes then .error assetIdLimit
  else
    .ok (markerPrefix ++ assetId.bytes ++ beginSuffix ++ [newline] ++ body.bytes ++
      markerPrefix ++ assetId.bytes ++ endSuffix ++ [newline])

/-- What a first insertion puts between the document and the new region. -/
def separator (input : Bytes) : Bytes :=
  match input.getLast? with
  | none => []
  | some last =>
    if last = newline then
      if [newline, newline].isSuffixOf input then [] else [newline]
    else [newline, newline]

/-- Inserts or exactly replaces one managed region. -/
def upsertManagedRegion (input : Bytes) (assetId : AssetName) (body : InstructionBody) :
    Except InstructionError Bytes := do
  let document ← inspectManagedDocument limits input
  let existing := document.region assetId
  if existing.isNone && document.regions.length ≥ limits.maxRegions then
    .error updatedRegionLimit
  else
    let rendered ← renderManagedRegion assetId body
    let output :=
      match existing with
      | some region => input.take region.range.start ++ rendered ++ input.drop region.range.stop
      | none => input ++ separator input ++ rendered
    if output.length > limits.maxDocumentBytes then .error updatedDocumentLimit
    else .ok output

/-- Removes exactly one managed region. -/
def removeManagedRegion (input : Bytes) (assetId : AssetName) :
    Except InstructionError (Option Bytes) := do
  let document ← inspectManagedDocument limits input
  match document.region assetId with
  | none => pure none
  | some region => pure (some (input.take region.range.start ++ input.drop region.range.stop))

end Documents

end Kitrove
