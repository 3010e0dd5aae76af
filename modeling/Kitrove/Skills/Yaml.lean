import Kitrove.Prompts.Frontmatter

/-! YAML as its deserializer presents it, read within limits of depth and of nodes. -/

namespace Kitrove.Skills

open Std
open Prompts (stripReturn)

section Values

/-- A document with its aliases expanded; `broken` is where the deserializer fails, and a key that
is no string is `none`. -/
inductive YamlNode where
  | broken
  | null
  | boolean (value : Bool)
  | number (text : Bytes)
  | string (text : Bytes)
  | sequence (values : List YamlNode)
  | mapping (entries : List (Option Bytes × YamlNode))
  | tagged (name : Bytes) (value : YamlNode)

/-- A value retained within the limits; the entries of a mapping are in the order of their keys. -/
inductive BoundedYamlValue where
  | null
  | boolean (value : Bool)
  | number (text : Bytes)
  | string (text : Bytes)
  | sequence (values : List BoundedYamlValue)
  | mapping (entries : List (Bytes × BoundedYamlValue))

inductive FrontmatterFailure where
  | duplicateTopLevelKey
  | duplicateMetadataKey
  | duplicateMappingKey
  | nonStringTopLevelKey
  | invalidMetadata
  | depthLimit
  | nodeLimit
  | aliasLimit
  deriving DecidableEq

end Values

section Aliases

def asciiBlank (b : UInt8) : Bool := b == 0x20 || b == 0x09 || b == 0x0A || b == 0x0C || b == 0x0D

structure YamlBlockScalar where
  parentIndent : Nat
  contentIndent : Option Nat

def leadingSpaces (line : Bytes) : Nat := (line.takeWhile (· == 0x20)).length

/-- The block after a line that it consumes. -/
def YamlBlockScalar.consumes (block : YamlBlockScalar) (line : Bytes) : Option YamlBlockScalar :=
  if line.all asciiBlank then some block
  else
    match block.contentIndent with
    | some contentIndent => if leadingSpaces line ≥ contentIndent then some block else none
    | none =>
      if leadingSpaces line > block.parentIndent then
        some { block with contentIndent := some (leadingSpaces line) }
      else none

structure YamlBlockHeader where
  parentIndent : Nat
  explicitIndent : Option Nat

inductive YamlLineScan where
  | alias
  | blockScalar (header : YamlBlockHeader)
  | neither

def dashIndents : Nat → Bytes → Nat → Nat → Nat × Nat
  | fuel + 1, 0x2D :: next :: rest, cursor, parent =>
    if asciiBlank next then
      dashIndents fuel ((next :: rest).dropWhile asciiBlank)
        (cursor + 1 + ((next :: rest).takeWhile asciiBlank).length) cursor
    else (parent, cursor)
  | _, _, cursor, parent => (parent, cursor)

/-- A compact sequence mapping starts its key after each leading `- `; a bare sequence scalar stays
relative to the innermost sequence indicator. -/
def yamlLineIndents (line : Bytes) : Nat × Nat :=
  let indent := leadingSpaces line
  dashIndents line.length (line.drop indent) indent indent

/-- At most an indentation and a chomping indicator, in either order. -/
def blockIndicators : Nat → Bytes → Option Nat → Bool → Bytes × Option Nat
  | _, [], explicitIndent, _ => ([], explicitIndent)
  | 0, suffix, explicitIndent, _ => (suffix, explicitIndent)
  | rounds + 1, b :: suffix, explicitIndent, chomping =>
    if (0x31 ≤ b && b ≤ 0x39) && explicitIndent.isNone then
      blockIndicators rounds suffix (some (b.toNat - 0x30)) chomping
    else if (b == 0x2B || b == 0x2D) && !chomping then
      blockIndicators rounds suffix explicitIndent true
    else (b :: suffix, explicitIndent)

def parseYamlBlockHeader (suffix : Bytes) (parentIndent : Nat) : Option YamlBlockHeader :=
  let (suffix, explicitIndent) := blockIndicators 2 suffix none false
  if suffix.head?.any fun b => !asciiBlank b then none
  else
    let suffix := suffix.dropWhile asciiBlank
    if suffix.isEmpty || suffix.head? == some 0x23 then some ⟨parentIndent, explicitIndent⟩ else none

def startsAlias (previous : Option UInt8) (rest : Bytes) : Bool :=
  (previous.all fun b => asciiBlank b || (ascii "[\x7b,:?-").contains b) &&
    rest.head?.any fun b => !asciiBlank b && !(ascii ",[]\x7b\x7d").contains b

/-- Where the scan of a line stands: whether it passes over the next byte, the byte before it, its
index, the indentation of the mapping whose value it is in, and the open quotes. -/
structure YamlLineState where
  passes : Bool
  previous : Option UInt8
  index : Nat
  valueIndent : Option Nat
  inSingle : Bool
  inDouble : Bool

def YamlLineState.next (state : YamlLineState) (b : UInt8) : YamlLineState :=
  { state with passes := false, previous := some b, index := state.index + 1 }

def blockHeaderAt (sequenceIndent : Nat) (state : YamlLineState) (b : UInt8) (rest : Bytes) :
    Option YamlBlockHeader :=
  if (b == 0x7C || b == 0x3E) && state.previous.all asciiBlank then
    parseYamlBlockHeader rest (state.valueIndent.getD sequenceIndent)
  else none

/-- The scan of a line, and the quotes open after it. -/
def scanYamlLine (sequenceIndent keyIndent : Nat) :
    Bytes → YamlLineState → YamlLineScan × Bool × Bool
  | [], state => (.neither, state.inSingle, state.inDouble)
  | b :: rest, state =>
    if state.passes then scanYamlLine sequenceIndent keyIndent rest (state.next b)
    else if state.inSingle then
      let doubled := b == 0x27 && rest.head? == some 0x27
      scanYamlLine sequenceIndent keyIndent rest
        { state.next b with passes := doubled, inSingle := doubled || b != 0x27 }
    else if state.inDouble then
      scanYamlLine sequenceIndent keyIndent rest
        { state.next b with passes := b == 0x5C, inDouble := b != 0x22 }
    else if b == 0x27 || b == 0x22 then
      scanYamlLine sequenceIndent keyIndent rest
        { state.next b with inSingle := b == 0x27, inDouble := b == 0x22 }
    else if b == 0x23 && state.previous.all asciiBlank then (.neither, false, false)
    else if b == 0x3A && keyIndent ≤ state.index && rest.head?.all asciiBlank then
      scanYamlLine sequenceIndent keyIndent rest
        { state.next b with valueIndent := some keyIndent }
    else if b == 0x2A && startsAlias state.previous rest then (.alias, false, false)
    else
      match blockHeaderAt sequenceIndent state b rest with
      | some header => (.blockScalar header, false, false)
      | none => scanYamlLine sequenceIndent keyIndent rest (state.next b)

def aliasInLines : List Bytes → Bool → Bool → Option YamlBlockScalar → Bool
  | [], _, _, _ => false
  | line :: lines, inSingle, inDouble, block =>
    match block.bind fun block => block.consumes line with
    | some block => aliasInLines lines inSingle inDouble (some block)
    | none =>
      let (sequenceIndent, keyIndent) := yamlLineIndents line
      match scanYamlLine sequenceIndent keyIndent line ⟨false, none, 0, none, inSingle, inDouble⟩ with
      | (.alias, _, _) => true
      | (.blockScalar header, inSingle, inDouble) =>
        aliasInLines lines inSingle inDouble
          (some ⟨header.parentIndent, header.explicitIndent.map (header.parentIndent + ·)⟩)
      | (.neither, inSingle, inDouble) => aliasInLines lines inSingle inDouble none

def containsYamlAliasReference (source : Bytes) : Bool :=
  aliasInLines ((splitOn newline source).map stripReturn) false false none

end Aliases

section Budget

def maxYamlDepth : Nat := 64
def maxYamlNodes : Nat := 4096
def maxYamlAliasExpandedNodes : Nat := 4096

abbrev Claimed (α : Type) := Except (Option FrontmatterFailure) α

/-- `YamlBudget::claim`: the nodes so far, with one more. -/
def claim (aliasesPresent : Bool) (depth nodes : Nat) : Claimed Nat :=
  if depth > maxYamlDepth then throw (some .depthLimit)
  else if nodes + 1 > (if aliasesPresent then maxYamlAliasExpandedNodes else maxYamlNodes) then
    throw (some (if aliasesPresent then .aliasLimit else .nodeLimit))
  else pure (nodes + 1)

def readKey (aliasesPresent : Bool) (depth : Nat) (key : Option Bytes) (nodes : Nat) :
    Claimed (Bytes × Nat) := do
  let nodes ← claim aliasesPresent depth nodes
  match key with
  | some key => pure (key, nodes)
  | none => throw none

/-- The entry of a new key, at its place. -/
def insertVacant {α : Type} (key : Bytes) (value : α) : List (Bytes × α) → List (Bytes × α)
  | [] => [(key, value)]
  | entry :: entries =>
    if compare key entry.1 = .lt then (key, value) :: entry :: entries
    else entry :: insertVacant key value entries

/-- What becomes of a key that cannot be read. -/
def keyFailure (duplicateFailure : FrontmatterFailure) (failure : Option FrontmatterFailure) :
    Option FrontmatterFailure :=
  if failure.isNone && duplicateFailure = .duplicateMetadataKey then some .invalidMetadata
  else failure

variable (aliasesPresent : Bool)

mutual

def readValue : Nat → FrontmatterFailure → YamlNode → Nat → Claimed (BoundedYamlValue × Nat)
  | depth, duplicateFailure, node, nodes => do
    let nodes ← claim aliasesPresent depth nodes
    match node with
    | .broken => throw none
    | .null => pure (.null, nodes)
    | .boolean value => pure (.boolean value, nodes)
    | .number text => pure (.number text, nodes)
    | .string text => pure (.string text, nodes)
    | .sequence values => do
      let (values, nodes) ← readValues (depth + 1) values nodes
      pure (.sequence values, nodes)
    | .mapping entries => do
      let (entries, nodes) ← readEntries (depth + 1) duplicateFailure entries [] nodes
      pure (.mapping entries, nodes)
    | .tagged name value => do
      let (name, nodes) ← readKey aliasesPresent (depth + 1) (some name) nodes
      let (value, nodes) ← readValue (depth + 1) .duplicateMappingKey value nodes
      pure (.mapping [(name, value)], nodes)

def readValues : Nat → List YamlNode → Nat → Claimed (List BoundedYamlValue × Nat)
  | _, [], nodes => pure ([], nodes)
  | depth, node :: values, nodes => do
    let (value, nodes) ← readValue depth .duplicateMappingKey node nodes
    let (values, nodes) ← readValues depth values nodes
    pure (value :: values, nodes)

def readEntries : Nat → FrontmatterFailure → List (Option Bytes × YamlNode) →
    List (Bytes × BoundedYamlValue) → Nat → Claimed (List (Bytes × BoundedYamlValue) × Nat)
  | _, _, [], values, nodes => pure (values, nodes)
  | depth, duplicateFailure, (key, node) :: entries, values, nodes => do
    let (key, nodes) ← (readKey aliasesPresent depth key nodes).mapError (keyFailure duplicateFailure)
    if values.any fun entry => entry.1 == key then throw (some duplicateFailure)
    else do
      let (value, nodes) ← readValue depth .duplicateMappingKey node nodes
      readEntries depth duplicateFailure entries (insertVacant key value values) nodes

end

end Budget

section Written

variable {aliasesPresent : Bool} {depth nodes : Nat}

/-- The failure of a document with too many nodes. -/
def limitFailure (aliasesPresent : Bool) : FrontmatterFailure :=
  if aliasesPresent then .aliasLimit else .nodeLimit

theorem claim_eq (hdepth : depth ≤ maxYamlDepth) : claim aliasesPresent depth nodes =
    if nodes + 1 ≤ maxYamlNodes then .ok (nodes + 1)
    else .error (some (limitFailure aliasesPresent)) := by
  have hlimit : (if aliasesPresent then maxYamlAliasExpandedNodes else maxYamlNodes) = maxYamlNodes :=
    ite_id maxYamlNodes
  rw [claim, if_neg (Nat.not_lt.mpr hdepth), hlimit]
  by_cases hroom : nodes + 1 ≤ maxYamlNodes
  · rw [if_neg (Nat.not_lt.mpr hroom), if_pos hroom]
    rfl
  · rw [if_pos (Nat.lt_of_not_le hroom), if_neg hroom]
    rfl

/-- Reading is exact about its limit: it takes the nodes that there are, or fails for them. -/
def ReadsWithin {α : Type} (aliasesPresent : Bool) (read : Nat → Claimed (α × Nat)) (value : α)
    (cost : Nat) : Prop :=
  ∀ nodes ≤ maxYamlNodes, read nodes =
    if nodes + cost ≤ maxYamlNodes then .ok (value, nodes + cost)
    else .error (some (limitFailure aliasesPresent))

section Composition

variable {α β : Type} {read : Nat → Claimed (α × Nat)} {g : α → Nat → Claimed (β × Nat)}
  {value : α} {result : β} {cost further : Nat}

theorem ReadsWithin.bind (h : ReadsWithin aliasesPresent read value cost)
    (hthen : ReadsWithin aliasesPresent (g value) result further) :
    ReadsWithin aliasesPresent (fun nodes => read nodes >>= fun out => g out.1 out.2) result
      (cost + further) := by
  intro nodes hnodes
  change (read nodes >>= _) = _
  rw [h nodes hnodes]
  by_cases hroom : nodes + cost ≤ maxYamlNodes
  · rw [if_pos hroom]
    change g value (nodes + cost) = _
    rw [hthen (nodes + cost) hroom, Nat.add_assoc]
  · rw [if_neg hroom, if_neg (by omega)]
    rfl

theorem ReadsWithin.map {f : α → β} (h : ReadsWithin aliasesPresent read value cost) :
    ReadsWithin aliasesPresent (fun nodes => read nodes >>= fun out => Pure.pure (f out.1, out.2))
      (f value) cost := by
  intro nodes hnodes
  change (read nodes >>= _) = _
  rw [h nodes hnodes]
  by_cases hroom : nodes + cost ≤ maxYamlNodes
  · rw [if_pos hroom, if_pos hroom]
    rfl
  · rw [if_neg hroom, if_neg hroom]
    rfl

/-- A change of the failures that leaves that of the limit alone. -/
theorem ReadsWithin.mapError {f : Option FrontmatterFailure → Option FrontmatterFailure}
    (h : ReadsWithin aliasesPresent read value cost) (hf : ∀ failure, f (some failure) = some failure) :
    ReadsWithin aliasesPresent (fun nodes => (read nodes).mapError f) value cost := by
  intro nodes hnodes
  change (read nodes).mapError f = _
  rw [h nodes hnodes]
  by_cases hroom : nodes + cost ≤ maxYamlNodes
  · rw [if_pos hroom]
    rfl
  · rw [if_neg hroom, Except.mapError, hf]

end Composition

theorem readKey_within (hdepth : depth ≤ maxYamlDepth) (key : Bytes) :
    ReadsWithin aliasesPresent (readKey aliasesPresent depth (some key)) key 1 := by
  intro nodes _
  rw [readKey, claim_eq hdepth]
  by_cases hroom : nodes + 1 ≤ maxYamlNodes
  · rw [if_pos hroom, if_pos hroom]
    rfl
  · rw [if_neg hroom, if_neg hroom]
    rfl

theorem readValue_string (hdepth : depth ≤ maxYamlDepth) (failure : FrontmatterFailure)
    (text : Bytes) : ReadsWithin aliasesPresent
      (readValue aliasesPresent depth failure (.string text)) (.string text) 1 := by
  intro nodes _
  rw [readValue, claim_eq hdepth]
  by_cases hroom : nodes + 1 ≤ maxYamlNodes
  · rw [if_pos hroom, if_pos hroom]
    rfl
  · rw [if_neg hroom, if_neg hroom]
    rfl

theorem keyFailure_some (failure duplicateFailure : FrontmatterFailure) :
    keyFailure duplicateFailure (some failure) = some failure := rfl

theorem insertVacant_last {α : Type} {key : Bytes} {value : α} {entries : List (Bytes × α)}
    (h : ∀ entry ∈ entries, compare entry.1 key = .lt) :
    insertVacant key value entries = entries ++ [(key, value)] := by
  induction entries with
  | nil => rfl
  | cons entry entries ih =>
    obtain ⟨hentry, hentries⟩ := List.forall_mem_cons.mp h
    have hgreater : compare key entry.1 = .gt := OrientedCmp.gt_of_lt hentry
    rw [insertVacant, hgreater, if_neg nofun, ih hentries, List.cons_append]

/-- The entries of a written mapping of strings, and what they are read as. -/
def stringEntries (entries : List (Bytes × Bytes)) : List (Option Bytes × YamlNode) :=
  entries.map fun entry => (some entry.1, .string entry.2)

def stringValues (entries : List (Bytes × Bytes)) : List (Bytes × BoundedYamlValue) :=
  entries.map fun entry => (entry.1, .string entry.2)

theorem readEntries_strings (hdepth : depth ≤ maxYamlDepth) (failure : FrontmatterFailure)
    {done entries : List (Bytes × Bytes)}
    (hsorted : (done ++ entries).Pairwise fun a b => compare a.1 b.1 = .lt) :
    ReadsWithin aliasesPresent
      (readEntries aliasesPresent depth failure (stringEntries entries) (stringValues done))
      (stringValues (done ++ entries)) (2 * entries.length) := by
  induction entries generalizing done with
  | nil =>
    intro nodes hnodes
    rw [List.append_nil, List.length_nil, Nat.mul_zero, Nat.add_zero, if_pos hnodes]
    rfl
  | cons entry entries ih =>
    have hbefore : ∀ other ∈ done, compare other.1 entry.1 = .lt := fun other hother =>
      (List.pairwise_append.mp hsorted).2.2 other hother entry List.mem_cons_self
    have hnew : ((stringValues done).any fun other => other.1 == entry.1) = false := by
      rw [List.any_eq_false]
      rintro value hvalue hsame
      obtain ⟨other, hother, rfl⟩ := List.mem_map.mp hvalue
      have hlt := hbefore other hother
      rw [beq_iff_eq.mp hsame, compare_self] at hlt
      exact absurd hlt nofun
    have hinsert : insertVacant entry.1 (.string entry.2) (stringValues done) =
        stringValues (done ++ [entry]) := by
      rw [stringValues, stringValues, List.map_append, insertVacant_last]
      · rfl
      · rintro value hvalue
        obtain ⟨other, hother, rfl⟩ := List.mem_map.mp hvalue
        exact hbefore other hother
    rw [List.append_cons] at hsorted ⊢
    have hread : ReadsWithin aliasesPresent (readValue aliasesPresent depth .duplicateMappingKey
        (.string entry.2)) (.string entry.2) 1 := readValue_string hdepth .duplicateMappingKey entry.2
    have hvalue := hread.bind (g := fun value => readEntries aliasesPresent depth failure
      (stringEntries entries) (insertVacant entry.1 value (stringValues done)))
      (by rw [hinsert]; exact ih hsorted)
    have hkey : ReadsWithin aliasesPresent (readKey aliasesPresent depth (some entry.1)) entry.1 1 :=
      readKey_within hdepth entry.1
    have hentry := (hkey.mapError (keyFailure_some · failure)).bind (g := fun key nodes =>
      if (stringValues done).any fun other => other.1 == key then throw (some failure)
      else do
        let (value, nodes) ← readValue aliasesPresent depth .duplicateMappingKey
          (.string entry.2) nodes
        readEntries aliasesPresent depth failure (stringEntries entries)
          (insertVacant key value (stringValues done)) nodes) (by
      simp only [hnew, Bool.false_eq_true, if_false]
      exact hvalue)
    have hcost : 2 * (entry :: entries).length = 1 + (1 + 2 * entries.length) := by
      rw [List.length_cons]
      omega
    rw [hcost]
    exact hentry

theorem readValue_strings (hdepth : depth < maxYamlDepth) (failure : FrontmatterFailure)
    {entries : List (Bytes × Bytes)} (hsorted : entries.Pairwise fun a b => compare a.1 b.1 = .lt) :
    ReadsWithin aliasesPresent
      (readValue aliasesPresent depth failure (.mapping (stringEntries entries)))
      (.mapping (stringValues entries)) (1 + 2 * entries.length) := by
  have hentries : ReadsWithin aliasesPresent
      (readEntries aliasesPresent (depth + 1) failure (stringEntries entries) [])
      (stringValues entries) (2 * entries.length) :=
    @readEntries_strings aliasesPresent (depth + 1) hdepth failure [] entries hsorted
  intro nodes _
  rw [readValue, claim_eq (Nat.le_of_lt hdepth)]
  by_cases hroom : nodes + 1 ≤ maxYamlNodes
  · have hmapping := (hentries.map (f := BoundedYamlValue.mapping)) (nodes + 1) hroom
    rw [if_pos hroom, ← Nat.add_assoc]
    exact hmapping
  · rw [if_neg hroom, if_neg (by omega)]
    rfl

end Written

end Kitrove.Skills
