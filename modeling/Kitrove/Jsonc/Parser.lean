import Kitrove.Jsonc.Scanner

/-! A parser of JSON with comments that keeps every byte of its text. What it makes of a value
depends on the value's own text only, so values can be cut out and put together. -/

namespace Jsonc

structure Options where
  comments : Bool
  trailingCommas : Bool
  deriving DecidableEq

/-- A property name with what stands between it and its value. -/
structure Key where
  raw : Text
  name : Text
  before : List Piece
  after : List Piece
  deriving DecidableEq

mutual

inductive Value where
  | scalar (kind : Scalar) (word : Text)
  | string (raw : Text) (value : Text)
  | array (elems : List Elem)
  | object (elems : List Elem)

/-- What a container holds between its brackets, in order. -/
inductive Elem where
  | piece (p : Piece)
  | comma
  | member (key : Key) (value : Value)
  | item (value : Value)

end

def Key.text (key : Key) : Text :=
  quote :: (key.raw ++ quote :: (piecesText key.before ++ colon :: piecesText key.after))

mutual

def Value.text : Value → Text
  | .scalar _ word => word
  | .string raw _ => quote :: (raw ++ [quote])
  | .array elems => openBracket :: (elemsText elems ++ [closeBracket])
  | .object elems => openBrace :: (elemsText elems ++ [closeBrace])

def Elem.text : Elem → Text
  | .piece p => p.text
  | .comma => [comma]
  | .member key value => key.text ++ value.text
  | .item value => value.text

def elemsText : List Elem → Text
  | [] => []
  | e :: es => e.text ++ elemsText es

end

inductive Container where
  | array
  | object
  deriving DecidableEq

def Container.closer : Container → UInt8
  | array => closeBracket
  | object => closeBrace

/-- Where in a container the parser is. -/
inductive Turn where
  | start
  | afterValue
  | afterComma
  deriving DecidableEq

def mayClose (o : Options) : Turn → Bool
  | .afterComma => o.trailingCommas
  | _ => true

/-- An array may leave out a comma between two values, an object may not. -/
def mayRead : Container → Turn → Bool
  | .object, .afterValue => false
  | _, _ => true

def maximumNestingDepth : Nat := 512

def readMember (o : Options) (readValue : Text → Option (Value × Text)) (text : Text) :
    Option (Elem × Text) := do
  let (raw, r) ← splitString false text
  let name ← decode raw
  let (before, r) := takePieces o.comments r.length r
  match r with
  | [] => none
  | b :: r =>
    if b = colon then do
      let (after, r) := takePieces o.comments r.length r
      let (value, r) ← readValue r
      pure (.member ⟨raw, name, before, after⟩ value, r)
    else none

def readElem (o : Options) (container : Container) (readValue : Text → Option (Value × Text)) :
    Text → Option (Elem × Text)
  | [] => none
  | b :: r =>
    match container with
    | .array => (readValue (b :: r)).map fun p => (.item p.1, p.2)
    | .object => if b = quote then readMember o readValue r else none

/-- A property counts as a level of nesting of its own. -/
def Container.valueDepth (depth : Nat) : Container → Nat
  | array => depth
  | object => depth + 1

mutual

def parseValue (o : Options) (depth : Nat) : Nat → Text → Option (Value × Text)
  | 0, _ => none
  | fuel + 1, text =>
    if depth > maximumNestingDepth then none
    else
      match text with
      | [] => none
      | b :: r =>
        if b = openBrace then
          (parseElems o (depth + 1) .object fuel .start r).map fun p => (.object p.1, p.2)
        else if b = openBracket then
          (parseElems o (depth + 1) .array fuel .start r).map fun p => (.array p.1, p.2)
        else if b = quote then
          (splitString false r).bind fun p => (decode p.1).map fun value => (.string p.1 value, p.2)
        else (scanScalar (b :: r)).map fun p => (.scalar p.1.1 p.1.2, p.2)

def parseElems (o : Options) (depth : Nat) (container : Container) :
    Nat → Turn → Text → Option (List Elem × Text)
  | 0, _, _ => none
  | fuel + 1, turn, text =>
    match takePiece o.comments text with
    | some (p, r) =>
      (parseElems o depth container fuel turn r).map fun q => (.piece p :: q.1, q.2)
    | none =>
      match text with
      | [] => none
      | b :: r =>
        if b = container.closer then if mayClose o turn then some ([], r) else none
        else if b = comma then
          if turn = .afterValue then
            (parseElems o depth container fuel .afterComma r).map fun q => (.comma :: q.1, q.2)
          else none
        else if mayRead container turn then
          match readElem o container (parseValue o (container.valueDepth depth) fuel) (b :: r) with
          | none => none
          | some (e, r) =>
            (parseElems o depth container fuel .afterValue r).map fun q => (e :: q.1, q.2)
        else none

end

/-- A text with one value. A line comment at the end of the text needs no end of line. -/
structure Document where
  lead : List Piece
  value : Value
  trail : List Piece
  unfinished : Text

def Document.text (d : Document) : Text :=
  piecesText d.lead ++ (d.value.text ++ (piecesText d.trail ++ d.unfinished))

def isUnfinishedLine (o : Options) : Text → Bool
  | [] => true
  | [_] => false
  | a :: b :: r => o.comments && a == slash && b == slash && !r.contains newline

def parse (o : Options) (text : Text) : Option Document :=
  let (lead, r) := takePieces o.comments text.length text
  match parseValue o 0 (2 * text.length + 2) r with
  | none => none
  | some (value, r) =>
    let (trail, r) := takePieces o.comments r.length r
    if isUnfinishedLine o r then some ⟨lead, value, trail, r⟩ else none

end Jsonc
