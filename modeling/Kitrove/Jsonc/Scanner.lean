import Mathlib.Data.List.Basic
import Mathlib.Data.List.Infix
import Kitrove.Support.Bytes

/-! Reading JSON with comments, one lexeme at a time: white space, comments, strings, words and
numbers. What a lexeme is does not depend on the text after it beyond where it ends. -/

namespace Jsonc

abbrev Text := List UInt8

def newline : UInt8 := 0x0A
def quote : UInt8 := 0x22
def comma : UInt8 := 0x2C
def colon : UInt8 := 0x3A
def slash : UInt8 := 0x2F
def star : UInt8 := 0x2A
def backslash : UInt8 := 0x5C
def openBrace : UInt8 := 0x7B
def closeBrace : UInt8 := 0x7D
def openBracket : UInt8 := 0x5B
def closeBracket : UInt8 := 0x5D

section Pieces

/-- The characters that are white space, in UTF-8. -/
def spaces : List Text :=
  [[0x20], [0x09], [0x0A], [0x0D], [0x0B], [0x0C], [0xC2, 0x85], [0xC2, 0xA0],
    [0xE1, 0x9A, 0x80], [0xE2, 0x80, 0x80], [0xE2, 0x80, 0x81], [0xE2, 0x80, 0x82],
    [0xE2, 0x80, 0x83], [0xE2, 0x80, 0x84], [0xE2, 0x80, 0x85], [0xE2, 0x80, 0x86],
    [0xE2, 0x80, 0x87], [0xE2, 0x80, 0x88], [0xE2, 0x80, 0x89], [0xE2, 0x80, 0x8A],
    [0xE2, 0x80, 0xA8], [0xE2, 0x80, 0xA9], [0xE2, 0x80, 0xAF], [0xE2, 0x81, 0x9F],
    [0xE3, 0x80, 0x80]]

/-- What may stand between two tokens. -/
inductive Piece where
  | space (bytes : Text)
  | line (body : Text)
  | block (body : Text)
  deriving DecidableEq, Repr

namespace Piece

def text : Piece → Text
  | space bytes => bytes
  | line body => slash :: slash :: (body ++ [newline])
  | block body => slash :: star :: (body ++ [star, slash])

def isComment : Piece → Bool
  | space _ => false
  | line _ | block _ => true

end Piece

def piecesText (ps : List Piece) : Text := ps.flatMap Piece.text

def takeSpace (text : Text) : Option Text := spaces.find? fun s => s.isPrefixOf text

/-- The text up to the end of the line. -/
def splitLine : Text → Option (Text × Text)
  | [] => none
  | b :: r => if b = newline then some ([], r) else (splitLine r).map fun p => (b :: p.1, p.2)

/-- The text up to the end of a block comment. -/
def splitBlock : Text → Option (Text × Text)
  | a :: b :: r =>
    if a = star ∧ b = slash then some ([], r)
    else (splitBlock (b :: r)).map fun p => (a :: p.1, p.2)
  | _ => none

def takeComment : Text → Option (Piece × Text)
  | a :: b :: r =>
    if a = slash ∧ b = slash then (splitLine r).map fun p => (.line p.1, p.2)
    else if a = slash ∧ b = star then (splitBlock r).map fun p => (.block p.1, p.2)
    else none
  | _ => none

def takePiece (comments : Bool) (text : Text) : Option (Piece × Text) :=
  match takeSpace text with
  | some s => some (.space s, text.drop s.length)
  | none => if comments then takeComment text else none

/-- All pieces that a text starts with. -/
def takePieces (comments : Bool) : Nat → Text → List Piece × Text
  | 0, text => ([], text)
  | fuel + 1, text =>
    match takePiece comments text with
    | none => ([], text)
    | some (p, r) =>
      let (ps, rest) := takePieces comments fuel r
      (p :: ps, rest)

/-- No piece starts with this byte. -/
def notPiece (b : UInt8) : Bool := b != slash && spaces.all fun s => s.head? != some b

variable {comments : Bool} {text r r' body : Text} {p : Piece} {ps : List Piece} {b : UInt8}

theorem spaces_prefix_free : ∀ s ∈ spaces, ∀ t ∈ spaces, s <+: t → s = t := by
  decide +kernel

theorem spaces_ne_slash : ∀ s ∈ spaces, s.head? ≠ some slash ∧ s ≠ [] := by
  decide +kernel

theorem takeSpace_append {s : Text} (hs : s ∈ spaces) : takeSpace (s ++ r) = some s := by
  unfold takeSpace
  cases hfind : spaces.find? fun t => t.isPrefixOf (s ++ r) with
  | none =>
    have hnone := List.find?_eq_none.mp hfind s hs
    simp at hnone
  | some t =>
    have ht := List.mem_of_find?_eq_some hfind
    have hstarts : t <+: s ++ r := by
      have := List.find?_some hfind
      exact List.isPrefixOf_iff_prefix.mp this
    rcases List.prefix_or_prefix_of_prefix hstarts (List.prefix_append s r) with h | h
    · rw [spaces_prefix_free t ht s hs h]
    · rw [spaces_prefix_free s hs t ht h]

theorem takeSpace_eq_some {s : Text} (h : takeSpace text = some s) :
    s ∈ spaces ∧ text = s ++ text.drop s.length := by
  have hstarts : s.isPrefixOf text = true :=
    List.find?_some (p := fun s : Text => s.isPrefixOf text) h
  refine ⟨List.mem_of_find?_eq_some h, ?_⟩
  obtain ⟨k, rfl⟩ := List.isPrefixOf_iff_prefix.mp hstarts
  rw [List.drop_left]

theorem takeSpace_cons_eq_none (h : ∀ s ∈ spaces, s.head? ≠ some b) :
    takeSpace (b :: r) = none := by
  refine List.find?_eq_none.mpr fun s hs hstarts => ?_
  obtain ⟨k, hk⟩ := List.isPrefixOf_iff_prefix.mp hstarts
  cases s with
  | nil => exact (spaces_ne_slash _ hs).2 rfl
  | cons c s => exact h _ hs (by rw [(List.cons.inj hk).1, List.head?_cons])

theorem takePiece_cons_eq_none (h : notPiece b = true) : takePiece comments (b :: r) = none := by
  simp only [notPiece, Bool.and_eq_true, bne_iff_ne, List.all_eq_true] at h
  have hcomment : takeComment (b :: r) = none := by
    cases r with
    | nil => rfl
    | cons c r => simp [takeComment, h.1]
  rw [takePiece, takeSpace_cons_eq_none h.2]
  simp [hcomment]

theorem splitLine_spec (h : splitLine text = some (body, r)) :
    text = body ++ newline :: r ∧ newline ∉ body := by
  induction text generalizing body with
  | nil => contradiction
  | cons b text ih =>
    rw [splitLine] at h
    split at h
    · rename_i hb
      obtain ⟨rfl, rfl⟩ := Prod.mk.inj (Option.some.inj h)
      simp [hb]
    · rename_i hb
      obtain ⟨⟨body, r⟩, hsplit, heq⟩ := Option.map_eq_some_iff.mp h
      obtain ⟨rfl, rfl⟩ := Prod.mk.inj heq
      obtain ⟨rfl, hbody⟩ := ih hsplit
      exact ⟨rfl, by simp [hbody, Ne.symm hb]⟩

theorem splitLine_append (h : newline ∉ body) :
    splitLine (body ++ newline :: r) = some (body, r) := by
  induction body with
  | nil => simp [splitLine]
  | cons b body ih =>
    rw [List.mem_cons, not_or] at h
    simp [splitLine, Ne.symm h.1, ih h.2]

/-- A block comment ends at the first place where it can. -/
def Closed (body : Text) : Prop := ∀ r, splitBlock (body ++ star :: slash :: r) = some (body, r)

theorem splitBlock_spec (h : splitBlock text = some (body, r)) :
    text = body ++ star :: slash :: r ∧ Closed body := by
  fun_induction splitBlock text generalizing body with
  | case1 a b rest hend =>
    obtain ⟨rfl, rfl⟩ := Prod.mk.inj (Option.some.inj h)
    obtain ⟨rfl, rfl⟩ := hend
    exact ⟨rfl, fun r => by simp [splitBlock]⟩
  | case2 a b rest hend ih =>
    obtain ⟨⟨body, r⟩, hsplit, heq⟩ := Option.map_eq_some_iff.mp h
    obtain ⟨rfl, rfl⟩ := Prod.mk.inj heq
    obtain ⟨htext, hclosed⟩ := ih hsplit
    refine ⟨by rw [htext]; rfl, fun r' => ?_⟩
    -- the byte after the first one is the same, whatever follows the comment
    obtain ⟨tail, htail⟩ : ∃ tail, body ++ star :: slash :: r' = b :: tail := by
      cases body with
      | nil => exact ⟨_, congrArg (· :: _) (List.cons.inj htext).1.symm⟩
      | cons c body => exact ⟨_, congrArg (· :: _) (List.cons.inj htext).1.symm⟩
    rw [List.cons_append, htail, splitBlock, if_neg hend, ← htail, hclosed r']
    rfl
  | case3 => contradiction

/-- A piece that is read as such, whatever follows it. -/
def Piece.Reads (comments : Bool) (p : Piece) : Prop :=
  ∀ r, takePiece comments (p.text ++ r) = some (p, r)

theorem takeSpace_slash : takeSpace (slash :: r) = none :=
  takeSpace_cons_eq_none fun s hs => (spaces_ne_slash s hs).1

theorem reads_space {s : Text} (hs : s ∈ spaces) : (Piece.space s).Reads comments := by
  intro r
  simp [Piece.text, takePiece, takeSpace_append hs]

theorem reads_line (h : newline ∉ body) : (Piece.line body).Reads true := by
  intro r
  rw [Piece.text, List.cons_append, List.cons_append, takePiece, takeSpace_slash, if_pos rfl,
    takeComment, if_pos ⟨rfl, rfl⟩, List.append_assoc, List.singleton_append, splitLine_append h]
  rfl

theorem reads_block (h : Closed body) : (Piece.block body).Reads true := by
  intro r
  have hne : ¬ (slash = slash ∧ star = slash) := by decide
  rw [Piece.text, List.cons_append, List.cons_append, takePiece, takeSpace_slash, if_pos rfl,
    takeComment, if_neg hne, if_pos ⟨rfl, rfl⟩, List.append_assoc]
  rw [List.cons_append, List.singleton_append, h r]
  rfl

theorem takePiece_spec (h : takePiece comments text = some (p, r)) :
    text = p.text ++ r ∧ p.Reads comments := by
  unfold takePiece at h
  split at h
  · rename_i s hs
    obtain ⟨rfl, rfl⟩ := Prod.mk.inj (Option.some.inj h)
    obtain ⟨hmem, htext⟩ := takeSpace_eq_some hs
    exact ⟨htext, reads_space hmem⟩
  split at h
  swap
  · contradiction
  rename_i hcomments
  rw [hcomments]
  match text, h with
  | a :: b :: rest, h =>
    rw [takeComment] at h
    split at h
    · rename_i hline
      obtain ⟨⟨body, r⟩, hsplit, heq⟩ := Option.map_eq_some_iff.mp h
      obtain ⟨rfl, rfl⟩ := Prod.mk.inj heq
      obtain ⟨rfl, hbody⟩ := splitLine_spec hsplit
      obtain ⟨rfl, rfl⟩ := hline
      exact ⟨by simp [Piece.text], reads_line hbody⟩
    split at h
    · rename_i hblock
      obtain ⟨⟨body, r⟩, hsplit, heq⟩ := Option.map_eq_some_iff.mp h
      obtain ⟨rfl, rfl⟩ := Prod.mk.inj heq
      obtain ⟨rfl, hclosed⟩ := splitBlock_spec hsplit
      obtain ⟨rfl, rfl⟩ := hblock
      exact ⟨by simp [Piece.text], reads_block hclosed⟩
    · contradiction

theorem takePieces_spec {fuel : Nat} (h : takePieces comments fuel text = (ps, r)) :
    text = piecesText ps ++ r ∧ ∀ p ∈ ps, p.Reads comments := by
  induction fuel generalizing text ps with
  | zero =>
    obtain ⟨rfl, rfl⟩ := Prod.mk.inj h
    simp [piecesText]
  | succ fuel ih =>
    rw [takePieces] at h
    split at h
    · obtain ⟨rfl, rfl⟩ := Prod.mk.inj h
      simp [piecesText]
    · rename_i p rest hp
      obtain ⟨rfl, hreads⟩ := takePiece_spec hp
      cases hps : takePieces comments fuel rest with
      | mk ps' r' =>
        rw [hps] at h
        obtain ⟨rfl, rfl⟩ := Prod.mk.inj h
        obtain ⟨rfl, hall⟩ := ih hps
        refine ⟨by simp [piecesText], ?_⟩
        simpa [hreads] using hall

theorem takePieces_append {fuel : Nat} (hps : ∀ p ∈ ps, p.Reads comments)
    (hr : takePiece comments r = none) (hfuel : ps.length ≤ fuel) :
    takePieces comments fuel (piecesText ps ++ r) = (ps, r) := by
  induction ps generalizing fuel with
  | nil =>
    cases fuel with
    | zero => rfl
    | succ fuel => simp [piecesText, takePieces, hr]
  | cons p ps ih =>
    cases fuel with
    | zero => contradiction
    | succ fuel =>
      have hfuel : ps.length ≤ fuel := Nat.le_of_succ_le_succ hfuel
      have hps := List.forall_mem_cons.mp hps
      have ih := ih hps.2 hfuel
      rw [piecesText, List.flatMap_cons, List.append_assoc, takePieces, hps.1]
      rw [piecesText] at ih
      simp [ih]

end Pieces

section Strings

/-- The text of a string up to its closing quote; no quote closes it after a backslash. -/
def splitString : Bool → Text → Option (Text × Text)
  | _, [] => none
  | true, b :: r => (splitString false r).map fun p => (b :: p.1, p.2)
  | false, b :: r =>
    if b = quote then some ([], r)
    else (splitString (b == backslash) r).map fun p => (b :: p.1, p.2)

def hexDigit (b : UInt8) : Option Nat :=
  if 0x30 ≤ b ∧ b ≤ 0x39 then some (b.toNat - 0x30)
  else if 0x41 ≤ b ∧ b ≤ 0x46 then some (b.toNat - 0x37)
  else if 0x61 ≤ b ∧ b ≤ 0x66 then some (b.toNat - 0x57)
  else none

def fourHexDigits (a b c d : UInt8) : Option Nat := do
  let a ← hexDigit a
  let b ← hexDigit b
  let c ← hexDigit c
  let d ← hexDigit d
  pure (((a * 16 + b) * 16 + c) * 16 + d)

def encodeUtf8 (code : Nat) : Text :=
  let tail (n : Nat) : UInt8 := UInt8.ofNat (0x80 + n % 64)
  if code < 0x80 then [UInt8.ofNat code]
  else if code < 0x800 then [UInt8.ofNat (0xC0 + code / 64), tail code]
  else if code < 0x10000 then [UInt8.ofNat (0xE0 + code / 4096), tail (code / 64), tail code]
  else [UInt8.ofNat (0xF0 + code / 262144), tail (code / 4096), tail (code / 64), tail code]

def simpleEscape (b : UInt8) : Option UInt8 :=
  if b = quote ∨ b = backslash ∨ b = slash then some b
  else if b = 0x62 then some 0x08
  else if b = 0x66 then some 0x0C
  else if b = 0x6E then some 0x0A
  else if b = 0x72 then some 0x0D
  else if b = 0x74 then some 0x09
  else none

/-- What the text of a string stands for. -/
def decode : Text → Option Text
  | [] => some []
  | b :: r =>
    if b ≠ backslash then (decode r).map (b :: ·)
    else
      match r with
      | [] => none
      | c :: r =>
        if c ≠ 0x75 then do
          let e ← simpleEscape c
          let text ← decode r
          pure (e :: text)
        else
          match r with
          | d₁ :: d₂ :: d₃ :: d₄ :: r => do
            let high ← fourHexDigits d₁ d₂ d₃ d₄
            if 0xDC00 ≤ high ∧ high ≤ 0xDFFF then none
            else if 0xD800 ≤ high ∧ high ≤ 0xDBFF then
              match r with
              | e₁ :: e₂ :: d₁ :: d₂ :: d₃ :: d₄ :: r => do
                let low ← fourHexDigits d₁ d₂ d₃ d₄
                if e₁ = backslash ∧ e₂ = 0x75 ∧ 0xDC00 ≤ low ∧ low ≤ 0xDFFF then do
                  let text ← decode r
                  pure (encodeUtf8 ((high - 0xD800) * 0x400 + (low - 0xDC00) + 0x10000) ++ text)
                else none
              | _ => none
            else do
              let text ← decode r
              pure (encodeUtf8 high ++ text)
          | _ => none

variable {text raw r : Text}

/-- A text that the next quote closes. -/
def Literal (raw : Text) : Prop := ∀ r, splitString false (raw ++ quote :: r) = some (raw, r)

theorem splitString_spec {escaped : Bool} (h : splitString escaped text = some (raw, r)) :
    text = raw ++ quote :: r ∧ ∀ r, splitString escaped (raw ++ quote :: r) = some (raw, r) := by
  induction text generalizing escaped raw with
  | nil => contradiction
  | cons b text ih =>
    cases escaped with
    | true =>
      obtain ⟨⟨raw, r⟩, hsplit, heq⟩ := Option.map_eq_some_iff.mp h
      obtain ⟨rfl, rfl⟩ := Prod.mk.inj heq
      obtain ⟨rfl, hraw⟩ := ih hsplit
      exact ⟨rfl, fun r => by rw [List.cons_append, splitString, hraw r]; rfl⟩
    | false =>
      rw [splitString] at h
      split at h
      · rename_i hb
        obtain ⟨rfl, rfl⟩ := Prod.mk.inj (Option.some.inj h)
        exact ⟨by rw [hb]; rfl, fun r => by simp [splitString]⟩
      · rename_i hb
        obtain ⟨⟨raw, r⟩, hsplit, heq⟩ := Option.map_eq_some_iff.mp h
        obtain ⟨rfl, rfl⟩ := Prod.mk.inj heq
        obtain ⟨rfl, hraw⟩ := ih hsplit
        exact ⟨rfl, fun r => by rw [List.cons_append, splitString, if_neg hb, hraw r]; rfl⟩

/-- A text without quotes and backslashes stands for itself. -/
def plain (text : Text) : Bool := text.all fun b => b != quote && b != backslash

theorem plain_cons {b : UInt8} (h : plain (b :: text) = true) :
    (b ≠ quote ∧ b ≠ backslash) ∧ plain text = true := by
  simpa [plain] using h

theorem literal_of_plain (h : plain raw = true) : Literal raw := by
  intro r
  induction raw with
  | nil => simp [splitString]
  | cons b raw ih =>
    obtain ⟨⟨hquote, hbackslash⟩, hraw⟩ := plain_cons h
    rw [List.cons_append, splitString, if_neg hquote, beq_eq_false_iff_ne.mpr hbackslash, ih hraw]
    rfl

theorem decode_cons {b : UInt8} (h : b ≠ backslash) :
    decode (b :: text) = (decode text).map (b :: ·) := by
  rw [decode.eq_def]
  simp [h]

theorem decode_of_plain (h : plain raw = true) : decode raw = some raw := by
  induction raw with
  | nil => rfl
  | cons b raw ih =>
    obtain ⟨⟨-, hbackslash⟩, hraw⟩ := plain_cons h
    rw [decode_cons hbackslash, ih hraw]
    rfl

end Strings

section Scalars

inductive Scalar where
  | null
  | boolean (value : Bool)
  | number
  deriving DecidableEq, Repr

def isDigit (b : UInt8) : Bool := decide (0x30 ≤ b) && decide (b ≤ 0x39)

def isAlphanumeric (b : UInt8) : Bool :=
  isDigit b || (decide (0x41 ≤ b) && decide (b ≤ 0x5A)) || (decide (0x61 ≤ b) && decide (b ≤ 0x7A))

def startsSpace (text : Text) : Bool := (takeSpace text).isSome

def dot : UInt8 := 0x2E
def minus : UInt8 := 0x2D
def plus : UInt8 := 0x2B

/-- A word ends before anything but a letter or a digit. -/
def wordEnds : Text → Bool
  | [] => true
  | b :: r => if b < 0x80 then !isAlphanumeric b else startsSpace (b :: r)

def keywords : List (Text × Scalar) :=
  [([0x74, 0x72, 0x75, 0x65], .boolean true), ([0x66, 0x61, 0x6C, 0x73, 0x65], .boolean false),
    ([0x6E, 0x75, 0x6C, 0x6C], .null)]

def scanKeyword (text : Text) (k : Text × Scalar) : Option ((Scalar × Text) × Text) :=
  if k.1.isPrefixOf text && wordEnds (text.drop k.1.length) then
    some ((k.2, k.1), text.drop k.1.length)
  else none

def scanWord (text : Text) : Option ((Scalar × Text) × Text) :=
  keywords.findSome? (scanKeyword text)

def scanInteger : Text → Option (Text × Text)
  | [] => none
  | b :: r =>
    if b = 0x30 then
      if r.head? = some 0x78 ∨ r.head? = some 0x58 then none else some ([b], r)
    else if isDigit b then some (b :: r.takeWhile isDigit, r.dropWhile isDigit)
    else none

def scanFraction : Text → Option (Text × Text)
  | [] => some ([], [])
  | b :: r =>
    if b = dot then
      if r.takeWhile isDigit = [] then none
      else some (b :: r.takeWhile isDigit, r.dropWhile isDigit)
    else some ([], b :: r)

def splitSign : Text → Text × Text
  | [] => ([], [])
  | b :: r => if b = minus ∨ b = plus then ([b], r) else ([], b :: r)

def scanExponent : Text → Option (Text × Text)
  | [] => some ([], [])
  | b :: r =>
    if b = 0x65 ∨ b = 0x45 then
      let (sign, r) := splitSign r
      if r.takeWhile isDigit = [] then none
      else some (b :: sign ++ r.takeWhile isDigit, r.dropWhile isDigit)
    else some ([], b :: r)

def thenScan (f g : Text → Option (Text × Text)) (text : Text) : Option (Text × Text) := do
  let (t, r) ← f text
  let (u, r) ← g r
  pure (t ++ u, r)

def scanMinus : Text → Option (Text × Text)
  | [] => some ([], [])
  | b :: r => if b = minus then some ([b], r) else some ([], b :: r)

def scanNumber : Text → Option (Text × Text) :=
  thenScan scanMinus (thenScan scanInteger (thenScan scanFraction scanExponent))

def scanScalar (text : Text) : Option ((Scalar × Text) × Text) :=
  match scanWord text with
  | some found => some found
  | none => (scanNumber text).map fun p => ((.number, p.1), p.2)

end Scalars

section Ends

variable {text t u r r' : Text} {f g : Text → Option (Text × Text)}

/-- The bytes, white space apart, that may follow a value in a document. -/
def delimiters : List UInt8 :=
  [comma, closeBrace, closeBracket, slash, quote, openBrace, openBracket]

/-- A text before which a scalar ends. -/
def Boundary (r : Text) : Prop := startsSpace r = true ∨ ∀ b ∈ r.head?, b ∈ delimiters

/-- Two texts that look the same to a scalar before them. -/
def Agrees (r r' : Text) : Prop :=
  Boundary r' ∨ ∃ b, b < 0x80 ∧ r.head? = some b ∧ r'.head? = some b

/-- The bytes that words and numbers are made of. -/
def scalarByte (b : UInt8) : Bool := isAlphanumeric b || [dot, minus, plus].contains b

theorem Boundary.not_scalarByte (h : Boundary r) : ∀ b ∈ r.head?, scalarByte b = false := by
  have hspaces : ∀ s ∈ spaces, ∀ b ∈ s.head?, scalarByte b = false := by decide +kernel
  have hdelimiters : ∀ b ∈ delimiters, scalarByte b = false := by decide +kernel
  rcases h with h | h
  · obtain ⟨s, hs⟩ := Option.isSome_iff_exists.mp h
    obtain ⟨hmem, htext⟩ := takeSpace_eq_some hs
    have hhead : r.head? = s.head? := by
      rw [htext]
      exact List.head?_append_of_ne_nil s (spaces_ne_slash s hmem).2
    rw [hhead]
    exact hspaces s hmem
  · exact fun b hb => hdelimiters b (h b hb)

theorem Boundary.wordEnds (h : Boundary r) : wordEnds r = true := by
  have hdelimiters : ∀ b ∈ delimiters, b < 0x80 := by decide +kernel
  cases r with
  | nil => rfl
  | cons b r =>
    have hb := h.not_scalarByte b rfl
    rw [scalarByte, Bool.or_eq_false_iff] at hb
    rw [Jsonc.wordEnds, hb.1]
    rcases h with h | h
    · rw [h]
      simp
    · rw [if_pos (hdelimiters b (h b rfl))]
      rfl

theorem Agrees.head (h : Agrees r r') {P : UInt8 → Prop} (hr : ∀ b ∈ r.head?, P b)
    (hb : ∀ b, scalarByte b = false → P b) : ∀ b ∈ r'.head?, P b := by
  rcases h with h | ⟨c, -, hc, hc'⟩
  · exact fun b hmem => hb b (h.not_scalarByte b hmem)
  · intro b hmem
    rw [hc', Option.mem_some_iff] at hmem
    exact hr b (hmem ▸ hc)

theorem Agrees.wordEnds (h : Agrees r r') (hr : wordEnds r = true) : Jsonc.wordEnds r' = true := by
  rcases h with h | ⟨c, hascii, hc, hc'⟩
  · exact h.wordEnds
  · cases r with
    | nil => contradiction
    | cons b r =>
      cases r' with
      | nil => contradiction
      | cons b' r' =>
        obtain rfl := Option.some.inj hc
        obtain rfl := Option.some.inj hc'
        rw [Jsonc.wordEnds, if_pos hascii] at hr ⊢
        exact hr

theorem Agrees.append (h : Agrees r r') (ht : ∀ b ∈ t.head?, b < 0x80) :
    Agrees (t ++ r) (t ++ r') := by
  cases t with
  | nil => exact h
  | cons b t => exact .inr ⟨b, ht b rfl, rfl, rfl⟩

/-- What `f` reads does not depend on what follows, as long as that looks the same. -/
def Local (f : Text → Option (Text × Text)) : Prop :=
  ∀ text t r, f text = some (t, r) → text = t ++ r ∧ (∀ b ∈ t.head?, b < 0x80) ∧
    ∀ r', Agrees r r' → f (t ++ r') = some (t, r')

theorem Local.thenScan (hf : Local f) (hg : Local g) : Local (thenScan f g) := by
  intro text v r h
  obtain ⟨⟨t, r₁⟩, ht, h⟩ := Option.bind_eq_some_iff.mp h
  obtain ⟨⟨u, r₂⟩, hu, h⟩ := Option.bind_eq_some_iff.mp h
  obtain ⟨rfl, rfl⟩ := Prod.mk.inj (Option.some.inj h)
  obtain ⟨rfl, hasciiT, hlocalT⟩ := hf _ _ _ ht
  obtain ⟨rfl, hasciiU, hlocalU⟩ := hg _ _ _ hu
  refine ⟨(List.append_assoc t u r₂).symm, ?_, fun r' hr' => ?_⟩
  · cases t with
    | nil => exact hasciiU
    | cons b t => exact hasciiT
  · rw [Jsonc.thenScan, List.append_assoc, hlocalT _ (hr'.append hasciiU), Option.bind_eq_bind,
      Option.bind_some]
    simp [hlocalU r' hr']

theorem digits_append {ds : Text} (hds : ∀ b ∈ ds, isDigit b = true)
    (hr : ∀ b ∈ r.head?, isDigit b = false) :
    (ds ++ r).takeWhile isDigit = ds ∧ (ds ++ r).dropWhile isDigit = r := by
  have hstop : r.takeWhile isDigit = [] ∧ r.dropWhile isDigit = r := by
    cases r with
    | nil => exact ⟨rfl, rfl⟩
    | cons b r => simp [hr b rfl]
  rw [List.takeWhile_append_of_pos hds, List.dropWhile_append_of_pos hds, hstop.1, hstop.2]
  exact ⟨List.append_nil ds, rfl⟩

theorem digits_stop : ∀ b ∈ (r.dropWhile isDigit).head?, isDigit b = false := by
  intro b hb
  have := List.head?_dropWhile_not isDigit r
  rw [hb] at this
  simpa using this

theorem isDigit_of_not_scalarByte (b : UInt8) (h : scalarByte b = false) : isDigit b = false := by
  rw [scalarByte, isAlphanumeric, Bool.or_eq_false_iff, Bool.or_eq_false_iff,
    Bool.or_eq_false_iff] at h
  exact h.1.1.1

theorem ne_of_not_scalarByte {b c : UInt8} (h : scalarByte b = false) (hc : scalarByte c = true) :
    b ≠ c := by
  rintro rfl
  rw [h] at hc
  contradiction

theorem isDigit_ascii {b : UInt8} (h : isDigit b = true) : b < 0x80 := by
  simp only [isDigit, Bool.and_eq_true, decide_eq_true_eq] at h
  exact Nat.lt_of_le_of_lt h.2 (by decide)

theorem scanMinus_skip (h : ∀ b ∈ r.head?, b ≠ minus) : scanMinus r = some ([], r) := by
  cases r with
  | nil => rfl
  | cons b r => rw [scanMinus, if_neg (h b rfl)]

theorem local_scanMinus : Local scanMinus := by
  intro text t r h
  by_cases hminus : ∀ b ∈ text.head?, b ≠ minus
  · rw [scanMinus_skip hminus] at h
    obtain ⟨rfl, rfl⟩ := Prod.mk.inj (Option.some.inj h)
    refine ⟨rfl, by simp, fun r' hr' => ?_⟩
    exact scanMinus_skip (hr'.head hminus fun b hb => ne_of_not_scalarByte hb rfl)
  · cases text with
    | nil => simp at hminus
    | cons b text =>
      have hb : b = minus := by simpa using hminus
      rw [scanMinus, if_pos hb] at h
      obtain ⟨rfl, rfl⟩ := Prod.mk.inj (Option.some.inj h)
      exact ⟨rfl, by simp [hb, minus], fun r' _ => by rw [List.singleton_append, scanMinus, if_pos hb]⟩

theorem local_scanInteger : Local scanInteger := by
  intro text t r h
  cases text with
  | nil => contradiction
  | cons b text =>
    rw [scanInteger] at h
    split at h
    · rename_i hb
      split at h
      · contradiction
      rename_i hhex
      obtain ⟨rfl, rfl⟩ := Prod.mk.inj (Option.some.inj h)
      rw [not_or] at hhex
      refine ⟨rfl, by simp [hb], fun r' hr' => ?_⟩
      have hhex' := hr'.head (P := fun b => b ≠ 0x78 ∧ b ≠ 0x58)
        (fun b hmem => ⟨fun heq => hhex.1 (heq ▸ hmem), fun heq => hhex.2 (heq ▸ hmem)⟩)
        fun b hb => ⟨ne_of_not_scalarByte hb rfl, ne_of_not_scalarByte hb rfl⟩
      rw [List.singleton_append, scanInteger, if_pos hb, if_neg]
      rintro (hx | hx)
      · exact (hhex' _ hx).1 rfl
      · exact (hhex' _ hx).2 rfl
    split at h
    · rename_i hb hdigit
      obtain ⟨rfl, rfl⟩ := Prod.mk.inj (Option.some.inj h)
      refine ⟨?_, by simpa using isDigit_ascii hdigit, fun r' hr' => ?_⟩
      · rw [List.cons_append, List.takeWhile_append_dropWhile]
      · have hstop := hr'.head digits_stop isDigit_of_not_scalarByte
        obtain ⟨htake, hdrop⟩ := digits_append (List.all_eq_true.mp List.all_takeWhile) hstop
        rw [List.cons_append, scanInteger, if_neg hb, if_pos hdigit, htake, hdrop]
    · contradiction

theorem scanFraction_skip (h : ∀ b ∈ r.head?, b ≠ dot) : scanFraction r = some ([], r) := by
  cases r with
  | nil => rfl
  | cons b r => rw [scanFraction, if_neg (h b rfl)]

theorem local_scanFraction : Local scanFraction := by
  intro text t r h
  by_cases hdot : ∀ b ∈ text.head?, b ≠ dot
  · rw [scanFraction_skip hdot] at h
    obtain ⟨rfl, rfl⟩ := Prod.mk.inj (Option.some.inj h)
    refine ⟨rfl, by simp, fun r' hr' => ?_⟩
    exact scanFraction_skip (hr'.head hdot fun b hb => ne_of_not_scalarByte hb rfl)
  · cases text with
    | nil => simp at hdot
    | cons b text =>
      have hb : b = dot := by simpa using hdot
      rw [scanFraction, if_pos hb] at h
      split at h
      · contradiction
      rename_i hdigits
      obtain ⟨rfl, rfl⟩ := Prod.mk.inj (Option.some.inj h)
      refine ⟨?_, by simp [hb, dot], fun r' hr' => ?_⟩
      · rw [List.cons_append, List.takeWhile_append_dropWhile]
      · have hstop := hr'.head digits_stop isDigit_of_not_scalarByte
        obtain ⟨htake, hdrop⟩ := digits_append (List.all_eq_true.mp List.all_takeWhile) hstop
        rw [List.cons_append, scanFraction, if_pos hb, htake, hdrop, if_neg hdigits]

theorem scanExponent_skip (h : ∀ b ∈ r.head?, b ≠ 0x65 ∧ b ≠ 0x45) :
    scanExponent r = some ([], r) := by
  cases r with
  | nil => rfl
  | cons b r => rw [scanExponent, if_neg (not_or.mpr (h b rfl))]

theorem splitSign_append {ds : Text} (hds : ∀ b ∈ ds.head?, b ≠ minus ∧ b ≠ plus)
    (hne : ds ≠ []) : splitSign (ds ++ r) = ([], ds ++ r) := by
  cases ds with
  | nil => exact absurd rfl hne
  | cons b ds => rw [List.cons_append, splitSign, if_neg (not_or.mpr (hds b rfl))]

theorem splitSign_spec (text : Text) : text = (splitSign text).1 ++ (splitSign text).2 ∧
    ((splitSign text).1 = [] ∨ ∃ b, (b = minus ∨ b = plus) ∧ (splitSign text).1 = [b]) := by
  cases text with
  | nil => exact ⟨rfl, .inl rfl⟩
  | cons b text =>
    rw [splitSign]
    split
    · rename_i hb
      exact ⟨rfl, .inr ⟨b, hb, rfl⟩⟩
    · exact ⟨rfl, .inl rfl⟩

theorem local_scanExponent : Local scanExponent := by
  intro text t r h
  by_cases he : ∀ b ∈ text.head?, b ≠ 0x65 ∧ b ≠ 0x45
  · rw [scanExponent_skip he] at h
    obtain ⟨rfl, rfl⟩ := Prod.mk.inj (Option.some.inj h)
    refine ⟨rfl, by simp, fun r' hr' => ?_⟩
    exact scanExponent_skip (hr'.head he fun b hb =>
      ⟨ne_of_not_scalarByte hb rfl, ne_of_not_scalarByte hb rfl⟩)
  · cases text with
    | nil => simp at he
    | cons b text =>
      have hb : b = 0x65 ∨ b = 0x45 := by
        by_contra hne
        exact he (by simpa using hne)
      have hascii : b < 0x80 := by rcases hb with rfl | rfl <;> decide
      obtain ⟨hsplit, hsign⟩ := splitSign_spec text
      rw [scanExponent, if_pos hb] at h
      generalize splitSign text = split at h hsplit hsign
      obtain ⟨sign, rest⟩ := split
      dsimp only at h hsplit hsign
      split at h
      · contradiction
      rename_i hdigits
      obtain ⟨rfl, rfl⟩ := Prod.mk.inj (Option.some.inj h)
      have hall : ∀ b ∈ rest.takeWhile isDigit, isDigit b = true :=
        List.all_eq_true.mp List.all_takeWhile
      refine ⟨?_, by simpa using hascii, fun r' hr' => ?_⟩
      · rw [hsplit, List.append_assoc, List.takeWhile_append_dropWhile]
        rfl
      · have hstop := hr'.head digits_stop isDigit_of_not_scalarByte
        obtain ⟨htake, hdrop⟩ := digits_append hall hstop
        have hsplit' : splitSign (sign ++ (rest.takeWhile isDigit ++ r')) =
            (sign, rest.takeWhile isDigit ++ r') := by
          rcases hsign with rfl | ⟨c, hc, rfl⟩
          · have hds : ∀ c ∈ (rest.takeWhile isDigit).head?, c ≠ minus ∧ c ≠ plus := by
              intro c hc
              have hc := hall c (List.mem_of_mem_head? hc)
              constructor <;> rintro rfl <;> contradiction
            rw [List.nil_append]
            exact splitSign_append hds hdigits
          · rw [List.singleton_append, splitSign, if_pos hc]
        rw [List.append_assoc, List.cons_append, scanExponent, if_pos hb, hsplit']
        simp only [htake, hdrop, if_neg hdigits]

theorem local_scanNumber : Local scanNumber :=
  local_scanMinus.thenScan (local_scanInteger.thenScan
    (local_scanFraction.thenScan local_scanExponent))

theorem scanNumber_head (h : scanNumber text = some (t, r)) :
    ∃ b ∈ t.head?, isDigit b = true ∨ b = minus := by
  obtain ⟨⟨t₁, r₁⟩, hminus, h⟩ := Option.bind_eq_some_iff.mp h
  obtain ⟨⟨t₂, r₂⟩, hrest, h⟩ := Option.bind_eq_some_iff.mp h
  obtain ⟨⟨t₃, r₃⟩, hinteger, hrest⟩ := Option.bind_eq_some_iff.mp hrest
  obtain ⟨⟨t₄, r₄⟩, -, hrest⟩ := Option.bind_eq_some_iff.mp hrest
  obtain ⟨rfl, rfl⟩ := Prod.mk.inj (Option.some.inj h)
  obtain ⟨rfl, rfl⟩ := Prod.mk.inj (Option.some.inj hrest)
  have hdigit : ∃ b ∈ t₃.head?, isDigit b = true := by
    cases r₁ with
    | nil => contradiction
    | cons b r₁ =>
      rw [scanInteger] at hinteger
      split at hinteger
      · rename_i hb
        split at hinteger
        · contradiction
        obtain ⟨rfl, rfl⟩ := Prod.mk.inj (Option.some.inj hinteger)
        exact ⟨b, rfl, by rw [hb]; rfl⟩
      split at hinteger
      · rename_i hb
        obtain ⟨rfl, rfl⟩ := Prod.mk.inj (Option.some.inj hinteger)
        exact ⟨b, rfl, hb⟩
      · contradiction
  obtain ⟨b, hb, hdigit⟩ := hdigit
  cases text with
  | nil =>
    obtain ⟨rfl, rfl⟩ := Prod.mk.inj (Option.some.inj hminus)
    contradiction
  | cons c text =>
    rw [scanMinus] at hminus
    split at hminus
    · rename_i hc
      obtain ⟨rfl, rfl⟩ := Prod.mk.inj (Option.some.inj hminus)
      exact ⟨c, rfl, .inr hc⟩
    · obtain ⟨rfl, rfl⟩ := Prod.mk.inj (Option.some.inj hminus)
      refine ⟨b, ?_, .inl hdigit⟩
      rw [List.nil_append, List.head?_append, hb]
      rfl

variable {k : Scalar} {w : Text}

theorem scanWord_spec (h : scanWord text = some ((k, w), r)) :
    text = w ++ r ∧ (w, k) ∈ keywords ∧ wordEnds r = true := by
  obtain ⟨⟨word, kind⟩, hmem, hfound⟩ := List.exists_of_findSome?_eq_some h
  unfold scanKeyword at hfound
  split at hfound
  · rename_i hword
    rw [Bool.and_eq_true] at hword
    obtain ⟨heq, rfl⟩ := Prod.mk.inj (Option.some.inj hfound)
    obtain ⟨rfl, rfl⟩ := Prod.mk.inj heq
    obtain ⟨rest, rfl⟩ := List.isPrefixOf_iff_prefix.mp hword.1
    exact ⟨by rw [List.drop_left], hmem, hword.2⟩
  · contradiction

theorem scanWord_append (hw : (w, k) ∈ keywords) (hr : wordEnds r = true) :
    scanWord (w ++ r) = some ((k, w), r) := by
  simp only [keywords, List.mem_cons, Prod.mk.injEq, List.not_mem_nil, or_false] at hw
  rcases hw with ⟨rfl, rfl⟩ | ⟨rfl, rfl⟩ | ⟨rfl, rfl⟩ <;>
    simp [scanWord, keywords, scanKeyword, hr]

theorem scanWord_number {b : UInt8} (hb : isDigit b = true ∨ b = minus) :
    scanWord (b :: r) = none := by
  have hne : ∀ c, isDigit c = false ∧ c ≠ minus → c ≠ b := by
    rintro c hc rfl
    rcases hb with hb | hb
    · rw [hc.1] at hb
      contradiction
    · exact hc.2 hb
  simp [scanWord, keywords, scanKeyword, hne 0x74 (by decide), hne 0x66 (by decide),
    hne 0x6E (by decide)]

/-- A scalar starts with a byte of its own and ends where what follows says so. -/
theorem scanScalar_spec (h : scanScalar text = some ((k, w), r)) :
    text = w ++ r ∧ (∃ b, w.head? = some b ∧ scalarByte b = true) ∧
      ∀ r', Agrees r r' → scanScalar (w ++ r') = some ((k, w), r') := by
  unfold scanScalar at h
  split at h
  · rename_i found hword
    obtain rfl := Option.some.inj h
    obtain ⟨rfl, hmem, hends⟩ := scanWord_spec hword
    have hheads : ∀ entry ∈ keywords, ∃ b, entry.1.head? = some b ∧ scalarByte b = true := by
      simp only [keywords, List.forall_mem_cons]
      exact ⟨⟨_, rfl, rfl⟩, ⟨_, rfl, rfl⟩, ⟨_, rfl, rfl⟩, by simp⟩
    refine ⟨rfl, hheads _ hmem, fun r' hr' => ?_⟩
    rw [scanScalar, scanWord_append hmem (hr'.wordEnds hends)]
  · obtain ⟨⟨t, rest⟩, hnumber, heq⟩ := Option.map_eq_some_iff.mp h
    obtain ⟨⟨rfl, rfl⟩, rfl⟩ : (Scalar.number = k ∧ t = w) ∧ rest = r := by simpa using heq
    obtain ⟨b, hb, hstart⟩ := scanNumber_head hnumber
    obtain ⟨rfl, -, hlocal⟩ := local_scanNumber _ _ _ hnumber
    refine ⟨rfl, ⟨b, hb, ?_⟩, fun r' hr' => ?_⟩
    · rcases hstart with hdigit | rfl
      · simp [scalarByte, isAlphanumeric, hdigit]
      · rfl
    · have hword : scanWord (t ++ r') = none := by
        obtain ⟨t, rfl⟩ := List.head?_eq_some_iff.mp hb
        exact scanWord_number hstart
      rw [scanScalar, hword, hlocal r' hr']
      rfl

end Ends

end Jsonc
