import Kitrove.Jsonc.Parser

/-! What the parser makes of a value it makes again of the value's text wherever that stands, and
the parts of an object can be taken apart and put together in another order. -/

namespace Jsonc

variable {o : Options} {c : Container} {text r r' : Text} {e : Elem} {es : List Elem} {v : Value}
  {p : Piece} {ps : List Piece} {key : Key} {d fuel : Nat} {turn : Turn} {b : UInt8}

section Reading

/-- The bytes that a value may start with. -/
def valueByte (b : UInt8) : Bool :=
  b == openBrace || b == openBracket || b == quote || scalarByte b

def Value.Reads (o : Options) (d : Nat) (v : Value) : Prop :=
  (∃ b, v.text.head? = some b ∧ valueByte b = true) ∧
    ∀ fuel r, 2 * v.text.length + 1 ≤ fuel → Boundary r →
      parseValue o d fuel (v.text ++ r) = some (v, r)

structure Key.Reads (o : Options) (key : Key) : Prop where
  literal : Literal key.raw
  decodes : decode key.raw = some key.name
  before : ∀ p ∈ key.before, p.Reads o.comments
  after : ∀ p ∈ key.after, p.Reads o.comments

def Elem.Reads (o : Options) (c : Container) (d : Nat) : Elem → Prop
  | .piece p => p.Reads o.comments
  | .comma => True
  | .member key value => c = .object ∧ key.Reads o ∧ value.Reads o (c.valueDepth d)
  | .item value => c = .array ∧ value.Reads o (c.valueDepth d)

/-- The order in which a container takes commas and values. -/
def accepts (o : Options) (c : Container) : Turn → List Elem → Bool
  | turn, [] => mayClose o turn
  | turn, .piece _ :: es => accepts o c turn es
  | turn, .comma :: es => turn == .afterValue && accepts o c .afterComma es
  | turn, .member _ _ :: es => mayRead c turn && accepts o c .afterValue es
  | turn, .item _ :: es => mayRead c turn && accepts o c .afterValue es

end Reading

section Heads

theorem valueByte_notPiece (h : valueByte b = true) : notPiece b = true := by
  have hall : ∀ b, valueByte b = true → notPiece b = true := UInt8.forall_ofNat (by decide +kernel)
  exact hall b h

theorem valueByte_ne (h : valueByte b = true) : b ≠ comma ∧ b ≠ c.closer := by
  constructor
  · rintro rfl
    contradiction
  · rintro rfl
    cases c <;> contradiction

theorem valueByte_ascii (h : valueByte b = true) : b < 0x80 := by
  have hall : ∀ b, valueByte b = true → b < 0x80 := UInt8.forall_ofNat (by decide +kernel)
  exact hall b h

theorem Piece.Reads.ne_nil (h : p.Reads o.comments) : p.text ≠ [] := by
  intro hnil
  have hread := h []
  rw [hnil] at hread
  have hempty : takePiece o.comments [] = none := by cases o.comments <;> rfl
  rw [List.nil_append, hempty] at hread
  contradiction

theorem Piece.Reads.length_pos (h : p.Reads o.comments) : 0 < p.text.length :=
  List.length_pos_of_ne_nil h.ne_nil

theorem boundary_cons (h : b ∈ delimiters) : Boundary (b :: r) := by
  refine .inr fun c hc => ?_
  obtain rfl := Option.some.inj hc
  exact h

theorem boundary_nil : Boundary [] := .inr fun _ h => nomatch h

theorem boundary_closer : Boundary (c.closer :: r) := by
  cases c <;> exact boundary_cons (by decide)

theorem Piece.Reads.space_mem {bytes : Text} (h : (Piece.space bytes).Reads o.comments) :
    bytes ∈ spaces := by
  have hread := h []
  unfold takePiece at hread
  split at hread
  · rename_i s hs
    obtain ⟨hpiece, -⟩ := Prod.mk.inj (Option.some.inj hread)
    obtain rfl := Piece.space.inj hpiece
    exact (takeSpace_eq_some hs).1
  · split at hread
    · unfold takeComment at hread
      split at hread
      · split at hread
        · obtain ⟨q, -, hq⟩ := Option.map_eq_some_iff.mp hread
          simp at hq
        · split at hread
          · obtain ⟨q, -, hq⟩ := Option.map_eq_some_iff.mp hread
            simp at hq
          · contradiction
      · contradiction
    · contradiction

theorem Piece.Reads.boundary (h : p.Reads o.comments) : Boundary (p.text ++ r) := by
  cases p with
  | space bytes =>
    refine .inl ?_
    rw [startsSpace, Piece.text, takeSpace_append h.space_mem]
    rfl
  | line body => exact boundary_cons (by decide)
  | block body => exact boundary_cons (by decide)

theorem Value.Reads.length_pos (h : v.Reads o d) : 0 < v.text.length := by
  obtain ⟨⟨b, hb, -⟩, -⟩ := h
  cases hv : v.text with
  | nil => simp [hv] at hb
  | cons b t => simp

/-- What comes next in a container looks the same whatever comes after the container. -/
theorem agrees_elems (hes : ∀ e ∈ es, e.Reads o c d) :
    Agrees (elemsText es ++ c.closer :: r) (elemsText es ++ c.closer :: r') := by
  cases es with
  | nil => exact .inl boundary_closer
  | cons e es =>
    have he := hes e List.mem_cons_self
    rw [elemsText, List.append_assoc, List.append_assoc]
    cases e with
    | piece p => exact .inl he.boundary
    | comma => exact .inl (boundary_cons (by decide))
    | member key value => exact .inl (boundary_cons (by decide))
    | item value =>
      obtain ⟨-, ⟨b, hb, hbyte⟩, -⟩ := he
      refine .inr ⟨b, valueByte_ascii hbyte, ?_, ?_⟩ <;>
        rw [Elem.text, List.head?_append, hb] <;> rfl

end Heads

section Members

theorem takePieces_stops {comments : Bool} (h : text.length ≤ fuel) :
    takePiece comments (takePieces comments fuel text).2 = none := by
  induction fuel generalizing text with
  | zero =>
    obtain rfl := List.length_eq_zero_iff.mp (Nat.le_zero.mp h)
    cases comments <;> rfl
  | succ fuel ih =>
    rw [takePieces]
    cases hp : takePiece comments text with
    | none => exact hp
    | some q =>
      obtain ⟨p, rest⟩ := q
      obtain ⟨rfl, hreads⟩ := takePiece_spec hp
      have hpos : 0 < p.text.length :=
        Piece.Reads.length_pos (o := ⟨comments, false⟩) hreads
      rw [List.length_append] at h
      exact ih (by omega)

theorem length_le_piecesText (hps : ∀ p ∈ ps, p.Reads o.comments) :
    ps.length ≤ (piecesText ps).length := by
  induction ps with
  | nil => exact Nat.le_refl _
  | cons p ps ih =>
    obtain ⟨hp, hps⟩ := List.forall_mem_cons.mp hps
    have hpos := hp.length_pos
    have ih := ih hps
    rw [piecesText, List.flatMap_cons, List.length_append, List.length_cons]
    rw [piecesText] at ih
    omega

theorem takePieces_all (hps : ∀ p ∈ ps, p.Reads o.comments)
    (hr : takePiece o.comments r = none) :
    takePieces o.comments (piecesText ps ++ r).length (piecesText ps ++ r) = (ps, r) := by
  refine takePieces_append hps hr ?_
  have hle := length_le_piecesText hps
  rw [List.length_append]
  omega

variable {readValue : Text → Option (Value × Text)}

theorem Key.text_length (key : Key) :
    key.text.length =
      key.raw.length + (piecesText key.before).length + (piecesText key.after).length + 3 := by
  simp only [Key.text, List.length_cons, List.length_append]
  omega

/-- A key that reads leaves its value to be read. -/
theorem readElem_member (hkey : key.Reads o) (hr : takePiece o.comments r = none) :
    readElem o .object readValue (key.text ++ r) =
      (readValue r).map fun q => (.member key q.1, q.2) := by
  have hcolon : ∀ t, takePiece o.comments (colon :: t) = none := fun t =>
    takePiece_cons_eq_none (by decide)
  have hraw := hkey.literal (piecesText key.before ++ colon :: (piecesText key.after ++ r))
  rw [Key.text, List.cons_append, readElem]
  simp only [if_pos, List.append_assoc, List.cons_append]
  rw [readMember, hraw]
  simp only [Option.bind_eq_bind, Option.bind_some, hkey.decodes,
    takePieces_all hkey.before (hcolon _), if_pos, takePieces_all hkey.after hr]
  cases readValue r with
  | none => rfl
  | some q => rfl

theorem readElem_object (h : readElem o .object readValue text = some (e, r)) :
    ∃ key value rest, e = .member key value ∧ text = key.text ++ rest ∧ key.Reads o ∧
      takePiece o.comments rest = none ∧ readValue rest = some (value, r) := by
  cases text with
  | nil => contradiction
  | cons b text =>
    rw [readElem] at h
    split at h
    case isFalse => contradiction
    rename_i hb
    obtain ⟨⟨raw, r₁⟩, hsplit, h₁⟩ := Option.bind_eq_some_iff.mp h
    obtain ⟨name, hname, h₂⟩ := Option.bind_eq_some_iff.mp h₁
    cases hbefore : takePieces o.comments r₁.length r₁ with
    | mk before r₂ =>
      simp only [hbefore] at h₂
      cases r₂ with
      | nil => contradiction
      | cons b₂ r₂ =>
        simp only at h₂
        split at h₂
        case isFalse => contradiction
        rename_i hcolon
        cases hafter : takePieces o.comments r₂.length r₂ with
        | mk after r₃ =>
          simp only [hafter] at h₂
          obtain ⟨⟨value, r₄⟩, hvalue, h₃⟩ := Option.bind_eq_some_iff.mp h₂
          obtain ⟨rfl, rfl⟩ := Prod.mk.inj (Option.some.inj h₃)
          have hstops : takePiece o.comments (takePieces o.comments r₂.length r₂).2 = none :=
            takePieces_stops (Nat.le_refl _)
          rw [hafter] at hstops
          obtain ⟨rfl, hafterReads⟩ := takePieces_spec hafter
          obtain ⟨rfl, hbeforeReads⟩ := takePieces_spec hbefore
          obtain ⟨rfl, hliteral⟩ := splitString_spec hsplit
          refine ⟨⟨raw, name, before, after⟩, value, r₃, rfl, ?_, ?_, hstops, hvalue⟩
          · simp [Key.text, hb, hcolon]
          · exact ⟨hliteral, hname, hbeforeReads, hafterReads⟩

end Members

section Replay

/-- What was read as `v` is the text of `v`, and is read so again where the same follows it. -/
structure ReadsAs (o : Options) (d : Nat) (text : Text) (v : Value) (r : Text) : Prop where
  text_eq : text = v.text ++ r
  head : ∃ b, v.text.head? = some b ∧ valueByte b = true
  replay : ∀ fuel r', 2 * v.text.length + 1 ≤ fuel → Agrees r r' →
    parseValue o d fuel (v.text ++ r') = some (v, r')

structure ReadsElems (o : Options) (c : Container) (d : Nat) (turn : Turn) (text : Text)
    (es : List Elem) (r : Text) : Prop where
  text_eq : text = elemsText es ++ c.closer :: r
  reads : ∀ e ∈ es, e.Reads o c d
  accepted : accepts o c turn es = true
  replay : ∀ fuel r', 2 * (elemsText es).length + 2 ≤ fuel →
    parseElems o d c fuel turn (elemsText es ++ c.closer :: r') = some (es, r')

theorem ReadsAs.reads (h : ReadsAs o d text v r) : v.Reads o d :=
  ⟨h.head, fun fuel r' hfuel hr' => h.replay fuel r' hfuel (.inl hr')⟩

def ValuesReplay (o : Options) (fuel : Nat) : Prop :=
  ∀ d text v r, parseValue o d fuel text = some (v, r) → ReadsAs o d text v r

def ElemsReplay (o : Options) (fuel : Nat) : Prop :=
  ∀ d c turn text es r, parseElems o d c fuel turn text = some (es, r) →
    ReadsElems o c d turn text es r

theorem container_readsAs (hd : ¬ d > maximumNestingDepth)
    (h : ReadsElems o .object (d + 1) .start text es r) :
    ReadsAs o d (openBrace :: text) (.object es) r := by
  refine ⟨?_, ⟨openBrace, rfl, by decide⟩, fun fuel r' hfuel _ => ?_⟩
  · rw [h.text_eq, Value.text]
    simp [Container.closer]
  · rw [Value.text, List.length_cons, List.length_append] at hfuel
    cases fuel with
    | zero => omega
    | succ fuel =>
      have hreplay := h.replay fuel r' (by omega)
      rw [Container.closer] at hreplay
      rw [Value.text, List.cons_append, List.append_assoc, List.singleton_append, parseValue,
        if_neg hd, if_pos rfl, hreplay]
      rfl

theorem array_readsAs (hd : ¬ d > maximumNestingDepth)
    (h : ReadsElems o .array (d + 1) .start text es r) :
    ReadsAs o d (openBracket :: text) (.array es) r := by
  refine ⟨?_, ⟨openBracket, rfl, by decide⟩, fun fuel r' hfuel _ => ?_⟩
  · rw [h.text_eq, Value.text]
    simp [Container.closer]
  · rw [Value.text, List.length_cons, List.length_append] at hfuel
    cases fuel with
    | zero => omega
    | succ fuel =>
      have hreplay := h.replay fuel r' (by omega)
      rw [Container.closer] at hreplay
      rw [Value.text, List.cons_append, List.append_assoc, List.singleton_append, parseValue,
        if_neg hd, if_neg (by decide), if_pos rfl, hreplay]
      rfl

theorem string_readsAs {raw value : Text} (hd : ¬ d > maximumNestingDepth)
    (hliteral : Literal raw) (hdecode : decode raw = some value) :
    ReadsAs o d (quote :: (raw ++ quote :: r)) (.string raw value) r := by
  refine ⟨?_, ⟨quote, rfl, by decide⟩, fun fuel r' hfuel _ => ?_⟩
  · rw [Value.text]
    simp
  · cases fuel with
    | zero => omega
    | succ fuel =>
      rw [Value.text, List.cons_append, List.append_assoc, List.singleton_append, parseValue,
        if_neg hd, if_neg (by decide), if_neg (by decide), if_pos rfl, hliteral r',
        Option.bind_some, hdecode]
      rfl

theorem scalar_readsAs {kind : Scalar} {word : Text} (hd : ¬ d > maximumNestingDepth)
    (h : scanScalar text = some ((kind, word), r)) :
    ReadsAs o d text (.scalar kind word) r := by
  obtain ⟨htext, ⟨b, hb, hbyte⟩, hreplay⟩ := scanScalar_spec h
  have hne : b ≠ openBrace ∧ b ≠ openBracket ∧ b ≠ quote := by
    refine ⟨?_, ?_, ?_⟩ <;> rintro rfl <;> contradiction
  refine ⟨htext, ⟨b, hb, by simp [valueByte, hbyte]⟩, fun fuel r' hfuel hr' => ?_⟩
  obtain ⟨word, rfl⟩ := List.head?_eq_some_iff.mp hb
  cases fuel with
  | zero => omega
  | succ fuel =>
    have hscan := hreplay r' hr'
    rw [List.cons_append] at hscan
    rw [Value.text, List.cons_append, parseValue, if_neg hd, if_neg hne.1, if_neg hne.2.1,
      if_neg hne.2.2, hscan]
    rfl

theorem valuesReplay_succ (h : ElemsReplay o fuel) : ValuesReplay o (fuel + 1) := by
  intro d text v r hparse
  cases text with
  | nil => simp [parseValue] at hparse
  | cons b text =>
    rw [parseValue] at hparse
    split at hparse
    · contradiction
    rename_i hd
    split at hparse
    · rename_i hb
      obtain ⟨⟨es, r⟩, helems, heq⟩ := Option.map_eq_some_iff.mp hparse
      obtain ⟨rfl, rfl⟩ := Prod.mk.inj heq
      rw [hb]
      exact container_readsAs hd (h _ _ _ _ _ _ helems)
    split at hparse
    · rename_i hb
      obtain ⟨⟨es, r⟩, helems, heq⟩ := Option.map_eq_some_iff.mp hparse
      obtain ⟨rfl, rfl⟩ := Prod.mk.inj heq
      rw [hb]
      exact array_readsAs hd (h _ _ _ _ _ _ helems)
    split at hparse
    · rename_i hb
      obtain ⟨⟨raw, r⟩, hsplit, hparse⟩ := Option.bind_eq_some_iff.mp hparse
      obtain ⟨value, hdecode, heq⟩ := Option.map_eq_some_iff.mp hparse
      obtain ⟨rfl, rfl⟩ := Prod.mk.inj heq
      obtain ⟨rfl, hliteral⟩ := splitString_spec hsplit
      rw [hb]
      exact string_readsAs hd hliteral hdecode
    · obtain ⟨⟨⟨kind, word⟩, r⟩, hscan, heq⟩ := Option.map_eq_some_iff.mp hparse
      obtain ⟨rfl, rfl⟩ := Prod.mk.inj heq
      exact scalar_readsAs hd hscan

/-- What was read as `e` is read so again where the same follows it. -/
structure ReadsElem (o : Options) (c : Container) (d : Nat) (text : Text) (e : Elem) (r : Text) :
    Prop where
  text_eq : text = e.text ++ r
  head : ∃ b, e.text.head? = some b ∧ valueByte b = true
  reads : e.Reads o c d
  turn : ∀ turn es, accepts o c turn (e :: es) = (mayRead c turn && accepts o c .afterValue es)
  replay : ∀ fuel r', 2 * e.text.length + 1 ≤ fuel → Agrees r r' →
    readElem o c (parseValue o (c.valueDepth d) fuel) (e.text ++ r') = some (e, r')

theorem readElem_array {readValue : Text → Option (Value × Text)} (hne : text ≠ []) :
    readElem o .array readValue text = (readValue text).map fun q => (.item q.1, q.2) := by
  cases text with
  | nil => contradiction
  | cons b text => rfl

theorem readElem_replays (h : ValuesReplay o fuel)
    (hread : readElem o c (parseValue o (c.valueDepth d) fuel) text = some (e, r)) :
    ReadsElem o c d text e r := by
  cases c with
  | array =>
    have hne : text ≠ [] := by rintro rfl; contradiction
    rw [readElem_array hne] at hread
    obtain ⟨⟨value, r⟩, hvalue, heq⟩ := Option.map_eq_some_iff.mp hread
    obtain ⟨rfl, rfl⟩ := Prod.mk.inj heq
    have hspec := h _ _ _ _ hvalue
    refine ⟨hspec.text_eq, hspec.head, ⟨rfl, hspec.reads⟩, fun _ _ => rfl, ?_⟩
    intro fuel' r' hfuel hr'
    rw [readElem_array, Elem.text, hspec.replay fuel' r' hfuel hr']
    · rfl
    · have hpos := hspec.reads.length_pos
      rw [Elem.text]
      exact List.append_ne_nil_of_left_ne_nil (List.ne_nil_of_length_pos hpos) r'
  | object =>
    obtain ⟨key, value, rest, rfl, rfl, hkey, hrest, hvalue⟩ := readElem_object hread
    have hspec := h _ _ _ _ hvalue
    refine ⟨?_, ⟨quote, rfl, by decide⟩, ⟨rfl, hkey, hspec.reads⟩, fun _ _ => rfl, ?_⟩
    · rw [Elem.text, List.append_assoc, ← hspec.text_eq]
    · intro fuel' r' hfuel hr'
      rw [Elem.text, List.length_append] at hfuel
      have hpiece : takePiece o.comments (value.text ++ r') = none := by
        obtain ⟨b, hb, hbyte⟩ := hspec.head
        obtain ⟨t, ht⟩ := List.head?_eq_some_iff.mp hb
        rw [ht]
        exact takePiece_cons_eq_none (valueByte_notPiece hbyte)
      rw [Elem.text, List.append_assoc, readElem_member hkey hpiece,
        hspec.replay fuel' r' (by omega) hr']
      rfl

theorem parseElems_piece (h : takePiece o.comments text = some (p, r)) :
    parseElems o d c (fuel + 1) turn text =
      (parseElems o d c fuel turn r).map fun q => (.piece p :: q.1, q.2) := by
  rw [parseElems.eq_def]
  simp only [h]

theorem parseElems_closer :
    parseElems o d c (fuel + 1) turn (c.closer :: r) =
      if mayClose o turn then some ([], r) else none := by
  have hpiece : takePiece o.comments (c.closer :: r) = none :=
    takePiece_cons_eq_none (by cases c <;> decide)
  rw [parseElems.eq_def]
  simp only [hpiece, if_pos]

theorem parseElems_comma :
    parseElems o d c (fuel + 1) turn (comma :: r) =
      if turn = .afterValue then
        (parseElems o d c fuel .afterComma r).map fun q => (.comma :: q.1, q.2)
      else none := by
  have hpiece : takePiece o.comments (comma :: r) = none := takePiece_cons_eq_none (by decide)
  have hcloser : comma ≠ c.closer := by cases c <;> decide
  rw [parseElems.eq_def]
  simp only [hpiece, if_neg hcloser, if_pos]

theorem parseElems_value (hb : valueByte b = true) :
    parseElems o d c (fuel + 1) turn (b :: r) =
      if mayRead c turn then
        (readElem o c (parseValue o (c.valueDepth d) fuel) (b :: r)).bind fun e =>
          (parseElems o d c fuel .afterValue e.2).map fun q => (e.1 :: q.1, q.2)
      else none := by
  have hpiece : takePiece o.comments (b :: r) = none :=
    takePiece_cons_eq_none (valueByte_notPiece hb)
  obtain ⟨hcomma, -⟩ := valueByte_ne (c := c) hb
  obtain ⟨-, hcloser⟩ := valueByte_ne (c := c) hb
  rw [parseElems.eq_def]
  simp only [hpiece, if_neg hcomma, if_neg hcloser]
  cases readElem o c (parseValue o (c.valueDepth d) fuel) (b :: r) <;> rfl

theorem piece_readsElems (hp : p.Reads o.comments) (h : ReadsElems o c d turn text es r) :
    ReadsElems o c d turn (p.text ++ text) (.piece p :: es) r := by
  refine ⟨?_, List.forall_mem_cons.mpr ⟨hp, h.reads⟩, h.accepted, fun fuel r' hfuel => ?_⟩
  · rw [h.text_eq, elemsText, Elem.text, List.append_assoc]
  · have hpos := hp.length_pos
    rw [elemsText, Elem.text, List.length_append] at hfuel
    cases fuel with
    | zero => omega
    | succ fuel =>
      rw [elemsText, Elem.text, List.append_assoc, parseElems_piece (hp _),
        h.replay fuel r' (by omega)]
      rfl

theorem comma_readsElems (h : ReadsElems o c d .afterComma text es r) :
    ReadsElems o c d .afterValue (comma :: text) (.comma :: es) r := by
  refine ⟨?_, List.forall_mem_cons.mpr ⟨trivial, h.reads⟩, h.accepted, fun fuel r' hfuel => ?_⟩
  · rw [h.text_eq, elemsText, Elem.text]
    rfl
  · rw [elemsText, Elem.text, List.length_append, List.length_singleton] at hfuel
    cases fuel with
    | zero => omega
    | succ fuel =>
      rw [elemsText, Elem.text, List.append_assoc, List.singleton_append, parseElems_comma,
        if_pos rfl, h.replay fuel r' (by omega)]
      rfl

theorem elem_readsElems (hturn : mayRead c turn = true)
    (he : ReadsElem o c d text e r) {r₁ : Text} (h : ReadsElems o c d .afterValue r es r₁) :
    ReadsElems o c d turn text (e :: es) r₁ := by
  refine ⟨?_, List.forall_mem_cons.mpr ⟨he.reads, h.reads⟩, ?_, fun fuel r' hfuel => ?_⟩
  · rw [he.text_eq, h.text_eq, elemsText, List.append_assoc]
  · rw [he.turn, hturn, h.accepted]
    rfl
  · obtain ⟨b, hb, hbyte⟩ := he.head
    have hlength : 0 < e.text.length := by
      cases htext : e.text with
      | nil => simp [htext] at hb
      | cons b t => simp
    rw [elemsText, List.length_append] at hfuel
    cases fuel with
    | zero => omega
    | succ fuel =>
      have hagrees : Agrees r (elemsText es ++ c.closer :: r') := by
        rw [h.text_eq]
        exact agrees_elems h.reads
      have hread := he.replay fuel _ (by omega) hagrees
      obtain ⟨t, ht⟩ := List.head?_eq_some_iff.mp hb
      rw [ht, List.cons_append] at hread
      rw [elemsText, List.append_assoc, ht, List.cons_append, parseElems_value hbyte, if_pos hturn,
        hread, Option.bind_some, h.replay fuel r' (by omega)]
      rfl

theorem elemsReplay_succ (hvalues : ValuesReplay o fuel) (helems : ElemsReplay o fuel) :
    ElemsReplay o (fuel + 1) := by
  intro d c turn text es r hparse
  rw [parseElems.eq_def] at hparse
  simp only at hparse
  split at hparse
  · rename_i p rest hp
    obtain ⟨⟨es, r⟩, hrest, heq⟩ := Option.map_eq_some_iff.mp hparse
    obtain ⟨rfl, rfl⟩ := Prod.mk.inj heq
    obtain ⟨rfl, hreads⟩ := takePiece_spec hp
    exact piece_readsElems hreads (helems _ _ _ _ _ _ hrest)
  cases text with
  | nil => contradiction
  | cons b text =>
    simp only at hparse
    split at hparse
    · rename_i hb
      split at hparse
      · rename_i hclose
        obtain ⟨rfl, rfl⟩ := Prod.mk.inj (Option.some.inj hparse)
        refine ⟨by rw [hb]; rfl, by simp, hclose, fun fuel' r' hfuel => ?_⟩
        cases fuel' with
        | zero => omega
        | succ fuel' => rw [elemsText, List.nil_append, parseElems_closer, if_pos hclose]
      · contradiction
    split at hparse
    · rename_i hb
      split at hparse
      · rename_i hturn
        obtain ⟨⟨es, r⟩, hrest, heq⟩ := Option.map_eq_some_iff.mp hparse
        obtain ⟨rfl, rfl⟩ := Prod.mk.inj heq
        rw [hb, hturn]
        exact comma_readsElems (helems _ _ _ _ _ _ hrest)
      · contradiction
    split at hparse
    · rename_i hturn
      split at hparse
      · contradiction
      · rename_i e rest hread
        obtain ⟨⟨es, r⟩, hrest, heq⟩ := Option.map_eq_some_iff.mp hparse
        obtain ⟨rfl, rfl⟩ := Prod.mk.inj heq
        exact elem_readsElems hturn (readElem_replays hvalues hread) (helems _ _ _ _ _ _ hrest)
    · contradiction

theorem parse_replays (o : Options) (fuel : Nat) : ValuesReplay o fuel ∧ ElemsReplay o fuel := by
  induction fuel with
  | zero =>
    constructor
    · intro d text v r h
      contradiction
    · intro d c turn text es r h
      contradiction
  | succ fuel ih => exact ⟨valuesReplay_succ ih.2, elemsReplay_succ ih.1 ih.2⟩

end Replay

end Jsonc
