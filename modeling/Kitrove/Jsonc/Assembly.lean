import Kitrove.Jsonc.Replay

/-! Texts put together from parts that were read before. The parser makes of them the parts in
their new order, or nothing where the order of commas and values is not one it takes. -/

namespace Jsonc

variable {o : Options} {c : Container} {text r r' rest : Text} {e : Elem} {es : List Elem}
  {v : Value} {key : Key} {d fuel : Nat} {turn : Turn} {doc : Document}

section Turns

def advance (c : Container) (turn : Turn) : Elem → Option Turn
  | .piece _ => some turn
  | .comma => if turn = .afterValue then some .afterComma else none
  | .member _ _ | .item _ => if mayRead c turn then some .afterValue else none

def turnAfter (c : Container) : Turn → List Elem → Option Turn
  | turn, [] => some turn
  | turn, e :: es => (advance c turn e).bind fun turn => turnAfter c turn es

theorem accepts_cons :
    accepts o c turn (e :: es) = (advance c turn e).any fun turn => accepts o c turn es := by
  cases e with
  | piece p => rfl
  | comma => cases turn <;> rfl
  | member key value =>
    rw [accepts, advance]
    cases mayRead c turn <;> rfl
  | item value =>
    rw [accepts, advance]
    cases mayRead c turn <;> rfl

theorem accepts_eq : accepts o c turn es = (turnAfter c turn es).any (mayClose o) := by
  induction es generalizing turn with
  | nil => rfl
  | cons e es ih =>
    rw [accepts_cons, turnAfter]
    cases advance c turn e with
    | none => rfl
    | some t => exact ih

theorem turnAfter_append (es es' : List Elem) :
    turnAfter c turn (es ++ es') = (turnAfter c turn es).bind fun turn => turnAfter c turn es' := by
  induction es generalizing turn with
  | nil => rfl
  | cons e es ih =>
    rw [List.cons_append, turnAfter, turnAfter]
    cases advance c turn e with
    | none => rfl
    | some t => exact ih

end Turns

section Objects

theorem boundary_elems (hes : ∀ e ∈ es, e.Reads o .object d) (hrest : Boundary rest) :
    Boundary (elemsText es ++ rest) := by
  cases es with
  | nil => exact hrest
  | cons e es =>
    have he := hes e List.mem_cons_self
    rw [elemsText, List.append_assoc]
    cases e with
    | piece p => exact he.boundary
    | comma => exact boundary_cons (by decide)
    | member key value => exact boundary_cons (by decide)
    | item value => exact absurd he.1 (by decide)

/-- The text of a key, and what the value after it makes of the rest. -/
theorem parseElems_member (hkey : key.Reads o) (hrest : takePiece o.comments rest = none) :
    parseElems o d .object (fuel + 1) turn (key.text ++ rest) =
      if mayRead .object turn then
        (parseValue o (d + 1) fuel rest).bind fun p =>
          (parseElems o d .object fuel .afterValue p.2).map fun q => (.member key p.1 :: q.1, q.2)
      else none := by
  have hread : readElem o .object (parseValue o (d + 1) fuel) (key.text ++ rest) = _ :=
    readElem_member hkey hrest
  rw [Key.text, List.cons_append] at hread ⊢
  rw [parseElems_value (by decide), Container.valueDepth, hread]
  cases parseValue o (d + 1) fuel rest <;> rfl

theorem Value.Reads.notPiece (hv : v.Reads o d) : takePiece o.comments (v.text ++ r) = none := by
  obtain ⟨⟨b, hb, hbyte⟩, -⟩ := hv
  obtain ⟨t, ht⟩ := List.head?_eq_some_iff.mp hb
  rw [ht]
  exact takePiece_cons_eq_none (valueByte_notPiece hbyte)

theorem Elem.Reads.length_pos (he : e.Reads o .object d) : 0 < e.text.length := by
  cases e with
  | piece p => exact Piece.Reads.length_pos he
  | comma => exact Nat.one_pos
  | member key value =>
    rw [Elem.text, List.length_append, key.text_length]
    omega
  | item value => exact absurd he.1 (by decide)

theorem length_le_elemsText (hes : ∀ e ∈ es, e.Reads o .object d) :
    es.length ≤ (elemsText es).length := by
  induction es with
  | nil => exact Nat.le_refl _
  | cons e es ih =>
    obtain ⟨he, hes⟩ := List.forall_mem_cons.mp hes
    have hpos := he.length_pos
    have ih := ih hes
    rw [elemsText, List.length_append, List.length_cons]
    omega

/-- Parts that read one by one read one after the other, in an order that an object takes. -/
theorem parseElems_append (hes : ∀ e ∈ es, e.Reads o .object d) (hrest : Boundary rest)
    (hfuel : 2 * (elemsText es).length ≤ fuel) :
    parseElems o d .object fuel turn (elemsText es ++ rest) =
      (turnAfter .object turn es).bind fun turn =>
        (parseElems o d .object (fuel - es.length) turn rest).map fun q => (es ++ q.1, q.2) := by
  induction es generalizing fuel turn with
  | nil => simp [elemsText, turnAfter]
  | cons e es ih =>
    obtain ⟨he, hall⟩ := List.forall_mem_cons.mp hes
    have hpos := he.length_pos
    rw [elemsText, List.length_append] at hfuel
    cases fuel with
    | zero => omega
    | succ fuel =>
      rw [elemsText, List.append_assoc, List.length_cons, Nat.add_sub_add_right, turnAfter]
      cases e with
      | piece p =>
        rw [Elem.text] at hfuel hpos ⊢
        rw [parseElems_piece (he _), ih hall (by omega), advance, Option.bind_some,
          Option.map_bind]
        simp [Function.comp_def]
      | comma =>
        rw [Elem.text, List.length_singleton] at hfuel
        rw [Elem.text, List.singleton_append, parseElems_comma, ih hall (by omega), advance]
        split
        · rw [Option.bind_some, Option.map_bind]
          simp [Function.comp_def]
        · rfl
      | member key value =>
        obtain ⟨-, hkey, hvalue⟩ := he
        have hkeyLength := key.text_length
        rw [Elem.text, List.length_append] at hfuel
        have hread := hvalue.2 fuel _ (by omega) (boundary_elems hall hrest)
        rw [Container.valueDepth] at hread
        rw [Elem.text, List.append_assoc, parseElems_member hkey hvalue.notPiece, advance, hread]
        simp only [Option.bind_some]
        rw [ih hall (by omega)]
        split
        · rw [Option.bind_some, Option.map_bind]
          simp [Function.comp_def]
        · rfl
      | item value => exact absurd he.1 (by decide)

theorem parseElems_object (hes : ∀ e ∈ es, e.Reads o .object d)
    (hfuel : 2 * (elemsText es).length + 1 ≤ fuel) :
    parseElems o d .object fuel turn (elemsText es ++ closeBrace :: r) =
      if accepts o .object turn es then some (es, r) else none := by
  have hlength := length_le_elemsText hes
  obtain ⟨left, hleft⟩ := Nat.exists_eq_add_of_lt (show es.length < fuel by omega)
  have hsub : fuel - es.length = left + 1 := by omega
  have hboundary : Boundary (closeBrace :: r) := boundary_closer (c := .object)
  rw [parseElems_append hes hboundary (by omega), accepts_eq, hsub]
  cases turnAfter .object turn es with
  | none => rfl
  | some t =>
    have hcloser : parseElems o d .object (left + 1) t (Container.object.closer :: r) = _ :=
      parseElems_closer
    rw [Container.closer] at hcloser
    rw [Option.bind_some, hcloser]
    cases hclose : mayClose o t <;> simp [hclose]

/-- An object put together from parts that read is a value just when the order is right. -/
theorem parseValue_object (hes : ∀ e ∈ es, e.Reads o .object (d + 1))
    (hd : d ≤ maximumNestingDepth) (hfuel : 2 * (Value.object es).text.length + 1 ≤ fuel) :
    parseValue o d fuel ((Value.object es).text ++ r) =
      if accepts o .object .start es then some (.object es, r) else none := by
  rw [Value.text, List.length_cons, List.length_append, List.length_singleton] at hfuel
  cases fuel with
  | zero => omega
  | succ fuel =>
    rw [Value.text, List.cons_append, List.append_assoc, List.singleton_append, parseValue,
      if_neg (by omega), if_pos rfl, parseElems_object hes (by omega)]
    split <;> rfl

theorem object_reads (hes : ∀ e ∈ es, e.Reads o .object (d + 1)) (hd : d ≤ maximumNestingDepth)
    (haccepts : accepts o .object .start es = true) : (Value.object es).Reads o d := by
  refine ⟨⟨openBrace, rfl, by decide⟩, fun fuel r hfuel _ => ?_⟩
  rw [parseValue_object hes hd hfuel, if_pos haccepts]

end Objects

section Documents

theorem parseValue_reads (h : parseValue o d fuel text = some (v, r)) :
    text = v.text ++ r ∧ v.Reads o d := by
  have hspec := (parse_replays o fuel).1 _ _ _ _ h
  exact ⟨hspec.text_eq, hspec.reads⟩

theorem parseElems_reads (h : parseElems o d c fuel turn text = some (es, r)) :
    text = elemsText es ++ c.closer :: r ∧ (∀ e ∈ es, e.Reads o c d) ∧
      accepts o c turn es = true := by
  have hspec := (parse_replays o fuel).2 _ _ _ _ _ _ h
  exact ⟨hspec.text_eq, hspec.reads, hspec.accepted⟩

theorem Value.Reads.object (h : (Value.object es).Reads o d) :
    (∀ e ∈ es, e.Reads o .object (d + 1)) ∧ accepts o .object .start es = true := by
  have hread := h.2 _ [] (Nat.le_refl _) boundary_nil
  rw [Value.text, List.cons_append, List.append_assoc, List.singleton_append, parseValue] at hread
  split at hread
  · contradiction
  rw [if_pos rfl] at hread
  obtain ⟨⟨es', r⟩, helems, heq⟩ := Option.map_eq_some_iff.mp hread
  obtain ⟨heq, rfl⟩ := Prod.mk.inj heq
  obtain rfl := Value.object.inj heq
  exact (parseElems_reads helems).2

structure Document.Reads (o : Options) (doc : Document) : Prop where
  lead : ∀ p ∈ doc.lead, p.Reads o.comments
  value : doc.value.Reads o 0
  trail : takePieces o.comments (piecesText doc.trail ++ doc.unfinished).length
    (piecesText doc.trail ++ doc.unfinished) = (doc.trail, doc.unfinished)
  unfinished : isUnfinishedLine o doc.unfinished = true

theorem boundary_unfinished (h : isUnfinishedLine o text = true) : Boundary text := by
  match text with
  | [] => exact boundary_nil
  | [b] => contradiction
  | a :: b :: r =>
    simp only [isUnfinishedLine, Bool.and_eq_true, beq_iff_eq] at h
    obtain ⟨⟨⟨-, rfl⟩, -⟩, -⟩ := h
    exact boundary_cons (by decide)

theorem Document.Reads.boundary (h : doc.Reads o) :
    Boundary (piecesText doc.trail ++ doc.unfinished) := by
  obtain ⟨-, hreads⟩ := takePieces_spec h.trail
  cases htrail : doc.trail with
  | nil => exact boundary_unfinished h.unfinished
  | cons p ps =>
    rw [htrail] at hreads
    rw [piecesText, List.flatMap_cons, List.append_assoc]
    exact (hreads p List.mem_cons_self).boundary

theorem parse_reads (h : parse o text = some doc) : text = doc.text ∧ doc.Reads o := by
  unfold parse at h
  cases hlead : takePieces o.comments text.length text with
  | mk lead r =>
    simp only [hlead] at h
    split at h
    · contradiction
    rename_i value r' hvalue
    cases htrail : takePieces o.comments r'.length r' with
    | mk trail unfinished =>
      simp only [htrail] at h
      split at h
      · rename_i hunfinished
        obtain rfl := Option.some.inj h
        obtain ⟨hr', -⟩ := takePieces_spec htrail
        obtain ⟨rfl, hleadReads⟩ := takePieces_spec hlead
        obtain ⟨rfl, hreads⟩ := parseValue_reads hvalue
        refine ⟨by rw [Document.text, ← hr'], hleadReads, hreads, ?_, hunfinished⟩
        rw [← hr']
        exact htrail
      · contradiction

theorem parse_doc (h : doc.Reads o) : parse o doc.text = some doc := by
  unfold parse
  rw [Document.text, takePieces_all h.lead h.value.notPiece]
  simp only
  rw [h.value.2 _ _ (by simp only [List.length_append]; omega) h.boundary]
  simp only
  rw [h.trail]
  simp only
  rw [if_pos h.unfinished]

/-- Another object in the place of a document's value. -/
theorem parse_object (h : doc.Reads o) (hes : ∀ e ∈ es, e.Reads o .object 1) :
    parse o { doc with value := .object es }.text =
      if accepts o .object .start es then some { doc with value := .object es } else none := by
  split
  · rename_i haccepts
    refine parse_doc ⟨h.lead, object_reads hes (by decide) haccepts, h.trail, h.unfinished⟩
  · rename_i haccepts
    have hpiece : takePiece o.comments
        ((Value.object es).text ++ (piecesText doc.trail ++ doc.unfinished)) = none := by
      rw [Value.text, List.cons_append]
      exact takePiece_cons_eq_none (by decide)
    unfold parse
    rw [Document.text, takePieces_all h.lead hpiece]
    simp only
    rw [parseValue_object hes (by decide), if_neg haccepts]
    simp only [List.length_append]
    omega

end Documents

section Lexemes

def Piece.comment : Piece → List Text
  | .space _ => []
  | .line body | .block body => [body]

mutual

/-- What the comments of a value say. -/
def Value.comments : Value → List Text
  | .scalar _ _ | .string _ _ => []
  | .array elems | .object elems => elemsComments elems

def Elem.comments : Elem → List Text
  | .piece p => p.comment
  | .comma => []
  | .member key value => (key.before ++ key.after).flatMap Piece.comment ++ value.comments
  | .item value => value.comments

def elemsComments : List Elem → List Text
  | [] => []
  | e :: es => e.comments ++ elemsComments es

end

mutual

/-- The strings of a value as they are written, its property names among them. -/
def Value.literals : Value → List Text
  | .scalar _ _ => []
  | .string raw _ => [raw]
  | .array elems | .object elems => elemsLiterals elems

def Elem.literals : Elem → List Text
  | .piece _ | .comma => []
  | .member key value => key.raw :: value.literals
  | .item value => value.literals

def elemsLiterals : List Elem → List Text
  | [] => []
  | e :: es => e.literals ++ elemsLiterals es

end

theorem Value.Reads.parse (h : v.Reads o d) :
    parseValue o d (2 * v.text.length + 1) v.text = some (v, []) := by
  have hread := h.2 _ [] (Nat.le_refl _) boundary_nil
  rwa [List.append_nil] at hread

theorem Value.Reads.string {raw value : Text} (h : (Value.string raw value).Reads o d) :
    Literal raw ∧ decode raw = some value := by
  have hread := h.parse
  rw [Value.text, parseValue] at hread
  split at hread
  · contradiction
  rw [if_neg (by decide), if_neg (by decide), if_pos rfl] at hread
  obtain ⟨⟨raw', r⟩, hsplit, hread⟩ := Option.bind_eq_some_iff.mp hread
  obtain ⟨value', hdecode, heq⟩ := Option.map_eq_some_iff.mp hread
  obtain ⟨heq, rfl⟩ := Prod.mk.inj heq
  obtain ⟨rfl, rfl⟩ := Value.string.inj heq
  exact ⟨(splitString_spec hsplit).2, hdecode⟩

theorem Value.Reads.boolean {value : Bool} {word : Text}
    (h : (Value.scalar (.boolean value) word).Reads o d) : (word, .boolean value) ∈ keywords := by
  have hread := h.parse
  cases word with
  | nil => simp [Value.text, parseValue] at hread
  | cons b word =>
    rw [Value.text, parseValue] at hread
    split at hread
    · contradiction
    split at hread
    · obtain ⟨q, -, heq⟩ := Option.map_eq_some_iff.mp hread
      simp at heq
    split at hread
    · obtain ⟨q, -, heq⟩ := Option.map_eq_some_iff.mp hread
      simp at heq
    split at hread
    · obtain ⟨q, -, hread⟩ := Option.bind_eq_some_iff.mp hread
      obtain ⟨q', -, heq⟩ := Option.map_eq_some_iff.mp hread
      simp at heq
    obtain ⟨⟨⟨kind, word'⟩, r⟩, hscan, heq⟩ := Option.map_eq_some_iff.mp hread
    obtain ⟨heq, rfl⟩ := Prod.mk.inj heq
    obtain ⟨rfl, rfl⟩ := Value.scalar.inj heq
    unfold scanScalar at hscan
    split at hscan
    · rename_i found hword
      obtain rfl := Option.some.inj hscan
      exact (scanWord_spec hword).2.1
    · obtain ⟨q, -, heq⟩ := Option.map_eq_some_iff.mp hscan
      simp at heq

/-- A string without a backslash says what is written in it. -/
theorem decode_unescaped {raw value : Text} (hliteral : Literal raw) (hdecode : decode raw = some value)
    (hraw : backslash ∉ raw) : raw = value := by
  have hquote : ∀ {raw : Text}, backslash ∉ raw →
      (∀ r, splitString false (raw ++ quote :: r) = some (raw, r)) → plain raw = true := by
    intro raw
    induction raw with
    | nil => exact fun _ _ => rfl
    | cons b raw ih =>
      intro hraw hsplit
      rw [List.mem_cons, not_or] at hraw
      have hb : b ≠ quote := by
        rintro rfl
        have hempty := hsplit []
        rw [List.cons_append, splitString, if_pos rfl] at hempty
        simp at hempty
      have hne : (b == backslash) = false := by simpa using Ne.symm hraw.1
      have htail := ih hraw.2 fun r => by
        have hread := hsplit r
        rw [List.cons_append, splitString, if_neg hb, hne] at hread
        obtain ⟨⟨raw', r'⟩, htail, heq⟩ := Option.map_eq_some_iff.mp hread
        obtain ⟨hraw', rfl⟩ := Prod.mk.inj heq
        obtain ⟨-, rfl⟩ := List.cons.inj hraw'
        exact htail
      simp only [plain, List.all_cons, Bool.and_eq_true, bne_iff_ne] at htail ⊢
      exact ⟨⟨hb, Ne.symm hraw.1⟩, htail⟩
  have hplain := decode_of_plain (hquote hraw hliteral)
  rw [hdecode] at hplain
  exact (Option.some.inj hplain).symm

end Lexemes

section Nesting

/-- Objects of one property each, one inside the other. -/
def nest : List Key → Value → Value
  | [], v => v
  | key :: keys, v => .object [.member key (nest keys v)]

theorem nest_reads {keys : List Key} (hkeys : ∀ key ∈ keys, key.Reads o)
    (hd : d + 2 * keys.length ≤ maximumNestingDepth) (hv : v.Reads o (d + 2 * keys.length)) :
    (nest keys v).Reads o d := by
  induction keys generalizing d with
  | nil => exact hv
  | cons key keys ih =>
    obtain ⟨hkey, hkeys⟩ := List.forall_mem_cons.mp hkeys
    rw [List.length_cons, Nat.mul_succ, Nat.add_comm (2 * keys.length), ← Nat.add_assoc] at hd hv
    have hinner := ih hkeys hd hv
    refine object_reads ?_ (by omega) rfl
    simpa [Elem.Reads, Container.valueDepth] using ⟨hkey, hinner⟩

theorem document_reads (hv : v.Reads o 0) : (Document.mk [] v [] []).Reads o where
  lead := by simp
  value := hv
  trail := rfl
  unfinished := rfl

end Nesting

end Jsonc
