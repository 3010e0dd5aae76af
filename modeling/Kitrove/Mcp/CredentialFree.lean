import Mathlib.Data.Finset.Lattice.Lemmas
import Kitrove.Mcp.Isolation
import Kitrove.Mcp.Tokens

/-! Where credential-shaped text can still stand in a portable entry: in a comment, in a string
with escapes, in a proper part of an endpoint's component, in the name of the bearer variable and,
for Codex, in what the item itself does not print. -/

namespace Kitrove.Mcp

open Jsonc (Value Elem Key Options Piece elemsText elemsComments elemsLiterals accepts quote colon
  closeBrace)

section Lexemes

variable {o : Options} {d : Nat} {turn : Jsonc.Turn} {es : List Elem} {v : Value} {p : Piece}
  {ps : List Piece} {rest : Bytes}

/-- A text that no token before it goes on into. -/
def Separated (rest : Bytes) : Prop := ∀ s ∈ rest.head?, tokenByte s = false

/-- The credentials of a value are those of its comments and strings. -/
def Transparent (v : Value) : Prop :=
  ∀ rest, Separated rest → containsCredentialShapedText (v.text ++ rest) =
    ((v.comments ++ v.literals).any containsCredentialShapedText ||
      containsCredentialShapedText rest)

theorem space_separators : ∀ bytes ∈ Jsonc.spaces, ∀ s ∈ bytes, tokenByte s = false := by
  decide +kernel

theorem contains_piece (hp : p.Reads o.comments) :
    containsCredentialShapedText (p.text ++ rest) =
      (p.comment.any containsCredentialShapedText || containsCredentialShapedText rest) := by
  cases p with
  | space bytes =>
    rw [Piece.text, contains_separators (space_separators bytes hp.space_mem)]
    rfl
  | line body =>
    rw [Piece.text, List.cons_append, List.cons_append, contains_cons (by decide),
      contains_cons (by decide), List.append_assoc, List.singleton_append,
      contains_split (by decide)]
    simp [Piece.comment]
  | block body =>
    rw [Piece.text, List.cons_append, List.cons_append, contains_cons (by decide),
      contains_cons (by decide), List.append_assoc, List.cons_append, List.singleton_append,
      contains_split (by decide), contains_cons (by decide)]
    simp [Piece.comment]

theorem contains_pieces (hps : ∀ p ∈ ps, p.Reads o.comments) :
    containsCredentialShapedText (Jsonc.piecesText ps ++ rest) =
      ((ps.flatMap Piece.comment).any containsCredentialShapedText ||
        containsCredentialShapedText rest) := by
  induction ps with
  | nil => rfl
  | cons p ps ih =>
    obtain ⟨hp, hps⟩ := List.forall_mem_cons.mp hps
    rw [Jsonc.piecesText, List.flatMap_cons, List.append_assoc, contains_piece hp,
      List.flatMap_cons, List.any_append, Bool.or_assoc]
    congr 1
    exact ih hps

theorem separated_piece (hp : p.Reads o.comments) : Separated (p.text ++ rest) := by
  cases p with
  | space bytes =>
    have hmem := hp.space_mem
    have hne := (Jsonc.spaces_ne_slash bytes hmem).2
    intro s hs
    rw [Piece.text, List.head?_append_of_ne_nil bytes hne] at hs
    exact space_separators bytes hmem s (List.mem_of_mem_head? hs)
  | line body => exact head_separator (by decide)
  | block body => exact head_separator (by decide)

/-- A value in an object is followed by something that is no part of a token. -/
theorem separated_elems (hes : ∀ e ∈ es, e.Reads o .object d)
    (haccepts : accepts o .object .afterValue es = true) :
    Separated (elemsText es ++ closeBrace :: rest) := by
  cases es with
  | nil => exact head_separator (by decide)
  | cons e es =>
    rw [elemsText, List.append_assoc]
    cases e with
    | piece p => exact separated_piece (hes _ List.mem_cons_self)
    | comma => exact head_separator (by decide)
    | member key value => contradiction
    | item value => contradiction

theorem contains_elems (hes : ∀ e ∈ es, e.Reads o .object d)
    (haccepts : accepts o .object turn es = true)
    (hvalues : ∀ key value, Elem.member key value ∈ es → Transparent value) :
    containsCredentialShapedText (elemsText es ++ closeBrace :: rest) =
      ((elemsComments es ++ elemsLiterals es).any containsCredentialShapedText ||
        containsCredentialShapedText rest) := by
  induction es generalizing turn with
  | nil =>
    rw [elemsText, List.nil_append, contains_cons (by decide)]
    rfl
  | cons e es ih =>
    obtain ⟨he, hall⟩ := List.forall_mem_cons.mp hes
    have hlater : ∀ key value, Elem.member key value ∈ es → Transparent value :=
      fun key value hmem => hvalues key value (List.mem_cons_of_mem e hmem)
    rw [elemsText, List.append_assoc, elemsComments, elemsLiterals]
    cases e with
    | piece p =>
      have ih := ih hall haccepts hlater
      rw [Elem.text, contains_piece he, ih]
      simp [Elem.comments, Elem.literals, Bool.or_assoc]
    | comma =>
      rw [accepts, Bool.and_eq_true] at haccepts
      have ih := ih hall haccepts.2 hlater
      rw [Elem.text, List.singleton_append, contains_cons (by decide), ih]
      simp [Elem.comments, Elem.literals]
    | member key value =>
      rw [accepts, Bool.and_eq_true] at haccepts
      obtain ⟨-, hkey, -⟩ := he
      have ih := ih hall haccepts.2 hlater
      have hvalue := hvalues key value List.mem_cons_self (elemsText es ++ closeBrace :: rest)
        (separated_elems hall haccepts.2)
      have hcolon : ∀ t, Separated (colon :: t) := fun t => head_separator (by decide)
      rw [Elem.text, Key.text]
      simp only [List.cons_append, List.append_assoc]
      rw [contains_cons (by decide), contains_split (by decide), contains_pieces hkey.before,
        contains_cons (by decide), contains_pieces hkey.after, hvalue, ih]
      simp only [Elem.comments, Elem.literals, List.any_append, List.any_cons, List.flatMap_append,
        Bool.or_assoc, Bool.or_left_comm]
    | item value => exact absurd he.1 (by decide)

theorem transparent_string {raw value : Bytes} : Transparent (.string raw value) := by
  intro rest _
  rw [Value.text, List.cons_append, contains_cons (by decide), List.append_assoc,
    List.singleton_append, contains_split (by decide)]
  simp [Value.comments, Value.literals]

theorem transparent_boolean {value : Bool} {word : Bytes}
    (h : (Value.scalar (.boolean value) word).Reads o d) : Transparent (.scalar (.boolean value) word) := by
  have hshort : ∀ k ∈ Jsonc.keywords, k.1.length < 20 := by decide
  intro rest hrest
  rw [Value.text, contains_append hrest, contains_short (hshort _ h.boolean)]
  rfl

theorem transparent_object (h : (Value.object es).Reads o d)
    (hvalues : ∀ key value, Elem.member key value ∈ es → Transparent value) :
    Transparent (.object es) := by
  intro rest _
  obtain ⟨hes, haccepts⟩ := h.object
  rw [Value.text, List.cons_append, contains_cons (by decide), List.append_assoc,
    List.singleton_append, contains_elems hes haccepts hvalues]
  rfl

end Lexemes

section Portable

variable {parseUrl : Bytes → Option Url} {dialect : NativeMcpDialect} {entry : List Elem}
  {name : Bytes} {projection : McpNativeProjection parseUrl} {v : Value}

/-- What the properties of a portable entry are. -/
structure PortableEntry (dialect : NativeMcpDialect) (entry : List Elem)
    (projection : McpNativeProjection parseUrl) : Prop where
  fields : ∀ p ∈ properties entry, p.1 ∈ allowedFields dialect
  type : ∃ value ∈ expectedTypes dialect, (get entry (ascii "type")).bind asString = some value
  url : (get entry (ascii "url")).bind asString = some projection.endpoint.text
  headers : ∀ value, get entry (ascii "headers") = some value → ∃ headers name text bearer,
    value = .object headers ∧ properties headers = [(name, text)] ∧
      eqIgnoreAsciiCase name (ascii "authorization") = true ∧
      asString text = some (bearerPrefix dialect ++ (bearer.text ++ [0x7D])) ∧
      projection.bearerEnvironment = some bearer
  switches : ∀ field ∈ [ascii "oauth", ascii "disabled"], dialect = .openCodeV2 →
    ∀ value, get entry field = some value → (asBoolean value).isSome = true

theorem portabilityOf_eq_portable {reasons : Finset McpBlockReason}
    {parsed : Except McpError McpServerName} {endpoint : Option (McpHttpsEndpoint parseUrl)}
    {bearer : Option EnvironmentVariableName}
    (h : portabilityOf reasons parsed endpoint bearer = .portable projection) :
    reasons = ∅ ∧ endpoint = some projection.endpoint ∧ projection.bearerEnvironment = bearer := by
  unfold portabilityOf at h
  split at h
  · split at h
    · rename_i hreasons
      obtain rfl := McpPortability.portable.inj h
      exact ⟨hreasons, rfl, rfl⟩
    · contradiction
  all_goals contradiction

theorem stripPrefix_eq_some {pattern text rest : Bytes} (h : stripPrefix pattern text = some rest) :
    text = pattern ++ rest := by
  unfold stripPrefix at h
  split at h
  · rename_i hstarts
    obtain ⟨t, rfl⟩ := List.isPrefixOf_iff_prefix.mp hstarts
    rw [← Option.some.inj h, List.drop_left]
  · contradiction

theorem stripSuffix_eq_some {pattern text rest : Bytes} (h : stripSuffix pattern text = some rest) :
    text = rest ++ pattern := by
  unfold stripSuffix at h
  split at h
  · rename_i hsuffix
    obtain ⟨t, rfl⟩ := List.isSuffixOf_iff_suffix.mp hsuffix
    rw [← Option.some.inj h, List.length_append, Nat.add_sub_cancel, List.take_left]
  · contradiction

theorem EnvironmentVariableName.parse_eq_some {value : Bytes} {parsed : EnvironmentVariableName}
    (h : EnvironmentVariableName.parse value = some parsed) : parsed.text = value := by
  unfold EnvironmentVariableName.parse at h
  split at h
  · rw [← Option.some.inj h]
  · contradiction

theorem McpHttpsEndpoint.parse_text {value : Bytes} {endpoint : McpHttpsEndpoint parseUrl}
    (h : (McpHttpsEndpoint.parse parseUrl value).toOption = some endpoint) :
    endpoint.text = value := by
  unfold McpHttpsEndpoint.parse at h
  split at h
  · rw [← Option.some.inj h]
  · contradiction

theorem parseJsonBearer_none {bearer : Option EnvironmentVariableName}
    (h : parseJsonBearer entry dialect = (bearer, ∅)) :
    (∀ value, get entry (ascii "headers") = some value → ∃ headers name text token,
      value = .object headers ∧ properties headers = [(name, text)] ∧
        eqIgnoreAsciiCase name (ascii "authorization") = true ∧
        asString text = some (bearerPrefix dialect ++ (token.text ++ [0x7D])) ∧
        bearer = some token) ∧
      (dialect = .openCodeV2 → ∀ value, get entry (ascii "oauth") = some value →
        (asBoolean value).isSome = true) := by
  unfold parseJsonBearer at h
  split at h
  · simp at h
  · rename_i hheaders
    have hnone : get entry (ascii "headers") = none := by
      unfold optionalObject at hheaders
      split at hheaders
      · assumption
      · split at hheaders
        · simp at hheaders
        · contradiction
    refine ⟨fun value hvalue => ?_, fun hdialect value hvalue => ?_⟩
    · rw [hnone] at hvalue
      contradiction
    · split at h
      · simp at h
      · rename_i hoauth
        exact absurd ⟨hdialect, by rw [hvalue]; rfl⟩ hoauth
  · rename_i headers hheaders
    have hsome := optionalObject_eq_some hheaders
    split at h
    case h_2 => simp at h
    rename_i name value hproperties
    split at h
    · simp at h
    rename_i hname
    split at h
    · simp at h
    rename_i text htext
    split at h
    · split at h <;> simp at h
    rename_i token htoken
    obtain ⟨token', hstripped, hparsed⟩ := Option.bind_eq_some_iff.mp htoken
    obtain ⟨stripped, hstripPrefix, hstripSuffix⟩ := Option.bind_eq_some_iff.mp hstripped
    have heq : text = bearerPrefix dialect ++ (token.text ++ [0x7D]) := by
      rw [stripPrefix_eq_some hstripPrefix, stripSuffix_eq_some hstripSuffix,
        EnvironmentVariableName.parse_eq_some hparsed]
    have hbearer : bearer = some token ∧
        ¬ (dialect = .openCodeV2 ∧ (get entry (ascii "oauth")).bind asBoolean ≠ some false) := by
      split at h
      · simp at h
      · rename_i hoauth
        exact ⟨(Prod.mk.inj h).1.symm, hoauth⟩
    refine ⟨fun value' hvalue' => ?_, fun hdialect value' hvalue' => ?_⟩
    · rw [hsome] at hvalue'
      obtain rfl := Option.some.inj hvalue'
      refine ⟨headers, name, value, token, rfl, hproperties, by simpa using hname, ?_, hbearer.1⟩
      rw [htext, heq]
    · by_contra hboolean
      refine hbearer.2 ⟨hdialect, ?_⟩
      rw [hvalue', Option.bind_some]
      rintro hfalse
      rw [hfalse] at hboolean
      contradiction

theorem parseJsonEntry_eq_portable
    (h : parseJsonEntry parseUrl name entry dialect = .portable projection) :
    PortableEntry dialect entry projection := by
  unfold parseJsonEntry at h
  cases hbearer : parseJsonBearer entry dialect with
  | mk bearer bearerReasons =>
    simp only [hbearer] at h
    obtain ⟨hreasons, hendpoint, hprojection⟩ := portabilityOf_eq_portable h
    simp only [Finset.union_eq_empty] at hreasons
    obtain ⟨⟨⟨hfields, htransport⟩, hdisabled⟩, rfl⟩ := hreasons
    obtain ⟨hheaders, hoauth⟩ := parseJsonBearer_none hbearer
    obtain ⟨value, hurl, hparsed⟩ := Option.bind_eq_some_iff.mp hendpoint
    refine ⟨fun p hp => ?_, ?_, ?_, fun value hvalue => ?_, fun field hfield hdialect value hvalue => ?_⟩
    · unfold fieldReasons at hfields
      split at hfields
      · simp at hfields
      · rename_i hall
        rw [Bool.not_eq_true, List.any_eq_false] at hall
        simpa using hall p hp
    · unfold transportReasons at htransport
      simp only at htransport
      split at htransport
      · rename_i hany
        obtain ⟨value, hvalue, hcontains⟩ := (Option.any_eq_true _ _).mp hany
        exact ⟨value, by simpa using hcontains, hvalue⟩
      · split at htransport <;> simp at htransport
    · rw [McpHttpsEndpoint.parse_text hparsed]
      exact hurl
    · obtain ⟨headers, name, text, token, h₁, h₂, h₃, h₄, h₅⟩ := hheaders value hvalue
      exact ⟨headers, name, text, token, h₁, h₂, h₃, h₄, by rw [hprojection, h₅]⟩
    · rw [List.mem_cons, List.mem_singleton] at hfield
      rcases hfield with rfl | rfl
      · exact hoauth hdialect value hvalue
      · subst hdialect
        unfold disabledReasons at hdisabled
        rw [hvalue] at hdisabled
        simp only at hdisabled
        split at hdisabled
        · simp at hdisabled
        · rename_i hboolean
          rw [hboolean]
          rfl
        · simp at hdisabled

end Portable

section Trees

variable {maxDepth left depth : Nat} {stack : List (Value × Nat)} {object : List Elem}
  {name : Bytes} {v : Value}

/-- A value that the walk through its document's tree came by. -/
def Checked (v : Value) : Prop :=
  ∃ maxDepth left stack depth, validateJsonNodes maxDepth left stack = .ok () ∧ (v, depth) ∈ stack

theorem checked_object (h : Checked (.object object)) :
    ((properties object).map Prod.fst).Nodup ∧ ∀ p ∈ properties object, Checked p.2 := by
  obtain ⟨maxDepth, left, stack, depth, h, hmem⟩ := h
  induction left generalizing stack with
  | zero =>
    cases stack with
    | nil => contradiction
    | cons head stack => contradiction
  | succ left ih =>
    cases stack with
    | nil => contradiction
    | cons head stack =>
      obtain ⟨value, depth'⟩ := head
      rw [validateJsonNodes.eq_def] at h
      simp only at h
      split at h
      · contradiction
      rcases List.mem_cons.mp hmem with heq | hlater
      · obtain ⟨rfl, rfl⟩ := Prod.mk.inj heq
        simp only at h
        split at h
        · rename_i hnodup
          refine ⟨hnodup, fun p hp => ⟨maxDepth, left, _, depth + 1, h, ?_⟩⟩
          refine List.mem_append_left _ (List.mem_reverse.mpr ?_)
          exact List.mem_map_of_mem hp
        · contradiction
      · cases value with
        | object inner =>
          simp only at h
          split at h
          · exact ih _ h (List.mem_append_right _ hlater)
          · contradiction
        | array inner => exact ih _ h (List.mem_append_right _ hlater)
        | string raw text => exact ih _ h hlater
        | scalar kind word => exact ih _ h hlater

theorem get_of_mem (hnodup : ((properties object).map Prod.fst).Nodup)
    (h : (name, v) ∈ properties object) : get object name = some v := by
  unfold get
  generalize properties object = props at hnodup h
  induction props with
  | nil => contradiction
  | cons p props ih =>
    rw [List.map_cons, List.nodup_cons] at hnodup
    rcases List.mem_cons.mp h with rfl | h
    · simp
    · have hne : p.1 ≠ name := by
        rintro rfl
        exact hnodup.1 (List.mem_map.mpr ⟨_, h, rfl⟩)
      rw [List.find?_cons_of_neg (by simpa using hne)]
      exact ih hnodup.2 h

end Trees

section Members

variable {parseUrl : Bytes → Option Url} {dialect : NativeMcpDialect} {entry : List Elem}
  {projection : McpNativeProjection parseUrl} {key : Key} {v : Value} {o : Options} {d : Nat}

/-- What a property of a portable entry can be. -/
inductive PortableMember (dialect : NativeMcpDialect) (projection : McpNativeProjection parseUrl) :
    Value → Prop where
  | type (raw text : Bytes) (h : text ∈ expectedTypes dialect) : PortableMember dialect projection
      (.string raw text)
  | url (raw : Bytes) : PortableMember dialect projection (.string raw projection.endpoint.text)
  | headers (headers : List Elem) (name raw : Bytes) (bearer : EnvironmentVariableName)
      (hproperties : properties headers = [(name,
        .string raw (bearerPrefix dialect ++ (bearer.text ++ [0x7D])))])
      (hname : eqIgnoreAsciiCase name (ascii "authorization") = true)
      (hbearer : projection.bearerEnvironment = some bearer) :
      PortableMember dialect projection (.object headers)
  | switch (value : Bool) (word : Bytes) : PortableMember dialect projection
      (.scalar (.boolean value) word)

theorem asString_eq_some {text : Bytes} (h : asString v = some text) :
    ∃ raw, v = .string raw text := by
  cases v with
  | string raw value => exact ⟨raw, by rw [← Option.some.inj h]⟩
  | scalar kind word => contradiction
  | array elems => contradiction
  | object elems => contradiction

theorem portable_member (h : PortableEntry dialect entry projection)
    (hnodup : ((properties entry).map Prod.fst).Nodup) (hmem : Elem.member key v ∈ entry) :
    key.name ∈ allowedFields dialect ∧ PortableMember dialect projection v := by
  have hproperty : (key.name, v) ∈ properties entry := mem_properties.mpr ⟨key, hmem, rfl⟩
  have hfield := h.fields _ hproperty
  have hget := get_of_mem hnodup hproperty
  refine ⟨hfield, ?_⟩
  have hcases : key.name = ascii "type" ∨ key.name = ascii "url" ∨ key.name = ascii "headers" ∨
      key.name ∈ [ascii "oauth", ascii "disabled"] ∧ dialect = .openCodeV2 := by
    cases dialect <;> simp only [allowedFields, List.mem_cons, List.not_mem_nil, or_false] at hfield ⊢
      <;> tauto
  rcases hcases with hname | hname | hname | ⟨hname, hdialect⟩
  · obtain ⟨text, htext, hstring⟩ := h.type
    rw [← hname, hget, Option.bind_some] at hstring
    obtain ⟨raw, rfl⟩ := asString_eq_some hstring
    exact .type raw text htext
  · have hstring := h.url
    rw [← hname, hget, Option.bind_some] at hstring
    obtain ⟨raw, rfl⟩ := asString_eq_some hstring
    exact .url raw
  · rw [hname] at hget
    obtain ⟨headers, name, text, bearer, rfl, hproperties, heq, hstring, hbearer⟩ := h.headers v hget
    obtain ⟨raw, rfl⟩ := asString_eq_some hstring
    exact .headers headers name raw bearer hproperties heq hbearer
  · have hboolean := h.switches _ hname hdialect v hget
    cases v with
    | scalar kind word =>
      cases kind with
      | boolean value => exact .switch value word
      | null => contradiction
      | number => contradiction
    | string raw value => contradiction
    | array elems => contradiction
    | object elems => contradiction

theorem portableMember_transparent (h : PortableMember dialect projection v) (hreads : v.Reads o d) :
    Transparent v := by
  cases h with
  | type raw text h => exact transparent_string
  | url raw => exact transparent_string
  | headers headers name raw bearer hproperties =>
    refine transparent_object hreads fun key value hmem => ?_
    have hproperty : (key.name, value) ∈ properties headers := mem_properties.mpr ⟨key, hmem, rfl⟩
    rw [hproperties, List.mem_singleton] at hproperty
    rw [(Prod.mk.inj hproperty).2]
    exact transparent_string
  | switch value word => exact transparent_boolean hreads

theorem mem_elemsLiterals {es : List Elem} {raw : Bytes} (hes : ∀ e ∈ es, e.Reads o .object d) :
    raw ∈ elemsLiterals es ↔
      ∃ key value, Elem.member key value ∈ es ∧ (raw = key.raw ∨ raw ∈ value.literals) := by
  induction es with
  | nil => simp [elemsLiterals]
  | cons e es ih =>
    obtain ⟨he, hes⟩ := List.forall_mem_cons.mp hes
    rw [elemsLiterals, List.mem_append, ih hes]
    cases e with
    | piece p => simp [Elem.literals]
    | comma => simp [Elem.literals]
    | member key value => simp [Elem.literals, or_and_right, exists_or]
    | item value => exact absurd he.1 (by decide)

theorem bearer_tokens (bearer : EnvironmentVariableName) : ∀ b ∈ bearer.text, tokenByte b = true := by
  have hvalid := bearer.valid
  have hfirst : ∀ b : UInt8, ((0x41 ≤ b && b ≤ 0x5A) || (0x61 ≤ b && b ≤ 0x7A) || b == 0x5F) = true →
      tokenByte b = true := UInt8.forall_ofNat (by decide +kernel)
  cases htext : bearer.text with
  | nil => simp
  | cons first rest =>
    rw [htext, validEnvironmentVariableName, Bool.and_eq_true, List.all_eq_true] at hvalid
    refine List.forall_mem_cons.mpr ⟨?_, fun b hb => ?_⟩
    · exact hfirst first hvalid.1
    · have h := hvalid.2 b hb
      rw [Bool.or_eq_true] at h
      rcases h with h | h <;> simp [tokenByte, h]

theorem contains_bearer (bearer : EnvironmentVariableName) :
    containsCredentialShapedText (bearerPrefix dialect ++ (bearer.text ++ [0x7D])) =
      containsCredentialShapedText bearer.text := by
  have hstarts : ∃ a s, bearerPrefix dialect = a ++ [s] ∧ a.length < 20 ∧ tokenByte s = false := by
    cases dialect
    · exact ⟨ascii "Bearer $", 0x7B, by decide, by decide, by decide⟩
    · exact ⟨ascii "Bearer $", 0x7B, by decide, by decide, by decide⟩
    · exact ⟨ascii "Bearer \x7benv", 0x3A, by decide, by decide, by decide⟩
  obtain ⟨a, s, heq, hshort, hs⟩ := hstarts
  rw [heq, List.append_assoc, List.singleton_append, contains_split hs, contains_short hshort,
    contains_split (by decide), contains_nil, Bool.or_false, Bool.false_or]

theorem allowedFields_short : ∀ field ∈ allowedFields dialect, field.length < 20 := by
  cases dialect <;> decide

theorem expectedTypes_short : ∀ value ∈ expectedTypes dialect, value.length < 20 := by
  cases dialect <;> decide

/-- A string written without escapes is none but the endpoint's or the bearer's. -/
theorem portable_literal (h : PortableMember dialect projection v) (hreads : v.Reads o d)
    (hendpoint : containsCredentialShapedText projection.endpoint.text = false)
    (hbearer : ∀ bearer ∈ projection.bearerEnvironment,
      containsCredentialShapedText bearer.text = false)
    {raw : Bytes} (hraw : raw ∈ v.literals) (hescape : Jsonc.backslash ∉ raw) :
    containsCredentialShapedText raw = false := by
  cases h with
  | type raw' text htext =>
    obtain rfl : raw = raw' := by simpa [Value.literals] using hraw
    obtain ⟨hliteral, hdecode⟩ := hreads.string
    rw [Jsonc.decode_unescaped hliteral hdecode hescape]
    exact contains_short (expectedTypes_short text htext)
  | url raw' =>
    obtain rfl : raw = raw' := by simpa [Value.literals] using hraw
    obtain ⟨hliteral, hdecode⟩ := hreads.string
    rw [Jsonc.decode_unescaped hliteral hdecode hescape, hendpoint]
  | headers headers name raw' bearer hproperties hname hbearer' =>
    have hes := hreads.object.1
    rw [Value.literals, mem_elemsLiterals hes] at hraw
    obtain ⟨key, value, hmem, hraw⟩ := hraw
    obtain ⟨-, hkey, hvalue⟩ := hes _ hmem
    have hproperty : (key.name, value) ∈ properties headers := mem_properties.mpr ⟨key, hmem, rfl⟩
    rw [hproperties, List.mem_singleton] at hproperty
    obtain ⟨rfl, rfl⟩ := Prod.mk.inj hproperty
    rcases hraw with rfl | hraw
    · rw [Jsonc.decode_unescaped hkey.literal hkey.decodes hescape]
      have hlength := congrArg List.length (eq_of_beq hname)
      rw [List.length_map, List.length_map] at hlength
      exact contains_short (by rw [hlength]; decide)
    · obtain rfl : raw = raw' := by simpa [Value.literals] using hraw
      obtain ⟨hliteral, hdecode⟩ := hvalue.string
      rw [Jsonc.decode_unescaped hliteral hdecode hescape, contains_bearer]
      exact hbearer bearer (by rw [hbearer']; rfl)
  | switch value word => contradiction

/-- The credentials of a portable entry's text. -/
theorem entry_credentials (h : PortableEntry dialect entry projection)
    (hnodup : ((properties entry).map Prod.fst).Nodup) (hreads : (Value.object entry).Reads o d)
    (hendpoint : containsCredentialShapedText projection.endpoint.text = false)
    (hbearer : ∀ bearer ∈ projection.bearerEnvironment,
      containsCredentialShapedText bearer.text = false) :
    containsCredentialShapedText (Value.object entry).text = false ↔
      (∀ comment ∈ (Value.object entry).comments, containsCredentialShapedText comment = false) ∧
        ∀ raw ∈ (Value.object entry).literals, Jsonc.backslash ∈ raw →
          containsCredentialShapedText raw = false := by
  have hes := hreads.object.1
  have hmembers : ∀ key value, Elem.member key value ∈ entry → Transparent value :=
    fun key value hmem =>
      portableMember_transparent (portable_member h hnodup hmem).2 (hes _ hmem).2.2
  have hcontains := transparent_object hreads hmembers [] (by simp [Separated])
  rw [List.append_nil, contains_nil, Bool.or_false] at hcontains
  rw [hcontains, any_eq_false_iff]
  constructor
  · intro hall
    exact ⟨fun comment hmem => hall comment (List.mem_append_left _ hmem),
      fun raw hmem _ => hall raw (List.mem_append_right _ hmem)⟩
  · rintro ⟨hcomments, hescaped⟩ text hmem
    rcases List.mem_append.mp hmem with hmem | hmem
    · exact hcomments text hmem
    by_cases hescape : Jsonc.backslash ∈ text
    · exact hescaped text hmem hescape
    rw [Value.literals, mem_elemsLiterals hes] at hmem
    obtain ⟨key, value, hmember, hraw⟩ := hmem
    obtain ⟨hfield, hportable⟩ := portable_member h hnodup hmember
    obtain ⟨-, hkey, hvalue⟩ := hes _ hmember
    rcases hraw with rfl | hraw
    · rw [Jsonc.decode_unescaped hkey.literal hkey.decodes hescape]
      exact contains_short (allowedFields_short _ hfield)
    · exact portable_literal hportable hvalue hendpoint hbearer hraw hescape

end Members

section State

variable {lib : Libraries} {dialect : NativeMcpDialect} {limits : McpParseLimits} {input : Bytes}
  {observed : ObservedMcpDocument lib.parseUrl} {entry : ObservedMcpServer lib.parseUrl}
  {projection : McpNativeProjection lib.parseUrl} {stored : StoredNativeMcpEntry}
  {documentHash : ContentHash}

/-- The comments and the escaped strings of a JSON entry hold no credential. -/
def jsonClear (dialect : NativeMcpDialect) (exact : Bytes) : Prop :=
  ∀ v r, Jsonc.parseValue (jsonOptions dialect) (entryDepth dialect) (2 * exact.length + 1) exact =
      some (v, r) →
    (∀ comment ∈ v.comments, containsCredentialShapedText comment = false) ∧
      ∀ raw ∈ v.literals, Jsonc.backslash ∈ raw → containsCredentialShapedText raw = false

/-- What a Codex entry holds beyond what its item prints holds no credential. -/
def codexClear (lib : Libraries) (input : Bytes) (limits : McpParseLimits)
    (entry : ObservedMcpServer lib.parseUrl) : Prop :=
  ∀ root servers server, lib.parseToml input = some root →
    (root.asTableLike.bind fun table => tomlGet table (ascii "mcp_servers")).bind
      TomlItem.asTableLike = some servers →
    server ∈ servers → codexEntry lib input (tableStarts root) limits server = .ok entry →
    ∀ token ∈ tokens entry.exactEntry, token ∉ tokens server.2.display →
      isCredentialShaped token = false

def entryClear (lib : Libraries) (input : Bytes) (dialect : NativeMcpDialect)
    (limits : McpParseLimits) (entry : ObservedMcpServer lib.parseUrl) : Prop :=
  match dialect with
  | .codexCurrent => codexClear lib input limits entry
  | dialect => jsonClear dialect entry.exactEntry

/-- Neither the endpoint nor the bearer's name hides a credential. -/
def projectionClear (projection : McpNativeProjection lib.parseUrl) : Prop :=
  (∀ part ∈ innerParts lib.parseUrl projection.endpoint.text, isCredentialShaped part = false) ∧
    ∀ bearer ∈ projection.bearerEnvironment, isCredentialShaped bearer.text = false

def CredentialFree (projection : McpNativeProjection lib.parseUrl)
    (stored : StoredNativeMcpEntry) : Prop :=
  containsCredentialShapedText stored.exactEntry = false ∧
    containsCredentialShapedText projection.endpoint.text = false ∧
    ∀ bearer ∈ projection.bearerEnvironment, containsCredentialShapedText bearer.text = false

theorem projectionClear_iff (hlaw : UrlLaw lib.parseUrl) : projectionClear projection ↔
    containsCredentialShapedText projection.endpoint.text = false ∧
      ∀ bearer ∈ projection.bearerEnvironment,
        containsCredentialShapedText bearer.text = false := by
  rw [projectionClear, contains_endpoint hlaw projection.endpoint.valid]
  refine and_congr_right fun _ => forall₂_congr fun bearer _ => ?_
  rw [contains_token (bearer_tokens bearer)]

theorem jsonEntry_portable {property : Bytes × Value}
    (h : jsonEntry lib.parseUrl lib.blake3 dialect limits property = .ok entry)
    (hportable : entry.portability = .portable projection) :
    ∃ es, property.2 = .object es ∧ entry.exactEntry = property.2.text ∧
      PortableEntry dialect es projection := by
  unfold jsonEntry at h
  obtain ⟨-, h⟩ := refuseIf_bind_eq_ok.mp h
  rw [← Except.ok.inj h] at hportable ⊢
  simp only [observedEntry] at hportable
  cases hvalue : property.2 with
  | object es =>
    simp only [hvalue, asObject] at hportable
    exact ⟨es, rfl, by rw [← hvalue]; rfl, parseJsonEntry_eq_portable hportable⟩
  | scalar kind word =>
    simp only [hvalue, asObject] at hportable
    contradiction
  | string raw text =>
    simp only [hvalue, asObject] at hportable
    contradiction
  | array es =>
    simp only [hvalue, asObject] at hportable
    contradiction

theorem checked_servers {root servers : List Elem} (h : Checked (.object root))
    (hservers : serversObject dialect root = .ok (some servers)) : Checked (.object servers) := by
  have hinner : ∀ {object inner : List Elem} {name : Bytes}, Checked (.object object) →
      optionalObject object name = .ok (some inner) → Checked (.object inner) :=
    fun hobject hoptional =>
      (checked_object hobject).2 _ (get_mem (optionalObject_eq_some hoptional))
  cases dialect with
  | openCodeV2 =>
    obtain ⟨mcp, hmcp, hservers⟩ := Except.bind_eq_ok_iff.mp hservers
    cases mcp with
    | none => exact absurd (Except.ok.inj hservers) (by simp)
    | some mcp => exact hinner (hinner h hmcp) hservers
  | claudeCurrent => exact hinner h hservers
  | codexCurrent => exact hinner h hservers

theorem json_entryClear (hdialect : dialect ≠ .codexCurrent)
    (hparse : parseNativeMcpDocument lib input dialect limits = .ok observed)
    (hmem : entry ∈ observed.entries) (hportable : entry.portability = .portable projection)
    (hendpoint : containsCredentialShapedText projection.endpoint.text = false)
    (hbearer : ∀ bearer ∈ projection.bearerEnvironment,
      containsCredentialShapedText bearer.text = false) :
    containsCredentialShapedText entry.exactEntry = false ↔ jsonClear dialect entry.exactEntry := by
  have hjson := parseNativeMcpDocument_json hdialect hparse
  obtain ⟨doc, root, servers, hdoc, hroot, htree, hservers, hall⟩ := parseJsonEntries_eq_ok hjson
  obtain ⟨property, hproperty, hentry⟩ := Except.forall₂_of_mem_right hall hmem
  obtain ⟨es, hobject, hexact, hportableEntry⟩ := jsonEntry_portable hentry hportable
  cases servers with
  | none => exact absurd hproperty (by simp [properties])
  | some servers =>
    have hrootReads := (Jsonc.parse_reads hdoc).2.value
    rw [hroot] at hrootReads htree
    have hreads := serversObject_reads hrootReads hservers hproperty
    have hchecked : Checked (.object root) :=
      ⟨limits.maxDepth, limits.maxNodes, _, 1, htree, List.mem_singleton_self _⟩
    have hentryChecked := (checked_object (checked_servers hchecked hservers)).2 _ hproperty
    rw [hobject] at hreads hentryChecked
    rw [hexact, hobject]
    rw [entry_credentials hportableEntry (checked_object hentryChecked).1 hreads hendpoint hbearer]
    constructor
    · rintro hclear v r hvalue
      rw [hreads.parse] at hvalue
      obtain ⟨rfl, rfl⟩ := Prod.mk.inj (Option.some.inj hvalue)
      exact hclear
    · intro hclear
      exact hclear _ _ hreads.parse

theorem codex_entryClear
    (hparse : parseNativeMcpDocument lib input .codexCurrent limits = .ok observed)
    (hmem : entry ∈ observed.entries) (hportable : entry.portability = .portable projection) :
    containsCredentialShapedText entry.exactEntry = false ↔ codexClear lib input limits entry := by
  constructor
  · intro hfree root servers server _ _ _ _ token htoken _
    exact any_eq_false_iff.mp (contains_eq.symm.trans hfree) token htoken
  · intro hclear
    have hentries := parseNativeMcpDocument_entries hparse
    rw [parseEntries, parseCodexEntries] at hentries
    split at hentries
    · contradiction
    rename_i root hroot
    obtain ⟨nodes, -, hentries⟩ := Except.bind_eq_ok_iff.mp hentries
    split at hentries
    · rw [← Except.ok.inj hentries] at hmem
      contradiction
    rename_i servers hservers
    obtain ⟨-, hentries⟩ := refuseIf_bind_eq_ok.mp hentries
    obtain ⟨server, hserver, hentry⟩ :=
      Except.forall₂_of_mem_right (Except.mapM_eq_ok hentries) hmem
    have hprinted : containsCredentialShapedText server.2.display = false := by
      have hitem := hentry
      unfold codexEntry at hitem
      obtain ⟨-, hitem⟩ := refuseIf_bind_eq_ok.mp hitem
      rw [← Except.ok.inj hitem] at hportable
      simp only [observedEntry, parseCodexEntry] at hportable
      split at hportable
      · contradiction
      obtain ⟨hreasons, -, -⟩ := portabilityOf_eq_portable hportable
      simp only [Finset.union_eq_empty] at hreasons
      obtain ⟨⟨⟨-, hcredential⟩, -⟩, -⟩ := hreasons
      by_contra hcontains
      rw [Bool.not_eq_false] at hcontains
      rw [if_pos hcontains] at hcredential
      simp at hcredential
    rw [contains_eq, any_eq_false_iff] at hprinted ⊢
    intro token htoken
    by_cases hdisplay : token ∈ tokens server.2.display
    · exact hprinted token hdisplay
    · exact hclear root servers server hroot hservers hserver hentry token htoken hdisplay

theorem new_exactEntry (h : StoredNativeMcpEntry.new lib dialect documentHash entry = .ok stored) :
    stored.exactEntry = entry.exactEntry := by
  unfold StoredNativeMcpEntry.new at h
  obtain ⟨-, h⟩ := refuseIf_bind_eq_ok.mp h
  obtain ⟨verified, -, h⟩ := Except.bind_eq_ok_iff.mp h
  obtain ⟨-, h⟩ := refuseIf_bind_eq_ok.mp h
  rw [← Except.ok.inj h]
  rfl

/-- A portable entry in storage is free of credentials just when none is hidden in its comments,
its escaped strings, the proper parts of its endpoint or its bearer's name, and an endpoint just
when none is hidden in its proper parts. -/
theorem portableState_credentialFree_iff (hlaw : UrlLaw lib.parseUrl) :
    (∀ input dialect limits observed entry projection documentHash stored,
      parseNativeMcpDocument lib input dialect limits = .ok observed → entry ∈ observed.entries →
      entry.portability = .portable projection →
      StoredNativeMcpEntry.new lib dialect documentHash entry = .ok stored →
      (CredentialFree projection stored ↔
        entryClear lib input dialect limits entry ∧ projectionClear projection)) ∧
    (∀ value endpoint, McpHttpsEndpoint.parse lib.parseUrl value = .ok endpoint →
      (containsCredentialShapedText endpoint.text = false ↔
        ∀ part ∈ innerParts lib.parseUrl endpoint.text, isCredentialShaped part = false)) := by
  constructor
  · intro input dialect limits observed entry projection documentHash stored hparse hmem hportable
      hstored
    rw [CredentialFree, new_exactEntry hstored, projectionClear_iff hlaw]
    refine and_congr_left fun hprojection => ?_
    by_cases hdialect : dialect = .codexCurrent
    · subst hdialect
      exact codex_entryClear hparse hmem hportable
    · have hclear := json_entryClear hdialect hparse hmem hportable hprojection.1 hprojection.2
      cases dialect with
      | codexCurrent => contradiction
      | claudeCurrent => exact hclear
      | openCodeV2 => exact hclear
  · intro value endpoint _
    exact contains_endpoint hlaw endpoint.valid

end State

section Samples

theorem sampleLib_urlLaw : UrlLaw sampleLib.parseUrl := by
  refine ⟨fun value url domain h _ _ _ _ _ hhost => ?_⟩
  simp only [sampleLib] at h
  split at h
  · obtain rfl := Option.some.inj h
    obtain rfl := Host.domain.inj (Option.some.inj hhost)
    exact ⟨[], ascii "mcp", .inl rfl, by decide +kernel, by decide +kernel⟩
  · contradiction

def sampleProjection : McpNativeProjection sampleLib.parseUrl where
  name := ⟨ascii "docs", by decide +kernel⟩
  endpoint := ⟨sampleEndpoint, by decide +kernel⟩
  bearerEnvironment := none

def sampleEntry : ObservedMcpServer sampleLib.parseUrl :=
  observedEntry sampleLib.blake3 (ascii "docs") sampleServer .claudeCurrent
    (.portable sampleProjection)

theorem sampleEntry_clear (input : Bytes) :
    entryClear sampleLib input .claudeCurrent .default sampleEntry := by
  have hclear : (Jsonc.parseValue (jsonOptions .claudeCurrent) (entryDepth .claudeCurrent)
      (2 * sampleServer.length + 1) sampleServer).all (fun p => p.1.comments.isEmpty &&
        p.1.literals.all fun raw => !raw.contains Jsonc.backslash) = true := by decide +kernel
  intro v r h
  have hsame : sampleEntry.exactEntry = sampleServer := rfl
  rw [hsame] at h
  rw [h, Option.all_some, Bool.and_eq_true, List.isEmpty_iff, List.all_eq_true] at hclear
  refine ⟨by simp [hclear.1], fun raw hraw hescape => ?_⟩
  have hnone := hclear.2 raw hraw
  simp [hescape] at hnone

theorem portableState_credentialFree_iff_sample :
    CredentialFree sampleProjection (storedOf sampleServer) :=
  ((portableState_credentialFree_iff sampleLib_urlLaw).1
    (isolatedDocument .claudeCurrent (ascii "docs") sampleServer) .claudeCurrent .default
    ⟨.claudeCurrent, .ofDigest sampleDigest, [sampleEntry]⟩ sampleEntry sampleProjection
    (.ofDigest sampleDigest) (storedOf sampleServer) (by decide +kernel)
    (List.mem_singleton_self _) rfl (by decide +kernel)).mpr
    ⟨sampleEntry_clear _, by decide +kernel, by simp [sampleProjection]⟩

def hiddenEndpoint : Bytes := ascii "https://mcp.example.com/v1.AKIA1234567890123456"

def hiddenUrl (value : Bytes) : Option Url :=
  if value = hiddenEndpoint then
    some { sampleUrl with path := ascii "/v1.AKIA1234567890123456", asStr := hiddenEndpoint }
  else none

/-- An endpoint with an access key behind a full stop is accepted. -/
theorem endpoint_credential : ∃ value endpoint,
    McpHttpsEndpoint.parse hiddenUrl value = .ok endpoint ∧
      containsCredentialShapedText endpoint.text = true :=
  ⟨hiddenEndpoint, ⟨hiddenEndpoint, by decide +kernel⟩, by decide +kernel, by decide +kernel⟩

end Samples

end Kitrove.Mcp
