import Kitrove.Mcp.Credential

/-! The tokens that a text is searched for credentials by: how they fall apart where two texts
meet, and which tokens an accepted endpoint has. -/

namespace Kitrove.Mcp

variable {text a b value : Bytes} {s : UInt8}

def tokens (text : Bytes) : List Bytes := text.splitOnP fun b => !tokenByte b

section Splitting

variable {α : Type} {p q : α → Bool}

/-- Splitting at some separators first and then at all of them. -/
theorem splitOnP_refine (h : ∀ x, q x = true → p x = true) (l : List α) :
    l.splitOnP p = (l.splitOnP q).flatMap fun part => part.splitOnP p := by
  induction l with
  | nil => simp
  | cons x l ih =>
    obtain ⟨part, parts, hparts⟩ := List.exists_cons_of_ne_nil (List.splitOnP_ne_nil q l)
    obtain ⟨first, rest, hfirst⟩ := List.exists_cons_of_ne_nil (List.splitOnP_ne_nil p part)
    rw [List.splitOnP_cons_eq_if_modifyHead, List.splitOnP_cons_eq_if_modifyHead, ih, hparts]
    by_cases hq : q x = true
    · simp [hq, h x hq]
    · by_cases hp : p x = true <;>
        simp [hq, hp, List.splitOnP_cons_eq_if_modifyHead, hfirst]

end Splitting

section Contents

theorem any_eq_false_iff {α : Type} {l : List α} {f : α → Bool} :
    l.any f = false ↔ ∀ x ∈ l, f x = false := by
  simp

theorem head_separator (hs : tokenByte s = false) : ∀ t ∈ (s :: b).head?, tokenByte t = false := by
  intro t ht
  rwa [← Option.some.inj ht]

theorem trimToAlphanumeric_length (value : Bytes) :
    (trimToAlphanumeric value).length ≤ value.length := by
  unfold trimToAlphanumeric
  rw [List.length_reverse]
  refine Nat.le_trans (List.dropWhile_sublist _).length_le ?_
  rw [List.length_reverse]
  exact (List.dropWhile_sublist _).length_le

theorem isCredentialShaped_length (h : isCredentialShaped value = true) : 20 ≤ value.length := by
  have hminimums : ∀ p ∈ prefixedMinimums, 20 ≤ p.2 := by decide
  have htrim := trimToAlphanumeric_length value
  simp only [isCredentialShaped, Bool.or_eq_true, Bool.and_eq_true, List.any_eq_true,
    beq_iff_eq, decide_eq_true_eq] at h
  rcases h with ((⟨p, hp, -, hlength⟩ | ⟨⟨-, hlength⟩, -⟩) | ⟨-, hlength⟩) | ⟨-, hlength⟩
  · have hminimum := hminimums p hp
    omega
  all_goals omega

theorem contains_eq : containsCredentialShapedText text = (tokens text).any isCredentialShaped :=
  rfl

theorem contains_split (hs : tokenByte s = false) : containsCredentialShapedText (a ++ s :: b) =
    (containsCredentialShapedText a || containsCredentialShapedText b) := by
  simp only [contains_eq, tokens]
  rw [List.splitOnP_append_cons a b (by simp [hs]), List.any_append]

@[simp] theorem contains_nil : containsCredentialShapedText [] = false := by decide

theorem contains_cons (hs : tokenByte s = false) :
    containsCredentialShapedText (s :: b) = containsCredentialShapedText b := by
  have h := contains_split (a := []) (b := b) hs
  rwa [contains_nil, Bool.false_or] at h

theorem contains_separators (ha : ∀ s ∈ a, tokenByte s = false) :
    containsCredentialShapedText (a ++ b) = containsCredentialShapedText b := by
  induction a with
  | nil => rfl
  | cons s a ih =>
    obtain ⟨hs, ha⟩ := List.forall_mem_cons.mp ha
    rw [List.cons_append, contains_cons hs, ih ha]

/-- A text before something that is no part of its last token. -/
theorem contains_append (hb : ∀ s ∈ b.head?, tokenByte s = false) :
    containsCredentialShapedText (a ++ b) =
      (containsCredentialShapedText a || containsCredentialShapedText b) := by
  cases b with
  | nil => simp
  | cons s b =>
    have hs := hb s rfl
    rw [contains_split hs, contains_cons hs]

theorem contains_token (h : ∀ s ∈ text, tokenByte s = true) :
    containsCredentialShapedText text = isCredentialShaped text := by
  rw [contains_eq, tokens, List.splitOnP_eq_singleton (by simpa using h)]
  simp

theorem length_le_of_mem_splitOnP {α : Type} {p : α → Bool} {l part : List α}
    (h : part ∈ l.splitOnP p) : part.length ≤ l.length := by
  induction l generalizing part with
  | nil => simp_all
  | cons x l ih =>
    obtain ⟨first, rest, hfirst⟩ := List.exists_cons_of_ne_nil (List.splitOnP_ne_nil p l)
    rw [List.splitOnP_cons_eq_if_modifyHead, hfirst] at h
    rw [hfirst] at ih
    have hhead := ih List.mem_cons_self
    rw [List.length_cons]
    split at h
    · rcases List.mem_cons.mp h with rfl | h
      · exact Nat.zero_le _
      · exact Nat.le_succ_of_le (ih h)
    · rw [List.modifyHead_cons] at h
      rcases List.mem_cons.mp h with rfl | h
      · exact Nat.succ_le_succ hhead
      · exact Nat.le_succ_of_le (ih (List.mem_cons_of_mem _ h))

theorem contains_short (h : text.length < 20) : containsCredentialShapedText text = false := by
  rw [contains_eq, List.any_eq_false]
  intro token htoken hshaped
  have hle := length_le_of_mem_splitOnP htoken
  have hlength := isCredentialShaped_length hshaped
  omega

theorem contains_components (hs : tokenByte s = false) : containsCredentialShapedText text =
    (splitOn s text).any containsCredentialShapedText := by
  have hrefine : ∀ b, (b == s) = true → (!tokenByte b) = true := by
    intro b hb
    rw [beq_iff_eq.mp hb, hs]
    rfl
  rw [contains_eq, tokens, splitOnP_refine hrefine, ← splitOn_eq, List.any_flatMap]
  rfl

end Contents

section Endpoints

variable {parseUrl : Bytes → Option Url} {url : Url} {domain : Bytes}

/-- How the URL library writes a URL that it took apart, when nothing but a host, a port and a path
are in it. -/
structure UrlLaw (parseUrl : Bytes → Option Url) : Prop where
  asStr : ∀ value url domain, parseUrl value = some url → url.scheme = ascii "https" →
    url.username = [] → url.password = none → url.query = none → url.fragment = none →
    url.host = some (.domain domain) →
    ∃ port path, (port = [] ∨ ∃ digits, port = 0x3A :: digits ∧ digits.length ≤ 5) ∧
      url.path = 0x2F :: path ∧ url.asStr = ascii "https://" ++ (domain ++ (port ++ url.path))

/-- The parts of an endpoint's components that are not components themselves. -/
def innerParts (parseUrl : Bytes → Option Url) (value : Bytes) : List Bytes :=
  match parseUrl value with
  | none => []
  | some url =>
    match url.host with
    | some (.domain domain) =>
      (endpointComponents domain url.path).flatMap fun component =>
        (tokens component).filter fun part => part != component
    | _ => []

theorem validateEndpoint_eq_ok (h : validateEndpoint parseUrl value = .ok ()) :
    ∃ url domain, parseUrl value = some url ∧ url.host = some (.domain domain) ∧
      url.scheme = ascii "https" ∧ url.username = [] ∧ url.password = none ∧ url.query = none ∧
      url.fragment = none ∧ url.asStr = value ∧
      ∀ component ∈ endpointComponents domain url.path, isCredentialShaped component = false := by
  unfold validateEndpoint at h
  obtain ⟨-, h⟩ := refuseIf_bind_eq_ok.mp h
  cases hurl : parseUrl value with
  | none =>
    rw [hurl] at h
    contradiction
  | some url =>
    rw [hurl] at h
    simp only at h
    split at h
    · rename_i domain hhost
      obtain ⟨hrefused, h⟩ := refuseIf_bind_eq_ok.mp h
      have hcomponents := refuseIf_eq_ok.mp h
      simp only [Bool.or_eq_false_iff, bne_eq_false_iff_eq, Option.isSome_eq_false_iff,
        Option.isNone_iff_eq_none] at hrefused
      obtain ⟨⟨⟨⟨⟨⟨⟨⟨hscheme, husername⟩, hpassword⟩, hquery⟩, hfragment⟩, hasStr⟩, -⟩, -⟩, -⟩ :=
        hrefused
      exact ⟨url, domain, rfl, hhost, hscheme, husername, hpassword, hquery, hfragment, hasStr,
        any_eq_false_iff.mp hcomponents⟩
    · contradiction

theorem contains_component (h : isCredentialShaped value = false) :
    containsCredentialShapedText value = false ↔
      ∀ part ∈ (tokens value).filter (fun part => part != value), isCredentialShaped part = false := by
  rw [contains_eq, any_eq_false_iff]
  constructor
  · intro hall part hpart
    exact hall part (List.mem_of_mem_filter hpart)
  · intro hall part hpart
    by_cases heq : part = value
    · rw [heq, h]
    · exact hall part (List.mem_filter.mpr ⟨hpart, by simpa using heq⟩)

theorem contains_url (domain port path : Bytes)
    (hport : port = [] ∨ ∃ digits, port = 0x3A :: digits ∧ digits.length ≤ 5) :
    containsCredentialShapedText (ascii "https://" ++ (domain ++ (port ++ 0x2F :: path))) =
      (endpointComponents domain (0x2F :: path)).any containsCredentialShapedText := by
  have hstarts : ascii "https://" = ascii "https" ++ 0x3A :: [0x2F, 0x2F] := by decide
  have hhttps : containsCredentialShapedText (ascii "https") = false := by decide +kernel
  have hrest : containsCredentialShapedText (port ++ 0x2F :: path) =
      containsCredentialShapedText (0x2F :: path) := by
    rcases hport with rfl | ⟨digits, rfl, hlength⟩
    · rfl
    · rw [contains_append (head_separator (by decide)), contains_short (by simp only [List.length_cons]; omega),
        Bool.false_or]
  have hhead : ∀ s ∈ (port ++ 0x2F :: path).head?, tokenByte s = false := by
    rcases hport with rfl | ⟨digits, rfl, -⟩ <;> exact head_separator (by decide)
  rw [hstarts, List.append_assoc, List.cons_append, contains_split (by decide +kernel), hhttps,
    Bool.false_or, contains_separators (by decide +kernel), contains_append hhead, hrest,
    contains_components (s := 0x2E) (by decide +kernel),
    contains_components (s := 0x2F) (by decide +kernel),
    endpointComponents, List.any_append]
  congr 1
  rw [List.any_filter]
  refine List.any_congr rfl fun segment => ?_
  cases segment <;> simp

/-- An accepted endpoint holds a credential just when a proper part of a component is one. -/
theorem contains_endpoint (hlaw : UrlLaw parseUrl) (h : validateEndpoint parseUrl value = .ok ()) :
    containsCredentialShapedText value = false ↔
      ∀ part ∈ innerParts parseUrl value, isCredentialShaped part = false := by
  obtain ⟨url, domain, hurl, hhost, hscheme, husername, hpassword, hquery, hfragment, hasStr,
    hcomponents⟩ := validateEndpoint_eq_ok h
  obtain ⟨port, path, hport, hpath, htext⟩ := hlaw.asStr value url domain hurl hscheme husername
    hpassword hquery hfragment hhost
  have hcontains := contains_url domain port path hport
  rw [← hpath, ← htext, hasStr] at hcontains
  rw [hcontains, innerParts, hurl]
  simp only [hhost, List.mem_flatMap]
  rw [any_eq_false_iff]
  constructor
  · rintro hall part ⟨component, hmem, hpart⟩
    exact (contains_component (hcomponents component hmem)).mp (hall component hmem) part hpart
  · intro hall component hmem
    refine (contains_component (hcomponents component hmem)).mpr fun part hpart => ?_
    exact hall part ⟨component, hmem, hpart⟩

end Endpoints

end Kitrove.Mcp
