import Kitrove.Model.Destination

/-! Destinations as a root and the components below it: joining appends components, anchoring
drops them, and an ancestor has fewer of them. -/

namespace Kitrove

open Except Segments

abbrev slash : UInt8 := 0x2F

/-- Where the components of a destination start. -/
inductive Root where
  | unix
  | drive (letter : UInt8)
  deriving DecidableEq

namespace Root

/-- The root up to its slash. -/
def head : Root → Bytes
  | unix => []
  | drive letter => [letter, 0x3A]

def isWindows : Root → Bool
  | unix => false
  | drive _ => true

def text (root : Root) : Bytes := root.head ++ [slash]

structure Admits (root : Root) (component : Bytes) : Prop where
  nonempty : component ≠ []
  no_slash : slash ∉ component
  no_nul : 0 ∉ component
  no_dot : component ≠ ascii "."
  no_dots : component ≠ ascii ".."
  lossless : root.isWindows = true → isLosslessWindowsComponent component = true

/-- A drive letter is stored in upper case. -/
def Upper (root : Root) : Prop := ∀ letter, root = drive letter → 0x41 ≤ letter ∧ letter ≤ 0x5A

def render (root : Root) (components : List Bytes) : Bytes := root.text ++ join slash components

end Root

/-- A place below a root. -/
structure Location where
  root : Root
  components : List Bytes
  upper : root.Upper
  admitted : ∀ component ∈ components, root.Admits component

def Location.text (location : Location) : Bytes := location.root.render location.components

section Components

variable {root : Root} {segments : List Bytes} {component : Bytes}

theorem not_mem_of_lossless {b : UInt8} (hb : b ∈ ascii "<>:\"/\\|?*")
    (h : isLosslessWindowsComponent component = true) : b ∉ component := by
  intro hmem
  unfold isLosslessWindowsComponent at h
  split at h
  · contradiction
  · rename_i hnot
    refine hnot (Bool.or_eq_true_iff.mpr (.inr (List.any_eq_true.mpr ⟨b, hmem, ?_⟩)))
    exact List.contains_iff_mem.mpr hb

theorem mem_splitOn {b : UInt8} {text segment : Bytes} (h : segment ∈ splitOn slash text)
    (hb : b ∈ segment) : b ∈ text := by
  rw [splitOn_eq_splitOn] at h
  rw [← join_splitOn slash text]
  exact mem_join_of_mem h hb

end Components

namespace NormalizedDestination

section Parsing

variable {root : Root} {body value : Bytes} {d : NormalizedDestination}

theorem checkComponent_eq_ok {isWindows : Bool} {component : Bytes} {kept : Option Bytes} :
    checkComponent isWindows component = .ok kept ↔
      (component ≠ [] → component ≠ ascii "." ∧ component ≠ ascii ".." ∧
        (isWindows = true → isLosslessWindowsComponent component = true)) ∧
      kept = if component = [] then none else some component := by
  by_cases hempty : component = []
  · rw [hempty, if_pos rfl]
    change Except.ok none = Except.ok kept ↔ _
    rw [Except.ok.injEq, eq_comm]
    exact (and_iff_right fun h => absurd rfl h).symm
  · have hisEmpty : component.isEmpty = true ↔ False :=
      ⟨fun h => hempty (List.isEmpty_iff.mp h), False.elim⟩
    rw [checkComponent, if_neg hisEmpty.mp, if_neg hempty, refuseIf_bind_eq_ok,
      refuseIf_bind_eq_ok, pure_eq_ok_iff, decide_eq_false_iff_not, not_or]
    constructor
    · rintro ⟨hdots, hlossless, rfl⟩
      refine ⟨fun _ => ⟨hdots.1, hdots.2, fun hw => ?_⟩, rfl⟩
      rwa [hw, Bool.true_and, Bool.not_eq_false'] at hlossless
    · rintro ⟨hchecked, rfl⟩
      obtain ⟨hdot, hdots, hlossless⟩ := hchecked hempty
      refine ⟨⟨hdot, hdots⟩, ?_, rfl⟩
      cases isWindows with
      | false => rfl
      | true => rw [hlossless rfl]; rfl

/-- The components are checked one by one, and the empty ones are left out. -/
theorem mapM_checkComponent {isWindows : Bool} {components : List Bytes}
    {kept : List (Option Bytes)} :
    components.mapM (checkComponent isWindows) = .ok kept ↔
      (∀ component ∈ components, component ≠ [] → component ≠ ascii "." ∧ component ≠ ascii ".." ∧
        (isWindows = true → isLosslessWindowsComponent component = true)) ∧
      kept = components.map fun component => if component = [] then none else some component := by
  induction components generalizing kept with
  | nil =>
    rw [List.mapM_nil, pure_eq_ok_iff, List.map_nil, eq_comm]
    exact (and_iff_right fun _ h => absurd h List.not_mem_nil).symm
  | cons component components ih =>
    rw [List.mapM_cons, bind_eq_ok_iff, List.forall_mem_cons, List.map_cons]
    constructor
    · rintro ⟨first, hfirst, h⟩
      obtain ⟨rest, hrest, h⟩ := bind_eq_ok_iff.mp h
      obtain ⟨hchecked, rfl⟩ := checkComponent_eq_ok.mp hfirst
      obtain ⟨hall, rfl⟩ := ih.mp hrest
      exact ⟨⟨hchecked, hall⟩, (pure_eq_ok_iff.mp h).symm⟩
    · rintro ⟨⟨hchecked, hall⟩, rfl⟩
      exact ⟨_, checkComponent_eq_ok.mpr ⟨hchecked, rfl⟩,
        bind_eq_ok_iff.mpr ⟨_, ih.mpr ⟨hall, rfl⟩, pure_eq_ok_iff.mpr rfl⟩⟩

theorem filterMap_kept (components : List Bytes) :
    (components.map fun component => if component = [] then none else some component).filterMap id =
      components.filter (· ≠ []) := by
  rw [List.filterMap_map]
  induction components with
  | nil => rfl
  | cons component components ih =>
    by_cases h : component = []
    · simpa [h] using ih
    · simpa [h] using ih

/-- What a parsed text is made of. -/
structure Parses (root : Root) (body : Bytes) (d : NormalizedDestination) : Prop where
  no_nul : 0 ∉ body
  components : ∀ component ∈ splitOn slash body, component ≠ [] →
    component ≠ ascii "." ∧ component ≠ ascii ".." ∧
      (root.isWindows = true → isLosslessWindowsComponent component = true)
  text : d.text = root.render ((splitOn slash body).filter (· ≠ []))

theorem normalizeForm_text (hupper : root.Upper) (hback : root.isWindows = true → 0x5C ∉ body) :
    normalizeForm (root.text ++ body) = .ok (root.text ++ body, root.isWindows) := by
  cases root with
  | unix =>
    have hdrive : driveOf (Root.unix.text ++ body) = none := by
      cases body with
      | nil => rfl
      | cons b body =>
        unfold driveOf
        split
        · rename_i letter suffix heq
          cases heq
          exact if_neg (by decide)
        · rfl
    rw [normalizeForm, hdrive]
    exact if_pos rfl
  | drive letter =>
    have hletter := hupper letter rfl
    have hdrive : driveOf ((Root.drive letter).text ++ body) = some (letter, slash :: body) :=
      if_pos (.inl hletter)
    have hfixed : toAsciiUppercase letter = letter := by
      refine if_neg fun hlower => ?_
      have hle := UInt8.le_trans hlower.1 hletter.2
      exact absurd hle (by decide)
    have hkept : (letter :: 0x3A :: slash :: body).map (fun b => if b = 0x5C then 0x2F else b) =
        letter :: 0x3A :: slash :: body := by
      refine (List.map_congr_left fun b hb => if_neg ?_).trans (List.map_id _)
      rintro rfl
      simp only [List.mem_cons] at hb
      rcases hb with hb | hb | hb | hb
      · rw [← hb] at hletter
        exact absurd hletter.2 (by decide)
      · exact absurd hb (by decide)
      · exact absurd hb (by decide)
      · exact hback rfl hb
    rw [normalizeForm, hdrive]
    dsimp only
    rw [hfixed, if_pos (.inl rfl), hkept]
    rfl

theorem parseBody_eq_ok {normalized : Bytes} {isWindows : Bool} :
    (do
      let components ← (splitOn 0x2F (normalized.drop (rootLength isWindows))).mapM
        (checkComponent isWindows)
      pure (⟨normalized.take (rootLength isWindows) ++ join 0x2F (components.filterMap id)⟩ :
        NormalizedDestination)) = Except.ok d ↔
      (∀ component ∈ splitOn slash (normalized.drop (rootLength isWindows)), component ≠ [] →
        component ≠ ascii "." ∧ component ≠ ascii ".." ∧
          (isWindows = true → isLosslessWindowsComponent component = true)) ∧
      d.text = normalized.take (rootLength isWindows) ++
        join slash ((splitOn slash (normalized.drop (rootLength isWindows))).filter (· ≠ [])) := by
  rw [bind_eq_ok_iff]
  constructor
  · rintro ⟨kept, hkept, h⟩
    obtain ⟨hall, rfl⟩ := mapM_checkComponent.mp hkept
    rw [pure_eq_ok_iff, filterMap_kept] at h
    exact ⟨hall, by rw [← h]⟩
  · rintro ⟨hall, htext⟩
    refine ⟨_, mapM_checkComponent.mpr ⟨hall, rfl⟩, ?_⟩
    rw [pure_eq_ok_iff, filterMap_kept]
    cases d
    exact congrArg _ htext.symm

theorem rootLength_eq (root : Root) : rootLength root.isWindows = root.text.length := by
  cases root <;> rfl

/-- A text that starts with a root is parsed component by component. -/
theorem parse_eq_ok_iff (hupper : root.Upper) (hback : root.isWindows = true → 0x5C ∉ body)
    (hhead : root = .unix → body.head? ≠ some slash) :
    parse (root.text ++ body) = .ok d ↔ Parses root body d := by
  have hform : ((ascii "//").isPrefixOf (root.text ++ body) ||
      (ascii "\\\\").isPrefixOf (root.text ++ body)) = false := by
    cases root with
    | unix =>
      cases body with
      | nil => decide +kernel
      | cons b body =>
        have hb : b ≠ slash := fun hb => hhead rfl (congrArg some hb)
        have hslash : (0x2F == b) = false := beq_eq_false_iff_ne.mpr fun h => hb h.symm
        change ((0x2F == slash && (0x2F == b && List.isPrefixOf [] body)) ||
          (0x5C == slash && _)) = false
        rw [hslash]
        rfl
    | drive letter =>
      have hletter := hupper letter rfl
      have hne : ∀ c : UInt8, c < 0x41 ∨ 0x5A < c → (c == letter) = false := by
        intro c hc
        refine beq_eq_false_iff_ne.mpr ?_
        rintro rfl
        rcases hc with hc | hc
        · exact absurd hletter.1 (UInt8.not_le.mpr hc)
        · exact absurd hletter.2 (UInt8.not_le.mpr hc)
      change ((0x2F == letter && _) || (0x5C == letter && _)) = false
      rw [hne 0x2F (.inl (by decide)), hne 0x5C (.inr (by decide))]
      rfl
  have hroot : 0 ∉ root.text := by
    cases root with
    | unix => decide
    | drive letter =>
      intro hmem
      have hletter := hupper letter rfl
      rcases List.mem_cons.mp hmem with rfl | hmem
      · exact absurd hletter.1 (by decide)
      · exact absurd hmem (by decide)
  have hnul : ((root.text ++ body).isEmpty || (root.text ++ body).contains 0) = false ↔
      0 ∉ body := by
    have hempty : (root.text ++ body).isEmpty = false := by cases root <;> rfl
    rw [hempty, Bool.false_or, List.contains_eq_mem, decide_eq_false_iff_not, List.mem_append,
      not_or]
    exact and_iff_right hroot
  have hparts : (root.text ++ body).take (rootLength root.isWindows) = root.text ∧
      (root.text ++ body).drop (rootLength root.isWindows) = body := by
    rw [rootLength_eq]
    exact ⟨List.take_left, List.drop_left⟩
  rw [parse, refuseIf_bind_eq_ok, refuseIf_bind_eq_ok]
  constructor
  · rintro ⟨hno, -, h⟩
    obtain ⟨⟨normalized, isWindows⟩, hnormalized, h⟩ := bind_eq_ok_iff.mp h
    rw [normalizeForm_text hupper hback] at hnormalized
    cases hnormalized
    obtain ⟨hall, htext⟩ := parseBody_eq_ok.mp h
    rw [hparts.1, hparts.2] at htext
    rw [hparts.2] at hall
    exact ⟨hnul.mp hno, hall, htext⟩
  · rintro ⟨hno, hall, htext⟩
    refine ⟨hnul.mpr hno, hform, bind_eq_ok_iff.mpr ⟨_, normalizeForm_text hupper hback,
      parseBody_eq_ok.mpr ?_⟩⟩
    rw [hparts.1, hparts.2]
    exact ⟨hall, htext⟩

theorem toAsciiUppercase_upper {letter : UInt8}
    (h : 0x41 ≤ letter ∧ letter ≤ 0x5A ∨ 0x61 ≤ letter ∧ letter ≤ 0x7A) :
    0x41 ≤ toAsciiUppercase letter ∧ toAsciiUppercase letter ≤ 0x5A := by
  unfold toAsciiUppercase
  split
  · rename_i hlower
    have hsub := UInt8.toNat_sub_of_le letter 0x20
      (UInt8.le_trans (by decide : (0x20 : UInt8) ≤ 0x61) hlower.1)
    simp only [UInt8.le_iff_toNat_le, hsub] at hlower ⊢
    simp only [UInt8.toNat_ofNat] at hlower ⊢
    omega
  · rename_i hnot
    exact h.resolve_right hnot

/-- A parsed text has a root, and its body is parsed component by component. -/
theorem parses_of_parse (h : parse value = .ok d) :
    ∃ root body, root.Upper ∧ Parses root body d := by
  rw [parse, refuseIf_bind_eq_ok, refuseIf_bind_eq_ok] at h
  obtain ⟨hno, -, h⟩ := h
  have hnul : 0 ∉ value := by
    rw [Bool.or_eq_false_iff] at hno
    simpa using hno.2
  obtain ⟨⟨normalized, isWindows⟩, hnormalized, h⟩ := bind_eq_ok_iff.mp h
  obtain ⟨hall, htext⟩ := parseBody_eq_ok.mp h
  unfold normalizeForm at hnormalized
  split at hnormalized
  · rename_i letter suffix hdrive
    have hletter : (0x41 ≤ letter ∧ letter ≤ 0x5A ∨ 0x61 ≤ letter ∧ letter ≤ 0x7A) ∧
        value = letter :: 0x3A :: suffix := by
      unfold driveOf at hdrive
      split at hdrive
      · split at hdrive
        · rename_i hletter
          cases hdrive
          exact ⟨hletter, rfl⟩
        · contradiction
      · contradiction
    obtain ⟨hrange, rfl⟩ := hletter
    have hupper := toAsciiUppercase_upper hrange
    split at hnormalized
    · rename_i hsuffix
      cases hnormalized
      obtain ⟨c, rest, rfl, hc⟩ : ∃ c rest, suffix = c :: rest ∧ (c = 0x2F ∨ c = 0x5C) := by
        cases suffix with
        | nil => rcases hsuffix with h | h <;> cases h
        | cons c rest => exact ⟨c, rest, rfl, hsuffix.imp Option.some.inj Option.some.inj⟩
      have hkept : (if toAsciiUppercase letter = 0x5C then (0x2F : UInt8)
          else toAsciiUppercase letter) = toAsciiUppercase letter := by
        refine if_neg fun heq => ?_
        rw [heq] at hupper
        exact absurd hupper.2 (by decide)
      have hseparator : (if c = 0x5C then (0x2F : UInt8) else c) = slash := by
        rcases hc with rfl | rfl <;> rfl
      have hnormal : (toAsciiUppercase letter :: 0x3A :: c :: rest).map
          (fun b => if b = 0x5C then 0x2F else b) =
            (Root.drive (toAsciiUppercase letter)).text ++
              rest.map fun b => if b = 0x5C then 0x2F else b := by
        rw [List.map_cons, List.map_cons, List.map_cons, hkept, hseparator]
        rfl
      rw [hnormal] at hall htext
      refine ⟨.drive (toAsciiUppercase letter), rest.map fun b => if b = 0x5C then 0x2F else b,
        fun _ hdrive => by cases hdrive; exact hupper, fun hzero => ?_, hall, htext⟩
      obtain ⟨b, hb, hmapped⟩ := List.mem_map.mp hzero
      split at hmapped
      · exact absurd hmapped (by decide)
      · rw [hmapped] at hb
        exact hnul (by simp [hb])
    · contradiction
  · split at hnormalized
    · rename_i hhead
      cases hnormalized
      obtain ⟨rest, rfl⟩ : ∃ rest, value = slash :: rest := by
        cases value with
        | nil => cases hhead
        | cons b rest => exact ⟨rest, by rw [Option.some.inj hhead]⟩
      exact ⟨.unix, rest, (fun _ hdrive => nomatch hdrive),
        fun hzero => hnul (List.mem_cons_of_mem _ hzero), hall, htext⟩
    · contradiction

end Parsing

section Rendering

variable {root : Root} {components segments : List Bytes} {d : NormalizedDestination}

/-- A component that a root and a separator can stand before. -/
structure Plain (root : Root) (component : Bytes) : Prop where
  nonempty : component ≠ []
  no_slash : slash ∉ component
  no_backslash : root.isWindows = true → 0x5C ∉ component

theorem plain_of_admits {component : Bytes} (h : root.Admits component) : Plain root component :=
  ⟨h.nonempty, h.no_slash, fun hw => not_mem_of_lossless (by decide +kernel) (h.lossless hw)⟩

theorem splitOn_join_plain (hne : components ≠ []) (h : ∀ c ∈ components, Plain root c) :
    splitOn slash (join slash components) = components := by
  rw [splitOn_eq_splitOn]
  exact splitOn_join hne fun c hc => (h c hc).no_slash

theorem filter_nonempty (h : ∀ c ∈ components, Plain root c) :
    components.filter (· ≠ []) = components :=
  List.filter_eq_self.mpr fun c hc => decide_eq_true (h c hc).nonempty

theorem splitOn_join_filter (h : ∀ c ∈ components, Plain root c) :
    (splitOn slash (join slash components)).filter (· ≠ []) = components := by
  by_cases hne : components = []
  · rw [hne]
    rfl
  · rw [splitOn_join_plain hne h, filter_nonempty h]

theorem join_backslash (h : ∀ c ∈ components, Plain root c) (hw : root.isWindows = true) :
    0x5C ∉ join slash components := by
  intro hmem
  rcases mem_join hmem with heq | ⟨c, hc, hb⟩
  · exact absurd heq (by decide)
  · exact (h c hc).no_backslash hw hb

theorem head_join (h : ∀ c ∈ components, Plain root c) :
    (join slash components).head? ≠ some slash := by
  cases components with
  | nil => exact fun hnone => nomatch hnone
  | cons c rest =>
    have hc := h c List.mem_cons_self
    obtain ⟨b, tail, rfl⟩ := List.exists_cons_of_ne_nil hc.nonempty
    have hb : b ≠ slash := fun hb => hc.no_slash (by rw [hb]; exact List.mem_cons_self)
    intro hhead
    refine hb (Option.some.inj (Eq.trans ?_ hhead))
    by_cases hrest : rest = []
    · rw [hrest]
      simp [join]
    · rw [join_cons hrest]
      rfl

/-- The text of plain components is parsed when the root admits each of them, and is kept. -/
theorem parse_render_iff (hupper : root.Upper) (h : ∀ c ∈ components, Plain root c) :
    parse (root.render components) = .ok d ↔
      (∀ c ∈ components, root.Admits c) ∧ d.text = root.render components := by
  rw [Root.render, parse_eq_ok_iff hupper (join_backslash h) fun _ => head_join h]
  constructor
  · rintro ⟨hnul, hall, htext⟩
    rw [splitOn_join_filter h] at htext
    refine ⟨fun c hc => ?_, htext⟩
    have hne : components ≠ [] := List.ne_nil_of_mem hc
    rw [splitOn_join_plain hne h] at hall
    obtain ⟨hdot, hdots, hlossless⟩ := hall c hc (h c hc).nonempty
    exact ⟨(h c hc).nonempty, (h c hc).no_slash, fun hzero => hnul (mem_join_of_mem hc hzero),
      hdot, hdots, hlossless⟩
  · rintro ⟨hadmitted, htext⟩
    refine ⟨fun hzero => ?_, fun c hc hne => ?_, ?_⟩
    · rcases mem_join hzero with heq | ⟨c, hc, hb⟩
      · exact absurd heq (by decide)
      · exact (hadmitted c hc).no_nul hb
    · have hmem : c ∈ components := by
        rw [← splitOn_join_filter h]
        exact List.mem_filter.mpr ⟨hc, decide_eq_true hne⟩
      exact ⟨(hadmitted c hmem).no_dot, (hadmitted c hmem).no_dots, (hadmitted c hmem).lossless⟩
    · rw [splitOn_join_filter h]
      exact htext

/-- A trailing slash is left out. -/
theorem parse_render_slash (hupper : root.Upper) (hne : components ≠ [])
    (h : ∀ c ∈ components, root.Admits c) :
    parse (root.render components ++ [slash]) = .ok ⟨root.render components⟩ := by
  have hplain : ∀ c ∈ components, Plain root c := fun c hc => plain_of_admits (h c hc)
  have hsplit : splitOn slash (join slash components ++ [slash]) = components ++ [[]] := by
    rw [splitOn_eq_splitOn, List.splitOn_append_cons_self, ← splitOn_eq_splitOn,
      splitOn_join_plain hne hplain, List.splitOn_nil]
  have hhead : root = .unix → (join slash components ++ [slash]).head? ≠ some slash := by
    intro _ hslash
    refine head_join hplain ?_
    rw [List.head?_append] at hslash
    cases hjoin : join slash components with
    | nil =>
      have hcomponents := splitOn_join_plain hne hplain
      rw [hjoin] at hcomponents
      obtain ⟨c, hc⟩ := List.exists_mem_of_ne_nil _ hne
      rw [← hcomponents] at hc
      exact absurd (List.mem_singleton.mp hc) (h c (hcomponents ▸ hc)).nonempty
    | cons b rest =>
      rw [hjoin] at hslash
      exact hslash
  rw [Root.render, List.append_assoc, parse_eq_ok_iff hupper (fun hw hmem => ?_) hhead]
  · obtain ⟨hnul, hall, -⟩ := (parse_eq_ok_iff (d := ⟨root.render components⟩) hupper
      (join_backslash hplain) fun _ => head_join hplain).mp
        ((parse_render_iff hupper hplain).mpr ⟨h, rfl⟩)
    refine ⟨fun hzero => ?_, fun c hc hempty => ?_, ?_⟩
    · rcases List.mem_append.mp hzero with hzero | hzero
      · exact hnul hzero
      · exact absurd hzero (by decide)
    · rw [hsplit] at hc
      rcases List.mem_append.mp hc with hc | hc
      · rw [splitOn_join_plain hne hplain] at hall
        exact hall c hc hempty
      · exact absurd (List.mem_singleton.mp hc) hempty
    · rw [hsplit, List.filter_append, filter_nonempty hplain]
      exact congrArg root.render (List.append_nil components).symm
  · rcases List.mem_append.mp hmem with hmem | hmem
    · exact join_backslash hplain hw hmem
    · exact absurd hmem (by decide)

end Rendering

section Algebra

def rootWidth (d : NormalizedDestination) : Nat := if d.text.head? = some slash then 1 else 3

/-- The part of a canonical text that names its root. -/
def rootText (d : NormalizedDestination) : Bytes := d.text.take d.rootWidth

def components (d : NormalizedDestination) : List Bytes :=
  (splitOn slash (d.text.drop d.rootWidth)).filter (· ≠ [])

/-- A value of the type: every destination comes out of the parser. -/
def Parsed (d : NormalizedDestination) : Prop := ∃ value, parse value = .ok d

def segments (relative : PortablePath) : List Bytes := splitOn slash relative.bytes

variable {d e : NormalizedDestination} {l : Location} {relative : PortablePath}

theorem plain_location (l : Location) : ∀ c ∈ l.components, Plain l.root c :=
  fun c hc => plain_of_admits (l.admitted c hc)

theorem rootWidth_location (h : d.text = l.text) : d.rootWidth = l.root.text.length := by
  rw [rootWidth, h, Location.text, Root.render]
  cases hroot : l.root with
  | unix => exact if_pos rfl
  | drive letter =>
    refine if_neg fun hhead => ?_
    have hletter : letter = slash := Option.some.inj hhead
    have hupper := l.upper letter hroot
    rw [hletter] at hupper
    exact absurd hupper.1 (by decide)

theorem rootText_location (h : d.text = l.text) : d.rootText = l.root.text := by
  rw [rootText, rootWidth_location h, h]
  exact List.take_left

theorem components_location (h : d.text = l.text) : d.components = l.components := by
  rw [components, rootWidth_location h, h, Location.text, Root.render, List.drop_left]
  exact splitOn_join_filter (plain_location l)

theorem parsed_location (l : Location) : parse l.text = .ok ⟨l.text⟩ :=
  (parse_render_iff l.upper (plain_location l)).mpr ⟨l.admitted, rfl⟩

/-- The destinations are the texts of the locations. -/
theorem parsed_iff : d.Parsed ↔ ∃ l : Location, d.text = l.text := by
  constructor
  · rintro ⟨value, hvalue⟩
    obtain ⟨root, body, hupper, hparses⟩ := parses_of_parse hvalue
    refine ⟨⟨root, (splitOn slash body).filter (· ≠ []), hupper, fun c hc => ?_⟩, hparses.text⟩
    obtain ⟨hmem, hne⟩ := List.mem_filter.mp hc
    obtain ⟨hdot, hdots, hlossless⟩ := hparses.components c hmem (of_decide_eq_true hne)
    refine ⟨of_decide_eq_true hne, ?_, fun hzero => hparses.no_nul (mem_splitOn hmem hzero), hdot,
      hdots, hlossless⟩
    rw [splitOn_eq_splitOn] at hmem
    exact not_mem_of_mem_splitOn hmem
  · rintro ⟨l, hl⟩
    refine ⟨l.text, (parsed_location l).trans ?_⟩
    rw [← hl]

theorem plain_segments (root : Root) : ∀ c ∈ segments relative, Plain root c := by
  intro c hc
  have hvalid : validPath relative.bytes = true := relative.valid
  rw [validPath, Bool.not_eq_true', Bool.or_eq_false_iff, Bool.or_eq_false_iff,
    Bool.or_eq_false_iff] at hvalid
  obtain ⟨⟨⟨-, hback⟩, -⟩, hall⟩ := hvalid
  have hc' := List.any_eq_false.mp hall c hc
  simp only [Bool.or_eq_true, not_or, List.isEmpty_iff] at hc'
  refine ⟨hc'.1.1, ?_, fun _ hmem => ?_⟩
  · rw [segments, splitOn_eq_splitOn] at hc
    exact not_mem_of_mem_splitOn hc
  · rw [List.contains_eq_mem, decide_eq_false_iff_not] at hback
    exact hback (mem_splitOn hc hmem)

theorem segments_ne_nil : segments relative ≠ [] := by
  rw [segments, splitOn_eq_splitOn]
  exact List.splitOn_ne_nil slash _

theorem join_segments : join slash (segments relative) = relative.bytes := by
  rw [segments, splitOn_eq_splitOn]
  exact join_splitOn slash relative.bytes

theorem render_append {root : Root} {components rest : List Bytes} (hrest : rest ≠ []) :
    root.render (components ++ rest) =
      root.render components ++ (if components = [] then [] else [slash]) ++ join slash rest := by
  by_cases h : components = []
  · rw [h, if_pos rfl]
    simp [Root.render, join]
  · rw [if_neg h, Root.render, join_append h hrest, Root.render]
    simp

theorem getLast?_render {root : Root} {components : List Bytes} (hne : components ≠ [])
    (h : ∀ c ∈ components, Plain root c) : (root.render components).getLast? ≠ some slash := by
  obtain ⟨front, last, hlast⟩ := (List.eq_nil_or_concat components).resolve_left hne
  rw [List.concat_eq_append] at hlast
  have hplain := h last (by rw [hlast]; simp)
  rw [hlast, render_append (List.cons_ne_nil _ _), show join slash [last] = last by simp [join],
    List.getLast?_append_of_ne_nil _ hplain.nonempty]
  exact fun hslash => hplain.no_slash (List.mem_of_getLast? hslash)

/-- Joining appends the segments of the path, when the root admits each of them. -/
theorem joinPortable_iff (hd : d.text = l.text) : d.joinPortable relative = .ok e ↔
    (∀ c ∈ segments relative, l.root.Admits c) ∧
      e.text = l.root.render (l.components ++ segments relative) := by
  have htext : d.text ++ (if d.text.getLast? = some slash then [] else [slash]) ++
      relative.bytes = l.root.render (l.components ++ segments relative) := by
    rw [render_append segments_ne_nil, join_segments, hd]
    by_cases h : l.components = []
    · have hlast : l.text.getLast? = some slash := by
        rw [Location.text, h, Root.render, Root.text]
        simp [join]
      rw [if_pos h, if_pos hlast]
      rfl
    · have hlast : l.text.getLast? ≠ some slash := getLast?_render h (plain_location l)
      rw [if_neg h, if_neg hlast]
      rfl
  have hplain : ∀ c ∈ l.components ++ segments relative, Plain l.root c := by
    intro c hc
    rcases List.mem_append.mp hc with hc | hc
    · exact plain_location l c hc
    · exact plain_segments l.root c hc
  have hjoin : d.joinPortable relative =
      parse (l.root.render (l.components ++ segments relative)) := congrArg parse htext
  rw [hjoin, parse_render_iff l.upper hplain, List.forall_mem_append]
  exact and_congr_left fun _ => and_iff_right l.admitted

theorem stripSuffix_eq_some {pattern text front : Bytes} :
    stripSuffix pattern text = some front ↔ text = front ++ pattern := by
  constructor
  · intro h
    unfold stripSuffix at h
    split at h
    · rename_i hsuffix
      obtain ⟨other, rfl⟩ := List.isSuffixOf_iff_suffix.mp hsuffix
      rw [List.length_append, Nat.add_sub_cancel, List.take_left] at h
      rw [Option.some.inj h]
    · contradiction
  · rintro rfl
    exact stripSuffix_append

/-- What is before the path is parsed to the location above it. -/
theorem parse_front (l : Location) {front : Bytes}
    (h : front = l.text ++ if l.components = [] then [] else [slash]) :
    (if front = [0x2F] ∨ (ascii ":/").isSuffixOf front then parse front
      else
        match stripSuffix [0x2F] front with
        | none => throw componentBoundary
        | some anchor => parse anchor) = .ok ⟨l.text⟩ := by
  by_cases hcomponents : l.components = []
  · have hfront : front = l.text := by rw [h, if_pos hcomponents, List.append_nil]
    have hroot : l.text = l.root.text := by
      rw [Location.text, Root.render, hcomponents]
      exact List.append_nil _
    have hform : front = [0x2F] ∨ (ascii ":/").isSuffixOf front = true := by
      rw [hfront, hroot]
      cases l.root with
      | unix => exact .inl rfl
      | drive letter => exact .inr (List.isSuffixOf_iff_suffix.mpr ⟨[letter], rfl⟩)
    rw [if_pos hform, hfront]
    exact parsed_location l
  · rw [if_neg hcomponents] at h
    split
    · rw [h]
      exact parse_render_slash l.upper hcomponents l.admitted
    · rw [h, stripSuffix_append]
      exact parsed_location l

/-- A slash in the text of a location ends its root or one of its components. -/
theorem split_location {front body : Bytes} (h : l.text = front ++ slash :: body) :
    (front = l.root.head ∧ l.components = []) ∨
      ∃ above, l.components = above ++ splitOn slash body ∧
        front ++ [slash] = l.root.render above ++ if above = [] then [] else [slash] := by
  have hhead : slash ∉ l.root.head := by
    cases hroot : l.root with
    | unix => exact List.not_mem_nil
    | drive letter =>
      intro hmem
      have hupper := l.upper letter hroot
      rcases List.mem_cons.mp hmem with hslash | hmem
      · rw [← hslash] at hupper
        exact absurd hupper.1 (by decide)
      · exact absurd hmem (by decide)
  have hrender : ∀ above : List Bytes, join slash (l.root.head :: above) ++ [slash] =
      l.root.render above ++ if above = [] then [] else [slash] := by
    intro above
    by_cases habove : above = []
    · rw [habove, if_pos rfl]
      simp [join, Root.render, Root.text]
    · rw [if_neg habove, join_cons habove, Root.render, Root.text, List.append_assoc]
      simp
  obtain ⟨first, above, habove⟩ := List.exists_cons_of_ne_nil (List.splitOn_ne_nil slash front)
  by_cases hcomponents : l.components = []
  · have hjoin : join slash [l.root.head, []] = front ++ slash :: body := by
      rw [← h, Location.text, Root.render, Root.text, hcomponents]
      simp [join]
    have hsplit := split_of_join (List.cons_ne_nil _ _) (by simpa using hhead) hjoin
    rw [habove, List.cons_append, List.cons.injEq] at hsplit
    have hempty : above = [] := by
      have hlength := congrArg List.length hsplit.2
      have hbody := List.length_pos_of_ne_nil (List.splitOn_ne_nil slash body)
      rw [List.length_append, List.length_singleton] at hlength
      exact List.eq_nil_of_length_eq_zero (by omega)
    refine .inl ⟨?_, hcomponents⟩
    rw [← join_splitOn slash front, habove, hempty, ← hsplit.1]
    simp [join]
  · have hjoin : join slash (l.root.head :: l.components) = front ++ slash :: body := by
      rw [join_cons hcomponents, ← h, Location.text, Root.render, Root.text, List.append_assoc]
      rfl
    have hslashes : ∀ c ∈ l.root.head :: l.components, slash ∉ c := by
      intro c hc
      rcases List.mem_cons.mp hc with rfl | hc
      · exact hhead
      · exact (l.admitted c hc).no_slash
    have hsplit := split_of_join (List.cons_ne_nil _ _) hslashes hjoin
    rw [habove, List.cons_append, List.cons.injEq] at hsplit
    refine .inr ⟨above, ?_, ?_⟩
    · rw [hsplit.2, splitOn_eq_splitOn]
    · rw [← hrender, hsplit.1, ← habove, join_splitOn]

theorem front_of_split {front : Bytes} (h : l.text = front ++ slash :: relative.bytes) :
    ∃ above, l.components = above ++ segments relative ∧
      front ++ [slash] = l.root.render above ++ if above = [] then [] else [slash] := by
  refine (split_location h).resolve_left ?_
  rintro ⟨rfl, hcomponents⟩
  rw [Location.text, hcomponents] at h
  have hempty : relative.bytes = [] := by
    have hlength := congrArg List.length h
    simp only [Root.render, Root.text, join, List.intercalate_nil, List.append_nil,
      List.length_append, List.length_cons, List.length_nil] at hlength
    exact List.eq_nil_of_length_eq_zero (by omega)
  have hmem : ([] : Bytes) ∈ segments relative := by
    rw [segments, hempty]
    exact List.mem_singleton.mpr rfl
  exact (plain_segments l.root [] hmem).nonempty rfl

/-- Anchoring drops the segments of the path from the end. -/
theorem anchorFor_iff (hd : d.text = l.text) : d.anchorFor relative = .ok e ↔
    ∃ above, l.components = above ++ segments relative ∧ e.text = l.root.render above := by
  have hlocation : ∀ above, l.components = above ++ segments relative → ∃ l' : Location,
      l'.root = l.root ∧ l'.components = above := by
    intro above habove
    exact ⟨⟨l.root, above, l.upper, fun c hc => l.admitted c (habove ▸ List.mem_append_left _ hc)⟩,
      rfl, rfl⟩
  unfold anchorFor
  constructor
  · intro h
    split at h
    · contradiction
    · rename_i front hfront
      obtain ⟨hslash, h⟩ := refuseIf_bind_eq_ok.mp h
      rw [decide_eq_false_iff_not, ne_eq, not_not] at hslash
      obtain ⟨front', rfl⟩ : ∃ front', front = front' ++ [slash] := by
        have hdrop := List.dropLast_append_getLast? slash hslash
        exact ⟨front.dropLast, hdrop.symm⟩
      rw [stripSuffix_eq_some, hd, List.append_assoc] at hfront
      obtain ⟨above, habove, hrender⟩ := front_of_split hfront
      obtain ⟨l', hroot, hcomponents⟩ := hlocation above habove
      have hlast : front' ++ [slash] =
          l'.text ++ if l'.components = [] then [] else [slash] := by
        rw [hrender, Location.text, hroot, hcomponents]
      have he := (parse_front l' hlast).symm.trans h
      cases he
      exact ⟨above, habove, by rw [Location.text, hroot, hcomponents]⟩
  · rintro ⟨above, habove, he⟩
    obtain ⟨l', hroot, hcomponents⟩ := hlocation above habove
    have hfront : stripSuffix relative.bytes d.text =
        some (l'.text ++ if l'.components = [] then [] else [slash]) := by
      rw [stripSuffix_eq_some, hd, Location.text, habove, render_append segments_ne_nil,
        join_segments, Location.text, hroot, hcomponents]
    have hslash : (l'.text ++ if l'.components = [] then [] else [slash]).getLast? =
        some slash := by
      split
      · rename_i hempty
        rw [Location.text, Root.render, hempty, Root.text]
        simp [join]
      · simp
    rw [hfront]
    dsimp only
    rw [refuseIf_bind_eq_ok, decide_eq_false_iff_not, ne_eq, not_not]
    refine ⟨hslash, (parse_front l' rfl).trans ?_⟩
    cases e
    rw [Location.text, hroot, hcomponents]
    exact congrArg (Except.ok ∘ NormalizedDestination.mk) he.symm

theorem length_render {root : Root} {components : List Bytes} (hne : components ≠ [])
    (h : ∀ c ∈ components, Plain root c) : root.text.length < (root.render components).length := by
  have hjoin : join slash components ≠ [] := by
    intro hempty
    obtain ⟨c, hc⟩ := List.exists_mem_of_ne_nil _ hne
    obtain ⟨b, hb⟩ := List.exists_mem_of_ne_nil _ (h c hc).nonempty
    have hmem : b ∈ join slash components := mem_join_of_mem hc hb
    rw [hempty] at hmem
    exact absurd hmem List.not_mem_nil
  have hpos := List.length_pos_of_ne_nil hjoin
  rw [Root.render, List.length_append]
  omega

/-- The strict ancestors of a location are the locations with fewer of its components. -/
theorem mem_strictAncestorStrings {x : Bytes} (hd : d.text = l.text) :
    x ∈ d.strictAncestorStrings ↔ ∃ above rest, rest ≠ [] ∧ l.components = above ++ rest ∧
      x = l.root.render above := by
  have hwidth : (if d.text.head? = some 0x2F then 1 else 3) = l.root.text.length :=
    rootWidth_location hd
  rw [strictAncestorStrings, hwidth, hd, List.mem_append]
  constructor
  · rintro (hx | hx)
    · split at hx
      · rename_i hlength
        refine ⟨[], l.components, fun hempty => ?_, rfl, ?_⟩
        · rw [Location.text, hempty, Root.render] at hlength
          simp [join] at hlength
        · rw [List.mem_singleton.mp hx, Location.text, Root.render, List.take_left]
          exact (List.append_nil _).symm
      · exact absurd hx List.not_mem_nil
    · obtain ⟨i, hi, rfl⟩ := List.mem_map.mp hx
      obtain ⟨hrange, hslash⟩ := List.mem_filter.mp hi
      obtain ⟨hget, hroot⟩ := of_decide_eq_true hslash
      rw [List.mem_range] at hrange
      have htext : l.text = l.text.take i ++ slash :: l.text.drop (i + 1) := by
        have hsplit := (List.take_append_drop i l.text).symm
        rw [List.getElem?_eq_getElem hrange, Option.some.injEq] at hget
        rw [List.drop_eq_getElem_cons hrange, hget] at hsplit
        exact hsplit
      have hfront : (l.text.take i).length = i := List.length_take_of_le (by omega)
      have hheadLength : l.root.text.length = l.root.head.length + 1 := by
        rw [Root.text, List.length_append, List.length_singleton]
      rcases split_location htext with ⟨hhead, -⟩ | ⟨above, habove, hrender⟩
      · rw [hhead] at hfront
        omega
      · by_cases hempty : above = []
        · have hlength := congrArg List.length hrender
          rw [hempty, if_pos rfl, List.append_nil, List.length_append, hfront, Root.render] at hlength
          simp [join] at hlength
          omega
        · rw [if_neg hempty] at hrender
          refine ⟨above, _, ?_, habove, List.append_cancel_right hrender⟩
          rw [splitOn_eq_splitOn]
          exact List.splitOn_ne_nil slash _
  · rintro ⟨above, rest, hrest, hcomponents, rfl⟩
    have hplain : ∀ c ∈ above ++ rest, Plain l.root c := hcomponents ▸ plain_location l
    by_cases hempty : above = []
    · left
      have hne : l.components ≠ [] := by
        rw [hcomponents, hempty]
        exact hrest
      have hlength : l.text.length > l.root.text.length := length_render hne (plain_location l)
      rw [if_pos hlength, List.mem_singleton, hempty, Location.text, Root.render, Root.render,
        List.take_left]
      exact List.append_nil _
    · right
      have htext : l.text = l.root.render above ++ slash :: join slash rest := by
        rw [Location.text, hcomponents, render_append hrest, if_neg hempty, List.append_assoc]
        rfl
      have hlength := length_render hempty fun c hc => hplain c (List.mem_append_left _ hc)
      refine List.mem_map.mpr ⟨(l.root.render above).length, List.mem_filter.mpr
        ⟨List.mem_range.mpr ?_, decide_eq_true ⟨?_, hlength⟩⟩, ?_⟩
      · rw [htext, List.length_append, List.length_cons]
        omega
      · rw [htext, List.getElem?_append_right (Nat.le_refl _), Nat.sub_self]
        rfl
      · rw [htext]
        exact List.take_left

end Algebra

section Consistency

variable {a b c d e : NormalizedDestination} {l : Location} {relative : PortablePath}

theorem eq_of_text (h : d.text = e.text) : d = e := by
  cases d
  exact congrArg _ h

theorem Parsed.again (h : d.Parsed) : parse d.text = .ok d := by
  obtain ⟨l, hl⟩ := parsed_iff.mp h
  rw [hl, parsed_location l]
  exact congrArg _ (eq_of_text hl.symm)

theorem Parsed.anchor_of_join (h : d.Parsed) (hjoin : d.joinPortable relative = .ok e) :
    e.anchorFor relative = .ok d := by
  obtain ⟨l, hl⟩ := parsed_iff.mp h
  obtain ⟨hadmitted, htext⟩ := (joinPortable_iff hl).mp hjoin
  have hall : ∀ c ∈ l.components ++ segments relative, l.root.Admits c := by
    intro c hc
    rcases List.mem_append.mp hc with hc | hc
    · exact l.admitted c hc
    · exact hadmitted c hc
  exact (anchorFor_iff (l := ⟨l.root, _, l.upper, hall⟩) htext).mpr ⟨l.components, rfl, hl⟩

theorem Parsed.join_of_anchor (h : d.Parsed) (hanchor : d.anchorFor relative = .ok a) :
    a.joinPortable relative = .ok d := by
  obtain ⟨l, hl⟩ := parsed_iff.mp h
  obtain ⟨above, habove, htext⟩ := (anchorFor_iff hl).mp hanchor
  have hall : ∀ c ∈ above ++ segments relative, l.root.Admits c := habove ▸ l.admitted
  have hsplit := List.forall_mem_append.mp hall
  refine (joinPortable_iff (l := ⟨l.root, above, l.upper, hsplit.1⟩) htext).mpr ⟨hsplit.2, ?_⟩
  rw [hl, Location.text, habove]

theorem text_injective {r r' : Root} (h : r.text = r'.text) : r = r' := by
  cases r with
  | unix =>
    cases r' with
    | unix => rfl
    | drive letter => simp [Root.text, Root.head] at h
  | drive letter =>
    cases r' with
    | unix => simp [Root.text, Root.head] at h
    | drive letter' => exact congrArg _ (List.head_eq_of_cons_eq h)

/-- An ancestor has the same root and fewer of the components. -/
theorem Parsed.isAncestorOf_iff (ha : a.Parsed) (hb : b.Parsed) :
    a.isAncestorOf b = true ↔
      a.rootText = b.rootText ∧ ∃ rest, rest ≠ [] ∧ b.components = a.components ++ rest := by
  obtain ⟨la, hla⟩ := parsed_iff.mp ha
  obtain ⟨lb, hlb⟩ := parsed_iff.mp hb
  have hmem : a.isAncestorOf b = true ↔ a.text ∈ b.strictAncestorStrings := by
    simp [isAncestorOf, List.any_eq_true]
  rw [hmem, mem_strictAncestorStrings hlb, rootText_location hla, rootText_location hlb,
    components_location hla, components_location hlb]
  constructor
  · rintro ⟨above, rest, hrest, hcomponents, htext⟩
    have hall : ∀ c ∈ above ++ rest, lb.root.Admits c := hcomponents ▸ lb.admitted
    let l : Location := ⟨lb.root, above, lb.upper, (List.forall_mem_append.mp hall).1⟩
    have hroots : la.root.text = l.root.text :=
      (rootText_location hla).symm.trans (rootText_location htext)
    have habove : la.components = l.components :=
      (components_location hla).symm.trans (components_location htext)
    exact ⟨hroots, rest, hrest, by rw [habove, hcomponents]⟩
  · rintro ⟨hroots, rest, hrest, hcomponents⟩
    refine ⟨la.components, rest, hrest, hcomponents, ?_⟩
    rw [hla, Location.text, text_injective hroots]

theorem Parsed.not_isAncestorOf_self (ha : a.Parsed) : a.isAncestorOf a = false := by
  rw [Bool.eq_false_iff]
  intro h
  obtain ⟨-, rest, hrest, hcomponents⟩ := (ha.isAncestorOf_iff ha).mp h
  exact hrest (List.self_eq_append_right.mp hcomponents)

theorem Parsed.isAncestorOf_trans (ha : a.Parsed) (hb : b.Parsed) (hc : c.Parsed)
    (hab : a.isAncestorOf b = true) (hbc : b.isAncestorOf c = true) : a.isAncestorOf c = true := by
  rw [ha.isAncestorOf_iff hb] at hab
  rw [hb.isAncestorOf_iff hc] at hbc
  obtain ⟨hroots, rest, hrest, hcomponents⟩ := hab
  obtain ⟨hroots', rest', -, hcomponents'⟩ := hbc
  refine (ha.isAncestorOf_iff hc).mpr ⟨hroots.trans hroots', rest ++ rest', ?_, ?_⟩
  · exact List.append_ne_nil_of_left_ne_nil hrest rest'
  · rw [hcomponents', hcomponents, List.append_assoc]

theorem Parsed.joined (h : d.Parsed) (hjoin : d.joinPortable relative = .ok e) :
    e.Parsed ∧ d.rootText = e.rootText ∧ e.components = d.components ++ segments relative := by
  obtain ⟨l, hl⟩ := parsed_iff.mp h
  obtain ⟨hadmitted, htext⟩ := (joinPortable_iff hl).mp hjoin
  have hall := List.forall_mem_append.mpr ⟨l.admitted, hadmitted⟩
  have he : e.text = Location.text ⟨l.root, _, l.upper, hall⟩ := htext
  refine ⟨parsed_iff.mpr ⟨_, he⟩, ?_, ?_⟩
  · rw [rootText_location hl, rootText_location he]
  · rw [components_location hl, components_location he]

theorem Parsed.join_of_components (hd : d.Parsed) (he : e.Parsed) (hroots : d.rootText = e.rootText)
    (hcomponents : e.components = d.components ++ segments relative) :
    d.joinPortable relative = .ok e := by
  obtain ⟨ld, hld⟩ := parsed_iff.mp hd
  obtain ⟨le, hle⟩ := parsed_iff.mp he
  rw [rootText_location hld, rootText_location hle] at hroots
  rw [components_location hld, components_location hle] at hcomponents
  have hroot := text_injective hroots
  have hall : ∀ c ∈ ld.components ++ segments relative, ld.root.Admits c := by
    rw [← hcomponents, hroot]
    exact le.admitted
  refine (joinPortable_iff hld).mpr ⟨(List.forall_mem_append.mp hall).2, ?_⟩
  rw [hle, Location.text, hcomponents, hroot]

/-- Parsing is idempotent, joining and anchoring undo each other, and the strict ancestors of a
destination are those that it extends. -/
theorem paths_consistent :
    (∀ value d, parse value = .ok d → parse d.text = .ok d) ∧
    (∀ (d e : NormalizedDestination) relative, d.Parsed → d.joinPortable relative = .ok e →
      e.anchorFor relative = .ok d) ∧
    (∀ (d a : NormalizedDestination) relative, d.Parsed → d.anchorFor relative = .ok a →
      a.joinPortable relative = .ok d) ∧
    (∀ a b : NormalizedDestination, a.Parsed → b.Parsed → (a.isAncestorOf b = true ↔
      a.rootText = b.rootText ∧ ∃ rest, rest ≠ [] ∧ b.components = a.components ++ rest)) ∧
    (∀ a : NormalizedDestination, a.Parsed → a.isAncestorOf a = false) ∧
    (∀ a b c : NormalizedDestination, a.Parsed → b.Parsed → c.Parsed →
      a.isAncestorOf b = true → b.isAncestorOf c = true → a.isAncestorOf c = true) ∧
    (∀ (d e : NormalizedDestination) relative, d.Parsed → d.joinPortable relative = .ok e →
      d.isAncestorOf e = true ∧ e.components = d.components ++ segments relative) ∧
    ∀ (d e : NormalizedDestination) relative, d.Parsed → e.Parsed → d.isAncestorOf e = true →
      e.components = d.components ++ segments relative → d.joinPortable relative = .ok e := by
  refine ⟨fun value d h => Parsed.again ⟨value, h⟩, fun _ _ _ => Parsed.anchor_of_join,
    fun _ _ _ => Parsed.join_of_anchor, fun _ _ => Parsed.isAncestorOf_iff,
    fun _ => Parsed.not_isAncestorOf_self, fun _ _ _ => Parsed.isAncestorOf_trans,
    fun d e relative hd hjoin => ?_, fun d e relative hd he hancestor hcomponents => ?_⟩
  · obtain ⟨he, hroots, hcomponents⟩ := hd.joined hjoin
    exact ⟨(hd.isAncestorOf_iff he).mpr ⟨hroots, _, segments_ne_nil, hcomponents⟩, hcomponents⟩
  · exact hd.join_of_components he ((hd.isAncestorOf_iff he).mp hancestor).1 hcomponents

def sampleRelative : PortablePath := ⟨ascii "skills/example", by decide +kernel, by decide +kernel⟩

/-- A drive in lower case, with backslashes and a trailing separator. -/
theorem paths_consistent_sample :
    parse (ascii "D:/harness") = .ok ⟨ascii "D:/harness"⟩ ∧
    anchorFor ⟨ascii "D:/harness/skills/example"⟩ sampleRelative = .ok ⟨ascii "D:/harness"⟩ ∧
    isAncestorOf ⟨ascii "D:/harness"⟩ ⟨ascii "D:/harness/skills/example"⟩ = true := by
  have hparsed : parse (ascii "d:\\harness\\") = .ok ⟨ascii "D:/harness"⟩ := by decide +kernel
  have hjoin : joinPortable ⟨ascii "D:/harness"⟩ sampleRelative =
      .ok ⟨ascii "D:/harness/skills/example"⟩ := by decide +kernel
  obtain ⟨hagain, hanchor, -, -, -, -, hancestor, -⟩ := paths_consistent
  exact ⟨hagain _ _ hparsed, hanchor _ _ _ ⟨_, hparsed⟩ hjoin, (hancestor _ _ _ ⟨_, hparsed⟩ hjoin).1⟩

end Consistency

end NormalizedDestination

end Kitrove
