import Kitrove.Ssh.Verification
import Kitrove.Support.Segments

/-! What the lines of a `known_hosts` file say of a host, and what an accepted key owes to them. -/

namespace Kitrove.Ssh

variable {Key Algorithm : Type} {lib : SshLibrary Key Algorithm}
  {target host hosts pattern bytes : Bytes} {port : Nat} {serverKey : Key} {line : HostLine}

section Patterns

/-- A star stands for any text, a question mark for one character. -/
inductive Glob : Bytes → Bytes → Prop
  | nil : Glob [] []
  | star {p rest : Bytes} (text : Bytes) (h : Glob p rest) : Glob (0x2A :: p) (text ++ rest)
  | any {p rest : Bytes} (b : UInt8) (h : Glob p rest) : Glob (0x3F :: p) (b :: rest)
  | byte {p rest : Bytes} {b : UInt8} (hstar : b ≠ 0x2A) (hany : b ≠ 0x3F) (h : Glob p rest) :
      Glob (b :: p) (b :: rest)

variable (lib target)

/-- A salted hash of the target. -/
def HashOf (pattern : Bytes) : Prop :=
  ∃ salt expected key, splitOn 0x7C pattern = [[], ascii "1", salt, expected] ∧
    lib.decodeBase64 salt = some key ∧ lib.decodeBase64 expected = some (lib.hmacSha1 key target)

/-- The target's own name or a hash of it. A pattern that starts like a hash is nothing else. -/
def NamedBy (pattern : Bytes) : Prop :=
  (¬ hashedPrefix <+: pattern ∧ pattern = target) ∨ HashOf lib target pattern

def MatchedBy (pattern : Bytes) : Prop :=
  NamedBy lib target pattern ∨ (¬ hashedPrefix <+: pattern ∧ Glob pattern target)

/-- A host list with the target's name or a hash of it. -/
def Names (hosts : Bytes) : Prop :=
  ∃ pattern ∈ splitOn 0x2C hosts, pattern.head? ≠ some 0x21 ∧ NamedBy lib target pattern

/-- A host list with an exception for the target. -/
def Negated (hosts : Bytes) : Prop :=
  ∃ pattern, 0x21 :: pattern ∈ splitOn 0x2C hosts ∧ MatchedBy lib target pattern

def Covers (hosts : Bytes) : Prop :=
  (∃ pattern ∈ splitOn 0x2C hosts, pattern.head? ≠ some 0x21 ∧ MatchedBy lib target pattern) ∧
    ¬ Negated lib target hosts

variable {lib target}

theorem hashOf_opens (h : HashOf lib target pattern) : hashedPrefix <+: pattern := by
  obtain ⟨salt, expected, key, hsplit, -⟩ := h
  have hjoin := Segments.join_splitOn 0x7C pattern
  rw [← splitOn_eq_splitOn, hsplit, Segments.join_cons (by simp), Segments.join_cons (by simp),
    Segments.join_cons (by simp)] at hjoin
  exact ⟨_, hjoin⟩

theorem decodedHashMatches_eq_ok {salt expected : Bytes} {named : Bool}
    (h : decodedHashMatches lib target salt expected = .ok named) :
    named = (lib.hmacSha1 salt target == expected) := by
  unfold decodedHashMatches at h
  split at h
  · exact (nomatch h)
  · exact (Except.ok.inj h).symm

theorem hashedHostMatches_eq_ok {named : Bool} (h : hashedHostMatches lib pattern target = .ok named) :
    named = true ↔ HashOf lib target pattern := by
  unfold hashedHostMatches at h
  split at h
  · rename_i empty version salt expected hsplit
    split at h
    · exact (nomatch h)
    · rename_i hshape
      rw [Bool.or_eq_true, Bool.or_eq_true, Bool.or_eq_true, not_or, not_or, not_or, bne_iff_ne,
        bne_iff_ne, not_not, not_not] at hshape
      obtain ⟨⟨⟨rfl, rfl⟩, -⟩, -⟩ := hshape
      split at h
      · rename_i key digest hkey hdigest
        rw [decodedHashMatches_eq_ok h, beq_iff_eq]
        constructor
        · intro hmac
          exact ⟨salt, expected, key, hsplit, hkey, by rw [hdigest, hmac]⟩
        · rintro ⟨salt', expected', key', hsplit', hkey', hdigest'⟩
          rw [hsplit] at hsplit'
          cases hsplit'
          rw [hkey] at hkey'
          rw [hdigest] at hdigest'
          cases hkey'
          exact (Option.some.inj hdigest').symm
      · exact (nomatch h)
  · exact (nomatch h)

/-- Where a pattern is supported, it matches exactly when it names the target. -/
theorem patternMatches_eq_ok {named : Bool} (h : patternMatches lib target pattern = .ok named) :
    (named = true ↔ NamedBy lib target pattern) ∧ (named = true → pattern.head? ≠ some 0x21) := by
  unfold patternMatches at h
  by_cases hhash : hashedPrefix <+: pattern
  · rw [if_pos (List.isPrefixOf_iff_prefix.mpr hhash)] at h
    refine ⟨?_, fun _ hhead => ?_⟩
    · rw [hashedHostMatches_eq_ok h]
      exact ⟨.inr, fun hnamed => hnamed.resolve_left fun hplain => hplain.1 hhash⟩
    · obtain ⟨rest, rfl⟩ := hhash
      exact absurd (Option.some.inj hhead) (by decide)
  · have hnone : ¬ HashOf lib target pattern := fun hof => hhash (hashOf_opens hof)
    rw [if_neg fun hopens => hhash (List.isPrefixOf_iff_prefix.mp hopens)] at h
    by_cases hmeta : hasMetacharacter pattern = true
    · rw [if_pos hmeta] at h
      split at h
      · exact (nomatch h)
      · rename_i hother
        cases h
        refine ⟨iff_of_false nofun ?_, nofun⟩
        rintro (hplain | hof)
        · exact hother hplain.2
        · exact hnone hof
    · rw [if_neg hmeta] at h
      cases h
      refine ⟨?_, fun _ hhead => hmeta ?_⟩
      · rw [beq_iff_eq]
        exact ⟨fun hsame => .inl ⟨hhash, hsame⟩, fun hnamed => (hnamed.resolve_right hnone).2⟩
      · cases pattern with
        | nil => exact (nomatch hhead)
        | cons b pattern =>
          cases hhead
          rfl

theorem foldlM_hostListStep {patterns : List Bytes} {state final : Nat × Bool}
    (h : patterns.foldlM (hostListStep lib target) state = .ok final) :
    final.2 = true ↔
      state.2 = true ∨ ∃ pattern ∈ patterns, pattern.head? ≠ some 0x21 ∧ NamedBy lib target pattern := by
  induction patterns generalizing state with
  | nil =>
    cases h
    simp
  | cons pattern patterns ih =>
    rw [List.foldlM_cons] at h
    obtain ⟨next, hnext, hrest⟩ := Except.bind_eq_ok_iff.mp h
    unfold hostListStep at hnext
    split at hnext
    · exact (nomatch hnext)
    · obtain ⟨named, hnamed, hnext⟩ := Except.bind_eq_ok_iff.mp hnext
      cases hnext
      obtain ⟨hiff, hplain⟩ := patternMatches_eq_ok hnamed
      have hhead : named = true ↔ pattern.head? ≠ some 0x21 ∧ NamedBy lib target pattern :=
        ⟨fun htrue => ⟨hplain htrue, hiff.mp htrue⟩, fun hboth => hiff.mpr hboth.2⟩
      rw [ih hrest, Bool.or_eq_true, or_assoc, hhead]
      simp only [List.mem_cons, exists_eq_or_imp]

theorem hostListMatches_eq_ok {matched : Bool} (h : hostListMatches lib hosts target = .ok matched) :
    matched = true ↔ Names lib target hosts := by
  obtain ⟨state, hstate, h⟩ := Except.bind_eq_ok_iff.mp h
  cases h
  rw [foldlM_hostListStep hstate]
  exact or_iff_right Bool.false_ne_true

theorem covers_of_names (hnames : Names lib target hosts) (hnegated : ¬ Negated lib target hosts) :
    Covers lib target hosts := by
  obtain ⟨pattern, hmem, hplain, hnamed⟩ := hnames
  exact ⟨⟨pattern, hmem, hplain, .inl hnamed⟩, hnegated⟩

end Patterns

section Lines

/-- The entries of a file. -/
def hostLines (bytes : Bytes) : List HostLine :=
  (entryTexts (splitOn newline bytes)).filterMap fun entry => (splitHostLine entry).toOption

theorem mem_hostLines : line ∈ hostLines bytes ↔
    ∃ entry ∈ entryTexts (splitOn newline bytes), splitHostLine entry = .ok line := by
  rw [hostLines, List.mem_filterMap]
  refine exists_congr fun entry => and_congr_right fun _ => ?_
  cases splitHostLine entry with
  | error e => exact iff_of_false nofun nofun
  | ok found =>
    change some found = some line ↔ _
    exact ⟨fun h => congrArg Except.ok (Option.some.inj h), fun h => congrArg some (Except.ok.inj h)⟩

variable (lib) in
/-- The key that the words behind a host list spell. -/
def Records (line : HostLine) (key : Key) : Prop :=
  ∃ algorithm encodedKey more, line.rest = algorithm :: encodedKey :: more ∧
    lib.parseKey encodedKey = some key

theorem Records.unique {key other : Key} (h : Records lib line key) (h' : Records lib line other) :
    key = other := by
  obtain ⟨algorithm, encodedKey, more, hrest, hkey⟩ := h
  obtain ⟨algorithm', encodedKey', more', hrest', hkey'⟩ := h'
  rw [hrest] at hrest'
  cases hrest'
  rw [hkey] at hkey'
  exact Option.some.inj hkey'

variable [DecidableEq Key] [DecidableEq Algorithm]

omit [DecidableEq Key] [DecidableEq Algorithm] in
theorem recordedKey_eq_ok {rest : List Bytes} {key : Key} (h : recordedKey lib rest = .ok key) :
    ∃ algorithm encodedKey more, rest = algorithm :: encodedKey :: more ∧
      lib.parseKey encodedKey = some key := by
  unfold recordedKey at h
  split at h
  · rename_i algorithm encodedKey more
    split at h
    · exact (nomatch h)
    · split at h
      · exact (nomatch h)
      · rename_i recorded hparse
        split at h
        · exact (nomatch h)
        · cases h
          exact ⟨algorithm, encodedKey, more, rfl, hparse⟩
  · exact (nomatch h)

omit [DecidableEq Key] [DecidableEq Algorithm] in
/-- What a line gives that can be read: nothing if it does not name the target, and else its key, for
it has no marker then. -/
theorem lineKey_eq_ok {found : Option Key} (h : lineKey lib target line = .ok found) :
    (found = none ∧ ¬ Names lib target line.hosts) ∨
      ∃ key, found = some key ∧ Names lib target line.hosts ∧ line.marker = none ∧
        Records lib line key := by
  unfold lineKey at h
  split at h
  · exact (nomatch h)
  · obtain ⟨matched, hmatched, h⟩ := Except.bind_eq_ok_iff.mp h
    have hnames := hostListMatches_eq_ok hmatched
    cases matched with
    | false =>
      cases h
      exact .inl ⟨rfl, fun hn => Bool.false_ne_true (hnames.mpr hn)⟩
    | true =>
      cases hmarker : line.marker with
      | some marker =>
        rw [hmarker] at h
        exact (nomatch h)
      | none =>
        rw [hmarker] at h
        change (recordedKey lib line.rest).map some = .ok found at h
        cases hrecorded : recordedKey lib line.rest with
        | error e =>
          rw [hrecorded] at h
          exact (nomatch h)
        | ok key =>
          rw [hrecorded] at h
          cases h
          exact .inr ⟨key, rfl, hnames.mp rfl, rfl, recordedKey_eq_ok hrecorded⟩

/-- A key is accepted when every line can be read, one of them gives it, and none gives another of its
algorithm. -/
theorem accepts_iff_lines : verifyKnownHostBytes lib bytes host port serverKey = .ok () ↔
    Readable bytes host ∧
      (∀ entry ∈ entryTexts (splitOn newline bytes), ∃ line, splitHostLine entry = .ok line) ∧
      (∀ line ∈ hostLines bytes, ∃ found, lineKey lib (targetOf host port) line = .ok found) ∧
      (∃ line ∈ hostLines bytes, lineKey lib (targetOf host port) line = .ok (some serverKey)) ∧
      ∀ line ∈ hostLines bytes, ∀ key, lineKey lib (targetOf host port) line = .ok (some key) →
        lib.algorithm key = lib.algorithm serverKey → key = serverKey := by
  rw [verifyKnownHostBytes_eq_ok]
  refine and_congr_right fun _ => ?_
  constructor
  · rintro ⟨hfound, ⟨entry, hentry, hkey⟩, hall⟩
    refine ⟨fun entry hentry => ?_, fun line hline => ?_, ?_, fun line hline key hkey => ?_⟩
    · obtain ⟨found, hkey⟩ := hfound entry hentry
      obtain ⟨line, hline, -⟩ := Except.bind_eq_ok_iff.mp hkey
      exact ⟨line, hline⟩
    · obtain ⟨entry, hentry, hsplit⟩ := mem_hostLines.mp hline
      obtain ⟨found, hkey⟩ := hfound entry hentry
      obtain ⟨other, hother, hkey⟩ := Except.bind_eq_ok_iff.mp hkey
      rw [hsplit] at hother
      cases hother
      exact ⟨found, hkey⟩
    · obtain ⟨line, hline, hkey⟩ := Except.bind_eq_ok_iff.mp hkey
      exact ⟨line, mem_hostLines.mpr ⟨entry, hentry, hline⟩, hkey⟩
    · obtain ⟨entry, hentry, hsplit⟩ := mem_hostLines.mp hline
      exact hall entry hentry key (Except.bind_eq_ok_iff.mpr ⟨line, hsplit, hkey⟩)
  · rintro ⟨hlines, hfound, ⟨line, hline, hkey⟩, hall⟩
    refine ⟨fun entry hentry => ?_, ?_, fun entry hentry key hkey => ?_⟩
    · obtain ⟨line, hline⟩ := hlines entry hentry
      obtain ⟨found, hkey⟩ := hfound line (mem_hostLines.mpr ⟨entry, hentry, hline⟩)
      exact ⟨found, Except.bind_eq_ok_iff.mpr ⟨line, hline, hkey⟩⟩
    · obtain ⟨entry, hentry, hsplit⟩ := mem_hostLines.mp hline
      exact ⟨entry, hentry, Except.bind_eq_ok_iff.mpr ⟨line, hsplit, hkey⟩⟩
    · obtain ⟨line, hline, hkey⟩ := Except.bind_eq_ok_iff.mp hkey
      exact hall line (mem_hostLines.mpr ⟨entry, hentry, hline⟩) key hkey

end Lines

end Kitrove.Ssh
