import Kitrove.Ssh.KnownHosts
import Kitrove.Support.Except

/-! Which files are accepted for a server's key. Acceptance looks at the entries one by one, so it
depends neither on their order nor on how often each occurs. -/

namespace Kitrove.Ssh

variable {Key Algorithm : Type} [DecidableEq Key] [DecidableEq Algorithm]
  {lib : SshLibrary Key Algorithm} {target host bytes : Bytes} {port : Nat} {serverKey : Key}

section Keys

/-- The keys noted under the server's algorithm leave its own key exactly when they are all that key. -/
theorem foldlM_noteKey {matching : Option Key} {keys : List Key} :
    keys.foldlM (noteKey lib serverKey) matching = .ok (some serverKey) ↔
      (matching = some serverKey ∨ matching = none ∧ serverKey ∈ keys) ∧
        ∀ key ∈ keys, lib.algorithm key = lib.algorithm serverKey → key = serverKey := by
  induction keys generalizing matching with
  | nil =>
    rw [List.foldlM_nil, Except.pure_eq_ok_iff]
    simp
  | cons key keys ih =>
    rw [List.foldlM_cons]
    by_cases halgorithm : lib.algorithm key = lib.algorithm serverKey
    · cases matching with
      | none =>
        have hnote : noteKey lib serverKey none key = .ok (some key) := by
          rw [noteKey, if_neg (not_not.mpr halgorithm)]
          rfl
        rw [hnote]
        change keys.foldlM (noteKey lib serverKey) (some key) = _ ↔ _
        rw [ih]
        constructor
        · rintro ⟨hkey | ⟨hnone, -⟩, hall⟩
          · have hsame : key = serverKey := Option.some.inj hkey
            exact ⟨.inr ⟨rfl, hsame ▸ List.mem_cons_self⟩,
              List.forall_mem_cons.mpr ⟨fun _ => hsame, hall⟩⟩
          · exact (nomatch hnone)
        · rintro ⟨-, hall⟩
          obtain ⟨hkey, hall⟩ := List.forall_mem_cons.mp hall
          exact ⟨.inl (congrArg some (hkey halgorithm)), hall⟩
      | some existing =>
        by_cases hsame : existing = key
        · have hnote : noteKey lib serverKey (some existing) key = .ok (some existing) := by
            rw [noteKey, if_neg (not_not.mpr halgorithm)]
            exact if_pos hsame
          rw [hnote]
          change keys.foldlM (noteKey lib serverKey) (some existing) = _ ↔ _
          rw [ih]
          constructor
          · rintro ⟨hexisting | ⟨hnone, -⟩, hall⟩
            · have hkey : key = serverKey := hsame ▸ Option.some.inj hexisting
              exact ⟨.inl hexisting, List.forall_mem_cons.mpr ⟨fun _ => hkey, hall⟩⟩
            · exact (nomatch hnone)
          · rintro ⟨hexisting, hall⟩
            refine ⟨.inl ?_, (List.forall_mem_cons.mp hall).2⟩
            exact hexisting.resolve_right fun h => nomatch h.1
        · have hnote : noteKey lib serverKey (some existing) key = .error knownHostsAmbiguous := by
            rw [noteKey, if_neg (not_not.mpr halgorithm)]
            exact if_neg hsame
          rw [hnote]
          refine iff_of_false nofun ?_
          rintro ⟨hexisting | ⟨hnone, -⟩, hall⟩
          · refine hsame ?_
            rw [(List.forall_mem_cons.mp hall).1 halgorithm]
            exact Option.some.inj hexisting
          · exact (nomatch hnone)
    · have hnote : noteKey lib serverKey matching key = .ok matching := if_pos halgorithm
      have hne : serverKey ≠ key := fun h => halgorithm (by rw [h])
      rw [hnote]
      change keys.foldlM (noteKey lib serverKey) matching = _ ↔ _
      rw [ih, List.forall_mem_cons, List.mem_cons, or_iff_right hne]
      refine and_congr_right fun _ => (and_iff_right fun h => ?_).symm
      exact absurd h halgorithm

end Keys

section Lines

/-- The texts of the entries of a file. -/
def entryTexts (rawLines : List Bytes) : List Bytes :=
  rawLines.filterMap fun rawLine => (lineText rawLine).toOption.join

variable (lib target) in
def recordedKeys (entries : List Bytes) : List Key :=
  entries.filterMap fun entry => (entryKey lib target entry).toOption.join

theorem mem_recordedKeys {entries : List Bytes} {key : Key} :
    key ∈ recordedKeys lib target entries ↔ ∃ entry ∈ entries, entryKey lib target entry = .ok (some key) := by
  rw [recordedKeys, List.mem_filterMap]
  refine exists_congr fun entry => and_congr_right fun _ => ?_
  cases entryKey lib target entry with
  | error e => exact iff_of_false nofun nofun
  | ok found =>
    change found = some key ↔ _
    exact ⟨congrArg Except.ok, Except.ok.inj⟩

section Steps

variable {rawLine line : Bytes} {rawLines : List Bytes} {state final : VerifyState Key}

theorem entryTexts_skip (h : lineText rawLine = .ok none) :
    entryTexts (rawLine :: rawLines) = entryTexts rawLines :=
  List.filterMap_cons_none (by rw [h]; rfl)

theorem entryTexts_entry (h : lineText rawLine = .ok (some line)) :
    entryTexts (rawLine :: rawLines) = line :: entryTexts rawLines :=
  List.filterMap_cons_some (by rw [h]; rfl)

theorem recordedKeys_other {entries : List Bytes} (h : entryKey lib target line = .ok none) :
    recordedKeys lib target (line :: entries) = recordedKeys lib target entries :=
  List.filterMap_cons_none (by rw [h]; rfl)

theorem recordedKeys_recorded {entries : List Bytes} {key : Key}
    (h : entryKey lib target line = .ok (some key)) :
    recordedKeys lib target (line :: entries) = key :: recordedKeys lib target entries :=
  List.filterMap_cons_some (by rw [h]; rfl)

theorem verifyLine_entry (h : lineText rawLine = .ok (some line)) :
    verifyLine lib target serverKey state rawLine = .ok final ↔
      state.entries + 1 ≤ maxKnownHostsEntries ∧ final.entries = state.entries + 1 ∧
        verifyEntry lib target serverKey state.matching line = .ok final.matching := by
  rw [verifyLine, h]
  change (if state.entries + 1 > maxKnownHostsEntries then _ else _) = _ ↔ _
  split
  · rename_i hroom
    exact iff_of_false nofun fun h => Nat.not_le.mpr hroom h.1
  · rename_i hroom
    rw [Except.bind_eq_ok_iff, and_iff_right (Nat.not_lt.mp hroom)]
    constructor
    · rintro ⟨matching, hmatching, hfinal⟩
      cases hfinal
      exact ⟨rfl, hmatching⟩
    · rintro ⟨hentries, hmatching⟩
      refine ⟨_, hmatching, ?_⟩
      rw [← hentries]
      rfl

end Steps

/-- The loop over the lines: every line is readable, the entries are few enough, and their keys are
noted one after the other. -/
theorem foldlM_verifyLine {rawLines : List Bytes} {state final : VerifyState Key} :
    rawLines.foldlM (verifyLine lib target serverKey) state = .ok final ↔
      (∀ rawLine ∈ rawLines, ∃ text, lineText rawLine = .ok text) ∧
        (∀ entry ∈ entryTexts rawLines, ∃ found, entryKey lib target entry = .ok found) ∧
          (entryTexts rawLines = [] ∨ state.entries + (entryTexts rawLines).length ≤ maxKnownHostsEntries) ∧
            final.entries = state.entries + (entryTexts rawLines).length ∧
              (recordedKeys lib target (entryTexts rawLines)).foldlM (noteKey lib serverKey)
                state.matching = .ok final.matching := by
  induction rawLines generalizing state with
  | nil =>
    rw [List.foldlM_nil, Except.pure_eq_ok_iff]
    constructor
    · rintro rfl
      exact ⟨nofun, nofun, .inl rfl, rfl, rfl⟩
    · rintro ⟨-, -, -, hentries, hmatching⟩
      obtain ⟨entries, matching⟩ := state
      obtain ⟨entries', matching'⟩ := final
      cases hentries
      cases hmatching
      rfl
  | cons rawLine rawLines ih =>
    rw [List.foldlM_cons, Except.bind_eq_ok_iff, List.forall_mem_cons]
    cases htext : lineText rawLine with
    | error e =>
      refine iff_of_false ?_ fun h => nomatch h.1.1.choose_spec
      rintro ⟨next, hnext, -⟩
      rw [verifyLine, htext] at hnext
      exact (nomatch hnext)
    | ok text =>
      cases text with
      | none =>
        have hstep : verifyLine lib target serverKey state rawLine = .ok state := by
          rw [verifyLine, htext]
          rfl
        rw [entryTexts_skip htext, hstep]
        constructor
        · rintro ⟨next, hnext, hrest⟩
          cases hnext
          obtain ⟨hlines, hrest⟩ := ih.mp hrest
          exact ⟨⟨⟨none, rfl⟩, hlines⟩, hrest⟩
        · rintro ⟨⟨-, hlines⟩, hrest⟩
          exact ⟨state, rfl, ih.mpr ⟨hlines, hrest⟩⟩
      | some line =>
        rw [entryTexts_entry htext, List.forall_mem_cons, List.length_cons]
        constructor
        · rintro ⟨next, hnext, hrest⟩
          obtain ⟨hroom, hentries, hentry⟩ := (verifyLine_entry htext).mp hnext
          obtain ⟨hlines, hfound, hlength, hfinal, hkeys⟩ := ih.mp hrest
          obtain ⟨found, hkey, hnote⟩ := Except.bind_eq_ok_iff.mp hentry
          refine ⟨⟨⟨_, rfl⟩, hlines⟩, ⟨⟨found, hkey⟩, hfound⟩, .inr ?_, by omega, ?_⟩
          · rcases hlength with hnil | hlength
            · rw [hnil, List.length_nil]
              omega
            · omega
          · cases found with
            | none =>
              have hsame : state.matching = next.matching := Except.ok.inj hnote
              rwa [recordedKeys_other hkey, hsame]
            | some key =>
              rw [recordedKeys_recorded hkey, List.foldlM_cons]
              exact Except.bind_eq_ok_iff.mpr ⟨_, hnote, hkeys⟩
        · rintro ⟨⟨-, hlines⟩, ⟨⟨found, hkey⟩, hfound⟩, hlength, hfinal, hkeys⟩
          have hroom : state.entries + ((entryTexts rawLines).length + 1) ≤ maxKnownHostsEntries :=
            hlength.resolve_left (List.cons_ne_nil _ _)
          have hentry : ∃ matching,
              verifyEntry lib target serverKey state.matching line = .ok matching ∧
                (recordedKeys lib target (entryTexts rawLines)).foldlM (noteKey lib serverKey)
                  matching = .ok final.matching := by
            cases found with
            | none =>
              rw [recordedKeys_other hkey] at hkeys
              exact ⟨state.matching, Except.bind_eq_ok_iff.mpr ⟨none, hkey, rfl⟩, hkeys⟩
            | some key =>
              rw [recordedKeys_recorded hkey, List.foldlM_cons] at hkeys
              obtain ⟨matching, hnote, hkeys⟩ := Except.bind_eq_ok_iff.mp hkeys
              exact ⟨matching, Except.bind_eq_ok_iff.mpr ⟨some key, hkey, hnote⟩, hkeys⟩
          obtain ⟨matching, hmatching, hkeys⟩ := hentry
          refine ⟨⟨state.entries + 1, matching⟩, (verifyLine_entry htext).mpr ⟨by omega, rfl, hmatching⟩,
            ih.mpr ⟨hlines, hfound, .inr ?_, ?_, hkeys⟩⟩
          · change state.entries + 1 + (entryTexts rawLines).length ≤ maxKnownHostsEntries
            omega
          · change final.entries = state.entries + 1 + (entryTexts rawLines).length
            omega

omit [DecidableEq Algorithm] in
theorem verdict_eq_ok {matching : Option Key} :
    verdict serverKey matching = .ok () ↔ matching = some serverKey := by
  cases matching with
  | none => exact iff_of_false nofun nofun
  | some recorded =>
    rw [verdict]
    split
    · rename_i hsame
      exact iff_of_true rfl (congrArg some hsame)
    · rename_i hother
      exact iff_of_false nofun fun h => hother (Option.some.inj h)

/-- What a file and a host must be for any key to be accepted. -/
structure Readable (bytes host : Bytes) : Prop where
  short : bytes.length ≤ maxKnownHostsBytes
  hostAscii : host.any (fun b => 0x80 ≤ b) = false
  hostNonempty : host.isEmpty = false
  lines : ∀ rawLine ∈ splitOn newline bytes, ∃ text, lineText rawLine = .ok text
  few : (entryTexts (splitOn newline bytes)).length ≤ maxKnownHostsEntries

/-- A key is accepted when every entry can be read, one of them records it for the target, and those
for the target record no other of its algorithm. -/
theorem verifyKnownHostBytes_eq_ok :
    verifyKnownHostBytes lib bytes host port serverKey = .ok () ↔ Readable bytes host ∧
      (∀ entry ∈ entryTexts (splitOn newline bytes),
        ∃ found, entryKey lib (targetOf host port) entry = .ok found) ∧
      (∃ entry ∈ entryTexts (splitOn newline bytes),
        entryKey lib (targetOf host port) entry = .ok (some serverKey)) ∧
      ∀ entry ∈ entryTexts (splitOn newline bytes), ∀ key,
        entryKey lib (targetOf host port) entry = .ok (some key) →
          lib.algorithm key = lib.algorithm serverKey → key = serverKey := by
  unfold verifyKnownHostBytes
  split
  · rename_i hrefused
    refine iff_of_false nofun ?_
    rintro ⟨hreadable, -⟩
    rw [hreadable.hostAscii, hreadable.hostNonempty, Bool.or_false, Bool.or_false,
      decide_eq_true_eq] at hrefused
    exact Nat.not_le.mpr hrefused hreadable.short
  · rename_i hpassed
    rw [Bool.not_eq_true, Bool.or_eq_false_iff, Bool.or_eq_false_iff, decide_eq_false_iff_not] at hpassed
    obtain ⟨⟨hshort, hascii⟩, hnonempty⟩ := hpassed
    rw [Except.bind_eq_ok_iff]
    constructor
    · rintro ⟨final, hrun, hmatching⟩
      rw [verdict_eq_ok] at hmatching
      obtain ⟨hlines, hfound, hlength, -, hkeys⟩ := foldlM_verifyLine.mp hrun
      rw [hmatching, foldlM_noteKey] at hkeys
      obtain ⟨hmem, hall⟩ := hkeys
      refine ⟨⟨Nat.not_lt.mp hshort, hascii, hnonempty, hlines, ?_⟩, hfound, ?_, ?_⟩
      · rcases hlength with hnil | hlength
        · rw [hnil]
          exact Nat.zero_le _
        · rwa [Nat.zero_add] at hlength
      · exact mem_recordedKeys.mp (hmem.resolve_left nofun).2
      · exact fun entry hentry key hkey => hall key (mem_recordedKeys.mpr ⟨entry, hentry, hkey⟩)
    · rintro ⟨hreadable, hfound, hrecorded, hall⟩
      refine ⟨⟨0 + (entryTexts (splitOn newline bytes)).length, some serverKey⟩,
        foldlM_verifyLine.mpr ⟨hreadable.lines, hfound, .inr ?_, rfl, ?_⟩, verdict_eq_ok.mpr rfl⟩
      · rw [Nat.zero_add]
        exact hreadable.few
      · refine foldlM_noteKey.mpr ⟨.inr ⟨rfl, mem_recordedKeys.mpr hrecorded⟩, fun key hkey => ?_⟩
        obtain ⟨entry, hentry, hkey⟩ := mem_recordedKeys.mp hkey
        exact hall entry hentry key hkey

end Lines

end Kitrove.Ssh
