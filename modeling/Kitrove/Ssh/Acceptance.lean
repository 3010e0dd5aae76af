import Kitrove.Ssh.Authority

/-! What accepting a server's key promises, and the two kinds of line it overlooks. -/

namespace Kitrove.Ssh

variable {Key Algorithm : Type} [DecidableEq Key] [DecidableEq Algorithm]
  {lib : SshLibrary Key Algorithm} {target host bytes bytes' : Bytes} {port : Nat} {serverKey : Key}

section Authorized

variable (lib target bytes serverKey)

def revokedMarker : Bytes := ascii "@revoked"

/-- Some line for the target records the key, no line that names the target records another of its
algorithm, and no revocation for the target records it. -/
structure Authorized : Prop where
  recorded : ∃ line ∈ hostLines bytes, line.marker = none ∧ Covers lib target line.hosts ∧
    Records lib line serverKey
  unambiguous : ∀ line ∈ hostLines bytes, line.marker = none → Names lib target line.hosts →
    ¬ Negated lib target line.hosts → ∀ key, Records lib line key →
      lib.algorithm key = lib.algorithm serverKey → key = serverKey
  unrevoked : ∀ line ∈ hostLines bytes, line.marker = some revokedMarker →
    Covers lib target line.hosts → ¬ Records lib line serverKey

/-- A revocation of the key reaches the target by its wildcards alone. -/
def OverlooksRevocation : Prop :=
  ∃ line ∈ hostLines bytes, line.marker = some revokedMarker ∧ Covers lib target line.hosts ∧
    ¬ Names lib target line.hosts ∧ Records lib line serverKey

/-- Every line that names the target and records the key makes an exception for the target, and no
other line records the key for it by its wildcards. -/
def OverlooksException : Prop :=
  (∀ line ∈ hostLines bytes, line.marker = none → Names lib target line.hosts →
    Records lib line serverKey → Negated lib target line.hosts) ∧
  ∀ line ∈ hostLines bytes, line.marker = none → Covers lib target line.hosts →
    ¬ Names lib target line.hosts → ¬ Records lib line serverKey

variable {lib target bytes serverKey}

/-- A line that names the target and can be read is unmarked, and gives what it records. -/
theorem lineKey_of_names {line : HostLine} {found : Option Key} (h : lineKey lib target line = .ok found)
    (hnames : Names lib target line.hosts) :
    line.marker = none ∧ ∃ key, found = some key ∧ Records lib line key := by
  rcases lineKey_eq_ok h with ⟨-, hother⟩ | ⟨key, hfound, -, hmarker, hrecords⟩
  · exact absurd hnames hother
  · exact ⟨hmarker, key, hfound, hrecords⟩

/-- Short lines with a readable host list that does not name the target say nothing. -/
theorem lineKey_of_not_names {line : HostLine} (hshort : line.hosts.length ≤ maxHostPatternBytes)
    (hlist : ∃ matched, hostListMatches lib line.hosts target = .ok matched)
    (hnames : ¬ Names lib target line.hosts) : lineKey lib target line = .ok none := by
  obtain ⟨matched, hmatched⟩ := hlist
  have hfalse : matched = false :=
    Bool.eq_false_iff.mpr fun htrue => hnames ((hostListMatches_eq_ok hmatched).mp htrue)
  subst hfalse
  rw [lineKey, if_neg (Nat.not_lt.mpr hshort), hmatched]
  rfl

/-- An accepted key is authorized unless a revocation or an exception was overlooked. -/
theorem authorized_iff_of_accepted
    (h : verifyKnownHostBytes lib bytes host port serverKey = .ok ()) :
    Authorized lib (targetOf host port) bytes serverKey ↔
      ¬ OverlooksRevocation lib (targetOf host port) bytes serverKey ∧
        ¬ OverlooksException lib (targetOf host port) bytes serverKey := by
  obtain ⟨-, -, hread, ⟨line, hline, hkey⟩, hall⟩ := accepts_iff_lines.mp h
  constructor
  · intro hauthorized
    refine ⟨?_, ?_⟩
    · rintro ⟨revoked, hmem, hmarker, hcovers, -, hrecords⟩
      exact hauthorized.unrevoked revoked hmem hmarker hcovers hrecords
    · rintro ⟨hnegated, hwild⟩
      obtain ⟨line, hmem, hmarker, hcovers, hrecords⟩ := hauthorized.recorded
      by_cases hnames : Names lib (targetOf host port) line.hosts
      · exact hcovers.2 (hnegated line hmem hmarker hnames hrecords)
      · exact hwild line hmem hmarker hcovers hnames hrecords
  · rintro ⟨hrevocation, hexception⟩
    refine ⟨?_, fun line hmem _ hnames _ key hrecords halgorithm => ?_, ?_⟩
    · by_contra hnone
      refine hexception ⟨fun line hmem hmarker hnames hrecords => ?_,
        fun line hmem hmarker hcovers _ hrecords => hnone ⟨line, hmem, hmarker, hcovers, hrecords⟩⟩
      by_contra hplain
      exact hnone ⟨line, hmem, hmarker, covers_of_names hnames hplain, hrecords⟩
    · obtain ⟨found, hfound⟩ := hread line hmem
      obtain ⟨-, recorded, rfl, hrecorded⟩ := lineKey_of_names hfound hnames
      cases hrecords.unique hrecorded
      exact hall line hmem key hfound halgorithm
    · intro line hmem hmarker hcovers hrecords
      by_cases hnames : Names lib (targetOf host port) line.hosts
      · -- A marked line that names the target is refused.
        obtain ⟨found, hfound⟩ := hread line hmem
        rw [(lineKey_of_names hfound hnames).1] at hmarker
        exact (nomatch hmarker)
      · exact hrevocation ⟨line, hmem, hmarker, hcovers, hnames, hrecords⟩

end Authorized

section Independence

theorem entryTexts_perm {rawLines rawLines' : List Bytes} (h : rawLines.Perm rawLines') :
    (entryTexts rawLines).Perm (entryTexts rawLines') := h.filterMap _

theorem length_eq_of_lines (h : (splitOn newline bytes).Perm (splitOn newline bytes')) :
    bytes.length = bytes'.length := by
  have hjoin (text : Bytes) : Segments.join newline (splitOn newline text) = text := by
    rw [splitOn_eq_splitOn, Segments.join_splitOn]
  have hne : splitOn newline bytes ≠ [] := by
    rw [splitOn_eq_splitOn]
    exact List.splitOn_ne_nil _ _
  rw [← hjoin bytes, ← hjoin bytes', Segments.length_join_perm h hne]

theorem Readable.perm (h : (splitOn newline bytes).Perm (splitOn newline bytes'))
    (hreadable : Readable bytes host) : Readable bytes' host where
  short := length_eq_of_lines h ▸ hreadable.short
  hostAscii := hreadable.hostAscii
  hostNonempty := hreadable.hostNonempty
  lines rawLine hmem := hreadable.lines rawLine (h.mem_iff.mpr hmem)
  few := (entryTexts_perm h).length_eq ▸ hreadable.few

theorem accepts_of_perm (h : (splitOn newline bytes).Perm (splitOn newline bytes'))
    (haccept : verifyKnownHostBytes lib bytes host port serverKey = .ok ()) :
    verifyKnownHostBytes lib bytes' host port serverKey = .ok () := by
  have hmem {entry : Bytes} : entry ∈ entryTexts (splitOn newline bytes) ↔
      entry ∈ entryTexts (splitOn newline bytes') := (entryTexts_perm h).mem_iff
  obtain ⟨hreadable, hfound, ⟨entry, hentry, hkey⟩, hall⟩ := verifyKnownHostBytes_eq_ok.mp haccept
  exact verifyKnownHostBytes_eq_ok.mpr ⟨hreadable.perm h,
    fun entry hentry => hfound entry (hmem.mpr hentry), ⟨entry, hmem.mp hentry, hkey⟩,
    fun entry hentry => hall entry (hmem.mpr hentry)⟩

variable (lib target) in
/-- A file whose lines are within the limits, each with a host list that is supported. -/
structure WellFormed (bytes host : Bytes) : Prop where
  readable : Readable bytes host
  split : ∀ entry ∈ entryTexts (splitOn newline bytes), ∃ line, splitHostLine entry = .ok line
  short : ∀ line ∈ hostLines bytes, line.hosts.length ≤ maxHostPatternBytes
  supported : ∀ line ∈ hostLines bytes, ∃ matched, hostListMatches lib line.hosts target = .ok matched

variable (lib target bytes bytes') in
/-- The same lines cover the target in both files. -/
def SameCovering : Prop :=
  ∀ line : HostLine, Covers lib target line.hosts → (line ∈ hostLines bytes ↔ line ∈ hostLines bytes')

variable (lib target bytes) in
/-- No line names the target and makes an exception for it. -/
def Unexcepted : Prop :=
  ∀ line ∈ hostLines bytes, Names lib target line.hosts → ¬ Negated lib target line.hosts

theorem SameCovering.symm (h : SameCovering lib target bytes bytes') :
    SameCovering lib target bytes' bytes := fun line hcovers => (h line hcovers).symm

theorem accepts_of_sameCovering (hformed : WellFormed lib (targetOf host port) bytes' host)
    (hsame : SameCovering lib (targetOf host port) bytes bytes')
    (hplain : Unexcepted lib (targetOf host port) bytes)
    (hplain' : Unexcepted lib (targetOf host port) bytes')
    (haccept : verifyKnownHostBytes lib bytes host port serverKey = .ok ()) :
    verifyKnownHostBytes lib bytes' host port serverKey = .ok () := by
  obtain ⟨-, -, hread, ⟨line, hline, hkey⟩, hall⟩ := accepts_iff_lines.mp haccept
  have hback {line : HostLine} (hmem : line ∈ hostLines bytes')
      (hnames : Names lib (targetOf host port) line.hosts) : line ∈ hostLines bytes :=
    (hsame line (covers_of_names hnames (hplain' line hmem hnames))).mpr hmem
  refine accepts_iff_lines.mpr
    ⟨hformed.readable, hformed.split, fun line hmem => ?_, ⟨line, ?_, hkey⟩, ?_⟩
  · by_cases hnames : Names lib (targetOf host port) line.hosts
    · exact hread line (hback hmem hnames)
    · exact ⟨none, lineKey_of_not_names (hformed.short line hmem) (hformed.supported line hmem) hnames⟩
  · rcases lineKey_eq_ok hkey with ⟨hnone, -⟩ | ⟨key, -, hnames, -⟩
    · exact (nomatch hnone)
    · exact (hsame line (covers_of_names hnames (hplain line hline hnames))).mp hline
  · intro line hmem key hkey
    rcases lineKey_eq_ok hkey with ⟨hnone, -⟩ | ⟨found, -, hnames, -⟩
    · exact (nomatch hnone)
    · exact hall line (hback hmem hnames) key hkey

end Independence

section Sample

/-- Keys are their own spelling, all of one algorithm. -/
def sampleLibrary : SshLibrary Bytes Unit where
  parseKey := some
  algorithm _ := ()
  algorithmName _ := ascii "ssh-ed25519"
  decodeBase64 := some
  hmacSha1 _ _ := []

def sampleHost : Bytes := ascii "git.example.com"

def sampleKey : Bytes := ascii "AAAA"

def sampleWildcard : Bytes := ascii "*.example.com"

def sampleRecorded : Bytes := ascii "git.example.com ssh-ed25519 AAAA\n"

def sampleRevoked : Bytes := ascii "@revoked *.example.com ssh-ed25519 AAAA\n"

def sampleRevocation : HostLine :=
  ⟨some revokedMarker, sampleWildcard, [ascii "ssh-ed25519", ascii "AAAA"]⟩

theorem sampleWildcard_covers :
    Covers sampleLibrary (targetOf sampleHost 22) sampleWildcard := by
  have hsplit : splitOn 0x2C sampleWildcard = [sampleWildcard] := by decide
  have hglob : Glob sampleWildcard (targetOf sampleHost 22) := by
    have hrest (text : Bytes) (h : ∀ b ∈ text, b ≠ 0x2A ∧ b ≠ 0x3F) : Glob text text := by
      induction text with
      | nil => exact .nil
      | cons b text ih =>
        obtain ⟨hb, htext⟩ := List.forall_mem_cons.mp h
        exact .byte hb.1 hb.2 (ih htext)
    exact .star (ascii "git") (hrest (ascii ".example.com") (by decide +kernel))
  refine ⟨⟨sampleWildcard, ?_, by decide, .inr ⟨by decide, hglob⟩⟩, ?_⟩
  · rw [hsplit]
    exact List.mem_cons_self
  · rintro ⟨pattern, hmem, -⟩
    rw [hsplit, List.mem_singleton] at hmem
    have hhead : (0x21 : UInt8) = 0x2A := Option.some.inj (congrArg List.head? hmem)
    exact absurd hhead (by decide)

end Sample

end Kitrove.Ssh
