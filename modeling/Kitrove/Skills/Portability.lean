import Kitrove.Skills.Walk

/-! Captured trees on the other platforms: no two entries become one, and the stored tree is
accepted. The names are lossless on Windows apart from the devices that the capture misses. -/

namespace Kitrove.Skills

open Std Slices Except

section Prefixes

variable {unicode : Unicode} {state : CaptureState} {registered : OrdMap Bytes Bytes}

/-- What has been entered is what the capture has registered. -/
def RegisteredBy (state : CaptureState) (registered : OrdMap Bytes Bytes) : Prop :=
  ∀ key path : Bytes, registered[key]? = some path → state.collisionPaths[key]? = some path

theorem registerPrefixes_eq_some {front rest : List FileName}
    (hregistered : RegisteredBy state registered)
    (hvisited : AllVisited unicode state (front ++ rest)) :
    ∃ all, registerPrefixes unicode registered (pathText front) (rest.map FileName.encoded) =
      some all ∧ RegisteredBy state all := by
  induction rest generalizing front registered with
  | nil => exact ⟨registered, rfl, hregistered⟩
  | cons name rest ih =>
    rw [List.map_cons, registerPrefixes]
    have hfront : (if (pathText front).isEmpty then [] else pathText front ++ [0x2F]) ++
        name.encoded = pathText (front ++ [name]) := entryKey_pathText
    rw [hfront]
    have hall : (front ++ [name]) ++ rest = front ++ name :: rest := by
      rw [List.append_assoc, List.singleton_append]
    obtain ⟨hentry, -⟩ := hvisited (front ++ [name]) (by simp) (by
      rw [← hall]
      exact List.prefix_append _ _)
    have hfree : ¬ (registered[unicode.supportedPlatformCollisionKey
        (pathText (front ++ [name]))]?.any
        fun existing => existing ≠ pathText (front ++ [name])) = true := by
      rw [Option.any_eq_true]
      rintro ⟨existing, hexisting, hne⟩
      have hsame := hregistered _ _ hexisting
      rw [hentry, Option.some.injEq] at hsame
      exact of_decide_eq_true hne hsame.symm
    rw [if_neg hfree]
    refine ih (fun key path hpath => ?_) (by rwa [hall])
    rw [ExtTreeMap.getElem?_insert] at hpath
    split at hpath
    · rename_i heq
      cases hpath
      rw [← LawfulEqCmp.eq_of_compare heq]
      exact hentry
    · exact hregistered key path hpath

/-- Paths that the capture has visited do not collide when they are stored. -/
theorem no_stored_collision {paths : List PortablePath}
    (h : ∀ portable ∈ paths, ∃ path, path ≠ [] ∧ portable.bytes = pathText path ∧
      AllVisited unicode state path) :
    hasSupportedPlatformPathCollision unicode paths = false := by
  have hfold : ∀ registered : OrdMap Bytes Bytes, RegisteredBy state registered →
      ∃ all, paths.foldlM (fun registered path =>
        registerPrefixes unicode registered [] (splitOn 0x2F path.bytes)) registered = some all := by
    induction paths with
    | nil => exact fun registered _ => ⟨registered, rfl⟩
    | cons portable paths ih =>
      intro registered hregistered
      obtain ⟨path, hne, hbytes, hvisited⟩ := h portable List.mem_cons_self
      obtain ⟨next, hnext, hnextRegistered⟩ := @registerPrefixes_eq_some unicode state registered []
        path hregistered hvisited
      rw [List.foldlM_cons, hbytes, splitOn_pathText hne, ← pathText_nil, hnext]
      exact ih (fun other hother => h other (List.mem_cons_of_mem _ hother)) next hnextRegistered
  have hempty : RegisteredBy state ∅ := by
    intro key path hpath
    rw [ExtTreeMap.getElem?_empty] at hpath
    contradiction
  obtain ⟨all, hall⟩ := hfold ∅ hempty
  unfold hasSupportedPlatformPathCollision
  rw [hall]
  rfl

end Prefixes

section Captured

variable {hooks : CaptureHooks} {unicode : Unicode} {blake3 : Bytes → Digest} {codec : MetadataCodec}
  {tree : DirectoryTree} {limits : CaptureLimits} {rootPath : Bytes} {captured : CapturedTree}

theorem DirectoryTree.Entry.ne_nil {path : List FileName} (h : tree.Entry path) : path ≠ [] := by
  cases h with
  | root => exact List.cons_ne_nil _ _
  | child => simp

theorem captureTree_safe :
    Safe (captureTree blake3 hooks unicode tree limits rootPath) := by
  unfold captureTree captureDirectories
  refine safe_refuse.bind fun _ _ => Safe.bind ?_ fun _ _ => safe_pure
  refine enqueueDirectoryEntries_safe.bind fun result hresult => ?_
  obtain ⟨state, pending⟩ := result
  obtain ⟨hw, hfuel⟩ := walking_root hresult
  exact captureLoop_safe hw hfuel

/-- What the walk of an accepted tree has visited. -/
theorem captureTree_eq_ok (h : captureTree blake3 hooks unicode tree limits rootPath = .ok captured) :
    ∃ state, Walking unicode tree state ∅ ∧ captured = ⟨state.files, hashTree blake3 state.files⟩ := by
  unfold captureTree captureDirectories at h
  obtain ⟨-, h⟩ := refuse_bind_eq_ok.mp h
  obtain ⟨state, hwalk, h⟩ := bind_eq_ok_iff.mp h
  obtain ⟨⟨first, pending⟩, hroot, hwalk⟩ := bind_eq_ok_iff.mp hwalk
  obtain ⟨hw, -⟩ := walking_root hroot
  exact ⟨state, captureLoop_eq_ok hw hwalk, (pure_eq_ok_iff.mp h).symm⟩

/-- A captured tree that can be written on every supported platform as it is. -/
structure PortableCapture (unicode : Unicode) (blake3 : Bytes → Digest) (codec : MetadataCodec)
    (tree : DirectoryTree) (captured : CapturedTree) : Prop where
  files : ∀ portable ∈ captured.files, ∃ path, tree.Entry path ∧ portable.bytes = pathText path
  lossless : ∀ path, tree.Entry path →
    ∀ name ∈ path, isLosslessWindowsComponent name.encoded = true
  distinct : ∀ path other, tree.Entry path → tree.Entry other → path ≠ other →
    unicode.supportedPlatformCollisionKey (pathText path) ≠
      unicode.supportedPlatformCollisionKey (pathText other)
  stored : ((⟨captured⟩ : StoredSkillTree).metadataJson codec).length ≤ maxStoredMetadataBytes →
    StoredSkillTree.new blake3 unicode codec captured = .ok ⟨captured⟩

/-- A tree that the capture accepts is portable exactly when none of its names stands for a
device that the capture misses. -/
theorem captured_portable_iff
    (h : captureTree blake3 hooks unicode tree limits rootPath = .ok captured) :
    PortableCapture unicode blake3 codec tree captured ↔
      ∀ path, tree.Entry path → ∀ name ∈ path, missedDevice name.encoded = false := by
  obtain ⟨state, hw, rfl⟩ := captureTree_eq_ok h
  have hvisited : ∀ path, tree.Entry path → AllVisited unicode state path := by
    intro path hpath
    rcases hw.covered path hpath with hvisited | ⟨key, e, he, -⟩
    · exact hvisited
    · rw [ExtTreeMap.getElem?_empty] at he
      contradiction
  have hname : ∀ path, tree.Entry path → ∀ name ∈ path,
      (isLosslessWindowsComponent name.encoded = true ↔ missedDevice name.encoded = false) := by
    intro path hpath name hmem
    obtain ⟨front, back, rfl⟩ := List.append_of_mem hmem
    have hopens : front ++ [name] <+: front ++ name :: back :=
      ⟨back, by rw [List.append_assoc, List.singleton_append]⟩
    obtain ⟨hsegment, hback⟩ := (hvisited _ hpath _ (by simp) hopens).portable name
      List.getLast?_concat
    exact isLossless_iff name.nonempty name.noSeparator hback hsegment
  constructor
  · intro hportable path hpath name hmem
    exact (hname path hpath name hmem).mp (hportable.lossless path hpath name hmem)
  · intro hmissed
    refine ⟨?_, ?_, ?_, ?_⟩
    · intro portable hportable
      obtain ⟨path, hpath, hbytes, -⟩ := hw.files portable hportable
      exact ⟨path, hpath, hbytes⟩
    · exact fun path hpath name hmem => (hname path hpath name hmem).mpr (hmissed path hpath name hmem)
    · intro path other hpath hother hne hkey
      obtain ⟨hregistered, -⟩ := hvisited path hpath path hpath.ne_nil List.prefix_rfl
      obtain ⟨hregistered', -⟩ := hvisited other hother other hother.ne_nil List.prefix_rfl
      rw [hkey, hregistered', Option.some.injEq] at hregistered
      exact hne (pathText_injective hpath.ne_nil hother.ne_nil hregistered.symm)
    · intro hmetadata
      have hfree : hasSupportedPlatformPathCollision unicode state.files.keys = false := by
        refine @no_stored_collision _ state _ fun portable hportable => ?_
        obtain ⟨path, hpath, hbytes, hvisited⟩ :=
          hw.files portable (ExtTreeMap.mem_keys.mp hportable)
        exact ⟨path, hpath.ne_nil, hbytes, hvisited⟩
      unfold StoredSkillTree.new
      rw [hfree, if_neg Bool.false_ne_true, if_neg (by simp), if_neg (Nat.not_lt.mpr hmetadata)]

end Captured

section Samples

def noopHooks : CaptureHooks where
  validateDirectory _ := true
  validateFile _ := true
  reserveFileAttempt _ := true
  readAllowance _ requested := requested

/-- What the platform's Unicode does on ASCII. -/
def asciiUnicode : Unicode where
  isUtf8 text := text.all (· < 0x80)
  nfc text := text
  foldCase text := text.map fun b => if 0x41 ≤ b ∧ b ≤ 0x5A then b + 0x20 else b

def zeroDigest : Digest where
  hex := List.replicate 64 0x30
  valid := validDigest_zeros

def defaultLimits : CaptureLimits := ⟨512, 4 * 1024 * 1024, 32 * 1024 * 1024⟩

def modesCodec : MetadataCodec where
  encode modes := modes.flatMap fun entry => entry.1.bytes ++ [entry.2.tag]

def clockName : FileName := ⟨ascii "CLOCK$", by decide +kernel, by decide +kernel⟩

def notesName : FileName := ⟨ascii "notes", by decide +kernel, by decide +kernel⟩

/-- A tree with one empty file. -/
def oneFile (name : FileName) : DirectoryTree where
  entries path := if path = [] then [name] else []
  node _ := .file .regular []

def captureOne (name : FileName) : Capture CapturedTree :=
  captureTree (fun _ => zeroDigest) noopHooks asciiUnicode (oneFile name) defaultLimits (ascii "/skill")

theorem captured_portable_iff_counterexample : ∃ captured, captureOne clockName = .ok captured ∧
    ¬ PortableCapture asciiUnicode (fun _ => zeroDigest) modesCodec (oneFile clockName) captured := by
  have hok : (captureOne clockName).isOk = true := by decide +kernel
  cases h : captureOne clockName with
  | error e =>
    rw [h] at hok
    exact Bool.noConfusion hok
  | ok captured =>
    refine ⟨captured, rfl, fun hportable => ?_⟩
    have hentry : (oneFile clockName).Entry [clockName] := .root List.mem_cons_self
    have hlossless := hportable.lossless _ hentry clockName List.mem_cons_self
    have hdevice : isLosslessWindowsComponent clockName.encoded = false := by decide +kernel
    rw [hdevice] at hlossless
    exact Bool.noConfusion hlossless

theorem captured_portable_iff_sample : ∃ captured, captureOne notesName = .ok captured ∧
    PortableCapture asciiUnicode (fun _ => zeroDigest) modesCodec (oneFile notesName) captured := by
  have hok : (captureOne notesName).isOk = true := by decide +kernel
  cases h : captureOne notesName with
  | error e =>
    rw [h] at hok
    exact Bool.noConfusion hok
  | ok captured =>
    refine ⟨captured, rfl, (captured_portable_iff h).mpr fun path hpath name hname => ?_⟩
    have hmem : name = notesName := by
      induction hpath with
      | root hroot =>
        rw [List.mem_singleton.mp hname]
        exact List.mem_singleton.mp hroot
      | child hpath hnode _ _ => exact absurd hnode (by simp [oneFile])
    rw [hmem]
    decide +kernel

end Samples

end Kitrove.Skills
