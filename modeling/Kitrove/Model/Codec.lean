import Kitrove.Model.Lockfile

/-! The texts of manifests and lockfiles. The TOML and JSON libraries are parameters. -/

namespace Kitrove

open Std Except

/-- What the TOML library reports: a message and where it arose. -/
structure TomlError where
  message : Bytes
  span : Option (Nat × Nat)

/-- The TOML and JSON libraries at the types of manifests and lockfiles. -/
structure AuthorityCodec where
  encodeToml : EnvironmentManifest → Except Bytes Bytes
  decodeToml : Bytes → Except TomlError EnvironmentManifest
  encodeLock : Lockfile → Except Bytes Bytes
  decodeLock : Bytes → Except Bytes Lockfile

/-- The libraries round-trip their values, and a newline after a document is not part of it. -/
structure AuthorityCodec.Lawful (codec : AuthorityCodec) : Prop where
  toml : ∀ m text, codec.encodeToml m = .ok text → codec.decodeToml text = .ok m
  lock : ∀ l text, codec.encodeLock l = .ok text → codec.decodeLock text = .ok l
  toml_newline : ∀ m text, codec.decodeToml text = .ok m →
    codec.decodeToml (text ++ [newline]) = .ok m
  lock_newline : ∀ l text, codec.decodeLock text = .ok l →
    codec.decodeLock (text ++ [newline]) = .ok l

section Texts

variable (blake3 : Bytes → Digest) (codec : AuthorityCodec)

def TomlError.location (e : TomlError) : Bytes :=
  match e.span with
  | some (start, stop) => ascii " at bytes " ++ decimal start ++ ascii ".." ++ decimal stop
  | none => []

/-- A text that ends in a newline. -/
def withNewline (text : Bytes) : Bytes :=
  if text.getLast? = some newline then text else text ++ [newline]

def EnvironmentManifest.toToml (m : EnvironmentManifest) : Except ValidationError Bytes := do
  m.validate blake3
  match codec.encodeToml m with
  | .error message => throw ⟨"manifest.serialize", message⟩
  | .ok text => pure (withNewline text)

def EnvironmentManifest.fromToml (text : Bytes) : Except ValidationError EnvironmentManifest :=
  match codec.decodeToml text with
  | .error e => throw ⟨"manifest.invalid_toml", e.message ++ e.location⟩
  | .ok m => do
    m.validate blake3
    pure m

def Lockfile.toJson (l : Lockfile) : Except ValidationError Bytes := do
  l.validate blake3
  match codec.encodeLock l with
  | .error message => throw ⟨"lockfile.serialize", message⟩
  | .ok text => pure (text ++ [newline])

def Lockfile.fromJson (text : Bytes) : Except ValidationError Lockfile :=
  match codec.decodeLock text with
  | .error message => throw ⟨"lockfile.invalid_json", message⟩
  | .ok l => do
    l.validate blake3
    pure l

/-- The revision of a manifest's canonical bytes. -/
def deriveManifestRevision (m : EnvironmentManifest) : Except ValidationError Revision := do
  let text ← m.toToml blake3 codec
  match Name.parse .revision (ascii "manifest:blake3:" ++ (blake3 text).hex) with
  | none =>
    throw ⟨"revision.invalid", ascii "revision must be a non-empty single-line identifier"⟩
  | some revision => pure revision

end Texts

section RoundTrip

variable {blake3 : Bytes → Digest} {codec : AuthorityCodec} {m : EnvironmentManifest}
  {l : Lockfile} {text : Bytes}

theorem toToml_valid (h : m.toToml blake3 codec = .ok text) : m.validate blake3 = .ok () :=
  (bind_eq_ok_iff.mp h).elim fun _ h => h.1

theorem fromToml_toToml (hcodec : codec.Lawful) (h : m.toToml blake3 codec = .ok text) :
    EnvironmentManifest.fromToml blake3 codec text = .ok m := by
  have hvalid := toToml_valid h
  obtain ⟨⟨⟩, -, h⟩ := bind_eq_ok_iff.mp h
  cases hencode : codec.encodeToml m with
  | error e => simp [hencode] at h
  | ok encoded =>
    simp only [hencode, pure_eq_ok_iff] at h
    have hdecode : codec.decodeToml text = .ok m := by
      have hround := hcodec.toml m encoded hencode
      rw [← h, withNewline]
      split
      · exact hround
      · exact hcodec.toml_newline m encoded hround
    simp only [EnvironmentManifest.fromToml, hdecode, hvalid]
    rfl

theorem toJson_valid (h : l.toJson blake3 codec = .ok text) : l.validate blake3 = .ok () :=
  (bind_eq_ok_iff.mp h).elim fun _ h => h.1

theorem fromJson_toJson (hcodec : codec.Lawful) (h : l.toJson blake3 codec = .ok text) :
    Lockfile.fromJson blake3 codec text = .ok l := by
  have hvalid := toJson_valid h
  obtain ⟨⟨⟩, -, h⟩ := bind_eq_ok_iff.mp h
  cases hencode : codec.encodeLock l with
  | error e => simp [hencode] at h
  | ok encoded =>
    simp only [hencode, pure_eq_ok_iff] at h
    have hdecode := hcodec.lock_newline l encoded (hcodec.lock l encoded hencode)
    rw [h] at hdecode
    simp only [Lockfile.fromJson, hdecode, hvalid]
    rfl

/-- Two manifests with the same text are the same. -/
theorem toToml_injective (hcodec : codec.Lawful) {n : EnvironmentManifest}
    (hm : m.toToml blake3 codec = .ok text) (hn : n.toToml blake3 codec = .ok text) : m = n := by
  have hround := fromToml_toToml hcodec hm
  rw [fromToml_toToml hcodec hn] at hround
  exact (Except.ok.inj hround).symm

end RoundTrip

end Kitrove
