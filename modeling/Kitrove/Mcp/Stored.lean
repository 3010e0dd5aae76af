import Kitrove.Mcp.Documents

/-! One native MCP entry in storage. -/

namespace Kitrove.Mcp

def storedFormat : Bytes := ascii "kitrove-native-mcp-entry/v1"
def storedSchemaVersion : Nat := 1
def maxStoredNativeMcpBytes : Nat := 160 * 1024

structure StoredNativeMcpEntry where
  dialect : NativeMcpDialect
  nativeName : Bytes
  exactEntry : Bytes
  exactEntryHash : ContentHash
  exactDocumentHash : ContentHash
  objectHash : ContentHash
  deriving DecidableEq

structure PersistedNativeMcpEntry where
  schemaVersion : Nat
  format : Bytes
  dialect : NativeMcpDialect
  nativeName : Bytes
  exactEntry : Bytes
  exactEntryHash : ContentHash
  exactDocumentHash : ContentHash
  objectHash : ContentHash
  deriving DecidableEq

/-- The JSON library at the type of persisted entries. -/
structure NativeEntryCodec where
  encode : PersistedNativeMcpEntry → Option Bytes
  decode : Bytes → Option PersistedNativeMcpEntry

/-- The library round-trips its values, and a newline after a document is not part of it. -/
structure NativeEntryCodec.Lawful (codec : NativeEntryCodec) : Prop where
  decode_encode : ∀ persisted text, codec.encode persisted = some text →
    codec.decode (text ++ [newline]) = some persisted

def nativeStorageError (code : String) : McpError :=
  ⟨code, "stored native MCP entry is invalid or exceeds bounded storage policy"⟩

def hashObject (blake3 : Bytes → Digest) (dialect : NativeMcpDialect) (nativeName : Bytes)
    (exactEntryHash exactDocumentHash : ContentHash) : ContentHash :=
  .ofDigest (blake3 (ascii "kitrove-stored-native-mcp-entry-v1" ++ [0] ++ [dialect.tag] ++
    textRecord nativeName ++ textRecord exactEntryHash.bytes ++
    textRecord exactDocumentHash.bytes))

namespace StoredNativeMcpEntry

variable (lib : Libraries) (codec : NativeEntryCodec)

def fromVerified (dialect : NativeMcpDialect) (nativeName exactEntry : Bytes)
    (exactEntryHash exactDocumentHash : ContentHash) : StoredNativeMcpEntry where
  dialect := dialect
  nativeName := nativeName
  exactEntry := exactEntry
  exactEntryHash := exactEntryHash
  exactDocumentHash := exactDocumentHash
  objectHash := hashObject lib.blake3 dialect nativeName exactEntryHash exactDocumentHash

def isPortable (observed : ObservedMcpServer lib.parseUrl) : Bool :=
  match observed.portability with
  | .portable _ => true
  | .blocked _ => false

def new (dialect : NativeMcpDialect) (exactDocumentHash : ContentHash)
    (observed : ObservedMcpServer lib.parseUrl) : Except McpError StoredNativeMcpEntry := do
  refuseIf (observed.contentClass != .agentActive || !isPortable lib observed)
    (nativeStorageError "mcp.native_storage_nonportable")
  let verified ← validateIsolatedPortableEntry lib dialect observed.nativeName observed.exactEntry
  refuseIf (verified.exactEntryHash != observed.exactEntryHash)
    (nativeStorageError "mcp.native_storage_hash_mismatch")
  pure (fromVerified lib dialect observed.nativeName observed.exactEntry observed.exactEntryHash
    exactDocumentHash)

def ofPersisted (persisted : PersistedNativeMcpEntry) : Except McpError StoredNativeMcpEntry := do
  refuseIf (persisted.schemaVersion != storedSchemaVersion || persisted.format != storedFormat)
    (nativeStorageError "mcp.native_storage_version")
  let verified ← validateIsolatedPortableEntry lib persisted.dialect persisted.nativeName
    persisted.exactEntry
  let expectedEntryHash := hashNativeEntry lib.blake3 persisted.dialect persisted.nativeName
    persisted.exactEntry
  refuseIf (verified.exactEntryHash != expectedEntryHash ||
      persisted.exactEntryHash != expectedEntryHash)
    (nativeStorageError "mcp.native_storage_hash_mismatch")
  let stored := fromVerified lib persisted.dialect persisted.nativeName persisted.exactEntry
    persisted.exactEntryHash persisted.exactDocumentHash
  refuseIf (stored.objectHash != persisted.objectHash)
    (nativeStorageError "mcp.native_storage_hash_mismatch")
  pure stored

def fromJson (input : Bytes) : Except McpError StoredNativeMcpEntry := do
  refuseIf (input.length > maxStoredNativeMcpBytes) (nativeStorageError "mcp.native_storage_limit")
  match codec.decode input with
  | none => .error (nativeStorageError "mcp.native_storage_invalid")
  | some persisted => ofPersisted lib persisted

def persisted (stored : StoredNativeMcpEntry) : PersistedNativeMcpEntry where
  schemaVersion := storedSchemaVersion
  format := storedFormat
  dialect := stored.dialect
  nativeName := stored.nativeName
  exactEntry := stored.exactEntry
  exactEntryHash := stored.exactEntryHash
  exactDocumentHash := stored.exactDocumentHash
  objectHash := stored.objectHash

def toJson (stored : StoredNativeMcpEntry) : Except McpError Bytes :=
  match codec.encode stored.persisted with
  | none => .error (nativeStorageError "mcp.native_storage_serialize")
  | some encoded => do
    refuseIf ((encoded ++ [newline]).length > maxStoredNativeMcpBytes)
      (nativeStorageError "mcp.native_storage_limit")
    pure (encoded ++ [newline])

variable {lib codec} {dialect : NativeMcpDialect} {documentHash : ContentHash}
  {observed : ObservedMcpServer lib.parseUrl} {stored : StoredNativeMcpEntry} {text : Bytes}
  {p : PersistedNativeMcpEntry}

/-- What is known of an entry in storage: its text passed on its own, and its hashes are right. -/
structure Verified (lib : Libraries) (stored : StoredNativeMcpEntry) : Prop where
  isolated : ∃ verified, validateIsolatedPortableEntry lib stored.dialect stored.nativeName
    stored.exactEntry = .ok verified
  entryHash : stored.exactEntryHash =
    hashNativeEntry lib.blake3 stored.dialect stored.nativeName stored.exactEntry
  objectHash : stored.objectHash = hashObject lib.blake3 stored.dialect stored.nativeName
    stored.exactEntryHash stored.exactDocumentHash

theorem validateIsolatedPortableEntry_hash {nativeName exact : Bytes}
    {verified : ObservedMcpServer lib.parseUrl}
    (h : validateIsolatedPortableEntry lib dialect nativeName exact = .ok verified) :
    verified.exactEntryHash = hashNativeEntry lib.blake3 dialect nativeName exact := by
  unfold validateIsolatedPortableEntry at h
  obtain ⟨documents, -, h⟩ := Except.bind_eq_ok_iff.mp h
  split at h
  · rw [← Except.ok.inj h]
    rfl
  · contradiction

theorem new_verified (h : new lib dialect documentHash observed = .ok stored) :
    stored.Verified lib := by
  unfold new at h
  obtain ⟨-, h⟩ := refuseIf_bind_eq_ok.mp h
  obtain ⟨verified, hverified, h⟩ := Except.bind_eq_ok_iff.mp h
  obtain ⟨hhash, h⟩ := refuseIf_bind_eq_ok.mp h
  rw [← Except.ok.inj h]
  refine ⟨⟨verified, hverified⟩, ?_, rfl⟩
  have heq : verified.exactEntryHash = observed.exactEntryHash := by simpa using hhash
  rw [fromVerified, ← heq, validateIsolatedPortableEntry_hash hverified]

theorem ofPersisted_verified (h : ofPersisted lib p = .ok stored) : stored.Verified lib := by
  unfold ofPersisted at h
  obtain ⟨-, h⟩ := refuseIf_bind_eq_ok.mp h
  obtain ⟨verified, hverified, h⟩ := Except.bind_eq_ok_iff.mp h
  obtain ⟨hhash, h⟩ := refuseIf_bind_eq_ok.mp h
  obtain ⟨-, h⟩ := refuseIf_bind_eq_ok.mp h
  rw [← Except.ok.inj h]
  rw [Bool.or_eq_false_iff] at hhash
  refine ⟨⟨verified, hverified⟩, ?_, rfl⟩
  simpa [fromVerified] using hhash.2

theorem fromJson_verified (h : fromJson lib codec text = .ok stored) : stored.Verified lib := by
  unfold fromJson at h
  obtain ⟨-, h⟩ := refuseIf_bind_eq_ok.mp h
  split at h
  · contradiction
  · exact ofPersisted_verified h

theorem ofPersisted_persisted (h : stored.Verified lib) :
    ofPersisted lib stored.persisted = .ok stored := by
  obtain ⟨verified, hverified⟩ := h.isolated
  have hhash := validateIsolatedPortableEntry_hash hverified
  have hobject : (fromVerified lib stored.dialect stored.nativeName stored.exactEntry
      stored.exactEntryHash stored.exactDocumentHash) = stored := by
    rw [fromVerified, ← h.objectHash]
  unfold ofPersisted
  simp only [persisted, hverified, hobject]
  simp [refuseIf, bind, Except.bind, pure, Except.pure, hhash, h.entryHash]

/-- An entry whose text fits is read back as it was. -/
theorem fromJson_toJson (hcodec : codec.Lawful) (h : stored.Verified lib)
    (htext : toJson codec stored = .ok text) : fromJson lib codec text = .ok stored := by
  unfold toJson at htext
  split at htext
  · contradiction
  · rename_i encoded hencoded
    obtain ⟨hlimit, htext⟩ := refuseIf_bind_eq_ok.mp htext
    obtain rfl := Except.ok.inj htext
    unfold fromJson
    rw [hlimit, hcodec.decode_encode _ _ hencoded]
    exact ofPersisted_persisted h

theorem toJson_eq_ok_iff : (∃ text, toJson codec stored = .ok text) ↔
    ∃ encoded, codec.encode stored.persisted = some encoded ∧
      encoded.length < maxStoredNativeMcpBytes := by
  unfold toJson
  cases codec.encode stored.persisted with
  | none => simp
  | some encoded =>
    simp only [refuseIf_bind_eq_ok, List.length_append, List.length_singleton, gt_iff_lt,
      decide_eq_false_iff_not, Option.some.injEq, exists_eq_left']
    constructor
    · rintro ⟨text, hlimit, -⟩
      omega
    · intro hlimit
      exact ⟨_, by omega, rfl⟩

end StoredNativeMcpEntry

end Kitrove.Mcp
