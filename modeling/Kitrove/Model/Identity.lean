import Kitrove.Model.Text
import Kitrove.Support.OrdMap

/-! Validated names: identifiers, digests, paths and revisions, and the harnesses. -/

namespace Kitrove

open Std

inductive NameKind where
  | asset
  | binding
  | profile
  | contentHash
  | provenance
  | path
  | revision
  | repository
  | community
  | snapshotDigest
  | remoteRevision
  | machine
  | receipt
  | packApplication
  deriving DecidableEq

section Shapes

def validPath (value : Bytes) : Bool :=
  !(value.isEmpty || value.head? == some 0x2F || value.contains 0x5C || value.contains 0x3A ||
    (splitOn 0x2F value).any fun segment =>
      segment.isEmpty || segment == ascii "." || segment == ascii "..")

def validQualifiedDigest (qualifier value : Bytes) : Bool :=
  match stripPrefix qualifier value with
  | none => false
  | some digest => validDigest digest

def validRevision (value : Bytes) : Bool :=
  !(isBlank value || value.contains 0x0D || value.contains 0x0A)

/-- A repository URL's host and path, both present. -/
def hasHostAndPath (value : Bytes) : Bool :=
  match splitOn 0x2F value with
  | authority :: segment :: segments => !authority.isEmpty && !(segment.isEmpty && segments.isEmpty)
  | _ => false

def validRepositoryUrl (value : Bytes) : Bool :=
  !(value.contains 0x3F || value.contains 0x23 || containsBlank value) &&
    match stripPrefix (ascii "https://") value with
    | some rest => !(rest.takeWhile (· != 0x2F)).contains 0x40 && hasHostAndPath rest
    | none =>
      match stripPrefix (ascii "ssh://") value with
      | none => false
      | some rest =>
        (match splitOn 0x40 (rest.takeWhile (· != 0x2F)) with
          | [_] => true
          | [user, _] => !(user.isEmpty || user.contains 0x3A)
          | _ => false) && hasHostAndPath rest

def validCommunityHarnessId (value : Bytes) : Bool :=
  2 ≤ (splitOn 0x2F value).length && (splitOn 0x2F value).all validIdentifier

def maxRemoteRevisionBytes : Nat := 1024

def validRemoteRevision (value : Bytes) : Bool :=
  !(value.isEmpty || value.length > maxRemoteRevisionBytes) &&
    value.all fun b => 0x20 ≤ b && b ≤ 0x7E

def contentHashQualifier : Bytes := ascii "blake3:"
def provenanceQualifier : Bytes := ascii "provenance:blake3:"
def snapshotDigestQualifier : Bytes := ascii "snapshot:blake3:"

def NameKind.valid : NameKind → Bytes → Bool
  | .asset | .binding | .profile | .machine | .receipt | .packApplication => validIdentifier
  | .contentHash => validQualifiedDigest contentHashQualifier
  | .provenance => validQualifiedDigest provenanceQualifier
  | .snapshotDigest => validQualifiedDigest snapshotDigestQualifier
  | .path => validPath
  | .revision => validRevision
  | .repository => validRepositoryUrl
  | .community => validCommunityHarnessId
  | .remoteRevision => validRemoteRevision

end Shapes

/-- A text of one of the validated kinds; no string is longer than `isize::MAX`. -/
structure Name (kind : NameKind) where
  bytes : Bytes
  valid : kind.valid bytes = true
  bounded : bytes.length < 2 ^ 63
  deriving DecidableEq

instance lawfulBEqName (kind : NameKind) : LawfulBEq (Name kind) := inferInstance

abbrev AssetId := Name .asset
abbrev BindingName := Name .binding
abbrev ProfileId := Name .profile
abbrev ContentHash := Name .contentHash
abbrev ProvenanceId := Name .provenance
abbrev PortablePath := Name .path
abbrev Revision := Name .revision
abbrev RepositoryUrl := Name .repository
abbrev CommunityHarnessId := Name .community
abbrev SnapshotDigest := Name .snapshotDigest
abbrev RemoteRevision := Name .remoteRevision
abbrev MachineId := Name .machine
abbrev ReceiptId := Name .receipt
abbrev PackApplicationId := Name .packApplication

namespace Name

variable {kind : NameKind}

def parse (kind : NameKind) (value : Bytes) : Option (Name kind) :=
  if h : kind.valid value = true ∧ value.length < 2 ^ 63 then some ⟨value, h.1, h.2⟩ else none

theorem ext_bytes {a b : Name kind} (h : a.bytes = b.bytes) : a = b := by
  cases a
  cases b
  congr

instance : Ord (Name kind) := ⟨compareOn bytes⟩

instance : TransOrd (Name kind) := inferInstanceAs (TransCmp (compareOn bytes))

instance : LawfulEqOrd (Name kind) := lawfulEqCmp_compareOn fun _ _ h => ext_bytes h

end Name

inductive HarnessScope where
  | user
  | project
  deriving DecidableEq

def HarnessScope.asStr : HarnessScope → Bytes
  | .user => ascii "user"
  | .project => ascii "project"

inductive HarnessId where
  | claude
  | codex
  | pi
  | openCode
  | other (id : CommunityHarnessId)
  deriving DecidableEq

namespace HarnessId

def asStr : HarnessId → Bytes
  | .claude => ascii "claude"
  | .codex => ascii "codex"
  | .pi => ascii "pi"
  | .openCode => ascii "opencode"
  | .other value => value.bytes

/-- The derived order goes by constructor, then by the community identifier. -/
def key : HarnessId → Bytes
  | .claude => [0]
  | .codex => [1]
  | .pi => [2]
  | .openCode => [3]
  | .other value => 4 :: value.bytes

theorem key_injective {a b : HarnessId} (h : a.key = b.key) : a = b := by
  cases a <;> cases b <;> simp_all [key]
  exact Name.ext_bytes h

instance : Ord HarnessId := ⟨compareOn key⟩

instance : TransOrd HarnessId := inferInstanceAs (TransCmp (compareOn key))

instance : LawfulEqOrd HarnessId := lawfulEqCmp_compareOn fun _ _ h => key_injective h

end HarnessId

section Digests

/-- A BLAKE3 digest in hexadecimal. -/
structure Digest where
  hex : Bytes
  valid : validDigest hex = true
  deriving DecidableEq

theorem Digest.length (digest : Digest) : digest.hex.length = 64 := by
  have h := digest.valid
  simp only [validDigest, Bool.and_eq_true, beq_iff_eq] at h
  exact h.1

def ContentHash.ofDigest (digest : Digest) : ContentHash where
  bytes := contentHashQualifier ++ digest.hex
  valid := by
    rw [NameKind.valid, validQualifiedDigest, stripPrefix_append]
    exact digest.valid
  bounded := by
    rw [List.length_append, digest.length]
    decide +kernel

def ProvenanceId.ofDigest (digest : Digest) : ProvenanceId where
  bytes := provenanceQualifier ++ digest.hex
  valid := by
    rw [NameKind.valid, validQualifiedDigest, stripPrefix_append]
    exact digest.valid
  bounded := by
    rw [List.length_append, digest.length]
    decide +kernel

def SnapshotDigest.ofDigest (digest : Digest) : SnapshotDigest where
  bytes := snapshotDigestQualifier ++ digest.hex
  valid := by
    rw [NameKind.valid, validQualifiedDigest, stripPrefix_append]
    exact digest.valid
  bounded := by
    rw [List.length_append, digest.length]
    decide +kernel

theorem validIdentifier_append {a b : Bytes} (ha : validIdentifier a = true)
    (hb : b.all lowercaseHex = true) : validIdentifier (a ++ b) = true := by
  cases a with
  | nil => contradiction
  | cons first rest =>
    simp only [validIdentifier, List.cons_append, Bool.and_eq_true, List.all_append] at ha ⊢
    refine ⟨ha.1, ha.2, ?_⟩
    rw [List.all_eq_true] at hb ⊢
    intro byte hbyte
    have hhex := hb byte hbyte
    simp only [lowercaseHex, lowercaseOrDigit, Bool.or_eq_true, Bool.and_eq_true,
      decide_eq_true_eq] at hhex ⊢
    have hle : (0x66 : UInt8) ≤ 0x7A := by decide
    rcases hhex with hdigit | hletter
    · exact .inl (.inl (.inl (.inr hdigit)))
    · exact .inl (.inl (.inl (.inl ⟨hletter.1, UInt8.le_trans hletter.2 hle⟩)))

theorem Digest.receipt_valid (digest : Digest) :
    NameKind.receipt.valid (ascii "receipt-" ++ digest.hex) = true := by
  have h := digest.valid
  rw [validDigest, Bool.and_eq_true] at h
  have hstarts : validIdentifier (ascii "receipt-") = true := by decide +kernel
  rw [NameKind.valid]
  exact validIdentifier_append hstarts h.2

theorem Digest.receipt_bounded (digest : Digest) :
    (ascii "receipt-" ++ digest.hex).length < 2 ^ 63 := by
  rw [List.length_append, digest.length]
  decide +kernel

def ReceiptId.ofDigest (digest : Digest) : ReceiptId where
  bytes := ascii "receipt-" ++ digest.hex
  valid := digest.receipt_valid
  bounded := digest.receipt_bounded

end Digests

end Kitrove
