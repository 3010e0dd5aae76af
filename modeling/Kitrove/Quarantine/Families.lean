import Kitrove.Quarantine.Names

/-! The quarantine names that a family's parser accepts are those its encoder writes, and no name
belongs to two families. -/

namespace Kitrove.QuarantineName

open Prompts (splitOnce)
open Segments (join splitOn_join join_splitOn)

variable {platform : Platform} {value nonce text name front : Bytes}

section Digits

theorem lowercaseHex_eq : lowercaseHex = Hex.isDigit := rfl

theorem isLowerHex_iff {n : Nat} :
    isLowerHex value n = true ↔ value.length = n ∧ value.all Hex.isDigit = true := by
  rw [isLowerHex, Bool.and_eq_true, beq_iff_eq, lowercaseHex_eq]

theorem isLowerHex_fixedHex {n : UInt64} : isLowerHex (fixedHex n) identityHexLen = true :=
  isLowerHex_iff.mpr ⟨Hex.length_fixed, Hex.isDigit_fixed⟩

theorem isLowerHex_encode {bytes : Bytes} (h : bytes.length = 16) :
    isLowerHex (Hex.encode bytes) windowsFileIdHexLen = true := by
  refine isLowerHex_iff.mpr ⟨?_, Hex.isDigit_encode⟩
  rw [Hex.length_encode, h]
  rfl

theorem isDigit_ne_hyphen {n : Nat} (h : isLowerHex value n = true) : hyphen ∉ value := by
  intro hmem
  have hdigit := List.all_eq_true.mp (isLowerHex_iff.mp h).2 hyphen hmem
  revert hdigit
  decide

theorem ascii_of_isLowerHex {n : Nat} (h : isLowerHex value n = true) : ∀ b ∈ value, b < 0x80 :=
  fun b hb => Hex.isDigit_ascii (List.all_eq_true.mp (isLowerHex_iff.mp h).2 b hb)

/-- Sixteen digits are read as the number that they spell. -/
theorem parseFixedHex_eq_some {n : UInt64} : parseFixedHex value = some n ↔ value = fixedHex n := by
  constructor
  · intro h
    rw [parseFixedHex] at h
    split at h
    swap
    · contradiction
    rename_i hhex
    obtain ⟨hlength, hdigits⟩ := isLowerHex_iff.mp hhex
    rw [fromStrRadix] at h
    split at h
    swap
    · contradiction
    rename_i hlt
    obtain rfl := Option.some.inj h
    have hnat : (UInt64.ofNat (Hex.number value)).toNat = Hex.number value := Nat.mod_eq_of_lt hlt
    rw [fixedHex, hnat, ← hlength, Hex.fixed_number hdigits]
  · rintro rfl
    have hlt : n.toNat < 2 ^ 64 := n.toNat_lt
    have hnumber : Hex.number (fixedHex n) = n.toNat := Hex.number_fixed hlt
    rw [parseFixedHex, if_pos isLowerHex_fixedHex, fromStrRadix, hnumber, if_pos hlt,
      UInt64.ofNat_toNat]

theorem singleAsciiByte_eq_some {b : UInt8} : singleAsciiByte value = some b ↔ value = [b] := by
  match value with
  | [] => exact ⟨nofun, nofun⟩
  | [c] => simp [singleAsciiByte]
  | _ :: _ :: _ => exact ⟨nofun, nofun⟩

theorem fromTag_eq_some {tag : UInt8} {kind : RemovedObjectKind} :
    RemovedObjectKind.fromTag tag = some kind ↔ tag = kind.tag := by
  rw [RemovedObjectKind.fromTag]
  cases kind with
  | file =>
    by_cases h : tag = 0x66
    · simp [h, RemovedObjectKind.tag]
    · simp [h, RemovedObjectKind.tag]
  | directory =>
    by_cases h : tag = 0x66
    · subst h
      decide
    · simp [h, RemovedObjectKind.tag]

theorem tag_ne_hyphen (kind : RemovedObjectKind) : kind.tag ≠ hyphen := by
  cases kind <;> decide

theorem tag_ascii (kind : RemovedObjectKind) : kind.tag < 0x80 := by
  cases kind <;> decide

end Digits

section Splitting

theorem join_two {a b : Bytes} : join hyphen [a, b] = a ++ hyphen :: b := by
  simp [join, List.intercalate]

theorem join_three {a b c : Bytes} :
    join hyphen [a, b, c] = a ++ hyphen :: (b ++ hyphen :: c) := by
  simp [join, List.intercalate]

theorem splitOn_two {a b : Bytes} (ha : hyphen ∉ a) (hb : hyphen ∉ b) :
    splitOn hyphen (a ++ hyphen :: b) = [a, b] := by
  rw [splitOn_eq_splitOn, ← join_two, splitOn_join (List.cons_ne_nil _ _)]
  simp [ha, hb]

theorem eq_of_splitOn_two {a b : Bytes} (h : splitOn hyphen text = [a, b]) :
    text = a ++ hyphen :: b := by
  rw [splitOn_eq_splitOn] at h
  rw [← join_splitOn hyphen text, h, join_two]

theorem splitOn_three {a b c : Bytes} (ha : hyphen ∉ a) (hb : hyphen ∉ b) (hc : hyphen ∉ c) :
    splitOn hyphen (a ++ hyphen :: (b ++ hyphen :: c)) = [a, b, c] := by
  rw [splitOn_eq_splitOn, ← join_three, splitOn_join (List.cons_ne_nil _ _)]
  simp [ha, hb, hc]

theorem eq_of_splitOn_three {a b c : Bytes} (h : splitOn hyphen text = [a, b, c]) :
    text = a ++ hyphen :: (b ++ hyphen :: c) := by
  rw [splitOn_eq_splitOn] at h
  rw [← join_splitOn hyphen text, h, join_three]

theorem splitOnce_cons {b : UInt8} (h : b ≠ hyphen) :
    splitOnce hyphen (b :: hyphen :: text) = some ([b], text) := by
  rw [splitOnce, if_neg h, splitOnce, if_pos rfl]
  rfl

theorem eq_of_splitOnce {a b : Bytes} (h : splitOnce hyphen text = some (a, b)) :
    text = a ++ hyphen :: b := by
  induction text generalizing a with
  | nil => contradiction
  | cons c text ih =>
    rw [splitOnce] at h
    split at h
    · rename_i hc
      obtain ⟨rfl, rfl⟩ := Prod.mk.inj (Option.some.inj h)
      rw [hc]
      rfl
    · obtain ⟨⟨a', b'⟩, hparts, heq⟩ := Option.map_eq_some_iff.mp h
      obtain ⟨rfl, rfl⟩ := Prod.mk.inj heq
      rw [ih hparts]
      rfl

theorem stripPrefix_eq_some {rest : Bytes} : stripPrefix front text = some rest ↔
    text = front ++ rest := by
  rw [stripPrefix]
  constructor
  · intro h
    split at h
    swap
    · contradiction
    rename_i hopens
    obtain ⟨rest', rfl⟩ := List.isPrefixOf_iff_prefix.mp hopens
    rw [List.drop_left, Option.some.injEq] at h
    rw [h]
  · rintro rfl
    exact stripPrefix_append

/-- What is behind the beginning of a name that is text. -/
theorem stripPrefix_toStr {rest : Bytes} :
    (toStr name).bind (stripPrefix front) = some rest ↔
      Utf8.valid name = true ∧ name = front ++ rest := by
  rw [toStr]
  split
  · rename_i hvalid
    rw [Option.bind_some, stripPrefix_eq_some]
    exact ⟨fun h => ⟨hvalid, h⟩, fun h => h.2⟩
  · rename_i hvalid
    exact ⟨nofun, fun h => absurd h.1 hvalid⟩

end Splitting

section Identities

/-- An identity as its encoder spells it, with the hyphen between its two parts. -/
def identityText : (platform : Platform) → PlatformIdentity platform → Bytes
  | .unix, identity => fixedHex identity.device ++ hyphen :: fixedHex identity.inode
  | .windows, identity =>
    fixedHex identity.volumeSerialNumber ++ hyphen :: Hex.encode identity.fileId

theorem encodeIdentityNonce_eq_some {identity : PlatformIdentity platform} :
    encodeIdentityNonce platform front identity nonce = some name ↔
      isLowerHex nonce nonceHexLen = true ∧
        name = front ++ (identityText platform identity ++ hyphen :: nonce) := by
  cases platform with
  | unix =>
    rw [encodeIdentityNonce, identityText, Option.ite_none_right_eq_some, Option.some.injEq,
      List.append_assoc, List.cons_append, eq_comm (a := name)]
  | windows =>
    rw [encodeIdentityNonce, identityText, Option.ite_none_right_eq_some, Option.some.injEq,
      List.append_assoc, List.cons_append, eq_comm (a := name)]

theorem decodeFileId_eq_some {volume : UInt64} {identity : WindowsFileIdentity}
    (hhex : isLowerHex value windowsFileIdHexLen = true) :
    decodeFileId value volume = some identity ↔
      identity.volumeSerialNumber = volume ∧ value = Hex.encode identity.fileId := by
  obtain ⟨hlength, hdigits⟩ := isLowerHex_iff.mp hhex
  obtain ⟨bytes, hbytes, hsixteen⟩ := Hex.decode_isSome (n := 16) hdigits hlength
  have hencode := Hex.encode_decode hbytes
  have hdecode : decodeFileId value volume = some ⟨volume, bytes, hsixteen⟩ := by
    rw [decodeFileId, hbytes]
    exact dif_pos hsixteen
  rw [hdecode, Option.some.injEq]
  constructor
  · rintro rfl
    exact ⟨rfl, hencode.symm⟩
  · rintro ⟨rfl, hvalue⟩
    obtain ⟨volume, fileId, hfileId⟩ := identity
    have heq : bytes = fileId := by
      rw [hvalue] at hbytes
      exact Option.some.inj (hbytes.symm.trans Hex.decode_encode)
    subst heq
    rfl

theorem parseIdentityNonce_eq_some {identity : PlatformIdentity platform} :
    parseIdentityNonce platform text = some identity ↔
      ∃ nonce, isLowerHex nonce nonceHexLen = true ∧
        text = identityText platform identity ++ hyphen :: nonce := by
  cases platform with
  | unix =>
    rw [parseIdentityNonce]
    constructor
    · intro h
      split at h
      swap
      · contradiction
      rename_i device inode nonce hsplit
      simp only [Option.bind_eq_bind, Option.bind_eq_some_iff, Option.ite_none_right_eq_some,
        Option.some.injEq, parseFixedHex_eq_some] at h
      obtain ⟨device, rfl, inode, rfl, hnonce, rfl⟩ := h
      refine ⟨nonce, hnonce, ?_⟩
      rw [eq_of_splitOn_three hsplit, identityText, List.append_assoc, List.cons_append]
    · rintro ⟨nonce, hnonce, htext⟩
      have hsplit := splitOn_three (isDigit_ne_hyphen (@isLowerHex_fixedHex identity.device))
        (isDigit_ne_hyphen (@isLowerHex_fixedHex identity.inode)) (isDigit_ne_hyphen hnonce)
      rw [htext, identityText, List.append_assoc, List.cons_append, hsplit]
      simp only [Option.bind_eq_bind, Option.bind_eq_some_iff, Option.ite_none_right_eq_some,
        Option.some.injEq, parseFixedHex_eq_some]
      exact ⟨identity.device, rfl, identity.inode, rfl, hnonce, rfl⟩
  | windows =>
    rw [parseIdentityNonce]
    constructor
    · intro h
      split at h
      swap
      · contradiction
      rename_i volume fileId nonce hsplit
      simp only [Option.bind_eq_bind, Option.bind_eq_some_iff, Option.ite_none_right_eq_some,
        Bool.and_eq_true, parseFixedHex_eq_some] at h
      obtain ⟨volume, rfl, ⟨hfileId, hnonce⟩, hidentity⟩ := h
      obtain ⟨rfl, rfl⟩ := (decodeFileId_eq_some hfileId).mp hidentity
      refine ⟨nonce, hnonce, ?_⟩
      rw [eq_of_splitOn_three hsplit, identityText, List.append_assoc, List.cons_append]
    · rintro ⟨nonce, hnonce, htext⟩
      have hfileId := isLowerHex_encode identity.length
      have hsplit := splitOn_three
        (isDigit_ne_hyphen (@isLowerHex_fixedHex identity.volumeSerialNumber))
        (isDigit_ne_hyphen hfileId) (isDigit_ne_hyphen hnonce)
      rw [htext, identityText, List.append_assoc, List.cons_append, hsplit]
      simp only [Option.bind_eq_bind, Option.bind_eq_some_iff, Option.ite_none_right_eq_some,
        Bool.and_eq_true, parseFixedHex_eq_some]
      exact ⟨identity.volumeSerialNumber, rfl, ⟨hfileId, hnonce⟩, (decodeFileId_eq_some hfileId).mpr ⟨rfl, rfl⟩⟩

theorem identityText_ascii {identity : PlatformIdentity platform} :
    ∀ b ∈ identityText platform identity, b < 0x80 := by
  have hparts : ∀ {first second : Bytes} {m n : Nat}, isLowerHex first m = true →
      isLowerHex second n = true → ∀ b ∈ first ++ hyphen :: second, b < 0x80 := by
    intro first second m n hfirst hsecond b hb
    rw [List.mem_append, List.mem_cons] at hb
    rcases hb with hb | rfl | hb
    · exact ascii_of_isLowerHex hfirst b hb
    · decide
    · exact ascii_of_isLowerHex hsecond b hb
  cases platform with
  | unix => exact hparts isLowerHex_fixedHex isLowerHex_fixedHex
  | windows => exact hparts isLowerHex_fixedHex (isLowerHex_encode identity.length)

end Identities

section Parsers

theorem valid_of_parts (hfront : ∀ b ∈ front, b < 0x80)
    (hnonce : isLowerHex nonce nonceHexLen = true) : Utf8.valid (front ++ nonce) = true := by
  refine Utf8.valid_of_ascii fun b hb => ?_
  rcases List.mem_append.mp hb with hb | hb
  · exact hfront b hb
  · exact ascii_of_isLowerHex hnonce b hb

/-- A parser for an identity behind a family's prefix accepts what the encoder writes. -/
theorem bind_parseIdentityNonce {identity : PlatformIdentity platform}
    (hfront : ∀ b ∈ front, b < 0x80) :
    (((toStr name).bind (stripPrefix front)).bind (parseIdentityNonce platform)) = some identity ↔
      ∃ nonce, encodeIdentityNonce platform front identity nonce = some name := by
  simp only [Option.bind_eq_some_iff (x := (toStr name).bind (stripPrefix front)),
    stripPrefix_toStr, parseIdentityNonce_eq_some, encodeIdentityNonce_eq_some]
  constructor
  · rintro ⟨rest, ⟨-, hname⟩, nonce, hnonce, hrest⟩
    exact ⟨nonce, hnonce, by rw [hname, hrest]⟩
  · rintro ⟨nonce, hnonce, hname⟩
    refine ⟨_, ⟨?_, hname⟩, nonce, hnonce, rfl⟩
    have hsplit : front ++ (identityText platform identity ++ hyphen :: nonce) =
        (front ++ identityText platform identity ++ [hyphen]) ++ nonce := by
      simp [List.append_assoc]
    rw [hname, hsplit]
    refine valid_of_parts (fun b hb => ?_) hnonce
    rw [List.mem_append, List.mem_append, List.mem_singleton] at hb
    rcases hb with (hb | hb) | rfl
    · exact hfront b hb
    · exact identityText_ascii b hb
    · decide

theorem RetainedTombstoneName.parse_eq_some {retained : RetainedTombstoneName} :
    RetainedTombstoneName.parse name = some retained ↔
      ∃ nonce, retained.encode nonce = some name := by
  have hparse : RetainedTombstoneName.parse name = _ :=
    (Option.bind_assoc (toStr name) (stripPrefix retainedPrefix) _).symm
  rw [hparse, Option.bind_eq_some_iff]
  simp only [stripPrefix_toStr, RetainedTombstoneName.encode, Option.ite_none_right_eq_some,
    Option.some.injEq]
  constructor
  · rintro ⟨encoded, ⟨-, rfl⟩, h⟩
    split at h
    swap
    · contradiction
    rename_i kind nonce hsplit
    simp only [Option.bind_eq_bind, Option.bind_eq_some_iff, Option.ite_none_right_eq_some,
      Option.some.injEq, singleAsciiByte_eq_some, fromTag_eq_some] at h
    obtain ⟨tag, rfl, kind, rfl, hnonce, rfl⟩ := h
    refine ⟨nonce, hnonce, ?_⟩
    rw [eq_of_splitOn_two hsplit]
    rfl
  · rintro ⟨nonce, hnonce, rfl⟩
    have hhead : ∀ b ∈ retainedPrefix ++ [retained.kind.tag, hyphen], b < 0x80 := by
      cases retained.kind <;> decide +kernel
    have hvalid := valid_of_parts hhead hnonce
    rw [List.append_assoc, List.cons_append, List.cons_append, List.nil_append] at hvalid
    have hkind : hyphen ∉ [retained.kind.tag] := fun h =>
      tag_ne_hyphen _ (List.mem_singleton.mp h).symm
    have hsplit : splitOn hyphen (retained.kind.tag :: hyphen :: nonce) =
        [[retained.kind.tag], nonce] := splitOn_two hkind (isDigit_ne_hyphen hnonce)
    refine ⟨_, ⟨hvalid, rfl⟩, ?_⟩
    rw [hsplit]
    simp only [Option.bind_eq_bind, Option.bind_eq_some_iff, Option.ite_none_right_eq_some,
      Option.some.injEq, singleAsciiByte_eq_some, fromTag_eq_some]
    exact ⟨retained.kind.tag, rfl, retained.kind, rfl, hnonce, rfl⟩

theorem RemovalTombstoneName.parse_eq_some {removal : RemovalTombstoneName platform} :
    RemovalTombstoneName.parse name = some removal ↔
      ∃ nonce, removal.encode nonce = some name := by
  have hfront : ∀ b ∈ removedPrefix platform ++ [removal.kind.tag, hyphen], b < 0x80 := by
    cases platform <;> cases removal.kind <;> decide +kernel
  refine Iff.trans ?_ (bind_parseIdentityNonce hfront)
  have hparse : @RemovalTombstoneName.parse platform name =
      ((toStr name).bind (stripPrefix (removedPrefix platform))).bind fun encoded =>
        (splitOnce hyphen encoded).bind fun parts =>
          (singleAsciiByte parts.1).bind fun tag =>
            (RemovedObjectKind.fromTag tag).bind fun kind =>
              (parseIdentityNonce platform parts.2).bind fun identity => some ⟨kind, identity⟩ := by
    rw [Option.bind_assoc]
    rfl
  rw [hparse, Option.bind_eq_some_iff, Option.bind_eq_some_iff]
  simp only [stripPrefix_toStr]
  simp only [Option.bind_eq_some_iff, singleAsciiByte_eq_some, fromTag_eq_some, Option.some.injEq]
  constructor
  · rintro ⟨encoded, ⟨hvalid, hname⟩, ⟨first, rest⟩, hsplit, tag, hfirst, kind, rfl, identity,
      hidentity, rfl⟩
    obtain rfl : first = [kind.tag] := hfirst
    refine ⟨rest, ⟨hvalid, ?_⟩, hidentity⟩
    rw [hname, eq_of_splitOnce hsplit, List.append_assoc]
    rfl
  · rintro ⟨rest, ⟨hvalid, hname⟩, hidentity⟩
    rw [List.append_assoc] at hname
    exact ⟨_, ⟨hvalid, hname⟩, ([removal.kind.tag], rest), splitOnce_cons (tag_ne_hyphen _),
      removal.kind.tag, rfl, removal.kind, rfl, removal.identity, hidentity, rfl⟩

theorem CleanupPendingName.parse_eq_some {pending : Unit} :
    CleanupPendingName.parse name = some pending ↔
      ∃ nonce, CleanupPendingName.encode nonce = some name := by
  have hparse : CleanupPendingName.parse name =
      ((toStr name).bind (stripPrefix cleanupPendingPrefix)).bind fun nonce =>
        if isLowerHex nonce nonceHexLen then some ⟨⟩ else none := by
    rw [Option.bind_assoc]
    rfl
  rw [hparse, Option.bind_eq_some_iff]
  simp only [stripPrefix_toStr, CleanupPendingName.encode, Option.ite_none_right_eq_some,
    Option.some.injEq, and_true]
  constructor
  · rintro ⟨nonce, ⟨-, rfl⟩, hnonce⟩
    exact ⟨nonce, hnonce, rfl⟩
  · rintro ⟨nonce, hnonce, rfl⟩
    exact ⟨nonce, ⟨valid_of_parts (by decide +kernel) hnonce, rfl⟩, hnonce⟩

theorem CleanupBatchName.parse_eq_some {batch : CleanupBatchName platform} :
    CleanupBatchName.parse name = some batch ↔ ∃ nonce, batch.encode nonce = some name := by
  have hfront : ∀ b ∈ cleanupBatchPrefix platform, b < 0x80 := by
    cases platform <;> decide +kernel
  refine Iff.trans ?_ (bind_parseIdentityNonce hfront)
  have hparse : @CleanupBatchName.parse platform name =
      (((toStr name).bind (stripPrefix (cleanupBatchPrefix platform))).bind
        (parseIdentityNonce platform)).bind fun identity => some ⟨identity⟩ := by
    rw [Option.bind_assoc, Option.bind_assoc]
    rfl
  rw [hparse, Option.bind_eq_some_iff]
  constructor
  · rintro ⟨identity, hidentity, heq⟩
    rw [← Option.some.inj heq]
    exact hidentity
  · exact fun h => ⟨batch.identity, h, rfl⟩

theorem CleanupLeafName.parse_eq_some {leaf : CleanupLeafName platform} :
    CleanupLeafName.parse name = some leaf ↔ ∃ nonce, leaf.encode nonce = some name := by
  have hfront : ∀ b ∈ cleanupLeafPrefix platform, b < 0x80 := by
    cases platform <;> decide +kernel
  refine Iff.trans ?_ (bind_parseIdentityNonce hfront)
  have hparse : @CleanupLeafName.parse platform name =
      (((toStr name).bind (stripPrefix (cleanupLeafPrefix platform))).bind
        (parseIdentityNonce platform)).bind fun identity => some ⟨identity⟩ := by
    rw [Option.bind_assoc, Option.bind_assoc]
    rfl
  rw [hparse, Option.bind_eq_some_iff]
  constructor
  · rintro ⟨identity, hidentity, heq⟩
    rw [← Option.some.inj heq]
    exact hidentity
  · exact fun h => ⟨leaf.identity, h, rfl⟩

end Parsers

section Families

inductive Family where
  | removal
  | retained
  | cleanupPending
  | cleanupBatch
  | cleanupLeaf
  deriving DecidableEq

/-- A name of any family, by the parts that its encoder is given. -/
inductive QuarantinedName (platform : Platform) where
  | removal (name : RemovalTombstoneName platform)
  | retained (name : RetainedTombstoneName)
  | cleanupPending
  | cleanupBatch (name : CleanupBatchName platform)
  | cleanupLeaf (name : CleanupLeafName platform)

namespace QuarantinedName

def family : QuarantinedName platform → Family
  | .removal _ => .removal
  | .retained _ => .retained
  | .cleanupPending => .cleanupPending
  | .cleanupBatch _ => .cleanupBatch
  | .cleanupLeaf _ => .cleanupLeaf

def encode : QuarantinedName platform → Bytes → Option Bytes
  | .removal name, nonce => name.encode nonce
  | .retained name, nonce => name.encode nonce
  | .cleanupPending, nonce => CleanupPendingName.encode nonce
  | .cleanupBatch name, nonce => name.encode nonce
  | .cleanupLeaf name, nonce => name.encode nonce

/-- What the parser of a family makes of a file name. -/
def parse (family : Family) (name : Bytes) : Option (QuarantinedName platform) :=
  match family with
  | .removal => (RemovalTombstoneName.parse name).map .removal
  | .retained => (RetainedTombstoneName.parse name).map .retained
  | .cleanupPending => (CleanupPendingName.parse name).map fun _ => .cleanupPending
  | .cleanupBatch => (CleanupBatchName.parse name).map .cleanupBatch
  | .cleanupLeaf => (CleanupLeafName.parse name).map .cleanupLeaf

variable {quarantined : QuarantinedName platform} {kind : Family}

theorem parse_eq_some : parse kind name = some quarantined ↔
    quarantined.family = kind ∧ ∃ nonce, quarantined.encode nonce = some name := by
  cases kind <;> cases quarantined <;>
    simp [parse, family, encode, RemovalTombstoneName.parse_eq_some,
      RetainedTombstoneName.parse_eq_some, CleanupPendingName.parse_eq_some,
      CleanupBatchName.parse_eq_some, CleanupLeafName.parse_eq_some]

end QuarantinedName

def familyPrefix (platform : Platform) : Family → Bytes
  | .removal => removedPrefix platform
  | .retained => retainedPrefix
  | .cleanupPending => cleanupPendingPrefix
  | .cleanupBatch => cleanupBatchPrefix platform
  | .cleanupLeaf => cleanupLeafPrefix platform

/-- What a family's names begin with begins no other family's, on any platform. -/
theorem family_of_longer {platform other : Platform} {kind kind' : Family}
    (h : familyPrefix platform kind <+: familyPrefix other kind') : kind = kind' := by
  revert h
  cases kind <;> cases kind' <;> cases platform <;> cases other <;> decide

theorem family_of_prefixes {platform other : Platform} {kind kind' : Family}
    (h : familyPrefix platform kind <+: name) (h' : familyPrefix other kind' <+: name) :
    kind = kind' := by
  rcases Nat.le_total (familyPrefix platform kind).length (familyPrefix other kind').length with hle | hle
  · exact family_of_longer (List.prefix_of_prefix_length_le h h' hle)
  · exact (family_of_longer (List.prefix_of_prefix_length_le h' h hle)).symm

theorem encodeIdentityNonce_prefix {identity : PlatformIdentity platform}
    (h : encodeIdentityNonce platform front identity nonce = some name) :
    isLowerHex nonce nonceHexLen = true ∧ front <+: name := by
  obtain ⟨hnonce, rfl⟩ := encodeIdentityNonce_eq_some.mp h
  exact ⟨hnonce, List.prefix_append _ _⟩

/-- A name is written with a valid nonce only, behind the prefix of its family. -/
theorem encode_starts {quarantined : QuarantinedName platform}
    (h : quarantined.encode nonce = some name) :
    isLowerHex nonce nonceHexLen = true ∧ familyPrefix platform quarantined.family <+: name := by
  cases quarantined with
  | removal removal =>
    obtain ⟨hnonce, hopens⟩ := encodeIdentityNonce_prefix h
    exact ⟨hnonce, (List.prefix_append _ _).trans hopens⟩
  | retained retained =>
    obtain ⟨hnonce, hname⟩ := Option.ite_none_right_eq_some.mp h
    rw [← Option.some.inj hname]
    exact ⟨hnonce, List.prefix_append _ _⟩
  | cleanupPending =>
    obtain ⟨hnonce, hname⟩ := Option.ite_none_right_eq_some.mp h
    rw [← Option.some.inj hname]
    exact ⟨hnonce, List.prefix_append _ _⟩
  | cleanupBatch batch => exact encodeIdentityNonce_prefix h
  | cleanupLeaf leaf => exact encodeIdentityNonce_prefix h

theorem encode_isSome (quarantined : QuarantinedName platform)
    (hnonce : isLowerHex nonce nonceHexLen = true) :
    ∃ name, quarantined.encode nonce = some name := by
  cases quarantined with
  | removal removal => exact ⟨_, encodeIdentityNonce_eq_some.mpr ⟨hnonce, rfl⟩⟩
  | retained retained => exact ⟨_, Option.ite_none_right_eq_some.mpr ⟨hnonce, rfl⟩⟩
  | cleanupPending => exact ⟨_, Option.ite_none_right_eq_some.mpr ⟨hnonce, rfl⟩⟩
  | cleanupBatch batch => exact ⟨_, encodeIdentityNonce_eq_some.mpr ⟨hnonce, rfl⟩⟩
  | cleanupLeaf leaf => exact ⟨_, encodeIdentityNonce_eq_some.mpr ⟨hnonce, rfl⟩⟩

/-- Encoded names are parsed back, what is parsed is encoded, and no name is of two families, not even
of two platforms. -/
theorem quarantine_names (platform : Platform) :
    (∀ (quarantined : QuarantinedName platform) (nonce : Bytes),
      isLowerHex nonce nonceHexLen = true → ∃ name, quarantined.encode nonce = some name ∧
        QuarantinedName.parse quarantined.family name = some quarantined) ∧
    (∀ (kind : Family) (name : Bytes) (quarantined : QuarantinedName platform),
      QuarantinedName.parse kind name = some quarantined → quarantined.family = kind ∧
        ∃ nonce, isLowerHex nonce nonceHexLen = true ∧ quarantined.encode nonce = some name) ∧
    ∀ (other : Platform) (kind kind' : Family) (name : Bytes)
      (quarantined : QuarantinedName platform) (quarantined' : QuarantinedName other),
      QuarantinedName.parse kind name = some quarantined →
        QuarantinedName.parse kind' name = some quarantined' → kind = kind' := by
  refine ⟨fun quarantined nonce hnonce => ?_, fun kind name quarantined h => ?_,
    fun other kind kind' name quarantined quarantined' h h' => ?_⟩
  · obtain ⟨name, hname⟩ := encode_isSome quarantined hnonce
    exact ⟨name, hname, QuarantinedName.parse_eq_some.mpr ⟨rfl, nonce, hname⟩⟩
  · obtain ⟨hfamily, nonce, hname⟩ := QuarantinedName.parse_eq_some.mp h
    exact ⟨hfamily, nonce, (encode_starts hname).1, hname⟩
  · obtain ⟨rfl, nonce, hname⟩ := QuarantinedName.parse_eq_some.mp h
    obtain ⟨rfl, nonce', hname'⟩ := QuarantinedName.parse_eq_some.mp h'
    exact family_of_prefixes (encode_starts hname).2 (encode_starts hname').2

example : (⟨.directory, ⟨0x0123456789abcdef, 0xfedcba9876543210⟩⟩ :
      RemovalTombstoneName .unix).encode (ascii "00112233445566778899aabbccddeeff") =
    some (ascii ".kitrove-removed-v1-unix-d-0123456789abcdef-fedcba9876543210" ++
      ascii "-00112233445566778899aabbccddeeff") := by
  decide +kernel

end Families

end Kitrove.QuarantineName
