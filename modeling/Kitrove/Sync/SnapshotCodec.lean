import Kitrove.Sync.Snapshot
import Mathlib.Data.List.Nodup

/-! Snapshots have one text each, an exact object catalog, and digests taken of distinct bytes. -/

namespace Kitrove

open Std Except

section Catalog

/-- A component's object: its root, the kind its format has, and its hash. -/
abbrev ObjectReference := PortablePath × Option SnapshotObjectKind × ContentHash

def portableReference (portable : PortableContent) : ObjectReference :=
  (portable.root, portableSnapshotObjectKind portable.format, portable.objectHash)

def nativeReference (variant : NativeVariant) : ObjectReference :=
  (variant.root, nativeSnapshotObjectKind variant.format, variant.objectHash)

def assetReferences (asset : Asset) : List ObjectReference :=
  asset.portable.toList.map portableReference ++ asset.nativeVariants.values.map nativeReference

/-- The objects that the components of a manifest reference. -/
def objectReferences (m : EnvironmentManifest) : List ObjectReference :=
  m.assets.values.flatMap assetReferences

def descriptorReference (object : ObjectDescriptor) : ObjectReference :=
  (object.root, some object.kind, object.objectHash)

/-- The catalog corresponds one to one, by root, with the components of the manifest. -/
structure ExactCatalog (m : EnvironmentManifest) (objects : OrdSet ObjectDescriptor) : Prop where
  references : (objects.toList.map descriptorReference).Perm (objectReferences m)
  roots : ((objectReferences m).map Prod.fst).Nodup

/-- References of distinct roots, and the map that expects them. -/
structure Collected (references : List ObjectReference) (expected : ExpectedObjects) : Prop where
  roots : (references.map Prod.fst).Nodup
  kinds : ∀ r ∈ references, r.2.1.isSome
  expects : ∀ (root : PortablePath) kind hash,
    expected[root]? = some (kind, hash) ↔ (root, some kind, hash) ∈ references

variable {references : List ObjectReference} {expected next : ExpectedObjects}

theorem collected_empty : Collected [] ∅ where
  roots := List.nodup_nil
  kinds := by simp
  expects := by simp

theorem Collected.not_mem_root (h : Collected references expected) {root : PortablePath}
    (hroot : root ∉ expected) : root ∉ references.map Prod.fst := by
  intro hmem
  obtain ⟨⟨root', kind, hash⟩, hr, rfl⟩ := List.mem_map.mp hmem
  obtain ⟨k, rfl⟩ := Option.isSome_iff_exists.mp (h.kinds _ hr)
  exact hroot (OrdMap.mem_iff_getElem?.mpr ⟨_, (h.expects root' k hash).mpr hr⟩)

theorem Collected.insert (h : Collected references expected) {root : PortablePath}
    {kind : SnapshotObjectKind} {hash : ContentHash}
    (hinsert : insertExpectedObject expected root kind hash = .ok next) :
    Collected (references ++ [(root, some kind, hash)]) next := by
  unfold insertExpectedObject at hinsert
  split at hinsert
  · contradiction
  · rename_i hroot
    rw [ExtTreeMap.contains_iff_mem] at hroot
    cases hinsert
    have hfresh := h.not_mem_root hroot
    refine ⟨?_, ?_, fun root' kind' hash' => ?_⟩
    · rw [List.map_append, List.nodup_append]
      refine ⟨h.roots, List.nodup_singleton _, fun a ha b hb => ?_⟩
      have hb : b = root := by simpa using hb
      rw [hb]
      exact fun he => hfresh (he ▸ ha)
    · intro r hr
      rcases List.mem_append.mp hr with hr | hr
      · exact h.kinds r hr
      · rw [List.mem_singleton.mp hr]
        rfl
    · rw [ExtTreeMap.getElem?_insert, List.mem_append, List.mem_singleton, ← h.expects]
      split
      · rename_i he
        have he := LawfulEqCmp.eq_of_compare he
        subst he
        have hnone := OrdMap.getElem?_eq_none.mpr hroot
        simp [hnone, eq_comm]
      · rename_i hne
        refine ⟨.inl, fun hor => hor.resolve_right ?_⟩
        rintro ⟨⟩
        exact hne ReflCmp.compare_self

theorem collected_expectPortable {portable : PortableContent} (h : Collected references expected)
    (hstep : expectPortable expected portable = .ok next) :
    Collected (references ++ [portableReference portable]) next := by
  unfold expectPortable at hstep
  rw [portableReference]
  cases hkind : portableSnapshotObjectKind portable.format with
  | none => simp [hkind] at hstep
  | some kind =>
    rw [hkind] at hstep
    exact h.insert hstep

theorem collected_expectNative {variant : NativeVariant} (h : Collected references expected)
    (hstep : expectNative expected variant = .ok next) :
    Collected (references ++ [nativeReference variant]) next := by
  unfold expectNative at hstep
  rw [nativeReference]
  cases hkind : nativeSnapshotObjectKind variant.format with
  | none => simp [hkind] at hstep
  | some kind =>
    rw [hkind] at hstep
    exact h.insert hstep

theorem collected_foldlM {α : Type} {g : ExpectedObjects → α → Except SnapshotError ExpectedObjects}
    {f : α → List ObjectReference} {xs : List α}
    (hg : ∀ references expected x next, Collected references expected → g expected x = .ok next →
      Collected (references ++ f x) next)
    (h : Collected references expected) (hfold : xs.foldlM g expected = .ok next) :
    Collected (references ++ xs.flatMap f) next := by
  induction xs generalizing references expected with
  | nil =>
    rw [List.foldlM_nil, pure_eq_ok_iff] at hfold
    rw [← hfold, List.flatMap_nil, List.append_nil]
    exact h
  | cons x xs ih =>
    rw [List.foldlM_cons, bind_eq_ok_iff] at hfold
    obtain ⟨mid, hx, hrest⟩ := hfold
    rw [List.flatMap_cons, ← List.append_assoc]
    exact ih (hg _ _ _ _ h hx) hrest

theorem collected_expectAsset {asset : Asset} (h : Collected references expected)
    (hstep : expectAsset expected asset = .ok next) :
    Collected (references ++ assetReferences asset) next := by
  unfold expectAsset at hstep
  obtain ⟨mid, hportable, hnative⟩ := bind_eq_ok_iff.mp hstep
  have hmid := collected_foldlM (f := fun p => [portableReference p])
    (fun _ _ _ _ => collected_expectPortable) h hportable
  have hnext := collected_foldlM (f := fun v => [nativeReference v])
    (fun _ _ _ _ => collected_expectNative) hmid hnative
  rw [assetReferences, ← List.append_assoc, List.map_eq_flatMap, List.map_eq_flatMap]
  exact hnext

theorem collected_expectedObjects {m : EnvironmentManifest}
    (h : expectedObjects m = .ok expected) : Collected (objectReferences m) expected :=
  collected_foldlM (f := assetReferences) (fun _ _ _ _ => collected_expectAsset)
    collected_empty h

/-- The descriptors taken one by one have distinct roots and are those that were expected. -/
theorem takeObjects_eq_ok {limits : SyncLimits} {objects : List ObjectDescriptor} {total : Nat}
    {result : Nat × ExpectedObjects}
    (h : objects.foldlM (takeObject limits) (total, expected) = .ok result) :
    (objects.map ObjectDescriptor.root).Nodup ∧
      (∀ object ∈ objects, expected[object.root]? = some (object.kind, object.objectHash)) ∧
      ∀ root ∈ expected, root ∉ objects.map ObjectDescriptor.root → root ∈ result.2 := by
  induction objects generalizing total expected with
  | nil =>
    rw [List.foldlM_nil, pure_eq_ok_iff] at h
    subst h
    exact ⟨List.nodup_nil, by simp, fun root hroot _ => hroot⟩
  | cons object objects ih =>
    rw [List.foldlM_cons, bind_eq_ok_iff] at h
    obtain ⟨⟨mid, rest⟩, hobject, hrest⟩ := h
    unfold takeObject at hobject
    obtain ⟨-, hobject⟩ := refuseIf_bind_eq_ok.mp hobject
    obtain ⟨-, hobject⟩ := refuseIf_bind_eq_ok.mp hobject
    obtain ⟨-, hobject⟩ := refuseIf_bind_eq_ok.mp hobject
    obtain ⟨hfound, hobject⟩ := refuseIf_bind_eq_ok.mp hobject
    rw [decide_eq_false_iff_not, ne_eq, not_not] at hfound
    rw [pure_eq_ok_iff, Prod.mk.injEq] at hobject
    obtain ⟨-, rfl⟩ := hobject
    obtain ⟨hnodup, hall, hleft⟩ := ih hrest
    have herased : ∀ root : PortablePath, (expected.erase object.root)[root]? =
        if object.root = root then none else expected[root]? := by
      intro root
      rw [ExtTreeMap.getElem?_erase]
      by_cases he : object.root = root
      · rw [if_pos he, if_pos (he ▸ ReflCmp.compare_self)]
      · rw [if_neg he, if_neg fun hc => he (LawfulEqCmp.eq_of_compare hc)]
    refine ⟨?_, ?_, fun root hroot hnot => ?_⟩
    · rw [List.map_cons, List.nodup_cons]
      refine ⟨fun hmem => ?_, hnodup⟩
      obtain ⟨other, hother, he⟩ := List.mem_map.mp hmem
      have hget := hall other hother
      rw [herased, if_pos he.symm] at hget
      contradiction
    · rw [List.forall_mem_cons]
      refine ⟨hfound, fun other hother => ?_⟩
      have hget := hall other hother
      rw [herased] at hget
      split at hget
      · contradiction
      · exact hget
    · rw [List.map_cons, List.mem_cons, not_or] at hnot
      refine hleft root ?_ hnot.2
      rw [OrdMap.mem_iff_getElem?] at hroot ⊢
      rw [herased, if_neg (Ne.symm hnot.1)]
      exact hroot

/-- An accepted catalog is exact. -/
theorem validateObjectCatalog_exact {m : EnvironmentManifest} {objects : OrdSet ObjectDescriptor}
    {limits : SyncLimits} (h : validateObjectCatalog m objects limits = .ok ()) :
    ExactCatalog m objects := by
  unfold validateObjectCatalog at h
  obtain ⟨-, h⟩ := refuseIf_bind_eq_ok.mp h
  obtain ⟨expected, hexpected, h⟩ := bind_eq_ok_iff.mp h
  obtain ⟨⟨total, left⟩, htaken, h⟩ := bind_eq_ok_iff.mp h
  have hempty := refuseIf_eq_ok.mp h
  rw [Bool.not_eq_false', ExtTreeMap.isEmpty_iff] at hempty
  have hcollected := collected_expectedObjects hexpected
  obtain ⟨hnodup, hall, hleft⟩ := takeObjects_eq_ok htaken
  refine ⟨?_, hcollected.roots⟩
  have hroots : (objects.toList.map descriptorReference).map Prod.fst =
      objects.toList.map ObjectDescriptor.root := by
    rw [List.map_map]
    rfl
  refine (List.perm_ext_iff_of_nodup (List.Nodup.of_map Prod.fst (hroots ▸ hnodup))
    (List.Nodup.of_map Prod.fst hcollected.roots)).mpr fun reference => ?_
  obtain ⟨root, kind, hash⟩ := reference
  constructor
  · intro hmem
    obtain ⟨object, hobject, he⟩ := List.mem_map.mp hmem
    cases he
    exact (hcollected.expects _ _ _).mp (hall object hobject)
  · intro hmem
    obtain ⟨k, rfl⟩ := Option.isSome_iff_exists.mp (hcollected.kinds _ hmem)
    have hget := (hcollected.expects root k hash).mpr hmem
    have hroot : root ∈ objects.toList.map ObjectDescriptor.root := by
      by_contra hnot
      have hin := hleft root (OrdMap.mem_iff_getElem?.mpr ⟨_, hget⟩) hnot
      rw [hempty] at hin
      exact ExtTreeMap.not_mem_empty hin
    obtain ⟨object, hobject, rfl⟩ := List.mem_map.mp hroot
    have hsame := hall object hobject
    rw [hget] at hsame
    cases hsame
    exact List.mem_map.mpr ⟨object, hobject, rfl⟩

end Catalog

section Preimage

theorem littleEndian64_length {n : Nat} : (littleEndian64 n).length = 8 := by
  simp [littleEndian64]

/-- Where a framed text ends can be read from its length. -/
theorem hashedText_append_inj {a b x y : Bytes} (ha : a.length < 2 ^ 64) (hb : b.length < 2 ^ 64)
    (h : hashedText a ++ x = hashedText b ++ y) : a = b ∧ x = y := by
  rw [hashedText, hashedText, List.append_assoc, List.append_assoc] at h
  obtain ⟨hlength, hrest⟩ := List.append_inj h
    (littleEndian64_length.trans littleEndian64_length.symm)
  exact List.append_inj hrest (littleEndian64_injective ha hb hlength)

theorem name_length_lt {kind : NameKind} (name : Name kind) : name.bytes.length < 2 ^ 64 :=
  Nat.lt_trans name.bounded (by decide)

theorem hashedObject_append_inj {a b : ObjectDescriptor} {x y : Bytes}
    (h : hashedObject a ++ x = hashedObject b ++ y) : a = b ∧ x = y := by
  simp only [hashedObject, List.append_assoc] at h
  obtain ⟨hkind, h⟩ := List.append_inj h rfl
  obtain ⟨hroot, h⟩ := hashedText_append_inj (name_length_lt a.root) (name_length_lt b.root) h
  obtain ⟨hhash, h⟩ :=
    hashedText_append_inj (name_length_lt a.objectHash) (name_length_lt b.objectHash) h
  obtain ⟨hlength, h⟩ := List.append_inj h (littleEndian64_length.trans littleEndian64_length.symm)
  refine ⟨ObjectDescriptor.key_injective ?_, h⟩
  have hencoded := littleEndian64_injective a.encodedLen.toNat_lt b.encodedLen.toNat_lt hlength
  rw [ObjectDescriptor.key, ObjectDescriptor.key, hkind, hroot, hhash, hencoded]

theorem hashedObjects_inj {as bs : List ObjectDescriptor} (hlength : as.length = bs.length)
    (h : as.flatMap hashedObject = bs.flatMap hashedObject) : as = bs := by
  induction as generalizing bs with
  | nil => exact (List.eq_nil_of_length_eq_zero hlength.symm).symm
  | cons a as ih =>
    cases bs with
    | nil => contradiction
    | cons b bs =>
      rw [List.flatMap_cons, List.flatMap_cons] at h
      obtain ⟨rfl, hrest⟩ := hashedObject_append_inj h
      rw [ih (Nat.succ.inj hlength) hrest]

def PortableSnapshot.preimage (s : PortableSnapshot) : Bytes :=
  snapshotPreimage s.manifestToml s.manifestRevision s.lockJson s.lockDigest s.objects

end Preimage

section Envelope

variable {blake3 : Bytes → Digest} {codec : SnapshotCodec} {limits : SyncLimits}
  {m : EnvironmentManifest} {objects : OrdSet ObjectDescriptor} {s : PortableSnapshot}
  {text : Bytes}

/-- A snapshot whose texts and identities are those of its manifest and its catalog. -/
structure Canonical (blake3 : Bytes → Digest) (codec : SnapshotCodec) (s : PortableSnapshot) :
    Prop where
  valid : s.manifest.validate blake3 = .ok ()
  manifestToml : s.manifest.toToml blake3 codec.toAuthorityCodec = .ok s.manifestToml
  manifestRevision :
    deriveManifestRevision blake3 codec.toAuthorityCodec s.manifest = .ok s.manifestRevision
  lockfile : deriveLockfile blake3 s.manifest = .ok s.lockfile
  lockJson : s.lockfile.toJson blake3 codec.toAuthorityCodec = .ok s.lockJson
  lockDigest : s.lockDigest = ContentHash.ofDigest (blake3 s.lockJson)
  snapshotDigest : s.snapshotDigest = SnapshotDigest.ofDigest (blake3 s.preimage)

/-- A snapshot within the limits of a request, with its text. -/
structure WithinLimits (codec : SnapshotCodec) (s : PortableSnapshot) (limits : SyncLimits)
    (text : Bytes) : Prop where
  components : componentCountOf s.manifest ≤ limits.maxComponents.toNat
  manifestToml : s.manifestToml.length ≤ limits.maxManifestBytes.toNat
  lockJson : s.lockJson.length ≤ limits.maxLockBytes.toNat
  catalog : validateObjectCatalog s.manifest s.objects limits = .ok ()
  encoded : s.toJson codec limits = .ok text

theorem orElseError_eq_ok {ε α : Type} {result : Except ε α} {error : SnapshotError} {a : α} :
    orElseError result error = .ok a ↔ result = .ok a := by
  cases result <;> simp [orElseError, Except.mapError]

theorem snapshot_eq {a b : PortableSnapshot} (ha : Canonical blake3 codec a)
    (hb : Canonical blake3 codec b) (hm : a.manifest = b.manifest) (ho : a.objects = b.objects) :
    a = b := by
  have htoml := ha.manifestToml
  have hrevision := ha.manifestRevision
  have hlock := ha.lockfile
  have hjson := ha.lockJson
  have hdigest := ha.lockDigest
  have hsnapshot := ha.snapshotDigest
  rw [hm, hb.manifestToml, Except.ok.injEq] at htoml
  rw [hm, hb.manifestRevision, Except.ok.injEq] at hrevision
  rw [hm, hb.lockfile, Except.ok.injEq] at hlock
  rw [← hlock, hb.lockJson, Except.ok.injEq] at hjson
  rw [← hjson, ← hb.lockDigest] at hdigest
  rw [PortableSnapshot.preimage, ← htoml, ← hrevision, ← hjson, hdigest, ho,
    ← PortableSnapshot.preimage, ← hb.snapshotDigest] at hsnapshot
  cases a
  cases b
  simp only at hm ho htoml hrevision hlock hjson hdigest hsnapshot
  subst hm ho htoml hrevision hlock hjson hdigest hsnapshot
  rfl

/-- When a snapshot is constructed, and which one. -/
theorem new_eq_ok : PortableSnapshot.new blake3 codec m objects limits = .ok s ↔
    s.manifest = m ∧ s.objects = objects ∧ Canonical blake3 codec s ∧
      ∃ text, WithinLimits codec s limits text := by
  unfold PortableSnapshot.new
  constructor
  · intro h
    obtain ⟨⟨⟩, hvalid, h⟩ := bind_eq_ok_iff.mp h
    obtain ⟨⟨⟩, hcomponents, h⟩ := bind_eq_ok_iff.mp h
    obtain ⟨manifestToml, htoml, h⟩ := bind_eq_ok_iff.mp h
    obtain ⟨htomlLength, h⟩ := refuseIf_bind_eq_ok.mp h
    obtain ⟨manifestRevision, hrevision, h⟩ := bind_eq_ok_iff.mp h
    obtain ⟨lockfile, hlock, h⟩ := bind_eq_ok_iff.mp h
    obtain ⟨lockJson, hjson, h⟩ := bind_eq_ok_iff.mp h
    obtain ⟨hjsonLength, h⟩ := refuseIf_bind_eq_ok.mp h
    obtain ⟨⟨⟩, hcatalog, h⟩ := bind_eq_ok_iff.mp h
    obtain ⟨text, htext, h⟩ := bind_eq_ok_iff.mp h
    rw [pure_eq_ok_iff] at h
    subst h
    rw [orElseError_eq_ok] at hvalid htoml hrevision hlock hjson
    rw [validateComponentCount, refuseIf_eq_ok] at hcomponents
    simp only [decide_eq_false_iff_not, Nat.not_lt, gt_iff_lt] at hcomponents htomlLength hjsonLength
    exact ⟨rfl, rfl, ⟨hvalid, htoml, hrevision, hlock, hjson, rfl, rfl⟩, text,
      ⟨hcomponents, htomlLength, hjsonLength, hcatalog, htext⟩⟩
  · rintro ⟨rfl, rfl, hcanonical, text, hwithin⟩
    refine bind_eq_ok_iff.mpr ⟨⟨⟩, orElseError_eq_ok.mpr hcanonical.valid, ?_⟩
    refine bind_eq_ok_iff.mpr ⟨⟨⟩, refuseIf_eq_ok.mpr ?_, ?_⟩
    · simpa using hwithin.components
    refine bind_eq_ok_iff.mpr ⟨_, orElseError_eq_ok.mpr hcanonical.manifestToml, ?_⟩
    refine refuseIf_bind_eq_ok.mpr ⟨by simpa using hwithin.manifestToml, ?_⟩
    refine bind_eq_ok_iff.mpr ⟨_, orElseError_eq_ok.mpr hcanonical.manifestRevision, ?_⟩
    refine bind_eq_ok_iff.mpr ⟨_, orElseError_eq_ok.mpr hcanonical.lockfile, ?_⟩
    refine bind_eq_ok_iff.mpr ⟨_, orElseError_eq_ok.mpr hcanonical.lockJson, ?_⟩
    refine refuseIf_bind_eq_ok.mpr ⟨by simpa using hwithin.lockJson, ?_⟩
    refine bind_eq_ok_iff.mpr ⟨⟨⟩, hwithin.catalog, ?_⟩
    have hsame : PortableSnapshot.mk s.manifest s.manifestToml s.manifestRevision s.lockfile
        s.lockJson (ContentHash.ofDigest (blake3 s.lockJson)) s.objects
        (SnapshotDigest.ofDigest (blake3 (snapshotPreimage s.manifestToml s.manifestRevision
          s.lockJson (ContentHash.ofDigest (blake3 s.lockJson)) s.objects))) = s := by
      rw [← hcanonical.lockDigest, ← PortableSnapshot.preimage, ← hcanonical.snapshotDigest]
    dsimp only
    rw [hsame]
    exact bind_eq_ok_iff.mpr ⟨text, hwithin.encoded, rfl⟩

/-- What a snapshot's text is, whatever the limits. -/
theorem toJson_eq_ok : s.toJson codec limits = .ok text ↔
    validateObjectCatalog s.manifest s.objects limits = .ok () ∧
      ∃ encoded, codec.encodeEnvelope s.persisted = some encoded ∧
        text = encoded ++ [newline] ∧ text.length ≤ limits.maxSnapshotBytes.toNat := by
  unfold PortableSnapshot.toJson
  rw [bind_eq_ok_iff]
  constructor
  · rintro ⟨⟨⟩, hcatalog, h⟩
    refine ⟨hcatalog, ?_⟩
    cases hencode : codec.encodeEnvelope s.persisted with
    | none => simp [hencode] at h
    | some encoded =>
      simp only [hencode] at h
      obtain ⟨hlength, h⟩ := refuseIf_bind_eq_ok.mp h
      rw [pure_eq_ok_iff] at h
      subst h
      exact ⟨encoded, rfl, rfl, by simpa using hlength⟩
  · rintro ⟨hcatalog, encoded, hencode, rfl, hlength⟩
    refine ⟨⟨⟩, hcatalog, ?_⟩
    simp only [hencode]
    exact refuseIf_bind_eq_ok.mpr ⟨by simpa using hlength, rfl⟩

theorem setOf_toList {t : OrdSet ObjectDescriptor} : OrdMap.setOf t.toList = t :=
  ExtTreeSet.ext_mem fun _ => by rw [OrdMap.mem_setOf, ExtTreeSet.mem_toList]

/-- An accepted text is the text of the canonical snapshot it gives. -/
theorem fromJson_sound (h : PortableSnapshot.fromJson blake3 codec text limits = .ok s) :
    Canonical blake3 codec s ∧ WithinLimits codec s limits text := by
  unfold PortableSnapshot.fromJson at h
  obtain ⟨-, h⟩ := refuseIf_bind_eq_ok.mp h
  cases hdecode : codec.decodeEnvelope text with
  | none => simp [hdecode] at h
  | some persisted =>
    simp only [hdecode] at h
    obtain ⟨⟨⟩, -, h⟩ := bind_eq_ok_iff.mp h
    obtain ⟨manifest, -, h⟩ := bind_eq_ok_iff.mp h
    obtain ⟨toml, -, h⟩ := bind_eq_ok_iff.mp h
    obtain ⟨-, h⟩ := refuseIf_bind_eq_ok.mp h
    obtain ⟨snapshot, hnew, h⟩ := bind_eq_ok_iff.mp h
    obtain ⟨⟨⟩, -, h⟩ := bind_eq_ok_iff.mp h
    obtain ⟨encoded, hencoded, h⟩ := bind_eq_ok_iff.mp h
    obtain ⟨hsame, h⟩ := refuseIf_bind_eq_ok.mp h
    rw [pure_eq_ok_iff] at h
    subst h
    rw [decide_eq_false_iff_not, ne_eq, not_not] at hsame
    subst hsame
    obtain ⟨-, -, hcanonical, other, hwithin⟩ := new_eq_ok.mp hnew
    exact ⟨hcanonical, { hwithin with encoded := hencoded }⟩

/-- The text of a canonical snapshot is accepted. -/
theorem fromJson_complete (hcodec : codec.Lawful) (hcanonical : Canonical blake3 codec s)
    (hwithin : WithinLimits codec s limits text) :
    PortableSnapshot.fromJson blake3 codec text limits = .ok s := by
  obtain ⟨hcatalog, encoded, hencode, htext, hlength⟩ := toJson_eq_ok.mp hwithin.encoded
  have hdecode : codec.decodeEnvelope text = some s.persisted := by
    rw [htext]
    exact hcodec.envelope_newline _ _ (hcodec.envelope _ _ hencode)
  have hcount : s.objects.size ≤ limits.maxObjectCount.toNat := by
    unfold validateObjectCatalog at hcatalog
    simpa using (refuseIf_bind_eq_ok.mp hcatalog).1
  have hpersisted : checkPersisted s.persisted limits = .ok () := by
    refine refuseIf_bind_eq_ok.mpr ⟨by simp [PortableSnapshot.persisted], ?_⟩
    refine refuseIf_bind_eq_ok.mpr ⟨by
      simpa [PortableSnapshot.persisted] using hwithin.manifestToml, ?_⟩
    refine refuseIf_bind_eq_ok.mpr ⟨by
      simpa [PortableSnapshot.persisted] using hwithin.lockJson, ?_⟩
    refine refuseIf_bind_eq_ok.mpr ⟨?_, refuseIf_eq_ok.mpr ?_⟩
    · simpa [PortableSnapshot.persisted, ExtTreeSet.length_toList] using hcount
    · simp [PortableSnapshot.persisted, setOf_toList, ExtTreeSet.length_toList]
  have hrebuilt : checkRebuilt blake3 codec s.persisted s = .ok () := by
    refine refuseIf_bind_eq_ok.mpr ⟨by simp [PortableSnapshot.persisted], ?_⟩
    refine bind_eq_ok_iff.mpr ⟨s.lockfile, orElseError_eq_ok.mpr
      (fromJson_toJson hcodec.toLawful hcanonical.lockJson), ?_⟩
    refine bind_eq_ok_iff.mpr ⟨s.lockJson, orElseError_eq_ok.mpr hcanonical.lockJson, ?_⟩
    refine refuseIf_bind_eq_ok.mpr ⟨by simp [PortableSnapshot.persisted], ?_⟩
    refine refuseIf_bind_eq_ok.mpr ⟨by simp, ?_⟩
    refine refuseIf_bind_eq_ok.mpr ⟨by simp [PortableSnapshot.persisted], ?_⟩
    exact refuseIf_eq_ok.mpr (by simp [PortableSnapshot.persisted])
  unfold PortableSnapshot.fromJson
  refine refuseIf_bind_eq_ok.mpr ⟨by simpa using hlength, ?_⟩
  simp only [hdecode]
  refine bind_eq_ok_iff.mpr ⟨⟨⟩, hpersisted, ?_⟩
  refine bind_eq_ok_iff.mpr ⟨s.manifest, orElseError_eq_ok.mpr
    (fromToml_toToml hcodec.toLawful hcanonical.manifestToml), ?_⟩
  refine bind_eq_ok_iff.mpr ⟨s.manifestToml, orElseError_eq_ok.mpr hcanonical.manifestToml, ?_⟩
  refine refuseIf_bind_eq_ok.mpr ⟨by simp [PortableSnapshot.persisted], ?_⟩
  refine bind_eq_ok_iff.mpr ⟨s, new_eq_ok.mpr ⟨rfl, setOf_toList.symm, hcanonical, text, hwithin⟩, ?_⟩
  refine bind_eq_ok_iff.mpr ⟨⟨⟩, hrebuilt, ?_⟩
  refine bind_eq_ok_iff.mpr ⟨text, hwithin.encoded, ?_⟩
  exact refuseIf_bind_eq_ok.mpr ⟨by simp, rfl⟩

/-- A snapshot that one of the public constructors gives. -/
def Constructed (blake3 : Bytes → Digest) (codec : SnapshotCodec) (limits : SyncLimits)
    (s : PortableSnapshot) : Prop :=
  (∃ m objects, PortableSnapshot.new blake3 codec m objects limits = .ok s) ∨
    ∃ text, PortableSnapshot.fromJson blake3 codec text limits = .ok s

theorem Constructed.canonical (h : Constructed blake3 codec limits s) :
    Canonical blake3 codec s ∧ ∃ text, WithinLimits codec s limits text := by
  rcases h with ⟨m, objects, h⟩ | ⟨text, h⟩
  · exact (new_eq_ok.mp h).2.2
  · exact (fromJson_sound h).imp_right fun hwithin => ⟨text, hwithin⟩

theorem toJson_text {limits' : SyncLimits} {text' : Bytes} (h : s.toJson codec limits = .ok text)
    (h' : s.toJson codec limits' = .ok text') : text = text' := by
  obtain ⟨-, encoded, hencode, rfl, -⟩ := toJson_eq_ok.mp h
  obtain ⟨-, encoded', hencode', rfl, -⟩ := toJson_eq_ok.mp h'
  rw [hencode, Option.some.injEq] at hencode'
  rw [hencode']

/-- A text is the text of one canonical snapshot only. -/
theorem toJson_snapshot (hcodec : codec.Lawful) {limits' : SyncLimits} {s' : PortableSnapshot}
    (hs : Canonical blake3 codec s) (hs' : Canonical blake3 codec s')
    (h : s.toJson codec limits = .ok text) (h' : s'.toJson codec limits' = .ok text) : s = s' := by
  have hdecode : ∀ {limits : SyncLimits} {s : PortableSnapshot}, s.toJson codec limits = .ok text →
      codec.decodeEnvelope text = some s.persisted := by
    intro limits s h
    obtain ⟨-, encoded, hencode, rfl, -⟩ := toJson_eq_ok.mp h
    exact hcodec.envelope_newline _ _ (hcodec.envelope _ _ hencode)
  have hsame := hdecode h
  rw [hdecode h', Option.some.injEq] at hsame
  have htoml : s'.manifestToml = s.manifestToml := congrArg PersistedSnapshot.manifestToml hsame
  have hobjects : s'.objects.toList = s.objects.toList := congrArg PersistedSnapshot.objects hsame
  have hmanifest := hs'.manifestToml
  rw [htoml] at hmanifest
  refine snapshot_eq hs hs' (toToml_injective hcodec.toLawful hs.manifestToml hmanifest) ?_
  rw [← setOf_toList (t := s.objects), ← hobjects, setOf_toList]

theorem preimage_injective (hcodec : codec.Lawful) {limits' : SyncLimits} {s' : PortableSnapshot}
    {text' : Bytes} (hs : Canonical blake3 codec s) (hs' : Canonical blake3 codec s')
    (hw : WithinLimits codec s limits text) (hw' : WithinLimits codec s' limits' text')
    (h : s.preimage = s'.preimage) : s.manifest = s'.manifest ∧ s.objects = s'.objects := by
  have hbound : ∀ {n : Nat} {limit : UInt64}, n ≤ limit.toNat → n < 2 ^ 64 :=
    fun hle => Nat.lt_of_le_of_lt hle (UInt64.toNat_lt _)
  have hcount : ∀ {limits : SyncLimits} {s : PortableSnapshot},
      validateObjectCatalog s.manifest s.objects limits = .ok () → s.objects.size < 2 ^ 64 := by
    intro limits s hcatalog
    unfold validateObjectCatalog at hcatalog
    have hle := (refuseIf_bind_eq_ok.mp hcatalog).1
    rw [decide_eq_false_iff_not, gt_iff_lt, Nat.not_lt] at hle
    exact hbound hle
  simp only [PortableSnapshot.preimage, snapshotPreimage, List.append_assoc] at h
  obtain ⟨-, h⟩ := List.append_inj h rfl
  obtain ⟨htoml, h⟩ := hashedText_append_inj (hbound hw.manifestToml) (hbound hw'.manifestToml) h
  obtain ⟨-, h⟩ := hashedText_append_inj (name_length_lt _) (name_length_lt _) h
  obtain ⟨-, h⟩ := hashedText_append_inj (hbound hw.lockJson) (hbound hw'.lockJson) h
  obtain ⟨-, h⟩ := hashedText_append_inj (name_length_lt _) (name_length_lt _) h
  obtain ⟨hsize, h⟩ := List.append_inj h (littleEndian64_length.trans littleEndian64_length.symm)
  have hsize := littleEndian64_injective (hcount hw.catalog) (hcount hw'.catalog) hsize
  have hlist := hashedObjects_inj (by
    rw [ExtTreeSet.length_toList, ExtTreeSet.length_toList, hsize]) h
  have hmanifest := hs'.manifestToml
  rw [← htoml] at hmanifest
  refine ⟨toToml_injective hcodec.toLawful hs.manifestToml hmanifest, ?_⟩
  rw [← setOf_toList (t := s.objects), hlist, setOf_toList]

/-- What makes an encoding of snapshots canonical. -/
structure CanonicalEncoding (blake3 : Bytes → Digest) (codec : SnapshotCodec) : Prop where
  roundTrip : ∀ limits s, Constructed blake3 codec limits s →
    ∃ text, s.toJson codec limits = .ok text ∧
      PortableSnapshot.fromJson blake3 codec text limits = .ok s
  reencoded : ∀ limits text s, PortableSnapshot.fromJson blake3 codec text limits = .ok s →
    s.toJson codec limits = .ok text
  oneText : ∀ limits limits' text text' s s',
    PortableSnapshot.fromJson blake3 codec text limits = .ok s →
    PortableSnapshot.fromJson blake3 codec text' limits' = .ok s' → (text = text' ↔ s = s')
  catalog : ∀ limits text s, PortableSnapshot.fromJson blake3 codec text limits = .ok s →
    ExactCatalog s.manifest s.objects
  preimage : ∀ limits limits' s s', Constructed blake3 codec limits s →
    Constructed blake3 codec limits' s' → s.manifest ≠ s'.manifest ∨ s.objects ≠ s'.objects →
    s.preimage ≠ s'.preimage

/-- When the libraries round-trip, the encoding of snapshots is canonical. -/
theorem portableSnapshot_canonicalEncoding (hcodec : codec.Lawful) :
    CanonicalEncoding blake3 codec where
  roundTrip limits s h := by
    obtain ⟨hcanonical, text, hwithin⟩ := h.canonical
    exact ⟨text, hwithin.encoded, fromJson_complete hcodec hcanonical hwithin⟩
  reencoded limits text s h := (fromJson_sound h).2.encoded
  oneText limits limits' text text' s s' h h' := by
    obtain ⟨hcanonical, hwithin⟩ := fromJson_sound h
    obtain ⟨hcanonical', hwithin'⟩ := fromJson_sound h'
    constructor
    · rintro rfl
      exact toJson_snapshot hcodec hcanonical hcanonical' hwithin.encoded hwithin'.encoded
    · rintro rfl
      exact toJson_text hwithin.encoded hwithin'.encoded
  catalog limits text s h := validateObjectCatalog_exact (fromJson_sound h).2.catalog
  preimage limits limits' s s' h h' hne heq := by
    obtain ⟨hcanonical, text, hwithin⟩ := h.canonical
    obtain ⟨hcanonical', text', hwithin'⟩ := h'.canonical
    obtain ⟨hm, ho⟩ := preimage_injective hcodec hcanonical hcanonical' hwithin hwithin' heq
    exact hne.elim (fun hn => hn hm) fun hn => hn ho

end Envelope

section Sample

def trimNewlines (text : Bytes) : Bytes := (text.reverse.dropWhile (· == newline)).reverse

theorem trimNewlines_append {text : Bytes} :
    trimNewlines (text ++ [newline]) = trimNewlines text := by
  simp [trimNewlines]

def sampleToml : Bytes :=
  ascii "schema_version = 1\nrequired_bindings = []\n\n[assets]\n\n[packs]\n\n[profiles]\n"

def sampleLockJson : Bytes :=
  0x7B :: ascii "\n  \"schema_version\": 1,\n  \"assets\": " ++ [0x7B, 0x7D] ++
    ascii ",\n  \"packs\": " ++ [0x7B, 0x7D, newline, 0x7D]

def jsonText (value : Bytes) : Bytes :=
  0x22 :: value.flatMap (fun b =>
    if b = newline then ascii "\\n" else if b = 0x22 then ascii "\\\"" else [b]) ++ [0x22]

def zeroDigest : Digest := ⟨List.replicate 64 0x30, validDigest_zeros⟩

def sampleEnvelope : PersistedSnapshot where
  schemaVersion := 1
  manifestToml := sampleToml
  manifestRevision :=
    ⟨ascii "manifest:blake3:" ++ zeroDigest.hex, by decide +kernel, by decide +kernel⟩
  lockJson := sampleLockJson ++ [newline]
  lockDigest := ContentHash.ofDigest zeroDigest
  objects := []
  snapshotDigest := SnapshotDigest.ofDigest zeroDigest

def sampleEnvelopeText : Bytes :=
  0x7B :: ascii "\n  \"schema_version\": 1,\n  \"manifest_toml\": " ++
    jsonText sampleEnvelope.manifestToml ++ ascii ",\n  \"manifest_revision\": " ++
    jsonText sampleEnvelope.manifestRevision.bytes ++ ascii ",\n  \"lock_json\": " ++
    jsonText sampleEnvelope.lockJson ++ ascii ",\n  \"lock_digest\": " ++
    jsonText sampleEnvelope.lockDigest.bytes ++ ascii ",\n  \"objects\": [],\n" ++
    ascii "  \"snapshot_digest\": " ++ jsonText sampleEnvelope.snapshotDigest.bytes ++
    [newline, 0x7D]

/-- The libraries on the empty environment: one manifest, one lockfile and one envelope. -/
def sampleCodec : SnapshotCodec where
  encodeToml m := if m = ⟨∅, ∅, ∅, ∅⟩ then .ok sampleToml else .error []
  decodeToml text :=
    if trimNewlines text = trimNewlines sampleToml then .ok ⟨∅, ∅, ∅, ∅⟩ else .error ⟨[], none⟩
  encodeLock l := if l = ⟨∅, ∅⟩ then .ok sampleLockJson else .error []
  decodeLock text :=
    if trimNewlines text = trimNewlines sampleLockJson then .ok ⟨∅, ∅⟩ else .error []
  encodeEnvelope p := if p = sampleEnvelope then some sampleEnvelopeText else none
  decodeEnvelope text :=
    if trimNewlines text = trimNewlines sampleEnvelopeText then some sampleEnvelope else none

theorem sampleCodec_lawful : sampleCodec.Lawful where
  toml m text h := by
    simp only [sampleCodec] at h ⊢
    split at h
    · rename_i hm
      cases h
      rw [hm, if_pos rfl]
    · contradiction
  lock l text h := by
    simp only [sampleCodec] at h ⊢
    split at h
    · rename_i hl
      cases h
      rw [hl, if_pos rfl]
    · contradiction
  toml_newline m text h := by
    simp only [sampleCodec, trimNewlines_append] at h ⊢
    exact h
  lock_newline l text h := by
    simp only [sampleCodec, trimNewlines_append] at h ⊢
    exact h
  envelope p text h := by
    simp only [sampleCodec] at h ⊢
    split at h
    · rename_i hp
      cases h
      rw [hp, if_pos rfl]
    · contradiction
  envelope_newline p text h := by
    simp only [sampleCodec, trimNewlines_append] at h ⊢
    exact h

/-- The snapshot of the empty environment is constructed, and its text gives it back. -/
theorem portableSnapshot_canonicalEncoding_sample : ∃ s text,
    PortableSnapshot.new (fun _ => zeroDigest) sampleCodec ⟨∅, ∅, ∅, ∅⟩ ∅ .default = .ok s ∧
      PortableSnapshot.fromJson (fun _ => zeroDigest) sampleCodec text .default = .ok s := by
  have hsome : (PortableSnapshot.new (fun _ => zeroDigest) sampleCodec ⟨∅, ∅, ∅, ∅⟩ ∅
      .default).isOk = true := by decide +kernel
  cases hs : PortableSnapshot.new (fun _ => zeroDigest) sampleCodec ⟨∅, ∅, ∅, ∅⟩ ∅ .default with
  | error e => simp [hs, Except.isOk, Except.toBool] at hsome
  | ok s =>
    obtain ⟨text, -, htext⟩ := (portableSnapshot_canonicalEncoding
      sampleCodec_lawful).roundTrip .default s (.inl ⟨_, _, hs⟩)
    exact ⟨s, text, rfl, htext⟩

end Sample

end Kitrove
