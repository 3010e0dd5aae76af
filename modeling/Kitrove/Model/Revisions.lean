import Kitrove.Model.Validity
import Kitrove.Support.Delimited

/-! The revision of a record binds every field of it. -/

namespace Kitrove

open Std Delimited

section Fields

variable {limit : Nat}

def hashedLimit : Nat := 2 ^ 64

theorem counts_countRecord : Counts hashedLimit countRecord where
  width := ⟨8, fun m => by simp [countRecord, bigEndian64]⟩
  injective m n hm hn h := bigEndian64_injective (by rwa [hashedLimit] at hm)
    (by rwa [hashedLimit] at hn) h

theorem delimits_textRecord : Delimits hashedLimit textRecord :=
  counts_countRecord.delimits_text

theorem delimits_name {kind : NameKind} : Delimits hashedLimit fun name : Name kind =>
    textRecord name.bytes :=
  delimits_textRecord.comp fun _ _ => Name.ext_bytes

theorem asStr_injective (a b : HarnessId) (h : a.asStr = b.asStr) : a = b := by
  have hfixed : ∀ (id : CommunityHarnessId) (text : Bytes),
      validCommunityHarnessId text = false → id.bytes ≠ text := by
    rintro id text htext rfl
    rw [show validCommunityHarnessId id.bytes = true from id.valid] at htext
    cases htext
  cases a with
  | other a =>
    cases b with
    | other b => exact congrArg _ (Name.ext_bytes h)
    | _ => exact absurd h (hfixed a _ (by decide +kernel))
  | _ =>
    cases b with
    | other b => exact absurd h.symm (hfixed b _ (by decide +kernel))
    | _ => first | rfl | exact absurd h (by decide +kernel)

theorem delimits_harness : Delimits hashedLimit fun id : HarnessId => textRecord id.asStr :=
  delimits_textRecord.comp asStr_injective

theorem delimits_byte {α : Type} {tag : α → UInt8} (htag : ∀ a b, tag a = tag b → a = b) :
    Delimits limit fun a => [tag a] :=
  delimits_of_length (fun _ => rfl) fun a b h => htag a b (List.head_eq_of_cons_eq h)

theorem delimits_contentClass : Delimits limit fun contentClass : ContentClass =>
    [contentClass.tag] :=
  delimits_byte fun a b h => by cases a <;> cases b <;> first | rfl | cases h

theorem delimits_kind : Delimits limit fun kind : AssetKind => [kind.tag] :=
  delimits_byte fun a b h => by cases a <;> cases b <;> first | rfl | cases h

theorem delimits_fidelity : Delimits limit fun fidelity : Fidelity => [fidelity.tag] :=
  delimits_byte fun a b h => by cases a <;> cases b <;> first | rfl | cases h

theorem delimits_optionalRecord : Delimits hashedLimit optionalRecord := by
  intro a b x y h
  cases a with
  | none =>
    cases b with
    | none => exact ⟨rfl, h.of_cons.2⟩
    | some b => exact absurd h.of_cons.1 (by decide)
  | some a =>
    cases b with
    | none => exact absurd h.of_cons.1 (by decide)
    | some b =>
      obtain ⟨hab, hxy⟩ := delimits_textRecord h.of_cons.2
      exact ⟨congrArg some hab, hxy⟩

theorem delimits_source : Delimits hashedLimit Source.record := by
  intro a b x y h
  cases a with
  | authoredPack =>
    cases b with
    | authoredPack => exact ⟨rfl, h.of_cons.2⟩
    | _ => exact absurd h.of_cons.1 (by decide)
  | harness a origin =>
    cases b with
    | harness b origin' =>
      obtain ⟨hab, hxy⟩ := (delimits_harness.pair delimits_name) (a := (a, origin))
        (b := (b, origin')) h.of_cons.2
      obtain ⟨rfl, rfl⟩ := Prod.mk.inj hab
      exact ⟨rfl, hxy⟩
    | _ => exact absurd h.of_cons.1 (by decide)
  | local' path =>
    cases b with
    | local' path' =>
      obtain ⟨hab, hxy⟩ := delimits_name h.of_cons.2
      exact ⟨congrArg _ hab, hxy⟩
    | _ => exact absurd h.of_cons.1 (by decide)
  | git repository subdirectory =>
    cases b with
    | git repository' subdirectory' =>
      have hsub : Delimits hashedLimit fun path : Option PortablePath =>
          optionalRecord (path.map Name.bytes) :=
        delimits_optionalRecord.comp fun a b hab =>
          Option.map_injective (fun _ _ => Name.ext_bytes) hab
      obtain ⟨hab, hxy⟩ := (delimits_name.pair hsub) (a := (repository, subdirectory))
        (b := (repository', subdirectory')) h.of_cons.2
      obtain ⟨rfl, rfl⟩ := Prod.mk.inj hab
      exact ⟨rfl, hxy⟩
    | _ => exact absurd h.of_cons.1 (by decide)

theorem delimits_reason : Delimits hashedLimit fun reason : FidelityReason =>
    textRecord reason.code ++ textRecord reason.message := by
  rintro ⟨code, message⟩ ⟨code', message'⟩ x y h
  obtain ⟨hab, hxy⟩ := (delimits_textRecord.pair delimits_textRecord) (a := (code, message))
    (b := (code', message')) h
  obtain ⟨rfl, rfl⟩ := Prod.mk.inj hab
  exact ⟨rfl, hxy⟩

theorem delimits_evidence : Delimits hashedLimit fun item : FidelityEvidence =>
    textRecord item.kind ++ textRecord item.detail := by
  rintro ⟨kind, detail⟩ ⟨kind', detail'⟩ x y h
  obtain ⟨hab, hxy⟩ := (delimits_textRecord.pair delimits_textRecord) (a := (kind, detail))
    (b := (kind', detail')) h
  obtain ⟨rfl, rfl⟩ := Prod.mk.inj hab
  exact ⟨rfl, hxy⟩

def BlockedRequirement.record : BlockedRequirement → Bytes
  | .binding name => 0 :: textRecord name.bytes
  | .executableTrust => [1]

theorem delimits_blockedRequirement : Delimits hashedLimit BlockedRequirement.record := by
  intro a b x y h
  cases a with
  | binding name =>
    cases b with
    | binding name' =>
      obtain ⟨hab, hxy⟩ := delimits_name h.of_cons.2
      exact ⟨congrArg _ hab, hxy⟩
    | executableTrust => exact absurd h.of_cons.1 (by decide)
  | executableTrust =>
    cases b with
    | binding name' => exact absurd h.of_cons.1 (by decide)
    | executableTrust => exact ⟨rfl, h.of_cons.2⟩

theorem textRecord_ne_nil {value rest : Bytes} : textRecord value ++ rest ≠ [] := by
  simp [textRecord, bigEndian64]

theorem delimits_fidelityResult : Delimits hashedLimit FidelityResult.record := by
  intro a b x y h
  have hrecord : ∀ (result : FidelityResult) (rest : Bytes), result.record ++ rest =
      [result.fidelity.tag] ++ (countRecord result.reasons.length ++
        ((result.reasons.flatMap fun reason => textRecord reason.code ++
          textRecord reason.message) ++ (countRecord result.evidence.length ++
        ((result.evidence.flatMap fun item => textRecord item.kind ++ textRecord item.detail) ++
        (countRecord result.blockedRequirements.length ++
        (result.blockedRequirements.flatMap BlockedRequirement.record ++
        (textRecord result.adapterVersion ++
          (optionalRecord result.harnessVersion ++ rest)))))))) := by
    intro result rest
    simp only [FidelityResult.record, List.append_assoc]
    rfl
  rw [hrecord, hrecord] at h
  obtain ⟨hfidelity, h⟩ := delimits_fidelity h
  obtain ⟨hreasons, h⟩ := counts_countRecord.peel_list delimits_reason
    (fun _ => textRecord_ne_nil) h
  obtain ⟨hevidence, h⟩ := counts_countRecord.peel_list delimits_evidence
    (fun _ => textRecord_ne_nil) h
  obtain ⟨hblocked, h⟩ := counts_countRecord.peel_list delimits_blockedRequirement
    (fun requirement => by cases requirement <;> exact List.cons_ne_nil _ _) h
  obtain ⟨hadapter, h⟩ := delimits_textRecord h
  obtain ⟨hharness, hxy⟩ := delimits_optionalRecord h
  refine ⟨?_, hxy⟩
  rcases a with ⟨⟨⟩, _⟩
  rcases b with ⟨⟨⟩, _⟩
  simp only at hfidelity hreasons hevidence hblocked hadapter hharness
  subst hfidelity hreasons hevidence hblocked hadapter hharness
  rfl

/-- The entries of a map behind their number. -/
theorem peel_map {K V W : Type} [Ord K] [TransOrd K] [LawfulEqOrd K] {m m' : OrdMap K V}
    {f : K × V → Bytes} {k : V → W} {g : K × W → Bytes} {x y : Bytes}
    (hg : Delimits hashedLimit g) (hne : ∀ entry, g entry ≠ [])
    (hf : ∀ entry, f entry = g (entry.1, k entry.2))
    (hk : ∀ (key key' : K) (v w : V), m[key]? = some v → m'[key']? = some w → k v = k w → v = w)
    (h : Same hashedLimit (countRecord m.size ++ (m.toList.flatMap f ++ x))
      (countRecord m'.size ++ (m'.toList.flatMap f ++ y))) : m = m' ∧ Same hashedLimit x y := by
  have hflat : ∀ t : OrdMap K V, t.toList.flatMap f =
      (t.toList.map fun entry => (entry.1, k entry.2)).flatMap g := by
    intro t
    rw [List.flatMap_map]
    exact congrArg (t.toList.flatMap ·) (funext hf)
  have hsize : ∀ t : OrdMap K V, t.size =
      (t.toList.map fun entry => (entry.1, k entry.2)).length := by
    intro t
    rw [List.length_map, ExtTreeMap.length_toList]
  rw [hflat, hflat, hsize, hsize] at h
  obtain ⟨hmap, hxy⟩ := counts_countRecord.peel_list hg hne h
  have hentry : ∀ {t t' : OrdMap K V} {key : K} {v : V},
      (t.toList.map fun entry => (entry.1, k entry.2)) =
        (t'.toList.map fun entry => (entry.1, k entry.2)) → t[key]? = some v →
      ∃ w, t'[key]? = some w ∧ k w = k v := by
    intro t t' key v heq hv
    have hmem : (key, k v) ∈ t'.toList.map fun entry => (entry.1, k entry.2) := by
      rw [← heq]
      exact List.mem_map.mpr ⟨(key, v), ExtTreeMap.mem_toList_iff_getElem?_eq_some.mpr hv, rfl⟩
    obtain ⟨⟨key', w⟩, hw, hpair⟩ := List.mem_map.mp hmem
    obtain ⟨rfl, hkw⟩ := Prod.mk.inj hpair
    exact ⟨w, ExtTreeMap.mem_toList_iff_getElem?_eq_some.mp hw, hkw⟩
  refine ⟨ExtTreeMap.ext_getElem? fun key => Option.ext fun v => ⟨fun hv => ?_, fun hv => ?_⟩, hxy⟩
  · obtain ⟨w, hw, hkw⟩ := hentry hmap hv
    rw [hk key key v w hv hw hkw.symm]
    exact hw
  · obtain ⟨w, hw, hkw⟩ := hentry hmap.symm hv
    rw [← hk key key w v hw hv hkw]
    exact hw

theorem peel_compatibility {m m' : OrdMap HarnessId FidelityResult} {x y : Bytes}
    (h : Same hashedLimit (compatibilityRecord m ++ x) (compatibilityRecord m' ++ y)) :
    m = m' ∧ Same hashedLimit x y := by
  rw [compatibilityRecord, compatibilityRecord, List.append_assoc, List.append_assoc] at h
  exact peel_map (delimits_harness.pair delimits_fidelityResult) (fun _ => textRecord_ne_nil)
    (fun _ => rfl) (fun _ _ _ _ _ _ => id) h

theorem peel_bindings {s s' : OrdSet BindingName} {x y : Bytes}
    (h : Same hashedLimit (bindingsRecord s ++ x) (bindingsRecord s' ++ y)) :
    s = s' ∧ Same hashedLimit x y := by
  rw [bindingsRecord, bindingsRecord, List.append_assoc, List.append_assoc,
    ← ExtTreeSet.length_toList, ← ExtTreeSet.length_toList] at h
  have hne : ∀ name : BindingName, textRecord name.bytes ≠ [] := fun name hname =>
    textRecord_ne_nil ((List.append_nil _).trans hname)
  obtain ⟨hlist, hxy⟩ := counts_countRecord.peel_list delimits_name hne h
  refine ⟨ExtTreeSet.ext_mem fun name => ?_, hxy⟩
  rw [← ExtTreeSet.mem_toList, hlist, ExtTreeSet.mem_toList]

end Fields

section Inputs

variable (blake3 : Bytes → Digest)

/-- What the identity of a provenance record is the digest of. -/
def ComponentProvenance.identityInput (provenance : ComponentProvenance) : Bytes :=
  ascii "kitrove-component-provenance-v1" ++ [0] ++ provenance.source.record ++
    textRecord provenance.revision.bytes ++ textRecord provenance.exactSourceHash.bytes ++
    optionalRecord (provenance.originScope.map HarnessScope.asStr)

/-- What the revision of an asset is the digest of. -/
def Asset.revisionInput (asset : Asset) : Bytes :=
  ascii "kitrove-asset-revision-v3" ++ [0] ++ textRecord asset.id.bytes ++ [asset.kind.tag] ++
    countRecord asset.provenance.size ++
    (asset.provenance.toList.flatMap fun (id, record) =>
      textRecord id.bytes ++ textRecord (record.provenanceId blake3).bytes) ++
    (match asset.portable with
      | some portable =>
        1 :: textRecord portable.format ++ textRecord portable.root.bytes ++
          textRecord portable.objectHash.bytes ++ textRecord portable.provenance.bytes
      | none => [0]) ++
    countRecord asset.nativeVariants.size ++
    (asset.nativeVariants.toList.flatMap fun (harness, variant) =>
      textRecord harness.asStr ++ textRecord variant.harness.asStr ++
        textRecord variant.format ++ textRecord variant.root.bytes ++
        textRecord variant.objectHash.bytes ++ [variant.contentClass.tag] ++
        textRecord variant.provenance.bytes) ++
    compatibilityRecord asset.compatibility ++ [asset.contentClass.tag] ++
    bindingsRecord asset.requiredBindings

/-- What the revision of a pack is the digest of. -/
def Pack.revisionInput (pack : Pack) : Bytes :=
  ascii "kitrove-pack-revision-v1" ++ [0] ++ textRecord pack.id.bytes ++ pack.source.record ++
    textRecord pack.revision.bytes ++ textRecord pack.exactSourceHash.bytes ++
    countRecord pack.members.size ++
    (pack.members.toList.flatMap fun (id, revision) =>
      textRecord id.bytes ++ textRecord revision.bytes) ++
    compatibilityRecord pack.compatibility ++ [pack.contentClass.tag] ++
    bindingsRecord pack.requiredBindings

theorem Asset.expectedContentHash_eq (asset : Asset) : asset.expectedContentHash blake3 =
    ContentHash.ofDigest (blake3 (asset.revisionInput blake3)) := rfl

theorem Pack.expectedContentHash_eq (pack : Pack) : pack.expectedContentHash blake3 =
    ContentHash.ofDigest (blake3 pack.revisionInput) := rfl

theorem ComponentProvenance.provenanceId_eq (provenance : ComponentProvenance) :
    provenance.provenanceId blake3 = ProvenanceId.ofDigest (blake3 provenance.identityInput) := rfl

end Inputs

section Binding

variable {blake3 : Bytes → Digest} {limit : Nat} {x y : Bytes}

def portableRecord : Option PortableContent → Bytes
  | some portable =>
    1 :: textRecord portable.format ++ textRecord portable.root.bytes ++
      textRecord portable.objectHash.bytes ++ textRecord portable.provenance.bytes
  | none => [0]

theorem delimits_portable : Delimits hashedLimit portableRecord := by
  intro a b x y h
  cases a with
  | none =>
    cases b with
    | none => exact ⟨rfl, h.of_cons.2⟩
    | some b => exact absurd h.of_cons.1 (by decide)
  | some a =>
    cases b with
    | none => exact absurd h.of_cons.1 (by decide)
    | some b =>
      have htail := h.of_cons.2
      simp only [List.append_eq, List.append_assoc] at htail
      obtain ⟨hformat, htail⟩ := delimits_textRecord htail
      obtain ⟨hroot, htail⟩ := delimits_name htail
      obtain ⟨hobject, htail⟩ := delimits_name htail
      obtain ⟨hprovenance, hxy⟩ := delimits_name htail
      cases a
      cases b
      simp only at hformat hroot hobject hprovenance
      subst hformat hroot hobject hprovenance
      exact ⟨rfl, hxy⟩

def nativeRecord (entry : HarnessId × NativeVariant) : Bytes :=
  textRecord entry.1.asStr ++ textRecord entry.2.harness.asStr ++
    textRecord entry.2.format ++ textRecord entry.2.root.bytes ++
    textRecord entry.2.objectHash.bytes ++ [entry.2.contentClass.tag] ++
    textRecord entry.2.provenance.bytes

theorem delimits_native : Delimits hashedLimit nativeRecord := by
  rintro ⟨key, a⟩ ⟨key', b⟩ x y h
  simp only [nativeRecord, List.append_assoc] at h
  obtain ⟨hkey, h⟩ := delimits_harness h
  obtain ⟨hharness, h⟩ := delimits_harness h
  obtain ⟨hformat, h⟩ := delimits_textRecord h
  obtain ⟨hroot, h⟩ := delimits_name h
  obtain ⟨hobject, h⟩ := delimits_name h
  obtain ⟨hclass, h⟩ := delimits_contentClass h
  obtain ⟨hprovenance, hxy⟩ := delimits_name h
  cases a
  cases b
  simp only at hharness hformat hroot hobject hclass hprovenance
  subst hkey hharness hformat hroot hobject hclass hprovenance
  exact ⟨rfl, hxy⟩

/-- Two assets hashed from one input have one content, up to the revision they carry. -/
theorem Asset.revisionInput_binds {a b : Asset}
    (hprovenance : ∀ record ∈ a.provenance.values, ∀ record' ∈ b.provenance.values,
      record.provenanceId blake3 = record'.provenanceId blake3 → record = record')
    (hshort : (a.revisionInput blake3).length < hashedLimit)
    (h : a.revisionInput blake3 = b.revisionInput blake3) :
    { a with contentHash := b.contentHash } = b := by
  have hinput : ∀ asset : Asset, asset.revisionInput blake3 =
      (ascii "kitrove-asset-revision-v3" ++ [0]) ++ (textRecord asset.id.bytes ++
        ([asset.kind.tag] ++ (countRecord asset.provenance.size ++
        ((asset.provenance.toList.flatMap fun entry => textRecord entry.1.bytes ++
          textRecord (entry.2.provenanceId blake3).bytes) ++
        (portableRecord asset.portable ++ (countRecord asset.nativeVariants.size ++
        (asset.nativeVariants.toList.flatMap nativeRecord ++
        (compatibilityRecord asset.compatibility ++ ([asset.contentClass.tag] ++
        (bindingsRecord asset.requiredBindings ++ [])))))))))) := by
    intro asset
    have hrecords : asset.revisionInput blake3 =
        ascii "kitrove-asset-revision-v3" ++ [0] ++ textRecord asset.id.bytes ++
          [asset.kind.tag] ++ countRecord asset.provenance.size ++
          (asset.provenance.toList.flatMap fun entry => textRecord entry.1.bytes ++
            textRecord (entry.2.provenanceId blake3).bytes) ++
          portableRecord asset.portable ++ countRecord asset.nativeVariants.size ++
          asset.nativeVariants.toList.flatMap nativeRecord ++
          compatibilityRecord asset.compatibility ++ [asset.contentClass.tag] ++
          bindingsRecord asset.requiredBindings := rfl
    rw [hrecords]
    simp only [List.append_assoc, List.append_nil]
  have hsame : Same hashedLimit (a.revisionInput blake3) (b.revisionInput blake3) := ⟨h, hshort⟩
  rw [hinput, hinput] at hsame
  obtain ⟨-, hsame⟩ := hsame.of_append rfl
  obtain ⟨hid, hsame⟩ := delimits_name hsame
  obtain ⟨hkind, hsame⟩ := delimits_kind hsame
  obtain ⟨hrecords, hsame⟩ := peel_map (delimits_name.pair delimits_name)
    (fun _ => textRecord_ne_nil) (fun _ => rfl)
    (fun key key' v w hv hw => hprovenance v (OrdMap.mem_values.mpr ⟨key, hv⟩) w
      (OrdMap.mem_values.mpr ⟨key', hw⟩)) hsame
  obtain ⟨hportable, hsame⟩ := delimits_portable hsame
  obtain ⟨hnative, hsame⟩ := peel_map (k := fun variant => variant) delimits_native
    (fun entry => by simp [nativeRecord, textRecord, bigEndian64]) (fun _ => rfl)
    (fun _ _ _ _ _ _ hvariant => hvariant) hsame
  obtain ⟨hcompatibility, hsame⟩ := peel_compatibility hsame
  obtain ⟨hclass, hsame⟩ := delimits_contentClass hsame
  obtain ⟨hbindings, -⟩ := peel_bindings hsame
  cases a
  cases b
  simp only at hid hkind hrecords hportable hnative hcompatibility hclass hbindings
  subst hid hkind hrecords hportable hnative hcompatibility hclass hbindings
  rfl

theorem Pack.revisionInput_binds {a b : Pack} (hshort : a.revisionInput.length < hashedLimit)
    (h : a.revisionInput = b.revisionInput) : { a with contentHash := b.contentHash } = b := by
  have hinput : ∀ pack : Pack, pack.revisionInput =
      (ascii "kitrove-pack-revision-v1" ++ [0]) ++ (textRecord pack.id.bytes ++
        (pack.source.record ++ (textRecord pack.revision.bytes ++
        (textRecord pack.exactSourceHash.bytes ++ (countRecord pack.members.size ++
        ((pack.members.toList.flatMap fun entry => textRecord entry.1.bytes ++
          textRecord entry.2.bytes) ++
        (compatibilityRecord pack.compatibility ++ ([pack.contentClass.tag] ++
        (bindingsRecord pack.requiredBindings ++ []))))))))) := by
    intro pack
    rw [List.append_nil]
    simp only [Pack.revisionInput, List.append_assoc]
  have hsame : Same hashedLimit a.revisionInput b.revisionInput := ⟨h, hshort⟩
  rw [hinput, hinput] at hsame
  obtain ⟨-, hsame⟩ := hsame.of_append rfl
  obtain ⟨hid, hsame⟩ := delimits_name hsame
  obtain ⟨hsource, hsame⟩ := delimits_source hsame
  obtain ⟨hrevision, hsame⟩ := delimits_name hsame
  obtain ⟨hsourceHash, hsame⟩ := delimits_name hsame
  obtain ⟨hmembers, hsame⟩ := peel_map (delimits_name.pair delimits_name)
    (fun _ => textRecord_ne_nil) (fun _ => rfl) (fun _ _ _ _ _ _ hmember => hmember) hsame
  obtain ⟨hcompatibility, hsame⟩ := peel_compatibility hsame
  obtain ⟨hclass, hsame⟩ := delimits_contentClass hsame
  obtain ⟨hbindings, -⟩ := peel_bindings hsame
  cases a
  cases b
  simp only at hid hsource hrevision hsourceHash hmembers hcompatibility hclass hbindings
  subst hid hsource hrevision hsourceHash hmembers hcompatibility hclass hbindings
  rfl

theorem identityInput_binds {p q : ComponentProvenance}
    (hshort : p.identityInput.length < hashedLimit) (h : p.identityInput = q.identityInput) :
    p = q := by
  have hinput : ∀ record : ComponentProvenance, record.identityInput =
      (ascii "kitrove-component-provenance-v1" ++ [0]) ++ (record.source.record ++
        (textRecord record.revision.bytes ++ (textRecord record.exactSourceHash.bytes ++
        (optionalRecord (record.originScope.map HarnessScope.asStr) ++ [])))) := by
    intro record
    simp only [ComponentProvenance.identityInput, List.append_assoc, List.append_nil]
  have hsame : Same hashedLimit p.identityInput q.identityInput := ⟨h, hshort⟩
  rw [hinput, hinput] at hsame
  obtain ⟨-, hsame⟩ := hsame.of_append rfl
  obtain ⟨hsource, hsame⟩ := delimits_source hsame
  obtain ⟨hrevision, hsame⟩ := delimits_name hsame
  obtain ⟨hsourceHash, hsame⟩ := delimits_name hsame
  obtain ⟨hscopes, -⟩ := delimits_optionalRecord hsame
  have hscope : p.originScope = q.originScope := by
    refine Option.map_injective (fun s t hst => ?_) hscopes
    cases s <;> cases t <;> first | rfl | exact absurd hst (by decide +kernel)
  cases p
  cases q
  simp only at hsource hrevision hsourceHash hscope
  subst hsource hrevision hsourceHash hscope
  rfl

end Binding

section Identity

variable {blake3 : Bytes → Digest}

/-- No two of the inputs have one digest. -/
def NoCollision (blake3 : Bytes → Digest) (inputs : List Bytes) : Prop :=
  ∀ x ∈ inputs, ∀ y ∈ inputs, blake3 x = blake3 y → x = y

/-- Everything that is hashed for the revision of an asset. -/
def Asset.hashedInputs (blake3 : Bytes → Digest) (asset : Asset) : List Bytes :=
  asset.revisionInput blake3 :: asset.provenance.values.map ComponentProvenance.identityInput

theorem ContentHash.ofDigest_injective {d e : Digest}
    (h : ContentHash.ofDigest d = ContentHash.ofDigest e) : d = e := by
  have hhex : d.hex = e.hex := List.append_cancel_left (congrArg Name.bytes h)
  cases d
  cases e
  congr

theorem ProvenanceId.ofDigest_injective {d e : Digest}
    (h : ProvenanceId.ofDigest d = ProvenanceId.ofDigest e) : d = e := by
  have hhex : d.hex = e.hex := List.append_cancel_left (congrArg Name.bytes h)
  cases d
  cases e
  congr

theorem Asset.eq_of_contentHash {a b : Asset}
    (hfree : NoCollision blake3 (a.hashedInputs blake3 ++ b.hashedInputs blake3))
    (hshort : ∀ input ∈ a.hashedInputs blake3, input.length < hashedLimit)
    (ha : a.contentHash = a.expectedContentHash blake3)
    (hb : b.contentHash = b.expectedContentHash blake3) (h : a.contentHash = b.contentHash) :
    a = b := by
  have hprovenance : ∀ record ∈ a.provenance.values, ∀ record' ∈ b.provenance.values,
      record.provenanceId blake3 = record'.provenanceId blake3 → record = record' := by
    intro record hrecord record' hrecord' hid
    rw [ComponentProvenance.provenanceId_eq, ComponentProvenance.provenanceId_eq] at hid
    have hinput : record.identityInput ∈ a.hashedInputs blake3 :=
      List.mem_cons_of_mem _ (List.mem_map_of_mem hrecord)
    have hinput' : record'.identityInput ∈ b.hashedInputs blake3 :=
      List.mem_cons_of_mem _ (List.mem_map_of_mem hrecord')
    exact identityInput_binds (hshort _ hinput)
      (hfree _ (List.mem_append_left _ hinput) _ (List.mem_append_right _ hinput')
        (ProvenanceId.ofDigest_injective hid))
  have hdigest : blake3 (a.revisionInput blake3) = blake3 (b.revisionInput blake3) := by
    rw [ha, hb, Asset.expectedContentHash_eq, Asset.expectedContentHash_eq] at h
    exact ContentHash.ofDigest_injective h
  have hinput := hfree _ (List.mem_append_left _ List.mem_cons_self) _
    (List.mem_append_right _ List.mem_cons_self) hdigest
  have hbinds := Asset.revisionInput_binds hprovenance (hshort _ List.mem_cons_self) hinput
  rw [← h] at hbinds
  exact hbinds

theorem Pack.eq_of_contentHash {a b : Pack}
    (hfree : NoCollision blake3 [a.revisionInput, b.revisionInput])
    (hshort : a.revisionInput.length < hashedLimit)
    (ha : a.contentHash = a.expectedContentHash blake3)
    (hb : b.contentHash = b.expectedContentHash blake3) (h : a.contentHash = b.contentHash) :
    a = b := by
  have hdigest : blake3 a.revisionInput = blake3 b.revisionInput := by
    rw [ha, hb, Pack.expectedContentHash_eq, Pack.expectedContentHash_eq] at h
    exact ContentHash.ofDigest_injective h
  have hinput := hfree _ List.mem_cons_self _ (List.mem_cons_of_mem _ List.mem_cons_self) hdigest
  have hbinds := Pack.revisionInput_binds hshort hinput
  rw [← h] at hbinds
  exact hbinds

/-- A revision binds every field of its record, and the record when the hash has no collision.
No text is hashed that has 2^64 bytes or more. -/
theorem revisions_bind_records (blake3 : Bytes → Digest) :
    (∀ a b : Asset,
      (∀ record ∈ a.provenance.values, ∀ record' ∈ b.provenance.values,
        record.provenanceId blake3 = record'.provenanceId blake3 → record = record') →
      (a.revisionInput blake3).length < 2 ^ 64 →
      a.revisionInput blake3 = b.revisionInput blake3 →
      { a with contentHash := b.contentHash } = b) ∧
    (∀ a b : Pack, a.revisionInput.length < 2 ^ 64 → a.revisionInput = b.revisionInput →
      { a with contentHash := b.contentHash } = b) ∧
    (∀ a b : Asset, NoCollision blake3 (a.hashedInputs blake3 ++ b.hashedInputs blake3) →
      (∀ input ∈ a.hashedInputs blake3, input.length < 2 ^ 64) →
      a.contentHash = a.expectedContentHash blake3 → b.contentHash = b.expectedContentHash blake3 →
      a.contentHash = b.contentHash → a = b) ∧
    ∀ a b : Pack, NoCollision blake3 [a.revisionInput, b.revisionInput] →
      a.revisionInput.length < 2 ^ 64 →
      a.contentHash = a.expectedContentHash blake3 → b.contentHash = b.expectedContentHash blake3 →
      a.contentHash = b.contentHash → a = b :=
  ⟨fun _ _ => Asset.revisionInput_binds, fun _ _ => Pack.revisionInput_binds,
    fun _ _ => Asset.eq_of_contentHash, fun _ _ => Pack.eq_of_contentHash⟩

namespace RevisionSample

def digest : Digest := ⟨List.replicate 64 0x30, validDigest_zeros⟩

def hash : ContentHash := ContentHash.ofDigest ⟨List.replicate 64 0x31, validDigest_ones⟩

def id : AssetId := ⟨ascii "review", by decide +kernel, by decide +kernel⟩

def asset : Asset := ⟨id, .skill, hash, ∅, none, ∅, ∅, .dataOnly, ∅⟩

def pack : Pack :=
  ⟨id, .authoredPack, authoredPackRevision, hash, hash, {(id, hash)}, ∅, .dataOnly, ∅⟩

end RevisionSample

open RevisionSample in
theorem revisions_bind_records_sample :
    { asset with contentHash := ContentHash.ofDigest digest } =
      asset.refreshContentHash (fun _ => digest) ∧
    { pack with contentHash := ContentHash.ofDigest digest } =
      pack.refreshContentHash (fun _ => digest) := by
  refine ⟨(revisions_bind_records fun _ => digest).1 asset
      (asset.refreshContentHash fun _ => digest) (fun record hrecord => ?_) (by decide +kernel) rfl,
    (revisions_bind_records fun _ => digest).2.1 pack (pack.refreshContentHash fun _ => digest)
      (by decide +kernel) rfl⟩
  obtain ⟨key, hkey⟩ := OrdMap.mem_values.mp hrecord
  have hempty : (∅ : OrdMap ProvenanceId ComponentProvenance)[key]? = some record := hkey
  rw [ExtTreeMap.getElem?_empty] at hempty
  cases hempty

end Identity

end Kitrove
