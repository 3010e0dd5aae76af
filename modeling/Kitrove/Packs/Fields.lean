import Kitrove.Model.Packs
import Mathlib.Data.Nat.Basic
import Mathlib.Order.Basic

/-! What a pack derives from its members: it derives always, and what from each of them. -/

namespace Kitrove

open Std Except

/-- A printable ASCII byte makes a text more than white space. -/
theorem isBlank_eq_false {text : Bytes} {b : UInt8} (hb : b ∈ text) (hlow : 0x20 < b)
    (hhigh : b < 0x80) : isBlank text = false := by
  fun_induction isBlank text with
  | case1 => exact absurd hb List.not_mem_nil
  | _ => grind

section Order

theorem ContentClass.tag_injective {a b : ContentClass} (h : a.tag.toNat = b.tag.toNat) : a = b := by
  cases a <;> cases b <;> first | rfl | (revert h; decide)

theorem Fidelity.tag_injective {a b : Fidelity} (h : a.tag.toNat = b.tag.toNat) : a = b := by
  cases a <;> cases b <;> first | rfl | (revert h; decide)

/-- The derived order, by the position of the constructor. -/
instance : PartialOrder ContentClass :=
  PartialOrder.lift (fun c : ContentClass => c.tag.toNat) fun _ _ => ContentClass.tag_injective

/-- The derived order, by the position of the constructor. -/
instance : PartialOrder Fidelity :=
  PartialOrder.lift (fun f : Fidelity => f.tag.toNat) fun _ _ => Fidelity.tag_injective

theorem ContentClass.le_iff {a b : ContentClass} : a ≤ b ↔ a.tag.toNat ≤ b.tag.toNat := Iff.rfl

theorem Fidelity.le_iff {a b : Fidelity} : a ≤ b ↔ a.tag.toNat ≤ b.tag.toNat := Iff.rfl

theorem ContentClass.max_le {a b c : ContentClass} : a.max b ≤ c ↔ a ≤ c ∧ b ≤ c := by
  simp only [ContentClass.max, UInt8.le_iff_toNat_le, ContentClass.le_iff]
  split <;> omega

theorem Fidelity.max_le {a b c : Fidelity} : a.max b ≤ c ↔ a ≤ c ∧ b ≤ c := by
  simp only [Fidelity.max, UInt8.le_iff_toNat_le, Fidelity.le_iff]
  split <;> omega

theorem foldl_le_iff {α : Type} [Preorder α] {join : α → α → α}
    (hjoin : ∀ {a b c : α}, join a b ≤ c ↔ a ≤ c ∧ b ≤ c) {xs : List α} {a c : α} :
    xs.foldl join a ≤ c ↔ a ≤ c ∧ ∀ x ∈ xs, x ≤ c := by
  induction xs generalizing a with
  | nil => simp
  | cons x xs ih =>
    rw [List.foldl_cons, ih, hjoin, List.forall_mem_cons, and_assoc]

theorem ContentClass.dataOnly_le (c : ContentClass) : ContentClass.dataOnly ≤ c := by
  rw [ContentClass.le_iff]
  exact Nat.zero_le _

theorem Fidelity.native_le (f : Fidelity) : Fidelity.native ≤ f := by
  rw [Fidelity.le_iff]
  exact Nat.zero_le _

/-- The highest class of a list. -/
def highestClass (classes : List ContentClass) : ContentClass :=
  classes.foldl ContentClass.max .dataOnly

/-- The lowest fidelity of a list. -/
def lowestFidelity (fidelities : List Fidelity) : Fidelity :=
  fidelities.foldl Fidelity.max .native

theorem highestClass_le {classes : List ContentClass} {c : ContentClass} :
    highestClass classes ≤ c ↔ ∀ x ∈ classes, x ≤ c :=
  (foldl_le_iff ContentClass.max_le).trans (and_iff_right (ContentClass.dataOnly_le c))

theorem lowestFidelity_le {fidelities : List Fidelity} {f : Fidelity} :
    lowestFidelity fidelities ≤ f ↔ ∀ x ∈ fidelities, x ≤ f :=
  (foldl_le_iff Fidelity.max_le).trans (and_iff_right (Fidelity.native_le f))

end Order

section Results

/-- A blocked result says by what, and no other does. -/
theorem FidelityResult.blocked_iff (result : FidelityResult) :
    result.fidelity = .blocked ↔ result.blockedRequirements ≠ [] := by
  have hvalid := result.valid
  unfold RawFidelityResult.validate at hvalid
  obtain ⟨-, hvalid⟩ := refuseIf_bind_eq_ok.mp hvalid
  obtain ⟨-, hvalid⟩ := refuseIf_bind_eq_ok.mp hvalid
  obtain ⟨hblocked, hvalid⟩ := refuseIf_bind_eq_ok.mp hvalid
  obtain ⟨hnot, -⟩ := refuseIf_bind_eq_ok.mp hvalid
  simp only [decide_eq_false_iff_not, not_and] at hblocked hnot
  constructor
  · exact hblocked
  · intro hne
    by_contra h
    exact hnot h hne

theorem FidelityResult.new_eq_ok {raw : RawFidelityResult} (h : raw.validate = .ok ()) :
    FidelityResult.new raw = .ok ⟨raw, h⟩ := by
  unfold FidelityResult.new
  split
  · rename_i e he
    rw [h] at he
    cases he
  · rfl

theorem isBlank_evidence (n : Nat) :
    isBlank (decimal n ++ ascii " exact member revisions") = false :=
  isBlank_eq_false (b := 0x65) (List.mem_append_right _ (by decide +kernel)) (by decide) (by decide)

variable {members : List PackMemberMetadata} {harness : HarnessId}

/-- The requirements that block some member on a harness. -/
def blockedRequirementsOf (members : List PackMemberMetadata) (harness : HarnessId) :
    OrdSet BlockedRequirement :=
  OrdMap.setOf ((members.map fun member => member.compatibility[harness]?).flatMap fun result =>
    (result.map fun result => result.blockedRequirements).getD [])

theorem mem_blockedRequirementsOf {requirement : BlockedRequirement} :
    requirement ∈ blockedRequirementsOf members harness ↔ ∃ member ∈ members, ∃ result,
      member.compatibility[harness]? = some result ∧ requirement ∈ result.blockedRequirements := by
  rw [blockedRequirementsOf, OrdMap.mem_setOf, List.mem_flatMap]
  constructor
  · rintro ⟨result, hresult, hrequirement⟩
    obtain ⟨member, hmember, rfl⟩ := List.mem_map.mp hresult
    cases hget : member.compatibility[harness]? with
    | none => simp [hget] at hrequirement
    | some result =>
      simp only [hget] at hrequirement
      exact ⟨member, hmember, result, hget, hrequirement⟩
  · rintro ⟨member, hmember, result, hget, hrequirement⟩
    refine ⟨_, List.mem_map.mpr ⟨member, hmember, rfl⟩, ?_⟩
    rw [hget]
    exact hrequirement

/-- Blocked is the lowest fidelity only of a list that has it. -/
theorem blocked_mem {fidelities : List Fidelity} (h : lowestFidelity fidelities = .blocked) :
    Fidelity.blocked ∈ fidelities := by
  by_contra hnot
  have hle : lowestFidelity fidelities ≤ .unsupported := by
    refine lowestFidelity_le.mpr fun f hf => ?_
    cases f
    case blocked => exact absurd hf hnot
    all_goals exact Fidelity.le_iff.mpr (by decide)
  rw [h, Fidelity.le_iff] at hle
  exact absurd hle (by decide)

theorem blockedRequirementsOf_ne_nil
    (h : lowestFidelity (members.map (memberFidelity harness)) = .blocked) :
    (blockedRequirementsOf members harness).toList ≠ [] := by
  obtain ⟨member, hmember, hblocked⟩ := List.mem_map.mp (blocked_mem h)
  unfold memberFidelity at hblocked
  cases hresult : member.compatibility[harness]? with
  | none => simp [hresult] at hblocked
  | some result =>
    simp only [hresult] at hblocked
    obtain ⟨requirement, hrequirement⟩ :=
      List.exists_mem_of_ne_nil _ (result.blocked_iff.mp hblocked)
    exact List.ne_nil_of_mem (ExtTreeSet.mem_toList.mpr (mem_blockedRequirementsOf.mpr
      ⟨member, hmember, result, hresult, hrequirement⟩))

/-- An aggregate is a result, when its reasons are valid and something blocks what is blocked. -/
theorem new_aggregate {fidelity : Fidelity} {reasons : List FidelityReason}
    {blocked : List BlockedRequirement} (n : Nat) (harnessVersion : Option Bytes)
    (hreasons : fidelity ∈ [Fidelity.partial', .unsupported, .blocked] → reasons ≠ [])
    (hblank : ∀ reason ∈ reasons, isBlank reason.code = false ∧ isBlank reason.message = false)
    (hblocked : fidelity = .blocked → blocked ≠ []) :
    ∃ result, FidelityResult.new ⟨fidelity, reasons,
        [⟨ascii "pack.aggregate", decimal n ++ ascii " exact member revisions"⟩],
        if fidelity = .blocked then blocked else [], packAggregateVersion, harnessVersion⟩ =
          .ok result ∧
      result.fidelity = fidelity ∧
      result.blockedRequirements = if result.fidelity = .blocked then blocked else [] := by
  have hkind : isBlank (ascii "pack.aggregate") = false := by decide +kernel
  have hversion : isBlank packAggregateVersion = false := by decide +kernel
  have hany : reasons.any (fun reason => isBlank reason.code || isBlank reason.message) = false := by
    rw [List.any_eq_false]
    intro reason hreason
    simp [hblank reason hreason]
  have hvalid : (RawFidelityResult.mk fidelity reasons
      [⟨ascii "pack.aggregate", decimal n ++ ascii " exact member revisions"⟩]
      (if fidelity = .blocked then blocked else [])
      packAggregateVersion harnessVersion).validate = .ok () := by
    unfold RawFidelityResult.validate
    simp only [refuseIf_bind_eq_ok, refuseIf_eq_ok, decide_eq_false_iff_not, not_and]
    refine ⟨hreasons, hany, fun h => ?_, fun h => ?_, by simp, ?_, hversion⟩
    · rw [if_pos h]
      exact hblocked h
    · rw [if_neg h]
      exact not_not.mpr rfl
    · simp [hkind, isBlank_evidence]
  exact ⟨_, FidelityResult.new_eq_ok hvalid, rfl, rfl⟩

theorem exact_eq_new {fidelity : Fidelity} {evidence : List FidelityEvidence} {version : Bytes}
    {harnessVersion : Option Bytes} (h : fidelity ∈ [Fidelity.native, .portable, .adapted]) :
    FidelityResult.exact fidelity evidence version harnessVersion =
      FidelityResult.new ⟨fidelity, [], evidence, [], version, harnessVersion⟩ := by
  unfold FidelityResult.exact
  rw [decide_eq_false (not_not.mpr h)]
  rfl

/-- The fidelity of a pack on a harness is the lowest of its members', with what blocks them. -/
theorem aggregateFidelity_ok (members : List PackMemberMetadata) (harness : HarnessId) :
    ∃ result, aggregateFidelity members harness = .ok result ∧
      result.fidelity = lowestFidelity (members.map (memberFidelity harness)) ∧
      result.blockedRequirements =
        if result.fidelity = .blocked then (blockedRequirementsOf members harness).toList else [] := by
  have hselected : (members.map (memberFidelity harness)).foldl Fidelity.max .native =
    lowestFidelity (members.map (memberFidelity harness)) := rfl
  have hblocked : OrdMap.setOf ((members.map fun member => member.compatibility[harness]?).flatMap
      fun result => (result.map fun result => result.blockedRequirements).getD []) =
    blockedRequirementsOf members harness := rfl
  unfold aggregateFidelity
  simp only [hselected, hblocked]
  cases hfidelity : lowestFidelity (members.map (memberFidelity harness)) with
  | native | portable | adapted =>
    dsimp only
    rw [exact_eq_new (by decide)]
    exact new_aggregate _ _ (by decide) (by simp) nofun
  | partial' =>
    exact new_aggregate _ _ (by simp) (by decide +kernel) nofun
  | unsupported =>
    refine new_aggregate _ _ (by simp) (fun reason hreason => ?_) nofun
    rw [List.mem_singleton.mp hreason]
    split <;> decide +kernel
  | blocked =>
    exact new_aggregate _ _ (by simp) (by decide +kernel) fun _ => blockedRequirementsOf_ne_nil hfidelity

/-- What a list of members gives a pack. -/
structure Aggregated (members : List PackMemberMetadata) (derived : DerivedPackFields) : Prop where
  contentClass : derived.contentClass = highestClass (members.map PackMemberMetadata.contentClass)
  requiredBindings : ∀ name, name ∈ derived.requiredBindings ↔
    ∃ member ∈ members, name ∈ member.requiredBindings
  harnesses : ∀ harness, harness ∈ derived.compatibility ↔
    ∃ member ∈ members, harness ∈ member.compatibility
  fidelity : ∀ (harness : HarnessId) (result : FidelityResult),
    derived.compatibility[harness]? = some result →
    result.fidelity = lowestFidelity (members.map (memberFidelity harness))
  blocked : ∀ (harness : HarnessId) (result : FidelityResult),
    derived.compatibility[harness]? = some result → ∀ requirement,
    requirement ∈ result.blockedRequirements ↔
      result.fidelity = .blocked ∧ requirement ∈ blockedRequirementsOf members harness

theorem derivePackFields_eq_ok {derived : DerivedPackFields} :
    derivePackFields members = .ok derived ↔ members ≠ [] ∧
      (∃ compatibility, OrdMap.buildM (OrdMap.setOf (members.flatMap fun member =>
          member.compatibility.keys)).toList (fun harness => do
            let result ← aggregateFidelity members harness
            pure (some result)) = .ok compatibility ∧
        derived = ⟨compatibility, highestClass (members.map PackMemberMetadata.contentClass),
          OrdMap.setOf (members.flatMap fun member => member.requiredBindings.toList)⟩) := by
  unfold derivePackFields
  rw [refuseIf_bind_eq_ok, List.isEmpty_eq_false_iff]
  refine and_congr_right fun _ => bind_eq_ok_iff.trans (exists_congr fun compatibility =>
    and_congr_right fun _ => ?_)
  rw [pure_eq_ok_iff, eq_comm]
  rfl

/-- A pack with members can always be derived from them. -/
theorem derivePackFields_ok (hne : members ≠ []) :
    ∃ derived, derivePackFields members = .ok derived := by
  have hbuilt : ∃ compatibility, OrdMap.buildM (OrdMap.setOf (members.flatMap fun member =>
      member.compatibility.keys)).toList (fun harness => do
        let result ← aggregateFidelity members harness
        pure (some result)) = .ok compatibility := by
    refine foldlM_ok fun built harness _ => ?_
    obtain ⟨result, hresult, -⟩ := aggregateFidelity_ok members harness
    refine ⟨built.insert harness result, ?_⟩
    rw [OrdMap.buildStep, hresult]
    rfl
  obtain ⟨compatibility, hcompatibility⟩ := hbuilt
  exact ⟨_, derivePackFields_eq_ok.mpr ⟨hne, compatibility, hcompatibility, rfl⟩⟩

theorem derivePackFields_aggregated {derived : DerivedPackFields}
    (h : derivePackFields members = .ok derived) : Aggregated members derived := by
  obtain ⟨-, compatibility, hcompatibility, rfl⟩ := derivePackFields_eq_ok.mp h
  obtain ⟨hsome, hnone⟩ := (OrdMap.buildM_iff (Outcome.ok _) OrdMap.nodup_toList).mp hcompatibility
  have hmem : ∀ harness : HarnessId, harness ∈ (OrdMap.setOf (members.flatMap fun member =>
      member.compatibility.keys)).toList ↔ ∃ member ∈ members, harness ∈ member.compatibility := by
    intro harness
    rw [ExtTreeSet.mem_toList, OrdMap.mem_setOf, List.mem_flatMap]
    exact exists_congr fun _ => and_congr_right fun _ => ExtTreeMap.mem_keys
  have hget : ∀ (harness : HarnessId) (result : FidelityResult),
      compatibility[harness]? = some result → aggregateFidelity members harness = .ok result := by
    intro harness result hresult
    have hharness : harness ∈ (OrdMap.setOf (members.flatMap fun member =>
        member.compatibility.keys)).toList := by
      by_contra hnot
      rw [hnone harness hnot] at hresult
      contradiction
    obtain ⟨other, hother, hpure⟩ := bind_eq_ok_iff.mp (hsome harness hharness)
    rw [hresult, pure_eq_ok_iff, Option.some.injEq] at hpure
    rw [hother, hpure]
  refine
    { contentClass := rfl
      requiredBindings := fun name => ?_
      harnesses := fun harness => ?_
      fidelity := fun harness result hresult => ?_
      blocked := fun harness result hresult requirement => ?_ }
  · rw [OrdMap.mem_setOf, List.mem_flatMap]
    exact exists_congr fun _ => and_congr_right fun _ => ExtTreeSet.mem_toList
  · rw [← hmem]
    constructor
    · intro hin
      by_contra hnot
      rw [OrdMap.mem_iff_getElem?, hnone harness hnot] at hin
      obtain ⟨_, hin⟩ := hin
      contradiction
    · intro hin
      obtain ⟨result, -, hpure⟩ := bind_eq_ok_iff.mp (hsome harness hin)
      rw [pure_eq_ok_iff] at hpure
      exact OrdMap.mem_iff_getElem?.mpr ⟨result, hpure.symm⟩
  · obtain ⟨other, hother, hfidelity, -⟩ := aggregateFidelity_ok members harness
    rw [hget harness result hresult] at hother
    cases hother
    exact hfidelity
  · obtain ⟨other, hother, -, hblocked⟩ := aggregateFidelity_ok members harness
    rw [hget harness result hresult] at hother
    cases hother
    rw [hblocked]
    split
    · rename_i h
      rw [ExtTreeSet.mem_toList]
      exact (and_iff_right h).symm
    · rename_i h
      exact iff_of_false List.not_mem_nil fun hboth => h hboth.1

end Results

end Kitrove
