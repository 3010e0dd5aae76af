import Kitrove.Model.Asset
import Kitrove.Support.Outcome

/-! The pack graph of a manifest: its budget, its depth, and the fields a pack derives from
its members. -/

namespace Kitrove

open Std

abbrev PackMap := OrdMap AssetId Pack

def maxPackMemberEdges : Nat := 4096
def maxPackGraphDepth : Nat := 64

def validatePackMemberBudget (packs : PackMap) (memberCode : String) :
    Except ValidationError Unit :=
  refuseIf ((packs.values.map fun pack => pack.members.size).sum > maxPackMemberEdges)
    ⟨memberCode, ascii "pack member graph exceeds the compiled limit"⟩

section Graph

structure HeightState where
  visiting : OrdSet AssetId
  memo : OrdMap AssetId Nat

structure VisitState where
  visiting : OrdSet AssetId
  visited : OrdSet AssetId

/-- The members of a pack that are packs themselves. -/
def nestedMembers {P : Type} (packs : OrdMap AssetId P) (members : P → OrdMap AssetId ContentHash)
    (id : AssetId) : List AssetId :=
  match packs[id]? with
  | none => []
  | some pack => (members pack).keys.filter packs.contains

variable (nested : AssetId → List AssetId) (depthError : ValidationError)

/-- The height of a pack, with `remaining` levels left below the depth limit. -/
def height (cycleError : ValidationError) :
    Nat → AssetId → StateT HeightState (Except ValidationError) Nat
  | 0, _ => throw depthError
  | remaining + 1, id => do
    let s ← get
    match s.memo[id]? with
    | some known =>
      if maxPackGraphDepth - remaining - 1 + known > maxPackGraphDepth then throw depthError
      pure known
    | none =>
      if s.visiting.contains id then throw cycleError
      set { s with visiting := s.visiting.insert id }
      let result ← (nested id).foldlM (fun result member => do
        let below ← height cycleError remaining member
        let result := max result (below + 1)
        if result > maxPackGraphDepth then throw depthError
        pure result) 1
      modify fun s => { visiting := s.visiting.erase id, memo := s.memo.insert id result }
      pure result

def validateGraphDepth (cycleError : ValidationError) (ids : List AssetId) :
    Except ValidationError Unit := do
  let _ ← (ids.forM fun id => discard (height nested depthError cycleError maxPackGraphDepth id)).run
    ⟨∅, ∅⟩
  pure ()

/-- Walks a pack's members before it, with `remaining` levels left below the depth limit. -/
def visit (cycleError : AssetId → ValidationError) :
    Nat → AssetId → StateT VisitState (Except ValidationError) Unit
  | 0, id => do
    let s ← get
    if s.visited.contains id then pure ()
    else if s.visiting.contains id then throw (cycleError id)
    else throw depthError
  | remaining + 1, id => do
    let s ← get
    if s.visited.contains id then pure ()
    else if s.visiting.contains id then throw (cycleError id)
    else
      set { s with visiting := s.visiting.insert id }
      (nested id).forM fun member => visit cycleError remaining member
      modify fun s => { visiting := s.visiting.erase id, visited := s.visited.insert id }

def rejectCycles (cycleError : AssetId → ValidationError) (ids : List AssetId) :
    Except ValidationError Unit := do
  let _ ← (ids.forM fun id => visit nested depthError cycleError maxPackGraphDepth id).run ⟨∅, ∅⟩
  pure ()

end Graph

section Derived

structure PackMemberMetadata where
  id : AssetId
  revision : ContentHash
  compatibility : OrdMap HarnessId FidelityResult
  contentClass : ContentClass
  requiredBindings : OrdSet BindingName

structure DerivedPackFields where
  compatibility : OrdMap HarnessId FidelityResult
  contentClass : ContentClass
  requiredBindings : OrdSet BindingName

/-- The digits of a count. -/
def decimal (n : Nat) : Bytes := (Nat.toDigits 10 n).map fun c => c.toNat.toUInt8

def packAggregateVersion : Bytes := ascii "kitrove-pack-aggregate/v1"

/-- The first of the members' versions, when all have it. -/
def commonVersion (versions : List (Option Bytes)) : Option Bytes :=
  match versions with
  | [] => none
  | first :: _ => if versions.all (· = first) then first else none

def memberFidelity (harness : HarnessId) (member : PackMemberMetadata) : Fidelity :=
  match member.compatibility[harness]? with
  | some result => result.fidelity
  | none => .unsupported

def aggregateFidelity (members : List PackMemberMetadata) (harness : HarnessId) :
    Except ValidationError FidelityResult :=
  let results := members.map fun member => member.compatibility[harness]?
  let selected := (members.map (memberFidelity harness)).foldl Fidelity.max .native
  let missing := results.any Option.isNone
  let blocked := OrdMap.setOf (results.flatMap fun result =>
    (result.map fun result => result.blockedRequirements).getD [])
  let harnessVersion := commonVersion (results.map fun result =>
    result.bind fun result => result.harnessVersion)
  let evidence : List FidelityEvidence :=
    [⟨ascii "pack.aggregate", decimal members.length ++ ascii " exact member revisions"⟩]
  match selected with
  | .native | .portable | .adapted =>
    FidelityResult.exact selected evidence packAggregateVersion harnessVersion
  | .partial' =>
    FidelityResult.new ⟨selected,
      [⟨ascii "pack.member_partial",
        ascii "at least one pack member has partial target fidelity"⟩],
      evidence, [], packAggregateVersion, harnessVersion⟩
  | .unsupported =>
    FidelityResult.new ⟨selected,
      [if missing then
        ⟨ascii "pack.member_fidelity_missing",
          ascii "at least one pack member lacks target fidelity evidence"⟩
      else
        ⟨ascii "pack.member_unsupported",
          ascii "at least one pack member is unsupported on the target"⟩],
      evidence, [], packAggregateVersion, harnessVersion⟩
  | .blocked =>
    FidelityResult.new ⟨selected,
      [⟨ascii "pack.member_blocked",
        ascii "at least one pack member is blocked by a local requirement"⟩],
      evidence, blocked.toList, packAggregateVersion, harnessVersion⟩

def packEmpty : ValidationError :=
  ⟨"manifest.pack_empty", ascii "a pack requires at least one exact member revision"⟩

def derivePackFields (members : List PackMemberMetadata) :
    Except ValidationError DerivedPackFields := do
  refuseIf members.isEmpty packEmpty
  let harnesses := OrdMap.setOf (members.flatMap fun member => member.compatibility.keys)
  let compatibility ← OrdMap.buildM harnesses.toList fun harness => do
    let result ← aggregateFidelity members harness
    pure (some result)
  pure
    { compatibility
      contentClass := (members.map PackMemberMetadata.contentClass).foldl ContentClass.max .dataOnly
      requiredBindings := OrdMap.setOf (members.flatMap fun member => member.requiredBindings.toList) }

end Derived

end Kitrove
