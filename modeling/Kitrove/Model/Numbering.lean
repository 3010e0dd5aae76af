import Kitrove.Model.LocalState
import Mathlib.Logic.Encodable.Basic
import Mathlib.Logic.Equiv.List

/-! Numbers of machine-local states, and a library that writes each state as its number. -/

namespace Kitrove

open Std

section Collections

variable {K V : Type} [Ord K] [TransOrd K] [LawfulEqOrd K] [DecidableEq K]

theorem OrdMap.mapOf_toList (m : OrdMap K V) : OrdMap.mapOf m.toList = m := by
  have hnodup : (m.toList.map Prod.fst).Nodup := by
    rw [ExtTreeMap.map_fst_toList_eq_keys]
    exact ExtTreeMap.nodup_keys
  refine ExtTreeMap.ext_getElem? fun k => Option.ext fun v => ?_
  rw [OrdMap.getElem?_mapOf hnodup, ExtTreeMap.mem_toList_iff_getElem?_eq_some]

theorem OrdMap.setOf_toList (s : OrdSet K) : OrdMap.setOf s.toList = s :=
  ExtTreeSet.ext_mem fun k => by rw [OrdMap.mem_setOf, ExtTreeSet.mem_toList]

instance [Encodable K] [Encodable V] : Encodable (OrdMap K V) :=
  Encodable.ofLeftInverse ExtTreeMap.toList OrdMap.mapOf OrdMap.mapOf_toList

instance [Encodable K] : Encodable (OrdSet K) :=
  Encodable.ofLeftInverse ExtTreeSet.toList OrdMap.setOf OrdMap.setOf_toList

end Collections

section Records

instance encodableUInt8 : Encodable UInt8 :=
  Encodable.ofLeftInverse UInt8.toNat UInt8.ofNat fun _ => UInt8.ofNat_toNat

instance encodableUInt32 : Encodable UInt32 :=
  Encodable.ofLeftInverse UInt32.toNat UInt32.ofNat fun _ => UInt32.ofNat_toNat

instance {kind : NameKind} : Encodable (Name kind) :=
  Encodable.ofLeftInjection Name.bytes (Name.parse kind) fun name => dif_pos ⟨name.valid, name.bounded⟩

instance : Encodable NormalizedDestination :=
  Encodable.ofLeftInverse NormalizedDestination.text NormalizedDestination.mk fun _ => rfl

instance : Encodable HarnessScope :=
  Encodable.ofLeftInverse (fun scope => scope == .user) (fun user => if user then .user else .project)
    fun scope => by cases scope <;> rfl

instance : Encodable HarnessId :=
  Encodable.ofLeftInverse
    (fun harness => match harness with
      | .claude => Sum.inl 0
      | .codex => Sum.inl 1
      | .pi => Sum.inl 2
      | .openCode => Sum.inl 3
      | .other id => Sum.inr id)
    (fun number : Nat ⊕ CommunityHarnessId => match number with
      | .inl 0 => .claude
      | .inl 1 => .codex
      | .inl 2 => .pi
      | .inl _ => .openCode
      | .inr id => .other id)
    fun harness => by cases harness <;> rfl

instance : Encodable ReceiptTarget :=
  Encodable.ofLeftInverse
    (fun target => match target with
      | .wholeTarget => 0
      | .managedInstructionRegion => 1
      | .managedMcpEntry => 2)
    (fun number : Nat => match number with
      | 0 => .wholeTarget
      | 1 => .managedInstructionRegion
      | _ => .managedMcpEntry)
    fun target => by cases target <;> rfl

instance : Encodable BindingResolver :=
  Encodable.ofLeftInverse
    (fun resolver => match resolver with
      | .environment variable' => Sum.inl variable'
      | .command program arguments => Sum.inr (program, arguments))
    (fun parts : Bytes ⊕ Bytes × List Bytes => match parts with
      | .inl variable' => .environment variable'
      | .inr (program, arguments) => .command program arguments)
    fun resolver => by cases resolver <;> rfl

instance : Encodable TrustDecision :=
  Encodable.ofLeftInverse
    (fun decision => match decision with
      | .trusted rationale => Sum.inl rationale
      | .denied rationale => Sum.inr rationale)
    (fun parts : Bytes ⊕ Bytes => match parts with
      | .inl rationale => .trusted rationale
      | .inr rationale => .denied rationale)
    fun decision => by cases decision <;> rfl

instance : Encodable MachineConfig :=
  Encodable.ofLeftInverse (fun m => (m.id, m.activeProfile, m.enabledTargets, m.harnessRoots))
    (fun (a, b, c, d) => ⟨a, b, c, d⟩) fun _ => rfl

instance : Encodable DeploymentReceipt :=
  Encodable.ofLeftInverse
    (fun r => (r.assetId, r.harness, r.scope, r.destination, r.target, r.logicalKey, r.sharedWith,
      r.sharedAdapterVersions, r.sourceHash, r.renderedHash, r.documentHash, r.priorHash,
      r.adapterVersion, r.environmentRevision))
    (fun (a, b, c, d, e, f, g, h, i, j, k, l, m, n) => ⟨a, b, c, d, e, f, g, h, i, j, k, l, m, n⟩)
    fun _ => rfl

instance : Encodable ScanRecord :=
  Encodable.ofLeftInverse (fun r => (r.harness, r.observedAt, r.discoveredAssets))
    (fun (a, b, c) => ⟨a, b, c⟩) fun _ => rfl

instance : Encodable PackApplicationClaim :=
  Encodable.ofLeftInverse
    (fun c => (c.packId, c.packRevision, c.scope, c.targetAnchor, c.targets, c.receipts))
    (fun (a, b, c, d, e, f) => ⟨a, b, c, d, e, f⟩) fun _ => rfl

instance : Encodable LocalState :=
  Encodable.ofLeftInverse
    (fun s => (s.machine, s.bindings, s.receipts, s.packApplications, s.trust, s.scans))
    (fun (a, b, c, d, e, f) => ⟨a, b, c, d, e, f⟩) fun _ => rfl

end Records

theorem decode_length_zeros {α : Type} [Encodable α] (value : α) :
    Encodable.decode ((List.replicate (Encodable.encode value) (0x30 : UInt8) ++
      [newline]).length - 1) = some value := by
  rw [List.length_append, List.length_replicate, List.length_singleton, Nat.add_sub_cancel,
    Encodable.encodek]

/-- A library that writes as many zeros as the number of a state says. -/
def LocalStateCodec.numbering : LocalStateCodec where
  encode state := some (List.replicate (Encodable.encode state) 0x30)
  decode text := Encodable.decode (text.length - 1)

theorem LocalStateCodec.numbering_lawful : LocalStateCodec.numbering.Lawful where
  decode_encode state text h := by
    obtain rfl : List.replicate (Encodable.encode state) 0x30 = text := Option.some.inj h
    exact decode_length_zeros state

end Kitrove
