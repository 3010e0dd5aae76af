import Kitrove.Materialization.Target
import Kitrove.Support.Outcome
import Kitrove.Support.Selection

/-! Receipts of whole targets: one identity for an asset at a destination, and what planning makes
of the receipts there. -/

namespace Kitrove.Materialization

open Std InstructionApply

section Identity

variable (blake3 : Bytes → Digest)

def validateLocalReceipts (localState : LocalState) : Except MaterializationError Unit :=
  localState.receipts.toList.forM fun (receiptId, receipt) =>
    refuseIf ((receipt.receiptId blake3).toOption ≠ some receiptId)
      ⟨"apply.local_state_invalid", "machine-local receipt authority is invalid"⟩

/-- The identity of the receipt by which an asset owns a destination whole. -/
def wholeTargetId (assetId : AssetId) (harness : HarnessId) (scope : HarnessScope)
    (destination : NormalizedDestination) : ReceiptId :=
  .ofDigest (blake3 (ascii "kitrove-receipt-id-v1" ++ [0] ++
    [assetId.bytes, harness.asStr, scope.asStr, destination.text].flatMap textRecord))

/-- The receipt of a whole target, which no other harness shares. -/
def wholeTargetReceipt (assetId : AssetId) (harness : HarnessId) (scope : HarnessScope)
    (destination : NormalizedDestination) (sourceHash renderedHash : ContentHash)
    (priorHash : Option ContentHash) (adapterVersion : Bytes) (environmentRevision : Revision) :
    DeploymentReceipt where
  assetId := assetId
  harness := harness
  scope := scope
  destination := destination
  target := .wholeTarget
  logicalKey := none
  sharedWith := ∅
  sharedAdapterVersions := ∅
  sourceHash := sourceHash
  renderedHash := renderedHash
  documentHash := none
  priorHash := priorHash
  adapterVersion := adapterVersion
  environmentRevision := environmentRevision

/-- The state with a receipt entered under an identity. -/
def withReceipt (localState : LocalState) (receiptId : ReceiptId) (receipt : DeploymentReceipt) :
    LocalState :=
  { localState with receipts := localState.receipts.insert receiptId receipt }

def withoutReceipt (localState : LocalState) (receiptId : ReceiptId) : LocalState :=
  { localState with receipts := localState.receipts.erase receiptId }

end Identity

section Lemmas

variable {blake3 : Bytes → Digest} {localState : LocalState} {assetId : AssetId}
  {harness : HarnessId} {scope : HarnessScope} {destination : NormalizedDestination}
  {sourceHash renderedHash : ContentHash} {priorHash : Option ContentHash} {adapterVersion : Bytes}
  {environmentRevision : Revision} {receiptId : ReceiptId} {receipt : DeploymentReceipt}

theorem validateLocalReceipts_eq_ok : validateLocalReceipts blake3 localState = .ok () ↔
    ∀ (id : ReceiptId) (receipt : DeploymentReceipt), localState.receipts[id]? = some receipt →
      receipt.receiptId blake3 = .ok id := by
  refine (OrdMap.forM_iff (Outcome.ok _)).trans ?_
  simp only [Outcome.ok, Prod.forall, ExtTreeMap.mem_toList_iff_getElem?_eq_some, refuseIf_eq_ok,
    decide_eq_false_iff_not, not_not, Except.toOption_eq_some_iff, ne_eq]

theorem receiptId_wholeTargetReceipt : (wholeTargetReceipt assetId harness scope destination
    sourceHash renderedHash priorHash adapterVersion environmentRevision).receiptId blake3 =
      .ok (wholeTargetId blake3 assetId harness scope destination) := rfl

theorem receiptId_eq_wholeTargetId (h : receipt.receiptId blake3 = .ok receiptId)
    (htarget : receipt.target = .wholeTarget) :
    receiptId = wholeTargetId blake3 receipt.assetId receipt.harness receipt.scope
      receipt.destination := by
  obtain ⟨⟨⟩, -, hid⟩ := Except.bind_eq_ok_iff.mp h
  rw [Except.pure_eq_ok_iff] at hid
  rw [← hid, wholeTargetId, DeploymentReceipt.receiptIdPreimage, htarget]
  rfl

theorem validateLocalReceipts_withReceipt (h : validateLocalReceipts blake3 localState = .ok ())
    (hid : receipt.receiptId blake3 = .ok receiptId) :
    validateLocalReceipts blake3 (withReceipt localState receiptId receipt) = .ok () := by
  rw [validateLocalReceipts_eq_ok] at h ⊢
  intro id stored hstored
  rw [withReceipt, ExtTreeMap.getElem?_insert] at hstored
  split at hstored
  · rename_i heq
    obtain rfl := LawfulEqCmp.eq_of_compare heq
    obtain rfl := Option.some.inj hstored
    exact hid
  · exact h id stored hstored

theorem validateLocalReceipts_withoutReceipt
    (h : validateLocalReceipts blake3 localState = .ok ()) :
    validateLocalReceipts blake3 (withoutReceipt localState receiptId) = .ok () := by
  rw [validateLocalReceipts_eq_ok] at h ⊢
  intro id stored hstored
  rw [withoutReceipt, ExtTreeMap.getElem?_erase] at hstored
  split at hstored
  · contradiction
  · exact h id stored hstored

theorem withReceipt_again : withReceipt (withReceipt localState receiptId receipt) receiptId receipt =
    withReceipt localState receiptId receipt := by
  have hreceipts : (localState.receipts.insert receiptId receipt).insert receiptId receipt =
      localState.receipts.insert receiptId receipt := by
    refine ExtTreeMap.ext_getElem? fun k => ?_
    rw [ExtTreeMap.getElem?_insert, ExtTreeMap.getElem?_insert]
    split <;> rfl
  rw [withReceipt, withReceipt, hreceipts]

theorem withReceipt_withoutReceipt :
    withReceipt (withoutReceipt localState receiptId) receiptId receipt =
      withReceipt localState receiptId receipt := by
  have hreceipts : (localState.receipts.erase receiptId).insert receiptId receipt =
      localState.receipts.insert receiptId receipt := by
    refine ExtTreeMap.ext_getElem? fun k => ?_
    rw [ExtTreeMap.getElem?_insert, ExtTreeMap.getElem?_insert, ExtTreeMap.getElem?_erase]
    split <;> rfl
  rw [withReceipt, withReceipt, withoutReceipt, hreceipts]

theorem withoutReceipt_withReceipt :
    withoutReceipt (withReceipt localState receiptId receipt) receiptId =
      withoutReceipt localState receiptId := by
  have hreceipts : (localState.receipts.insert receiptId receipt).erase receiptId =
      localState.receipts.erase receiptId := by
    refine ExtTreeMap.ext_getElem? fun k => ?_
    rw [ExtTreeMap.getElem?_erase, ExtTreeMap.getElem?_erase, ExtTreeMap.getElem?_insert]
    split <;> rfl
  rw [withoutReceipt, withoutReceipt, withReceipt, hreceipts]

end Lemmas

end Kitrove.Materialization
