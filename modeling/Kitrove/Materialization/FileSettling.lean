import Kitrove.Materialization.Files

/-! What was planned for a prompt command or an agent is unchanged when it is planned again. -/

namespace Kitrove.Materialization

open Std InstructionApply Except

variable {lib : ApplyLibraries} {words : FileWords} {localState : LocalState} {request : FileRequest}
  {observed : Option DeploymentReceipt} {observedHash : Option ContentHash}
  {receipt : DeploymentReceipt} {transition : FileTransition} {text : Bytes}

/-- The identity under which the request's receipt is kept. -/
def FileRequest.receiptId (blake3 : Bytes → Digest) (request : FileRequest) : ReceiptId :=
  wholeTargetId blake3 request.assetId request.harness request.scope request.destination

/-- A receipt by which the request's asset owns the file for its harness alone. -/
structure FileRequest.Owns (request : FileRequest) (receipt : DeploymentReceipt) : Prop where
  destination : receipt.destination = request.destination
  assetId : receipt.assetId = request.assetId
  harness : receipt.harness = request.harness
  scope : receipt.scope = request.scope
  target : receipt.target = .wholeTarget
  unshared : receipt.sharedWith.isEmpty = true

theorem owns_receipt {prior : Option ContentHash} : request.Owns (request.receipt prior) :=
  ⟨rfl, rfl, rfl, rfl, rfl, rfl⟩

theorem receiptId_receipt {prior : Option ContentHash} :
    (request.receipt prior).receiptId lib.blake3 = .ok (request.receiptId lib.blake3) :=
  receiptId_wholeTargetReceipt

theorem FileRequest.Owns.receiptId_eq {id : ReceiptId} (h : request.Owns receipt)
    (hid : receipt.receiptId lib.blake3 = .ok id) : id = request.receiptId lib.blake3 := by
  have heq := receiptId_eq_wholeTargetId hid h.target
  rw [heq, FileRequest.receiptId, h.assetId, h.harness, h.scope, h.destination]

section Receipts

theorem observedFileReceipt_eq_none :
    observedFileReceipt words localState request = .ok none ↔
      ∀ (id : ReceiptId) (receipt : DeploymentReceipt), localState.receipts[id]? = some receipt →
        receipt.destination ≠ request.destination := by
  have hnil := OrdMap.selected_eq_nil (m := localState.receipts)
    (p := fun receipt => decide (receipt.destination = request.destination))
  simp only [decide_eq_false_iff_not] at hnil
  rw [← hnil, observedFileReceipt, OrdMap.values_filter, refuseIf_bind_eq_ok, refuseIf_bind_eq_ok,
    pure_eq_ok_iff, List.head?_eq_none_iff, List.map_eq_nil_iff]
  constructor
  · exact fun h => h.2.2
  · intro h
    rw [h]
    exact ⟨rfl, rfl, rfl⟩

theorem observedFileReceipt_eq_some :
    observedFileReceipt words localState request = .ok (some receipt) ↔
      ∃ id : ReceiptId, localState.receipts[id]? = some receipt ∧ request.Owns receipt ∧
        ∀ (id' : ReceiptId) (receipt' : DeploymentReceipt),
          localState.receipts[id']? = some receipt' →
            receipt'.destination = request.destination → id' = id := by
  have hone := fun id => @OrdMap.selected_eq_singleton _ _ _ _ localState.receipts
    (fun receipt => decide (receipt.destination = request.destination)) id receipt _
  simp only [decide_eq_true_eq] at hone
  rw [observedFileReceipt, OrdMap.values_filter, refuseIf_bind_eq_ok, refuseIf_bind_eq_ok,
    pure_eq_ok_iff]
  constructor
  · rintro ⟨hlength, howned, hhead⟩
    have hlength := of_decide_eq_false hlength
    rw [List.head?_map] at hhead
    obtain ⟨⟨id, stored⟩, hentry, rfl⟩ := Option.map_eq_some_iff.mp hhead
    have hselected : OrdMap.selected localState.receipts
        (fun receipt => decide (receipt.destination = request.destination)) = [(id, stored)] := by
      cases hlist : OrdMap.selected localState.receipts
          fun receipt => decide (receipt.destination = request.destination) with
      | nil => rw [hlist] at hentry; contradiction
      | cons entry rest =>
        rw [hlist] at hentry hlength
        rw [List.head?_cons, Option.some.injEq] at hentry
        rw [List.map_cons, List.length_cons, List.length_map] at hlength
        rw [hentry, List.eq_nil_of_length_eq_zero (by omega : rest.length = 0)]
    obtain ⟨hget, hdestination, hunique⟩ := (hone id).mp hselected
    rw [hselected] at howned
    have howned : ¬ _ := of_decide_eq_false howned
    simp only [ne_eq, not_or, not_not, Bool.not_eq_true', Bool.not_eq_false] at howned
    obtain ⟨hasset, hharness, hscope, htarget, hunshared⟩ := howned
    exact ⟨id, hget, ⟨hdestination, hasset, hharness, hscope, htarget, hunshared⟩, hunique⟩
  · rintro ⟨id, hget, howns, hunique⟩
    rw [(hone id).mpr ⟨hget, howns.destination, hunique⟩]
    refine ⟨rfl, decide_eq_false ?_, rfl⟩
    simp [howns.assetId, howns.harness, howns.scope, howns.target, howns.unshared]

theorem dropObserved_some {id : ReceiptId}
    (hreceipts : validateLocalReceipts lib.blake3 localState = .ok ())
    (hget : localState.receipts[id]? = some receipt) (howns : request.Owns receipt) :
    dropObserved lib words localState (some receipt) =
      .ok (withoutReceipt localState (request.receiptId lib.blake3)) := by
  have hid := validateLocalReceipts_eq_ok.mp hreceipts id receipt hget
  refine bind_eq_ok_iff.mpr ⟨id, mapError_eq_ok_iff.mpr hid, ?_⟩
  rw [howns.receiptId_eq hid]
  rfl

/-- The observed receipt has the identity of the proposed one, so it is replaced. -/
theorem dropObserved_replaced (hreceipts : validateLocalReceipts lib.blake3 localState = .ok ())
    (hobserved : observedFileReceipt words localState request = .ok observed) :
    ∃ remaining, dropObserved lib words localState observed = .ok remaining ∧
      ∀ receipt, withReceipt remaining (request.receiptId lib.blake3) receipt =
        withReceipt localState (request.receiptId lib.blake3) receipt := by
  cases observed with
  | none => exact ⟨localState, rfl, fun _ => rfl⟩
  | some receipt =>
    obtain ⟨id, hget, howns, -⟩ := observedFileReceipt_eq_some.mp hobserved
    exact ⟨_, dropObserved_some hreceipts hget howns, fun _ => withReceipt_withoutReceipt⟩

/-- The transition that the parts of planning make. -/
def fileTransition (lib : ApplyLibraries) (localState : LocalState) (request : FileRequest)
    (observed : Option DeploymentReceipt) (decision : ApplyDisposition × Option ContentHash)
    (proposedText : Bytes) : FileTransition where
  observedReceipt := observed
  disposition := decision.1
  proposedReceipt := request.receipt decision.2
  receiptId := request.receiptId lib.blake3
  proposedLocalState := withReceipt localState (request.receiptId lib.blake3)
    (request.receipt decision.2)
  proposedLocalStateText := proposedText

theorem planFileReceipt_eq_ok (hreceipts : validateLocalReceipts lib.blake3 localState = .ok ()) :
    planFileReceipt lib words localState request observedHash = .ok transition ↔
      ∃ observed decision proposedText,
        observedFileReceipt words localState request = .ok observed ∧
        fileDisposition words request observed observedHash = .ok decision ∧
        (withReceipt localState (request.receiptId lib.blake3)
          (request.receipt decision.2)).toJson lib.states = .ok proposedText ∧
        transition = fileTransition lib localState request observed decision proposedText := by
  rw [planFileReceipt, bind_eq_ok_iff]
  constructor
  · rintro ⟨observed, hobserved, h⟩
    obtain ⟨⟨disposition, prior⟩, hdecision, h⟩ := bind_eq_ok_iff.mp h
    obtain ⟨remaining, hremaining, h⟩ := bind_eq_ok_iff.mp h
    obtain ⟨receiptId, hid, h⟩ := bind_eq_ok_iff.mp h
    rw [mapError_eq_ok_iff, receiptId_receipt, Except.ok.injEq] at hid
    obtain ⟨proposedText, htext, h⟩ := bind_eq_ok_iff.mp h
    rw [pure_eq_ok_iff] at h
    subst hid
    obtain ⟨remaining', hremaining', hreplaced⟩ := dropObserved_replaced hreceipts hobserved
    obtain rfl : remaining' = remaining := Except.ok.inj (hremaining'.symm.trans hremaining)
    rw [hreplaced] at htext h
    exact ⟨observed, (disposition, prior), proposedText, hobserved, hdecision,
      mapError_eq_ok_iff.mp htext, h.symm⟩
  · rintro ⟨observed, ⟨disposition, prior⟩, proposedText, hobserved, hdecision, htext, rfl⟩
    obtain ⟨remaining, hremaining, hreplaced⟩ := dropObserved_replaced hreceipts hobserved
    refine ⟨observed, hobserved, ?_⟩
    refine bind_eq_ok_iff.mpr ⟨_, hdecision, ?_⟩
    refine bind_eq_ok_iff.mpr ⟨_, hremaining, ?_⟩
    refine bind_eq_ok_iff.mpr ⟨_, mapError_eq_ok_iff.mpr receiptId_receipt, ?_⟩
    rw [hreplaced]
    exact bind_eq_ok_iff.mpr ⟨_, mapError_eq_ok_iff.mpr htext, rfl⟩

end Receipts

section Settling

theorem fileDisposition_present {hash : ContentHash}
    {decision : ApplyDisposition × Option ContentHash}
    (h : fileDisposition words request observed (some hash) = .ok decision) :
    ∃ receipt, observed = some receipt ∧ receipt.renderedHash = hash := by
  cases observed with
  | none => contradiction
  | some receipt =>
    rw [fileDisposition, refuseIf_bind_eq_ok] at h
    exact ⟨receipt, rfl, (not_not.mp (of_decide_eq_false h.1)).symm⟩

theorem fileDisposition_receipt {prior : Option ContentHash} :
    fileDisposition words request (some (request.receipt prior)) (some request.renderedHash) =
      .ok (.noOp, prior) := by
  rw [fileDisposition, refuseIf_bind_eq_ok]
  refine ⟨decide_eq_false (not_not.mpr rfl), ?_⟩
  exact if_pos ⟨rfl, rfl, if_pos rfl, rfl⟩

/-- A state of whose receipts at the file none has another identity than the request's. -/
def Sole (blake3 : Bytes → Digest) (localState : LocalState) (request : FileRequest) : Prop :=
  ∀ (id : ReceiptId) (receipt : DeploymentReceipt), localState.receipts[id]? = some receipt →
    receipt.destination = request.destination → id = request.receiptId blake3

theorem sole_of_observed (hreceipts : validateLocalReceipts lib.blake3 localState = .ok ())
    (hobserved : observedFileReceipt words localState request = .ok observed) :
    Sole lib.blake3 localState request := by
  intro id receipt hget hdestination
  cases observed with
  | none => exact absurd hdestination (observedFileReceipt_eq_none.mp hobserved id receipt hget)
  | some stored =>
    obtain ⟨id', hget', howns, hunique⟩ := observedFileReceipt_eq_some.mp hobserved
    rw [hunique id receipt hget hdestination]
    exact howns.receiptId_eq (validateLocalReceipts_eq_ok.mp hreceipts id' stored hget')

/-- Planned again with the file as it was rendered, the receipt stays. -/
theorem planFileReceipt_again (hsole : Sole lib.blake3 localState request)
    (hreceipts : validateLocalReceipts lib.blake3 localState = .ok ()) {prior : Option ContentHash}
    (htext : (withReceipt localState (request.receiptId lib.blake3)
      (request.receipt prior)).toJson lib.states = .ok text) :
    ∃ again, planFileReceipt lib words
        (withReceipt localState (request.receiptId lib.blake3) (request.receipt prior)) request
        (some request.renderedHash) = .ok again ∧ again.disposition = .noOp ∧
      again.proposedReceipt = request.receipt prior ∧ again.proposedLocalState =
        withReceipt localState (request.receiptId lib.blake3) (request.receipt prior) := by
  have hvalid := validateLocalReceipts_withReceipt hreceipts
    (@receiptId_receipt lib request prior)
  have hone := (OrdMap.selected_insert_eq_singleton (m := localState.receipts)
    (p := fun receipt => decide (receipt.destination = request.destination))
    (k := request.receiptId lib.blake3) (v := request.receipt prior) (decide_eq_true rfl)).mpr
      fun id receipt hget hp => hsole id receipt hget (of_decide_eq_true hp)
  obtain ⟨hget, -, hunique⟩ := OrdMap.selected_eq_singleton.mp hone
  have hobserved : observedFileReceipt words
      (withReceipt localState (request.receiptId lib.blake3) (request.receipt prior)) request =
        .ok (some (request.receipt prior)) :=
    observedFileReceipt_eq_some.mpr ⟨_, hget, owns_receipt, fun id receipt hget' hdestination =>
      hunique id receipt hget' (decide_eq_true hdestination)⟩
  refine ⟨_, (planFileReceipt_eq_ok hvalid).mpr ⟨_, _, text, hobserved, fileDisposition_receipt, ?_,
    rfl⟩, rfl, rfl, withReceipt_again⟩
  rw [withReceipt_again]
  exact htext

variable {Policy FileName : Type}

/-- The destination once it holds a rendered file. -/
def FileObservation.holding (observation : FileObservation Policy FileName) (rendered : RenderedFile) :
    FileObservation Policy FileName :=
  { observation with
    content := some rendered.bytes
    mode := rendered.mode }

/-- A plan that takes no foreign content, changes one receipt, and is settled by its own outcome:
planned again on the proposed state, with the file as it was rendered, nothing changes. -/
structure FileSettles (lib : ApplyLibraries) (planner : FilePlanner Policy FileName)
    (localState : LocalState) (plan : FileApplyPlan Policy FileName) : Prop where
  owned : ∀ hash, plan.observation.contentHash lib.blake3 planner.targetDomain = some hash →
    ∃ (id : ReceiptId) (receipt : DeploymentReceipt), localState.receipts[id]? = some receipt ∧
      receipt.assetId = planner.assetId ∧ receipt.harness = planner.harness ∧
      receipt.scope = planner.scope ∧ receipt.destination = plan.destination ∧
      receipt.renderedHash = hash
  frame : plan.proposedLocalState = withReceipt localState
    (wholeTargetId lib.blake3 planner.assetId planner.harness planner.scope plan.destination)
    plan.proposedReceipt
  replaced : ∀ receipt, plan.observedReceipt = some receipt → localState.receipts[wholeTargetId
    lib.blake3 planner.assetId planner.harness planner.scope plan.destination]? = some receipt
  unchanged : ∃ text next, plan.proposedLocalState.toJson lib.states = .ok text ∧
    planFileApply lib planner (plan.observation.holding plan.rendered) text = .ok next ∧
    next.disposition = .noOp ∧ next.proposedReceipt = plan.proposedReceipt ∧
    next.proposedLocalState = plan.proposedLocalState

theorem readLocalState_eq_ok :
    readLocalState lib words text = .ok localState ↔
      LocalState.fromJson lib.states text = .ok localState ∧
        validateLocalReceipts lib.blake3 localState = .ok () := by
  rw [readLocalState, bind_eq_ok_iff]
  constructor
  · rintro ⟨state, hstate, h⟩
    obtain ⟨⟨⟩, hreceipts, h⟩ := bind_eq_ok_iff.mp h
    rw [pure_eq_ok_iff] at h
    subst h
    exact ⟨mapError_eq_ok_iff.mp hstate, hreceipts⟩
  · rintro ⟨hstate, hreceipts⟩
    exact ⟨localState, mapError_eq_ok_iff.mpr hstate, bind_eq_ok_iff.mpr ⟨⟨⟩, hreceipts, rfl⟩⟩

/-- What a planned receipt owned, and where it is kept. -/
theorem planFileReceipt_owned (hreceipts : validateLocalReceipts lib.blake3 localState = .ok ())
    (h : planFileReceipt lib words localState request observedHash = .ok transition) :
    (∀ hash, observedHash = some hash → ∃ (id : ReceiptId) (receipt : DeploymentReceipt),
      localState.receipts[id]? = some receipt ∧ request.Owns receipt ∧ receipt.renderedHash = hash) ∧
    ∀ receipt, transition.observedReceipt = some receipt →
      localState.receipts[request.receiptId lib.blake3]? = some receipt := by
  obtain ⟨observed, decision, proposedText, hobserved, hdecision, -, rfl⟩ :=
    (planFileReceipt_eq_ok hreceipts).mp h
  constructor
  · rintro hash rfl
    obtain ⟨receipt, rfl, hhash⟩ := fileDisposition_present hdecision
    obtain ⟨id, hget, howns, -⟩ := observedFileReceipt_eq_some.mp hobserved
    exact ⟨id, receipt, hget, howns, hhash⟩
  · intro receipt hreceipt
    obtain rfl : observed = some receipt := hreceipt
    obtain ⟨id, hget, howns, -⟩ := observedFileReceipt_eq_some.mp hobserved
    rwa [howns.receiptId_eq (validateLocalReceipts_eq_ok.mp hreceipts id receipt hget)] at hget

end Settling

section Planning

variable {Policy FileName : Type} {planner : FilePlanner Policy FileName}
  {observation : FileObservation Policy FileName} {plan : FileApplyPlan Policy FileName}

theorem planFileApply_eq_ok : planFileApply lib planner observation text = .ok plan ↔
    planner.authority observation.policy observation.name = .ok () ∧
      ∃ localState target transition, LocalState.fromJson lib.states text = .ok localState ∧
        validateLocalReceipts lib.blake3 localState = .ok () ∧ planner.target = .ok target ∧
        planFileReceipt lib planner.words localState (planner.request lib observation target)
          (observation.contentHash lib.blake3 planner.targetDomain) = .ok transition ∧
        plan = planner.plan lib observation text target transition := by
  rw [planFileApply, bind_eq_ok_iff]
  constructor
  · rintro ⟨⟨⟩, hauthority, h⟩
    obtain ⟨localState, hread, h⟩ := bind_eq_ok_iff.mp h
    obtain ⟨hstate, hreceipts⟩ := readLocalState_eq_ok.mp hread
    obtain ⟨target, htarget, h⟩ := bind_eq_ok_iff.mp h
    obtain ⟨transition, htransition, h⟩ := bind_eq_ok_iff.mp h
    rw [pure_eq_ok_iff] at h
    exact ⟨hauthority, localState, target, transition, hstate, hreceipts, htarget, htransition, h.symm⟩
  · rintro ⟨hauthority, localState, target, transition, hstate, hreceipts, htarget, htransition, rfl⟩
    refine ⟨⟨⟩, hauthority, ?_⟩
    refine bind_eq_ok_iff.mpr ⟨_, readLocalState_eq_ok.mpr ⟨hstate, hreceipts⟩, ?_⟩
    refine bind_eq_ok_iff.mpr ⟨_, htarget, ?_⟩
    exact bind_eq_ok_iff.mpr ⟨_, htransition, rfl⟩

theorem file_settles (hc : lib.states.Lawful)
    (hstate : LocalState.fromJson lib.states text = .ok localState)
    (hplan : planFileApply lib planner observation text = .ok plan) :
    FileSettles lib planner localState plan := by
  obtain ⟨hauthority, localState', target, transition, hstate', hreceipts, htarget, htransition,
    rfl⟩ := planFileApply_eq_ok.mp hplan
  obtain rfl : localState' = localState := Except.ok.inj (hstate'.symm.trans hstate)
  obtain ⟨howned, hreplaced⟩ := planFileReceipt_owned hreceipts htransition
  obtain ⟨observed, decision, proposedText, hobserved, -, htext, rfl⟩ :=
    (planFileReceipt_eq_ok hreceipts).mp htransition
  obtain ⟨again, hagain, hnoOp, hreceipt, hproposed⟩ := @planFileReceipt_again _ planner.words _ _ _
    (sole_of_observed hreceipts hobserved) hreceipts _ htext
  refine ⟨fun hash hobservedHash => ?_, rfl, hreplaced, proposedText,
    planner.plan lib (observation.holding (planner.rendered lib observation target)) proposedText
      target again, htext, planFileApply_eq_ok.mpr ⟨hauthority, _, target, again,
        LocalState.fromJson_toJson hc htext,
        validateLocalReceipts_withReceipt hreceipts receiptId_receipt, htarget, hagain, rfl⟩,
    hnoOp, hreceipt, hproposed⟩
  obtain ⟨id, receipt, hget, howns, hrendered⟩ := howned hash hobservedHash
  exact ⟨id, receipt, hget, howns.assetId, howns.harness, howns.scope, howns.destination, hrendered⟩

/-- A file that no receipt claims is installed. -/
theorem file_installs {target : FileTarget}
    (hauthority : planner.authority observation.policy observation.name = .ok ())
    (hstate : LocalState.fromJson lib.states text = .ok localState)
    (hreceipts : validateLocalReceipts lib.blake3 localState = .ok ())
    (htarget : planner.target = .ok target) (habsent : observation.content = none)
    (hvacant : ∀ (id : ReceiptId) (receipt : DeploymentReceipt),
      localState.receipts[id]? = some receipt → receipt.destination ≠ observation.destination)
    (hwrites : ∀ localState, ∃ text, LocalState.toJson lib.states localState = .ok text) :
    ∃ plan, planFileApply lib planner observation text = .ok plan ∧ plan.disposition = .install := by
  let request := planner.request lib observation target
  obtain ⟨proposedText, htext⟩ := hwrites
    (withReceipt localState (request.receiptId lib.blake3) (request.receipt none))
  have hobserved : observedFileReceipt planner.words localState request = .ok none :=
    observedFileReceipt_eq_none.mpr hvacant
  have hhash : observation.contentHash lib.blake3 planner.targetDomain = none := by
    rw [FileObservation.contentHash, habsent]
    rfl
  refine ⟨_, planFileApply_eq_ok.mpr ⟨hauthority, localState, target, _, hstate, hreceipts, htarget,
    (planFileReceipt_eq_ok hreceipts).mpr ⟨none, (.install, none), proposedText, hobserved, ?_, htext,
      rfl⟩, rfl⟩, rfl⟩
  rw [hhash]
  rfl

end Planning

end Kitrove.Materialization
