import Kitrove.Materialization.Skills

/-! What was planned for a skill is unchanged when it is planned again, where no receipt of another
identity is kept for its destination. -/

namespace Kitrove.Materialization

open Std InstructionApply Skills Except

variable {lib : ApplyLibraries} {manifest : EnvironmentManifest} {assetId : AssetId}
  {object : Skills.StoredSkillTree} {policy : TargetPolicy} {anchor text : Bytes}
  {localState : LocalState} {target : SkillTarget} {observation : DestinationObservation}
  {plan : ApplyPlan}

section Inversion

/-- The plan that the parts of planning make. -/
def skillPlan (lib : ApplyLibraries) (assetId : AssetId) (policy : TargetPolicy)
    (target : SkillTarget) (localState : LocalState) (text : Bytes)
    (observation : DestinationObservation) (observed : Option DeploymentReceipt)
    (decision : ApplyDisposition × Option ContentHash) (digest : ContentHash) : ApplyPlan where
  policy := policy
  assetId := assetId
  harness := policy.harness
  scope := policy.scope
  destination := target.destination
  relativeDestination := target.relativeDestination
  receiptId := wholeTargetId lib.blake3 assetId policy.harness policy.scope target.destination
  manifestRevision := target.manifestRevision
  disposition := decision.1
  observedReceipt := observed
  observedDestination := observation
  rendered := target.rendered
  proposedReceipt := proposedSkillReceipt assetId policy target decision.2
  proposedLocalState := withReceipt localState
    (wholeTargetId lib.blake3 assetId policy.harness policy.scope target.destination)
    (proposedSkillReceipt assetId policy target decision.2)
  observedLocalStateText := text
  digest := digest

theorem receiptId_proposedSkillReceipt {prior : Option ContentHash} :
    (proposedSkillReceipt assetId policy target prior).receiptId lib.blake3 =
      .ok (wholeTargetId lib.blake3 assetId policy.harness policy.scope target.destination) :=
  receiptId_wholeTargetReceipt

theorem planSkillTarget_eq_ok :
    planSkillTarget lib assetId policy target localState text observation = .ok plan ↔
      ∃ observed decision proposedText digest,
        observedSkillReceipt localState assetId policy target.destination = .ok observed ∧
        skillDisposition policy target observed observation = .ok decision ∧
        (withReceipt localState
          (wholeTargetId lib.blake3 assetId policy.harness policy.scope target.destination)
          (proposedSkillReceipt assetId policy target decision.2)).toJson lib.states =
            .ok proposedText ∧
        applyPlanDigest lib assetId policy target.destination target.manifestRevision decision.1
          observed observation (proposedSkillReceipt assetId policy target decision.2) text
          proposedText = .ok digest ∧
        plan = skillPlan lib assetId policy target localState text observation observed decision
          digest := by
  rw [planSkillTarget, bind_eq_ok_iff]
  constructor
  · rintro ⟨observed, hobserved, h⟩
    obtain ⟨⟨disposition, prior⟩, hdecision, h⟩ := bind_eq_ok_iff.mp h
    obtain ⟨receiptId, hid, h⟩ := bind_eq_ok_iff.mp h
    rw [mapError_eq_ok_iff, receiptId_proposedSkillReceipt, Except.ok.injEq] at hid
    obtain ⟨proposedText, htext, h⟩ := bind_eq_ok_iff.mp h
    obtain ⟨digest, hdigest, h⟩ := bind_eq_ok_iff.mp h
    rw [pure_eq_ok_iff] at h
    subst hid
    exact ⟨observed, (disposition, prior), proposedText, digest, hobserved, hdecision,
      mapError_eq_ok_iff.mp htext, hdigest, h.symm⟩
  · rintro ⟨observed, ⟨disposition, prior⟩, proposedText, digest, hobserved, hdecision, htext,
      hdigest, rfl⟩
    refine ⟨observed, hobserved, ?_⟩
    refine bind_eq_ok_iff.mpr ⟨_, hdecision, ?_⟩
    refine bind_eq_ok_iff.mpr ⟨_, mapError_eq_ok_iff.mpr receiptId_proposedSkillReceipt, ?_⟩
    refine bind_eq_ok_iff.mpr ⟨_, mapError_eq_ok_iff.mpr htext, ?_⟩
    exact bind_eq_ok_iff.mpr ⟨_, hdigest, rfl⟩

/-- What planning goes by before the receipts and the observed destination. -/
structure Prepared (lib : ApplyLibraries) (manifest : EnvironmentManifest) (assetId : AssetId)
    (object : Skills.StoredSkillTree) (policy : TargetPolicy) (anchor : Bytes) (target : SkillTarget) :
    Prop where
  valid : manifest.validate lib.blake3 = .ok ()
  target : skillTarget lib manifest assetId object policy anchor = .ok target

theorem planSkillApply_eq_ok :
    planSkillApply lib manifest assetId object policy anchor text observation = .ok plan ↔
      ∃ localState target, LocalState.fromJson lib.states text = .ok localState ∧
        validateLocalReceipts lib.blake3 localState = .ok () ∧
        Prepared lib manifest assetId object policy anchor target ∧
        planSkillTarget lib assetId policy target localState text observation = .ok plan := by
  rw [planSkillApply, bind_eq_ok_iff]
  constructor
  · rintro ⟨⟨⟩, hvalid, h⟩
    obtain ⟨localState, hstate, h⟩ := bind_eq_ok_iff.mp h
    obtain ⟨⟨⟩, hreceipts, h⟩ := bind_eq_ok_iff.mp h
    obtain ⟨target, htarget, h⟩ := bind_eq_ok_iff.mp h
    exact ⟨localState, target, mapError_eq_ok_iff.mp hstate, hreceipts,
      ⟨mapError_eq_ok_iff.mp hvalid, htarget⟩, h⟩
  · rintro ⟨localState, target, hstate, hreceipts, hprepared, h⟩
    refine ⟨⟨⟩, mapError_eq_ok_iff.mpr hprepared.valid, ?_⟩
    refine bind_eq_ok_iff.mpr ⟨_, mapError_eq_ok_iff.mpr hstate, ?_⟩
    refine bind_eq_ok_iff.mpr ⟨_, hreceipts, ?_⟩
    exact bind_eq_ok_iff.mpr ⟨_, hprepared.target, h⟩

/-- What a target is made of. -/
theorem skillTarget_eq_ok (h : skillTarget lib manifest assetId object policy anchor = .ok target) :
    manifest.assets[assetId]? = some target.asset ∧
      renderPortableSkill lib object policy = .ok target.rendered ∧
      resolveTargetDestination lib.paths anchor policy target.rendered.packageName =
        .ok target.destination ∧
      deriveManifestRevision lib.blake3 lib.authority manifest = .ok target.manifestRevision := by
  obtain ⟨asset, hasset, h⟩ := bind_eq_ok_iff.mp h
  obtain ⟨rendered, hrendered, h⟩ := bind_eq_ok_iff.mp h
  obtain ⟨⟨⟩, -, h⟩ := bind_eq_ok_iff.mp h
  obtain ⟨destination, hdestination, h⟩ := bind_eq_ok_iff.mp h
  obtain ⟨relativeDestination, -, h⟩ := bind_eq_ok_iff.mp h
  rw [refuseIf_bind_eq_ok] at h
  obtain ⟨revision, hrevision, h⟩ := bind_eq_ok_iff.mp h.2
  rw [pure_eq_ok_iff] at h
  subst h
  refine ⟨?_, hrendered, hdestination, mapError_eq_ok_iff.mp hrevision⟩
  rw [authorizedSkill] at hasset
  split at hasset
  · contradiction
  rename_i found hfound
  obtain ⟨class', -, hasset⟩ := bind_eq_ok_iff.mp hasset
  rw [refuseIf_bind_eq_ok, refuseIf_bind_eq_ok, refuseIf_bind_eq_ok] at hasset
  obtain ⟨-, -, -, hasset⟩ := hasset
  split at hasset
  · contradiction
  rw [refuseIf_bind_eq_ok, refuseIf_bind_eq_ok, pure_eq_ok_iff] at hasset
  rw [hfound, hasset.2.2]

theorem renderPortableSkill_observed {rendered : RenderedSkill}
    (h : renderPortableSkill lib object policy = .ok rendered) :
    rendered.observed lib.blake3 = .present rendered.layout rendered.renderedHash := by
  rw [renderPortableSkill, refuseIf_bind_eq_ok, refuseIf_bind_eq_ok] at h
  obtain ⟨-, -, h⟩ := h
  split at h
  · contradiction
  obtain ⟨parsed, -, h⟩ := bind_eq_ok_iff.mp h
  rw [pure_eq_ok_iff] at h
  rw [← h]
  rfl

end Inversion

section Receipts

/-- The receipts of one destination, for one harness and scope. -/
def AtTarget (policy : TargetPolicy) (destination : NormalizedDestination)
    (receipt : DeploymentReceipt) : Prop :=
  receipt.harness = policy.harness ∧ receipt.scope = policy.scope ∧
    receipt.destination = destination

instance {destination : NormalizedDestination} {receipt : DeploymentReceipt} :
    Decidable (AtTarget policy destination receipt) := inferInstanceAs (Decidable (_ ∧ _))

variable {destination : NormalizedDestination} {receipt : DeploymentReceipt}

theorem atTarget_proposed {prior : Option ContentHash} :
    AtTarget policy target.destination (proposedSkillReceipt assetId policy target prior) :=
  ⟨rfl, rfl, rfl⟩

theorem observedSkillReceipt_eq_none :
    observedSkillReceipt localState assetId policy destination = .ok none ↔
      ∀ (id : ReceiptId) (receipt : DeploymentReceipt), localState.receipts[id]? = some receipt →
        ¬ AtTarget policy destination receipt := by
  have hnil := OrdMap.selected_eq_nil (m := localState.receipts)
    (p := fun receipt => decide (AtTarget policy destination receipt))
  simp only [decide_eq_false_iff_not] at hnil
  rw [← hnil, observedSkillReceipt, refuseIf_bind_eq_ok, refuseIf_bind_eq_ok, pure_eq_ok_iff,
    Option.map_eq_none_iff, List.head?_eq_none_iff]
  constructor
  · exact fun h => h.2.2
  · intro h
    have hmatching : receiptsForDestination localState policy.harness policy.scope destination = [] :=
      h
    rw [hmatching]
    exact ⟨rfl, rfl, rfl⟩

theorem observedSkillReceipt_eq_some :
    observedSkillReceipt localState assetId policy destination = .ok (some receipt) ↔
      ∃ id : ReceiptId, localState.receipts[id]? = some receipt ∧
        AtTarget policy destination receipt ∧ receipt.assetId = assetId ∧
        ∀ (id' : ReceiptId) (receipt' : DeploymentReceipt),
          localState.receipts[id']? = some receipt' → AtTarget policy destination receipt' →
            id' = id := by
  have hone := fun id => @OrdMap.selected_eq_singleton _ _ _ _ localState.receipts
    (fun receipt => decide (AtTarget policy destination receipt)) id receipt _
  simp only [decide_eq_true_eq] at hone
  rw [observedSkillReceipt, refuseIf_bind_eq_ok, refuseIf_bind_eq_ok, pure_eq_ok_iff]
  constructor
  · rintro ⟨hlength, hasset, hhead⟩
    have hlength := of_decide_eq_false hlength
    obtain ⟨⟨id, stored⟩, hentry, rfl⟩ := Option.map_eq_some_iff.mp hhead
    have hmatching : receiptsForDestination localState policy.harness policy.scope destination =
        [(id, stored)] := by
      cases hlist : receiptsForDestination localState policy.harness policy.scope destination with
      | nil => rw [hlist] at hentry; contradiction
      | cons entry rest =>
        rw [hlist] at hentry hlength
        rw [List.head?_cons, Option.some.injEq] at hentry
        rw [List.length_cons] at hlength
        rw [hentry, List.eq_nil_of_length_eq_zero (by omega : rest.length = 0)]
    obtain ⟨hget, hat, hunique⟩ := (hone id).mp hmatching
    rw [hmatching] at hasset
    exact ⟨id, hget, hat, by simpa using hasset, hunique⟩
  · rintro ⟨id, hget, hat, hasset, hunique⟩
    have hmatching : receiptsForDestination localState policy.harness policy.scope destination =
        [(id, receipt)] := (hone id).mpr ⟨hget, hat, hunique⟩
    rw [hmatching]
    exact ⟨rfl, by simp [hasset], rfl⟩

end Receipts

section Settling

/-- A receipt of the asset at the destination has recorded what is observed there. -/
def OwnedAs (localState : LocalState) (assetId : AssetId) (policy : TargetPolicy)
    (plan : ApplyPlan) : Prop :=
  ∀ layout hash, plan.observedDestination = .present layout hash →
    ∃ (id : ReceiptId) (receipt : DeploymentReceipt), localState.receipts[id]? = some receipt ∧
      AtTarget policy plan.destination receipt ∧ receipt.assetId = assetId ∧
      receipt.renderedHash = hash

/-- Planned again on the proposed state, with the destination as it was rendered, nothing changes. -/
def Unchanged (lib : ApplyLibraries) (manifest : EnvironmentManifest) (assetId : AssetId)
    (object : Skills.StoredSkillTree) (policy : TargetPolicy) (anchor : Bytes) (plan : ApplyPlan) : Prop :=
  ∃ text next, plan.proposedLocalState.toJson lib.states = .ok text ∧
    planSkillApply lib manifest assetId object policy anchor text
      (plan.rendered.observed lib.blake3) = .ok next ∧
    next.disposition = .noOp ∧ next.receiptId = plan.receiptId ∧
    next.proposedReceipt = plan.proposedReceipt ∧
    next.proposedLocalState = plan.proposedLocalState

/-- A plan that takes no foreign content, changes one receipt, and is settled by its own outcome. -/
structure SkillSettles (lib : ApplyLibraries) (manifest : EnvironmentManifest) (assetId : AssetId)
    (object : Skills.StoredSkillTree) (policy : TargetPolicy) (anchor : Bytes) (localState : LocalState)
    (plan : ApplyPlan) : Prop where
  owned : OwnedAs localState assetId policy plan
  frame : plan.proposedLocalState = withReceipt localState plan.receiptId plan.proposedReceipt
  replaced : ∀ receipt, plan.observedReceipt = some receipt →
    localState.receipts[plan.receiptId]? = some receipt
  unchanged : Unchanged lib manifest assetId object policy anchor plan

/-- Every receipt of the skill's destination is kept under the identity of its asset there. -/
def HeldWhole (lib : ApplyLibraries) (assetId : AssetId) (object : Skills.StoredSkillTree)
    (policy : TargetPolicy) (anchor : Bytes) (localState : LocalState) : Prop :=
  ∀ rendered destination, renderPortableSkill lib object policy = .ok rendered →
    resolveTargetDestination lib.paths anchor policy rendered.packageName = .ok destination →
    ∀ (id : ReceiptId) (receipt : DeploymentReceipt), localState.receipts[id]? = some receipt →
      AtTarget policy destination receipt →
        id = wholeTargetId lib.blake3 assetId policy.harness policy.scope destination

/-- The receipt that a decision goes by: what was observed is what it recorded. -/
theorem skillDisposition_present {observed : Option DeploymentReceipt} {layout : SkillSourceLayout}
    {hash : ContentHash} {decision : ApplyDisposition × Option ContentHash}
    (h : skillDisposition policy target observed (.present layout hash) = .ok decision) :
    ∃ receipt, observed = some receipt ∧ receipt.renderedHash = hash := by
  cases observed with
  | none => contradiction
  | some receipt =>
    rw [skillDisposition, refuseIf_bind_eq_ok, refuseIf_bind_eq_ok] at h
    exact ⟨receipt, rfl, (not_not.mp (of_decide_eq_false h.2.1)).symm⟩

theorem skillDisposition_updates {observed : Option DeploymentReceipt} {layout : SkillSourceLayout}
    {hash : ContentHash} {decision : ApplyDisposition × Option ContentHash}
    (h : skillDisposition policy target observed (.present layout hash) = .ok decision) :
    decision.1 = .noOp ∨ decision.1 = .managedUpdate := by
  cases observed with
  | none => contradiction
  | some receipt =>
    rw [skillDisposition, refuseIf_bind_eq_ok, refuseIf_bind_eq_ok] at h
    obtain ⟨-, -, h⟩ := h
    split at h
    · exact .inl (Except.ok.inj h ▸ rfl)
    · exact .inr (Except.ok.inj h ▸ rfl)

theorem skillDisposition_proposed {prior : Option ContentHash} :
    skillDisposition policy target (some (proposedSkillReceipt assetId policy target prior))
      (.present target.rendered.layout target.rendered.renderedHash) = .ok (.noOp, prior) := by
  rw [skillDisposition, refuseIf_bind_eq_ok, refuseIf_bind_eq_ok]
  refine ⟨decide_eq_false (not_not.mpr rfl), decide_eq_false (not_not.mpr rfl), ?_⟩
  exact if_pos ⟨rfl, rfl, rfl, rfl⟩

theorem observedReceiptRecord_proposed {destination : NormalizedDestination} {revision : Revision}
    {disposition : ApplyDisposition} {observed : Option DeploymentReceipt}
    {observedText proposedText : Bytes} {digest : ContentHash} {receipt : DeploymentReceipt}
    (h : applyPlanDigest lib assetId policy destination revision disposition observed observation
      receipt observedText proposedText = .ok digest) :
    ∃ encoded, receiptRecord lib receipt = .ok encoded := by
  obtain ⟨record, -, h⟩ := bind_eq_ok_iff.mp h
  obtain ⟨encoded, hencoded, -⟩ := bind_eq_ok_iff.mp h
  exact ⟨encoded, hencoded⟩

theorem applyPlanDigest_ok {destination : NormalizedDestination} {revision : Revision}
    {disposition : ApplyDisposition} {observed : Option DeploymentReceipt}
    {observedText proposedText : Bytes} {receipt : DeploymentReceipt}
    (hobserved : ∀ stored, observed = some stored → ∃ encoded, receiptRecord lib stored = .ok encoded)
    (hreceipt : ∃ encoded, receiptRecord lib receipt = .ok encoded) :
    ∃ digest, applyPlanDigest lib assetId policy destination revision disposition observed
      observation receipt observedText proposedText = .ok digest := by
  obtain ⟨encoded, hencoded⟩ := hreceipt
  have hrecord : ∃ record, observedReceiptRecord lib observed = .ok record := by
    cases observed with
    | none => exact ⟨[0], rfl⟩
    | some stored =>
      obtain ⟨first, hfirst⟩ := hobserved stored rfl
      exact ⟨1 :: first, bind_eq_ok_iff.mpr ⟨first, hfirst, rfl⟩⟩
  obtain ⟨record, hrecord⟩ := hrecord
  exact ⟨_, bind_eq_ok_iff.mpr ⟨record, hrecord, bind_eq_ok_iff.mpr ⟨encoded, hencoded, rfl⟩⟩⟩

theorem ownedAs_of_planned
    (h : planSkillTarget lib assetId policy target localState text observation = .ok plan) :
    OwnedAs localState assetId policy plan := by
  obtain ⟨observed, decision, proposedText, digest, hobserved, hdecision, -, -, rfl⟩ :=
    planSkillTarget_eq_ok.mp h
  intro layout hash hpresent
  obtain rfl : observation = .present layout hash := hpresent
  obtain ⟨receipt, rfl, hhash⟩ := skillDisposition_present hdecision
  obtain ⟨id, hget, hat, hasset, -⟩ := observedSkillReceipt_eq_some.mp hobserved
  exact ⟨id, receipt, hget, hat, hasset, hhash⟩

/-- The receipt of the plan is the only one at the destination exactly if no other was there. -/
theorem observedSkillReceipt_withReceipt {id : ReceiptId} {prior : Option ContentHash}
    (hat : ∀ (id' : ReceiptId) (receipt : DeploymentReceipt),
      localState.receipts[id']? = some receipt → AtTarget policy target.destination receipt →
        id' = id) :
    observedSkillReceipt
      (withReceipt localState id (proposedSkillReceipt assetId policy target prior)) assetId policy
      target.destination = .ok (some (proposedSkillReceipt assetId policy target prior)) := by
  have hone := (OrdMap.selected_insert_eq_singleton (m := localState.receipts)
    (p := fun receipt => decide (AtTarget policy target.destination receipt)) (k := id)
    (v := proposedSkillReceipt assetId policy target prior)
    (decide_eq_true atTarget_proposed)).mpr fun id' receipt hget hp =>
      hat id' receipt hget (of_decide_eq_true hp)
  obtain ⟨hget, -, hunique⟩ := OrdMap.selected_eq_singleton.mp hone
  exact observedSkillReceipt_eq_some.mpr ⟨id, hget, atTarget_proposed, rfl,
    fun id' receipt' hget' hat' => hunique id' receipt' hget' (decide_eq_true hat')⟩

theorem unchanged_of_held (hc : lib.states.Lawful)
    (hreceipts : validateLocalReceipts lib.blake3 localState = .ok ())
    (hprepared : Prepared lib manifest assetId object policy anchor target)
    (hplan : planSkillTarget lib assetId policy target localState text observation = .ok plan)
    (hheld : ∀ (id : ReceiptId) (receipt : DeploymentReceipt),
      localState.receipts[id]? = some receipt → AtTarget policy target.destination receipt →
        id = wholeTargetId lib.blake3 assetId policy.harness policy.scope target.destination) :
    Unchanged lib manifest assetId object policy anchor plan := by
  obtain ⟨observed, decision, proposedText, digest, -, -, htext, hdigest, rfl⟩ :=
    planSkillTarget_eq_ok.mp hplan
  have hencoded := observedReceiptRecord_proposed hdigest
  obtain ⟨digest', hdigest'⟩ : ∃ digest', applyPlanDigest lib assetId policy target.destination
      target.manifestRevision .noOp (some (proposedSkillReceipt assetId policy target decision.2))
      (target.rendered.observed lib.blake3) (proposedSkillReceipt assetId policy target decision.2)
      proposedText proposedText = .ok digest' :=
    applyPlanDigest_ok (fun stored hstored => Option.some.inj hstored ▸ hencoded) hencoded
  have hrendered := renderPortableSkill_observed (skillTarget_eq_ok hprepared.target).2.1
  refine ⟨proposedText, _, htext, planSkillApply_eq_ok.mpr ⟨_, target,
    LocalState.fromJson_toJson hc htext, ?_, hprepared, planSkillTarget_eq_ok.mpr
      ⟨some (proposedSkillReceipt assetId policy target decision.2), (.noOp, decision.2),
        proposedText, digest', observedSkillReceipt_withReceipt hheld, ?_, ?_, hdigest', rfl⟩⟩,
    rfl, rfl, rfl, withReceipt_again⟩
  · exact validateLocalReceipts_withReceipt hreceipts receiptId_proposedSkillReceipt
  · change skillDisposition policy target _ (target.rendered.observed lib.blake3) = _
    rw [hrendered]
    exact skillDisposition_proposed
  · rw [withReceipt_again]
    exact htext

theorem held_of_unchanged (hc : lib.states.Lawful)
    (hprepared : Prepared lib manifest assetId object policy anchor target)
    (hplan : planSkillTarget lib assetId policy target localState text observation = .ok plan)
    (h : Unchanged lib manifest assetId object policy anchor plan) {id : ReceiptId}
    {receipt : DeploymentReceipt} (hget : localState.receipts[id]? = some receipt)
    (hat : AtTarget policy target.destination receipt) :
    id = wholeTargetId lib.blake3 assetId policy.harness policy.scope target.destination := by
  obtain ⟨observed, decision, proposedText, digest, -, -, htext, -, rfl⟩ :=
    planSkillTarget_eq_ok.mp hplan
  obtain ⟨again, next, hagain, hnext, -⟩ := h
  obtain ⟨proposedState, target', hstate, -, hprepared', hnext⟩ := planSkillApply_eq_ok.mp hnext
  obtain rfl : target' = target :=
    Except.ok.inj (hprepared'.target.symm.trans hprepared.target)
  have hround := LocalState.fromJson_toJson hc hagain
  obtain rfl : proposedState = _ := Except.ok.inj (hstate.symm.trans hround)
  obtain ⟨observed', decision', proposedText', digest', hobserved, -⟩ :=
    planSkillTarget_eq_ok.mp hnext
  by_contra hne
  have hkept : (localState.receipts.insert
      (wholeTargetId lib.blake3 assetId policy.harness policy.scope target'.destination)
      (proposedSkillReceipt assetId policy target' decision.2))[id]? = some receipt := by
    rw [ExtTreeMap.getElem?_insert, if_neg fun heq => hne (LawfulEqCmp.eq_of_compare heq).symm, hget]
  cases observed' with
  | none => exact observedSkillReceipt_eq_none.mp hobserved id receipt hkept hat
  | some stored =>
    obtain ⟨id', -, -, -, hunique⟩ := observedSkillReceipt_eq_some.mp hobserved
    have hnew := hunique _ _ ExtTreeMap.getElem?_insert_self atTarget_proposed
    exact hne ((hunique id receipt hkept hat).trans hnew.symm)

theorem settles_of_held (hc : lib.states.Lawful)
    (hstate : LocalState.fromJson lib.states text = .ok localState)
    (hplan : planSkillApply lib manifest assetId object policy anchor text observation = .ok plan)
    (hheld : HeldWhole lib assetId object policy anchor localState) :
    SkillSettles lib manifest assetId object policy anchor localState plan := by
  obtain ⟨localState', target, hstate', hreceipts, hprepared, hplan⟩ := planSkillApply_eq_ok.mp hplan
  obtain rfl : localState' = localState := Except.ok.inj (hstate'.symm.trans hstate)
  obtain ⟨-, hrendered, hdestination, -⟩ := skillTarget_eq_ok hprepared.target
  have hat := hheld target.rendered target.destination hrendered hdestination
  have howned := ownedAs_of_planned hplan
  have hunchanged := unchanged_of_held hc hreceipts hprepared hplan hat
  obtain ⟨observed, decision, proposedText, digest, hobserved, -, -, -, rfl⟩ :=
    planSkillTarget_eq_ok.mp hplan
  refine ⟨howned, rfl, fun receipt hreceipt => ?_, hunchanged⟩
  obtain rfl : observed = some receipt := hreceipt
  obtain ⟨id, hget, hreceipt, -, -⟩ := observedSkillReceipt_eq_some.mp hobserved
  obtain rfl := hat id receipt hget hreceipt
  exact hget

theorem held_of_settles (hc : lib.states.Lawful)
    (hstate : LocalState.fromJson lib.states text = .ok localState)
    (hplan : planSkillApply lib manifest assetId object policy anchor text observation = .ok plan)
    (h : SkillSettles lib manifest assetId object policy anchor localState plan) :
    HeldWhole lib assetId object policy anchor localState := by
  obtain ⟨localState', target, hstate', -, hprepared, hplan⟩ := planSkillApply_eq_ok.mp hplan
  obtain rfl : localState' = localState := Except.ok.inj (hstate'.symm.trans hstate)
  obtain ⟨-, hrendered, hdestination, -⟩ := skillTarget_eq_ok hprepared.target
  intro rendered destination hrendered' hdestination' id receipt hget hat
  obtain rfl : target.rendered = rendered := Except.ok.inj (hrendered.symm.trans hrendered')
  obtain rfl : target.destination = destination :=
    Except.ok.inj (hdestination.symm.trans hdestination')
  exact held_of_unchanged hc hprepared hplan h.unchanged hget hat

/-- What a plan enters is kept under its own identity too. -/
theorem held_proposed
    (hplan : planSkillApply lib manifest assetId object policy anchor text observation = .ok plan)
    (hstate : LocalState.fromJson lib.states text = .ok localState)
    (hheld : HeldWhole lib assetId object policy anchor localState) :
    HeldWhole lib assetId object policy anchor plan.proposedLocalState := by
  obtain ⟨localState', target, hstate', -, hprepared, hplan⟩ := planSkillApply_eq_ok.mp hplan
  obtain rfl : localState' = localState := Except.ok.inj (hstate'.symm.trans hstate)
  obtain ⟨-, hrendered, hdestination, -⟩ := skillTarget_eq_ok hprepared.target
  obtain ⟨observed, decision, proposedText, digest, -, -, -, -, rfl⟩ := planSkillTarget_eq_ok.mp hplan
  intro rendered destination hrendered' hdestination' id receipt hget hat
  obtain rfl : target.rendered = rendered := Except.ok.inj (hrendered.symm.trans hrendered')
  obtain rfl : target.destination = destination :=
    Except.ok.inj (hdestination.symm.trans hdestination')
  have hget : (localState'.receipts.insert
      (wholeTargetId lib.blake3 assetId policy.harness policy.scope target.destination)
      (proposedSkillReceipt assetId policy target decision.2))[id]? = some receipt := hget
  rw [ExtTreeMap.getElem?_insert] at hget
  split at hget
  · rename_i hid
    exact (LawfulEqCmp.eq_of_compare hid).symm
  · exact hheld _ _ hrendered hdestination id receipt hget hat

end Settling

section Removal

/-- The library writes every state and every receipt. -/
structure Writes (lib : ApplyLibraries) : Prop where
  state : ∀ localState, ∃ text, lib.states.encode localState = some text
  receipt : ∀ receipt, ∃ text, lib.encodeReceipt receipt = some text

/-- A removal that takes no foreign content, drops one receipt, and leaves room for an install. -/
structure RemovalSettles (lib : ApplyLibraries) (manifest : EnvironmentManifest) (assetId : AssetId)
    (object : Skills.StoredSkillTree) (policy : TargetPolicy) (anchor : Bytes) (localState : LocalState)
    (plan : ApplyPlan) : Prop where
  present : plan.observedDestination.isPresent = true
  owned : OwnedAs localState assetId policy plan
  receipt : localState.receipts[plan.receiptId]? = some plan.proposedReceipt ∧
    plan.observedReceipt = some plan.proposedReceipt
  frame : plan.proposedLocalState = withoutReceipt localState plan.receiptId
  installs : ∃ text next, plan.proposedLocalState.toJson lib.states = .ok text ∧
    planSkillApply lib manifest assetId object policy anchor text .absent = .ok next ∧
    next.disposition = .install

theorem planSkillRemoval_eq_ok :
    planSkillRemoval lib manifest assetId object policy anchor text observation = .ok plan ↔
      ∃ applied observedReceipt proposedText digest,
        planSkillApply lib manifest assetId object policy anchor text observation = .ok applied ∧
        (applied.disposition ∈ [.noOp, .managedUpdate] ∧
          applied.observedDestination.isPresent = true) ∧
        applied.observedReceipt = some observedReceipt ∧
        (observedReceipt.receiptId lib.blake3 = .ok applied.receiptId ∧
          applied.proposedLocalState.receipts[applied.receiptId]? = some applied.proposedReceipt) ∧
        (withoutReceipt applied.proposedLocalState applied.receiptId).toJson lib.states =
          .ok proposedText ∧
        applyPlanDigest lib applied.assetId applied.policy applied.destination
          applied.manifestRevision .remove applied.observedReceipt applied.observedDestination
          observedReceipt applied.observedLocalStateText proposedText = .ok digest ∧
        plan = { applied with
          disposition := .remove
          proposedReceipt := observedReceipt
          proposedLocalState := withoutReceipt applied.proposedLocalState applied.receiptId
          digest } := by
  have hpresent (applied : ApplyPlan) : decide (applied.disposition ∉ [.noOp, .managedUpdate] ∨
      (!applied.observedDestination.isPresent) = true) = false ↔
        applied.disposition ∈ [.noOp, .managedUpdate] ∧
          applied.observedDestination.isPresent = true := by
    rw [decide_eq_false_iff_not, not_or, not_not, Bool.not_eq_true, Bool.not_eq_false']
  have hentered (applied : ApplyPlan) (receipt : DeploymentReceipt) :
      decide ((receipt.receiptId lib.blake3).toOption ≠ some applied.receiptId ∨
        applied.proposedLocalState.receipts[applied.receiptId]? ≠ some applied.proposedReceipt) =
          false ↔
        receipt.receiptId lib.blake3 = .ok applied.receiptId ∧
          applied.proposedLocalState.receipts[applied.receiptId]? = some applied.proposedReceipt := by
    rw [decide_eq_false_iff_not, not_or, not_not, not_not, toOption_eq_some_iff]
  rw [planSkillRemoval, bind_eq_ok_iff]
  constructor
  · rintro ⟨applied, happlied, h⟩
    rw [refuseIf_bind_eq_ok, hpresent] at h
    obtain ⟨hpresent, h⟩ := h
    split at h
    · contradiction
    rename_i observedReceipt hobserved
    rw [refuseIf_bind_eq_ok, hentered] at h
    obtain ⟨hentered, h⟩ := h
    obtain ⟨proposedText, htext, h⟩ := bind_eq_ok_iff.mp h
    obtain ⟨digest, hdigest, h⟩ := bind_eq_ok_iff.mp h
    rw [pure_eq_ok_iff] at h
    exact ⟨applied, observedReceipt, proposedText, digest, happlied, hpresent, hobserved, hentered,
      mapError_eq_ok_iff.mp htext, hdigest, h.symm⟩
  · rintro ⟨applied, observedReceipt, proposedText, digest, happlied, happlies, hobserved, hholds,
      htext, hdigest, rfl⟩
    refine ⟨applied, happlied, ?_⟩
    rw [refuseIf_bind_eq_ok, hpresent]
    refine ⟨happlies, ?_⟩
    simp only [hobserved] at hdigest ⊢
    rw [refuseIf_bind_eq_ok, hentered]
    refine ⟨hholds, ?_⟩
    refine bind_eq_ok_iff.mpr ⟨_, mapError_eq_ok_iff.mpr htext, ?_⟩
    exact bind_eq_ok_iff.mpr ⟨_, hdigest, rfl⟩

/-- A destination that no receipt claims is installed. -/
theorem installs_of_vacant (hw : Writes lib)
    (hvacant : ∀ (id : ReceiptId) (receipt : DeploymentReceipt),
      localState.receipts[id]? = some receipt → ¬ AtTarget policy target.destination receipt) :
    ∃ next, planSkillTarget lib assetId policy target localState text .absent = .ok next ∧
      next.disposition = .install := by
  obtain ⟨encoded, hencoded⟩ := hw.state (withReceipt localState
    (wholeTargetId lib.blake3 assetId policy.harness policy.scope target.destination)
    (proposedSkillReceipt assetId policy target none))
  have hrecord : ∃ record, receiptRecord lib (proposedSkillReceipt assetId policy target none) =
      .ok record := by
    obtain ⟨record, hrecord⟩ := hw.receipt (proposedSkillReceipt assetId policy target none)
    exact ⟨textRecord record, by rw [receiptRecord, hrecord]; rfl⟩
  obtain ⟨digest, hdigest⟩ : ∃ digest, applyPlanDigest lib assetId policy target.destination
      target.manifestRevision .install none .absent (proposedSkillReceipt assetId policy target none)
      text (encoded ++ [newline]) = .ok digest := applyPlanDigest_ok nofun hrecord
  refine ⟨_, planSkillTarget_eq_ok.mpr ⟨none, (.install, none), encoded ++ [newline], digest,
    observedSkillReceipt_eq_none.mpr hvacant, rfl, ?_, hdigest, rfl⟩, rfl⟩
  rw [LocalState.toJson, hencoded]

/-- Nothing is left at the destination once its only receipt is gone. -/
theorem vacant_withoutReceipt {destination : NormalizedDestination} {id : ReceiptId}
    (hunique : ∀ (id' : ReceiptId) (receipt : DeploymentReceipt),
      localState.receipts[id']? = some receipt → AtTarget policy destination receipt → id' = id)
    (id' : ReceiptId) (receipt : DeploymentReceipt)
    (hget : (withoutReceipt localState id).receipts[id']? = some receipt) :
    ¬ AtTarget policy destination receipt := by
  intro hat
  rw [withoutReceipt, ExtTreeMap.getElem?_erase] at hget
  split at hget
  · contradiction
  · rename_i hne
    exact hne (by rw [hunique id' receipt hget hat]; exact ReflCmp.compare_self)

theorem removal_settles (hc : lib.states.Lawful) (hw : Writes lib)
    (hstate : LocalState.fromJson lib.states text = .ok localState)
    (hplan : planSkillRemoval lib manifest assetId object policy anchor text observation =
      .ok plan) :
    RemovalSettles lib manifest assetId object policy anchor localState plan := by
  obtain ⟨applied, observedReceipt, proposedText, digest, happlied, ⟨-, hpresent⟩, hobserved, ⟨hid, -⟩,
    htext, -, rfl⟩ := planSkillRemoval_eq_ok.mp hplan
  obtain ⟨localState', target, hstate', hreceipts, hprepared, happlied⟩ :=
    planSkillApply_eq_ok.mp happlied
  obtain rfl : localState' = localState := Except.ok.inj (hstate'.symm.trans hstate)
  have howned := ownedAs_of_planned happlied
  obtain ⟨observed, decision, _, _, hreceipt, -, -, -, rfl⟩ := planSkillTarget_eq_ok.mp happlied
  obtain rfl : observed = some observedReceipt := hobserved
  obtain ⟨id, hget, -, -, hunique⟩ := observedSkillReceipt_eq_some.mp hreceipt
  obtain rfl : id = wholeTargetId lib.blake3 assetId policy.harness policy.scope target.destination :=
    Except.ok.inj ((validateLocalReceipts_eq_ok.mp hreceipts id observedReceipt hget).symm.trans hid)
  obtain ⟨next, hnext, hinstall⟩ := @installs_of_vacant lib assetId policy proposedText _ target hw
    (vacant_withoutReceipt hunique)
  refine ⟨hpresent, howned, ⟨hget, rfl⟩, withoutReceipt_withReceipt, proposedText, next, htext,
    planSkillApply_eq_ok.mpr ⟨_, target, LocalState.fromJson_toJson hc htext, ?_, hprepared, ?_⟩,
    hinstall⟩
  · exact validateLocalReceipts_withoutReceipt
      (validateLocalReceipts_withReceipt hreceipts receiptId_proposedSkillReceipt)
  · exact (congrArg (fun state => planSkillTarget lib assetId policy target state proposedText .absent)
      withoutReceipt_withReceipt).trans hnext

/-- Content that a receipt of its own identity records can be removed. -/
theorem removes_of_held (hw : Writes lib)
    (hstate : LocalState.fromJson lib.states text = .ok localState)
    (hplan : planSkillApply lib manifest assetId object policy anchor text observation = .ok plan)
    (hheld : HeldWhole lib assetId object policy anchor localState)
    (hpresent : observation.isPresent = true) :
    ∃ removal, planSkillRemoval lib manifest assetId object policy anchor text observation =
      .ok removal := by
  obtain ⟨localState', target, hstate', hreceipts, hprepared, htarget⟩ := planSkillApply_eq_ok.mp hplan
  obtain rfl : localState' = localState := Except.ok.inj (hstate'.symm.trans hstate)
  obtain ⟨-, hrendered, hdestination, -⟩ := skillTarget_eq_ok hprepared.target
  obtain ⟨observed, decision, proposedText, digest, hobserved, hdecision, -, -, rfl⟩ :=
    planSkillTarget_eq_ok.mp htarget
  obtain ⟨layout, hash, rfl⟩ : ∃ layout hash, observation = .present layout hash := by
    cases observation with
    | absent => contradiction
    | unsafeEntry => contradiction
    | present layout hash => exact ⟨layout, hash, rfl⟩
  obtain ⟨receipt, rfl, -⟩ := skillDisposition_present hdecision
  have hdisposition : decision.1 = .noOp ∨ decision.1 = .managedUpdate :=
    skillDisposition_updates hdecision
  obtain ⟨id, hget, hat, -, -⟩ := observedSkillReceipt_eq_some.mp hobserved
  have hid := validateLocalReceipts_eq_ok.mp hreceipts id receipt hget
  rw [hheld _ _ hrendered hdestination id receipt hget hat] at hid
  obtain ⟨encoded, hencoded⟩ := hw.state (withoutReceipt (withReceipt localState'
    (wholeTargetId lib.blake3 assetId policy.harness policy.scope target.destination)
    (proposedSkillReceipt assetId policy target decision.2))
    (wholeTargetId lib.blake3 assetId policy.harness policy.scope target.destination))
  have hrecord : ∃ record, receiptRecord lib receipt = .ok record := by
    obtain ⟨record, hrecord⟩ := hw.receipt receipt
    exact ⟨textRecord record, by rw [receiptRecord, hrecord]; rfl⟩
  obtain ⟨digest', hdigest⟩ : ∃ digest', applyPlanDigest lib assetId policy target.destination
      target.manifestRevision .remove (some receipt) (.present layout hash) receipt text
      (encoded ++ [newline]) = .ok digest' :=
    applyPlanDigest_ok (fun stored hstored => Option.some.inj hstored ▸ hrecord) hrecord
  refine ⟨_, planSkillRemoval_eq_ok.mpr ⟨_, receipt, encoded ++ [newline], digest', hplan, ⟨?_, rfl⟩,
    rfl, ⟨hid, ExtTreeMap.getElem?_insert_self⟩, ?_, hdigest, rfl⟩⟩
  · simpa [skillPlan] using hdisposition
  · simp only [LocalState.toJson, skillPlan, hencoded]

end Removal

end Kitrove.Materialization
