import Kitrove.Model.LocalState

/-! Planning a decision about one executable object: which entry of the machine-local state it
changes, and the digest that fixes the plan. -/

namespace Kitrove

open Std

inductive ExecutableTrustDecision where
  | trusted
  | denied
  deriving DecidableEq, Repr

inductive ExecutableTrustDisposition where
  | first
  | replace
  | noOp
  deriving DecidableEq, Repr

structure ExecutableTrustError where
  code : String
  message : String
  deriving DecidableEq, Repr

structure ExecutableTrustPlan where
  assetId : AssetId
  objectHash : ContentHash
  decision : ExecutableTrustDecision
  disposition : ExecutableTrustDisposition
  manifestRevision : Revision
  proposedLocalState : LocalState
  digest : ContentHash
  deriving DecidableEq

namespace ExecutableTrust

def trustRationale : Bytes := ascii "explicit_exact_content_review"

def localStateInvalid : ExecutableTrustError :=
  ⟨"trust.local_state_invalid", "machine-local state authority is invalid"⟩

end ExecutableTrust

namespace ExecutableTrustDecision

def tag : ExecutableTrustDecision → UInt8
  | trusted => 0
  | denied => 1

def record : ExecutableTrustDecision → TrustDecision
  | trusted => .trusted ExecutableTrust.trustRationale
  | denied => .denied ExecutableTrust.trustRationale

/-- The decision that an entry of the machine-local state records. -/
def ofRecord : TrustDecision → ExecutableTrustDecision
  | .trusted _ => trusted
  | .denied _ => denied

@[simp] theorem ofRecord_record (decision : ExecutableTrustDecision) :
    ofRecord decision.record = decision := by
  cases decision <;> rfl

end ExecutableTrustDecision

def ExecutableTrustDisposition.tag : ExecutableTrustDisposition → UInt8
  | first => 0
  | replace => 1
  | noOp => 2

namespace ExecutableTrust

section Planning

variable (blake3 : Bytes → Digest)

def trustPlanDigestFromHashes (assetId : AssetId) (objectHash : ContentHash)
    (decision : ExecutableTrustDecision) (disposition : ExecutableTrustDisposition)
    (manifestRevision : Revision) (observedHash proposedHash : ContentHash) : ContentHash :=
  ContentHash.ofDigest (blake3
    (ascii "kitrove-executable-trust-plan-v1" ++ [0] ++ textRecord assetId.bytes ++
      textRecord objectHash.bytes ++ [decision.tag, disposition.tag] ++
      textRecord manifestRevision.bytes ++ textRecord observedHash.bytes ++
      textRecord proposedHash.bytes))

def dispositionFor (current : Option TrustDecision) (decision : ExecutableTrustDecision) :
    ExecutableTrustDisposition :=
  match current, decision with
  | none, _ => .first
  | some (.trusted _), .trusted | some (.denied _), .denied => .noOp
  | some _, _ => .replace

/-- The state with the decision entered, where there is anything to enter. -/
def propose (state : LocalState) (objectHash : ContentHash) (decision : ExecutableTrustDecision) :
    LocalState :=
  if dispositionFor state.trust[objectHash]? decision = .noOp then state
  else { state with trust := state.trust.insert objectHash decision.record }

/-- Plans one decision; `authority` stands for the checked manifest and object of an asset. -/
def planExecutableTrust (codec : LocalStateCodec)
    (authority : AssetId → Except ExecutableTrustError (Revision × ContentHash))
    (localStateText : Bytes) (assetId : AssetId) (decision : ExecutableTrustDecision) :
    Except ExecutableTrustError ExecutableTrustPlan := do
  let (manifestRevision, objectHash) ← authority assetId
  let state ← (LocalState.fromJson codec localStateText).mapError fun _ => localStateInvalid
  let disposition := dispositionFor state.trust[objectHash]? decision
  let proposed := propose state objectHash decision
  let proposedText ← (proposed.toJson codec).mapError fun _ => localStateInvalid
  pure
    { assetId
      objectHash
      decision
      disposition
      manifestRevision
      proposedLocalState := proposed
      digest := trustPlanDigestFromHashes blake3 assetId objectHash decision disposition
        manifestRevision (contentDigest blake3 localStateText)
        (contentDigest blake3 proposedText) }

end Planning

section Rules

variable {blake3 : Bytes → Digest} {codec : LocalStateCodec}
  {authority : AssetId → Except ExecutableTrustError (Revision × ContentHash)} {text : Bytes}
  {assetId : AssetId} {decision : ExecutableTrustDecision} {plan : ExecutableTrustPlan}
  {state : LocalState} {objectHash : ContentHash}

/-- Two states that agree on everything but one decision. -/
structure OnlyDecision (objectHash : ContentHash) (old new : LocalState) : Prop where
  others : new = { old with trust := new.trust }
  trust : ∀ hash ≠ objectHash, new.trust[hash]? = old.trust[hash]?

theorem propose_onlyDecision : OnlyDecision objectHash state (propose state objectHash decision) := by
  unfold propose
  split
  · exact ⟨rfl, fun _ _ => rfl⟩
  · refine ⟨rfl, fun hash hne => ?_⟩
    rw [ExtTreeMap.getElem?_insert, if_neg]
    exact fun heq => hne (LawfulEqCmp.eq_of_compare heq).symm

/-- A decision that is entered is the one its state records from then on. -/
theorem propose_decision (h : dispositionFor state.trust[objectHash]? decision ≠ .noOp) :
    (propose state objectHash decision).trust[objectHash]? = some decision.record := by
  rw [propose, if_neg h, ExtTreeMap.getElem?_insert_self]

/-- A decision is entered only where the state records another one, or none. -/
theorem dispositionFor_ne_noOp {current : Option TrustDecision}
    (h : dispositionFor current decision ≠ .noOp) :
    current.map ExecutableTrustDecision.ofRecord ≠ some decision := by
  cases current with
  | none => simp
  | some record => cases record <;> cases decision <;> simp_all [dispositionFor,
      ExecutableTrustDecision.ofRecord]

/-- What a plan says, and of which state. -/
structure Planned (blake3 : Bytes → Digest) (codec : LocalStateCodec) (text : Bytes)
    (plan : ExecutableTrustPlan) (state : LocalState) (proposedText : Bytes) : Prop where
  observed : LocalState.fromJson codec text = .ok state
  disposition : plan.disposition = dispositionFor state.trust[plan.objectHash]? plan.decision
  proposed : plan.proposedLocalState = propose state plan.objectHash plan.decision
  encoded : plan.proposedLocalState.toJson codec = .ok proposedText
  digest : plan.digest = trustPlanDigestFromHashes blake3 plan.assetId plan.objectHash plan.decision
    plan.disposition plan.manifestRevision (contentDigest blake3 text)
    (contentDigest blake3 proposedText)

theorem planExecutableTrust_planned
    (h : planExecutableTrust blake3 codec authority text assetId decision = .ok plan) :
    plan.assetId = assetId ∧ plan.decision = decision ∧
      ∃ state proposedText, Planned blake3 codec text plan state proposedText := by
  rw [planExecutableTrust, Except.bind_eq_ok_iff] at h
  obtain ⟨⟨manifestRevision, objectHash⟩, -, h⟩ := h
  rw [Except.bind_eq_ok_iff] at h
  obtain ⟨state, hstate, h⟩ := h
  rw [Except.bind_eq_ok_iff] at h
  obtain ⟨proposedText, htext, h⟩ := h
  rw [Except.pure_eq_ok_iff] at h
  subst h
  exact ⟨rfl, rfl, state, proposedText, Except.mapError_eq_ok_iff.mp hstate, rfl, rfl,
    Except.mapError_eq_ok_iff.mp htext, rfl⟩

end Rules

end ExecutableTrust

end Kitrove
