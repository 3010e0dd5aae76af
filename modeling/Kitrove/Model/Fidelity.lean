import Kitrove.Model.Identity

/-! Fidelity results: how well an asset fits a harness, with reasons and evidence. -/

namespace Kitrove

open Std

structure ValidationError where
  code : String
  message : Bytes
  deriving DecidableEq

/-- `if refused { return Err(..) }`. -/
def refuseIf {ε : Type} (refused : Bool) (error : ε) : Except ε Unit :=
  if refused then .error error else .ok ()

theorem refuseIf_eq_ok {ε : Type} {refused : Bool} {error : ε} :
    refuseIf refused error = .ok () ↔ refused = false := by
  cases refused <;> simp [refuseIf]

theorem refuseIf_true_bind {ε α : Type} {error : ε} {f : Unit → Except ε α} :
    (refuseIf true error >>= f) = .error error := rfl

theorem refuseIf_bind_eq_ok {ε α : Type} {refused : Bool} {error : ε} {f : Unit → Except ε α}
    {a : α} : (refuseIf refused error >>= f) = .ok a ↔ refused = false ∧ f () = .ok a := by
  cases refused <;> simp [refuseIf, bind, Except.bind]

inductive ContentClass where
  | dataOnly
  | agentActive
  | executable
  deriving DecidableEq

def ContentClass.tag : ContentClass → UInt8
  | .dataOnly => 0
  | .agentActive => 1
  | .executable => 2

def ContentClass.max (a b : ContentClass) : ContentClass := if a.tag ≤ b.tag then b else a

inductive BlockedRequirement where
  | binding (name : BindingName)
  | executableTrust
  deriving DecidableEq

namespace BlockedRequirement

/-- The derived order goes by constructor, then by the binding name. -/
def key : BlockedRequirement → Bytes
  | .binding name => 0 :: name.bytes
  | .executableTrust => [1]

theorem key_injective {a b : BlockedRequirement} (h : a.key = b.key) : a = b := by
  cases a <;> cases b <;> simp_all [key]
  exact Name.ext_bytes h

instance : Ord BlockedRequirement := ⟨compareOn key⟩

instance : TransOrd BlockedRequirement := inferInstanceAs (TransCmp (compareOn key))

instance : LawfulEqOrd BlockedRequirement := lawfulEqCmp_compareOn fun _ _ h => key_injective h

end BlockedRequirement

inductive Fidelity where
  | native
  | portable
  | adapted
  | partial'
  | unsupported
  | blocked
  deriving DecidableEq

namespace Fidelity

def tag : Fidelity → UInt8
  | .native => 0
  | .portable => 1
  | .adapted => 2
  | .partial' => 3
  | .unsupported => 4
  | .blocked => 5

def max (a b : Fidelity) : Fidelity := if a.tag ≤ b.tag then b else a

/-- The derived `Debug` text. -/
def debugName : Fidelity → Bytes
  | .native => ascii "Native"
  | .portable => ascii "Portable"
  | .adapted => ascii "Adapted"
  | .partial' => ascii "Partial"
  | .unsupported => ascii "Unsupported"
  | .blocked => ascii "Blocked"

end Fidelity

structure FidelityReason where
  code : Bytes
  message : Bytes
  deriving DecidableEq

structure FidelityEvidence where
  kind : Bytes
  detail : Bytes
  deriving DecidableEq

/-- The parts of a fidelity result, not yet checked. -/
structure RawFidelityResult where
  fidelity : Fidelity
  reasons : List FidelityReason
  evidence : List FidelityEvidence
  blockedRequirements : List BlockedRequirement
  adapterVersion : Bytes
  harnessVersion : Option Bytes
  deriving DecidableEq

def RawFidelityResult.validate (raw : RawFidelityResult) : Except ValidationError Unit := do
  refuseIf (raw.fidelity ∈ [.partial', .unsupported, .blocked] ∧ raw.reasons = [])
    ⟨"fidelity.reason_required",
      raw.fidelity.debugName ++ ascii " fidelity requires at least one structured reason"⟩
  refuseIf (raw.reasons.any fun reason => isBlank reason.code || isBlank reason.message)
    ⟨"fidelity.invalid_reason", ascii "fidelity reason codes and messages must be non-empty"⟩
  refuseIf (raw.fidelity = .blocked ∧ raw.blockedRequirements = [])
    ⟨"fidelity.blocked_requirement_required",
      ascii "blocked fidelity requires at least one symbolic local requirement"⟩
  refuseIf (raw.fidelity ≠ .blocked ∧ raw.blockedRequirements ≠ [])
    ⟨"fidelity.unexpected_blocked_requirement",
      ascii "only blocked fidelity may include blocked requirements"⟩
  refuseIf (raw.evidence = [])
    ⟨"fidelity.evidence_required",
      ascii "every fidelity claim requires at least one evidence record"⟩
  refuseIf (raw.evidence.any fun item => isBlank item.kind || isBlank item.detail)
    ⟨"fidelity.invalid_evidence",
      ascii "fidelity evidence kinds and details must be non-empty"⟩
  refuseIf (isBlank raw.adapterVersion)
    ⟨"fidelity.adapter_version_required",
      ascii "fidelity results require an adapter version"⟩

/-- The complete compatibility result for an asset and a target. -/
structure FidelityResult extends RawFidelityResult where
  valid : toRawFidelityResult.validate = .ok ()
  deriving DecidableEq

def FidelityResult.new (raw : RawFidelityResult) : Except ValidationError FidelityResult :=
  match h : raw.validate with
  | .error e => .error e
  | .ok () => .ok ⟨raw, h⟩

/-- An exact result: no loss and nothing that blocks it. -/
def FidelityResult.exact (fidelity : Fidelity) (evidence : List FidelityEvidence)
    (adapterVersion : Bytes) (harnessVersion : Option Bytes) :
    Except ValidationError FidelityResult := do
  refuseIf (fidelity ∉ [.native, .portable, .adapted])
    ⟨"fidelity.not_exact",
      ascii "exact fidelity accepts only native, portable, or adapted categories"⟩
  FidelityResult.new ⟨fidelity, [], evidence, [], adapterVersion, harnessVersion⟩

end Kitrove
