import Kitrove.Support.Slices

/-! The work budget of a quarantine cleanup: five portions, each with a reservation of its own, and
one count of roots. -/

namespace Kitrove.Quarantine

open Slices (checkedAdd checkedSub checkedAdd_eq_some)

structure TombstoneWork where
  topLevelEntries : Nat
  descendantVisits : Nat
  maxDepth : Nat
  deriving DecidableEq

namespace TombstoneWork

def zero : TombstoneWork := ⟨0, 0, 0⟩

protected def checkedAdd (work other : TombstoneWork) : Option TombstoneWork := do
  let topLevelEntries ← checkedAdd work.topLevelEntries other.topLevelEntries
  let descendantVisits ← checkedAdd work.descendantVisits other.descendantVisits
  pure ⟨topLevelEntries, descendantVisits, max work.maxDepth other.maxDepth⟩

def isReservationCoherent (work : TombstoneWork) : Bool :=
  if work.descendantVisits = 0 then work.maxDepth = 0
  else 0 < work.maxDepth && work.maxDepth ≤ work.descendantVisits

def isChargeCoherent (work : TombstoneWork) : Bool :=
  (work.descendantVisits = 0 && work.maxDepth = 0) || (0 < work.descendantVisits && 0 < work.maxDepth)

/-- `fits_within`. -/
structure FitsWithin (work limit : TombstoneWork) : Prop where
  entries : work.topLevelEntries ≤ limit.topLevelEntries
  visits : work.descendantVisits ≤ limit.descendantVisits
  depth : work.maxDepth ≤ limit.maxDepth

instance (work limit : TombstoneWork) : Decidable (work.FitsWithin limit) :=
  decidable_of_iff (work.topLevelEntries ≤ limit.topLevelEntries ∧
      work.descendantVisits ≤ limit.descendantVisits ∧ work.maxDepth ≤ limit.maxDepth)
    ⟨fun h => ⟨h.1, h.2.1, h.2.2⟩, fun h => ⟨h.entries, h.visits, h.depth⟩⟩

/-- Work one after the other, counted without a bound. -/
def plus (work other : TombstoneWork) : TombstoneWork :=
  ⟨work.topLevelEntries + other.topLevelEntries, work.descendantVisits + other.descendantVisits,
    max work.maxDepth other.maxDepth⟩

end TombstoneWork

structure QuarantineCleanupLimits where
  maxRoots : Nat
  maxTopLevelEntries : Nat
  maxDescendantVisits : Nat
  maxDepth : Nat
  deriving DecidableEq

def QuarantineCleanupLimits.workLimit (limits : QuarantineCleanupLimits) : TombstoneWork :=
  ⟨limits.maxTopLevelEntries, limits.maxDescendantVisits, limits.maxDepth⟩

inductive QuarantineWorkPortion where
  | cleanupInspection
  | cleanupValidation
  | cleanupDeletion
  | forward
  | rollback
  deriving DecidableEq

/-- The portions in the order of their indices. -/
def portions : List QuarantineWorkPortion :=
  [.cleanupInspection, .cleanupValidation, .cleanupDeletion, .forward, .rollback]

/-- What each portion has of something. -/
abbrev PerPortion := QuarantineWorkPortion → TombstoneWork

structure CleanupPassWork where
  inspection : TombstoneWork
  validation : TombstoneWork
  deletion : TombstoneWork
  deriving DecidableEq

inductive QuarantineBudgetError where
  | invalidLimits
  | invalidWork
  | arithmeticOverflow
  | limitExceeded
  | rootReservationExceeded
  | reservationExceeded (portion : QuarantineWorkPortion)
  deriving DecidableEq

def QuarantineCleanupLimits.tryNew (maxRoots maxTopLevelEntries maxDescendantVisits maxDepth : Nat) :
    Except QuarantineBudgetError QuarantineCleanupLimits :=
  if maxRoots = 0 ∨ maxTopLevelEntries = 0 ∨ maxDescendantVisits = 0 ∨ maxDepth = 0 then
    throw .invalidLimits
  else pure ⟨maxRoots, maxTopLevelEntries, maxDescendantVisits, maxDepth⟩

section Reservations

structure QuarantineCleanupReservation where
  roots : Nat
  work : PerPortion

def reservedWork (cleanup : CleanupPassWork) (forward rollback : TombstoneWork) : PerPortion
  | .cleanupInspection => cleanup.inspection
  | .cleanupValidation => cleanup.validation
  | .cleanupDeletion => cleanup.deletion
  | .forward => forward
  | .rollback => rollback

def totalWork (work : PerPortion) : Option TombstoneWork :=
  portions.foldlM (fun total portion => total.checkedAdd (work portion)) .zero

def QuarantineCleanupReservation.tryNew (limits : QuarantineCleanupLimits) (roots : Nat)
    (cleanup : CleanupPassWork) (forward rollback : TombstoneWork) :
    Except QuarantineBudgetError QuarantineCleanupReservation :=
  let work := reservedWork cleanup forward rollback
  if portions.any fun portion => !(work portion).isReservationCoherent then throw .invalidWork
  else
    match totalWork work with
    | none => throw .arithmeticOverflow
    | some total =>
      if roots > limits.maxRoots ∨ ¬ total.FitsWithin limits.workLimit then throw .limitExceeded
      else pure ⟨roots, work⟩

end Reservations

structure QuarantineCleanupBudget where
  reservation : QuarantineCleanupReservation
  roots : Nat
  consumed : PerPortion

namespace QuarantineCleanupBudget

def new (reservation : QuarantineCleanupReservation) : QuarantineCleanupBudget :=
  ⟨reservation, 0, fun _ => .zero⟩

variable (budget : QuarantineCleanupBudget) (portion : QuarantineWorkPortion)

/-- A call that changes the budget in place: its result, and the budget it leaves. -/
abbrev Outcome := Except QuarantineBudgetError Unit × QuarantineCleanupBudget

def tryRoot : Outcome :=
  match checkedAdd budget.roots 1 with
  | none => (throw .arithmeticOverflow, budget)
  | some roots =>
    if roots > budget.reservation.roots then (throw .rootReservationExceeded, budget)
    else (pure (), { budget with roots })

/-- The difference, or nothing where the machine's subtraction underflows. -/
def remainingTopLevelEntries : Option Nat :=
  checkedSub (budget.reservation.work portion).topLevelEntries (budget.consumed portion).topLevelEntries

def remainingDescendantVisits : Option Nat :=
  checkedSub (budget.reservation.work portion).descendantVisits
    (budget.consumed portion).descendantVisits

def tryConsume (work : TombstoneWork) : Outcome :=
  if ¬ work.isChargeCoherent then (throw .invalidWork, budget)
  else
    match (budget.consumed portion).checkedAdd work with
    | none => (throw .arithmeticOverflow, budget)
    | some next =>
      if ¬ next.FitsWithin (budget.reservation.work portion) then
        (throw (.reservationExceeded portion), budget)
      else (pure (), { budget with consumed := Function.update budget.consumed portion next })

def tryTopLevelEntry : Outcome := budget.tryConsume portion ⟨1, 0, 0⟩

def tryDescendant (depth : Nat) : Outcome := budget.tryConsume portion ⟨0, 1, depth⟩

end QuarantineCleanupBudget

end Kitrove.Quarantine
