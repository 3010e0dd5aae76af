import Kitrove.Quarantine.Budget

/-! Charging a work budget: whatever is asked of it and in whatever order, what it gives out stays
within the reservation of each portion, and so within the limits. -/

namespace Kitrove.Quarantine

open Slices (checkedAdd_eq_some checkedSub_eq_some)

section Work

variable {work other limit total : TombstoneWork}

theorem TombstoneWork.checkedAdd_eq (h : work.checkedAdd other = some total) :
    total = work.plus other := by
  obtain ⟨entries, hentries, h⟩ := Option.bind_eq_some_iff.mp h
  obtain ⟨visits, hvisits, h⟩ := Option.bind_eq_some_iff.mp h
  obtain ⟨-, rfl⟩ := checkedAdd_eq_some.mp hentries
  obtain ⟨-, rfl⟩ := checkedAdd_eq_some.mp hvisits
  exact (Option.some.inj h).symm

theorem TombstoneWork.FitsWithin.trans (h : work.FitsWithin other) (h' : other.FitsWithin limit) :
    work.FitsWithin limit :=
  ⟨Nat.le_trans h.entries h'.entries, Nat.le_trans h.visits h'.visits, Nat.le_trans h.depth h'.depth⟩

theorem TombstoneWork.FitsWithin.plus {work' other' : TombstoneWork} (h : work.FitsWithin other)
    (h' : work'.FitsWithin other') : (work.plus work').FitsWithin (other.plus other') where
  entries := Nat.add_le_add h.entries h'.entries
  visits := Nat.add_le_add h.visits h'.visits
  depth := by
    have hdepth := h.depth
    have hdepth' := h'.depth
    simp only [TombstoneWork.plus]
    omega

theorem TombstoneWork.zero_fits : TombstoneWork.zero.FitsWithin limit :=
  ⟨Nat.zero_le _, Nat.zero_le _, Nat.zero_le _⟩

theorem TombstoneWork.plus_assoc : (work.plus other).plus total = work.plus (other.plus total) := by
  simp only [TombstoneWork.plus, Nat.add_assoc, Nat.max_assoc]

theorem TombstoneWork.zero_plus : TombstoneWork.zero.plus work = work := by
  simp [TombstoneWork.plus, TombstoneWork.zero]

/-- The work of all portions together. -/
def overall (work : PerPortion) : TombstoneWork :=
  portions.foldl (fun total portion => total.plus (work portion)) .zero

theorem totalWork_eq {work : PerPortion} (h : totalWork work = some total) : total = overall work := by
  have hfold : ∀ (ps : List QuarantineWorkPortion) (start : TombstoneWork),
      ps.foldlM (fun total portion => total.checkedAdd (work portion)) start = some total →
        total = ps.foldl (fun total portion => total.plus (work portion)) start := by
    intro ps
    induction ps with
    | nil =>
      intro start hstart
      exact (Option.some.inj hstart).symm
    | cons portion ps ih =>
      intro start hstart
      rw [List.foldlM_cons] at hstart
      obtain ⟨next, hnext, hrest⟩ := Option.bind_eq_some_iff.mp hstart
      rw [TombstoneWork.checkedAdd_eq hnext] at hrest
      exact ih _ hrest
  exact hfold portions .zero h

theorem overall_fits {work limit : PerPortion} (h : ∀ portion, (work portion).FitsWithin (limit portion)) :
    (overall work).FitsWithin (overall limit) := by
  have hfold : ∀ (ps : List QuarantineWorkPortion) (start start' : TombstoneWork),
      start.FitsWithin start' →
        (ps.foldl (fun total portion => total.plus (work portion)) start).FitsWithin
          (ps.foldl (fun total portion => total.plus (limit portion)) start') := by
    intro ps
    induction ps with
    | nil => exact fun _ _ hstart => hstart
    | cons portion ps ih => exact fun _ _ hstart => ih _ _ (hstart.plus (h portion))
  exact hfold portions .zero .zero TombstoneWork.zero_fits

/-- What a reservation was checked for. -/
theorem QuarantineCleanupReservation.tryNew_eq_ok {limits : QuarantineCleanupLimits} {roots : Nat}
    {cleanup : CleanupPassWork} {forward rollback : TombstoneWork}
    {reservation : QuarantineCleanupReservation}
    (h : QuarantineCleanupReservation.tryNew limits roots cleanup forward rollback = .ok reservation) :
    reservation.roots = roots ∧ reservation.work = reservedWork cleanup forward rollback ∧
      roots ≤ limits.maxRoots ∧ (overall reservation.work).FitsWithin limits.workLimit := by
  unfold QuarantineCleanupReservation.tryNew at h
  dsimp only at h
  split at h
  · exact (nomatch h)
  · cases htotal : totalWork (reservedWork cleanup forward rollback) with
    | none =>
      rw [htotal] at h
      exact (nomatch h)
    | some total =>
      rw [htotal] at h
      dsimp only at h
      split at h
      · exact (nomatch h)
      · rename_i hfits
        rw [not_or, Decidable.not_not, totalWork_eq htotal] at hfits
        cases h
        exact ⟨rfl, rfl, Nat.not_lt.mp hfits.1, hfits.2⟩

end Work

section Charges

/-- A request to a budget. -/
inductive Charge where
  | root
  | work (portion : QuarantineWorkPortion) (amount : TombstoneWork)
  deriving DecidableEq

def Charge.on (portion : QuarantineWorkPortion) : Charge → Option TombstoneWork
  | .root => none
  | .work charged amount => if charged = portion then some amount else none

namespace QuarantineCleanupBudget

def charge (budget : QuarantineCleanupBudget) : Charge → Outcome
  | .root => budget.tryRoot
  | .work portion amount => budget.tryConsume portion amount

/-- The budget after a sequence of requests. -/
def run (budget : QuarantineCleanupBudget) (charges : List Charge) : QuarantineCleanupBudget :=
  charges.foldl (fun budget c => (budget.charge c).2) budget

/-- The requests of a sequence that are granted. -/
def granted (budget : QuarantineCleanupBudget) : List Charge → List Charge
  | [] => []
  | c :: charges =>
    if (budget.charge c).1.isOk then c :: (budget.charge c).2.granted charges
    else (budget.charge c).2.granted charges

end QuarantineCleanupBudget

/-- The work that requests take from a portion. -/
def spent (portion : QuarantineWorkPortion) (charges : List Charge) : TombstoneWork :=
  (charges.filterMap (Charge.on portion)).foldr TombstoneWork.plus .zero

variable {budget other : QuarantineCleanupBudget} {portion : QuarantineWorkPortion}
  {amount : TombstoneWork} {charges : List Charge} {c : Charge}

open QuarantineCleanupBudget

/-- A root is refused without effect, or counted. -/
theorem tryRoot_cases (budget : QuarantineCleanupBudget) :
    (∃ e, budget.tryRoot = (.error e, budget)) ∨
      budget.roots + 1 ≤ budget.reservation.roots ∧
        budget.tryRoot = (.ok (), { budget with roots := budget.roots + 1 }) := by
  unfold QuarantineCleanupBudget.tryRoot
  cases hadd : Slices.checkedAdd budget.roots 1 with
  | none => exact .inl ⟨_, rfl⟩
  | some roots =>
    obtain ⟨-, rfl⟩ := checkedAdd_eq_some.mp hadd
    dsimp only
    split
    · exact .inl ⟨_, rfl⟩
    · rename_i hroots
      exact .inr ⟨Nat.not_lt.mp hroots, rfl⟩

/-- Work is refused without effect, or added to what its portion has consumed. -/
theorem tryConsume_cases (budget : QuarantineCleanupBudget) (portion : QuarantineWorkPortion)
    (amount : TombstoneWork) :
    (∃ e, budget.tryConsume portion amount = (.error e, budget)) ∨
      ((budget.consumed portion).plus amount).FitsWithin (budget.reservation.work portion) ∧
        budget.tryConsume portion amount = (.ok (), { budget with
          consumed := Function.update budget.consumed portion
            ((budget.consumed portion).plus amount) }) := by
  unfold QuarantineCleanupBudget.tryConsume
  split
  · exact .inl ⟨_, rfl⟩
  · cases hadd : (budget.consumed portion).checkedAdd amount with
    | none => exact .inl ⟨_, rfl⟩
    | some next =>
      rw [TombstoneWork.checkedAdd_eq hadd]
      dsimp only
      split
      · exact .inl ⟨_, rfl⟩
      · rename_i hfits
        exact .inr ⟨Decidable.not_not.mp hfits, rfl⟩

/-- What one request can do to a budget. -/
theorem charge_cases (budget : QuarantineCleanupBudget) (c : Charge) :
    (∃ e, budget.charge c = (.error e, budget)) ∨
      (c = .root ∧ budget.roots + 1 ≤ budget.reservation.roots ∧
        budget.charge c = (.ok (), { budget with roots := budget.roots + 1 })) ∨
      ∃ portion amount, c = .work portion amount ∧
        ((budget.consumed portion).plus amount).FitsWithin (budget.reservation.work portion) ∧
          budget.charge c = (.ok (), { budget with
            consumed := Function.update budget.consumed portion
              ((budget.consumed portion).plus amount) }) := by
  cases c with
  | root => exact (tryRoot_cases budget).imp_right fun h => .inl ⟨rfl, h⟩
  | work portion amount =>
    exact (tryConsume_cases budget portion amount).imp_right fun h => .inr ⟨portion, amount, rfl, h⟩

theorem charge_refused {e : QuarantineBudgetError} (h : (budget.charge c).1 = .error e) :
    (budget.charge c).2 = budget := by
  rcases charge_cases budget c with ⟨_, hcase⟩ | ⟨-, -, hcase⟩ | ⟨_, _, -, -, hcase⟩
  · rw [hcase]
  · rw [hcase] at h
    exact (nomatch h)
  · rw [hcase] at h
    exact (nomatch h)

/-- A budget that has given out no more than is reserved. -/
structure Within (reservation : QuarantineCleanupReservation) (budget : QuarantineCleanupBudget) :
    Prop where
  reserved : budget.reservation = reservation
  roots : budget.roots ≤ reservation.roots
  work : ∀ portion, (budget.consumed portion).FitsWithin (reservation.work portion)

variable {reservation : QuarantineCleanupReservation}

theorem within_new : Within reservation (new reservation) where
  reserved := rfl
  roots := Nat.zero_le _
  work _ := TombstoneWork.zero_fits

theorem Within.charge (h : Within reservation budget) (c : Charge) :
    Within reservation (budget.charge c).2 := by
  obtain ⟨hreserved, hroots, hwork⟩ := h
  rcases charge_cases budget c with ⟨_, hcase⟩ | ⟨-, hroom, hcase⟩ | ⟨portion, amount, -, hfits, hcase⟩
  · rw [hcase]
    exact ⟨hreserved, hroots, hwork⟩
  · rw [hcase]
    exact ⟨hreserved, hreserved ▸ hroom, hwork⟩
  · rw [hcase]
    refine ⟨hreserved, hroots, fun q => ?_⟩
    dsimp only
    by_cases hq : q = portion
    · rw [hq, Function.update_self]
      exact hreserved ▸ hfits
    · rw [Function.update_of_ne hq]
      exact hwork q

theorem Within.run (h : Within reservation budget) (charges : List Charge) :
    Within reservation (budget.run charges) := by
  induction charges generalizing budget with
  | nil => exact h
  | cons c charges ih => exact ih (h.charge c)

/-- What a portion has consumed grows by what is granted. -/
theorem consumed_run (budget : QuarantineCleanupBudget) (portion : QuarantineWorkPortion)
    (charges : List Charge) : (budget.run charges).consumed portion =
      (budget.consumed portion).plus (spent portion (budget.granted charges)) := by
  induction charges generalizing budget with
  | nil =>
    change budget.consumed portion = (budget.consumed portion).plus .zero
    simp [TombstoneWork.plus, TombstoneWork.zero]
  | cons c charges ih =>
    have hrun : budget.run (c :: charges) = (budget.charge c).2.run charges := rfl
    rw [hrun, ih, granted]
    rcases charge_cases budget c with ⟨_, hcase⟩ | ⟨rfl, -, hcase⟩ | ⟨charged, amount, rfl, -, hcase⟩
    · rw [hcase]
      rfl
    · rw [hcase]
      rfl
    · rw [hcase]
      change _ = (budget.consumed portion).plus (spent portion (_ :: _))
      by_cases hportion : charged = portion
      · have hon : Charge.on portion (.work charged amount) = some amount := if_pos hportion
        rw [spent, spent, List.filterMap_cons_some hon, List.foldr_cons, ← TombstoneWork.plus_assoc]
        dsimp only
        rw [hportion, Function.update_self]
      · have hon : Charge.on portion (.work charged amount) = none := if_neg hportion
        rw [spent, spent, List.filterMap_cons_none hon]
        dsimp only
        rw [Function.update_of_ne (Ne.symm hportion)]

/-- A portion answers by its own reservation and its own consumption. -/
theorem tryConsume_congr (hreserved : other.reservation.work portion = budget.reservation.work portion)
    (hconsumed : other.consumed portion = budget.consumed portion) :
    (other.tryConsume portion amount).1 = (budget.tryConsume portion amount).1 := by
  unfold QuarantineCleanupBudget.tryConsume
  rw [hreserved, hconsumed]
  split
  · rfl
  · split
    · rfl
    · split <;> rfl

theorem consumed_charge_of_none (h : c.on portion = none) :
    (budget.charge c).2.consumed portion = budget.consumed portion := by
  rcases charge_cases budget c with ⟨_, hcase⟩ | ⟨-, -, hcase⟩ | ⟨charged, amount, rfl, -, hcase⟩
  · rw [hcase]
  · rw [hcase]
  · rw [hcase]
    dsimp only
    refine Function.update_of_ne (fun hportion => ?_) _ _
    have hon : Charge.on portion (.work charged amount) = some amount := if_pos hportion.symm
    rw [hon] at h
    exact (nomatch h)

theorem consumed_run_of_none (h : ∀ c ∈ charges, c.on portion = none) :
    (budget.run charges).consumed portion = budget.consumed portion := by
  induction charges generalizing budget with
  | nil => rfl
  | cons c charges ih =>
    obtain ⟨hc, hcharges⟩ := List.forall_mem_cons.mp h
    have hrun : budget.run (c :: charges) = (budget.charge c).2.run charges := rfl
    rw [hrun, ih hcharges, consumed_charge_of_none hc]

end Charges

section Results

variable {limits : QuarantineCleanupLimits} {roots : Nat} {cleanup : CleanupPassWork}
  {forward rollback : TombstoneWork} {reservation : QuarantineCleanupReservation}

open QuarantineCleanupBudget

/-- Whatever is asked of a budget: every portion gives out what it grants and no more than it
reserves, all of them no more than the limits, a refusal changes nothing, and no portion takes from
another. -/
theorem quarantine_budget_bounded
    (h : QuarantineCleanupReservation.tryNew limits roots cleanup forward rollback = .ok reservation)
    (charges : List Charge) :
    (∀ portion,
      ((new reservation).run charges).consumed portion =
          spent portion ((new reservation).granted charges) ∧
        (((new reservation).run charges).consumed portion).FitsWithin
          (reservedWork cleanup forward rollback portion) ∧
        (((new reservation).run charges).remainingTopLevelEntries portion).isSome ∧
        (((new reservation).run charges).remainingDescendantVisits portion).isSome) ∧
    (overall ((new reservation).run charges).consumed).FitsWithin limits.workLimit ∧
    ((new reservation).run charges).roots ≤ limits.maxRoots ∧
    (∀ c e, (((new reservation).run charges).charge c).1 = .error e →
      (((new reservation).run charges).charge c).2 = (new reservation).run charges) ∧
    ∀ portion amount more, (∀ c ∈ more, c.on portion = none) →
      ((((new reservation).run charges).run more).tryConsume portion amount).1 =
        (((new reservation).run charges).tryConsume portion amount).1 := by
  obtain ⟨hroots, hwork, hmaxRoots, hlimits⟩ := QuarantineCleanupReservation.tryNew_eq_ok h
  have hwithin : Within reservation ((new reservation).run charges) := within_new.run charges
  have hreserved := hwithin.reserved
  refine ⟨fun portion => ⟨?_, ?_, ?_, ?_⟩, ?_, ?_, fun c e hc => charge_refused hc, ?_⟩
  · rw [consumed_run]
    exact TombstoneWork.zero_plus
  · rw [← hwork]
    exact hwithin.work portion
  · have hle : (((new reservation).run charges).consumed portion).topLevelEntries ≤
        (((new reservation).run charges).reservation.work portion).topLevelEntries := by
      rw [hreserved]
      exact (hwithin.work portion).entries
    rw [remainingTopLevelEntries, checkedSub_eq_some.mpr ⟨hle, rfl⟩]
    rfl
  · have hle : (((new reservation).run charges).consumed portion).descendantVisits ≤
        (((new reservation).run charges).reservation.work portion).descendantVisits := by
      rw [hreserved]
      exact (hwithin.work portion).visits
    rw [remainingDescendantVisits, checkedSub_eq_some.mpr ⟨hle, rfl⟩]
    rfl
  · exact (overall_fits hwithin.work).trans hlimits
  · exact Nat.le_trans hwithin.roots (hroots ▸ hmaxRoots)
  · intro portion amount more hmore
    refine tryConsume_congr ?_ (consumed_run_of_none hmore)
    rw [(hwithin.run more).reserved, hreserved]

def sampleWork : TombstoneWork := ⟨2, 3, 2⟩
def sampleLimits : QuarantineCleanupLimits := ⟨1, 10, 15, 2⟩
def samplePasses : CleanupPassWork := ⟨sampleWork, sampleWork, sampleWork⟩

theorem quarantine_budget_bounded_sample :
    (overall ((new ⟨1, reservedWork samplePasses sampleWork sampleWork⟩).run
      [.root, .work .forward sampleWork, .root, .work .forward ⟨1, 0, 0⟩,
        .work .rollback sampleWork]).consumed).FitsWithin sampleLimits.workLimit :=
  (@quarantine_budget_bounded sampleLimits 1 samplePasses sampleWork sampleWork _ rfl _).2.1

end Results

end Kitrove.Quarantine
