import Kitrove.Crash.Recovery

/-! A file with its staging and backup files, and the atomic steps that move a value
between them. -/

universe u v

namespace Crash

inductive SlotName where
  | destination
  | staging
  | backup
  deriving DecidableEq, Repr

@[ext] structure Slots (α : Type u) where
  destination : Option α
  staging : Option α
  backup : Option α
  deriving DecidableEq, Repr

namespace Slots

variable {α : Type u} {ε : Type v}

def get (s : Slots α) : SlotName → Option α
  | .destination => s.destination
  | .staging => s.staging
  | .backup => s.backup

def set (s : Slots α) (n : SlotName) (a : Option α) : Slots α :=
  match n with
  | .destination => { s with destination := a }
  | .staging => { s with staging := a }
  | .backup => { s with backup := a }

@[simp] theorem get_destination (s : Slots α) : s.get .destination = s.destination := rfl
@[simp] theorem get_staging (s : Slots α) : s.get .staging = s.staging := rfl
@[simp] theorem get_backup (s : Slots α) : s.get .backup = s.backup := rfl

@[simp] theorem set_destination (s : Slots α) (a : Option α) :
    s.set .destination a = { s with destination := a } := rfl
@[simp] theorem set_staging (s : Slots α) (a : Option α) :
    s.set .staging a = { s with staging := a } := rfl
@[simp] theorem set_backup (s : Slots α) (a : Option α) :
    s.set .backup a = { s with backup := a } := rfl

theorem set_get (s : Slots α) (n : SlotName) : s.set n (s.get n) = s := by
  cases n <;> rfl

@[simp] theorem get_set (s : Slots α) (n : SlotName) (a : Option α) : (s.set n a).get n = a := by
  cases n <;> rfl

@[simp] theorem set_set (s : Slots α) (n : SlotName) (a b : Option α) :
    (s.set n a).set n b = s.set n b := by
  cases n <;> rfl

/-- Renames a file to a name that must be free, and says whether it did. -/
def moveNoreplace (source target : SlotName) : Program (Slots α) ε Bool :=
  Program.act fun s =>
    match s.get source, s.get target with
    | some a, none => (true, (s.set source none).set target (some a))
    | _, _ => (false, s)

/-- Swaps two files that must both be there, and says whether it did. -/
def exchange (first second : SlotName) : Program (Slots α) ε Bool :=
  Program.act fun s =>
    match s.get first, s.get second with
    | some a, some b => (true, (s.set first (some b)).set second (some a))
    | _, _ => (false, s)

/-- Removes a file; an absent one stays absent. -/
def remove (n : SlotName) : Program (Slots α) ε Unit :=
  Program.act fun s => ((), s.set n none)

/-- Writes a whole file at once. -/
def write (n : SlotName) (a : α) : Program (Slots α) ε Unit :=
  Program.act fun s => ((), s.set n (some a))

section Rules

variable {G : Slots α → Slots α → Prop} {E : ε → Slots α → Prop} {s : Slots α}

@[simp] theorem remove_upholds {n : SlotName} {Q : Unit → Slots α → Prop} :
    (remove n : Program (Slots α) ε Unit).Upholds G Q E s ↔
      G s (s.set n none) ∧ Q () (s.set n none) :=
  Program.act_upholds

@[simp] theorem write_upholds {n : SlotName} {a : α} {Q : Unit → Slots α → Prop} :
    (write n a : Program (Slots α) ε Unit).Upholds G Q E s ↔
      G s (s.set n (some a)) ∧ Q () (s.set n (some a)) :=
  Program.act_upholds

theorem moveNoreplace_upholds {source target : SlotName} {a : α} {Q : Bool → Slots α → Prop}
    (hs : s.get source = some a) (ht : s.get target = none) :
    (moveNoreplace source target : Program (Slots α) ε Bool).Upholds G Q E s ↔
      G s ((s.set source none).set target (some a)) ∧
        Q true ((s.set source none).set target (some a)) := by
  simp only [moveNoreplace, Program.act_upholds, hs, ht]

theorem exchange_upholds {first second : SlotName} {a b : α} {Q : Bool → Slots α → Prop}
    (hf : s.get first = some a) (hs : s.get second = some b) :
    (exchange first second : Program (Slots α) ε Bool).Upholds G Q E s ↔
      G s ((s.set first (some b)).set second (some a)) ∧
        Q true ((s.set first (some b)).set second (some a)) := by
  simp only [exchange, Program.act_upholds, hf, hs]

end Rules

end Slots

end Crash
