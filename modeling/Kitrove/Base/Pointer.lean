import Kitrove.Base.Store

/-! Settling the pointer after any stop of its replacement. -/

namespace Kitrove

open Crash SyncBaseStore

section Reconciling

variable {blake3 : Bytes → Digest} {p : TextPlatform Bytes} {old : Option Bytes} {new : Bytes}
  {maxBytes : Nat} {s : Slots Bytes}

/-- The pointer keeps its text and nothing but the new one is staged. -/
structure PointerKept (s : Slots Bytes) (new : Bytes) (t : Slots Bytes) : Prop where
  destination : t.destination = s.destination
  staging : t.staging = none ∨ t.staging = some new
  backup : t.backup = none

theorem PointerKept.unstaged {t : Slots Bytes} (h : PointerKept s new t) :
    PointerKept s new { t with staging := none } :=
  ⟨h.destination, .inl rfl, h.backup⟩

/-- Without a backup the pointer is not written, whatever the expected texts. -/
theorem reconcileSlots_kept {oldText : Except BaseError (Option Bytes)}
    {newText : Except BaseError Bytes} (hs : s.staging = none ∨ s.staging = some new)
    (hb : s.backup = none) :
    (reconcileSlots blake3 p oldText newText maxBytes).Upholds
      (fun _ t => PointerKept s new t) (fun _ t => PointerKept s new t)
      (fun _ t => PointerKept s new t) s := by
  have hkept : PointerKept s new s := ⟨rfl, hs, hb⟩
  have hread : ∀ {name : SlotName} {R : Option Bytes → Slots Bytes → Prop}, R (s.get name) s →
      (Program.mapError (fun _ => invalid) (readText p name maxBytes)).Upholds
        (fun _ t => PointerKept s new t) R (fun _ t => PointerKept s new t) s := fun h =>
    Program.mapError_upholds.mpr
      (GuardedControl.readText_upholds_of_bounded h (.inr fun _ => hkept))
  unfold reconcileSlots
  refine Program.bind_upholds.mpr (hread (Program.bind_upholds.mpr (hread ?_)))
  split
  · exact Program.pure_upholds.mpr hkept
  rw [Program.bind_upholds]
  cases oldText with
  | error e => exact Program.ofExcept_error_upholds.mpr hkept
  | ok old =>
  rw [Program.ofExcept_ok_upholds, Program.bind_upholds]
  cases newText with
  | error e => exact Program.ofExcept_error_upholds.mpr hkept
  | ok text =>
  rw [Program.ofExcept_ok_upholds]
  refine Program.bind_upholds.mpr (hread ?_)
  rw [Program.bind_upholds, Program.require_upholds]
  split
  swap
  · exact hkept
  rw [Program.bind_upholds, Program.mapError_upholds]
  -- what is done with the three files touches the staging file alone
  have hdone : ∀ t, PointerKept s new t →
      (if s.get .backup = none ∧ s.get .destination = some text ∧ s.get .staging = old then
        Slots.remove .staging
      else pure () : Program (Slots Bytes) BaseError Unit).Upholds
        (fun _ t => PointerKept s new t) (fun _ t => PointerKept s new t)
        (fun _ t => PointerKept s new t) t := by
    intro t ht
    split
    · exact Slots.remove_upholds.mpr ⟨ht.unstaged, ht.unstaged⟩
    · exact Program.pure_upholds.mpr ht
  refine GuardedControl.reconcile_upholds (fun state hstate => ?_) (.inr fun _ => hkept)
    (.inr fun _ => hkept)
  rw [hb] at hstate
  rcases GuardedControl.classify_of_no_backup hstate with ⟨found, rfl⟩ | ⟨found, rfl⟩
  · exact Program.pure_upholds.mpr (hdone s hkept)
  · exact Slots.remove_upholds.mpr ⟨hkept.unstaged, hdone _ hkept.unstaged⟩

/-- Where nothing is in the way but the new text, the three files are recognised. -/
theorem classify_resting {H : Type} [DecidableEq H] {hash : Bytes → H} {destination : Option Bytes}
    (h : destination = old ∨ destination = some new) :
    GuardedControl.classify hash none destination (some new)
      ⟨old.map hash, hash new, true⟩ ≠ none := by
  rcases h with rfl | rfl
  · cases destination with
    | none => simp [GuardedControl.classify]
    | some o =>
      by_cases hsame : hash o = hash new
      · simp [GuardedControl.classify, hsame]
      · simp [GuardedControl.classify, hsame]
  · simp [GuardedControl.classify]

theorem reconcileSlots_resting (h : Resting old new s) {E : BaseError → Slots Bytes → Prop}
    (hE : ((∀ o ∈ old, p.len o ≤ maxBytes) ∧ p.len new ≤ maxBytes) ∨
      ∀ e t, Resting old new t → E e t) :
    (reconcileSlots blake3 p (.ok old) (.ok new) maxBytes).Upholds (fun _ _ => True)
      (fun _ _ => True) E s := by
  have hbounded : GuardedControl.Bounded p maxBytes s ∨ ∀ e, E e s := by
    refine hE.imp (fun hlen name text htext => ?_) fun hrest e => hrest e s h
    cases name with
    | destination =>
      rcases h.destination with hd | hd
      · exact hlen.1 text (hd ▸ htext)
      · have : text = new := by simpa [hd] using htext.symm
        exact this ▸ hlen.2
    | staging =>
      rcases h.staging with hd | hd
      · simp [hd] at htext
      · have : text = new := by simpa [hd] using htext.symm
        exact this ▸ hlen.2
    | backup => simp [h.backup] at htext
  have hread : ∀ {name : SlotName} {R : Option Bytes → Slots Bytes → Prop}, R (s.get name) s →
      (Program.mapError (fun _ => invalid) (readText p name maxBytes)).Upholds
        (fun _ _ => True) R E s := fun h =>
    Program.mapError_upholds.mpr (GuardedControl.readText_upholds_of_bounded h
      (hbounded.imp_right fun h _ => h _))
  unfold reconcileSlots
  refine Program.bind_upholds.mpr (hread (Program.bind_upholds.mpr (hread ?_)))
  split
  · exact Program.pure_upholds.mpr trivial
  rename_i hstaged
  have hb : s.get .backup = none := h.backup
  have hs : s.staging = some new := by
    refine h.staging.resolve_left fun hnone => hstaged ⟨hnone, hb⟩
  rw [Program.bind_upholds, Program.ofExcept_ok_upholds, Program.bind_upholds,
    Program.ofExcept_ok_upholds]
  refine Program.bind_upholds.mpr (hread ?_)
  rw [Program.bind_upholds, Program.require_upholds]
  split
  swap
  · rename_i hbad
    simp [hb] at hbad
  rw [Program.bind_upholds, Program.mapError_upholds]
  have hdone : ∀ t, (if s.get .backup = none ∧ s.get .destination = some new ∧
        s.get .staging = old then Slots.remove .staging
      else pure () : Program (Slots Bytes) BaseError Unit).Upholds (fun _ _ => True)
        (fun _ _ => True) E t := by
    intro t
    split
    · exact Slots.remove_upholds.mpr ⟨trivial, trivial⟩
    · exact Program.pure_upholds.mpr trivial
  have hbackup : s.backup = none := h.backup
  refine GuardedControl.reconcile_upholds (fun state hstate => ?_)
    (hbounded.imp_right fun h _ => h _) ?_
  · rw [hbackup] at hstate
    rcases GuardedControl.classify_of_no_backup hstate with ⟨found, rfl⟩ | ⟨found, rfl⟩
    · exact Program.pure_upholds.mpr (hdone s)
    · exact Slots.remove_upholds.mpr ⟨trivial, hdone _⟩
  · refine .inl ?_
    rw [hbackup, hs]
    exact classify_resting h.destination

/-- From whatever a replacement left, settling ends with the old or the new pointer and no
backup; it fails only on texts that are too long. -/
theorem reconcileSlots_upholds (h : Leftover p maxBytes old new s)
    {E : BaseError → Slots Bytes → Prop}
    (hE : ((∀ o ∈ old, p.len o ≤ maxBytes) ∧ p.len new ≤ maxBytes) ∨
      ∀ e t, Resting old new t → E e t) :
    (reconcileSlots blake3 p (.ok old) (.ok new) maxBytes).Upholds
      (fun _ t => Leftover p maxBytes old new t) (fun _ t => Resting old new t) E s := by
  cases h with
  | resting h =>
    have hkept : (reconcileSlots blake3 p (.ok old) (.ok new) maxBytes).Upholds
        (fun _ t => PointerKept s new t) (fun _ t => PointerKept s new t)
        (fun _ t => PointerKept s new t) s := reconcileSlots_kept h.staging h.backup
    have hresting : ∀ t, PointerKept s new t → Resting old new t :=
      fun t ht => ⟨ht.destination ▸ h.destination, ht.staging, ht.backup⟩
    exact (hkept.and (reconcileSlots_resting h hE)).mono
      (fun _ t ht => .resting (hresting t ht.1)) (fun _ t ht => hresting t ht.1)
      fun _ _ ht => ht.2
  | @exchanged o ho hlen hnew =>
    subst ho
    have hrest : Leftover p maxBytes (some o) new ⟨some new, none, none⟩ := .resting resting_new
    by_cases hsame : digest blake3 o = digest blake3 new
    · simp [reconcileSlots, GuardedControl.reconcile, GuardedControl.inspectState,
        GuardedControl.storage, GuardedControl.classify, GuardedControl.settle, readText_upholds,
        hlen, hnew, hsame, hrest, resting_new]
    · simp [reconcileSlots, GuardedControl.reconcile, GuardedControl.inspectState,
        GuardedControl.storage, GuardedControl.classify, GuardedControl.settle, readText_upholds,
        hlen, hnew, hsame, hrest, resting_new]
  | @displaced o ho hlen hnew =>
    subst ho
    have hrest : Resting (some o) new ⟨some o, some new, none⟩ := ⟨.inl rfl, .inr rfl, rfl⟩
    have hleft : Leftover p maxBytes (some o) new ⟨some o, some new, none⟩ := .resting hrest
    simp [reconcileSlots, GuardedControl.reconcile, GuardedControl.inspectState,
      GuardedControl.storage, GuardedControl.classify, GuardedControl.classifyBackup,
      GuardedControl.settle, readText_upholds, restoreGuardedBackup_upholds, hlen, hnew, hrest,
      hleft]
  | @installed o ho hlen hnew =>
    subst ho
    have hrest : Leftover p maxBytes (some o) new ⟨some new, none, none⟩ := .resting resting_new
    simp [reconcileSlots, GuardedControl.reconcile, GuardedControl.inspectState,
      GuardedControl.storage, GuardedControl.classify, GuardedControl.classifyBackup,
      GuardedControl.settle, readText_upholds, hlen, hnew, hrest, resting_new]

end Reconciling

end Kitrove
