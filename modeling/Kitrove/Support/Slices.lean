import Kitrove.Support.Except
import Mathlib.Data.List.Basic

/-! Readers of binary formats: bounded slices, machine sums and little-endian numbers, where
an index out of range and a sum that wraps are results of their own. -/

universe u v w

namespace Slices

/-- Why a reader stops: at a check of its own, at a fault of the language, or because a loop has not
ended within its fuel. -/
inductive Fault (ε : Type u) where
  | refused (error : ε)
  | outOfRange
  | overflow
  | outOfFuel
  deriving DecidableEq

abbrev Checked (ε : Type u) (α : Type v) := Except (Fault ε) α

/-- What a machine word can count to. -/
def wordLimit : Nat := 2 ^ 64

section Readers

variable {σ : Type u} {ε : Type v} {α : Type w}

/-- `ok_or`. -/
def okOr (value : Option α) (error : ε) : Checked ε α :=
  match value with
  | some a => pure a
  | none => throw (.refused error)

def refuse (condition : Bool) (error : ε) : Checked ε PUnit :=
  if condition then throw (.refused error) else pure ⟨⟩

/-- The part of a list between two positions. -/
def cut (xs : List σ) (start stop : Nat) : List σ := (xs.drop start).take (stop - start)

/-- `xs.get(start..stop)`. -/
def get (xs : List σ) (start stop : Nat) : Option (List σ) :=
  if start ≤ stop ∧ stop ≤ xs.length then some (cut xs start stop) else none

/-- `&xs[start..stop]`. -/
def slice (xs : List σ) (start stop : Nat) : Checked ε (List σ) :=
  match get xs start stop with
  | some part => pure part
  | none => throw .outOfRange

/-- `xs[i]`. -/
def index (xs : List σ) (i : Nat) : Checked ε σ :=
  match xs[i]? with
  | some x => pure x
  | none => throw .outOfRange

/-- `a + b`. -/
def plus (a b : Nat) : Checked ε Nat :=
  if a + b < wordLimit then pure (a + b) else throw .overflow

def checkedAdd (a b : Nat) : Option Nat := if a + b < wordLimit then some (a + b) else none

def checkedMul (a b : Nat) : Option Nat := if a * b < wordLimit then some (a * b) else none

/-- Bits shifted out are lost; a shift by the word's width or more is refused. -/
def checkedShl (a shift : Nat) : Option Nat :=
  if shift < 64 then some (a * 2 ^ shift % wordLimit) else none

def checkedSub (a b : Nat) : Option Nat := if b ≤ a then some (a - b) else none

end Readers

section Results

variable {σ : Type u} {ε : Type v} {α β : Type w} {xs : List σ} {a b c start stop : Nat} {e : ε}

theorem okOr_eq_ok {value : Option α} {x : α} : okOr value e = .ok x ↔ value = some x := by
  cases value with
  | none => exact ⟨nofun, nofun⟩
  | some y => exact ⟨fun h => by cases h; rfl, fun h => by cases h; rfl⟩

theorem refuse_eq_ok {condition : Bool} : refuse condition e = .ok ⟨⟩ ↔ condition = false := by
  cases condition with
  | false => exact ⟨fun _ => rfl, fun _ => rfl⟩
  | true => exact ⟨nofun, nofun⟩

theorem refuse_bind_eq_ok {condition : Bool} {next : PUnit → Checked ε α} {x : α} :
    (refuse condition e >>= next) = .ok x ↔ condition = false ∧ next ⟨⟩ = .ok x := by
  cases condition with
  | false => exact ⟨fun h => ⟨rfl, h⟩, fun h => h.2⟩
  | true => exact ⟨nofun, nofun⟩

theorem get_eq_some {part : List σ} :
    get xs start stop = some part ↔ (start ≤ stop ∧ stop ≤ xs.length) ∧ cut xs start stop = part := by
  unfold get
  split
  · rename_i h
    rw [Option.some.injEq, and_iff_right h]
  · rename_i h
    exact iff_of_false nofun fun hpart => h hpart.1

theorem slice_eq_ok {part : List σ} : (slice xs start stop : Checked ε (List σ)) = .ok part ↔
    (start ≤ stop ∧ stop ≤ xs.length) ∧ cut xs start stop = part := by
  rw [← get_eq_some]
  unfold slice
  cases get xs start stop with
  | none => exact ⟨nofun, nofun⟩
  | some other => exact ⟨fun h => by cases h; rfl, fun h => by cases h; rfl⟩

theorem index_eq_ok {i : Nat} {x : σ} : (index xs i : Checked ε σ) = .ok x ↔ xs[i]? = some x := by
  unfold index
  cases xs[i]? with
  | none => exact ⟨nofun, nofun⟩
  | some y => exact ⟨fun h => by cases h; rfl, fun h => by cases h; rfl⟩

theorem plus_eq_ok : (plus a b : Checked ε Nat) = .ok c ↔ a + b < wordLimit ∧ a + b = c := by
  unfold plus
  split
  · rename_i h
    rw [and_iff_right h]
    exact Except.pure_eq_ok_iff
  · rename_i h
    exact iff_of_false nofun fun hc => h hc.1

theorem checkedAdd_eq_some : checkedAdd a b = some c ↔ a + b < wordLimit ∧ a + b = c := by
  unfold checkedAdd
  split
  · rename_i h
    rw [Option.some.injEq, and_iff_right h]
  · rename_i h
    exact iff_of_false nofun fun hc => h hc.1

theorem checkedMul_eq_some : checkedMul a b = some c ↔ a * b < wordLimit ∧ a * b = c := by
  unfold checkedMul
  split
  · rename_i h
    rw [Option.some.injEq, and_iff_right h]
  · rename_i h
    exact iff_of_false nofun fun hc => h hc.1

theorem checkedSub_eq_some : checkedSub a b = some c ↔ b ≤ a ∧ a - b = c := by
  unfold checkedSub
  split
  · rename_i h
    rw [Option.some.injEq, and_iff_right h]
  · rename_i h
    exact iff_of_false nofun fun hc => h hc.1

theorem filter_le_eq_some {value : Option Nat} {limit n : Nat} :
    value.filter (fun position => position ≤ limit) = some n ↔ value = some n ∧ n ≤ limit := by
  rw [Option.filter_eq_some_iff, decide_eq_true_eq]

end Results

section Safety

variable {σ : Type u} {ε : Type v} {α β : Type w} {xs : List σ} {a b start stop : Nat}

/-- A reader that stops at its own checks only. -/
def Safe (x : Checked ε α) : Prop := ∀ f, x = .error f → ∃ e, f = .refused e

theorem safe_pure {x : α} : Safe (pure x : Checked ε α) := fun _ h => nomatch h

theorem safe_refused {e : ε} : Safe (throw (.refused e) : Checked ε α) := by
  intro f h
  cases h
  exact ⟨e, rfl⟩

theorem safe_okOr {value : Option α} {e : ε} : Safe (okOr value e) := by
  cases value with
  | none => exact safe_refused
  | some x => exact safe_pure

theorem safe_refuse {condition : Bool} {e : ε} : Safe (refuse condition e) := by
  cases condition with
  | false => exact safe_pure
  | true => exact safe_refused

theorem Safe.bind {x : Checked ε α} {next : α → Checked ε β} (hx : Safe x)
    (hnext : ∀ y, x = .ok y → Safe (next y)) : Safe (x >>= next) := by
  cases x with
  | error f =>
    intro g hg
    cases hg
    exact hx f rfl
  | ok y => exact hnext y rfl

theorem Safe.ite {condition : Prop} [Decidable condition] {x y : Checked ε α}
    (hx : condition → Safe x) (hy : ¬ condition → Safe y) :
    Safe (if condition then x else y) := by
  by_cases h : condition
  · rw [if_pos h]
    exact hx h
  · rw [if_neg h]
    exact hy h

theorem safe_slice (hstart : start ≤ stop) (hstop : stop ≤ xs.length) :
    Safe (slice xs start stop : Checked ε (List σ)) := by
  have hget : get xs start stop = some (cut xs start stop) := get_eq_some.mpr ⟨⟨hstart, hstop⟩, rfl⟩
  unfold slice
  rw [hget]
  exact safe_pure

theorem safe_index {i : Nat} (hi : i < xs.length) : Safe (index xs i : Checked ε σ) := by
  unfold index
  rw [List.getElem?_eq_getElem hi]
  exact safe_pure

theorem safe_plus (h : a + b < wordLimit) : Safe (plus a b : Checked ε Nat) := by
  unfold plus
  rw [if_pos h]
  exact safe_pure

end Safety

section Cuts

variable {σ : Type u} {xs ys zs : List σ} {a b c start stop : Nat}

theorem length_cut (hstop : stop ≤ xs.length) : (cut xs start stop).length = stop - start := by
  rw [cut, List.length_take, List.length_drop]
  omega

theorem cut_append (hab : a ≤ b) (hbc : b ≤ c) : cut xs a b ++ cut xs b c = cut xs a c := by
  have hdrop : xs.drop b = (xs.drop a).drop (b - a) := by
    rw [List.drop_drop]
    congr 1
    omega
  have hsum : c - a = (b - a) + (c - b) := by omega
  rw [cut, cut, cut, hdrop, hsum, List.take_add]

theorem cut_self : cut xs a a = [] := by
  rw [cut, Nat.sub_self, List.take_zero]

theorem cut_zero_length : cut xs 0 xs.length = xs := by
  rw [cut, List.drop_zero, Nat.sub_zero, List.take_length]

theorem cut_append_of_le (hstop : stop ≤ xs.length) : cut (xs ++ ys) start stop = cut xs start stop := by
  rw [cut, cut]
  by_cases hstart : start ≤ stop
  · rw [List.drop_append_of_le_length (by omega), List.take_append_of_le_length]
    rw [List.length_drop]
    omega
  · rw [Nat.sub_eq_zero_of_le (by omega), List.take_zero, List.take_zero]

theorem cut_append_right : cut (xs ++ ys) (xs.length + a) (xs.length + b) = cut ys a b := by
  rw [cut, cut, List.drop_append]
  have hdrop : xs.drop (xs.length + a) = [] := List.drop_eq_nil_of_le (by omega)
  rw [hdrop, List.nil_append]
  congr 1
  · omega
  · congr 1
    omega

theorem cut_succ {i : Nat} {x : σ} (h : xs[i]? = some x) : cut xs i (i + 1) = [x] := by
  obtain ⟨hi, hx⟩ := List.getElem?_eq_some_iff.mp h
  rw [cut, Nat.add_sub_cancel_left, List.drop_eq_getElem_cons hi, hx, List.take_succ_cons,
    List.take_zero]

theorem cut_mid : cut (xs ++ ys ++ zs) xs.length (xs.length + ys.length) = ys := by
  rw [cut_append_of_le (by simp)]
  have hcut := @cut_append_right σ xs ys 0 ys.length
  rwa [Nat.add_zero, cut_zero_length] at hcut

/-- Where the parts of a list are is where its cuts are. -/
theorem cut_eq_append (h : cut xs a c = ys ++ zs) (hac : a ≤ c) (hc : c ≤ xs.length) :
    cut xs a (a + ys.length) = ys ∧ cut xs (a + ys.length) c = zs ∧ a + ys.length ≤ c := by
  have hlength := @length_cut _ xs a _ hc
  rw [h, List.length_append] at hlength
  have hle : a + ys.length ≤ c := by omega
  have happend : cut xs a (a + ys.length) ++ cut xs (a + ys.length) c = ys ++ zs := by
    rw [cut_append (by omega) hle, h]
  obtain ⟨hys, hzs⟩ := List.append_inj happend (by rw [length_cut (by omega)]; omega)
  exact ⟨hys, hzs, hle⟩

end Cuts

section Fields

variable {σ : Type u} {xs : List σ}

/-- The parts of a list that have the widths, one after the other. -/
def fields (xs : List σ) : Nat → List Nat → List (List σ)
  | _, [] => []
  | start, width :: widths => cut xs start (start + width) :: fields xs (start + width) widths

theorem flatten_fields {start : Nat} {widths : List Nat} :
    (fields xs start widths).flatten = cut xs start (start + widths.sum) := by
  induction widths generalizing start with
  | nil => rw [fields, List.flatten_nil, List.sum_nil, Nat.add_zero, cut_self]
  | cons width widths ih =>
    rw [fields, List.flatten_cons, ih, List.sum_cons, ← Nat.add_assoc,
      cut_append (by omega) (by omega)]

theorem fields_flatten {pieces : List (List σ)} {pre post : List σ} :
    fields (pre ++ pieces.flatten ++ post) pre.length (pieces.map List.length) = pieces := by
  induction pieces generalizing pre with
  | nil => rfl
  | cons piece pieces ih =>
    have hshape : pre ++ (piece :: pieces).flatten ++ post =
        (pre ++ piece) ++ pieces.flatten ++ post := by
      rw [List.flatten_cons, ← List.append_assoc pre]
    rw [List.map_cons, fields]
    congr 1
    · rw [hshape, List.append_assoc (pre ++ piece)]
      exact cut_mid
    · rw [hshape, ← List.length_append]
      exact ih

end Fields

section Numbers

/-- The number with the bytes, the least significant one first. -/
def littleEndian : List UInt8 → Nat
  | [] => 0
  | b :: bytes => b.toNat + 256 * littleEndian bytes

def littleBytes : Nat → Nat → List UInt8
  | 0, _ => []
  | width + 1, n => UInt8.ofNat n :: littleBytes width (n / 256)

theorem length_littleBytes {width n : Nat} : (littleBytes width n).length = width := by
  induction width generalizing n with
  | zero => rfl
  | succ width ih => rw [littleBytes, List.length_cons, ih]

theorem littleEndian_lt {bytes : List UInt8} : littleEndian bytes < 256 ^ bytes.length := by
  induction bytes with
  | nil => exact Nat.one_pos
  | cons b bytes ih =>
    have hb := b.toNat_lt
    rw [littleEndian, List.length_cons, Nat.pow_succ]
    omega

theorem littleEndian_littleBytes {width n : Nat} (h : n < 256 ^ width) :
    littleEndian (littleBytes width n) = n := by
  induction width generalizing n with
  | zero =>
    have hn : n = 0 := by omega
    rw [hn]
    rfl
  | succ width ih =>
    rw [Nat.pow_succ] at h
    rw [littleBytes, littleEndian, ih (by omega), UInt8.toNat_ofNat']
    omega

theorem littleBytes_littleEndian {bytes : List UInt8} :
    littleBytes bytes.length (littleEndian bytes) = bytes := by
  induction bytes with
  | nil => rfl
  | cons b bytes ih =>
    have hb := b.toNat_lt
    have hdiv : (b.toNat + 256 * littleEndian bytes) / 256 = littleEndian bytes := by omega
    rw [List.length_cons, littleEndian, littleBytes, hdiv, ih]
    congr 1
    apply UInt8.toNat_inj.mp
    rw [UInt8.toNat_ofNat']
    omega

end Numbers

end Slices
