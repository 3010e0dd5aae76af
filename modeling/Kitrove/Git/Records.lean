import Kitrove.Git.Advertisement
import Kitrove.Support.Segments
import Mathlib.Data.Finset.Dedup
import Mathlib.Data.Finset.Lattice.Lemmas

/-! The records of an advertisement: their grammar, and what reading them leaves. -/

namespace Kitrove.Git

open Slices

variable {ObjectId : Type} {fromHex : Bytes → Option ObjectId}

section Grammar

/-- A reference as it is advertised. -/
structure AdvertisedRef where
  oid : Bytes
  name : Bytes

def AdvertisedRef.text (ref : AdvertisedRef) : Bytes := ref.oid ++ 0x20 :: ref.name

/-- The record of a remote without references. -/
def AdvertisedRef.Placeholder (ref : AdvertisedRef) : Prop :=
  ref.oid = absentOid ∧ ref.name = placeholderName

variable (fromHex) in
/-- A record with forty characters of an object id and a printable name that is not peeled. -/
structure AdvertisedRef.WellFormed (ref : AdvertisedRef) : Prop where
  oidLength : ref.oid.length = 40
  oidPlain : ∀ b ∈ ref.oid, b ≠ 0x20 ∧ b ≠ 0
  nameNonempty : ref.name ≠ []
  namePrintable : ∀ b ∈ ref.name, printable b = true
  unpeeled : ref.Placeholder ∨ ¬ peeledSuffix <:+ ref.name ∧ (fromHex ref.oid).isSome = true

def WellFormedCapability (capability : Bytes) : Prop :=
  capability ≠ [] ∧ ∀ b ∈ capability, printable b = true

/-- A text with or without a newline behind it. -/
def TextLine (text data : Bytes) : Prop := data = text ∨ data = text ++ ascii "\n"

end Grammar

section Lines

variable {text data : Bytes} {b : UInt8}

theorem printable_ne (h : printable b = true) : b ≠ 0x20 ∧ b ≠ 0 ∧ b ≠ 0x0A := by
  refine ⟨?_, ?_, ?_⟩
  · rintro rfl
    exact Bool.noConfusion h
  · rintro rfl
    exact Bool.noConfusion h
  · rintro rfl
    exact Bool.noConfusion h

/-- Without its newline a line is its text, where the text does not end with one itself. -/
theorem stripLine_eq (hlast : text.getLast? ≠ some 0x0A) :
    (stripSuffix (ascii "\n") data).getD data = text ↔ TextLine text data := by
  unfold stripSuffix
  split
  · rename_i hsuffix
    obtain ⟨rest, rfl⟩ := List.isSuffixOf_iff_suffix.mp hsuffix
    have htake : (rest ++ ascii "\n").take ((rest ++ ascii "\n").length - (ascii "\n").length) = rest := by
      rw [List.length_append, Nat.add_sub_cancel]
      exact List.take_left
    rw [htake, Option.getD_some]
    constructor
    · rintro rfl
      exact .inr rfl
    · rintro (hdata | hdata)
      · refine absurd ?_ hlast
        rw [← hdata, List.getLast?_append]
        rfl
      · exact List.append_cancel_right hdata
  · rename_i hplain
    rw [Option.getD_none]
    constructor
    · rintro rfl
      exact .inl rfl
    · rintro (rfl | rfl)
      · rfl
      · exact absurd (List.isSuffixOf_iff_suffix.mpr ⟨text, rfl⟩) hplain

theorem textLine_stripLine (data : Bytes) :
    TextLine ((stripSuffix (ascii "\n") data).getD data) data := by
  unfold stripSuffix
  split
  · rename_i hsuffix
    obtain ⟨rest, rfl⟩ := List.isSuffixOf_iff_suffix.mp hsuffix
    have htake : (rest ++ ascii "\n").take ((rest ++ ascii "\n").length - (ascii "\n").length) = rest := by
      rw [List.length_append, Nat.add_sub_cancel]
      exact List.take_left
    rw [htake]
    exact .inr rfl
  · exact .inl rfl

theorem getLast_ne_newline {leading rest : Bytes} (hrest : rest ≠ []) (h : ∀ b ∈ rest, b ≠ 0x0A) :
    (leading ++ rest).getLast? ≠ some 0x0A := by
  rw [List.getLast?_append, List.getLast?_eq_some_getLast hrest]
  exact fun hlast => h _ (List.getLast_mem hrest) (Option.some.inj hlast)

end Lines

section Capabilities

theorem takeCapability_eq_ok {capabilities taken : Finset Bytes} {capability : Bytes} :
    takeCapability capabilities capability = .ok taken ↔
      WellFormedCapability capability ∧ capability ∉ capabilities ∧
        taken = insert capability capabilities := by
  unfold takeCapability WellFormedCapability
  split
  · rename_i hrefused
    refine iff_of_false nofun ?_
    rintro ⟨⟨hnonempty, hprintable⟩, hnew, -⟩
    rw [List.isEmpty_eq_false_iff.mpr hnonempty, List.all_eq_true.mpr hprintable,
      decide_eq_false hnew] at hrefused
    exact Bool.noConfusion hrefused
  · rename_i hpassed
    rw [Bool.not_eq_true, Bool.or_eq_false_iff, Bool.or_eq_false_iff, Bool.not_eq_false',
      decide_eq_false_iff_not] at hpassed
    obtain ⟨⟨hnonempty, hprintable⟩, hnew⟩ := hpassed
    rw [and_iff_right ⟨List.isEmpty_eq_false_iff.mp hnonempty, List.all_eq_true.mp hprintable⟩,
      and_iff_right hnew]
    exact ⟨fun h => by cases h; rfl, fun h => by rw [h]; rfl⟩

theorem takeCapability_foldlM {words : List Bytes} {capabilities taken : Finset Bytes} :
    words.foldlM takeCapability capabilities = .ok taken ↔
      (∀ word ∈ words, WellFormedCapability word ∧ word ∉ capabilities) ∧ words.Nodup ∧
        taken = capabilities ∪ words.toFinset := by
  induction words generalizing capabilities with
  | nil =>
    rw [List.foldlM_nil, Except.pure_eq_ok_iff, List.toFinset_nil, Finset.union_empty]
    exact ⟨fun h => ⟨nofun, List.nodup_nil, h.symm⟩, fun h => h.2.2.symm⟩
  | cons word words ih =>
    rw [List.foldlM_cons, Except.bind_eq_ok_iff, List.forall_mem_cons, List.nodup_cons]
    have hunion : insert word capabilities ∪ words.toFinset =
        capabilities ∪ (word :: words).toFinset := by
      rw [List.toFinset_cons, Finset.insert_union, Finset.union_insert]
    constructor
    · rintro ⟨next, hnext, hrest⟩
      obtain ⟨hword, hnew, rfl⟩ := takeCapability_eq_ok.mp hnext
      obtain ⟨hwords, hnodup, rfl⟩ := ih.mp hrest
      refine ⟨⟨⟨hword, hnew⟩, fun other hmem => ⟨(hwords other hmem).1, fun hold => ?_⟩⟩,
        ⟨fun hmem => ?_, hnodup⟩, hunion⟩
      · exact (hwords other hmem).2 (Finset.mem_insert_of_mem hold)
      · exact (hwords word hmem).2 (Finset.mem_insert_self _ _)
    · rintro ⟨⟨⟨hword, hnew⟩, hwords⟩, ⟨hfresh, hnodup⟩, rfl⟩
      refine ⟨_, takeCapability_eq_ok.mpr ⟨hword, hnew, rfl⟩, ih.mpr ⟨fun other hmem => ?_, hnodup,
        hunion.symm⟩⟩
      refine ⟨(hwords other hmem).1, fun hold => ?_⟩
      rcases Finset.mem_insert.mp hold with rfl | hold
      · exact hfresh hmem
      · exact (hwords other hmem).2 hold

end Capabilities

section Refs

variable {state final : AdvertisementState ObjectId} {record : Bytes}
  {ref : AdvertisedRef}

variable (fromHex) in
/-- The head after one more record. -/
def headAfter (selected : Option ObjectId) (ref : AdvertisedRef) : Option ObjectId :=
  if ref.name = fixedRef then fromHex ref.oid else selected

/-- The fixed reference is selected only where its name was noted. -/
def HeadNamed (state : AdvertisementState ObjectId) : Prop :=
  state.selected.isSome = true → fixedRef ∈ state.names

theorem selectHead_eq_ok {selected chosen : Option ObjectId}
    (hselected : ref.name = fixedRef → selected = none) :
    selectHead fromHex selected ref.oid ref.name = .ok chosen ↔
      (ref.Placeholder ∨ ¬ peeledSuffix <:+ ref.name ∧ (fromHex ref.oid).isSome = true) ∧
        chosen = headAfter fromHex selected ref := by
  have hfixed : placeholderName ≠ fixedRef := by decide
  unfold selectHead headAfter
  split
  · rename_i hplaceholder
    have hother : ref.name ≠ fixedRef := hplaceholder.2 ▸ hfixed
    rw [if_neg hother, and_iff_right (.inl hplaceholder), Except.pure_eq_ok_iff, eq_comm]
  · rename_i hplaceholder
    split
    · rename_i hpeeled
      refine iff_of_false nofun ?_
      rintro ⟨hplaced | ⟨hplain, -⟩, -⟩
      · exact hplaceholder hplaced
      · exact hplain (List.isSuffixOf_iff_suffix.mp hpeeled)
    · rename_i hplain
      cases hid : fromHex ref.oid with
      | none =>
        refine iff_of_false nofun ?_
        rintro ⟨hplaced | ⟨-, hsome⟩, -⟩
        · exact hplaceholder hplaced
        · exact (nomatch hsome)
      | some id =>
        have hok : ref.Placeholder ∨ ¬ peeledSuffix <:+ ref.name ∧ (some id).isSome = true :=
          .inr ⟨fun hpeeled => hplain (List.isSuffixOf_iff_suffix.mpr hpeeled), rfl⟩
        rw [and_iff_right hok]
        change (if ref.name ≠ fixedRef then _ else _) = _ ↔ _
        by_cases hname : ref.name = fixedRef
        · rw [if_neg (not_not.mpr hname), if_pos hname, hselected hname]
          exact ⟨fun h => (Except.ok.inj h).symm, fun h => by rw [h]; rfl⟩
        · rw [if_pos hname, if_neg hname, Except.pure_eq_ok_iff, eq_comm]

theorem findIdx_space {separator : Nat} (h : record.findIdx? (· == 0x20) = some separator) :
    ∃ oid name, record = oid ++ 0x20 :: name ∧ 0x20 ∉ oid ∧ oid.length = separator := by
  obtain ⟨hlt, hsep, hbefore⟩ := List.findIdx?_eq_some_iff_getElem.mp h
  refine ⟨record.take separator, record.drop (separator + 1), ?_, fun hmem => ?_, ?_⟩
  · have hb : record[separator] = 0x20 := beq_iff_eq.mp hsep
    rw [← hb, ← List.drop_eq_getElem_cons hlt, List.take_append_drop]
  · obtain ⟨i, hi, hget⟩ := List.mem_take_iff_getElem.mp hmem
    have hne := hbefore i (by omega)
    rw [hget] at hne
    exact absurd rfl hne
  · rw [List.length_take]
    omega

theorem findIdx_append {oid name : Bytes} (h : 0x20 ∉ oid) :
    (oid ++ 0x20 :: name).findIdx? (· == 0x20) = some oid.length := by
  have hnone : oid.findIdx? (· == 0x20) = none := by
    refine List.findIdx?_eq_none_iff.mpr fun b hb => beq_eq_false_iff_ne.mpr ?_
    rintro rfl
    exact h hb
  have hhead : (0x20 :: name).findIdx? (· == 0x20) = some 0 := by
    rw [List.findIdx?_cons]
    rfl
  rw [List.findIdx?_append, hnone, hhead, Option.none_or, Option.map_some, Nat.zero_add]

/-- A record without a zero byte is taken exactly when it is a well-formed one with a new name. -/
theorem takeRecord_eq_ok (hhead : HeadNamed state) (hnul : 0 ∉ record) :
    takeRecord fromHex state record = .ok final ↔ ∃ ref : AdvertisedRef, record = ref.text ∧
      ref.WellFormed fromHex ∧ ref.name ∉ state.names ∧
        final = { state with
          names := insert ref.name state.names
          selected := headAfter fromHex state.selected ref } := by
  have hunselected {ref : AdvertisedRef} (hnew : ref.name ∉ state.names)
      (hname : ref.name = fixedRef) : state.selected = none := by
    rw [← Option.not_isSome_iff_eq_none]
    exact fun hsome => hnew (hname ▸ hhead hsome)
  unfold takeRecord
  rw [Except.bind_eq_ok_iff]
  constructor
  · rintro ⟨separator, hseparator, h⟩
    obtain ⟨oid, name, rfl, hspace, rfl⟩ := findIdx_space (okOr_eq_ok.mp hseparator)
    obtain ⟨oid', hoid, hbehind⟩ := Except.bind_eq_ok_iff.mp h
    obtain ⟨rest, hrest, hnamed⟩ := Except.bind_eq_ok_iff.mp hbehind
    obtain ⟨name', hname, hchecked⟩ := Except.bind_eq_ok_iff.mp hnamed
    clear h hbehind hnamed
    have hoid' : oid' = oid := by
      rw [← (slice_eq_ok.mp hoid).2, Slices.cut, List.drop_zero, Nat.sub_zero, List.take_left]
    have hrest' : rest = 0x20 :: name := by
      rw [← (slice_eq_ok.mp hrest).2, Slices.cut, List.drop_left, List.length_append, Nat.add_sub_cancel_left,
        List.take_length]
    subst hrest'
    have hname' : name' = name := by
      rw [← (slice_eq_ok.mp hname).2, Slices.cut, List.drop_succ_cons, List.drop_zero, List.length_cons,
        Nat.add_sub_cancel, List.take_length]
    subst hoid' hname'
    split at hchecked
    · cases hchecked
    · rename_i hpassed
      rw [Bool.not_eq_true, Bool.or_eq_false_iff, Bool.or_eq_false_iff, Bool.or_eq_false_iff,
        Bool.not_eq_false', decide_eq_false_iff_not, decide_eq_false_iff_not, not_not] at hpassed
      obtain ⟨⟨⟨hlength, hnonempty⟩, hprintable⟩, hnew⟩ := hpassed
      obtain ⟨selected, hselected, hfinal⟩ := Except.bind_eq_ok_iff.mp hchecked
      cases hfinal
      obtain ⟨hplaced, rfl⟩ :=
        (@selectHead_eq_ok _ _ ⟨oid', name'⟩ _ _ (hunselected hnew)).mp hselected
      refine ⟨⟨oid', name'⟩, rfl, ⟨hlength, fun b hb => ⟨?_, ?_⟩,
        List.isEmpty_eq_false_iff.mp hnonempty, List.all_eq_true.mp hprintable, hplaced⟩, hnew, rfl⟩
      · rintro rfl
        exact hspace hb
      · rintro rfl
        exact hnul (List.mem_append_left _ hb)
  · rintro ⟨ref, rfl, hformed, hnew, rfl⟩
    have hspace : 0x20 ∉ ref.oid := fun hb => (hformed.oidPlain _ hb).1 rfl
    refine ⟨ref.oid.length, okOr_eq_ok.mpr (findIdx_append hspace), ?_⟩
    have hoid : Slices.slice ref.text 0 ref.oid.length = (.ok ref.oid : Checked BackendError Bytes) := by
      refine slice_eq_ok.mpr ⟨⟨Nat.zero_le _, ?_⟩, ?_⟩
      · rw [AdvertisedRef.text, List.length_append]
        omega
      · rw [AdvertisedRef.text, Slices.cut, List.drop_zero, Nat.sub_zero, List.take_left]
    have hrest : Slices.slice ref.text ref.oid.length ref.text.length =
        (.ok (0x20 :: ref.name) : Checked BackendError Bytes) := by
      refine slice_eq_ok.mpr ⟨⟨?_, Nat.le_refl _⟩, ?_⟩
      · rw [AdvertisedRef.text, List.length_append]
        omega
      · rw [AdvertisedRef.text, Slices.cut, List.drop_left, List.length_append, Nat.add_sub_cancel_left,
          List.take_length]
    have hname : Slices.slice (0x20 :: ref.name) 1 (0x20 :: ref.name).length =
        (.ok ref.name : Checked BackendError Bytes) := by
      refine slice_eq_ok.mpr ⟨⟨by rw [List.length_cons]; omega, Nat.le_refl _⟩, ?_⟩
      rw [Slices.cut, List.drop_succ_cons, List.drop_zero, List.length_cons, Nat.add_sub_cancel,
        List.take_length]
    refine Except.bind_eq_ok_iff.mpr ⟨_, hoid, Except.bind_eq_ok_iff.mpr ⟨_, hrest,
      Except.bind_eq_ok_iff.mpr ⟨_, hname, ?_⟩⟩⟩
    rw [if_neg]
    · exact Except.bind_eq_ok_iff.mpr ⟨_, (selectHead_eq_ok (hunselected hnew)).mpr
        ⟨hformed.unpeeled, rfl⟩, rfl⟩
    · rw [hformed.oidLength, List.isEmpty_eq_false_iff.mpr hformed.nameNonempty,
        List.all_eq_true.mpr hformed.namePrintable, decide_eq_false hnew]
      exact Bool.noConfusion

end Refs

end Kitrove.Git
