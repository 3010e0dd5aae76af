import Kitrove.Receipts.Inspection
import Mathlib.Data.Finset.Card

/-! Which receipts the claims of one destination put in conflict: exactly those that cannot stand
beside another one. -/

namespace Kitrove

open Std

/-- Two receipts that cannot both own what they claim. -/
def ConflictingClaims (a b : InspectedReceipt) : Prop :=
  a.receipt.destination = b.receipt.destination ∧
    (a.receipt.target = .wholeTarget ∨ b.receipt.target = .wholeTarget ∨
      a.receipt.target ≠ b.receipt.target ∨ a.region = b.region)

theorem ConflictingClaims.symm {a b : InspectedReceipt} (h : ConflictingClaims a b) :
    ConflictingClaims b a := by
  obtain ⟨hdestination, h⟩ := h
  refine ⟨hdestination.symm, ?_⟩
  rcases h with h | h | h | h
  · exact .inr (.inl h)
  · exact .inl h
  · exact .inr (.inr (.inl h.symm))
  · exact .inr (.inr (.inr h.symm))

section Lists

variable {α : Type} [DecidableEq α] {xs : List α}

theorem one_lt_length_dedup : 1 < xs.dedup.length ↔ ∃ a ∈ xs, ∃ b ∈ xs, a ≠ b := by
  rw [← List.card_toFinset, Finset.one_lt_card]
  simp only [List.mem_toFinset]

theorem exists_ne_of_length {a : α} (hxs : xs.Nodup) (ha : a ∈ xs) :
    2 ≤ xs.length ↔ ∃ b ∈ xs, b ≠ a := by
  have hcard : xs.toFinset.card = xs.length := List.toFinset_card_of_nodup hxs
  rw [← hcard]
  constructor
  · intro h
    obtain ⟨b, hb, hne⟩ := Finset.exists_mem_ne h a
    exact ⟨b, List.mem_toFinset.mp hb, hne⟩
  · rintro ⟨b, hb, hne⟩
    exact Finset.one_lt_card.mpr
      ⟨b, List.mem_toFinset.mpr hb, a, List.mem_toFinset.mpr ha, hne⟩

/-- A value that two elements of a list have is counted twice. -/
theorem one_lt_count_map {β : Type} [BEq β] [LawfulBEq β] {f : α → β} {a : α} (hxs : xs.Nodup)
    (ha : a ∈ xs) : 1 < (xs.map f).count (f a) ↔ ∃ b ∈ xs, b ≠ a ∧ f b = f a := by
  have hcount : (xs.map f).count (f a) = (xs.filter fun b => f b == f a).length := by
    rw [List.count, List.countP_map, List.countP_eq_length_filter]
    rfl
  have hmem : a ∈ xs.filter fun b => f b == f a := List.mem_filter.mpr ⟨ha, beq_self_eq_true _⟩
  rw [hcount]
  refine (exists_ne_of_length (hxs.filter _) hmem).trans ?_
  simp only [List.mem_filter, beq_iff_eq]
  constructor
  · rintro ⟨b, ⟨hb, hf⟩, hne⟩
    exact ⟨b, hb, hne, hf⟩
  · rintro ⟨b, hb, hne, hf⟩
    exact ⟨b, ⟨hb, hf⟩, hne⟩

end Lists

section Group

variable {records : List InspectedReceipt} {id : ReceiptId}

/-- Among the receipts of one destination the conflicting ones are those that a pair is about. -/
theorem mem_claimConflicts (hrecords : records.Nodup)
    (hsame : ∀ a ∈ records, ∀ b ∈ records, a.receipt.destination = b.receipt.destination) :
    id ∈ claimConflicts (records.map InspectedReceipt.claim) ↔
      ∃ a ∈ records, a.receiptId = id ∧ ∃ b ∈ records, b ≠ a ∧ ConflictingClaims a b := by
  have hids : ∀ {id}, id ∈ (records.map InspectedReceipt.claim).map DestinationClaim.receiptId ↔
      ∃ a ∈ records, a.receiptId = id := by
    intro id
    simp only [List.map_map, List.mem_map, Function.comp_apply]
    rfl
  unfold claimConflicts
  rw [List.length_map]
  by_cases hshort : records.length < 2
  · rw [if_pos hshort]
    refine iff_of_false List.not_mem_nil ?_
    rintro ⟨a, ha, -, b, hb, hne, -⟩
    have htwo := (exists_ne_of_length hrecords ha).mpr ⟨b, hb, hne⟩
    omega
  rw [if_neg hshort]
  have hother : ∀ a ∈ records, ∃ b ∈ records, b ≠ a := fun a ha =>
    (exists_ne_of_length hrecords ha).mp (by omega)
  by_cases hwhole : ∃ w ∈ records, w.receipt.target = .wholeTarget
  · have hany : (records.map InspectedReceipt.claim).any
        (fun claim => claim.target = .wholeTarget) = true := by
      obtain ⟨w, hw, htarget⟩ := hwhole
      refine List.any_eq_true.mpr ⟨w.claim, List.mem_map_of_mem hw, ?_⟩
      exact decide_eq_true htarget
    rw [if_pos hany, hids]
    refine ⟨?_, fun ⟨a, ha, hid, _⟩ => ⟨a, ha, hid⟩⟩
    rintro ⟨a, ha, hid⟩
    refine ⟨a, ha, hid, ?_⟩
    obtain ⟨w, hw, htarget⟩ := hwhole
    by_cases haw : w = a
    · obtain ⟨b, hb, hne⟩ := hother a ha
      exact ⟨b, hb, hne, hsame a ha b hb, .inl (haw ▸ htarget)⟩
    · exact ⟨w, hw, haw, hsame a ha w hw, .inr (.inl htarget)⟩
  have hany : ¬ (records.map InspectedReceipt.claim).any
      (fun claim => claim.target = .wholeTarget) = true := by
    intro h
    obtain ⟨claim, hclaim, htarget⟩ := List.any_eq_true.mp h
    obtain ⟨w, hw, rfl⟩ := List.mem_map.mp hclaim
    exact hwhole ⟨w, hw, of_decide_eq_true htarget⟩
  rw [if_neg hany]
  by_cases hkinds : ∃ b ∈ records, ∃ c ∈ records, b.receipt.target ≠ c.receipt.target
  · have hlength : ((records.map InspectedReceipt.claim).map DestinationClaim.target).dedup.length
        > 1 := by
      obtain ⟨b, hb, c, hc, hne⟩ := hkinds
      exact one_lt_length_dedup.mpr ⟨_, List.mem_map_of_mem (List.mem_map_of_mem hb), _,
        List.mem_map_of_mem (List.mem_map_of_mem hc), hne⟩
    rw [if_pos hlength, hids]
    refine ⟨?_, fun ⟨a, ha, hid, _⟩ => ⟨a, ha, hid⟩⟩
    rintro ⟨a, ha, hid⟩
    refine ⟨a, ha, hid, ?_⟩
    obtain ⟨b, hb, c, hc, hne⟩ := hkinds
    -- one of the two kinds is not that of the receipt
    have hdiffers : ∃ d ∈ records, a.receipt.target ≠ d.receipt.target := by
      by_cases hab : a.receipt.target = b.receipt.target
      · exact ⟨c, hc, hab ▸ hne⟩
      · exact ⟨b, hb, hab⟩
    obtain ⟨d, hd, hda⟩ := hdiffers
    exact ⟨d, hd, fun h => hda (h ▸ rfl), hsame a ha d hd, .inr (.inr (.inl hda))⟩
  have hlength : ¬ ((records.map InspectedReceipt.claim).map
      DestinationClaim.target).dedup.length > 1 := by
    intro h
    obtain ⟨b, hb, c, hc, hne⟩ := one_lt_length_dedup.mp h
    obtain ⟨claim, hclaim, rfl⟩ := List.mem_map.mp hb
    obtain ⟨d, hd, rfl⟩ := List.mem_map.mp hclaim
    obtain ⟨claim, hclaim, rfl⟩ := List.mem_map.mp hc
    obtain ⟨e, he, rfl⟩ := List.mem_map.mp hclaim
    exact hkinds ⟨d, hd, e, he, hne⟩
  rw [if_neg hlength]
  dsimp only
  have hregions : (records.map InspectedReceipt.claim).map DestinationClaim.region =
      records.map InspectedReceipt.region := by
    rw [List.map_map]
    rfl
  rw [hregions]
  constructor
  · intro h
    obtain ⟨claim, hclaim, rfl⟩ := List.mem_map.mp h
    obtain ⟨hmem, hcount⟩ := List.mem_filter.mp hclaim
    obtain ⟨a, ha, rfl⟩ := List.mem_map.mp hmem
    have hcount : 1 < (records.map InspectedReceipt.region).count a.region :=
      of_decide_eq_true hcount
    obtain ⟨b, hb, hne, hregion⟩ := (one_lt_count_map hrecords ha).mp hcount
    exact ⟨a, ha, rfl, b, hb, hne, hsame a ha b hb, .inr (.inr (.inr hregion.symm))⟩
  · rintro ⟨a, ha, rfl, b, hb, hne, -, hclash⟩
    have hregion : b.region = a.region := by
      rcases hclash with h | h | h | h
      · exact absurd ⟨a, ha, h⟩ hwhole
      · exact absurd ⟨b, hb, h⟩ hwhole
      · exact absurd ⟨a, ha, b, hb, h⟩ hkinds
      · exact h.symm
    refine List.mem_map.mpr ⟨a.claim, List.mem_filter.mpr ⟨List.mem_map_of_mem ha, ?_⟩, rfl⟩
    have hcount := (one_lt_count_map hrecords ha).mpr ⟨b, hb, hne, hregion⟩
    exact decide_eq_true_iff.mpr hcount

end Group

section Accumulation

variable {records : List InspectedReceipt}

/-- The claims that are found at a destination are those of the receipts that claim it. -/
theorem getElem?_pushClaims {claims : OrdMap NormalizedDestination (List DestinationClaim)}
    {destination : NormalizedDestination} :
    (records.foldl pushClaim claims)[destination]?.getD [] = claims[destination]?.getD [] ++
      (records.filter fun r => r.receipt.destination = destination).map InspectedReceipt.claim := by
  induction records generalizing claims with
  | nil => rw [List.foldl_nil, List.filter_nil, List.map_nil, List.append_nil]
  | cons record records ih =>
    rw [List.foldl_cons, ih, pushClaim]
    by_cases h : record.receipt.destination = destination
    · have hfilter : (record :: records).filter (fun r => r.receipt.destination = destination) =
          record :: records.filter fun r => r.receipt.destination = destination :=
        List.filter_cons_of_pos (decide_eq_true h)
      rw [hfilter, List.map_cons, h, ExtTreeMap.getElem?_insert_self, Option.getD_some,
        List.append_assoc, List.singleton_append]
    · have hne : compare record.receipt.destination destination ≠ .eq := fun heq =>
        h (LawfulEqCmp.eq_of_compare heq)
      rw [List.filter_cons_of_neg (by rwa [decide_eq_true_eq]), ExtTreeMap.getElem?_insert,
        if_neg hne]

theorem mem_insertAll {ids : List ReceiptId} {conflicts : OrdSet ReceiptId} {id : ReceiptId} :
    id ∈ ids.foldl (fun conflicts id => conflicts.insert id) conflicts ↔ id ∈ conflicts ∨ id ∈ ids := by
  induction ids generalizing conflicts with
  | nil => simp
  | cons first ids ih =>
    rw [List.foldl_cons, ih, ExtTreeSet.mem_insert, List.mem_cons, Std.compare_eq_iff_eq, eq_comm]
    tauto

theorem mem_foldl_conflicts {groups : List (List DestinationClaim)} {conflicts : OrdSet ReceiptId}
    {id : ReceiptId} :
    id ∈ groups.foldl (fun conflicts claims =>
        (claimConflicts claims).foldl (fun conflicts id => conflicts.insert id) conflicts) conflicts ↔
      id ∈ conflicts ∨ ∃ claims ∈ groups, id ∈ claimConflicts claims := by
  induction groups generalizing conflicts with
  | nil => simp
  | cons claims groups ih =>
    rw [List.foldl_cons, ih, mem_insertAll, or_assoc, List.exists_mem_cons_iff]

/-- The conflicts over all destinations are those between two of the receipts. -/
theorem mem_destinationConflicts (hrecords : records.Nodup) {id : ReceiptId} :
    id ∈ destinationConflicts records ↔
      ∃ a ∈ records, a.receiptId = id ∧ ∃ b ∈ records, b ≠ a ∧ ConflictingClaims a b := by
  have hgroup : ∀ destination : NormalizedDestination,
      (records.foldl pushClaim ∅)[destination]?.getD [] =
        (records.filter fun r => r.receipt.destination = destination).map InspectedReceipt.claim := by
    intro destination
    rw [getElem?_pushClaims, ExtTreeMap.getElem?_empty]
    rfl
  have hmember : ∀ destination : NormalizedDestination,
      id ∈ claimConflicts ((records.filter fun r => r.receipt.destination = destination).map
        InspectedReceipt.claim) ↔ ∃ a ∈ records, a.receipt.destination = destination ∧
          a.receiptId = id ∧ ∃ b ∈ records, b ≠ a ∧ ConflictingClaims a b := by
    intro destination
    rw [mem_claimConflicts (hrecords.filter _)]
    · simp only [List.mem_filter, decide_eq_true_eq]
      constructor
      · rintro ⟨a, ⟨ha, hd⟩, hid, b, ⟨hb, -⟩, hne, hclash⟩
        exact ⟨a, ha, hd, hid, b, hb, hne, hclash⟩
      · rintro ⟨a, ha, hd, hid, b, hb, hne, hclash⟩
        exact ⟨a, ⟨ha, hd⟩, hid, b, ⟨hb, hclash.1.symm.trans hd⟩, hne, hclash⟩
    · intro a ha b hb
      simp only [List.mem_filter, decide_eq_true_eq] at ha hb
      exact ha.2.trans hb.2.symm
  rw [destinationConflicts, mem_foldl_conflicts]
  constructor
  · rintro (h | ⟨claims, hclaims, hid⟩)
    · exact absurd h ExtTreeSet.not_mem_empty
    · obtain ⟨destination, hget⟩ := OrdMap.mem_values.mp hclaims
      have hclaimsEq := hgroup destination
      rw [hget, Option.getD_some] at hclaimsEq
      rw [hclaimsEq] at hid
      obtain ⟨a, ha, -, hrest⟩ := (hmember destination).mp hid
      exact ⟨a, ha, hrest⟩
  · rintro ⟨a, ha, hid, hrest⟩
    right
    have hclaims := (hmember a.receipt.destination).mpr ⟨a, ha, rfl, hid, hrest⟩
    rw [← hgroup] at hclaims
    cases hget : (records.foldl pushClaim ∅)[a.receipt.destination]? with
    | none =>
      rw [hget, Option.getD_none] at hclaims
      exact absurd hclaims (by simp [claimConflicts])
    | some claims =>
      rw [hget, Option.getD_some] at hclaims
      exact ⟨claims, OrdMap.mem_values.mpr ⟨_, hget⟩, hclaims⟩

/-- Each conflicting receipt is demoted, whichever comes first. -/
theorem foldl_demoteRecord {conflicts : OrdSet ReceiptId} {sides : ReceiptInspection}
    (hids : (records.map InspectedReceipt.receiptId).Nodup) :
    (records.foldl demoteRecord (conflicts, sides)).2 =
      ⟨sides.valid ++ records.filter fun r => r.receiptId ∉ conflicts,
        sides.invalid ++
          (records.filter fun r => r.receiptId ∈ conflicts).map conflictingReceipt⟩ := by
  induction records generalizing conflicts sides with
  | nil => simp
  | cons record records ih =>
    obtain ⟨hnew, hids⟩ := List.nodup_cons.mp hids
    rw [List.foldl_cons, demoteRecord]
    by_cases hmem : record.receiptId ∈ conflicts
    · rw [if_pos hmem, ih hids]
      have hsame : ∀ r ∈ records, r.receiptId ∈ conflicts.erase record.receiptId ↔
          r.receiptId ∈ conflicts := by
        intro r hr
        have hne : record.receiptId ≠ r.receiptId := fun h =>
          hnew (h ▸ List.mem_map_of_mem hr)
        rw [ExtTreeSet.mem_erase, ne_eq, Std.compare_eq_iff_eq]
        exact and_iff_right hne
      rw [List.filter_cons_of_neg (by simpa using hmem), List.filter_cons_of_pos (by simpa using hmem),
        List.map_cons]
      have hkept : (records.filter fun r => r.receiptId ∉ conflicts.erase record.receiptId) =
          records.filter fun r => r.receiptId ∉ conflicts :=
        List.filter_congr fun r hr => by simp only [hsame r hr]
      have hdemoted : (records.filter fun r => r.receiptId ∈ conflicts.erase record.receiptId) =
          records.filter fun r => r.receiptId ∈ conflicts :=
        List.filter_congr fun r hr => by simp only [hsame r hr]
      rw [hkept, hdemoted, List.append_assoc, List.singleton_append]
    · rw [if_neg hmem, ih hids, List.filter_cons_of_pos (by simpa using hmem),
        List.filter_cons_of_neg (by simpa using hmem)]
      simp

end Accumulation

end Kitrove
