import Kitrove.Backend.Replacement

/-! The history that a pointer selects: what the walk along the heads accepts. -/

namespace Kitrove

open Crash Except BackendError

section Reading

variable {texts : Files} {path : PortablePath} {remaining rest : Nat} {text : Bytes}
  {limits : SyncLimits}

theorem readBudgetedText_some : readBudgetedText texts path remaining = .ok (some text, rest) ↔
    texts path = some text ∧ text.length ≤ remaining ∧ rest = remaining - text.length := by
  unfold readBudgetedText Files.readText charge
  cases htext : texts path with
  | none => simp
  | some found =>
    by_cases hlen : found.length ≤ remaining
    · simp only [hlen, Option.all_some, decide_true, if_true, bind_eq_ok_iff, ok.injEq,
        pure_eq_ok_iff, Prod.mk.injEq, Option.some.injEq, exists_eq_left', eq_comm (a := rest)]
      constructor
      · rintro ⟨rfl, rfl⟩
        exact ⟨rfl, hlen, rfl⟩
      · rintro ⟨rfl, -, rfl⟩
        exact ⟨rfl, rfl⟩
    · simp only [hlen, Option.all_some, decide_false, Bool.false_eq_true, if_false, Option.some.injEq,
        reduceCtorEq, false_iff]
      rintro ⟨rfl, h, -⟩
      exact hlen h

theorem readBudgetedText_none : readBudgetedText texts path remaining = .ok (none, rest) ↔
    texts path = none ∧ rest = remaining := by
  unfold readBudgetedText Files.readText charge
  cases htext : texts path with
  | none => simp [eq_comm]
  | some found =>
    by_cases hlen : found.length ≤ remaining <;> simp [hlen]

theorem checkedSucc_eq_some {m n : UInt64} : checkedSucc m = some n ↔ m.toNat + 1 = n.toNat := by
  unfold checkedSucc
  have hn := n.toNat_lt
  split
  · rename_i hlt
    rw [Option.some.injEq, ← UInt64.toNat_inj, UInt64.toNat_add, UInt64.toNat_one,
      Nat.mod_eq_of_lt hlt]
  · rename_i hge
    simp only [reduceCtorEq, false_iff]
    omega

end Reading

section Chain

variable (blake3 : Bytes → Digest) (codec : ControlCodec)

/-- A head as it lies at its path. -/
structure HeadAt (texts : Files) (path : PortablePath) (revision : RemoteRevision) (head : Head)
    (text : Bytes) : Prop where
  read : texts path = some text
  parsed : parseCanonical codec.encodeHead codec.decodeHead text = .ok head
  version : head.schemaVersion = 1
  revision : headRevision blake3 text = .ok revision
  path : headPath blake3 head text = .ok path

/-- Whether a head is the one that its child names as the one before it. -/
def LinkedTo (child : Option Head) (path : PortablePath) (revision : RemoteRevision)
    (head : Head) : Prop :=
  ∀ next, child = some next → next.priorHeadPath = some path ∧
    next.priorGeneration = some head.generation ∧ next.priorRevision = revision ∧
    checkedSucc head.generation = some next.generation

/-- The heads on disk from a path back to the first one, and the bytes of their texts. -/
inductive Chain (texts : Files) :
    Option Head → PortablePath → RemoteRevision → List HistoryEntry → Nat → Prop
  | first {child : Option Head} {path : PortablePath} {revision : RemoteRevision} {head : Head}
      {text : Bytes} : HeadAt blake3 codec texts path revision head text →
      LinkedTo child path revision head → priorOf head = .ok none →
      Chain texts child path revision [⟨revision, head⟩] text.length
  | next {child : Option Head} {path prior : PortablePath} {revision : RemoteRevision}
      {head : Head} {text : Bytes} {entries : List HistoryEntry} {bytes : Nat} :
      HeadAt blake3 codec texts path revision head text →
      LinkedTo child path revision head → priorOf head = .ok (some prior) →
      Chain texts (some head) prior head.priorRevision entries bytes →
      Chain texts child path revision (⟨revision, head⟩ :: entries) (text.length + bytes)

end Chain

section Walk

variable {blake3 : Bytes → Digest} {codec : ControlCodec} {texts : Files} {limits : SyncLimits}
  {cursor : Cursor} {head : Head} {entries : List HistoryEntry} {rest n : Nat} {text : Bytes}

theorem requireLinked_eq_ok : requireLinked cursor head = .ok () ↔
    LinkedTo cursor.child cursor.path cursor.revision head := by
  unfold requireLinked LinkedTo
  cases cursor.child with
  | none => simp
  | some child =>
    simp only [Option.some.injEq, forall_eq', refuseIf_eq_ok, Bool.or_eq_false_iff,
      decide_eq_false_iff_not, ne_eq, not_not, and_assoc]

theorem parseHead_eq_ok : parseHead codec text limits = .ok head ↔
    text.length ≤ limits.maxControlBytes.toNat ∧
      parseCanonical codec.encodeHead codec.decodeHead text = .ok head ∧
      head.schemaVersion = 1 := by
  unfold parseHead
  rw [refuseIf_bind_eq_ok, decide_eq_false_iff_not, gt_iff_lt, Nat.not_lt, bind_eq_ok_iff]
  simp only [refuseIf_bind_eq_ok, pure_eq_ok_iff, decide_eq_false_iff_not, ne_eq, not_not]
  constructor
  · rintro ⟨hlen, head', hparsed, hversion, rfl⟩
    exact ⟨hlen, hparsed, hversion⟩
  · rintro ⟨hlen, hparsed, hversion⟩
    exact ⟨hlen, head, hparsed, hversion, rfl⟩

theorem readHead_eq_ok (hlimit : cursor.remaining ≤ limits.maxControlBytes.toNat) :
    readHead blake3 codec texts limits cursor = .ok (head, rest) ↔
      cursor.revision ∉ cursor.seen ∧ ∃ text,
        HeadAt blake3 codec texts cursor.path cursor.revision head text ∧
        LinkedTo cursor.child cursor.path cursor.revision head ∧
        text.length ≤ cursor.remaining ∧ rest = cursor.remaining - text.length := by
  unfold readHead
  rw [refuseIf_bind_eq_ok, List.contains_eq_mem, decide_eq_false_iff_not, bind_eq_ok_iff]
  constructor
  · rintro ⟨hseen, ⟨found, left⟩, hread, h⟩
    cases found with
    | none => contradiction
    | some text =>
      obtain ⟨htext, hlen, rfl⟩ := readBudgetedText_some.mp hread
      obtain ⟨head', hparse, h⟩ := bind_eq_ok_iff.mp h
      obtain ⟨revision, hrevision, h⟩ := bind_eq_ok_iff.mp h
      obtain ⟨path, hpath, h⟩ := bind_eq_ok_iff.mp h
      obtain ⟨hsame, h⟩ := refuseIf_bind_eq_ok.mp h
      obtain ⟨⟨⟩, hlinked, h⟩ := bind_eq_ok_iff.mp h
      rw [pure_eq_ok_iff, Prod.mk.injEq] at h
      obtain ⟨rfl, rfl⟩ := h
      simp only [Bool.or_eq_false_iff, decide_eq_false_iff_not, ne_eq, not_not] at hsame
      obtain ⟨rfl, rfl⟩ := hsame
      obtain ⟨-, hparsed, hversion⟩ := parseHead_eq_ok.mp hparse
      exact ⟨hseen, text, ⟨htext, hparsed, hversion, hrevision, hpath⟩,
        requireLinked_eq_ok.mp hlinked, hlen, rfl⟩
  · rintro ⟨hseen, text, hat, hlinked, hlen, rfl⟩
    refine ⟨hseen, _, readBudgetedText_some.mpr ⟨hat.read, hlen, rfl⟩, ?_⟩
    have hparse := parseHead_eq_ok.mpr ⟨hlen.trans hlimit, hat.parsed, hat.version⟩
    refine bind_eq_ok_iff.mpr ⟨head, hparse, ?_⟩
    refine bind_eq_ok_iff.mpr ⟨_, hat.revision, ?_⟩
    refine bind_eq_ok_iff.mpr ⟨_, hat.path, ?_⟩
    refine refuseIf_bind_eq_ok.mpr ⟨by simp, ?_⟩
    exact bind_eq_ok_iff.mpr ⟨⟨⟩, requireLinked_eq_ok.mpr hlinked, rfl⟩

/-- What the walk along the heads accepts. -/
theorem followChain_eq_ok (hlimit : cursor.remaining ≤ limits.maxControlBytes.toNat) :
    followChain blake3 codec texts limits (n + 1) cursor = .ok entries ↔
      ∃ bytes, Chain blake3 codec texts cursor.child cursor.path cursor.revision entries bytes ∧
        entries.length ≤ n + 1 ∧ (entries.map HistoryEntry.revision).Nodup ∧
        (∀ entry ∈ entries, entry.revision ∉ cursor.seen) ∧ bytes ≤ cursor.remaining := by
  induction n generalizing cursor entries with
  | zero =>
    rw [followChain, bind_eq_ok_iff]
    constructor
    · rintro ⟨⟨head, rest⟩, hread, h⟩
      obtain ⟨hseen, text, hat, hlinked, hlen, rfl⟩ := (readHead_eq_ok hlimit).mp hread
      obtain ⟨prior, hprior, h⟩ := bind_eq_ok_iff.mp h
      cases prior with
      | none =>
        rw [pure_eq_ok_iff] at h
        subst h
        exact ⟨text.length, .first hat hlinked hprior, by simp, by simp, by simpa using hseen, hlen⟩
      | some prior => simp [refuseIf_true_bind] at h
    · rintro ⟨bytes, hchain, hlength, hnodup, hseen, hbytes⟩
      cases hchain with
      | @first _ _ _ head text hat hlinked hprior =>
        have hread : readHead blake3 codec texts limits cursor =
            .ok (head, cursor.remaining - text.length) := (readHead_eq_ok hlimit).mpr
          ⟨hseen _ List.mem_cons_self, text, hat, hlinked, hbytes, rfl⟩
        exact ⟨_, hread, bind_eq_ok_iff.mpr ⟨none, hprior, rfl⟩⟩
      | next hat hlinked hprior hrest =>
        cases hrest <;> simp at hlength
  | succ n ih =>
    rw [followChain, bind_eq_ok_iff]
    constructor
    · rintro ⟨⟨head, rest⟩, hread, h⟩
      obtain ⟨hseen, text, hat, hlinked, hlen, rfl⟩ := (readHead_eq_ok hlimit).mp hread
      obtain ⟨prior, hprior, h⟩ := bind_eq_ok_iff.mp h
      cases prior with
      | none =>
        rw [pure_eq_ok_iff] at h
        subst h
        exact ⟨text.length, .first hat hlinked hprior, by simp, by simp, by simpa using hseen, hlen⟩
      | some prior =>
        obtain ⟨-, h⟩ := refuseIf_bind_eq_ok.mp h
        obtain ⟨others, hothers, h⟩ := bind_eq_ok_iff.mp h
        rw [pure_eq_ok_iff] at h
        subst h
        obtain ⟨bytes, hchain, hlength, hnodup, hnew, hbytes⟩ :=
          (ih ((Nat.sub_le _ _).trans hlimit)).mp hothers
        simp only [List.mem_cons, not_or] at hnew hbytes
        refine ⟨text.length + bytes, .next hat hlinked hprior hchain, ?_, ?_, ?_, ?_⟩
        · simpa using hlength
        · rw [List.map_cons, List.nodup_cons]
          refine ⟨fun hmem => ?_, hnodup⟩
          obtain ⟨entry, hentry, he⟩ := List.mem_map.mp hmem
          exact (hnew entry hentry).1 he
        · rw [List.forall_mem_cons]
          exact ⟨hseen, fun entry hentry => (hnew entry hentry).2⟩
        · omega
    · rintro ⟨bytes, hchain, hlength, hnodup, hseen, hbytes⟩
      cases hchain with
      | @first _ _ _ head text hat hlinked hprior =>
        have hread : readHead blake3 codec texts limits cursor =
            .ok (head, cursor.remaining - text.length) := (readHead_eq_ok hlimit).mpr
          ⟨hseen _ List.mem_cons_self, text, hat, hlinked, hbytes, rfl⟩
        exact ⟨_, hread, bind_eq_ok_iff.mpr ⟨none, hprior, rfl⟩⟩
      | @next _ _ prior _ head text others bytes hat hlinked hprior hrest =>
        rw [List.map_cons, List.nodup_cons] at hnodup
        rw [List.forall_mem_cons] at hseen
        have hlen : text.length ≤ cursor.remaining := by omega
        have hread : readHead blake3 codec texts limits cursor =
            .ok (head, cursor.remaining - text.length) := (readHead_eq_ok hlimit).mpr
          ⟨hseen.1, text, hat, hlinked, hlen, rfl⟩
        refine ⟨_, hread, bind_eq_ok_iff.mpr ⟨some prior, hprior, ?_⟩⟩
        refine refuseIf_bind_eq_ok.mpr ⟨by simp, bind_eq_ok_iff.mpr ⟨others, ?_, rfl⟩⟩
        refine (ih ((Nat.sub_le _ _).trans hlimit)).mpr
          ⟨bytes, hrest, by simpa using hlength, hnodup.2, fun entry hentry => ?_, ?_⟩
        · rw [List.mem_cons, not_or]
          refine ⟨fun he => hnodup.1 (List.mem_map.mpr ⟨entry, hentry, he⟩), hseen.2 entry hentry⟩
        · dsimp only
          omega

end Walk

end Kitrove
