import Kitrove.Model.Text
import Kitrove.Storage.GuardedText

/-! Staging a private text by creating its file and writing into it: a stop can leave any
beginning of the text behind. -/

namespace Kitrove

open Crash ObjectMutationError

section Writing

/-- Creates a file and writes a text into it from the front. -/
def writeThrough {ε : Type} (n : SlotName) (contents : Bytes) : Program (Slots Bytes) ε Unit :=
  fun s =>
    ⟨(List.range (contents.length + 1)).map fun k => s.set n (some (contents.take k)), .ok ()⟩

theorem writeThrough_upholds {ε : Type} {n : SlotName} {contents : Bytes} {s : Slots Bytes}
    {I : Slots Bytes → Prop} {Q : Unit → Slots Bytes → Prop} {E : ε → Slots Bytes → Prop}
    (hI : ∀ k, I (s.set n (some (contents.take k)))) (hQ : Q () (s.set n (some contents))) :
    (writeThrough n contents : Program (Slots Bytes) ε Unit).Upholds (fun _ t => I t) Q E s := by
  refine ⟨?_, ?_⟩
  · rw [List.isChain_iff_getElem]
    intro i hi
    simp only [writeThrough, List.getElem_cons_succ, List.getElem_map]
    exact hI _
  · have hfinal : (writeThrough n contents : Program (Slots Bytes) ε Unit).final s =
        s.set n (some contents) := by
      simp [Program.final, writeThrough, List.range_succ, List.getLastD_eq_getLast?]
    change Q () _
    rwa [hfinal]

end Writing

section Staging

variable {p : TextPlatform Bytes} {maxBytes : Nat}

variable (p) in
/-- Writes an absent private staging file, accepting an already-identical file. -/
def stagePrivateText (path : SlotName) (contents : Bytes) (maxBytes : Nat) :
    TextProgram Bytes Unit := do
  match ← readText p path maxBytes with
  | some existing => Program.require (existing == contents) existingConflict
  | none => writeThrough path contents

variable {contents : Bytes} {destination backup : Option Bytes} {I : Slots Bytes → Prop}
  {Q : Unit → Slots Bytes → Prop} {E : ObjectMutationError → Slots Bytes → Prop}

/-- Staging a text leaves some beginning of it staged at every stop, and all of it at the
end; it refuses to touch another text. -/
theorem stagePrivateText_upholds {staging : Option Bytes}
    (hI : ∀ k, I ⟨destination, some (contents.take k), backup⟩)
    (hQ : Q () ⟨destination, some contents, backup⟩)
    (hE : ∀ e, staging ≠ none → E e ⟨destination, staging, backup⟩) :
    (stagePrivateText p .staging contents maxBytes).Upholds (fun _ t => I t) Q E
      ⟨destination, staging, backup⟩ := by
  simp only [stagePrivateText, Program.bind_upholds, readText_upholds, Slots.get_staging]
  cases staging with
  | none => simpa using writeThrough_upholds (by simpa using hI) (by simpa using hQ)
  | some existing =>
    by_cases hlen : p.len existing ≤ maxBytes
    · simp only [Option.all_some, hlen, decide_true, if_true]
      by_cases heq : existing = contents
      · subst heq
        simpa using hQ
      · simpa [heq] using hE _ (by simp)
    · simpa [hlen] using hE _ (by simp)

end Staging

end Kitrove
