import Kitrove.Git.Tree

/-! Which files fit into one tree, and what the objects of a stored tree hold. -/

namespace Kitrove.Git

open Std
open FileTree (WellFormed)

section Required

variable {α : Type} {value : Option α} {e : BackendError} {a : α} {condition : Bool} {u : Unit}

theorem required_eq_ok : required value e = .ok a ↔ value = some a := by
  cases value <;> simp [required]

theorem reject_eq_ok : reject condition e = .ok u ↔ condition = false := by
  cases condition <;> simp [reject]

end Required

section Segments

variable {name rest : Bytes} {path other : PortablePath}

theorem splitOn_name (h : slash ∉ name) : splitOn slash name = [name] := by
  induction name with
  | nil => rfl
  | cons b name ih =>
    obtain ⟨hb, hname⟩ := not_or.mp (fun hmem => h (List.mem_cons.mpr hmem))
    rw [splitOn, if_neg (Ne.symm hb), ih hname]

theorem splitOn_cons (h : slash ∉ name) :
    splitOn slash (name ++ slash :: rest) = name :: splitOn slash rest := by
  induction name with
  | nil => rw [List.nil_append, splitOn, if_pos rfl]
  | cons b name ih =>
    obtain ⟨hb, hname⟩ := not_or.mp (fun hmem => h (List.mem_cons.mpr hmem))
    rw [List.cons_append, splitOn, if_neg (Ne.symm hb), ih hname]

theorem splitOn_ne_nil {text : Bytes} : splitOn slash text ≠ [] := by
  rw [splitOn_eq]
  exact List.splitOnP_ne_nil _ _

/-- The components of a portable path. -/
def segments (path : PortablePath) : List Bytes := splitOn slash path.bytes

theorem segments_ne_nil : segments path ≠ [] := splitOn_ne_nil

theorem join_segments : Segments.join slash (segments path) = path.bytes := by
  rw [segments, splitOn_eq_splitOn]
  exact Segments.join_splitOn slash path.bytes

theorem segments_injective (h : segments path = segments other) : path = other :=
  Name.ext_bytes (by rw [← join_segments, h, join_segments])

theorem slash_not_mem {segment : Bytes} (h : segment ∈ segments path) : slash ∉ segment := by
  rw [segments, splitOn_eq_splitOn] at h
  exact Segments.not_mem_of_mem_splitOn h

theorem segment_plain {segment : Bytes} (h : segment ∈ segments path) :
    segment ≠ [] ∧ segment ≠ ascii "." ∧ segment ≠ ascii ".." := by
  have hvalid := path.valid
  simp only [NameKind.valid, validPath, Bool.not_eq_true', Bool.or_eq_false_iff,
    List.any_eq_false] at hvalid
  have hsegment := hvalid.2 segment h
  rw [Bool.not_eq_true, Bool.or_eq_false_iff, Bool.or_eq_false_iff, beq_eq_false_iff_ne,
    beq_eq_false_iff_ne, List.isEmpty_eq_false_iff] at hsegment
  exact ⟨hsegment.1.1, hsegment.1.2, hsegment.2⟩

end Segments

section Inserting

variable {bytes path name : Bytes} {node root : GitTreeNode}

theorem insertFile_eq (h : name ≠ []) :
    insertFile bytes name node = required (node.insert bytes [name]) invalidTree := by
  obtain ⟨files, directories⟩ := node
  rw [insertFile, FileTree.insert, List.isEmpty_eq_false_iff.mpr h, Bool.false_or]
  cases (files.lookup name).isSome
  · cases (directories.lookup name).isSome <;> simp [required]
  · simp [required]

/-- Inserting under a path inserts under its components. -/
theorem insertAt_eq (hname : slash ∉ name) (h : ∀ segment ∈ splitOn slash (name ++ path), segment ≠ []) :
    insertAt bytes path name node =
      required (node.insert bytes (splitOn slash (name ++ path))) invalidTree := by
  induction path generalizing name node with
  | nil =>
    rw [List.append_nil, splitOn_name hname] at h ⊢
    obtain ⟨files, directories⟩ := node
    exact insertFile_eq (h name List.mem_cons_self)
  | cons b path ih =>
    obtain ⟨files, directories⟩ := node
    rw [insertAt]
    split
    · rename_i hb
      subst hb
      rw [splitOn_cons hname] at h ⊢
      have hpath : path.isEmpty = false := by
        rw [List.isEmpty_eq_false_iff]
        rintro rfl
        exact h [] (List.mem_cons_of_mem _ List.mem_cons_self) rfl
      have hrest := @ih [] ((directories.lookup name).getD .empty) List.not_mem_nil
        fun segment hmem => h segment (List.mem_cons_of_mem _ hmem)
      rw [List.nil_append] at hrest
      rw [hpath, if_neg Bool.false_ne_true, List.isEmpty_eq_false_iff.mpr (h name List.mem_cons_self),
        Bool.false_or, FileTree.insert_cons splitOn_ne_nil]
      split
      · rfl
      · rw [hrest]
        cases FileTree.insert bytes (splitOn slash path) ((directories.lookup name).getD .empty) <;> rfl
    · rename_i hb
      have hname' : slash ∉ name ++ [b] := by
        rw [List.mem_append, List.mem_singleton]
        exact not_or.mpr ⟨hname, Ne.symm hb⟩
      rw [ih hname' (by rwa [List.append_assoc]), List.append_assoc]
      rfl

theorem insertPath_eq {path : PortablePath} :
    insertPath path.bytes bytes node = required (node.insert bytes (segments path)) invalidTree :=
  insertAt_eq List.not_mem_nil fun _ h => (segment_plain h).1

/-- No path of a list leads through another. -/
def Apart (paths : List PortablePath) : Prop :=
  paths.Pairwise fun a b => ¬ segments a <+: segments b ∧ ¬ segments b <+: segments a

/-- A tree whose files are those of a list. -/
structure Shows (tree : GitTreeNode) (flat : List (PortablePath × Bytes)) : Prop where
  wellFormed : WellFormed tree
  get (path : List Bytes) (bytes : Bytes) : tree.get path = some bytes ↔
    ∃ file ∈ flat, segments file.1 = path ∧ file.2 = bytes

theorem shows_empty : Shows .empty [] where
  wellFormed := FileTree.wellFormed_empty
  get path bytes := by
    rw [FileTree.get_empty]
    simp

variable {flat done : List (PortablePath × Bytes)} {file : PortablePath × Bytes}

theorem Shows.insert_isSome (h : Shows node done) (bytes : Bytes) : (node.insert bytes (segments file.1)).isSome = true ↔
    ∀ other ∈ done, ¬ segments other.1 <+: segments file.1 ∧ ¬ segments file.1 <+: segments other.1 := by
  rw [FileTree.insert_isSome_iff h.wellFormed, and_iff_right segments_ne_nil]
  constructor
  · intro hclear other hother
    exact hclear _ _ ((h.get _ _).mpr ⟨other, hother, rfl, rfl⟩)
  · intro hclear path value hget
    obtain ⟨other, hother, rfl, -⟩ := (h.get _ _).mp hget
    exact hclear other hother

theorem Shows.insert (h : Shows node done) (hinsert : node.insert file.2 (segments file.1) = some root) :
    Shows root (done ++ [file]) where
  wellFormed := FileTree.wellFormed_insert h.wellFormed hinsert
  get path bytes := by
    have hclear := (h.insert_isSome _).mp (Option.isSome_iff_exists.mpr ⟨root, hinsert⟩)
    rw [FileTree.get_insert hinsert]
    simp only [List.mem_append, List.mem_singleton]
    split
    · rename_i hpath
      subst hpath
      constructor
      · intro heq
        exact ⟨file, .inr rfl, rfl, Option.some.inj heq⟩
      · rintro ⟨other, hother | rfl, hpath, rfl⟩
        · exact absurd (hpath ▸ List.prefix_refl _) (hclear other hother).1
        · rfl
    · rename_i hpath
      rw [h.get]
      constructor
      · rintro ⟨other, hother, hvalue⟩
        exact ⟨other, .inl hother, hvalue⟩
      · rintro ⟨other, hother | rfl, hvalue⟩
        · exact ⟨other, hother, hvalue⟩
        · exact absurd hvalue.1.symm hpath

/-- Files are put into one tree exactly where none of them stands in the way of another. -/
theorem insertAll_iff (flat : List (PortablePath × Bytes)) (h : Shows node done) :
    ((∃ root, flat.foldlM (fun root file => insertPath file.1.bytes file.2 root) node = .ok root) ↔
      flat.Pairwise (fun a b => ¬ segments a.1 <+: segments b.1 ∧ ¬ segments b.1 <+: segments a.1) ∧
        ∀ a ∈ done, ∀ b ∈ flat, ¬ segments a.1 <+: segments b.1 ∧ ¬ segments b.1 <+: segments a.1) ∧
      ∀ root, flat.foldlM (fun root file => insertPath file.1.bytes file.2 root) node = .ok root →
        Shows root (done ++ flat) := by
  induction flat generalizing node done with
  | nil =>
    refine ⟨?_, ?_⟩
    · simp [pure, Except.pure]
    · rintro root hroot
      cases hroot
      rwa [List.append_nil]
  | cons file flat ih =>
    rw [List.foldlM_cons, insertPath_eq]
    cases hinsert : node.insert file.2 (segments file.1) with
    | none =>
      have hblocked : ¬ ∀ a ∈ done, ¬ segments a.1 <+: segments file.1 ∧ ¬ segments file.1 <+: segments a.1 := by
        intro hclear
        have hsome := (h.insert_isSome file.2).mpr hclear
        rw [hinsert] at hsome
        cases hsome
      constructor
      · constructor
        · rintro ⟨root, hroot⟩
          cases hroot
        · rintro ⟨-, hclear⟩
          exact absurd (fun a ha => hclear a ha file List.mem_cons_self) hblocked
      · intro root hroot
        cases hroot
    | some next =>
      have hclear := (h.insert_isSome _).mp (Option.isSome_iff_exists.mpr ⟨next, hinsert⟩)
      obtain ⟨hiff, hshows⟩ := ih (h.insert hinsert)
      rw [List.append_assoc] at hshows
      refine ⟨?_, hshows⟩
      change (∃ root, flat.foldlM (fun root file => insertPath file.1.bytes file.2 root) next =
        Except.ok root) ↔ _
      rw [hiff, List.pairwise_cons]
      constructor
      · rintro ⟨hflat, hdone⟩
        refine ⟨⟨fun b hb => hdone file (List.mem_append_right _ List.mem_cons_self) b hb, hflat⟩,
          fun a ha b hb => ?_⟩
        rcases List.mem_cons.mp hb with rfl | hb
        · exact hclear a ha
        · exact hdone a (List.mem_append_left _ ha) b hb
      · rintro ⟨⟨hfile, hflat⟩, hdone⟩
        refine ⟨hflat, fun a ha b hb => ?_⟩
        rcases List.mem_append.mp ha with ha | ha
        · exact hdone a ha b (List.mem_cons_of_mem _ hb)
        · rw [List.mem_singleton.mp ha]
          exact hfile b hb

end Inserting

end Kitrove.Git
