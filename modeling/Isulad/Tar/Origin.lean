import Isulad.Tar.Unpack

/-!
# Where the objects of a layer come from

What one entry of an archive, unpacked in the removing format, does to the tags of the
tree and to the list of unpacked paths, and what holds of both after any archive: an object
tagged as old is one of the base tree, an object tagged as unpacked stands at the path of
an entry, and no old object stands at the path of an entry.
-/

namespace Isulad.Tar

open Option Isulad.Std Isulad.Path FileTree

section Shrinking

/-- Nothing is new. -/
def Shrinks (before after : Tree) : Prop :=
  ∀ location object, after.find location = some object → before.find location = some object

variable {tree before middle after : Tree} {unpacked : List Text}

theorem Shrinks.refl (tree : Tree) : Shrinks tree tree := fun _ _ => id

theorem Shrinks.trans (first : Shrinks before middle) (second : Shrinks middle after) :
    Shrinks before after := fun _ _ found => first _ _ (second _ _ found)

theorem shrinks_without (tree : Tree) (location : Location) :
    Shrinks tree (tree.without location) := by
  intro other object found
  rw [find_without] at found
  split at found
  · cases found
  · exact found

theorem shrinks_utilRecursiveRemovePath (tree : Tree) (path : Text) :
    Shrinks tree (utilRecursiveRemovePath tree path) := by
  unfold utilRecursiveRemovePath
  split
  · exact .refl tree
  · exact shrinks_without tree _

theorem shrinks_clearChild {recurse : Text → Tree → Bool × Tree}
    (recurses : ∀ dirpath tree, Shrinks tree (recurse dirpath tree).2) (dirpath : Text) (ok : Bool)
    (tree : Tree) (name : List Char) :
    Shrinks tree (clearChild unpacked recurse dirpath (ok, tree) name).2 := by
  unfold clearChild
  dsimp only
  split
  · exact .refl tree
  split
  · exact shrinks_utilRecursiveRemovePath tree _
  split
  · exact .refl tree
  · exact recurses _ tree
  · exact .refl tree

theorem shrinks_removeFilesInOpqDir (levels : Nat) (dirpath : Text) (tree : Tree) :
    Shrinks tree (removeFilesInOpqDir unpacked levels dirpath tree).2 := by
  induction levels generalizing dirpath tree with
  | zero => exact .refl tree
  | succ levels ih =>
    have fold : ∀ (names : List (List Char)) (ok : Bool) (tree : Tree), Shrinks tree
        (names.foldl (clearChild unpacked (removeFilesInOpqDir unpacked levels) dirpath)
          (ok, tree)).2 := by
      intro names
      induction names with
      | nil => exact fun _ tree => .refl tree
      | cons name names rest =>
        intro ok tree
        exact (shrinks_clearChild ih dirpath ok tree name).trans (rest _ _)
    rw [removeFilesInOpqDir]
    split
    · exact .refl tree
    · exact fold _ _ tree

theorem removeWhiteoutConvert_shrinks (entry : ArchiveEntry) (dstPath : Text) (state : Unpacking) :
    Shrinks state.tree (removeWhiteoutConvert entry dstPath state).2.tree ∧
      (removeWhiteoutConvert entry dstPath state).2.unpacked = state.unpacked := by
  unfold removeWhiteoutConvert
  dsimp only
  split
  · exact ⟨shrinks_removeFilesInOpqDir _ _ _, rfl⟩
  split
  · split
    · exact ⟨.refl _, rfl⟩
    · exact ⟨shrinks_utilRecursiveRemovePath _ _, rfl⟩
  · exact ⟨.refl _, rfl⟩

theorem shrinks_tryToReplaceExitedDst (tree : Tree) (dstPath : Text) (entry : ArchiveEntry) :
    Shrinks tree (tryToReplaceExitedDst tree dstPath entry) := by
  unfold tryToReplaceExitedDst
  split
  · exact .refl tree
  split
  · exact .refl tree
  · exact shrinks_without tree _

end Shrinking

variable {options : ArchiveOptions} {extractor : Extractor} {base : Tree} {entry : ArchiveEntry}
  {state after : Unpacking}

/-- The tags and the list of unpacked paths say where objects come from. -/
structure Traced (base : Tree) (state : Unpacking) : Prop where
  old : ∀ {location object}, state.tree.find location = some object → object.tag = .base →
    base.find location = some object
  own : ∀ {location object}, state.tree.find location = some object → object.tag = .archive →
    ∃ path ∈ state.unpacked, namesOf path = location
  listed : ∀ {path object}, path ∈ state.unpacked → state.tree.find (namesOf path) = some object →
    object.tag ≠ .base

/-- Nothing of the tree has been unpacked by this archive yet. -/
def Fresh (base : Tree) : Prop :=
  ∀ location object, base.find location = some object → object.tag = .base

theorem traced_start (fresh : Fresh base) : Traced base (.start base) where
  old found _ := found
  own found tagged := by
    rw [fresh _ _ found] at tagged
    cases tagged
  listed member := nomatch member

section

variable (removes : options.whiteoutFormat = .remove)
include removes

/-- An entry is converted, which only removes, or extracted. -/
theorem unpackEntry_cases (ran : unpackEntry options extractor state entry = some after) :
    (Shrinks state.tree after.tree ∧ after.unpacked = state.unpacked) ∨
      ∃ dstPath, Extracts dstPath state.tree after.tree ∧
        after.unpacked = dstPath :: state.unpacked := by
  obtain ⟨dstPath, -, rest⟩ := bind_eq_some_iff.mp ran
  obtain ⟨entry, -, converted⟩ := bind_eq_some_iff.mp rest
  rw [removes, whiteoutConvert] at converted
  have shrinks := removeWhiteoutConvert_shrinks entry dstPath state
  split at converted
  next cleared shape =>
    cases converted
    rw [shape] at shrinks
    exact .inl shrinks
  next cleared shape =>
    rw [shape] at shrinks
    obtain ⟨tree, written, rfl⟩ := map_eq_some_iff.mp converted
    have extracts := extractor.extracts written
    refine .inr ⟨dstPath, ⟨fun found => ?_, extracts.unpacked⟩, ?_⟩
    · exact (extracts.origin found).imp_left fun old =>
        shrinks.1 _ _ (shrinks_tryToReplaceExitedDst _ _ _ _ _ old)
    · exact congrArg _ shrinks.2

theorem Traced.unpackEntry (traced : Traced base state)
    (ran : unpackEntry options extractor state entry = some after) : Traced base after := by
  rcases unpackEntry_cases removes ran with ⟨shrinks, same⟩ | ⟨dstPath, extracts, more⟩
  · refine ⟨fun found => traced.old (shrinks _ _ found), fun found => ?_, fun member found => ?_⟩
    · rw [same]
      exact traced.own (shrinks _ _ found)
    · rw [same] at member
      exact traced.listed member (shrinks _ _ found)
  · refine ⟨fun found tagged => ?_, fun found tagged => ?_, fun member found tagged => ?_⟩
    · rcases extracts.origin found with before | ⟨own, -⟩ | parent
      · exact traced.old before tagged
      · simp [own] at tagged
      · simp [parent] at tagged
    · rw [more]
      rcases extracts.origin found with before | ⟨-, here⟩ | parent
      · obtain ⟨path, member, here⟩ := traced.own before tagged
        exact ⟨path, List.mem_cons_of_mem _ member, here⟩
      · exact ⟨dstPath, List.mem_cons_self, here.symm⟩
      · simp [parent] at tagged
    · rw [more] at member
      rcases List.mem_cons.mp member with rfl | earlier
      · rw [extracts.unpacked found] at tagged
        cases tagged
      · rcases extracts.origin found with before | ⟨own, -⟩ | parent
        · exact traced.listed earlier before tagged
        · simp [own] at tagged
        · simp [parent] at tagged

/-- After any archive, on any base tree. -/
theorem traced_archiveUnpackHandler (fresh : Fresh base) {entries : List ArchiveEntry}
    (ran : archiveUnpackHandler extractor options entries (.start base) = some state) :
    Traced base state := by
  have run : ∀ {entries start}, Traced base start →
      archiveUnpackHandler extractor options entries start = some state → Traced base state := by
    intro entries
    induction entries with
    | nil =>
      rintro start traced ⟨⟩
      exact traced
    | cons entry entries ih =>
      intro start traced ran
      obtain ⟨middle, first, rest⟩ := bind_eq_some_iff.mp ran
      exact ih (traced.unpackEntry removes first) rest
  exact run (traced_start fresh) ran

end

end Isulad.Tar
