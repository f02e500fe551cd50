import Isulad.Path.Normal

/-!
# Directory and base name of a path

`util_path_dir`, `util_path_base` and `util_path_join` of `cutils/utils_file.c`. The three
agree on a text that has a slash before its last name. On a bare name `util_path_dir`
returns the name itself, not the current directory.
-/

namespace Isulad.Path

open List Isulad.Std

/-- `util_path_dir`: cut at the last slash, unless that is the first character. -/
def utilPathDir (path : List Char) : List Char :=
  if path = [] then ['.']
  else
    match path.reverse.dropWhile (· ≠ '/') with
    | [] => path
    | [_] => ['/']
    | _ :: front => front.reverse

/-- `util_path_base`: the last name, without the slashes behind it. -/
def utilPathBase (path : List Char) : List Char :=
  if path = [] then ['.']
  else
    match path.reverse.dropWhile (· = '/') with
    | [] => ['/']
    | stripped => (stripped.takeWhile (· ≠ '/')).reverse

/-- `util_path_join`: the two parts behind one slash, cleaned. -/
def utilPathJoin (getcwd : Option WorkingDir) (dir file : List Char) : Option (List Char) :=
  if pathMax ≤ (dir ++ '/' :: file).length then none
  else utilCleanPath getcwd (dir ++ '/' :: file)

section Parts

variable {name lead : List Char}

private theorem plain_reverse (plain : '/' ∉ name) :
    ∀ char ∈ name.reverse, decide (char ≠ '/') = true := by
  intro char member
  have different : char ≠ '/' := fun same => plain (same ▸ mem_reverse.mp member)
  simpa using different

theorem utilPathDir_bare (named : name ≠ []) (plain : '/' ∉ name) : utilPathDir name = name := by
  rw [utilPathDir, if_neg named, dropWhile_eq_nil_iff.mpr (plain_reverse plain)]

/-- Behind a slash, a name's directory is the text before that slash, or the root. -/
theorem utilPathDir_slash (stem : List Char) (plain : '/' ∉ name) :
    utilPathDir (stem ++ '/' :: name) = if stem = [] then ['/'] else stem := by
  have cut : (stem ++ '/' :: name).reverse.dropWhile (· ≠ '/') = '/' :: stem.reverse := by
    rw [reverse_append, reverse_cons, append_assoc,
      dropWhile_append_of_pos (plain_reverse plain)]
    simp
  rw [utilPathDir, if_neg (by simp), cut]
  by_cases empty : stem = []
  · rw [if_pos empty, empty]
    rfl
  · have named : stem.reverse ≠ [] := by simpa using empty
    rw [if_neg empty]
    split
    next shape => cases shape
    next shape => exact absurd (List.cons.inj shape).2 named
    next shape => rw [← (List.cons.inj shape).2, reverse_reverse]

theorem utilPathBase_eq (boundary : lead = [] ∨ ∃ stem, lead = stem ++ ['/']) (named : name ≠ [])
    (plain : '/' ∉ name) : utilPathBase (lead ++ name) = name := by
  obtain ⟨front, last, rfl⟩ := (eq_nil_or_concat' name).resolve_left named
  have notSlash : last ≠ '/' := fun same => plain (by simp [same])
  have stripped : (lead ++ (front ++ [last])).reverse.dropWhile (· = '/') =
      last :: (front.reverse ++ lead.reverse) := by
    simp [notSlash]
  have taken : (last :: (front.reverse ++ lead.reverse)).takeWhile (· ≠ '/') =
      last :: front.reverse := by
    have whole := plain_reverse plain
    rw [reverse_append, reverse_singleton, singleton_append] at whole
    rw [← cons_append, takeWhile_append_of_pos whole]
    rcases boundary with rfl | ⟨stem, rfl⟩ <;> simp
  rw [utilPathBase, if_neg (by simp), stripped]
  dsimp only
  rw [taken]
  simp

end Parts

/-- Joining a directory text without `..` and a name spells the directory's names and the
name. -/
theorem utilPathJoin_eq {dir file : List Char} (free : '\x00' ∉ dir)
    (noDotDot : ['.', '.'] ∉ namesOf dir) (isName : IsName file)
    (short : dir.length + file.length + 3 < pathMax) :
    utilPathJoin (some rootDir) dir file = some (cleanSpelling (namesOf dir ++ [file])) := by
  have named : ¬ Blank file := not_or.mpr ⟨isName.nonempty, isName.notDot⟩
  have names : namesOf (dir ++ '/' :: file) = namesOf dir ++ [file] := by
    rw [namesOf_append, namesOf_of_plain isName.noSlash, if_neg named]
  have length : (dir ++ '/' :: file).length = dir.length + file.length + 1 := by simp; omega
  have fits : ¬ pathMax ≤ (dir ++ '/' :: file).length := by omega
  have freeText : '\x00' ∉ dir ++ '/' :: file := by simpa [free] using isName.noNul
  have plain : ∀ name ∈ namesOf dir ++ [file], name ≠ ['.', '.'] :=
    forall_mem_append.mpr
      ⟨fun _ inDir same => noDotDot (same ▸ inDir), forall_mem_singleton.mpr isName.notDotDot⟩
  rw [utilPathJoin, if_neg fits, utilCleanPath_rootDir (by simp) freeText (by omega), normalNames,
    names, lexical, foldl_keep plain, nil_append]

theorem locate_cleanSpelling {Tag : Type} (tree : FileTree Tag) {names : List (List Char)}
    {file : List Char} (plain : ∀ name ∈ names, '/' ∉ name) (isName : IsName file) :
    tree.locate (cleanSpelling (names ++ [file])) =
      (tree.walk FileTree.maxLinks [] names).map (· ++ [file]) := by
  have parts : components (cleanSpelling (names ++ [file])) = ([] :: names) ++ [file] := by
    rw [cleanSpelling, if_neg (by simp), components, splitOn_spell]
    · rfl
    · exact forall_mem_append.mpr ⟨plain, forall_mem_singleton.mpr isName.noSlash⟩
  have last : ¬ ((Blank file) ∨ file = ['.', '.']) :=
    not_or.mpr ⟨not_or.mpr ⟨isName.nonempty, isName.notDot⟩, isName.notDotDot⟩
  have walked : tree.walk FileTree.maxLinks [] ([] :: names) =
      tree.walk FileTree.maxLinks [] names := rfl
  unfold FileTree.locate FileTree.locateFrom
  simp only [parts, getLastD_concat, dropLast_concat, if_neg last, ite_self, walked]

end Isulad.Path
