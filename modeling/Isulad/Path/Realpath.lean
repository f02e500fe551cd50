import Isulad.Path.Parts
import Isulad.Path.Scope

/-!
# Real paths inside a root file system

`utilRealpathInScope` follows `util_realpath_in_scope` of `cutils/path.c`: it cleans the path
behind the root, replaces it by the target of the link it names as long as it names one, and
compares the text it ends with with the text of the root. What the path leads to is decided by the
kernel, which also follows the links on the way; the file system is a `FileTree`.
-/

namespace Isulad.Path

open Option List Isulad.Std FileTree

/-- `dirname` of `libgen.h`. -/
def dirname (path : List Char) : List Char :=
  if path = [] then ['.']
  else
    match path.rdropWhile (· = '/') with
    | [] => if path = ['/', '/'] then path else ['/']
    | stripped =>
      match stripped.rdropWhile (· ≠ '/') with
      | [] => ['.']
      | front =>
        match front.rdropWhile (· = '/') with
        | [] => if front = ['/', '/'] then front else ['/']
        | dir => dir

/-- `basename` of `libgen.h`. -/
def basename (path : List Char) : List Char :=
  if path = [] then ['.']
  else
    match path.rdropWhile (· = '/') with
    | [] => ['/']
    | stripped => stripped.rtakeWhile (· ≠ '/')

/-- `util_specify_current_dir`. -/
def utilSpecifyCurrentDir (path : List Char) : Bool := path = [] || basename path = ['.']

/-- `util_split_path_dir_entry`. -/
def utilSplitPathDirEntry (getcwd : Option WorkingDir) (path : List Char) :
    Option (List Char × List Char) :=
  (utilCleanPath getcwd path).map fun cleaned =>
    let cleaned := if utilSpecifyCurrentDir path then cleaned ++ ['/', '.'] else cleaned
    (dirname cleaned, basename cleaned)

variable (tree : FileTree Unit) (getcwd : Option WorkingDir) {last name : List Char} {mark : Char}

/-- `lstat`: what an absolute path names, its last link not followed. -/
def lstat (path : List Char) : Option Kind :=
  if path = [] ∨ pathMax ≤ path.length then none
  else (tree.locate path).bind fun location =>
    if location = [] then some .directory else (tree.find location).map Object.kind

/-- The path that takes the place of a link: its target, behind the directory of the link if it is
relative. -/
def afterLink (iterPath target : List Char) : Option (List Char) :=
  if target ≠ [] ∧ target.head? ≠ some '/' then
    (utilSplitPathDirEntry getcwd iterPath).bind fun (parent, _) =>
      utilPathJoin getcwd parent target
  else some target

/-- `max_symlink_iter`. -/
def maxSymlinkIter : Nat := 10

/-- The loop of `find_realpath`, with the number of rounds left. -/
def findRealpathLoop : Nat → List Char → Option (List Char)
  -- `i > max_symlink_iter`, whatever the path names now
  | 0, _ => none
  | left + 1, iterPath =>
    match lstat tree iterPath with
    | some (.symlink target) =>
      (afterLink getcwd iterPath (cString (target.take (pathMax - 1)))).bind (findRealpathLoop left)
    | _ => some iterPath

/-- `find_realpath`. -/
def findRealpath (path : List Char) : Option (List Char) :=
  findRealpathLoop tree getcwd (maxSymlinkIter + 1) path

/-- `util_realpath_in_scope`. -/
def utilRealpathInScope (rootfs path : List Char) : Option (List Char) :=
  if pathMax ≤ (rootfs ++ path).length then none
  else (utilCleanPath getcwd (rootfs ++ path)).bind fun cleaned =>
    (findRealpath tree getcwd cleaned).filter fun tmp => decide (rootfs <+: tmp)

/-- The object that an absolute path denotes, every link followed. -/
def denotes (path : List Char) : Option Location :=
  (tree.locate path).bind (tree.follow FileTree.maxLinks)

/-- A directory by the names on the way to it. -/
abbrev Directory := {names : Location // ∀ name ∈ names, IsName name}

/-- Whatever the file system holds, the path that is returned below `root` denotes `root` or an
object below it. -/
def Confined (root : Directory) (path : CStr) : Prop :=
  ∀ (tree : FileTree Unit) (getcwd : Option WorkingDir) (real : List Char) (object : Location),
    tree.IsDirectory root.1 →
    utilRealpathInScope tree getcwd (cleanSpelling root.1) path.1 = some real →
    denotes tree real = some object → root.1 <+: object

theorem IsName.ordinary (isName : IsName name) : Ordinary name :=
  ⟨isName.noSlash, not_or.mpr ⟨isName.nonempty, isName.notDot⟩, isName.notDotDot⟩

section Spelled

variable {tree} {names : Location}

theorem cleanSpelling_absolute (names : Location) : (cleanSpelling names).head? = some '/' := by
  cases names with
  | nil => rfl
  | cons name names => rfl

section

variable (valid : ∀ name ∈ names, IsName name)
include valid

/-- A spelled location is where its text leads, if there is a directory for it to stand in. -/
theorem locate_spelled (parent : tree.IsDirectory names.dropLast) :
    tree.locate (cleanSpelling names) = some names := by
  cases names using reverseRecOn with
  | nil => rfl
  | append_singleton names name =>
    rw [dropLast_concat] at parent
    rw [locate_cleanSpelling tree (fun other member => (valid other (by simp [member])).noSlash)
      (valid name (by simp)), walk_directory parent]
    rfl

theorem lstat_spelled (short : Fits names) (parent : tree.IsDirectory names.dropLast) :
    lstat tree (cleanSpelling names) =
      if names = [] then some .directory else (tree.find names).map Object.kind := by
  have named : ¬ (cleanSpelling names = [] ∨ pathMax ≤ (cleanSpelling names).length) := by
    rintro (none | long)
    · have absolute := cleanSpelling_absolute names
      simp [none] at absolute
    · exact absurd short (Nat.not_lt.mpr long)
  rw [lstat, if_neg named, locate_spelled valid parent, bind_some]

theorem denotes_spelled (parent : tree.IsDirectory names.dropLast) {kind : Kind}
    (found : (tree.find names).map Object.kind = some kind)
    (plain : ∀ target, kind ≠ .symlink target) :
    denotes tree (cleanSpelling names) = some names := by
  rw [denotes, locate_spelled valid parent, bind_some, FileTree.maxLinks, FileTree.follow,
    found]
  cases kind with
  | symlink target => exact absurd rfl (plain target)
  | directory => rfl
  | regular data => rfl
  | charDevice major minor => rfl

theorem denotes_directory (directory : tree.IsDirectory names) :
    denotes tree (cleanSpelling names) = some names := by
  have parent := directory.above (List.dropLast_prefix names)
  by_cases top : names = []
  · have absent : tree.find [] = none := by
      cases found : tree.find [] with
      | none => rfl
      | some object => exact absurd rfl (tree.rooted found).1
    rw [denotes, locate_spelled valid parent, top, bind_some, FileTree.maxLinks,
      FileTree.follow, absent]
    rfl
  · exact denotes_spelled valid parent (directory.kind top) (by simp)

end

end Spelled

section Stays

variable {tree getcwd} {names root : Location}

theorem findRealpath_of_noLink {path : List Char}
    (plain : ∀ target, lstat tree path ≠ some (.symlink target)) :
    findRealpath tree getcwd path = some path := by
  rw [findRealpath, findRealpathLoop]
  split
  next target link => exact absurd link (plain target)
  · rfl

/-- A directory whose text begins with that of a directory below it is that directory. -/
theorem eq_of_cleanSpelling_prefix (valid : ∀ name ∈ root, IsName name) (above : names <+: root)
    (begins : cleanSpelling root <+: cleanSpelling names) : names = root := by
  obtain ⟨rest, rfl⟩ := above
  by_cases empty : rest = []
  · rw [empty, append_nil]
  have le := begins.length_le
  have longer := @stem_length_lt rest (spell [] names)
    (fun name member => valid name (by simp [member])) empty
  have shorter : (cleanSpelling names).length ≤ (spell [] names).length + 1 := by
    unfold cleanSpelling
    split
    · simp
    · omega
  rw [← spell_append] at longer
  rw [cleanSpelling, if_neg (by simp [empty])] at le
  omega

end Stays

/-- The texts of the root and of what is found behind it. -/
theorem root_append_absolute (root : Directory) (path : CStr) :
    '\x00' ∉ cleanSpelling root.1 ++ path.1 ∧
      (cleanSpelling root.1 ++ path.1).head? = some '/' := by
  constructor
  · have free := (holds_cleanSpelling root.2).nul_notMem (not_mem_nil)
    simpa [free] using path.2
  · rw [head?_append, cleanSpelling_absolute]
    rfl

/-- A name that continues the last name of the root, off the way to `names`. -/
theorem exists_sibling (above names : Location) (last : List Char) :
    ∃ mark, mark ≠ '/' ∧ mark ≠ '\x00' ∧ mark ≠ '.' ∧ ¬ above ++ [last ++ [mark]] <+: names := by
  by_cases taken : above ++ [last ++ ['x']] <+: names
  · refine ⟨'y', by decide, by decide, by decide, fun other => ?_⟩
    have same := (prefix_of_prefix_length_le taken other (by simp)).eq_of_length (by simp)
    simp at same
  · exact ⟨'x', by decide, by decide, by decide, taken⟩

theorem IsName.extend (isName : IsName last) (slash : mark ≠ '/') (nul : mark ≠ '\x00')
    (dot : mark ≠ '.') : IsName (last ++ [mark]) where
  nonempty := by simp
  noSlash := by simpa [isName.noSlash] using slash.symm
  noNul := by simpa [isName.noNul] using nul.symm
  notDot := by
    intro same
    have ends := congrArg getLast? same
    simp [dot] at ends
  notDotDot := by
    intro same
    have ends := congrArg getLast? same
    simp [dot] at ends

/-- A file system in which `names` is a link to a file beside the directory `above ++ [last]`. -/
structure Escapes (tree : FileTree Unit) (above names : Location) (last : List Char) (mark : Char)
    (target : List Char) : Prop where
  root : tree.IsDirectory (above ++ [last])
  parent : tree.IsDirectory names.dropLast
  link : (tree.find names).map Object.kind = some (.symlink target)
  file : (tree.find (above ++ [last ++ [mark]])).map Object.kind = some (.regular [])

section

variable {above names : Location} (validRoot : ∀ name ∈ above ++ [last], IsName name)
  (valid : ∀ name ∈ names, IsName name) (validSibling : IsName (last ++ [mark]))
include validRoot valid validSibling

theorem exists_escape
    (off : ¬ above ++ [last ++ [mark]] <+: names) (outside : ¬ names <+: above ++ [last])
    (target : List Char) : ∃ tree, Escapes tree above names last mark target := by
  have named : names ≠ [] := by
    rintro rfl
    exact outside nil_prefix
  cases names using reverseRecOn with
  | nil => exact absurd rfl named
  | append_singleton parent entry =>
    have bareEmpty : (.empty : FileTree Unit).Bare := bare_empty
    obtain ⟨first, bareFirst, dirsFirst⟩ := bareEmpty.exists_directories
      fun name member => (validRoot name member).ordinary
    obtain ⟨dirs, bareDirs, isDirs⟩ := bareFirst.exists_directories
      fun name (member : name ∈ parent) => (valid name (by simp [member])).ordinary
    simp only [dirsFirst, isDirectory_empty] at isDirs
    have noLink : dirs.find (parent ++ [entry]) = none := by
      refine bareDirs.find_eq_none fun directory => ?_
      rcases (isDirs _).mp directory with (root | inside) | inside
      · exact named root
      · exact outside inside
      have le := inside.length_le
      rw [length_append, length_singleton] at le
      omega
    have noFile : dirs.find (above ++ [last ++ [mark]]) = none := by
      refine bareDirs.find_eq_none fun directory => ?_
      rcases (isDirs _).mp directory with (root | inside) | inside
      · simp at root
      · have same := inside.eq_of_length (by simp)
        simp at same
      · exact off (inside.trans (prefix_append _ _))
    obtain ⟨linked, madeLink⟩ : ∃ linked, dirs.create
        ⟨parent ++ [entry], .symlink target, (0, 0), ()⟩ = some linked :=
      exists_create ((isDirs parent).mpr (.inr prefix_rfl))
        (valid entry (by simp)).ordinary rfl noLink
    have dirsLinked : ∀ location, dirs.IsDirectory location → linked.IsDirectory location :=
      fun location directory => (isDirectory_create madeLink).mpr (.inl directory)
    have apart : above ++ [last ++ [mark]] ≠ parent ++ [entry] := fun same =>
      off (same ▸ prefix_rfl)
    obtain ⟨tree, madeFile⟩ : ∃ tree, linked.create
        ⟨above ++ [last ++ [mark]], .regular [], (0, 0), ()⟩ = some tree := by
      refine exists_create (dirsLinked above ((isDirs above).mpr (.inl (.inr ?_))))
        validSibling.ordinary rfl ?_
      · exact prefix_append _ _
      · rw [find_create madeLink, if_neg apart]
        exact noFile
    have dirsTree : ∀ location, dirs.IsDirectory location → tree.IsDirectory location :=
      fun location directory =>
        (isDirectory_create madeFile).mpr (.inl (dirsLinked location directory))
    refine ⟨tree, dirsTree _ ((isDirs _).mpr (.inl (.inr prefix_rfl))), ?_, ?_, ?_⟩
    · rw [dropLast_concat]
      exact dirsTree _ ((isDirs _).mpr (.inr prefix_rfl))
    · rw [find_create madeFile, if_neg apart.symm, find_create madeLink, if_pos rfl]
      rfl
    · rw [find_create madeFile, if_pos rfl]
      rfl

/-- In such a file system the returned path denotes the file. -/
theorem Escapes.leaves {tree : FileTree Unit} (escapes : Escapes tree above names last mark
      (cleanSpelling (above ++ [last]) ++ [mark])) (short : Fits names)
    (shortSibling : Fits (above ++ [last ++ [mark]])) :
    findRealpath tree none (cleanSpelling names) =
        some (cleanSpelling (above ++ [last]) ++ [mark]) ∧
      denotes tree (cleanSpelling (above ++ [last]) ++ [mark]) =
        some (above ++ [last ++ [mark]]) := by
  have named : names ≠ [] := by
    rintro rfl
    have link := escapes.link
    cases found : tree.find [] with
    | none => simp [found] at link
    | some object => exact (tree.rooted found).1 rfl
  have spelled : cleanSpelling (above ++ [last]) ++ [mark] =
      cleanSpelling (above ++ [last ++ [mark]]) := by
    simp [cleanSpelling, spell_concat]
  have validAll : ∀ name ∈ above ++ [last ++ [mark]], IsName name :=
    forall_mem_append.mpr
      ⟨fun name old => validRoot name (by simp [old]), forall_mem_singleton.mpr validSibling⟩
  have parentSibling : tree.IsDirectory (above ++ [last ++ [mark]]).dropLast := by
    rw [dropLast_concat]
    exact escapes.root.above (prefix_append _ _)
  have free : '\x00' ∉ cleanSpelling (above ++ [last ++ [mark]]) :=
    (holds_cleanSpelling validAll).nul_notMem not_mem_nil
  have read : cString ((cleanSpelling (above ++ [last ++ [mark]])).take (pathMax - 1)) =
      cleanSpelling (above ++ [last ++ [mark]]) := by
    rw [take_of_length_le (Nat.le_sub_one_of_lt shortSibling), cString_of_free free]
  have follows : afterLink none (cleanSpelling names)
      (cleanSpelling (above ++ [last ++ [mark]])) =
      some (cleanSpelling (above ++ [last ++ [mark]])) := by
    rw [afterLink, if_neg]
    exact fun relative => relative.2 (cleanSpelling_absolute _)
  have atSibling : lstat tree (cleanSpelling (above ++ [last ++ [mark]])) = some (.regular []) := by
    rw [lstat_spelled validAll shortSibling parentSibling, if_neg (by simp)]
    exact escapes.file
  have atNames : lstat tree (cleanSpelling names) =
      some (.symlink (cleanSpelling (above ++ [last ++ [mark]]))) := by
    rw [lstat_spelled valid short escapes.parent, if_neg named, ← spelled]
    exact escapes.link
  rw [spelled]
  constructor
  · rw [findRealpath, findRealpathLoop, atNames]
    simp [read, follows]
    rw [maxSymlinkIter, findRealpathLoop, atSibling]
  · exact denotes_spelled validAll parentSibling escapes.file (by simp)

end

/-- For every root directory and every path, what `util_realpath_in_scope` returns denotes the root
or an object below it, on every file system, exactly when the root is that of the file system, the
text of root and path is too long, or the path leads back to the root or above it. -/
theorem confined_iff (root : Directory) (path : CStr) :
    Confined root path ↔
      root.1 = [] ∨ pathMax ≤ (cleanSpelling root.1 ++ path.1).length ∨
        normalNames (cleanSpelling root.1 ++ path.1) <+: root.1 := by
  by_cases long : pathMax ≤ (cleanSpelling root.1 ++ path.1).length
  · refine iff_of_true ?_ (.inr (.inl long))
    intro tree getcwd real object directory found denoted
    rw [utilRealpathInScope, if_pos long] at found
    cases found
  obtain ⟨free, absolute⟩ := root_append_absolute root path
  have valid : ∀ name ∈ normalNames (cleanSpelling root.1 ++ path.1), IsName name :=
    fun name member => isName_of_mem_normalNames free member
  have cleanable := cleanable_of_short ⟨_, free, absolute⟩ (Nat.not_le.mp long)
  have cleaned : ∀ getcwd, utilCleanPath getcwd (cleanSpelling root.1 ++ path.1) =
      some (cleanSpelling (normalNames (cleanSpelling root.1 ++ path.1))) := fun getcwd =>
    (utilCleanPath_eq_some_iff getcwd ⟨_, free, absolute⟩ _).mpr ⟨cleanable, rfl⟩
  have fits : Fits (normalNames (cleanSpelling root.1 ++ path.1)) := cleanable _ prefix_rfl
  have written : ¬ normalNames (cleanSpelling root.1 ++ path.1) <+: root.1 → path.1 ≠ [] := by
    intro outside empty
    rw [empty, append_nil, normalNames_cleanSpelling root.2] at outside
    exact outside prefix_rfl
  generalize normalNames (cleanSpelling root.1 ++ path.1) = names at valid cleaned fits written ⊢
  constructor
  · intro confined
    by_contra outside
    simp at outside
    obtain ⟨proper, -, outside⟩ := outside
    obtain ⟨rootNames, validRoot⟩ := root
    cases rootNames using reverseRecOn with
    | nil => exact proper rfl
    | append_singleton above last =>
      obtain ⟨mark, slash, nul, dot, off⟩ := exists_sibling above names last
      have validSibling := (validRoot last (by simp)).extend slash nul dot
      have shortSibling : Fits (above ++ [last ++ [mark]]) := by
        have longer := length_pos_iff.mpr (written outside)
        have spelled : (cleanSpelling (above ++ [last ++ [mark]])).length =
            (cleanSpelling (above ++ [last])).length + 1 := by
          simp [cleanSpelling, spell_concat]
          omega
        rw [length_append] at long
        change ¬ pathMax ≤ (cleanSpelling (above ++ [last])).length + path.1.length at long
        unfold Fits
        omega
      obtain ⟨tree, escapes⟩ := exists_escape validRoot valid validSibling off outside
        (cleanSpelling (above ++ [last]) ++ [mark])
      obtain ⟨found, denoted⟩ :=
        escapes.leaves validRoot valid validSibling fits shortSibling
      have returned : utilRealpathInScope tree none (cleanSpelling (above ++ [last])) path.1 =
          some (cleanSpelling (above ++ [last]) ++ [mark]) := by
        rw [utilRealpathInScope, if_neg long, cleaned, bind_some, found, filter_some,
          if_pos (decide_eq_true (prefix_append _ _))]
      have inside := confined tree none _ _ escapes.root returned denoted
      have same := inside.eq_of_length (by simp)
      simp at same
  · rintro (top | short | back) tree getcwd real object directory found denoted
    · rw [top]
      exact nil_prefix
    · exact absurd short long
    · have there : tree.IsDirectory names := directory.above back
      have atNames := lstat_spelled valid fits (there.above (List.dropLast_prefix names))
      have plain : ∀ target, lstat tree (cleanSpelling names) ≠ some (.symlink target) := by
        intro target
        rw [atNames]
        split
        · simp
        rename_i proper
        simp [there.kind proper]
      rw [utilRealpathInScope, if_neg long, cleaned, bind_some, findRealpath_of_noLink plain,
        filter_some] at found
      split at found
      next begins =>
        cases found
        rw [denotes_directory valid there, some.injEq] at denoted
        rw [← denoted, eq_of_cleanSpelling_prefix root.2 back (of_decide_eq_true begins)]
      · cases found

/-- A root file system `/r` in which `etc` is a link to `/host`, with a file there. -/
def linkedEtc : FileTree Unit :=
  ((((FileTree.empty.create ⟨["r".toList], .directory, (0, 0), ()⟩).bind
    (·.create ⟨["r".toList, "etc".toList], .symlink "/host".toList, (0, 0), ()⟩)).bind
    (·.create ⟨["host".toList], .directory, (0, 0), ()⟩)).bind
    (·.create ⟨["host".toList, "passwd".toList], .regular [], (0, 0), ()⟩)).getD .empty

theorem utilRealpathInScope_linkedEtc :
    utilRealpathInScope linkedEtc none "/r".toList "/etc/passwd".toList =
        some "/r/etc/passwd".toList ∧
      denotes linkedEtc "/r/etc/passwd".toList = some ["host".toList, "passwd".toList] ∧
      ∃ valid free, ¬ Confined ⟨["r".toList], valid⟩ ⟨"/etc/passwd".toList, free⟩ := by
  have found : utilRealpathInScope linkedEtc none (cleanSpelling ["r".toList])
      "/etc/passwd".toList = some "/r/etc/passwd".toList := by decide +kernel
  have denoted : denotes linkedEtc "/r/etc/passwd".toList =
      some ["host".toList, "passwd".toList] := by decide +kernel
  have isName : IsName "r".toList := ⟨by decide, by decide, by decide, by decide, by decide⟩
  have directory : linkedEtc.IsDirectory ["r".toList] := by decide +kernel
  have outside : ¬ ["r".toList] <+: ["host".toList, "passwd".toList] := by decide
  exact ⟨found, denoted, by simpa using isName, by decide, fun confined =>
    outside (confined linkedEtc none _ _ directory found denoted)⟩

end Isulad.Path
