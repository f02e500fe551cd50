import Isulad.Path.Parts

/-!
# Unpacking a layer archive

`archive_unpack_handler` of `utils/tar/util_archive.c`. The process has changed its root
and its current directory to the directory it unpacks into, so that directory is the
whole file tree. The extraction of an entry belongs to libarchive and is a parameter with
the laws that are relied on, `Extractor`. A subtree that `util_recursive_remove_path` is asked to
remove is gone afterwards (what its own walk cannot remove is left to `rm -rf`).

Every object is tagged with where it comes from. The handler never reads the tag.
-/

namespace Isulad.Tar

open Isulad.Std Isulad.Path

/-- The characters of a path. -/
abbrev Text := List Char

/-- Where an object comes from: it was there before, it was unpacked as an entry, or it
was made as the missing parent of one. -/
inductive Origin where
  | base
  | archive
  | parent
  deriving DecidableEq, Repr

/-- The tree that is unpacked into. -/
abbrev Tree := FileTree Origin

/-- `whiteout_format_type`. -/
inductive WhiteoutFormat where
  | none
  | overlay
  | remove
  deriving DecidableEq, Repr

/-- `struct archive_options`. -/
structure ArchiveOptions where
  whiteoutFormat : WhiteoutFormat
  srcBase : Option Text
  dstBase : Option Text

/-- What an entry holds: an object of its own, or another name of one. -/
inductive Content where
  | node (kind : Kind)
  | hardlink (linkname : Text)
  deriving DecidableEq, Repr

/-- `struct archive_entry`. -/
structure ArchiveEntry where
  pathname : Text
  content : Content
  owner : Nat × Nat
  deriving DecidableEq, Repr

/-- The state of the unpacking loop: the tree, the paths of the entries extracted so far
and the directories that carry the overlay's opaque attribute. -/
structure Unpacking where
  tree : Tree
  unpacked : List Text
  opaqueDirs : List Location

variable (options : ArchiveOptions) (tree : Tree) (path : Text) (entry : ArchiveEntry)

/-- `rebase_pathname` and `rebase_hardlink`: replace a leading `src_base`. -/
def rebase : Option Text :=
  match options.srcBase, options.dstBase with
  | some src, some dst =>
    if src.isPrefixOf path then
      let rebased := dst ++ path.drop src.length
      if pathMax ≤ rebased.length then none else some rebased
    else some path
  | _, _ => some path

/-- `to_relative_path`. -/
def toRelativePath : Text :=
  match path with
  | ['/'] => ['.']
  | '/' :: rest => rest
  | _ => path

/-- `update_entry_for_pathname`. -/
def updateEntryForPathname : Option Text :=
  (rebase options entry.pathname).map toRelativePath

/-- `WHITEOUT_PREFIX`. -/
def whiteoutMark : Text := ['.', 'w', 'h', '.']

/-- `WHITEOUT_OPAQUEDIR`. -/
def whiteoutOpaquedir : Text := ".wh..wh..opq".toList

/-- `MAX_PATH_DEPTH`. -/
def maxPathDepth : Nat := 1024

/-- The character device that stands for a whiteout. -/
def whiteoutDevice : Kind := .charDevice 0 0

/-- `util_recursive_remove_path`. -/
def utilRecursiveRemovePath : Tree :=
  match tree.locate path with
  | none => tree
  | some location => tree.without location

/-- The names in a directory. -/
def children (location : Location) : List (List Char) :=
  tree.objects.entries.filterMap fun object =>
    if object.path.dropLast = location then object.path.getLast? else none

/-- The loop's body in `remove_files_in_opq_dir`, for one name in the directory. -/
def clearChild (unpacked : List Text) (recurse : Text → Tree → Bool × Tree) (dirpath : Text) :
    Bool × Tree → List Char → Bool × Tree
  | (ok, tree), name =>
    let fname := dirpath ++ '/' :: name
    if pathMax ≤ fname.length then (false, tree)
    else if fname ∉ unpacked then (ok, utilRecursiveRemovePath tree fname)
    else
      match ((tree.locate fname).bind tree.find).map Object.kind with
      | none => (false, tree)
      | some .directory =>
        let below := recurse fname tree
        (ok && below.1, below.2)
      | some _ => (ok, tree)

/-- `remove_files_in_opq_dir`, with the levels left below `MAX_PATH_DEPTH`. -/
def removeFilesInOpqDir (unpacked : List Text) : Nat → Text → Tree → Bool × Tree
  | 0, _, tree => (false, tree)
  | levels + 1, dirpath, tree =>
    match tree.resolve dirpath with
    | none => (false, tree)
    | some location =>
      (children tree location).foldl
        (clearChild unpacked (removeFilesInOpqDir unpacked levels) dirpath) (true, tree)

/-- `mknod` of a whiteout device. -/
def mknod : Tree :=
  ((tree.locate path).bind fun location =>
    tree.create { path := location, kind := whiteoutDevice, owner := (0, 0), tag := .archive }).getD
      tree

/-- `chown`, which follows links. -/
def chown (owner : Nat × Nat) : Tree :=
  match (tree.locate path).bind (tree.follow FileTree.maxLinks) with
  | none => tree
  | some location => tree.adjust location owner id

/-- `overlay_whiteout_convert_read`; the flag is `do_write`. -/
def overlayWhiteoutConvertRead (dstPath : Text) (state : Unpacking) : Bool × Unpacking :=
  let base := utilPathBase dstPath
  let dir := utilPathDir dstPath
  if base = whiteoutOpaquedir then
    match state.tree.resolve dir with
    | none => (false, state)
    | some location => (false, { state with opaqueDirs := location :: state.opaqueDirs })
  else if whiteoutMark.isPrefixOf base then
    match utilPathJoin (some rootDir) dir (base.drop whiteoutMark.length) with
    | none => (true, state)
    | some originalpath =>
      (false, { state with tree := chown (mknod state.tree originalpath) originalpath entry.owner })
  else (true, state)

/-- `remove_whiteout_convert`. -/
def removeWhiteoutConvert (_entry : ArchiveEntry) (dstPath : Text) (state : Unpacking) :
    Bool × Unpacking :=
  let base := utilPathBase dstPath
  let dir := utilPathDir dstPath
  if base = whiteoutOpaquedir then
    let cleared := removeFilesInOpqDir state.unpacked maxPathDepth dir state.tree
    (!cleared.1, { state with tree := cleared.2 })
  else if whiteoutMark.isPrefixOf base then
    match utilPathJoin (some rootDir) dir (base.drop whiteoutMark.length) with
    | none => (true, state)
    | some originalpath =>
      (false, { state with tree := utilRecursiveRemovePath state.tree originalpath })
  else (true, state)

/-- `get_whiteout_convert_cb`, called on an entry. -/
def whiteoutConvert (format : WhiteoutFormat) (entry : ArchiveEntry) (dstPath : Text)
    (state : Unpacking) : Bool × Unpacking :=
  match format with
  | .none => (true, state)
  | .overlay => overlayWhiteoutConvertRead entry dstPath state
  | .remove => removeWhiteoutConvert entry dstPath state

/-- `try_to_replace_exited_dst`. -/
def tryToReplaceExitedDst (dstPath : Text) (entry : ArchiveEntry) : Tree :=
  match tree.locate dstPath with
  | none => tree
  | some location =>
    if tree.IsDirectory location ∧ entry.content = .node .directory then tree
    else tree.without location

/-- After the extraction of an entry, what is new stands at its path or is a parent, and
nothing old is left at its path. -/
structure Extracts (dstPath : Text) (before after : Tree) : Prop where
  origin : ∀ {location object}, after.find location = some object →
    before.find location = some object ∨ object.tag = .archive ∧ location = namesOf dstPath ∨
      object.tag = .parent
  unpacked : ∀ {object}, after.find (namesOf dstPath) = some object → object.tag = .archive

/-- libarchive's extraction of one entry (`archive_write_header`, the data and
`archive_write_finish_entry`) with the flags that the handler sets. -/
structure Extractor where
  write : Tree → Text → ArchiveEntry → Option Tree
  extracts : ∀ {tree dstPath entry after}, write tree dstPath entry = some after →
    Extracts dstPath tree after
  /-- In a directory that is there, nothing changes but at the path. -/
  frame : ∀ {tree dstPath entry after}, write tree dstPath entry = some after →
    tree.IsDirectory (namesOf dstPath).dropLast →
    ∀ {location}, ¬ namesOf dstPath <+: location → after.find location = tree.find location
  /-- There an object of its own is made, unless the path is absolute. -/
  accepts : ∀ {tree dstPath pathname kind owner location name}, dstPath.head? ≠ some '/' →
    namesOf dstPath = location ++ [name] → Ordinary name → tree.IsDirectory location →
    (tree.find (location ++ [name]) = none ∨
      tree.IsDirectory (location ++ [name]) ∧ kind = .directory) →
    ∃ after, write tree dstPath ⟨pathname, .node kind, owner⟩ = some after

/-- `rebase_hardlink`. -/
def rebaseHardlink : Option ArchiveEntry :=
  match entry.content with
  | .node _ => some entry
  | .hardlink linkname =>
    (rebase options linkname).map fun linkname => { entry with content := .hardlink linkname }

variable (extractor : Extractor)

/-- Extract an entry over what stands at its path, and remember the path. -/
def extract (state : Unpacking) (dstPath : Text) (entry : ArchiveEntry) : Option Unpacking :=
  (extractor.write (tryToReplaceExitedDst state.tree dstPath entry) dstPath entry).map fun tree =>
    { state with tree := tree, unpacked := dstPath :: state.unpacked }

/-- One turn of the loop of `archive_unpack_handler`. -/
def unpackEntry (state : Unpacking) (entry : ArchiveEntry) : Option Unpacking :=
  (updateEntryForPathname options entry).bind fun dstPath =>
    (rebaseHardlink options entry).bind fun entry =>
      match whiteoutConvert options.whiteoutFormat entry dstPath state with
      | (false, state) => some state
      | (true, state) => extract extractor state dstPath entry

/-- `archive_unpack_handler`; `none` is the return value -1. -/
def archiveUnpackHandler (extractor : Extractor) (options : ArchiveOptions) :
    List ArchiveEntry → Unpacking → Option Unpacking
  | [], state => some state
  | entry :: rest, state =>
    (unpackEntry options extractor state entry).bind (archiveUnpackHandler extractor options rest)

/-- The state before the first entry. -/
def Unpacking.start : Unpacking where
  tree := tree
  unpacked := []
  opaqueDirs := []

theorem archiveUnpackHandler_append (front back : List ArchiveEntry) (state : Unpacking) :
    archiveUnpackHandler extractor options (front ++ back) state =
      (archiveUnpackHandler extractor options front state).bind
        (archiveUnpackHandler extractor options back) := by
  induction front generalizing state with
  | nil => rfl
  | cons entry rest ih =>
    simp [archiveUnpackHandler, Option.bind_assoc]
    exact congrArg _ (funext ih)

/-- The missing parents of a location, made from the root down. A link or a file on the
way ends the extraction. -/
def makeParents (owner : Nat × Nat) : Location → List (List Char) → Tree → Option Tree
  | _, [], tree => some tree
  | here, name :: rest, tree =>
    let location := here ++ [name]
    if tree.IsDirectory location then makeParents owner location rest tree
    else
      (tree.create { path := location, kind := .directory, owner := owner, tag := .parent }).bind
        (makeParents owner location rest)

/-- The kind of object an entry makes. -/
def Content.kind (tree : Tree) : Content → Option Kind
  | .node kind => some kind
  | .hardlink linkname => ((tree.locate linkname).bind tree.find).map Object.kind

/-- An extraction with the handler's flags: no absolute path, no `..` in a path and no link
on the way. -/
def plainWrite (dstPath : Text) (entry : ArchiveEntry) : Option Tree :=
  let names := namesOf dstPath
  if dstPath.head? = some '/' ∨ ['.', '.'] ∈ names then none
  else if tree.IsDirectory names ∧ entry.content = .node .directory then
    some (tree.adjust names entry.owner fun _ => .archive)
  else
    (makeParents entry.owner [] names.dropLast tree).bind fun tree =>
      (entry.content.kind tree).bind fun kind =>
        tree.create { path := names, kind := kind, owner := entry.owner, tag := .archive }

section Plain

open Option FileTree

variable {tree after : Tree} {owner : Nat × Nat} {dstPath : Text} {entry : ArchiveEntry}

/-- What is new after making parents is tagged as one. -/
theorem find_of_makeParents {here : Location} {names : List (List Char)}
    (made : makeParents owner here names tree = some after) {location : Location}
    {object : Object Origin} (found : after.find location = some object) :
    tree.find location = some object ∨ object.tag = .parent := by
  induction names generalizing here tree with
  | nil =>
    cases made
    exact .inl found
  | cons name names ih =>
    rw [makeParents] at made
    split at made
    · exact ih made
    obtain ⟨middle, created, rest⟩ := bind_eq_some_iff.mp made
    rcases ih rest with old | new
    · rw [find_create created] at old
      split at old
      · cases old
        exact .inr rfl
      · exact .inl old
    · exact .inr new

theorem makeParents_directory {tree : Tree} (owner : Nat × Nat) {here : Location}
    {names : List (List Char)} (directory : tree.IsDirectory (here ++ names)) :
    makeParents owner here names tree = some tree := by
  induction names generalizing here with
  | nil => rfl
  | cons name names ih =>
    rw [← List.singleton_append, ← List.append_assoc] at directory
    rw [makeParents, if_pos (directory.above (List.prefix_append _ _))]
    exact ih directory

theorem extracts_plainWrite (written : plainWrite tree dstPath entry = some after) :
    Extracts dstPath tree after := by
  unfold plainWrite at written
  dsimp only at written
  split at written
  · cases written
  split at written
  · -- A directory that is there already becomes the archive's.
    cases written
    constructor
    · intro location object found
      rw [find_adjust] at found
      split at found
      next here =>
        obtain ⟨old, -, rfl⟩ := map_eq_some_iff.mp found
        exact .inr (.inl ⟨rfl, here⟩)
      · exact .inl found
    · intro object found
      rw [find_adjust, if_pos rfl] at found
      obtain ⟨old, -, rfl⟩ := map_eq_some_iff.mp found
      rfl
  · obtain ⟨middle, parents, rest⟩ := bind_eq_some_iff.mp written
    obtain ⟨kind, -, created⟩ := bind_eq_some_iff.mp rest
    constructor
    · intro location object found
      rw [find_create created] at found
      split at found
      next here =>
        cases found
        exact .inr (.inl ⟨rfl, here⟩)
      · exact (find_of_makeParents parents found).imp_right .inr
    · intro object found
      rw [find_create created, if_pos rfl] at found
      cases found
      rfl

theorem plainWrite_frame (written : plainWrite tree dstPath entry = some after)
    (directory : tree.IsDirectory (namesOf dstPath).dropLast) {location : Location}
    (elsewhere : ¬ namesOf dstPath <+: location) : after.find location = tree.find location := by
  have other : location ≠ namesOf dstPath := by
    rintro rfl
    exact elsewhere (List.prefix_refl _)
  unfold plainWrite at written
  dsimp only at written
  split at written
  · cases written
  split at written
  · cases written
    rw [find_adjust, if_neg other]
  · rw [@makeParents_directory _ entry.owner [] (namesOf dstPath).dropLast directory,
      bind_some] at written
    obtain ⟨kind, -, created⟩ := bind_eq_some_iff.mp written
    rw [find_create created, if_neg other]

theorem exists_plainWrite {pathname : Text} {kind : Kind} {location : Location}
    {name : List Char} (relative : dstPath.head? ≠ some '/')
    (names : namesOf dstPath = location ++ [name]) (ordinary : Ordinary name)
    (directory : tree.IsDirectory location)
    (free : tree.find (location ++ [name]) = none ∨
      tree.IsDirectory (location ++ [name]) ∧ kind = .directory) :
    ∃ after, plainWrite tree dstPath ⟨pathname, .node kind, owner⟩ = some after := by
  have noDotDot : ['.', '.'] ∉ location ++ [name] := by
    intro member
    rcases List.mem_append.mp member with above | last
    · exact (directory.named _ above).notDotDot rfl
    · exact ordinary.notDotDot (List.mem_singleton.mp last).symm
  rw [plainWrite, names]
  dsimp only
  rw [if_neg (not_or.mpr ⟨relative, noDotDot⟩)]
  split
  · exact ⟨_, rfl⟩
  next fresh =>
    have absent := free.resolve_right fun both => fresh ⟨both.1, congrArg _ both.2⟩
    obtain ⟨made, created⟩ := @exists_create _ _ _
      { path := location ++ [name], kind := kind, owner := owner, tag := .archive } _ directory
      ordinary rfl absent
    rw [List.dropLast_concat, @makeParents_directory _ owner [] location directory, bind_some,
      Content.kind, bind_some, created]
    exact ⟨made, rfl⟩

/-- The laws can be met. -/
def plainExtractor : Extractor where
  write := plainWrite
  extracts := extracts_plainWrite
  frame := plainWrite_frame
  accepts := exists_plainWrite

end Plain

end Isulad.Tar
