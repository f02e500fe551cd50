import Mathlib.Data.List.Infix
import Isulad.Std.Keyed

/-!
# Trees of files

A file system below one root, as the table of its objects by location. Every object
stands in a directory. Texts are resolved as the kernel does: component by component,
following symbolic links a bounded number of times, with the root as the current
directory. Objects carry a tag of the client's choice, which no operation reads.
-/

namespace Isulad.Std

open Keyed List

variable {text name part : List Char}

/-- The parts of a text between its slashes. -/
def components (text : List Char) : List (List Char) := text.splitOn '/'

/-- The parts of a text that do not name anything. -/
def Blank (name : List Char) : Prop := name = [] ∨ name = ['.']

instance (name : List Char) : Decidable (Blank name) := inferInstanceAs (Decidable (_ ∨ _))

/-- The names that a text goes through, `..` among them. -/
def namesOf (text : List Char) : List (List Char) :=
  (components text).filter fun name => decide (¬ Blank name)

theorem components_append (front back : List Char) :
    components (front ++ '/' :: back) = components front ++ components back :=
  splitOnP_append_cons front back (by simp)

theorem components_of_plain (plain : '/' ∉ text) : components text = [text] := by
  have joined := @splitOn_intercalate _ [text] _ _ '/' (by simpa using plain) (by simp)
  simpa [components] using joined

theorem notMem_of_mem_components (member : part ∈ components text) : '/' ∉ part := by
  induction length : text.length using Nat.strong_induction_on generalizing text with
  | _ count ih =>
  by_cases slash : '/' ∈ text
  · obtain ⟨front, back, rfl⟩ := append_of_mem slash
    rw [components_append, mem_append] at member
    simp at length
    rcases member with first | second
    · exact ih front.length (by omega) first rfl
    · exact ih back.length (by omega) second rfl
  · rw [components_of_plain slash, mem_singleton] at member
    exact member ▸ slash

@[simp] theorem namesOf_append (front back : List Char) :
    namesOf (front ++ '/' :: back) = namesOf front ++ namesOf back := by
  rw [namesOf, components_append, filter_append]
  rfl

@[simp] theorem namesOf_slash (text : List Char) : namesOf ('/' :: text) = namesOf text :=
  namesOf_append [] text

theorem namesOf_of_plain (plain : '/' ∉ text) :
    namesOf text = if Blank text then [] else [text] := by
  rw [namesOf, components_of_plain plain]
  by_cases blank : Blank text <;> simp [blank]

/-- A text that can name an object in a directory. -/
structure Ordinary (name : List Char) : Prop where
  plain : '/' ∉ name
  notBlank : ¬ Blank name
  notDotDot : name ≠ ['.', '.']

theorem ordinary_iff : Ordinary name ↔ '/' ∉ name ∧ ¬ Blank name ∧ name ≠ ['.', '.'] :=
  ⟨fun ordinary => ⟨ordinary.plain, ordinary.notBlank, ordinary.notDotDot⟩,
    fun ⟨plain, notBlank, notDotDot⟩ => ⟨plain, notBlank, notDotDot⟩⟩

instance (name : List Char) : Decidable (Ordinary name) := decidable_of_iff _ ordinary_iff.symm

theorem Ordinary.namesOf (ordinary : Ordinary name) : namesOf name = [name] := by
  rw [namesOf_of_plain ordinary.plain, if_neg ordinary.notBlank]

/-- What an object is. -/
inductive Kind where
  | directory
  | regular (data : List Char)
  | symlink (target : List Char)
  | charDevice (major minor : Nat)
  deriving DecidableEq, Repr

/-- The names from the root down. -/
abbrev Location := List (List Char)

/-- An object of a file system. -/
structure Object (Tag : Type) where
  path : Location
  kind : Kind
  owner : Nat × Nat
  tag : Tag
  deriving DecidableEq, Repr

/-- The root, or a location at which the table has a directory. -/
def DirectoryIn {Tag : Type} (objects : Keyed (@Object.path Tag)) (location : Location) : Prop :=
  location = [] ∨ (objects.find location).map Object.kind = some .directory

instance {Tag : Type} (objects : Keyed (@Object.path Tag)) (location : Location) :
    Decidable (DirectoryIn objects location) := inferInstanceAs (Decidable (_ ∨ _))

/-- A table of objects in which every object stands in a directory, under ordinary names. -/
structure FileTree (Tag : Type) where
  objects : Keyed (@Object.path Tag)
  rooted : ∀ {location object}, objects.find location = some object →
    location ≠ [] ∧ DirectoryIn objects location.dropLast
  named : ∀ {location object}, objects.find location = some object →
    ∀ name ∈ location, Ordinary name

namespace FileTree

variable {Tag : Type} {tree changed : FileTree Tag} {location other front below : Location}
  {object : Object Tag}

/-- The object at a location. -/
def find (tree : FileTree Tag) (location : Location) : Option (Object Tag) :=
  tree.objects.find location

/-- There is a directory at the location. -/
def IsDirectory (tree : FileTree Tag) (location : Location) : Prop :=
  DirectoryIn tree.objects location

instance : Decidable (tree.IsDirectory location) := inferInstanceAs (Decidable (DirectoryIn _ _))

theorem isDirectory_root : tree.IsDirectory [] := .inl rfl

section

variable (found : tree.find location = some object)
include found

theorem path_of_find : object.path = location :=
  (find_eq_some_iff.mp found).2

theorem mem_of_find : object ∈ tree.objects.entries :=
  (find_eq_some_iff.mp found).1

/-- What lies on the way to an object is a directory. -/
theorem isDirectory_above (above : front <+: location)
    (proper : front ≠ location) : tree.IsDirectory front := by
  obtain ⟨rest, rfl⟩ := above
  induction rest using List.reverseRecOn generalizing object with
  | nil => exact absurd (append_nil front).symm proper
  | append_singleton rest name ih =>
    have parent := (tree.rooted found).2
    rw [← append_assoc, dropLast_concat] at parent
    by_cases here : rest = []
    · rw [here, append_nil] at parent
      exact parent
    · rcases parent with root | directory
      · exact absurd (append_eq_nil_iff.mp root).2 here
      · obtain ⟨above, foundAbove, _⟩ := Option.map_eq_some_iff.mp directory
        exact ih foundAbove (by simpa using here)

end

theorem IsDirectory.above (directory : tree.IsDirectory location) (above : front <+: location) :
    tree.IsDirectory front := by
  by_cases same : front = location
  · exact same ▸ directory
  rcases directory with rfl | directory
  · exact absurd (prefix_nil.mp above) same
  · obtain ⟨object, found, _⟩ := Option.map_eq_some_iff.mp directory
    exact isDirectory_above found above same

theorem IsDirectory.kind (directory : tree.IsDirectory location) (proper : location ≠ []) :
    (tree.find location).map Object.kind = some .directory :=
  directory.resolve_left proper

theorem find_below (isFile : ¬ tree.IsDirectory location) (above : location <+: below)
    (proper : location ≠ below) : tree.find below = none := by
  cases found : tree.find below with
  | none => rfl
  | some object => exact absurd (isDirectory_above found above proper) isFile

theorem not_isDirectory_of_find (absent : tree.find location = none) (proper : location ≠ []) :
    ¬ tree.IsDirectory location := by
  rintro (root | directory)
  · exact proper root
  · rw [show tree.objects.find location = none from absent] at directory
    cases directory

theorem find_of_absent (absent : tree.find location = none) (proper : location ≠ [])
    (above : location <+: below) : tree.find below = none := by
  by_cases same : location = below
  · exact same ▸ absent
  · exact find_below (not_isDirectory_of_find absent proper) above same

theorem IsDirectory.named (directory : tree.IsDirectory location) :
    ∀ name ∈ location, Ordinary name := by
  rcases directory with rfl | directory
  · simp
  obtain ⟨object, found, _⟩ := Option.map_eq_some_iff.mp directory
  exact tree.named found

/-- Remove an object with everything below it; at the root, empty the tree. -/
def without (tree : FileTree Tag) (location : Location) : FileTree Tag where
  objects := tree.objects.filter fun other => !decide (location <+: other)
  rooted := by
    intro other object found
    rw [find_filter] at found
    split at found
    next kept =>
      obtain ⟨proper, parent⟩ := tree.rooted found
      refine ⟨proper, parent.imp_right fun directory => ?_⟩
      have keptParent : (!decide (location <+: other.dropLast)) = true := by
        simp at kept ⊢
        exact fun below => kept (below.trans (List.dropLast_prefix other))
      rw [find_filter, if_pos keptParent]
      exact directory
    · cases found
  named := by
    intro other object found
    rw [find_filter] at found
    split at found
    · exact tree.named found
    · cases found

theorem find_without :
    (tree.without location).find other = if location <+: other then none else tree.find other := by
  rw [find, without, find_filter]
  by_cases below : location <+: other <;> simp [below, find]

/-- Make an object in a directory where there is none of its name yet. -/
def create (tree : FileTree Tag) (object : Object Tag) : Option (FileTree Tag) :=
  if allowed : object.path ≠ [] ∧ tree.IsDirectory object.path.dropLast ∧
      tree.objects.find object.path = none ∧ ∀ name ∈ object.path, Ordinary name then
    some
      { objects := tree.objects.insert object allowed.2.2.1
        rooted := by
          have keeps : ∀ {front}, tree.IsDirectory front →
              DirectoryIn (tree.objects.insert object allowed.2.2.1) front := by
            intro front directory
            refine directory.imp_right fun found => ?_
            rw [find_insert, if_neg]
            · exact found
            · rintro rfl
              rw [allowed.2.2.1] at found
              cases found
          intro location other found
          rw [find_insert] at found
          split at found
          next same =>
            subst same
            exact ⟨allowed.1, keeps allowed.2.1⟩
          · obtain ⟨proper, parent⟩ := tree.rooted found
            exact ⟨proper, keeps parent⟩
        named := by
          intro location other found
          rw [find_insert] at found
          split at found
          next same => exact same ▸ allowed.2.2.2
          · exact tree.named found }
  else none

theorem create_eq_some_iff : tree.create object = some changed ↔
    ∃ allowed : object.path ≠ [] ∧ tree.IsDirectory object.path.dropLast ∧
      tree.objects.find object.path = none ∧ ∀ name ∈ object.path, Ordinary name,
      tree.objects.insert object allowed.2.2.1 = changed.objects := by
  unfold create
  split
  next allowed =>
    rw [Option.some.injEq]
    constructor
    · rintro rfl
      exact ⟨allowed, rfl⟩
    · rintro ⟨_, same⟩
      cases changed
      cases same
      rfl
  next refused => simp [refused]

theorem find_create (made : tree.create object = some changed) :
    changed.find location = if location = object.path then some object else tree.find location := by
  obtain ⟨allowed, inserted⟩ := create_eq_some_iff.mp made
  rw [find, ← inserted, find_insert]
  rfl

variable {name : List Char}

theorem exists_create (directory : tree.IsDirectory location) (ordinary : Ordinary name)
    (path : object.path = location ++ [name]) (absent : tree.find (location ++ [name]) = none) :
    ∃ changed, tree.create object = some changed := by
  unfold create
  rw [dif_pos]
  · exact ⟨_, rfl⟩
  · rw [path, dropLast_concat]
    refine ⟨by simp, directory, absent, ?_⟩
    exact forall_mem_append.mpr ⟨directory.named, forall_mem_singleton.mpr ordinary⟩

/-- Set the owner and the tag of the object at a location. -/
def adjust (tree : FileTree Tag) (location : Location) (owner : Nat × Nat) (tag : Tag → Tag) :
    FileTree Tag where
  objects := tree.objects.modify location
    (fun object => { object with owner, tag := tag object.tag }) fun _ => rfl
  rooted := by
    have kinds : ∀ {front}, ((tree.objects.modify location
        (fun object => { object with owner, tag := tag object.tag }) fun _ => rfl).find front).map
          Object.kind = (tree.objects.find front).map Object.kind := by
      intro front
      rw [find_modify]
      split
      · rw [Option.map_map]
        rfl
      · rfl
    intro other object found
    obtain ⟨before, foundBefore⟩ := find_of_find_modify found
    obtain ⟨proper, parent⟩ := tree.rooted foundBefore
    exact ⟨proper, parent.imp_right fun directory => kinds.trans directory⟩
  named := by
    intro other object found
    obtain ⟨before, foundBefore⟩ := find_of_find_modify found
    exact tree.named foundBefore

theorem find_adjust {owner : Nat × Nat} {tag : Tag → Tag} :
    (tree.adjust location owner tag).find other =
      if other = location then
        (tree.find other).map fun object => { object with owner, tag := tag object.tag }
      else tree.find other := by
  rw [find, adjust, find_modify]
  rfl

/-- The objects at the doomed locations are gone, the others are as they were. -/
structure Prunes (before after : FileTree Tag) (doomed : Location → Prop) : Prop where
  gone : ∀ {location}, doomed location → after.find location = none
  kept : ∀ {location}, ¬ doomed location → after.find location = before.find location

namespace Prunes

variable {before middle after : FileTree Tag} {doomed more : Location → Prop}

theorem refl (none : ∀ location, ¬ doomed location) : Prunes tree tree doomed where
  gone isDoomed := absurd isDoomed (none _)
  kept _ := rfl

theorem without : Prunes tree (tree.without location) (location <+: ·) where
  gone below := by rw [find_without, if_pos below]
  kept elsewhere := by rw [find_without, if_neg elsewhere]

theorem trans (first : Prunes before middle doomed) (second : Prunes middle after more) :
    Prunes before after fun location => doomed location ∨ more location where
  gone := by
    intro location isDoomed
    by_cases last : more location
    · exact second.gone last
    · rw [second.kept last, first.gone (isDoomed.resolve_right last)]
  kept := by
    intro location spared
    rw [second.kept fun last => spared (.inr last),
      first.kept fun isDoomed => spared (.inl isDoomed)]

section

variable (prunes : Prunes before after doomed)
include prunes

theorem absent (absent : before.find location = none) :
    after.find location = none := by
  by_cases isDoomed : doomed location
  · exact prunes.gone isDoomed
  · exact (prunes.kept isDoomed).trans absent

/-- Only the locations that have an object count. -/
theorem congr (same : ∀ {location object}, before.find location = some object →
      (doomed location ↔ more location)) : Prunes before after more where
  gone := by
    intro location last
    cases found : before.find location with
    | none => exact prunes.absent found
    | some object => exact prunes.gone ((same found).mpr last)
  kept := by
    intro location spared
    cases found : before.find location with
    | none => exact prunes.absent found
    | some object =>
      exact (prunes.kept fun isDoomed => spared ((same found).mp isDoomed)).trans found

theorem isDirectory (spared : ¬ doomed location)
    (directory : before.IsDirectory location) : after.IsDirectory location :=
  directory.imp_right fun kind =>
    (congrArg (Option.map Object.kind) (prunes.kept spared)).trans kind

end

end Prunes

variable {links : Nat} {here there path : Location} {names : List (List Char)}

/-- Walk to a directory, handing links over to `follow`. -/
def walkWith (tree : FileTree Tag) (follow : Location → List (List Char) → Option Location) :
    Location → List (List Char) → Option Location
  | here, [] => some here
  | here, name :: rest =>
    if name = [] ∨ name = ['.'] then walkWith tree follow here rest
    else if name = ['.', '.'] then walkWith tree follow here.dropLast rest
    else
      match (tree.find (here ++ [name])).map Object.kind with
      | some .directory => walkWith tree follow (here ++ [name]) rest
      | some (.symlink target) =>
        follow (if target.head? = some '/' then [] else here) (components target ++ rest)
      | _ => none

/-- Walk to a directory across at most `links` symbolic links. -/
def walk (tree : FileTree Tag) : Nat → Location → List (List Char) → Option Location
  | 0 => walkWith tree fun _ _ => none
  | links + 1 => walkWith tree (walk tree links)

/-- The number of links the kernel follows in one resolution. -/
def maxLinks : Nat := 40

theorem walkWith_filter (follow : Location → List (List Char) → Option Location)
    (follows : ∀ here front rest,
      follow here (front ++ rest) =
        follow here (front ++ rest.filter fun name => decide (¬ Blank name)))
    (here : Location) (names : List (List Char)) :
    walkWith tree follow here names =
      walkWith tree follow here (names.filter fun name => decide (¬ Blank name)) := by
  induction names generalizing here with
  | nil => rfl
  | cons name rest ih =>
    by_cases blank : Blank name
    · rw [filter_cons_of_neg (by simpa using blank), ← ih, walkWith]
      exact if_pos blank
    · have named : ¬ (name = [] ∨ name = ['.']) := blank
      rw [filter_cons_of_pos (by simpa using blank), walkWith, walkWith, if_neg named,
        if_neg named]
      simp only [← ih, ← follows]

/-- Blank parts of a path do not change where it leads. -/
theorem walk_filter (links : Nat) (here : Location) (names : List (List Char)) :
    walk tree links here names =
      walk tree links here (names.filter fun name => decide (¬ Blank name)) := by
  induction links generalizing here names with
  | zero => exact walkWith_filter _ (fun _ _ _ => rfl) here names
  | succ links ih =>
    refine walkWith_filter _ (fun here front rest => ?_) here names
    rw [ih, ih here (front ++ rest.filter _)]
    simp

theorem walk_isDirectory (directory : tree.IsDirectory here)
    (walked : walk tree links here names = some there) :
    tree.IsDirectory there := by
  have parent : ∀ {location}, tree.IsDirectory location → tree.IsDirectory location.dropLast := by
    rintro location (rfl | directory)
    · exact .inl rfl
    · obtain ⟨object, found, _⟩ := Option.map_eq_some_iff.mp directory
      exact (tree.rooted found).2
  have one : ∀ {follow : Location → List (List Char) → Option Location},
      (∀ {here names}, tree.IsDirectory here → follow here names = some there →
        tree.IsDirectory there) →
      ∀ {here names}, tree.IsDirectory here → walkWith tree follow here names = some there →
        tree.IsDirectory there := by
    intro follow follows here names
    induction names generalizing here with
    | nil =>
      rintro directory ⟨⟩
      exact directory
    | cons name rest ih =>
      intro directory walked
      rw [walkWith] at walked
      split at walked
      · exact ih directory walked
      split at walked
      · exact ih (parent directory) walked
      split at walked
      next found => exact ih (.inr found) walked
      next target _ =>
        refine follows ?_ walked
        split
        · exact .inl rfl
        · exact directory
      · cases walked
  induction links generalizing here names with
  | zero =>
    refine @one (fun _ _ => none) ?_ _ _ directory walked
    rintro _ _ _ ⟨⟩
  | succ links ih => exact one ih directory walked

theorem walk_mono {larger : FileTree Tag}
    (more : ∀ {location object}, tree.find location = some object → larger.find location = some
      object) (walked : walk tree links here names = some there) :
    walk larger links here names = some there := by
  have one : ∀ {follow follow' : Location → List (List Char) → Option Location},
      (∀ {here names}, follow here names = some there → follow' here names = some there) →
      ∀ {here names}, walkWith tree follow here names = some there →
        walkWith larger follow' here names = some there := by
    intro follow follow' follows here names
    induction names generalizing here with
    | nil => exact id
    | cons name rest ih =>
      intro walked
      rw [walkWith] at walked ⊢
      split at walked
      next blank =>
        rw [if_pos blank]
        exact ih walked
      next named =>
        rw [if_neg named]
        split at walked
        next up =>
          rw [if_pos up]
          exact ih walked
        next down =>
          rw [if_neg down]
          cases found : tree.find (here ++ [name]) with
          | none => simp [found] at walked
          | some object =>
            rw [found] at walked
            rw [more found]
            split at walked
            · exact ih walked
            · exact follows walked
            · cases walked
  induction links generalizing here names with
  | zero =>
    refine @one (fun _ _ => none) (fun _ _ => none) ?_ _ _ walked
    rintro _ _ ⟨⟩
  | succ links ih => exact one ih walked

/-- A walk along directories follows no link. -/
theorem walk_directory (directory : tree.IsDirectory (here ++ names)) :
    walk tree links here names = some (here ++ names) := by
  have one : ∀ (follow : Location → List (List Char) → Option Location) {here names},
      tree.IsDirectory (here ++ names) →
        walkWith tree follow here names = some (here ++ names) := by
    intro follow here names directory
    induction names generalizing here with
    | nil => rw [walkWith, append_nil]
    | cons name rest ih =>
      have ordinary : Ordinary name := directory.named name (by simp)
      rw [← singleton_append, ← append_assoc] at directory ⊢
      have step : tree.IsDirectory (here ++ [name]) := directory.above (prefix_append _ _)
      have notBlank : ¬ (name = [] ∨ name = ['.']) := ordinary.notBlank
      rw [singleton_append, walkWith, if_neg notBlank, if_neg ordinary.notDotDot,
        step.kind (by simp)]
      exact ih directory
  cases links with
  | zero => exact one _ directory
  | succ links => exact one _ directory

/-- The directory that a text names. -/
def resolve (tree : FileTree Tag) (text : List Char) : Option Location :=
  walk tree maxLinks [] (components text)

theorem resolve_eq (text : List Char) : resolve tree text = walk tree maxLinks [] (namesOf text) :=
  walk_filter _ _ _

/-- The location that a text names when a last link is not followed. -/
def locateFrom (tree : FileTree Tag) (here : Location) (text : List Char) : Option Location :=
  let start := if text.head? = some '/' then [] else here
  let names := components text
  let last := names.getLastD []
  if Blank last ∨ last = ['.', '.'] then walk tree maxLinks start names
  else (walk tree maxLinks start names.dropLast).map (· ++ [last])

/-- The location that a text names, seen from the root. -/
def locate (tree : FileTree Tag) (text : List Char) : Option Location := locateFrom tree [] text

theorem resolve_directory (directory : tree.IsDirectory (namesOf text)) :
    resolve tree text = some (namesOf text) := by
  rw [resolve_eq]
  exact walk_directory directory

/-- There is a symbolic link at the location. -/
def IsLink (tree : FileTree Tag) (location : Location) : Prop :=
  ∃ target, (tree.find location).map Object.kind = some (.symlink target)

theorem resolve_eq_none (ordinary : Ordinary name) (notDirectory : ¬ tree.IsDirectory [name])
    (notLink : ¬ tree.IsLink [name]) :
    resolve tree name = none := by
  have notBlank : ¬ (name = [] ∨ name = ['.']) := ordinary.notBlank
  rw [resolve_eq, ordinary.namesOf, maxLinks, walk, walkWith, if_neg notBlank,
    if_neg ordinary.notDotDot]
  split
  next kind => exact absurd (.inr kind) notDirectory
  next target kind => exact absurd ⟨target, kind⟩ notLink
  · rfl

theorem locate_join (dir : List Char) (ordinary : Ordinary name) :
    locate tree (dir ++ '/' :: name) = (resolve tree dir).map (· ++ [name]) := by
  have last : ¬ (Blank name ∨ name = ['.', '.']) :=
    not_or.mpr ⟨ordinary.notBlank, ordinary.notDotDot⟩
  unfold locate locateFrom
  simp [components_append, components_of_plain ordinary.plain, if_neg last]
  rfl

theorem locate_name (ordinary : Ordinary name) :
    locate tree name = some [name] := by
  have last : ¬ (Blank name ∨ name = ['.', '.']) :=
    not_or.mpr ⟨ordinary.notBlank, ordinary.notDotDot⟩
  unfold locate locateFrom
  simp [components_of_plain ordinary.plain, if_neg last]
  rfl

/-- Follow the links at a location itself. -/
def follow (tree : FileTree Tag) : Nat → Location → Option Location
  | 0, _ => none
  | links + 1, location =>
    match (tree.find location).map Object.kind with
    | some (.symlink target) => (tree.locateFrom location.dropLast target).bind (tree.follow links)
    | some _ => some location
    | none => if location = [] then some [] else none

/-- The tree with nothing below its root. -/
def empty : FileTree Tag where
  objects := ⟨[], nodup_nil⟩
  rooted found := by cases found
  named found := by cases found

/-- The tree has nothing but directories. -/
def Bare (tree : FileTree Tag) : Prop :=
  ∀ location object, tree.find location = some object → object.kind = .directory

theorem bare_empty : (empty : FileTree Tag).Bare := nofun

theorem isDirectory_empty : (empty : FileTree Tag).IsDirectory location ↔ location = [] :=
  or_iff_left nofun

theorem Bare.find_eq_none (bare : tree.Bare) (absent : ¬ tree.IsDirectory location) :
    tree.find location = none := by
  cases found : tree.find location with
  | none => rfl
  | some object =>
    refine absurd (.inr ?_) absent
    rw [show tree.objects.find location = some object from found, Option.map_some, bare _ _ found]

theorem isDirectory_create (made : tree.create object = some changed) :
    changed.IsDirectory location ↔
      tree.IsDirectory location ∨ location = object.path ∧ object.kind = .directory := by
  obtain ⟨allowed, -⟩ := create_eq_some_iff.mp made
  have found : changed.objects.find location = _ := find_create made
  unfold IsDirectory DirectoryIn
  rw [found]
  split
  next same => simp [same, allowed.2.2.1]
  next other => simp [other, find]

/-- The directories on the way to a location can be made. -/
theorem Bare.exists_directories [Inhabited Tag] (bare : tree.Bare)
    (ordinary : ∀ name ∈ path, Ordinary name) :
    ∃ changed : FileTree Tag, changed.Bare ∧
      ∀ location, changed.IsDirectory location ↔ tree.IsDirectory location ∨ location <+: path := by
  induction path using List.reverseRecOn with
  | nil =>
    refine ⟨tree, bare, fun location => ?_⟩
    rw [prefix_nil, or_iff_left_of_imp]
    rintro rfl
    exact isDirectory_root
  | append_singleton path name ih =>
    obtain ⟨middle, bareMiddle, directories⟩ :=
      ih fun other member => ordinary other (by simp [member])
    have here : middle.IsDirectory path := (directories path).mpr (.inr prefix_rfl)
    by_cases there : middle.IsDirectory (path ++ [name])
    · refine ⟨middle, bareMiddle, fun location => ?_⟩
      rw [directories, prefix_concat_iff]
      refine ⟨fun either => either.imp_right .inr, ?_⟩
      rintro (old | rfl | above)
      · exact .inl old
      · exact (directories _).mp there
      · exact .inr above
    · obtain ⟨changed, made⟩ : ∃ changed,
          middle.create ⟨path ++ [name], .directory, (0, 0), default⟩ = some changed :=
        exists_create here (ordinary name (by simp)) rfl (bareMiddle.find_eq_none there)
      refine ⟨changed, fun location object found => ?_, fun location => ?_⟩
      · rw [find_create made] at found
        split at found
        · cases found
          rfl
        · exact bareMiddle _ _ found
      · rw [isDirectory_create made, directories, prefix_concat_iff]
        constructor
        · rintro ((old | above) | ⟨rfl, -⟩)
          · exact .inl old
          · exact .inr (.inr above)
          · exact .inr (.inl rfl)
        · rintro (old | rfl | above)
          · exact .inl (.inl old)
          · exact .inr ⟨rfl, rfl⟩
          · exact .inl (.inr above)

end FileTree

end Isulad.Std
