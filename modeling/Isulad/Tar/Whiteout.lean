import Isulad.Tar.Unpack

/-!
# Whiteout entries

What unpacking an entry `D/.wh.X` does to the sibling `X` in the directory `D`. The two
converters rebuild the path of `X` from `util_path_dir` and `util_path_base`. With a slash
before the name they agree with the directory the entry names. For a bare name, at the top
level of the archive, `util_path_dir` returns the entry's own name, and the sibling is
looked for below that.
-/

namespace Isulad.Tar

open Option List Isulad.Std Isulad.Path FileTree

variable (format : WhiteoutFormat)

/-- The options with which the graph drivers unpack a layer. -/
def layerOptions : ArchiveOptions where
  whiteoutFormat := format
  srcBase := none
  dstBase := none

@[simp] theorem updateEntryForPathname_layer (entry : ArchiveEntry) :
    updateEntryForPathname (layerOptions format) entry = some (toRelativePath entry.pathname) := rfl

@[simp] theorem rebaseHardlink_layer (entry : ArchiveEntry) :
    rebaseHardlink (layerOptions format) entry = some entry := by
  rcases entry with ⟨pathname, _ | _, owner⟩ <;> rfl

/-- `NAME_MAX` of `limits.h`. -/
def nameMax : Nat := 255

/-- A legal spelling of the directory part of an entry's path: nothing, or text up to and
with a slash, without `..`. -/
structure IsLead (lead : Text) : Prop where
  boundary : lead = [] ∨ ∃ stem, lead = stem ++ ['/']
  noDotDot : ['.', '.'] ∉ namesOf lead
  free : '\x00' ∉ lead

/-- The directory part as `to_relative_path` leaves it. -/
def relativeLead (lead : Text) : Text :=
  match lead with
  | '/' :: rest => rest
  | _ => lead

/-- No slash is left before the entry's name. -/
def Bare (lead : Text) : Prop := relativeLead lead = []

instance (lead : Text) : Decidable (Bare lead) := inferInstanceAs (Decidable (_ = _))

section Lead

variable {lead name : Text}

theorem toRelativePath_lead (named : name ≠ []) (relative : name.head? ≠ some '/') :
    toRelativePath (lead ++ name) = relativeLead lead ++ name := by
  rcases lead with _ | ⟨first, rest⟩
  · obtain ⟨first, rest, rfl⟩ := exists_cons_of_ne_nil named
    unfold toRelativePath relativeLead
    split <;> simp_all
  by_cases slash : first = '/'
  · subst slash
    obtain ⟨next, more, long⟩ := exists_cons_of_ne_nil (append_ne_nil_of_right_ne_nil rest named)
    rw [cons_append, relativeLead, long]
    rfl
  · unfold toRelativePath relativeLead
    split <;> simp_all

theorem namesOf_relativeLead (lead : Text) : namesOf (relativeLead lead) = namesOf lead := by
  unfold relativeLead
  split
  · rw [namesOf_slash]
  · rfl

theorem IsLead.relative (isLead : IsLead lead) : IsLead (relativeLead lead) where
  boundary := by
    unfold relativeLead
    split
    next rest =>
      rcases isLead.boundary with empty | ⟨stem, ends⟩
      · cases empty
      cases stem with
      | nil => exact .inl (List.cons.inj ends).2
      | cons first stem => exact .inr ⟨stem, (List.cons.inj ends).2⟩
    · exact isLead.boundary
  noDotDot := by
    rw [namesOf_relativeLead]
    exact isLead.noDotDot
  free := by
    unfold relativeLead
    split
    next rest =>
      intro member
      exact isLead.free (mem_cons_of_mem _ member)
    · exact isLead.free

/-- What `util_path_dir` makes of an entry's path, `/` before the name or not. -/
theorem namesOf_utilPathDir (isLead : IsLead lead) (named : name ≠ []) (plain : '/' ∉ name) :
    namesOf (utilPathDir (lead ++ name)) = if lead = [] then namesOf name else namesOf lead := by
  rcases isLead.boundary with rfl | ⟨stem, rfl⟩
  · rw [if_pos rfl, nil_append, utilPathDir_bare named plain]
  rw [if_neg (by simp), append_assoc, singleton_append, utilPathDir_slash stem plain,
    namesOf_append]
  split
  next empty =>
    rw [empty]
    decide
  · exact (append_nil _).symm

end Lead

/-- The path `D/.wh.X` of a whiteout entry, in any legal spelling of `D`. -/
structure WhiteoutPath where
  lead : Text
  name : Text
  isLead : IsLead lead
  isName : IsName name
  notOpaque : whiteoutMark ++ name ≠ whiteoutOpaquedir
  fitsName : (whiteoutMark ++ name).length ≤ nameMax
  fitsPath : (lead ++ (whiteoutMark ++ name)).length < pathMax

namespace WhiteoutPath

variable (path : WhiteoutPath) (tree : Tree)

/-- The path as the archive has it. -/
def pathname : Text := path.lead ++ (whiteoutMark ++ path.name)

/-- The path as the handler uses it. -/
def dstPath : Text := relativeLead path.lead ++ (whiteoutMark ++ path.name)

/-- The directory text that the converters compute. -/
def dir : Text := utilPathDir path.dstPath

/-- Where `X` is: in the directory that the entry names. -/
def sibling : Option Location := (tree.resolve path.lead).map (· ++ [path.name])

/-- Where the converters look for `X`. -/
def target : Option Location := (tree.resolve path.dir).map (· ++ [path.name])

theorem marked_ne_nil : whiteoutMark ++ path.name ≠ [] := by simp [whiteoutMark]

theorem marked_plain : '/' ∉ whiteoutMark ++ path.name := by
  rw [mem_append, not_or]
  exact ⟨by decide, path.isName.noSlash⟩

theorem toRelativePath_pathname : toRelativePath path.pathname = path.dstPath :=
  toRelativePath_lead path.marked_ne_nil (by simp [whiteoutMark])

theorem utilPathBase_dstPath : utilPathBase path.dstPath = whiteoutMark ++ path.name :=
  utilPathBase_eq path.isLead.relative.boundary path.marked_ne_nil path.marked_plain

theorem namesOf_marked : namesOf (whiteoutMark ++ path.name) = [whiteoutMark ++ path.name] := by
  rw [namesOf_of_plain path.marked_plain, if_neg]
  rintro (empty | dot)
  · exact path.marked_ne_nil empty
  · simp [whiteoutMark] at dot

/-- The names of the directory that the converters compute. -/
theorem namesOf_dir : namesOf path.dir =
    if Bare path.lead then [whiteoutMark ++ path.name] else namesOf path.lead := by
  rw [dir, dstPath, namesOf_utilPathDir path.isLead.relative path.marked_ne_nil path.marked_plain,
    path.namesOf_marked, namesOf_relativeLead]
  rfl

theorem dir_noDotDot : ['.', '.'] ∉ namesOf path.dir := by
  rw [path.namesOf_dir]
  split
  · simp [whiteoutMark]
  · exact path.isLead.noDotDot

theorem dir_cases :
    path.dir = whiteoutMark ++ path.name ∨ path.dir = ['/'] ∨
      relativeLead path.lead = path.dir ++ ['/'] := by
  rw [dir, dstPath]
  rcases path.isLead.relative.boundary with empty | ⟨stem, ends⟩
  · rw [empty, nil_append, utilPathDir_bare path.marked_ne_nil path.marked_plain]
    exact .inl rfl
  · rw [ends, append_assoc, singleton_append, utilPathDir_slash stem path.marked_plain]
    split
    · exact .inr (.inl rfl)
    · exact .inr (.inr rfl)

theorem dir_free : '\x00' ∉ path.dir := by
  rcases path.dir_cases with bare | root | below
  · rw [bare, mem_append, not_or]
    exact ⟨by decide, path.isName.noNul⟩
  · rw [root]
    decide
  · have leadFree := path.isLead.relative.free
    rw [below] at leadFree
    exact fun member => leadFree (mem_append_left _ member)

theorem dir_short : path.dir.length + path.name.length + 3 < pathMax := by
  have relative : (relativeLead path.lead).length ≤ path.lead.length := by
    unfold relativeLead
    split
    next shape => simp [shape]
    · exact le_rfl
  have fitsName := path.fitsName
  have fitsPath := path.fitsPath
  have mark : whiteoutMark.length = 4 := rfl
  rw [length_append] at fitsName
  rw [length_append, length_append] at fitsPath
  unfold nameMax at fitsName
  unfold pathMax at fitsPath ⊢
  rcases path.dir_cases with bare | root | below
  · rw [bare, length_append]
    omega
  · rw [root, length_singleton]
    omega
  · rw [below, length_append, length_singleton] at relative
    omega

/-- The path that the converters compute for `X`. -/
def originalpath : Text := cleanSpelling (namesOf path.dir ++ [path.name])

theorem utilPathJoin_dir :
    utilPathJoin (some rootDir) path.dir path.name = some path.originalpath :=
  utilPathJoin_eq path.dir_free path.dir_noDotDot path.isName path.dir_short

theorem locate_originalpath : tree.locate path.originalpath = path.target tree := by
  rw [originalpath, locate_cleanSpelling tree _ path.isName, target, resolve_eq]
  intro name member
  have part := (mem_filter.mp member).1
  exact notMem_of_mem_components part

/-- With a slash before the name, the converters look in the right place. -/
theorem target_of_slash (slash : ¬ Bare path.lead) : path.target tree = path.sibling tree := by
  rw [target, sibling, resolve_eq, resolve_eq, path.namesOf_dir, if_neg slash]

theorem sibling_of_bare (bare : Bare path.lead) : path.sibling tree = some [path.name] := by
  have none : namesOf path.lead = [] := by
    rw [← namesOf_relativeLead, show relativeLead path.lead = [] from bare]
    rfl
  rw [sibling, resolve_eq, none]
  rfl

end WhiteoutPath

/-- There is a whiteout device at the location. -/
def IsWhiteout (tree : Tree) (location : Location) : Prop :=
  (tree.find location).map Object.kind = some whiteoutDevice

instance (tree : Tree) (location : Location) : Decidable (IsWhiteout tree location) :=
  inferInstanceAs (Decidable (_ = _))

/-- The object at a location is gone with everything below it, and nothing else changed. -/
structure RemovedAt (before after : Tree) (sibling : Location) : Prop where
  gone : ∀ {location}, sibling <+: location → after.find location = none
  kept : ∀ {location}, ¬ sibling <+: location → after.find location = before.find location

/-- A whiteout device stands at a location in place of what was there, and nothing else
changed. -/
structure ReplacedAt (before after : Tree) (sibling : Location) : Prop where
  device : IsWhiteout after sibling
  below : ∀ {location}, sibling <+: location → sibling ≠ location → after.find location = none
  kept : ∀ {location}, ¬ sibling <+: location → after.find location = before.find location

/-- Exactly the sibling `X` in the directory `D` has been whited out. In the removing
format there is nothing to do when there is no such directory. -/
def WhiteoutPath.WhitesOut (path : WhiteoutPath) (before after : Tree) : WhiteoutFormat → Prop
  | .none => False
  | .remove =>
    match path.sibling before with
    | none => ∀ location, after.find location = before.find location
    | some sibling => RemovedAt before after sibling
  | .overlay => ∃ sibling, path.sibling before = some sibling ∧ ReplacedAt before after sibling

/-- The trees on which the converters do what a whiteout is for. In the removing format:
every tree, unless the entry is bare; then there must be neither an `X` at the root nor one
below `.wh.X`, or the two are one. In the overlay format: `D` is a directory, without an `X`
or with one that is a whiteout already; where the converter looks elsewhere, it must find
something there whose owner it does not change. -/
def WhiteoutPath.Fits (path : WhiteoutPath) (owner : Nat × Nat) (tree : Tree) :
    WhiteoutFormat → Prop
  | .none => False
  | .remove => Bare path.lead → path.target tree = some [path.name] ∨
      tree.find [path.name] = none ∧
        ∀ location, path.target tree = some location → tree.find location = none
  | .overlay => ∃ sibling, path.sibling tree = some sibling ∧
      if path.target tree = some sibling then tree.find sibling = none ∨ IsWhiteout tree sibling
      else IsWhiteout tree sibling ∧ ∀ location, path.target tree = some location →
        tree.find location ≠ none ∧ ∀ {other object},
          tree.follow FileTree.maxLinks location = some other → other ≠ sibling →
            tree.find other = some object → object.owner = owner

section Effect

variable {tree : Tree} {location sibling : Location} (path : WhiteoutPath) (owner : Nat × Nat)

theorem removedAt_without (tree : Tree) (location : Location) :
    RemovedAt tree (tree.without location) location where
  gone below := by rw [find_without, if_pos below]
  kept elsewhere := by rw [find_without, if_neg elsewhere]

/-- Removing at one location whites out another exactly if neither has an object. -/
theorem removedAt_without_iff (proper : location ≠ []) (properSibling : sibling ≠ []) :
    RemovedAt tree (tree.without location) sibling ↔
      location = sibling ∨ tree.find sibling = none ∧ tree.find location = none := by
  constructor
  · intro removed
    by_cases same : location = sibling
    · exact .inl same
    refine .inr ?_
    by_cases below : sibling <+: location
    · -- The sibling lies above, so what stands there was not removed.
      have above : ¬ location <+: sibling := fun other =>
        same (List.IsPrefix.eq_of_length other (Nat.le_antisymm other.length_le below.length_le))
      have gone := removed.gone (prefix_refl sibling)
      rw [find_without, if_neg above] at gone
      exact ⟨gone, find_of_absent gone properSibling below⟩
    · have kept := removed.kept below
      rw [find_without, if_pos (prefix_refl _)] at kept
      refine ⟨?_, kept.symm⟩
      have gone := removed.gone (prefix_refl sibling)
      rw [find_without] at gone
      split at gone
      next above => exact find_of_absent kept.symm proper above
      · exact gone
  · rintro (rfl | ⟨absent, absentThere⟩)
    · exact removedAt_without tree location
    · have unchanged : ∀ l, (tree.without location).find l = tree.find l := by
        intro l
        rw [find_without]
        split
        next above => exact (find_of_absent absentThere proper above).symm
        · rfl
      exact ⟨fun above => (unchanged _).trans (find_of_absent absent properSibling above),
        fun _ => unchanged _⟩

/-- What the overlay converter makes of the tree. -/
def overlaid (path : WhiteoutPath) (owner : Nat × Nat) (tree : Tree) : Tree :=
  chown (mknod tree path.originalpath) path.originalpath owner

theorem overlaid_of_none (nowhere : path.target tree = none) : overlaid path owner tree = tree := by
  have made : mknod tree path.originalpath = tree := by
    rw [mknod, path.locate_originalpath, nowhere]
    rfl
  rw [overlaid, made, chown, path.locate_originalpath, nowhere]
  rfl

/-- Where there is nothing, a device is made and given to the owner. -/
theorem find_overlaid_of_absent (there : path.target tree = some location)
    (absent : tree.find location = none) (other : Location) :
    (overlaid path owner tree).find other =
      if other = location then
        some { path := location, kind := whiteoutDevice, owner := owner, tag := .archive }
      else tree.find other := by
  obtain ⟨dir, resolved, rfl⟩ := map_eq_some_iff.mp there
  have directory : tree.IsDirectory dir := walk_isDirectory (.inl rfl) resolved
  obtain ⟨made, created⟩ : ∃ made, tree.create
      { path := dir ++ [path.name], kind := whiteoutDevice, owner := (0, 0), tag := .archive } =
        some made := by
    refine exists_create directory ?_ rfl absent
    exact ⟨path.isName.noSlash, not_or.mpr ⟨path.isName.nonempty, path.isName.notDot⟩,
      path.isName.notDotDot⟩
  have node : mknod tree path.originalpath = made := by
    rw [mknod, path.locate_originalpath, there, bind_some, created, getD_some]
  have found := fun other => @find_create _ tree made other _ created
  have more : ∀ {l object}, tree.find l = some object → made.find l = some object := by
    intro l object present
    rw [found, if_neg, present]
    rintro rfl
    rw [absent] at present
    cases present
  have located : path.target made = some (dir ++ [path.name]) := by
    rw [WhiteoutPath.target, show made.resolve path.dir = some dir from
      walk_mono more resolved, map_some]
  have final : made.follow FileTree.maxLinks (dir ++ [path.name]) = some (dir ++ [path.name]) := by
    have device := found (dir ++ [path.name])
    rw [if_pos rfl] at device
    rw [FileTree.maxLinks, FileTree.follow, device]
    rfl
  rw [overlaid, node, chown, path.locate_originalpath, located, bind_some, final]
  rw [find_adjust]
  split
  next same => rw [same, found, if_pos rfl]; rfl
  next different => rw [found, if_neg different]

/-- Where there is something already, only an owner can change. -/
theorem overlaid_of_present (there : path.target tree = some location)
    (present : tree.find location ≠ none) :
    overlaid path owner tree =
      match tree.follow FileTree.maxLinks location with
      | none => tree
      | some other => tree.adjust other owner id := by
  have refused : ∀ object : Object Origin, object.path = location → tree.create object = none := by
    rintro object rfl
    unfold FileTree.create
    rw [dif_neg]
    exact fun allowed => present allowed.2.2.1
  have node : mknod tree path.originalpath = tree := by
    rw [mknod, path.locate_originalpath, there, bind_some, refused _ rfl, getD_none]
  cases followed : tree.follow FileTree.maxLinks location <;>
    simp [overlaid, node, chown, path.locate_originalpath, there, followed]

end Effect

/-- The tree that a whiteout entry leaves behind. -/
def WhiteoutPath.converted (path : WhiteoutPath) (owner : Nat × Nat) (tree : Tree) :
    WhiteoutFormat → Tree
  | .none => tree
  | .remove => utilRecursiveRemovePath tree path.originalpath
  | .overlay => overlaid path owner tree

/-- A whiteout entry is converted and never extracted. -/
theorem unpackEntry_whiteout (path : WhiteoutPath) {format : WhiteoutFormat}
    (converts : format ≠ .none) (extractor : Extractor) (content : Content) (owner : Nat × Nat)
    (state : Unpacking) :
    unpackEntry (layerOptions format) extractor state ⟨path.pathname, content, owner⟩ =
      some { state with tree := path.converted owner state.tree format } := by
  have marked : whiteoutMark.isPrefixOf (whiteoutMark ++ path.name) = true :=
    isPrefixOf_iff_prefix.mpr (prefix_append _ _)
  have dropped : (whiteoutMark ++ path.name).drop whiteoutMark.length = path.name :=
    drop_left
  have base := path.utilPathBase_dstPath
  have joined := path.utilPathJoin_dir
  unfold WhiteoutPath.dir at joined
  rw [unpackEntry, updateEntryForPathname_layer, bind_some, rebaseHardlink_layer,
    bind_some, path.toRelativePath_pathname]
  cases format with
  | none => exact absurd rfl converts
  | overlay =>
    simp only [layerOptions, whiteoutConvert, overlayWhiteoutConvertRead, base, dropped, joined,
      if_neg path.notOpaque, if_pos marked]
    rfl
  | remove =>
    simp only [layerOptions, whiteoutConvert, removeWhiteoutConvert, base, dropped, joined,
      if_neg path.notOpaque, if_pos marked]
    rfl

section Converted

variable {tree after : Tree} {location sibling : Location} (path : WhiteoutPath)

theorem ne_nil_of_beside {resolved : Option Location}
    (there : resolved.map (· ++ [path.name]) = some location) : location ≠ [] := by
  obtain ⟨dir, -, rfl⟩ := map_eq_some_iff.mp there
  simp

/-- The removing converter whites out the sibling exactly on the trees it fits. -/
theorem whitesOut_removed_iff :
    path.WhitesOut tree (utilRecursiveRemovePath tree path.originalpath) .remove ↔
      Bare path.lead → path.target tree = some [path.name] ∨
        tree.find [path.name] = none ∧
          ∀ location, path.target tree = some location → tree.find location = none := by
  unfold WhiteoutPath.WhitesOut
  rw [utilRecursiveRemovePath, path.locate_originalpath]
  by_cases bare : Bare path.lead
  · rw [path.sibling_of_bare tree bare]
    cases there : path.target tree with
    | none =>
      simp [bare]
      constructor
      · intro removed
        exact removed.gone (prefix_refl _)
      · intro absent
        exact ⟨find_of_absent absent (by simp), fun _ => rfl⟩
    | some location =>
      simp [bare]
      exact removedAt_without_iff (ne_nil_of_beside path there) (by simp)
  · simp [bare]
    rw [← path.target_of_slash tree bare]
    cases path.target tree with
    | none => exact fun _ => rfl
    | some location => exact removedAt_without tree location

theorem IsWhiteout.not_isDirectory (whiteout : IsWhiteout tree sibling) (proper : sibling ≠ []) :
    ¬ tree.IsDirectory sibling := by
  rintro (root | directory)
  · exact proper root
  · have kind := whiteout.symm.trans directory
    cases kind

/-- Changing nothing but the object at a location replaces it there, unless it was a
directory. -/
theorem replacedAt_of_elsewhere (isFile : ¬ tree.IsDirectory sibling)
    (device : IsWhiteout after sibling)
    (elsewhere : ∀ {other}, other ≠ sibling → after.find other = tree.find other) :
    ReplacedAt tree after sibling where
  device := device
  below above proper := by
    rw [elsewhere (Ne.symm proper)]
    exact find_below isFile above proper
  kept apart := elsewhere fun same => apart (same ▸ prefix_refl _)

/-- With nothing made, the sibling was a whiteout and only its owner can have changed. -/
theorem replacedAt_adjust_iff (proper : sibling ≠ []) (other : Location) (owner : Nat × Nat) :
    ReplacedAt tree (tree.adjust other owner id) sibling ↔
      IsWhiteout tree sibling ∧ ∀ {object}, other ≠ sibling → tree.find other = some object →
        object.owner = owner := by
  have kinds : IsWhiteout (tree.adjust other owner id) sibling ↔ IsWhiteout tree sibling := by
    unfold IsWhiteout
    rw [find_adjust]
    split
    · rw [Option.map_map]
      rfl
    · rfl
  constructor
  · intro replaced
    have whiteout := kinds.mp replaced.device
    refine ⟨whiteout, fun {object} different found => ?_⟩
    by_cases above : sibling <+: other
    · rw [find_below (whiteout.not_isDirectory proper) above (.symm different)] at found
      cases found
    · have kept := replaced.kept above
      rw [find_adjust, if_pos rfl, found] at kept
      exact (congrArg Object.owner (Option.some.inj kept)).symm
  · rintro ⟨whiteout, owned⟩
    refine replacedAt_of_elsewhere (whiteout.not_isDirectory proper) (kinds.mpr whiteout) ?_
    intro location different
    rw [find_adjust]
    split
    next same =>
      subst same
      cases found : tree.find location with
      | none => rfl
      | some object => simp [← owned different found]
    · rfl

/-- The overlay converter whites out the sibling exactly on the trees it fits. -/
theorem whitesOut_overlaid_iff (owner : Nat × Nat) :
    path.WhitesOut tree (overlaid path owner tree) .overlay ↔ path.Fits owner tree .overlay := by
  refine exists_congr fun sibling => and_congr_right fun beside => ?_
  have proper := ne_nil_of_beside path beside
  have unchanged : ReplacedAt tree tree sibling ↔ IsWhiteout tree sibling :=
    ⟨ReplacedAt.device, fun whiteout =>
      replacedAt_of_elsewhere (whiteout.not_isDirectory proper) whiteout fun _ => rfl⟩
  cases there : path.target tree with
  | none =>
    rw [overlaid_of_none path owner there, unchanged]
    simp
  | some location =>
    cases found : tree.find location with
    | none =>
      have finds := find_overlaid_of_absent path owner there found
      by_cases same : location = sibling
      · subst same
        simp [found]
        refine replacedAt_of_elsewhere (not_isDirectory_of_find found proper) ?_ ?_
        · rw [IsWhiteout, finds, if_pos rfl]
          rfl
        · intro other different
          rw [finds, if_neg different]
      · -- A device appears at another place.
        simp [same, found]
        intro replaced
        have device := finds location
        rw [if_pos rfl] at device
        by_cases above : sibling <+: location
        · rw [replaced.below above (.symm same)] at device
          cases device
        · rw [replaced.kept above, found] at device
          cases device
    | some object =>
      have present : tree.find location ≠ none := by simp [found]
      rw [overlaid_of_present path owner there present]
      simp [present]
      by_cases same : location = sibling
      · subst same
        rw [if_pos rfl, or_iff_right present]
        cases followed : tree.follow FileTree.maxLinks location with
        | none => exact unchanged
        | some other =>
          refine (replacedAt_adjust_iff proper other owner).trans (and_iff_left_of_imp ?_)
          intro whiteout owned different
          -- A device is not a link, so its own owner is set.
          rw [FileTree.maxLinks, FileTree.follow,
            show (tree.find location).map Object.kind = _ from whiteout] at followed
          exact absurd (some.inj followed).symm different
      · rw [if_neg same]
        cases tree.follow FileTree.maxLinks location with
        | none => simpa using unchanged
        | some other =>
          refine (replacedAt_adjust_iff proper other owner).trans (and_congr_right fun _ => ?_)
          exact ⟨fun owned {_ _} followed => some.inj followed ▸ owned,
            fun owned => owned rfl⟩

end Converted

/-- A root directory with nothing in it. -/
def emptyTree : Tree where
  objects := ⟨[], nodup_nil⟩
  rooted found := nomatch found
  named found := nomatch found

/-- A file `x` at the root. -/
def loneFile : Tree :=
  (emptyTree.create { path := [['x']], kind := .regular [], owner := (0, 0), tag := .base }).getD
    emptyTree

/-- `./d/.wh.x`. -/
def whiteoutBelow : WhiteoutPath where
  lead := "./d/".toList
  name := ['x']
  isLead := ⟨.inr ⟨"./d".toList, rfl⟩, by decide, by decide⟩
  isName := ⟨by decide, by decide, by decide, by decide, by decide⟩
  notOpaque := by decide
  fitsName := by decide
  fitsPath := by decide

/-- `.wh.x`. -/
def whiteoutTop : WhiteoutPath where
  lead := []
  name := ['x']
  isLead := ⟨.inl rfl, by decide, by decide⟩
  isName := ⟨by decide, by decide, by decide, by decide, by decide⟩
  notOpaque := by decide
  fitsName := by decide
  fitsPath := by decide

end Isulad.Tar
