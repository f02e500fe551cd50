import Isulad.Tar.Origin
import Isulad.Tar.Whiteout

/-!
# Opaque directories

What unpacking the marker `D/.wh..wh..opq` in the removing format leaves of the directory
`D`. The clearing decides by text: a path below `D`, joined from the text of `D` and the
names that `readdir` gives, is spared if the same text is the path of an entry unpacked
before. An entry of the same object under another text (with a slash at the end, with `./`
in front) does not count, and a directory that only the parents of an entry went through is
not in the list at all.
-/

namespace Isulad.Tar

open Option List Isulad.Std Isulad.Path FileTree

/-- The clearing of `dirpath` does not remove what the names lead to: every path on the
way is the path of an entry, or the clearing stops at it. -/
def Spared (unpacked : List Text) : Nat → Text → List (List Char) → Prop
  | 0, _, _ => True
  | _ + 1, _, [] => True
  | levels + 1, dirpath, name :: rest =>
    pathMax ≤ (dirpath ++ '/' :: name).length ∨
      dirpath ++ '/' :: name ∈ unpacked ∧ Spared unpacked levels (dirpath ++ '/' :: name) rest

variable (unpacked : List Text) (levels : Nat)

theorem spared_nil (dirpath : Text) : Spared unpacked levels dirpath [] := by
  cases levels <;> exact trivial

/-- The locations that the clearing of `dirpath` removes. -/
def Doomed (dirpath : Text) (location : Location) : Prop :=
  ∃ names, location = namesOf dirpath ++ names ∧ ¬ Spared unpacked levels dirpath names

theorem mem_children {tree : Tree} {location : Location} {name : List Char} :
    name ∈ children tree location ↔ ∃ object, tree.find (location ++ [name]) = some object := by
  rw [children, mem_filterMap]
  constructor
  · rintro ⟨object, member, named⟩
    split at named
    next here =>
      refine ⟨object, Keyed.find_eq_some_iff.mpr ⟨member, ?_⟩⟩
      rw [← here]
      exact (dropLast_append_getLast? name named).symm
    · cases named
  · rintro ⟨object, found⟩
    refine ⟨object, mem_of_find found, ?_⟩
    rw [path_of_find found, dropLast_concat, if_pos rfl, List.getLast?_concat]

section Clearing

variable {unpacked : List Text} {levels : Nat} {dirpath : Text} {tree : Tree}
  {recurse : Text → Tree → Bool × Tree}

section

variable (recurses : ∀ {dirpath} {tree : Tree}, tree.IsDirectory (namesOf dirpath) →
    tree.Prunes (recurse dirpath tree).2 (Doomed unpacked levels dirpath))
include recurses

variable (ok : Bool) (directory : tree.IsDirectory (namesOf dirpath))
include ok directory

/-- One name of the directory, if the clearing of the directories below is right. -/
theorem prunes_clearChild {name : List Char} (ordinary : Ordinary name) :
    tree.Prunes (clearChild unpacked recurse dirpath (ok, tree) name).2 fun location =>
      ∃ rest, location = namesOf dirpath ++ name :: rest ∧
        ¬ Spared unpacked (levels + 1) dirpath (name :: rest) := by
  have names : namesOf (dirpath ++ '/' :: name) = namesOf dirpath ++ [name] := by
    rw [namesOf_append, ordinary.namesOf]
  have located : tree.locate (dirpath ++ '/' :: name) = some (namesOf dirpath ++ [name]) := by
    rw [locate_join dirpath ordinary, resolve_directory directory, map_some]
  unfold clearChild
  dsimp only
  split
  next long =>
    refine .refl ?_
    rintro _ ⟨rest, -, doomed⟩
    exact doomed (.inl long)
  next short =>
    split
    next fresh =>
      rw [utilRecursiveRemovePath, located]
      refine FileTree.Prunes.without.congr fun {location _} _ => ?_
      constructor
      · rintro ⟨rest, rfl⟩
        refine ⟨rest, by simp, ?_⟩
        rintro (long | ⟨listed, -⟩)
        · exact short long
        · exact fresh listed
      · rintro ⟨rest, rfl, -⟩
        exact ⟨rest, by simp⟩
    next listed =>
      rw [Decidable.not_not] at listed
      have spared : ∀ {rest}, Spared unpacked levels (dirpath ++ '/' :: name) rest →
          Spared unpacked (levels + 1) dirpath (name :: rest) :=
        fun below => .inr ⟨listed, below⟩
      -- Below a path that is no directory there is nothing to remove.
      have leaf : ¬ tree.IsDirectory (namesOf dirpath ++ [name]) →
          tree.Prunes tree fun location => ∃ rest, location = namesOf dirpath ++ name :: rest ∧
            ¬ Spared unpacked (levels + 1) dirpath (name :: rest) := by
        intro isFile
        refine (FileTree.Prunes.refl fun _ => not_false).congr fun {location _} found => ?_
        refine ⟨False.elim, ?_⟩
        rintro ⟨rest, rfl, doomed⟩
        have proper : rest ≠ [] := by
          rintro rfl
          exact doomed (spared (spared_nil ..))
        rw [find_below isFile ⟨rest, by simp⟩ (by simpa using proper)] at found
        cases found
      rw [located, bind_some]
      split
      next absent =>
        refine leaf (not_isDirectory_of_find ?_ (by simp))
        exact map_eq_none_iff.mp absent
      next kind =>
        have below := @recurses (dirpath ++ '/' :: name) tree (names ▸ .inr kind)
        refine below.congr fun {location _} _ => ?_
        rw [Doomed, names]
        simp
        refine exists_congr fun rest => and_congr_right fun _ => not_congr ⟨spared, ?_⟩
        rintro (long | ⟨-, below⟩)
        · exact absurd long short
        · exact below
      next kind notDirectory found =>
        refine leaf ?_
        rintro (root | directory)
        · simp at root
        · exact notDirectory (some.inj (found.symm.trans directory))

theorem prunes_foldl_clearChild {names : List (List Char)}
    (ordinary : ∀ name ∈ names, Ordinary name) :
    tree.Prunes (names.foldl (clearChild unpacked recurse dirpath) (ok, tree)).2 fun location =>
      ∃ name ∈ names, ∃ rest, location = namesOf dirpath ++ name :: rest ∧
        ¬ Spared unpacked (levels + 1) dirpath (name :: rest) := by
  induction names generalizing tree ok with
  | nil =>
    refine .refl ?_
    rintro _ ⟨name, none, -⟩
    cases none
  | cons name names ih =>
    have first := prunes_clearChild recurses ok directory (ordinary name (by simp))
    have stays := first.isDirectory (by simp) directory
    have rest := ih (clearChild unpacked recurse dirpath (ok, tree) name).1 stays
      fun other member => ordinary other (mem_cons_of_mem _ member)
    refine (first.trans rest).congr fun _ => ?_
    simp

end

/-- The clearing of a directory removes exactly what it does not spare. -/
theorem prunes_removeFilesInOpqDir (directory : tree.IsDirectory (namesOf dirpath)) :
    tree.Prunes (removeFilesInOpqDir unpacked levels dirpath tree).2
      (Doomed unpacked levels dirpath) := by
  induction levels generalizing dirpath tree with
  | zero =>
    refine .refl ?_
    rintro _ ⟨names, -, doomed⟩
    exact doomed trivial
  | succ levels ih =>
    rw [removeFilesInOpqDir, resolve_directory directory]
    have ordinary : ∀ name ∈ children tree (namesOf dirpath), Ordinary name := by
      intro name member
      obtain ⟨object, found⟩ := mem_children.mp member
      exact tree.named found name (by simp)
    refine (prunes_foldl_clearChild ih true directory ordinary).congr ?_
    intro location object found
    constructor
    · rintro ⟨name, -, rest, here, doomed⟩
      exact ⟨name :: rest, here, doomed⟩
    · rintro ⟨names, rfl, doomed⟩
      cases names with
      | nil => exact absurd trivial doomed
      | cons name rest =>
        refine ⟨name, mem_children.mpr ?_, rest, rfl, doomed⟩
        -- An object below `name` needs one at `name`.
        by_cases last : rest = []
        · exact ⟨object, last ▸ found⟩
        have above : tree.IsDirectory (namesOf dirpath ++ [name]) :=
          isDirectory_above found ⟨rest, by simp⟩ (by simpa using Ne.symm last)
        obtain ⟨parent, foundParent, -⟩ := map_eq_some_iff.mp (above.kind (by simp))
        exact ⟨parent, foundParent⟩

end Clearing

/-- The names, and every directory on the way, are the path of an entry under the very
text that the clearing builds. -/
def Listed (dirpath : Text) (names : List (List Char)) : Prop :=
  ∀ front, front ≠ [] → front <+: names → spell dirpath front ∈ unpacked

/-- Behind listed directories, the clearing gives up: the path is too long or too deep. -/
def Beyond (dirpath : Text) (names : List (List Char)) : Prop :=
  ∃ front name, front ++ [name] <+: names ∧ Listed unpacked dirpath front ∧
    (pathMax ≤ (spell dirpath (front ++ [name])).length ∨ levels ≤ front.length)

section Spared

variable {unpacked : List Text} {levels : Nat} {dirpath : Text} {name : List Char}
  {names : List (List Char)}

theorem listed_nil (unpacked : List Text) (dirpath : Text) : Listed unpacked dirpath [] :=
  fun _ proper above => absurd (prefix_nil.mp above) proper

theorem listed_cons : Listed unpacked dirpath (name :: names) ↔
    dirpath ++ '/' :: name ∈ unpacked ∧ Listed unpacked (dirpath ++ '/' :: name) names := by
  constructor
  · intro listed
    refine ⟨?_, fun front _ above => ?_⟩
    · have first := listed [name] (by simp) ⟨names, rfl⟩
      simpa [spell] using first
    · have below := listed (name :: front) (by simp) ((prefix_cons_inj name).mpr above)
      rwa [spell_cons] at below
  · rintro ⟨first, below⟩ front proper above
    obtain ⟨head, rest, rfl⟩ := exists_cons_of_ne_nil proper
    obtain ⟨rfl, aboveRest⟩ := cons_prefix_cons.mp above
    rw [spell_cons]
    by_cases last : rest = []
    · rw [last]
      simpa [spell] using first
    · exact below rest last aboveRest

theorem beyond_cons : Beyond unpacked (levels + 1) dirpath (name :: names) ↔
    pathMax ≤ (dirpath ++ '/' :: name).length ∨
      dirpath ++ '/' :: name ∈ unpacked ∧
        Beyond unpacked levels (dirpath ++ '/' :: name) names := by
  have one : spell dirpath [name] = dirpath ++ '/' :: name := by simp [spell]
  constructor
  · rintro ⟨front, last, above, listed, limit⟩
    cases front with
    | nil =>
      obtain ⟨rfl, -⟩ := cons_prefix_cons.mp above
      rw [nil_append, one] at limit
      exact .inl (limit.resolve_right (by simp))
    | cons head front =>
      obtain ⟨rfl, aboveRest⟩ := cons_prefix_cons.mp above
      obtain ⟨first, listedRest⟩ := listed_cons.mp listed
      rw [cons_append, spell_cons, length_cons, Nat.succ_le_succ_iff] at limit
      exact .inr ⟨first, front, last, aboveRest, listedRest, limit⟩
  · rintro (long | ⟨first, front, last, above, listed, limit⟩)
    · exact ⟨[], name, ⟨names, rfl⟩, listed_nil _ _, .inl (one ▸ long)⟩
    · refine ⟨name :: front, last, (prefix_cons_inj name).mpr above,
        listed_cons.mpr ⟨first, listed⟩, ?_⟩
      rw [cons_append, spell_cons, length_cons, Nat.succ_le_succ_iff]
      exact limit

theorem spared_iff : Spared unpacked levels dirpath names ↔
    Listed unpacked dirpath names ∨ Beyond unpacked levels dirpath names := by
  induction names generalizing levels dirpath with
  | nil => exact ⟨fun _ => .inl (listed_nil _ _), fun _ => spared_nil ..⟩
  | cons name names ih =>
    cases levels with
    | zero =>
      refine ⟨fun _ => .inr ?_, fun _ => trivial⟩
      exact ⟨[], name, ⟨names, rfl⟩, listed_nil _ _, .inr (Nat.zero_le _)⟩
    | succ levels =>
      rw [Spared, ih, listed_cons, beyond_cons]
      tauto

theorem namesOf_spell (dirpath : Text) (ordinary : ∀ name ∈ names, Ordinary name) :
    namesOf (spell dirpath names) = namesOf dirpath ++ names := by
  induction names generalizing dirpath with
  | nil => simp [spell]
  | cons name names ih =>
    have first : Ordinary name := ordinary name (by simp)
    rw [spell_cons, ih _ fun other member => ordinary other (by simp [member]),
      namesOf_append, first.namesOf, append_assoc, singleton_append]

end Spared

theorem ordinary_whiteoutOpaquedir : Ordinary whiteoutOpaquedir := by decide

/-- The path `D/.wh..wh..opq` of a marker, in any legal spelling of `D`. -/
structure OpaqueMarker where
  lead : Text
  isLead : IsLead lead

namespace OpaqueMarker

variable (marker : OpaqueMarker)

/-- The path as the archive has it. -/
def pathname : Text := marker.lead ++ whiteoutOpaquedir

/-- The path as the handler uses it. -/
def dstPath : Text := relativeLead marker.lead ++ whiteoutOpaquedir

/-- The directory `D`. -/
def location : Location := namesOf marker.lead

/-- The place of the marker itself. -/
def own : Location := marker.location ++ [whiteoutOpaquedir]

/-- The directory text that the converter computes. -/
def dir : Text := utilPathDir marker.dstPath

theorem toRelativePath_pathname : toRelativePath marker.pathname = marker.dstPath :=
  toRelativePath_lead (by decide) (by decide)

theorem utilPathBase_dstPath : utilPathBase marker.dstPath = whiteoutOpaquedir :=
  utilPathBase_eq marker.isLead.relative.boundary (by decide) (by decide)

theorem namesOf_dir :
    namesOf marker.dir = if Bare marker.lead then [whiteoutOpaquedir] else marker.location := by
  rw [dir, dstPath, namesOf_utilPathDir marker.isLead.relative (by decide) (by decide),
    ordinary_whiteoutOpaquedir.namesOf, namesOf_relativeLead]
  rfl

theorem dir_of_bare (bare : Bare marker.lead) : marker.dir = whiteoutOpaquedir := by
  rw [dir, dstPath, show relativeLead marker.lead = [] from bare, nil_append,
    utilPathDir_bare (by decide) (by decide)]

theorem location_of_bare (bare : Bare marker.lead) : marker.location = [] := by
  rw [location, ← namesOf_relativeLead, show relativeLead marker.lead = [] from bare]
  rfl

theorem namesOf_dstPath : namesOf marker.dstPath = marker.own := by
  rw [own, location, ← namesOf_relativeLead marker.lead, dstPath]
  rcases marker.isLead.relative.boundary with empty | ⟨stem, ends⟩
  · rw [empty, nil_append, ordinary_whiteoutOpaquedir.namesOf]
    rfl
  · rw [ends, append_assoc, singleton_append, namesOf_append, namesOf_append,
      ordinary_whiteoutOpaquedir.namesOf]
    simp [show namesOf [] = [] from rfl]

theorem locate_dstPath {tree : Tree} (directory : tree.IsDirectory marker.location) :
    tree.locate marker.dstPath = some marker.own := by
  rw [location, ← namesOf_relativeLead] at directory
  rw [own, location, ← namesOf_relativeLead marker.lead, dstPath]
  rcases marker.isLead.relative.boundary with empty | ⟨stem, ends⟩
  · rw [empty, nil_append, locate_name ordinary_whiteoutOpaquedir]
    rfl
  · have stemNames : namesOf (relativeLead marker.lead) = namesOf stem := by
      rw [ends, namesOf_append]
      exact append_nil _
    rw [stemNames] at directory ⊢
    rw [ends, append_assoc, singleton_append,
      locate_join stem ordinary_whiteoutOpaquedir, resolve_directory directory,
      map_some]

/-- The tree after the clearing. -/
def cleared (state : Unpacking) : Bool × Tree :=
  removeFilesInOpqDir state.unpacked maxPathDepth marker.dir state.tree

/-- When the clearing reports a failure, the marker is extracted like any other entry. -/
theorem unpackEntry_eq (extractor : Extractor) (state : Unpacking) (content : Content)
    (owner : Nat × Nat) :
    unpackEntry (layerOptions .remove) extractor state ⟨marker.pathname, content, owner⟩ =
      if (marker.cleared state).1 then some { state with tree := (marker.cleared state).2 }
      else extract extractor { state with tree := (marker.cleared state).2 } marker.dstPath
        ⟨marker.pathname, content, owner⟩ := by
  rw [unpackEntry, updateEntryForPathname_layer, bind_some, rebaseHardlink_layer,
    bind_some, marker.toRelativePath_pathname]
  have clears : removeFilesInOpqDir state.unpacked maxPathDepth (utilPathDir marker.dstPath)
      state.tree = marker.cleared state := rfl
  simp [layerOptions, whiteoutConvert, removeWhiteoutConvert, marker.utilPathBase_dstPath, clears]
  cases (marker.cleared state).1 <;> rfl

end OpaqueMarker

variable {extractor : Extractor} {state after : Unpacking} {kind : Kind} {owner : Nat × Nat}

/-- What `try_to_replace_exited_dst` leaves of the marker's directory. -/
theorem tryToReplaceExitedDst_marker (marker : OpaqueMarker) {tree : Tree}
    (directory : tree.IsDirectory marker.location) (kind : Kind) (owner : Nat × Nat) :
    let replaced := tryToReplaceExitedDst tree marker.dstPath ⟨marker.pathname, .node kind, owner⟩
    replaced.IsDirectory marker.location ∧
      (∀ {location}, ¬ marker.own <+: location → replaced.find location = tree.find location) ∧
      (replaced.find marker.own = none ∨
        replaced.IsDirectory marker.own ∧ kind = .directory) := by
  dsimp only
  rw [tryToReplaceExitedDst, marker.locate_dstPath directory]
  dsimp only
  split
  next same => exact ⟨directory, fun _ => rfl, .inr ⟨same.1, Content.node.inj same.2⟩⟩
  · have removed := @FileTree.Prunes.without _ tree marker.own
    refine ⟨removed.isDirectory (fun above => ?_) directory, removed.kept,
      .inl (removed.gone (prefix_refl _))⟩
    have shorter := above.length_le
    rw [OpaqueMarker.own, length_append, length_singleton] at shorter
    omega

/-- Below a directory, the extraction of the marker changes nothing else. -/
theorem extract_marker (marker : OpaqueMarker) (directory : state.tree.IsDirectory marker.location)
    (ran : extract extractor state marker.dstPath ⟨marker.pathname, .node kind, owner⟩ = some after)
    {location : Location} (elsewhere : ¬ marker.own <+: location) :
    after.tree.find location = state.tree.find location := by
  obtain ⟨stays, same, -⟩ := tryToReplaceExitedDst_marker marker directory kind owner
  obtain ⟨tree, written, rfl⟩ := map_eq_some_iff.mp ran
  rw [← same elsewhere]
  refine extractor.frame written ?_ (by rwa [marker.namesOf_dstPath])
  rwa [marker.namesOf_dstPath, OpaqueMarker.own, dropLast_concat]

/-- The path is relative once a leading slash is off. libarchive refuses others. -/
def OpaqueMarker.IsRelative (marker : OpaqueMarker) : Prop := marker.dstPath.head? ≠ some '/'

theorem exists_extract_marker (marker : OpaqueMarker) (relative : marker.IsRelative)
    (directory : state.tree.IsDirectory marker.location) :
    ∃ after, extract extractor state marker.dstPath ⟨marker.pathname, .node kind, owner⟩ =
      some after := by
  obtain ⟨stays, -, free⟩ := tryToReplaceExitedDst_marker marker directory kind owner
  obtain ⟨tree, written⟩ := extractor.accepts relative marker.namesOf_dstPath
    ordinary_whiteoutOpaquedir stays free
  exact ⟨_, map_eq_some_iff.mpr ⟨tree, written, rfl⟩⟩

section

variable (marker : OpaqueMarker)
  (directory : (marker.cleared state).2.IsDirectory marker.location)
include directory

/-- Elsewhere than at the marker's own place only the clearing counts. -/
theorem find_unpackEntry_marker
    (ran : unpackEntry (layerOptions .remove) extractor state
      ⟨marker.pathname, .node kind, owner⟩ = some after)
    {location : Location} (elsewhere : ¬ marker.own <+: location) :
    after.tree.find location = (marker.cleared state).2.find location := by
  rw [marker.unpackEntry_eq] at ran
  split at ran
  · cases ran
    rfl
  · exact extract_marker marker directory ran elsewhere

theorem exists_unpackEntry_marker (relative : marker.IsRelative) :
    ∃ after, unpackEntry (layerOptions .remove) extractor state
      ⟨marker.pathname, .node kind, owner⟩ = some after := by
  rw [marker.unpackEntry_eq]
  split
  · exact ⟨_, rfl⟩
  · exact exists_extract_marker marker relative directory

end

/-- An object of this archive. -/
def Own (tree : Tree) (location : Location) : Prop :=
  (tree.find location).map Object.tag = some .archive

/-- An object from before the archive, with nothing of the archive below it. -/
def Old (tree : Tree) (location : Location) : Prop :=
  (tree.find location).map Object.tag = some .base ∧
    ∀ below, location <+: below → ¬ Own tree below

namespace OpaqueMarker

variable (marker : OpaqueMarker)

/-- The locations below `D`, without the reserved name of the marker itself. -/
structure Concerns (location : Location) : Prop where
  below : marker.location <+: location
  proper : location ≠ marker.location
  notOwn : ¬ marker.own <+: location

/-- What `D` contained before the archive is gone and what the archive has unpacked below
`D` is as it was. -/
structure Clears (before after : Tree) : Prop where
  removes : ∀ {location}, marker.Concerns location → Old before location →
    after.find location = none
  keeps : ∀ {location}, marker.Concerns location → Own before location →
    after.find location = before.find location

/-- At the top level, a link under the marker's name leads the clearing to another
directory. -/
def Redirected (state : Unpacking) : Prop :=
  Bare marker.lead ∧ state.tree.IsLink [whiteoutOpaquedir] ∧
    state.tree.resolve whiteoutOpaquedir ≠ none

/-- The states in which the handler clears `D`. With a slash before the marker: everything
that the archive unpacked below `D` is listed with all directories on its way, in the text
that the clearing builds, or lies beyond its limits, and nothing old lies beyond them. At
the top level: there is nothing old to remove, and the marker's name is no link to a
directory. -/
def Fits (state : Unpacking) : Prop :=
  if Bare marker.lead then ¬ marker.Redirected state ∧
    ∀ location, marker.Concerns location → ¬ Old state.tree location
  else ∀ names, marker.Concerns (marker.location ++ names) →
    (Own state.tree (marker.location ++ names) →
      Listed state.unpacked marker.dir names ∨
        Beyond state.unpacked maxPathDepth marker.dir names) ∧
    (Old state.tree (marker.location ++ names) →
      ¬ Beyond state.unpacked maxPathDepth marker.dir names)

end OpaqueMarker

section Marker

variable {marker : OpaqueMarker} {base tree after : Tree} {state : Unpacking} {location : Location}

theorem Own.ne_none (own : Own tree location) : tree.find location ≠ none := by
  intro absent
  rw [Own, absent] at own
  cases own

theorem Old.ne_none (old : Old tree location) : tree.find location ≠ none := by
  intro absent
  rw [Old, absent] at old
  cases old.1

theorem Old.not_listed (traced : Traced base state) {dirpath : Text} {names : List (List Char)}
    (proper : names ≠ []) (old : Old state.tree (namesOf dirpath ++ names)) :
    ¬ Listed state.unpacked dirpath names := by
  intro listed
  obtain ⟨object, found, tagged⟩ := map_eq_some_iff.mp old.1
  have ordinary : ∀ name ∈ names, Ordinary name := fun name member =>
    state.tree.named found name (mem_append_right _ member)
  refine traced.listed (listed names proper (prefix_refl _)) ?_ tagged
  rw [namesOf_spell dirpath ordinary]
  exact found

/-- With a slash before the marker, the clearing works on `D`. -/
theorem prunes_cleared (slash : ¬ Bare marker.lead)
    (directory : state.tree.IsDirectory marker.location) :
    state.tree.Prunes (marker.cleared state).2 fun location =>
      ∃ names, location = marker.location ++ names ∧
        ¬ Spared state.unpacked maxPathDepth marker.dir names := by
  have names : namesOf marker.dir = marker.location := by rw [marker.namesOf_dir, if_neg slash]
  have prunes := @prunes_removeFilesInOpqDir state.unpacked maxPathDepth marker.dir state.tree
    (names ▸ directory)
  unfold Doomed at prunes
  rw [names] at prunes
  exact prunes

/-- At the top level, the clearing finds nothing or works on the marker's own place. -/
theorem find_cleared_of_bare (bare : Bare marker.lead)
    (straight : ¬ marker.Redirected state) (elsewhere : ¬ marker.own <+: location) :
    (marker.cleared state).2.find location = state.tree.find location := by
  rw [OpaqueMarker.own, marker.location_of_bare bare, nil_append] at elsewhere
  have names : namesOf marker.dir = [whiteoutOpaquedir] := by rw [marker.namesOf_dir, if_pos bare]
  by_cases directory : state.tree.IsDirectory [whiteoutOpaquedir]
  · refine (prunes_removeFilesInOpqDir (names ▸ directory)).kept ?_
    rintro ⟨rest, rfl, -⟩
    rw [names] at elsewhere
    exact elsewhere (prefix_append _ _)
  · have nowhere : state.tree.resolve whiteoutOpaquedir = none := by
      by_cases link : state.tree.IsLink [whiteoutOpaquedir]
      · exact Decidable.not_not.mp fun somewhere => straight ⟨bare, link, somewhere⟩
      · exact resolve_eq_none ordinary_whiteoutOpaquedir directory link
    rw [OpaqueMarker.cleared, maxPathDepth, removeFilesInOpqDir, marker.dir_of_bare bare, nowhere]

/-- Where only the clearing counts and nothing leads it elsewhere, `D` is cleared exactly in
the states that fit. -/
theorem clears_iff (traced : Traced base state) (directory : state.tree.IsDirectory marker.location)
    (straight : ¬ marker.Redirected state)
    (same : ∀ {location}, ¬ marker.own <+: location →
      after.find location = (marker.cleared state).2.find location) :
    marker.Clears state.tree after ↔ marker.Fits state := by
  unfold OpaqueMarker.Fits
  split
  next bare =>
    have unchanged : ∀ {location}, marker.Concerns location →
        after.find location = state.tree.find location := fun concerns =>
      (same concerns.notOwn).trans (find_cleared_of_bare bare straight concerns.notOwn)
    constructor
    · refine fun clears => ⟨straight, fun location concerns old => ?_⟩
      exact old.ne_none ((unchanged concerns).symm.trans (clears.removes concerns old))
    · rintro ⟨-, nothing⟩
      exact ⟨fun concerns old => absurd old (nothing _ concerns),
        fun concerns _ => unchanged concerns⟩
  next slash =>
    have prunes := prunes_cleared slash directory
    have gone : ∀ {names}, marker.Concerns (marker.location ++ names) →
        ¬ Spared state.unpacked maxPathDepth marker.dir names →
        after.find (marker.location ++ names) = none := fun concerns doomed =>
      (same concerns.notOwn).trans (prunes.gone ⟨_, rfl, doomed⟩)
    have kept : ∀ {names}, marker.Concerns (marker.location ++ names) →
        Spared state.unpacked maxPathDepth marker.dir names →
        after.find (marker.location ++ names) = state.tree.find (marker.location ++ names) := by
      intro names concerns spared
      refine (same concerns.notOwn).trans (prunes.kept ?_)
      rintro ⟨other, equal, doomed⟩
      exact doomed (append_cancel_left equal ▸ spared)
    constructor
    · intro clears names concerns
      refine ⟨fun own => spared_iff.mp (by_contra fun doomed => ?_), fun old beyond => ?_⟩
      · exact own.ne_none ((clears.keeps concerns own).symm.trans (gone concerns doomed))
      · exact old.ne_none ((kept concerns (spared_iff.mpr (.inr beyond))).symm.trans
          (clears.removes concerns old))
    · intro fits
      constructor
      · intro location concerns old
        obtain ⟨names, rfl⟩ := concerns.below
        refine gone concerns fun spared => ?_
        rcases spared_iff.mp spared with listed | beyond
        · have proper : names ≠ [] := by
            rintro rfl
            exact concerns.proper (append_nil _)
          have dirNames : namesOf marker.dir = marker.location := by
            rw [marker.namesOf_dir, if_neg slash]
          rw [← dirNames] at old
          exact old.not_listed traced proper listed
        · exact (fits names concerns).2 old beyond
      · intro location concerns own
        obtain ⟨names, rfl⟩ := concerns.below
        exact kept concerns (spared_iff.mpr ((fits names concerns).1 own))

theorem OpaqueMarker.Fits.straight (fits : marker.Fits state) : ¬ marker.Redirected state := by
  intro redirected
  rw [Fits, if_pos redirected.1] at fits
  exact fits.1 redirected

end Marker

/-- A directory `d` with a file `o`. -/
def oldDirectory : Tree :=
  ((emptyTree.create { path := [['d']], kind := .directory, owner := (0, 0), tag := .base }).bind
    (FileTree.create ·
      { path := [['d'], ['o']], kind := .regular [], owner := (0, 0), tag := .base })).getD
    emptyTree

/-- `d/.wh..wh..opq`. -/
def markerBelow : OpaqueMarker where
  lead := "d/".toList
  isLead := ⟨.inr ⟨['d'], rfl⟩, by decide, by decide⟩

/-- `.wh..wh..opq`. -/
def markerTop : OpaqueMarker where
  lead := []
  isLead := whiteoutTop.isLead

theorem fresh_of_entries {base : Tree}
    (tags : ∀ object ∈ base.objects.entries, object.tag = .base) : Fresh base :=
  fun _ _ found => tags _ (mem_of_find found)

end Isulad.Tar
