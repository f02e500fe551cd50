import Mathlib.Algebra.Group.Nat.Defs
import Isulad.Path.Normal

/-!
# Resolving symbolic links inside a root

`utilFollowSymlinkInScope` follows `util_follow_symlink_in_scope` of
`cutils/path.c`. The file system is an assignment of link targets to paths;
`lstat` and `readlink` read it and, as the kernel does, refuse a path of
`PATH_MAX` bytes or more. The buffer `rpath` is modelled by the characters in
front of `dest` and by its size, because `do_path_realloc` copies only the first
`PATH_MAX` bytes when it grows the buffer.
-/

namespace Isulad.Path

open Option List Isulad.Std

/-- `MAXSYMLINKS` of `sys/param.h`. -/
def maxSymlinks : Nat := 20

/-- `SIZE_MAX` of a 64-bit target. -/
def sizeMax : Nat := 2 ^ 64 - 1

/-- The targets of the symbolic links of a file system. -/
abbrev Symlinks := List Char → Option CStr

/-- The C string that starts a buffer. -/
def cString (buffer : List Char) : List Char := buffer.takeWhile (· ≠ '\x00')

variable (links : Symlinks) (path : List Char)

/-- `lstat` succeeds and reports a symbolic link. -/
def isLink : Bool :=
  decide (path.length < pathMax) && (links path).isSome

/-- `readlink` with a buffer of `PATH_MAX - 1` bytes. -/
def readlink : Option (List Char) :=
  if path.length < pathMax then (links path).map fun target => target.1.take (pathMax - 1)
  else none

/-- `do_eval_symlinks_in_scope_is_symlink`, which is true when the path is not a
symbolic link. -/
def doEvalSymlinksInScopeIsSymlink : Bool :=
  !isLink links path

/-- `do_path_realloc`: make room behind `dest` for `length` more bytes. -/
def doPathRealloc (length : Nat) (rpath : List Char) (limit : Nat) :
    Option (List Char × Nat) :=
  if rpath.length + length < limit then some (rpath, limit)
  else if sizeMax - (length + 1) < limit then none
  else
    -- the new buffer is zeroed and only `PATH_MAX` bytes of the old one are copied
    some (rpath.take pathMax ++ .replicate (rpath.length - pathMax) '\x00',
      if pathMax < length + 1 then limit + (length + 1) else limit + pathMax)

/-- `do_get_symlinks_copy_buf`: restart at the root for an absolute target, else
back up over the link itself. -/
def doGetSymlinksCopyBuf (buf stem rpath : List Char) : List Char :=
  if buf.head? = some '/' then stem ++ ['/'] else backUpBelow stem.length rpath

/-- The variables of `do_eval_symlinks_in_scope`: `rpath` up to `dest`, the size
of its buffer, the unread text and the number of links expanded. -/
structure WalkState where
  rpath : List Char
  limit : Nat
  rest : List Char
  numLinks : Nat

/-- `do_get_symlinks`: splice the target of the link `rpath` in front of the
unread text. -/
def doGetSymlinks (stem rpath : List Char) (limit : Nat) (rest : List Char) (numLinks : Nat) :
    Option WalkState :=
  if maxSymlinks < numLinks + 1 then none
  else
    match readlink links (cString rpath) with
    | none => none
    | some buf =>
      if pathMax - buf.length ≤ rest.length then none
      else some ⟨doGetSymlinksCopyBuf buf stem rpath, limit, buf ++ rest, numLinks + 1⟩

/-- Copy a name behind `rpath` and resolve it when it is a link. -/
def walkName (stem name after : List Char) (state : WalkState) :
    LoopStep WalkState (Option (List Char)) :=
  match doPathRealloc name.length (closeSlash state.rpath) state.limit with
  | none => .done none
  | some (rpath, limit) =>
    if doEvalSymlinksInScopeIsSymlink links (cString (rpath ++ name)) then
      .next ⟨rpath ++ name, limit, after, state.numLinks⟩
    else
      match doGetSymlinks links stem (rpath ++ name) limit after state.numLinks with
      | none => .done none
      | some next => .next next

/-- One round of the `for` loop of `do_eval_symlinks_in_scope`. -/
def walkStep (stem : List Char) (state : WalkState) : LoopStep WalkState (Option (List Char)) :=
  if state.rest = [] then .done (some state.rpath)
  else if component state.rest = [] then .done (some state.rpath)
  else if component state.rest = ['.'] then
    .next { state with rest := afterComponent state.rest }
  else if component state.rest = ['.', '.'] then
    .next { state with
      rpath := backUpBelow stem.length state.rpath
      rest := afterComponent state.rest }
  else walkName links stem (component state.rest) (afterComponent state.rest) state

variable {links : Symlinks} {stem rpath rest : List Char} {limit numLinks : Nat} {next : WalkState}

/-- What a successful expansion did. -/
theorem doGetSymlinks_some
    (spliced : doGetSymlinks links stem rpath limit rest numLinks = some next) :
    numLinks + 1 ≤ maxSymlinks ∧ ∃ buf, readlink links (cString rpath) = some buf ∧
      buf.length + rest.length < pathMax ∧
      next = ⟨doGetSymlinksCopyBuf buf stem rpath, limit, buf ++ rest, numLinks + 1⟩ := by
  unfold doGetSymlinks at spliced
  split at spliced
  · cases spliced
  rename_i within
  split at spliced
  · cases spliced
  rename_i buf read
  split at spliced
  · cases spliced
  rename_i fits
  cases spliced
  exact ⟨by omega, buf, read, by omega, rfl⟩

variable {state : WalkState}

/-- What one continuing round of the walk can do. -/
theorem walkStep_next (taken : walkStep links stem state = .next next) :
    component state.rest ≠ [] ∧
      (next = { state with rest := afterComponent state.rest } ∨
       next = { state with
          rpath := backUpBelow stem.length state.rpath
          rest := afterComponent state.rest } ∨
       (component state.rest ≠ ['.'] ∧ component state.rest ≠ ['.', '.'] ∧
        ∃ rpath limit,
          doPathRealloc (component state.rest).length (closeSlash state.rpath) state.limit =
            some (rpath, limit) ∧
          ((isLink links (cString (rpath ++ component state.rest)) = false ∧
            next = ⟨rpath ++ component state.rest, limit, afterComponent state.rest,
              state.numLinks⟩) ∨
           (isLink links (cString (rpath ++ component state.rest)) = true ∧
            doGetSymlinks links stem (rpath ++ component state.rest) limit
              (afterComponent state.rest) state.numLinks = some next)))) := by
  unfold walkStep at taken
  by_cases empty : state.rest = []
  · simp [empty] at taken
  by_cases unnamed : component state.rest = []
  · simp [empty, unnamed] at taken
  refine ⟨unnamed, ?_⟩
  simp only [if_neg empty, if_neg unnamed] at taken
  split at taken
  · exact .inl (by cases taken; rfl)
  split at taken
  · exact .inr (.inl (by cases taken; rfl))
  rename_i notDot notDotDot
  refine .inr (.inr ⟨notDot, notDotDot, ?_⟩)
  unfold walkName at taken
  split at taken
  · cases taken
  rename_i rpath limit grown
  refine ⟨rpath, limit, grown, ?_⟩
  split at taken
  next plain =>
    refine .inl ⟨by simpa [doEvalSymlinksInScopeIsSymlink] using plain, ?_⟩
    cases taken
    rfl
  next linked =>
    refine .inr ⟨by simpa [doEvalSymlinksInScopeIsSymlink] using linked, ?_⟩
    split at taken
    · cases taken
    rename_i spliced
    cases taken
    exact spliced

/-- The loop of `do_eval_symlinks_in_scope`. Every expansion uses up one of the
`MAXSYMLINKS` links, and every other round shortens the unread text. -/
def doEvalSymlinksInScope (links : Symlinks) (stem : List Char) :
    Loop WalkState (Option (List Char)) where
  step := walkStep links stem
  rank state := (maxSymlinks - state.numLinks) * pathMax + state.rest.length
  lowers {state next} taken := by
    obtain ⟨named, edit⟩ := walkStep_next taken
    have shorter := afterComponent_length_lt named
    rcases edit with rfl | rfl | ⟨_, _, rpath, limit, _, ⟨_, rfl⟩ | ⟨_, spliced⟩⟩
    · exact Nat.add_lt_add_left shorter _
    · exact Nat.add_lt_add_left shorter _
    · exact Nat.add_lt_add_left shorter _
    obtain ⟨within, buf, _, fits, rfl⟩ := doGetSymlinks_some spliced
    simp [maxSymlinks, pathMax] at within fits ⊢
    omega

/-- The directory part of a clean root: `/` is the empty prefix. -/
def stemOf (root : List Char) : List Char := if root = ['/'] then [] else root

/-- Where `eval_symlinks_in_scope` starts the walk. -/
def walkStart (root full : List Char) : WalkState :=
  ⟨stemOf root ++ ['/'], pathMax, full.drop (stemOf root).length, 0⟩

/-- `eval_symlinks_in_scope`. -/
def evalSymlinksInScope (links : Symlinks) (getcwd : Option WorkingDir)
    (fullpath rootpath : List Char) : Option (List Char) :=
  (utilCleanPath getcwd rootpath).bind fun root =>
    if fullpath = root then some fullpath
    else if ¬ root <:+: fullpath then none
    else if pathMax - 1 ≤ (stemOf root).length then none
    else ((doEvalSymlinksInScope links (stemOf root)).run (walkStart root fullpath)).map
      fun rpath => cString (trimSlash (stemOf root).length rpath)

/-- `util_follow_symlink_in_scope`. -/
def utilFollowSymlinkInScope (links : Symlinks) (getcwd : Option WorkingDir)
    (fullpath rootpath : List Char) : Option (List Char) :=
  (utilCleanPath getcwd fullpath).bind fun full =>
    (utilCleanPath getcwd rootpath).bind fun root =>
      evalSymlinksInScope links getcwd full root

variable {names : List (List Char)}

/-- No path made of the stem and a nonempty front part of `names` is a link. -/
def Unlinked (links : Symlinks) (stem : List Char) (names : List (List Char)) : Prop :=
  ∀ front, front <+: names → front ≠ [] → isLink links (spell stem front) = false

theorem Unlinked.nil (links : Symlinks) (stem : List Char) : Unlinked links stem [] :=
  fun _ isPrefix named => absurd (prefix_nil.mp isPrefix) named

theorem Unlinked.dropLast (unlinked : Unlinked links stem names) :
    Unlinked links stem names.dropLast :=
  fun front isPrefix named => unlinked front (isPrefix.trans (List.dropLast_prefix _)) named

theorem Unlinked.concat {name : List Char} (unlinked : Unlinked links stem names)
    (plain : isLink links (spell stem (names ++ [name])) = false) :
    Unlinked links stem (names ++ [name]) := by
  intro front isPrefix named
  rcases prefix_concat_iff.mp isPrefix with whole | inside
  · rw [whole]
    exact plain
  · exact unlinked front inside named

/-- Invariant of the walk below `stem`. The bound on `rpath` and the unread text
together is what keeps the buffer from growing twice. -/
structure WalkInv (links : Symlinks) (stem : List Char) (state : WalkState) : Prop where
  holds : ∃ names, Holds stem names state.rpath ∧ Unlinked links stem names
  size : state.limit = pathMax ∨ state.limit = pathMax + pathMax
  room : state.rpath.length < state.limit
  bound : state.rpath.length + state.rest.length + 2 ≤ pathMax + pathMax
  boundary : state.rpath.getLast? = some '/' ∨ state.rest = [] ∨ state.rest.head? = some '/'
  short : state.rest.length < pathMax
  free : '\x00' ∉ state.rest
  links : state.numLinks ≤ maxSymlinks

theorem cString_of_free {buffer : List Char} (free : '\x00' ∉ buffer) :
    cString buffer = buffer := by
  apply takeWhile_eq_self_iff.mpr
  intro char member
  have different : char ≠ '\x00' := fun same => free (same ▸ member)
  simpa using different

/-- Inside the invariant `do_path_realloc` succeeds without losing a byte. -/
theorem doPathRealloc_keeps {length grown : Nat} {kept : List Char}
    (size : limit = pathMax ∨ limit = pathMax + pathMax) (room : rpath.length ≤ limit)
    (bound : rpath.length + length + 2 ≤ pathMax + pathMax) (short : length < pathMax)
    (done : doPathRealloc length rpath limit = some (kept, grown)) :
    kept = rpath ∧ (grown = pathMax ∨ grown = pathMax + pathMax) ∧
      rpath.length + length < grown := by
  unfold doPathRealloc at done
  split at done
  next fits =>
    cases done
    exact ⟨rfl, size, fits⟩
  next full =>
    split at done
    · cases done
    cases done
    -- a buffer of two `PATH_MAX` has room, so this is the first growth
    have first : limit = pathMax := by omega
    have whole : rpath.length ≤ pathMax := by omega
    have small : ¬pathMax < length + 1 := by omega
    refine ⟨?_, ?_, ?_⟩
    · rw [take_of_length_le whole, Nat.sub_eq_zero_of_le whole]
      simp
    · simp [small, first]
    · rw [if_neg small, first]
      omega

/-- The two outcomes of copying a name behind `rpath` inside the invariant. -/
theorem WalkInv.copy (stemFree : '\x00' ∉ stem) (inv : WalkInv links stem state)
    (named : component state.rest ≠ []) (notDot : component state.rest ≠ ['.'])
    (notDotDot : component state.rest ≠ ['.', '.'])
    (grown : doPathRealloc (component state.rest).length (closeSlash state.rpath) state.limit =
      some (rpath, limit)) :
    rpath = closeSlash state.rpath ∧ (limit = pathMax ∨ limit = pathMax + pathMax) ∧
      (rpath ++ component state.rest).length < limit ∧
      cString (rpath ++ component state.rest) = rpath ++ component state.rest ∧
      ∃ names, Holds stem names state.rpath ∧ Unlinked links stem names ∧
        Holds stem (names ++ [component state.rest]) (rpath ++ component state.rest) ∧
        rpath ++ component state.rest = spell stem (names ++ [component state.rest]) := by
  obtain ⟨names, holds, unlinked⟩ := inv.holds
  have isName := component_isName inv.free named notDot notDotDot
  have paid := closeSlash_component_le inv.boundary named
  have bound := inv.bound
  have room := inv.room
  have short := inv.short
  have part := component_length_add state.rest
  have closed := closeSlash_length_le state.rpath
  obtain ⟨rfl, size, fits⟩ :=
    doPathRealloc_keeps inv.size (by omega) (by omega) (by omega) grown
  have appended := holds.append isName
  refine ⟨rfl, size, by simpa using fits, cString_of_free (appended.nul_notMem stemFree),
    names, holds, unlinked, appended, ?_⟩
  rw [holds.closeSlash_eq, spell_concat]
  simp

theorem WalkInv.step (stemFree : '\x00' ∉ stem) (stemShort : stem.length + 1 < pathMax)
    (inv : WalkInv links stem state) (taken : walkStep links stem state = .next next) :
    WalkInv links stem next := by
  obtain ⟨named, edit⟩ := walkStep_next taken
  have shorter := afterComponent_length_lt named
  have afterFree : '\x00' ∉ afterComponent state.rest :=
    fun member => inv.free (mem_of_mem_afterComponent member)
  have short := inv.short
  have bound := inv.bound
  have room := inv.room
  rcases edit with rfl | rfl | ⟨notDot, notDotDot, rpath, limit, grown, plain | linked⟩
  · exact ⟨inv.holds, inv.size, room, by simp only; omega,
      .inr (afterComponent_boundary _), by simp only; omega, afterFree, inv.links⟩
  · obtain ⟨names, holds, unlinked⟩ := inv.holds
    have back := backUpBelow_length_le stem.length state.rpath
    exact ⟨⟨names.dropLast, holds.backUpBelow, unlinked.dropLast⟩, inv.size,
      by simp only; omega, by simp only; omega,
      .inr (afterComponent_boundary _), by simp only; omega, afterFree, inv.links⟩
  · obtain ⟨unlink, rfl⟩ := plain
    obtain ⟨rfl, size, fits, text, names, holds, unlinked, appended, spelled⟩ :=
      inv.copy stemFree named notDot notDotDot grown
    have paid := closeSlash_component_le inv.boundary named
    rw [text, spelled] at unlink
    refine ⟨⟨_, appended, unlinked.concat unlink⟩, size, fits, ?_,
      .inr (afterComponent_boundary _), by simp only; omega, afterFree, inv.links⟩
    simp at fits ⊢
    omega
  · obtain ⟨link, spliced⟩ := linked
    obtain ⟨rfl, size, fits, text, names, holds, unlinked, appended, spelled⟩ :=
      inv.copy stemFree named notDot notDotDot grown
    obtain ⟨within, buf, read, spliceShort, rfl⟩ := doGetSymlinks_some spliced
    rw [text] at link read
    have nameable : (closeSlash state.rpath ++ component state.rest).length < pathMax := by
      simp only [isLink, Bool.and_eq_true, decide_eq_true_eq] at link
      exact link.1
    have bufFree : '\x00' ∉ buf := by
      simp only [readlink, if_pos nameable, map_eq_some_iff] at read
      obtain ⟨target, _, rfl⟩ := read
      exact fun member => target.2 (mem_of_mem_take member)
    have splicedFree : '\x00' ∉ buf ++ afterComponent state.rest := by simp [bufFree, afterFree]
    by_cases absolute : buf.head? = some '/'
    · simp only [doGetSymlinksCopyBuf, if_pos absolute]
      refine ⟨⟨[], Holds.root stem, Unlinked.nil links stem⟩, size, ?_, ?_, .inl (by simp), ?_,
        splicedFree, within⟩
      · simp
        omega
      · simp
        omega
      · simpa using spliceShort
    · simp only [doGetSymlinksCopyBuf, if_neg absolute]
      have back := appended.backUpBelow
      rw [dropLast_concat] at back
      have long : stem.length + 1 <
          (closeSlash state.rpath ++ component state.rest).length := by
        rw [spelled]
        exact stem_length_lt appended.valid (by simp)
      have shrinks := backUp_length_le (closeSlash state.rpath ++ component state.rest)
      have slashed : backUpBelow stem.length (closeSlash state.rpath ++ component state.rest) =
          spell stem names ++ ['/'] := by
        rw [Path.backUpBelow, if_pos long, appended.backUp_concat]
      have backLength : (backUpBelow stem.length
          (closeSlash state.rpath ++ component state.rest)).length + 1 ≤ pathMax - 1 := by
        rw [Path.backUpBelow, if_pos long]
        omega
      refine ⟨⟨names, back, unlinked⟩, size, ?_, ?_, .inl ?_, ?_, splicedFree, within⟩
      · simp only
        omega
      · simp
        omega
      · rw [slashed]
        simp
      · simpa using spliceShort

variable {root full result path : List Char} {start : WalkState}

/-- `path` lies strictly below the clean directory `root`. -/
def StrictlyBelow (root path : List Char) : Prop :=
  ∃ tail, tail ≠ [] ∧ path = stemOf root ++ '/' :: tail

/-- `result` is confined to the clean directory `root`: it is that directory,
possibly with one trailing slash, or lies strictly below it; it has no `.` and
no `..` component; and no part of it below `root` that ends at a component
boundary, itself included, is a symbolic link. -/
structure InScope (links : Symlinks) (root result : List Char) : Prop where
  below : result = root ∨ result = root ++ ['/'] ∨ StrictlyBelow root result
  noDots : ∀ part ∈ result.splitOn '/', part ≠ ['.'] ∧ part ≠ ['.', '.']
  noLinks : ∀ path rest, result = path ++ rest → (rest = [] ∨ rest.head? = some '/') →
    StrictlyBelow root path → isLink links path = false

/-- A clean root spells the names of its own directory. -/
theorem IsClean.stemOf_spell (clean : IsClean root) :
    ∃ names, (∀ name ∈ names, IsName name) ∧ root = cleanSpelling names ∧
      stemOf root = spell [] names := by
  obtain ⟨names, valid, rfl⟩ := clean.spelled
  refine ⟨names, valid, rfl, ?_⟩
  by_cases none : names = []
  · subst none
    rfl
  · have long := @stem_length_lt _ [] valid none
    have notRoot : cleanSpelling names ≠ ['/'] := by
      intro same
      rw [cleanSpelling, if_neg none] at same
      rw [same] at long
      simp at long
    rw [stemOf, if_neg notRoot, cleanSpelling, if_neg none]

theorem IsClean.free (clean : IsClean path) : '\x00' ∉ path := by
  obtain ⟨names, valid, rfl⟩ := clean.spelled
  exact (holds_cleanSpelling valid).nul_notMem (by simp)

theorem IsClean.stemFree (clean : IsClean root) : '\x00' ∉ stemOf root := by
  obtain ⟨names, valid, _, stem⟩ := clean.stemOf_spell
  rw [stem]
  exact nul_notMem_spell (by simp) valid

private theorem noDots_of_names (valid : ∀ name ∈ names, name = [] ∨ IsName name) :
    ∀ part ∈ (spell [] names).splitOn '/', part ≠ ['.'] ∧ part ≠ ['.', '.'] := by
  have plain : ∀ name ∈ names, '/' ∉ name := by
    intro name member
    rcases valid name member with rfl | isName
    · simp
    · exact isName.noSlash
  rw [splitOn_spell plain]
  refine forall_mem_cons.mpr ⟨by simp, fun part inside => ?_⟩
  rcases valid part inside with rfl | isName
  · simp
  · exact ⟨isName.notDot, isName.notDotDot⟩

/-- The buffer with which a walk below `root` ends, trimmed as
`eval_symlinks_in_scope` trims it, is confined to `root`. -/
theorem inScope_of_holds (clean : IsClean root) (holds : Holds (stemOf root) names rpath)
    (unlinked : Unlinked links (stemOf root) names) :
    InScope links root (trimSlash (stemOf root).length rpath) := by
  obtain ⟨rootNames, rootValid, spelledRoot, stem⟩ := clean.stemOf_spell
  rw [holds.trimSlash_eq]
  by_cases none : names = []
  · rw [if_pos none]
    refine ⟨?_, ?_, ?_⟩
    · by_cases top : root = ['/']
      · exact .inl (by simp [stemOf, top])
      · exact .inr (.inl (by simp [stemOf, top]))
    · have closed : stemOf root ++ ['/'] = spell [] (rootNames ++ [[]]) := by
        rw [stem, spell_concat]
      rw [closed]
      apply noDots_of_names
      exact forall_mem_append.mpr
        ⟨fun name old => .inr (rootValid name old), forall_mem_singleton.mpr (.inl rfl)⟩
    · rintro path rest split _ ⟨tail, some, rfl⟩
      have lengths := congrArg List.length split
      have positive := length_pos_iff.mpr some
      simp only [length_append, length_cons, length_nil] at lengths
      omega
  · rw [if_neg none]
    refine ⟨.inr (.inr ?_), ?_, ?_⟩
    · obtain ⟨name, rest, rfl⟩ := exists_cons_of_ne_nil none
      have isName := holds.valid name mem_cons_self
      refine ⟨name ++ spell [] rest, by simp [isName.nonempty], ?_⟩
      rw [spell_cons, spell_eq_stem_append]
      simp
    · rw [stem, ← spell_append]
      apply noDots_of_names
      exact forall_mem_append.mpr ⟨fun name old => .inr (rootValid name old),
        fun name new => .inr (holds.valid name new)⟩
    · rintro path rest split boundary ⟨tail, some, rfl⟩
      obtain ⟨front, isPrefix, named, spelled⟩ :=
        spell_boundary holds.valid split boundary (by simp)
      rw [spelled]
      exact unlinked front isPrefix named

theorem walkStart_inv (links : Symlinks) (cleanFull : IsClean full)
    (stemShort : (stemOf root).length + 1 < pathMax) :
    WalkInv links (stemOf root) (walkStart root full) where
  holds := ⟨[], Holds.root _, Unlinked.nil links _⟩
  size := .inl rfl
  room := by
    simp [walkStart]
    exact stemShort
  bound := by
    have short := cleanFull.short
    simp [walkStart]
    omega
  boundary := .inl (by simp [walkStart])
  short := by
    have short := cleanFull.short
    simp [walkStart]
    omega
  free := fun member => cleanFull.free (mem_of_mem_drop member)
  links := Nat.zero_le _

theorem inScope_root (links : Symlinks) (clean : IsClean root) :
    InScope links root root := by
  obtain ⟨names, valid, spelled, stem⟩ := clean.stemOf_spell
  refine ⟨.inl rfl, ?_, ?_⟩
  · by_cases none : names = []
    · have top : root = spell [] [[]] := by rw [spelled, none]; rfl
      rw [top]
      exact noDots_of_names fun name member => .inl (mem_singleton.mp member)
    · rw [spelled, cleanSpelling, if_neg none]
      exact noDots_of_names fun name member => .inr (valid name member)
  · rintro path rest split _ ⟨tail, some, rfl⟩
    have positive := length_pos_iff.mpr some
    have short : root.length ≤ (stemOf root).length + 1 := by
      unfold stemOf
      split
      next top => simp [top]
      · omega
    have lengths := congrArg List.length split
    simp at lengths
    omega

/-- The buffer with which a walk below `root` ends holds names that are no links. -/
theorem doEvalSymlinksInScope_holds (cleanFull : IsClean full) (cleanRoot : IsClean root)
    (stemShort : (stemOf root).length + 1 < pathMax)
    (ran : (doEvalSymlinksInScope links (stemOf root)).run (walkStart root full) = some rpath) :
    '\x00' ∉ rpath ∧ ∃ names, Holds (stemOf root) names rpath ∧
      Unlinked links (stemOf root) names := by
  refine (doEvalSymlinksInScope links (stemOf root)).run_induction
    (WalkInv links (stemOf root))
    (fun outcome => outcome = some rpath → '\x00' ∉ rpath ∧
      ∃ names, Holds (stemOf root) names rpath ∧ Unlinked links (stemOf root) names)
    (fun inv taken => inv.step cleanRoot.stemFree stemShort taken) ?_
    (walkStart_inv links cleanFull stemShort) ran
  rintro state outcome inv taken rfl
  obtain ⟨names, holds, unlinked⟩ := inv.holds
  have last : rpath = state.rpath := by
    change walkStep _ _ _ = _ at taken
    unfold walkStep walkName at taken
    grind
  rw [last]
  exact ⟨holds.nul_notMem cleanRoot.stemFree, names, holds, unlinked⟩

/-- Whatever the resolver returns between clean paths is confined to the root. -/
theorem evalSymlinksInScope_inScope {getcwd : Option WorkingDir} (cleanFull : IsClean full)
    (cleanRoot : IsClean root) (found : evalSymlinksInScope links getcwd full root = some result) :
    InScope links root result := by
  rw [evalSymlinksInScope, utilCleanPath_of_isClean getcwd cleanRoot, bind_some] at found
  split at found
  next same =>
    cases found
    subst same
    exact inScope_root links cleanFull
  split at found
  · cases found
  split at found
  · cases found
  rename_i fits
  obtain ⟨rpath, ran, rfl⟩ := map_eq_some_iff.mp found
  obtain ⟨free, names, holds, unlinked⟩ :=
    doEvalSymlinksInScope_holds cleanFull cleanRoot (by omega) ran
  have trimmedFree : '\x00' ∉ trimSlash (stemOf root).length rpath := by
    unfold trimSlash
    split
    · exact fun member => free (dropLast_subset _ member)
    · exact free
  rw [cString_of_free trimmedFree]
  exact inScope_of_holds cleanRoot holds unlinked

/-- The same walk with its link counter set back. -/
def WalkState.uncounted (state : WalkState) : WalkState := { state with numLinks := 0 }

/-- The link counter only ever stops an expansion. -/
theorem doGetSymlinks_uncounted
    (spliced : doGetSymlinks links stem rpath limit rest numLinks = some next) :
    doGetSymlinks links stem rpath limit rest 0 = some { next with numLinks := 1 } := by
  obtain ⟨_, buf, read, fits, rfl⟩ := doGetSymlinks_some spliced
  have first : ¬maxSymlinks < 0 + 1 := by decide
  have room : ¬pathMax - buf.length ≤ rest.length := by omega
  simp only [doGetSymlinks, if_neg first, read, if_neg room]

/-- Forgetting the link counter does not change a round that is not stopped by it. -/
theorem walkStep_uncounted (taken : walkStep links stem state = .next next) :
    ∃ count, walkStep links stem state.uncounted = .next { next with numLinks := count } := by
  obtain ⟨rpath, limit, rest, numLinks⟩ := state
  change ∃ count, walkStep links stem ⟨rpath, limit, rest, 0⟩ = _
  by_cases unread : rest = []
  · simp [walkStep, unread] at taken
  by_cases unnamed : component rest = []
  · simp [walkStep, unread, unnamed] at taken
  by_cases dot : component rest = ['.']
  · simp [walkStep, if_neg unread, if_neg unnamed, if_pos dot] at taken
    subst taken
    exact ⟨0, by simp [walkStep, unread, dot]⟩
  by_cases dotDot : component rest = ['.', '.']
  · simp [walkStep, if_neg unread, if_neg unnamed, if_neg dot, if_pos dotDot] at taken
    subst taken
    exact ⟨0, by simp [walkStep, unread, dotDot]⟩
  simp only [walkStep, if_neg unread, if_neg unnamed, if_neg dot, if_neg dotDot, walkName]
    at taken ⊢
  split at taken
  · cases taken
  split at taken
  next plain =>
    cases taken
    exact ⟨0, if_pos plain⟩
  next linked =>
    split at taken
    · cases taken
    rename_i spliced
    cases taken
    exact ⟨1, by rw [if_neg linked, doGetSymlinks_uncounted spliced]⟩

theorem walkStep_done_uncounted (taken : walkStep links stem state = .done (some rpath)) :
    walkStep links stem state.uncounted = .done (some rpath) := by
  unfold WalkState.uncounted
  unfold walkStep at taken ⊢
  by_cases unread : state.rest = []
  · simpa [unread] using taken
  by_cases unnamed : component state.rest = []
  · simpa [unread, unnamed] using taken
  unfold walkName at taken
  grind

/-- A layout on which the walk, were it not for the link counter, goes on forever. -/
def Endless (links : Symlinks) (stem : List Char) (start : WalkState) : Prop :=
  ∃ trace : Nat → WalkState, trace 0 = start ∧
    ∀ round, walkStep links stem (trace round).uncounted = .next (trace (round + 1))

/-- The walk on an endless layout ends in `NULL`. -/
theorem doEvalSymlinksInScope_endless (endless : Endless links stem start) :
    (doEvalSymlinksInScope links stem).run start = none := by
  obtain ⟨trace, initial, rounds⟩ := endless
  have follows : ∀ {count : Nat} {state : WalkState},
      (doEvalSymlinksInScope links stem).Reaches count start state →
      state.uncounted = (trace count).uncounted := by
    intro count state reaches
    induction reaches with
    | refl => rw [initial]
    | step _ taken ih =>
      obtain ⟨counted, again⟩ := walkStep_uncounted taken
      rw [ih initial, rounds, LoopStep.next.injEq] at again
      rw [again]
      rfl
  obtain ⟨count, final, reaches, _, leaves⟩ :=
    (doEvalSymlinksInScope links stem).exists_final start
  cases outcome : (doEvalSymlinksInScope links stem).run start with
  | none => rfl
  | some rpath =>
    rw [outcome] at leaves
    have stops := walkStep_done_uncounted leaves
    rw [follows reaches, rounds] at stops
    cases stops

theorem walkStart_root_leaves (links : Symlinks) (root : List Char) :
    ∃ rpath, walkStep links (stemOf root) (walkStart root root).uncounted =
      .done (some rpath) := by
  by_cases top : root = ['/']
  · subst top
    exact ⟨_, rfl⟩
  · have unread : (walkStart root root).rest = [] := by simp [walkStart, stemOf, top]
    exact ⟨_, if_pos unread⟩

/-- The walk counts at most `MAXSYMLINKS` expansions in every state it reaches. -/
theorem numLinks_le_of_reaches {count : Nat}
    (reaches : (doEvalSymlinksInScope links stem).Reaches count start state)
    (within : start.numLinks ≤ maxSymlinks) : state.numLinks ≤ maxSymlinks := by
  refine Loop.Reaches.invariant (fun current : WalkState => current.numLinks ≤ maxSymlinks)
    (fun {state next} kept taken => ?_) reaches within
  obtain ⟨_, edit⟩ := walkStep_next taken
  rcases edit with rfl | rfl | ⟨_, _, rpath, limit, _, ⟨_, rfl⟩ | ⟨_, spliced⟩⟩
  · exact kept
  · exact kept
  · exact kept
  obtain ⟨counted, _, _, _, rfl⟩ := doGetSymlinks_some spliced
  exact counted

/-- For every assignment of link targets, every current directory and all paths,
a path that `util_follow_symlink_in_scope` returns is confined to the cleaned
root; the walk leaves its loop after boundedly many rounds and at most
`MAXSYMLINKS` expansions; and a layout that would keep it going ends in `NULL`.
That the full path lies below the root is not needed for any of this. -/
theorem utilFollowSymlinkInScope_confined (links : Symlinks) (getcwd : Option WorkingDir)
    (fullpath rootpath : CStr) :
    (∀ result, utilFollowSymlinkInScope links getcwd fullpath.1 rootpath.1 = some result →
      ∃ root, utilCleanPath getcwd rootpath.1 = some root ∧ InScope links root result) ∧
    (∀ full root, utilCleanPath getcwd fullpath.1 = some full →
      utilCleanPath getcwd rootpath.1 = some root →
      (∃ rounds final outcome,
        (doEvalSymlinksInScope links (stemOf root)).Reaches rounds (walkStart root full) final ∧
        (doEvalSymlinksInScope links (stemOf root)).step final = .done outcome ∧
        rounds < (maxSymlinks + 1) * pathMax ∧ final.numLinks ≤ maxSymlinks) ∧
      (Endless links (stemOf root) (walkStart root full) →
        utilFollowSymlinkInScope links getcwd fullpath.1 rootpath.1 = none)) := by
  constructor
  · intro result found
    obtain ⟨full, cleanedFull, found⟩ := bind_eq_some_iff.mp found
    obtain ⟨root, cleanedRoot, found⟩ := bind_eq_some_iff.mp found
    exact ⟨root, cleanedRoot, evalSymlinksInScope_inScope (utilCleanPath_isClean cleanedFull)
      (utilCleanPath_isClean cleanedRoot) found⟩
  · intro full root cleanedFull cleanedRoot
    have cleanFull := utilCleanPath_isClean cleanedFull
    have cleanRoot := utilCleanPath_isClean cleanedRoot
    constructor
    · obtain ⟨rounds, final, reaches, bound, leaves⟩ :=
        (doEvalSymlinksInScope links (stemOf root)).exists_final (walkStart root full)
      refine ⟨rounds, final, _, reaches, leaves, ?_, numLinks_le_of_reaches reaches (Nat.zero_le _)⟩
      have short := cleanFull.short
      simp only [doEvalSymlinksInScope, walkStart, length_drop, maxSymlinks, pathMax]
        at bound short ⊢
      omega
    · intro endless
      rw [utilFollowSymlinkInScope, cleanedFull, bind_some, cleanedRoot,
        bind_some, evalSymlinksInScope, utilCleanPath_of_isClean getcwd cleanRoot,
        bind_some, doEvalSymlinksInScope_endless endless]
      have moves : full ≠ root := by
        rintro rfl
        obtain ⟨trace, initial, rounds⟩ := endless
        obtain ⟨rpath, leaves⟩ := walkStart_root_leaves links full
        rw [← initial, rounds] at leaves
        cases leaves
      simp [moves]

/-- `/r/a` is a link to `../b`. -/
def upLink : Symlinks := fun path =>
  if path = "/r/a".toList then some ⟨"../b".toList, by decide⟩ else none

theorem utilFollowSymlinkInScope_upLink :
    utilFollowSymlinkInScope upLink none "/r/a".toList "/r".toList = some "/r/b".toList ∧
      ∃ root, InScope upLink root "/r/b".toList := by
  have found : utilFollowSymlinkInScope upLink none "/r/a".toList "/r".toList =
      some "/r/b".toList := by decide
  obtain ⟨root, _, confined⟩ := (utilFollowSymlinkInScope_confined upLink none
    ⟨"/r/a".toList, by decide⟩ ⟨"/r".toList, by decide⟩).1 _ found
  exact ⟨found, root, confined⟩

/-- A link to itself uses up the counter. -/
example : utilFollowSymlinkInScope
    (fun path => if path = "/r/a".toList then some ⟨"a".toList, by decide⟩ else none)
    none "/r/a".toList "/r".toList = none := by
  decide

/-! `eval_symlinks_in_scope` refuses a path that is not in the root by asking
whether the text of the root occurs in it, anywhere. -/

/-- A cleaned path that is neither the cleaned root nor below it. -/
def OutOfScope (root full : List Char) : Prop :=
  full ≠ root ∧ ¬ StrictlyBelow root full

/-- `util_follow_symlink_in_scope` returns `NULL` for a path outside its root,
whatever the file system holds. -/
def RefusesOutside (getcwd : Option WorkingDir) (fullpath rootpath : CStr) : Prop :=
  ∀ full root, utilCleanPath getcwd fullpath.1 = some full →
    utilCleanPath getcwd rootpath.1 = some root → OutOfScope root full →
    ∀ links, utilFollowSymlinkInScope links getcwd fullpath.1 rootpath.1 = none

/-- The file system without a symbolic link. -/
def noLinks : Symlinks := fun _ => none

/-- Inside the invariant `do_path_realloc` finds a size for its buffer. -/
theorem doPathRealloc_isSome {length : Nat} (size : limit = pathMax ∨ limit = pathMax + pathMax)
    (short : length < pathMax) :
    (doPathRealloc length rpath limit).isSome := by
  have small : ¬ sizeMax - (length + 1) < limit := by
    simp only [sizeMax, pathMax] at size short ⊢
    omega
  unfold doPathRealloc
  split <;> rfl

/-- Without links no round of the walk gives up. -/
theorem WalkInv.noLinks_leaves {outcome : Option (List Char)} (inv : WalkInv noLinks stem state)
    (taken : walkStep noLinks stem state = .done outcome) : outcome.isSome := by
  have short := inv.short
  have part := component_length_add state.rest
  have grown := @doPathRealloc_isSome (closeSlash state.rpath) state.limit
    (component state.rest).length inv.size (by omega)
  obtain ⟨⟨rpath, limit⟩, grown⟩ := isSome_iff_exists.mp grown
  have plain : ∀ path, doEvalSymlinksInScopeIsSymlink noLinks path = true := by
    simp [doEvalSymlinksInScopeIsSymlink, isLink, noLinks]
  unfold walkStep walkName at taken
  rw [grown] at taken
  simp [plain] at taken
  split at taken
  · cases taken
    rfl
  split at taken
  · cases taken
    rfl
  split at taken
  · cases taken
  split at taken <;> cases taken

/-- Without links every path that passes the guard is resolved. -/
theorem evalSymlinksInScope_noLinks (getcwd : Option WorkingDir) (cleanFull : IsClean full)
    (cleanRoot : IsClean root) (occurs : root <:+: full) (different : full ≠ root) :
    (evalSymlinksInScope noLinks getcwd full root).isSome := by
  have fullShort := cleanFull.short
  -- a root of `PATH_MAX - 1` bytes only occurs in itself
  have shorter : root.length < full.length := by
    have le := occurs.length_le
    have ne : root.length ≠ full.length := fun same =>
      different (occurs.eq_of_length same).symm
    omega
  have stemShort : (stemOf root).length + 1 < pathMax := by
    have le : (stemOf root).length ≤ root.length := by
      unfold stemOf
      split <;> simp
    omega
  have walked : ((doEvalSymlinksInScope noLinks (stemOf root)).run (walkStart root full)).isSome :=
    (doEvalSymlinksInScope noLinks (stemOf root)).run_induction
      (WalkInv noLinks (stemOf root)) (fun outcome => outcome.isSome)
      (fun inv taken => inv.step cleanRoot.stemFree stemShort taken)
      (fun inv taken => inv.noLinks_leaves taken)
      (walkStart_inv noLinks cleanFull stemShort)
  have fits : ¬ pathMax - 1 ≤ (stemOf root).length := by omega
  rw [evalSymlinksInScope, utilCleanPath_of_isClean getcwd cleanRoot, bind_some,
    if_neg different, if_neg (not_not.mpr occurs), if_neg fits, isSome_map]
  exact walked

/-- For all paths and every current directory, `util_follow_symlink_in_scope`
refuses a path outside its root exactly when the text of the cleaned root does
not occur in the cleaned path. -/
theorem refusesOutside_iff (getcwd : Option WorkingDir) (fullpath rootpath : CStr) :
    RefusesOutside getcwd fullpath rootpath ↔
      ∀ full root, utilCleanPath getcwd fullpath.1 = some full →
        utilCleanPath getcwd rootpath.1 = some root → OutOfScope root full →
        ¬ root <:+: full := by
  constructor
  · intro refuses full root cleanedFull cleanedRoot outside occurs
    have refused := refuses full root cleanedFull cleanedRoot outside noLinks
    have found := evalSymlinksInScope_noLinks getcwd (utilCleanPath_isClean cleanedFull)
      (utilCleanPath_isClean cleanedRoot) occurs outside.1
    rw [utilFollowSymlinkInScope, cleanedFull, bind_some, cleanedRoot,
      bind_some] at refused
    rw [refused] at found
    cases found
  · intro apart full root cleanedFull cleanedRoot outside links
    have guarded := apart full root cleanedFull cleanedRoot outside
    rw [utilFollowSymlinkInScope, cleanedFull, bind_some, cleanedRoot,
      bind_some, evalSymlinksInScope,
      utilCleanPath_of_isClean getcwd (utilCleanPath_isClean cleanedRoot), bind_some,
      if_neg outside.1, if_pos guarded]

/-- `/data` is not below `/da`, and resolving it there yields `/da/ta`. -/
theorem utilFollowSymlinkInScope_sibling :
    OutOfScope "/da".toList "/data".toList ∧
      utilFollowSymlinkInScope noLinks none "/data".toList "/da".toList =
        some "/da/ta".toList ∧
      ¬ RefusesOutside none ⟨"/data".toList, by decide⟩ ⟨"/da".toList, by decide⟩ := by
  have outside : OutOfScope "/da".toList "/data".toList := by
    refine ⟨by decide, ?_⟩
    rintro ⟨tail, _, same⟩
    simp [stemOf] at same
  have found : utilFollowSymlinkInScope noLinks none "/data".toList "/da".toList =
      some "/da/ta".toList := by decide
  refine ⟨outside, found, fun refuses => ?_⟩
  have refused := refuses "/data".toList "/da".toList (by decide) (by decide) outside noLinks
  cases refused

end Isulad.Path
