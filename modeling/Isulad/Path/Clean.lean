import Isulad.Std.Loop
import Isulad.Path.Spelling

/-!
# Lexical cleaning of a path

`utilCleanPath` follows `util_clean_path` of `cutils/path.c`. The result buffer
is modelled by the characters in front of `dest`; the bytes behind it are never
read before they are overwritten. `getcwd` is a parameter with the guarantee
POSIX gives: an absolute path without `.` and `..` components that fits in the
buffer passed.
-/

namespace Isulad.Path

open List Isulad.Std

/-- `PATH_MAX` of `limits.h`, the terminator included. -/
def pathMax : Nat := 4096

/-- The spelling `util_clean_path` produces for an absolute path. -/
def cleanSpelling (names : List (List Char)) : List Char :=
  if names = [] then ['/'] else spell [] names

/-- An absolute path in clean spelling that fits in `PATH_MAX`. -/
structure IsClean (path : List Char) : Prop where
  spelled : ∃ names, (∀ name ∈ names, IsName name) ∧ path = cleanSpelling names
  short : path.length < pathMax

/-- What a successful `getcwd` delivers. -/
abbrev WorkingDir := {path : List Char // IsClean path}

/-- The text behind the leading slashes. -/
def skipSlash (text : List Char) : List Char := text.dropWhile (· = '/')

/-- The first component of a text, empty when only slashes are left. -/
def component (text : List Char) : List Char := (skipSlash text).takeWhile (· ≠ '/')

/-- The text from the end of the first component on. -/
def afterComponent (text : List Char) : List Char := (skipSlash text).dropWhile (· ≠ '/')

variable (text : List Char)

theorem component_append_after : component text ++ afterComponent text = skipSlash text :=
  takeWhile_append_dropWhile

theorem component_length_add :
    (component text).length + (afterComponent text).length ≤ text.length := by
  rw [← length_append, component_append_after]
  exact length_dropWhile_le _ _

variable {text : List Char} {char : Char}

theorem afterComponent_length_lt (named : component text ≠ []) :
    (afterComponent text).length < text.length := by
  have positive := length_pos_iff.mpr named
  have bound := component_length_add text
  omega

theorem afterComponent_boundary (text : List Char) :
    afterComponent text = [] ∨ (afterComponent text).head? = some '/' := by
  cases after : afterComponent text with
  | nil => exact .inl rfl
  | cons first rest =>
    have stopped := List.head?_dropWhile_not (· ≠ '/') (skipSlash text)
    rw [show (skipSlash text).dropWhile (· ≠ '/') = first :: rest from after] at stopped
    exact .inr (by simpa using stopped)

theorem mem_of_mem_afterComponent (member : char ∈ afterComponent text) : char ∈ text :=
  (dropWhile_sublist _).mem ((dropWhile_sublist _).mem member)

theorem component_plain (text : List Char) : '/' ∉ component text := by
  intro member
  have kept := mem_takeWhile_imp member
  simp at kept

theorem component_isName (free : '\x00' ∉ text) (nonempty : component text ≠ [])
    (notDot : component text ≠ ['.']) (notDotDot : component text ≠ ['.', '.']) :
    IsName (component text) where
  nonempty := nonempty
  noSlash := component_plain text
  noNul member := free ((dropWhile_sublist _).mem ((takeWhile_sublist _).mem member))
  notDot := notDot
  notDotDot := notDotDot

/-- A slash put behind `rpath` is paid for by a slash of the unread text. -/
theorem closeSlash_component_le {rpath rest : List Char}
    (boundary : rpath.getLast? = some '/' ∨ rest = [] ∨ rest.head? = some '/')
    (named : component rest ≠ []) :
    (closeSlash rpath).length + (component rest).length + (afterComponent rest).length ≤
      rpath.length + rest.length := by
  have whole := component_length_add rest
  by_cases slashed : rpath.getLast? = some '/'
  · simp only [closeSlash, if_pos slashed]
    omega
  · have slash : rest.head? = some '/' := by
      rcases boundary with closed | empty | slash
      · exact absurd closed slashed
      · exact absurd (by rw [empty]; rfl) named
      · exact slash
    obtain ⟨tail, rfl⟩ := List.head?_eq_some_iff.mp slash
    have same : component ('/' :: tail) = component tail ∧
        afterComponent ('/' :: tail) = afterComponent tail := by
      simp [component, afterComponent, skipSlash]
    have shorter := component_length_add tail
    rw [same.1, same.2]
    simp [closeSlash, if_neg slashed]
    omega

/-- `do_clean_path_continue`: handle `.` and `..`, or report that the component
has to be copied. -/
def doCleanPathContinue (name dest : List Char) : Option (List Char) :=
  if name = ['.'] then some dest
  else if name = ['.', '.'] then some (backUpBelow 0 dest)
  else none

/-- The two cursors of `do_clean_path`. -/
structure CleanState where
  dest : List Char
  stpos : List Char
deriving DecidableEq

/-- One round of the `for` loop of `do_clean_path`. -/
def doCleanPathStep (state : CleanState) : LoopStep CleanState (Option (List Char)) :=
  if state.stpos = [] then .done (some state.dest)
  else if component state.stpos = [] then .done (some state.dest)
  else
    match doCleanPathContinue (component state.stpos) state.dest with
    | some dest => .next ⟨dest, afterComponent state.stpos⟩
    | none =>
      -- `dest + (endpos - stpos) >= limit_respath`
      if pathMax ≤ (closeSlash state.dest).length + (component state.stpos).length then
        .done none
      else
        .next ⟨closeSlash state.dest ++ component state.stpos, afterComponent state.stpos⟩

variable {state next : CleanState}

/-- What one continuing round of `do_clean_path` can do. -/
theorem doCleanPathStep_next (taken : doCleanPathStep state = .next next) :
    component state.stpos ≠ [] ∧ next.stpos = afterComponent state.stpos ∧
      (next.dest = state.dest ∨ next.dest = backUpBelow 0 state.dest ∨
        (component state.stpos ≠ ['.'] ∧ component state.stpos ≠ ['.', '.'] ∧
          next.dest = closeSlash state.dest ++ component state.stpos ∧
          next.dest.length < pathMax)) := by
  unfold doCleanPathStep at taken
  by_cases empty : state.stpos = []
  · simp [empty] at taken
  by_cases unnamed : component state.stpos = []
  · simp [empty, unnamed] at taken
  simp only [if_neg empty, if_neg unnamed] at taken
  by_cases dot : component state.stpos = ['.']
  · simp [doCleanPathContinue, if_pos dot] at taken
    subst taken
    exact ⟨unnamed, rfl, .inl rfl⟩
  by_cases dotDot : component state.stpos = ['.', '.']
  · simp [doCleanPathContinue, if_neg dot, if_pos dotDot] at taken
    subst taken
    exact ⟨unnamed, rfl, .inr (.inl rfl)⟩
  simp only [doCleanPathContinue, if_neg dot, if_neg dotDot] at taken
  split at taken
  · cases taken
  rename_i fits
  simp at taken
  subst taken
  refine ⟨unnamed, rfl, .inr (.inr ⟨dot, dotDot, rfl, ?_⟩)⟩
  simp
  omega

/-- `do_clean_path`. -/
def doCleanPath : Loop CleanState (Option (List Char)) where
  step := doCleanPathStep
  rank state := state.stpos.length
  lowers taken := by
    obtain ⟨named, rest, _⟩ := doCleanPathStep_next taken
    rw [rest]
    exact afterComponent_length_lt named

@[simp] theorem doCleanPath_step (state : CleanState) :
    doCleanPath.step state = doCleanPathStep state := rfl

/-- The buffer `util_clean_path` starts from: the root for an absolute path, else
the current directory, which must leave room for the path. -/
def cleanStart (getcwd : Option WorkingDir) (path : List Char) : Option (List Char) :=
  if path.head? = some '/' then some ['/']
  else getcwd.bind fun cwd =>
    if (pathMax - 1) - cwd.1.length ≤ path.length then none else some cwd.1

/-- `util_clean_path`, called as everywhere with a buffer of `PATH_MAX` bytes. -/
def utilCleanPath (getcwd : Option WorkingDir) (path : List Char) : Option (List Char) :=
  if path = [] then none
  else (cleanStart getcwd path).bind fun dest =>
    (doCleanPath.run ⟨dest, path⟩).map (trimSlash 0)

variable {buffer : List Char} {names : List (List Char)}

theorem cleanSpelling_of_holds (holds : Holds [] names buffer) :
    trimSlash 0 buffer = cleanSpelling names :=
  holds.trimSlash_eq

theorem trimSlash_length_le (stemLength : Nat) (buffer : List Char) :
    (trimSlash stemLength buffer).length ≤ buffer.length := by
  unfold trimSlash
  split <;> simp

theorem holds_cleanSpelling (valid : ∀ name ∈ names, IsName name) :
    Holds [] names (cleanSpelling names) := by
  unfold cleanSpelling
  split
  next none => exact none ▸ .root []
  next named => exact ⟨valid, .inr ⟨named, rfl⟩⟩

end Isulad.Path
