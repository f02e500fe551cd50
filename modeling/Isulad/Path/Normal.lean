import Isulad.Path.Clean
import Isulad.Std.FileTree
import Isulad.Std.Tokens

/-!
# Lexical normal form

What `util_clean_path` is for: the names of a path with each `..` cancelled against the nearest
name kept before it. `utilCleanPath_absolute` compares the pointer walk over the result buffer with
this stack of names, the buffer size included.
-/

namespace Isulad.Path

open Option List Isulad.Std

/-- A further name on the stack of names kept so far; above the root `..` leads nowhere. -/
def keep (kept : List (List Char)) (name : List Char) : List (List Char) :=
  if name = ['.', '.'] then kept.dropLast else kept ++ [name]

/-- The names that are left of a list of names. -/
def lexical (names : List (List Char)) : List (List Char) := names.foldl keep []

/-- The names of the lexical normal form of a path. -/
def normalNames (path : List Char) : List (List Char) := lexical (namesOf path)

/-- The names are spelled, with the terminator, in `PATH_MAX` bytes. -/
def Fits (names : List (List Char)) : Prop := (cleanSpelling names).length < pathMax

/-- An absolute path as a C string. -/
abbrev AbsolutePath := {chars : List Char // '\x00' ∉ chars ∧ chars.head? = some '/'}

theorem namesOf_component (text : List Char) :
    namesOf text = namesOf (component text) ++ namesOf (afterComponent text) := by
  have skipped : namesOf text = namesOf (skipSlash text) := by
    induction text with
    | nil => rfl
    | cons first rest ih =>
      by_cases slash : first = '/'
      · rw [slash, namesOf_slash, ih, skipSlash, skipSlash]
        simp
      · rw [skipSlash, dropWhile_cons_of_neg (by simpa using slash)]
  rw [skipped, ← component_append_after]
  rcases afterComponent_boundary text with none | slash
  · rw [none, append_nil]
    exact (append_nil _).symm
  · obtain ⟨rest, after⟩ := List.head?_eq_some_iff.mp slash
    rw [after, namesOf_append, namesOf_slash]

theorem namesOf_of_unnamed {text : List Char} (unnamed : component text = []) :
    namesOf text = [] := by
  have after : afterComponent text = [] := by
    rcases afterComponent_boundary text with none | slash
    · exact none
    -- The first character behind the slashes is not a slash.
    have whole := component_append_after text
    rw [unnamed, nil_append] at whole
    have stopped := List.head?_dropWhile_not (· = '/') text
    rw [show text.dropWhile (· = '/') = afterComponent text from whole.symm, slash] at stopped
    simp at stopped
  rw [namesOf_component, unnamed, after]
  rfl

section Cleaning

variable {kept names : List (List Char)} {name dest text : List Char}

theorem Fits.dropLast (fits : Fits kept) (valid : ∀ name ∈ kept, IsName name) :
    Fits kept.dropLast := by
  have back := (holds_cleanSpelling valid).backUpBelow
  have short := backUpBelow_length_le 0 (cleanSpelling kept)
  rw [Fits, ← cleanSpelling_of_holds back]
  exact Nat.lt_of_le_of_lt ((trimSlash_length_le 0 _).trans short) fits

section

variable (holds : Holds [] kept dest)
include holds

/-- The room that `do_clean_path` asks for is that of the names with the new one. -/
theorem Holds.closeSlash_length (name : List Char) :
    (closeSlash dest).length + name.length = (cleanSpelling (kept ++ [name])).length := by
  rw [holds.closeSlash_eq, cleanSpelling, if_neg (by simp), spell_concat]
  simp
  omega

/-- One component read by `do_clean_path`: a blank one changes nothing, `..` backs up, and a name
is copied if it fits. -/
theorem doCleanPathStep_keep (free : '\x00' ∉ text) (named : component text ≠ []) :
    (component text = ['.'] ∧
      doCleanPathStep ⟨dest, text⟩ = .next ⟨dest, afterComponent text⟩) ∨
    (component text ≠ ['.'] ∧ ∃ next, Holds [] (keep kept (component text)) next ∧
      (Fits kept → Fits (keep kept (component text)) →
        doCleanPathStep ⟨dest, text⟩ = .next ⟨next, afterComponent text⟩) ∧
      (Fits kept → ¬ Fits (keep kept (component text)) →
        doCleanPathStep ⟨dest, text⟩ = .done none)) := by
  have nonempty : text ≠ [] := by
    rintro rfl
    exact named rfl
  by_cases dot : component text = ['.']
  · refine .inl ⟨dot, ?_⟩
    simp [doCleanPathStep, doCleanPathContinue, nonempty, dot]
  · refine .inr ⟨dot, ?_⟩
    by_cases dotDot : component text = ['.', '.']
    · have up : keep kept (component text) = kept.dropLast := if_pos dotDot
      rw [up]
      refine ⟨_, holds.backUpBelow, fun _ _ => ?_, fun fits refused => ?_⟩
      · simp [doCleanPathStep, doCleanPathContinue, nonempty, dotDot]
      · exact absurd (fits.dropLast holds.valid) refused
    · have pushed : keep kept (component text) = kept ++ [component text] := if_neg dotDot
      have room := holds.closeSlash_length (component text)
      rw [pushed]
      refine ⟨_, holds.append (component_isName free named dot dotDot), fun _ fits => ?_,
        fun _ refused => ?_⟩
      · have tooLong : ¬ pathMax ≤ (closeSlash dest).length + (component text).length := by
          rw [room]
          exact Nat.not_le.mpr fits
        simp [doCleanPathStep, doCleanPathContinue, nonempty, named, dot, dotDot, tooLong]
      · have tooLong : pathMax ≤ (closeSlash dest).length + (component text).length := by
          rw [room]
          exact Nat.not_lt.mp refused
        simp [doCleanPathStep, doCleanPathContinue, nonempty, named, dot, dotDot, tooLong]

/-- The loop of `do_clean_path` leaves the kept names in the buffer, or gives up at the first
names that do not fit. -/
theorem doCleanPath_keep (short : Fits kept) (free : '\x00' ∉ text) :
    (∃ buffer, doCleanPath.run ⟨dest, text⟩ = some buffer ∧
      Holds [] ((namesOf text).foldl keep kept) buffer ∧
      ∀ front, front <+: namesOf text → Fits (front.foldl keep kept)) ∨
    (doCleanPath.run ⟨dest, text⟩ = none ∧
      ∃ front, front <+: namesOf text ∧ ¬ Fits (front.foldl keep kept)) := by
  induction length : text.length using Nat.strong_induction_on generalizing kept dest text with
  | _ count ih =>
  subst length
  by_cases unnamed : component text = []
  · have leaves : doCleanPathStep ⟨dest, text⟩ = .done (some dest) := by
      simp [doCleanPathStep, unnamed]
    refine .inl ⟨dest, doCleanPath.run_done leaves, ?_, fun front above => ?_⟩
    · rw [namesOf_of_unnamed unnamed]
      exact holds
    · rw [namesOf_of_unnamed unnamed, prefix_nil] at above
      rw [above]
      exact short
  · have shorter := afterComponent_length_lt unnamed
    have freeAfter : '\x00' ∉ afterComponent text := fun member =>
      free (mem_of_mem_afterComponent member)
    rcases doCleanPathStep_keep holds free unnamed with ⟨dot, step⟩ | ⟨dot, next, held, go, stop⟩
    · have blank : namesOf (component text) = [] := by rw [dot]; decide
      rw [doCleanPath.run_next step, namesOf_component, blank, nil_append]
      exact ih _ shorter holds short freeAfter rfl
    · have single : namesOf (component text) = [component text] := by
        have named : ¬ Blank (component text) := not_or.mpr ⟨unnamed, dot⟩
        rw [namesOf_of_plain (component_plain text), if_neg named]
      rw [namesOf_component, single, singleton_append]
      by_cases fits : Fits (keep kept (component text))
      · rw [doCleanPath.run_next (go short fits)]
        rcases ih _ shorter held fits freeAfter rfl with
          ⟨buffer, ran, holdsAll, allFit⟩ | ⟨ran, front, above, long⟩
        · refine .inl ⟨buffer, ran, holdsAll, fun front above => ?_⟩
          cases front with
          | nil => exact short
          | cons first front =>
            obtain ⟨rfl, rest⟩ := cons_prefix_cons.mp above
            exact allFit front rest
        · exact .inr ⟨ran, component text :: front,
            cons_prefix_cons.mpr ⟨rfl, above⟩, long⟩
      · refine .inr ⟨doCleanPath.run_done (stop short fits), [component text], ?_, fits⟩
        exact cons_prefix_cons.mpr ⟨rfl, nil_prefix⟩

/-- What `util_clean_path` makes of the names in its start buffer and of its argument. -/
theorem utilCleanPath_keep {getcwd : Option WorkingDir}
    (short : Fits kept) (named : text ≠ []) (free : '\x00' ∉ text)
    (start : cleanStart getcwd text = some dest) :
    (utilCleanPath getcwd text = some (cleanSpelling ((namesOf text).foldl keep kept)) ∧
      (∀ name ∈ (namesOf text).foldl keep kept, IsName name) ∧
      ∀ front, front <+: namesOf text → Fits (front.foldl keep kept)) ∨
    (utilCleanPath getcwd text = none ∧
      ∃ front, front <+: namesOf text ∧ ¬ Fits (front.foldl keep kept)) := by
  rw [utilCleanPath, if_neg named, start, bind_some]
  rcases doCleanPath_keep holds short free with ⟨buffer, ran, left, fits⟩ | ⟨ran, long⟩
  · rw [ran, map_some, cleanSpelling_of_holds left]
    exact .inl ⟨rfl, left.valid, fits⟩
  · exact .inr ⟨by rw [ran]; rfl, long⟩

end

end Cleaning

theorem fits_nil : Fits [] := by
  unfold Fits
  decide

variable (getcwd : Option WorkingDir) (path : AbsolutePath)

/-- An absolute path is cleaned to its normal form unless an intermediate one does not fit. -/
theorem utilCleanPath_absolute :
    (utilCleanPath getcwd path.1 = some (cleanSpelling (normalNames path.1)) ∧
      ∀ front, front <+: namesOf path.1 → Fits (lexical front)) ∨
    (utilCleanPath getcwd path.1 = none ∧
      ∃ front, front <+: namesOf path.1 ∧ ¬ Fits (lexical front)) := by
  have nonempty : path.1 ≠ [] := by
    intro none
    have absolute := path.2.2
    rw [none] at absolute
    cases absolute
  rcases utilCleanPath_keep (.root []) fits_nil nonempty path.2.1 (if_pos path.2.2) with
    ⟨cleaned, -, fits⟩ | failed
  · exact .inl ⟨cleaned, fits⟩
  · exact .inr failed

/-- Whatever `util_clean_path` returns is a clean absolute path. -/
theorem utilCleanPath_isClean {result : List Char} {getcwd : Option WorkingDir} {path : CStr}
    (cleaned : utilCleanPath getcwd path.1 = some result) : IsClean result := by
  have spelled := cleaned
  unfold utilCleanPath at spelled
  split at spelled
  · cases spelled
  next named =>
  obtain ⟨dest, start, -⟩ := bind_eq_some_iff.mp spelled
  have held : ∃ kept, Holds [] kept dest ∧ Fits kept := by
    unfold cleanStart at start
    split at start
    · cases start
      exact ⟨[], Holds.root [], fits_nil⟩
    obtain ⟨cwd, -, fits⟩ := bind_eq_some_iff.mp start
    obtain ⟨names, valid, spelled⟩ := cwd.2.spelled
    split at fits
    · cases fits
    cases fits
    refine ⟨names, spelled ▸ holds_cleanSpelling valid, ?_⟩
    unfold Fits
    exact spelled ▸ cwd.2.short
  obtain ⟨kept, holds, short⟩ := held
  rcases utilCleanPath_keep holds short named path.2 start with ⟨found, valid, fits⟩ | ⟨failed, -⟩
  · cases found.symm.trans cleaned
    exact ⟨⟨_, valid, rfl⟩, fits _ (prefix_refl _)⟩
  · cases failed.symm.trans cleaned

/-- Every intermediate normal form fits. -/
def Cleanable (path : List Char) : Prop := ∀ front, front <+: namesOf path → Fits (lexical front)

theorem utilCleanPath_eq_some_iff (result : List Char) :
    utilCleanPath getcwd path.1 = some result ↔
      Cleanable path.1 ∧ cleanSpelling (normalNames path.1) = result := by
  rcases utilCleanPath_absolute getcwd path with ⟨cleaned, fits⟩ | ⟨failed, front, above, long⟩
  · rw [cleaned, some.injEq]
    exact ⟨fun same => ⟨fits, same⟩, And.right⟩
  · refine iff_of_false (by rw [failed]; exact (some_ne_none _).symm) ?_
    exact fun cleaned => long (cleaned.1 front above)

/-- The shape of a clean path: from the root, through names only, and with a slash at its end
only if it is the root. -/
structure NormalPath (path : List Char) : Prop where
  absolute : path.head? = some '/'
  named : path ≠ ['/'] → ∀ part ∈ components path.tail, IsName part
  openEnded : path ≠ ['/'] → path.getLast? ≠ some '/'

variable {path name : List Char} {names kept : List (List Char)}

theorem normalPath_of_isClean (clean : IsClean path) : NormalPath path := by
  obtain ⟨names, valid, rfl⟩ := clean.spelled
  cases names with
  | nil => exact ⟨rfl, fun other => absurd rfl other, fun other => absurd rfl other⟩
  | cons name names =>
    have spelled : cleanSpelling (name :: names) = spell [] (name :: names) := if_neg (by simp)
    rw [spelled]
    refine ⟨rfl, fun _ part member => ?_, fun _ => getLast?_spell valid (by simp)⟩
    have parts : components ([] ++ '/' :: (spell [] (name :: names)).tail) = [] :: name :: names :=
      splitOn_spell fun other member => (valid other member).noSlash
    rw [components_append, components_of_plain (by simp), singleton_append] at parts
    rw [(List.cons.inj parts).2] at member
    exact valid part member

theorem mem_foldl_keep (member : name ∈ names.foldl keep kept) :
    name ∈ kept ∨ name ∈ names ∧ name ≠ ['.', '.'] := by
  induction names generalizing kept with
  | nil => exact .inl member
  | cons first names ih =>
    rcases ih member with early | ⟨late, plain⟩
    · unfold keep at early
      split at early
      · exact .inl (mem_of_mem_dropLast early)
      rename_i other
      rcases mem_append.mp early with old | new
      · exact .inl old
      cases mem_singleton.mp new
      exact .inr ⟨mem_cons_self, other⟩
    · exact .inr ⟨mem_cons_of_mem _ late, plain⟩

theorem isName_of_mem_normalNames (free : '\x00' ∉ path) (member : name ∈ normalNames path) :
    IsName name := by
  rcases mem_foldl_keep member with none | ⟨named, notDotDot⟩
  · cases none
  obtain ⟨part, notBlank⟩ := mem_filter.mp named
  obtain ⟨nonempty, notDot⟩ := not_or.mp (of_decide_eq_true notBlank)
  exact ⟨nonempty, notMem_of_mem_components part,
    fun nul => free ((infix_of_mem_splitOn part).subset nul), notDot, notDotDot⟩

/-- Cleaning an absolute path adds no character to it. -/
theorem mem_of_mem_utilCleanPath {getcwd : Option WorkingDir} {path : AbsolutePath}
    {result : List Char} {char : Char} (cleaned : utilCleanPath getcwd path.1 = some result)
    (member : char ∈ result) : char ∈ path.1 := by
  have slash : '/' ∈ path.1 := mem_of_mem_head? path.2.2
  obtain ⟨-, rfl⟩ := (utilCleanPath_eq_some_iff getcwd path result).mp cleaned
  unfold cleanSpelling at member
  split at member
  · rw [mem_singleton.mp member]
    exact slash
  simp only [spell, nil_append, mem_flatMap, mem_cons] at member
  obtain ⟨name, named, rfl | inName⟩ := member
  · exact slash
  rcases mem_foldl_keep named with none | ⟨kept, -⟩
  · cases none
  exact (infix_of_mem_splitOn (mem_filter.mp kept).1).subset inName

theorem foldl_keep (plain : ∀ name ∈ names, name ≠ ['.', '.']) :
    names.foldl keep kept = kept ++ names := by
  induction names generalizing kept with
  | nil => exact (append_nil kept).symm
  | cons name names ih =>
    obtain ⟨here, tail⟩ := forall_mem_cons.mp plain
    rw [foldl_cons, keep, if_neg here, ih tail, append_assoc, singleton_append]

theorem normalNames_cleanSpelling (valid : ∀ name ∈ names, IsName name) :
    normalNames (cleanSpelling names) = names := by
  have named : namesOf (cleanSpelling names) = names := by
    by_cases none : names = []
    · rw [none]
      decide
    · have parts : components (spell [] names) = [] :: names :=
        splitOn_spell fun name member => (valid name member).noSlash
      rw [cleanSpelling, if_neg none, namesOf, parts, filter_cons_of_neg (by simp [Blank])]
      refine filter_eq_self.mpr fun name member => ?_
      exact decide_eq_true (not_or.mpr ⟨(valid name member).nonempty, (valid name member).notDot⟩)
  rw [normalNames, named]
  exact foldl_keep fun name member => (valid name member).notDotDot

/-- A text that fits behind the buffer is cleaned: the slashes that separate the copied names are
paid for by those of the text. -/
theorem doCleanPath_isSome {dest text : List Char}
    (boundary : dest.getLast? = some '/' ∨ text = [] ∨ text.head? = some '/')
    (short : dest.length + text.length < pathMax) : (doCleanPath.run ⟨dest, text⟩).isSome := by
  refine doCleanPath.run_induction
    (fun state => (state.dest.getLast? = some '/' ∨ state.stpos = [] ∨
      state.stpos.head? = some '/') ∧ state.dest.length + state.stpos.length < pathMax)
    (fun outcome => outcome.isSome) ?_ ?_ ⟨boundary, short⟩
  · rintro state next ⟨boundary, short⟩ taken
    obtain ⟨named, rest, edit⟩ := doCleanPathStep_next taken
    have paid := closeSlash_component_le boundary named
    have shorter := afterComponent_length_lt named
    rw [rest]
    refine ⟨.inr (afterComponent_boundary _), ?_⟩
    rcases edit with same | back | ⟨_, _, copied, _⟩
    · rw [same]
      omega
    · have le := backUpBelow_length_le 0 state.dest
      rw [back]
      omega
    · rw [copied, length_append]
      omega
  · rintro state outcome ⟨boundary, short⟩ taken
    rw [doCleanPath_step, doCleanPathStep] at taken
    by_cases unnamed : component state.stpos = []
    · split at taken <;> cases taken <;> rfl
    have paid := closeSlash_component_le boundary unnamed
    have fits : ¬ pathMax ≤ (closeSlash state.dest).length + (component state.stpos).length := by
      omega
    split at taken
    · cases taken
      rfl
    · split at taken <;> cases taken

/-- A slash in front of the unread text is passed over. -/
theorem doCleanPath_slash (dest text : List Char) :
    doCleanPath.run ⟨dest, '/' :: text⟩ = doCleanPath.run ⟨dest, text⟩ := by
  have step : doCleanPathStep ⟨dest, '/' :: text⟩ = doCleanPathStep ⟨dest, text⟩ := by
    have same : component ('/' :: text) = component text ∧
        afterComponent ('/' :: text) = afterComponent text := by
      simp [component, afterComponent, skipSlash]
    by_cases empty : text = []
    · rw [empty]
      rfl
    · simp [doCleanPathStep, same, if_neg empty]
  cases taken : doCleanPathStep ⟨dest, text⟩ with
  | done outcome =>
    rw [doCleanPath.run_done taken]
    rw [taken] at step
    exact doCleanPath.run_done step
  | next state =>
    rw [doCleanPath.run_next taken]
    rw [taken] at step
    exact doCleanPath.run_next step

theorem cleanable_of_short (path : AbsolutePath) (short : path.1.length < pathMax) :
    Cleanable path.1 := by
  rcases utilCleanPath_absolute none path with ⟨-, fits⟩ | ⟨failed, -⟩
  · exact fits
  obtain ⟨text, split⟩ := List.head?_eq_some_iff.mp path.2.2
  have ran : (doCleanPath.run ⟨['/'], text⟩).isSome := by
    refine doCleanPath_isSome (.inl rfl) ?_
    rw [split] at short
    simp at short ⊢
    omega
  rw [utilCleanPath, split, if_neg (cons_ne_nil _ _), cleanStart, List.head?_cons,
    if_pos rfl, bind_some, doCleanPath_slash, map_eq_none_iff] at failed
  rw [failed] at ran
  cases ran

theorem utilCleanPath_of_isClean (clean : IsClean path) :
    utilCleanPath getcwd path = some path := by
  obtain ⟨names, valid, rfl⟩ := clean.spelled
  have free : '\x00' ∉ cleanSpelling names :=
    (holds_cleanSpelling valid).nul_notMem not_mem_nil
  rw [utilCleanPath_eq_some_iff getcwd ⟨_, free, (normalPath_of_isClean clean).absolute⟩]
  exact ⟨cleanable_of_short _ clean.short, by rw [normalNames_cleanSpelling valid]⟩

/-- `util_clean_path` turns every absolute path into its lexical normal form, or returns `NULL`
because the normal form of the path or of a front part of it does not fit; what it returns is a
normal path, which it leaves unchanged. -/
theorem utilCleanPath_normal (getcwd : Option WorkingDir) (path : AbsolutePath) :
    (∀ result, utilCleanPath getcwd path.1 = some result →
      result = cleanSpelling (normalNames path.1) ∧ NormalPath result ∧
        ∀ cwd, utilCleanPath cwd result = some result) ∧
    (utilCleanPath getcwd path.1 = none ↔
      ∃ front, front <+: namesOf path.1 ∧ ¬ Fits (lexical front)) := by
  constructor
  · intro result cleaned
    have clean : IsClean result := @utilCleanPath_isClean result getcwd ⟨path.1, path.2.1⟩ cleaned
    exact ⟨((utilCleanPath_eq_some_iff getcwd path result).mp cleaned).2.symm,
      normalPath_of_isClean clean, fun cwd => utilCleanPath_of_isClean cwd clean⟩
  · rcases utilCleanPath_absolute getcwd path with ⟨spelled, fits⟩ | ⟨failed, long⟩
    · refine iff_of_false (by rw [spelled]; exact some_ne_none _) ?_
      rintro ⟨front, above, refused⟩
      exact refused (fits front above)
    · exact iff_of_true failed long

/-- The names of a path with every kind of component. -/
example : cleanSpelling
    (normalNames "/a/./b//../../../c/".toList) = "/c".toList := by decide +kernel

theorem cleanSpelling_eq_root_iff (valid : ∀ name ∈ names, IsName name) :
    cleanSpelling names = ['/'] ↔ names = [] := by
  constructor
  · intro root
    by_contra named
    have long := @stem_length_lt _ [] valid named
    rw [cleanSpelling, if_neg named] at root
    rw [root] at long
    simp at long
  · rintro rfl
    rfl

theorem utilCleanPath_eq_root_iff (path : AbsolutePath) :
    utilCleanPath getcwd path.1 = some ['/'] ↔ Cleanable path.1 ∧ normalNames path.1 = [] := by
  rw [utilCleanPath_eq_some_iff, cleanSpelling_eq_root_iff fun name member =>
    isName_of_mem_normalNames path.2.1 member]

/-- The current directory of a process that has changed to its root. -/
def rootDir : WorkingDir := ⟨['/'], ⟨[], by simp, rfl⟩, by decide⟩

theorem cleanStart_rootDir (short : path.length + 2 < pathMax) :
    cleanStart (some rootDir) path = some ['/'] := by
  have length : rootDir.1.length = 1 := rfl
  have fits : ¬ pathMax - 1 - rootDir.1.length ≤ path.length := by omega
  unfold cleanStart
  split
  · rfl
  rw [bind_some, if_neg fits]
  rfl

/-- In the root directory, a path that leaves room for two characters is cleaned like an absolute
one. -/
theorem utilCleanPath_rootDir (named : path ≠ []) (free : '\x00' ∉ path)
    (short : path.length + 2 < pathMax) :
    utilCleanPath (some rootDir) path = some (cleanSpelling (normalNames path)) := by
  have start := cleanStart_rootDir short
  have ran := @doCleanPath_isSome ['/'] path (.inl rfl) (by simp; omega)
  rcases utilCleanPath_keep (.root []) fits_nil named free start with ⟨cleaned, -⟩ | ⟨failed, -⟩
  · exact cleaned
  rw [utilCleanPath, if_neg named, start, bind_some, map_eq_none_iff] at failed
  rw [failed] at ran
  cases ran

/-- A relative path can be cleaned, in the root directory if in any, when it leaves room for two
characters. -/
theorem utilCleanPath_relative_iff (named : path ≠ []) (relative : path.head? ≠ some '/') :
    (∃ getcwd, (utilCleanPath getcwd path).isSome) ↔ path.length + 2 < pathMax := by
  constructor
  · rintro ⟨getcwd, cleaned⟩
    obtain ⟨result, cleaned⟩ := isSome_iff_exists.mp cleaned
    rw [utilCleanPath, if_neg named] at cleaned
    obtain ⟨dest, start, -⟩ := bind_eq_some_iff.mp cleaned
    rw [cleanStart, if_neg relative] at start
    obtain ⟨cwd, -, fits⟩ := bind_eq_some_iff.mp start
    have slash : 1 ≤ cwd.1.length := by
      have absolute := (normalPath_of_isClean cwd.2).absolute
      exact length_pos_iff.mpr fun none => by simp [none] at absolute
    split at fits
    · cases fits
    · omega
  · intro short
    refine ⟨some rootDir, ?_⟩
    rw [utilCleanPath, if_neg named, cleanStart_rootDir short, bind_some, isSome_map]
    exact doCleanPath_isSome (.inl rfl) (by simp; omega)

end Isulad.Path
