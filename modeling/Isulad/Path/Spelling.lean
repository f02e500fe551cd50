import Mathlib.Data.List.DropRight

/-!
# Spellings of slash-separated paths

A path buffer is read as a fixed stem followed by component names, each behind
one slash, possibly with one trailing slash. `Spells` relates a buffer to the
names it holds; the three buffer edits of a path walker (closing with a slash,
appending a name, backing up over the last name) are then operations on the
list of names.
-/

namespace Isulad.Path

open List

/-- A C string never holds its own terminator. -/
abbrev CStr := {chars : List Char // '\x00' ∉ chars}

/-- One component that names an entry: neither empty, `.` nor `..`. -/
structure IsName (name : List Char) : Prop where
  nonempty : name ≠ []
  noSlash : '/' ∉ name
  noNul : '\x00' ∉ name
  notDot : name ≠ ['.']
  notDotDot : name ≠ ['.', '.']

variable (stem : List Char) (names : List (List Char)) (buffer : List Char)

/-- `stem` followed by each name behind one slash. -/
def spell : List Char :=
  stem ++ names.flatMap ('/' :: ·)

/-- `buffer` holds `names` below `stem`, closed by a slash or ending in a name. -/
def Spells : Prop :=
  buffer = spell stem names ++ ['/'] ∨ (names ≠ [] ∧ buffer = spell stem names)

/-- Close the buffer with a slash unless it already ends in one. -/
def closeSlash : List Char :=
  if buffer.getLast? = some '/' then buffer else buffer ++ ['/']

/-- Drop the last character and then everything behind the previous slash. -/
def backUp : List Char :=
  buffer.dropLast.rdropWhile (· ≠ '/')

/-- Back up over the last name, never past the slash behind the first
`stemLength` characters. -/
def backUpBelow (stemLength : Nat) (buffer : List Char) : List Char :=
  if stemLength + 1 < buffer.length then backUp buffer else buffer

/-- Drop one trailing slash, except the one right behind the first `stemLength`
characters. -/
def trimSlash (stemLength : Nat) (buffer : List Char) : List Char :=
  if stemLength + 1 < buffer.length ∧ buffer.getLast? = some '/' then buffer.dropLast
  else buffer

@[simp] theorem spell_nil : spell stem [] = stem := by simp [spell]

theorem spell_append (first second : List (List Char)) :
    spell stem (first ++ second) = spell (spell stem first) second := by
  simp [spell]

theorem spell_concat (name : List Char) :
    spell stem (names ++ [name]) = spell stem names ++ '/' :: name := by
  simp [spell]

theorem spell_cons (name : List Char) (names : List (List Char)) :
    spell stem (name :: names) = spell (stem ++ '/' :: name) names := by
  simp [spell]

theorem spell_eq_stem_append : spell stem names = stem ++ spell [] names := by
  simp [spell]

variable {names : List (List Char)} {stem : List Char}

theorem stem_length_lt (valid : ∀ name ∈ names, IsName name) (named : names ≠ []) :
    stem.length + 1 < (spell stem names).length := by
  obtain ⟨name, rest, rfl⟩ := exists_cons_of_ne_nil named
  have positive := length_pos_iff.mpr (valid name mem_cons_self).nonempty
  simp [spell]
  omega

theorem getLast?_append_name {front name : List Char} (valid : IsName name) :
    (front ++ name).getLast? ≠ some '/' := by
  rw [getLast?_append_of_ne_nil _ valid.nonempty]
  intro last
  exact valid.noSlash (mem_of_getLast? last)

theorem getLast?_spell (valid : ∀ name ∈ names, IsName name) (named : names ≠ []) :
    (spell stem names).getLast? ≠ some '/' := by
  rw [← dropLast_append_getLast named, spell_concat, append_cons]
  exact getLast?_append_name (valid _ (getLast_mem named))

theorem backUp_length_le : (backUp buffer).length ≤ buffer.length - 1 := by
  have shorter := (List.rdropWhile_prefix (· ≠ '/') buffer.dropLast).length_le
  rwa [length_dropLast] at shorter

theorem backUpBelow_length_le (stemLength : Nat) (buffer : List Char) :
    (backUpBelow stemLength buffer).length ≤ buffer.length := by
  have shorter := backUp_length_le buffer
  unfold backUpBelow
  split <;> omega

theorem closeSlash_length_le : (closeSlash buffer).length ≤ buffer.length + 1 := by
  unfold closeSlash
  split <;> simp

theorem nul_notMem_spell (stemFree : '\x00' ∉ stem) (valid : ∀ name ∈ names, IsName name) :
    '\x00' ∉ spell stem names := by
  simp only [spell, mem_append, mem_flatMap, mem_cons]
  rintro (inStem | ⟨name, member, slash | inName⟩)
  · exact stemFree inStem
  · exact absurd slash (by decide)
  · exact (valid name member).noNul inName

/-- `names` are all valid and spelled by `buffer` below `stem`. -/
structure Holds (stem : List Char) (names : List (List Char)) (buffer : List Char) : Prop where
  valid : ∀ name ∈ names, IsName name
  spells : Spells stem names buffer

namespace Holds

variable {stem : List Char} {names : List (List Char)} {buffer : List Char}

/-- The bare stem, closed by a slash, holds no name. -/
theorem root (stem : List Char) : Holds stem [] (stem ++ ['/']) :=
  ⟨by simp, .inl (by simp)⟩

private theorem backUp_after_name {front : List Char} (isName : IsName name) (tail : List Char)
    (closed : tail = [] ∨ tail = ['/']) :
    backUp (front ++ '/' :: (name ++ tail)) = front ++ ['/'] := by
  have dropName : ∀ kept : List Char, '/' ∉ kept →
      (front ++ '/' :: kept).rdropWhile (· ≠ '/') = front ++ ['/'] := by
    intro kept
    induction kept using reverseRecOn with
    | nil => intro _; exact rdropWhile_concat_neg _ _ _ (by simp)
    | append_singleton kept last ih =>
      intro free
      simp at free
      have different : last ≠ '/' := fun same => free.2 same.symm
      have moved : front ++ '/' :: (kept ++ [last]) = (front ++ '/' :: kept) ++ [last] := by simp
      rw [moved, rdropWhile_concat_pos _ _ _ (by simpa using different)]
      exact ih free.1
  rcases closed with rfl | rfl
  · have nonempty := isName.nonempty
    have last : (front ++ '/' :: (name ++ [])).dropLast = front ++ '/' :: name.dropLast := by
      rw [append_nil, dropLast_append_of_ne_nil (by simp),
        dropLast_cons_of_ne_nil nonempty]
    rw [backUp, last]
    exact dropName _ fun member => isName.noSlash (dropLast_subset _ member)
  · have last : (front ++ '/' :: (name ++ ['/'])).dropLast = front ++ '/' :: name := by
      have moved : front ++ '/' :: (name ++ ['/']) = (front ++ '/' :: name) ++ ['/'] := by simp
      rw [moved, dropLast_concat]
    rw [backUp, last]
    exact dropName _ isName.noSlash

/-- Backing up past the last name leaves the names before it, closed by a slash. -/
theorem backUp_concat (holds : Holds stem (names ++ [name]) buffer) :
    backUp buffer = spell stem names ++ ['/'] := by
  have isName : IsName name := holds.valid name (by simp)
  rcases holds.spells with rfl | ⟨_, rfl⟩
  · rw [spell_concat, append_assoc, cons_append]
    exact backUp_after_name isName ['/'] (.inr rfl)
  · have shape := @backUp_after_name _ (spell stem names) isName [] (.inl rfl)
    rw [append_nil] at shape
    rw [spell_concat, shape]

section

variable (holds : Holds stem names buffer)
include holds

theorem nul_notMem (stemFree : '\x00' ∉ stem) :
    '\x00' ∉ buffer := by
  have free := nul_notMem_spell stemFree holds.valid
  rcases holds.spells with rfl | ⟨_, rfl⟩
  · simpa using free
  · exact free

theorem closeSlash_eq :
    closeSlash buffer = spell stem names ++ ['/'] := by
  rcases holds.spells with rfl | ⟨named, rfl⟩
  · simp [closeSlash]
  · simp [closeSlash, getLast?_spell holds.valid named]

variable {name : List Char}

/-- Closing with a slash and copying a name appends that name. -/
theorem append (isName : IsName name) :
    Holds stem (names ++ [name]) (closeSlash buffer ++ name) where
  valid := forall_mem_append.mpr ⟨holds.valid, forall_mem_singleton.mpr isName⟩
  spells := .inr ⟨by simp, by rw [holds.closeSlash_eq, spell_concat]; simp⟩

/-- The back-up of a walker confined to `stem` drops the last name and, at the
stem itself, changes nothing. -/
theorem backUpBelow :
    Holds stem names.dropLast (backUpBelow stem.length buffer) := by
  unfold Path.backUpBelow
  induction names using reverseRecOn with
  | nil =>
    have slashed : buffer = stem ++ ['/'] := by
      rcases holds.spells with same | ⟨none, _⟩
      · simpa using same
      · exact absurd rfl none
    subst slashed
    simpa using root stem
  | append_singleton names name _ =>
    have named : names ++ [name] ≠ [] := by simp
    have long : stem.length + 1 < buffer.length := by
      have bound := @stem_length_lt _ stem holds.valid named
      rcases holds.spells with rfl | ⟨_, rfl⟩
      · simp at bound ⊢
        omega
      · exact bound
    rw [if_pos long, holds.backUp_concat, dropLast_concat]
    exact ⟨fun other member => holds.valid other (by simp [member]), .inl rfl⟩

/-- Trimming leaves the plain spelling, or the closed stem when there is no name. -/
theorem trimSlash_eq :
    trimSlash stem.length buffer =
      if names = [] then stem ++ ['/'] else spell stem names := by
  unfold trimSlash
  by_cases none : names = []
  · subst none
    have slashed : buffer = stem ++ ['/'] := by
      rcases holds.spells with same | ⟨none, _⟩
      · simpa using same
      · exact absurd rfl none
    simp [slashed]
  · have bound := @stem_length_lt _ stem holds.valid none
    rcases holds.spells with rfl | ⟨_, rfl⟩
    · have long : stem.length + 1 < (spell stem names ++ ['/']).length := by
        simp
        omega
      rw [if_pos ⟨long, by simp⟩, if_neg none, dropLast_concat]
    · simp [getLast?_spell holds.valid none, none]

end

end Holds

/-- The components of a spelled path are the empty one before the first slash
and its names, when nothing stands before that slash. -/
theorem splitOn_spell (plain : ∀ name ∈ names, '/' ∉ name) :
    (spell [] names).splitOn '/' = [] :: names := by
  have joined : spell [] names = ['/'].intercalate ([] :: names) := by
    induction names with
    | nil => simp
    | cons name rest ih =>
      have tail := ih fun other member => plain other (by simp [member])
      cases rest with
      | nil => simp [spell, intercalate]
      | cons next rest =>
        simp only [spell, nil_append, flatMap_cons, intercalate] at tail ⊢
        rw [tail]
        simp
  rw [joined, splitOn_intercalate]
  · exact forall_mem_cons.mpr ⟨by simp, plain⟩
  · simp

/-- A part of a spelling that ends at a component boundary beyond the stem spells
a front part of the names. -/
theorem spell_boundary {path rest : List Char} (valid : ∀ name ∈ names, IsName name)
    (split : spell stem names = path ++ rest) (boundary : rest = [] ∨ rest.head? = some '/')
    (beyond : stem.length < path.length) :
    ∃ front, front <+: names ∧ front ≠ [] ∧ path = spell stem front := by
  induction names using reverseRecOn generalizing rest with
  | nil =>
    have lengths := congrArg length split
    simp at lengths
    omega
  | append_singleton names name ih =>
    have earlier : ∀ tail, spell stem names = path ++ tail →
        (tail = [] ∨ tail.head? = some '/') →
        ∃ front, front <+: names ++ [name] ∧ front ≠ [] ∧ path = spell stem front := by
      intro tail inside edge
      obtain ⟨front, isPrefix, named, spelled⟩ := ih
        (fun other member => valid other (by simp [member])) inside edge
      exact ⟨front, isPrefix.trans (prefix_append _ _), named, spelled⟩
    rw [spell_concat] at split
    rcases append_eq_append_iff.mp split with ⟨tail, longer, whole⟩ | ⟨tail, shorter, whole⟩
    · cases tail with
      | nil => exact earlier [] (by simpa using longer.symm) (.inl rfl)
      | cons char tail =>
        rw [cons_append, List.cons.injEq] at whole
        obtain ⟨rfl, inName⟩ := whole
        -- the part ends inside or right behind the last name
        have none : rest = [] := by
          rcases boundary with none | slash
          · exact none
          obtain ⟨_, rfl⟩ := head?_eq_some_iff.mp slash
          exact absurd (by simp [inName]) (valid name (by simp)).noSlash
        subst none
        refine ⟨names ++ [name], prefix_rfl, by simp, ?_⟩
        rw [longer, spell_concat, inName, append_nil]
    · cases tail with
      | nil => exact earlier [] (by simpa using shorter) (.inl rfl)
      | cons char tail =>
        refine earlier (char :: tail) shorter (.inr ?_)
        rcases boundary with none | slash
        · rw [none] at whole
          cases whole
        · rw [whole] at slash
          exact slash

end Isulad.Path
