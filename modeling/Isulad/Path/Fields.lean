import Isulad.Path.Spelling
import Isulad.Std.Tokens

/-!
# Splitting a text and joining the parts

`util_string_split`, `util_string_split_multi`, `util_string_split_n` and `util_string_join` of
`cutils/utils_string.c`. Memory is never short.
-/

namespace Isulad.Path

open List Isulad.Std

/-- `util_string_split`: what `strtok_r` finds, and the array of one empty text if it finds
nothing. -/
def utilStringSplit (srcStr : List Char) (sep : Char) : List (List Char) :=
  match tokens sep srcStr with
  | [] => [[]]
  | pieces => pieces

/-- Cuts a text at the next separator, so many times at most. -/
def fields (sep : Char) : Nat → List Char → List (List Char)
  | 0, text => [text]
  | cuts + 1, text =>
    match text.dropWhile (· ≠ sep) with
    | [] => [text]
    | _ :: rest => text.takeWhile (· ≠ sep) :: fields sep cuts rest

/-- `util_string_split_multi`: `strsep` cuts until it finds no separator. -/
def utilStringSplitMulti (srcStr : CStr) (delim : Char) : List (List Char) :=
  if srcStr.1 = [] then [[]] else fields delim srcStr.1.length srcStr.1

/-- `util_string_split_n`; `none` is `NULL`, or a loop that leaves the text: to `strchr` a NUL is in
every text, and the loop goes on behind it. -/
def utilStringSplitN (src : CStr) (sep : Char) (n : Nat) : Option (List (List Char)) :=
  if n = 0 then none
  else if src.1 = [] then some [[]]
  else if sep = '\x00' ∧ 1 < n then none
  else some (fields sep (n - 1) src.1)

/-- `util_string_join`. -/
def utilStringJoin (sep : List Char) (parts : List (List Char)) : Option (List Char) :=
  parts.getLast?.map fun last => parts.dropLast.foldl (fun res part => res ++ part ++ sep) [] ++
    last

/-- The parts, at most `count` of them, make up the text with the separator between them, and only
the last may have it. -/
structure Parts (sep : Char) (text : List Char) (count : Nat) (parts : List (List Char)) :
    Prop where
  joined : utilStringJoin [sep] parts = some text
  few : parts.length ≤ count
  free : ∀ part ∈ parts.dropLast, sep ∉ part

variable {sep : Char} {text part rest : List Char} {parts : List (List Char)} {count : Nat}

theorem utilStringSplit_of_tokens (found : tokens sep text ≠ []) :
    utilStringSplit text sep = tokens sep text := by
  unfold utilStringSplit
  split
  next none => exact absurd none found
  · rfl

theorem utilStringSplit_eq_cons_cons {first second : List Char} :
    utilStringSplit text sep = first :: second :: parts ↔
      tokens sep text = first :: second :: parts := by
  unfold utilStringSplit
  split
  next none => simp [none]
  · rfl

theorem mem_utilStringSplit (nonempty : part ≠ []) :
    part ∈ utilStringSplit text sep ↔ part ∈ tokens sep text := by
  unfold utilStringSplit
  split
  next none => simp [none, nonempty]
  · rfl

theorem Parts.single : Parts sep text (count + 1) [text] := ⟨rfl, by simp, by simp⟩

theorem Parts.cons (later : Parts sep rest count parts) (free : sep ∉ part) :
    Parts sep (part ++ sep :: rest) (count + 1) (part :: parts) := by
  obtain ⟨joined, few, frees⟩ := later
  cases parts with
  | nil => cases joined
  | cons first more =>
    obtain ⟨last, ends, joined⟩ := Option.map_eq_some_iff.mp joined
    refine ⟨?_, Nat.succ_le_succ few, by simpa [free] using frees⟩
    simp [utilStringJoin, ends, ← joined, foldl_append_eq_append]

theorem parts_fields (cuts : Nat) (text : List Char) :
    Parts sep text (cuts + 1) (fields sep cuts text) := by
  induction cuts generalizing text with
  | zero => exact .single
  | succ cuts ih =>
    by_cases member : sep ∈ text
    · obtain ⟨part, rest, rfl, free⟩ := eq_append_cons_of_mem member
      have plain : ∀ char ∈ part, decide (char ≠ sep) = true := by
        intro char member
        simpa using ne_of_mem_of_not_mem member free
      rw [fields, dropWhile_append_of_pos plain, takeWhile_append_of_pos plain]
      simpa using (ih rest).cons free
    · have none : text.dropWhile (· ≠ sep) = [] := dropWhile_eq_nil_iff.mpr fun char member' => by
        simpa using ne_of_mem_of_not_mem member' member
      rw [fields, none]
      exact .single

/-- Separators that a text can have. -/
abbrev Separator := {sep : Char // sep ≠ '\x00'}

/-- Both ways of splitting are undone by joining. -/
theorem split_joined (s : CStr) (c : Separator) :
    utilStringJoin [c.1] (utilStringSplitMulti s c) = some s.1 ∧
      ∀ n, 0 < n → ∃ parts, utilStringSplitN s c n = some parts ∧ Parts c s.1 n parts := by
  obtain ⟨text, plain⟩ := s
  constructor
  · unfold utilStringSplitMulti
    split
    next empty => exact empty ▸ rfl
    · exact (parts_fields _ _).joined
  · intro n positive
    obtain ⟨cuts, rfl⟩ := Nat.exists_eq_succ_of_ne_zero positive.ne'
    rw [utilStringSplitN, if_neg positive.ne', if_neg (c := c.1 = _ ∧ _) fun nul => c.2 nul.1]
    split
    next empty => exact ⟨_, rfl, empty ▸ .single⟩
    · exact ⟨_, rfl, parts_fields cuts text⟩

theorem utilStringSplitN_nul : utilStringSplitN ⟨['a'], by decide⟩ '\x00' 2 = none := by decide

end Isulad.Path
