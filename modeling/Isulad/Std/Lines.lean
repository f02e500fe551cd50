import Mathlib.Data.List.DropRight
import Mathlib.Data.List.Infix

/-!
# Lines

Reading a list line by line, where a line ends with a delimiter: forwards into a buffer of
limited room, which cuts long lines into pieces, and backwards by counting delimiters.
-/

namespace Isulad.Std

open List

variable {α : Type} [DecidableEq α] (delim : α) {stream : List α}

/-- What fits into a buffer, up to and with the first delimiter, and the rest. -/
def readLine : Nat → List α → List α × List α
  | 0, stream => ([], stream)
  | _ + 1, [] => ([], [])
  | room + 1, a :: stream =>
    if a = delim then ([a], stream)
    else (a :: (readLine room stream).1, (readLine room stream).2)

theorem readLine_append (room : Nat) (stream : List α) :
    (readLine delim room stream).1 ++ (readLine delim room stream).2 = stream := by
  induction stream generalizing room with
  | nil => cases room <;> rfl
  | cons a stream ih =>
    cases room with
    | zero => rfl
    | succ room =>
      rw [readLine]
      split
      · rfl
      · exact congrArg (cons a) (ih room)

theorem length_readLine (room : Nat) (stream : List α) :
    (readLine delim room stream).1.length ≤ room := by
  induction stream generalizing room with
  | nil => cases room <;> simp [readLine]
  | cons a stream ih =>
    cases room with
    | zero => simp [readLine]
    | succ room =>
      rw [readLine]
      split
      · simp
      · simpa using ih room

theorem length_readLine_rest {room : Nat} (consumes : 0 < room ∧ stream ≠ []) :
    (readLine delim room stream).2.length < stream.length := by
  obtain ⟨positive, nonempty⟩ := consumes
  obtain ⟨room, rfl⟩ := Nat.exists_eq_succ_of_ne_zero positive.ne'
  obtain ⟨a, stream, rfl⟩ := exists_cons_of_ne_nil nonempty
  rw [readLine]
  split
  · simp
  have whole := congrArg length (readLine_append delim room stream)
  simp at whole ⊢
  omega

/-- The contents of the buffer, one after the other. -/
def readLines (room : Nat) (stream : List α) : List (List α) :=
  if _ : 0 < room ∧ stream ≠ [] then
    (readLine delim room stream).1 :: readLines room (readLine delim room stream).2
  else []
termination_by stream.length
decreasing_by exact length_readLine_rest delim ‹_›

variable {delim} {room : Nat} {text rest buffer : List α}

@[simp] theorem readLines_nil : readLines delim room [] = [] := by rw [readLines, dif_neg (by simp)]

theorem readLines_of_ne_nil (positive : 0 < room) (nonempty : stream ≠ []) :
    readLines delim room stream =
      (readLine delim room stream).1 :: readLines delim room (readLine delim room stream).2 := by
  rw [readLines, dif_pos ⟨positive, nonempty⟩]

theorem readLine_of_lt (inner : delim ∉ text) (fits : text.length < room) :
    readLine delim room (text ++ delim :: rest) = (text ++ [delim], rest) := by
  induction text generalizing room with
  | nil =>
    obtain ⟨room, rfl⟩ := Nat.exists_eq_succ_of_ne_zero (Nat.ne_of_gt fits)
    simp [readLine]
  | cons a text ih =>
    obtain ⟨room, rfl⟩ := Nat.exists_eq_succ_of_ne_zero (Nat.ne_of_gt (Nat.zero_lt_of_lt fits))
    have other : a ≠ delim := fun same => inner (same ▸ mem_cons_self)
    have tail := ih (fun member => inner (mem_cons_of_mem a member)) (by simpa using fits)
    rw [cons_append, readLine, if_neg other, tail]
    rfl

/-- Of a line that does not fit, the buffer takes what it can. -/
theorem readLine_of_le (inner : delim ∉ text) (full : room ≤ text.length) :
    readLine delim room (text ++ rest) = (text.take room, text.drop room ++ rest) := by
  induction text generalizing room with
  | nil =>
    cases Nat.le_zero.mp full
    rfl
  | cons a text ih =>
    cases room with
    | zero => rfl
    | succ room =>
      have other : a ≠ delim := fun same => inner (same ▸ mem_cons_self)
      have tail := ih (fun member => inner (mem_cons_of_mem a member)) (by simpa using full)
      rw [cons_append, readLine, if_neg other, tail]
      rfl

/-- A line is read before anything that follows it. -/
theorem readLines_line_append (positive : 0 < room) (inner : delim ∉ text) (rest : List α) :
    readLines delim room (text ++ delim :: rest) =
      readLines delim room (text ++ [delim]) ++ readLines delim room rest := by
  induction size : text.length using Nat.strong_induction_on generalizing text with
  | h length ih =>
    have first (more : List α) :
        readLines delim room (text ++ delim :: more) =
          (readLine delim room (text ++ delim :: more)).1 ::
            readLines delim room (readLine delim room (text ++ delim :: more)).2 :=
      readLines_of_ne_nil positive (by simp)
    rw [first rest, first []]
    by_cases fits : text.length < room
    · rw [readLine_of_lt inner fits, readLine_of_lt inner fits]
      simp
    · have full := Nat.le_of_not_lt fits
      have shorter : (text.drop room).length < length := by
        rw [length_drop]
        omega
      have tail := ih _ shorter (fun member => inner (mem_of_mem_drop member)) rfl
      rw [readLine_of_le inner full, readLine_of_le inner full]
      rw [tail, cons_append]

/-- Nothing is lost between the buffers. -/
theorem flatten_readLines (positive : 0 < room) (stream : List α) :
    (readLines delim room stream).flatten = stream := by
  induction size : stream.length using Nat.strong_induction_on generalizing stream with
  | h size ih =>
    by_cases empty : stream = []
    · simp [empty]
    have shorter := length_readLine_rest delim ⟨positive, empty⟩
    rw [readLines_of_ne_nil positive empty, flatten_cons, ih _ (size ▸ shorter) _ rfl]
    exact readLine_append delim room stream

theorem length_of_mem_readLines (stream : List α) (member : buffer ∈ readLines delim room stream) :
    buffer.length ≤ room := by
  induction size : stream.length using Nat.strong_induction_on generalizing stream with
  | h size ih =>
    rw [readLines] at member
    split at member
    next consumes =>
      rcases mem_cons.mp member with rfl | later
      · exact length_readLine delim room stream
      · exact ih _ (size ▸ length_readLine_rest delim consumes) _ later rfl
    · cases member

theorem readLines_line (inner : delim ∉ text) (fits : text.length < room) :
    readLines delim room (text ++ [delim]) = [text ++ [delim]] := by
  rw [readLines_of_ne_nil (by omega) (by simp), readLine_of_lt inner fits]
  simp

/-- A line that just fits is read without its delimiter, which is read alone. -/
theorem readLines_line_of_eq (positive : 0 < room) (inner : delim ∉ text)
    (exactFit : text.length = room) :
    readLines delim room (text ++ [delim]) = [text, [delim]] := by
  have alone : readLines delim room ([] ++ [delim]) = [[] ++ [delim]] :=
    readLines_line (by simp) positive
  rw [readLines_of_ne_nil positive (by simp), readLine_of_le inner exactFit.ge, ← exactFit,
    take_length, drop_length, exactFit, alone]
  rfl

/-- Counts delimiters from place `p` back to the start. When there are more than `n`, the count
is `n`, and the place behind the delimiter before them is found. -/
def scanBack (delim : α) (list : List α) (n : Nat) : Nat → Nat → Nat × Option Nat
  | 0, count => (count, none)
  | p + 1, count =>
    if list[p]? ≠ some delim then scanBack delim list n p count
    else if n < count + 1 then (n, some (p + 1))
    else scanBack delim list n p (count + 1)

variable {list : List α} {n p count : Nat}

/-- What comes behind the place does not matter. -/
theorem scanBack_append (rest : List α) (within : p ≤ list.length) (count : Nat) :
    scanBack delim (list ++ rest) n p count = scanBack delim list n p count := by
  induction p generalizing count with
  | zero => rfl
  | succ p ih =>
    rw [scanBack, scanBack, getElem?_append_left (by omega)]
    rw [ih (by omega), ih (by omega)]

theorem scanBack_text (inner : delim ∉ text) (count : Nat) :
    scanBack delim (list ++ text) n (list ++ text).length count =
      scanBack delim list n list.length count := by
  induction text using reverseRecOn with
  | nil => rw [append_nil]
  | append_singleton text a ih =>
    have other : a ≠ delim := fun same => inner (by simp [same])
    have tail := ih fun member => inner (mem_append_left _ member)
    have here : (list ++ text ++ [a])[(list ++ text).length]? ≠ some delim := by simpa using other
    rw [← append_assoc, length_append, length_singleton, scanBack, if_pos here,
      scanBack_append _ le_rfl, tail]

/-- One line is counted, or found to be one too many. -/
theorem scanBack_line (inner : delim ∉ text) (count : Nat) :
    scanBack delim (list ++ (text ++ [delim])) n (list ++ (text ++ [delim])).length count =
      if n < count + 1 then (n, some (list ++ (text ++ [delim])).length)
      else scanBack delim list n list.length (count + 1) := by
  have here : (list ++ text ++ [delim])[(list ++ text).length]? = some delim := by simp
  rw [← append_assoc, length_append, length_singleton, scanBack,
    if_neg (not_not.mpr here), scanBack_append _ le_rfl, scanBack_text inner]

theorem scanBack_lines {lines : List (List α)}
    (shape : ∀ line ∈ lines, ∃ text, delim ∉ text ∧ line = text ++ [delim]) (below : count ≤ n) :
    scanBack delim lines.flatten n lines.flatten.length count =
      if count + lines.length ≤ n then (count + lines.length, none)
      else (n, some (lines.take (lines.length - (n - count))).flatten.length) := by
  induction lines using reverseRecOn generalizing count with
  | nil => simp [scanBack, below]
  | append_singleton lines line ih =>
    obtain ⟨text, inner, rfl⟩ := shape line (by simp)
    rw [flatten_append, flatten_singleton, scanBack_line inner]
    by_cases enough : n < count + 1
    · have all : (lines ++ [text ++ [delim]]).length - (n - count) =
          (lines ++ [text ++ [delim]]).length := by omega
      rw [if_pos enough, if_neg (by simp; omega), all, take_length]
      simp
    · have place : (lines ++ [text ++ [delim]]).length - (n - count) =
          lines.length - (n - (count + 1)) := by
        simp
        omega
      rw [if_neg enough, ih (fun other member => shape other (by simp [member])) (by omega), place,
        take_append_of_le_length (by omega)]
      simp [Nat.add_assoc, Nat.add_comm 1]

end Isulad.Std
