import Mathlib.Tactic.Common

/-!
# Tokens of a text

`tokens` is what `strtok` finds in a text: the pieces between separators, without the
empty ones.
-/

namespace Isulad.Std

open List

universe u

/-- The texts of a program are compared character by character. -/
instance lawfulBEqText : LawfulBEq (List Char) := inferInstance

variable {α : Type u} [DecidableEq α] {separator : α} {text piece token front : List α}

/-- The nonempty pieces of a text between separators. -/
def tokens (separator : α) (text : List α) : List (List α) :=
  (text.splitOn separator).filter fun piece => !piece.isEmpty

theorem not_mem_of_mem_splitOn (member : piece ∈ text.splitOn separator) : separator ∉ piece := by
  induction text generalizing piece with
  | nil =>
    rw [splitOn_nil, mem_singleton] at member
    simp [member]
  | cons char text ih =>
    rw [splitOn_cons_eq_if_modifyHead] at member
    split at member
    · rcases mem_cons.mp member with rfl | rest
      · exact not_mem_nil
      · exact ih rest
    next other =>
      cases pieces : text.splitOn separator with
      | nil => exact absurd pieces (splitOn_ne_nil separator text)
      | cons first rest =>
        rw [pieces, modifyHead_cons] at member
        rcases mem_cons.mp member with rfl | later
        · have within : separator ∉ first := ih (by simp [pieces])
          have different : separator ≠ char := fun same => other (by simp [same])
          simp [different, within]
        · exact ih (by simp [pieces, later])

theorem infix_of_mem_splitOn (member : piece ∈ text.splitOn separator) : piece <:+: text := by
  induction length : text.length using Nat.strongRecOn generalizing text with
  | ind count ih =>
  by_cases separated : separator ∈ text
  · obtain ⟨front, back, rfl⟩ := append_of_mem separated
    rw [List.splitOn, splitOnP_append_cons front back (by simp), mem_append] at member
    simp at length
    rcases member with first | second
    · have inside := ih front.length (by omega) first rfl
      exact inside.trans (prefix_append _ _).isInfix
    · have inside := ih back.length (by omega) second rfl
      exact inside.trans ((suffix_cons _ _).trans (suffix_append _ _)).isInfix
  · rw [splitOn_eq_singleton separated, mem_singleton] at member
    exact member ▸ infix_rfl

theorem of_mem_tokens (member : token ∈ tokens separator text) :
    token ≠ [] ∧ separator ∉ token := by
  obtain ⟨piece, nonempty⟩ := mem_filter.mp member
  exact ⟨by simpa using nonempty, not_mem_of_mem_splitOn piece⟩

/-- A text that starts with another character has a token. -/
theorem tokens_ne_nil (nonempty : text ≠ []) (starts : text.head? ≠ some separator) :
    tokens separator text ≠ [] := by
  cases text with
  | nil => exact absurd rfl nonempty
  | cons char text =>
    have other : ¬ char = separator := fun same => starts (congrArg some same)
    rw [tokens, splitOn_cons_eq_if_modifyHead, if_neg (by simpa using other)]
    cases pieces : text.splitOn separator with
    | nil => exact absurd pieces (splitOn_ne_nil separator text)
    | cons first rest => simp

/-- A text is its only token exactly if it is one. -/
theorem tokens_eq_singleton_iff :
    tokens separator text = [text] ↔ text ≠ [] ∧ separator ∉ text := by
  constructor
  · intro single
    exact of_mem_tokens (by rw [single]; exact mem_singleton_self _)
  · rintro ⟨nonempty, free⟩
    simp [tokens, splitOn_eq_singleton free, nonempty]

theorem tokens_append_cons (free : separator ∉ front) (back : List α) :
    tokens separator (front ++ separator :: back) =
      (if front = [] then [] else [front]) ++ tokens separator back := by
  rw [tokens, splitOn_append_cons_self_of_not_mem free, filter_cons]
  by_cases empty : front = []
  · simp [empty, tokens]
  · simp [empty, tokens]

end Isulad.Std
