import Mathlib.Data.List.Nodup

/-!
# Entries with keys, in order of precedence

`Kept key merged entries kept` says which entries survive when they are taken one by one and
an entry is left out exactly if an entry merged before it has its key.
-/

namespace Isulad.Std

open List

universe u v

variable {α : Type u} {κ : Type v} (key : α → κ)

/-- The entries kept behind those merged already. -/
inductive Kept : List α → List α → List α → Prop where
  | nil (merged : List α) : Kept merged [] []
  | leftOut {merged entries kept : List α} {entry : α} (taken : key entry ∈ merged.map key)
      (rest : Kept merged entries kept) : Kept merged (entry :: entries) kept
  | merge {merged entries kept : List α} {entry : α} (free : key entry ∉ merged.map key)
      (rest : Kept (merged ++ [entry]) entries kept) :
      Kept merged (entry :: entries) (entry :: kept)

variable {key}

/-- What follows is decided by all that is merged before it. -/
theorem Kept.append {merged first second keptFirst keptSecond : List α}
    (one : Kept key merged first keptFirst)
    (other : Kept key (merged ++ keptFirst) second keptSecond) :
    Kept key merged (first ++ second) (keptFirst ++ keptSecond) := by
  induction one with
  | nil merged => simpa using other
  | leftOut taken _ ih => exact .leftOut taken (ih other)
  | merge free _ ih =>
    refine .merge free (ih ?_)
    rwa [append_assoc, singleton_append]

theorem Kept.nodup {merged entries kept : List α} (survive : Kept key merged entries kept)
    (distinct : (merged.map key).Nodup) : ((merged ++ kept).map key).Nodup := by
  induction survive with
  | nil merged => simpa using distinct
  | leftOut _ _ ih => exact ih distinct
  | @merge merged entries kept entry free _ ih =>
    rw [append_cons]
    refine ih ?_
    rw [map_append, map_singleton, nodup_append']
    exact ⟨distinct, nodup_singleton _, disjoint_singleton.mpr free⟩

theorem Kept.length_le {merged entries kept : List α} (survive : Kept key merged entries kept) :
    kept.length ≤ entries.length := by
  induction survive with
  | nil => exact Nat.le_refl 0
  | leftOut _ _ ih => exact Nat.le_succ_of_le ih
  | merge _ _ ih => exact Nat.succ_le_succ ih

end Isulad.Std
