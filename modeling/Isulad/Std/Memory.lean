import Mathlib.Data.Multiset.Dedup

/-!
# Memory and the cells a structure owns

`Owns` describes a memory by the multiset of its cells. The sum of two multisets
plays the role of the separating conjunction: the addresses of its parts are apart,
so writing one cell leaves the others alone, and the parts may be regrouped by the
laws of addition.

`Runs` is the total correctness of a program over a state that can go wrong: it
returns, and what it returns satisfies the post-condition.
-/

namespace Isulad.Std

open Multiset

section Cells

variable {Address Cell : Type}

/-- A memory holds a cell at every address that is in use. -/
def Memory (Address Cell : Type) : Type := Address → Option Cell

namespace Memory

variable [DecidableEq Address] (memory : Memory Address Cell)

/-- The memory with another content at one address. -/
def set (address : Address) (content : Option Cell) : Memory Address Cell :=
  fun other => if other = address then content else memory other

@[simp] theorem set_same (address : Address) (content : Option Cell) :
    memory.set address content address = content := if_pos rfl

theorem set_other {address other : Address} (content : Option Cell) (apart : other ≠ address) :
    memory.set address content other = memory other := if_neg apart

theorem set_set (address : Address) (content content' : Option Cell) :
    (memory.set address content).set address content' = memory.set address content' := by
  funext other
  unfold set
  split <;> rfl

end Memory

/-- The memory consists of exactly these cells, each at an address of its own. -/
structure Owns (memory : Memory Address Cell) (cells : Multiset (Address × Cell)) : Prop where
  apart : (cells.map Prod.fst).Nodup
  holds : ∀ address cell, memory address = some cell ↔ (address, cell) ∈ cells

namespace Owns

variable {memory : Memory Address Cell} {address other : Address} {cell cell' : Cell}
  {cells rest : Multiset (Address × Cell)}

theorem read (owns : Owns memory cells) (member : (address, cell) ∈ cells) :
    memory address = some cell := (owns.holds _ _).mpr member

section

variable (owns : Owns memory ({(address, cell)} + rest))
include owns

theorem apart_rest :
    address ∉ rest.map Prod.fst ∧ (rest.map Prod.fst).Nodup := by
  have apart := owns.apart
  rwa [map_add, map_singleton, singleton_add, nodup_cons] at apart

theorem not_mem :
    (address, cell') ∉ rest := fun member =>
  owns.apart_rest.1 (mem_map.mpr ⟨_, member, rfl⟩)

theorem ne (member : (other, cell') ∈ rest) :
    address ≠ other := by
  rintro rfl
  exact owns.not_mem member

end

variable [DecidableEq Address]

/-- A cell can be added at an address that is not in use. -/
theorem alloc (owns : Owns memory cells) (unused : memory address = none) :
    Owns (memory.set address (some cell)) ({(address, cell)} + cells) where
  apart := by
    rw [map_add, map_singleton, singleton_add, nodup_cons]
    refine ⟨?_, owns.apart⟩
    intro member
    obtain ⟨⟨place, content⟩, present, rfl⟩ := mem_map.mp member
    have found := owns.read present
    rw [unused] at found
    cases found
  holds := by
    intro place content
    rw [mem_add, mem_singleton, Prod.mk.injEq, ← owns.holds]
    by_cases same : place = address
    · subst same
      rw [Memory.set_same, unused]
      simp [eq_comm]
    · rw [Memory.set_other _ _ same]
      simp [same]

variable (owns : Owns memory ({(address, cell)} + rest))
include owns

theorem free :
    Owns (memory.set address none) rest where
  apart := owns.apart_rest.2
  holds := by
    intro place content
    by_cases same : place = address
    · subst same
      rw [Memory.set_same]
      exact ⟨nofun, fun member => absurd member owns.not_mem⟩
    · rw [Memory.set_other _ _ same, owns.holds, mem_add, mem_singleton,
        Prod.mk.injEq]
      simp [same]

/-- A cell is written as if it were freed and another one added at its address. -/
theorem write :
    Owns (memory.set address (some cell')) ({(address, cell')} + rest) := by
  rw [← memory.set_set address none]
  exact owns.free.alloc (memory.set_same address none)

end Owns

end Cells

section Programs

variable {σ α β : Type}

/-- The program returns, with a result and a state that satisfy the post-condition. -/
def Runs (program : StateT σ Option α) (start : σ) (post : α → σ → Prop) : Prop :=
  ∃ result final, program start = some (result, final) ∧ post result final

variable {program other : StateT σ Option α} {next : α → StateT σ Option β} {start : σ}
  {post weaker : α → σ → Prop} {condition : Prop}

theorem runs_pure {result : α} (holds : post result start) :
    Runs (pure result) start post := ⟨result, start, rfl, holds⟩

theorem runs_bind {post : β → σ → Prop}
    (runs : Runs program start fun result middle => Runs (next result) middle post) :
    Runs (program >>= next) start post := by
  obtain ⟨result, middle, ran, value, final, ranNext, holds⟩ := runs
  refine ⟨value, final, ?_, holds⟩
  change (program start).bind (fun pair => next pair.1 pair.2) = some (value, final)
  rw [ran]
  exact ranNext

theorem runs_if_pos [Decidable condition] (holds : condition) (runs : Runs program start post) :
    Runs (if condition then program else other) start post := by
  rwa [if_pos holds]

theorem runs_if_neg [Decidable condition] (fails : ¬ condition) (runs : Runs program start post) :
    Runs (if condition then other else program) start post := by
  rwa [if_neg fails]

theorem Runs.mono (runs : Runs program start post)
    (implies : ∀ result final, post result final → weaker result final) :
    Runs program start weaker := by
  obtain ⟨result, final, ran, holds⟩ := runs
  exact ⟨result, final, ran, implies _ _ holds⟩

end Programs

end Isulad.Std
