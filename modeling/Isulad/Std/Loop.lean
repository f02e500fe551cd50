import Mathlib.Tactic.Common

/-!
# Loops with a ranking function

A `Loop` packages the body of a `while` loop as a step function together with
a rank that every continuing step lowers, so a loop that might not stop cannot
be built. `Loop.run` is then total and computes by structural recursion on the
rank. `Loop.run_induction` is the one rule by which a loop invariant is carried
from the entry state to the result, and `Loop.Reaches` names the intermediate
states for statements about whole runs.
-/

namespace Isulad.Std

universe u v

/-- A loop body either continues in a new state or leaves the loop with a result. -/
inductive LoopStep (σ : Type u) (ρ : Type v) where
  | next (state : σ)
  | done (result : ρ)
deriving DecidableEq

/-- The loop of a body, which need not stop, ends with a result. -/
inductive LoopEnds {σ : Type u} {ρ : Type v} (step : σ → LoopStep σ ρ) : σ → ρ → Prop where
  | done {state result} (leaves : step state = .done result) : LoopEnds step state result
  | next {state next result} (taken : step state = .next next) (rest : LoopEnds step next result) :
      LoopEnds step state result

/-- A loop whose every continuing step lowers `rank`. -/
structure Loop (σ : Type u) (ρ : Type v) where
  step : σ → LoopStep σ ρ
  rank : σ → Nat
  lowers : ∀ {state next}, step state = .next next → rank next < rank state

namespace Loop

variable {σ : Type u} {ρ : Type v}

section

variable (loop : Loop σ ρ)

/-- Run the loop with a budget known to exceed the rank. -/
def runWithin : (budget : Nat) → (state : σ) → loop.rank state < budget → ρ
  | 0, _, short => absurd short (Nat.not_lt_zero _)
  | budget + 1, state, enough =>
    match taken : loop.step state with
    | .done result => result
    | .next next =>
      runWithin budget next
        (Nat.lt_of_lt_of_le (loop.lowers taken) (Nat.le_of_lt_succ enough))

/-- Run the loop to its result. -/
def run (state : σ) : ρ :=
  loop.runWithin (loop.rank state + 1) state (Nat.lt_succ_self _)

/-- The result does not depend on the budget. -/
theorem runWithin_eq {first second : Nat} {state : σ}
    (enoughFirst : loop.rank state < first) (enoughSecond : loop.rank state < second) :
    loop.runWithin first state enoughFirst = loop.runWithin second state enoughSecond := by
  induction first generalizing second state with
  | zero => exact absurd enoughFirst (Nat.not_lt_zero _)
  | succ first ih =>
    cases second with
    | zero => exact absurd enoughSecond (Nat.not_lt_zero _)
    | succ second =>
      unfold runWithin
      split
      · rfl
      · exact ih _ _

theorem run_done {state : σ} {result : ρ}
    (taken : loop.step state = .done result) : loop.run state = result := by
  unfold run runWithin
  split
  next other found =>
    rw [taken] at found
    cases found
    rfl
  next found =>
    rw [taken] at found
    cases found

theorem run_next {state next : σ}
    (taken : loop.step state = .next next) : loop.run state = loop.run next := by
  rw [run, runWithin]
  split
  next found =>
    rw [taken] at found
    cases found
  next other found =>
    rw [taken] at found
    cases found
    exact loop.runWithin_eq _ _

end

/-- `Reaches count state later` holds when `count` continuing steps lead from
`state` to `later`. -/
inductive Reaches (loop : Loop σ ρ) : Nat → σ → σ → Prop where
  | refl {state} : Reaches loop 0 state state
  | step {count state middle later} (prior : Reaches loop count state middle)
      (taken : loop.step middle = .next later) : Reaches loop (count + 1) state later

theorem Reaches.rank_le {loop : Loop σ ρ} {count : Nat} {state later : σ}
    (reaches : loop.Reaches count state later) :
    loop.rank later + count ≤ loop.rank state := by
  induction reaches with
  | refl => exact Nat.le_refl _
  | step _ taken ih =>
    have lower := loop.lowers taken
    omega

theorem Reaches.invariant {loop : Loop σ ρ} (holds : σ → Prop)
    (kept : ∀ {state next}, holds state → loop.step state = .next next → holds next)
    {count : Nat} {state later : σ} (reaches : loop.Reaches count state later)
    (start : holds state) : holds later := by
  induction reaches with
  | refl => exact start
  | step _ taken ih => exact kept (ih start) taken

/-- Every loop reaches, within its rank, a state from which it leaves. -/
theorem exists_final (loop : Loop σ ρ) (state : σ) :
    ∃ count final, loop.Reaches count state final ∧ count ≤ loop.rank state ∧
      loop.step final = .done (loop.run state) := by
  have search : ∀ (budget : Nat) (count : Nat) (current : σ),
      loop.rank current < budget → loop.Reaches count state current →
      loop.run current = loop.run state →
      ∃ count final, loop.Reaches count state final ∧ count ≤ loop.rank state ∧
        loop.step final = .done (loop.run state) := by
    intro budget
    induction budget with
    | zero => intro count current short; exact absurd short (Nat.not_lt_zero _)
    | succ budget ih =>
      intro count current enough reaches same
      cases taken : loop.step current with
      | done result =>
        have bound := reaches.rank_le
        refine ⟨count, current, reaches, by omega, ?_⟩
        rw [taken, ← same, loop.run_done taken]
      | next next =>
        have lower := loop.lowers taken
        exact ih (count + 1) next (by omega) (.step reaches taken)
          (by rw [← same, loop.run_next taken])
  exact search (loop.rank state + 1) 0 state (Nat.lt_succ_self _) .refl rfl

/-- The invariant rule: a property kept by every continuing step, and turned
into the postcondition by every leaving step, yields the postcondition. -/
theorem run_induction (loop : Loop σ ρ) (holds : σ → Prop) (post : ρ → Prop)
    (kept : ∀ {state next}, holds state → loop.step state = .next next → holds next)
    (leaves : ∀ {state result}, holds state → loop.step state = .done result → post result)
    {state : σ} (start : holds state) : post (loop.run state) := by
  obtain ⟨_, _, reaches, _, final⟩ := loop.exists_final state
  exact leaves (reaches.invariant holds kept start) final

end Loop

end Isulad.Std
