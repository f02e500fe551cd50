import Mathlib.Tactic.Common

/-!
# Traces of a machine

A `Machine` takes one event at a time and may refuse it. `Machine.Trace` is the
relation between a sequence of events and the state it leads to, whatever the
order in which several parties take their turns. `Machine.Trace.invariant` is the
one rule by which a fact about a state and the events before it is carried along.
-/

namespace Isulad.Std

open List

universe u v

theorem getElem?_snoc_iff {Event : Type v} {events : List Event} {last event : Event} {i : Nat} :
    (events ++ [last])[i]? = some event ↔
      events[i]? = some event ∨ (i = events.length ∧ last = event) := by
  rcases Nat.lt_trichotomy i events.length with inside | rfl | outside
  · rw [List.getElem?_append_left inside]
    simp [Nat.ne_of_lt inside]
  · simp
  · rw [List.getElem?_append_right (Nat.le_of_lt outside)]
    have behind : i - events.length ≠ 0 := by omega
    simp [Nat.ne_of_gt outside, behind, Nat.le_of_lt outside]

/-- An initial state and what an event does to a state, if it is possible there. -/
structure Machine (State : Type u) (Event : Type v) where
  initial : State
  step : State → Event → Option State

namespace Machine

variable {State : Type u} {Event : Type v}

/-- The state after a sequence of events. -/
inductive Trace (machine : Machine State Event) : List Event → State → Prop where
  | start : Trace machine [] machine.initial
  | step {events state event next} (prior : Trace machine events state)
      (taken : machine.step state event = some next) : Trace machine (events ++ [event]) next

/-- Run the machine along events. -/
def replay (machine : Machine State Event) (events : List Event) : Option State :=
  events.foldlM machine.step machine.initial

variable {machine : Machine State Event} {events front : List Event} {state result : State}
  {Meets : State → Event → Prop} {Holds : State → Prop} {last : Event}

theorem trace_of_foldlM (prior : machine.Trace front state)
    (replayed : events.foldlM machine.step state = some result) :
    machine.Trace (front ++ events) result := by
  induction events generalizing front state with
  | nil =>
    cases replayed
    simpa using prior
  | cons event events ih =>
    obtain ⟨next, taken, rest⟩ := Option.bind_eq_some_iff.mp replayed
    rw [append_cons]
    exact ih (prior.step taken) rest

theorem trace_of_replay (replayed : machine.replay events = some result) :
    machine.Trace events result :=
  trace_of_foldlM .start replayed

theorem Trace.replay_eq (trace : machine.Trace events state) :
    machine.replay events = some state := by
  induction trace with
  | start => rfl
  | step prior taken ih =>
    rw [replay] at ih ⊢
    rw [foldlM_append, ih]
    simp [taken]

theorem Trace.unique {first second : State} (one : machine.Trace events first)
    (other : machine.Trace events second) : first = second :=
  Option.some.inj (one.replay_eq.symm.trans other.replay_eq)

/-- A fact of the initial state that every possible event keeps holds all along. -/
theorem Trace.invariant {Holds : List Event → State → Prop} (initially : Holds [] machine.initial)
    (keeps : ∀ events state event next, Holds events state → machine.step state event = some next →
      Holds (events ++ [event]) next)
    (trace : machine.Trace events state) :
    Holds events state := by
  induction trace with
  | start => exact initially
  | step prior taken ih => exact keeps _ _ _ _ ih taken

/-- Every event meets a condition in the state before it. -/
def Always (machine : Machine State Event) (Meets : State → Event → Prop) (events : List Event) :
    Prop :=
  ∀ i event before, events[i]? = some event → machine.Trace (events.take i) before →
    Meets before event

theorem Always.take (all : machine.Always Meets events) (n : Nat) :
    machine.Always Meets (events.take n) := by
  intro i event before happened reached
  rw [List.getElem?_take] at happened
  split at happened
  next inside =>
    rw [take_take, Nat.min_eq_left (Nat.le_of_lt inside)] at reached
    exact all i event before happened reached
  · cases happened

theorem always_snoc_iff (trace : machine.Trace events state) :
    machine.Always Meets (events ++ [last]) ↔ machine.Always Meets events ∧ Meets state last := by
  have shorter : ∀ {i event}, events[i]? = some event →
      (events ++ [last]).take i = events.take i := by
    intro i event happened
    have inside := (List.getElem?_eq_some_iff.mp happened).1
    exact take_append_of_le_length (Nat.le_of_lt inside)
  have whole : (events ++ [last]).take events.length = events := take_left
  constructor
  · intro all
    refine ⟨fun i event before happened reached => ?_, ?_⟩
    · refine all i event before (getElem?_snoc_iff.mpr (.inl happened)) ?_
      rw [shorter happened]
      exact reached
    · refine all events.length last state (getElem?_snoc_iff.mpr (.inr ⟨rfl, rfl⟩)) ?_
      rw [whole]
      exact trace
  · rintro ⟨all, meets⟩ i event before happened reached
    rcases getElem?_snoc_iff.mp happened with old | ⟨rfl, rfl⟩
    · rw [shorter old] at reached
      exact all i event before old reached
    · rw [whole] at reached
      rw [reached.unique trace]
      exact meets

/-- Every state on the way meets a condition. -/
def Throughout (machine : Machine State Event) (Holds : State → Prop)
    (events : List Event) : Prop :=
  ∀ i state, machine.Trace (events.take i) state → Holds state

theorem throughout_nil_iff : machine.Throughout Holds [] ↔ Holds machine.initial := by
  refine ⟨fun all => all 0 _ .start, fun initially i state trace => ?_⟩
  rw [take_nil] at trace
  rwa [trace.unique .start]

theorem throughout_snoc_iff (trace : machine.Trace (events ++ [last]) state) :
    machine.Throughout Holds (events ++ [last]) ↔ machine.Throughout Holds events ∧
      Holds state := by
  constructor
  · intro all
    refine ⟨fun i before reached => ?_, ?_⟩
    · refine all (min i events.length) before ?_
      rwa [take_append_of_le_length (Nat.min_le_right _ _), ← take_take, take_length]
    · exact all (events ++ [last]).length state (by rwa [take_length])
  · rintro ⟨all, holds⟩ i before reached
    by_cases inside : i ≤ events.length
    · exact all i before (by rwa [take_append_of_le_length inside] at reached)
    rw [take_of_length_le (by rw [length_append, length_singleton]; omega)] at reached
    rwa [reached.unique trace]

end Machine

end Isulad.Std
