import Mathlib.Algebra.Group.Nat.Defs
import Isulad.Container.State

/-!
# The delay before a restart

`restart_manager_should_restart` with the delay that it returns, and what it answers to a history
of exits. The latest exit of a history comes first.
-/

namespace Isulad.Container

/-- `defaultTimeout`, in nanoseconds. -/
def defaultTimeout : Nat := 100000000

/-- `maxRestartTimeout`. -/
def maxRestartTimeout : Nat := 60000000000

/-- `backoffMultipulier`. -/
def backoffMultipulier : Nat := 2

/-- `restart_manager_t` with the delay. -/
structure TimedManager extends RestartManager where
  timeout : Nat

/-- What `restart_manager_should_restart` is told about an exit; the duration is in seconds. -/
structure Exit where
  exitCode : Nat
  hasBeenManuallyStopped : Bool
  execDuration : Int

namespace TimedManager

/-- `restart_manager_new`. -/
def new (policy : RestartPolicy) (failureCount : Nat) : TimedManager :=
  ⟨.new policy failureCount, 0⟩

/-- `restart_manager_set_items`. -/
def setItems (rm : TimedManager) (exit : Exit) : TimedManager :=
  let timeout := if 10 ≤ exit.execDuration then 0 else rm.timeout
  let timeout :=
    if timeout = 0 then defaultTimeout
    else if timeout < maxRestartTimeout then timeout * backoffMultipulier
    else timeout
  { toRestartManager := rm.toRestartManager.setItems exit.exitCode
    timeout := if maxRestartTimeout < timeout then maxRestartTimeout else timeout }

/-- `restart_manager_should_restart`: the delay of a restart that is granted. -/
def shouldRestart (rm : TimedManager) (exit : Exit) : Option Nat × TimedManager :=
  match rm.policy.name with
  | none => (none, rm)
  | some name =>
    if rm.canceled then (none, rm)
    else
      let rm := rm.setItems exit
      (if rm.shouldBeRestart name exit.exitCode exit.hasBeenManuallyStopped then some rm.timeout
        else none, rm)

/-- The manager after a history of exits. -/
def handled (rm : TimedManager) : List Exit → TimedManager
  | [] => rm
  | exit :: earlier => ((rm.handled earlier).shouldRestart exit).2

/-- The answer to the latest exit of a history. -/
def granted (rm : TimedManager) : List Exit → Option Nat
  | [] => none
  | exit :: earlier => ((rm.handled earlier).shouldRestart exit).1

/-- How many of the exits that follow the earlier ones were answered with a restart. -/
def grants (rm : TimedManager) (earlier : List Exit) : List Exit → Nat
  | [] => 0
  | exit :: recent =>
    rm.grants earlier recent + if (rm.granted (exit :: recent ++ earlier)).isSome then 1 else 0

end TimedManager

/-- How often the delay has been doubled since the last long run, or since the first exit. -/
def doublings : List Exit → Nat
  | [] | [_] => 0
  | exit :: earlier => if 10 ≤ exit.execDuration then 0 else doublings earlier + 1

/-- The delay after so many doublings. -/
def backoff (k : Nat) : Nat := min (defaultTimeout * 2 ^ k) maxRestartTimeout

theorem backoff_bounds (k : Nat) : defaultTimeout ≤ backoff k ∧ backoff k ≤ maxRestartTimeout := by
  have positive := Nat.two_pow_pos k
  unfold backoff defaultTimeout maxRestartTimeout
  omega

namespace TimedManager

variable {rm : TimedManager} {exit : Exit} {name : Text}

/-- The delay does not change what the manager decides. -/
theorem shouldRestart_toRestartManager (rm : TimedManager) (exit : Exit) :
    ((rm.shouldRestart exit).1.isSome, (rm.shouldRestart exit).2.toRestartManager) =
      rm.toRestartManager.shouldRestart exit.exitCode exit.hasBeenManuallyStopped := by
  unfold shouldRestart RestartManager.shouldRestart
  cases rm.policy.name with
  | none => rfl
  | some name =>
    cases rm.canceled with
    | true => rfl
    | false =>
      dsimp only [setItems]
      rw [if_neg Bool.false_ne_true, if_neg Bool.false_ne_true]
      split <;> simp_all

/-- The manager without the delay, asked about each exit of a history; the last exit
stands first. -/
def decided (rm : RestartManager) : List Exit → Bool × RestartManager
  | [] => (false, rm)
  | exit :: earlier =>
    (decided rm earlier).2.shouldRestart exit.exitCode exit.hasBeenManuallyStopped

/-- After every history a restart is granted, with some delay, exactly if it is decided without. -/
theorem granted_decided (rm : TimedManager) (history : List Exit) :
    ((rm.granted history).isSome, (rm.handled history).toRestartManager) =
      decided rm.toRestartManager history := by
  induction history with
  | nil => rfl
  | cons exit earlier ih =>
    rw [decided, ← ih]
    exact shouldRestart_toRestartManager (rm.handled earlier) exit

theorem setItems_timeout_next {k : Nat} (known : rm.timeout = backoff k) :
    (rm.setItems exit).timeout = backoff (if 10 ≤ exit.execDuration then 0 else k + 1) := by
  have positive := Nat.two_pow_pos k
  by_cases long : 10 ≤ exit.execDuration
  · simp [setItems, long, backoff, defaultTimeout, maxRestartTimeout]
  simp [setItems, long, known, backoff, Nat.pow_succ, defaultTimeout, maxRestartTimeout,
    backoffMultipulier]
  -- doubled below the bound, or at the bound already
  split_ifs <;> omega

theorem handled_keeps (rm : TimedManager) (history : List Exit) :
    (rm.handled history).policy = rm.policy ∧ (rm.handled history).canceled = rm.canceled := by
  induction history with
  | nil => exact ⟨rfl, rfl⟩
  | cons exit earlier ih =>
    rw [handled, shouldRestart]
    split
    · exact ih
    · split <;> exact ih

/-- An exit raises the count by one at most. -/
theorem handled_failureCount_le (rm : TimedManager) (history : List Exit) :
    (rm.handled history).failureCount ≤ rm.failureCount + history.length := by
  induction history with
  | nil => exact Nat.le_refl _
  | cons exit earlier ih =>
    have counted : ((rm.handled earlier).setItems exit).failureCount ≤
        (rm.handled earlier).failureCount + 1 := by
      dsimp only [setItems, RestartManager.setItems]
      split <;> omega
    rw [handled, shouldRestart, List.length_cons]
    split
    · exact Nat.le_succ_of_le ih
    split
    · exact Nat.le_succ_of_le ih
    · exact Nat.le_trans counted (Nat.succ_le_succ ih)

/-- Without a policy, or canceled, a manager grants nothing. -/
theorem granted_eq_none (idle : rm.policy.name = none ∨ rm.canceled = true)
    (history : List Exit) : rm.granted history = none := by
  cases history with
  | nil => rfl
  | cons exit earlier =>
    obtain ⟨samePolicy, sameCanceled⟩ := rm.handled_keeps earlier
    rw [granted, shouldRestart, samePolicy, sameCanceled]
    rcases idle with unnamed | canceled
    · rw [unnamed]
    split
    · rfl
    · rw [if_pos canceled]

section

variable (named : rm.policy.name = some name) (live : rm.canceled = false)
include named live

theorem handled_cons (exit : Exit) (earlier : List Exit) :
    (rm.handled earlier).shouldRestart exit =
      (if ((rm.handled earlier).setItems exit).shouldBeRestart name exit.exitCode
        exit.hasBeenManuallyStopped then some ((rm.handled earlier).setItems exit).timeout
        else none, (rm.handled earlier).setItems exit) := by
  obtain ⟨samePolicy, sameCanceled⟩ := rm.handled_keeps earlier
  rw [shouldRestart, samePolicy, named, sameCanceled, live]
  dsimp only
  rw [if_neg Bool.false_ne_true]

theorem handled_timeout (first : rm.timeout = 0) (exit : Exit) (earlier : List Exit) :
    (rm.handled (exit :: earlier)).timeout = backoff (doublings (exit :: earlier)) := by
  induction earlier generalizing exit with
  | nil =>
    rw [handled, handled_cons named live]
    simp [handled, setItems, first, doublings, backoff, defaultTimeout, maxRestartTimeout]
  | cons last earlier ih =>
    rw [handled, handled_cons named live]
    exact setItems_timeout_next (ih last)

end

/-- Each failure in a row raises the count, and only a count within the limit is granted. -/
theorem grants_le (named : rm.policy.name = some "on-failure".toList) (live : rm.canceled = false)
    (limited : 0 < rm.policy.maximumRetryCount) {recent : List Exit} (earlier : List Exit)
    (failing : ∀ exit ∈ recent, exit.exitCode ≠ 0) :
    rm.grants earlier recent ≤ rm.policy.maximumRetryCount ∧
      rm.grants earlier recent ≤ (rm.handled (recent ++ earlier)).failureCount := by
  induction recent with
  | nil => exact ⟨Nat.zero_le _, Nat.zero_le _⟩
  | cons exit recent ih =>
    obtain ⟨failed, failing⟩ := List.forall_mem_cons.mp failing
    obtain ⟨within, counted⟩ := ih failing
    rw [grants, List.cons_append, granted, handled, handled_cons named live]
    have raised : ((rm.handled (recent ++ earlier)).setItems exit).failureCount =
        (rm.handled (recent ++ earlier)).failureCount + 1 := by
      simp [setItems, RestartManager.setItems, failed]
    have samePolicy : ((rm.handled (recent ++ earlier)).setItems exit).policy = rm.policy :=
      (rm.handled_keeps _).1
    split
    next restarts =>
      have limit : (rm.handled (recent ++ earlier)).failureCount + 1 ≤
          rm.policy.maximumRetryCount := by
        simpa [RestartManager.shouldBeRestart, samePolicy, raised, failed,
          Nat.ne_of_gt limited] using restarts
      rw [raised, Option.isSome_some, if_pos rfl]
      omega
    · rw [raised, Option.isSome_none, if_neg Bool.false_ne_true]
      omega

/-- The delay of every restart that is granted, how often `on-failure` grants one, and that only
`unless-stopped` asks whether the container was stopped by hand: otherwise a stop has to cancel
the manager. The count of failures is an `int` that cannot overflow before 2^31 exits. -/
theorem granted_backoff (policy : RestartPolicy) (failureCount : Nat) (recent earlier : List Exit) :
    let rm := new policy failureCount
    (∀ delay, rm.granted earlier = some delay →
      delay = backoff (doublings earlier) ∧ defaultTimeout ≤ delay ∧ delay ≤ maxRestartTimeout) ∧
    (policy.name = some "on-failure".toList → 0 < policy.maximumRetryCount →
      (∀ exit ∈ recent, exit.exitCode ≠ 0) →
        rm.grants earlier recent ≤ policy.maximumRetryCount) ∧
    (policy.name = some "unless-stopped".toList → ∀ exit : Exit,
      exit.hasBeenManuallyStopped = true → rm.granted (exit :: earlier) = none) ∧
    (policy.name ≠ some "unless-stopped".toList → ∀ exit stopped,
      rm.granted ({ exit with hasBeenManuallyStopped := stopped } :: earlier) =
        rm.granted (exit :: earlier)) ∧
    (failureCount + earlier.length < 2 ^ 31 → (rm.handled earlier).failureCount < 2 ^ 31) ∧
    ∀ rm : TimedManager, rm.canceled = true → rm.granted earlier = none := by
  intro rm
  have live : rm.canceled = false := rfl
  refine ⟨fun delay answered => ?_,
    fun named limited failing => (grants_le named live limited earlier failing).1,
    fun named exit stopped => ?_, fun other exit stopped => ?_,
    Nat.lt_of_le_of_lt (rm.handled_failureCount_le earlier),
    fun rm canceled => granted_eq_none (.inr canceled) earlier⟩
  · cases named : policy.name with
    | none =>
      rw [granted_eq_none (.inl named)] at answered
      cases answered
    | some name =>
      cases earlier with
      | nil => cases answered
      | cons exit earlier =>
        have delays := @handled_timeout rm name named live rfl exit earlier
        rw [granted, handled_cons named live] at answered
        rw [handled, handled_cons named live] at delays
        obtain ⟨-, same⟩ := Option.ite_none_right_eq_some.mp answered
        rw [← Option.some.inj same, delays]
        exact ⟨rfl, backoff_bounds _⟩
  · rw [granted, handled_cons named live]
    simp [RestartManager.shouldBeRestart, stopped]
  · cases named : policy.name with
    | none => rw [granted_eq_none (.inl named), granted_eq_none (.inl named)]
    | some name =>
      have notAsked : name ≠ "unless-stopped".toList := fun same => other (by rw [named, same])
      have same : ∀ manager : RestartManager, manager.shouldBeRestart name exit.exitCode stopped =
          manager.shouldBeRestart name exit.exitCode exit.hasBeenManuallyStopped := by
        intro manager
        unfold RestartManager.shouldBeRestart
        rw [if_neg (mt And.left notAsked), if_neg (mt And.left notAsked)]
      rw [granted, granted, handled_cons named live, handled_cons named live]
      rw [same]
      rfl

/-- Three failures in a row. -/
def threeFailures : List Exit := [⟨1, false, 3⟩, ⟨1, false, 3⟩, ⟨1, false, 3⟩]

theorem granted_backoff_threeFailures :
    (new ⟨some "on-failure".toList, 2⟩ 0).grants [] threeFailures = 2 ∧
      (new ⟨some "on-failure".toList, 2⟩ 0).grants [] threeFailures ≤ 2 :=
  ⟨by decide, (granted_backoff ⟨some "on-failure".toList, 2⟩ 0 threeFailures []).2.1 rfl
    (by decide) (by simp [threeFailures])⟩

/-- A container under `on-failure` that was stopped by hand is restarted, if the manager has not
been canceled. -/
theorem granted_stoppedByHand :
    (new ⟨some "on-failure".toList, 2⟩ 0).granted [⟨137, true, 3⟩] = some defaultTimeout := by
  decide

end TimedManager

end Isulad.Container
