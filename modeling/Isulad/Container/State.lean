import Isulad.Std.Tokens

/-!
# The state of a container

`container_state.c` and the restart manager of `restartmanager.c`, as far as stopping, deleting,
restarting and updating a container read them.
-/

namespace Isulad.Container

abbrev Text := List Char

/-- `container_state`, without the times and the error text. A process is known by its pid, its
monitor by `pPid`; 0 is no process. -/
structure ContainerState where
  running : Bool
  starting : Bool
  paused : Bool
  restarting : Bool
  pid : Nat
  pPid : Nat
  exitCode : Nat
  restartCount : Nat
  hasBeenManuallyStopped : Bool
  removalInprogress : Bool
  dead : Bool
  deriving DecidableEq, Repr

namespace ContainerState

variable (state : ContainerState)

/-- `container_state_set_running`, initially. -/
def setRunning (pid pPid : Nat) : ContainerState :=
  { state with
    running := true, starting := false, restarting := false, paused := false
    exitCode := 0, pid := pid, pPid := pPid }

/-- `container_state_set_stopped`. -/
def setStopped (exitCode : Nat) : ContainerState :=
  { state with
    running := false, starting := false, restarting := false, paused := false
    exitCode := exitCode, pid := 0, pPid := 0 }

/-- `container_state_set_restarting`. A restarting container is recorded as running. -/
def setRestarting (exitCode : Nat) : ContainerState :=
  { state with
    running := true, starting := false, restarting := true, paused := false
    exitCode := exitCode, pid := 0, pPid := 0 }

/-- `container_state_increase_restart_count`. -/
def increaseRestartCount : ContainerState :=
  { state with restartCount := state.restartCount + 1 }

/-- `container_state_set_has_been_manual_stopped`. -/
def setHasBeenManualStopped : ContainerState :=
  { state with hasBeenManuallyStopped := true }

/-- `container_state_reset_has_been_manual_stopped`. -/
def resetHasBeenManualStopped : ContainerState :=
  { state with hasBeenManuallyStopped := false }

/-- `container_state_set_removal_in_progress`. -/
def setRemovalInProgress : ContainerState :=
  { state with removalInprogress := true }

/-- `container_state_reset_removal_in_progress`. -/
def resetRemovalInProgress : ContainerState :=
  { state with removalInprogress := false }

end ContainerState

/-- `host_config_restart_policy`. -/
structure RestartPolicy where
  name : Option Text
  maximumRetryCount : Nat
  deriving DecidableEq, Repr

/-- `restart_manager_t`, without the delay before a restart. -/
structure RestartManager where
  policy : RestartPolicy
  /-- An `int` of the source: the model is exact while it stays below 2^31. -/
  failureCount : Nat
  canceled : Bool
  deriving DecidableEq, Repr

namespace RestartManager

/-- `restart_manager_new`. -/
def new (policy : RestartPolicy) (failureCount : Nat) : RestartManager :=
  { policy, failureCount, canceled := false }

variable (rm : RestartManager)

/-- `restart_manager_set_policy`. -/
def setPolicy (policy : RestartPolicy) : RestartManager :=
  { rm with policy }

/-- `restart_manager_cancel`. -/
def cancel : RestartManager := { rm with canceled := true }

/-- `restart_manager_set_items`. -/
def setItems (exitCode : Nat) : RestartManager :=
  { rm with failureCount := if exitCode ≠ 0 then rm.failureCount + 1 else 0 }

/-- `should_be_restart`. -/
def shouldBeRestart (name : Text) (exitCode : Nat) (hasBeenManuallyStopped : Bool) : Bool :=
  if name = "always".toList then true
  else if name = "unless-stopped".toList ∧ hasBeenManuallyStopped = false then true
  else if name = "on-failure".toList then
    if rm.policy.maximumRetryCount = 0 ∨ rm.failureCount ≤ rm.policy.maximumRetryCount then
      exitCode ≠ 0
    else false
  else if name = "on-reboot".toList then exitCode = 129
  else false

/-- `restart_manager_should_restart`. -/
def shouldRestart (exitCode : Nat) (hasBeenManuallyStopped : Bool) : Bool × RestartManager :=
  match rm.policy.name with
  | none => (false, rm)
  | some name =>
    if rm.canceled then (false, rm)
    else
      let rm := rm.setItems exitCode
      (rm.shouldBeRestart name exitCode hasBeenManuallyStopped, rm)

theorem shouldRestart_of_canceled {rm : RestartManager} (canceled : rm.canceled = true)
    (exitCode : Nat) (hasBeenManuallyStopped : Bool) :
    rm.shouldRestart exitCode hasBeenManuallyStopped = (false, rm) := by
  rw [shouldRestart]
  split
  · rfl
  · rw [if_pos canceled]

end RestartManager

end Isulad.Container
