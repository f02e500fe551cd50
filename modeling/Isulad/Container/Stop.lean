import Isulad.Container.State
import Isulad.Std.Trace

/-!
# Stopping a container

`stop_container` of `service_container.c` beside the handler of the container's exit events
(`container_state_changed`) and the threads that restart it (`container_restart`). What a thread
does under the container's lock is one step; the steps of all threads interleave freely. The lock
is given up while `stop_container` waits on the condition variable, and the wait can end without a
broadcast.
-/

namespace Isulad.Container

open List Isulad.Std

/-- Where a thread of `container_restart` is. -/
inductive RestartPhase where
  /-- Before the restart manager is asked. -/
  | created
  /-- In `restart_manager_wait_cancel`. -/
  | waiting
  /-- Before `start_container`. -/
  | due
  /-- After a failed `start_container`. -/
  | checking
  /-- At the label `set_stopped`. -/
  | stopping
  deriving DecidableEq, Repr

/-- A thread of `container_restart`. -/
structure RestartThread where
  exitCode : Nat
  phase : RestartPhase
  deriving DecidableEq, Repr

/-- The waits of `stop_container`: after the stop signal, for 90 seconds after the kill, and
without a limit after the monitor has been killed. -/
inductive Wait where
  | grace
  | killed
  | monitor
  deriving DecidableEq, Repr

/-- Where the thread of `stop_container` is. -/
inductive StopPhase where
  | idle
  /-- On the condition variable; `signalled` once it has been broadcast. -/
  | waiting (wait : Wait) (restart signalled : Bool)
  | returned (ret : Int)
  deriving DecidableEq, Repr

/-- One container and the threads that work on it. -/
structure World where
  state : ContainerState
  /-- `hostconfig->restart_policy`. -/
  hostPolicy : RestartPolicy
  autoRemove : Bool
  autoRemoveBak : Bool
  /-- `cont->rm`. -/
  rm : Option RestartManager
  threads : List RestartThread
  stop : StopPhase

/-- How everything outside answers a restart thread. -/
structure RestartAnswer where
  /-- `container_is_in_gc_progress`. -/
  gcProgress : Bool
  /-- The wait for a cancellation times out. -/
  timesOut : Bool
  /-- The pids that `do_start_container` gives, if it starts the container. -/
  started : Option (Nat × Nat)
  /-- The exit code of a failed start. -/
  exitCode : Nat
  /-- `container_state_to_disk` after the start. -/
  savesState : Bool

namespace World

variable (world : World)

/-- `get_restart_manager`. -/
def getRestartManager : RestartManager :=
  world.rm.getD (.new world.hostPolicy world.state.restartCount)

/-- `container_wait_stop_cond_broadcast`. -/
def broadcast : World :=
  match world.stop with
  | .waiting wait restart _ => { world with stop := .waiting wait restart true }
  | _ => world

/-- The end of `stop_container`. -/
def finish (restart : Bool) (ret : Int) : World :=
  { world with
    autoRemove := if restart then world.autoRemoveBak else world.autoRemove
    stop := .returned ret }

/-- `kill_with_signal`: the restart manager is canceled. What the runtime answers changes nothing
here, and its callers go on to wait in any case. -/
def killWithSignal : World :=
  { world with
    rm := some world.getRestartManager.cancel
    state := world.state.setHasBeenManualStopped }

/-- `container_wait_stop` with what `stop_container` does on a result of 0. -/
def containerWaitStop (wait : Wait) (restart : Bool) : World :=
  if world.state.running then { world with stop := .waiting wait restart false }
  else world.finish restart 0

/-- `force_kill` up to its first wait. -/
def forceKill (restart : Bool) : World :=
  world.killWithSignal.containerWaitStop .killed restart

/-- `stop_container` up to its first wait. -/
def stopContainer (force restart : Bool) : World :=
  if world.state.paused then world.finish restart (-1)
  else
    let world := if restart then { world with autoRemove := false } else world
    if force then world.forceKill restart
    else world.killWithSignal.containerWaitStop .grace restart

/-- A wait has timed out. -/
def timeout (wait : Wait) (restart killsMonitor : Bool) : Option World :=
  match wait with
  | .grace => some (world.forceKill restart)
  | .killed =>
    some (if killsMonitor then world.containerWaitStop .monitor restart
      else world.finish restart (-1))
  | .monitor => none

/-- The handling of an exit event. -/
def containerStateChanged (pid exitCode : Nat) (createsThread : Bool) : World :=
  if world.state.running = false ∨ world.state.pid ≠ pid then world
  else
    let asked := world.getRestartManager.shouldRestart exitCode world.state.hasBeenManuallyStopped
    if asked.1 then
      ({ world with
        rm := some asked.2
        state := world.state.increaseRestartCount.setRestarting exitCode
        threads :=
          if createsThread then world.threads ++ [⟨exitCode, .created⟩]
          else world.threads } : World).broadcast
    else
      let state := world.state.setStopped exitCode
      ({ world with
        rm := some asked.2
        state := if world.autoRemove then state.setRemovalInProgress else state } :
        World).broadcast

/-- `start_container` without resetting the restart manager; whether it succeeds. -/
def startContainer (answer : RestartAnswer) : Bool × World :=
  if world.state.paused || world.state.removalInprogress || world.state.dead ||
      answer.gcProgress then (false, world)
  else
    match answer.started with
    | some (pid, pPid) =>
      (answer.savesState,
        { world with state := (world.state.setRunning pid pPid).resetHasBeenManualStopped })
    | none =>
      let state := world.state.setStopped answer.exitCode
      (false, ({ world with
        state := if world.autoRemove then state.setRemovalInProgress else state } :
        World).broadcast)

/-- Replace the restart thread at an index, or end it. -/
def setThread (i : Nat) (thread : Option RestartThread) : World :=
  { world with
    threads :=
      match thread with
      | some thread => world.threads.set i thread
      | none => world.threads.eraseIdx i }

/-- The next step of a restart thread. -/
def restartStep (i : Nat) (thread : RestartThread) (answer : RestartAnswer) : World :=
  match thread.phase with
  | .created =>
    let world := { world with rm := some world.getRestartManager }
    world.setThread i (some { thread with
      phase := if answer.gcProgress || world.getRestartManager.canceled then .stopping
        else .waiting })
  | .waiting =>
    world.setThread i (some { thread with phase := if answer.timesOut then .due else .stopping })
  | .due =>
    let started := world.startContainer answer
    started.2.setThread i (if started.1 then none else some { thread with phase := .checking })
  | .checking =>
    world.setThread i
      (if world.state.restarting then some { thread with phase := .stopping } else none)
  | .stopping =>
    ({ world with state := world.state.setStopped thread.exitCode } :
      World).broadcast.setThread i none

end World

inductive StopEvent where
  /-- `stop_container` is called. -/
  | stop (force restart : Bool)
  /-- The waiting `stop_container` has the lock again. -/
  | wake
  /-- A timed wait of `stop_container` ends with an error. -/
  | timeout (killsMonitor : Bool)
  /-- An exit event is handled. -/
  | exit (pid exitCode : Nat) (createsThread : Bool)
  /-- A restart thread takes its next step. -/
  | restart (i : Nat) (answer : RestartAnswer)

/-- One step of one of the threads. The pid of a process is not 0. -/
def World.step (world : World) : StopEvent → Option World
  | .stop force restart =>
    match world.stop with
    | .idle => some (world.stopContainer force restart)
    | _ => none
  | .wake =>
    match world.stop with
    | .waiting _ restart _ => some (world.finish restart 0)
    | _ => none
  | .timeout killsMonitor =>
    match world.stop with
    | .waiting wait restart _ => world.timeout wait restart killsMonitor
    | _ => none
  | .exit pid exitCode createsThread =>
    if pid = 0 then none else some (world.containerStateChanged pid exitCode createsThread)
  | .restart i answer =>
    match world.threads[i]? with
    | some thread => some (world.restartStep i thread answer)
    | none => none

/-- A container in any state, before it is stopped and with no restart under way. -/
structure Beginning where
  state : ContainerState
  hostPolicy : RestartPolicy
  autoRemove : Bool
  autoRemoveBak : Bool
  rm : Option RestartManager

/-- The threads that work on a container. -/
def stopping (beginning : Beginning) : Machine World StopEvent where
  initial := { beginning with threads := [], stop := .idle }
  step := World.step

/-- In every state of the run, if `stop_container` has returned 0 the container is not recorded as
running. -/
def Stops (beginning : Beginning) (events : List StopEvent) : Prop :=
  ∀ i world, (stopping beginning).Trace (events.take i) world → world.stop = .returned 0 →
    world.state.running = false

/-- No wait ends before the condition has been broadcast. -/
def World.Sober (world : World) : StopEvent → Prop
  | .wake => ∀ wait restart, world.stop ≠ .waiting wait restart false
  | _ => True

/-- A restart thread starts the container, and its state is written to the disk. -/
def World.Starts (world : World) (i : Nat) (answer : RestartAnswer) : Prop :=
  ∃ thread, world.threads[i]? = some thread ∧ thread.phase = .due ∧
    (world.state.paused || world.state.removalInprogress || world.state.dead ||
      answer.gcProgress) = false ∧ answer.started.isSome

/-- The state of a container that a restart thread has started can be saved. -/
def World.Saved (world : World) : StopEvent → Prop
  | .restart i answer => world.Starts i answer → answer.savesState = true
  | _ => True

/-- Without a broadcast, a waiting `stop_container` waits for a container that runs. -/
def World.Unstopped (world : World) : Prop :=
  ∀ wait restart, world.stop = .waiting wait restart false → world.state.running = true

/-- The container waits for a restart. -/
def ContainerState.Awaits (state : ContainerState) : Prop :=
  state.running = true ∧ state.restarting = true ∧ state.pid = 0

/-- The container is stopped and nothing is about to change that. -/
def ContainerState.Down (state : ContainerState) : Prop :=
  state.running = false ∧ state.restarting = false

/-- At most one restart is under way, and only for a container that waits for it, or whose start
has failed. A waiting `stop_container` has canceled all restarts; once it has been signalled or has
returned 0 the container is not running. -/
structure Steady (world : World) : Prop where
  single : world.threads.length ≤ 1
  pending : ∀ thread ∈ world.threads, world.state.Awaits ∨
    thread.phase = .checking ∧ world.state.Down
  canceled : ∀ wait restart signalled, world.stop = .waiting wait restart signalled →
    ∃ rm, world.rm = some rm ∧ rm.canceled = true
  signalled : ∀ wait restart, world.stop = .waiting wait restart true →
    world.state.running = false
  stopped : world.stop = .returned 0 → world.state.running = false

namespace World

variable {world next : World} {i : Nat} {thread : RestartThread} {answer : RestartAnswer}

section

variable (world : World)

@[simp] theorem broadcast_state : world.broadcast.state = world.state := by
  unfold broadcast
  split <;> rfl

@[simp] theorem broadcast_rm : world.broadcast.rm = world.rm := by
  unfold broadcast
  split <;> rfl

@[simp] theorem broadcast_threads : world.broadcast.threads = world.threads := by
  unfold broadcast
  split <;> rfl

theorem broadcast_stop {phase : StopPhase} (here : world.broadcast.stop = phase) :
    (∃ wait restart signalled, world.stop = .waiting wait restart signalled ∧
      phase = .waiting wait restart true) ∨
    world.stop = phase ∧ ∀ wait restart signalled, phase ≠ .waiting wait restart signalled := by
  unfold broadcast at here
  split at here
  next wait restart signalled waiting => exact .inl ⟨wait, restart, signalled, waiting, here.symm⟩
  next elsewhere => exact .inr ⟨here, here ▸ elsewhere⟩

theorem setThread_broadcast (i : Nat) (thread : Option RestartThread) :
    world.broadcast.setThread i thread = (world.setThread i thread).broadcast := by
  unfold setThread broadcast
  dsimp only
  split <;> rfl

end

theorem broadcast_of_not_waiting
    (elsewhere : ∀ wait restart signalled, world.stop ≠ .waiting wait restart signalled) :
    world.broadcast = world := by
  unfold broadcast
  split
  next here => exact absurd here (elsewhere _ _ _)
  · rfl

end World

section Steps

variable {world next : World} {i : Nat} {thread moved : RestartThread} {answer : RestartAnswer}

/-- Stopping a container and broadcasting it. -/
theorem steady_broadcast (single : world.threads.length ≤ 1)
    (pending : ∀ thread ∈ world.threads, thread.phase = .checking ∧ world.state.Down)
    (canceled : ∀ wait restart signalled, world.stop = .waiting wait restart signalled →
      ∃ rm, world.rm = some rm ∧ rm.canceled = true)
    (halted : world.state.running = false) : Steady world.broadcast := by
  rw [← world.broadcast_threads] at single pending
  rw [← world.broadcast_state] at pending halted
  refine ⟨single, fun thread member => .inr (pending thread member),
    fun wait restart signalled here => ?_, fun _ _ _ => halted, fun _ => halted⟩
  rw [World.broadcast_rm]
  rcases world.broadcast_stop here with ⟨_, _, _, waiting, -⟩ | ⟨waiting, -⟩
  · exact canceled _ _ _ waiting
  · exact canceled _ _ _ waiting

theorem steady_ended (only : world.threads = [thread])
    (canceled : ∀ wait restart signalled, world.stop = .waiting wait restart signalled →
      ∃ rm, world.rm = some rm ∧ rm.canceled = true)
    (signalled : ∀ wait restart, world.stop = .waiting wait restart true →
      world.state.running = false)
    (stopped : world.stop = .returned 0 → world.state.running = false) :
    Steady (world.setThread 0 none) := by
  have ended : (world.setThread 0 none).threads = [] := by
    rw [World.setThread]
    rw [only]
    rfl
  refine ⟨?_, fun other member => ?_, canceled, signalled, stopped⟩
  · rw [ended]
    exact Nat.zero_le 1
  · rw [ended] at member
    cases member

section

variable (steady : Steady world)
include steady

section

variable (running : world.state.running = true)
include running

theorem Steady.threads_eq_nil (process : world.state.pid ≠ 0) : world.threads = [] := by
  refine eq_nil_iff_forall_not_mem.mpr fun thread member => ?_
  rcases steady.pending thread member with awaits | ⟨-, down⟩
  · exact process awaits.2.2
  · exact absurd (running.symm.trans down.1) nofun

theorem Steady.not_stopped :
    world.stop ≠ .returned 0 := fun here =>
  absurd (running.symm.trans (steady.stopped here)) nofun

end

theorem Steady.exit {pid exitCode : Nat} {createsThread : Bool}
    (process : pid ≠ 0) : Steady (world.containerStateChanged pid exitCode createsThread) := by
  unfold World.containerStateChanged
  split
  · exact steady
  rename_i handled
  obtain ⟨notStopped, samePid⟩ := not_or.mp handled
  have running : world.state.running = true := by simpa using notStopped
  have idle := steady.threads_eq_nil running (not_not.mp samePid ▸ process)
  -- Whoever waits has canceled the restarts.
  have unasked : ∀ wait restart signalled, world.stop = .waiting wait restart signalled →
      world.getRestartManager.shouldRestart exitCode world.state.hasBeenManuallyStopped =
        (false, world.getRestartManager) ∧ world.getRestartManager.canceled = true := by
    intro wait restart signalled here
    obtain ⟨rm, known, canceled⟩ := steady.canceled _ _ _ here
    rw [World.getRestartManager, known]
    exact ⟨RestartManager.shouldRestart_of_canceled canceled _ _, canceled⟩
  generalize asked : world.getRestartManager.shouldRestart exitCode
    world.state.hasBeenManuallyStopped = answered at unasked
  dsimp only
  split
  next restarts =>
    have elsewhere : ∀ wait restart signalled,
        world.stop ≠ .waiting wait restart signalled := by
      intro wait restart signalled here
      rw [(unasked _ _ _ here).1] at restarts
      cases restarts
    rw [World.broadcast_of_not_waiting (by exact elsewhere)]
    refine ⟨?_, fun thread member => .inl ⟨rfl, rfl, rfl⟩,
      fun wait restart signalled here => absurd here (elsewhere _ _ _),
      fun wait restart here => absurd here (elsewhere _ _ _),
      fun here => absurd here (steady.not_stopped running)⟩
    rw [idle]
    split
    · exact Nat.le_refl 1
    · exact Nat.zero_le 1
  · refine steady_broadcast ?_ (fun thread member => ?_) (fun wait restart signalled here => ?_) ?_
    · exact steady.single
    · rw [idle] at member
      cases member
    · obtain ⟨answered, canceled⟩ := unasked _ _ _ here
      exact ⟨_, rfl, answered ▸ canceled⟩
    · split <;> rfl

theorem Steady.only (here : world.threads[i]? = some thread) :
    i = 0 ∧ world.threads = [thread] := by
  have single := steady.single
  match threads : world.threads, here, single with
  | [], here, _ => exact absurd here (by simp)
  | [only], here, _ =>
    cases i with
    | zero => exact ⟨rfl, congrArg ([·]) (Option.some.inj here)⟩
    | succ i => exact absurd here (by simp)
  | _ :: _ :: _, _, single => exact absurd single (by simp)

theorem Steady.setThread (only : world.threads = [thread])
    (pending : world.state.Awaits ∨ moved.phase = .checking ∧ world.state.Down) :
    Steady (world.setThread 0 (some moved)) := by
  refine { steady with single := ?_, pending := fun other member => ?_ }
  · rw [World.setThread]
    rw [only]
    exact Nat.le_refl 1
  · rw [World.setThread] at member
    rw [only] at member
    rw [mem_singleton.mp member]
    exact pending

theorem Steady.restart (here : world.threads[i]? = some thread)
    (saved : world.Starts i answer → answer.savesState = true) :
    Steady (world.restartStep i thread answer) := by
  obtain ⟨rfl, only⟩ := steady.only here
  have member : thread ∈ world.threads := only ▸ mem_singleton_self thread
  -- Only after a failed start can the container be down.
  have awaits : thread.phase ≠ .checking → world.state.Awaits := fun differs =>
    (steady.pending thread member).resolve_right fun down => differs down.1
  unfold World.restartStep
  split
  next created =>
    have known : Steady { world with rm := some world.getRestartManager } := by
      refine { steady with canceled := fun wait restart signalled waiting => ?_ }
      obtain ⟨rm, same, canceled⟩ := steady.canceled _ _ _ waiting
      refine ⟨_, rfl, ?_⟩
      rw [World.getRestartManager, same]
      exact canceled
    exact known.setThread only (.inl (awaits (by rw [created]; nofun)))
  next waiting => exact steady.setThread only (.inl (awaits (by rw [waiting]; nofun)))
  next due =>
    have waits := awaits (by rw [due]; nofun)
    unfold World.startContainer
    split
    · exact steady.setThread only (.inl waits)
    rename_i free
    split
    next started =>
      dsimp only
      rw [saved ⟨thread, here, due, by simpa using free, by rw [started]; rfl⟩, if_pos rfl]
      exact steady_ended only steady.canceled
        (fun wait restart here =>
          absurd (waits.1.symm.trans (steady.signalled wait restart here)) nofun)
        fun here => absurd here (steady.not_stopped waits.1)
    · dsimp only
      rw [if_neg Bool.false_ne_true, World.setThread_broadcast]
      refine steady_broadcast ?_ (fun other among => ?_) steady.canceled ?_
      · rw [only]
        exact Nat.le_refl 1
      · rw [only] at among
        rw [mem_singleton.mp among]
        refine ⟨rfl, ?_⟩
        split <;> exact ⟨rfl, rfl⟩
      · split <;> rfl
  next checking =>
    split
    next restarting =>
      refine steady.setThread only (.inl ?_)
      refine (steady.pending thread member).resolve_right fun down => ?_
      exact absurd (restarting.symm.trans down.2.2) nofun
    · exact steady_ended only steady.canceled steady.signalled steady.stopped
  · rw [World.setThread_broadcast]
    have ended : (({ world with state := world.state.setStopped thread.exitCode } :
        World).setThread 0 none).threads = [] := by
      rw [only]
      rfl
    refine steady_broadcast ?_ (fun other among => ?_) steady.canceled rfl
    · rw [ended]
      exact Nat.zero_le 1
    · rw [ended] at among
      cases among

end

section

variable (steady : Steady world) {wait : Wait}
include steady

theorem Steady.containerWaitStop (wait : Wait) (restart : Bool)
    (canceled : ∃ rm, world.rm = some rm ∧ rm.canceled = true) :
    Steady (world.containerWaitStop wait restart) := by
  unfold World.containerWaitStop
  split
  · refine ⟨steady.single, steady.pending, fun _ _ _ _ => canceled, fun _ _ here => ?_, nofun⟩
    cases here
  rename_i halted
  have down : world.state.running = false := by simpa using halted
  exact ⟨steady.single, steady.pending, nofun, nofun, fun _ => down⟩

theorem Steady.killWithSignal : Steady world.killWithSignal :=
  { steady with canceled := fun _ _ _ _ => ⟨_, rfl, rfl⟩ }

theorem Steady.finish_failed (restart : Bool) :
    Steady (world.finish restart (-1)) := by
  refine ⟨steady.single, steady.pending, nofun, nofun, fun here => ?_⟩
  cases here

theorem Steady.forceKill (restart : Bool) :
    Steady (world.forceKill restart) :=
  steady.killWithSignal.containerWaitStop .killed restart ⟨_, rfl, rfl⟩

theorem Steady.stopContainer (force restart : Bool) :
    Steady (world.stopContainer force restart) := by
  have kept : Steady (if restart then { world with autoRemove := false } else world) := by
    split
    · exact { steady with }
    · exact steady
  unfold World.stopContainer
  split
  · exact steady.finish_failed restart
  dsimp only
  split
  · exact kept.forceKill restart
  · exact kept.killWithSignal.containerWaitStop .grace restart ⟨_, rfl, rfl⟩

theorem Steady.timeout {restart signalled killsMonitor : Bool}
    (waiting : world.stop = .waiting wait restart signalled)
    (taken : world.timeout wait restart killsMonitor = some next) : Steady next := by
  cases wait with
  | grace =>
    cases taken
    exact steady.forceKill restart
  | killed =>
    cases taken
    split
    · exact steady.containerWaitStop .monitor restart (steady.canceled _ _ _ waiting)
    · exact steady.finish_failed restart
  | monitor => cases taken

/-- A wait that ends as it should finds the container stopped. -/
theorem Steady.wake {restart signalled : Bool}
    (waiting : world.stop = .waiting wait restart signalled) (sober : world.Sober .wake) :
    Steady (world.finish restart 0) := by
  refine ⟨steady.single, steady.pending, nofun, nofun, fun _ => ?_⟩
  cases signalled with
  | true => exact steady.signalled _ _ waiting
  | false => exact absurd waiting (sober _ _)

theorem Steady.step {event : StopEvent} (sober : world.Sober event) (saved : world.Saved event)
    (taken : world.step event = some next) : Steady next := by
  cases event with
  | stop force restart =>
    dsimp only [World.step] at taken
    split at taken
    · cases taken
      exact steady.stopContainer force restart
    · cases taken
  | wake =>
    dsimp only [World.step] at taken
    split at taken
    next waiting =>
      cases taken
      exact steady.wake waiting sober
    · cases taken
  | timeout killsMonitor =>
    dsimp only [World.step] at taken
    split at taken
    next waiting => exact steady.timeout waiting taken
    · cases taken
  | exit pid exitCode createsThread =>
    dsimp only [World.step] at taken
    split at taken
    · cases taken
    rename_i process
    cases taken
    exact steady.exit process
  | restart i answer =>
    dsimp only [World.step] at taken
    split at taken
    next here =>
      cases taken
      exact steady.restart here saved
    · cases taken

end

end Steps

section Runs

variable {beginning : Beginning} {events : List StopEvent} {world next : World}

theorem steady_of_trace (trace : (stopping beginning).Trace events world)
    (sober : (stopping beginning).Always World.Sober events)
    (saved : (stopping beginning).Always World.Saved events) : Steady world := by
  induction trace with
  | start => exact ⟨Nat.zero_le 1, nofun, nofun, nofun, nofun⟩
  | step prior taken ih =>
    obtain ⟨soberBefore, soberLast⟩ := (Machine.always_snoc_iff prior).mp sober
    obtain ⟨savedBefore, savedLast⟩ := (Machine.always_snoc_iff prior).mp saved
    exact (ih soberBefore savedBefore).step soberLast savedLast taken

theorem unstopped_broadcast (world : World) : world.broadcast.Unstopped := by
  intro wait restart here
  rcases world.broadcast_stop here with ⟨_, _, _, -, signalled⟩ | ⟨-, elsewhere⟩
  · cases signalled
  · exact absurd rfl (elsewhere _ _ _)

theorem unstopped_containerWaitStop (world : World) (wait : Wait) (restart : Bool) :
    (world.containerWaitStop wait restart).Unstopped := by
  unfold World.containerWaitStop
  split
  next running => exact fun _ _ _ => running
  · nofun

section

variable (unstopped : world.Unstopped)
include unstopped

theorem World.Unstopped.restartStep (i : Nat) (thread : RestartThread) (answer : RestartAnswer) :
    (world.restartStep i thread answer).Unstopped := by
  unfold World.restartStep
  split
  · exact unstopped
  · exact unstopped
  · unfold World.startContainer
    split
    · exact unstopped
    split
    · exact fun _ _ _ => rfl
    · dsimp only
      rw [World.setThread_broadcast]
      exact unstopped_broadcast _
  · exact unstopped
  · rw [World.setThread_broadcast]
    exact unstopped_broadcast _

theorem World.Unstopped.step {event : StopEvent} (taken : world.step event = some next) :
    next.Unstopped := by
  cases event with
  | stop force restart =>
    dsimp only [World.step] at taken
    split at taken
    · cases taken
      unfold World.stopContainer
      split
      · nofun
      dsimp only
      split
      · exact unstopped_containerWaitStop _ _ _
      · exact unstopped_containerWaitStop _ _ _
    · cases taken
  | wake =>
    dsimp only [World.step] at taken
    split at taken
    · cases taken
      nofun
    · cases taken
  | timeout killsMonitor =>
    dsimp only [World.step] at taken
    split at taken
    next wait restart signalled waiting =>
      cases wait with
      | grace =>
        cases taken
        exact unstopped_containerWaitStop _ _ _
      | killed =>
        cases taken
        split
        · exact unstopped_containerWaitStop _ _ _
        · nofun
      | monitor => cases taken
    · cases taken
  | exit pid exitCode createsThread =>
    dsimp only [World.step] at taken
    split at taken
    · cases taken
    cases taken
    unfold World.containerStateChanged
    split
    · exact unstopped
    dsimp only
    split
    · exact unstopped_broadcast _
    · exact unstopped_broadcast _
  | restart i answer =>
    dsimp only [World.step] at taken
    split at taken
    next thread here =>
      cases taken
      exact unstopped.restartStep i thread answer
    · cases taken

end

theorem unstopped_of_trace (trace : (stopping beginning).Trace events world) : world.Unstopped := by
  induction trace with
  | start => nofun
  | step prior taken ih => exact ih.step taken

/-- When the state of restarted containers can be saved, `stop_container` returns 0 for stopped
containers only, exactly if none of its waits ends without a broadcast. -/
theorem stops_iff (beginning : Beginning) (events : List StopEvent)
    (saved : (stopping beginning).Always World.Saved events) :
    Stops beginning events ↔ (stopping beginning).Always World.Sober events := by
  constructor
  · intro stops i event world happened trace
    cases event with
    | wake =>
      intro wait restart waiting
      have running := unstopped_of_trace trace wait restart waiting
      have woken : world.step .wake = some (world.finish restart 0) := by
        dsimp only [World.step]
        rw [waiting]
      have halted : world.state.running = false := by
        refine stops (i + 1) (world.finish restart 0) ?_ rfl
        rw [take_add_one, happened]
        exact trace.step woken
      exact absurd (running.symm.trans halted) nofun
    | stop | timeout | exit | restart => trivial
  · intro sober i world trace returned
    exact (steady_of_trace trace (sober.take i) (saved.take i)).stopped returned

/-- A container that runs and is restarted always. -/
def Beginning.atWork (pid : Nat) : Beginning where
  state :=
    { running := true, starting := false, paused := false, restarting := false, pid := pid
      pPid := 0, exitCode := 0, restartCount := 0, hasBeenManuallyStopped := false
      removalInprogress := false, dead := false }
  hostPolicy := ⟨some "always".toList, 0⟩
  autoRemove := false
  autoRemoveBak := false
  rm := none

/-- The container exits and its restart begins when it is stopped. -/
def restartedEvents : List StopEvent :=
  [.exit 7 1 true, .stop true false, .restart 0 ⟨false, true, none, 1, true⟩,
    .restart 0 ⟨false, true, none, 1, true⟩, .wake]

theorem stops_iff_restarted :
    (stopping (.atWork 7)).Always World.Saved restartedEvents ∧
      (Stops (.atWork 7) restartedEvents ↔
        (stopping (.atWork 7)).Always World.Sober restartedEvents) := by
  have saved : (stopping (.atWork 7)).Always World.Saved restartedEvents := by
    intro i event before happened _
    have among := mem_of_getElem? happened
    simp [restartedEvents] at among
    rcases among with rfl | rfl | rfl | rfl | rfl <;> first | trivial | exact fun _ => rfl
  exact ⟨saved, stops_iff _ _ saved⟩

/-- A wait without a broadcast ends at once: the container still runs when `stop_container` has
returned 0. -/
theorem stops_fails_spurious : ¬ Stops (.atWork 7) [.stop true false, .wake] := by
  intro stops
  exact absurd (stops 2 _ (Machine.trace_of_replay rfl) (by decide +kernel)) (by decide +kernel)

end Runs

end Isulad.Container
