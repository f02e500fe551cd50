import Isulad.Container.ContainersStore
import Isulad.Container.Stop
import Isulad.Container.Volumes

/-!
# Removing a container

`delete_container` and `do_delete_container` of `service_container.c`. A forced removal of a
running container stops it first; while `stop_container` waits, the exit of the container and the
steps of restart threads are handled as in `Isulad.Container.Stop`.
-/

namespace Isulad.Container

open List Isulad.Std

/-- What a removal reads of the container. -/
structure Cont where
  id : Text
  name : Text
  mountPoints : Option (List MountPoint)
  rmAnonymousVolumes : Bool

/-- How everything outside answers `do_delete_container`. -/
structure DeleteAnswers where
  /-- `container_is_in_gc_progress`. -/
  gcProgress : Bool
  /-- The path of the state directory fits into its buffer. -/
  fitsPath : Bool
  /-- `util_recursive_rmdir` of the state directory. -/
  removesState : Bool
  /-- `im_remove_container_rootfs`. -/
  removesRootfs : Bool
  /-- `runtime_rm`. -/
  runtimeRemoves : Bool

/-- The parts of the daemon that a removal changes. -/
structure Daemon (σ : Type) where
  store : ContainersStore
  volumes : σ
  /-- `g_isulad_errmsg`. -/
  errmsg : Text

section Source

variable {σ : Type} (operations : VolumeOperations σ) (cont : Cont) (world : World)

/-- The end of `do_delete_container`. -/
def deregister (daemon : Daemon σ) : Int × Daemon σ :=
  match daemon.store.containers.remove cont.id with
  | none => (-1, daemon)
  | some containers =>
    let daemon := { daemon with store := { daemon.store with containers } }
    match daemon.store.names.remove cont.name with
    | none => (-1, daemon)
    | some names => (0, { daemon with store := { daemon.store with names } })

/-- `do_delete_container`. -/
def doDeleteContainer (autoRemove : Bool) (answers : DeleteAnswers) (daemon : Daemon σ) :
    Int × Daemon σ :=
  if daemon.store.get cont.id = none then (0, daemon)
  else if answers.gcProgress then
    (-1, { daemon with
      errmsg := "You cannot remove container ".toList ++ cont.id ++
        " in garbage collector progress.".toList })
  else if answers.fitsPath = false ∨ answers.removesState = false ∨
      answers.removesRootfs = false ∨ answers.runtimeRemoves = false then (-1, daemon)
  else
    let released := releaseVolumes operations cont.id (cont.rmAnonymousVolumes || autoRemove)
      daemon.volumes cont.mountPoints
    let daemon := { daemon with volumes := released.2 }
    if released.1 ≠ 0 then (released.1, daemon) else deregister cont daemon

/-- What `stop_container` says when it fails. -/
def stopMessage : Text :=
  if world.state.paused then
    "Container ".toList ++ cont.id ++
      " is paused. Unpause the container before stopping or killing".toList
  else
    ("Container stuck for 90 seconds and failed to kill the monitor of container, " ++
      "please check configuration files").toList

/-- What `delete_container` says of a running container without force. -/
def refusal : Text :=
  if world.state.paused then
    "You cannot remove a paused container ".toList ++ cont.id ++
      (". Unpause and then stop the container before " ++
        "attempting removal or force remove").toList
  else
    "You cannot remove a running container ".toList ++ cont.id ++
      ". Stop the container before attempting removal or use -f".toList

/-- The label `reset_removal_progress`. -/
def resetRemovalProgress (ret : Int) (daemon : Daemon σ) : Int × World × Daemon σ :=
  (ret, { world with state := world.state.resetRemovalInProgress }, daemon)

/-- The end of `delete_container`. -/
def finishRemoval (answers : DeleteAnswers) (daemon : Daemon σ) : Int × World × Daemon σ :=
  let deleted := doDeleteContainer operations cont world.autoRemove answers daemon
  if deleted.1 ≠ 0 then resetRemovalProgress world deleted.1 deleted.2
  else (deleted.1, world, deleted.2)

/-- `stop_container` with what happens while it waits. -/
def World.stopWhile (force : Bool) (during : List StopEvent) : Option World :=
  (world.step (.stop force false)).bind fun world => during.foldlM World.step world

/-- `delete_container`, if it comes to its end: `during` is what happens while it waits. -/
def deleteContainer (force : Bool) (world : World) (during : List StopEvent)
    (answers : DeleteAnswers) (daemon : Daemon σ) : Option (Int × World × Daemon σ) :=
  if world.state.running then
    if force = false then
      some (resetRemovalProgress world (-1) { daemon with errmsg := refusal cont world })
    else
      (world.stopWhile force during).bind fun after =>
        match after.stop with
        | .returned ret =>
          if ret ≠ 0 then
            some (resetRemovalProgress after (-1) { daemon with
              errmsg := stopMessage cont world ++ "Could not stop running container ".toList ++
                cont.id ++ ", cannot remove. ".toList })
          else some (finishRemoval operations cont after answers daemon)
        | _ => none
  else some (finishRemoval operations cont world answers daemon)

end Source

variable (world : World)

/-- A container that is being restarted has a thread that restarts it. -/
def World.Attended : Prop :=
  world.state.running = true → world.state.restarting = true → world.threads ≠ []

/-- Nothing more happens to a container that `stop_container` waits for: the wait has no limit, no
broadcast is unheard, the restart threads have come to their end, and the exit of its process has
been handled. -/
def World.Served : Prop :=
  ∀ wait restart signalled, world.stop = .waiting wait restart signalled →
    wait = .monitor ∧ signalled = false ∧ world.threads = [] ∧
      (world.state.running = true → world.state.restarting = true)

/-- The monitor can be killed. -/
def StopEvent.Succeeds : StopEvent → Prop
  | .timeout killsMonitor => killsMonitor = true
  | _ => True

/-- All that happens while a running container is stopped by force. -/
def World.Exits (during : List StopEvent) : Prop :=
  (∀ event ∈ during, event.Succeeds) ∧ ∃ after, world.stopWhile true during = some after ∧
    after.Served

/-- No garbage collection is under way and no operation fails. -/
def DeleteAnswers.Succeed (answers : DeleteAnswers) : Prop :=
  answers.gcProgress = false ∧ answers.fitsPath = true ∧ answers.removesState = true ∧
    answers.removesRootfs = true ∧ answers.runtimeRemoves = true

/-- Every forced removal in which all operations succeed and all exits are reported returns 0 and
takes the container out of the store and the name index. -/
def Removes (cont : Cont) (world : World) : Prop :=
  ∀ (σ : Type) (operations : VolumeOperations σ) (answers : DeleteAnswers) (daemon : Daemon σ)
    (during : List StopEvent), operations.Succeed → answers.Succeed →
    daemon.store.Registered cont.id cont.name →
    (world.state.running = true → world.Exits during) →
    ∃ after left, deleteContainer operations cont true world during answers daemon =
      some (0, after, left) ∧ left.store.Unknown cont.id cont.name

/-- While `stop_container` waits unsignalled the container is running, a restarting one attended;
all restarts are canceled, and a return is a success. -/
structure Lively (world : World) : Prop where
  runs : ∀ wait restart, world.stop = .waiting wait restart false → world.state.running = true
  attended : world.Attended
  canceled : ∃ rm, world.rm = some rm ∧ rm.canceled = true
  succeeds : ∀ ret, world.stop = .returned ret → ret = 0
  begun : world.stop ≠ .idle

section Lively

variable {world next : World} {i : Nat} {thread : RestartThread} {answer : RestartAnswer}
  {threads : List RestartThread} {rm : Option RestartManager} {state : ContainerState}

/-- The thread that restarts a container is still there after a step. -/
theorem World.Attended.set (attended : world.Attended) (moved : RestartThread)
    (running : world.state.running = true) (restarting : world.state.restarting = true) :
    world.threads.set i moved ≠ [] := by
  intro none
  rw [← length_eq_zero_iff, length_set, length_eq_zero_iff] at none
  exact attended running restarting none

theorem lively_containerWaitStop (attended : world.Attended)
    (canceled : ∃ rm, world.rm = some rm ∧ rm.canceled = true) (wait : Wait) (restart : Bool) :
    Lively (world.containerWaitStop wait restart) := by
  unfold World.containerWaitStop
  split
  next running => exact ⟨fun _ _ _ => running, attended, canceled, nofun, nofun⟩
  refine ⟨nofun, attended, canceled, fun ret here => ?_, nofun⟩
  cases here
  rfl

/-- `stop_container` of a container that is not paused. -/
theorem lively_stopContainer (attended : world.Attended) (unpaused : world.state.paused = false)
    (force : Bool) : Lively (world.stopContainer force false) := by
  have waits := @lively_containerWaitStop world.killWithSignal attended ⟨_, rfl, rfl⟩
  rw [World.stopContainer, unpaused, if_neg Bool.false_ne_true]
  rw [if_neg Bool.false_ne_true]
  split
  · exact waits .killed false
  · exact waits .grace false

section

variable (lively : Lively world)
include lively

/-- Whatever stops the container broadcasts it. -/
theorem Lively.broadcast (halted : state.running = false)
    (canceled : ∃ manager, rm = some manager ∧ manager.canceled = true) :
    Lively ({ world with state, threads, rm } : World).broadcast := by
  refine ⟨fun wait restart here => ?_, fun running _ => ?_, ?_, fun ret here => ?_, fun here => ?_⟩
  · rcases World.broadcast_stop _ here with ⟨_, _, _, -, ⟨⟩⟩ | ⟨-, elsewhere⟩
    exact absurd rfl (elsewhere _ _ _)
  · rw [World.broadcast_state] at running
    exact absurd (halted.symm.trans running) nofun
  · rwa [World.broadcast_rm]
  · rcases World.broadcast_stop _ here with ⟨_, _, _, -, ⟨⟩⟩ | ⟨same, -⟩
    exact lively.succeeds ret same
  · rcases World.broadcast_stop _ here with ⟨_, _, _, -, ⟨⟩⟩ | ⟨same, -⟩
    exact lively.begun same

theorem Lively.getRestartManager :
    world.rm = some world.getRestartManager ∧ world.getRestartManager.canceled = true := by
  obtain ⟨rm, known, canceled⟩ := lively.canceled
  rw [World.getRestartManager, known]
  exact ⟨rfl, canceled⟩

theorem Lively.exit (pid exitCode : Nat) (createsThread : Bool) :
    Lively (world.containerStateChanged pid exitCode createsThread) := by
  have canceled := lively.getRestartManager.2
  unfold World.containerStateChanged
  split
  · exact lively
  rw [RestartManager.shouldRestart_of_canceled canceled, if_neg Bool.false_ne_true]
  refine lively.broadcast ?_ ⟨_, rfl, canceled⟩
  split <;> rfl

/-- Steps that leave a running container running, and a restarting one attended. -/
theorem Lively.move (runs : world.state.running = true → state.running = true)
    (attended : state.running = true → state.restarting = true → threads ≠ [])
    (canceled : ∃ manager, rm = some manager ∧ manager.canceled = true) :
    Lively { world with state, threads, rm } :=
  { lively with
    runs := fun wait restart here => runs (lively.runs wait restart here)
    attended
    canceled }

theorem Lively.restart : Lively (world.restartStep i thread answer) := by
  unfold World.restartStep
  split
  · exact lively.move id (lively.attended.set _) ⟨_, rfl, lively.getRestartManager.2⟩
  · exact lively.move id (lively.attended.set _) lively.canceled
  · unfold World.startContainer
    split
    · exact lively.move id (lively.attended.set _) lively.canceled
    split
    · -- Whether or not its state can be saved, the container runs now.
      exact lively.move (fun _ => rfl) (fun _ => nofun) lively.canceled
    rw [World.setThread_broadcast]
    refine lively.broadcast ?_ lively.canceled
    split <;> rfl
  · refine lively.move id (fun running restarting => ?_) lively.canceled
    rw [if_pos restarting]
    exact lively.attended.set _ running restarting
  · rw [World.setThread_broadcast]
    exact lively.broadcast rfl lively.canceled

theorem Lively.step {event : StopEvent} (succeeds : event.Succeeds)
    (taken : world.step event = some next) : Lively next := by
  cases event with
  | stop force restart =>
    dsimp only [World.step] at taken
    split at taken
    next idle => exact absurd idle lively.begun
    · cases taken
  | wake =>
    dsimp only [World.step] at taken
    split at taken
    · cases taken
      refine ⟨nofun, lively.attended, lively.canceled, fun ret here => ?_, nofun⟩
      cases here
      rfl
    · cases taken
  | timeout killsMonitor =>
    cases succeeds
    dsimp only [World.step] at taken
    split at taken
    next wait restart _ _ =>
      cases wait with
      | grace =>
        cases taken
        exact @lively_containerWaitStop world.killWithSignal lively.attended ⟨_, rfl, rfl⟩ .killed
          restart
      | killed =>
        cases taken
        exact lively_containerWaitStop lively.attended lively.canceled .monitor restart
      | monitor => cases taken
    · cases taken
  | exit pid exitCode createsThread =>
    dsimp only [World.step] at taken
    split at taken
    · cases taken
    cases taken
    exact lively.exit pid exitCode createsThread
  | restart i answer =>
    dsimp only [World.step] at taken
    split at taken
    · cases taken
      exact lively.restart
    · cases taken

/-- Whatever happens while `stop_container` waits. -/
theorem Lively.run {during : List StopEvent} (succeed : ∀ event ∈ during, event.Succeeds)
    (taken : during.foldlM World.step world = some next) : Lively next := by
  induction during generalizing world with
  | nil =>
    cases taken
    exact lively
  | cons event during ih =>
    obtain ⟨middle, first, rest⟩ := Option.bind_eq_some_iff.mp taken
    exact ih (lively.step (succeed event mem_cons_self) first)
      (fun other member => succeed other (mem_cons_of_mem _ member)) rest

theorem Lively.returned (served : world.Served) :
    world.stop = .returned 0 := by
  rcases stop : world.stop with _ | ⟨wait, restart, signalled⟩ | ret
  · exact absurd stop lively.begun
  · obtain ⟨-, unheard, ended, exited⟩ := served _ _ _ stop
    subst unheard
    have running := lively.runs _ _ stop
    exact absurd ended (lively.attended running (exited running))
  · rw [lively.succeeds ret stop]

end

end Lively

section Removal

variable {σ : Type} {operations : VolumeOperations σ} {cont : Cont} {answers : DeleteAnswers}
  {daemon : Daemon σ} {world : World}

theorem doDeleteContainer_succeeds (autoRemove : Bool) (volumes : operations.Succeed)
    (succeed : answers.Succeed) (registered : daemon.store.Registered cont.id cont.name) :
    ∃ left, doDeleteContainer operations cont autoRemove answers daemon = (0, left) ∧
      left.store.Unknown cont.id cont.name := by
  obtain ⟨outside, fits, state, rootfs, runtime⟩ := succeed
  obtain ⟨containers, names, stored, indexed, unknown⟩ := registered.removed
  refine ⟨{ daemon with
    store := ⟨containers, names⟩
    volumes := (releaseVolumes operations cont.id (cont.rmAnonymousVolumes || autoRemove)
      daemon.volumes cont.mountPoints).2 }, ?_, unknown⟩
  rw [doDeleteContainer, if_neg registered.get_ne_none, outside, if_neg Bool.false_ne_true, fits,
    state, rootfs, runtime, if_neg (by decide)]
  dsimp only
  rw [volumes.releaseVolumes, if_neg (not_not.mpr rfl), deregister]
  rw [stored]
  dsimp only
  rw [indexed]

theorem finishRemoval_succeeds (world : World) (volumes : operations.Succeed)
    (succeed : answers.Succeed)
    (registered : daemon.store.Registered cont.id cont.name) :
    ∃ left, finishRemoval operations cont world answers daemon = (0, world, left) ∧
      left.store.Unknown cont.id cont.name := by
  obtain ⟨left, deleted, unknown⟩ :=
    doDeleteContainer_succeeds world.autoRemove volumes succeed registered
  refine ⟨left, ?_, unknown⟩
  rw [finishRemoval, deleted]
  exact if_neg (not_not.mpr rfl)

/-- The stop by force of a container that is not paused. -/
theorem World.Exits.returned {during : List StopEvent} (exits : world.Exits during)
    (idle : world.stop = .idle) (attended : world.Attended)
    (unpaused : world.state.paused = false) :
    ∃ after, world.stopWhile true during = some after ∧ after.stop = .returned 0 := by
  obtain ⟨succeed, after, stopped, served⟩ := exits
  refine ⟨after, stopped, ?_⟩
  have begun : world.step (.stop true false) = some (world.stopContainer true false) := by
    dsimp only [World.step]
    rw [idle]
  rw [World.stopWhile, begun, Option.bind_some] at stopped
  exact ((lively_stopContainer attended unpaused true).run succeed stopped).returned served

/-- `stop_container` of a paused container fails at once. -/
theorem stopWhile_of_paused (idle : world.stop = .idle) (paused : world.state.paused = true) :
    world.stopWhile true [] = some (world.finish false (-1)) := by
  have begun : world.step (.stop true false) = some (world.finish false (-1)) := by
    dsimp only [World.step]
    rw [idle, World.stopContainer, if_pos paused]
  rw [World.stopWhile, begun]
  rfl

/-- `stop_container` of a container that nobody restarts or stops waits in the end without a
limit. -/
theorem stopWhile_of_running (idle : world.stop = .idle) (unpaused : world.state.paused = false)
    (running : world.state.running = true) :
    world.stopWhile true [.timeout true] =
      some { world.killWithSignal with stop := .waiting .monitor false false } := by
  have begun : world.step (.stop true false) =
      some { world.killWithSignal with stop := .waiting .killed false false } := by
    dsimp only [World.step]
    rw [idle, World.stopContainer, unpaused, if_neg Bool.false_ne_true]
    exact congrArg some (if_pos running)
  rw [World.stopWhile, begun]
  exact congrArg some (if_pos running)

end Removal

/-- Operations on volumes that always succeed. -/
def VolumeOperations.idle : VolumeOperations Unit where
  delRef _ _ _ := (true, ())
  remove _ _ := (0, ())

/-- A daemon with one container. -/
def Daemon.single (id name : Text) : Daemon Unit where
  store := ⟨⟨[(id, 0)], nodup_singleton _⟩, ⟨[(name, id)], nodup_singleton _⟩⟩
  volumes := ()
  errmsg := []

theorem Daemon.registered_single (id name : Text) :
    (Daemon.single id name).store.Registered id name := by
  constructor
  · refine ⟨0, ?_⟩
    simp [Daemon.single, Index.search, Keyed.find]
  · simp [Daemon.single, Index.search, Keyed.find]

/-- A run in which the stop of a running container does not return 0. -/
theorem not_removes_of_stopWhile {cont : Cont} {world after : World} {during : List StopEvent}
    (running : world.state.running = true) (exits : world.Exits during)
    (stopped : world.stopWhile true during = some after) (fails : after.stop ≠ .returned 0) :
    ¬ Removes cont world := by
  intro removes
  obtain ⟨_, left, deleted, -⟩ := removes Unit .idle ⟨false, true, true, true, true⟩
    (.single cont.id cont.name) during (fun _ _ => ⟨fun _ => rfl, rfl⟩) ⟨rfl, rfl, rfl, rfl, rfl⟩
    (Daemon.registered_single _ _) fun _ => exits
  rw [deleteContainer, if_pos running, if_neg (by decide), stopped, Option.bind_some] at deleted
  split at deleted
  next ret returned =>
    by_cases zero : ret = 0
    · exact fails (zero ▸ returned)
    · rw [if_pos zero] at deleted
      cases deleted
  · cases deleted

theorem not_removes_of_paused {cont : Cont} {world : World} (idle : world.stop = .idle)
    (running : world.state.running = true) (paused : world.state.paused = true) :
    ¬ Removes cont world := by
  have stopped := stopWhile_of_paused idle paused
  have exits : world.Exits [] := by
    refine ⟨nofun, _, stopped, fun _ _ _ here => ?_⟩
    cases here
  exact not_removes_of_stopWhile running exits stopped nofun

theorem not_removes_of_unattended {cont : Cont} {world : World} (idle : world.stop = .idle)
    (unpaused : world.state.paused = false) (running : world.state.running = true)
    (restarting : world.state.restarting = true) (alone : world.threads = []) :
    ¬ Removes cont world := by
  have stopped := stopWhile_of_running idle unpaused running
  have exits : world.Exits [.timeout true] := by
    refine ⟨by simp [StopEvent.Succeeds], _, stopped, fun _ _ _ here => ?_⟩
    cases here
    exact ⟨rfl, rfl, alone, fun _ => restarting⟩
  exact not_removes_of_stopWhile running exits stopped nofun

/-- A container can be removed by force exactly if it is not paused and, when it is being
restarted, has a thread that restarts it. -/
theorem removes_iff (cont : Cont) (world : World) (idle : world.stop = .idle) :
    Removes cont world ↔
      ¬ (world.state.running = true ∧ world.state.paused = true) ∧ world.Attended := by
  constructor
  · intro removes
    have unpaused : ¬ (world.state.running = true ∧ world.state.paused = true) :=
      fun both => not_removes_of_paused idle both.1 both.2 removes
    refine ⟨unpaused, fun running restarting alone => ?_⟩
    have resumed := Bool.eq_false_iff.mpr fun paused => unpaused ⟨running, paused⟩
    exact not_removes_of_unattended idle resumed running restarting alone removes
  · rintro ⟨unpaused, attended⟩ σ operations answers daemon during volumes succeed registered exits
    by_cases running : world.state.running = true
    · have resumed := Bool.eq_false_iff.mpr fun paused => unpaused ⟨running, paused⟩
      obtain ⟨after, stopped, returned⟩ := (exits running).returned idle attended resumed
      obtain ⟨left, deleted, unknown⟩ := finishRemoval_succeeds after volumes succeed registered
      refine ⟨after, left, ?_, unknown⟩
      rw [deleteContainer, if_pos running, if_neg (by decide), stopped, Option.bind_some,
        returned]
      dsimp only
      rw [if_neg (not_not.mpr rfl), deleted]
    · obtain ⟨left, deleted, unknown⟩ := finishRemoval_succeeds world volumes succeed registered
      exact ⟨world, left, by rw [deleteContainer, if_neg running, deleted], unknown⟩

/-- A container that runs, with or without a pause, or that is about to be restarted. -/
def World.atWork (paused restarting : Bool) (threads : List RestartThread) : World where
  state :=
    { running := true, starting := false, paused := paused, restarting := restarting
      pid := if restarting then 0 else 7, pPid := if restarting then 0 else 6, exitCode := 0
      restartCount := 0, hasBeenManuallyStopped := false, removalInprogress := true, dead := false }
  hostPolicy := ⟨some "always".toList, 0⟩
  autoRemove := false
  autoRemoveBak := false
  rm := none
  threads := threads
  stop := .idle

/-- The killed process exits, and the exit is handled before the wait ends. -/
example : (World.atWork false false []).Exits [.exit 7 137 true, .wake] :=
  ⟨by simp [StopEvent.Succeeds], _, rfl, nofun⟩

/-- A container between two runs is removed. -/
theorem removes_iff_restarting :
    Removes ⟨"c0ffee".toList, "web".toList, none, false⟩ (.atWork false true [⟨1, .waiting⟩]) :=
  (removes_iff _ _ rfl).mpr ⟨fun both => absurd both.2 nofun, fun _ _ => cons_ne_nil _ _⟩

/-- A container that is paused is not. -/
theorem removes_fails_paused :
    ¬ Removes ⟨"c0ffee".toList, "web".toList, none, false⟩ (.atWork true false []) :=
  not_removes_of_paused rfl rfl rfl

end Isulad.Container
