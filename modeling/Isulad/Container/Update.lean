import Isulad.Container.State

/-!
# Updating the resources of a container

`do_update_resources` of `execution_extend.c` changes the host configuration of a container in
memory and on disk, the policy of its restart manager and its OCI configuration on disk, and
updates the running container. When a step fails, the configurations are restored.
-/

namespace Isulad.Container

/-- `host_config`; `rest` are the fields that an update does not look at. -/
structure HostConfig (ρ : Type) where
  blkioWeight : Nat
  nanoCpus : Int
  cpuShares : Int
  cpuPeriod : Int
  cpuQuota : Int
  cpusetCpus : Option Text
  cpusetMems : Option Text
  cpuRealtimePeriod : Int
  cpuRealtimeRuntime : Int
  memory : Int
  memorySwap : Int
  memoryReservation : Int
  kernelMemory : Int
  restartPolicy : Option RestartPolicy
  rest : ρ

/-- A container with its configurations. -/
structure Configured (ρ ω : Type) where
  state : ContainerState
  /-- `cont->hostconfig`. -/
  hostconfig : HostConfig ρ
  /-- `cont->rm`. -/
  rm : Option RestartManager
  /-- `hostconfig.json`. -/
  hostconfigJson : HostConfig ρ
  /-- The OCI configuration `config.json`, if it can be read. -/
  configJson : Option ω

/-- How everything outside answers `do_update_resources`. A backup can always be saved. -/
structure UpdateAnswers (ρ ω : Type) where
  /-- `dump_host_config`. -/
  dumps : Bool
  /-- Memory for the restart policy of the host configuration. -/
  allocatesPolicy : Bool
  /-- The three files that `container_to_disk` writes. -/
  savesConfigV2 : Bool
  savesHostConfig : Bool
  savesState : Bool
  /-- `restart_manager_new`. -/
  createsManager : Bool
  /-- `restart_manager_set_policy`. -/
  setsPolicy : Bool
  /-- `load_oci_config`, of the configuration and of its backup. -/
  loads : Bool
  loadsBackup : Bool
  /-- `merge_conf_cgroup`. -/
  merge : ω → HostConfig ρ → Option ω
  /-- `save_oci_config`. -/
  savesOci : Bool
  /-- `runtime_update`. -/
  runtimeUpdates : Bool

/-- The failure of a step, with what `execution_extend.c` tells the client. -/
structure Failure where
  message : Option Text
  deriving DecidableEq, Repr

variable {ρ ω : Type}

/-- A new value replaces the old one, unless it is 0. -/
def orKeep [OfNat α 0] [DecidableEq α] (new old : α) : α := if new ≠ 0 then new else old

/-- `update_container_cpu`. -/
def updateContainerCpu (hostconfig chostconfig : HostConfig ρ) :
    Except Failure (HostConfig ρ) :=
  let conflict : String → Except Failure (HostConfig ρ) := fun text =>
    .error ⟨some ("Conflicting options: " ++ text).toList⟩
  if hostconfig.nanoCpus > 0 ∧ chostconfig.cpuPeriod > 0 then
    conflict "Nano CPUs cannot be updated as CPU Period has already been set"
  else if hostconfig.nanoCpus > 0 ∧ chostconfig.cpuQuota > 0 then
    conflict "Nano CPUs cannot be updated as CPU Quota has already been set"
  else if hostconfig.cpuPeriod > 0 ∧ chostconfig.nanoCpus > 0 then
    conflict "CPU Period cannot be updated as NanoCPUs has already been set"
  else if hostconfig.cpuQuota > 0 ∧ chostconfig.nanoCpus > 0 then
    conflict "CPU Quota cannot be updated as NanoCPUs has already been set"
  else .ok { chostconfig with
    nanoCpus := orKeep hostconfig.nanoCpus chostconfig.nanoCpus
    cpuShares := orKeep hostconfig.cpuShares chostconfig.cpuShares
    cpuPeriod := orKeep hostconfig.cpuPeriod chostconfig.cpuPeriod
    cpuQuota := orKeep hostconfig.cpuQuota chostconfig.cpuQuota
    cpusetCpus := hostconfig.cpusetCpus.or chostconfig.cpusetCpus
    cpusetMems := hostconfig.cpusetMems.or chostconfig.cpusetMems
    cpuRealtimePeriod := orKeep hostconfig.cpuRealtimePeriod chostconfig.cpuRealtimePeriod
    cpuRealtimeRuntime := orKeep hostconfig.cpuRealtimeRuntime chostconfig.cpuRealtimeRuntime }

/-- `update_container_memory`. -/
def updateContainerMemory (id : Text) (hostconfig chostconfig : HostConfig ρ) :
    Except Failure (HostConfig ρ) :=
  if hostconfig.memory ≠ 0 ∧ chostconfig.memorySwap > 0 ∧
      hostconfig.memory > chostconfig.memorySwap ∧ hostconfig.memorySwap = 0 then
    .error ⟨some ("Cannot update container ".toList ++ id ++
      (": Memory limit should be smaller than already set memoryswap limit, " ++
        "update the memoryswap at the same time.").toList)⟩
  else .ok { chostconfig with
    memory := orKeep hostconfig.memory chostconfig.memory
    memorySwap := orKeep hostconfig.memorySwap chostconfig.memorySwap
    memoryReservation := orKeep hostconfig.memoryReservation chostconfig.memoryReservation
    kernelMemory := orKeep hostconfig.kernelMemory chostconfig.kernelMemory }

/-- The policy that a request names, if it names one. -/
def HostConfig.namedPolicy (hostconfig : HostConfig ρ) : Option RestartPolicy :=
  hostconfig.restartPolicy.filter fun policy => policy.name.isSome

/-- `update_container_restart_policy`. The old policy is gone when there is no memory for the new
one. -/
def updateContainerRestartPolicy (allocates : Bool) (hostconfig chostconfig : HostConfig ρ) :
    Except (Failure × HostConfig ρ) (HostConfig ρ) :=
  match hostconfig.namedPolicy with
  | none => .ok chostconfig
  | some policy =>
    if allocates then .ok { chostconfig with restartPolicy := some policy }
    else .error (⟨none⟩, { chostconfig with restartPolicy := none })

/-- `update_container`; an error comes with the configuration as far as it has been updated. -/
def updateContainer (allocates : Bool) (id : Text) (hostconfig chostconfig : HostConfig ρ) :
    Except (Failure × HostConfig ρ) (HostConfig ρ) :=
  let chostconfig :=
    { chostconfig with blkioWeight := orKeep hostconfig.blkioWeight chostconfig.blkioWeight }
  match updateContainerCpu hostconfig chostconfig with
  | .error failure => .error (failure, chostconfig)
  | .ok chostconfig =>
    match updateContainerMemory id hostconfig chostconfig with
    | .error failure => .error (failure, chostconfig)
    | .ok chostconfig => updateContainerRestartPolicy allocates hostconfig chostconfig

/-- `update_host_config_check`; `verify_host_config_settings` may put a request right. -/
def updateHostConfigCheck (verify : HostConfig ρ → Option (HostConfig ρ)) (id : Text)
    (state : ContainerState) (hostconfig : HostConfig ρ) : Except Failure (HostConfig ρ) :=
  match verify hostconfig with
  | none => .error ⟨none⟩
  | some hostconfig =>
    let refused : String → Except Failure (HostConfig ρ) := fun text =>
      .error ⟨some ("Cannot update container ".toList ++ id ++ text.toList)⟩
    if state.removalInprogress || state.dead then
      refused ": Container is marked for removal and cannot be \"update\"."
    else if state.running ∧ hostconfig.kernelMemory ≠ 0 then
      refused (": Can not update kernel memory to a running container," ++
        " please stop it first.")
    else .ok hostconfig

namespace Configured

variable (answers : UpdateAnswers ρ ω) (verify : HostConfig ρ → Option (HostConfig ρ))

/-- `container_to_disk`, whose files are written one after the other. -/
def containerToDisk (cont : Configured ρ ω) : Bool × Configured ρ ω :=
  if answers.savesConfigV2 && answers.savesHostConfig then
    (answers.savesState, { cont with hostconfigJson := cont.hostconfig })
  else (false, cont)

/-- `get_restart_manager`. -/
def getRestartManager (cont : Configured ρ ω) : Option RestartManager :=
  cont.rm.or (if answers.createsManager then
    some (.new (cont.hostconfig.restartPolicy.getD ⟨none, 0⟩) cont.state.restartCount) else none)

/-- `container_update_restart_manager`. -/
def containerUpdateRestartManager (policy : RestartPolicy) (cont : Configured ρ ω) :
    Configured ρ ω :=
  match cont.getRestartManager answers with
  | none => cont
  | some rm => { cont with rm := some (if answers.setsPolicy then rm.setPolicy policy else rm) }

/-- The middle of `do_update_resources`, from the loading of the OCI configuration on. An error
comes with the backup that the label `restore_ocispec` saves, or none for the label
`restore_hostspec`. -/
def updateSpec (hostconfig : HostConfig ρ) (cont : Configured ρ ω) :
    Except (Option ω × Configured ρ ω) (Configured ρ ω) :=
  match if answers.loads then cont.configJson else none with
  | none => .error (none, cont)
  | some ociSpec =>
    match if answers.loadsBackup then cont.configJson else none with
    | none => .error (none, cont)
    | some backup =>
      match answers.merge ociSpec hostconfig with
      | none => .error (none, cont)
      | some merged =>
        if answers.savesOci = false then .error (some backup, cont)
        else
          let cont := { cont with configJson := some merged }
          if cont.state.running ∧ answers.runtimeUpdates = false then .error (some backup, cont)
          else .ok cont

/-- The labels `restore_ocispec` and `restore_hostspec`. -/
def restore (hostconfig : HostConfig ρ) (backup : Option ω) (cont : Configured ρ ω) :
    Configured ρ ω :=
  { cont with
    configJson := backup.or cont.configJson
    hostconfig := hostconfig
    hostconfigJson := hostconfig }

/-- `do_update_resources` with the container locked and the backup of its host configuration
made. -/
def applyUpdate (id : Text) (hostconfig : HostConfig ρ) (cont : Configured ρ ω) :
    Option Failure × Configured ρ ω :=
  match updateContainer answers.allocatesPolicy id hostconfig cont.hostconfig with
  | .error (failure, updated) =>
    (some failure, ({ cont with hostconfig := updated } : Configured ρ ω).restore
      cont.hostconfig none)
  | .ok updated =>
    let saved := ({ cont with hostconfig := updated } : Configured ρ ω).containerToDisk answers
    if saved.1 = false then (some ⟨none⟩, saved.2.restore cont.hostconfig none)
    else
      let managed :=
        match hostconfig.namedPolicy with
        | none => saved.2
        | some policy => saved.2.containerUpdateRestartManager answers policy
      match managed.updateSpec answers hostconfig with
      | .error (backup, reached) => (some ⟨none⟩, reached.restore cont.hostconfig backup)
      | .ok reached => (none, reached)

/-- `do_update_resources` with the host configuration of a request, if it can be parsed. -/
def doUpdateResources (answers : UpdateAnswers ρ ω) (id : Text) (request : Option (HostConfig ρ))
    (cont : Configured ρ ω) : Option Failure × Configured ρ ω :=
  match request with
  | none => (some ⟨none⟩, cont)
  | some hostconfig =>
    match updateHostConfigCheck verify id cont.state hostconfig with
    | .error failure => (some failure, cont)
    | .ok hostconfig =>
      if answers.dumps = false then (some ⟨none⟩, cont)
      else cont.applyUpdate answers id hostconfig

/-- The policy that the restart manager applies, once there is one. -/
def appliedPolicy (cont : Configured ρ ω) : RestartPolicy :=
  match cont.rm with
  | some rm => rm.policy
  | none => cont.hostconfig.restartPolicy.getD ⟨none, 0⟩

/-- The configurations in memory and on disk are the same and the same policy is applied. -/
structure Same (before after : Configured ρ ω) : Prop where
  hostconfig : after.hostconfig = before.hostconfig
  hostconfigJson : after.hostconfigJson = before.hostconfigJson
  configJson : after.configJson = before.configJson
  appliedPolicy : after.appliedPolicy = before.appliedPolicy

/-- Wherever a request fails, the container is as it was before. -/
def RollsBack (id : Text) (request : Option (HostConfig ρ)) (cont : Configured ρ ω) : Prop :=
  ∀ answers failure after,
    cont.doUpdateResources verify answers id request = (some failure, after) → Same cont after

/-- If the request passes the check, the host configuration on disk is the one in memory, and the
policy that the request names, if the container can be updated, is the one applied. -/
def Restorable (id : Text) (request : Option (HostConfig ρ)) (cont : Configured ρ ω) : Prop :=
  ∀ asked hostconfig, request = some asked →
    updateHostConfigCheck verify id cont.state asked = .ok hostconfig →
    cont.hostconfigJson = cont.hostconfig ∧
      ∀ policy updated, hostconfig.namedPolicy = some policy →
        updateContainer true id hostconfig cont.hostconfig = .ok updated →
        policy = cont.appliedPolicy

section Restore

variable {answers : UpdateAnswers ρ ω} {id : Text} {hostconfig updated chostconfig : HostConfig ρ}
  {cont reached after : Configured ρ ω} {backup : Option ω} {policy : RestartPolicy}

/-- The OCI configuration on disk is restored after any failure. -/
theorem configJson_of_updateSpec
    (failed : cont.updateSpec answers hostconfig = .error (backup, reached)) :
    backup.or reached.configJson = cont.configJson ∧ reached.rm = cont.rm := by
  unfold updateSpec at failed
  split at failed
  · cases failed
    exact ⟨rfl, rfl⟩
  split at failed
  · cases failed
    exact ⟨rfl, rfl⟩
  rename_i backup loaded
  -- What was loaded as the backup is what is on disk.
  have onDisk : cont.configJson = some backup := by
    split at loaded
    · exact loaded
    · cases loaded
  split at failed
  · cases failed
    exact ⟨rfl, rfl⟩
  split at failed
  · cases failed
    exact ⟨onDisk.symm, rfl⟩
  dsimp only at failed
  split at failed
  · cases failed
    exact ⟨onDisk.symm, rfl⟩
  · cases failed

theorem restartPolicy_of_updateContainer {allocates : Bool}
    (named : hostconfig.namedPolicy = some policy)
    (taken : updateContainer allocates id hostconfig chostconfig = .ok updated) :
    updated.restartPolicy = some policy ∧ allocates = true := by
  unfold updateContainer at taken
  dsimp only at taken
  split at taken
  · cases taken
  split at taken
  · cases taken
  rw [updateContainerRestartPolicy, named] at taken
  dsimp only at taken
  split at taken
  next allocated =>
    cases taken
    exact ⟨rfl, allocated⟩
  · cases taken

/-- The restart manager is left alone or gets the policy. -/
theorem rm_containerUpdateRestartManager (known : cont.hostconfig.restartPolicy = some policy) :
    (cont.containerUpdateRestartManager answers policy).rm = cont.rm ∨
      ∃ rm, (cont.containerUpdateRestartManager answers policy).rm = some rm ∧
        rm.policy = policy := by
  unfold containerUpdateRestartManager getRestartManager
  rw [known]
  rcases here : cont.rm with _ | rm
  · cases answers.createsManager
    · exact .inl here
    · refine .inr ⟨_, rfl, ?_⟩
      split <;> rfl
  · cases answers.setsPolicy
    · exact .inl rfl
    · exact .inr ⟨_, rfl, rfl⟩

theorem containerToDisk_keeps (answers : UpdateAnswers ρ ω) (cont : Configured ρ ω) :
    (cont.containerToDisk answers).2.rm = cont.rm ∧
      (cont.containerToDisk answers).2.hostconfig = cont.hostconfig ∧
      (cont.containerToDisk answers).2.configJson = cont.configJson := by
  unfold containerToDisk
  split <;> exact ⟨rfl, rfl, rfl⟩

variable (saved : cont.hostconfigJson = cont.hostconfig)
include saved

/-- What a restored container needs. -/
theorem same_restore (spec : backup.or reached.configJson = cont.configJson)
    (managed : reached.rm = cont.rm ∨
      ∃ rm, reached.rm = some rm ∧ rm.policy = cont.appliedPolicy) :
    Same cont (reached.restore cont.hostconfig backup) := by
  refine ⟨rfl, saved.symm, spec, ?_⟩
  rcases managed with same | ⟨rm, here, applied⟩
  · rw [appliedPolicy, appliedPolicy, restore]
    rw [same]
  · rw [← applied, appliedPolicy, restore]
    rw [here]

/-- Wherever an update fails, the container is restored. -/
theorem same_of_applyUpdate {failure : Failure}
    (applied : ∀ policy updated, hostconfig.namedPolicy = some policy →
      updateContainer true id hostconfig cont.hostconfig = .ok updated →
      policy = cont.appliedPolicy)
    (failed : cont.applyUpdate answers id hostconfig = (some failure, after)) :
    Same cont after := by
  unfold applyUpdate at failed
  split at failed
  · cases failed
    exact same_restore saved rfl (.inl rfl)
  rename_i updated taken
  obtain ⟨rm, memory, spec⟩ := containerToDisk_keeps answers { cont with hostconfig := updated }
  generalize Configured.containerToDisk answers { cont with hostconfig := updated } = disk at *
  dsimp only at failed
  split at failed
  · cases failed
    exact same_restore saved spec (.inl rm)
  -- The manager has changed, if at all, to the policy that was applied before.
  have managed : ∀ managed : Configured ρ ω,
      (match hostconfig.namedPolicy with
        | none => disk.2
        | some policy => disk.2.containerUpdateRestartManager answers policy) = managed →
      managed.configJson = cont.configJson ∧ (managed.rm = cont.rm ∨
        ∃ rm, managed.rm = some rm ∧ rm.policy = cont.appliedPolicy) := by
    rintro _ rfl
    split
    · exact ⟨spec, .inl rm⟩
    rename_i policy named
    obtain ⟨known, allocated⟩ := restartPolicy_of_updateContainer named taken
    rw [allocated] at taken
    rw [← applied policy updated named taken]
    refine ⟨.trans (by rw [containerUpdateRestartManager]; split <;> rfl) spec, ?_⟩
    refine (rm_containerUpdateRestartManager ?_).imp_left fun same => same.trans rm
    rw [memory]
    exact known
  split at failed
  next backup reached broken =>
    cases failed
    obtain ⟨restored, same⟩ := configJson_of_updateSpec broken
    obtain ⟨before, policy⟩ := managed _ rfl
    refine same_restore saved (restored.trans before) ?_
    rw [same]
    exact policy
  · cases failed

end Restore

end Configured

/-- Everything succeeds up to the first file that is saved. -/
def UpdateAnswers.unsaved : UpdateAnswers ρ ω where
  dumps := true
  allocatesPolicy := true
  savesConfigV2 := false
  savesHostConfig := false
  savesState := false
  createsManager := true
  setsPolicy := true
  loads := false
  loadsBackup := false
  merge _ _ := none
  savesOci := false
  runtimeUpdates := false

/-- Everything succeeds up to the loading of the OCI configuration. -/
def UpdateAnswers.unloaded : UpdateAnswers ρ ω :=
  { UpdateAnswers.unsaved with
    savesConfigV2 := true, savesHostConfig := true, savesState := true }

namespace Configured

section Fail

variable {verify : HostConfig ρ → Option (HostConfig ρ)} {id : Text}
  {request : Option (HostConfig ρ)} {cont : Configured ρ ω}
  {asked hostconfig updated : HostConfig ρ}

theorem doUpdateResources_of_check {answers : UpdateAnswers ρ ω} (asks : request = some asked)
    (checked : updateHostConfigCheck verify id cont.state asked = .ok hostconfig)
    (dumps : answers.dumps = true) :
    cont.doUpdateResources verify answers id request = cont.applyUpdate answers id hostconfig := by
  rw [asks, doUpdateResources, checked]
  dsimp only
  rw [dumps, if_neg Bool.noConfusion]

end Fail

/-- Failed requests leave the container as it was exactly if it is restorable: the policy of the
restart manager is not restored, and the file is overwritten by what is in memory. -/
theorem rollsBack_iff (verify : HostConfig ρ → Option (HostConfig ρ)) (id : Text)
    (request : Option (HostConfig ρ)) (cont : Configured ρ ω) :
    cont.RollsBack verify id request ↔ cont.Restorable verify id request := by
  constructor
  · intro rolls asked hostconfig asks checked
    constructor
    · obtain ⟨failure, after, failed, written⟩ : ∃ failure after,
          cont.applyUpdate .unsaved id hostconfig = (some failure, after) ∧
            after.hostconfigJson = cont.hostconfig := by
        unfold applyUpdate
        split <;> exact ⟨_, _, rfl, rfl⟩
      have same := rolls .unsaved failure after
        ((doUpdateResources_of_check asks checked rfl).trans failed)
      exact same.hostconfigJson.symm.trans written
    · intro policy updated named taken
      obtain ⟨failure, after, failed, kept⟩ : ∃ failure after,
          cont.applyUpdate .unloaded id hostconfig = (some failure, after) ∧
            after.appliedPolicy = policy := by
        unfold applyUpdate
        rw [show (UpdateAnswers.unloaded : UpdateAnswers ρ ω).allocatesPolicy = true from rfl,
          taken,
          named]
        rcases cont with ⟨state, memory, rm, file, spec⟩
        cases rm <;> exact ⟨_, _, rfl, rfl⟩
      have same := rolls .unloaded failure after
        ((doUpdateResources_of_check asks checked rfl).trans failed)
      exact kept.symm.trans same.appliedPolicy
  · intro restorable answers failure after failed
    unfold doUpdateResources at failed
    split at failed
    · cases failed
      exact ⟨rfl, rfl, rfl, rfl⟩
    rename_i asked
    split at failed
    · cases failed
      exact ⟨rfl, rfl, rfl, rfl⟩
    rename_i hostconfig checked
    split at failed
    · cases failed
      exact ⟨rfl, rfl, rfl, rfl⟩
    obtain ⟨saved, applied⟩ := restorable asked hostconfig rfl checked
    exact same_of_applyUpdate saved applied failed

end Configured

/-- A host configuration that sets nothing but a restart policy. -/
def HostConfig.restarting (name : String) : HostConfig Unit where
  blkioWeight := 0
  nanoCpus := 0
  cpuShares := 0
  cpuPeriod := 0
  cpuQuota := 0
  cpusetCpus := none
  cpusetMems := none
  cpuRealtimePeriod := 0
  cpuRealtimeRuntime := 0
  memory := 0
  memorySwap := 0
  memoryReservation := 0
  kernelMemory := 0
  restartPolicy := some ⟨some name.toList, 0⟩
  rest := ()

/-- A container that is not restarted is to be restarted always, and its OCI configuration cannot
be loaded. -/
theorem Configured.rollsBack_fails_policy :
    ¬ Configured.RollsBack some "c0ffee".toList (some (.restarting "always"))
      (⟨{ running := false, starting := false, paused := false, restarting := false, pid := 0
          pPid := 0, exitCode := 0, restartCount := 0, hasBeenManuallyStopped := false
          removalInprogress := false, dead := false }, .restarting "no", none, .restarting "no",
        none⟩ : Configured Unit Unit) := by
  intro rolls
  have same := (rolls .unloaded _ _ rfl).appliedPolicy
  exact absurd same (by decide)

end Isulad.Container
