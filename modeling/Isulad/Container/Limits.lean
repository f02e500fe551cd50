import Isulad.Container.Update
import Isulad.Std.Trace

/-!
# Limits along updates

The checks of `verify.c` on the memory and CPU limits of a host configuration, which relate the
limits of one request, and what is left of these relations after updates.
-/

namespace Isulad.Container

open Isulad.Std Isulad.Std.Machine

variable {ρ ω : Type}

/-- What the checks below read of `sysinfo_t`, and all other checks, which may put the rest of a
host configuration right. -/
structure SysInfo (ρ : Type) where
  limit : Bool
  swap : Bool
  reservation : Bool
  kernel : Bool
  cpuCfsPeriod : Bool
  cpuCfsQuota : Bool
  ncpus : Int
  others : HostConfig ρ → Option ρ

def isMemLimitMinimum (limit : Int) : Bool := limit ≠ 0 ∧ limit < 4194304

section Verify

variable (sysinfo : SysInfo ρ)

/-- `verify_mem_limit_swap`. -/
def verifyMemLimitSwap (limit swap : Int) (update : Bool) : Bool :=
  ¬ (isMemLimitMinimum limit ∨ limit > 0 ∧ !sysinfo.limit ∨ limit > 0 ∧ swap ≠ 0 ∧ !sysinfo.swap ∨
    limit > 0 ∧ swap > 0 ∧ swap < limit ∨ limit = 0 ∧ swap > 0 ∧ !update)

/-- `verify_memory_reservation`. -/
def verifyMemoryReservation (limit reservation : Int) : Bool :=
  ¬ (reservation > 0 ∧ !sysinfo.reservation ∨ isMemLimitMinimum reservation ∨
    limit > 0 ∧ reservation > 0 ∧ limit < reservation)

/-- `verify_memory_kernel`. -/
def verifyMemoryKernel (kernel : Int) : Bool :=
  ¬ (kernel > 0 ∧ !sysinfo.kernel ∨ isMemLimitMinimum kernel)

/-- `verify_nano_cpus`. -/
def verifyNanoCpus (nanoCpus cpuPeriod cpuQuota : Int) : Bool :=
  nanoCpus = 0 ∨ ¬ (nanoCpus > 0 ∧ cpuPeriod > 0 ∨ nanoCpus > 0 ∧ cpuQuota > 0 ∨
    nanoCpus > 0 ∧ (!sysinfo.cpuCfsQuota || !sysinfo.cpuCfsPeriod) ∨
    nanoCpus < 0 ∨ nanoCpus > sysinfo.ncpus * 1000000000)

/-- `verify_host_config_settings`. -/
def verifyHostConfigSettings (update : Bool) (hostconfig : HostConfig ρ) :
    Option (HostConfig ρ) :=
  if verifyMemLimitSwap sysinfo hostconfig.memory hostconfig.memorySwap update ∧
      verifyMemoryReservation sysinfo hostconfig.memory hostconfig.memoryReservation ∧
      verifyMemoryKernel sysinfo hostconfig.kernelMemory ∧
      verifyNanoCpus sysinfo hostconfig.nanoCpus hostconfig.cpuPeriod hostconfig.cpuQuota then
    (sysinfo.others hostconfig).map fun rest => { hostconfig with rest := rest }
  else none

end Verify

/-- The relations that hold in a configuration at its creation. -/
structure HostConfig.Related (hostconfig : HostConfig ρ) : Prop where
  swap : 0 < hostconfig.memorySwap →
    0 < hostconfig.memory ∧ hostconfig.memory ≤ hostconfig.memorySwap
  reservation : 0 < hostconfig.memory → hostconfig.memoryReservation ≤ hostconfig.memory
  nano : 0 < hostconfig.nanoCpus → hostconfig.cpuPeriod ≤ 0 ∧ hostconfig.cpuQuota ≤ 0

/-- A request that brings a limit without the limit it is related to suits the stored one. -/
structure HostConfig.Suits (stored request : HostConfig ρ) : Prop where
  swap : request.memory = 0 → 0 < request.memorySwap →
    0 < stored.memory ∧ stored.memory ≤ request.memorySwap
  reservation : request.memory = 0 → 0 < stored.memory →
    request.memoryReservation ≤ stored.memory
  memory : 0 < request.memory → request.memoryReservation = 0 →
    stored.memoryReservation ≤ request.memory

/-- A request, with what the system says and how everything outside answers. -/
structure Updating (ρ ω : Type) where
  sysinfo : SysInfo ρ
  answers : UpdateAnswers ρ ω
  request : Option (HostConfig ρ)

def Configured.Suits (cont : Configured ρ ω) (updating : Updating ρ ω) : Prop :=
  ∀ request ∈ updating.request, cont.hostconfig.Suits request

/-- The successful updates of a container. -/
def updates (id : Text) (cont : Configured ρ ω) : Machine (Configured ρ ω) (Updating ρ ω) where
  initial := cont
  step cont updating :=
    match cont.doUpdateResources (verifyHostConfigSettings updating.sysinfo true) updating.answers
      id updating.request with
    | (none, after) => some after
    | (some _, _) => none

section Updates

variable {sysinfo : SysInfo ρ} {id : Text} {request hostconfig stored updated : HostConfig ρ}
  {cont after : Configured ρ ω} {answers : UpdateAnswers ρ ω}

/-- What a request that passes the checks relates. -/
theorem verifyHostConfigSettings_eq_some {update : Bool}
    (passed : verifyHostConfigSettings sysinfo update request = some hostconfig) :
    (∃ rest, hostconfig = { request with rest := rest }) ∧
      (request.memory = 0 ∧ (0 < request.memorySwap → update = true) ∨ 0 < request.memory ∧
        (0 < request.memorySwap → request.memory ≤ request.memorySwap) ∧
        request.memoryReservation ≤ request.memory) ∧
      (request.nanoCpus = 0 ∨ 0 < request.nanoCpus ∧ request.cpuPeriod ≤ 0 ∧
        request.cpuQuota ≤ 0) := by
  simp [verifyHostConfigSettings, verifyMemLimitSwap, verifyMemoryReservation, verifyNanoCpus,
    isMemLimitMinimum] at passed
  obtain ⟨⟨memory, reservation, -, nano⟩, rest, -, rfl⟩ := passed
  refine ⟨⟨rest, rfl⟩, ?_, by omega⟩
  cases update <;> simp at memory ⊢ <;> omega

theorem ite_error_eq_ok {α ε : Type} {refused : Prop} [Decidable refused] {error : ε} {value : α}
    {otherwise : Except ε α} :
    (if refused then .error error else otherwise) = .ok value ↔
      ¬ refused ∧ otherwise = .ok value := by
  split <;> simp [*]

/-- A successful update keeps the relations exactly if the request suits what is stored. -/
theorem related_iff_suits {allocates : Bool} (related : stored.Related)
    (passed : verifyHostConfigSettings sysinfo true request = some hostconfig)
    (taken : updateContainer allocates id hostconfig stored = .ok updated) :
    updated.Related ↔ stored.Suits request := by
  obtain ⟨⟨rest, rfl⟩, memory, nano⟩ := verifyHostConfigSettings_eq_some passed
  unfold updateContainer at taken
  dsimp only at taken
  split at taken
  · cases taken
  rename_i merged cpu
  simp only [updateContainerCpu, ite_error_eq_ok, Except.ok.injEq] at cpu
  obtain ⟨period, quota, periodSet, quotaSet, rfl⟩ := cpu
  split at taken
  · cases taken
  rename_i limited limits
  simp only [updateContainerMemory, ite_error_eq_ok, Except.ok.injEq] at limits
  obtain ⟨fits, same⟩ := limits
  have whole : ∀ policy, ({ limited with restartPolicy := policy } : HostConfig ρ).Related ↔
      stored.Suits request := by
    intro policy
    obtain ⟨swapOld, reservedOld, nanoOld⟩ := related
    constructor
    · rintro ⟨swap, reserved, -⟩
      constructor <;> grind [orKeep]
    · rintro ⟨swap, reserved, limit⟩
      constructor <;> grind [orKeep]
  unfold updateContainerRestartPolicy at taken
  split at taken
  · cases taken
    exact whole _
  split at taken
  · cases taken
    exact whole _
  · cases taken

theorem hostconfig_of_updateSpec (succeeded : cont.updateSpec answers request = .ok after) :
    after.hostconfig = cont.hostconfig := by
  unfold Configured.updateSpec at succeeded
  iterate 3 (split at succeeded; · cases succeeded)
  simp [ite_error_eq_ok] at succeeded
  rw [← succeeded.2.2]

/-- A successful update stores what `update_container` makes of a request that passes. -/
theorem updated_of_doUpdateResources {verify : HostConfig ρ → Option (HostConfig ρ)}
    {asked : Option (HostConfig ρ)}
    (succeeded : cont.doUpdateResources verify answers id asked = (none, after)) :
    ∃ request hostconfig, asked = some request ∧ verify request = some hostconfig ∧
      updateContainer answers.allocatesPolicy id hostconfig cont.hostconfig =
        .ok after.hostconfig := by
  unfold Configured.doUpdateResources at succeeded
  split at succeeded
  · cases succeeded
  rename_i request
  split at succeeded
  · cases succeeded
  rename_i hostconfig checked
  have verified : verify request = some hostconfig := by
    unfold updateHostConfigCheck at checked
    split at checked
    · cases checked
    rename_i passed
    simp only [ite_error_eq_ok, Except.ok.injEq] at checked
    rw [passed, checked.2.2]
  refine ⟨request, hostconfig, rfl, verified, ?_⟩
  split at succeeded
  · cases succeeded
  unfold Configured.applyUpdate at succeeded
  split at succeeded
  · cases succeeded
  rename_i updated taken
  obtain ⟨-, saved, -⟩ :=
    Configured.containerToDisk_keeps answers { cont with hostconfig := updated }
  generalize Configured.containerToDisk answers { cont with hostconfig := updated } = disk at *
  subst saved
  dsimp only at succeeded
  split at succeeded
  · cases succeeded
  split at succeeded
  · cases succeeded
  rename_i reached spec
  cases succeeded
  rw [hostconfig_of_updateSpec spec, taken]
  split
  · rfl
  unfold Configured.containerUpdateRestartManager
  split <;> rfl

/-- The relations hold all along exactly if every request suits what is stored when it comes. -/
theorem related_throughout_iff {asked : HostConfig ρ} {events : List (Updating ρ ω)}
    (created : verifyHostConfigSettings sysinfo false asked = some cont.hostconfig)
    (trace : (updates id cont).Trace events after) :
    (updates id cont).Throughout (·.hostconfig.Related) events ↔
      (updates id cont).Always Configured.Suits events := by
  induction trace with
  | start =>
    rw [throughout_nil_iff]
    refine iff_of_true ?_ (by simp [Always])
    obtain ⟨⟨rest, same⟩, memory, nano⟩ := verifyHostConfigSettings_eq_some created
    rw [updates, same]
    constructor <;> grind
  | @step events state updating next prior taken ih =>
    rw [throughout_snoc_iff (prior.step taken), always_snoc_iff prior, ih]
    refine and_congr_right fun all => ?_
    have related := ih.mpr all events.length state (by rwa [List.take_length])
    dsimp only [updates] at taken
    split at taken
    next succeeded =>
      cases taken
      obtain ⟨request, hostconfig, asked, passed, merged⟩ := updated_of_doUpdateResources succeeded
      rw [related_iff_suits related passed merged, Configured.Suits, asked]
      simp
    · cases taken

end Updates

/-- A container without limits. -/
def Configured.unlimited : Configured Unit Unit :=
  ⟨⟨false, false, false, false, 0, 0, 0, 0, false, false, false⟩, .restarting "no", none,
    .restarting "no", some ()⟩

/-- A request for a swap limit of 8 MB, and a memory limit, in a system where nothing fails. -/
def Updating.swap (memory : Int) : Updating Unit Unit where
  sysinfo := ⟨true, true, true, true, true, true, 4, fun _ => some ()⟩
  answers :=
    { (.unloaded : UpdateAnswers Unit Unit) with
      loads := true, loadsBackup := true, merge := fun spec _ => some spec, savesOci := true }
  request := some { HostConfig.restarting "no" with memory := memory, memorySwap := 8388608 }

theorem related_throughout_iff_both :
    (updates [] .unlimited).Throughout (·.hostconfig.Related) [.swap 4194304] ↔
      (updates [] .unlimited).Always Configured.Suits [.swap 4194304] := by
  have created : verifyHostConfigSettings (Updating.swap 0).sysinfo false (.restarting "no") =
    some Configured.unlimited.hostconfig := rfl
  exact related_throughout_iff created (trace_of_replay rfl)

/-- The swap limit alone. -/
theorem related_throughout_fails_swap :
    verifyHostConfigSettings (Updating.swap 0).sysinfo false (.restarting "no") =
        some Configured.unlimited.hostconfig ∧
      ∃ after, (updates [] .unlimited).Trace [.swap 0] after ∧ ¬ after.hostconfig.Related := by
  refine ⟨rfl, _, trace_of_replay rfl, fun related => ?_⟩
  exact absurd (related.swap (by decide)).1 (by decide)

end Isulad.Container
