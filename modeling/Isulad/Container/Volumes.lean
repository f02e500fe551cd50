import Isulad.Container.State
import Isulad.Std.Index

/-!
# Volumes

`release_volumes` of `service_container.c` over the operations of any volume store, and the drivers
that `volume_mount` and `volume_umount` of `volume.c` call.
-/

namespace Isulad.Container

open Option List Isulad.Std

/-- A mount point of a container. Only volumes have a name; an anonymous volume is not `named`. -/
structure MountPoint where
  name : Option Text
  named : Bool
  deriving DecidableEq, Repr

/-- What `release_volumes` asks of the volumes. -/
structure VolumeOperations (σ : Type) where
  /-- `volume_del_ref`, of the name of a volume and the id of a container. -/
  delRef : σ → Text → Text → Bool × σ
  /-- `volume_remove`. -/
  remove : σ → Text → Int × σ

def volumeErrNotExist : Int := -2

section Release

variable {σ : Type} (operations : VolumeOperations σ) (id : Text) (rmAnonymousVolumes : Bool)

/-- One round of `release_volumes`. -/
def releaseVolume (carried : Int × σ) (point : MountPoint) : Int × σ :=
  match point.name with
  | none => carried
  | some name =>
    let released := operations.delRef carried.2 name id
    if released.1 = false then (-1, released.2)
    else if point.named = false ∧ rmAnonymousVolumes = true then
      let removed := operations.remove released.2 name
      (if removed.1 ≠ 0 ∧ removed.1 ≠ volumeErrNotExist then -1 else removed.1, removed.2)
    else (carried.1, released.2)

/-- `release_volumes`. -/
def releaseVolumes (volumes : σ) (mountPoints : Option (List MountPoint)) : Int × σ :=
  match mountPoints with
  | none => (0, volumes)
  | some mountPoints =>
    mountPoints.foldl (releaseVolume operations id rmAnonymousVolumes) (0, volumes)

end Release

/-- No operation fails. -/
def VolumeOperations.Succeed {σ : Type} (operations : VolumeOperations σ) : Prop :=
  ∀ volumes name, (∀ id, (operations.delRef volumes name id).1 = true) ∧
    (operations.remove volumes name).1 = 0

section Succeed

variable {σ : Type} {operations : VolumeOperations σ} {id : Text} {rmAnonymousVolumes : Bool}

theorem VolumeOperations.Succeed.releaseVolume (succeed : operations.Succeed) {carried : Int × σ}
    (point : MountPoint) (fine : carried.1 = 0) :
    (releaseVolume operations id rmAnonymousVolumes carried point).1 = 0 := by
  unfold Container.releaseVolume
  split
  · exact fine
  rename_i name _
  dsimp only
  rw [(succeed carried.2 name).1 id, if_neg Bool.noConfusion]
  split
  · rw [(succeed _ name).2]
    rfl
  · exact fine

theorem VolumeOperations.Succeed.releaseVolumes (succeed : operations.Succeed) (volumes : σ)
    (mountPoints : Option (List MountPoint)) :
    (releaseVolumes operations id rmAnonymousVolumes volumes mountPoints).1 = 0 := by
  cases mountPoints with
  | none => rfl
  | some mountPoints =>
    exact List.foldlRecOn (motive := fun carried : Int × σ => carried.1 = 0) mountPoints _ rfl
      fun _ fine point _ => succeed.releaseVolume point fine

end Succeed

section Judgements

variable {σ : Type} (operations : VolumeOperations σ) (id : Text) (rmAnonymousVolumes : Bool)

/-- The result of the operation by which a mount point is judged: that of the removal where one is
made, else that of a failed `volume_del_ref`. -/
def judgement (volumes : σ) (point : MountPoint) : Option Int :=
  point.name.bind fun name =>
    let released := operations.delRef volumes name id
    if released.1 = false then some (-1)
    else if point.named = false ∧ rmAnonymousVolumes = true then
      some (operations.remove released.2 name).1
    else none

/-- The judgements of a whole release, each in the state that the earlier mount points left. -/
def judgements : σ → List MountPoint → List Int
  | _, [] => []
  | volumes, point :: points =>
    (judgement operations id rmAnonymousVolumes volumes point).toList ++
      judgements (releaseVolume operations id rmAnonymousVolumes (0, volumes) point).2 points

/-- The operation did its work, or there was no volume left to remove. -/
def Passes (judged : Int) : Prop :=
  judged = 0 ∨ judged = volumeErrNotExist

/-- The operations, with a record of the references they were asked to delete. -/
def VolumeOperations.recorded : VolumeOperations (σ × List Text) where
  delRef volumes name id :=
    let released := operations.delRef volumes.1 name id
    (released.1, released.2, volumes.2 ++ [name])
  remove volumes name :=
    let removed := operations.remove volumes.1 name
    (removed.1, removed.2, volumes.2)

/-- The release succeeds exactly if every mount point was given back, and it asks for every one. -/
def ReportsRelease (volumes : σ) (mountPoints : Option (List MountPoint)) : Prop :=
  ((releaseVolumes operations id rmAnonymousVolumes volumes mountPoints).1 = 0 ↔
    ∀ judged ∈ judgements operations id rmAnonymousVolumes volumes (mountPoints.getD []),
      Passes judged) ∧
  (releaseVolumes operations.recorded id rmAnonymousVolumes (volumes, []) mountPoints).2.2 =
    (mountPoints.getD []).filterMap MountPoint.name

variable {operations id rmAnonymousVolumes}

theorem releaseVolume_eq (carried : Int × σ) (point : MountPoint) :
    releaseVolume operations id rmAnonymousVolumes carried point =
      ((judgement operations id rmAnonymousVolumes carried.2 point).elim carried.1
          fun judged => if judged ≠ 0 ∧ judged ≠ volumeErrNotExist then -1 else judged,
        (releaseVolume operations id rmAnonymousVolumes (0, carried.2) point).2) := by
  unfold releaseVolume judgement
  cases point.name with
  | none => rfl
  | some name =>
    dsimp
    split
    · rfl
    · split <;> rfl

/-- The result is that of the last judgement: an earlier one is forgotten. -/
theorem foldl_releaseVolume_eq_zero_iff (points : List MountPoint) (carried : Int × σ) :
    (points.foldl (releaseVolume operations id rmAnonymousVolumes) carried).1 = 0 ↔
      (judgements operations id rmAnonymousVolumes carried.2 points).getLast?.getD carried.1 =
        0 := by
  induction points generalizing carried with
  | nil => rfl
  | cons point points ih =>
    rw [foldl_cons, ih, releaseVolume_eq, judgements, getLast?_append]
    generalize judgements _ _ _ _ points = later
    cases later.getLast? with
    | some judged => rfl
    | none =>
      cases judgement operations id rmAnonymousVolumes carried.2 point with
      | none => rfl
      | some judged =>
        simp
        split
        next failed => exact iff_of_false (by decide) failed.1
        · rfl

theorem foldl_releaseVolume_recorded (points : List MountPoint) (carried : Int × σ × List Text) :
    (points.foldl (releaseVolume operations.recorded id rmAnonymousVolumes) carried).2.2 =
      carried.2.2 ++ points.filterMap MountPoint.name := by
  induction points generalizing carried with
  | nil => exact (append_nil _).symm
  | cons point points ih =>
    rw [foldl_cons, ih, filterMap_cons, releaseVolume]
    cases point.name with
    | none => rfl
    | some name =>
      dsimp only [VolumeOperations.recorded]
      split
      · simp
      · split <;> simp

/-- Every mount point is asked for, but the result tells the truth only if what the last judgement
says holds of all of them, and a volume that was already gone is not the last. -/
theorem reportsRelease_iff (volumes : σ) (mountPoints : Option (List MountPoint)) :
    ReportsRelease operations id rmAnonymousVolumes volumes mountPoints ↔
      let judged := judgements operations id rmAnonymousVolumes volumes (mountPoints.getD [])
      (judged.getLast? = some 0 → ∀ one ∈ judged, Passes one) ∧
        (judged.getLast? = some volumeErrNotExist → ∃ one ∈ judged, ¬ Passes one) := by
  have whole : ∀ {τ : Type} (ops : VolumeOperations τ) (start : τ),
      releaseVolumes ops id rmAnonymousVolumes start mountPoints =
        (mountPoints.getD []).foldl (releaseVolume ops id rmAnonymousVolumes) (0, start) := by
    intro τ ops start
    cases mountPoints <;> rfl
  rw [ReportsRelease, whole, whole, foldl_releaseVolume_recorded, foldl_releaseVolume_eq_zero_iff,
    and_iff_left (nil_append _)]
  dsimp only
  generalize judgements _ _ _ _ _ = judged
  cases last : judged.getLast? with
  | none =>
    rw [getLast?_eq_none_iff] at last
    subst last
    simp
  | some final =>
    have among := mem_of_getLast? last
    simp
    constructor
    · intro honest
      refine ⟨honest.mp, fun gone => ?_⟩
      by_contra! fine
      rw [honest.mpr fine] at gone
      cases gone
    · rintro ⟨succeeded, missing⟩
      refine ⟨succeeded, fun fine => (fine final among).resolve_right fun gone => ?_⟩
      obtain ⟨one, member, failed⟩ := missing gone
      exact failed (fine one member)

/-- The reference of the first volume cannot be deleted, the second volume is removed. -/
theorem reportsRelease_fails_forgotten :
    let operations : VolumeOperations Unit :=
      { delRef := fun volumes name _ => (name != "first".toList, volumes)
        remove := fun volumes _ => (0, volumes) }
    ¬ ReportsRelease operations "c1".toList true ()
      (some [⟨some "first".toList, false⟩, ⟨some "second".toList, false⟩]) := by
  intro operations reports
  have passes := reports.1.mp (by decide) (-1) (by decide)
  rw [Passes] at passes
  exact absurd passes (by decide)

end Judgements

section Mounting

/-- What the drivers answer during a call. -/
structure DriverAnswers (ι : Type) where
  /-- `get` finds a volume. -/
  get : ι → Text → Bool
  mount : ι → Text → Int
  umount : ι → Text → Int

variable {ι : Type} (drivers : List ι)

/-- The loop of `lookup_driver_by_volume_name`. The variable it assigns is static: `driver` is what
the call before has left there. -/
def lookupDriverByVolumeName (get : ι → Text → Bool) (name : Text) : List ι → Option ι → Option ι
  | [], driver => driver
  | driver :: drivers, _ =>
    if get driver name then some driver
    else lookupDriverByVolumeName get name drivers (some driver)

/-- What `volume_mount` and `volume_umount` do with their operation, with the driver on which it is
called and the one that stays in the static variable. -/
def callDriver (get : ι → Text → Bool) (operation : ι → Text → Int) (driver : Option ι) :
    Option Text → Int × Option ι × Option ι
  | none => (-1, none, driver)
  | some name =>
    match lookupDriverByVolumeName get name drivers driver with
    | none => (-1, none, none)
    | some driver => (operation driver name, some driver, some driver)

/-- `volume_mount`. -/
def volumeMount (answers : DriverAnswers ι) := callDriver drivers answers.get answers.mount

/-- `volume_umount`. -/
def volumeUmount (answers : DriverAnswers ι) := callDriver drivers answers.get answers.umount

/-- A call of either. -/
structure DriverCall (ι : Type) where
  umounts : Bool
  name : Option Text
  answers : DriverAnswers ι

def DriverCall.exec (driver : Option ι) (call : DriverCall ι) : Int × Option ι × Option ι :=
  if call.umounts then volumeUmount drivers call.answers driver call.name
  else volumeMount drivers call.answers driver call.name

/-- The static variable after some calls, the latest first. -/
def leftBy : List (DriverCall ι) → Option ι
  | [] => none
  | call :: earlier => (call.exec drivers (leftBy earlier)).2.2

/-- Some driver holds the volume. -/
def DriverCall.Held (call : DriverCall ι) : Prop :=
  ∃ name ∈ call.name, ∃ driver ∈ drivers, call.answers.get driver name = true

/-- Only a volume that a driver holds is mounted, and no driver is called for another. -/
def RefusesUnheld (earlier : List (DriverCall ι)) (call : DriverCall ι) : Prop :=
  ¬ call.Held drivers → (call.exec drivers (leftBy drivers earlier)).1 ≠ 0 ∧
    (call.exec drivers (leftBy drivers earlier)).2.1 = none

theorem lookupDriverByVolumeName_unheld {get : ι → Text → Bool} {name : Text}
    (unheld : ∀ driver ∈ drivers, ¬ get driver name = true) (driver : Option ι) :
    lookupDriverByVolumeName get name drivers driver = drivers.getLast?.or driver := by
  induction drivers generalizing driver with
  | nil => rfl
  | cons first drivers ih =>
    rw [forall_mem_cons] at unheld
    rw [lookupDriverByVolumeName, if_neg unheld.1, ih unheld.2, getLast?_cons]
    cases drivers.getLast? <;> rfl

theorem exec_eq (call : DriverCall ι) (driver : Option ι) :
    call.exec drivers driver = callDriver drivers call.answers.get
      (if call.umounts then call.answers.umount else call.answers.mount) driver call.name := by
  unfold DriverCall.exec
  split <;> rfl

theorem leftBy_nil (earlier : List (DriverCall ι)) : leftBy [] earlier = none := by
  induction earlier with
  | nil => rfl
  | cons call earlier ih =>
    rw [leftBy, ih, exec_eq]
    cases call.name <;> rfl

/-- After any calls, an unheld volume is refused exactly when no driver is registered: otherwise
the last of the drivers is taken for its own. -/
theorem refusesUnheld_iff (earlier : List (DriverCall ι)) (call : DriverCall ι) :
    RefusesUnheld drivers earlier call ↔
      call.name = none ∨ call.Held drivers ∨ drivers = [] := by
  by_cases held : call.Held drivers
  · exact iff_of_true (absurd held) (.inr (.inl held))
  rw [RefusesUnheld, imp_iff_right held, exec_eq]
  cases named : call.name with
  | none => simp [callDriver]
  | some name =>
    have unheld : ∀ driver ∈ drivers, ¬ call.answers.get driver name = true :=
      fun driver member holds => held ⟨name, named, driver, member, holds⟩
    rw [callDriver, lookupDriverByVolumeName_unheld drivers unheld]
    cases last : drivers.getLast? with
    | none =>
      obtain rfl := getLast?_eq_none_iff.mp last
      simp [leftBy_nil]
    | some driver =>
      have registered : drivers ≠ [] := fun none => by simp [none] at last
      simp [held, registered]

/-- The driver for local volumes, which has nothing to mount, mounts a volume it does not hold. -/
theorem refusesUnheld_fails_local :
    ¬ RefusesUnheld [()] []
      ⟨false, some ['v'], fun _ _ => false, fun _ _ => 0, fun _ _ => 0⟩ := by
  intro refuses
  exact (refuses (by simp [DriverCall.Held])).1 rfl

end Mounting

end Isulad.Container
