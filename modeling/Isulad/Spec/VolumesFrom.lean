import Isulad.Spec.Mount
import Mathlib.Data.List.Forall2

/-!
# Mounts of another container

`parse_volumes_from` of `spec/specs_mount.c`: the mounts a container gets from another one
by `--volumes-from id[:mode]`. The store of containers is a parameter.
-/

namespace Isulad.Spec

open Option List Isulad.Std
open Isulad.Path (utilStringSplit utilStringSplit_of_tokens mem_utilStringSplit)

/-- The propagation modes a mount point may be stored with. -/
inductive Propagation where
  | «private» | rprivate | slave | rslave | shared | rshared
  deriving DecidableEq

/-- The mode as a text. -/
def Propagation.text : Propagation → Text
  | .private => "private".toList
  | .rprivate => "rprivate".toList
  | .slave => "slave".toList
  | .rslave => "rslave".toList
  | .shared => "shared".toList
  | .rshared => "rshared".toList

/-- `container_config_v2_common_config_mount_points_element`. -/
structure MountPoint where
  type : MountType
  name : Option Text := none
  source : Option Text := none
  destination : Text
  rw : Bool
  propagation : Option Propagation := none
  relabel : Option Text := none
  named : Bool := false

/-- `enum update_rw`. -/
inductive UpdateRw where
  | untouch | readonly | readwrite
  deriving DecidableEq

/-- `split_volume_from`. -/
def splitVolumeFrom (volumeFrom : Text) : Option (Text × Option Text) :=
  match utilStringSplit volumeFrom ':' with
  | [id] => some (id, none)
  | [id, mode] => some (id, some mode)
  | _ => none

section

variable (updateRwMode : UpdateRw)

/-- `has_ro` of `mount_point_to_defs_mnt`. -/
def hasRo (point : MountPoint) : Bool :=
  updateRwMode = .readonly || (updateRwMode = .untouch && !point.rw)

/-- `mount_point_to_defs_mnt`. -/
def mountPointToDefsMnt (point : MountPoint) : Mount :=
  let parts := point.relabel.elim [] (utilStringSplit · ',')
  let kept := parts.filter fun part => !utilValidRwMode part
  let ro := hasRo updateRwMode point
  appendDefaultMountOptions
    { type := point.type
      source := if point.type = .volume then point.name else point.source
      destination := point.destination
      options := (point.propagation.map (·.text)).toList ++ kept ++
        (if ro then ["ro".toList] else [])
      named := point.type = .volume && point.named }
    ro point.propagation.isSome (kept.any utilValidLabelMode)

/-- Only volumes and bind mounts are taken over. -/
def MountPoint.inherited (point : MountPoint) : Bool :=
  point.type = .volume || point.type = .bind

/-- The loop of `mount_points_to_defs_mnts`, at the mount point with index `i`. -/
def mountPointsLoop : Nat → List Mount → List MountPoint → Option (List Mount)
  | _, mnts, [] => some mnts
  | i, mnts, point :: points =>
    if point.inherited then
      let mnts := mnts ++ [mountPointToDefsMnt updateRwMode point]
      -- the test is of `mnts[i]`, not of the element just stored at `mnts_len`
      if mnts[i]?.isNone then none else mountPointsLoop (i + 1) mnts points
    else mountPointsLoop (i + 1) mnts points

end

/-- `mount_points_to_defs_mnts`: an allocation of no bytes fails. -/
def mountPointsToDefsMnts (points : List MountPoint) (updateRwMode : UpdateRw) :
    Option (List Mount) :=
  if points.isEmpty then none else mountPointsLoop updateRwMode 0 [] points

/-- The loop of `parser_volume_from_mode` over the parts of the mode. -/
def volumeFromModeLoop (mode : Text) : UpdateRw → List Text → Option UpdateRw
  | rw, [] => some rw
  | rw, part :: parts =>
    if utilValidPropagationMode part || utilValidCopyMode part then none
    else if utilValidRwMode part then
      -- the whole mode is compared here, not the part
      if mode = "rw".toList then volumeFromModeLoop mode .readwrite parts
      else if mode = "ro".toList then volumeFromModeLoop mode .readonly parts
      else volumeFromModeLoop mode rw parts
    else volumeFromModeLoop mode rw parts

/-- `parser_volume_from_mode`. -/
def parserVolumeFromMode : Option Text → Option UpdateRw
  | none => some .untouch
  | some mode =>
    if utilValidMountMode mode then volumeFromModeLoop mode .untouch (utilStringSplit mode ',')
    else none

/-- The containers there are, each with its mount points, if it has any. -/
abbrev Containers := Text → Option (Option (List MountPoint))

/-- `parse_volumes_from`. -/
def parseVolumesFrom (containersStoreGet : Containers) (volumeFrom : Text) :
    Option (List Mount) := do
  let (id, mode) ← splitVolumeFrom volumeFrom
  let updateRwMode ← parserVolumeFromMode mode
  let container ← containersStoreGet id
  match container with
  | none => some []
  | some points => mountPointsToDefsMnts points updateRwMode

variable {points : List MountPoint} {updateRwMode : UpdateRw} {result mnts : List Mount}

/-- The runtime mounts it read-only. -/
def Mount.readOnly (mount : Mount) : Prop := "ro".toList ∈ mount.options

instance (mount : Mount) : Decidable mount.readOnly := inferInstanceAs (Decidable (_ ∈ _))

theorem ro_not_mem_defaultMountOptions (type : MountType) (hasRo hasPro hasSel : Bool) :
    "ro".toList ∉ defaultMountOptions type hasRo hasPro hasSel := by
  cases type with
  | bind => decide +revert
  | volume => decide +revert
  | squashfs => exact not_mem_nil
  | tmpfs => decide +revert
  | other name => exact not_mem_nil

/-- The mount is read-only exactly if the update asks for it, or leaves a mount point that
is. -/
theorem mountPointToDefsMnt_readOnly_iff (updateRwMode : UpdateRw) (point : MountPoint) :
    (mountPointToDefsMnt updateRwMode point).readOnly ↔ hasRo updateRwMode point = true := by
  have notPropagation : "ro".toList ∉ (point.propagation.map (·.text)).toList := by
    cases point.propagation with
    | none => exact not_mem_nil
    | some propagation =>
      intro member
      exact absurd (mem_singleton.mp member) (by cases propagation <;> decide)
  have notKept : "ro".toList ∉ (point.relabel.elim [] (utilStringSplit · ',')).filter
      fun part => !utilValidRwMode part := by
    intro member
    simpa [utilValidRwMode] using (mem_filter.mp member).2
  have notDefault := ro_not_mem_defaultMountOptions point.type (hasRo updateRwMode point)
    point.propagation.isSome (((point.relabel.elim [] (utilStringSplit · ',')).filter
      fun part => !utilValidRwMode part).any utilValidLabelMode)
  simp only [Mount.readOnly, mountPointToDefsMnt, appendDefaultMountOptions, mem_append,
    notPropagation, notKept, notDefault, false_or, or_false]
  cases hasRo updateRwMode point <;> simp

theorem mountPointsLoop_eq {i : Nat}
    (converted : mountPointsLoop updateRwMode i mnts points = some result) :
    result = mnts ++ (points.filter (·.inherited)).map (mountPointToDefsMnt updateRwMode) := by
  induction points generalizing i mnts with
  | nil => simpa [mountPointsLoop] using converted.symm
  | cons point points ih =>
    rw [mountPointsLoop] at converted
    by_cases inherited : point.inherited
    · rw [if_pos inherited] at converted
      dsimp only at converted
      split at converted
      · cases converted
      rw [ih converted, filter_cons_of_pos inherited]
      simp
    · rw [if_neg inherited] at converted
      rw [ih converted, filter_cons_of_neg inherited]

theorem mountPointsToDefsMnts_eq
    (converted : mountPointsToDefsMnts points updateRwMode = some result) :
    result = (points.filter (·.inherited)).map (mountPointToDefsMnt updateRwMode) := by
  rw [mountPointsToDefsMnts] at converted
  split at converted
  · cases converted
  · simpa using mountPointsLoop_eq converted

/-- What is recorded for a mount point, with the read/write mode that the update asks for. -/
structure Recorded (updateRwMode : UpdateRw) (point : MountPoint) (mnt : Mount) : Prop where
  type : mnt.type = point.type
  source : mnt.source = if point.type = .volume then point.name else point.source
  destination : mnt.destination = point.destination
  readOnly : mnt.readOnly ↔ hasRo updateRwMode point = true
  propagation : ∀ propagation ∈ point.propagation, propagation.text ∈ mnt.options

/-- All bind and volume mount points are converted, in their order. -/
def Converts (updateRwMode : UpdateRw) (points : List MountPoint) : Prop :=
  ∃ mnts, mountPointsToDefsMnts points updateRwMode = some mnts ∧
    Forall₂ (Recorded updateRwMode) (points.filter (·.inherited)) mnts

theorem recorded_mountPointToDefsMnt (updateRwMode : UpdateRw) (point : MountPoint) :
    Recorded updateRwMode point (mountPointToDefsMnt updateRwMode point) := by
  refine ⟨rfl, rfl, rfl, mountPointToDefsMnt_readOnly_iff updateRwMode point, ?_⟩
  intro propagation recorded
  have first : (point.propagation.map (·.text)).toList = [propagation.text] := by
    rw [mem_def.mp recorded, map_some, toList_some]
  simp [mountPointToDefsMnt, appendDefaultMountOptions, first]

/-- The loop goes on exactly if no mount point has been skipped before one that is converted. -/
theorem isSome_mountPointsLoop {i : Nat} (behind : mnts.length ≤ i) :
    (mountPointsLoop updateRwMode i mnts points).isSome ↔
      (mnts.length = i ∨ points.filter (·.inherited) = []) ∧
        points.filter (·.inherited) <+: points := by
  induction points generalizing i mnts with
  | nil => simp [mountPointsLoop]
  | cons point points ih =>
    rw [mountPointsLoop]
    by_cases inherited : point.inherited
    · rw [if_pos inherited, filter_cons_of_pos inherited, cons_prefix_cons]
      dsimp only
      split
      next missing =>
        have skipped : mnts.length ≠ i := by
          rintro rfl
          simp at missing
        simp [skipped]
      next stored =>
        have same : mnts.length = i := by
          simp at stored
          omega
        rw [ih (by simp; omega)]
        simp [same]
    · rw [if_neg inherited, filter_cons_of_neg inherited, ih (by omega), prefix_cons_iff]
      constructor
      · rintro ⟨same | none, -⟩
        · omega
        · exact ⟨.inr none, .inl none⟩
      · rintro ⟨-, none | ⟨rest, first, -⟩⟩
        · exact ⟨.inr none, none ▸ nil_prefix⟩
        · have member : point ∈ points.filter (·.inherited) := first ▸ mem_cons_self
          exact absurd (mem_filter.mp member).2 inherited

/-- All are converted exactly if there is a mount point, and the bind and volume mount points stand
before all others. -/
theorem converts_iff (updateRwMode : UpdateRw) (points : List MountPoint) :
    Converts updateRwMode points ↔ points ≠ [] ∧ points.filter (·.inherited) <+: points := by
  have whole : Converts updateRwMode points ↔
      (mountPointsToDefsMnts points updateRwMode).isSome := by
    refine ⟨fun ⟨mnts, converted, _⟩ => by rw [converted, isSome_some], fun converted => ?_⟩
    obtain ⟨mnts, converted⟩ := isSome_iff_exists.mp converted
    refine ⟨mnts, converted, ?_⟩
    rw [mountPointsToDefsMnts_eq converted, forall₂_map_right_iff, forall₂_same]
    exact fun point _ => recorded_mountPointToDefsMnt updateRwMode point
  rw [whole, mountPointsToDefsMnts]
  cases points with
  | nil => simp
  | cons point points =>
    have looped := @isSome_mountPointsLoop (point :: points) updateRwMode [] 0 (Nat.le_refl 0)
    simpa using looped

variable {mode : Option Text}

/-- The update the whole text of a mode asks for. -/
def updateOf (mode : Text) : UpdateRw :=
  if mode = "rw".toList then .readwrite else if mode = "ro".toList then .readonly else .untouch

/-- A mode that is neither `rw` nor `ro` as a whole leaves the update as it is. -/
theorem volumeFromModeLoop_eq {mode : Text} (notRw : mode ≠ "rw".toList)
    (notRo : mode ≠ "ro".toList) {rw result : UpdateRw} {parts : List Text}
    (parsed : volumeFromModeLoop mode rw parts = some result) : result = rw := by
  induction parts with
  | nil => exact (some.inj parsed).symm
  | cons part parts ih =>
    rw [volumeFromModeLoop, if_neg notRw, if_neg notRo, ite_self] at parsed
    split at parsed
    · cases parsed
    · exact ih parsed

theorem parserVolumeFromMode_eq {update : UpdateRw}
    (parsed : parserVolumeFromMode mode = some update) :
    update = mode.elim .untouch updateOf := by
  cases mode with
  | none => exact (some.inj parsed).symm
  | some mode =>
    by_cases isRw : mode = "rw".toList
    · have single : parserVolumeFromMode (some "rw".toList) = some .readwrite := by decide
      rw [isRw, single] at parsed
      rw [isRw]
      exact (some.inj parsed).symm
    by_cases isRo : mode = "ro".toList
    · have single : parserVolumeFromMode (some "ro".toList) = some .readonly := by decide
      rw [isRo, single] at parsed
      rw [isRo]
      exact (some.inj parsed).symm
    rw [parserVolumeFromMode] at parsed
    split at parsed
    · rw [volumeFromModeLoop_eq isRw isRo parsed, elim_some, updateOf, if_neg isRw,
        if_neg isRo]
    · cases parsed

/-- The modes of a specification, none if it has no list. -/
def modesOf (mode : Option Text) : List Text := mode.elim [] (tokens ',')

/-- The mounts are as the modes say, and as in the source container if they say nothing. -/
structure HonoursMode (mode : Option Text) (points : List MountPoint) (mnts : List Mount) :
    Prop where
  ro : "ro".toList ∈ modesOf mode → ∀ mnt ∈ mnts, mnt.readOnly
  rw : "rw".toList ∈ modesOf mode → ∀ mnt ∈ mnts, ¬ mnt.readOnly
  kept : "ro".toList ∉ modesOf mode → "rw".toList ∉ modesOf mode →
    List.Forall₂ (fun point mnt => mnt.readOnly ↔ point.rw = false)
      (points.filter (·.inherited)) mnts

/-- The mode is this word alone, or all mounts to take over have it already. -/
def SettledBy (word : Text) (writable : Bool) (mode : Option Text) (points : List MountPoint) :
    Prop :=
  mode = some word ∨ ∀ point ∈ points, point.inherited → point.rw = writable

theorem parseVolumesFrom_eq {containers : Containers} {volumeFrom id : Text}
    {container : Option (List MountPoint)} (parts : splitVolumeFrom volumeFrom = some (id, mode))
    (found : containers id = some container)
    (parsed : parseVolumesFrom containers volumeFrom = some mnts) :
    mnts = ((container.getD []).filter (·.inherited)).map
      (mountPointToDefsMnt (mode.elim .untouch updateOf)) := by
  rw [parseVolumesFrom, parts] at parsed
  simp [found] at parsed
  obtain ⟨update, accepted, rest⟩ := bind_eq_some_iff.mp parsed
  rw [← parserVolumeFromMode_eq accepted]
  cases container with
  | none => exact (some.inj rest).symm
  | some points => exact mountPointsToDefsMnts_eq rest

theorem readOnly_untouch_iff (point : MountPoint) :
    (mountPointToDefsMnt .untouch point).readOnly ↔ point.rw = false := by
  simp [mountPointToDefsMnt_readOnly_iff, hasRo]

/-- The update of a mode that has a word, unless it is the word alone. -/
theorem update_of_ne (notRw : mode ≠ some "rw".toList) (notRo : mode ≠ some "ro".toList) :
    mode.elim .untouch updateOf = .untouch := by
  cases mode with
  | none => rfl
  | some mode =>
    rw [elim_some, updateOf, if_neg fun same => notRw (congrArg some same),
      if_neg fun same => notRo (congrArg some same)]

/-- Without an update, a word is settled by the mounts as they are. -/
theorem settledBy_iff {word : Text} {writable : Bool} (notAlone : mode ≠ some word) :
    SettledBy word writable mode points ↔
      ∀ mnt ∈ (points.filter (·.inherited)).map (mountPointToDefsMnt .untouch),
        (mnt.readOnly ↔ writable = false) := by
  rw [SettledBy, or_iff_right notAlone, List.forall_mem_map]
  simp only [mem_filter, and_imp, readOnly_untouch_iff]
  refine forall₃_congr fun point _ _ => ?_
  cases point.rw <;> cases writable <;> decide

/-- The modes are honoured exactly if `ro` or `rw` stands alone in the list, or makes no
difference. -/
theorem honoursMode_iff {containers : Containers} {volumeFrom id : Text} {mode : Option Text}
    {container : Option (List MountPoint)} {mnts : List Mount}
    (parts : splitVolumeFrom volumeFrom = some (id, mode)) (found : containers id = some container)
    (parsed : parseVolumesFrom containers volumeFrom = some mnts) :
    HonoursMode mode (container.getD []) mnts ↔
      ("ro".toList ∈ modesOf mode → SettledBy "ro".toList false mode (container.getD [])) ∧
      ("rw".toList ∈ modesOf mode → SettledBy "rw".toList true mode (container.getD [])) := by
  rw [parseVolumesFrom_eq parts found parsed]
  generalize container.getD [] = points
  by_cases isRo : mode = some "ro".toList
  · subst isRo
    have notRw : "rw".toList ∉ modesOf (some "ro".toList) := by decide
    have isRo : "ro".toList ∈ modesOf (some "ro".toList) := by decide
    refine iff_of_true ⟨?_, fun member => absurd member notRw, fun absent => absurd isRo absent⟩
      ⟨fun _ => .inl rfl, fun member => absurd member notRw⟩
    intro _ mnt member
    obtain ⟨point, -, rfl⟩ := mem_map.mp member
    exact (mountPointToDefsMnt_readOnly_iff _ _).mpr rfl
  by_cases isRw : mode = some "rw".toList
  · subst isRw
    have notRo : "ro".toList ∉ modesOf (some "rw".toList) := by decide
    have isRw : "rw".toList ∈ modesOf (some "rw".toList) := by decide
    refine iff_of_true ⟨fun member => absurd member notRo, ?_, fun _ absent => absurd isRw absent⟩
      ⟨fun member => absurd member notRo, fun _ => .inl rfl⟩
    intro _ mnt member
    obtain ⟨point, -, rfl⟩ := mem_map.mp member
    rw [mountPointToDefsMnt_readOnly_iff]
    exact Bool.false_ne_true
  -- any other text of the mode leaves every mount as it was
  rw [update_of_ne isRw isRo]
  simp only [settledBy_iff isRo, settledBy_iff isRw, iff_true, iff_false, Bool.true_eq_false]
  exact ⟨fun honours => ⟨honours.ro, honours.rw⟩,
    fun settled => ⟨settled.1, settled.2, fun _ _ => forall₂_map_right_iff.mpr
      (forall₂_same.mpr fun point _ => readOnly_untouch_iff point)⟩⟩

/-- A writable bind mount of `/srv` on `/data`. -/
def dataPoint : MountPoint :=
  { type := .bind, source := some "/srv".toList, destination := "/data".toList, rw := true }

/-- A bind mount behind a tmpfs is not converted. -/
theorem converts_fails_tmpfs :
    ¬ Converts .untouch [{ dataPoint with type := .tmpfs }, dataPoint] := by
  rintro ⟨mnts, converted, -⟩
  cases converted

/-- One container `db` with that mount. -/
def dbContainers : Containers := fun id =>
  if id = "db".toList then some (some [dataPoint]) else none

/-- The mount as it is taken over. -/
def dataMount : Mount :=
  { type := .bind, source := some "/srv".toList, destination := "/data".toList,
    options := ["rw".toList, "rprivate".toList, "rbind".toList] }

theorem parseVolumesFrom_ro_z :
    parseVolumesFrom dbContainers "db:ro,z".toList = some [dataMount] := by
  decide +kernel

/-- `db:ro,z` is accepted and gives write access. -/
theorem honoursMode_fails_ro_z :
    parseVolumesFrom dbContainers "db:ro,z".toList = some [dataMount] ∧
      ¬ HonoursMode (some "ro,z".toList) [dataPoint] [dataMount] := by
  refine ⟨parseVolumesFrom_ro_z, fun honours => ?_⟩
  have readOnly := honours.ro (by decide) dataMount mem_cons_self
  revert readOnly
  decide

theorem honoursMode_iff_ro_z :
    HonoursMode (some "ro,z".toList) [dataPoint] [dataMount] ↔
      ("ro".toList ∈ modesOf (some "ro,z".toList) →
        SettledBy "ro".toList false (some "ro,z".toList) [dataPoint]) ∧
      ("rw".toList ∈ modesOf (some "ro,z".toList) →
        SettledBy "rw".toList true (some "ro,z".toList) [dataPoint]) :=
  @honoursMode_iff dbContainers "db:ro,z".toList "db".toList (some "ro,z".toList)
    (some [dataPoint]) [dataMount] (by decide) rfl parseVolumesFrom_ro_z

end Isulad.Spec
