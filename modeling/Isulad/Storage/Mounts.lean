import Isulad.Storage.LayerIndex

/-!
# The users of a mounted layer

`mount_helper` and `umount_helper` of `storage/layer_store/layer_store.c` count the users of a
layer; the driver mounts it for the first of them and unmounts it after the last.
`layer_store_check` mounts the layer that it reads, and unmounts it on every way out. There is
memory, and the locks are taken.
-/

namespace Isulad.Storage

open Function Isulad.Std

/-- How everything else answers a mount and an unmount. -/
structure MountAnswers where
  /-- `update_mount_point`. -/
  updates : Bool
  /-- The mount point has a path. -/
  hasPath : Bool
  /-- `graphdriver_mount_layer`. -/
  mounts : Bool
  /-- `graphdriver_umount_layer`. -/
  umounts : Bool

/-- The `count` of a layer's mount point, and whether the driver has the layer mounted. -/
structure MountState where
  smountPoint : Option Nat
  mounted : Bool

namespace MountState

variable (state : MountState)

/-- The users of the layer. -/
def users : Nat := state.smountPoint.getD 0

/-- `mount_helper`; `true` is a path. -/
def mountHelper (answers : MountAnswers) : Bool × MountState :=
  let updated := { state with smountPoint := some state.users }
  if answers.updates = false then (false, updated)
  else if 0 < state.users then
    (answers.hasPath, { updated with smountPoint := some (state.users + 1) })
  else if answers.mounts then (true, ⟨some 1, true⟩)
  else (false, updated)

/-- `umount_helper`; `true` is the return value 0. -/
def umountHelper (force umounts : Bool) : Bool × MountState :=
  match state.smountPoint with
  | none => (true, state)
  | some count =>
    if force = false ∧ 1 < count then (true, { state with smountPoint := some (count - 1) })
    else if umounts then (true, ⟨some 0, false⟩)
    else (false, state)

end MountState

/-- The layers, and those that the driver has mounted. -/
structure MountedLayers where
  tables : LayerTables
  mounted : Address → Bool

namespace MountedLayers

variable (layers : MountedLayers) (answers : MountAnswers) (id : Text) (l : Address)

def state : MountState := ⟨(layers.tables.object l).smountPoint, layers.mounted l⟩

def put (state : MountState) : MountedLayers where
  tables := layers.tables.change l { layers.tables.object l with smountPoint := state.smountPoint }
  mounted := update layers.mounted l state.mounted

/-- Find a layer and call a helper on it. -/
def onLayer (unknown : Bool) (helper : MountState → Bool × MountState) : Bool × MountedLayers :=
  match layers.tables.lookup id with
  | none => (unknown, layers)
  | some l => ((helper (layers.state l)).1, layers.put l (helper (layers.state l)).2)

/-- `layer_store_mount`. -/
def layerStoreMount : Bool × MountedLayers :=
  layers.onLayer id false (·.mountHelper answers)

/-- `layer_store_umount`. -/
def layerStoreUmount (force umounts : Bool) : Bool × MountedLayers :=
  layers.onLayer id true (·.umountHelper force umounts)

/-- `layer_store_check`, with what `do_integration_check` returns. -/
def layerStoreCheck (doIntegrationCheck : Int) : Int × MountedLayers :=
  match layers.tables.lookup id with
  | none => (-1, layers)
  | some l =>
    let (ret, after) :=
      if (layers.tables.object l).diffDigest = none then (0, layers)
      else
        match layers.layerStoreMount answers id with
        | (false, after) => (-1, after)
        | (true, after) => (doIntegrationCheck, after)
    (ret, (after.layerStoreUmount id false answers.umounts).2)

/-- Every layer has the same users, and the same layers are mounted. -/
def Unchanged (before after : MountedLayers) : Prop :=
  ∀ l, (after.state l).users = (before.state l).users ∧
    (after.state l).mounted = (before.state l).mounted

/-- The check mounts the layer and can unmount it, or it finds nothing that it can unmount. -/
def Spared : Prop :=
  let state := layers.state l
  let image := (layers.tables.object l).diffDigest ≠ none
  if image ∧ answers.updates ∧ (0 < state.users ∨ answers.mounts) then
    0 < state.users ∨ answers.umounts ∧ state.mounted = false
  else
    ¬ image ∧ state.smountPoint = none ∨ state.users = 0 ∧ state.mounted = false ∨
      state.users ≤ 1 ∧ answers.umounts = false

variable {layers answers id l} {state : MountState} (known : layers.tables.lookup id = some l)

theorem state_put : (layers.put l state).state l = state := by
  simp [MountedLayers.state, put, LayerTables.change]

theorem unchanged_put : Unchanged layers (layers.put l state) ↔
    state.users = (layers.state l).users ∧ state.mounted = (layers.state l).mounted := by
  constructor
  · intro same
    simpa [state_put] using same l
  · intro same other
    by_cases here : other = l
    · rwa [here, state_put]
    · simp [MountedLayers.state, put, LayerTables.change, here]

include known in
/-- What the check does to its layer; no other layer is touched. -/
theorem layerStoreCheck_eq (ret : Int) : (layers.layerStoreCheck answers id ret).2 = layers.put l
    ((if (layers.tables.object l).diffDigest = none then layers.state l
      else ((layers.state l).mountHelper answers).2).umountHelper false answers.umounts).2 := by
  have kept : ∀ state, (layers.put l state).tables.lookup id = some l := fun _ => known
  simp only [layerStoreCheck, known]
  split
  · simp [layerStoreUmount, onLayer, known]
  · simp only [layerStoreMount, layerStoreUmount, onLayer, known]
    rcases (layers.state l).mountHelper answers with ⟨_ | _, after⟩ <;>
      simp [kept, state_put] <;> simp [put, LayerTables.change]

theorem unchanged_layerStoreCheck_iff (layers : MountedLayers) (answers : MountAnswers) (id : Text)
    (ret : Int) : Unchanged layers (layers.layerStoreCheck answers id ret).2 ↔
      ∀ l ∈ layers.tables.lookup id, layers.Spared answers l := by
  cases known : layers.tables.lookup id with
  | none => simp [layerStoreCheck, known, Unchanged]
  | some l =>
    rw [layerStoreCheck_eq known, unchanged_put]
    simp [Spared]
    rcases layers.state l with ⟨_ | _ | _ | users, mounted⟩ <;>
      rcases answers with ⟨_ | _, _, _ | _, _ | _⟩ <;>
      by_cases image : (layers.tables.object l).diffDigest = none <;>
      simp [image, MountState.mountHelper, MountState.umountHelper, MountState.users, eq_comm]

/-- The layer of a container, with as many users. -/
def containerLayer (users : Nat) : MountedLayers where
  tables := { noLayers.tables with
    object := fun _ => ⟨['l'], none, [], none, none, some users, 0⟩
    layersList := [0]
    layersListLen := 1
    byId := Index.empty.replace ['l'] 0 }
  mounted _ := 0 < users

/-- A container loses its mounted layer. -/
theorem unchanged_fails_container : ¬ Unchanged (containerLayer 1)
    ((containerLayer 1).layerStoreCheck ⟨true, true, true, true⟩ ['l'] 0).2 :=
  fun same => absurd (same 0).1 (by decide)

end MountedLayers

end Isulad.Storage
