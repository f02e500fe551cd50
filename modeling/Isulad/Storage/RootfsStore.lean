import Isulad.Std.Index
import Isulad.Storage.ImageStore

/-!
# Creating the root file system of a container

`storage_rootfs_create` of `storage/storage.c` makes a layer in the layer store and a record in
the rootfs store of `storage/rootfs_store/rootfs_store.c`. The rootfs store keeps a list, its
length and three maps, which are changed one after the other. The mount point that is handed out
on success is left out.
-/

namespace Isulad.Storage

open LayerStore Option List Isulad.Std Keyed Index

/-- `cntrootfs_t` with its `storage_rootfs`. -/
structure RootfsRecord where
  id : Text
  names : List Text
  image : Text
  layer : Text
  deriving DecidableEq, Repr

/-- `rootfs_store_t`. -/
structure RootfsTables where
  rootfsList : List RootfsRecord
  rootfsListLen : Nat
  byid : Index Text RootfsRecord
  bylayer : Index Text RootfsRecord
  byname : Index Text RootfsRecord

/-- Tables whose list is found by its ids. -/
structure RootfsStore extends RootfsTables where
  apart : (rootfsList.map RootfsRecord.id).Nodup
  indexed : ∀ rootfs ∈ rootfsList, byid.search rootfs.id = some rootfs

/-- How everything outside the three stores answers while a root file system is created. -/
structure RootfsAnswers where
  /-- `storage_lock`. -/
  locks : Bool
  utilValidShortSha256Id : Text → Bool
  ociNormalizeImageName : Text → Option Text
  /-- The driver and the disk while the layer is made. -/
  creation : Creation
  /-- `util_get_now_time_buffer`. -/
  getsTime : Bool
  /-- `save_rootfs`. -/
  savesRootfs : Bool
  /-- `remove_rootfs_dir`. -/
  removesRootfsDir : Bool
  /-- The driver and the disk while a layer is deleted. -/
  removal : Removal

namespace RootfsTables

variable (tables : RootfsTables) (id : Text)

/-- `rootfs_store_append_container_rootfs`. On a failure the item leaves the list; the length
and the maps stay as they are by then. -/
def appendContainerRootfs (rootfs : RootfsRecord) : Bool × RootfsTables :=
  let counted := { tables with rootfsListLen := tables.rootfsListLen + 1 }
  match tables.byid.insert rootfs.id rootfs with
  | none => (false, counted)
  | some byid =>
    match tables.bylayer.insert rootfs.layer rootfs with
    | none => (false, { counted with byid })
    | some bylayer =>
      match tables.byname.insertEach rootfs.names rootfs with
      | (false, byname) => (false, { counted with byid, bylayer, byname })
      | (true, byname) =>
        (true, { counted with
          rootfsList := tables.rootfsList ++ [rootfs], byid, bylayer, byname })

/-- `lookup`: by id, by layer, by the start of the id. -/
def lookup : Option RootfsRecord :=
  ((tables.byid.search id).or (tables.bylayer.search id)).or
    (tables.byid.only fun key => id.isPrefixOf key)

/-- The loop of `remove_rootfs_from_memory` over the list. -/
def unlist : RootfsTables :=
  if tables.rootfsList.any fun rootfs => rootfs.id == id then
    { tables with
      rootfsList := tables.rootfsList.eraseP fun rootfs => rootfs.id == id
      rootfsListLen := tables.rootfsListLen - 1 }
  else tables

/-- `remove_rootfs_from_memory`. -/
def removeRootfsFromMemory : Bool × RootfsTables :=
  match tables.lookup id with
  | none => (false, tables)
  | some cntr =>
    match tables.byid.remove id with
    | none => (false, tables)
    | some byid =>
      match tables.bylayer.remove cntr.layer with
      | none => (false, { tables with byid })
      | some bylayer =>
        match tables.byname.removeEach cntr.names with
        | (false, byname) => (false, { tables with byid, bylayer, byname })
        | (true, byname) => (true, unlist { tables with byid, bylayer, byname } id)

/-- `delete_rootfs_from_store_without_lock`. -/
def deleteRootfsFromStoreWithoutLock (answers : RootfsAnswers) (tables : RootfsTables) (id : Text) :
    Bool × RootfsTables :=
  match tables.lookup id with
  | none => (false, tables)
  | some cntr =>
    match tables.removeRootfsFromMemory cntr.id with
    | (false, tables) => (false, tables)
    | (true, tables) => (answers.removesRootfsDir, tables)

end RootfsTables

variable (answers : RootfsAnswers) (tables : RootfsTables) (layers : LayerStore)

/-- `rootfs_store_create` with an id; `true` is the id as the result. -/
def rootfsStoreCreate (id : Text) (names : List Text) (image layer : Text) : Bool × RootfsTables :=
  match tables.byid.search id with
  | some _ => (false, tables)
  | none =>
    if answers.getsTime then
      match tables.appendContainerRootfs ⟨id, utilStringArrayUnique names, image, layer⟩ with
      | (false, tables) => (false, tables)
      | (true, tables) =>
        if answers.savesRootfs then (true, tables)
        else (false, (tables.deleteRootfsFromStoreWithoutLock answers id).2)
    else (false, tables)

section

variable (images : ImageStore)

/-- `storage_img_get_summary`. -/
def storageImgGetSummary (imgId : Text) : Option ImageSummary :=
  if answers.utilValidShortSha256Id imgId && images.imageStoreExists imgId then
    images.imageStoreGetImageSummary imgId
  else (answers.ociNormalizeImageName imgId).bind images.imageStoreGetImageSummary

/-- `storage_rootfs_create`; `true` is the return value 0. -/
def storageRootfsCreate (tables : RootfsTables)
    (containerId image : Option Text) : Bool × LayerStore × RootfsTables :=
  match containerId, image with
  | some containerId, some image =>
    if answers.locks then
      match storageImgGetSummary answers images image with
      | none => (false, layers, tables)
      | some summary =>
        -- The container id is the id of its layer.
        match layerStoreCreate answers.creation layers containerId
            ⟨some summary.topLayer, none, none⟩ with
        | (false, layers) => (false, layers, tables)
        | (true, layers) =>
          match rootfsStoreCreate answers tables containerId [] summary.id containerId with
          | (false, tables) =>
            (false, (layerStoreDelete answers.removal layers containerId).2, tables)
          | (true, tables) =>
            match LayerStore.layerStoreLookup layers containerId with
            | none => (false, (layerStoreDelete answers.removal layers containerId).2, tables)
            | some _ => (true, layers, tables)
    else (false, layers, tables)
  | _, _ => (false, layers, tables)

/-- `rootfs_store_delete`. -/
def rootfsStoreDelete (id : Text) : Bool × RootfsTables :=
  match tables.lookup id with
  | none => (true, tables)
  | some _ => tables.deleteRootfsFromStoreWithoutLock answers id

/-- A failed request leaves the layer store and the rootfs store as they were. -/
def FailsCleanly (store : RootfsStore) (containerId image : Option Text) : Prop :=
  let result := storageRootfsCreate answers layers images store.toRootfsTables containerId image
  result.1 = false → result.2 = (layers, store.toRootfsTables)

/-- The rootfs store takes a container of this id. -/
def RootfsTables.Accepts (id : Text) : Prop :=
  tables.byid.search id = none ∧ answers.getsTime = true ∧ tables.bylayer.search id = none ∧
    answers.savesRootfs = true

/-- A rootfs of another id has this container's layer, and nothing stops the request before the
layer is entered. -/
def RootfsTables.Blocked (id : Text) : Prop :=
  tables.byid.search id = none ∧ answers.getsTime = true ∧ tables.bylayer.search id ≠ none

/-- If the layer has been made or found and the rootfs store then refuses, the layer is a new one,
it can be unmounted, and the refusal is not over the layer. -/
def Undoable (store : RootfsStore) (containerId image : Option Text) : Prop :=
  ∀ id name, containerId = some id → image = some name → answers.locks = true →
    storageImgGetSummary answers images name ≠ none →
    ¬ store.Accepts answers id →
      layers.lookup id = none ∧ (answers.creation.makesLayer = true →
        answers.removal.umountLayer id = true ∧ ¬ store.Blocked answers id)

end

/-- Neither the layer nor a name is in use. -/
def RootfsTables.Free (names : List Text) (layer : Text) : Prop :=
  tables.bylayer.search layer = none ∧ ∀ name ∈ names, tables.byname.search name = none

section Tables

variable {answers : RootfsAnswers} {store : RootfsStore} {tables left : RootfsTables}
  {rootfs found : RootfsRecord} {id image layer : Text} {names : List Text}

/-- The record of a new container. -/
def containerRootfs (id image : Text) : RootfsRecord := ⟨id, [], image, id⟩

/-- The list with one more record. -/
def RootfsTables.enlist (tables : RootfsTables) (rootfs : RootfsRecord) : RootfsTables :=
  { tables with
    rootfsList := tables.rootfsList ++ [rootfs]
    rootfsListLen := tables.rootfsListLen + 1 }

/-- A record that has been entered is taken out again without a trace. -/
theorem unlist_enlist (absent : ∀ other ∈ tables.rootfsList, other.id ≠ rootfs.id) :
    (tables.enlist rootfs).unlist rootfs.id = tables := by
  have others : ∀ other ∈ tables.rootfsList, ¬ (other.id == rootfs.id) = true :=
    fun other member same => absent other member (by simpa using same)
  have listed :
      (tables.enlist rootfs).rootfsList.any (fun other => other.id == rootfs.id) = true := by
    simp [RootfsTables.enlist]
  rw [RootfsTables.unlist, if_pos listed, RootfsTables.enlist]
  rw [eraseP_append_right _ others, eraseP_cons_of_pos (by simp), append_nil,
    Nat.add_sub_cancel]

theorem RootfsStore.unlisted (store : RootfsStore) (unknown : store.byid.search id = none) :
    ∀ rootfs ∈ store.rootfsList, rootfs.id ≠ id := by
  rintro rootfs member rfl
  rw [store.indexed rootfs member] at unknown
  cases unknown

section

variable {byid bylayer byname : Index Text RootfsRecord}
  (ids : tables.byid.insert rootfs.id rootfs = some byid)
  (byLayers : tables.bylayer.insert rootfs.layer rootfs = some bylayer)
  (byNames : tables.byname.insertAll rootfs.names rootfs = some byname)
include ids byLayers byNames

/-- What has been entered in the maps is taken out of them again, whether or not its directory can
be removed; the first of its id leaves the list. -/
theorem deleteRootfsFromStoreWithoutLock_entered :
    (({ tables.enlist rootfs with byid, bylayer, byname } :
      RootfsTables).deleteRootfsFromStoreWithoutLock answers rootfs.id).2 =
    (tables.enlist rootfs).unlist rootfs.id := by
  have found : byid.search rootfs.id = some rootfs := by rw [search_insert ids, if_pos rfl]
  have known : ∀ {tables : RootfsTables}, tables.byid = byid →
      tables.lookup rootfs.id = some rootfs := by
    rintro tables rfl
    rw [RootfsTables.lookup, found, some_or, some_or]
  rw [RootfsTables.deleteRootfsFromStoreWithoutLock, known rfl]
  dsimp only
  rw [RootfsTables.removeRootfsFromMemory, known rfl]
  dsimp only
  rw [remove_of_insert ids, remove_of_insert byLayers]
  rw [removeEach_of_removeAll (removeAll_of_insertAll byNames)]
  rfl

/-- A record with a new id, layer and names is entered everywhere. -/
theorem appendContainerRootfs_eq :
    tables.appendContainerRootfs rootfs =
      (true, { tables.enlist rootfs with byid, bylayer, byname }) := by
  rw [RootfsTables.appendContainerRootfs]
  simp only [ids, byLayers, insertEach_eq_true_iff.mpr byNames]
  rfl

end

/-- What a refused record leaves behind: a length counted up and entries in the maps. -/
structure Leftover (before after : RootfsTables) : Prop where
  list : after.rootfsList = before.rootfsList
  counted : after.rootfsListLen = before.rootfsListLen + 1
  ids : ∀ {key found}, before.byid.search key = some found → after.byid.search key = some found
  layers : ∀ {key found}, before.bylayer.search key = some found →
    after.bylayer.search key = some found
  names : ∀ {key found}, before.byname.search key = some found →
    after.byname.search key = some found

theorem Leftover.ne {before after : RootfsTables} (leftover : Leftover before after) :
    after ≠ before := by
  rintro rfl
  have counted := leftover.counted
  omega

theorem search_insert_keeps {index after : Index Text RootfsRecord} {key other : Text}
    (inserted : index.insert key rootfs = some after) (present : index.search other = some found) :
    after.search other = some found := by
  rw [search_insert inserted, if_neg, present]
  rintro rfl
  rw [absent_of_insert inserted] at present
  cases present

/-- A record whose layer or a name of which is in use is refused, and not without a trace. -/
theorem appendContainerRootfs_refused (claimed : ¬ tables.Free rootfs.names rootfs.layer) :
    (tables.appendContainerRootfs rootfs).1 = false ∧
      Leftover tables (tables.appendContainerRootfs rootfs).2 := by
  rw [RootfsTables.appendContainerRootfs]
  cases ids : tables.byid.insert rootfs.id rootfs with
  | none => exact ⟨rfl, rfl, rfl, id, id, id⟩
  | some byid =>
    cases byLayers : tables.bylayer.insert rootfs.layer rootfs with
    | none => exact ⟨rfl, rfl, rfl, search_insert_keeps ids, id, id⟩
    | some bylayer =>
      have present : ¬ ∀ name ∈ rootfs.names, tables.byname.search name = none := fun absent =>
        claimed ⟨absent_of_insert byLayers, absent⟩
      have refused := @insertEach_of_present _ _ _ tables.byname rootfs _ present
      cases entered : tables.byname.insertEach rootfs.names rootfs with
      | mk all byname =>
        rw [entered] at refused
        cases refused
        refine ⟨rfl, rfl, rfl, search_insert_keeps ids, search_insert_keeps byLayers,
          fun present => ?_⟩
        have kept := @insertEach_keeps _ _ _ _ _ rootfs _ rootfs.names present
        rw [entered] at kept
        exact kept

/-- The record that a creation enters. -/
def createdRootfs (id : Text) (names : List Text) (image layer : Text) : RootfsRecord :=
  ⟨id, utilStringArrayUnique names, image, layer⟩

/-- The tables with a record entered everywhere. -/
structure Entered (before after : RootfsTables) (rootfs : RootfsRecord) : Prop where
  ids : before.byid.insert rootfs.id rootfs = some after.byid
  layers : before.bylayer.insert rootfs.layer rootfs = some after.bylayer
  names : before.byname.insertAll rootfs.names rootfs = some after.byname
  list : after.rootfsList = before.rootfsList ++ [rootfs]

section

variable (unknown : tables.byid.search id = none) (time : answers.getsTime = true)
include unknown time

/-- A creation over a layer or a name in use fails and leaves something behind. -/
theorem rootfsStoreCreate_claimed (claimed : ¬ tables.Free names layer) :
    (rootfsStoreCreate answers tables id names image layer).1 = false ∧
      Leftover tables (rootfsStoreCreate answers tables id names image layer).2 := by
  have refused := @appendContainerRootfs_refused tables (createdRootfs id names image layer)
    (by simpa [createdRootfs, RootfsTables.Free, mem_utilStringArrayUnique] using claimed)
  have made : (⟨id, utilStringArrayUnique names, image, layer⟩ : RootfsRecord) =
      createdRootfs id names image layer := rfl
  rw [rootfsStoreCreate, unknown, made]
  cases appended : tables.appendContainerRootfs (createdRootfs id names image layer) with
  | mk done after =>
    rw [appended] at refused
    obtain ⟨rfl, leftover⟩ := refused
    simp [time]
    exact leftover

/-- Otherwise it enters its record, and takes it out again when it cannot be saved. -/
theorem rootfsStoreCreate_free (free : tables.Free names layer) :
    ∃ after, Entered tables after (createdRootfs id names image layer) ∧
      rootfsStoreCreate answers tables id names image layer =
        if answers.savesRootfs then (true, after)
        else (false, (tables.enlist (createdRootfs id names image layer)).unlist id) := by
  have made : (⟨id, utilStringArrayUnique names, image, layer⟩ : RootfsRecord) =
      createdRootfs id names image layer := rfl
  obtain ⟨byid, ids⟩ : ∃ byid, tables.byid.insert (createdRootfs id names image layer).id
      (createdRootfs id names image layer) = some byid :=
    ⟨_, insert_of_absent unknown⟩
  obtain ⟨bylayer, byLayers⟩ : ∃ bylayer,
      tables.bylayer.insert (createdRootfs id names image layer).layer
        (createdRootfs id names image layer) = some bylayer :=
    ⟨_, insert_of_absent free.1⟩
  obtain ⟨byname, byNames⟩ := isSome_iff_exists.mp
    ((@insertAll_isSome_iff _ _ _ tables.byname (createdRootfs id names image layer) _
      (nodup_utilStringArrayUnique names)).mpr fun name member =>
        free.2 name (mem_utilStringArrayUnique.mp member))
  have appended := appendContainerRootfs_eq ids byLayers byNames
  have undone := @deleteRootfsFromStoreWithoutLock_entered answers _ _ _ _ _ ids byLayers byNames
  refine ⟨{ tables.enlist (createdRootfs id names image layer) with
    byid, bylayer, byname }, ⟨ids, byLayers, byNames, rfl⟩, ?_⟩
  rw [rootfsStoreCreate, unknown, made, appended, time]
  exact congrArg (fun undone => if answers.savesRootfs then (true, _) else (false, undone)) undone

end

/-- The id is known or the time is not, or it is one of the two. -/
theorem rootfsStoreCreate_outcome (answers : RootfsAnswers) (tables : RootfsTables) (id : Text)
    (names : List Text) (image layer : Text) :
    ((tables.byid.search id ≠ none ∨ answers.getsTime = false) ∧
        rootfsStoreCreate answers tables id names image layer = (false, tables)) ∨
      tables.byid.search id = none ∧ answers.getsTime = true ∧
        ((¬ tables.Free names layer ∧
          (rootfsStoreCreate answers tables id names image layer).1 = false ∧
          Leftover tables (rootfsStoreCreate answers tables id names image layer).2) ∨
        tables.Free names layer ∧ ∃ after,
          Entered tables after (createdRootfs id names image layer) ∧
          rootfsStoreCreate answers tables id names image layer =
            if answers.savesRootfs then (true, after)
            else (false, (tables.enlist (createdRootfs id names image layer)).unlist id)) := by
  cases unknown : tables.byid.search id with
  | some rootfs => exact .inl ⟨.inl nofun, by rw [rootfsStoreCreate, unknown]⟩
  | none =>
    cases time : answers.getsTime with
    | false => exact .inl ⟨.inr rfl, by rw [rootfsStoreCreate, unknown, time]; rfl⟩
    | true =>
      refine .inr ⟨rfl, rfl, ?_⟩
      by_cases free : tables.Free names layer
      · exact .inr ⟨free, rootfsStoreCreate_free unknown time free⟩
      · exact .inl ⟨free, rootfsStoreCreate_claimed unknown time free⟩

/-- The rootfs store takes the container or refuses it, and then is as before unless it refuses
over the layer. -/
theorem rootfsStoreCreate_cases (answers : RootfsAnswers) (store : RootfsStore) (id image : Text) :
    let created := rootfsStoreCreate answers store.toRootfsTables id [] image id
    (store.Accepts answers id ∧ created.1 = true) ∨
    (¬ store.Accepts answers id ∧ created.1 = false ∧
      (created.2 = store.toRootfsTables ↔ ¬ store.Blocked answers id)) := by
  intro created
  rcases rootfsStoreCreate_outcome answers store.toRootfsTables id [] image id with
    ⟨stopped, idle⟩ | ⟨unknown, time, ⟨claimed, refused, leftover⟩ | ⟨free, after, -, outcome⟩⟩
  · rw [show created = _ from idle]
    rcases stopped with known | untimed
    · exact .inr ⟨fun accepts => known accepts.1, rfl, by simp [RootfsTables.Blocked, known]⟩
    · exact .inr ⟨by simp [RootfsTables.Accepts, untimed], rfl,
        by simp [RootfsTables.Blocked, untimed]⟩
  · refine .inr ⟨fun accepts => claimed ⟨accepts.2.2.1, by simp⟩, refused,
      fun same => absurd same leftover.ne, fun clear => absurd ⟨unknown, time, ?_⟩ clear⟩
    exact fun free => claimed ⟨free, by simp⟩
  · rw [createdRootfs, unlist_enlist (store.unlisted unknown)] at outcome
    cases saves : answers.savesRootfs with
    | true => exact .inl ⟨⟨unknown, time, free.1, saves⟩, by simp [created, outcome, saves]⟩
    | false =>
      refine .inr ⟨fun accepts => ?_, ?_⟩
      · exact Bool.false_ne_true (saves.symm.trans accepts.2.2.2)
      · simp [created, outcome, saves, RootfsTables.Blocked, free.1]

end Tables

section Layers

variable {creation : Creation} {removal : Removal} {layers : LayerStore} {id : Text}
  {opts : LayerCreateOpts} {layer : Layer}

theorem LayerStore.lookup_eq_none_iff :
    LayerStore.lookup layers id = none ↔
      ∀ layer ∈ layers.entries, layer.id ≠ id ∧ id ∉ layer.names := by
  rw [LayerStore.lookup, or_eq_none_iff, find_eq_none_iff, List.find?_eq_none]
  constructor
  · rintro ⟨noId, noName⟩ layer member
    exact ⟨fun same => noId ⟨layer, member, same⟩, by simpa using noName layer member⟩
  · intro absent
    refine ⟨?_, fun layer member => by simpa using (absent layer member).2⟩
    rintro ⟨layer, member, same⟩
    exact (absent layer member).1 same

/-- A layer with one more holder. -/
def Layer.hold (layer : Layer) : Layer := { layer with holdRefsNum := layer.holdRefsNum + 1 }

theorem Layer.hold_id (layer : Layer) : layer.hold.id = layer.id := rfl

/-- The store with one more holder of a layer. -/
def LayerStore.hold (layers : LayerStore) (layerId : Text) : LayerStore :=
  layers.modify layerId Layer.hold Layer.hold_id

theorem LayerStore.hold_ne (member : layer ∈ layers.entries) : layers.hold layer.id ≠ layers := by
  intro same
  have held : (layers.hold layer.id).find layer.id = some layer.hold := by
    rw [LayerStore.hold, find_modify, if_pos rfl, find_of_mem member]
    rfl
  rw [same, find_of_mem member] at held
  have counts : layer.holdRefsNum = layer.holdRefsNum + 1 :=
    congrArg Layer.holdRefsNum (some.inj held)
  omega

theorem layerStoreCreate_unknown (unknown : LayerStore.lookup layers id = none) :
    layerStoreCreate creation layers id opts =
      if creation.makesLayer then
        (true, layers.insert (newLayer id opts) (find_of_lookup unknown))
      else (false, layers) := by
  unfold layerStoreCreate
  split
  next other known =>
    rw [unknown] at known
    cases known
  · rfl

section

variable (found : LayerStore.lookup layers id = some layer)
include found

theorem LayerStore.lookup_hold (layerId : Text) :
    LayerStore.lookup (layers.hold layerId) id ≠ none := by
  intro absent
  have missing : LayerStore.lookup layers id = none := by
    refine lookup_eq_none_iff.mpr fun other member => ?_
    have changed := lookup_eq_none_iff.mp absent _ (mem_map_of_mem member)
    split at changed <;> exact changed
  rw [found] at missing
  cases missing

theorem layerStoreCreate_known :
    layerStoreCreate creation layers id opts = (true, layers.hold layer.id) := by
  unfold layerStoreCreate
  split
  next other known =>
    cases found.symm.trans known
    rfl
  next unknown =>
    rw [found] at unknown
    cases unknown

/-- The layer that a container shares with another is held once too often or gone. -/
theorem layerStoreDelete_hold :
    (layerStoreDelete removal (layers.hold layer.id) id).2 ≠ layers := by
  have member := mem_of_lookup found
  unfold layerStoreDelete doDeleteLayer
  split
  · exact hold_ne member
  rename_i other known
  -- A store with a layer less differs by its length.
  have shorter : LayerStore.removeMemoryStores (layers.hold layer.id) other.id ≠ layers := by
    intro same
    have less := length_remove (mem_of_lookup known)
    have length : (layers.hold layer.id).entries.length = layers.entries.length :=
      length_map _
    rw [LayerStore.removeMemoryStores] at same
    rw [same, length] at less
    omega
  split
  · split <;> exact shorter
  · exact hold_ne member

end

/-- A new layer is deleted again exactly if it can be unmounted. -/
theorem layerStoreDelete_insert (absent : layers.find (newLayer id opts).id = none) :
    (layerStoreDelete removal (layers.insert (newLayer id opts) absent) id).2 = layers ↔
      removal.umountLayer id = true := by
  have known : LayerStore.lookup (layers.insert (newLayer id opts) absent) id =
      some (newLayer id opts) := by
    rw [LayerStore.lookup, find_insert]
    exact congrArg (Option.or · _) (if_pos rfl)
  rw [layerStoreDelete, doDeleteLayer, known]
  dsimp only
  rw [show umountHelper removal (newLayer id opts) = removal.umountLayer id from rfl]
  have undone : .removeMemoryStores (layers.insert (newLayer id opts) absent)
      (newLayer id opts).id = layers := remove_insert absent
  cases removal.umountLayer id with
  | true =>
    rw [if_pos rfl]
    refine ⟨fun _ => rfl, fun _ => ?_⟩
    split <;> exact undone
  | false =>
    refine ⟨fun same => ?_, by simp⟩
    have length := congrArg (fun store : LayerStore => store.entries.length) same
    have longer : (layers.entries ++ [newLayer id opts]).length = layers.entries.length := length
    rw [length_append, length_singleton] at longer
    omega

end Layers

section Request

variable {answers : RootfsAnswers} {layers : LayerStore} {images : ImageStore} {store : RootfsStore}
  {id name : Text} {summary : ImageSummary}

/-- The part of `storage_rootfs_create` after the image is known. -/
theorem failsCleanly_iff_of_summary (locked : answers.locks = true)
    (known : storageImgGetSummary answers images name = some summary) :
    FailsCleanly answers layers images store (some id) (some name) ↔
      (¬ store.Accepts answers id → layers.lookup id = none ∧ (answers.creation.makesLayer = true →
        answers.removal.umountLayer id = true ∧ ¬ store.Blocked answers id)) := by
  rw [FailsCleanly, storageRootfsCreate, if_pos locked, known]
  dsimp only
  have rootfs := rootfsStoreCreate_cases answers store id summary.id
  generalize rootfsStoreCreate answers store.toRootfsTables id [] summary.id id = created at rootfs
  obtain ⟨accepted, tables⟩ := created
  cases found : layers.lookup id with
  | some layer =>
    rw [layerStoreCreate_known found]
    rcases rootfs with ⟨accepts, rfl⟩ | ⟨refuses, rfl, -⟩
    · refine ⟨fun _ refuses => absurd accepts refuses, fun _ failed => ?_⟩
      dsimp only at failed
      split at failed
      next missing => exact absurd missing (lookup_hold found _)
      · cases failed
    · refine ⟨fun clean => ?_, fun undoable => absurd (undoable refuses).1 nofun⟩
      exact absurd (congrArg Prod.fst (clean rfl)) (layerStoreDelete_hold found)
  | none =>
    rw [layerStoreCreate_unknown found]
    cases makes : answers.creation.makesLayer with
    | false => exact ⟨fun _ _ => ⟨rfl, nofun⟩, fun _ _ => rfl⟩
    | true =>
      rw [if_pos rfl]
      rcases rootfs with ⟨accepts, rfl⟩ | ⟨refuses, rfl, unchanged⟩
      · refine ⟨fun _ refuses => absurd accepts refuses, fun _ failed => ?_⟩
        dsimp only at failed
        split at failed
        next missing =>
          have here := (lookup_eq_none_iff.mp missing _
            (mem_append_right _ (mem_singleton_self _))).1
          exact absurd rfl here
        · cases failed
      · rw [← layerStoreDelete_insert (find_of_lookup found), ← unchanged]
        refine ⟨fun clean _ => ⟨rfl, fun _ => ?_⟩, fun undoable _ => ?_⟩
        · exact Prod.mk.inj (clean rfl)
        · obtain ⟨layersBack, tablesBack⟩ := (undoable refuses).2 rfl
          exact Prod.ext layersBack tablesBack

/-- A failure leaves both stores as they were exactly if whatever has been done before it can be
undone. -/
theorem failsCleanly_iff (answers : RootfsAnswers) (layers : LayerStore) (images : ImageStore)
    (store : RootfsStore) (containerId image : Option Text) :
    FailsCleanly answers layers images store containerId image ↔
      Undoable answers layers images store containerId image := by
  rcases containerId with _ | id
  · exact ⟨fun _ _ _ => nofun, fun _ _ => rfl⟩
  rcases image with _ | name
  · exact ⟨fun _ _ _ _ => nofun, fun _ _ => rfl⟩
  by_cases locked : answers.locks = true
  · cases known : storageImgGetSummary answers images name with
    | none =>
      refine ⟨fun _ _ other _ same _ exists_ => ?_, fun _ _ => ?_⟩
      · cases same
        exact absurd known exists_
      · rw [storageRootfsCreate, if_pos locked, known]
    | some summary =>
      rw [failsCleanly_iff_of_summary locked known]
      constructor
      · intro undoable other _ same sameName _ _
        cases same
        exact undoable
      · intro undoable
        refine undoable id name rfl rfl locked ?_
        rw [known]
        exact some_ne_none _
  · refine ⟨fun _ _ _ _ _ locks => absurd locks locked, fun _ _ => ?_⟩
    rw [storageRootfsCreate, if_neg locked]

/-- Nothing outside refuses, and every name is a name as it stands. -/
def RootfsAnswers.willing : RootfsAnswers where
  locks := true
  utilValidShortSha256Id _ := false
  ociNormalizeImageName := some
  creation := ⟨true, true⟩
  getsTime := true
  savesRootfs := true
  removesRootfsDir := true
  removal := .willing

/-- The layer of the container `c`. -/
def containerLayers : LayerStore where
  entries := [newLayer ['c'] ⟨some ['t'], none, none⟩]
  apart := nodup_singleton _

def baseImages : ImageStore where
  entries := [{ id := ['i'], names := [['n']], topLayer := ['t'], user := none }]
  apart := nodup_singleton _

/-- The rootfs of the container `c`. -/
def containerStore : RootfsStore where
  rootfsList := [containerRootfs ['c'] ['i']]
  rootfsListLen := 1
  byid := ⟨[(['c'], containerRootfs ['c'] ['i'])], nodup_singleton _⟩
  bylayer := ⟨[(['c'], containerRootfs ['c'] ['i'])], nodup_singleton _⟩
  byname := .empty
  apart := nodup_singleton _
  indexed := by decide

/-- The id of an existing container: the request fails and the container's layer is gone. -/
theorem failsCleanly_fails_existing :
    ¬ FailsCleanly .willing containerLayers baseImages containerStore (some ['c'])
      (some ['n']) := by
  intro clean
  have layersBack := congrArg Prod.fst (clean (by decide))
  exact absurd (congrArg Keyed.entries layersBack) (by decide)

end Request

section New

variable {answers : RootfsAnswers} {layers after : LayerStore} {images : ImageStore}
  {tables left : RootfsTables} {id : Text} {image : Option Text}

variable (unknown : LayerStore.lookup layers id = none)
include unknown

variable (willing : answers.removal = .willing)
include willing

end New

/-- `struct id_map`, and the elements of the maps in `storage_rootfs`. -/
structure IdMap where
  containerId : Int
  hostId : Int
  size : Int
  deriving DecidableEq

/-- The maps of `id_mapping_opts`. -/
structure IdMappingOpts where
  uidMap : List IdMap
  gidMap : List IdMap

/-- The maps of `storage_rootfs`, with the lengths it states. -/
structure RootfsIdMaps where
  uidmap : List IdMap
  uidmapLen : Nat
  gidmap : List IdMap
  gidmapLen : Nat
  deriving DecidableEq

/-- The copy that is asked for. -/
def IdMappingOpts.wanted (opts : IdMappingOpts) : RootfsIdMaps :=
  ⟨opts.uidMap, opts.uidMap.length, opts.gidMap, opts.gidMap.length⟩

/-- `MAX_MEMORY_SIZE`, the most that `util_common_calloc_s` asks for. -/
def maxMemorySize : Nat := 1 <<< 47

/-- What `copy_id_map` does with either map, while the memory it may ask for is there. -/
def copyMap : List IdMap → Option (List IdMap)
  | [] => some []
  | first :: rest =>
    let size := rest.length + 1
    if size ≥ (1 <<< 64 - 1) / 8 then none
    else if 8 * size > maxMemorySize then none
    -- Every turn of the loop reads the element at the start of the map.
    else some (replicate size first)

/-- `copy_id_map` on a rootfs. -/
def copyIdMap (c : RootfsIdMaps) : Option IdMappingOpts → Option RootfsIdMaps
  | none => some c
  | some opts => do
    let uidMap ← copyMap opts.uidMap
    let gidMap ← copyMap opts.gidMap
    return ⟨uidMap, gidMap.length, gidMap, gidMap.length⟩

theorem copyMap_eq_self_iff (map : List IdMap) :
    copyMap map = some map ↔
      8 * map.length ≤ maxMemorySize ∧ ∀ one ∈ map, ∀ other ∈ map, one = other := by
  cases map with
  | nil => simp [copyMap]
  | cons first rest =>
    have alike : replicate (rest.length + 1) first = first :: rest ↔
        ∀ one ∈ first :: rest, ∀ other ∈ first :: rest, one = other := by
      rw [eq_comm, eq_replicate_iff]
      refine ⟨fun ⟨_, firsts⟩ one member other member' => ?_,
        fun same => ⟨rfl, fun one member => ?_⟩⟩
      · rw [firsts one member, firsts other member']
      · exact same one member first mem_cons_self
    rw [copyMap, ← alike, length_cons]
    dsimp only [maxMemorySize]
    split_ifs with many much
    · simp
      omega
    · simp
    · simp

/-- A rootfs gets the maps that are asked for exactly when both are of one length that memory is
asked for, and neither has two different elements. -/
theorem copyIdMap_eq_wanted_iff (c : RootfsIdMaps) (opts : IdMappingOpts) :
    copyIdMap c (some opts) = some opts.wanted ↔
      opts.uidMap.length = opts.gidMap.length ∧ 8 * opts.uidMap.length ≤ maxMemorySize ∧
        (∀ one ∈ opts.uidMap, ∀ other ∈ opts.uidMap, one = other) ∧
        ∀ one ∈ opts.gidMap, ∀ other ∈ opts.gidMap, one = other := by
  constructor
  · intro copied
    simp only [copyIdMap, bind_eq_bind, bind_eq_some_iff] at copied
    obtain ⟨uidMap, uids, gidMap, gids, same⟩ := copied
    obtain ⟨rfl, lengths, rfl, -⟩ := RootfsIdMaps.mk.inj (some.inj same)
    obtain ⟨fits, uidsAlike⟩ := (copyMap_eq_self_iff _).mp uids
    exact ⟨lengths.symm, fits, uidsAlike, ((copyMap_eq_self_iff _).mp gids).2⟩
  · rintro ⟨same, fits, uidsAlike, gidsAlike⟩
    rw [copyIdMap, (copyMap_eq_self_iff _).mpr ⟨fits, uidsAlike⟩,
      (copyMap_eq_self_iff _).mpr ⟨same ▸ fits, gidsAlike⟩, IdMappingOpts.wanted, same]
    rfl

def twoUids : IdMappingOpts :=
  ⟨[⟨0, 100000, 1000⟩, ⟨1000, 200000, 1⟩], [⟨0, 100000, 1000⟩]⟩

/-- The second of two uid mappings is lost, and beside one gid mapping they count as one. -/
theorem copyIdMap_fails_second :
    copyIdMap ⟨[], 0, [], 0⟩ (some twoUids) =
        some ⟨[⟨0, 100000, 1000⟩, ⟨0, 100000, 1000⟩], 1, [⟨0, 100000, 1000⟩], 1⟩ ∧
      copyIdMap ⟨[], 0, [], 0⟩ (some twoUids) ≠ some twoUids.wanted := by
  decide

end Isulad.Storage
