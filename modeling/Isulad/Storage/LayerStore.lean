import Isulad.Std.Keyed
import Isulad.Std.Tokens

/-!
# The layer store

`storage/layer_store/layer_store.c` in memory. The list of layers is the store; the
maps `by_id`, `by_name` and `by_compress_digest` index that list and are modelled as
searches of it. What the graph driver and the file system answer is a parameter: a
call asks each of them at most once about one layer, so a function of the layer's id
stands for every way they can answer.
-/

namespace Isulad.Storage

open Isulad.Std

/-- The characters of an id, a name or a digest. -/
abbrev Text := List Char

abbrev Address := Nat

/-- `layer_t` with its `storage_layer`. -/
structure Layer where
  id : Text
  parent : Option Text
  names : List Text
  /-- `diff_digest`, the digest of the uncompressed content. -/
  diffDigest : Option Text
  compressedDiffDigest : Option Text
  /-- `smount_point`, with its count. -/
  smountPoint : Option Nat
  holdRefsNum : Int
  deriving DecidableEq, Repr

/-- `g_metadata`: `by_id` admits one layer of an id. -/
abbrev LayerStore := Keyed Layer.id

namespace LayerStore

variable {store : LayerStore} {id : Text} {layer : Layer}

/-- `lookup`: by id, then by name. -/
def lookup (store : LayerStore) (id : Text) : Option Layer :=
  (store.find id).or (store.entries.find? fun layer => layer.names.contains id)

theorem lookup_of_mem (member : layer ∈ store.entries) : lookup store layer.id = some layer := by
  rw [lookup, Keyed.find_of_mem member, Option.some_or]

theorem mem_of_lookup {id : Text} (found : lookup store id = some layer) :
    layer ∈ store.entries := by
  rw [lookup, Option.or_eq_some_iff] at found
  rcases found with byId | ⟨-, byName⟩
  · exact (Keyed.find_eq_some_iff.mp byId).1
  · exact List.mem_of_find?_eq_some byName

section

variable (store : LayerStore)

/-- `layer_get_hold_refs`: searches `by_id` only. -/
def layerGetHoldRefs (id : Text) : Option Int :=
  (store.find id).map Layer.holdRefsNum

/-- `layer_set_hold_refs`: searches `by_id` only; `none` is the return value -1. -/
def layerSetHoldRefs (layerId : Text) (increase : Bool) : Option LayerStore :=
  match store.find layerId with
  | none => none
  | some _ =>
    some (store.modify layerId (fun layer =>
      { layer with
        holdRefsNum := if increase then layer.holdRefsNum + 1 else layer.holdRefsNum - 1 })
      fun _ => rfl)

/-- `storage_inc_hold_refs`. -/
def storageIncHoldRefs (layerId : Text) : Option LayerStore :=
  layerSetHoldRefs store layerId true

/-- `storage_dec_hold_refs`. -/
def storageDecHoldRefs (layerId : Text) : Option LayerStore :=
  layerSetHoldRefs store layerId false

/-- `layer_store_by_compress_digest`. -/
def layerStoreByCompressDigest (digest : Text) : List Layer :=
  store.entries.filter fun layer => layer.compressedDiffDigest == some digest

/-- `layer_store_list`. -/
def layerStoreList : List Layer := store.entries

/-- `layer_store_lookup`. -/
def layerStoreLookup (name : Text) : Option Layer := lookup store name

/-- `remove_memory_stores`: the list item of the id goes, with its index entries. -/
def removeMemoryStores (id : Text) : LayerStore := store.remove id

end

end LayerStore

/-- `storage_layer_create_opts_t` of a read-only layer. -/
structure LayerCreateOpts where
  parent : Option Text
  uncompressDigest : Option Text
  compressedDigest : Option Text

/-- How the file system and the graph driver answer while a layer is created. -/
structure Creation where
  /-- `layer_data_path` is given and can be opened. -/
  opensData : Bool
  /-- The driver, the unpacking and the saving of the new layer succeed. -/
  makesLayer : Bool

/-- The layer that `new_layer_by_opts` and `update_mount_point` set up, held once. -/
def newLayer (id : Text) (opts : LayerCreateOpts) : Layer where
  id := id
  parent := opts.parent
  names := []
  diffDigest := opts.uncompressDigest
  compressedDiffDigest := opts.compressedDigest
  smountPoint := some 0
  holdRefsNum := 1

variable {store : LayerStore} {layer : Layer} (removal : Removal)

theorem LayerStore.find_of_lookup {id : Text} (unknown : LayerStore.lookup store id = none) :
    store.find id = none :=
  (Option.or_eq_none_iff.mp unknown).1

/-- `layer_store_create`: a layer that exists is held once more, a new one is made and held.
A failure on the way removes what has been made. -/
def layerStoreCreate (creation : Creation) (store : LayerStore) (id : Text)
    (opts : LayerCreateOpts) : Bool × LayerStore :=
  match known : LayerStore.lookup store id with
  | some layer =>
    (true, store.modify layer.id (fun layer => { layer with holdRefsNum := layer.holdRefsNum + 1 })
      fun _ => rfl)
  | none =>
    if creation.makesLayer then
      (true, store.insert (newLayer id opts) (LayerStore.find_of_lookup known))
    else (false, store)

/-- `storage_layer_create` of a read-only layer; `true` is the return value 0. -/
def storageLayerCreate (creation : Creation) (store : LayerStore) (id : Text)
    (opts : LayerCreateOpts) : Bool × LayerStore :=
  if creation.opensData then layerStoreCreate creation store id opts else (false, store)

/-- No layer has a name: no caller of `layer_store_create` gives one. -/
def Unnamed (store : LayerStore) : Prop := ∀ layer ∈ store.entries, layer.names = []

theorem lookup_of_unnamed (unnamed : Unnamed store) (id : Text) :
    LayerStore.lookup store id = store.find id := by
  rw [LayerStore.lookup, List.find?_eq_none.mpr, Option.or_none]
  intro layer member
  rw [unnamed layer member]
  exact Bool.false_ne_true

/-- How the graph driver and the file system answer while layers and images are removed. -/
structure Removal where
  /-- `graphdriver_umount_layer` succeeds. -/
  umountLayer : Text → Bool
  /-- `graphdriver_rm_layer` succeeds. -/
  rmLayer : Text → Bool
  /-- `layer_store_remove_layer` removes the layer's directory. -/
  removeLayer : Text → Bool
  /-- `remove_image_dir` removes the image's directory. -/
  removeImageDir : Text → Bool

/-- Nothing outside refuses. -/
def Removal.willing : Removal where
  umountLayer _ := true
  rmLayer _ := true
  removeLayer _ := true
  removeImageDir _ := true

/-- `umount_helper` with `force`. -/
def umountHelper (layer : Layer) : Bool :=
  match layer.smountPoint with
  | none => true
  | some _ => removal.umountLayer layer.id

/-- `do_delete_layer`; `true` is the return value 0. -/
def doDeleteLayer (store : LayerStore) (id : Text) : Bool × LayerStore :=
  match LayerStore.lookup store id with
  | none => (true, store)
  | some layer =>
    if umountHelper removal layer then
      -- The memory is cleared first, so a failure below leaves the layer unknown.
      if removal.rmLayer layer.id then
        (removal.removeLayer layer.id, LayerStore.removeMemoryStores store layer.id)
      else (false, LayerStore.removeMemoryStores store layer.id)
    else (false, store)

/-- `layer_store_delete`. -/
def layerStoreDelete (removal : Removal) (store : LayerStore) (id : Text) : Bool × LayerStore :=
  doDeleteLayer removal store id

theorem layerStoreDelete_cases (member : layer ∈ store.entries) :
    layerStoreDelete removal store layer.id = (false, store) ∨
      (layerStoreDelete removal store layer.id).2 = store.remove layer.id := by
  rw [layerStoreDelete, doDeleteLayer, LayerStore.lookup_of_mem member]
  dsimp only
  split
  · right
    split <;> rfl
  · exact .inl rfl

/-- When nothing outside refuses, a known layer is removed. -/
theorem layerStoreDelete_willing (member : layer ∈ store.entries) :
    layerStoreDelete .willing store layer.id = (true, store.remove layer.id) := by
  have unmounts : umountHelper .willing layer = true := by
    unfold umountHelper
    split <;> rfl
  rw [layerStoreDelete, doDeleteLayer, LayerStore.lookup_of_mem member]
  dsimp only
  rw [if_pos unmounts]
  rfl

end Isulad.Storage
