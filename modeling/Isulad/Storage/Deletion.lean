import Isulad.Std.Loop
import Isulad.Storage.ImageStore

/-!
# Deleting images and layer chains

`do_storage_img_delete` and `storage_layer_chain_delete` of `storage/storage.c`. Both end
in a walk from a top layer along the parents, which deletes layers until one of them is
still needed. What is needed is read from one listing of the images and one of the
layers, taken before the walk starts.
-/

namespace Isulad.Storage

open Option List Isulad.Std Keyed

/-- `storage_rootfs`. -/
structure Rootfs where
  id : Text
  image : Text
  layer : Text
  deriving DecidableEq, Repr

/-- The three stores behind `g_storage_rwlock`. -/
structure Stores where
  images : ImageStore
  layers : LayerStore
  rootfs : List Rootfs

/-- `is_top_layer_of_other_image`. The image's id is compared with the layer's, and the
deleted image's id is not looked at. -/
def isTopLayerOfOtherImage (_imgId : Text) (allImages : List ImageSummary)
    (layerId : Text) : Bool :=
  allImages.any fun image => image.topLayer == layerId && image.id != layerId

/-- `is_parent_layer_of_other_layer`. -/
def isParentLayerOfOtherLayer (layerId : Text) (lastDeletedLayerId : Option Text)
    (allLayers : List Layer) : Bool :=
  allLayers.any fun layer => layer.parent == some layerId && lastDeletedLayerId != some layer.id

/-- Where the walk of `do_delete_related_layers` stands. -/
structure RelatedLayer where
  store : LayerStore
  layerId : Text
  lastDeletedLayerId : Option Text

variable (removal : Removal) (imgId : Text)

/-- One turn of the loop of `do_delete_related_layers`. -/
def deleteRelatedLayer (allImages : List ImageSummary) (allLayers : List Layer)
    (walk : RelatedLayer) : LoopStep RelatedLayer (Bool × LayerStore) :=
  match LayerStore.layerGetHoldRefs walk.store walk.layerId with
  | none => .done (false, walk.store)
  | some refsNum =>
    if 0 < refsNum then .done (true, walk.store)
    else if isTopLayerOfOtherImage imgId allImages walk.layerId then .done (true, walk.store)
    else if isParentLayerOfOtherLayer walk.layerId walk.lastDeletedLayerId allLayers then
      .done (true, walk.store)
    else
      match LayerStore.layerStoreLookup walk.store walk.layerId with
      | none => .done (false, walk.store)
      | some layerInfo =>
        match layerStoreDelete removal walk.store walk.layerId with
        | (false, store) => .done (false, store)
        | (true, store) =>
          match layerInfo.parent with
          | none => .done (true, store)
          | some parent => .next ⟨store, parent, some walk.layerId⟩

section Turn

variable {removal : Removal} {imgId : Text} {allImages : List ImageSummary}
  {allLayers : List Layer} {walk : RelatedLayer}

/-- The checks a layer has passed when the walk deletes it. -/
structure Passes (imgId : Text) (allImages : List ImageSummary) (allLayers : List Layer)
    (walk : RelatedLayer) (layer : Layer) : Prop where
  mem : layer ∈ walk.store.entries
  id : layer.id = walk.layerId
  unheld : ¬ 0 < layer.holdRefsNum
  notTop : isTopLayerOfOtherImage imgId allImages walk.layerId = false
  notParent : isParentLayerOfOtherLayer walk.layerId walk.lastDeletedLayerId allLayers = false

/-- What is left of a turn once the checks are passed. -/
theorem deleteRelatedLayer_of_passes {layer : Layer}
    (passes : Passes imgId allImages allLayers walk layer) :
    deleteRelatedLayer removal imgId allImages allLayers walk =
      match layerStoreDelete removal walk.store layer.id with
      | (false, store) => .done (false, store)
      | (true, store) =>
        match layer.parent with
        | none => .done (true, store)
        | some parent => .next ⟨store, parent, some layer.id⟩ := by
  have refs : LayerStore.layerGetHoldRefs walk.store walk.layerId = some layer.holdRefsNum := by
    rw [← passes.id, LayerStore.layerGetHoldRefs, find_of_mem passes.mem, map_some]
  have info : LayerStore.layerStoreLookup walk.store walk.layerId = some layer := by
    rw [← passes.id, LayerStore.layerStoreLookup, LayerStore.lookup_of_mem passes.mem]
  rw [deleteRelatedLayer, refs, info, passes.notTop, passes.notParent]
  simp [passes.unheld, passes.id]

/-- What one turn can do: end with the store as it is, or pass the checks, remove the
layer and end or go on with its parent. -/
theorem deleteRelatedLayer_cases :
    (∃ ok, deleteRelatedLayer removal imgId allImages allLayers walk = .done (ok, walk.store)) ∨
    ∃ layer, Passes imgId allImages allLayers walk layer ∧
      ((∃ ok, deleteRelatedLayer removal imgId allImages allLayers walk =
          .done (ok, walk.store.remove layer.id)) ∨
       ∃ parent, layer.parent = some parent ∧
        deleteRelatedLayer removal imgId allImages allLayers walk =
          .next ⟨walk.store.remove layer.id, parent, some layer.id⟩) := by
  cases found : walk.store.find walk.layerId with
  | none =>
    left
    rw [deleteRelatedLayer, LayerStore.layerGetHoldRefs, found]
    exact ⟨false, rfl⟩
  | some layer =>
    obtain ⟨member, same⟩ := find_eq_some_iff.mp found
    by_cases passed : ¬ 0 < layer.holdRefsNum ∧
        isTopLayerOfOtherImage imgId allImages walk.layerId = false ∧
        isParentLayerOfOtherLayer walk.layerId walk.lastDeletedLayerId allLayers = false
    · have passes : Passes imgId allImages allLayers walk layer :=
        ⟨member, same, passed.1, passed.2.1, passed.2.2⟩
      rw [deleteRelatedLayer_of_passes passes]
      rcases layerStoreDelete_cases removal member with kept | removed
      · exact .inl ⟨false, by rw [kept]⟩
      refine .inr ⟨layer, passes, ?_⟩
      rw [← removed]
      rcases layerStoreDelete removal walk.store layer.id with ⟨_ | _, store⟩
      · exact .inl ⟨false, rfl⟩
      cases layer.parent with
      | none => exact .inl ⟨true, rfl⟩
      | some parent => exact .inr ⟨parent, rfl, rfl⟩
    · left
      refine ⟨true, ?_⟩
      rw [deleteRelatedLayer, LayerStore.layerGetHoldRefs, found]
      simp only [map_some]
      by_cases held : 0 < layer.holdRefsNum
      · rw [if_pos held]
      split
      · rfl
      · split
        · rfl
        · simp_all

end Turn

/-- The loop of `do_delete_related_layers`; every turn that goes on has removed a layer. -/
def relatedLayersLoop (allImages : List ImageSummary) (allLayers : List Layer) :
    Loop RelatedLayer (Bool × LayerStore) where
  step := deleteRelatedLayer removal imgId allImages allLayers
  rank walk := walk.store.entries.length
  lowers := by
    intro walk next taken
    rcases @deleteRelatedLayer_cases removal imgId allImages allLayers walk with
      ⟨ok, ends⟩ | ⟨layer, passes, ⟨ok, ends⟩ | ⟨parent, _, goesOn⟩⟩
    · rw [ends] at taken
      cases taken
    · rw [ends] at taken
      cases taken
    · rw [goesOn] at taken
      cases taken
      exact length_remove passes.mem

/-- What holds of the store at the end of the walk: every turn ends with the store as it is, or
removes a layer that has passed the checks and ends or goes on with its parent. -/
theorem relatedLayersLoop_induction {allImages : List ImageSummary} {allLayers : List Layer}
    {walk : RelatedLayer} (invariant : RelatedLayer → Prop) (post : LayerStore → Prop)
    (stays : ∀ walk, invariant walk → post walk.store)
    (removes : ∀ walk layer, invariant walk → Passes imgId allImages allLayers walk layer →
      post (walk.store.remove layer.id) ∧ ∀ parent, layer.parent = some parent →
        invariant ⟨walk.store.remove layer.id, parent, some layer.id⟩) (start : invariant walk) :
    post ((relatedLayersLoop removal imgId allImages allLayers).run walk).2 := by
  refine Loop.run_induction _ invariant (fun result : Bool × LayerStore => post result.2) ?_ ?_
    start
  · intro walk next holds taken
    rcases deleteRelatedLayer_cases with
      ⟨ok, ends⟩ | ⟨layer, passes, ⟨ok, ends⟩ | ⟨parent, link, goesOn⟩⟩
    · cases ends.symm.trans taken
    · cases ends.symm.trans taken
    · cases goesOn.symm.trans taken
      exact (removes walk layer holds passes).2 parent link
  · intro walk result holds taken
    rcases deleteRelatedLayer_cases with
      ⟨ok, ends⟩ | ⟨layer, passes, ⟨ok, ends⟩ | ⟨parent, _, goesOn⟩⟩
    · cases ends.symm.trans taken
      exact stays walk holds
    · cases ends.symm.trans taken
      exact (removes walk layer holds passes).1
    · cases goesOn.symm.trans taken

/-- `do_delete_related_layers`. -/
def doDeleteRelatedLayers (imgTopLayerId : Text) (allImages : List ImageSummary)
    (allLayers : List Layer) (store : LayerStore) : Bool × LayerStore :=
  (relatedLayersLoop removal imgId allImages allLayers).run ⟨store, imgTopLayerId, none⟩

/-- `delete_img_related_layers`. -/
def deleteImgRelatedLayers (imgTopLayerId : Text) (stores : Stores) : Bool × Stores :=
  let result := doDeleteRelatedLayers removal imgId imgTopLayerId
    (ImageStore.imageStoreGetAllImages stores.images) (LayerStore.layerStoreList stores.layers)
    stores.layers
  (result.1, { stores with layers := result.2 })

/-- `storage_layer_chain_delete`. -/
def storageLayerChainDelete (layerId : Text) (stores : Stores) : Bool × Stores :=
  deleteImgRelatedLayers removal [] layerId stores

/-- `check_image_occupancy_status`; `none` is the return value -1. -/
def checkImageOccupancyStatus (stores : Stores) (imgId : Text) : Option Bool :=
  (ImageStore.imageStoreLookup stores.images imgId).map fun imgLongId =>
    stores.rootfs.any fun rootfs => rootfs.image == imgLongId

/-- `storage_img_delete` with `do_storage_img_delete`. -/
def storageImgDelete (stores : Stores) : Bool × Stores :=
  if ImageStore.imageStoreExists stores.images imgId then
    match ImageStore.imageStoreGetImageSummary stores.images imgId with
    | none => (false, stores)
    | some imageInfo =>
      match checkImageOccupancyStatus stores imgId with
      | none => (false, stores)
      | some true => (false, stores)
      | some false =>
        match ImageStore.imageStoreDelete removal stores.images imageInfo.id with
        | (false, images) => (false, { stores with images })
        | (true, images) =>
          deleteImgRelatedLayers removal imageInfo.id imageInfo.topLayer { stores with images }
  else (true, stores)

section Walk

variable {layers left : LayerStore} {remaining : ImageStore} {top id imgId : Text}
  {walk : RelatedLayer} {last : Option Text} {layer : Layer}

/-- `child` has `parent` as its parent. -/
def Link (layers : LayerStore) (child parent : Text) : Prop :=
  ∃ layer ∈ layers.entries, layer.id = child ∧ layer.parent = some parent

/-- The image's config names no user before the colon, so the image has no summary and is
missing from every listing. -/
def Image.Unlisted (image : Image) : Prop := ∃ group, image.user = some (':' :: group)

/-- Nothing that the walk looks at needs the layer, which it reached from `last`. -/
structure Unneeded (layers : LayerStore) (remaining : ImageStore) (last : Option Text) (id : Text) :
    Prop where
  unheld : ∃ layer ∈ layers.entries, layer.id = id ∧ ¬ 0 < layer.holdRefsNum
  notTop : ∀ image ∈ remaining.entries, ¬ image.Unlisted → image.topLayer ≠ id
  notParent : ∀ {child}, Link layers child id → last = some child

/-- The walk from `top` comes to a layer, with the layer it deleted last. -/
inductive Walks (layers : LayerStore) (remaining : ImageStore) (top : Text) :
    Option Text → Text → Prop where
  | top : Walks layers remaining top none top
  | up {last id parent} (before : Walks layers remaining top last id)
      (unneeded : Unneeded layers remaining last id) (link : Link layers id parent) :
      Walks layers remaining top (some id) parent

/-- The walk from `top` gives a layer up. -/
def Discards (layers : LayerStore) (remaining : ImageStore) (top id : Text) : Prop :=
  ∃ last, Walks layers remaining top last id ∧ Unneeded layers remaining last id

/-- The checks of the walk, read on the listings, say that the layer is not needed. -/
theorem Passes.unneeded (apart : ∀ image ∈ remaining.entries, ¬ layers.Has image.id)
    (subset : ∀ layer ∈ walk.store.entries, layer ∈ layers.entries)
    (passes :
      Passes imgId (ImageStore.imageStoreGetAllImages remaining) layers.entries walk layer) :
    Unneeded layers remaining walk.lastDeletedLayerId walk.layerId where
  unheld := ⟨layer, subset layer passes.mem, passes.id, passes.unheld⟩
  notTop := by
    intro image member visible isTop
    obtain ⟨summary, made⟩ := ne_none_iff_exists'.mp
      (mt getImageSummary_eq_none_iff.mp visible)
    obtain ⟨sameId, sameTop⟩ := getImageSummary_eq_some made
    have checked := any_eq_false.mp passes.notTop summary
      (mem_filterMap.mpr ⟨image, member, made⟩)
    rw [sameId, sameTop, isTop] at checked
    -- The check compares the image's id with the layer's, and no image has a layer's id.
    have sameText : image.id = walk.layerId := by simpa using checked
    exact apart image member ⟨layer, subset layer passes.mem, passes.id.trans sameText.symm⟩
  notParent := by
    rintro _ ⟨child, member, rfl, linked⟩
    have checked := any_eq_false.mp passes.notParent child member
    simpa [linked] using checked

/-- And when it is not needed, the checks pass. -/
theorem Unneeded.passes (subset : ∀ layer ∈ walk.store.entries, layer ∈ layers.entries)
    (unneeded : Unneeded layers remaining walk.lastDeletedLayerId walk.layerId)
    (present : walk.store.Has walk.layerId) :
    ∃ layer, Passes imgId (ImageStore.imageStoreGetAllImages remaining) layers.entries
      walk layer := by
  obtain ⟨layer, member, same⟩ := present
  obtain ⟨other, memberOther, sameOther, unheld⟩ := unneeded.unheld
  have one : other = layer :=
    eq_of_key memberOther (subset layer member) (sameOther.trans same.symm)
  refine ⟨layer, member, same, one ▸ unheld, ?_, ?_⟩
  · refine any_eq_false.mpr fun summary listed => ?_
    obtain ⟨image, memberImage, made⟩ := mem_filterMap.mp listed
    have visible : ¬ image.Unlisted := fun hidden => by
      rw [getImageSummary_eq_none_iff.mpr hidden] at made
      cases made
    have otherTop := unneeded.notTop image memberImage visible
    rw [(getImageSummary_eq_some made).2]
    simp [otherTop]
  · refine any_eq_false.mpr fun child memberChild => ?_
    by_cases linked : child.parent = some walk.layerId
    · simp [linked, unneeded.notParent ⟨child, memberChild, rfl, linked⟩]
    · simp [linked]

/-- What is left of the layers: only discarded ones are missing, and no remaining layer
has lost its parent. -/
structure Pruned (layers : LayerStore) (remaining : ImageStore) (top : Text) (left : LayerStore) :
    Prop where
  subset : ∀ layer ∈ left.entries, layer ∈ layers.entries
  discarded : ∀ {id}, layers.Has id → ¬ left.Has id → Discards layers remaining top id
  closed : ∀ {child parent}, left.Has child → Link layers child parent → layers.Has parent →
    left.Has parent

theorem Pruned.refl : Pruned layers remaining top layers where
  subset _ member := member
  discarded present missing := absurd present missing
  closed _ _ present := present

/-- Giving up one more layer, whose last child is gone, keeps the parents. -/
theorem Pruned.remove (pruned : Pruned layers remaining top left)
    (walks : Walks layers remaining top last id) (unneeded : Unneeded layers remaining last id)
    (lastGone : ∀ {child}, last = some child → ¬ left.Has child) :
    Pruned layers remaining top (left.remove id) where
  subset layer member := pruned.subset layer (mem_remove.mp member).1
  discarded := by
    intro other present missing
    by_cases same : other = id
    · exact same ▸ ⟨last, walks, unneeded⟩
    · exact pruned.discarded present fun there => missing (has_remove.mpr ⟨there, same⟩)
  closed := by
    intro child parent remains link present
    have hasChild := (has_remove.mp remains).1
    refine has_remove.mpr ⟨pruned.closed hasChild link present, fun same => ?_⟩
    exact lastGone (unneeded.notParent (same ▸ link)) hasChild

/-- The invariant of the walk. -/
structure Pruning (layers : LayerStore) (remaining : ImageStore) (top : Text)
    (walk : RelatedLayer) : Prop where
  pruned : Pruned layers remaining top walk.store
  walks : Walks layers remaining top walk.lastDeletedLayerId walk.layerId
  lastGone : ∀ {last}, walk.lastDeletedLayerId = some last → ¬ walk.store.Has last

/-- Whatever the walk does and however it ends, the layers are pruned. -/
theorem doDeleteRelatedLayers_pruned (removal : Removal) (imgId : Text)
    (apart : ∀ image ∈ remaining.entries, ¬ layers.Has image.id) :
    Pruned layers remaining top (doDeleteRelatedLayers removal imgId top
      (ImageStore.imageStoreGetAllImages remaining) layers.entries layers).2 := by
  have begins : Pruning layers remaining top ⟨layers, top, none⟩ := by
    refine ⟨.refl, .top, ?_⟩
    rintro last ⟨⟩
  refine relatedLayersLoop_induction removal imgId (Pruning layers remaining top)
    (Pruned layers remaining top) (fun walk pruning => pruning.pruned) ?_ begins
  intro walk layer pruning passes
  have unneeded := passes.unneeded apart pruning.pruned.subset
  rw [passes.id]
  have pruned := pruning.pruned.remove pruning.walks unneeded pruning.lastGone
  refine ⟨pruned, fun parent link => ⟨pruned, ?_, ?_⟩⟩
  · exact .up pruning.walks unneeded
      ⟨layer, pruning.pruned.subset layer passes.mem, passes.id, link⟩
  · rintro _ ⟨⟩ gone
    exact (has_remove.mp gone).2 rfl

/-- What a turn of the walk leaves of the store. -/
theorem relatedLayersLoop_subset (removal : Removal) (imgId : Text) (allImages : List ImageSummary)
    (allLayers : List Layer) (walk : RelatedLayer) (gone : ¬ walk.store.Has id) :
    ¬ ((relatedLayersLoop removal imgId allImages allLayers).run walk).2.Has id := by
  refine relatedLayersLoop_induction removal imgId (fun walk => ¬ walk.store.Has id)
    (fun store => ¬ store.Has id) (fun walk gone => gone) (fun walk layer gone _ => ?_) gone
  have still : ¬ (walk.store.remove layer.id).Has id := fun there => gone (has_remove.mp there).1
  exact ⟨still, fun _ _ => still⟩

/-- A turn of the walk when nothing outside refuses. -/
theorem deleteRelatedLayer_willing {allImages : List ImageSummary} {allLayers : List Layer}
    (passes : Passes imgId allImages allLayers walk layer) :
    deleteRelatedLayer .willing imgId allImages allLayers walk =
      match layer.parent with
      | none => .done (true, walk.store.remove layer.id)
      | some parent => .next ⟨walk.store.remove layer.id, parent, some layer.id⟩ := by
  rw [deleteRelatedLayer_of_passes passes, layerStoreDelete_willing passes.mem]

/-- The walk has removed layers only below the one it stands at. -/
structure Descended (layers : LayerStore) (walk : RelatedLayer) : Prop where
  subset : ∀ layer ∈ walk.store.entries, layer ∈ layers.entries
  below : ∀ {other}, layers.Has other → ¬ walk.store.Has other →
    Relation.TransGen (Link layers) other walk.layerId

/-- The layer the walk stands at passes the checks if it is not needed. -/
theorem Descended.passes (descended : Descended layers walk) (imgId : Text)
    (acyclic : ∀ id, ¬ Relation.TransGen (Link layers) id id)
    (unneeded : Unneeded layers remaining walk.lastDeletedLayerId walk.layerId) :
    ∃ layer, Passes imgId (ImageStore.imageStoreGetAllImages remaining) layers.entries
      walk layer := by
  refine unneeded.passes descended.subset ?_
  obtain ⟨layer, member, same, _⟩ := unneeded.unheld
  by_contra missing
  exact acyclic _ (descended.below ⟨layer, member, same⟩ missing)

/-- When nothing outside refuses, the walk comes to every layer it can come to. -/
theorem Walks.reached (imgId : Text) (acyclic : ∀ id, ¬ Relation.TransGen (Link layers) id id)
    (walks : Walks layers remaining top last id) :
    ∃ store : LayerStore, Descended layers ⟨store, id, last⟩ ∧
      doDeleteRelatedLayers .willing imgId top (ImageStore.imageStoreGetAllImages remaining)
          layers.entries layers =
        (relatedLayersLoop .willing imgId (ImageStore.imageStoreGetAllImages remaining)
          layers.entries).run ⟨store, id, last⟩ := by
  induction walks with
  | top =>
    exact ⟨layers, ⟨fun _ member => member, fun present missing => absurd present missing⟩, rfl⟩
  | @up last id parent _ unneeded link ih =>
    obtain ⟨store, descended, same⟩ := ih
    obtain ⟨layer, passes⟩ := descended.passes imgId acyclic unneeded
    obtain ⟨other, memberOther, sameOther, linked⟩ := link
    have one : layer = other := eq_of_key (descended.subset layer passes.mem) memberOther
      (passes.id.trans sameOther.symm)
    have turn := deleteRelatedLayer_willing passes
    rw [one, linked, sameOther] at turn
    refine ⟨store.remove id, ⟨?_, ?_⟩, same.trans (Loop.run_next _ turn)⟩
    · exact fun layer member => descended.subset layer (mem_remove.mp member).1
    · intro below present missing
      have up : Link layers id parent := ⟨other, memberOther, sameOther, linked⟩
      by_cases here : below = id
      · rw [here]
        exact .single up
      · refine (descended.below present fun there => missing ?_).tail up
        exact has_remove.mpr ⟨there, here⟩

/-- When nothing outside refuses, every layer the walk gives up is gone. -/
theorem Discards.gone (imgId : Text) (acyclic : ∀ id, ¬ Relation.TransGen (Link layers) id id)
    (discards : Discards layers remaining top id) :
    ¬ (doDeleteRelatedLayers .willing imgId top (ImageStore.imageStoreGetAllImages remaining)
      layers.entries layers).2.Has id := by
  obtain ⟨last, walks, unneeded⟩ := discards
  obtain ⟨store, descended, same⟩ := walks.reached imgId acyclic
  obtain ⟨layer, passes⟩ := descended.passes imgId acyclic unneeded
  have turn := deleteRelatedLayer_willing passes
  have removed : ¬ (store.remove layer.id).Has id := fun there =>
    (has_remove.mp there).2 passes.id.symm
  rw [same]
  cases linked : layer.parent with
  | none =>
    rw [linked] at turn
    rw [Loop.run_done _ turn]
    exact removed
  | some parent =>
    rw [linked] at turn
    rw [Loop.run_next _ turn]
    exact relatedLayersLoop_subset _ _ _ _ _ removed

end Walk

variable {before stores after : Stores} {top imgId id : Text}

namespace Stores

/-- The parent links are complete and acyclic, images and rootfs refer to the layers, and
no image has the id of a layer. -/
structure WellFormed (stores : Stores) : Prop where
  complete : ∀ {child parent}, Link stores.layers child parent → stores.layers.Has parent
  acyclic : ∀ id, ¬ Relation.TransGen (Link stores.layers) id id
  topLayers : ∀ image ∈ stores.images.entries, stores.layers.Has image.topLayer
  rootfsLayers : ∀ rootfs ∈ stores.rootfs, stores.layers.Has rootfs.layer
  idsApart : ∀ image ∈ stores.images.entries, ¬ stores.layers.Has image.id

/-- Some container's root file system was made from the image. -/
def Uses (stores : Stores) (image : Image) : Prop :=
  ∃ rootfs ∈ stores.rootfs, rootfs.image = image.id

/-- The layer and all its ancestors, as they were linked before, are in the store after. -/
def ChainIn (before after : Stores) (id : Text) : Prop :=
  ∀ ancestor, Relation.ReflTransGen (Link before.layers) id ancestor → after.layers.Has ancestor

/-- Nothing that is still needed has been removed. -/
structure Safe (before after : Stores) : Prop where
  unheld : ∀ layer ∈ before.layers.entries, ¬ after.layers.Has layer.id → ¬ 0 < layer.holdRefsNum
  notTop : ∀ layer ∈ before.layers.entries, ¬ after.layers.Has layer.id →
    ∀ image ∈ after.images.entries, image.topLayer ≠ layer.id
  notParent : ∀ layer ∈ before.layers.entries, ¬ after.layers.Has layer.id →
    ∀ other ∈ after.layers.entries, other.parent ≠ some layer.id
  imageChains : ∀ image ∈ after.images.entries, ChainIn before after image.topLayer
  containerChains : ∀ rootfs ∈ after.rootfs, after.layers.Has rootfs.layer →
    ChainIn before after rootfs.layer
  usedImages : ∀ image ∈ before.images.entries, before.Uses image → image ∈ after.images.entries

end Stores

/-- A deletion that a client can ask for. -/
inductive Request where
  | image (imgId : Text)
  | layerChain (layerId : Text)

/-- Carry a request out. -/
def Request.perform : Request → Stores → Bool × Stores
  | .image imgId => storageImgDelete removal imgId
  | .layerChain layerId => storageLayerChainDelete removal layerId

/-- No remaining image that the listing misses has its top layer on the way of the walk. -/
def SparesUnlisted (layers : LayerStore) (remaining : ImageStore) (top : Text) : Prop :=
  ∀ image ∈ remaining.entries, image.Unlisted → ¬ Discards layers remaining top image.topLayer

/-- The request's walk, if it comes to one, spares the images the listing misses. -/
def Request.Spares (stores : Stores) : Request → Prop
  | .image imgId => ∀ image, ImageStore.lookup stores.images imgId = some image →
      ¬ image.Unlisted → ¬ stores.Uses image →
        SparesUnlisted stores.layers (stores.images.remove image.id) image.topLayer
  | .layerChain layerId => SparesUnlisted stores.layers stores.images layerId

/-- The image is removed from memory, and the walk starts from its top layer. -/
theorem storageImgDelete_of_unused {image : Image}
    (found : ImageStore.lookup stores.images imgId = some image) (listed : ¬ image.Unlisted)
    (unused : ¬ stores.Uses image) :
    storageImgDelete removal imgId stores =
      if removal.removeImageDir image.id then
        deleteImgRelatedLayers removal image.id image.topLayer
          { stores with images := stores.images.remove image.id }
      else (false, { stores with images := stores.images.remove image.id }) := by
  obtain ⟨summary, made⟩ := ne_none_iff_exists'.mp (mt getImageSummary_eq_none_iff.mp listed)
  obtain ⟨sameId, sameTop⟩ := getImageSummary_eq_some made
  have free : (stores.rootfs.any fun rootfs => rootfs.image == image.id) = false := by
    refine any_eq_false.mpr fun rootfs member => ?_
    simpa using fun same => unused ⟨rootfs, member, same⟩
  have deleted : ImageStore.imageStoreDelete removal stores.images summary.id =
      (removal.removeImageDir image.id, stores.images.remove image.id) := by
    rw [sameId, ImageStore.imageStoreDelete,
      ImageStore.lookup_of_mem (ImageStore.mem_of_lookup found)]
    rfl
  rw [storageImgDelete, ImageStore.imageStoreExists, ImageStore.imageStoreGetImageSummary,
    checkImageOccupancyStatus, ImageStore.imageStoreLookup, found]
  simp [made, free, deleted]
  cases removal.removeImageDir image.id
  · rfl
  · simp [sameId, sameTop]

/-- Otherwise nothing changes, and only the deletion of an unknown image succeeds. -/
theorem storageImgDelete_of_kept
    (kept : ∀ image, ImageStore.lookup stores.images imgId = some image → image.Unlisted ∨
      stores.Uses image) :
    storageImgDelete removal imgId stores =
      ((ImageStore.lookup stores.images imgId).isNone, stores) := by
  rw [storageImgDelete, ImageStore.imageStoreExists, ImageStore.imageStoreGetImageSummary,
    checkImageOccupancyStatus, ImageStore.imageStoreLookup]
  cases found : ImageStore.lookup stores.images imgId with
  | none => rfl
  | some image =>
    simp only [isSome_some, if_true, bind_some, map_some]
    rcases kept image found with unlisted | ⟨rootfs, member, same⟩
    · rw [getImageSummary_eq_none_iff.mpr unlisted]
      rfl
    · have busy : (stores.rootfs.any fun rootfs => rootfs.image == image.id) = true :=
        any_eq_true.mpr ⟨rootfs, member, by simpa using same⟩
      cases getImageSummary image with
      | none => rfl
      | some summary =>
        simp only [busy]
        rfl

section

variable (wellFormed : before.WellFormed)
include wellFormed

/-- A store from which no layer lost its parent holds the whole chain of each of its layers. -/
theorem Pruned.chainIn {remaining : ImageStore}
    (pruned : Pruned before.layers remaining top after.layers) (present : after.layers.Has id) :
    Stores.ChainIn before after id := by
  intro ancestor reaches
  induction reaches with
  | refl => exact present
  | tail _ link ih => exact pruned.closed ih link (wellFormed.complete link)

section

variable (images : ∀ image ∈ after.images.entries, image ∈ before.images.entries)
  (used : ∀ image ∈ before.images.entries, before.Uses image → image ∈ after.images.entries)
include images used

/-- A pruned store is safe for the remaining images, if none of them lost its top. -/
theorem Stores.WellFormed.safe_of_pruned
    (pruned : Pruned before.layers after.images top after.layers)
    (notTop : ∀ layer ∈ before.layers.entries, ¬ after.layers.Has layer.id →
      ∀ image ∈ after.images.entries, image.topLayer ≠ layer.id) : before.Safe after := by
  refine ⟨?_, notTop, ?_, ?_, fun _ _ present => pruned.chainIn wellFormed present, used⟩
  · intro layer member missing
    obtain ⟨_, _, unneeded⟩ := pruned.discarded (has_key member) missing
    obtain ⟨other, memberOther, same, unheld⟩ := unneeded.unheld
    exact eq_of_key memberOther member same ▸ unheld
  · intro layer member missing other memberOther linked
    exact missing (pruned.closed (has_key memberOther)
      ⟨other, pruned.subset other memberOther, rfl, linked⟩ (has_key member))
  · intro image member
    obtain ⟨layer, memberLayer, same⟩ := wellFormed.topLayers image (images image member)
    refine pruned.chainIn wellFormed ?_
    by_contra missing
    exact notTop layer memberLayer (same ▸ missing) image member same.symm

/-- A request that removes no layer is safe. -/
theorem Stores.WellFormed.safe_of_layers (layers : after.layers = before.layers) :
    before.Safe after := by
  have pruned : Pruned before.layers after.images [] after.layers := layers ▸ .refl
  refine wellFormed.safe_of_pruned images used pruned fun layer member gone => ?_
  exact absurd (layers ▸ has_key member) gone

/-- The walk leaves a safe store, if it took the top of no unlisted image. -/
theorem Stores.WellFormed.safe (pruned : Pruned before.layers after.images top after.layers)
    (spares : SparesUnlisted before.layers after.images top) : Stores.Safe before after := by
  refine wellFormed.safe_of_pruned images used pruned ?_
  intro layer member missing image memberImage isTop
  have discards := pruned.discarded (has_key member) missing
  by_cases unlisted : image.Unlisted
  · exact spares image memberImage unlisted (isTop ▸ discards)
  obtain ⟨_, _, unneeded⟩ := discards
  exact unneeded.notTop image memberImage unlisted isTop

end

/-- A layer chain's deletion is safe if it spares the unlisted images. -/
theorem deleteImgRelatedLayers_safe (imgId : Text)
    (images : ∀ image ∈ stores.images.entries, image ∈ before.images.entries)
    (used : ∀ image ∈ before.images.entries, before.Uses image → image ∈ stores.images.entries)
    (layers : stores.layers = before.layers)
    (spares : SparesUnlisted before.layers stores.images top) :
    before.Safe (deleteImgRelatedLayers removal imgId top stores).2 := by
  have pruned : Pruned before.layers stores.images top
      (deleteImgRelatedLayers removal imgId top stores).2.layers := by
    rw [deleteImgRelatedLayers, layers]
    exact doDeleteRelatedLayers_pruned removal imgId fun image member =>
      wellFormed.idsApart image (images image member)
  exact wellFormed.safe images used pruned spares

/-- When nothing outside refuses, a deletion that does not spare an unlisted image takes
its top layer. -/
theorem deleteImgRelatedLayers_spares (imgId : Text)
    (safe : before.Safe (deleteImgRelatedLayers .willing imgId top stores).2)
    (layers : stores.layers = before.layers) :
    SparesUnlisted before.layers stores.images top := by
  intro image member unlisted discards
  obtain ⟨layer, memberLayer, same⟩ : before.layers.Has image.topLayer := by
    obtain ⟨_, _, unneeded⟩ := discards
    obtain ⟨layer, memberLayer, same, _⟩ := unneeded.unheld
    exact ⟨layer, memberLayer, same⟩
  have gone := discards.gone imgId wellFormed.acyclic
  rw [← layers, ← same] at gone
  exact safe.notTop layer memberLayer gone image member same.symm

end

/-- A deletion is safe, however the graph driver and the file system answer, exactly when
its walk spares the images that the listing misses. -/
theorem perform_safe_iff (stores : Stores) (wellFormed : stores.WellFormed) (request : Request) :
    (∀ removal, stores.Safe (request.perform removal stores).2) ↔ request.Spares stores := by
  cases request with
  | layerChain layerId =>
    refine ⟨fun safe => deleteImgRelatedLayers_spares wellFormed [] (safe .willing) rfl, ?_⟩
    intro spares removal
    exact deleteImgRelatedLayers_safe removal wellFormed [] (fun _ member => member)
      (fun _ member _ => member) rfl spares
  | image imgId =>
    constructor
    · intro safe image found listed unused
      have deleted := safe .willing
      rw [Request.perform, storageImgDelete_of_unused _ found listed unused] at deleted
      exact deleteImgRelatedLayers_spares wellFormed image.id deleted rfl
    · intro spares removal
      rw [Request.perform]
      by_cases kept : ∀ image, ImageStore.lookup stores.images imgId = some image →
          image.Unlisted ∨ stores.Uses image
      · rw [storageImgDelete_of_kept removal kept]
        exact wellFormed.safe_of_layers (fun _ member => member) (fun _ member _ => member) rfl
      · push Not at kept
        obtain ⟨image, found, listed, unused⟩ := kept
        rw [storageImgDelete_of_unused removal found listed unused]
        have subset : ∀ other ∈ (stores.images.remove image.id).entries,
            other ∈ stores.images.entries := fun _ member => (mem_remove.mp member).1
        have used : ∀ other ∈ stores.images.entries, stores.Uses other →
            other ∈ (stores.images.remove image.id).entries := by
          rintro other member ⟨rootfs, memberRootfs, same⟩
          refine mem_remove.mpr ⟨member, fun sameId => ?_⟩
          exact unused ⟨rootfs, memberRootfs, same.trans sameId⟩
        split
        · exact deleteImgRelatedLayers_safe removal wellFormed image.id subset used rfl
            (spares image found listed unused)
        · exact wellFormed.safe_of_layers subset used rfl

theorem acyclic_of_rank {layers : LayerStore} (rank : Text → Nat)
    (lowers : ∀ {child parent}, Link layers child parent → rank parent < rank child) (id : Text) :
    ¬ Relation.TransGen (Link layers) id id := by
  have lower : ∀ {child ancestor}, Relation.TransGen (Link layers) child ancestor →
      rank ancestor < rank child := by
    intro child ancestor reaches
    induction reaches with
    | single link => exact lowers link
    | tail _ link ih => exact Nat.lt_trans (lowers link) ih
  exact fun cycle => Nat.lt_irrefl _ (lower cycle)

/-- Well-formedness as tests of the lists, with the length of an id as the rank. -/
theorem Stores.wellFormed_of_lists
    (parents : ∀ layer ∈ stores.layers.entries, ∀ parent ∈ layer.parent, parent ∈
      stores.layers.entries.map Layer.id ∧ parent.length < layer.id.length)
    (tops : ∀ image ∈ stores.images.entries, image.topLayer ∈ stores.layers.entries.map Layer.id ∧
      image.id ∉ stores.layers.entries.map Layer.id)
    (rootfsLayers : ∀ rootfs ∈ stores.rootfs, rootfs.layer ∈ stores.layers.entries.map Layer.id) :
    stores.WellFormed where
  complete := by
    rintro _ parent ⟨layer, member, rfl, linked⟩
    exact mem_map.mp (parents layer member parent linked).1
  acyclic := acyclic_of_rank List.length <| by
    rintro _ parent ⟨layer, member, rfl, linked⟩
    exact (parents layer member parent linked).2
  topLayers image member := mem_map.mp (tops image member).1
  rootfsLayers rootfs member := mem_map.mp (rootfsLayers rootfs member)
  idsApart image member present := (tops image member).2 (mem_map.mpr present)

/-- A layer that nobody holds. -/
def restingLayer (id : String) (parent : Option String) : Layer where
  id := id.toList
  parent := parent.map String.toList
  names := []
  diffDigest := none
  compressedDiffDigest := none
  smountPoint := none
  holdRefsNum := 0

/-- Two images on a common base layer, the second of them in use by a container. -/
def commonBase : Stores where
  images := ⟨[⟨"i".toList, ["one".toList], "0a".toList, none⟩,
    ⟨"j".toList, ["two".toList], "0b".toList, some "root:root".toList⟩], by decide⟩
  layers := ⟨[restingLayer "0" none, restingLayer "0a" (some "0"), restingLayer "0b" (some "0"),
    restingLayer "0bc" (some "0b")], by decide⟩
  rootfs := [⟨"c".toList, "j".toList, "0bc".toList⟩]

theorem commonBase_wellFormed : commonBase.WellFormed :=
  Stores.wellFormed_of_lists (by decide) (by decide) (by decide)

/-- Deleting the first image by its name takes its top layer and keeps the base. -/
theorem perform_safe_iff_commonBase :
    (∀ removal, commonBase.Safe ((Request.image "one".toList).perform removal commonBase).2) ∧
      ((Request.image "one".toList).perform .willing commonBase).2.layers.entries.map Layer.id =
        ["0".toList, "0b".toList, "0bc".toList] := by
  refine ⟨(perform_safe_iff commonBase commonBase_wellFormed _).mpr ?_, by decide +kernel⟩
  intro image found listed unused other member unlisted
  have named : ∀ image ∈ commonBase.images.entries, image.user.bind List.head? ≠ some ':' := by
    decide +kernel
  obtain ⟨group, colon⟩ := unlisted
  have started := named other (mem_remove.mp member).1
  rw [colon] at started
  exact absurd rfl started

/-- Two images with one top layer, the second with a group but no user. -/
def sharedTop : Stores where
  images := ⟨[⟨"i".toList, [], "0".toList, none⟩,
    ⟨"j".toList, [], "0".toList, some ":100".toList⟩], by decide⟩
  layers := ⟨[restingLayer "0" none], by decide⟩
  rootfs := []

/-- Deleting the first image removes the top layer of the second, which remains. -/
theorem perform_unsafe_sharedTop :
    sharedTop.WellFormed ∧
      ¬ sharedTop.Safe ((Request.image "i".toList).perform .willing sharedTop).2 := by
  refine ⟨Stores.wellFormed_of_lists (by decide) (by decide) (by decide), fun safe => ?_⟩
  refine safe.notTop (restingLayer "0" none) mem_cons_self ?_
    ⟨"j".toList, [], "0".toList, some ":100".toList⟩ (by decide +kernel) rfl
  rintro ⟨layer, member, _⟩
  cases member

end Isulad.Storage
