import Isulad.Registry.Descriptor

/-!
# Pulling an image

`registry_pull` of `registry.c` from its call to its return. The threads of a pull are put in
one order: the config may be parsed before or after the search for stored layers looks at a
layer, and the layers are registered when the search has ended. What the registry sends, what
the file system answers and when the pull is cancelled is a parameter.
-/

namespace Isulad.Registry

open Isulad.Std Isulad.Storage

/-- What `parse_manifest` makes of a manifest. -/
structure PullManifest where
  /-- `is_manifest_schemav1`. -/
  schemaV1 : Bool
  /-- The digest of the config, which schema 1 does not have. -/
  configDigest : Option Text
  layers : List ManifestLayer

/-- How everything outside the stores answers during a pull. -/
structure PullAnswers where
  /-- The manifest, when the descriptor is prepared and the manifest fetched and parsed. -/
  manifest : Option PullManifest
  /-- The thread for the config is started. -/
  startsConfig : Bool
  /-- The diff ids of the config, when it is fetched and read. -/
  config : Option (List Text)
  /-- The config has been parsed when `fetch_all` looks at the layer. -/
  configSeen : Nat → Bool
  /-- `add_fetch_task` succeeds. -/
  addsFetchTask : Nat → Bool
  /-- The thread that registers the layers is started. -/
  startsRegister : Bool
  blobpath : Text
  /-- The pull is cancelled before the layer is registered, because its download or another one
  has failed. -/
  cancelled : Nat → Bool
  /-- The diff id that the download of a layer leaves. -/
  diffid : Nat → Option Text
  /-- `get_cached_layer` finds the download. -/
  cached : Nat → Bool
  creation : Nat → Creation
  /-- The pull has been cancelled when all layers are registered. -/
  cancelledLate : Bool
  /-- The digest of the config that `create_config_from_v1config` writes. -/
  v1Config : Option Text
  /-- `check_time_valid` accepts the config. -/
  timesValid : Bool
  /-- `save_image` of the new image succeeds. -/
  savesImage : Bool
  /-- The user that `new_image` reads from an old config in the image's directory. -/
  staleUser : Option Text
  /-- `save_image` of the image that loses the name succeeds. -/
  savesOther : Bool
  /-- `save_image` of the image that gets the name succeeds. -/
  savesName : Bool
  /-- `try_fill_image_spec` can read the stored config. -/
  configRead : Bool
  /-- `config.user` of the config. -/
  user : Option Text
  configStored : Bool
  manifestStored : Bool
  loadedTimeSet : Bool
  imageSizeSet : Bool
  removal : Removal

variable (answers : PullAnswers) (sha256 : Text → Text) (destImageName : Text)

/-- One turn of the loop of `fetch_all` over the layers. -/
def fetchLayer (schemaV1 : Bool) (i : Nat) (blob : LayerBlob) (scan : FetchScan) :
    Bool × LayerBlob × FetchScan :=
  if blob.emptyLayer then (true, blob, scan)
  else
    match reuseStored i (storageLayersGetByCompressDigest scan.store blob.digest) scan with
    | (some layer, scan) =>
      let blob := markExisting schemaV1 layer blob
      (true, blob, { scan with parentChainId := blob.chainId })
    | (none, scan) => (answers.addsFetchTask i, blob, { scan with parentChainId := none })

/-- The loop of `fetch_all` over the layers. -/
def fetchLayers (answers : PullAnswers) (schemaV1 : Bool) :
    Nat → List LayerBlob → FetchScan → Bool × List LayerBlob × FetchScan
  | _, [], scan => (true, [], scan)
  | i, blob :: blobs, scan =>
    match fetchLayer answers schemaV1 i blob scan with
    | (false, blob, scan) => (false, blob :: blobs, scan)
    | (true, blob, scan) =>
      let rest := fetchLayers answers schemaV1 (i + 1) blobs scan
      (rest.1, blob :: rest.2.1, rest.2.2)

/-- What the download of a layer leaves, if the layer is downloaded. -/
def fetchInfo (i : Nat) (blob : LayerBlob) : ThreadFetchInfo where
  file := some ⟨answers.blobpath, i⟩
  use := !blob.emptyLayer && !blob.alreadyExist
  notified := true
  diffid := answers.diffid i

/-- `register_layers_in_thread`. -/
def registerLayersInThread (sha256 : Text → Text) (answers : PullAnswers) :
    Nat → List LayerBlob → Pulling → Bool × List LayerBlob × Pulling
  | _, [], desc => (true, [], desc)
  | i, blob :: blobs, desc =>
    if answers.cancelled i then (false, blob :: blobs, desc)
    else
      match setCachedInfoToDesc sha256 (fetchInfo answers i blob) blob desc with
      | none => (false, blob :: blobs, desc)
      | some (blob, desc) =>
        match registerLayer (answers.cached i) (answers.creation i) blob desc with
        | (false, blob, desc) => (false, blob :: blobs, desc)
        | (true, blob, desc) =>
          let rest := registerLayersInThread sha256 answers (i + 1) blobs desc
          (rest.1, blob :: rest.2.1, rest.2.2)

/-- What the thread for the config makes of the layers. Schema 1 has no config to fetch. -/
def fetchConfig (answers : PullAnswers) (schemaV1 : Bool) (blobs : List LayerBlob) :
    Bool × List LayerBlob :=
  if schemaV1 then (true, blobs)
  else
    match answers.config with
    | none => (false, blobs)
    | some diffIds => parseConfig sha256 diffIds blobs

/-- The layers of a manifest, before anything else is known. -/
def PullManifest.blobs (manifest : PullManifest) : List LayerBlob :=
  manifest.layers.map fun layer => { toManifestLayer := layer }

/-- The layers as the loop of `fetch_all` finds them. -/
def seenBlobs (answers : PullAnswers) (manifest : PullManifest) : List LayerBlob :=
  (manifest.blobs.zip (fetchConfig sha256 answers manifest.schemaV1 manifest.blobs).2).mapIdx
    fun i blob => if answers.configSeen i then blob.2 else blob.1

/-- `fetch_all`: whether it succeeds, the layers, and what is held. -/
def fetchAll (answers : PullAnswers) (manifest : PullManifest) (store : LayerStore) :
    Bool × List LayerBlob × Pulling :=
  if manifest.layers.isEmpty || !answers.startsConfig then
    (false, manifest.blobs, ⟨store, none, some [], none⟩)
  else
    match fetchLayers answers manifest.schemaV1 0 (seenBlobs sha256 answers manifest)
      ⟨store, none, none⟩ with
    | (false, blobs, scan) => (false, blobs, ⟨scan.store, scan.layerOfHoldRefs, some [], none⟩)
    | (true, blobs, scan) =>
      let desc := ⟨scan.store, scan.layerOfHoldRefs, some [], none⟩
      if !answers.startsRegister then (false, blobs, desc)
      else
        -- no layer is registered before the config is there
        match fetchConfig sha256 answers manifest.schemaV1 blobs with
        | (false, blobs) => (false, blobs, desc)
        | (true, blobs) =>
          let registered := registerLayersInThread sha256 answers 0 blobs desc
          (registered.1 && !answers.cancelledLate, registered.2)

/-- `reuse_image`: the name already belongs to the image with this config. -/
def reuseImage (images : ImageStore) (destImageName : Text) (configDigest : Option Text) : Bool :=
  match ImageStore.imageStoreGetImageSummary images destImageName with
  | none => false
  | some image => configDigest.bind utilWithoutSha256Prefix == some image.id

/-- `create_image` up to the name: whether an image of the id is used, and the images. -/
def chooseOrCreateImage (imageId topLayerId : Text) (images : ImageStore) :
    Option (Bool × ImageStore) :=
  match ImageStore.imageStoreCreate answers.savesImage answers.staleUser images imageId
    topLayerId with
  | some images => some (false, images)
  | none =>
    match ImageStore.imageStoreTopLayer images imageId with
    | none => none
    | some preTopLayer => if preTopLayer = topLayerId then some (true, images) else none

section

variable (blobs : List LayerBlob)

/-- `create_image`; besides the success, whether an image of the id is used. -/
def createImage (imageId : Text) (stores : Stores) : Bool × Bool × Stores :=
  -- `get_top_layer_index`
  match (blobs.filter fun blob => !blob.emptyLayer).getLast? with
  | none => (false, false, stores)
  | some top =>
    match top.chainId.bind utilWithoutSha256Prefix with
    | none => (false, false, stores)
    | some topLayerId =>
      match chooseOrCreateImage answers imageId topLayerId stores.images with
      | none => (false, false, stores)
      | some (reuse, images) =>
        match ImageStore.imageStoreAddName answers.savesOther answers.savesName images imageId
          destImageName with
        | (true, images) => (true, reuse, { stores with images := images })
        | (false, images) =>
          let stores := { stores with images := images }
          (false, reuse, if reuse then stores
            else (storageImgDelete answers.removal imageId stores).2)

/-- `register_image`; besides the success, `rollback_layers_on_failure`. -/
def registerImage (configDigest : Option Text) (stores : Stores) : Bool × Bool × Stores :=
  match configDigest.bind utilWithoutSha256Prefix with
  | none => (false, true, stores)
  | some imageId =>
    match createImage answers destImageName blobs imageId stores with
    | (false, _, stores) => (false, true, stores)
    | (true, true, stores) => (true, true, stores)
    | (true, false, stores) =>
      let images := if answers.configRead then
        ImageStore.tryFillImageSpec stores.images imageId answers.user else stores.images
      let stores := { stores with images := images }
      if answers.configStored && answers.manifestStored && answers.loadedTimeSet &&
        answers.imageSizeSet then (true, false, stores)
      else (false, false, (storageImgDelete answers.removal imageId stores).2)

/-- `try_rollback_layers`: the layers from the last registered one downwards are deleted. -/
def tryRollbackLayers (stores : Stores) : Stores :=
  match (blobs.filter (·.registered)).getLast? with
  | none => stores
  | some blob =>
    match blob.chainId.bind utilWithoutSha256Prefix with
    | none => stores
    | some id => (storageLayerChainDelete answers.removal id stores).2

end

/-- The hold that is left is given back. -/
def releaseHold (layerOfHoldRefs : Option Text) (store : LayerStore) : LayerStore :=
  match layerOfHoldRefs with
  | none => store
  | some id => (LayerStore.storageDecHoldRefs store id).getD store

/-- The rest of `registry_pull` after the layers. -/
def finishPull (manifest : PullManifest) (fetched : Bool × List LayerBlob × Pulling)
    (stores : Stores) : Bool × Stores :=
  let configDigest := if manifest.schemaV1 then answers.v1Config else manifest.configDigest
  let stores := { stores with layers := fetched.2.2.store }
  let registered := if fetched.1 && (!manifest.schemaV1 || answers.v1Config.isSome) &&
      answers.timesValid then
      registerImage answers destImageName fetched.2.1 configDigest stores
    else (false, true, stores)
  let stores := { registered.2.2 with
    layers := releaseHold fetched.2.2.layerOfHoldRefs registered.2.2.layers }
  if registered.1 || !registered.2.1 then (registered.1, stores)
  else (false, tryRollbackLayers answers fetched.2.1 stores)

/-- `registry_pull`. -/
def registryPull (answers : PullAnswers) (destImageName : Text) (stores : Stores) : Bool × Stores :=
  match answers.manifest with
  | none => (false, stores)
  | some manifest =>
    if reuseImage stores.images destImageName manifest.configDigest then (true, stores)
    else finishPull answers destImageName manifest (fetchAll sha256 answers manifest stores.layers)
      stores

end Isulad.Registry
