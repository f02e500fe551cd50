import Isulad.Storage.Deletion

/-!
# The layers of a pull

What `registry.c` does with one `layer_blob` of a `pull_descriptor`: the ids that the config
gives it, the search for a stored layer that can be used in its place, the ids that are
computed after the download, and its registration.
-/

namespace Isulad.Registry

open Isulad.Std Isulad.Storage

/-- `SHA256_PREFIX`. -/
def sha256Lead : Text := "sha256:".toList

/-- `MAX_ID_BUF_LEN`. -/
def maxIdBufLen : Nat := 256

/-- `util_without_sha256_prefix`. -/
def utilWithoutSha256Prefix (digest : Text) : Option Text :=
  if sha256Lead.isPrefixOf digest then some (digest.drop sha256Lead.length) else none

variable (sha256 : Text → Text)

/-- `calc_chain_id`. -/
def calcChainId (parentChainId : Option Text) (diffId : Text) : Option Text :=
  parentChainId.bind fun parent =>
    if diffId.length ≤ sha256Lead.length then none
    else if parent.length = 0 then some diffId
    else if parent.length ≤ sha256Lead.length then none
    else
      let text := parent.drop sha256Lead.length ++ '+' :: diffId.drop sha256Lead.length
      if maxIdBufLen ≤ text.length then none else some (sha256Lead ++ sha256 text)

/-- The path of a downloaded file: its number in the directory of the pull. -/
structure BlobFile where
  blobpath : Text
  index : Nat
  deriving DecidableEq

/-- What a manifest says about a layer. -/
structure ManifestLayer where
  /-- `throwaway` of the history, in schema 1. -/
  emptyLayer : Bool
  /-- The digest of the blob. -/
  digest : Option Text

/-- `layer_blob` without the media type and the size. -/
structure LayerBlob extends ManifestLayer where
  diffId : Option Text := none
  chainId : Option Text := none
  file : Option BlobFile := none
  alreadyExist : Bool := false
  registered : Bool := false

/-- The fields of `thread_fetch_info` that the download of a layer leaves. -/
structure ThreadFetchInfo where
  file : Option BlobFile := none
  use : Bool := false
  notified : Bool := false
  diffid : Option Text := none

/-- The loop of `parse_docker_config` and `parse_oci_config` over the diff ids. Left out are the
writes of `desc->layers[i].diff_id` and `desc->layers[i].chain_id` for a diff id `i` at or behind
the end of the layers of the manifest; `parseConfigChecked` is the loop that stops at the first of
them, and agrees with this one when there is none (`parseConfigChecked_eq`). -/
def parseConfigIds (sha256 : Text → Text) : Text → List Text → List LayerBlob →
    Bool × List LayerBlob
  | _, [], blobs => (true, blobs)
  | parentChainId, diffId :: diffIds, [] =>
    match calcChainId sha256 (some parentChainId) diffId with
    | none => (false, [])
    | some chainId => parseConfigIds sha256 chainId diffIds []
  | parentChainId, diffId :: diffIds, blob :: blobs =>
    match calcChainId sha256 (some parentChainId) diffId with
    | none => (false, { blob with diffId := some diffId, chainId := none } :: blobs)
    | some chainId =>
      let rest := parseConfigIds sha256 chainId diffIds blobs
      (rest.1, { blob with diffId := some diffId, chainId := some chainId } :: rest.2)

/-- `parse_docker_config` and `parse_oci_config`: there has to be a diff id. -/
def parseConfig (diffIds : List Text) (blobs : List LayerBlob) : Bool × List LayerBlob :=
  if diffIds.isEmpty then (false, blobs) else parseConfigIds sha256 [] diffIds blobs

/-- Where the loop of `fetch_all` over the layers stands. -/
structure FetchScan where
  store : LayerStore
  /-- `desc->layer_of_hold_refs`. -/
  layerOfHoldRefs : Option Text
  /-- The variable `parent_chain_id`. -/
  parentChainId : Option Text

/-- A stored layer can be used for the layer with index `i`. -/
def reusable (i : Nat) (parentChainId : Option Text) (layer : Layer) : Bool :=
  match layer.parent with
  | none => i == 0
  | some parent =>
    match parentChainId.bind utilWithoutSha256Prefix with
    | none => false
    | some expected => parent == expected && layer.diffDigest != layer.compressedDiffDigest

/-- The loop of `fetch_all` over the stored layers of one digest: the layer that is used. -/
def reuseStored (i : Nat) : List Layer → FetchScan → Option Layer × FetchScan
  | [], scan => (none, scan)
  | layer :: layers, scan =>
    if reusable i scan.parentChainId layer then
      match LayerStore.storageIncHoldRefs scan.store layer.id with
      | none => reuseStored i layers scan
      | some store =>
        let scan := { scan with store := store, layerOfHoldRefs := some layer.id }
        match scan.parentChainId with
        | none => (some layer, scan)
        | some parent =>
          -- the hold is that of the layer's id, and this is the chain id
          match LayerStore.storageDecHoldRefs store parent with
          | none => reuseStored i layers scan
          | some store => (some layer, { scan with store := store })
    else reuseStored i layers scan

/-- What `fetch_all` notes about a layer that exists. With schema 1 there is no config to take
the ids from. -/
def markExisting (schemaV1 : Bool) (layer : Layer) (blob : LayerBlob) : LayerBlob :=
  if schemaV1 then
    { blob with
      alreadyExist := true, diffId := layer.diffDigest, chainId := some (sha256Lead ++ layer.id) }
  else { blob with alreadyExist := true }

/-- `storage_layers_get_by_compress_digest`. -/
def storageLayersGetByCompressDigest (store : LayerStore) (digest : Option Text) : List Layer :=
  digest.elim [] (LayerStore.layerStoreByCompressDigest store)

/-- The layer store, and the fields of `pull_descriptor` that change from layer to layer. -/
structure Pulling where
  store : LayerStore
  layerOfHoldRefs : Option Text
  parentChainId : Option Text
  parentLayerId : Option Text

/-- The first part of `set_cached_info_to_desc`: what the download has left is filled in. -/
def LayerBlob.fill (blob : LayerBlob) (info : ThreadFetchInfo) : LayerBlob :=
  if info.use then
    { blob with diffId := blob.diffId.or info.diffid, file := blob.file.or info.file }
  else blob

/-- `set_cached_info_to_desc`; `none` is the return value -1. -/
def setCachedInfoToDesc (info : ThreadFetchInfo) (blob : LayerBlob) (desc : Pulling) :
    Option (LayerBlob × Pulling) :=
  let blob := blob.fill info
  if blob.emptyLayer then some (blob, desc)
  else if blob.alreadyExist then some (blob, { desc with parentChainId := blob.chainId })
  else
    match blob.diffId with
    | none => none
    | some diffId =>
      match blob.chainId.or (calcChainId sha256 desc.parentChainId diffId) with
      | none => none
      | some chainId =>
        some ({ blob with chainId := some chainId }, { desc with parentChainId := some chainId })

theorem LayerBlob.fill_keeps (blob : LayerBlob) (info : ThreadFetchInfo) :
    (blob.fill info).toManifestLayer = blob.toManifestLayer ∧
      (blob.fill info).alreadyExist = blob.alreadyExist ∧
      (blob.fill info).registered = blob.registered ∧ (blob.fill info).chainId = blob.chainId := by
  unfold LayerBlob.fill
  cases info.use <;> exact ⟨rfl, rfl, rfl, rfl⟩

/-- The ids that are filled in concern no hold. -/
theorem setCachedInfoToDesc_keeps {sha256 : Text → Text} {info : ThreadFetchInfo}
    {blob next : LayerBlob} {desc last : Pulling}
    (set : setCachedInfoToDesc sha256 info blob desc = some (next, last)) :
    (next.toManifestLayer = blob.toManifestLayer ∧ next.alreadyExist = blob.alreadyExist ∧
      next.registered = blob.registered ∧
        (blob.alreadyExist = true → next.chainId = blob.chainId)) ∧
    last.store = desc.store ∧ last.layerOfHoldRefs = desc.layerOfHoldRefs ∧
      last.parentLayerId = desc.parentLayerId := by
  obtain ⟨layer, exist, registered, chain⟩ := blob.fill_keeps info
  unfold setCachedInfoToDesc at set
  generalize blob.fill info = filled at *
  dsimp only at set
  split at set
  · cases set
    exact ⟨⟨layer, exist, registered, fun _ => chain⟩, rfl, rfl, rfl⟩
  split at set
  · cases set
    exact ⟨⟨layer, exist, registered, fun _ => chain⟩, rfl, rfl, rfl⟩
  rename_i new
  split at set
  · cases set
  split at set
  · cases set
  cases set
  exact ⟨⟨layer, exist, registered, fun flag => absurd (exist.trans flag) new⟩, rfl, rfl, rfl⟩

/-- `register_layer`; `cached` says that the download is still listed. The repair of the lower
directories of a layer that exists changes nothing that is modelled. -/
def registerLayer (cached : Bool) (creation : Creation) (blob : LayerBlob) (desc : Pulling) :
    Bool × LayerBlob × Pulling :=
  if blob.emptyLayer then (true, blob, desc)
  else
    match blob.chainId.bind utilWithoutSha256Prefix with
    | none => (false, blob, desc)
    | some id =>
      if blob.alreadyExist then
        match LayerStore.layerStoreLookup desc.store id with
        | none => (false, blob, desc)
        | some _ => (true, blob, { desc with parentLayerId := some id })
      else if !cached then (false, blob, desc)
      else
        match storageLayerCreate creation desc.store id
          ⟨desc.parentLayerId, blob.diffId, blob.digest⟩ with
        | (false, store) => (false, blob, { desc with store := store })
        | (true, store) =>
          let blob := { blob with registered := true }
          let desc := { desc with store := store, layerOfHoldRefs := some id }
          match desc.parentLayerId with
          | none => (true, blob, { desc with parentLayerId := some id })
          | some parent =>
            match LayerStore.storageDecHoldRefs store parent with
            | none => (false, blob, desc)
            | some store => (true, blob, { desc with store := store, parentLayerId := some id })

/-- The layer stays as it is, or it is marked as registered, which takes a file that opens. A layer
that is not empty has a name when this succeeds. -/
theorem registerLayer_spec {cached ok : Bool} {creation : Creation} {blob after : LayerBlob}
    {desc last : Pulling} (made : registerLayer cached creation blob desc = (ok, after, last)) :
    (after = blob ∨ after = { blob with registered := true } ∧ blob.emptyLayer = false ∧
      blob.alreadyExist = false ∧ creation.opensData = true ∧
      ∃ id, blob.chainId.bind utilWithoutSha256Prefix = some id) ∧
    last.parentChainId = desc.parentChainId ∧
      (ok = true → blob.emptyLayer = false →
        ∃ id, blob.chainId.bind utilWithoutSha256Prefix = some id) := by
  unfold registerLayer at made
  split at made
  next empty =>
    cases made
    exact ⟨.inl rfl, rfl, fun _ filled => nomatch filled.symm.trans empty⟩
  rename_i filling
  split at made
  · cases made
    exact ⟨.inl rfl, rfl, nofun⟩
  rename_i id named
  split at made
  · split at made <;> cases made <;> exact ⟨.inl rfl, rfl, fun _ _ => ⟨id, named⟩⟩
  rename_i missing
  split at made
  · cases made
    exact ⟨.inl rfl, rfl, nofun⟩
  split at made
  · cases made
    exact ⟨.inl rfl, rfl, nofun⟩
  rename_i store created
  have opens : creation.opensData = true := by
    unfold storageLayerCreate at created
    split at created
    · assumption
    · cases created
  have marked : after = { blob with registered := true } ∧
      last.parentChainId = desc.parentChainId := by
    dsimp only at made
    split at made
    · cases made
      exact ⟨rfl, rfl⟩
    · split at made <;> cases made <;> exact ⟨rfl, rfl⟩
  exact ⟨.inr ⟨marked.1, Bool.not_eq_true _ ▸ filling, Bool.not_eq_true _ ▸ missing,
    opens, id, named⟩,
    marked.2, fun _ _ => ⟨id, named⟩⟩

end Isulad.Registry
