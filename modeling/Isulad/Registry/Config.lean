import Isulad.Registry.Pull

/-!
# The config of a pull

A config lists the diff ids of the layers that its manifest lists. `parse_manifest` of
`registry.c` allocates one `layer_blob` for each layer of the manifest, and
`parse_docker_config` and `parse_oci_config` write the ids into that array. Here every access
of theirs is checked, and it is worked out which manifests and configs a pull accepts.
-/

namespace Isulad.Registry

open Option List Isulad.Std Isulad.Storage

/-- `MAX_LAYER_NUM`. -/
def maxLayerNum : Nat := 125

/-- `DOCKER_IMAGE_LAYER_TAR_GZIP`. -/
def dockerImageLayerTarGzip : Text := "application/vnd.docker.image.rootfs.diff.tar.gzip".toList

/-- `DOCKER_IMAGE_LAYER_FOREIGN_TAR_GZIP`. -/
def dockerImageLayerForeignTarGzip : Text :=
  "application/vnd.docker.image.rootfs.foreign.diff.tar.gzip".toList

/-- `OCI_IMAGE_LAYER_TAR`. -/
def ociImageLayerTar : Text := "application/vnd.oci.image.layer.v1.tar".toList

/-- `OCI_IMAGE_LAYER_TAR_GZIP`. -/
def ociImageLayerTarGzip : Text := "application/vnd.oci.image.layer.v1.tar+gzip".toList

/-- `OCI_IMAGE_LAYER_ND_TAR`. -/
def ociImageLayerNdTar : Text := "application/vnd.oci.image.layer.nondistributable.v1.tar".toList

/-- `OCI_IMAGE_LAYER_ND_TAR_GZIP`. -/
def ociImageLayerNdTarGzip : Text :=
  "application/vnd.oci.image.layer.nondistributable.v1.tar+gzip".toList

/-- A layer of a schema 2 or OCI manifest. -/
structure LayerDescriptor where
  mediaType : Text
  digest : Option Text

/-- A manifest that its JSON parser accepts. -/
inductive RegistryManifest where
  /-- The `blobSum` of each layer, and `throwaway` of each history entry that can be parsed. -/
  | schema1 (fsLayers : List Text) (history : List (Option Bool))
  | schema2 (configDigest : Option Text) (layers : List LayerDescriptor)
  | ociv1 (configDigest : Option Text) (layers : List LayerDescriptor)

/-- One turn of the loop of `parse_manifest_schema1`. An empty layer cannot be downloaded. -/
def parseSchema1Layer : Text × Option Bool → Option ManifestLayer
  | (_, none) => none
  | (_, some true) => some ⟨true, none⟩
  | (blobSum, some false) => some ⟨false, some blobSum⟩

/-- `parse_manifest_schema1`: the manifest lists the last layer first. -/
def parseManifestSchema1 (fsLayers : List Text) (history : List (Option Bool)) :
    Option PullManifest :=
  if maxLayerNum < fsLayers.length ∨ fsLayers.length = 0 then none
  else if fsLayers.length ≠ history.length then none
  else ((fsLayers.zip history).reverse.mapM parseSchema1Layer).map fun layers =>
    ⟨true, none, layers⟩

/-- What `parse_manifest_schema2` and `parse_manifest_ociv1` share. Without a layer nothing can
be allocated. -/
def parseManifestLayers (mediaTypes : List Text) (configDigest : Option Text)
    (layers : List LayerDescriptor) : Option PullManifest :=
  if maxLayerNum < layers.length ∨ layers.length = 0 then none
  else if layers.all fun layer => mediaTypes.contains layer.mediaType then
    some ⟨false, configDigest, layers.map fun layer => ⟨false, layer.digest⟩⟩
  else none

/-- `parse_manifest_schema2`. -/
def parseManifestSchema2 : Option Text → List LayerDescriptor → Option PullManifest :=
  parseManifestLayers [dockerImageLayerTarGzip, dockerImageLayerForeignTarGzip]

/-- `parse_manifest_ociv1`. -/
def parseManifestOciv1 : Option Text → List LayerDescriptor → Option PullManifest :=
  parseManifestLayers
    [ociImageLayerTarGzip, ociImageLayerTar, ociImageLayerNdTar, ociImageLayerNdTarGzip]

/-- `parse_manifest`. -/
def parseManifest : RegistryManifest → Option PullManifest
  | .schema1 fsLayers history => parseManifestSchema1 fsLayers history
  | .schema2 configDigest layers => parseManifestSchema2 configDigest layers
  | .ociv1 configDigest layers => parseManifestOciv1 configDigest layers

/-- How many layers of the manifest are not empty. -/
def PullManifest.nonEmptyLayers (manifest : PullManifest) : Nat :=
  manifest.layers.countP fun layer => !layer.emptyLayer

/-- A manifest with a config has layers, and none of them is empty. -/
structure PullManifest.Full (manifest : PullManifest) : Prop where
  layers : manifest.layers ≠ []
  nonEmpty : ∀ layer ∈ manifest.layers, layer.emptyLayer = false

variable {parsed manifest : PullManifest}

theorem parseManifestLayers_full {mediaTypes : List Text} {configDigest : Option Text}
    {layers : List LayerDescriptor}
    (read : parseManifestLayers mediaTypes configDigest layers = some parsed) : parsed.Full := by
  simp only [parseManifestLayers, ite_none_left_eq_some, ite_none_right_eq_some, some.injEq] at read
  obtain ⟨within, -, rfl⟩ := read
  constructor
  · intro empty
    exact within (.inr (length_eq_zero_iff.mpr (map_eq_nil_iff.mp empty)))
  · intro layer member
    obtain ⟨descriptor, -, rfl⟩ := mem_map.mp member
    rfl

theorem parseManifest_full {manifest : RegistryManifest}
    (read : parseManifest manifest = some parsed) (config : parsed.schemaV1 = false) :
    parsed.Full := by
  cases manifest with
  | schema1 fsLayers history =>
    simp [parseManifest, parseManifestSchema1] at read
    obtain ⟨-, -, layers, -, rfl⟩ := read
    cases config
  | schema2 configDigest layers => exact parseManifestLayers_full read
  | ociv1 configDigest layers => exact parseManifestLayers_full read

theorem PullManifest.Full.count (full : manifest.Full) :
    manifest.nonEmptyLayers = manifest.layers.length := by
  apply countP_eq_length.mpr
  intro layer member
  rw [full.nonEmpty layer member, Bool.not_false]

section Reading

variable (sha256 : Text → Text)

/-- The loop of `parse_docker_config` and `parse_oci_config` over the diff ids, with every access
to `desc->layers[i]` checked: `none` is an access behind the last layer. -/
def parseConfigIdsChecked :
    Text → Nat → List Text → List LayerBlob → Option (Bool × List LayerBlob)
  | _, _, [], layers => some (true, layers)
  | parentChainId, i, diffId :: diffIds, layers =>
    match layers[i]? with
    | none => none
    | some blob =>
      match calcChainId sha256 (some parentChainId) diffId with
      | none => some (false, layers.set i { blob with diffId := some diffId, chainId := none })
      | some chainId =>
        parseConfigIdsChecked chainId (i + 1) diffIds
          (layers.set i { blob with diffId := some diffId, chainId := some chainId })

/-- `parse_docker_config` and `parse_oci_config`, checked. -/
def parseConfigChecked (diffIds : List Text) (layers : List LayerBlob) :
    Option (Bool × List LayerBlob) :=
  if diffIds.isEmpty then some (false, layers) else parseConfigIdsChecked sha256 [] 0 diffIds layers

/-- The chain ids of `count` layers from layer `i` on. The ids of the config come first; a layer
for which the config has none takes the one that its download has left. -/
def chainIds (diffid : Nat → Option Text) : Nat → Nat → Text → List Text → Option (List Text)
  | 0, _, _, _ => some []
  | count + 1, i, parentChainId, diffIds => do
    let diffId ← diffIds.head?.or (diffid i)
    let chainId ← calcChainId sha256 (some parentChainId) diffId
    (chainIds diffid count (i + 1) chainId diffIds.tail).map (chainId :: ·)

variable {sha256} {parentChainId : Text} {diffIds : List Text} {blobs : List LayerBlob}
  {diffid : Nat → Option Text} {result : Bool × List LayerBlob} {count i : Nat}

/-- The loop leaves the array exactly when there are more ids than layers and the chain ids of
all layers can be computed. Inside the array, the checked loop is the loop. -/
theorem parseConfigIdsChecked_eq (parentChainId : Text) (diffIds : List Text)
    (done : List LayerBlob) (i : Nat) :
    parseConfigIdsChecked sha256 parentChainId done.length diffIds (done ++ blobs) =
      if blobs.length < diffIds.length ∧
        (chainIds sha256 diffid blobs.length i parentChainId diffIds).isSome then none
      else some ((parseConfigIds sha256 parentChainId diffIds blobs).1,
        done ++ (parseConfigIds sha256 parentChainId diffIds blobs).2) := by
  induction blobs generalizing done i parentChainId diffIds with
  | nil => cases diffIds <;> simp [parseConfigIdsChecked, parseConfigIds, chainIds]
  | cons blob blobs ih =>
    cases diffIds with
    | nil => simp [parseConfigIdsChecked, parseConfigIds]
    | cons diffId diffIds =>
      rw [parseConfigIdsChecked, getElem?_append_right le_rfl, Nat.sub_self]
      cases chained : calcChainId sha256 (some parentChainId) diffId with
      | none => simp [chainIds, parseConfigIds, chained]
      | some chainId =>
        have next := ih chainId diffIds
          (done ++ [{ blob with diffId := some diffId, chainId := some chainId }]) (i + 1)
        simpa [chainIds, parseConfigIds, chained] using next

/-- `parse_docker_config` and `parse_oci_config`, checked, are themselves inside the array. -/
theorem parseConfigChecked_eq (diffid : Nat → Option Text) :
    parseConfigChecked sha256 diffIds blobs = if blobs.length < diffIds.length ∧
        (chainIds sha256 diffid blobs.length 0 [] diffIds).isSome then none
      else some (parseConfig sha256 diffIds blobs) := by
  unfold parseConfigChecked parseConfig
  cases diffIds with
  | nil => simp
  | cons diffId diffIds => exact parseConfigIdsChecked_eq [] _ [] 0

theorem parseConfigIds_fst (parentChainId : Text) (diffIds : List Text) (blobs : List LayerBlob) :
    (parseConfigIds sha256 parentChainId diffIds blobs).1 =
      (diffIds.foldlM (calcChainId sha256 <| some ·) parentChainId).isSome := by
  induction diffIds generalizing parentChainId blobs with
  | nil => rw [parseConfigIds]; rfl
  | cons diffId diffIds ih =>
    cases blobs <;> cases chained : calcChainId sha256 (some parentChainId) diffId <;>
      simp [parseConfigIds, chained, ih]

/-- With every id of the config chained, so are those of its first layers. -/
theorem chainIds_of_parseConfigIds (diffid : Nat → Option Text) (i : Nat)
    (read : (parseConfigIds sha256 parentChainId diffIds blobs).1 = true)
    (within : count ≤ diffIds.length) :
    (chainIds sha256 diffid count i parentChainId diffIds).isSome := by
  rw [parseConfigIds_fst] at read
  induction count generalizing i parentChainId diffIds with
  | zero => rfl
  | succ count ih =>
    cases diffIds with
    | nil => simp at within
    | cons diffId diffIds =>
      cases chained : calcChainId sha256 (some parentChainId) diffId with
      | none => simp [chained] at read
      | some chainId =>
        have tail := ih (i + 1) (by simpa [chained] using read) (by simpa using within)
        simpa [chainIds, chained] using tail

/-- The other way round, for a config with no more ids than there are layers. -/
theorem parseConfigIds_of_chainIds (within : diffIds.length ≤ count)
    (chained : (chainIds sha256 diffid count i parentChainId diffIds).isSome) :
    (parseConfigIds sha256 parentChainId diffIds blobs).1 = true := by
  rw [parseConfigIds_fst]
  induction diffIds generalizing count i parentChainId with
  | nil => rfl
  | cons diffId diffIds ih =>
    cases count with
    | zero => simp at within
    | succ count =>
      cases computed : calcChainId sha256 (some parentChainId) diffId with
      | none => simp [chainIds, computed] at chained
      | some chainId =>
        have tail : (chainIds sha256 diffid count (i + 1) chainId diffIds).isSome := by
          simpa [chainIds, computed] using chained
        simpa [computed] using ih (by simpa using within) tail

end Reading

/-- What the config sets. -/
def LayerBlob.ids (blob : LayerBlob) : Option Text × Option Text := (blob.diffId, blob.chainId)

/-- Layers that have been given the ids of a config: the first ones have an id and the chain id
that follows from it, the others have neither. -/
inductive Prepared (sha256 : Text → Text) : Text → List Text → List LayerBlob → Prop where
  | rest {parentChainId : Text} {blobs : List LayerBlob}
      (unset : ∀ blob ∈ blobs, blob.ids = (none, none)) : Prepared sha256 parentChainId [] blobs
  | id {parentChainId chainId diffId : Text} {diffIds : List Text} {blob : LayerBlob}
      {blobs : List LayerBlob}
      (chained : calcChainId sha256 (some parentChainId) diffId = some chainId)
      (set : blob.ids = (some diffId, some chainId))
      (behind : Prepared sha256 chainId diffIds blobs) :
      Prepared sha256 parentChainId (diffId :: diffIds) (blob :: blobs)

section Ids

variable {sha256 : Text → Text} {answers : PullAnswers} {manifest : PullManifest}
  {diffIds : List Text} {blobs : List LayerBlob}

theorem prepared_of_parseConfigIds {parentChainId : Text}
    (read : (parseConfigIds sha256 parentChainId diffIds blobs).1 = true)
    (within : diffIds.length ≤ blobs.length)
    (unset : ∀ blob ∈ blobs.drop diffIds.length, blob.ids = (none, none)) :
    Prepared sha256 parentChainId diffIds
      (parseConfigIds sha256 parentChainId diffIds blobs).2 := by
  induction diffIds generalizing parentChainId blobs with
  | nil => exact .rest (by rwa [parseConfigIds])
  | cons diffId diffIds ih =>
    cases blobs with
    | nil => simp at within
    | cons blob blobs =>
      rw [parseConfigIds] at read ⊢
      cases chained : calcChainId sha256 (some parentChainId) diffId with
      | none => simp [chained] at read
      | some chainId =>
        rw [chained] at read
        exact .id chained rfl (ih read (by simpa using within) (by simpa using unset))

theorem parseConfigIds_drop (sha256 : Text → Text) (parentChainId : Text) (diffIds : List Text)
    (blobs : List LayerBlob) :
    (parseConfigIds sha256 parentChainId diffIds blobs).2.drop diffIds.length =
      blobs.drop diffIds.length := by
  induction diffIds generalizing parentChainId blobs with
  | nil => rw [parseConfigIds]
  | cons diffId diffIds ih =>
    cases blobs with
    | nil =>
      rw [parseConfigIds]
      split
      · rfl
      · simpa using congrArg (drop 1) (ih _ [])
    | cons blob blobs =>
      rw [parseConfigIds]
      split
      · rfl
      · simpa using ih _ blobs

/-- The search for stored layers keeps whatever `markExisting` keeps. -/
theorem fetchLayers_map {α : Type} {schemaV1 : Bool} (f : LayerBlob → α)
    (kept : ∀ layer blob, f (markExisting schemaV1 layer blob) = f blob) (answers : PullAnswers)
    (i : Nat) (blobs : List LayerBlob) (scan : FetchScan) :
    (fetchLayers answers schemaV1 i blobs scan).2.1.map f = blobs.map f := by
  induction blobs generalizing i scan with
  | nil => rfl
  | cons blob blobs ih =>
    have here : f (fetchLayer answers schemaV1 i blob scan).2.1 = f blob := by
      unfold fetchLayer
      split
      · rfl
      split
      · exact kept _ blob
      · rfl
    rw [fetchLayers]
    split
    next turned =>
      rw [turned] at here
      exact congrArg (cons · _) here
    next turned =>
      rw [turned] at here
      exact congrArg₂ cons here (ih _ _)

theorem parseConfig_drop (sha256 : Text → Text) (diffIds : List Text) (blobs : List LayerBlob) :
    (parseConfig sha256 diffIds blobs).2.drop diffIds.length = blobs.drop diffIds.length := by
  unfold parseConfig
  split
  · rfl
  · exact parseConfigIds_drop sha256 [] diffIds blobs

/-- Whenever the config is parsed, layers without an id in it have none. -/
theorem seenBlobs_unset (config : answers.config = some diffIds)
    (second : manifest.schemaV1 = false) :
    ∀ blob ∈ (seenBlobs sha256 answers manifest).drop diffIds.length, blob.ids = (none, none) := by
  have fetched : fetchConfig sha256 answers manifest.schemaV1 manifest.blobs =
      parseConfig sha256 diffIds manifest.blobs := by
    rw [fetchConfig, second, config]
    rfl
  have later := parseConfig_drop sha256 diffIds manifest.blobs
  intro blob member
  obtain ⟨j, here⟩ := mem_iff_getElem?.mp member
  rw [getElem?_drop, seenBlobs, fetched, getElem?_mapIdx, map_eq_some_iff] at here
  obtain ⟨⟨bare, parsed⟩, both, chosen⟩ := here
  obtain ⟨bareHere, parsedHere⟩ := getElem?_zip_eq_some.mp both
  rw [← getElem?_drop, later, getElem?_drop] at parsedHere
  have same : bare = parsed := some.inj (bareHere.symm.trans parsedHere)
  rw [← chosen, ← same, ite_self]
  obtain ⟨layer, -, rfl⟩ := mem_map.mp (mem_of_getElem? bareHere)
  rfl

theorem fetchLayers_unset (sha256 : Text → Text) (config : answers.config = some diffIds)
    (second : manifest.schemaV1 = false) (scan : FetchScan) :
    ∀ blob ∈ (fetchLayers answers false 0 (seenBlobs sha256 answers manifest) scan).2.1.drop
      diffIds.length, blob.ids = (none, none) := by
  have same := congrArg (drop diffIds.length) (fetchLayers_map LayerBlob.ids
    (fun layer blob => show (markExisting false layer blob).ids = blob.ids from rfl) answers 0
    (seenBlobs sha256 answers manifest) scan)
  rw [← map_drop, ← map_drop] at same
  intro blob member
  have kept := mem_map_of_mem (f := LayerBlob.ids) member
  rw [same] at kept
  obtain ⟨seen, memberSeen, equal⟩ := mem_map.mp kept
  rw [← equal]
  exact seenBlobs_unset config second seen memberSeen

end Ids

section Layers

variable {sha256 : Text → Text} {answers : PullAnswers} {manifest : PullManifest}

/-- Layers that neither exist nor have been registered. -/
def Fresh (blobs : List LayerBlob) : Prop :=
  ∀ blob ∈ blobs, blob.alreadyExist = false ∧ blob.registered = false

/-- A turn of `register_layers_in_thread`, by what becomes of the layer. -/
theorem registerLayersInThread_cons (sha256 : Text → Text) (answers : PullAnswers) (i : Nat)
    (blob : LayerBlob) (blobs : List LayerBlob) (desc : Pulling) :
    (registerLayersInThread sha256 answers i (blob :: blobs) desc).2 = (blob :: blobs, desc) ∨
    ∃ filled start, setCachedInfoToDesc sha256 (fetchInfo answers i blob) blob desc =
        some (filled, start) ∧
      ∀ {ok next last}, registerLayer (answers.cached i) (answers.creation i) filled start =
          (ok, next, last) →
        (registerLayersInThread sha256 answers i (blob :: blobs) desc).2 =
          if ok then
            let rest := registerLayersInThread sha256 answers (i + 1) blobs last
            (next :: rest.2.1, rest.2.2)
          else (next :: blobs, last) := by
  rw [registerLayersInThread]
  split
  · exact .inl rfl
  cases set : setCachedInfoToDesc sha256 (fetchInfo answers i blob) blob desc with
  | none => exact .inl rfl
  | some result =>
    refine .inr ⟨result.1, result.2, rfl, fun {ok next last} turn => ?_⟩
    dsimp only
    rw [turn]
    cases ok <;> rfl

/-- What decides how a layer is treated, and is no id. -/
def LayerBlob.flags (blob : LayerBlob) : ManifestLayer × Bool × Bool :=
  (blob.toManifestLayer, blob.alreadyExist, blob.registered)

theorem parseConfigIds_flags (parentChainId : Text) (diffIds : List Text) (blobs : List LayerBlob) :
    (parseConfigIds sha256 parentChainId diffIds blobs).2.map (·.flags) = blobs.map (·.flags) := by
  induction diffIds generalizing parentChainId blobs with
  | nil => rw [parseConfigIds]
  | cons diffId diffIds ih =>
    cases blobs with
    | nil =>
      rw [parseConfigIds]
      split
      · rfl
      · exact ih _ []
    | cons blob blobs =>
      rw [parseConfigIds]
      split
      · rfl
      · exact congrArg (cons blob.flags) (ih _ blobs)

theorem fetchConfig_flags (blobs : List LayerBlob) :
    (fetchConfig sha256 answers schemaV1 blobs).2.map (·.flags) = blobs.map (·.flags) := by
  unfold fetchConfig parseConfig
  split
  · rfl
  split
  · rfl
  split
  · rfl
  · exact parseConfigIds_flags _ _ _

/-- Choosing at every place between two lists that agree. -/
theorem map_mapIdx_zip {α β : Type} (f : α → β) (choose : Nat → Bool) (first second : List α)
    (same : second.map f = first.map f) :
    ((first.zip second).mapIdx fun i pair => if choose i then pair.2 else pair.1).map f =
      first.map f := by
  induction first generalizing second choose with
  | nil => rfl
  | cons a first ih =>
    cases second with
    | nil => cases same
    | cons b second =>
      obtain ⟨here, tail⟩ := List.cons.inj same
      rw [zip_cons_cons, mapIdx_cons, map_cons, map_cons]
      refine congrArg₂ _ ?_ (ih (fun i => choose (i + 1)) second tail)
      cases choose 0
      · rfl
      · exact here

theorem seenBlobs_flags (manifest : PullManifest) :
    (seenBlobs sha256 answers manifest).map (·.flags) = manifest.blobs.map (·.flags) :=
  map_mapIdx_zip _ _ _ _ (fetchConfig_flags _)

theorem fresh_congr {first second : List LayerBlob}
    (same : first.map (·.flags) = second.map (·.flags))
    (fresh : Fresh second) : Fresh first := by
  intro blob member
  have flags := mem_map_of_mem (f := LayerBlob.flags) member
  rw [same] at flags
  obtain ⟨other, memberOther, equal⟩ := mem_map.mp flags
  obtain ⟨exist, registered⟩ := Prod.mk.inj (Prod.mk.inj equal).2
  rw [← exist, ← registered]
  exact fresh other memberOther

/-- Layers of which nothing is known but what the manifest says. -/
theorem fresh_of_flags (same : blobs.map (·.flags) = manifest.blobs.map (·.flags)) :
    blobs.map (·.toManifestLayer) = manifest.layers ∧ Fresh blobs := by
  constructor
  · have layers := congrArg (map Prod.fst) same
    simpa [PullManifest.blobs, LayerBlob.flags, Function.comp_def] using layers
  · refine fresh_congr same fun blob member => ?_
    obtain ⟨layer, -, rfl⟩ := mem_map.mp member
    exact ⟨rfl, rfl⟩

theorem registerLayersInThread_layers (i : Nat) (blobs : List LayerBlob) (desc : Pulling) :
    (registerLayersInThread sha256 answers i blobs desc).2.1.map (·.toManifestLayer) =
      blobs.map (·.toManifestLayer) := by
  induction blobs generalizing i desc with
  | nil => rfl
  | cons blob blobs ih =>
    rcases registerLayersInThread_cons sha256 answers i blob blobs desc with
      ended | ⟨filled, start, set, turned⟩
    · rw [ended]
    · obtain ⟨⟨layer, -⟩, -⟩ := setCachedInfoToDesc_keeps set
      cases turn : registerLayer (answers.cached i) (answers.creation i) filled start with
      | mk ok result =>
        have made : result.1.toManifestLayer = filled.toManifestLayer := by
          rcases (registerLayer_spec turn).1 with same | ⟨same, -⟩ <;> rw [same]
        rw [turned turn]
        cases ok with
        | false => exact congrArg (cons · _) (made.trans layer)
        | true => exact congrArg₂ cons (made.trans layer) (ih _ _)

/-- The layers that `fetch_all` has found stored or not. -/
theorem fetchLayers_layers (sha256 : Text → Text) (answers : PullAnswers) (manifest : PullManifest)
    (scan : FetchScan) :
    (fetchLayers answers manifest.schemaV1 0 (seenBlobs sha256 answers manifest) scan).2.1.map
      (·.toManifestLayer) = manifest.layers := by
  rw [fetchLayers_map _ fun _ _ => by cases manifest.schemaV1 <;> rfl]
  exact (fresh_of_flags (seenBlobs_flags manifest)).1

theorem fetchConfig_layers (sha256 : Text → Text) (answers : PullAnswers) (schemaV1 : Bool)
    (blobs : List LayerBlob) :
    (fetchConfig sha256 answers schemaV1 blobs).2.map (·.toManifestLayer) =
      blobs.map (·.toManifestLayer) := by
  have flags : (fetchConfig sha256 answers schemaV1 blobs).2.map (·.flags) = blobs.map (·.flags) :=
    fetchConfig_flags blobs
  simpa [LayerBlob.flags, Function.comp_def] using congrArg (map Prod.fst) flags

theorem fetchAll_layers (store : LayerStore) :
    (fetchAll sha256 answers manifest store).2.1.map (·.toManifestLayer) = manifest.layers := by
  have bare : manifest.blobs.map (·.toManifestLayer) = manifest.layers := (fresh_of_flags rfl).1
  have searched := fetchLayers_layers sha256 answers manifest ⟨store, none, none⟩
  unfold fetchAll
  split
  · exact bare
  split
  next found =>
    rw [found] at searched
    exact searched
  next found =>
    rw [found] at searched
    split
    · exact searched
    rename_i blobs _ _
    have read := (fetchConfig_layers sha256 answers manifest.schemaV1 blobs).trans searched
    split
    next config =>
      rw [config] at read
      exact read
    next config =>
      rw [config] at read
      exact (registerLayersInThread_layers 0 _ _).trans read

end Layers

section Registration

variable {sha256 : Text → Text} {answers : PullAnswers} {i : Nat}
  {parentChainId chainId diffId : Text} {diffIds chains : List Text} {blob filled : LayerBlob}
  {blobs : List LayerBlob} {desc start : Pulling} {info : ThreadFetchInfo}

/-- A chain id that names a layer of the store. -/
def namesLayer (chainId : Text) : Bool := (utilWithoutSha256Prefix chainId).isSome

/-- The chain id of a layer is the one it had, or it is computed from the id that the download
has left. -/
theorem setCachedInfoToDesc_chainId (nonEmpty : blob.emptyLayer = false)
    (set : setCachedInfoToDesc sha256 info blob desc = some (filled, start)) :
    start.parentChainId = filled.chainId ∧
      (filled.chainId = blob.chainId ∨ ∃ diffId, blob.diffId.or info.diffid = some diffId ∧
        filled.chainId = calcChainId sha256 desc.parentChainId diffId) := by
  have fills : (blob.fill info).chainId = blob.chainId ∧ (blob.fill info).emptyLayer = false := by
    obtain ⟨layer, -, -, chain⟩ := blob.fill_keeps info
    exact ⟨chain, (congrArg ManifestLayer.emptyLayer layer).trans nonEmpty⟩
  have diffs : ∀ diffId, (blob.fill info).diffId = some diffId →
      blob.diffId.or info.diffid = some diffId := by
    intro diffId known
    unfold LayerBlob.fill at known
    split at known
    · exact known
    · rw [known, some_or]
  unfold setCachedInfoToDesc at set
  generalize blob.fill info = full at *
  dsimp only at set
  rw [fills.2, if_neg Bool.false_ne_true] at set
  split at set
  · cases set
    exact ⟨rfl, .inl fills.1⟩
  split at set
  · cases set
  rename_i diffId known
  split at set
  · cases set
  rename_i chainId found
  cases set
  refine ⟨rfl, ?_⟩
  rcases or_eq_some_iff.mp found with had | ⟨-, computed⟩
  · exact .inl (had.symm.trans fills.1)
  · exact .inr ⟨diffId, diffs diffId known, computed.symm⟩

/-- When all layers are registered, each has a chain id that follows from the one before it. -/
theorem chainIds_of_registered (prepared : Prepared sha256 parentChainId diffIds blobs)
    (nonEmpty : ∀ blob ∈ blobs, blob.emptyLayer = false)
    (above : desc.parentChainId = some parentChainId)
    (registered : (registerLayersInThread sha256 answers i blobs desc).1 = true) :
    ∃ chains, chainIds sha256 answers.diffid blobs.length i parentChainId diffIds = some chains ∧
      ∀ chainId ∈ chains, namesLayer chainId = true := by
  induction blobs generalizing i parentChainId diffIds desc with
  | nil => exact ⟨[], rfl, by simp⟩
  | cons blob blobs ih =>
    obtain ⟨here, tail⟩ := forall_mem_cons.mp nonEmpty
    rw [registerLayersInThread] at registered
    iterate 2 (split at registered; · cases registered)
    rename_i filled start set
    split at registered
    · cases registered
    rename_i next last made
    obtain ⟨parent, chain⟩ := setCachedInfoToDesc_chainId here set
    obtain ⟨⟨layer, -⟩, -⟩ := setCachedInfoToDesc_keeps set
    obtain ⟨-, kept, made⟩ := registerLayer_spec made
    obtain ⟨id, found⟩ := made rfl ((congrArg ManifestLayer.emptyLayer layer).trans here)
    obtain ⟨chainId, known, stripped⟩ := bind_eq_some_iff.mp found
    have named : namesLayer chainId = true := by rw [namesLayer, stripped, isSome_some]
    have onward : last.parentChainId = some chainId := by rw [kept, parent, known]
    -- the id that this layer has, and what it leaves to the layers behind it
    have step : ∃ diffId, diffIds.head?.or (answers.diffid i) = some diffId ∧
        calcChainId sha256 (some parentChainId) diffId = some chainId ∧
        Prepared sha256 chainId diffIds.tail blobs := by
      cases prepared with
      | rest unset =>
        obtain ⟨bare, unsetTail⟩ := forall_mem_cons.mp unset
        obtain ⟨noDiff, noChain⟩ := Prod.mk.inj bare
        rcases chain with same | ⟨diffId, left, computed⟩
        · rw [known, noChain] at same
          cases same
        · rw [noDiff, none_or] at left
          refine ⟨diffId, left, ?_, .rest unsetTail⟩
          rw [← above, ← computed, known]
      | id chained isSet behind =>
        obtain ⟨diff, chainHere⟩ := Prod.mk.inj isSet
        rcases chain with same | ⟨diffId, left, computed⟩
        · rw [known, chainHere] at same
          cases same
          exact ⟨_, rfl, chained, behind⟩
        · rw [diff, some_or] at left
          cases left
          rw [known, above, chained] at computed
          cases computed
          exact ⟨_, rfl, chained, behind⟩
    obtain ⟨diffId, has, chained, behind⟩ := step
    obtain ⟨chains, found, all⟩ := ih behind tail onward registered
    refine ⟨chainId :: chains, ?_, forall_mem_cons.mpr ⟨named, all⟩⟩
    simp [chainIds, has, chained, found]

/-- The answers to a pull of these responses in which nothing fails. -/
def willingAnswers (manifest : Option PullManifest) (config : Option (List Text))
    (diffid : Nat → Option Text) : PullAnswers :=
  { manifest := manifest
    startsConfig := true
    config := config
    configSeen _ := false
    addsFetchTask _ := true
    startsRegister := true
    blobpath := []
    cancelled _ := false
    diffid := diffid
    cached _ := true
    creation _ := ⟨true, true⟩
    cancelledLate := false
    v1Config := some "sha256:c".toList
    timesValid := true
    savesImage := true
    staleUser := none
    savesOther := true
    savesName := true
    configRead := true
    user := none
    configStored := true
    manifestStored := true
    loadedTimeSet := true
    imageSizeSet := true
    removal := .willing }

theorem storageLayerCreate_willing (store : LayerStore) (id : Text) (opts : LayerCreateOpts) :
    (storageLayerCreate ⟨true, true⟩ store id opts).1 = true := by
  unfold storageLayerCreate layerStoreCreate
  rw [if_pos rfl]
  split <;> rfl

theorem unnamed_modify {store : LayerStore} {id : Text} {change : Layer → Layer}
    {keeps : ∀ layer, (change layer).id = layer.id} (unnamed : Unnamed store)
    (same : ∀ layer, (change layer).names = layer.names) :
    Unnamed (store.modify id change keeps) := by
  intro _ member
  obtain ⟨layer, old, rfl⟩ := mem_map.mp member
  split
  · rw [same, unnamed layer old]
  · exact unnamed layer old

/-- A hold that is given back changes a count only. -/
theorem storageDecHoldRefs_unnamed {store : LayerStore} {id : Text} (unnamed : Unnamed store)
    (present : store.Has id) : ∃ next, LayerStore.storageDecHoldRefs store id = some next ∧
      Unnamed next ∧ ∀ other, next.Has other ↔ store.Has other := by
  unfold LayerStore.storageDecHoldRefs LayerStore.layerSetHoldRefs
  cases found : store.find id with
  | none => exact absurd present (Keyed.find_eq_none_iff.mp found)
  | some layer => exact ⟨_, rfl, unnamed_modify unnamed fun _ => rfl, fun _ => Keyed.has_modify⟩

theorem storageLayerCreate_unnamed {creation : Creation} {store next : LayerStore} {id : Text}
    {opts : LayerCreateOpts} (unnamed : Unnamed store)
    (created : storageLayerCreate creation store id opts = (true, next)) :
    Unnamed next ∧ ∀ other, next.Has other ↔ other = id ∨ store.Has other := by
  unfold storageLayerCreate layerStoreCreate at created
  split at created
  · split at created
    next layer known =>
      cases created
      rw [lookup_of_unnamed unnamed] at known
      obtain ⟨member, rfl⟩ := Keyed.find_eq_some_iff.mp known
      have present : store.Has layer.id := Keyed.has_key member
      refine ⟨unnamed_modify unnamed fun _ => rfl, fun other => ?_⟩
      rw [Keyed.has_modify]
      exact ⟨.inr, fun either => either.elim (fun same => same ▸ present) fun there => there⟩
    · split at created
      · cases created
        exact ⟨forall_mem_append.mpr ⟨unnamed, forall_mem_singleton.mpr rfl⟩,
          fun _ => Keyed.has_insert⟩
      · cases created
  · cases created

theorem registerLayer_willing (desc : Pulling) (nonEmpty : blob.emptyLayer = false)
    (new : blob.alreadyExist = false) (known : blob.chainId = some chainId)
    (named : namesLayer chainId = true) (unnamed : Unnamed desc.store)
    (above : ∀ id, desc.parentLayerId = some id → desc.store.Has id) :
    ∃ last, registerLayer true ⟨true, true⟩ blob desc =
      (true, { blob with registered := true }, last) ∧
      last.parentChainId = desc.parentChainId ∧ Unnamed last.store ∧
      ∀ id, last.parentLayerId = some id → last.store.Has id := by
  obtain ⟨id, stripped⟩ := isSome_iff_exists.mp named
  have created :=
    storageLayerCreate_willing desc.store id ⟨desc.parentLayerId, blob.diffId, blob.digest⟩
  unfold registerLayer
  rw [nonEmpty, if_neg Bool.false_ne_true, known, bind_some, stripped]
  dsimp only
  rw [new, if_neg Bool.false_ne_true, if_neg (by simp)]
  cases made : storageLayerCreate ⟨true, true⟩ desc.store id
      ⟨desc.parentLayerId, blob.diffId, blob.digest⟩ with
  | mk ok store =>
    rw [made] at created
    cases created
    obtain ⟨raised, ids⟩ := storageLayerCreate_unnamed unnamed made
    cases parent : desc.parentLayerId with
    | none =>
      refine ⟨_, rfl, rfl, raised, fun other isParent => ?_⟩
      cases isParent
      exact (ids id).mpr (.inl rfl)
    | some parentId =>
      obtain ⟨freed, given, lowered, same⟩ :=
        storageDecHoldRefs_unnamed raised ((ids parentId).mpr (.inr (above parentId parent)))
      dsimp only
      rw [given]
      refine ⟨_, rfl, rfl, lowered, fun other isParent => ?_⟩
      cases isParent
      exact (same id).mpr ((ids id).mpr (.inl rfl))

/-- A new layer takes the chain id that it has or that follows from its id. -/
theorem setCachedInfoToDesc_new (answers : PullAnswers) (nonEmpty : blob.emptyLayer = false)
    (new : blob.alreadyExist = false) (diff : blob.diffId.or (answers.diffid i) = some diffId)
    (chain : blob.chainId.or (calcChainId sha256 desc.parentChainId diffId) = some chainId) :
    ∃ filled, setCachedInfoToDesc sha256 (fetchInfo answers i blob) blob desc =
        some (filled, { desc with parentChainId := some chainId }) ∧
      filled.chainId = some chainId ∧ filled.emptyLayer = false ∧ filled.alreadyExist = false := by
  have use : (fetchInfo answers i blob).use = true := by simp [fetchInfo, nonEmpty, new]
  unfold setCachedInfoToDesc LayerBlob.fill
  rw [use, if_pos rfl]
  dsimp only
  rw [nonEmpty, new, if_neg Bool.false_ne_true, if_neg Bool.false_ne_true]
  rw [show (fetchInfo answers i blob).diffid = answers.diffid i from rfl, diff]
  dsimp only
  rw [chain]
  exact ⟨_, rfl, rfl, nonEmpty, rfl⟩

/-- New layers are registered when their chain ids can be computed and name layers. -/
theorem registerLayersInThread_willing (manifest : Option PullManifest)
    (config : Option (List Text)) {diffid : Nat → Option Text} (desc : Pulling)
    (prepared : Prepared sha256 parentChainId diffIds blobs)
    (fresh : ∀ blob ∈ blobs, blob.emptyLayer = false ∧ blob.alreadyExist = false)
    (above : desc.parentChainId = some parentChainId) (unnamed : Unnamed desc.store)
    (parent : ∀ id, desc.parentLayerId = some id → desc.store.Has id)
    (chained : chainIds sha256 diffid blobs.length i parentChainId diffIds = some chains)
    (named : ∀ chainId ∈ chains, namesLayer chainId = true) :
    let result := registerLayersInThread sha256 (willingAnswers manifest config diffid) i blobs desc
    result.1 = true ∧ ∀ blob ∈ result.2.1, ∃ chainId, blob.chainId = some chainId ∧
      namesLayer chainId = true := by
  induction blobs generalizing i parentChainId diffIds desc chains with
  | nil => exact ⟨rfl, by simp [registerLayersInThread]⟩
  | cons blob blobs ih =>
    obtain ⟨⟨nonEmpty, new⟩, freshTail⟩ := forall_mem_cons.mp fresh
    obtain ⟨diffId, has, chained⟩ := bind_eq_some_iff.mp chained
    obtain ⟨chainId, computed, chained⟩ := bind_eq_some_iff.mp chained
    obtain ⟨rest, behind, rfl⟩ := map_eq_some_iff.mp chained
    obtain ⟨namedHere, namedTail⟩ := forall_mem_cons.mp named
    -- the layer's ids are those of the config, or those of the download
    have ids : blob.diffId.or (diffid i) = some diffId ∧
        blob.chainId.or (calcChainId sha256 desc.parentChainId diffId) = some chainId ∧
        Prepared sha256 chainId diffIds.tail blobs := by
      cases prepared with
      | rest unset =>
        obtain ⟨bare, unsetTail⟩ := forall_mem_cons.mp unset
        obtain ⟨noDiff, noChain⟩ := Prod.mk.inj bare
        rw [noDiff, noChain, above, computed]
        exact ⟨has, rfl, .rest unsetTail⟩
      | id chainedHere isSet behindHere =>
        obtain ⟨diff, chain⟩ := Prod.mk.inj isSet
        cases has
        rw [chainedHere] at computed
        cases computed
        rw [diff, chain]
        exact ⟨rfl, rfl, behindHere⟩
    obtain ⟨diff, chain, preparedTail⟩ := ids
    obtain ⟨filled, set, known, filledNonEmpty, filledNew⟩ :=
      setCachedInfoToDesc_new (willingAnswers manifest config diffid) nonEmpty new diff chain
    obtain ⟨last, made, kept, unnamedLast, parentLast⟩ :=
      registerLayer_willing { desc with parentChainId := some chainId } filledNonEmpty filledNew
        known namedHere unnamed parent
    have onward := ih last preparedTail freshTail kept unnamedLast parentLast behind namedTail
    rw [registerLayersInThread, if_neg (by simp [willingAnswers]), set]
    dsimp only
    rw [show (willingAnswers manifest config diffid).cached i = true from rfl,
      show (willingAnswers manifest config diffid).creation i = ⟨true, true⟩ from rfl, made]
    exact ⟨onward.1, forall_mem_cons.mpr ⟨⟨chainId, known, namedHere⟩, onward.2⟩⟩

end Registration

/-- The diff ids that `add_rootfs_and_history` lists in the config of a schema 1 image; without
an id of a layer it fails. -/
def addRootfsAndHistory : List LayerBlob → Option (List Text)
  | [] => some []
  | blob :: blobs =>
    if blob.emptyLayer then addRootfsAndHistory blobs
    else do
      let diffId ← blob.diffId
      (addRootfsAndHistory blobs).map (diffId :: ·)

section Pull

variable (sha256 : Text → Text) (answers : PullAnswers) (destImageName : Text) (stores : Stores)

/-- The config that the pull fetches and parses, with the manifest that it is for. -/
def fetchedConfig : Option (PullManifest × List Text) := do
  let manifest ← answers.manifest
  if reuseImage stores.images destImageName manifest.configDigest || manifest.layers.isEmpty ||
    !answers.startsConfig || manifest.schemaV1 then none
  else (answers.config).map (manifest, ·)

/-- `registry_pull`; `none` is an access behind the last layer. Every loop but the one over the
diff ids stops at `layers_len`. -/
def registryPullChecked : Option (Bool × Stores) :=
  match fetchedConfig answers destImageName stores with
  | none => some (registryPull sha256 answers destImageName stores)
  | some (manifest, diffIds) =>
    (parseConfigChecked sha256 diffIds manifest.blobs).map fun _ =>
      registryPull sha256 answers destImageName stores

/-- The diff ids of the config that the pull has fetched, or has composed for schema 1. A pull
that finds its image in the store has no config. -/
def pulledConfig (manifest : PullManifest) : Option (List Text) :=
  if reuseImage stores.images destImageName manifest.configDigest then none
  else if manifest.schemaV1 then
    addRootfsAndHistory (fetchAll sha256 answers manifest stores.layers).2.1
  else answers.config

end Pull

/-- However a pull of these responses goes, no layer behind the last one is accessed, and it
succeeds only if the config has an id for each layer that is not empty. `diffid` are the ids
that the downloads of the layers leave: a download that is shared with the pull of a schema 1
image leaves one. -/
def Matched (sha256 : Text → Text) (manifest : RegistryManifest) (config : List Text)
    (diffid : Nat → Option Text) : Prop :=
  ∀ (answers : PullAnswers) (destImageName : Text) (stores : Stores),
    answers.manifest = parseManifest manifest → answers.config = some config →
    answers.diffid = diffid →
    ∃ result, registryPullChecked sha256 answers destImageName stores = some result ∧
      ∀ parsed diffIds, answers.manifest = some parsed → result.1 = true →
        pulledConfig sha256 answers destImageName stores parsed = some diffIds →
        diffIds.length = parsed.nonEmptyLayers

/-- The config has too many or too few ids, and a pull does not find out: the chain ids of all
layers can be computed, and if there are too few, they and the config name an image. -/
def Misfit (sha256 : Text → Text) (manifest : PullManifest) (config : List Text)
    (diffid : Nat → Option Text) : Prop :=
  manifest.schemaV1 = false ∧ config ≠ [] ∧
    ∃ chains, chainIds sha256 diffid manifest.layers.length 0 [] config = some chains ∧
      (manifest.layers.length < config.length ∨
        config.length < manifest.layers.length ∧ (∀ chainId ∈ chains, namesLayer chainId = true) ∧
          (manifest.configDigest.bind utilWithoutSha256Prefix).isSome)

section Success

variable {sha256 : Text → Text} {answers : PullAnswers} {destImageName : Text} {stores : Stores}
  {manifest : PullManifest} {config chains diffIds : List Text} {diffid : Nat → Option Text}
  {blobs : List LayerBlob}

theorem length_addRootfsAndHistory (listed : addRootfsAndHistory blobs = some diffIds) :
    diffIds.length = blobs.countP fun blob => !blob.emptyLayer := by
  induction blobs generalizing diffIds with
  | nil =>
    cases listed
    rfl
  | cons blob blobs ih =>
    rw [addRootfsAndHistory] at listed
    split at listed
    next empty => simpa [empty] using ih listed
    rename_i nonEmpty
    obtain ⟨diffId, -, listed⟩ := bind_eq_some_iff.mp listed
    obtain ⟨rest, behind, rfl⟩ := map_eq_some_iff.mp listed
    simpa [nonEmpty] using ih behind

/-- A pull gets as far as its image only with all layers and a digest of the config. -/
theorem finishPull_succeeds {fetched : Bool × List LayerBlob × Pulling}
    (second : manifest.schemaV1 = false)
    (pulled : (finishPull answers destImageName manifest fetched stores).1 = true) :
    fetched.1 = true ∧ (manifest.configDigest.bind utilWithoutSha256Prefix).isSome := by
  have image : ∀ {blobs stores}, (registerImage answers destImageName blobs manifest.configDigest
      stores).1 = true → (manifest.configDigest.bind utilWithoutSha256Prefix).isSome := by
    intro blobs stores registered
    unfold registerImage at registered
    split at registered
    · cases registered
    next known => rw [known, isSome_some]
  unfold finishPull at pulled
  rw [second, if_neg Bool.false_ne_true] at pulled
  dsimp only at pulled
  split at pulled
  next ready =>
    simp at ready
    refine ⟨ready.1, image (?_ : (registerImage answers destImageName fetched.2.1
      manifest.configDigest { stores with layers := fetched.2.2.store }).1 = true)⟩
    split at pulled
    · exact pulled
    · cases pulled
  · cases pulled

/-- `fetch_all` succeeds when the layers are found, the config is parsed and the layers are
registered. -/
theorem fetchAll_succeeds {store : LayerStore}
    (fetched : (fetchAll sha256 answers manifest store).1 = true) :
    ∃ desc : Pulling, desc.parentChainId = some [] ∧
      let found := (fetchLayers answers manifest.schemaV1 0 (seenBlobs sha256 answers manifest)
        ⟨store, none, none⟩).2.1
      let read := fetchConfig sha256 answers manifest.schemaV1 found
      read.1 = true ∧ (registerLayersInThread sha256 answers 0 read.2 desc).1 = true := by
  unfold fetchAll at fetched
  split at fetched
  · cases fetched
  split at fetched
  · cases fetched
  rename_i found
  rw [found]
  dsimp only at fetched ⊢
  split at fetched
  · cases fetched
  split at fetched
  · cases fetched
  rename_i config
  rw [config]
  exact ⟨_, rfl, rfl, (Bool.and_eq_true_iff.mp fetched).1⟩

/-- A pull that succeeds with another number of ids has not found out. -/
theorem misfit_of_registryPull (full : manifest.Full) (second : manifest.schemaV1 = false)
    (sent : answers.manifest = some manifest) (configSent : answers.config = some config)
    (new : reuseImage stores.images destImageName manifest.configDigest = false)
    (pulled : (registryPull sha256 answers destImageName stores).1 = true)
    (other : config.length ≠ manifest.layers.length) :
    Misfit sha256 manifest config answers.diffid := by
  unfold registryPull at pulled
  rw [sent] at pulled
  dsimp only at pulled
  rw [new, if_neg Bool.false_ne_true] at pulled
  obtain ⟨fetched, digest⟩ := finishPull_succeeds second pulled
  obtain ⟨desc, above, read, registered⟩ := fetchAll_succeeds fetched
  have layers := fetchLayers_layers sha256 answers manifest ⟨stores.layers, none, none⟩
  rw [second] at read registered layers
  have unset := fetchLayers_unset sha256 configSent second ⟨stores.layers, none, none⟩
  generalize (fetchLayers answers false 0 (seenBlobs sha256 answers manifest)
    ⟨stores.layers, none, none⟩).2.1 = found at *
  have length : found.length = manifest.layers.length := by simpa using congrArg length layers
  have kept := fetchConfig_layers sha256 answers false found
  rw [fetchConfig, if_neg Bool.false_ne_true, configSent] at read registered kept
  unfold parseConfig at read registered kept
  cases config with
  | nil => cases read
  | cons diffId config =>
    refine ⟨second, by simp, ?_⟩
    rcases Nat.lt_or_gt_of_ne other with fewer | more
    · have prepared := prepared_of_parseConfigIds read (by omega) unset
      obtain ⟨chains, chained, named⟩ := chainIds_of_registered prepared
        (by
          intro blob member
          apply full.nonEmpty
          rw [← layers, ← kept]
          exact mem_map_of_mem member)
        above registered
      have size : (parseConfigIds sha256 [] (diffId :: config) found).2.length =
          manifest.layers.length := by
        simpa [length] using congrArg List.length kept
      rw [size] at chained
      exact ⟨chains, chained, .inr ⟨fewer, named, digest⟩⟩
    · obtain ⟨chains, chained⟩ := isSome_iff_exists.mp
        (chainIds_of_parseConfigIds answers.diffid 0 read (le_of_lt more))
      exact ⟨chains, chained, .inl more⟩

/-- Stores without an image or a layer. -/
def bareStores : Stores := ⟨⟨[], nodup_nil⟩, ⟨[], nodup_nil⟩, []⟩

theorem fetchLayers_bare (manifest : Option PullManifest) (config : Option (List Text))
    (diffid : Nat → Option Text) (schemaV1 : Bool) (i : Nat) (blobs : List LayerBlob) :
    fetchLayers (willingAnswers manifest config diffid) schemaV1 i blobs
      ⟨bareStores.layers, none, none⟩ = (true, blobs, ⟨bareStores.layers, none, none⟩) := by
  induction blobs generalizing i with
  | nil => rfl
  | cons blob blobs ih =>
    have here : fetchLayer (willingAnswers manifest config diffid) schemaV1 i blob
        ⟨bareStores.layers, none, none⟩ = (true, blob, ⟨bareStores.layers, none, none⟩) := by
      have unknown : storageLayersGetByCompressDigest bareStores.layers blob.digest = [] := by
        cases blob.digest <;> rfl
      unfold fetchLayer
      rw [unknown]
      split <;> rfl
    rw [fetchLayers, here]
    dsimp only
    rw [ih]

/-- The answers to a pull of a manifest with its config in which nothing fails. -/
abbrev willing (manifest : PullManifest) (config : List Text) (diffid : Nat → Option Text) :
    PullAnswers :=
  willingAnswers (some manifest) (some config) diffid

theorem imageStoreAddName_willing (images : ImageStore) (image : Image) (name : Text)
    (member : image ∈ images.entries) :
    (ImageStore.imageStoreAddName true true images image.id name).1 = true := by
  unfold ImageStore.imageStoreAddName
  rw [ImageStore.lookup_of_mem member]
  dsimp only
  split <;> rfl

/-- Where nothing is stored, an image is made of layers that have a chain id. -/
theorem createImage_willing {layers : LayerStore} {rootfs : List Rootfs} (imageId : Text)
    (someLayer : blobs ≠ []) (nonEmpty : ∀ blob ∈ blobs, blob.emptyLayer = false)
    (chained : ∀ blob ∈ blobs, ∃ chainId, blob.chainId = some chainId ∧ namesLayer chainId = true) :
    ∃ next, createImage (willing manifest config diffid) destImageName blobs imageId
      ⟨bareStores.images, layers, rootfs⟩ = (true, false, next) := by
  have all : blobs.filter (fun blob => !blob.emptyLayer) = blobs :=
    filter_eq_self.mpr fun blob member => by rw [nonEmpty blob member, Bool.not_false]
  obtain ⟨chainId, known, named⟩ := chained _ (getLast_mem someLayer)
  obtain ⟨topLayerId, stripped⟩ := isSome_iff_exists.mp named
  unfold createImage
  rw [all, getLast?_eq_getLast_of_ne_nil someLayer]
  dsimp only
  rw [known, bind_some, stripped]
  dsimp only
  have created : chooseOrCreateImage (willing manifest config diffid) imageId
      topLayerId bareStores.images = some (false, bareStores.images.insert
        { id := imageId, names := [], topLayer := topLayerId, user := none } rfl) := rfl
  have added := imageStoreAddName_willing (bareStores.images.insert
      { id := imageId, names := [], topLayer := topLayerId, user := none } rfl)
    { id := imageId, names := [], topLayer := topLayerId, user := none } destImageName
    (mem_singleton_self _)
  rw [created]
  dsimp only at added ⊢
  rw [show (willing manifest config diffid).savesOther = true from rfl,
    show (willing manifest config diffid).savesName = true from rfl]
  generalize ImageStore.imageStoreAddName true true _ imageId destImageName = named at *
  obtain ⟨ok, images⟩ := named
  cases added
  exact ⟨_, rfl⟩

section Willing

variable (full : manifest.Full) (second : manifest.schemaV1 = false) (listed : config ≠ [])
  (fewer : config.length ≤ manifest.layers.length)
  (chained : chainIds sha256 diffid manifest.layers.length 0 [] config = some chains)
  (named : ∀ chainId ∈ chains, namesLayer chainId = true)

include full second listed fewer chained named

/-- Where nothing is stored, the layers of a manifest whose chain ids can be computed are
fetched and registered. -/
theorem fetchAll_willing :
    let fetched := fetchAll sha256 (willing manifest config diffid) manifest bareStores.layers
    fetched.1 = true ∧ ∀ blob ∈ fetched.2.1, ∃ chainId, blob.chainId = some chainId ∧
      namesLayer chainId = true := by
  have started : ¬ (manifest.layers.isEmpty ||
      !(willing manifest config diffid).startsConfig) = true := by
    simp [willingAnswers, full.layers]
  have unset : ∀ blob ∈ (seenBlobs sha256 (willing manifest config diffid) manifest).drop
      config.length, blob.ids = (none, none) := seenBlobs_unset rfl second
  have flags : (seenBlobs sha256 (willing manifest config diffid) manifest).map
      (·.flags) = manifest.blobs.map (·.flags) := seenBlobs_flags manifest
  unfold fetchAll
  rw [if_neg started, fetchLayers_bare]
  generalize seenBlobs sha256 (willing manifest config diffid) manifest = seen at *
  have length : seen.length = manifest.layers.length := by
    simpa [PullManifest.blobs] using congrArg List.length flags
  have read : (parseConfigIds sha256 [] config seen).1 = true :=
    parseConfigIds_of_chainIds fewer (by rw [chained, isSome_some])
  have prepared := prepared_of_parseConfigIds read (by omega) unset
  have sameFlags : (parseConfigIds sha256 [] config seen).2.map (·.flags) = seen.map (·.flags) :=
    parseConfigIds_flags [] config seen
  have size := congrArg List.length sameFlags
  obtain ⟨layers, new⟩ := fresh_of_flags (sameFlags.trans flags)
  rw [length_map, length_map, length] at size
  have fetched : fetchConfig sha256 (willing manifest config diffid)
      manifest.schemaV1 seen = (true, (parseConfigIds sha256 [] config seen).2) := by
    rw [fetchConfig, second, if_neg Bool.false_ne_true]
    dsimp only [willing, willingAnswers]
    rw [parseConfig, if_neg (by simpa using listed), ← read]
  dsimp only
  rw [if_neg (by simp [willingAnswers]), fetched]
  generalize (parseConfigIds sha256 [] config seen).2 = blobs at *
  have registered := registerLayersInThread_willing (some manifest) (some config)
    ⟨bareStores.layers, none, some [], none⟩ prepared
    (fun blob member => ⟨full.nonEmpty _ (layers ▸ mem_map_of_mem member), (new blob member).1⟩)
    rfl (by intro layer member; cases member) (by intro id isParent; cases isParent)
    (by rw [size]; exact chained) named
  dsimp only at registered ⊢
  refine ⟨?_, registered.2⟩
  rw [registered.1]
  rfl

/-- Where nothing is stored and nothing fails, a config with too few ids is pulled if the
downloads leave the others. -/
theorem registryPull_willing (destImageName : Text)
    (digest : (manifest.configDigest.bind utilWithoutSha256Prefix).isSome) :
    (registryPull sha256 (willing manifest config diffid) destImageName bareStores).1 = true := by
  have fetched := fetchAll_willing full second listed fewer chained named
  have layers : (fetchAll sha256 (willing manifest config diffid) manifest
      bareStores.layers).2.1.map (·.toManifestLayer) = manifest.layers := fetchAll_layers _
  obtain ⟨imageId, known⟩ := isSome_iff_exists.mp digest
  have new : reuseImage bareStores.images destImageName manifest.configDigest = false := rfl
  rw [registryPull, show (willing manifest config diffid).manifest = some manifest from rfl]
  dsimp only at fetched ⊢
  generalize fetchAll sha256 (willing manifest config diffid) manifest bareStores.layers =
    result at *
  obtain ⟨ok, blobs, desc⟩ := result
  obtain ⟨rfl, chains⟩ := fetched
  have someLayer : blobs ≠ [] := by
    rintro rfl
    exact full.layers layers.symm
  have nonEmpty : ∀ blob ∈ blobs, blob.emptyLayer = false := fun blob member =>
    full.nonEmpty _ (layers ▸ mem_map_of_mem member)
  obtain ⟨last, registered⟩ : ∃ last, registerImage (willing manifest config diffid)
      destImageName blobs manifest.configDigest ⟨bareStores.images, desc.store, bareStores.rootfs⟩ =
        (true, false, last) := by
    rw [registerImage, known]
    dsimp only
    rw [(createImage_willing imageId someLayer nonEmpty chains).choose_spec]
    exact ⟨_, rfl⟩
  have ready : (true && (!false || (willing manifest config diffid).v1Config.isSome) &&
      (willing manifest config diffid).timesValid) = true := rfl
  unfold finishPull
  rw [second, if_neg Bool.false_ne_true]
  dsimp only
  rw [if_pos ready, registered]
  rfl

end Willing

theorem registryPullChecked_eq_some {result : Bool × Stores}
    (checked : registryPullChecked sha256 answers destImageName stores = some result) :
    result = registryPull sha256 answers destImageName stores := by
  unfold registryPullChecked at checked
  split at checked
  · exact (some.inj checked).symm
  obtain ⟨_, -, same⟩ := map_eq_some_iff.mp checked
  exact same.symm

/-- An access behind the last layer takes more ids than layers. -/
theorem misfit_of_registryPullChecked
    (faulty : registryPullChecked sha256 answers destImageName stores = none) :
    ∃ manifest config, answers.manifest = some manifest ∧ answers.config = some config ∧
      Misfit sha256 manifest config answers.diffid := by
  unfold registryPullChecked at faulty
  split at faulty
  · cases faulty
  rename_i manifest config found
  simp only [fetchedConfig, bind_eq_bind, bind_eq_some_iff, ite_none_left_eq_some, map_eq_some_iff,
    Bool.or_eq_true, not_or, Bool.not_eq_true] at found
  obtain ⟨_, sent, ⟨-, second⟩, _, configSent, same⟩ := found
  cases same
  obtain ⟨more, chained⟩ : _ ∧ _ := by simpa [parseConfigChecked_eq answers.diffid] using faulty
  obtain ⟨chains, chained⟩ := ne_none_iff_exists'.mp chained
  rw [PullManifest.blobs, length_map] at more chained
  refine ⟨manifest, config, sent, configSent, second, ?_, chains, chained, .inl more⟩
  rintro rfl
  simp at more

/-- A pull of a manifest with its config has them, whatever the layers are. -/
theorem registryPullChecked_willing (full : manifest.Full) (second : manifest.schemaV1 = false) :
    registryPullChecked sha256 (willing manifest config diffid) destImageName bareStores =
      (parseConfigChecked sha256 config manifest.blobs).map fun _ =>
        registryPull sha256 (willing manifest config diffid) destImageName bareStores := by
  have parses : fetchedConfig (willing manifest config diffid) destImageName bareStores =
      some (manifest, config) := by
    have new : reuseImage bareStores.images destImageName manifest.configDigest = false := rfl
    simp [fetchedConfig, willingAnswers, new, full.layers, second]
  rw [registryPullChecked, parses]

/-- Every pull of these responses stays inside the layers and succeeds only with an id for each
layer that is not empty, unless the number of ids is wrong and the chain ids can be computed
nevertheless. -/
theorem matched_iff (sha256 : Text → Text) (manifest : RegistryManifest) (config : List Text)
    (diffid : Nat → Option Text) :
    Matched sha256 manifest config diffid ↔
      ∀ parsed, parseManifest manifest = some parsed → ¬ Misfit sha256 parsed config diffid := by
  constructor
  · rintro matched parsed read ⟨second, listed, chains, chained, kind⟩
    have full := parseManifest_full read second
    obtain ⟨result, checked, only⟩ := matched (willing parsed config diffid) [] bareStores read.symm
      rfl rfl
    rcases kind with more | ⟨fewer, named, digest⟩
    · have faulty : parseConfigChecked sha256 config parsed.blobs = none := by
        rw [parseConfigChecked_eq diffid, PullManifest.blobs, length_map, chained]
        exact if_pos ⟨more, rfl⟩
      rw [registryPullChecked_willing full second, faulty] at checked
      cases checked
    · have pulled := registryPull_willing full second listed fewer.le chained named [] digest
      rw [← registryPullChecked_eq_some checked] at pulled
      have configPulled : pulledConfig sha256 (willing parsed config diffid) [] bareStores parsed =
          some config := by
        have new : reuseImage bareStores.images [] parsed.configDigest = false := rfl
        rw [pulledConfig, new, second]
        rfl
      have same := only parsed config rfl pulled configPulled
      rw [full.count] at same
      omega
  · rintro fits answers destImageName stores sent configSent rfl
    cases checked : registryPullChecked sha256 answers destImageName stores with
    | none =>
      obtain ⟨parsed, other, sentParsed, otherSent, misfit⟩ := misfit_of_registryPullChecked checked
      rw [configSent] at otherSent
      cases otherSent
      exact absurd misfit (fits parsed (sent.symm.trans sentParsed))
    | some result =>
      refine ⟨result, rfl, fun parsed diffIds sentParsed pulled pulledIds => ?_⟩
      rw [registryPullChecked_eq_some checked] at pulled
      unfold pulledConfig at pulledIds
      split at pulledIds
      · cases pulledIds
      rename_i new
      split at pulledIds
      · rw [length_addRootfsAndHistory pulledIds, PullManifest.nonEmptyLayers,
          ← fetchAll_layers, countP_map]
        rfl
      next second =>
        rw [Bool.not_eq_true] at new second
        rw [configSent] at pulledIds
        cases pulledIds
        have full := parseManifest_full (sent.symm.trans sentParsed) second
        rw [full.count]
        by_contra other
        exact fits parsed (sent.symm.trans sentParsed)
          (misfit_of_registryPull full second sentParsed configSent new pulled other)

/-- A manifest of one layer. -/
def oneLayer : RegistryManifest :=
  .schema2 (some "sha256:c".toList) [⟨dockerImageLayerTarGzip, some "sha256:1".toList⟩]

/-- A config of two ids. -/
def twoIds : List Text := ["sha256:d".toList, "sha256:e".toList]

/-- A digest that gives every layer the same id. -/
def digestB (_ : Text) : Text := "b".toList

/-- With one layer and two ids, the second id is written behind the layers. -/
theorem matched_fails_secondId : ¬ Matched digestB oneLayer twoIds fun _ => none := by
  intro matched
  obtain ⟨result, checked, -⟩ := matched
    (willingAnswers (parseManifest oneLayer) (some twoIds) fun _ => none) [] bareStores rfl rfl rfl
  have faulty : (registryPullChecked digestB (willingAnswers (parseManifest oneLayer) (some twoIds)
      fun _ => none) [] bareStores).isNone = true := by
    decide +kernel
  rw [checked] at faulty
  cases faulty

end Success

end Isulad.Registry
