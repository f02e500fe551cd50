import Isulad.Registry.Descriptor
import Isulad.Registry.Manifest
import Isulad.Std.Trace

/-!
# Downloads that pulls share

Any number of pulls of `registry.c` at a time. The loop of `fetch_all` over the layers, the
thread for the config, the threads that download and the thread that registers the layers take
their turns in any order, and so does everything else that changes the layer store. One event is
what a thread does while it holds the lock. A blob that several pulls want is downloaded once:
`cached_layers` lists who waits for it, and the file is linked into the directory of each.
-/

namespace Isulad.Registry

open Function Isulad.Std Isulad.Storage

/-- The code outside the repository that computes digests. -/
structure Hasher where
  /-- SHA-256, in hexadecimal digits. -/
  sha256 : Text → Text
  /-- What `gzread` makes of a compressed file, unless it fails. -/
  gunzip : Text → Option Text

variable (hasher : Hasher) (file : Text)

/-- `sha256_full_file_digest`. -/
def Hasher.fullFileDigest : Text := sha256Lead ++ hasher.sha256 file

/-- `util_gzip_compressed`. -/
def utilGzipCompressed (file : Text) : Bool := ['\x1f', '\x8b', '\x08'].isPrefixOf file

/-- The file without the compression by `gzip`. -/
def Hasher.uncompressed : Option Text :=
  if utilGzipCompressed file then hasher.gunzip file else some file

/-- `oci_calc_diffid`. -/
def Hasher.ociCalcDiffid : Option Text :=
  (hasher.uncompressed file).map hasher.fullFileDigest

/-- `fetch_layer`. The media type of a layer is never that of signed content. -/
def Hasher.fetchLayer (digest : Text) (attempts : Nat → Attempt) : Except Attempt Text :=
  retry (fun file => hasher.fullFileDigest file == digest) attempts 0 retryTimes

/-- `cached_layer`. -/
structure CachedLayer where
  /-- Whether the download has succeeded, when it is `complete`. -/
  result : Option Bool
  /-- The file that the thread writes. -/
  source : BlobFile
  /-- `file_list`. -/
  files : List BlobFile

/-- A `pull_descriptor`, and how far its loops have come. -/
structure PullThread where
  schemaV1 : Bool
  layersLen : Nat
  /-- `config.complete`. -/
  configComplete : Bool
  /-- The diff ids of the config. -/
  config : List Text := []
  cancel : Bool := false
  /-- The layers that the loop of `fetch_all` has passed. -/
  scanned : Nat := 0
  /-- The variable `parent_chain_id` of that loop. -/
  scanParentChainId : Option Text := none
  /-- The layers that `register_layers_in_thread` has passed. -/
  registered : Nat := 0
  registerLayersComplete : Bool := false
  layerOfHoldRefs : Option Text := none
  parentChainId : Option Text := some []
  parentLayerId : Option Text := none

/-- A layer that a pull has newly registered. -/
structure Applied where
  schemaV1 : Bool
  config : List Text
  blob : LayerBlob
  /-- What the file held that was unpacked. -/
  content : Option Text

/-- The pulls by their directories, the layers and `thread_fetch_info`s of each by the name of
the file, the files, `cached_layers`, and what has been registered so far. -/
structure Downloads where
  store : LayerStore
  pulls : Text → Option PullThread
  layer : BlobFile → LayerBlob
  info : BlobFile → ThreadFetchInfo
  content : BlobFile → Option Text
  cachedLayers : Text → Option CachedLayer
  applied : List Applied

/-- No pull has been started yet. -/
def Downloads.idle (store : LayerStore) : Downloads where
  store := store
  pulls _ := none
  layer _ := { emptyLayer := true, digest := none }
  info _ := {}
  content _ := none
  cachedLayers _ := none
  applied := []

namespace Downloads

variable (state : Downloads) (blobpath : Text) (pull : PullThread)

def setStore (store : LayerStore) : Downloads := { state with store := store }

def setPull : Downloads :=
  { state with pulls := update state.pulls blobpath (some pull) }

def setLayer (file : BlobFile) (blob : LayerBlob) : Downloads :=
  { state with layer := update state.layer file blob }

theorem pulls_setPull_self :
    (state.setPull blobpath pull).pulls blobpath = some pull := update_self ..

theorem pulls_setPull_of_ne {blobpath other : Text} (pull : PullThread) (apart : other ≠ blobpath) :
    (state.setPull blobpath pull).pulls other = state.pulls other :=
  update_of_ne apart ..

theorem layer_setLayer_self (file : BlobFile) (blob : LayerBlob) :
    (state.setLayer file blob).layer file = blob := update_self ..

/-- A newly registered layer is written down. -/
def note (applied : Option Applied) : Downloads :=
  { state with applied := state.applied ++ applied.toList }

/-- `fetch_all` begins. Its directory is a new one of `mkdtemp`. -/
def start (schemaV1 : Bool) (layers : List ManifestLayer) : Option Downloads :=
  if (state.pulls blobpath).isSome || layers.isEmpty then none
  else
    some
      { state with
        pulls := update state.pulls blobpath
          (some { schemaV1 := schemaV1, layersLen := layers.length, configComplete := schemaV1 })
        layer := fun file => if file.blobpath = blobpath then
            { toManifestLayer := layers.getD file.index ⟨true, none⟩ }
          else state.layer file
        info := fun file => if file.blobpath = blobpath then {} else state.info file
        content := fun file => if file.blobpath = blobpath then none else state.content file }

/-- The file is put on the list of a download, with the content it has or is given. -/
def join (digest : Text) (cached : CachedLayer) (file : BlobFile) (info : ThreadFetchInfo)
    (content : Option Text) : Downloads :=
  { state with
    cachedLayers := update state.cachedLayers digest
      (some { cached with files := cached.files ++ [file] })
    info := update state.info file info
    content := update state.content file content }

/-- `add_cached_layer` for a blob that has been downloaded: the file is a link to the first. -/
def addDownloaded (links : Bool) (digest : Text) (cached : CachedLayer) (file : BlobFile) :
    Option Downloads :=
  match cached.files.head? with
  | none => none
  | some source =>
    match state.content source with
    | none => none
    | some content =>
      if links && (state.content file).isNone then
        some (state.join digest cached file
          { file := some file, use := true, notified := true, diffid := (state.info source).diffid }
          (some content))
      else none

/-- `add_fetch_task`; `none` is a failure. `links` is the answer of `link` and `starts` that of
`pthread_create`. `cached_layers` has no entry without a digest. -/
def addFetchTask (links starts : Bool) (file : BlobFile) :
    Option Text → Option Downloads
  | none => none
  | some digest =>
    match state.cachedLayers digest with
    | none =>
      if starts then
        some (state.join digest ⟨none, file, []⟩ file { file := some file, use := true }
          (state.content file))
      else none
    | some cached =>
      match cached.result with
      | none =>
        some (state.join digest cached file { file := some file, use := true } (state.content file))
      | some false => none
      | some true => state.addDownloaded links digest cached file

/-- One turn of the loop of `fetch_all` over the layers. -/
def scan (state : Downloads) (blobpath : Text) (links starts : Bool) : Option Downloads :=
  match state.pulls blobpath with
  | none => none
  | some pull =>
    if pull.registerLayersComplete || pull.layersLen ≤ pull.scanned then none
    else
      let file := ⟨blobpath, pull.scanned⟩
      let blob := state.layer file
      let next := { pull with scanned := pull.scanned + 1 }
      if blob.emptyLayer then some (state.setPull blobpath next)
      else
        match reuseStored pull.scanned (storageLayersGetByCompressDigest state.store blob.digest)
          ⟨state.store, pull.layerOfHoldRefs, pull.scanParentChainId⟩ with
        | (some layer, scan) =>
          let blob := markExisting pull.schemaV1 layer blob
          some (((state.setStore scan.store).setLayer file blob).setPull blobpath
            { next with
              layerOfHoldRefs := scan.layerOfHoldRefs, scanParentChainId := blob.chainId })
        | (none, scan) =>
          let next :=
            { next with layerOfHoldRefs := scan.layerOfHoldRefs, scanParentChainId := none }
          let state := (state.setStore scan.store).setPull blobpath next
          match state.addFetchTask links starts file blob.digest with
          | none =>
            some (state.setPull blobpath
              { next with cancel := true, registerLayersComplete := true })
          | some state => some state

/-- `fetch_config_in_thread`: the diff ids of the config, if it could be fetched and read. -/
def fetchConfig (hasher : Hasher) (state : Downloads) (blobpath : Text)
    (diffIds : Option (List Text)) : Option Downloads :=
  match state.pulls blobpath with
  | none => none
  | some pull =>
    if pull.configComplete then none
    else
      match diffIds with
      | none => some (state.setPull blobpath { pull with configComplete := true, cancel := true })
      | some diffIds =>
        let parsed := parseConfig hasher.sha256 diffIds
          ((List.range pull.layersLen).map fun i => state.layer ⟨blobpath, i⟩)
        some
          { state with
            pulls := update state.pulls blobpath
              (some { pull with
                configComplete := true, config := diffIds, cancel := pull.cancel || !parsed.1 })
            layer := fun file => if file.blobpath = blobpath then
                parsed.2.getD file.index (state.layer file)
              else state.layer file }

/-- `set_cached_layers_info` and `notify_cached_descs`: the result of a download, the files it
leaves, and the pulls that are cancelled. -/
def settle (digest : Text) (cached : CachedLayer) (result : Bool) (diffid : Option Text)
    (content : BlobFile → Option Text) (cancels : Text → Bool) : Downloads :=
  { state with
    cachedLayers := update state.cachedLayers digest
      (some { cached with result := some result })
    info := fun file => if file ∈ cached.files then
        { state.info file with
          notified := true, diffid := (state.info file).diffid.or diffid }
      else state.info file
    content := content
    pulls := fun blobpath => (state.pulls blobpath).map fun pull =>
      { pull with cancel := pull.cancel || cancels blobpath } }

/-- A download has failed. Only its own pull is cancelled. -/
def fail (digest : Text) (cached : CachedLayer) (left : Text) : Downloads :=
  state.settle digest cached false none
    (update state.content cached.source (some left)) (· == cached.source.blobpath)

/-- `link` gives a waiting file the content of the download. -/
def linked (state : Downloads) (links : BlobFile → Bool) (file : BlobFile) : Bool :=
  links file && (state.content file).isNone

/-- A download has succeeded. A pull whose file cannot be linked is cancelled. -/
def complete (digest : Text) (cached : CachedLayer) (content : Text) (diffid : Option Text)
    (links : BlobFile → Bool) : Downloads :=
  state.settle digest cached true diffid
    (fun file =>
      if file = cached.source ∨ file ∈ cached.files ∧ state.linked links file then some content
      else state.content file)
    fun blobpath => cached.files.any fun file =>
      file.blobpath == blobpath && file != cached.source && !state.linked links file

/-- `fetch_layer_in_thread`. With schema 1 it computes the diff id, otherwise it does not. -/
def fetchLayerInThread (hasher : Hasher) (state : Downloads) (digest : Text)
    (attempts : Nat → Attempt) (links : BlobFile → Bool) : Option Downloads :=
  match state.cachedLayers digest with
  | none => none
  | some cached =>
    match cached.result, state.pulls cached.source.blobpath with
    | none, some pull =>
      match hasher.fetchLayer digest attempts with
      | .error attempt => some (state.fail digest cached attempt.file)
      | .ok content =>
        if pull.schemaV1 then
          match hasher.ociCalcDiffid content with
          | none => some (state.fail digest cached content)
          | some diffid => some (state.complete digest cached content (some diffid) links)
        else some (state.complete digest cached content none links)
    | _, _ => none

/-- `wait_fetch_complete` lets the layer pass, and the pull is not cancelled. -/
def ready (file : BlobFile) : Bool :=
  !pull.cancel && pull.configComplete && (!(state.info file).use || (state.info file).notified)

/-- The layer that `register_layer` has made and that has not been there before. -/
def newlyApplied (blob : LayerBlob) : Option Applied :=
  if blob.registered &&
      ((blob.chainId.bind utilWithoutSha256Prefix).bind state.store.layerStoreLookup).isNone then
    some ⟨pull.schemaV1, pull.config, blob, blob.file.bind state.content⟩
  else none

/-- One turn of the loop of `register_layers_in_thread`, which begins when all layers have been
looked at. Only a file that exists can be opened. -/
def register (hasher : Hasher) (state : Downloads) (blobpath : Text) (creation : Creation) :
    Option Downloads :=
  match state.pulls blobpath with
  | none => none
  | some pull =>
    let file := ⟨blobpath, pull.registered⟩
    if pull.registerLayersComplete || pull.scanned < pull.layersLen ||
        pull.layersLen ≤ pull.registered || !state.ready pull file then none
    else
      match setCachedInfoToDesc hasher.sha256 (state.info file) (state.layer file)
        ⟨state.store, pull.layerOfHoldRefs, pull.parentChainId, pull.parentLayerId⟩ with
      | none =>
        some (state.setPull blobpath { pull with cancel := true, registerLayersComplete := true })
      | some (blob, desc) =>
        let creation :=
          { creation with
            opensData := creation.opensData && (blob.file.bind state.content).isSome }
        match registerLayer (blob.digest.bind state.cachedLayers).isSome creation blob desc with
        | (ok, blob, desc) =>
          let next :=
            { pull with
              registered := pull.registered + 1
              cancel := !ok
              registerLayersComplete := !ok
              layerOfHoldRefs := desc.layerOfHoldRefs
              parentChainId := desc.parentChainId
              parentLayerId := desc.parentLayerId }
          some ((((state.note (state.newlyApplied pull blob)).setStore desc.store).setPull blobpath
            next).setLayer file blob)

/-- `register_layers_in_thread` ends, because it has passed all layers or the pull is cancelled,
or it cannot be started. -/
def stop : Option Downloads :=
  match state.pulls blobpath with
  | none => none
  | some pull =>
    if pull.scanned < pull.layersLen ||
        (pull.registered != 0 && pull.registered < pull.layersLen && !pull.cancel) then none
    else some (state.setPull blobpath { pull with registerLayersComplete := true })

/-- A download of the pull fails and sets `cancel` before it tells those who wait for it. -/
def giveUp : Option Downloads :=
  (state.pulls blobpath).map fun pull => state.setPull blobpath { pull with cancel := true }

/-- The end of `fetch_all` when `all_fetch_complete` says so, and the removal of the directory. -/
def finish : Option Downloads :=
  match state.pulls blobpath with
  | none => none
  | some pull =>
    if pull.configComplete && pull.registerLayersComplete &&
        (List.range pull.layersLen).all fun i =>
          !(state.info ⟨blobpath, i⟩).use || (state.info ⟨blobpath, i⟩).notified then
      some
        { state with
          pulls := update state.pulls blobpath none
          content := fun file => if file.blobpath = blobpath then none else state.content file
          -- `del_cached_layer` for every layer of the pull
          cachedLayers := fun digest => (state.cachedLayers digest).bind fun cached =>
            let files := cached.files.filter fun file => file.blobpath != blobpath
            if files.isEmpty then none else some { cached with files := files } }
    else none

end Downloads

/-- What one of the threads does next, with the answers of everything outside. -/
inductive DownloadEvent where
  | start (blobpath : Text) (schemaV1 : Bool) (layers : List ManifestLayer)
  | scan (blobpath : Text) (links starts : Bool)
  | fetchConfig (blobpath : Text) (diffIds : Option (List Text))
  | fetchLayer (digest : Text) (attempts : Nat → Attempt) (links : BlobFile → Bool)
  | giveUp (blobpath : Text)
  | register (blobpath : Text) (creation : Creation)
  | stop (blobpath : Text)
  | finish (blobpath : Text)
  /-- The rest of a pull, a load, a removal and so on. -/
  | elsewhere (store : LayerStore)

/-- One event. -/
def Downloads.step (state : Downloads) : DownloadEvent → Option Downloads
  | .start blobpath schemaV1 layers => state.start blobpath schemaV1 layers
  | .scan blobpath links starts => state.scan blobpath links starts
  | .fetchConfig blobpath diffIds => state.fetchConfig hasher blobpath diffIds
  | .fetchLayer digest attempts links => state.fetchLayerInThread hasher digest attempts links
  | .giveUp blobpath => state.giveUp blobpath
  | .register blobpath creation => state.register hasher blobpath creation
  | .stop blobpath => state.stop blobpath
  | .finish blobpath => state.finish blobpath
  | .elsewhere store => some (state.setStore store)

/-- The pulls of a daemon that has a layer store. -/
def registryPulls (store : LayerStore) : Machine Downloads DownloadEvent where
  initial := .idle store
  step := Downloads.step hasher

end Isulad.Registry
