import Isulad.Registry.Download

/-!
# What the registered layers were made from

A file that a pull unpacks has the digest that the manifest gives for the layer, whichever pull
has downloaded it. With schema 1 the diff id is computed from the file as well. Otherwise it is
that of the config, and nothing compares it with the file.
-/

namespace Isulad.Registry

open Option List Function Isulad.Std Isulad.Storage

/-- The digest of the uncompressed content is the diff id under which the layer was registered. -/
def Applied.MatchesDiffId (hasher : Hasher) (applied : Applied) : Prop :=
  ∃ content diffId, applied.content = some content ∧ applied.blob.diffId = some diffId ∧
    hasher.ociCalcDiffid content = some diffId

/-- Where the content and the ids of a registered layer come from. -/
structure Applied.Traced (hasher : Hasher) (applied : Applied) (content diffId : Text) : Prop where
  unpacked : applied.content = some content
  called : applied.blob.diffId = some diffId
  /-- The blob is the one that the manifest names. -/
  digest : applied.blob.digest = some (hasher.fullFileDigest content)
  /-- The layer's id is computed from the diff id and the chain below. -/
  chained : ∃ parent chainId id, calcChainId hasher.sha256 (some parent) diffId = some chainId ∧
    applied.blob.chainId = some chainId ∧ utilWithoutSha256Prefix chainId = some id
  /-- With schema 1 the diff id is computed from the content. -/
  computed : applied.schemaV1 = true → hasher.ociCalcDiffid content = some diffId
  /-- Otherwise the config gives it, or it is computed by a pull that shares the download. -/
  given : applied.schemaV1 = false →
    diffId ∈ applied.config ∨ hasher.ociCalcDiffid content = some diffId

/-- A file has the digest that is wanted, and a diff id that comes with it is its own. -/
structure Checked (hasher : Hasher) (digest diffid : Option Text) (content : Text) : Prop where
  digest : digest = some (hasher.fullFileDigest content)
  diffid : diffid = none ∨ diffid = hasher.ociCalcDiffid content

/-- The ids of a layer that has not been registered: they are those of the config, unless the
layer exists. -/
structure Named (hasher : Hasher) (schemaV1 : Bool) (config : List Text)
    (blob : LayerBlob) : Prop where
  unfiled : blob.file = none
  unregistered : blob.registered = false
  given : blob.alreadyExist = false → ∀ diffId, blob.diffId = some diffId →
    schemaV1 = false ∧ diffId ∈ config
  chained : blob.alreadyExist = false → ∀ chainId, blob.chainId = some chainId →
    ∃ parent diffId, blob.diffId = some diffId ∧
      calcChainId hasher.sha256 (some parent) diffId = some chainId

/-- What holds of a layer of a pull and of its file. -/
structure SlotHolds (hasher : Hasher) (state : Downloads) (pull : PullThread) (file : BlobFile) :
    Prop where
  ahead : pull.scanned ≤ file.index → (state.info file).use = false ∧ state.content file = none
  inside : (state.info file).use = true →
    file.index < pull.layersLen ∧ (state.info file).file = some file
  checked : pull.cancel = false → (state.info file).use = true → (state.info file).notified = true →
    ∀ content, state.content file = some content →
      Checked hasher (state.layer file).digest (state.info file).diffid content
  named : pull.registered ≤ file.index → Named hasher pull.schemaV1 pull.config (state.layer file)
  unread : pull.configComplete = false → pull.schemaV1 = false ∧ pull.config = []

/-- What holds of a download and of the files on its list. -/
structure EntryHolds (hasher : Hasher) (state : Downloads) (digest : Text) (cached : CachedLayer) :
    Prop where
  listed : ∀ file ∈ cached.files, (state.pulls file.blobpath).isSome = true ∧
    (state.info file).use = true ∧ (state.layer file).digest = some digest
  waiting : cached.result = none → cached.source ∈ cached.files ∧
    ∀ file ∈ cached.files, state.content file = none ∧ (state.info file).diffid = none ∧
      (state.info file).notified = false
  complete : cached.result = some true → ∀ file ∈ cached.files,
    ∀ content, state.content file = some content →
      Checked hasher (some digest) (state.info file).diffid content

/-- The invariant of all runs. -/
structure Downloads.Sound (hasher : Hasher) (state : Downloads) : Prop where
  slots : ∀ file pull, state.pulls file.blobpath = some pull → SlotHolds hasher state pull file
  entries : ∀ digest cached, state.cachedLayers digest = some cached →
    EntryHolds hasher state digest cached
  applied : ∀ applied ∈ state.applied, ∃ content diffId, applied.Traced hasher content diffId

section Frame

variable {hasher : Hasher} {state next : Downloads} {file : BlobFile} {blobpath digest : Text}
  {before after : PullThread} {cached : CachedLayer}

/-- How a pull changes while its config stays. -/
structure PullThread.Advances (before after : PullThread) : Prop where
  schemaV1 : after.schemaV1 = before.schemaV1
  layersLen : after.layersLen = before.layersLen
  config : after.config = before.config
  configComplete : after.configComplete = false → before.configComplete = false
  cancel : after.cancel = false → before.cancel = false
  scanned : before.scanned ≤ after.scanned
  registered : before.registered ≤ after.registered

theorem PullThread.Advances.refl (pull : PullThread) : pull.Advances pull :=
  ⟨rfl, rfl, rfl, id, id, le_rfl, le_rfl⟩

/-- A slot that is left alone. -/
theorem SlotHolds.advance (holds : SlotHolds hasher state before file)
    (advances : before.Advances after) (info : next.info file = state.info file)
    (content : next.content file = state.content file)
    (layer : next.layer file = state.layer file) : SlotHolds hasher next after file where
  ahead passed := by
    rw [info, content]
    exact holds.ahead (le_trans advances.scanned passed)
  inside := by
    rw [info, advances.layersLen]
    exact holds.inside
  checked active := by
    rw [info, content, layer]
    exact holds.checked (advances.cancel active)
  named passed := by
    rw [layer, advances.schemaV1, advances.config]
    exact holds.named (le_trans advances.registered passed)
  unread reading := by
    rw [advances.schemaV1, advances.config]
    exact holds.unread (advances.configComplete reading)

/-- An entry whose files are left alone. -/
theorem EntryHolds.keep (holds : EntryHolds hasher state digest cached)
    (pulls : ∀ file ∈ cached.files, (state.pulls file.blobpath).isSome = true →
      (next.pulls file.blobpath).isSome = true)
    (info : ∀ file ∈ cached.files, next.info file = state.info file)
    (content : ∀ file ∈ cached.files, next.content file = state.content file)
    (layer : ∀ file ∈ cached.files, (next.layer file).digest = (state.layer file).digest) :
    EntryHolds hasher next digest cached where
  listed file member := by
    obtain ⟨pulled, use, same⟩ := holds.listed file member
    rw [info file member, layer file member]
    exact ⟨pulls file member pulled, use, same⟩
  waiting running := by
    obtain ⟨source, idle⟩ := holds.waiting running
    refine ⟨source, fun file member => ?_⟩
    rw [info file member, content file member]
    exact idle file member
  complete done file member := by
    rw [info file member, content file member]
    exact holds.complete done file member

section

variable (sound : state.Sound hasher)
include sound

theorem Downloads.Sound.setStore (store : LayerStore) :
    (state.setStore store).Sound hasher :=
  ⟨fun file pull found => (sound.slots file pull found).advance (.refl pull) rfl rfl rfl,
    fun digest cached found => (sound.entries digest cached found).keep (fun _ _ => id)
      (fun _ _ => rfl) (fun _ _ => rfl) fun _ _ => rfl,
    sound.applied⟩

theorem Downloads.Sound.setPull (found : state.pulls blobpath = some before)
    (advances : before.Advances after) :
    (state.setPull blobpath after).Sound hasher where
  slots file pull known := by
    by_cases same : file.blobpath = blobpath
    · rw [same, pulls_setPull_self] at known
      cases known
      exact (sound.slots file before (same ▸ found)).advance advances rfl rfl rfl
    · rw [pulls_setPull_of_ne state after same] at known
      exact (sound.slots file pull known).advance (.refl pull) rfl rfl rfl
  entries digest cached known :=
    (sound.entries digest cached known).keep
      (fun file _ pulled => by
        by_cases same : file.blobpath = blobpath
        · rw [same, pulls_setPull_self]
          rfl
        · rw [pulls_setPull_of_ne state after same]
          exact pulled)
      (fun _ _ => rfl) (fun _ _ => rfl) fun _ _ => rfl
  applied := sound.applied

/-- The layer of a slot changes, but not its digest. -/
theorem Downloads.Sound.setLayer {blob : LayerBlob} (same : blob.digest = (state.layer file).digest)
    (named : ∀ pull, state.pulls file.blobpath = some pull → pull.registered ≤ file.index →
      Named hasher pull.schemaV1 pull.config blob) :
    (state.setLayer file blob).Sound hasher where
  slots other pull known := by
    have old := sound.slots other pull known
    by_cases here : other = file
    · subst here
      refine ⟨old.ahead, old.inside, ?_, ?_, old.unread⟩
      · rw [layer_setLayer_self, same]
        exact old.checked
      · rw [layer_setLayer_self]
        exact named pull known
    · exact old.advance (.refl pull) rfl rfl (update_of_ne here ..)
  entries digest cached known :=
    (sound.entries digest cached known).keep (fun _ _ => id) (fun _ _ => rfl) (fun _ _ => rfl)
      fun other _ => by
        by_cases here : other = file
        · rw [here, layer_setLayer_self, same]
        · exact congrArg (·.1.digest) (update_of_ne here blob state.layer)
  applied := sound.applied

theorem Downloads.Sound.note {new : Option Applied}
    (traced : ∀ applied, new = some applied → ∃ content diffId,
      applied.Traced hasher content diffId) :
    (state.note new).Sound hasher where
  slots file pull found := (sound.slots file pull found).advance (.refl pull) rfl rfl rfl
  entries digest cached found := (sound.entries digest cached found).keep (fun _ _ => id)
    (fun _ _ => rfl) (fun _ _ => rfl) fun _ _ => rfl
  applied := forall_mem_append.mpr
    ⟨sound.applied, fun applied fresh => traced applied (mem_toList.mp fresh)⟩

end

end Frame

section Scan

variable {hasher : Hasher} {state next : Downloads} {file : BlobFile} {blobpath digest : Text}
  {pull : PullThread} {cached : CachedLayer} {links starts schemaV1 : Bool}

theorem Downloads.Sound.start (sound : state.Sound hasher) {layers : List ManifestLayer}
    (taken : state.start blobpath schemaV1 layers = some next) : next.Sound hasher := by
  unfold Downloads.start at taken
  split at taken
  · cases taken
  rename_i enabled
  have new : state.pulls blobpath = none := by
    cases found : state.pulls blobpath with
    | none => rfl
    | some pull => simp [found] at enabled
  cases taken
  refine ⟨fun file pull known => ?_, fun digest cached known => ?_, sound.applied⟩
  · by_cases same : file.blobpath = blobpath
    · dsimp only at known
      rw [same, update_self] at known
      cases known
      refine ⟨fun _ => ?_, ?_, fun _ => ?_, fun _ => ?_, fun reading => ⟨reading, rfl⟩⟩
      · simp [if_pos same]
      · simp only [if_pos same]
        exact nofun
      · simp only [if_pos same]
        exact nofun
      · simp only [if_pos same]
        exact ⟨rfl, rfl, fun _ _ => nofun, fun _ _ => nofun⟩
    · dsimp only at known
      rw [update_of_ne same] at known
      exact (sound.slots file pull known).advance (.refl pull) (if_neg same) (if_neg same)
        (if_neg same)
  · have old := sound.entries digest cached known
    -- the directory is new, so no download lists a file in it
    have apart : ∀ file ∈ cached.files, file.blobpath ≠ blobpath := by
      intro file member same
      have pulled := (old.listed file member).1
      rw [same, new] at pulled
      cases pulled
    refine old.keep (fun file member pulled => ?_) (fun file member => if_neg (apart file member))
      (fun file member => if_neg (apart file member)) fun file member => ?_
    · dsimp only
      rw [update_of_ne (apart file member)]
      exact pulled
    · dsimp only
      rw [if_neg (apart file member)]

section

variable (sound : state.Sound hasher) (found : state.pulls file.blobpath = some pull)
  (passed : file.index < pull.scanned) (inside : file.index < pull.layersLen)
  (unused : (state.info file).use = false)
include sound found passed inside unused

/-- A file that has not been used is put on a list. -/
theorem Downloads.Sound.join (wanted : (state.layer file).digest = some digest)
    (prior : cached.files = [] ∨ state.cachedLayers digest = some cached)
    {info : ThreadFetchInfo} (use : info.use = true) (own : info.file = some file)
    {content : Option Text}
    (waiting : cached.result = none → cached.source ∈ cached.files ++ [file] ∧
      content = none ∧ info.diffid = none ∧ info.notified = false)
    (checked : ∀ text, content = some text → Checked hasher (some digest) info.diffid text) :
    (state.join digest cached file info content).Sound hasher := by
  -- a listed file is in use
  have apart : ∀ other entry, state.cachedLayers other = some entry → ∀ listed ∈ entry.files,
      listed ≠ file := by
    rintro other entry known listed member rfl
    have used := ((sound.entries other entry known).listed listed member).2.1
    rw [unused] at used
    cases used
  refine ⟨fun other pullOther known => ?_, fun other entry known => ?_, sound.applied⟩
  · have old := sound.slots other pullOther known
    by_cases here : other = file
    · subst here
      cases some.inj (known.symm.trans found)
      refine ⟨fun ahead => absurd passed (Nat.not_lt.mpr ahead), fun _ => ⟨inside, ?_⟩, ?_,
        old.named, old.unread⟩
      · dsimp only [Downloads.join]
        rw [update_self]
        exact own
      · dsimp only [Downloads.join]
        rw [update_self, update_self, wanted]
        exact fun _ _ _ => checked
    · exact old.advance (.refl pullOther) (update_of_ne here ..)
        (update_of_ne here ..) rfl
  · by_cases same : other = digest
    · subst same
      dsimp only [Downloads.join] at known
      rw [update_self] at known
      cases known
      have old : ∀ listed ∈ cached.files, EntryHolds hasher state other cached ∧ listed ≠ file := by
        intro listed member
        rcases prior with empty | known
        · rw [empty] at member
          cases member
        · exact ⟨sound.entries other cached known, apart other cached known listed member⟩
      refine ⟨fun listed member => ?_,
        fun running => ⟨(waiting running).1, fun listed member => ?_⟩,
        fun done listed member => ?_⟩
      all_goals
        dsimp only [Downloads.join]
        rcases mem_append.mp member with earlier | last
      · obtain ⟨entry, other⟩ := old listed earlier
        rw [update_of_ne other]
        exact entry.listed listed earlier
      · rw [mem_singleton.mp last, update_self, found]
        exact ⟨rfl, use, wanted⟩
      · obtain ⟨entry, other⟩ := old listed earlier
        rw [update_of_ne other, update_of_ne other]
        exact (entry.waiting running).2 listed earlier
      · rw [mem_singleton.mp last, update_self, update_self]
        exact (waiting running).2
      · obtain ⟨entry, other⟩ := old listed earlier
        rw [update_of_ne other, update_of_ne other]
        exact entry.complete done listed earlier
      · rw [mem_singleton.mp last, update_self, update_self]
        exact checked
    · dsimp only [Downloads.join] at known
      rw [update_of_ne same] at known
      refine (sound.entries other entry known).keep (fun _ _ => id) (fun listed member => ?_)
        (fun listed member => ?_) fun _ _ => rfl
      · exact update_of_ne (apart other entry known listed member) ..
      · exact update_of_ne (apart other entry known listed member) ..

theorem Downloads.Sound.addFetchTask (empty : state.content file = none)
    (added : state.addFetchTask links starts file (state.layer file).digest = some next) :
    next.Sound hasher := by
  cases wanted : (state.layer file).digest with
  | none =>
    rw [wanted] at added
    cases added
  | some digest =>
    rw [wanted, Downloads.addFetchTask] at added
    split at added
    · split at added
      · cases added
        refine sound.join found passed inside unused wanted (.inl rfl) rfl rfl ?_ ?_
        · exact fun _ => ⟨mem_singleton_self file, empty, rfl, rfl⟩
        · rw [empty]
          exact nofun
      · cases added
    next cached known =>
      have entry := sound.entries digest cached known
      split at added
      next running =>
        cases added
        refine sound.join found passed inside unused wanted (.inr known) rfl rfl ?_ ?_
        · have source := (entry.waiting running).1
          exact fun _ => ⟨mem_append_left _ source, empty, rfl, rfl⟩
        · rw [empty]
          exact nofun
      · cases added
      next done =>
        unfold addDownloaded at added
        split at added
        · cases added
        rename_i source first
        split at added
        · cases added
        rename_i content downloaded
        split at added
        · cases added
          refine sound.join found passed inside unused wanted (.inr known) rfl rfl ?_ ?_
          · exact fun running => nomatch done.symm.trans running
          · intro text same
            cases same
            exact entry.complete done source (mem_of_head? first) content downloaded
        · cases added

end

theorem Named.markExisting {config : List Text} {blob : LayerBlob}
    (named : Named hasher schemaV1 config blob) (layer : Layer) :
    Named hasher schemaV1 config (markExisting schemaV1 layer blob) := by
  unfold Registry.markExisting
  split
  · exact ⟨named.unfiled, named.unregistered, nofun, nofun⟩
  · exact ⟨named.unfiled, named.unregistered, nofun, nofun⟩

theorem Downloads.Sound.scan (sound : state.Sound hasher)
    (taken : state.scan blobpath links starts = some next) : next.Sound hasher := by
  unfold Downloads.scan at taken
  split at taken
  · cases taken
  rename_i pull found
  split at taken
  · cases taken
  rename_i enabled
  have room : pull.scanned < pull.layersLen := by
    rw [Bool.or_eq_true, not_or, decide_eq_true_iff, not_le] at enabled
    exact enabled.2
  have slot := sound.slots ⟨blobpath, pull.scanned⟩ pull found
  dsimp only at taken
  split at taken
  · cases taken
    exact sound.setPull found ⟨rfl, rfl, rfl, id, id, Nat.le_succ _, le_rfl⟩
  split at taken
  next layer scan _ =>
    cases taken
    refine ((sound.setStore scan.store).setLayer (by cases pull.schemaV1 <;> rfl) ?_).setPull
      found ⟨rfl, rfl, rfl, id, id, Nat.le_succ _, le_rfl⟩
    intro known same passed
    cases some.inj (same.symm.trans found)
    exact (slot.named passed).markExisting layer
  next scan _ =>
    have moved := (sound.setStore scan.store).setPull found
      (⟨rfl, rfl, rfl, id, id, Nat.le_succ _, le_rfl⟩ :
        pull.Advances { pull with
          scanned := pull.scanned + 1
          layerOfHoldRefs := scan.layerOfHoldRefs
          scanParentChainId := none })
    split at taken
    · cases taken
      exact moved.setPull (pulls_setPull_self ..)
        ⟨rfl, rfl, rfl, id, nofun, le_rfl, le_rfl⟩
    next added =>
      cases taken
      obtain ⟨unused, empty⟩ := slot.ahead le_rfl
      exact moved.addFetchTask (pulls_setPull_self ..) (Nat.lt_succ_self _) room
        unused empty added

end Scan

section Config

variable {hasher : Hasher} {state next : Downloads} {blobpath : Text} {diffIds all : List Text}
  (sha256 : Text → Text)

/-- What a config makes of a layer: the ids stay, or they are taken from it. -/
structure Configured (sha256 : Text → Text) (diffIds : List Text) (blob next : LayerBlob) :
    Prop where
  layer : next.toManifestLayer = blob.toManifestLayer
  file : next.file = blob.file
  alreadyExist : next.alreadyExist = blob.alreadyExist
  registered : next.registered = blob.registered
  ids : next.diffId = blob.diffId ∧ next.chainId = blob.chainId ∨
    ∃ diffId ∈ diffIds, next.diffId = some diffId ∧ ∀ chainId, next.chainId = some chainId →
      ∃ parent, calcChainId sha256 (some parent) diffId = some chainId

theorem Configured.refl (diffIds : List Text) (blob : LayerBlob) :
    Configured sha256 diffIds blob blob :=
  ⟨rfl, rfl, rfl, rfl, .inl ⟨rfl, rfl⟩⟩

theorem forall₂_configured_refl (diffIds : List Text) (blobs : List LayerBlob) :
    List.Forall₂ (Configured sha256 diffIds) blobs blobs :=
  forall₂_same.mpr fun blob _ => .refl sha256 diffIds blob

theorem parseConfigIds_configured {sha256 : Text → Text} (part : ∀ diffId ∈ diffIds, diffId ∈ all)
    (parentChainId : Text) (blobs : List LayerBlob) :
    List.Forall₂ (Configured sha256 all) blobs
      (parseConfigIds sha256 parentChainId diffIds blobs).2 := by
  induction diffIds generalizing parentChainId blobs with
  | nil => exact forall₂_configured_refl sha256 all blobs
  | cons diffId diffIds ih =>
    have here := part diffId mem_cons_self
    have rest := fun other member => part other (mem_cons_of_mem diffId member)
    cases blobs with
    | nil =>
      rw [parseConfigIds]
      split
      · exact .nil
      · exact ih rest _ []
    | cons blob blobs =>
      rw [parseConfigIds]
      split
      · exact .cons ⟨rfl, rfl, rfl, rfl, .inr ⟨diffId, here, rfl, nofun⟩⟩
          (forall₂_configured_refl sha256 all blobs)
      rename_i chained
      refine .cons ⟨rfl, rfl, rfl, rfl, .inr ⟨diffId, here, rfl, ?_⟩⟩
        (ih rest _ blobs)
      intro other same
      cases same
      exact ⟨parentChainId, chained⟩

theorem parseConfig_configured (diffIds : List Text) (blobs : List LayerBlob) :
    List.Forall₂ (Configured sha256 diffIds) blobs (parseConfig sha256 diffIds blobs).2 := by
  unfold parseConfig
  split
  · exact forall₂_configured_refl sha256 diffIds blobs
  · exact parseConfigIds_configured (fun _ member => member) [] blobs

theorem getD_forall₂ {α : Type} {related : α → α → Prop} {first second : List α}
    (all : List.Forall₂ related first second) (i : Nat) (fallback : α)
    (refl : related fallback fallback) :
    related (first.getD i fallback) (second.getD i fallback) := by
  induction all generalizing i with
  | nil => exact refl
  | cons here _ ih =>
    cases i with
    | zero => exact here
    | succ i => exact ih i

/-- A layer after the config of its pull has been parsed. -/
theorem configured_layer (diffIds : List Text) (layersLen : Nat) (layer : BlobFile → LayerBlob)
    (file : BlobFile) :
    Configured sha256 diffIds (layer file) ((parseConfig sha256 diffIds
      ((range layersLen).map fun i => layer ⟨file.blobpath, i⟩)).2.getD file.index
        (layer file)) := by
  have all := getD_forall₂ (parseConfig_configured sha256 diffIds
    ((range layersLen).map fun i => layer ⟨file.blobpath, i⟩)) file.index (layer file)
    (.refl sha256 diffIds _)
  have old : ((range layersLen).map fun i => layer ⟨file.blobpath, i⟩).getD file.index
      (layer file) = layer file := by
    rw [getD_eq_getElem?_getD, getElem?_map]
    cases known : (range layersLen)[file.index]? with
    | none => rfl
    | some i =>
      obtain ⟨_, rfl⟩ := List.getElem?_eq_some_iff.mp known
      rw [getElem_range]
      rfl
  rwa [old] at all

theorem Named.configured {blob configured : LayerBlob} (named : Named hasher false [] blob)
    (parsed : Configured hasher.sha256 diffIds blob configured) :
    Named hasher false diffIds configured where
  unfiled := parsed.file.trans named.unfiled
  unregistered := parsed.registered.trans named.unregistered
  given new diffId known := by
    rw [parsed.alreadyExist] at new
    rcases parsed.ids with ⟨same, _⟩ | ⟨other, member, called, _⟩
    · exact nomatch (named.given new diffId (same.symm.trans known)).2
    cases some.inj (called.symm.trans known)
    exact ⟨rfl, member⟩
  chained new chainId known := by
    rw [parsed.alreadyExist] at new
    rcases parsed.ids with ⟨sameId, sameChain⟩ | ⟨diffId, _, called, chained⟩
    · rw [sameId]
      exact named.chained new chainId (sameChain.symm.trans known)
    · obtain ⟨parent, computed⟩ := chained chainId known
      exact ⟨parent, diffId, called, computed⟩

theorem Downloads.Sound.fetchConfig (sound : state.Sound hasher) {diffIds : Option (List Text)}
    (taken : state.fetchConfig hasher blobpath diffIds = some next) : next.Sound hasher := by
  unfold Downloads.fetchConfig at taken
  split at taken
  · cases taken
  rename_i pull found
  split at taken
  · cases taken
  rename_i reading
  rw [Bool.not_eq_true] at reading
  split at taken
  · cases taken
    exact sound.setPull found ⟨rfl, rfl, rfl, nofun, nofun, le_rfl, le_rfl⟩
  rename_i diffIds
  cases taken
  have configured := fun file : BlobFile => configured_layer hasher.sha256 diffIds
    pull.layersLen state.layer file
  refine ⟨fun file other known => ?_, fun digest cached known => ?_, sound.applied⟩
  · by_cases same : file.blobpath = blobpath
    · subst same
      dsimp only at known
      rw [update_self] at known
      cases known
      have old := sound.slots file pull found
      obtain ⟨schema, unread⟩ := old.unread reading
      refine ⟨old.ahead, old.inside, ?_, ?_, nofun⟩
      · dsimp only
        rw [if_pos rfl, (configured file).layer]
        intro active
        exact old.checked (Bool.or_eq_false_iff.mp active).1
      · dsimp only
        rw [if_pos rfl, schema]
        intro passed
        have named := old.named passed
        rw [schema, unread] at named
        exact named.configured (configured file)
    · dsimp only at known
      rw [update_of_ne same] at known
      exact (sound.slots file other known).advance (.refl other) rfl rfl (if_neg same)
  · refine (sound.entries digest cached known).keep (fun file _ pulled => ?_)
      (fun _ _ => rfl) (fun _ _ => rfl) fun file _ => ?_
    · dsimp only
      rw [update_apply]
      split
      · rfl
      · exact pulled
    · dsimp only
      split
      next same =>
        subst same
        rw [(configured file).layer]
      · rfl

end Config

section Fetch

variable {hasher : Hasher} {state next : Downloads} {digest content : Text} {cached : CachedLayer}
  {attempts : Nat → Attempt}

section

variable (known : state.cachedLayers digest = some cached) {diffid : Option Text}
include known

section

variable (sound : state.Sound hasher) (running : cached.result = none)
include sound running

/-- A download ends. What it leaves has been checked, unless the pull is cancelled and nobody else
will be given the file. -/
theorem Downloads.Sound.settle
    {result : Bool} {content : BlobFile → Option Text} {cancels : Text → Bool}
    (others : ∀ file, file ∉ cached.files → content file = state.content file)
    (checked : ∀ file ∈ cached.files, cancels file.blobpath = false ∨ result = true → ∀ text,
      content file = some text → Checked hasher (some digest) diffid text) :
    (state.settle digest cached result diffid content cancels).Sound hasher := by
  have entry := sound.entries digest cached known
  obtain ⟨_, waiting⟩ := entry.waiting running
  have info : ∀ file ∈ cached.files, (state.settle digest cached result diffid content cancels).info
      file = { state.info file with notified := true, diffid := diffid } := by
    intro file member
    dsimp only [Downloads.settle]
    rw [if_pos member, (waiting file member).2.1, none_or]
  have pulled : ∀ blobpath, (state.pulls blobpath).isSome = true →
      ((state.settle digest cached result diffid content cancels).pulls blobpath).isSome =
        true := by
    intro blobpath some
    exact isSome_map.trans some
  refine ⟨fun file pull found => ?_, fun other entryOther found => ?_, sound.applied⟩
  · obtain ⟨before, foundBefore, rfl⟩ := map_eq_some_iff.mp found
    have old := sound.slots file before foundBefore
    by_cases member : file ∈ cached.files
    · obtain ⟨_, use, wanted⟩ := entry.listed file member
      refine ⟨fun ahead => ?_, ?_, fun active => ?_, old.named, old.unread⟩
      · cases use.symm.trans (old.ahead ahead).1
      · rw [info file member]
        exact old.inside
      · rw [info file member]
        dsimp only [Downloads.settle]
        rw [wanted]
        exact fun _ _ => checked file member (.inl (Bool.or_eq_false_iff.mp active).2)
    · refine old.advance ⟨rfl, rfl, rfl, id, ?_, le_rfl, le_rfl⟩ (if_neg member)
        (others file member) rfl
      exact fun active => (Bool.or_eq_false_iff.mp active).1
  · by_cases same : other = digest
    · subst same
      dsimp only [Downloads.settle] at found
      rw [update_self] at found
      cases found
      refine ⟨fun file member => ?_, by simp, fun done file member => ?_⟩
      · obtain ⟨there, use, wanted⟩ := entry.listed file member
        rw [info file member]
        exact ⟨pulled file.blobpath there, use, wanted⟩
      · rw [info file member]
        exact checked file member (.inr (some.inj done))
    · dsimp only [Downloads.settle] at found
      rw [update_of_ne same] at found
      have apart : ∀ file ∈ entryOther.files, file ∉ cached.files := by
        intro file member memberHere
        have one := ((sound.entries digest cached known).listed file memberHere).2.2
        have two := ((sound.entries other entryOther found).listed file member).2.2
        exact same (some.inj (two.symm.trans one))
      exact (sound.entries other entryOther found).keep (fun file _ => pulled file.blobpath)
        (fun file member => if_neg (apart file member))
        (fun file member => others file (apart file member)) fun _ _ => rfl

theorem Downloads.Sound.fail (left : Text) : (state.fail digest cached left).Sound hasher := by
  obtain ⟨source, waiting⟩ := (sound.entries digest cached known).waiting running
  refine sound.settle known running (fun file outside => ?_) fun file member spared text held => ?_
  · have other : file ≠ cached.source := by
      rintro rfl
      exact outside source
    exact update_of_ne other ..
  · -- the others have no file, and the file that is there belongs to the cancelled pull
    have other : file ≠ cached.source := by
      rintro rfl
      rcases spared with spared | done
      · exact absurd rfl (beq_eq_false_iff_ne.mp spared)
      · cases done
    rw [update_of_ne other, (waiting file member).1] at held
    cases held

theorem Downloads.Sound.complete
    (links : BlobFile → Bool) (checked : Checked hasher (some digest) diffid content) :
    (state.complete digest cached content diffid links).Sound hasher := by
  obtain ⟨source, waiting⟩ := (sound.entries digest cached known).waiting running
  refine sound.settle known running (fun file outside => ?_) fun file member _ text held => ?_
  · rw [if_neg]
    rintro (rfl | ⟨member, _⟩)
    · exact outside source
    · exact outside member
  · split at held
    · cases held
      exact checked
    · rw [(waiting file member).1] at held
      cases held

end

end

theorem Downloads.Sound.fetchLayerInThread (sound : state.Sound hasher) {links : BlobFile → Bool}
    (taken : state.fetchLayerInThread hasher digest attempts links = some next) :
    next.Sound hasher := by
  unfold Downloads.fetchLayerInThread at taken
  split at taken
  · cases taken
  rename_i cached known
  split at taken
  next pull running _ =>
    split at taken
    · cases taken
      exact sound.fail known running _
    rename_i content fetched
    have accepted := retry_accepts fetched
    have digested := congrArg some (beq_iff_eq.mp accepted).symm
    split at taken
    · split at taken
      · cases taken
        exact sound.fail known running content
      next diffid computed =>
        cases taken
        exact sound.complete known running links ⟨digested, .inr computed.symm⟩
    · cases taken
      exact sound.complete known running links ⟨digested, .inl rfl⟩
  · cases taken

end Fetch

section Register

variable {hasher : Hasher} {state next : Downloads} {blobpath diffId : Text} {pull : PullThread}
  {blob filled after : LayerBlob} {info : ThreadFetchInfo} {desc last final : Pulling}
  {creation : Creation} {cached ok : Bool} {schemaV1 : Bool} {config : List Text}

theorem Named.fill_file (named : Named hasher schemaV1 config blob) (info : ThreadFetchInfo) :
    (blob.fill info).file = if info.use then info.file else none := by
  unfold LayerBlob.fill
  cases info.use with
  | false => exact named.unfiled
  | true =>
    rw [if_pos rfl, named.unfiled]
    rfl

theorem LayerBlob.fill_diffId (known : (blob.fill info).diffId = some diffId) :
    blob.diffId = some diffId ∨ blob.diffId = none ∧ info.use = true ∧
      info.diffid = some diffId := by
  unfold LayerBlob.fill at known
  split at known
  next use => exact (or_eq_some_iff.mp known).imp_right fun ⟨absent, given⟩ => ⟨absent, use, given⟩
  · exact .inl known

/-- The ids and the file of a layer that is going to be created. -/
theorem Named.setCachedInfoToDesc (named : Named hasher schemaV1 config blob)
    (set : setCachedInfoToDesc hasher.sha256 info blob desc = some (filled, last))
    (filling : filled.emptyLayer = false) (new : filled.alreadyExist = false) :
    filled.file = (if info.use then info.file else none) ∧
    ∃ diffId parent chainId, filled.diffId = some diffId ∧
      calcChainId hasher.sha256 (some parent) diffId = some chainId ∧
      filled.chainId = some chainId ∧
      (schemaV1 = false ∧ diffId ∈ config ∨ info.use = true ∧ info.diffid = some diffId) := by
  obtain ⟨_, exist, _, chain⟩ := blob.fill_keeps info
  have file := named.fill_file info
  unfold Registry.setCachedInfoToDesc at set
  dsimp only at set
  split at set
  next empty =>
    cases set
    exact nomatch filling.symm.trans empty
  · split at set
    next old =>
      cases set
      exact nomatch new.symm.trans old
    next absent =>
      split at set
      · cases set
      rename_i diffId called
      split at set
      · cases set
      rename_i chainId computed
      cases set
      have missing : blob.alreadyExist = false := exist.symm.trans new
      have called' := LayerBlob.fill_diffId called
      have chained : ∃ parent, calcChainId hasher.sha256 (some parent) diffId = some chainId := by
        rw [chain] at computed
        rcases or_eq_some_iff.mp computed with known | ⟨_, computed⟩
        · obtain ⟨parent, other, same, chained⟩ := named.chained missing chainId known
          rcases called' with given | ⟨unset, _⟩
          · cases some.inj (same.symm.trans given)
            exact ⟨parent, chained⟩
          · exact nomatch unset.symm.trans same
        · obtain ⟨parent, _, chained⟩ := bind_eq_some_iff.mp computed
          exact ⟨parent, chained⟩
      obtain ⟨parent, chained⟩ := chained
      exact ⟨file, diffId, parent, chainId, called, chained, rfl,
        called'.imp (named.given missing diffId) .right⟩

/-- A layer that is newly registered has been unpacked from a file that was checked. -/
theorem Downloads.Sound.traced (sound : state.Sound hasher)
    (found : state.pulls blobpath = some pull)
    (ready : state.ready pull ⟨blobpath, pull.registered⟩ = true)
    (set : Registry.setCachedInfoToDesc hasher.sha256 (state.info ⟨blobpath, pull.registered⟩)
      (state.layer ⟨blobpath, pull.registered⟩) desc = some (filled, last))
    (opens : creation.opensData = true → (filled.file.bind state.content).isSome = true)
    (made : registerLayer cached creation filled last = (ok, after, final)) {applied : Applied}
    (new : state.newlyApplied pull after = some applied) :
    ∃ content diffId, applied.Traced hasher content diffId := by
  have slot := sound.slots ⟨blobpath, pull.registered⟩ pull found
  have named := slot.named le_rfl
  obtain ⟨⟨same, _, registered, _⟩, _⟩ := setCachedInfoToDesc_keeps set
  unfold newlyApplied at new
  split at new
  next isNew =>
    cases new
    have marked : after.registered = true := (Bool.and_eq_true_iff.mp isNew).1
    rcases (registerLayer_spec made).1 with rfl | ⟨rfl, filling, missing, opened, id, chained⟩
    · cases (registered.trans named.unregistered).symm.trans marked
    obtain ⟨filed, diffId, parent, chainId, called, computed, chain, source⟩ :=
      named.setCachedInfoToDesc set filling missing
    obtain ⟨content, unpacked⟩ := isSome_iff_exists.mp (opens opened)
    have use : (state.info ⟨blobpath, pull.registered⟩).use = true := by
      by_contra unused
      rw [filed, if_neg unused] at unpacked
      cases unpacked
    have held : state.content ⟨blobpath, pull.registered⟩ = some content := by
      rw [filed, if_pos use, (slot.inside use).2] at unpacked
      exact unpacked
    obtain ⟨active, notified⟩ : pull.cancel = false ∧
        (state.info ⟨blobpath, pull.registered⟩).notified = true := by
      unfold Downloads.ready at ready
      rw [use, Bool.and_eq_true, Bool.and_eq_true, Bool.not_eq_true'] at ready
      exact ⟨ready.1.1, ready.2⟩
    have checked := slot.checked active use notified content held
    have downloaded : (state.info ⟨blobpath, pull.registered⟩).diffid = some diffId →
        hasher.ociCalcDiffid content = some diffId := by
      intro given
      rcases checked.diffid with absent | computed
      · cases given.symm.trans absent
      · exact computed.symm.trans given
    rw [chain] at chained
    refine ⟨content, diffId, unpacked, called, ?_, ⟨parent, chainId, id, computed, chain, chained⟩,
      fun old => ?_, fun _ => ?_⟩
    · exact (congrArg ManifestLayer.digest same).trans checked.digest
    · rcases source with ⟨recent, _⟩ | ⟨_, given⟩
      · cases old.symm.trans recent
      · exact downloaded given
    · exact source.imp And.right fun both => downloaded both.2
  · cases new

theorem Downloads.Sound.register (sound : state.Sound hasher)
    (taken : state.register hasher blobpath creation = some next) : next.Sound hasher := by
  unfold Downloads.register at taken
  split at taken
  · cases taken
  rename_i pull found
  dsimp only at taken
  split at taken
  · cases taken
  rename_i enabled
  have ready : state.ready pull ⟨blobpath, pull.registered⟩ = true := by
    rw [Bool.or_eq_true, not_or, Bool.not_eq_true', Bool.not_eq_false] at enabled
    exact enabled.2
  split at taken
  · cases taken
    exact sound.setPull found ⟨rfl, rfl, rfl, id, nofun, le_rfl, le_rfl⟩
  rename_i filled last set
  generalize made : registerLayer _ _ filled last = outcome at taken
  obtain ⟨ok, after, final⟩ := outcome
  cases taken
  have digest : after.digest = (state.layer ⟨blobpath, pull.registered⟩).digest := by
    have kept := congrArg ManifestLayer.digest (setCachedInfoToDesc_keeps set).1.1
    rcases (registerLayer_spec made).1 with rfl | ⟨rfl, _⟩
    · exact kept
    · exact kept
  have noted := sound.note fun applied new => sound.traced found ready set
    (fun opens => (Bool.and_eq_true_iff.mp opens).2) made new
  have active : pull.cancel = false := by
    unfold Downloads.ready at ready
    rw [Bool.and_eq_true, Bool.and_eq_true, Bool.not_eq_true'] at ready
    exact ready.1.1
  refine setLayer ?_ digest fun moved known passed => ?_
  · exact (noted.setStore final.store).setPull found
      ⟨rfl, rfl, rfl, id, fun _ => active, le_rfl, Nat.le_succ _⟩
  · rw [pulls_setPull_self] at known
    cases known
    exact absurd passed (Nat.not_succ_le_self _)

end Register

section Runs

variable {hasher : Hasher} {state next : Downloads} {blobpath : Text}

section

variable (sound : state.Sound hasher)
include sound

theorem Downloads.Sound.stop (taken : state.stop blobpath = some next) :
    next.Sound hasher := by
  unfold Downloads.stop at taken
  split at taken
  · cases taken
  rename_i pull found
  split at taken
  · cases taken
  cases taken
  exact sound.setPull found ⟨rfl, rfl, rfl, id, id, le_rfl, le_rfl⟩

theorem Downloads.Sound.giveUp (taken : state.giveUp blobpath = some next) : next.Sound hasher := by
  obtain ⟨pull, found, rfl⟩ := map_eq_some_iff.mp taken
  exact sound.setPull found ⟨rfl, rfl, rfl, id, nofun, le_rfl, le_rfl⟩

theorem Downloads.Sound.finish (taken : state.finish blobpath = some next) : next.Sound hasher := by
  unfold Downloads.finish at taken
  split at taken
  · cases taken
  rename_i pull found
  split at taken
  next enabled =>
    cases taken
    refine ⟨fun file other known => ?_, fun digest cached known => ?_, sound.applied⟩
    · have apart : file.blobpath ≠ blobpath := by
        intro same
        dsimp only at known
        rw [same, update_self] at known
        cases known
      dsimp only at known
      rw [update_of_ne apart] at known
      exact (sound.slots file other known).advance (.refl other) rfl (if_neg apart) rfl
    · obtain ⟨before, foundBefore, kept⟩ := bind_eq_some_iff.mp known
      have old := sound.entries digest before foundBefore
      dsimp only at kept
      split at kept
      · cases kept
      cases kept
      have split : ∀ file, file ∈ before.files.filter (fun file => file.blobpath != blobpath) →
          file ∈ before.files ∧ file.blobpath ≠ blobpath := by
        intro file member
        rw [mem_filter, bne_iff_ne] at member
        exact member
      refine ⟨fun file member => ?_, fun running => ?_, fun done file member => ?_⟩
      · obtain ⟨inside, apart⟩ := split file member
        dsimp only
        rw [update_of_ne apart]
        exact old.listed file inside
      · obtain ⟨source, waiting⟩ := old.waiting running
        -- the pull has waited for its downloads
        have elsewhere : before.source.blobpath ≠ blobpath := by
          intro same
          have use := (old.listed before.source source).2.1
          have slot := sound.slots before.source pull (same ▸ found)
          have told := all_eq_true.mp (Bool.and_eq_true_iff.mp enabled).2
            before.source.index (mem_range.mpr (slot.inside use).1)
          rw [← same, use, (waiting before.source source).2.2] at told
          cases told
        refine ⟨mem_filter.mpr ⟨source, bne_iff_ne.mpr elsewhere⟩, fun file member => ?_⟩
        obtain ⟨inside, apart⟩ := split file member
        dsimp only
        rw [if_neg apart]
        exact waiting file inside
      · obtain ⟨inside, apart⟩ := split file member
        dsimp only
        rw [if_neg apart]
        exact old.complete done file inside
  · cases taken

theorem Downloads.Sound.step {event : DownloadEvent}
    (taken : state.step hasher event = some next) : next.Sound hasher := by
  cases event with
  | start blobpath schemaV1 layers => exact sound.start taken
  | scan blobpath links starts => exact sound.scan taken
  | fetchConfig blobpath diffIds => exact sound.fetchConfig taken
  | fetchLayer digest attempts links => exact sound.fetchLayerInThread taken
  | giveUp blobpath => exact sound.giveUp taken
  | register blobpath creation => exact sound.register taken
  | stop blobpath => exact sound.stop taken
  | finish blobpath => exact sound.finish taken
  | elsewhere store =>
    cases taken
    exact sound.setStore store

end

theorem sound_of_trace {store : LayerStore} {events : List DownloadEvent}
    (trace : (registryPulls hasher store).Trace events state) : state.Sound hasher :=
  @Machine.Trace.invariant _ _ (registryPulls hasher store) _ _ (fun _ state => state.Sound hasher)
    ⟨fun _ _ => nofun, fun _ _ => nofun, fun _ => nofun⟩
      (fun _ _ _ _ sound taken => sound.step taken) trace

/-- What the unpacked file holds without the compression by `gzip`. -/
def Applied.uncompressed (hasher : Hasher) (applied : Applied) : Option Text :=
  applied.content.bind hasher.uncompressed

theorem Applied.Traced.uncompressed {applied : Applied} {content diffId : Text}
    (traced : applied.Traced hasher content diffId) (old : applied.schemaV1 = true) :
    (applied.uncompressed hasher).map hasher.fullFileDigest = applied.blob.diffId := by
  rw [Applied.uncompressed, traced.unpacked, traced.called]
  exact traced.computed old

/-- Every layer that a pull newly registers is unpacked from the blob that the manifest names.
With schema 1 its uncompressed content has the diff id, so that content cannot be chosen for a
given diff id. -/
theorem registered_traced (hasher : Hasher) (collisionFree : Injective hasher.sha256)
    (store : LayerStore) (events : List DownloadEvent) (state : Downloads)
    (trace : (registryPulls hasher store).Trace events state) :
    (∀ applied ∈ state.applied, (∃ content diffId, applied.Traced hasher content diffId) ∧
      (applied.schemaV1 = true → applied.MatchesDiffId hasher)) ∧
    ∀ first ∈ state.applied, ∀ second ∈ state.applied,
      (first.blob.digest = second.blob.digest → first.content = second.content) ∧
      (first.schemaV1 = true → second.schemaV1 = true → first.blob.diffId = second.blob.diffId →
        first.uncompressed hasher = second.uncompressed hasher) := by
  have sound := sound_of_trace trace
  have digests : Injective hasher.fullFileDigest := fun _ _ same =>
    collisionFree (append_cancel_left same)
  refine ⟨fun applied member => ⟨sound.applied applied member, fun old => ?_⟩,
    fun first memberFirst second memberSecond => ?_⟩
  · obtain ⟨content, diffId, traced⟩ := sound.applied applied member
    exact ⟨content, diffId, traced.unpacked, traced.called, traced.computed old⟩
  · obtain ⟨content, diffId, traced⟩ := sound.applied first memberFirst
    obtain ⟨contentSecond, _, tracedSecond⟩ := sound.applied second memberSecond
    refine ⟨fun same => ?_, fun oldFirst oldSecond same => ?_⟩
    · rw [traced.digest, tracedSecond.digest] at same
      rw [traced.unpacked, tracedSecond.unpacked, digests (some.inj same)]
    · rw [← traced.uncompressed oldFirst, ← tracedSecond.uncompressed oldSecond] at same
      exact map_injective digests same

end Runs

/-- A hash without collisions. -/
def plainHasher : Hasher where
  sha256 := id
  gunzip _ := none

def noLayers : LayerStore := ⟨[], nodup_nil⟩

variable (schemaV1 : Bool)

/-- A pull of one layer whose content is `evil`, under the diff id of `good` where a config gives
it. -/
def evilEvents : List DownloadEvent :=
  let digest := plainHasher.fullFileDigest "evil".toList
  [.start "dir".toList schemaV1 [⟨false, some digest⟩], .scan "dir".toList true true,
    .fetchLayer digest (fun _ => ⟨true, "evil".toList, false⟩) fun _ => true] ++
  (if schemaV1 then []
    else [.fetchConfig "dir".toList (some [plainHasher.fullFileDigest "good".toList])]) ++
  [.register "dir".toList ⟨true, true⟩]

/-- With a config of its own an image registers any content under the diff id of another. -/
theorem registered_unlike_diffId :
    Injective plainHasher.sha256 ∧
    ∃ state, (registryPulls plainHasher noLayers).Trace (evilEvents false) state ∧
      ∃ applied ∈ state.applied, ¬ applied.MatchesDiffId plainHasher := by
  refine ⟨injective_id, _, Machine.trace_of_replay rfl, _, mem_singleton_self _, ?_⟩
  rintro ⟨_, _, ⟨⟩, ⟨⟩, computed⟩
  revert computed
  decide +kernel

theorem registered_traced_schemaV1 :
    ∃ state, (registryPulls plainHasher noLayers).Trace (evilEvents true) state ∧
      ∃ applied ∈ state.applied, applied.schemaV1 = true ∧ applied.MatchesDiffId plainHasher := by
  have trace :=
    @Machine.trace_of_replay _ _ (registryPulls plainHasher noLayers) (evilEvents true) _
    rfl
  have traced := registered_traced plainHasher injective_id noLayers (evilEvents true) _ trace
  exact ⟨_, trace, _, mem_singleton_self _, rfl, (traced.1 _ (mem_singleton_self _)).2 rfl⟩

end Isulad.Registry
