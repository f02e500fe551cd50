import Isulad.Std.Buckets
import Isulad.Std.Trace
import Isulad.Storage.LayerStore

/-!
# The indexes of the layer store

`storage/layer_store/layer_store.c` with everything that a creation and a deletion keep in step by
hand: the list of layers and its length, the maps by id and by name, and the two maps from a digest
to the ids of the layers that carry it. Layers are objects at addresses. A creation can fail at
every insertion, for lack of memory or because a name is in use, and at every step behind them; each
failure has its own way out. `LayerTables.Indexed` is what holds after every call, and with it
`Keyed Layer.id`, the store of the other modules, is a view of the tables.
-/

namespace Isulad.Storage

open List Function Isulad.Std Index

/-- `digest_layer_t`: the ids of the layers of a digest. -/
abbrev DigestLayer := Bucket Text

/-- `g_metadata`, and the layer at every address. -/
structure LayerTables where
  object : Address → Layer
  layersList : List Address
  layersListLen : Nat
  byId : Index Text Address
  byName : Index Text Address
  byCompressDigest : Index Text DigestLayer
  byUncompressDigest : Index Text DigestLayer

/-- `layer_opts`, without what only the driver reads. -/
structure LayerOpts where
  parent : Option Text
  names : List Text
  uncompressedDigest : Option Text
  compressedDigest : Option Text

/-- How everything outside the store answers while a layer is created. -/
structure LayerAnswers where
  /-- `layer_store_lock`. -/
  locks : Bool
  /-- `driver_create_layer`. -/
  driverCreates : Bool
  /-- `create_empty_layer`, `build_layer_dir` and `update_layer_datas`. -/
  preparesLayer : Bool
  /-- The memory of a list item. -/
  allocatesItem : Bool
  /-- The memory of an entry of `by_id`. -/
  allocatesId : Bool
  /-- The memory of an entry of `by_name`, name by name. -/
  allocatesName : Nat → Bool
  /-- The memory of an entry of `by_compress_digest`. -/
  allocatesCompressed : Bool
  /-- The memory of an entry of `by_uncompress_digest`. -/
  allocatesUncompressed : Bool
  /-- `save_layer` of the incomplete layer. -/
  savesIncomplete : Bool
  /-- `apply_diff`. -/
  appliesDiff : Bool
  /-- `update_mount_point`. -/
  updatesMountPoint : Bool
  /-- `save_layer` of the complete layer. -/
  savesLayer : Bool

/-- `insert_digest_into_map`; `none` is a lack of memory. -/
def insertDigestIntoMap (allocates : Bool) (byDigest : Index Text DigestLayer)
    (digest : Option Text) (id : Text) : Option (Index Text DigestLayer) :=
  match digest with
  | none => some byDigest
  | some digest => if allocates then some (byDigest.addTo digest id) else none

/-- `delete_digest_from_map`. -/
def deleteDigestFromMap (byDigest : Index Text DigestLayer) (digest : Option Text) (id : Text) :
    Index Text DigestLayer :=
  match digest with
  | none => byDigest
  | some digest => byDigest.takeFrom digest id

/-- The loop of `insert_memory_stores` over the names: whether all have been entered, which ones,
the last of them first, and the map by then. -/
def insertNames (allocates : Nat → Bool) (l : Address) :
    List Text → List Text → Index Text Address → Bool × List Text × Index Text Address
  | entered, [], byName => (true, entered, byName)
  | entered, name :: names, byName =>
    match if allocates entered.length then byName.insert name l else none with
    | none => (false, entered, byName)
    | some byName => insertNames allocates l (name :: entered) names byName

namespace LayerTables

variable (tables : LayerTables) (answers : LayerAnswers)

/-- `lookup`. -/
def lookup (id : Text) : Option Address :=
  (tables.byId.search id).or (tables.byName.search id)

/-- `append_layer_into_list`, when there is memory. -/
def appendLayerIntoList (l : Address) : LayerTables :=
  { tables with
    layersList := tables.layersList ++ [l]
    layersListLen := tables.layersListLen + 1 }

/-- `remove_layer_list_tail`. -/
def removeLayerListTail : LayerTables :=
  if tables.layersList = [] then tables
  else
    { tables with
      layersList := tables.layersList.dropLast
      layersListLen := tables.layersListLen - 1 }

/-- `insert_memory_stores` from `clear_by_name` on. -/
def clearByName (id : Text) (entered : List Text) : LayerTables :=
  removeLayerListTail
    { tables with
      byName := tables.byName.clear entered
      byId := (tables.byId.remove id).getD tables.byId }

/-- `insert_memory_stores`. -/
def insertMemoryStores (tables : LayerTables) (id : Text) (opts : LayerOpts) (l : Address) :
    Bool × LayerTables :=
  if answers.allocatesItem then
    let listed := tables.appendLayerIntoList l
    let slayer := tables.object l
    match if answers.allocatesId then tables.byId.insert id l else none with
    | none => (false, listed.removeLayerListTail)
    | some byId =>
      match insertNames answers.allocatesName l [] opts.names tables.byName with
      | (false, entered, byName) => (false, clearByName { listed with byId, byName } id entered)
      | (true, entered, byName) =>
        match insertDigestIntoMap answers.allocatesCompressed tables.byCompressDigest
          slayer.compressedDiffDigest id with
        | none => (false, clearByName { listed with byId, byName } id entered)
        | some byCompressDigest =>
          match insertDigestIntoMap answers.allocatesUncompressed tables.byUncompressDigest
            slayer.diffDigest id with
          | none =>
            let byCompressDigest :=
              deleteDigestFromMap byCompressDigest slayer.compressedDiffDigest id
            (false, clearByName { listed with byId, byName, byCompressDigest } id entered)
          | some byUncompressDigest =>
            (true, { listed with byId, byName, byCompressDigest, byUncompressDigest })
  else (false, tables)

/-- The loop of `remove_memory_stores` over the list. -/
def unlist (id : Text) : LayerTables :=
  if ∃ l ∈ tables.layersList, (tables.object l).id = id then
    { tables with
      layersList := tables.layersList.eraseP fun l => (tables.object l).id = id
      layersListLen := tables.layersListLen - 1 }
  else tables

/-- `remove_memory_stores`; `none` is the return value -1. -/
def removeMemoryStores (id : Text) : Option LayerTables :=
  (tables.lookup id).map fun l =>
    let slayer := tables.object l
    unlist
      { tables with
        byCompressDigest :=
          deleteDigestFromMap tables.byCompressDigest slayer.compressedDiffDigest slayer.id
        byUncompressDigest :=
          deleteDigestFromMap tables.byUncompressDigest slayer.diffDigest slayer.id
        byId := (tables.byId.remove slayer.id).getD tables.byId
        byName := tables.byName.clear slayer.names }
      id

/-- The layer that `update_layer_datas` sets up. -/
def newSlayer (id : Text) (opts : LayerOpts) : Layer where
  id := id
  parent := opts.parent
  names := opts.names
  diffDigest := opts.uncompressedDigest
  compressedDiffDigest := opts.compressedDigest
  smountPoint := none
  holdRefsNum := 0

/-- Change a layer. -/
def change (l : Address) (layer : Layer) : LayerTables :=
  { tables with object := update tables.object l layer }

/-- `hold_refs_num++`. -/
def hold (l : Address) : LayerTables :=
  tables.change l
    { tables.object l with holdRefsNum := (tables.object l).holdRefsNum + 1 }

/-- `new_layer_by_opts`, with the address of the new layer. -/
def newLayerByOpts (tables : LayerTables) (l : Address) (id : Text) (opts : LayerOpts) :
    Bool × LayerTables :=
  if answers.preparesLayer then
    (tables.change l (newSlayer id opts)).insertMemoryStores answers id opts l
  else (false, tables)

/-- Every step of `layer_store_create` behind the insertion succeeds. -/
def completes : Bool :=
  answers.savesIncomplete && answers.appliesDiff && answers.updatesMountPoint && answers.savesLayer

/-- `layer_store_create` of a layer that does not exist. -/
def createNew (tables : LayerTables) (l : Address) (lid : Text) (opts : LayerOpts) :
    Bool × LayerTables :=
  if answers.driverCreates then
    match tables.newLayerByOpts answers l lid opts with
    | (false, after) => (false, after)
    | (true, after) =>
      match after.lookup lid with
      | none => (false, (after.removeMemoryStores lid).getD after)
      | some made =>
        if completes answers then
          (true, (after.change made { after.object made with smountPoint := some 0 }).hold made)
        else (false, (after.removeMemoryStores lid).getD after)
  else (false, tables)

/-- `layer_store_create`; `true` is the return value 0. Without an id no layer is found, and the
driver refuses. -/
def layerStoreCreate (tables : LayerTables) (l : Address) (id : Option Text)
    (opts : Option LayerOpts) : Bool × LayerTables :=
  match opts with
  | none => (false, tables)
  | some opts =>
    if answers.locks then
      match id with
      | none => (false, tables)
      | some lid =>
        match tables.lookup lid with
        | some known => (true, tables.hold known)
        | none => tables.createNew answers l lid opts
    else (false, tables)

/-- `umount_helper` with `force`; `none` is the return value -1. -/
def forceUmount (removal : Removal) (tables : LayerTables) (l : Address) : Option LayerTables :=
  match (tables.object l).smountPoint with
  | none => some tables
  | some _ =>
    if removal.umountLayer (tables.object l).id then
      some (tables.change l { tables.object l with smountPoint := some 0 })
    else none

/-- `do_delete_layer`; `true` is the return value 0. -/
def doDeleteLayer (removal : Removal) (tables : LayerTables) (id : Text) : Bool × LayerTables :=
  match tables.lookup id with
  | none => (true, tables)
  | some l =>
    match tables.forceUmount removal l with
    | none => (false, tables)
    | some unmounted =>
      match unmounted.removeMemoryStores (tables.object l).id with
      | none => (false, unmounted)
      | some after =>
        (removal.rmLayer (tables.object l).id && removal.removeLayer (tables.object l).id, after)

/-- `layer_store_delete`. -/
def layerStoreDelete (locks : Bool) (removal : Removal) (tables : LayerTables) (id : Option Text) :
    Bool × LayerTables :=
  match id with
  | none => (false, tables)
  | some id => if locks then tables.doDeleteLayer removal id else (false, tables)

end LayerTables

inductive LayerCall where
  | create (answers : LayerAnswers) (l : Address) (id : Option Text) (opts : Option LayerOpts)
  | delete (locks : Bool) (removal : Removal) (id : Option Text)

namespace LayerTables

/-- One call, failing or not. The memory of a new layer is that of no other. -/
def call (tables : LayerTables) : LayerCall → Option LayerTables
  | .create answers l id opts =>
    if l ∈ tables.layersList then none else some (tables.layerStoreCreate answers l id opts).2
  | .delete locks removal id => some (tables.layerStoreDelete locks removal id).2

/-- The ids of the layers that carry a digest, in the order of the list. -/
def carrying (tables : LayerTables) (pick : Layer → Option Text) (digest : Text) : List Text :=
  (tables.layersList.filter fun l => pick (tables.object l) = some digest).map
    fun l => (tables.object l).id

/-- The maps are the indexes of the list. -/
structure Indexed (tables : LayerTables) : Prop where
  apart : (tables.layersList.map fun l => (tables.object l).id).Nodup
  ids : ∀ id l, tables.byId.search id = some l ↔
    l ∈ tables.layersList ∧ (tables.object l).id = id
  names : ∀ name l, tables.byName.search name = some l ↔
    l ∈ tables.layersList ∧ name ∈ (tables.object l).names
  compressed : Grouped tables.byCompressDigest (tables.carrying Layer.compressedDiffDigest)
  uncompressed : Grouped tables.byUncompressDigest (tables.carrying Layer.diffDigest)
  length : tables.layersListLen = tables.layersList.length

/-- The list, its length and the four maps are the same. -/
structure Same (before after : LayerTables) : Prop where
  list : after.layersList = before.layersList
  length : after.layersListLen = before.layersListLen
  ids : after.byId = before.byId
  names : after.byName = before.byName
  compressed : after.byCompressDigest = before.byCompressDigest
  uncompressed : after.byUncompressDigest = before.byUncompressDigest

end LayerTables

/-- Tables whose maps are the indexes of the list. -/
structure IndexedLayers where
  tables : LayerTables
  indexed : tables.Indexed

/-- Sequences of calls. -/
def layerCalls (start : IndexedLayers) : Machine LayerTables LayerCall where
  initial := start.tables
  step := LayerTables.call

section Names

variable {allocates : Nat → Bool} {l : Address} {entered names : List Text}
  {byName : Index Text Address}

/-- Whatever has been entered is cleared again without a trace. -/
theorem clear_insertNames :
    (insertNames allocates l entered names byName).2.2.clear
        (insertNames allocates l entered names byName).2.1 = byName.clear entered := by
  induction names generalizing entered byName with
  | nil => rfl
  | cons name names ih =>
    rw [insertNames]
    cases first : (if allocates entered.length then byName.insert name l else none) with
    | none => rfl
    | some next =>
      obtain ⟨-, inserted⟩ := Option.ite_none_right_eq_some.mp first
      refine ih.trans ?_
      rw [Index.clear, foldl_cons, remove_of_insert inserted]
      rfl

theorem insertAll_of_insertNames (all : (insertNames allocates l entered names byName).1 = true) :
    byName.insertAll names l = some (insertNames allocates l entered names byName).2.2 := by
  induction names generalizing entered byName with
  | nil => rfl
  | cons name names ih =>
    rw [insertNames] at all ⊢
    cases first : (if allocates entered.length then byName.insert name l else none) with
    | none =>
      rw [first] at all
      cases all
    | some next =>
      rw [first] at all
      obtain ⟨-, inserted⟩ := Option.ite_none_right_eq_some.mp first
      rw [Index.insertAll, foldlM_cons, inserted]
      exact ih all

end Names

section Digests

variable {object : Address → Layer} {list : List Address} {byDigest after : Index Text DigestLayer}
  {digest : Option Text} {values : Text → List Text} {id : Text} {allocates : Bool}

/-- The lists of all digests when a layer is added. -/
def added (values : Text → List Text) (digest : Option Text) (id : Text)
    (other : Text) : List Text :=
  if digest = some other then values other ++ [id] else values other

section

variable (grouped : Grouped byDigest values)
include grouped

section

variable (inserted : insertDigestIntoMap allocates byDigest digest id = some after)
include inserted

theorem grouped_insertDigestIntoMap :
    Grouped after (added values digest id) := by
  cases digest with
  | none =>
    cases inserted
    exact grouped.congr fun other => if_neg nofun
  | some digest =>
    obtain ⟨-, made⟩ := Option.ite_none_right_eq_some.mp inserted
    cases made
    refine grouped.addTo.congr fun other => ?_
    by_cases here : other = digest
    · simp [added, here]
    · simp [added, here, Ne.symm here]

/-- A layer of a new id is taken out of the lists without a trace. -/
theorem deleteDigestFromMap_insert
    (new : ∀ other, id ∉ values other) : deleteDigestFromMap after digest id = byDigest := by
  cases digest with
  | none =>
    cases inserted
    rfl
  | some digest =>
    obtain ⟨-, made⟩ := Option.ite_none_right_eq_some.mp inserted
    cases made
    exact grouped.takeFrom_addTo (new digest)

end

theorem grouped_deleteDigestFromMap :
    Grouped (deleteDigestFromMap byDigest digest id)
      fun other => if digest = some other then (values other).eraseP (· = id)
        else values other := by
  cases digest with
  | none => exact grouped.congr fun other => if_neg nofun
  | some digest =>
    refine grouped.takeFrom.congr fun other => ?_
    by_cases here : other = digest
    · simp [here]
    · simp [here, Ne.symm here]

end

end Digests

namespace LayerTables

variable {tables after undone : LayerTables} {l other : Address} {id : Text} {opts : LayerOpts}
  {pick : Layer → Option Text} {record : Layer} {answers : LayerAnswers}

theorem Same.refl (tables : LayerTables) : tables.Same tables := ⟨rfl, rfl, rfl, rfl, rfl, rfl⟩

/-- What the indexes read of a layer. -/
structure SameKeys (one other : Layer) : Prop where
  id : one.id = other.id
  names : one.names = other.names
  compressed : one.compressedDiffDigest = other.compressedDiffDigest
  uncompressed : one.diffDigest = other.diffDigest

theorem SameKeys.change (keys : SameKeys record (tables.object l)) (other : Address) :
    SameKeys ((tables.change l record).object other) (tables.object other) := by
  simp only [LayerTables.change, update_apply]
  split
  next here => exact here ▸ keys
  · exact ⟨rfl, rfl, rfl, rfl⟩

theorem carrying_congr (list : after.layersList = tables.layersList)
    (same : ∀ l ∈ tables.layersList, pick (after.object l) = pick (tables.object l) ∧
      (after.object l).id = (tables.object l).id) (digest : Text) :
    after.carrying pick digest = tables.carrying pick digest := by
  rw [carrying, carrying, list, filter_congr fun l member => by rw [(same l member).1]]
  exact map_congr_left fun l member => (same l (mem_filter.mp member).1).2

section

variable (indexed : tables.Indexed)
include indexed

/-- The invariant only depends on the tables and on what the indexes read of listed layers. -/
theorem Indexed.of_same (same : tables.Same after)
    (keys : ∀ l ∈ tables.layersList, SameKeys (after.object l) (tables.object l)) :
    after.Indexed := by
  have members : ∀ l, l ∈ after.layersList ↔ l ∈ tables.layersList := fun l => by rw [same.list]
  refine ⟨?_, ?_, ?_, ?_, ?_, ?_⟩
  · rw [same.list, map_congr_left fun l member => (keys l member).id]
    exact indexed.apart
  · rw [same.ids]
    exact Index.Leads.congr indexed.ids members fun l id member => by rw [(keys l member).id]
  · rw [same.names]
    exact Index.Leads.congr indexed.names members fun l name member => by rw [(keys l member).names]
  · rw [same.compressed]
    exact indexed.compressed.congr
      (carrying_congr same.list fun l member => ⟨(keys l member).compressed, (keys l member).id⟩)
  · rw [same.uncompressed]
    exact indexed.uncompressed.congr
      (carrying_congr same.list fun l member => ⟨(keys l member).uncompressed, (keys l member).id⟩)
  · rw [same.length, same.list]
    exact indexed.length

theorem Indexed.change (keys : SameKeys record (tables.object l)) :
    (tables.change l record).Indexed :=
  indexed.of_same ⟨rfl, rfl, rfl, rfl, rfl, rfl⟩ fun other _ => keys.change other

theorem Indexed.hold : (tables.hold l).Indexed :=
  indexed.change ⟨rfl, rfl, rfl, rfl⟩

theorem Indexed.mem_of_lookup (found : tables.lookup id = some l) :
    l ∈ tables.layersList := by
  rw [lookup, Option.or_eq_some_iff] at found
  rcases found with byId | ⟨-, byName⟩
  · exact ((indexed.ids _ _).mp byId).1
  · exact ((indexed.names _ _).mp byName).1

theorem Indexed.lookup_id (member : l ∈ tables.layersList) :
    tables.lookup (tables.object l).id = some l := by
  rw [lookup, (indexed.ids _ _).mpr ⟨member, rfl⟩, Option.some_or]

theorem Indexed.unlisted (unknown : tables.byId.search id = none) :
    ∀ l ∈ tables.layersList, (tables.object l).id ≠ id := by
  rintro l member rfl
  rw [(indexed.ids _ _).mpr ⟨member, rfl⟩] at unknown
  cases unknown

/-- No digest has a layer of a new id. -/
theorem Indexed.not_carrying (unknown : tables.byId.search id = none) (digest : Text) :
    id ∉ tables.carrying pick digest := by
  intro carried
  obtain ⟨l, picked, same⟩ := mem_map.mp carried
  exact indexed.unlisted unknown l (mem_filter.mp picked).1 same

end

/-- The layer has been entered in the list and the maps. -/
structure Entered (before after : LayerTables) (l : Address) (record : Layer) : Prop where
  object : after.object = update before.object l record
  list : after.layersList = before.layersList ++ [l]
  length : after.layersListLen = before.layersListLen + 1
  ids : before.byId.insert record.id l = some after.byId
  names : before.byName.insertAll record.names l = some after.byName
  compressed : insertDigestIntoMap true before.byCompressDigest record.compressedDiffDigest
    record.id = some after.byCompressDigest
  uncompressed : insertDigestIntoMap true before.byUncompressDigest record.diffDigest record.id =
    some after.byUncompressDigest

section

variable (entered : Entered tables after l record)
include entered

theorem Entered.mem : l ∈ after.layersList := by simp [entered.list]

theorem Entered.object_self :
    after.object l = record := by
  rw [entered.object, update_self]

theorem Entered.object_of_mem (fresh : l ∉ tables.layersList) (member : other ∈ tables.layersList) :
    after.object other = tables.object other := by
  rw [entered.object, update_of_ne (ne_of_mem_of_not_mem member fresh)]

theorem Entered.carrying (fresh : l ∉ tables.layersList) (digest : Text) :
    after.carrying pick digest = added (tables.carrying pick) (pick record) record.id digest := by
  have before := @carrying_congr tables { tables with object := after.object } pick rfl
    (fun other member => by simp [entered.object_of_mem fresh member]) digest
  rw [LayerTables.carrying, entered.list, filter_append, map_append, added]
  refine (congrArg (· ++ _) before).trans ?_
  by_cases picked : pick record = some digest
  · simp [entered.object_self, picked]
  · simp [entered.object_self, picked]

end

theorem Entered.indexed (entered : Entered tables after l record)
    (fresh : l ∉ tables.layersList) (indexed : tables.Indexed) : after.Indexed := by
  have members : ∀ other, other ∈ after.layersList ↔ other ∈ tables.layersList ∨ other = l := by
    simp [entered.list]
  have unlisted := indexed.unlisted (absent_of_insert entered.ids)
  refine ⟨?_, ?_, ?_, ?_, ?_, ?_⟩
  · rw [entered.list, map_append, map_congr_left fun other member =>
      congrArg Layer.id (entered.object_of_mem fresh member)]
    refine nodup_append.mpr ⟨indexed.apart, nodup_singleton _, ?_⟩
    rintro _ listed _ new rfl
    obtain ⟨other, member, same⟩ := mem_map.mp listed
    rw [map_singleton, mem_singleton, entered.object_self] at new
    exact unlisted other member (same.trans new)
  · refine Index.Leads.congr (Index.Leads.insert indexed.ids entered.ids fresh
      (fun id => ?_) fun other id member => ?_) members fun _ _ _ => Iff.rfl
    · rw [entered.object_self]
      exact eq_comm
    · rw [entered.object_of_mem fresh member]
  · refine Index.Leads.congr (Index.Leads.insertAll indexed.names entered.names fresh
      (fun name => ?_) fun other name member => ?_) members fun _ _ _ => Iff.rfl
    · rw [entered.object_self]
    · rw [entered.object_of_mem fresh member]
  · exact (grouped_insertDigestIntoMap indexed.compressed entered.compressed).congr
      (entered.carrying fresh)
  · exact (grouped_insertDigestIntoMap indexed.uncompressed entered.uncompressed).congr
      (entered.carrying fresh)
  · rw [entered.length, entered.list, length_append, indexed.length]
    rfl

/-- The layer has been taken out of the list and the maps. -/
structure TakenOut (before after : LayerTables) (l : Address) : Prop where
  object : after.object = before.object
  list : after.layersList = before.layersList.filter
    fun other => (before.object other).id ≠ (before.object l).id
  length : after.layersListLen = before.layersListLen - 1
  ids : before.byId.remove (before.object l).id = some after.byId
  names : after.byName = before.byName.clear (before.object l).names
  compressed : after.byCompressDigest = deleteDigestFromMap before.byCompressDigest
    (before.object l).compressedDiffDigest (before.object l).id
  uncompressed : after.byUncompressDigest = deleteDigestFromMap before.byUncompressDigest
    (before.object l).diffDigest (before.object l).id

section

variable (indexed : tables.Indexed) (member : l ∈ tables.layersList)
include indexed member

theorem Indexed.removeMemoryStores :
    ∃ after, tables.removeMemoryStores (tables.object l).id = some after ∧
      TakenOut tables after l := by
  have removed : tables.byId.remove (tables.object l).id =
      some (Keyed.remove tables.byId (tables.object l).id) := by
    refine if_neg ?_
    rw [(indexed.ids _ _).mpr ⟨member, rfl⟩]
    exact Option.some_ne_none _
  have kept : tables.layersList.eraseP (fun other => (tables.object other).id =
      (tables.object l).id) = tables.layersList.filter
        fun other => (tables.object other).id ≠ (tables.object l).id :=
    @Keyed.entries_remove _ _ _ ⟨tables.layersList, indexed.apart⟩ (tables.object l).id _
  rw [LayerTables.removeMemoryStores, indexed.lookup_id member, Option.map_some]
  refine ⟨_, rfl, ?_⟩
  rw [unlist, if_pos ⟨l, member, rfl⟩]
  exact ⟨rfl, kept, rfl, by rw [removed]; rfl, rfl, rfl, rfl⟩

theorem Indexed.eq_of_id (memberOther : other ∈ tables.layersList)
    (same : (tables.object other).id = (tables.object l).id) : other = l :=
  inj_on_of_nodup_map indexed.apart memberOther member same

theorem TakenOut.mem_iff (takenOut : TakenOut tables after l) :
    other ∈ after.layersList ↔ other ∈ tables.layersList ∧ other ≠ l := by
  rw [takenOut.list, mem_filter]
  refine and_congr_right fun listed => ?_
  rw [decide_eq_true_iff]
  exact not_congr ⟨indexed.eq_of_id member listed, fun same => same ▸ rfl⟩

theorem TakenOut.carrying (takenOut : TakenOut tables after l) (digest : Text) :
    after.carrying pick digest =
      if pick (tables.object l) = some digest then
        (tables.carrying pick digest).eraseP (· = (tables.object l).id)
      else tables.carrying pick digest := by
  have filtered : after.carrying pick digest =
      (tables.carrying pick digest).filter fun id => !decide (id = (tables.object l).id) := by
    rw [LayerTables.carrying, LayerTables.carrying, takenOut.list, takenOut.object, filter_map,
      filter_filter, filter_filter]
    refine congrArg (List.map _) (filter_congr fun other _ => ?_)
    simp [Bool.and_comm]
  have once : (tables.carrying pick digest).Nodup :=
    indexed.apart.sublist (filter_sublist.map _)
  rw [filtered]
  split
  · refine (eraseP_eq_filter (once.imp fun {one two} apart first second => apart ?_)).symm
    rw [of_decide_eq_true first, of_decide_eq_true second]
  rename_i unpicked
  refine filter_eq_self.mpr fun id carried => ?_
  obtain ⟨other, picked, rfl⟩ := mem_map.mp carried
  obtain ⟨listed, picked⟩ := mem_filter.mp picked
  simp
  intro same
  rw [indexed.eq_of_id member listed same] at picked
  exact unpicked (of_decide_eq_true picked)

end

theorem TakenOut.indexed (takenOut : TakenOut tables after l) (indexed : tables.Indexed)
    (member : l ∈ tables.layersList) : after.Indexed := by
  have members : ∀ other, other ∈ after.layersList ↔ other ∈ tables.layersList ∧ other ≠ l :=
    fun _ => takenOut.mem_iff indexed member
  refine ⟨?_, ?_, ?_, ?_, ?_, ?_⟩
  · rw [takenOut.list, takenOut.object]
    exact indexed.apart.sublist (filter_sublist.map _)
  · rw [takenOut.object]
    exact Index.Leads.congr (Index.Leads.remove indexed.ids member (fun _ => eq_comm) takenOut.ids)
      members fun _ _ _ => .rfl
  · rw [takenOut.object, takenOut.names]
    exact Index.Leads.congr (Index.Leads.clear indexed.names member fun _ => Iff.rfl) members
      fun _ _ _ => .rfl
  · rw [takenOut.compressed]
    exact (grouped_deleteDigestFromMap indexed.compressed).congr (takenOut.carrying indexed member)
  · rw [takenOut.uncompressed]
    exact (grouped_deleteDigestFromMap indexed.uncompressed).congr
      (takenOut.carrying indexed member)
  · have shorter : after.layersList.length = tables.layersList.length - 1 := by
      rw [takenOut.list, ← @Keyed.entries_remove _ _ _ ⟨tables.layersList, indexed.apart⟩
        (tables.object l).id _]
      exact length_eraseP_of_mem member (by simp)
    rw [takenOut.length, shorter, indexed.length]

/-- A layer that has been entered is taken out without a trace. -/
theorem Entered.same_of_takenOut (entered : Entered tables after l record)
    (fresh : l ∉ tables.layersList) (indexed : tables.Indexed)
    (takenOut : TakenOut after undone l) :
    tables.Same undone := by
  have unknown := absent_of_insert entered.ids
  obtain ⟨-, list, length, ids, names, compressed, uncompressed⟩ := takenOut
  rw [entered.object_self] at list ids names compressed uncompressed
  refine ⟨?_, ?_, ?_, ?_, ?_, ?_⟩
  · have kept : ∀ other ∈ tables.layersList, (after.object other).id ≠ record.id := by
      intro other member
      rw [entered.object_of_mem fresh member]
      exact indexed.unlisted unknown other member
    rw [list, entered.list, filter_append,
      filter_eq_self.mpr fun other member => by simpa using kept other member]
    simp [entered.object_self]
  · rw [length, entered.length, Nat.add_sub_cancel]
  · rw [remove_of_insert entered.ids] at ids
    exact (Option.some.inj ids).symm
  · rw [names]
    exact clear_of_removeAll (removeAll_of_insertAll entered.names)
  · rw [compressed]
    exact deleteDigestFromMap_insert indexed.compressed entered.compressed
      (indexed.not_carrying unknown)
  · rw [uncompressed]
    exact deleteDigestFromMap_insert indexed.uncompressed entered.uncompressed
      (indexed.not_carrying unknown)

end LayerTables

theorem insertDigestIntoMap_true {allocates : Bool} {byDigest after : Index Text DigestLayer}
    {digest : Option Text} {id : Text}
    (inserted : insertDigestIntoMap allocates byDigest digest id = some after) :
    insertDigestIntoMap true byDigest digest id = some after := by
  cases digest with
  | none => exact inserted
  | some digest => exact (Option.ite_none_right_eq_some.mp inserted).2

namespace LayerTables

variable {tables after : LayerTables} {l : Address} {id : Text} {opts : LayerOpts}
  {answers : LayerAnswers}

theorem removeLayerListTail_of_append {front : List Address} {n : Nat}
    (list : tables.layersList = front ++ [l]) (length : tables.layersListLen = n + 1) :
    tables.removeLayerListTail = { tables with layersList := front, layersListLen := n } := by
  rw [removeLayerListTail, if_neg (by simp [list]), list, dropLast_concat, length,
    Nat.add_sub_cancel]

/-- The way out behind the names leaves the list, its length and the two maps as they were. -/
theorem same_clearByName {byId byName : Index Text Address}
    {byCompressDigest : Index Text DigestLayer} {entered : List Text}
    (ids : tables.byId.insert id l = some byId) (names : byName.clear entered = tables.byName)
    (compressed : byCompressDigest = tables.byCompressDigest) :
    tables.Same (clearByName
      { tables.appendLayerIntoList l with byId, byName, byCompressDigest } id entered) := by
  rw [clearByName, removeLayerListTail_of_append rfl rfl, remove_of_insert ids]
  exact ⟨rfl, rfl, rfl, names, compressed, rfl⟩

theorem object_removeLayerListTail : tables.removeLayerListTail.object = tables.object := by
  rw [removeLayerListTail]
  split <;> rfl

/-- `insert_memory_stores` enters the layer everywhere or nowhere. -/
theorem insertMemoryStores_spec {values : Text → List Text}
    (grouped : Grouped tables.byCompressDigest values)
    (new : ∀ digest, (tables.object l).id ∉ values digest)
    (names : (tables.object l).names = opts.names) :
    (∃ result, tables.insertMemoryStores answers (tables.object l).id opts l = (false, result) ∧
        tables.Same result ∧ result.object = tables.object) ∨
      ∃ result, tables.insertMemoryStores answers (tables.object l).id opts l = (true, result) ∧
        Entered tables result l (tables.object l) := by
  rw [insertMemoryStores, ← names]
  split
  · dsimp only
    cases ids : (if answers.allocatesId then tables.byId.insert (tables.object l).id l
        else none) with
    | none =>
      refine .inl ⟨_, rfl, ?_, object_removeLayerListTail⟩
      rw [removeLayerListTail_of_append rfl rfl]
      exact ⟨rfl, rfl, rfl, rfl, rfl, rfl⟩
    | some byId =>
      obtain ⟨-, inserted⟩ := Option.ite_none_right_eq_some.mp ids
      have cleared := @clear_insertNames answers.allocatesName l [] (tables.object l).names
        tables.byName
      have all := @insertAll_of_insertNames answers.allocatesName l [] (tables.object l).names
        tables.byName
      cases entering : insertNames answers.allocatesName l [] (tables.object l).names
          tables.byName with
      | mk complete rest =>
        rw [entering] at cleared all
        cases complete with
        | false =>
          exact .inl ⟨_, rfl, same_clearByName inserted cleared rfl, object_removeLayerListTail⟩
        | true =>
          cases compressed : insertDigestIntoMap answers.allocatesCompressed
              tables.byCompressDigest (tables.object l).compressedDiffDigest
              (tables.object l).id with
          | none =>
            exact .inl ⟨_, rfl, same_clearByName inserted cleared rfl,
              object_removeLayerListTail⟩
          | some byCompressDigest =>
            cases uncompressed : insertDigestIntoMap answers.allocatesUncompressed
                tables.byUncompressDigest (tables.object l).diffDigest
                (tables.object l).id with
            | none =>
              have left := deleteDigestFromMap_insert grouped compressed new
              exact .inl ⟨_, rfl, same_clearByName inserted cleared left,
                object_removeLayerListTail⟩
            | some byUncompressDigest =>
              exact .inr ⟨_, rfl, (update_eq_self _ _).symm, rfl, rfl, inserted,
                all rfl, insertDigestIntoMap_true compressed,
                insertDigestIntoMap_true uncompressed⟩
  · exact .inl ⟨_, rfl, Same.refl _, rfl⟩

/-- Nothing but the object at one address differs. -/
structure Unchanged (before after : LayerTables) (l : Address) :
    Prop extends Same before after where
  object : ∀ other, other ≠ l → after.object other = before.object other

theorem Unchanged.indexed (unchanged : Unchanged tables after l) (fresh : l ∉ tables.layersList)
    (indexed : tables.Indexed) : after.Indexed := by
  refine indexed.of_same unchanged.toSame fun other member => ?_
  rw [unchanged.object other (ne_of_mem_of_not_mem member fresh)]
  exact ⟨rfl, rfl, rfl, rfl⟩

/-- The new layer as a successful creation leaves it. -/
def completed (id : Text) (opts : LayerOpts) : Layer :=
  { newSlayer id opts with smountPoint := some 0, holdRefsNum := 1 }

/-- A layer with nothing mounted. -/
def unmounted (layer : Layer) : Layer :=
  { layer with smountPoint := layer.smountPoint.map fun _ => 0 }

theorem forceUmount_eq (removal : Removal) :
    tables.forceUmount removal l =
      if umountHelper removal (tables.object l) then
        some (tables.change l (unmounted (tables.object l)))
      else none := by
  rw [forceUmount, umountHelper, unmounted]
  cases mounted : (tables.object l).smountPoint with
  | none =>
    have same : { tables.object l with smountPoint := none } = tables.object l := by rw [← mounted]
    have unchanged : tables.change l (tables.object l) = tables := by
      rw [LayerTables.change, update_eq_self]
    rw [Option.map_none, same, unchanged]
    rfl
  | some count => rfl

section

variable (indexed : tables.Indexed)
include indexed

/-- The same for a layer that has just been set up. -/
theorem newLayerByOpts_spec (unknown : tables.byId.search id = none) :
    (∃ result, tables.newLayerByOpts answers l id opts = (false, result) ∧
        Unchanged tables result l) ∨
      ∃ result, tables.newLayerByOpts answers l id opts = (true, result) ∧
        Entered tables result l (newSlayer id opts) := by
  rw [newLayerByOpts]
  split
  · have slayer : (tables.change l (newSlayer id opts)).object l = newSlayer id opts :=
      update_self _ _ _
    have stored := @insertMemoryStores_spec (tables.change l (newSlayer id opts)) l opts answers
      (tables.carrying Layer.compressedDiffDigest) indexed.compressed
      (by
        rw [slayer]
        exact indexed.not_carrying unknown)
      (by rw [slayer]; rfl)
    rw [slayer] at stored
    rcases stored with ⟨result, failed, same, object⟩ | ⟨result, succeeded, entered⟩
    · refine .inl ⟨result, failed, { same with }, fun other different => ?_⟩
      rw [object]
      exact update_of_ne different _ _
    · refine .inr ⟨result, succeeded, { entered with object := ?_ }⟩
      rw [entered.object]
      exact update_idem _ _ _
  · exact .inl ⟨_, rfl, Same.refl _, fun _ _ => rfl⟩

theorem createNew_spec (fresh : l ∉ tables.layersList) (unknown : tables.byId.search id = none) :
    (∃ result, tables.createNew answers l id opts = (false, result) ∧ Unchanged tables result l) ∨
      ∃ result, tables.createNew answers l id opts = (true, result) ∧
        Entered tables result l (completed id opts) := by
  rw [createNew]
  split
  · rcases @newLayerByOpts_spec tables l id opts answers indexed unknown with
      ⟨result, failed, unchanged⟩ | ⟨entering, succeeded, entered⟩
    · rw [failed]
      exact .inl ⟨_, rfl, unchanged⟩
    · have indexed' := entered.indexed fresh indexed
      have own : (entering.object l).id = id := by
        rw [entered.object_self]
        rfl
      have known : entering.lookup id = some l := own ▸ indexed'.lookup_id entered.mem
      obtain ⟨undone, removed, takenOut⟩ := indexed'.removeMemoryStores entered.mem
      rw [own] at removed
      rw [succeeded]
      dsimp only
      rw [known]
      dsimp only
      split
      · refine .inr ⟨_, rfl, { entered with object := ?_ }⟩
        rw [LayerTables.hold, LayerTables.change, LayerTables.change]
        dsimp only
        rw [update_self, update_idem, entered.object, update_self,
          update_idem]
        rfl
      · rw [removed]
        refine .inl ⟨_, rfl, entered.same_of_takenOut fresh indexed takenOut,
          fun other different => ?_⟩
        rw [Option.getD_some, takenOut.object, entered.object]
        exact update_of_ne different _ _
  · exact .inl ⟨_, rfl, Same.refl _, fun _ _ => rfl⟩

/-- A creation leaves the maps the indexes of the list, and changes nothing if it fails. -/
theorem layerStoreCreate_spec (fresh : l ∉ tables.layersList)
    (answers : LayerAnswers) (id : Option Text) (opts : Option LayerOpts) :
    (tables.layerStoreCreate answers l id opts).2.Indexed ∧
      ((tables.layerStoreCreate answers l id opts).1 = false →
        tables.Same (tables.layerStoreCreate answers l id opts).2) := by
  have refused : tables.Indexed ∧ (false = false → tables.Same tables) :=
    ⟨indexed, fun _ => .refl _⟩
  unfold layerStoreCreate
  split
  · exact refused
  rename_i opts
  split
  · split
    · exact refused
    next lid =>
      split
      · exact ⟨indexed.hold, nofun⟩
      rename_i unknown
      rcases @createNew_spec tables l lid opts answers indexed fresh
          (Option.or_eq_none_iff.mp unknown).1 with
        ⟨result, failed, unchanged⟩ | ⟨result, succeeded, entered⟩
      · rw [failed]
        exact ⟨unchanged.indexed fresh indexed, fun _ => unchanged.toSame⟩
      · rw [succeeded]
        exact ⟨entered.indexed fresh indexed, nofun⟩
  · exact refused

/-- A deletion leaves the tables as they were or takes the layer out of them. -/
theorem doDeleteLayer_spec (removal : Removal) (found : tables.lookup id = some l) :
    (umountHelper removal (tables.object l) = false ∧
        tables.doDeleteLayer removal id = (false, tables)) ∨
      umountHelper removal (tables.object l) = true ∧
        ∃ after, tables.doDeleteLayer removal id =
            (removal.rmLayer (tables.object l).id &&
              removal.removeLayer (tables.object l).id, after) ∧
          TakenOut (tables.change l (unmounted (tables.object l))) after l := by
  have sameId := (SameKeys.change (⟨rfl, rfl, rfl, rfl⟩ :
    SameKeys (unmounted (tables.object l)) (tables.object l)) l).id
  have indexed' : (tables.change l (unmounted (tables.object l))).Indexed :=
    indexed.change ⟨rfl, rfl, rfl, rfl⟩
  obtain ⟨after, removed, takenOut⟩ := indexed'.removeMemoryStores (indexed.mem_of_lookup found)
  rw [sameId] at removed
  rw [doDeleteLayer, found]
  dsimp only
  rw [forceUmount_eq]
  cases umountHelper removal (tables.object l) with
  | false => exact .inl ⟨rfl, rfl⟩
  | true =>
    rw [if_pos rfl]
    dsimp only
    rw [removed]
    exact .inr ⟨rfl, after, rfl, takenOut⟩

theorem Indexed.delete (locks : Bool) (removal : Removal)
    (id : Option Text) : (tables.layerStoreDelete locks removal id).2.Indexed := by
  unfold layerStoreDelete
  split
  · exact indexed
  rename_i id
  split
  · cases found : tables.lookup id with
    | none =>
      rw [doDeleteLayer, found]
      exact indexed
    | some l =>
      rcases doDeleteLayer_spec indexed removal found with
        ⟨-, kept⟩ | ⟨-, after, deleted, takenOut⟩
      · rw [kept]
        exact indexed
      · rw [deleted]
        exact takenOut.indexed (indexed.change ⟨rfl, rfl, rfl, rfl⟩)
          (indexed.mem_of_lookup found)
  · exact indexed

theorem Indexed.call {event : LayerCall}
    (called : tables.call event = some after) : after.Indexed := by
  cases event with
  | create answers l id opts =>
    obtain ⟨fresh, created⟩ := Option.ite_none_left_eq_some.mp called
    cases created
    exact (layerStoreCreate_spec indexed fresh answers id opts).1
  | delete locks removal id =>
    cases called
    exact indexed.delete locks removal id

end

end LayerTables

theorem indexed_of_trace {start : IndexedLayers} {calls : List LayerCall} {tables : LayerTables}
    (trace : (layerCalls start).Trace calls tables) : tables.Indexed := by
  induction trace with
  | start => exact start.indexed
  | step _ called ih => exact ih.call called

/-- After every sequence of creations and deletions, successful or failing, the maps are the indexes
of the list and its length is recorded; and a creation that fails there changes none of them. -/
theorem layerTables_of_layerCalls {start : IndexedLayers} {calls : List LayerCall}
    {tables : LayerTables} (trace : (layerCalls start).Trace calls tables) :
    tables.Indexed ∧ ∀ answers l id opts, l ∉ tables.layersList →
      (tables.layerStoreCreate answers l id opts).1 = false →
        tables.Same (tables.layerStoreCreate answers l id opts).2 := by
  have indexed := indexed_of_trace trace
  exact ⟨indexed, fun answers l id opts fresh =>
    (LayerTables.layerStoreCreate_spec indexed fresh answers id opts).2⟩

/-- The store before the first call. -/
def noLayers : IndexedLayers where
  tables :=
    { object := fun _ => ⟨[], none, [], none, none, none, 0⟩
      layersList := []
      layersListLen := 0
      byId := .empty
      byName := .empty
      byCompressDigest := .empty
      byUncompressDigest := .empty }
  indexed :=
    ⟨nodup_nil, fun _ _ => ⟨nofun, nofun⟩, fun _ _ => ⟨nofun, nofun⟩, fun _ => rfl, fun _ => rfl,
      rfl⟩

/-- Nothing fails, apart from the memory of an entry of `by_uncompress_digest`. -/
def LayerAnswers.short (allocatesUncompressed : Bool) : LayerAnswers where
  locks := true
  driverCreates := true
  preparesLayer := true
  allocatesItem := true
  allocatesId := true
  allocatesName _ := true
  allocatesCompressed := true
  allocatesUncompressed := allocatesUncompressed
  savesIncomplete := true
  appliesDiff := true
  updatesMountPoint := true
  savesLayer := true

/-- Two layers of one compressed digest; between them a creation that runs out of memory with the
digest entered and one over a name in use; the first layer is deleted by its name. -/
def layerRun : List LayerCall :=
  [.create (.short true) 0 (some ['a']) (some ⟨none, [['n']], some ['u'], some ['c']⟩),
   .create (.short false) 1 (some ['b']) (some ⟨none, [['m']], some ['v'], some ['c']⟩),
   .create (.short true) 2 (some ['b']) (some ⟨none, [['m'], ['n']], some ['v'], some ['c']⟩),
   .create (.short true) 3 (some ['b']) (some ⟨some ['a'], [['m']], some ['v'], some ['c']⟩),
   .delete true .willing (some ['n'])]

theorem layerTables_of_layerCalls_layerRun :
    ∃ tables, (layerCalls noLayers).Trace layerRun tables ∧ tables.layersList = [3] ∧
      (tables.byCompressDigest.search ['c']).map Bucket.values = some [['b']] ∧ tables.Indexed := by
  have trace := @Machine.trace_of_replay _ _ (layerCalls noLayers) layerRun _ rfl
  exact ⟨_, trace, by decide +kernel, by decide +kernel, (layerTables_of_layerCalls trace).1⟩

/-! The other modules see the store as a list of layers with searches of it. -/

namespace LayerTables

variable {tables : LayerTables}

/-- The listed layers. -/
def Indexed.view (indexed : tables.Indexed) : LayerStore where
  entries := tables.layersList.map tables.object
  apart := by
    rw [map_map]
    exact indexed.apart

/-- The call ends with this result and leaves these layers. -/
def Shows (result : Bool × LayerTables) (called : Bool × LayerStore) : Prop :=
  called.1 = result.1 ∧ called.2.entries = result.2.layersList.map result.2.object

section

variable (indexed : tables.Indexed) {l : Address}
include indexed

/-- `lookup` finds what a search of the list finds. -/
theorem Indexed.lookup_view (id : Text) :
    LayerStore.lookup indexed.view id = (tables.lookup id).map tables.object := by
  have byId : indexed.view.find id = (tables.byId.search id).map tables.object :=
    Index.Leads.find?_map indexed.ids tables.object fun _ => decide_eq_true_iff
  have byName : (indexed.view.entries.find? fun layer => layer.names.contains id) =
      (tables.byName.search id).map tables.object :=
    Index.Leads.find?_map indexed.names tables.object fun _ => contains_iff_mem
  rw [LayerStore.lookup, byId, byName, lookup]
  cases tables.byId.search id <;> rfl

/-- `by_compress_digest` has the ids of what a search of the list finds. -/
theorem Indexed.byCompressDigest_view (digest : Text) :
    tables.byCompressDigest.search digest =
      bucketOf ((LayerStore.layerStoreByCompressDigest indexed.view digest).map Layer.id) := by
  have tests : ∀ layer : Layer, (layer.compressedDiffDigest == some digest) =
      decide (layer.compressedDiffDigest = some digest) := fun layer =>
    Bool.eq_iff_iff.mpr (by simp)
  rw [indexed.compressed, carrying, LayerStore.layerStoreByCompressDigest,
    Indexed.view]
  simp [tests, filter_map]
  rfl

/-- A deletion is that of the list. -/
theorem Indexed.doDeleteLayer_view (removal : Removal) (id : Text) :
    Shows (tables.doDeleteLayer removal id) (Storage.doDeleteLayer removal indexed.view id) := by
  rw [Storage.doDeleteLayer, indexed.lookup_view]
  cases found : tables.lookup id with
  | none =>
    rw [doDeleteLayer, found]
    exact ⟨rfl, rfl⟩
  | some l =>
    rw [Option.map_some]
    dsimp only
    rcases doDeleteLayer_spec indexed removal found with
      ⟨refuses, kept⟩ | ⟨unmounts, after, deleted, takenOut⟩
    · rw [kept, if_neg (by simp [refuses])]
      exact ⟨rfl, rfl⟩
    · have others : ∀ other, other ≠ l → after.object other = tables.object other := by
        intro other different
        rw [takenOut.object]
        exact update_of_ne different _ _
      have entries : (LayerStore.removeMemoryStores indexed.view (tables.object l).id).entries =
          after.layersList.map after.object := by
        have sameIds (other : Address) := (SameKeys.change (⟨rfl, rfl, rfl, rfl⟩ :
          SameKeys (unmounted (tables.object l)) (tables.object l)) other).id
        have list := takenOut.list
        simp only [sameIds] at list
        rw [LayerStore.removeMemoryStores, Keyed.entries_remove, Indexed.view,
          filter_map]
        refine (congrArg (List.map tables.object) list.symm).trans
          (map_congr_left fun other member => (others other ?_).symm)
        rintro rfl
        rw [list, mem_filter] at member
        simp at member
      rw [deleted, if_pos unmounts]
      cases removal.rmLayer (tables.object l).id with
      | true => exact ⟨(Bool.true_and _).symm, entries⟩
      | false => exact ⟨rfl, entries⟩

theorem Indexed.hold_view (listed : l ∈ tables.layersList) :
    (indexed.view.modify (tables.object l).id
        (fun layer => { layer with holdRefsNum := layer.holdRefsNum + 1 }) fun _ => rfl).entries =
      (tables.hold l).layersList.map (tables.hold l).object := by
  refine map_map.trans (map_congr_left fun other member => ?_)
  rw [LayerTables.hold, LayerTables.change, comp_apply]
  dsimp only
  by_cases isL : other = l
  · rw [isL, if_pos rfl, update_self]
  · rw [if_neg fun same => isL (indexed.eq_of_id listed member same), update_of_ne isL]

/-- A creation is one of the list, for some way in which making the layer can end. -/
theorem Indexed.layerStoreCreate_view {answers : LayerAnswers} (opensData : Bool) (id : Text)
    (opts : LayerCreateOpts) (fresh : l ∉ tables.layersList) (locks : answers.locks = true) :
    ∃ makesLayer, Shows (tables.layerStoreCreate answers l (some id)
        (some ⟨opts.parent, [], opts.uncompressDigest, opts.compressedDigest⟩))
      (Storage.layerStoreCreate ⟨opensData, makesLayer⟩ indexed.view id opts) := by
  unfold layerStoreCreate Storage.layerStoreCreate
  dsimp only
  rw [if_pos locks]
  cases found : tables.lookup id with
  | some l =>
    have known : LayerStore.lookup indexed.view id = some (tables.object l) := by
      rw [indexed.lookup_view, found, Option.map_some]
    refine ⟨true, ?_⟩
    dsimp only
    split
    next layer again =>
      cases known.symm.trans again
      exact ⟨rfl, indexed.hold_view (indexed.mem_of_lookup found)⟩
    next unknown =>
      rw [known] at unknown
      cases unknown
  | none =>
    have unknown : LayerStore.lookup indexed.view id = none := by
      rw [indexed.lookup_view, found, Option.map_none]
    rcases @createNew_spec tables l id
        ⟨opts.parent, [], opts.uncompressDigest, opts.compressedDigest⟩ answers indexed fresh
        (Option.or_eq_none_iff.mp found).1 with
      ⟨after, failed, unchanged⟩ | ⟨after, succeeded, entered⟩
    · refine ⟨false, ?_⟩
      dsimp only
      rw [failed]
      split
      next known =>
        rw [unknown] at known
        cases known
      · refine ⟨rfl, ?_⟩
        rw [unchanged.list]
        exact map_congr_left fun other member =>
          (unchanged.object other (ne_of_mem_of_not_mem member fresh)).symm
    · refine ⟨true, ?_⟩
      dsimp only
      rw [succeeded]
      split
      next known =>
        rw [unknown] at known
        cases known
      · refine ⟨rfl, ?_⟩
        rw [entered.list, map_append, map_singleton, entered.object_self,
          map_congr_left fun other member => entered.object_of_mem fresh member]
        rfl

end

/-- After every sequence of calls the next one finds, deletes and creates what it does in
the list. -/
theorem layerCalls_view {start : IndexedLayers} {calls : List LayerCall}
    (trace : (layerCalls start).Trace calls tables) :
    let store := (indexed_of_trace trace).view
    (∀ id, LayerStore.lookup store id = (tables.lookup id).map tables.object) ∧
    (∀ digest, tables.byCompressDigest.search digest =
      bucketOf ((LayerStore.layerStoreByCompressDigest store digest).map Layer.id)) ∧
    (∀ removal id,
      Shows (tables.doDeleteLayer removal id) (Storage.doDeleteLayer removal store id)) ∧
    ∀ l answers opensData id opts, l ∉ tables.layersList → answers.locks = true → ∃ makesLayer,
      Shows (tables.layerStoreCreate answers l (some id)
          (some ⟨opts.parent, [], opts.uncompressDigest, opts.compressedDigest⟩))
        (Storage.layerStoreCreate ⟨opensData, makesLayer⟩ store id opts) := by
  have indexed := indexed_of_trace trace
  exact ⟨indexed.lookup_view, indexed.byCompressDigest_view, indexed.doDeleteLayer_view,
    fun _ _ => indexed.layerStoreCreate_view⟩

theorem layerCalls_view_layerRun : ∃ tables, ∃ trace : (layerCalls noLayers).Trace layerRun tables,
    LayerStore.lookup (indexed_of_trace trace).view ['b'] = (tables.lookup ['b']).map
      tables.object ∧
      tables.lookup ['b'] = some 3 := by
  have trace := @Machine.trace_of_replay _ _ (layerCalls noLayers) layerRun _ rfl
  exact ⟨_, trace, (layerCalls_view trace).1 _, by decide +kernel⟩

end LayerTables

end Isulad.Storage
