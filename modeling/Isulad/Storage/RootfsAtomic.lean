import Isulad.Std.Trace
import Isulad.Storage.RootfsStore

/-!
# Failing to create a rootfs

`rootfs_store_create` enters a record in a list and three maps. When a map refuses it, the item
leaves the list and the record is freed, while the length stays counted up and the maps keep the
entries made so far. `createsAtomically_iff` says, for all tables, when this can happen. The runs
that follow it are sequences of creations and deletions, failing or not, from a store loaded from
disk; an entry that was left behind leads to freed memory, so a call that would use it has no
outcome there.
-/

namespace Isulad.Storage

open Option List Isulad.Std Index
open Index (empty)

/-- How everything outside the store answers one call. -/
structure RootfsCallAnswers extends RootfsAnswers where
  /-- `rootfs_store_lock`. -/
  locksStore : Bool
  /-- `util_generate_random_str` for an id, attempt by attempt. -/
  utilGenerateRandomStr : Nat → Option Text

/-- The loop of `generate_random_container_id`, with the number of attempts left. -/
def randomIdLoop (random : Nat → Option Text) (byid : Index Text RootfsRecord) :
    Nat → Nat → Option Text
  | 0, _ => none
  | left + 1, i =>
    (random i).bind fun id =>
      if byid.search id = none then some id else randomIdLoop random byid left (i + 1)

/-- `max_retry_cnt`. -/
def maxRetryCnt : Nat := 5

variable (answers : RootfsCallAnswers)

/-- `generate_random_container_id`. -/
def generateRandomContainerId (tables : RootfsTables) : Option Text :=
  randomIdLoop answers.utilGenerateRandomStr tables.byid maxRetryCnt 0

/-- The id that is given, or a new one. -/
def rootfsDstId (tables : RootfsTables) : Option Text → Option Text
  | none => generateRandomContainerId answers tables
  | some id => some id

/-- `rootfs_store_create` with an id or `NULL`; `true` is an id as the result. -/
def rootfsStoreCreateCall (tables : RootfsTables) (id : Option Text) (names : List Text)
    (image layer : Text) : Bool × RootfsTables :=
  if answers.locksStore then
    match rootfsDstId answers tables id with
    | none => (false, tables)
    | some dstId => rootfsStoreCreate answers.toRootfsAnswers tables dstId names image layer
  else (false, tables)

/-- The calls that change the store. -/
inductive RootfsCall where
  | create (answers : RootfsCallAnswers) (id : Option Text) (names : List Text)
      (image layer : Text)
  | delete (answers : RootfsCallAnswers) (id : Text)

variable (tables : RootfsTables)

/-- The tables after a call. -/
def RootfsTables.call : RootfsCall → Option RootfsTables
  | .create answers id names image layer =>
    some (rootfsStoreCreateCall answers tables id names image layer).2
  | .delete answers id =>
    match tables.lookup id with
    | none => some tables
    | some cntr =>
      -- a record that is not in the list has been freed
      if cntr ∈ tables.rootfsList then
        some (rootfsStoreDelete answers.toRootfsAnswers tables id).2
      else none

/-- Two records that share no id, layer or name. -/
structure RootfsRecord.Apart (one other : RootfsRecord) : Prop where
  id : one.id ≠ other.id
  layer : one.layer ≠ other.layer
  names : ∀ name ∈ one.names, name ∉ other.names

/-- The records on disk. -/
structure SavedRootfs where
  records : List RootfsRecord
  apart : records.Pairwise RootfsRecord.Apart
  once : ∀ rootfs ∈ records, rootfs.names.Nodup

/-- `load_container_to_store_field`, when no other record has one of the names. -/
def loadContainerToStoreField (cntr : RootfsRecord) : RootfsTables :=
  { tables with
    byid := tables.byid.replace cntr.id cntr
    bylayer := tables.bylayer.replace cntr.layer cntr
    byname := cntr.names.foldl (fun byname name => byname.replace name cntr) tables.byname }

/-- `rootfs_store_load`. -/
def rootfsStoreLoad (saved : SavedRootfs) : RootfsTables :=
  saved.records.foldl loadContainerToStoreField
    ⟨saved.records, saved.records.length, empty, empty, empty⟩

/-- The calls on a store that has been loaded. -/
def rootfsCalls (saved : SavedRootfs) : Machine RootfsTables RootfsCall where
  initial := rootfsStoreLoad saved
  step := RootfsTables.call

/-- Whatever the image and however the rest of the system answers, a creation that fails changes
nothing. -/
def RootfsTables.CreatesAtomically (id : Option Text) (names : List Text) (layer : Text) : Prop :=
  ∀ image answers, (rootfsStoreCreateCall answers tables id names image layer).1 = false →
    (rootfsStoreCreateCall answers tables id names image layer).2 = tables

/-- The id is known and nothing is tried; or the layer and the names are not in use, and no listed
rootfs has the id, or any that may be generated, without being known by it. -/
def RootfsTables.Unclaimed (id : Option Text) (names : List Text) (layer : Text) : Prop :=
  (∃ known, id = some known ∧ tables.byid.search known ≠ none) ∨
    (tables.Free names layer ∧
      ∀ rootfs ∈ tables.rootfsList, id.getD rootfs.id = rootfs.id →
        tables.byid.search rootfs.id ≠ none)

/-- The record is found by its id, its layer and its names. -/
structure RootfsTables.Finds (tables : RootfsTables) (rootfs : RootfsRecord) : Prop where
  ids : tables.byid.search rootfs.id = some rootfs
  layers : tables.bylayer.search rootfs.layer = some rootfs
  names : ∀ name ∈ rootfs.names, tables.byname.search name = some rootfs

/-- Every listed record is found. -/
structure RootfsTables.Coherent (tables : RootfsTables) : Prop where
  apart : (tables.rootfsList.map RootfsRecord.id).Nodup
  once : ∀ rootfs ∈ tables.rootfsList, rootfs.names.Nodup
  found : ∀ rootfs ∈ tables.rootfsList, tables.Finds rootfs

/-- Coherent tables are found by their ids. -/
def RootfsTables.Coherent.store {tables : RootfsTables} (coherent : tables.Coherent) :
    RootfsStore :=
  ⟨tables, coherent.apart, fun rootfs listed => (coherent.found rootfs listed).ids⟩

section Create

variable {answers : RootfsAnswers} {tables before after : RootfsTables} {id image layer : Text}
  {names : List Text}

theorem Leftover.coherent (leftover : Leftover before after) (coherent : before.Coherent) :
    after.Coherent := by
  obtain ⟨apart, once, found⟩ := coherent
  rw [← leftover.list] at apart once found
  refine ⟨apart, once, fun rootfs member => ?_⟩
  obtain ⟨ids, layers, names⟩ := found rootfs member
  exact ⟨leftover.ids ids, leftover.layers layers,
    fun name named => leftover.names (names name named)⟩

/-- Entering a record keeps the others. -/
theorem Entered.coherent {rootfs : RootfsRecord} (entered : Entered before after rootfs)
    (once : rootfs.names.Nodup) (coherent : before.Coherent) :
    after.Coherent := by
  have unlisted := coherent.store.unlisted (absent_of_insert entered.ids)
  refine ⟨?_, ?_, ?_⟩ <;> rw [entered.list]
  · rw [map_append, nodup_append]
    refine ⟨coherent.apart, nodup_singleton _, ?_⟩
    rintro _ listed _ new rfl
    obtain ⟨other, member, same⟩ := mem_map.mp listed
    exact unlisted other member (same.trans (mem_singleton.mp new))
  all_goals
    intro other member
    rcases mem_append.mp member with old | new
  · exact coherent.once other old
  · exact mem_singleton.mp new ▸ once
  · obtain ⟨ids, layers, names⟩ := coherent.found other old
    refine ⟨search_insert_keeps entered.ids ids, search_insert_keeps entered.layers layers,
      fun name named => ?_⟩
    have present := names name named
    rw [search_insertAll entered.names, if_neg, present]
    intro taken
    rw [absent_of_insertAll entered.names taken] at present
    cases present
  · cases mem_singleton.mp new
    refine ⟨?_, ?_, fun name named => ?_⟩
    · rw [search_insert entered.ids, if_pos rfl]
    · rw [search_insert entered.layers, if_pos rfl]
    · rw [search_insertAll entered.names, if_pos named]

theorem rootfsStoreCreate_coherent (coherent : tables.Coherent) :
    (rootfsStoreCreate answers tables id names image layer).2.Coherent := by
  rcases rootfsStoreCreate_outcome answers tables id names image layer with
    ⟨-, idle⟩ | ⟨unknown, -, ⟨-, -, leftover⟩ | ⟨-, after, entered, created⟩⟩
  · rw [idle]
    exact coherent
  · exact leftover.coherent coherent
  · have undone : (tables.enlist (createdRootfs id names image layer)).unlist id = tables :=
      unlist_enlist (coherent.store.unlisted unknown)
    rw [created, undone]
    split
    · exact entered.coherent (nodup_utilStringArrayUnique names) coherent
    · exact coherent

end Create

/-- Everything outside the store obliges, apart from the saving of the new record; random ids are
the given one. -/
def obliging (random : Text) (saves : Bool) : RootfsCallAnswers where
  locks := true
  utilValidShortSha256Id := fun _ => true
  ociNormalizeImageName := some
  creation := ⟨true, true⟩
  getsTime := true
  savesRootfs := saves
  removesRootfsDir := true
  removal := .willing
  locksStore := true
  utilGenerateRandomStr := fun _ => some random

theorem rootfsStoreCreateCall_obliging {tables : RootfsTables} {id : Option Text} {random : Text}
    (new : tables.byid.search random = none) (saves : Bool) (names : List Text)
    (image layer : Text) :
    rootfsStoreCreateCall (obliging random saves) tables id names image layer =
      rootfsStoreCreate (obliging random saves).toRootfsAnswers tables (id.getD random) names image
        layer := by
  have chosen : rootfsDstId (obliging random saves) tables id = some (id.getD random) := by
    cases id with
    | some id => rfl
    | none =>
      exact if_pos new
  rw [rootfsStoreCreateCall, chosen]
  rfl

/-- A record that is listed but not known by its id gives way to a new one that cannot be saved. -/
theorem unlist_enlist_ne {tables : RootfsTables} {rootfs created : RootfsRecord}
    (listed : rootfs ∈ tables.rootfsList) (same : rootfs.id = created.id)
    (other : ∀ last, tables.rootfsList.getLast? = some last → last.image ≠ created.image) :
    (tables.enlist created).unlist created.id ≠ tables := by
  intro unchanged
  have here : (rootfs.id == created.id) = true := by simp [same]
  have found :
      (tables.enlist created).rootfsList.any (fun other => other.id == created.id) = true :=
    any_eq_true.mpr ⟨rootfs, mem_append_left _ listed, here⟩
  have list := congrArg RootfsTables.rootfsList unchanged
  rw [RootfsTables.unlist, if_pos found, RootfsTables.enlist] at list
  rw [@eraseP_append_left _ (fun other => other.id == created.id) _ here _ _ listed] at list
  have last : tables.rootfsList.getLast? = some created := by rw [← list, List.getLast?_concat]
  exact other created last rfl

/-- For all tables and arguments, a failing `rootfs_store_create` leaves the list, its length and
the three maps as they were exactly when the id is known, or the layer and the names are not in use
and no rootfs is listed that is not known by that id. -/
theorem createsAtomically_iff (tables : RootfsTables) (id : Option Text) (names : List Text)
    (layer : Text) :
    tables.CreatesAtomically id names layer ↔ tables.Unclaimed id names layer := by
  constructor
  · intro atomically
    by_contra claimed
    obtain ⟨unknown, claimed⟩ := not_or.mp claimed
    have newId : ∀ {random}, tables.byid.search random = none →
        tables.byid.search (id.getD random) = none := by
      intro random new
      cases id with
      | none => exact new
      | some id => exact by_contra fun known => unknown ⟨id, rfl, known⟩
    by_cases free : tables.Free names layer
    · have hidden : ∃ rootfs ∈ tables.rootfsList, id.getD rootfs.id = rootfs.id ∧
          tables.byid.search rootfs.id = none := by
        by_contra all
        refine claimed ⟨free, fun rootfs listed same unseen => all ⟨rootfs, listed, same, unseen⟩⟩
      obtain ⟨rootfs, listed, same, unseen⟩ := hidden
      obtain ⟨image, other⟩ : ∃ image : Text, ∀ last,
          tables.rootfsList.getLast? = some last → last.image ≠ image := by
        refine ⟨'x' :: ((tables.rootfsList.getLast?.map RootfsRecord.image).getD []), ?_⟩
        intro last isLast again
        rw [isLast] at again
        exact absurd (congrArg List.length again) (by simp)
      have created := @rootfsStoreCreateCall_obliging _ id _ unseen false names image layer
      obtain ⟨after, -, outcome⟩ := @rootfsStoreCreate_free
        (obliging rootfs.id false).toRootfsAnswers _ _ image _ _ (newId unseen) rfl free
      rw [outcome, same] at created
      have unchanged := atomically image (obliging rootfs.id false) (by rw [created]; rfl)
      rw [created] at unchanged
      exact @unlist_enlist_ne _ _ (createdRootfs rootfs.id names image layer) listed rfl other
        unchanged
    · obtain ⟨random, new⟩ := tables.byid.exists_absent
      obtain ⟨failed, leftover⟩ := @rootfsStoreCreate_claimed (obliging random true).toRootfsAnswers
        _ _ [] _ _ (newId new) rfl free
      rw [← rootfsStoreCreateCall_obliging new] at failed leftover
      exact leftover.ne (atomically _ _ failed)
  · intro unclaimed image answers failed
    rw [rootfsStoreCreateCall] at failed ⊢
    split at failed
    next locked =>
      rw [if_pos locked]
      cases chosen : rootfsDstId answers tables id with
      | none => rfl
      | some dstId =>
        rw [chosen] at failed
        dsimp only at failed ⊢
        rcases rootfsStoreCreate_outcome answers.toRootfsAnswers tables dstId names image layer with
          ⟨-, idle⟩ | ⟨unknown, -, entering⟩
        · rw [idle]
        obtain ⟨free, seen⟩ := unclaimed.resolve_left <| by
          rintro ⟨known, rfl, present⟩
          cases chosen
          exact present unknown
        have unlisted : ∀ other ∈ tables.rootfsList, other.id ≠ dstId := by
          rintro other listed rfl
          refine seen other listed ?_ unknown
          cases id with
          | none => rfl
          | some id =>
            cases chosen
            rfl
        obtain ⟨-, after, -, outcome⟩ := entering.resolve_left fun claimed => claimed.1 free
        rw [outcome] at failed ⊢
        split at failed
        · cases failed
        next unsaved =>
          rw [if_neg unsaved]
          exact unlist_enlist unlisted
    next unlocked => rw [if_neg unlocked]

section Delete

variable {answers : RootfsAnswers} {tables : RootfsTables} {rootfs : RootfsRecord}

/-- The tables with a record taken out everywhere. -/
structure TakenOut (before after : RootfsTables) (rootfs : RootfsRecord) : Prop where
  ids : before.byid.remove rootfs.id = some after.byid
  layers : before.bylayer.remove rootfs.layer = some after.bylayer
  names : before.byname.removeAll rootfs.names = some after.byname
  list : after.rootfsList = before.rootfsList.eraseP fun other => other.id == rootfs.id

theorem removeRootfsFromMemory_takenOut (coherent : tables.Coherent)
    (listed : rootfs ∈ tables.rootfsList) :
    TakenOut tables (tables.removeRootfsFromMemory rootfs.id).2 rootfs := by
  obtain ⟨atId, atLayer, atNames⟩ := coherent.found rootfs listed
  have known : tables.lookup rootfs.id = some rootfs := by
    rw [RootfsTables.lookup, atId, some_or, some_or]
  have ids : tables.byid.remove rootfs.id = some (Keyed.remove tables.byid rootfs.id) :=
    if_neg (by rw [atId]; exact some_ne_none _)
  have byLayers : tables.bylayer.remove rootfs.layer =
      some (Keyed.remove tables.bylayer rootfs.layer) :=
    if_neg (by rw [atLayer]; exact some_ne_none _)
  obtain ⟨byname, byNames⟩ := isSome_iff_exists.mp
    (@removeAll_isSome _ _ _ tables.byname _ (coherent.once rootfs listed) fun name named => by
      rw [atNames name named]
      exact some_ne_none _)
  have found : tables.rootfsList.any (fun other => other.id == rootfs.id) = true :=
    any_eq_true.mpr ⟨rootfs, listed, by simp⟩
  rw [RootfsTables.removeRootfsFromMemory, known]
  simp [ids, byLayers, removeEach_of_removeAll byNames, RootfsTables.unlist, found]
  exact ⟨ids, byLayers, byNames, rfl⟩

theorem TakenOut.coherent {before after : RootfsTables} (takenOut : TakenOut before after rootfs)
    (coherent : before.Coherent) (listed : rootfs ∈ before.rootfsList) : after.Coherent := by
  have stays : ∀ other ∈ after.rootfsList, other ∈ before.rootfsList ∧ other.id ≠ rootfs.id := by
    intro other member
    have tests : (fun other : RootfsRecord => other.id == rootfs.id) =
        fun other => decide (other.id = rootfs.id) := by
      funext other
      exact Bool.eq_iff_iff.mpr (by simp)
    rw [takenOut.list, tests] at member
    exact (@Keyed.mem_remove _ _ _ ⟨before.rootfsList, coherent.apart⟩ _ _).mp member
  refine ⟨?_, fun other member => coherent.once other (stays other member).1,
    fun other member => ?_⟩
  · rw [takenOut.list]
    exact coherent.apart.sublist (eraseP_sublist.map _)
  obtain ⟨there, different⟩ := stays other member
  obtain ⟨ids, layers, names⟩ := coherent.found other there
  obtain ⟨-, layersHere, namesHere⟩ := coherent.found rootfs listed
  -- what is found under a key of `rootfs` is `rootfs`
  have notHere : some other ≠ some rootfs := fun same =>
    different (congrArg RootfsRecord.id (some.inj same))
  refine ⟨?_, ?_, fun name named => ?_⟩
  · rw [search_remove takenOut.ids, if_neg different]
    exact ids
  · rw [search_remove takenOut.layers, if_neg, layers]
    intro same
    rw [same, layersHere] at layers
    exact notHere layers.symm
  · rw [search_removeAll takenOut.names, if_neg, names name named]
    intro shared
    exact notHere ((names name named).symm.trans (namesHere name shared))

theorem rootfsStoreDelete_coherent (coherent : tables.Coherent) {id : Text}
    (found : tables.lookup id = some rootfs) (listed : rootfs ∈ tables.rootfsList) :
    (rootfsStoreDelete answers tables id).2.Coherent := by
  have removed := (removeRootfsFromMemory_takenOut coherent listed).coherent coherent listed
  rw [rootfsStoreDelete, found]
  rw [RootfsTables.deleteRootfsFromStoreWithoutLock, found]
  dsimp only
  cases outcome : tables.removeRootfsFromMemory rootfs.id with
  | mk done after =>
    rw [outcome] at removed
    cases done <;> exact removed

end Delete

variable {names : List Text}

theorem foldl_replace_search {byname : Index Text RootfsRecord} {cntr : RootfsRecord}
    {name : Text} :
    (names.foldl (fun byname name => byname.replace name cntr) byname).search name =
      if name ∈ names then some cntr else byname.search name := by
  induction names generalizing byname with
  | nil => rfl
  | cons first names ih =>
    rw [foldl_cons, ih, search_replace]
    by_cases later : name ∈ names <;> by_cases here : name = first <;> simp [later, here]

variable {tables after : RootfsTables} {events : List RootfsCall} {saved : SavedRootfs}

/-- A loaded record is found, and those loaded before it still are. -/
theorem loadContainerToStoreField_finds {cntr rootfs : RootfsRecord}
    (either : rootfs = cntr ∨ rootfs.Apart cntr ∧ tables.Finds rootfs) :
    (loadContainerToStoreField tables cntr).Finds rootfs := by
  rcases either with rfl | ⟨apart, ids, layers, names⟩
  · refine ⟨search_replace.trans (if_pos rfl), search_replace.trans (if_pos rfl),
      fun name named => ?_⟩
    exact foldl_replace_search.trans (if_pos named)
  · refine ⟨?_, ?_, fun name named => ?_⟩
    · exact (search_replace.trans (if_neg apart.id)).trans ids
    · exact (search_replace.trans (if_neg apart.layer)).trans layers
    · exact (foldl_replace_search.trans (if_neg (apart.names name named))).trans (names name named)

theorem rootfsStoreLoad_coherent (saved : SavedRootfs) : (rootfsStoreLoad saved).Coherent := by
  have loads : ∀ (records : List RootfsRecord) (tables : RootfsTables),
      records.Pairwise RootfsRecord.Apart →
        (records.foldl loadContainerToStoreField tables).rootfsList = tables.rootfsList ∧
        ∀ rootfs ∈ records, (records.foldl loadContainerToStoreField tables).Finds rootfs := by
    intro records tables apart
    induction records using List.reverseRecOn with
    | nil => exact ⟨rfl, nofun⟩
    | append_singleton records cntr ih =>
      obtain ⟨before, -, across⟩ := pairwise_append.mp apart
      rw [foldl_append, foldl_cons, foldl_nil]
      refine ⟨(ih before).1, fun rootfs member => loadContainerToStoreField_finds ?_⟩
      rcases mem_append.mp member with old | new
      · exact .inr ⟨across rootfs old cntr (mem_singleton_self _), (ih before).2 rootfs old⟩
      · exact .inl (mem_singleton.mp new)
  obtain ⟨list, finds⟩ := loads saved.records
    ⟨saved.records, saved.records.length, empty, empty, empty⟩ saved.apart
  have loaded : (rootfsStoreLoad saved).rootfsList = saved.records := list
  refine ⟨?_, ?_, ?_⟩ <;> rw [loaded]
  · exact pairwise_map.mpr (saved.apart.imp fun apart => apart.id)
  · exact saved.once
  · exact finds

theorem RootfsTables.Coherent.call (coherent : tables.Coherent) {event : RootfsCall}
    (called : tables.call event = some after) : after.Coherent := by
  cases event with
  | create answers id names image layer =>
    cases called
    rw [rootfsStoreCreateCall]
    split
    · split
      · exact coherent
      · exact rootfsStoreCreate_coherent coherent
    · exact coherent
  | delete answers id =>
    rw [RootfsTables.call] at called
    split at called
    · cases called
      exact coherent
    rename_i cntr found
    split at called
    next listed =>
      cases called
      exact rootfsStoreDelete_coherent coherent found listed
    · cases called

/-- After every sequence of creations and deletions, failing or not, every listed record is found by
its id, its layer and its names; so it is the layer and the names of a new one alone that matter. -/
theorem coherent_of_rootfsCalls (trace : (rootfsCalls saved).Trace events tables) :
    tables.Coherent ∧ ∀ names layer id, tables.Free names layer →
      tables.Unclaimed id names layer := by
  have coherent : tables.Coherent := by
    induction trace with
    | start => exact rootfsStoreLoad_coherent saved
    | step _ called ih => exact ih.call called
  refine ⟨coherent, fun names layer id free => .inr ⟨free, fun rootfs listed _ => ?_⟩⟩
  rw [(coherent.found rootfs listed).ids]
  exact some_ne_none _

/-! A store with one rootfs `a` over the layer `l`. -/

def noRecords : SavedRootfs := ⟨[], .nil, nofun⟩

def firstRootfs : RootfsCall := .create (obliging ['r'] true) (some ['a']) [['n']] ['i'] ['l']

def oneRootfs : RootfsTables :=
  (rootfsStoreCreateCall (obliging ['r'] true) (rootfsStoreLoad noRecords) (some ['a']) [['n']]
    ['i'] ['l']).2

theorem coherent_of_rootfsCalls_oneRootfs :
    (rootfsCalls noRecords).Trace [firstRootfs] oneRootfs ∧ oneRootfs.Coherent := by
  have trace : (rootfsCalls noRecords).Trace [firstRootfs] oneRootfs := .step .start rfl
  exact ⟨trace, (coherent_of_rootfsCalls trace).1⟩

/-- The creation of a rootfs `b` over the same layer. -/
def refusedRootfs : Bool × RootfsTables :=
  rootfsStoreCreateCall (obliging ['r'] true) oneRootfs (some ['b']) [] ['i'] ['l']

/-- It is refused; `b` stays in `byid` and the list of one is counted as two. -/
theorem rootfsStoreCreateCall_oneRootfs :
    (rootfsCalls noRecords).Trace [firstRootfs] oneRootfs ∧ refusedRootfs.1 = false ∧
      refusedRootfs.2.rootfsList = [⟨['a'], [['n']], ['i'], ['l']⟩] ∧
      refusedRootfs.2.rootfsListLen = 2 ∧
      refusedRootfs.2.byid.search ['b'] = some ⟨['b'], [], ['i'], ['l']⟩ ∧
      ¬ oneRootfs.CreatesAtomically (some ['b']) [] ['l'] := by
  have failed : refusedRootfs.1 = false := by decide +kernel
  have counted : refusedRootfs.2.rootfsListLen = 2 := by decide +kernel
  refine ⟨Machine.Trace.step .start rfl, failed, by decide +kernel, counted, by decide +kernel,
    fun atomically => ?_⟩
  have unchanged : refusedRootfs.2 = oneRootfs := atomically _ _ failed
  rw [unchanged] at counted
  exact absurd counted (by decide +kernel)

end Isulad.Storage
