import Isulad.Storage.ImageLoad

/-!
# The image store and its records on disk

Every call that changes the names of an image saves its record. A name can move from one image to
another: `image_store_add_name` saves the image that loses it as well, `image_store_set_names` does
not. `recordsAgree_iff` says for which sequences of calls the records agree with the store all along
and a reload gives every name to the image that has it.
-/

namespace Isulad.Storage

open ImageTables Option List Function Isulad.Std Keyed Index Machine

/-- The images that `image_store_add_name` saves in its loop over the names. -/
def savedInTakeNames (img : Address) : List Text → (Address → ImageRecord) → Index Text Address →
    List ImageRecord
  | [], _, _ => []
  | name :: names, object, byname =>
    match byname.search name with
    | none => savedInTakeNames img names object (byname.replace name img)
    | some other =>
      (object other).removeName name ::
        savedInTakeNames img names (update object other ((object other).removeName name))
          (byname.replace name img)

namespace ImageTables

/-- The same when the image's own names have been taken out of the index. -/
def savedInAddName (tables : ImageTables) (img : Address) (name : Text) : List ImageRecord :=
  match tables.byname.removeAll (tables.object img).names with
  | none => []
  | some byname =>
    savedInTakeNames img (utilStringArrayUnique ((tables.object img).names ++ [name])) tables.object
      byname

/-- The disk after a call that leads to `after`. -/
def write (tables after : ImageTables) (answers : ImageAnswers) (disk : SavedImages) :
    ImageCall → SavedImages
  | .create img _ _ _ => saveImage disk (after.object img)
  | .delete id =>
    match tables.lookup id with
    | none => disk
    | some img => disk.remove (tables.object img).id
  | .addName id name =>
    match tables.lookup id with
    | none => disk
    | some img =>
      saveImage ((tables.savedInAddName img name).foldl saveImage disk) (after.object img)
  | .setNames id _ =>
    match tables.lookup id with
    | none => disk
    | some img => saveImage disk (after.object img)
  | .setBigData id key data =>
    match tables.lookup id with
    | none => disk
    | some img =>
      -- `should_save`
      if (tables.updateImageWithBigData answers img key data).any Prod.snd then
        saveImage disk (after.object img)
      else disk

end ImageTables

/-- The store and its disk. -/
structure ImageWorld where
  tables : ImageTables
  disk : SavedImages

/-- A call that succeeds. -/
def ImageWorld.call (world : ImageWorld) (event : ImageAnswers × ImageCall) : Option ImageWorld :=
  (world.tables.call event.1 event.2).map fun after =>
    ⟨after, world.tables.write after event.1 world.disk event.2⟩

namespace ImageWorld

/-- Every image's record has its names, and every record is that of an image. -/
structure Agrees (world : ImageWorld) : Prop where
  recorded : ∀ img ∈ world.tables.imagesList,
    (world.disk.find (world.tables.object img).id).map ImageRecord.names =
      some (world.tables.object img).names
  known : ∀ id, world.disk.find id ≠ none →
    ∃ img ∈ world.tables.imagesList, (world.tables.object img).id = id

variable (world : ImageWorld)

/-- Whatever the order of the directories, a load that none of them is skipped by, converted or
deleted gives every name to the image that has it. -/
def Reloads : Prop :=
  ∀ answers records, records.Perm world.disk.entries → Loadable answers records →
    ∃ store, imageStoreLoad answers records world.disk = some store ∧
      ∀ name, store.1.imageOf name = world.tables.imageOf name

/-- Every image has an id that a load does not skip. -/
def HasImageIds : Prop :=
  ∀ img ∈ world.tables.imagesList, isImageId (world.tables.object img).id = true

instance : Decidable world.HasImageIds :=
  inferInstanceAs (Decidable (∀ img ∈ world.tables.imagesList, _))

/-- No name has the default host, which loading would strip. -/
def Plain : Prop :=
  ∀ name, world.tables.byname.search name ≠ none → hasDefaultHost name = false

/-- The call brings in no name with the default host, and if it is `image_store_set_names` it takes
no name from another image. -/
def KeepsRecords : ImageAnswers × ImageCall → Prop
  | (_, .create _ _ names _) => ∀ name ∈ names, hasDefaultHost name = false
  | (_, .delete _) => True
  | (_, .addName _ name) => hasDefaultHost name = false
  | (_, .setNames id names) =>
    (∀ name ∈ names, hasDefaultHost name = false) ∧
      ∀ name ∈ names, ∀ owner, world.tables.byname.search name = some owner →
        world.tables.lookup id = some owner
  | (_, .setBigData _ _ _) => True

/-- The indexes agree with the list, and no image has a name twice. -/
structure Ordered (world : ImageWorld) : Prop where
  sound : world.tables.Sound
  once : ∀ img ∈ world.tables.imagesList, (world.tables.object img).names.Nodup

end ImageWorld

/-- A store that agrees with its disk. -/
structure StoredImages extends ImageWorld where
  ordered : toImageWorld.Ordered
  agrees : toImageWorld.Agrees
  plain : toImageWorld.Plain

/-- Successful calls on a store that agrees with its disk. -/
def storedCalls (start : StoredImages) : Machine ImageWorld (ImageAnswers × ImageCall) where
  initial := start.toImageWorld
  step := ImageWorld.call

namespace ImageWorld

variable {world : ImageWorld}

theorem Ordered.plain_iff (ordered : world.Ordered) :
    world.Plain ↔ ∀ img ∈ world.tables.imagesList, ∀ name ∈ (world.tables.object img).names,
      hasDefaultHost name = false := by
  constructor
  · intro plain img listed name named
    refine plain name ?_
    rw [(ordered.sound.names name img).mpr ⟨listed, named⟩]
    exact some_ne_none _
  · intro plain name present
    obtain ⟨img, found⟩ := ne_none_iff_exists'.mp present
    obtain ⟨listed, named⟩ := (ordered.sound.names name img).mp found
    exact plain img listed name named

theorem imageOf_eq_some_iff (ordered : world.Ordered) {name id : Text} :
    world.tables.imageOf name = some id ↔ ∃ img ∈ world.tables.imagesList,
      name ∈ (world.tables.object img).names ∧ (world.tables.object img).id = id := by
  rw [ImageTables.imageOf, map_eq_some_iff]
  constructor
  · rintro ⟨img, found, rfl⟩
    obtain ⟨listed, named⟩ := (ordered.sound.names name img).mp found
    exact ⟨img, listed, named, rfl⟩
  · rintro ⟨img, listed, named, rfl⟩
    exact ⟨img, (ordered.sound.names name img).mpr ⟨listed, named⟩, rfl⟩

theorem Agrees.image_of_record (agrees : world.Agrees) {record : ImageRecord}
    (saved : record ∈ world.disk.entries) :
    ∃ img ∈ world.tables.imagesList, (world.tables.object img).id = record.id ∧
      (world.tables.object img).names = record.names := by
  have found : world.disk.find record.id = some record := find_of_mem saved
  obtain ⟨img, listed, same⟩ := agrees.known record.id (by rw [found]; exact some_ne_none _)
  have recorded := agrees.recorded img listed
  rw [same, found, map_some] at recorded
  exact ⟨img, listed, same, (some.inj recorded).symm⟩

theorem Agrees.reloads (agrees : world.Agrees) (ordered : world.Ordered) (plain : world.Plain) :
    world.Reloads := by
  intro answers records order loadable
  have imageOf : ∀ record ∈ records, ∃ img ∈ world.tables.imagesList,
      (world.tables.object img).id = record.id ∧ (world.tables.object img).names = record.names :=
    fun record listed => agrees.image_of_record (order.mem_iff.mp listed)
  have distinct : records.Pairwise fun one other => one.id ≠ other.id :=
    pairwise_map.mp ((order.map ImageRecord.id).nodup_iff.mpr world.disk.apart)
  obtain ⟨tables, loaded, from_⟩ := @appendImages_apart world.disk records answers.saves
    (by
      intro record listed name named
      obtain ⟨img, member, -, same⟩ := imageOf record listed
      exact ordered.plain_iff.mp plain img member name (same ▸ named))
    (by
      intro record listed
      obtain ⟨img, member, -, same⟩ := imageOf record listed
      exact same ▸ ordered.once img member)
    (by
      refine distinct.imp_of_mem fun {one other} oneListed otherListed apart name mine theirs => ?_
      obtain ⟨img, member, sameId, same⟩ := imageOf one oneListed
      obtain ⟨img', member', sameId', same'⟩ := imageOf other otherListed
      have here := (ordered.sound.names name img).mpr ⟨member, same ▸ mine⟩
      rw [(ordered.sound.names name img').mpr ⟨member', same' ▸ theirs⟩] at here
      cases here
      exact apart (sameId.symm.trans sameId'))
  refine ⟨_, (imageStoreLoad_of_loadable loadable).trans loaded,
    fun name => Option.ext fun id => ?_⟩
  rw [from_.named, imageOf_eq_some_iff ordered]
  constructor
  · rintro ⟨record, listed, named, rfl⟩
    obtain ⟨img, member, sameId, same⟩ := imageOf record listed
    exact ⟨img, member, same ▸ named, sameId⟩
  · rintro ⟨img, member, named, rfl⟩
    obtain ⟨record, found, same⟩ := map_eq_some_iff.mp (agrees.recorded img member)
    obtain ⟨saved, sameId⟩ := find_eq_some_iff.mp found
    exact ⟨record, order.mem_iff.mpr saved, same ▸ named, sameId⟩

/-- A name with the default host is lost when the store is reloaded: it could only come back from
a longer one. -/
theorem Reloads.plain (reloads : world.Reloads) (ids : world.HasImageIds)
    (ordered : world.Ordered) (agrees : world.Agrees) : world.Plain := by
  have loadable : Loadable .current world.disk.entries := by
    intro im saved
    obtain ⟨img, listed, same, -⟩ := agrees.image_of_record saved
    exact ⟨same ▸ ids img listed, rfl, rfl⟩
  obtain ⟨store, loaded, same⟩ := reloads .current _ (.refl _) loadable
  rw [imageStoreLoad_of_loadable loadable] at loaded
  have longer : ∀ name, world.tables.byname.search name ≠ none → hasDefaultHost name = true →
      ∃ given, world.tables.byname.search given ≠ none ∧ hasDefaultHost given = true ∧
        name.length < given.length := by
    intro name present host
    have back : store.1.byname.search name ≠ none := by
      intro lost
      have gone := same name
      rw [ImageTables.imageOf, lost, ImageTables.imageOf] at gone
      exact present (map_eq_none_iff.mp gone.symm)
    obtain ⟨record, saved, given, named, origin⟩ := appendImages_origin loaded back
    obtain ⟨img, listed, -, names⟩ := agrees.image_of_record saved
    have known : world.tables.byname.search given ≠ none := by
      rw [(ordered.sound.names given img).mpr ⟨listed, names ▸ named⟩]
      exact some_ne_none _
    have hostGiven : hasDefaultHost given = true := by
      by_contra plain
      rw [stripName, if_neg plain] at origin
      exact plain (origin ▸ host)
    exact ⟨given, known, hostGiven, origin ▸ length_stripName_lt hostGiven⟩
  obtain ⟨bound, short⟩ := world.tables.byname.exists_bound List.length
  -- The names do not get longer and longer: the induction is on what is left up to the bound.
  suffices ∀ left name, world.tables.byname.search name ≠ none → bound ≤ name.length + left →
      ¬ hasDefaultHost name = true from
    fun name present => Bool.not_eq_true _ ▸ this bound name present (Nat.le_add_left ..)
  intro left
  induction left with
  | zero =>
    intro name present long host
    obtain ⟨given, known, -, more⟩ := longer name present host
    exact absurd (short given known) (by omega)
  | succ left ih =>
    intro name present long host
    obtain ⟨given, known, hostGiven, more⟩ := longer name present host
    exact ih given known (by omega) hostGiven

end ImageWorld

namespace ImageTables

variable {tables after : ImageTables} {answers : ImageAnswers} {img : Address} {id : Text}
  {names : List Text}

/-- What a creation enters. -/
theorem create_spec {id searchableDigest : Option Text}
    (created : tables.imageStoreCreate answers img id names searchableDigest = some after) :
    ∃ record, record.names = utilStringArrayUnique names ∧ img ∉ tables.imagesList ∧
      tables.byid.search record.id = none ∧
      after.object = update tables.object img record ∧
      after.imagesList = tables.imagesList ++ [img] ∧
      tables.byname.insertAll record.names img = some after.byname := by
  simp only [imageStoreCreate, imageStoreAppendImage, bind_eq_bind, bind_eq_some_iff,
    ite_none_left_eq_some, ite_none_right_eq_some] at created
  obtain ⟨dstId, -, usable, -, byid, ids, bydigest, -, byname, entered, built⟩ := created
  rw [update_self] at entered
  cases built
  obtain ⟨fresh, unknown⟩ := not_or.mp usable
  exact ⟨_, rfl, fresh, not_not.mp unknown, rfl, rfl, entered⟩

/-- A deletion takes one image out, if it finds one. -/
theorem Sound.delete_spec (sound : tables.Sound)
    (deleted : tables.imageStoreDelete answers id = some after) :
    (tables.lookup id = none ∧ after = tables) ∨
      ∃ img ∈ tables.imagesList, tables.lookup id = some img ∧ after.object = tables.object ∧
        ∀ other, other ∈ after.imagesList ↔ other ∈ tables.imagesList ∧ other ≠ img := by
  rw [imageStoreDelete] at deleted
  split at deleted
  next missing =>
    cases deleted
    exact .inl ⟨missing, rfl⟩
  next img found =>
    have member := sound.mem_of_lookup found
    simp [ImageTables.removeImageFromMemory, bind_eq_some_iff] at deleted
    obtain ⟨-, _, -, byid, -, byname, -, _, -, bydigest, -, built⟩ := deleted
    rw [unlist, if_pos ⟨img, member, rfl⟩] at built
    cases built
    refine .inr ⟨img, member, found, rfl, fun other => ?_⟩
    have erased := @mem_remove _ _ _ ⟨tables.imagesList, sound.apart⟩ other
      (tables.object img).id _
    refine erased.trans (and_congr_right fun listed => not_congr ?_)
    exact ⟨sound.eq_of_id member listed, fun same => same ▸ rfl⟩

/-- A big data item changes neither ids nor names. -/
theorem setBigData_spec {key data : Text}
    (set : tables.imageStoreSetBigData answers id key data = some after) :
    ∃ img, tables.lookup id = some img ∧ after.imagesList = tables.imagesList ∧
      after.byname = tables.byname ∧
      ∀ other, (after.object other).id = (tables.object other).id ∧
        (after.object other).names = (tables.object other).names := by
  simp only [imageStoreSetBigData, updateImageWithBigData, bind_eq_bind,
    bind_eq_some_iff, ite_none_right_eq_some, ite_none_left_eq_some] at set
  obtain ⟨-, img, found, -, updated, big, -, saved⟩ := set
  cases saved
  refine ⟨img, found, ?_⟩
  split at big
  · obtain ⟨bydigest, -, built⟩ := bind_eq_some_iff.mp big
    cases built
    exact ⟨rfl, rfl, fun _ => ⟨field_update ImageRecord.id (by rfl) _,
      field_update ImageRecord.names (by rfl) _⟩⟩
  · cases big
    exact ⟨rfl, rfl, fun _ => ⟨field_update ImageRecord.id (by rfl) _,
      field_update ImageRecord.names (by rfl) _⟩⟩

end ImageTables

section TakeNames

variable {saves : Bool} {img owner : Address} {names : List Text} {object : Address → ImageRecord}
  {byname : Index Text Address} {taken : (Address → ImageRecord) × Index Text Address}

section

variable (took : ImageTables.takeNames saves img names object byname = some taken)
include took

/-- An image only loses names, and its id stays. -/
theorem takeNames_sublist (other : Address) :
    (taken.1 other).names.Sublist (object other).names ∧
      (taken.1 other).id = (object other).id := by
  induction names generalizing object byname with
  | nil =>
    cases took
    exact ⟨Sublist.refl _, rfl⟩
  | cons name names ih =>
    rw [ImageTables.takeNames] at took
    split at took
    · exact ih took
    rename_i owner _
    split at took
    · obtain ⟨fewer, same⟩ := ih took
      refine ⟨fewer.trans ?_, same.trans (field_update ImageRecord.id (by rfl) other)⟩
      rw [update_apply]
      split
      next isOwner => exact isOwner ▸ filter_sublist
      · exact Sublist.refl _
    · cases took

theorem takeNames_free
    (once : names.Nodup) (free : ∀ name ∈ names, byname.search name = none) : taken.1 = object := by
  induction names generalizing byname with
  | nil =>
    cases took
    rfl
  | cons name names ih =>
    obtain ⟨later, once⟩ := nodup_cons.mp once
    rw [ImageTables.takeNames, free name mem_cons_self] at took
    refine ih took once fun other member => ?_
    have different : other ≠ name := fun same => later (same ▸ member)
    rw [search_replace, if_neg different]
    exact free other (mem_cons_of_mem _ member)

end

/-- A renaming gives `img` the new names, and the other images only lose names. -/
theorem rename_effect {tables after : ImageTables}
    (renamed : tables.rename saves img names = some after) :
    after.imagesList = tables.imagesList ∧ (after.object img).names = names ∧
      ∀ other, (after.object other).id = (tables.object other).id ∧
        (other ≠ img → (after.object other).names.Sublist (tables.object other).names) := by
  obtain ⟨without, taken, -, took, rfl⟩ := rename_spec renamed
  dsimp only
  rw [update_self]
  refine ⟨rfl, rfl, fun other => ?_⟩
  obtain ⟨fewer, same⟩ := takeNames_sublist took other
  refine ⟨(field_update ImageRecord.id (by rfl) other).trans same, fun differs => ?_⟩
  rw [update_of_ne differs]
  exact fewer

/-- The images other than `img` have their names on disk. -/
def OthersRecorded (list : List Address) (img : Address) (object : Address → ImageRecord)
    (disk : SavedImages) : Prop :=
  ∀ other ∈ list, other ≠ img →
    (disk.find (object other).id).map ImageRecord.names = some (object other).names

section

variable {list : List Address} {disk : SavedImages}
  (recorded : OthersRecorded list img object disk)
  (apart : ∀ one ∈ list, ∀ other ∈ list, (object one).id = (object other).id → one = other)
include recorded apart

/-- An image that changes is saved. -/
theorem OthersRecorded.save {record : ImageRecord} (listed : owner ∈ list)
    (same : record.id = (object owner).id) :
    OthersRecorded list img (update object owner record) (saveImage disk record) := by
  intro other member notImg
  rw [field_update ImageRecord.id same, find_saveImage, same]
  by_cases isOwner : other = owner
  · rw [isOwner, if_pos rfl, update_self]
    rfl
  · rw [if_neg fun same => isOwner (apart other member owner listed same),
      update_of_ne isOwner]
    exact recorded other member notImg

/-- Saving each image that loses a name keeps the names on disk. -/
theorem OthersRecorded.takeNames
    (took : ImageTables.takeNames saves img names object byname = some taken) (once : names.Nodup)
    (owners : ∀ name ∈ names, ∀ owner, byname.search name = some owner → owner ∈ list) :
    OthersRecorded list img taken.1
        ((savedInTakeNames img names object byname).foldl saveImage disk) ∧
      ∀ id, ((savedInTakeNames img names object byname).foldl saveImage disk).find id ≠ none →
        disk.find id ≠ none ∨ ∃ other ∈ list, (object other).id = id := by
  induction names generalizing object byname disk with
  | nil =>
    cases took
    exact ⟨recorded, fun id present => .inl present⟩
  | cons name names ih =>
    obtain ⟨later, once⟩ := nodup_cons.mp once
    have laterOwners : ∀ other ∈ names, ∀ owner,
        (byname.replace name img).search other = some owner → owner ∈ list := by
      intro other member owner found
      have different : other ≠ name := fun same => later (same ▸ member)
      rw [search_replace, if_neg different] at found
      exact owners other (mem_cons_of_mem _ member) owner found
    cases owned : byname.search name with
    | none =>
      rw [ImageTables.takeNames, owned] at took
      rw [savedInTakeNames, owned]
      exact ih recorded apart took once laterOwners
    | some owner =>
      rw [ImageTables.takeNames, owned] at took
      rw [savedInTakeNames, owned]
      dsimp only at took
      split at took
      · have ownerListed := owners name mem_cons_self owner owned
        have sameId :=
          @field_update _ ImageRecord.id object owner ((object owner).removeName name) rfl
        have saved : OthersRecorded list img
            (update object owner ((object owner).removeName name))
            (saveImage disk ((object owner).removeName name)) :=
          recorded.save apart ownerListed rfl
        obtain ⟨still, origin⟩ := ih saved
          (by
            intro one oneListed other otherListed same
            rw [sameId, sameId] at same
            exact apart one oneListed other otherListed same)
          took once laterOwners
        refine ⟨still, fun id present => ?_⟩
        rcases origin id present with saved | ⟨other, listed, same⟩
        · rw [find_saveImage] at saved
          split at saved
          next isOwner => exact .inr ⟨owner, ownerListed, isOwner.symm⟩
          · exact .inl saved
        · exact .inr ⟨other, listed, (sameId other).symm.trans same⟩
      · cases took

end

end TakeNames

namespace ImageWorld

variable {world next : ImageWorld} {answers : ImageAnswers} {event : ImageAnswers × ImageCall}

theorem call_eq_some_iff : world.call event = some next ↔
    world.tables.call event.1 event.2 = some next.tables ∧
      next.disk = world.tables.write next.tables event.1 world.disk event.2 := by
  rw [call, map_eq_some_iff]
  constructor
  · rintro ⟨after, called, rfl⟩
    exact ⟨called, rfl⟩
  · rintro ⟨called, written⟩
    exact ⟨next.tables, called, by rw [← written]⟩

theorem Ordered.call (ordered : world.Ordered) (called : world.call event = some next) :
    next.Ordered := by
  obtain ⟨called, -⟩ := call_eq_some_iff.mp called
  refine ⟨ordered.sound.call event.2 called, ?_⟩
  -- names are taken from other images, and the new ones are distinct
  have renamed : ∀ {saves img names}, names.Nodup → world.tables.rename saves img names =
      some next.tables →
      ∀ other ∈ next.tables.imagesList, (next.tables.object other).names.Nodup := by
    intro saves img names once renamed other listed
    obtain ⟨list, new, others⟩ := rename_effect renamed
    by_cases isImg : other = img
    · rw [isImg, new]
      exact once
    · exact (ordered.once other (list ▸ listed)).sublist ((others other).2 isImg)
  obtain ⟨answers, change⟩ := event
  cases change with
  | create img id names searchableDigest =>
    obtain ⟨record, own, fresh, -, object, list, -⟩ := create_spec called
    intro other listed
    rw [list, mem_append, mem_singleton] at listed
    rw [object]
    rcases listed with old | rfl
    · rw [update_of_ne (ne_of_mem_of_not_mem old fresh)]
      exact ordered.once other old
    · rw [update_self, own]
      exact nodup_utilStringArrayUnique names
  | delete id =>
    rcases ordered.sound.delete_spec called with ⟨-, same⟩ | ⟨img, -, -, object, list⟩
    · rw [same]
      exact ordered.once
    · intro other listed
      rw [object]
      exact ordered.once other ((list other).mp listed).1
  | addName id name =>
    obtain ⟨img, -, renames⟩ := addName_spec called
    exact renamed (nodup_utilStringArrayUnique _) renames
  | setNames id names =>
    obtain ⟨img, -, renames⟩ := setNames_spec called
    exact renamed (nodup_utilStringArrayUnique _) renames
  | setBigData id key data =>
    obtain ⟨img, -, list, -, same⟩ := setBigData_spec called
    intro other listed
    rw [list] at listed
    rw [(same other).2]
    exact ordered.once other listed

/-- A store agrees with its disk once the one image that may differ has been saved. -/
theorem agrees_of_saved {disk : SavedImages} {img : Address} (sound : world.tables.Sound)
    (saved : world.disk = saveImage disk (world.tables.object img))
    (listed : img ∈ world.tables.imagesList)
    (others : OthersRecorded world.tables.imagesList img world.tables.object disk)
    (known : ∀ id, disk.find id ≠ none →
      ∃ other ∈ world.tables.imagesList, (world.tables.object other).id = id) : world.Agrees := by
  refine ⟨fun other member => ?_, fun id present => ?_⟩
  · rw [saved, find_saveImage]
    by_cases isImg : other = img
    · rw [isImg, if_pos rfl]
      rfl
    · rw [if_neg fun same => isImg (sound.eq_of_id listed member same)]
      exact others other member isImg
  · rw [saved, find_saveImage] at present
    split at present
    next isImg => exact ⟨img, listed, isImg.symm⟩
    · exact known id present

/-- What a renaming does to the names, whether or not the images that lose one are saved. -/
theorem rename_plain_iff (ordered : world.Ordered) (plain : world.Plain) (ordered' : next.Ordered)
    {saves : Bool} {img : Address} {names : List Text} (listed : img ∈ world.tables.imagesList)
    (renamed : world.tables.rename saves img names = some next.tables) :
    next.Plain ↔ ∀ name ∈ names, hasDefaultHost name = false := by
  obtain ⟨list, new, others⟩ := rename_effect renamed
  rw [ordered'.plain_iff, list]
  constructor
  · intro all name member
    exact all img listed name (new ▸ member)
  · intro all other member name named
    by_cases isImg : other = img
    · rw [isImg, new] at named
      exact all name named
    · exact ordered.plain_iff.mp plain other member name (((others other).2 isImg).subset named)

section Step

variable (ordered : world.Ordered) (agrees : world.Agrees)

include ordered agrees

section

variable (plain : world.Plain) {names : List Text} {id name : Text}
include plain

theorem create_iff {img : Address} {id : Option Text} {searchableDigest : Option Text}
    (called : world.call (answers, .create img id names searchableDigest) = some next) :
    next.Agrees ∧ next.Plain ↔ ∀ name ∈ names, hasDefaultHost name = false := by
  have ordered' := ordered.call called
  obtain ⟨called, written⟩ := call_eq_some_iff.mp called
  obtain ⟨record, own, fresh, -, object, list, -⟩ := create_spec called
  have listed : ∀ {other}, other ∈ next.tables.imagesList ↔
      other ∈ world.tables.imagesList ∨ other = img := by simp [list]
  have old : ∀ {other}, other ∈ world.tables.imagesList →
      next.tables.object other = world.tables.object other := by
    intro other member
    rw [object, update_of_ne (ne_of_mem_of_not_mem member fresh)]
  have new : (next.tables.object img).names = utilStringArrayUnique names := by
    rw [object, update_self, own]
  have saved : next.Agrees := by
    refine @agrees_of_saved next world.disk img ordered'.sound written (listed.mpr (.inr rfl)) ?_ ?_
    · intro other member notImg
      have before := (listed.mp member).resolve_right notImg
      rw [old before]
      exact agrees.recorded other before
    · intro id present
      obtain ⟨other, member, same⟩ := agrees.known id present
      exact ⟨other, listed.mpr (.inl member), by rw [old member, same]⟩
  rw [and_iff_right saved, ordered'.plain_iff]
  constructor
  · intro all name member
    refine all img (listed.mpr (.inr rfl)) name ?_
    rw [new]
    exact mem_utilStringArrayUnique.mpr member
  · intro all other member name named
    rcases listed.mp member with before | rfl
    · rw [old before] at named
      exact ordered.plain_iff.mp plain other before name named
    · rw [new] at named
      exact all name (mem_utilStringArrayUnique.mp named)

theorem delete_keeps (called : world.call (answers, .delete id) = some next) :
    next.Agrees ∧ next.Plain := by
  have ordered' := ordered.call called
  obtain ⟨called, written⟩ := call_eq_some_iff.mp called
  rw [ImageTables.write] at written
  rcases ordered.sound.delete_spec called with ⟨missing, same⟩ | ⟨img, listed, found, object, list⟩
  · rw [missing] at written
    have unchanged : next = world := by
      cases next
      cases world
      cases same
      cases written
      rfl
    rw [unchanged]
    exact ⟨agrees, plain⟩
  · rw [found] at written
    refine ⟨⟨fun other member => ?_, fun id present => ?_⟩, ordered'.plain_iff.mpr ?_⟩
    · obtain ⟨before, notImg⟩ := (list other).mp member
      rw [object, show next.disk = world.disk.remove _ from written, find_remove,
        if_neg fun same => notImg (ordered.sound.eq_of_id listed before same)]
      exact agrees.recorded other before
    · rw [show next.disk = world.disk.remove _ from written, find_remove] at present
      split at present
      · exact absurd rfl present
      rename_i differs
      obtain ⟨other, before, same⟩ := agrees.known id present
      refine ⟨other, (list other).mpr ⟨before, ?_⟩, by rw [object, same]⟩
      rintro rfl
      exact differs same.symm
    · intro other member name named
      rw [object] at named
      exact ordered.plain_iff.mp plain other ((list other).mp member).1 name named

theorem addName_iff (called : world.call (answers, .addName id name) = some next) :
    next.Agrees ∧ next.Plain ↔ hasDefaultHost name = false := by
  have ordered' := ordered.call called
  obtain ⟨called, written⟩ := call_eq_some_iff.mp called
  obtain ⟨img, found, renamed⟩ := addName_spec called
  have listed := ordered.sound.mem_of_lookup found
  have names := rename_plain_iff ordered plain ordered' listed renamed
  obtain ⟨without, taken, removed, took, after⟩ := rename_spec renamed
  simp only [ImageTables.write, found, ImageTables.savedInAddName, removed] at written
  obtain ⟨list, -, sameIds⟩ := rename_effect renamed
  obtain ⟨recorded, origin⟩ := @OthersRecorded.takeNames _ img _ _ _ _ world.tables.imagesList
    world.disk (fun other member _ => agrees.recorded other member)
    (fun one oneListed other otherListed same => ordered.sound.eq_of_id otherListed oneListed same)
    took (nodup_utilStringArrayUnique _)
    (by
      intro name _ owner owned
      rw [search_removeAll removed] at owned
      split at owned
      · cases owned
      · exact ((ordered.sound.names name owner).mp owned).1)
  have saved : next.Agrees := by
    refine agrees_of_saved ordered'.sound written (list ▸ listed) ?_ ?_
    · intro other member notImg
      have others : next.tables.object other = taken.1 other := by
        rw [after]
        exact update_of_ne notImg _ _
      rw [others]
      exact recorded other (list ▸ member) notImg
    · intro id present
      obtain ⟨other, member, same⟩ := (origin id present).elim (agrees.known id) fun known => known
      exact ⟨other, list ▸ member, (sameIds other).1.trans same⟩
  rw [and_iff_right saved, names]
  constructor
  · exact fun all => all name (mem_utilStringArrayUnique.mpr (by simp))
  · intro host other member
    exact forall_mem_append.mpr ⟨ordered.plain_iff.mp plain img listed,
      forall_mem_singleton.mpr host⟩ other (mem_utilStringArrayUnique.mp member)

theorem setNames_iff (called : world.call (answers, .setNames id names) = some next) :
    next.Agrees ∧ next.Plain ↔ world.KeepsRecords (answers, .setNames id names) := by
  have ordered' := ordered.call called
  obtain ⟨called, written⟩ := call_eq_some_iff.mp called
  obtain ⟨img, found, renamed⟩ := setNames_spec called
  have listed := ordered.sound.mem_of_lookup found
  have plain_iff := rename_plain_iff ordered plain ordered' listed renamed
  simp only [mem_utilStringArrayUnique] at plain_iff
  obtain ⟨without, taken, removed, took, after⟩ := rename_spec renamed
  simp only [ImageTables.write, found] at written
  obtain ⟨list, -, sameIds⟩ := rename_effect renamed
  have others : ∀ other, other ≠ img → next.tables.object other = taken.1 other := by
    intro other notImg
    rw [after]
    exact update_of_ne notImg _ _
  rw [and_comm, plain_iff, KeepsRecords, found]
  refine and_congr_right fun _ => ⟨fun agrees' name member owner owned => ?_, fun unowned => ?_⟩
  · -- an owner that is robbed still has the name on disk
    by_contra notOwn
    have notImg : owner ≠ img := fun same => notOwn (same ▸ rfl)
    obtain ⟨ownerListed, named⟩ := (ordered.sound.names name owner).mp owned
    have recorded := agrees'.recorded owner (list ▸ ownerListed)
    obtain ⟨fewer, sameId⟩ := takeNames_sublist took owner
    have differs : (next.tables.object owner).id ≠ (next.tables.object img).id := fun same =>
      notImg (ordered'.sound.eq_of_id (list ▸ listed) (list ▸ ownerListed) same)
    rw [show next.disk = saveImage _ _ from written, find_saveImage, if_neg differs,
      others owner notImg, sameId, agrees.recorded owner ownerListed] at recorded
    have kept : name ∈ (taken.1 owner).names := some.inj recorded ▸ named
    obtain ⟨rest, changed, lost⟩ := (takeNames_spec took).2 owner
    rw [changed] at kept
    refine ((lost notImg name).mp kept).2 ⟨mem_utilStringArrayUnique.mpr member, ?_⟩
    rw [search_removeAll removed, if_neg, owned]
    intro mine
    rw [(ordered.sound.names name img).mpr ⟨listed, mine⟩] at owned
    exact notOwn owned
  · have free : ∀ name ∈ utilStringArrayUnique names, without.search name = none := by
      intro name member
      rw [search_removeAll removed]
      split
      · rfl
      rename_i foreign
      cases owned : world.tables.byname.search name with
      | none => rfl
      | some owner =>
        cases unowned name (mem_utilStringArrayUnique.mp member) owner owned
        exact absurd ((ordered.sound.names name img).mp owned).2 foreign
    have same := takeNames_free took (nodup_utilStringArrayUnique names) free
    refine agrees_of_saved ordered'.sound written (list ▸ listed) ?_ ?_
    · intro other member notImg
      rw [others other notImg, same]
      exact agrees.recorded other (list ▸ member)
    · intro id present
      obtain ⟨other, member, sameId⟩ := agrees.known id present
      exact ⟨other, list ▸ member, (sameIds other).1.trans sameId⟩

theorem setBigData_keeps {key data : Text}
    (called : world.call (answers, .setBigData id key data) = some next) :
    next.Agrees ∧ next.Plain := by
  have ordered' := ordered.call called
  obtain ⟨called, written⟩ := call_eq_some_iff.mp called
  obtain ⟨img, found, list, byname, same⟩ := setBigData_spec called
  have listed := ordered.sound.mem_of_lookup found
  have recorded : ∀ other ∈ next.tables.imagesList,
      (world.disk.find (next.tables.object other).id).map ImageRecord.names =
        some (next.tables.object other).names := by
    intro other member
    rw [(same other).1, (same other).2]
    exact agrees.recorded other (list ▸ member)
  have known : ∀ id, world.disk.find id ≠ none →
      ∃ other ∈ next.tables.imagesList, (next.tables.object other).id = id := by
    intro id present
    obtain ⟨other, member, sameId⟩ := agrees.known id present
    exact ⟨other, list ▸ member, (same other).1.trans sameId⟩
  refine ⟨?_, fun name present => plain name (byname ▸ present)⟩
  simp only [ImageTables.write, found] at written
  split at written
  · exact agrees_of_saved ordered'.sound written (list ▸ listed)
      (fun other member _ => recorded other member) known
  · exact ⟨written ▸ recorded, written ▸ known⟩

/-- One call keeps the records in agreement exactly when it is one that does. -/
theorem call_iff (called : world.call event = some next) :
    next.Agrees ∧ next.Plain ↔ world.KeepsRecords event := by
  obtain ⟨answers, change⟩ := event
  cases change with
  | create img id names searchableDigest => exact create_iff ordered agrees plain called
  | delete id => exact iff_of_true (delete_keeps ordered agrees plain called) trivial
  | addName id name => exact addName_iff ordered agrees plain called
  | setNames id names => exact setNames_iff ordered agrees plain called
  | setBigData id key data =>
    exact iff_of_true (setBigData_keeps ordered agrees plain called) trivial

end

end Step

end ImageWorld

theorem ordered_of_trace {start : StoredImages} {events : List (ImageAnswers × ImageCall)}
    {world : ImageWorld} (trace : (storedCalls start).Trace events world) : world.Ordered := by
  induction trace with
  | start => exact start.ordered
  | step _ called ih => exact ih.call called

/-- For every sequence of successful calls on images with ids of the usual form, the records agree
with the store and reload to it after each call exactly when no `image_store_set_names` among them
takes a name from another image and no call brings in a name with the default host. -/
theorem recordsAgree_iff {start : StoredImages} {events : List (ImageAnswers × ImageCall)}
    {world : ImageWorld} (trace : (storedCalls start).Trace events world)
    (ids : (storedCalls start).Throughout ImageWorld.HasImageIds events) :
    (storedCalls start).Throughout (fun world => world.Agrees ∧ world.Reloads) events ↔
      (storedCalls start).Always ImageWorld.KeepsRecords events := by
  induction trace with
  | start =>
    refine iff_of_true (throughout_nil_iff.mpr ?_) nofun
    exact ⟨start.agrees, start.agrees.reloads start.ordered start.plain⟩
  | @step events world event next prior called ih =>
    obtain ⟨before, after⟩ := (throughout_snoc_iff (prior.step called)).mp ids
    rw [throughout_snoc_iff (prior.step called), always_snoc_iff prior, ih before]
    refine and_congr_right fun all => ?_
    have ordered := ordered_of_trace prior
    have here : (storedCalls start).Trace (events.take events.length) world := by rwa [take_length]
    obtain ⟨agrees, reloads⟩ := (ih before).mpr all _ _ here
    have plain := reloads.plain (before _ _ here) ordered agrees
    rw [← ImageWorld.call_iff ordered agrees plain called]
    have ordered' := ordered.call called
    exact and_congr_right fun agrees' =>
      ⟨fun reloads => reloads.plain after ordered' agrees', agrees'.reloads ordered'⟩

/-- A store without images. -/
def noImages : StoredImages where
  tables := .empty
  disk := ⟨[], nodup_nil⟩
  ordered := ⟨sound_empty, nofun⟩
  agrees := ⟨nofun, nofun⟩
  plain _ := nofun

/-- Ids of the usual form. -/
def firstId : Text := replicate 64 'a'

@[inherit_doc firstId] def secondId : Text := replicate 64 'b'

def secondName : List (ImageAnswers × ImageCall) :=
  [(.willing, .create 0 (some firstId) [['n']] none), (.willing, .addName firstId ['m'])]

theorem recordsAgree_iff_secondName :
    ∃ world, (storedCalls noImages).Trace secondName world ∧
      (storedCalls noImages).Throughout (fun world => world.Agrees ∧ world.Reloads) secondName := by
  have trace := @trace_of_replay _ _ (storedCalls noImages) secondName _ rfl
  have created := @trace_of_replay _ _ (storedCalls noImages) ([] ++ secondName.take 1) _ rfl
  have ids : (storedCalls noImages).Throughout ImageWorld.HasImageIds
      (secondName.take 1 ++ [(.willing, .addName firstId ['m'])]) := by
    refine (throughout_snoc_iff trace).mpr ⟨(throughout_snoc_iff created).mpr ⟨?_, ?_⟩, ?_⟩
    · exact throughout_nil_iff.mpr (by decide +kernel)
    · decide +kernel
    · decide +kernel
  refine ⟨_, trace, (recordsAgree_iff trace ids).mpr fun i event before happened _ => ?_⟩
  have member := mem_of_getElem? happened
  rcases mem_cons.mp member with rfl | member
  · exact (by decide +kernel : ∀ name ∈ [['n']], hasDefaultHost name = false)
  cases mem_singleton.mp member
  exact (by decide +kernel : hasDefaultHost ['m'] = false)

/-- `image_store_set_names` gives the name of the first image to the second. -/
def movedName : List (ImageAnswers × ImageCall) :=
  [(.willing, .create 0 (some firstId) [['n']] none),
   (.willing, .create 1 (some secondId) [] none), (.willing, .setNames secondId [['n']])]

/-- Afterwards the first image has no name in memory and still has it on disk; with the directory of
the second listed before its own, a reload gives the name back to it. -/
theorem storedCalls_movedName :
    ∃ world, (storedCalls noImages).Trace movedName world ∧
      (world.tables.object 0).names = [] ∧
      (world.disk.find firstId).map ImageRecord.names = some [['n']] ∧
      world.tables.imageOf ['n'] = some secondId ∧
      (imageStoreLoad .current world.disk.entries.reverse world.disk).map
        (fun store => store.1.imageOf ['n']) = some (some firstId) ∧
      ¬ (storedCalls noImages).Throughout (fun world => world.Agrees ∧ world.Reloads)
        movedName := by
  have trace := @trace_of_replay _ _ (storedCalls noImages) movedName _ rfl
  refine ⟨_, trace, by decide +kernel, by decide +kernel, by decide +kernel, by decide +kernel,
    fun throughout => ?_⟩
  have agrees := (throughout movedName.length _ (by rwa [take_length])).1
  exact absurd (agrees.recorded 0 (by decide +kernel)) (by decide +kernel)

end Isulad.Storage
