import Isulad.Std.Index
import Isulad.Std.Trace
import Isulad.Storage.ImageStore

/-!
# The indexes of the image store

`storage/image_store/image_store.c` with everything that its operations keep in step by hand: the
list of images and its length, the maps by id, by name and by digest, and the names and digests
that each image carries. Images are objects at addresses, as the maps hold pointers to them. A
call that fails has no result here.
-/

namespace Isulad.Storage

open List Function Isulad.Std Index
open Option (bind_eq_bind bind_eq_some_iff ite_none_right_eq_some some_or map_or)

/-- `image_t` with the part of its `storage_image` that the store's operations read. -/
structure ImageRecord where
  id : Text
  digest : Option Text
  names : List Text
  bigDataNames : List Text
  bigDataSizes : List (Text × Nat)
  bigDataDigests : List (Text × Text)

/-- `digest_image_t`. -/
structure DigestImages where
  imagesList : List Address
  imagesListLen : Nat

/-- `image_store_t`, and the image at every address. -/
structure ImageTables where
  object : Address → ImageRecord
  imagesList : List Address
  imagesListLen : Nat
  byid : Index Text Address
  byname : Index Text Address
  bydigest : Index Text DigestImages

/-- `IMAGE_DIGEST_BIG_DATA_KEY`. -/
def imageDigestBigDataKey : Text := "manifest".toList

/-- How everything outside the store answers during a call. -/
structure ImageAnswers where
  /-- What `util_generate_random_str` gives, each time it is asked. -/
  randomIds : List (Option Text)
  /-- `util_get_time_buffer`. -/
  getsTime : Bool
  /-- `save_image` of the image that is changed. -/
  savesImage : Bool
  /-- `save_image` of the image that loses a name. -/
  savesOther : Bool
  /-- `remove_image_dir`. -/
  removesImageDir : Bool
  /-- The directory and the file of a big data item. -/
  writesBigData : Bool
  /-- `util_full_digest` of `sha256_digest_str`. -/
  fullDigest : Text → Text

section JsonMap

variable {ν : Type}

/-- `get_value_from_json_map_string_string` and `get_value_from_json_map_string_int64`. -/
def getValue (map : List (Text × ν)) (key : Text) : Option ν :=
  (map.find? fun pair => pair.1 == key).map Prod.snd

/-- `update_json_map_string_int64`: the first value of the key. -/
def updateJsonMapStringInt64 (map : List (Text × Nat)) (key : Text) (value : Nat) :
    List (Text × Nat) :=
  match map with
  | [] => []
  | pair :: rest =>
    if pair.1 = key then (pair.1, value) :: rest
    else pair :: updateJsonMapStringInt64 rest key value

/-- `update_json_map_string_string`: every value of the key. -/
def updateJsonMapStringString (map : List (Text × Text)) (key value : Text) : List (Text × Text) :=
  map.map fun pair => if pair.1 = key then (pair.1, value) else pair

end JsonMap

/-- The digest of the manifest among the big data. -/
def ImageRecord.manifestDigest (record : ImageRecord) : Option Text :=
  getValue record.bigDataDigests imageDigestBigDataKey

/-- `remove_name`. -/
def ImageRecord.removeName (record : ImageRecord) (name : Text) : ImageRecord :=
  { record with names := record.names.filter (· != name) }

/-- The record with a big data item. -/
def ImageRecord.withBigData (record : ImageRecord) (key : Text) (size : Nat) (fullDigest : Text) :
    ImageRecord :=
  { record with
    bigDataSizes :=
      if (getValue record.bigDataSizes key).isSome then
        updateJsonMapStringInt64 record.bigDataSizes key size
      else record.bigDataSizes ++ [(key, size)]
    bigDataDigests :=
      if (getValue record.bigDataDigests key).isSome then
        updateJsonMapStringString record.bigDataDigests key fullDigest
      else record.bigDataDigests ++ [(key, fullDigest)]
    bigDataNames :=
      if record.bigDataNames.contains key then record.bigDataNames
      else record.bigDataNames ++ [key] }

/-- `append_image_to_digest_images`. -/
def DigestImages.appendImage (images : DigestImages) (img : Address) : DigestImages where
  imagesList := images.imagesList ++ [img]
  imagesListLen := images.imagesListLen + 1

section

variable (object : Address → ImageRecord)

/-- `digest_image_slice_without_value`. -/
def DigestImages.sliceWithoutValue (images : DigestImages) (img : Address) : DigestImages where
  imagesList := images.imagesList.filter fun other => (object other).id != (object img).id
  imagesListLen :=
    images.imagesListLen - images.imagesList.countP fun other => (object other).id ==
      (object img).id

/-- `remove_image_from_digest_index`. -/
def removeImageFromDigestIndex (img : Address) (digest : Text)
    (bydigest : Index Text DigestImages) : Option (Index Text DigestImages) :=
  match bydigest.search digest with
  | none => some bydigest
  | some images =>
    let images := images.sliceWithoutValue object img
    if images.imagesListLen = 0 then bydigest.remove digest
    else some (bydigest.replace digest images)

/-- The same for a digest that may be missing. -/
def removeImageFromAnyDigest (img : Address)
    (digest : Option Text) (bydigest : Index Text DigestImages) :
    Option (Index Text DigestImages) :=
  match digest with
  | none => some bydigest
  | some digest => removeImageFromDigestIndex object img digest bydigest

end

/-- `append_image_according_to_digest`. -/
def appendImageAccordingToDigest (bydigest : Index Text DigestImages)
    (searchableDigest : Option Text) (img : Address) : Option (Index Text DigestImages) :=
  match searchableDigest with
  | none => some bydigest
  | some digest =>
    match bydigest.search digest with
    | some images => some (bydigest.replace digest (images.appendImage img))
    | none => bydigest.insert digest (.appendImage ⟨[], 0⟩ img)

namespace ImageTables

/-- `lookup`: by id, by name, by the start of the id. -/
def lookup (tables : ImageTables) (id : Text) : Option Address :=
  ((tables.byid.search id).or (tables.byname.search id)).or
    (tables.byid.only fun key => id.isPrefixOf key)

/-- `generate_random_image_id`. -/
def generateRandomImageId (tables : ImageTables) (randomIds : List (Option Text)) : Option Text :=
  match randomIds with
  | [] => none
  | none :: _ => none
  | some id :: rest =>
    if tables.byid.search id = none then some id else generateRandomImageId tables rest

/-- `max_retry_cnt` of `generate_random_image_id`. -/
def maxRetryCnt : Nat := 5

/-- `image_store_append_image`. -/
def imageStoreAppendImage (tables : ImageTables) (id : Text) (searchableDigest : Option Text)
    (img : Address) : Option ImageTables := do
  let byid ← tables.byid.insert id img
  let bydigest ← appendImageAccordingToDigest tables.bydigest searchableDigest img
  let byname ← tables.byname.insertAll (tables.object img).names img
  some { tables with
    imagesList := tables.imagesList ++ [img]
    imagesListLen := tables.imagesListLen + 1
    byid, bydigest, byname }

variable (answers : ImageAnswers)

section

variable (tables : ImageTables)

/-- `image_store_create`. The memory of the new image is that of no other. -/
def imageStoreCreate (img : Address) (id : Option Text) (names : List Text)
    (searchableDigest : Option Text) : Option ImageTables := do
  let dstId ← id.or (tables.generateRandomImageId (answers.randomIds.take maxRetryCnt))
  if img ∈ tables.imagesList ∨ tables.byid.search dstId ≠ none then none
  else if answers.getsTime && answers.savesImage then
    imageStoreAppendImage
      { tables with
        object := update tables.object img
          { id := dstId, digest := searchableDigest, names := utilStringArrayUnique names
            bigDataNames := [], bigDataSizes := [], bigDataDigests := [] } }
      dstId searchableDigest img
  else none

/-- The loop of `remove_image_from_memory` over the list. -/
def unlist (id : Text) : ImageTables :=
  if ∃ img ∈ tables.imagesList, (tables.object img).id = id then
    { tables with
      imagesList := tables.imagesList.eraseP fun img => (tables.object img).id = id
      imagesListLen := tables.imagesListLen - 1 }
  else tables

/-- `remove_image_from_memory`. -/
def removeImageFromMemory (id : Text) : Option ImageTables := do
  let img ← tables.lookup id
  let byid ← tables.byid.remove id
  let byname ← tables.byname.removeAll (tables.object img).names
  let bydigest ← removeImageFromAnyDigest tables.object img (tables.object img).manifestDigest
    tables.bydigest
  let bydigest ← removeImageFromAnyDigest tables.object img (tables.object img).digest bydigest
  some (unlist { tables with byid, byname, bydigest } id)

/-- `image_store_delete` with `do_delete_image_info`. -/
def imageStoreDelete (id : Text) : Option ImageTables :=
  match tables.lookup id with
  | none => some tables
  | some img =>
    if answers.removesImageDir then tables.removeImageFromMemory (tables.object img).id else none

/-- The loop of `image_store_add_name` and `image_store_set_names` over the new names: a name is
taken from the image that has it. -/
def takeNames (saves : Bool) (img : Address) (names : List Text)
    (object : Address → ImageRecord) (byname : Index Text Address) :
    Option ((Address → ImageRecord) × Index Text Address) :=
  match names with
  | [] => some (object, byname)
  | name :: names =>
    match byname.search name with
    | none => takeNames saves img names object (byname.replace name img)
    | some other =>
      if saves then
        takeNames saves img names (update object other ((object other).removeName name))
          (byname.replace name img)
      else none

/-- Give an image these names and no others. -/
def rename (saves : Bool) (img : Address) (names : List Text) : Option ImageTables := do
  let byname ← tables.byname.removeAll (tables.object img).names
  let taken ← takeNames saves img names tables.object byname
  some { tables with
    object := update taken.1 img { taken.1 img with names := names }
    byname := taken.2 }

/-- `image_store_add_name`. -/
def imageStoreAddName (id name : Text) : Option ImageTables := do
  let img ← tables.lookup id
  if answers.savesImage then
    tables.rename answers.savesOther img
      (utilStringArrayUnique ((tables.object img).names ++ [name]))
  else none

/-- `image_store_set_names`: the images that lose a name are not saved. -/
def imageStoreSetNames (id : Text) (names : List Text) : Option ImageTables := do
  if names = [] then none
  else
    let img ← tables.lookup id
    if answers.savesImage then tables.rename true img (utilStringArrayUnique names) else none

/-- The old digest of the manifest in `update_image_with_big_data`, unless it is also the
image's own digest. Comparing with a missing digest is a fault. -/
def dropOldDigest (object : Address → ImageRecord) (img : Address) (oldDigest : Option Text)
    (fullDigest : Text) (bydigest : Index Text DigestImages) : Option (Index Text DigestImages) :=
  match oldDigest with
  | none => some bydigest
  | some old =>
    if old = fullDigest then some bydigest
    else
      match (object img).digest with
      | none => none
      | some digest =>
        if old = digest then some bydigest
        else removeImageFromDigestIndex object img old bydigest

/-- The image is entered under the new digest if the index has one. -/
def enterNewDigest (object : Address → ImageRecord) (img : Address) (fullDigest : Text)
    (bydigest : Index Text DigestImages) : Index Text DigestImages :=
  match bydigest.search fullDigest with
  | none => bydigest
  | some images =>
    bydigest.replace fullDigest ((images.sliceWithoutValue object img).appendImage img)

/-- `update_image_with_big_data`; the flag is `should_save`. -/
def updateImageWithBigData (img : Address) (key data : Text) : Option (ImageTables × Bool) := do
  let record := tables.object img
  let fullDigest := answers.fullDigest data
  let oldDigest := getValue record.bigDataDigests key
  let object := update tables.object img
    (record.withBigData key data.length fullDigest)
  let shouldSave := getValue record.bigDataSizes key != some data.length ||
    oldDigest != some fullDigest || !record.bigDataNames.contains key
  if key = imageDigestBigDataKey then
    let bydigest ← dropOldDigest object img oldDigest fullDigest tables.bydigest
    some ({ tables with object, bydigest := enterNewDigest object img fullDigest bydigest },
      shouldSave)
  else some ({ tables with object }, shouldSave)

/-- `image_store_set_big_data`. -/
def imageStoreSetBigData (id key data : Text) : Option ImageTables := do
  if key = [] then none
  else
    let img ← tables.lookup id
    if answers.writesBigData then
      let updated ← tables.updateImageWithBigData answers img key data
      if updated.2 && !answers.savesImage then none else some updated.1
    else none

end

end ImageTables

inductive ImageCall where
  | create (img : Address) (id : Option Text) (names : List Text) (searchableDigest : Option Text)
  | delete (id : Text)
  | addName (id name : Text)
  | setNames (id : Text) (names : List Text)
  | setBigData (id key data : Text)

/-- One call, if it succeeds. -/
def ImageTables.call (tables : ImageTables) (answers : ImageAnswers) : ImageCall →
    Option ImageTables
  | .create img id names searchableDigest =>
    tables.imageStoreCreate answers img id names searchableDigest
  | .delete id => tables.imageStoreDelete answers id
  | .addName id name => tables.imageStoreAddName answers id name
  | .setNames id names => tables.imageStoreSetNames answers id names
  | .setBigData id key data => tables.imageStoreSetBigData answers id key data

/-- The store before the first call. -/
def ImageTables.empty : ImageTables where
  object _ := ⟨[], none, [], [], [], []⟩
  imagesList := []
  imagesListLen := 0
  byid := .empty
  byname := .empty
  bydigest := .empty

/-- Sequences of successful calls from an empty store. -/
def imageCalls : Machine ImageTables (ImageAnswers × ImageCall) where
  initial := .empty
  step tables event := tables.call event.1 event.2

/-- The indexes agree with the list and with what the images carry. -/
structure ImageTables.Coherent (tables : ImageTables) : Prop where
  ids : ∀ id img, tables.byid.search id = some img ↔
    img ∈ tables.imagesList ∧ (tables.object img).id = id
  names : ∀ name img, tables.byname.search name = some img ↔
    img ∈ tables.imagesList ∧ name ∈ (tables.object img).names
  length : tables.imagesListLen = tables.imagesList.length
  digests : ∀ digest images, tables.bydigest.search digest = some images →
    ∀ img ∈ images.imagesList, img ∈ tables.imagesList

section Digests

variable {object : Address → ImageRecord} {list : List Address} {img other : Address}
  {digest key fullDigest : Text} {oldDigest : Option Text} {images : DigestImages}
  {bydigest after : Index Text DigestImages} {ν : Type}

theorem getValue_cons (pair : Text × ν) (rest : List (Text × ν)) (key : Text) :
    getValue (pair :: rest) key = if pair.1 = key then some pair.2 else getValue rest key := by
  rw [getValue]
  by_cases here : pair.1 = key
  · rw [List.find?_cons_of_pos (by simpa using here), if_pos here]
    rfl
  · rw [List.find?_cons_of_neg (by simpa using here), if_neg here]
    rfl

theorem getValue_append_singleton (map : List (Text × ν)) (key other : Text) (value : ν) :
    getValue (map ++ [(key, value)]) other =
      (getValue map other).or (if key = other then some value else none) := by
  induction map with
  | nil => exact getValue_cons _ _ _
  | cons pair rest ih =>
    rw [cons_append, getValue_cons, getValue_cons, ih]
    split <;> rfl

theorem getValue_updateJsonMapStringString (map : List (Text × Text)) (key value other : Text) :
    getValue (updateJsonMapStringString map key value) other =
      if other = key then (getValue map key).map fun _ => value else getValue map other := by
  induction map with
  | nil => split <;> rfl
  | cons pair rest ih =>
    rw [updateJsonMapStringString, map_cons, getValue_cons, getValue_cons, getValue_cons]
    rw [updateJsonMapStringString] at ih
    rw [ih]
    by_cases here : pair.1 = key
    · by_cases same : other = key
      · simp [here, same]
      · simp [here, same, Ne.symm same]
    · by_cases same : other = key
      · simp [here, same]
      · simp [here, same]

/-- The digest of a big data item is the new one, and the other digests are kept. -/
theorem getValue_withBigData (record : ImageRecord) (key other : Text) (size : Nat)
    (fullDigest : Text) :
    getValue (record.withBigData key size fullDigest).bigDataDigests other =
      if other = key then some fullDigest else getValue record.bigDataDigests other := by
  rw [ImageRecord.withBigData]
  dsimp only
  cases known : getValue record.bigDataDigests key with
  | none =>
    rw [if_neg (by simp), getValue_append_singleton]
    by_cases same : other = key
    · simp [same, known]
    · simp [same, Ne.symm same]
  | some old =>
    rw [if_pos Option.isSome_some, getValue_updateJsonMapStringString, known]
    rfl

/-- Every image in the digest index is in the list and carries the digest. -/
def Filed (object : Address → ImageRecord) (list : List Address)
    (bydigest : Index Text DigestImages) : Prop :=
  ∀ digest images, bydigest.search digest = some images → ∀ img ∈ images.imagesList,
    img ∈ list ∧ ((object img).digest = some digest ∨ (object img).manifestDigest = some digest)

/-- The image is in the index under this digest. -/
def FiledAt (bydigest : Index Text DigestImages) (key : Text) (img : Address) : Prop :=
  ∃ images, bydigest.search key = some images ∧ img ∈ images.imagesList

theorem filedAt_set (set : ∀ key, after.search key =
    if key = digest then some images else bydigest.search key) :
    FiledAt after key other ↔
      if key = digest then other ∈ images.imagesList else FiledAt bydigest key other := by
  unfold FiledAt
  rw [set key]
  split <;> simp

/-- Taking an image out of a digest leaves the other digests and the other images. -/
theorem removeImageFromDigestIndex_spec
    (removed : removeImageFromDigestIndex object img digest bydigest = some after)
    (filed : FiledAt after key other) :
    FiledAt bydigest key other ∧ (key = digest → (object other).id ≠ (object img).id) := by
  unfold removeImageFromDigestIndex at removed
  split at removed
  next missing =>
    cases removed
    refine ⟨filed, ?_⟩
    rintro rfl
    obtain ⟨_, found, -⟩ := filed
    cases missing.symm.trans found
  next before present =>
    dsimp only at removed
    split at removed
    · obtain ⟨images, found, member⟩ := filed
      rw [search_remove removed] at found
      split at found
      · cases found
      next differs => exact ⟨⟨images, found, member⟩, fun same => absurd same differs⟩
    · cases removed
      rw [filedAt_set fun _ => search_replace] at filed
      split at filed
      next here =>
        obtain ⟨listed, differs⟩ := mem_filter.mp filed
        exact ⟨⟨before, here ▸ present, listed⟩, fun _ => by simpa using differs⟩
      next differs => exact ⟨filed, fun same => absurd same differs⟩

theorem removeImageFromAnyDigest_spec
    (removed : removeImageFromAnyDigest object img oldDigest bydigest = some after)
    (filed : FiledAt after key other) :
    FiledAt bydigest key other ∧ (oldDigest = some key → (object other).id ≠ (object img).id) := by
  cases oldDigest with
  | none =>
    cases removed
    exact ⟨filed, nofun⟩
  | some digest =>
    obtain ⟨before, differs⟩ := removeImageFromDigestIndex_spec removed filed
    exact ⟨before, fun same => differs (Option.some.inj same).symm⟩

section

variable (dropped : ImageTables.dropOldDigest object img oldDigest fullDigest bydigest = some after)
include dropped

/-- The old digest of the manifest is dropped unless it is the new one or the image's own. -/
theorem dropOldDigest_cases :
    after = bydigest ∧
        (∀ old, oldDigest = some old → old = fullDigest ∨ (object img).digest = some old) ∨
      ∃ old, oldDigest = some old ∧ old ≠ fullDigest ∧ (object img).digest ≠ some old ∧
        removeImageFromDigestIndex object img old bydigest = some after := by
  unfold ImageTables.dropOldDigest at dropped
  split at dropped
  · cases dropped
    exact .inl ⟨rfl, nofun⟩
  rename_i old
  split at dropped
  next same =>
    cases dropped
    exact .inl ⟨rfl, fun _ here => .inl (Option.some.inj here ▸ same)⟩
  next differs =>
    split at dropped
    · cases dropped
    next digest own =>
      split at dropped
      next same =>
        cases dropped
        exact .inl ⟨rfl, fun _ here => .inr (Option.some.inj here ▸ same ▸ own)⟩
      next foreign =>
        exact .inr ⟨old, rfl, differs, by simpa [own] using Ne.symm foreign, dropped⟩

theorem dropOldDigest_spec (filed : FiledAt after key other) :
    FiledAt bydigest key other ∧ (oldDigest = some key → key = fullDigest ∨
      (object img).digest = some key ∨ (object other).id ≠ (object img).id) := by
  rcases dropOldDigest_cases dropped with ⟨rfl, kept⟩ | ⟨old, rfl, -, -, removed⟩
  · exact ⟨filed, fun here => (kept key here).imp_right .inl⟩
  · obtain ⟨before, differs⟩ := removeImageFromDigestIndex_spec removed filed
    exact ⟨before, fun here => .inr (.inr (differs (Option.some.inj here).symm))⟩

end

theorem appendImageAccordingToDigest_isSome (bydigest : Index Text DigestImages)
    (digest : Option Text) (img : Address) :
    ∃ after, appendImageAccordingToDigest bydigest digest img = some after := by
  cases digest with
  | none => exact ⟨_, rfl⟩
  | some digest =>
    rw [appendImageAccordingToDigest]
    cases found : bydigest.search digest with
    | some images => exact ⟨_, rfl⟩
    | none => exact ⟨_, insert_of_absent found⟩

section

variable (appended : appendImageAccordingToDigest bydigest oldDigest img = some after)
include appended

theorem search_appendImageAccordingToDigest :
    after.search key = if oldDigest = some key then
      some (((bydigest.search key).getD ⟨[], 0⟩).appendImage img) else bydigest.search key := by
  unfold appendImageAccordingToDigest at appended
  split at appended
  · cases appended
    simp
  rename_i digest
  split at appended
  next before present =>
    cases appended
    rw [search_replace]
    by_cases here : key = digest
    · simp [here, present]
    · simp [here, Ne.symm here]
  next missing =>
    rw [search_insert appended]
    by_cases here : key = digest
    · simp [here, missing]
    · simp [here, Ne.symm here]

/-- Entering an image adds it to its digest and nothing else. -/
theorem appendImageAccordingToDigest_spec :
    FiledAt after key other ↔ FiledAt bydigest key other ∨ other = img ∧ oldDigest = some key := by
  unfold FiledAt
  rw [search_appendImageAccordingToDigest appended]
  split
  next here => cases bydigest.search key <;> simp [here, DigestImages.appendImage]
  next differs => simp [differs]

end

theorem enterNewDigest_spec
    (filed : FiledAt (ImageTables.enterNewDigest object img fullDigest bydigest) key other) :
    FiledAt bydigest key other ∨ other = img ∧ key = fullDigest := by
  unfold ImageTables.enterNewDigest at filed
  split at filed
  · exact .inl filed
  rename_i before present
  rw [filedAt_set fun _ => search_replace] at filed
  split at filed
  next here =>
    rcases mem_append.mp filed with old | new
    · exact .inl ⟨before, here ▸ present, (mem_filter.mp old).1⟩
    · exact .inr ⟨mem_singleton.mp new, here⟩
  · exact .inl filed

end Digests

/-- The new names lead to the image, and whoever had one of them has lost it. -/
theorem takeNames_spec {saves : Bool} {img : Address} {names : List Text}
    {object objectAfter : Address → ImageRecord} {byname bynameAfter : Index Text Address}
    (taken :
      ImageTables.takeNames saves img names object byname = some (objectAfter, bynameAfter)) :
    (∀ name, bynameAfter.search name = if name ∈ names then some img else byname.search name) ∧
    ∀ other, ∃ rest, objectAfter other = { object other with names := rest } ∧
      (other ≠ img → ∀ name, name ∈ rest ↔
        name ∈ (object other).names ∧ ¬ (name ∈ names ∧ byname.search name = some other)) := by
  induction names generalizing object byname with
  | nil =>
    cases taken
    exact ⟨fun name => rfl, fun other => ⟨(objectAfter other).names, rfl, fun _ name => by simp⟩⟩
  | cons first names ih =>
    -- Whoever has the first name loses it.
    have step : ∃ next, ImageTables.takeNames saves img names next (byname.replace first img) =
        some (objectAfter, bynameAfter) ∧
        ∀ other, ∃ left, next other = { object other with names := left } ∧ ∀ name, name ∈ left ↔
          name ∈ (object other).names ∧ ¬ (name = first ∧ byname.search first = some other) := by
      rw [ImageTables.takeNames] at taken
      split at taken
      next unowned => exact ⟨object, taken, fun other => ⟨_, rfl, by simp [unowned]⟩⟩
      next owner owned =>
        split at taken
        · refine ⟨_, taken, fun other => ?_⟩
          by_cases isOwner : other = owner
          · subst isOwner
            rw [update_self]
            exact ⟨_, rfl, fun name => by simp [owned]⟩
          · rw [update_of_ne isOwner]
            exact ⟨_, rfl, fun name => by simp [owned, Ne.symm isOwner]⟩
        · cases taken
    obtain ⟨next, taken, stepped⟩ := step
    obtain ⟨found, objects⟩ := ih taken
    refine ⟨fun name => ?_, fun other => ?_⟩
    · rw [found, search_replace]
      by_cases here : name = first <;> by_cases later : name ∈ names <;> simp [here, later]
    · obtain ⟨left, here, lost⟩ := stepped other
      obtain ⟨rest, same, kept⟩ := objects other
      rw [here] at same kept
      refine ⟨rest, same, fun differs name => ?_⟩
      rw [kept differs name, lost, search_replace]
      by_cases isFirst : name = first
      · simp [isFirst, Ne.symm differs]
      · simp [isFirst]

/-- What every call keeps: the ids are distinct and the images in the digest index are there for a
digest that they carry. -/
structure ImageTables.Sound (tables : ImageTables) : Prop where
  apart : (tables.imagesList.map fun img => (tables.object img).id).Nodup
  ids : ∀ id img, tables.byid.search id = some img ↔
    img ∈ tables.imagesList ∧ (tables.object img).id = id
  names : ∀ name img, tables.byname.search name = some img ↔
    img ∈ tables.imagesList ∧ name ∈ (tables.object img).names
  length : tables.imagesListLen = tables.imagesList.length
  filed : Filed tables.object tables.imagesList tables.bydigest

namespace ImageTables

variable {tables after : ImageTables} {answers : ImageAnswers} {img other : Address}
  {id key data name fullDigest : Text} {names : List Text} {object : Address → ImageRecord}
  {bydigest : Index Text DigestImages} {saves save : Bool}

theorem sound_empty : ImageTables.empty.Sound where
  apart := nodup_nil
  ids _ _ := ⟨nofun, nofun⟩
  names _ _ := ⟨nofun, nofun⟩
  length := rfl
  filed _ _ := nofun

theorem rename_spec (renamed : tables.rename saves img names = some after) :
    ∃ without taken, tables.byname.removeAll (tables.object img).names = some without ∧
      takeNames saves img names tables.object without = some taken ∧
      after = { tables with
        object := update taken.1 img { taken.1 img with names := names }
        byname := taken.2 } := by
  simp only [rename, bind_eq_bind, bind_eq_some_iff] at renamed
  obtain ⟨without, removed, taken, took, built⟩ := renamed
  exact ⟨without, taken, removed, took, (Option.some.inj built).symm⟩

theorem addName_spec (added : tables.imageStoreAddName answers id name = some after) :
    ∃ img, tables.lookup id = some img ∧ tables.rename answers.savesOther img
      (utilStringArrayUnique ((tables.object img).names ++ [name])) = some after := by
  simp [imageStoreAddName, bind_eq_some_iff] at added
  obtain ⟨img, found, -, renamed⟩ := added
  exact ⟨img, found, renamed⟩

theorem setNames_spec (set : tables.imageStoreSetNames answers id names = some after) :
    ∃ img, tables.lookup id = some img ∧
      tables.rename true img (utilStringArrayUnique names) = some after := by
  simp [imageStoreSetNames, bind_eq_some_iff] at set
  obtain ⟨-, img, found, -, renamed⟩ := set
  exact ⟨img, found, renamed⟩

/-- A field that a new record shares with the old one. -/
theorem field_update {β : Type*} (field : ImageRecord → β) {object : Address → ImageRecord}
    {owner : Address} {record : ImageRecord} (same : field record = field (object owner))
    (other : Address) : field (update object owner record other) = field (object other) := by
  rw [apply_update (fun _ => field), same, update_eq_self]

section

variable (sound : tables.Sound)
include sound

theorem Sound.coherent : tables.Coherent :=
  { sound with digests := fun digest images found img member =>
      (sound.filed digest images found img member).1 }

theorem Sound.mem_of_lookup (found : tables.lookup id = some img) :
    img ∈ tables.imagesList := by
  rw [lookup, Option.or_eq_some_iff, Option.or_eq_some_iff] at found
  rcases found with (byId | ⟨-, byName⟩) | ⟨-, byPrefix⟩
  · exact ((sound.ids _ _).mp byId).1
  · exact ((sound.names _ _).mp byName).1
  obtain ⟨whole, byId, -⟩ := only_eq_some_iff.mp byPrefix
  exact ((sound.ids _ _).mp byId).1

theorem Sound.eq_of_id (member : img ∈ tables.imagesList) (memberOther : other ∈ tables.imagesList)
    (same : (tables.object other).id = (tables.object img).id) : other = img :=
  inj_on_of_nodup_map sound.apart memberOther member same

theorem Sound.append {record : ImageRecord} {searchableDigest : Option Text}
    (fresh : img ∉ tables.imagesList) (own : record.digest = searchableDigest)
    (appended : imageStoreAppendImage
      { tables with object := update tables.object img record }
      record.id searchableDigest img = some after) : after.Sound := by
  rw [imageStoreAppendImage] at appended
  simp [bind_eq_some_iff] at appended
  obtain ⟨byid, ids, bydigest, digests, byname, names, built⟩ := appended
  cases built
  have old : ∀ other ∈ tables.imagesList,
      update tables.object img record other = tables.object other :=
    fun other member => update_of_ne (ne_of_mem_of_not_mem member fresh) _ _
  have listed : ∀ other, other ∈ tables.imagesList ++ [img] ↔
      other ∈ tables.imagesList ∨ other = img := fun other => by simp
  refine ⟨?_, ?_, ?_, ?_, fun digest images found other member => ?_⟩
  · dsimp only
    rw [map_append, map_congr_left (g := fun other => (tables.object other).id)
      fun other member => congrArg ImageRecord.id (old other member)]
    refine nodup_append.mpr ⟨sound.apart, nodup_singleton _, ?_⟩
    rintro _ member _ new rfl
    obtain ⟨other, memberOther, same⟩ := mem_map.mp member
    rw [map_singleton, mem_singleton, update_self] at new
    have absent := absent_of_insert ids
    rw [(sound.ids _ _).mpr ⟨memberOther, same.trans new⟩] at absent
    cases absent
  · refine Index.Leads.congr (Index.Leads.insert sound.ids ids fresh (fun key => ?_)
      fun other key member => ?_) listed fun _ _ _ => Iff.rfl
    · dsimp only
      rw [update_self, eq_comm]
    · dsimp only
      rw [old other member]
  · refine Index.Leads.congr (Index.Leads.insertAll sound.names names fresh (fun name => ?_)
      fun other name member => ?_) listed fun _ _ _ => Iff.rfl
    · dsimp only
      rw [update_self]
    · dsimp only
      rw [old other member]
  · rw [sound.length, length_append, length_singleton]
  · dsimp only
    rcases (appendImageAccordingToDigest_spec digests).mp ⟨images, found, member⟩ with
      ⟨before, present, memberBefore⟩ | ⟨rfl, same⟩
    · obtain ⟨memberList, carries⟩ := sound.filed digest before present other memberBefore
      rw [old other memberList]
      exact ⟨mem_append_left _ memberList, carries⟩
    · rw [update_self, own]
      exact ⟨mem_append_right _ (mem_singleton_self _), .inl same⟩

theorem Sound.create {id : Option Text} {searchableDigest : Option Text}
    (created : tables.imageStoreCreate answers img id names searchableDigest = some after) :
    after.Sound := by
  simp only [imageStoreCreate, bind_eq_bind, bind_eq_some_iff,
    ite_none_right_eq_some, Option.ite_none_left_eq_some] at created
  obtain ⟨dstId, -, usable, -, appended⟩ := created
  exact sound.append (fun member => usable (.inl member)) rfl appended

theorem Sound.removeImageFromMemory (member : img ∈ tables.imagesList)
    (removed : tables.removeImageFromMemory (tables.object img).id = some after) : after.Sound := by
  have known : tables.lookup (tables.object img).id = some img := by
    rw [lookup, (sound.ids _ _).mpr ⟨member, rfl⟩, some_or, some_or]
  rw [ImageTables.removeImageFromMemory, known] at removed
  simp [bind_eq_some_iff] at removed
  obtain ⟨byid, ids, byname, names, manifests, first, bydigest, second, built⟩ := removed
  rw [unlist, if_pos ⟨img, member, rfl⟩] at built
  cases built
  -- The list as a table by ids, so that removing the id removes the image.
  let table : Keyed (fun other => (tables.object other).id) := ⟨tables.imagesList, sound.apart⟩
  have listed : ∀ other, other ∈ (table.remove (tables.object img).id).entries ↔
      other ∈ tables.imagesList ∧ other ≠ img := by
    intro other
    rw [Keyed.mem_remove]
    refine and_congr_right fun memberOther => not_congr ?_
    exact ⟨sound.eq_of_id member memberOther, fun same => same ▸ rfl⟩
  refine ⟨(table.remove (tables.object img).id).apart, ?_, ?_, ?_,
    fun digest images found other memberOther => ?_⟩
  · exact Index.Leads.congr (Index.Leads.remove sound.ids member (fun key => eq_comm) ids) listed
      fun _ _ _ => .rfl
  · exact Index.Leads.congr (Index.Leads.drop sound.names member (fun name => Iff.rfl) fun name =>
      search_removeAll names) listed fun _ _ _ => .rfl
  · have shorter : (table.remove (tables.object img).id).entries.length =
        tables.imagesList.length - 1 := length_eraseP_of_mem member (by simp)
    rw [sound.length]
    exact shorter.symm
  · obtain ⟨middle, notOwn⟩ := removeImageFromAnyDigest_spec second ⟨images, found, memberOther⟩
    obtain ⟨⟨before, present, memberBefore⟩, notManifest⟩ :=
      removeImageFromAnyDigest_spec first middle
    obtain ⟨memberList, carries⟩ := sound.filed digest before present other memberBefore
    refine ⟨(listed other).mpr ⟨memberList, ?_⟩, carries⟩
    -- The image itself has been taken out of both of its digests.
    rintro rfl
    rcases carries with own | manifest
    · exact notOwn own rfl
    · exact notManifest manifest rfl

theorem Sound.delete (deleted : tables.imageStoreDelete answers id = some after) : after.Sound := by
  unfold imageStoreDelete at deleted
  split at deleted
  · cases deleted
    exact sound
  rename_i img found
  split at deleted
  · exact sound.removeImageFromMemory (sound.mem_of_lookup found) deleted
  · cases deleted

/-- Changed images keep the invariant if their ids stay, the names are indexed and the digests
filed. -/
theorem Sound.with {byname : Index Text Address}
    (ids : ∀ other, (object other).id = (tables.object other).id)
    (found : ∀ name other, byname.search name = some other ↔
      other ∈ tables.imagesList ∧ name ∈ (object other).names)
    (filed : Filed object tables.imagesList bydigest) :
    ({ tables with object, byname, bydigest } : ImageTables).Sound := by
  refine ⟨?_, fun key other => ?_, found, sound.length, filed⟩
  · rw [map_congr_left fun other _ => ids other]
    exact sound.apart
  · rw [ids other]
    exact sound.ids key other

theorem Sound.filed_of_same (same : ∀ other, (object other).digest = (tables.object other).digest ∧
      (object other).manifestDigest = (tables.object other).manifestDigest) :
    Filed object tables.imagesList tables.bydigest := by
  intro digest images found other member
  rw [(same other).1, (same other).2]
  exact sound.filed digest images found other member

section

variable (member : img ∈ tables.imagesList)
include member

theorem Sound.rename (renamed : tables.rename saves img names = some after) : after.Sound := by
  obtain ⟨without, ⟨object, byname⟩, removed, taken, rfl⟩ := rename_spec renamed
  obtain ⟨found, objects⟩ := takeNames_spec taken
  -- Only names have changed.
  have same : ∀ other, ∃ rest, update object img { object img with names := names } other =
      { tables.object other with names := rest } := by
    intro other
    obtain ⟨rest, changed, -⟩ := objects other
    rw [update_apply]
    split
    next isImg => exact ⟨names, by rw [← isImg, changed]⟩
    · exact ⟨rest, changed⟩
  refine sound.with (fun other => ?_) (fun name other => ?_) (sound.filed_of_same fun other => ?_)
  · obtain ⟨rest, changed⟩ := same other
    rw [changed]
  rotate_left
  · obtain ⟨rest, changed⟩ := same other
    rw [changed]
    exact ⟨rfl, rfl⟩
  dsimp only
  rw [found, search_removeAll removed]
  by_cases isImg : other = img
  · -- The image has the new names and none of the old.
    subst isImg
    rw [update_self]
    constructor
    · intro search
      split at search
      next new => exact ⟨member, new⟩
      split at search
      · cases search
      next old => exact absurd ((sound.names _ _).mp search).2 old
    · exact fun both => if_pos both.2
  · rw [update_of_ne isImg]
    obtain ⟨rest, changed, kept⟩ := objects other
    -- A name of another image is not one of this image's old names.
    have foreign : tables.byname.search name = some other → name ∉ (tables.object img).names := by
      intro search mine
      rw [(sound.names _ _).mpr ⟨member, mine⟩] at search
      exact isImg (Option.some.inj search).symm
    rw [changed]
    rw [kept isImg name, search_removeAll removed, ← and_assoc, ← sound.names]
    constructor
    · intro search
      split at search
      · exact absurd (Option.some.inj search).symm isImg
      rename_i old
      split at search
      · cases search
      · exact ⟨search, fun both => old both.1⟩
    · rintro ⟨search, lost⟩
      rw [if_neg (foreign search)] at lost ⊢
      rw [if_neg fun new => lost ⟨new, search⟩]
      exact search

/-- A new manifest is filed under its digest, and under the old one no longer. -/
theorem Sound.filed_manifest (others : ∀ other, other ≠ img → object other = tables.object other)
    (own : (object img).digest = (tables.object img).digest)
    (manifest : (object img).manifestDigest = some fullDigest)
    (dropped : dropOldDigest object img (tables.object img).manifestDigest fullDigest
      tables.bydigest = some bydigest) :
    Filed object tables.imagesList (enterNewDigest object img fullDigest bydigest) := by
  intro digest images found other memberOther
  rcases enterNewDigest_spec ⟨images, found, memberOther⟩ with middle | ⟨rfl, rfl⟩
  · obtain ⟨⟨before, present, memberBefore⟩, notOld⟩ := dropOldDigest_spec dropped middle
    obtain ⟨memberList, carries⟩ := sound.filed digest before present other memberBefore
    refine ⟨memberList, ?_⟩
    by_cases isImg : other = img
    · subst isImg
      rcases carries with carried | old
      · exact .inl (own.trans carried)
      rcases notOld old with same | carried | differs
      · exact .inr (same ▸ manifest)
      · exact .inl carried
      · exact absurd rfl differs
    · rw [others other isImg]
      exact carries
  · exact ⟨member, .inr manifest⟩

theorem Sound.updateImageWithBigData
    (updated : tables.updateImageWithBigData answers img key data = some (after, save)) :
    after.Sound := by
  rw [ImageTables.updateImageWithBigData] at updated
  have manifestOf : (tables.object img |>.withBigData key data.length
      (answers.fullDigest data)).manifestDigest = if imageDigestBigDataKey = key then
        some (answers.fullDigest data) else (tables.object img).manifestDigest :=
    getValue_withBigData _ _ _ _ _
  generalize made :
    (tables.object img).withBigData key data.length (answers.fullDigest data) = record
    at updated manifestOf
  -- Only the big data of the image has changed.
  have ids : record.id = (tables.object img).id := made ▸ rfl
  have names : record.names = (tables.object img).names := made ▸ rfl
  have own : record.digest = (tables.object img).digest := made ▸ rfl
  have named : ∀ name other, tables.byname.search name = some other ↔
      other ∈ tables.imagesList ∧
        name ∈ (update tables.object img record other).names := by
    intro name other
    rw [field_update ImageRecord.names names]
    exact sound.names name other
  split at updated
  next isManifest =>
    obtain ⟨bydigest, dropped, built⟩ := Option.bind_eq_some_iff.mp updated
    cases built
    refine sound.with (field_update ImageRecord.id ids) named ?_
    refine sound.filed_manifest member (fun other differs => update_of_ne differs _ _)
      (field_update ImageRecord.digest own img) ?_ ?_
    · rw [update_self, manifestOf, if_pos isManifest.symm]
    · rw [isManifest] at dropped
      exact dropped
  next isOther =>
    cases updated
    rw [if_neg (Ne.symm isOther)] at manifestOf
    exact sound.with (field_update ImageRecord.id ids) named (sound.filed_of_same fun other =>
      ⟨field_update ImageRecord.digest own other,
        field_update ImageRecord.manifestDigest manifestOf other⟩)

end

theorem Sound.addName
    (added : tables.imageStoreAddName answers id name = some after) : after.Sound := by
  obtain ⟨img, found, renamed⟩ := addName_spec added
  exact sound.rename (sound.mem_of_lookup found) renamed

theorem Sound.setNames
    (set : tables.imageStoreSetNames answers id names = some after) : after.Sound := by
  obtain ⟨img, found, renamed⟩ := setNames_spec set
  exact sound.rename (sound.mem_of_lookup found) renamed

theorem Sound.setBigData
    (set : tables.imageStoreSetBigData answers id key data = some after) : after.Sound := by
  simp only [imageStoreSetBigData, bind_eq_bind, bind_eq_some_iff,
    ite_none_right_eq_some, Option.ite_none_left_eq_some] at set
  obtain ⟨-, img, found, -, _, updated, -, saved⟩ := set
  cases saved
  exact sound.updateImageWithBigData (sound.mem_of_lookup found) updated

theorem Sound.call (call : ImageCall)
    (called : tables.call answers call = some after) : after.Sound := by
  cases call with
  | create img id names searchableDigest => exact sound.create called
  | delete id => exact sound.delete called
  | addName id name => exact sound.addName called
  | setNames id names => exact sound.setNames called
  | setBigData id key data => exact sound.setBigData called

end

end ImageTables

theorem sound_of_imageCalls {calls : List (ImageAnswers × ImageCall)} {tables : ImageTables}
    (trace : imageCalls.Trace calls tables) : tables.Sound := by
  induction trace with
  | start => exact ImageTables.sound_empty
  | step _ taken ih => exact ih.call _ taken

/-- After every sequence of successful calls the indexes agree with the list. -/
theorem coherent_of_imageCalls {calls : List (ImageAnswers × ImageCall)} {tables : ImageTables}
    (trace : imageCalls.Trace calls tables) : tables.Coherent :=
  (sound_of_imageCalls trace).coherent

/-- Answers under which nothing outside fails; the digest of a text is the text. -/
def ImageAnswers.willing : ImageAnswers where
  randomIds := []
  getsTime := true
  savesImage := true
  savesOther := true
  removesImageDir := true
  writesBigData := true
  fullDigest data := data

/-- Two images of one digest: the second takes the name of the first, gets a manifest and loses the
first. -/
def stolenName : List (ImageAnswers × ImageCall) :=
  [(.willing, .create 0 (some ['a']) [['n']] (some ['d'])),
   (.willing, .create 1 (some ['b']) [] (some ['d'])),
   (.willing, .addName ['b'] ['n']),
   (.willing, .setBigData ['b'] imageDigestBigDataKey ['d']),
   (.willing, .delete ['a'])]

theorem coherent_of_imageCalls_stolenName :
    ∃ tables, imageCalls.Trace stolenName tables ∧ tables.byname.search ['n'] = some 1 ∧
      tables.Coherent := by
  have trace := @Machine.trace_of_replay _ _ imageCalls stolenName _ rfl
  exact ⟨_, trace, by decide +kernel, coherent_of_imageCalls trace⟩

/-! The maps are indexes of the list: a lookup finds what a search of the list finds, as
`ImageStore.lookup` has it. -/

section View

variable {tables : ImageTables} (sound : tables.Sound) (layerOf : Address → Text)
  (userOf : Address → Option Text)

/-- An image of the list with its layer and user. -/
def ImageTables.image (tables : ImageTables) (img : Address) : Image where
  id := (tables.object img).id
  names := (tables.object img).names
  topLayer := layerOf img
  user := userOf img

/-- The list as an image store. -/
def ImageTables.Sound.view : ImageStore where
  entries := tables.imagesList.map (tables.image layerOf userOf)
  apart := by
    rw [map_map]
    exact sound.apart

theorem ImageTables.Sound.find_view (id : Text) :
    (sound.view layerOf userOf).find id =
      (tables.byid.search id).map (tables.image layerOf userOf) :=
  Index.Leads.find?_map sound.ids _ fun _ => decide_eq_true_iff

theorem ImageTables.Sound.find?_names_view (name : Text) :
    ((sound.view layerOf userOf).entries.find? fun image => image.names.contains name) =
      (tables.byname.search name).map (tables.image layerOf userOf) :=
  Index.Leads.find?_map sound.names _ fun _ => contains_iff_mem

theorem ImageTables.Sound.prefix_view (id : Text) :
    ImageStore.getImageForStoreByPrefix (sound.view layerOf userOf) id =
      (tables.byid.only fun key => id.isPrefixOf key).map (tables.image layerOf userOf) := by
  have apart : (sound.view layerOf userOf).entries.Nodup :=
    List.Nodup.of_map _ (sound.view layerOf userOf).apart
  have single : ∀ image, ImageStore.getImageForStoreByPrefix (sound.view layerOf userOf) id =
      some image ↔ (sound.view layerOf userOf).entries.filter
        (fun image => id.isPrefixOf image.id) = [image] := by
    intro image
    rw [ImageStore.getImageForStoreByPrefix]
    split
    next only => rw [only, Option.some.injEq, List.cons.injEq, and_iff_left rfl]
    next many => exact ⟨nofun, fun only => absurd only (many image)⟩
  ext image
  rw [single, filter_eq_singleton_iff apart, Option.map_eq_some_iff]
  constructor
  · rintro ⟨member, starts, others⟩
    obtain ⟨img, memberList, rfl⟩ := mem_map.mp member
    refine ⟨img, only_eq_some_iff.mpr ⟨_, (sound.ids _ _).mpr ⟨memberList, rfl⟩, starts, ?_⟩, rfl⟩
    intro key other found startsOther
    obtain ⟨memberOther, rfl⟩ := (sound.ids _ _).mp found
    exact congrArg Image.id (others _ (mem_map_of_mem memberOther) startsOther)
  · rintro ⟨img, unique, rfl⟩
    obtain ⟨key, found, starts, others⟩ := only_eq_some_iff.mp unique
    obtain ⟨member, rfl⟩ := (sound.ids _ _).mp found
    refine ⟨mem_map_of_mem member, starts, fun image memberImage startsImage => ?_⟩
    obtain ⟨other, memberOther, rfl⟩ := mem_map.mp memberImage
    have same := others _ other ((sound.ids _ _).mpr ⟨memberOther, rfl⟩) startsImage
    rw [sound.eq_of_id member memberOther same]

/-- After every sequence of successful calls the maps find what a search of the list finds. -/
theorem lookup_of_imageCalls {calls : List (ImageAnswers × ImageCall)}
    (trace : imageCalls.Trace calls tables) (id : Text) :
    ImageStore.lookup ((sound_of_imageCalls trace).view layerOf userOf) id =
      (tables.lookup id).map (tables.image layerOf userOf) := by
  have sound := sound_of_imageCalls trace
  rw [ImageStore.lookup, ImageTables.lookup, sound.find_view, sound.find?_names_view,
    sound.prefix_view, map_or, map_or]

theorem lookup_of_imageCalls_stolenName :
    ∃ tables, ∃ trace : imageCalls.Trace stolenName tables,
      (ImageStore.lookup ((sound_of_imageCalls trace).view (fun _ => []) fun _ => none) ['n']).map
        Image.id = some ['b'] := by
  have trace := @Machine.trace_of_replay _ _ imageCalls stolenName _ rfl
  exact ⟨_, trace, (congrArg _ (lookup_of_imageCalls _ _ trace ['n'])).trans (by decide +kernel)⟩

end View

end Isulad.Storage
