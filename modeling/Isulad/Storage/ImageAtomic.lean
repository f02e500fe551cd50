import Isulad.Storage.ImageIndex

/-!
# Failing to create an image

`image_store_create` enters an image in a list and three maps. When a name is in use, the item
leaves the list and the image is freed, while the length stays counted up and the maps keep the
entries made so far, which lead to freed memory from then on. When the image cannot be saved, it is
taken out again as in a deletion. A call that would read an image that has been freed has no
outcome. `imageStoreCreateCall_atomic_iff` says, for all tables, when a failure leaves them as they
were.
-/

namespace Isulad.Storage

open Option List Function Isulad.Std Index

/-- How everything outside the store answers one call. -/
structure ImageCallAnswers extends ImageAnswers where
  /-- `image_store_lock`. -/
  locksStore : Bool

/-- Everything obliges, apart from the saving of the new image; random ids are the given one. -/
def ImageCallAnswers.obliging (random : Text) (saves : Bool) : ImageCallAnswers :=
  { ImageAnswers.willing with
    randomIds := [some random]
    savesImage := saves
    locksStore := true }

/-- The image that `new_storage_image` describes, as far as the tables go; its layer and its
metadata are only saved. -/
def createdImage (id : Text) (searchableDigest : Option Text) (names : List Text) :
    ImageRecord where
  id := id
  digest := searchableDigest
  names := utilStringArrayUnique names
  bigDataNames := []
  bigDataSizes := []
  bigDataDigests := []

namespace ImageTables

variable (tables : ImageTables)

/-- The tables when an image has been allocated. -/
def place (img : Address) (record : ImageRecord) : ImageTables :=
  { tables with object := update tables.object img record }

/-- `image_store_append_image` with what a failure leaves: at `out` only the item leaves the
list. -/
def appendImageCall (id : Text) (searchableDigest : Option Text) (img : Address) :
    Bool × ImageTables :=
  let counted := { tables with imagesListLen := tables.imagesListLen + 1 }
  match tables.byid.insert id img with
  | none => (false, counted)
  | some byid =>
    match appendImageAccordingToDigest tables.bydigest searchableDigest img with
    | none => (false, { counted with byid })
    | some bydigest =>
      match tables.byname.insertEach (tables.object img).names img with
      | (false, byname) => (false, { counted with byid, bydigest, byname })
      | (true, byname) =>
        (true, { counted with imagesList := tables.imagesList ++ [img], byid, bydigest, byname })

/-- The images filed under a digest. -/
def filed (tables : ImageTables) (digest : Option Text) : List Address :=
  (digest.bind tables.bydigest.search).elim [] DigestImages.imagesList

/-- `remove_image_from_digest_index`, which reads the id of every image filed under the digest. -/
def leaveDigest (img : Address) (digest : Option Text) : Option ImageTables :=
  if ∀ other ∈ tables.filed digest, other ∈ tables.imagesList then
    (removeImageFromAnyDigest tables.object img digest tables.bydigest).map fun bydigest =>
      { tables with bydigest }
  else none

/-- `remove_image_from_memory` in all its outcomes. -/
def removeImageFromMemoryCall (id : Text) : Option (Bool × ImageTables) :=
  match tables.lookup id with
  | none => some (false, tables)
  | some img =>
    if img ∈ tables.imagesList then
      match tables.byid.remove id with
      | none => some (false, tables)
      | some byid =>
        match tables.byname.removeEach (tables.object img).names with
        | (false, byname) => some (false, { tables with byid, byname })
        | (true, byname) => do
          let tables ← leaveDigest { tables with byid, byname } img
            (tables.object img).manifestDigest
          let tables ← tables.leaveDigest img (tables.object img).digest
          some (true, tables.unlist id)
    else none

/-- `do_delete_image_info`. -/
def doDeleteImageInfo (answers : ImageAnswers) (tables : ImageTables) (id : Text) :
    Option (Bool × ImageTables) :=
  match tables.lookup id with
  | none => some (true, tables)
  | some img =>
    if img ∈ tables.imagesList then
      (tables.removeImageFromMemoryCall (tables.object img).id).map fun removed =>
        (removed.1 && answers.removesImageDir, removed.2)
    else none

/-- `image_store_create` from the append on. -/
def enterImage (answers : ImageAnswers) (tables : ImageTables) (img : Address) (dstId : Text)
    (names : List Text) (searchableDigest : Option Text) : Option (Bool × ImageTables) :=
  match (tables.place img (createdImage dstId searchableDigest names)).appendImageCall dstId
    searchableDigest img with
  | (false, after) => some (false, after)
  | (true, after) =>
    if answers.savesImage then some (true, after)
    else (after.doDeleteImageInfo answers dstId).map fun deleted => (false, deleted.2)

/-- `image_store_create` with the address of the new image; `true` is an id as the result. -/
def imageStoreCreateCall (answers : ImageCallAnswers) (tables : ImageTables) (img : Address)
    (id : Option Text) (names : List Text) (searchableDigest : Option Text) :
    Option (Bool × ImageTables) :=
  if answers.locksStore then
    match id.or (tables.generateRandomImageId (answers.randomIds.take maxRetryCnt)) with
    | none => some (false, tables)
    | some dstId =>
      if tables.byid.search dstId ≠ none then some (false, tables)
      else if answers.getsTime then
        tables.enterImage answers.toImageAnswers img dstId names searchableDigest
      else some (false, tables)
  else some (false, tables)

/-- The list, its length and the three maps are the same. -/
structure Same (before after : ImageTables) : Prop where
  list : after.imagesList = before.imagesList
  length : after.imagesListLen = before.imagesListLen
  ids : after.byid = before.byid
  names : after.byname = before.byname
  digests : after.bydigest = before.bydigest

/-- However the rest of the system answers and wherever the new image is, a creation has an outcome
and changes nothing if it fails. -/
def CreatesAtomically (id : Option Text) (names : List Text) (searchableDigest : Option Text) :
    Prop :=
  ∀ answers img, img ∉ tables.imagesList →
    ∃ done after, imageStoreCreateCall answers tables img id names searchableDigest =
      some (done, after) ∧ (done = false → tables.Same after)

/-- What is filed under the digest, if it is in the index at all: some images, all of them in the
list. -/
def DigestUsable (searchableDigest : Option Text) : Prop :=
  ∀ images, searchableDigest.bind tables.bydigest.search = some images →
    images.imagesListLen ≠ 0 ∧ ∀ img ∈ images.imagesList, img ∈ tables.imagesList

/-- The id is known and nothing is tried; or the names are not in use, the digest leads to listed
images only, and no listed image has the id, or any that may be generated, without being known by
it. -/
def Unclaimed (id : Option Text) (names : List Text) (searchableDigest : Option Text) : Prop :=
  (∃ known, id = some known ∧ tables.byid.search known ≠ none) ∨
    ((∀ name ∈ names, tables.byname.search name = none) ∧
      tables.DigestUsable searchableDigest ∧
      ∀ img ∈ tables.imagesList, id.getD (tables.object img).id = (tables.object img).id →
        tables.byid.search (tables.object img).id ≠ none)

end ImageTables

section Digests

variable {object : Address → ImageRecord} {img : Address} {digest : Option Text}
  {bydigest after : Index Text DigestImages} {images : DigestImages}

/-- The only image of its id is taken off a list that it has been added to. -/
theorem DigestImages.sliceWithoutValue_appendImage
    (others : ∀ other ∈ images.imagesList, (object other).id ≠ (object img).id) :
    (images.appendImage img).sliceWithoutValue object img = images := by
  have kept : images.imagesList.filter (fun other => (object other).id != (object img).id) =
      images.imagesList :=
    filter_eq_self.mpr fun other member => by simpa using others other member
  have counted : images.imagesList.countP (fun other => (object other).id == (object img).id) = 0 :=
    countP_eq_zero.mpr fun other member => by simpa using others other member
  cases images
  simp only [appendImage, sliceWithoutValue, filter_append, countP_append] at kept counted ⊢
  simp [kept, counted]

section

variable (appended : appendImageAccordingToDigest bydigest digest img = some after)
include appended

/-- An image is taken out of the index without a trace, unless there was an empty entry. -/
theorem removeImageFromAnyDigest_append
    (others : ∀ images, digest.bind bydigest.search = some images →
      images.imagesListLen ≠ 0 ∧ ∀ other ∈ images.imagesList, (object other).id ≠ (object img).id) :
    removeImageFromAnyDigest object img digest after = some bydigest := by
  cases digest with
  | none =>
    cases appended
    rfl
  | some digest =>
    have filed := (search_appendImageAccordingToDigest appended).trans (if_pos rfl)
    rw [removeImageFromAnyDigest, removeImageFromDigestIndex, filed]
    rw [appendImageAccordingToDigest] at appended
    cases found : bydigest.search digest with
    | none =>
      rw [found] at appended
      have emptied :
          (DigestImages.appendImage ⟨[], 0⟩ img).sliceWithoutValue object img = ⟨[], 0⟩ :=
        DigestImages.sliceWithoutValue_appendImage (by simp)
      dsimp
      rw [emptied]
      exact remove_of_insert appended
    | some images =>
      obtain ⟨filled, apart⟩ := others images found
      rw [found] at appended
      cases appended
      dsimp
      rw [DigestImages.sliceWithoutValue_appendImage apart, if_neg filled]
      exact congrArg some (replace_replace found)

/-- An empty entry is removed. -/
theorem removeImageFromAnyDigest_append_ne
    (found : digest.bind bydigest.search = some images) (empty : images.imagesListLen = 0) :
    removeImageFromAnyDigest object img digest after ≠ some bydigest := by
  cases digest with
  | none => cases found
  | some digest =>
    change bydigest.search digest = some images at found
    have filed := (search_appendImageAccordingToDigest appended).trans (if_pos rfl)
    rw [found, getD_some] at filed
    have length : ((images.appendImage img).sliceWithoutValue object img).imagesListLen = 0 := by
      simp [DigestImages.appendImage, DigestImages.sliceWithoutValue, empty]
    rw [removeImageFromAnyDigest, removeImageFromDigestIndex, filed]
    dsimp only
    rw [if_pos length]
    intro removed
    have gone := @search_remove _ _ _ _ _ _ digest removed
    rw [found, if_pos rfl] at gone
    cases gone

end

end Digests

namespace ImageTables

section Create

variable {tables after : ImageTables} {img : Address} {id : Text} {names : List Text}
  {searchableDigest : Option Text}

/-- An image entered in the list and the maps. -/
structure Entered (before after : ImageTables) (img : Address) (record : ImageRecord) : Prop where
  object : after.object = update before.object img record
  list : after.imagesList = before.imagesList ++ [img]
  length : after.imagesListLen = before.imagesListLen + 1
  ids : before.byid.insert record.id img = some after.byid
  digests : appendImageAccordingToDigest before.bydigest record.digest img = some after.bydigest
  names : before.byname.insertAll record.names img = some after.byname

theorem appendImageCall_free (unknown : tables.byid.search id = none)
    (free : ∀ name ∈ names, tables.byname.search name = none) :
    ∃ after, Entered tables after img (createdImage id searchableDigest names) ∧
      (tables.place img (createdImage id searchableDigest names)).appendImageCall id
        searchableDigest
        img = (true, after) := by
  obtain ⟨byid, ids⟩ : ∃ byid, tables.byid.insert id img = some byid :=
    ⟨_, insert_of_absent unknown⟩
  obtain ⟨bydigest, digests⟩ :=
    appendImageAccordingToDigest_isSome tables.bydigest searchableDigest img
  obtain ⟨byname, byNames⟩ := isSome_iff_exists.mp
    ((@insertAll_isSome_iff _ _ _ tables.byname img _ (nodup_utilStringArrayUnique names)).mpr
      fun name member => free name (mem_utilStringArrayUnique.mp member))
  refine ⟨{ tables.place img (createdImage id searchableDigest names) with
    imagesList := tables.imagesList ++ [img]
    imagesListLen := tables.imagesListLen + 1
    byid, bydigest, byname }, ⟨rfl, rfl, rfl, ids, digests, byNames⟩, ?_⟩
  rw [appendImageCall, place]
  simp [ids, digests, createdImage, insertEach_eq_true_iff.mpr byNames]

/-- A name in use is noticed when everything else has been done. -/
theorem appendImageCall_claimed (claimed : ¬ ∀ name ∈ names, tables.byname.search name = none) :
    ∃ after, (tables.place img (createdImage id searchableDigest names)).appendImageCall id
        searchableDigest img = (false, after) ∧
      after.imagesListLen = tables.imagesListLen + 1 := by
  have refused := @insertEach_of_present _ _ _ tables.byname img (utilStringArrayUnique names)
    (by simpa [mem_utilStringArrayUnique] using claimed)
  rw [appendImageCall, place]
  simp [createdImage]
  split
  · exact ⟨_, rfl, rfl⟩
  split
  · exact ⟨_, rfl, rfl⟩
  cases entered : tables.byname.insertEach (utilStringArrayUnique names) img with
  | mk all byname =>
    rw [entered] at refused
    cases refused
    exact ⟨_, rfl, rfl⟩

/-- Taking an image out again that has just been entered. -/
theorem Entered.doDeleteImageInfo {answers : ImageAnswers}
    (entered : Entered tables after img (createdImage id searchableDigest names)) :
    after.doDeleteImageInfo answers id =
      (leaveDigest { after with byid := tables.byid, byname := tables.byname } img
        searchableDigest).map fun left => (answers.removesImageDir, left.unlist id) := by
  obtain ⟨object, list, length, ids, digests, byNames⟩ := entered
  have listed : img ∈ after.imagesList := by simp [list]
  have here : after.object img = createdImage id searchableDigest names := by
    rw [object, update_self]
  have known : after.lookup id = some img := by
    have found : after.byid.search id = some img := (search_insert ids).trans (if_pos rfl)
    rw [lookup, found, Option.some_or, some_or]
  have outOfIds : after.byid.remove id = some tables.byid := remove_of_insert ids
  have outOfNames : after.byname.removeEach (createdImage id searchableDigest names).names =
      (true, tables.byname) :=
    removeEach_of_removeAll (removeAll_of_insertAll byNames)
  have noManifest : (createdImage id searchableDigest names).manifestDigest = none := rfl
  have removed : after.removeImageFromMemoryCall id =
      (leaveDigest { after with byid := tables.byid, byname := tables.byname } img
        searchableDigest).map fun left => (true, left.unlist id) := by
    rw [removeImageFromMemoryCall, known]
    dsimp only
    rw [if_pos listed, outOfIds]
    rw [here, outOfNames, noManifest]
    dsimp only
    rw [leaveDigest, if_pos (by simp [filed]), bind_eq_bind, removeImageFromAnyDigest,
      map_some, bind_some]
    rw [here, map_eq_bind]
    rfl
  rw [ImageTables.doDeleteImageInfo, known]
  dsimp only
  rw [if_pos listed, here, show (createdImage id searchableDigest names).id = id from rfl, removed,
    Option.map_map]
  rfl

section

variable (entered : Entered tables after img (createdImage id searchableDigest names))
  {deleted : Bool × ImageTables} {answers : ImageAnswers}
include entered

/-- The image is taken out without a trace when no other has its id and its digest leads to listed
images. -/
theorem Entered.same_of_usable {answers : ImageAnswers} (fresh : img ∉ tables.imagesList)
    (usable : tables.DigestUsable searchableDigest)
    (unlisted : ∀ other ∈ tables.imagesList, (tables.object other).id ≠ id) :
    ∃ deleted, after.doDeleteImageInfo answers id = some deleted ∧ tables.Same deleted.2 := by
  have undone := @Entered.doDeleteImageInfo _ _ _ _ _ _ answers entered
  obtain ⟨object, list, length, -, digests, -⟩ := entered
  have own : (after.object img).id = id := by
    rw [object, update_self]
    rfl
  have others : ∀ other ∈ tables.imagesList, (after.object other).id ≠ id := by
    intro other member
    rw [object, update_of_ne (ne_of_mem_of_not_mem member fresh)]
    exact unlisted other member
  have live : ∀ other ∈ after.filed searchableDigest, other ∈ after.imagesList := by
    intro other member
    rw [list, mem_append, mem_singleton]
    cases searchableDigest with
    | none => cases member
    | some digest =>
      have filed := (search_appendImageAccordingToDigest digests).trans (if_pos rfl)
      rw [ImageTables.filed, bind_some, filed] at member
      rcases mem_append.mp member with old | new
      · cases found : tables.bydigest.search digest with
        | none =>
          rw [found] at old
          cases old
        | some images =>
          rw [found] at old
          exact .inl ((usable images found).2 other old)
      · exact .inr (mem_singleton.mp new)
  have outOfDigest : removeImageFromAnyDigest after.object img searchableDigest after.bydigest =
      some tables.bydigest :=
    removeImageFromAnyDigest_append digests fun images found =>
      ⟨(usable images found).1, fun other member => by
        rw [own]
        exact others other ((usable images found).2 other member)⟩
  have left : leaveDigest { after with byid := tables.byid, byname := tables.byname } img
      searchableDigest = some { after with
        byid := tables.byid, byname := tables.byname, bydigest := tables.bydigest } := by
    rw [leaveDigest, if_pos (by exact live), outOfDigest]
    rfl
  have found : ∃ other ∈ after.imagesList, (after.object other).id = id :=
    ⟨img, by simp [list], own⟩
  have erased : after.imagesList.eraseP (fun other => (after.object other).id = id) =
      tables.imagesList := by
    rw [list, eraseP_append_right _ (by simpa using others),
      eraseP_cons_of_pos (by simpa using own), append_nil]
  have counted : after.imagesListLen - 1 = tables.imagesListLen := by
    rw [length, Nat.add_sub_cancel]
  rw [undone, left]
  refine ⟨_, rfl, ?_⟩
  dsimp only
  rw [unlist, if_pos found]
  exact ⟨erased, counted, rfl, rfl, rfl⟩

/-- Conversely, what is taken out without a trace did not share its id, -/
theorem Entered.unlisted_of_same (fresh : img ∉ tables.imagesList)
    (undone : after.doDeleteImageInfo answers id = some deleted) (same : tables.Same deleted.2) :
    ∀ other ∈ tables.imagesList, (tables.object other).id ≠ id := by
  intro other member shares
  rw [entered.doDeleteImageInfo, map_eq_some_iff] at undone
  obtain ⟨left, leaves, rfl⟩ := undone
  have kept : left.imagesList = after.imagesList ∧ left.object = after.object := by
    rw [leaveDigest] at leaves
    split at leaves
    · obtain ⟨bydigest, -, rfl⟩ := map_eq_some_iff.mp leaves
      exact ⟨rfl, rfl⟩
    · cases leaves
  have here : (left.object other).id = id := by
    rw [kept.2, entered.object, update_of_ne (ne_of_mem_of_not_mem member fresh), shares]
  have list := same.list
  have passes : decide ((left.object other).id = id) = true := by simpa using here
  rw [unlist, if_pos ⟨other, by simp [kept.1, entered.list, member], here⟩] at list
  rw [kept.1, entered.list,
    @eraseP_append_left _ (fun other => decide ((left.object other).id = id))
    _ passes _ _ member] at list
  exact fresh (list ▸ by simp)

/-- and its digest led to listed images. -/
theorem Entered.usable_of_same (unfiled : img ∉ tables.filed searchableDigest)
    (undone : after.doDeleteImageInfo answers id = some deleted) (same : tables.Same deleted.2) :
    tables.DigestUsable searchableDigest := by
  intro images found
  rw [entered.doDeleteImageInfo, map_eq_some_iff] at undone
  obtain ⟨left, leaves, rfl⟩ := undone
  rw [leaveDigest] at leaves
  split at leaves
  next live =>
    obtain ⟨bydigest, outOfDigest, rfl⟩ := map_eq_some_iff.mp leaves
    have unchanged : bydigest = tables.bydigest := by
      have digests := same.digests
      rw [unlist] at digests
      split at digests <;> exact digests
    refine ⟨fun empty => ?_, fun other member => ?_⟩
    · rw [unchanged] at outOfDigest
      exact removeImageFromAnyDigest_append_ne entered.digests found empty outOfDigest
    · cases searchableDigest with
      | none => cases found
      | some digest =>
        have filed := (search_appendImageAccordingToDigest entered.digests).trans (if_pos rfl)
        have listed := live other <| by
          rw [ImageTables.filed, bind_some, filed, show tables.bydigest.search digest =
            some images from found]
          exact mem_append_left _ member
        rw [entered.list, mem_append, mem_singleton] at listed
        refine listed.resolve_right ?_
        rintro rfl
        refine unfiled ?_
        rw [ImageTables.filed, found]
        exact member
  · cases leaves

end

theorem appendImageCall_true_iff :
    tables.appendImageCall id searchableDigest img = (true, after) ↔
      tables.imageStoreAppendImage id searchableDigest img = some after := by
  rw [appendImageCall, imageStoreAppendImage]
  cases tables.byid.insert id img with
  | none => simp
  | some byid =>
    cases appendImageAccordingToDigest tables.bydigest searchableDigest img with
    | none => simp
    | some bydigest =>
      cases entered : tables.byname.insertEach (tables.object img).names img with
      | mk all byname =>
        cases all with
        | true =>
          rw [insertEach_eq_true_iff.mp entered]
          simp
        | false =>
          cases inserted : tables.byname.insertAll (tables.object img).names img with
          | none => simp
          | some byname =>
            rw [insertEach_eq_true_iff.mpr inserted] at entered
            cases entered

end Create

/-- The calls that succeed are those of `imageStoreCreate`. -/
theorem imageStoreCreateCall_true_iff {answers : ImageCallAnswers} {tables after : ImageTables}
    {img : Address} {id : Option Text} {names : List Text} {searchableDigest : Option Text}
    (fresh : img ∉ tables.imagesList) :
    imageStoreCreateCall answers tables img id names searchableDigest = some (true, after) ↔
      answers.locksStore = true ∧
        tables.imageStoreCreate answers.toImageAnswers img id names searchableDigest =
          some after := by
  rw [imageStoreCreateCall, imageStoreCreate, bind_eq_bind]
  cases answers.locksStore with
  | false => simp
  | true =>
    cases id.or (tables.generateRandomImageId (answers.randomIds.take maxRetryCnt)) with
    | none => simp
    | some dstId =>
      rw [bind_some]
      dsimp only
      by_cases known : tables.byid.search dstId ≠ none
      · simp [known]
      rw [if_neg known, if_neg (not_or.mpr ⟨fresh, known⟩)]
      cases answers.getsTime with
      | false => simp
      | true =>
        rw [if_pos rfl, enterImage, Bool.true_and, ite_none_right_eq_some, and_iff_right rfl]
        change _ ↔ _ ∧ (tables.place img (createdImage dstId searchableDigest
          names)).imageStoreAppendImage dstId searchableDigest img = _
        rw [← appendImageCall_true_iff]
        cases (tables.place img (createdImage dstId searchableDigest names)).appendImageCall dstId
          searchableDigest img with
        | mk done entered =>
          cases done with
          | false => simp
          | true => cases answers.savesImage <;> simp

section Obliging

variable {tables : ImageTables} {id searchableDigest : Option Text} {random : Text}
  {names : List Text} {img : Address}

theorem imageStoreCreateCall_obliging (new : tables.byid.search random = none)
    (unknown : tables.byid.search (id.getD random) = none) (saves : Bool) (img : Address)
    (names : List Text) (searchableDigest : Option Text) :
    imageStoreCreateCall (.obliging random saves) tables img id names searchableDigest =
      tables.enterImage (ImageCallAnswers.obliging random saves).toImageAnswers img
        (id.getD random) names
        searchableDigest := by
  have chosen : id.or (tables.generateRandomImageId
      ((ImageCallAnswers.obliging random saves).randomIds.take maxRetryCnt)) =
        some (id.getD random) := by
    cases id with
    | some id => rfl
    | none => exact if_pos new
  rw [imageStoreCreateCall, chosen]
  exact if_neg (not_not.mpr unknown)

section

variable (atomically : tables.CreatesAtomically id names searchableDigest)
  (fresh : img ∉ tables.imagesList) (new : tables.byid.search random = none)
  (unknown : tables.byid.search (id.getD random) = none)
include atomically fresh new unknown

/-- If nothing is changed by a creation that cannot be saved, the image has been entered and taken
out again. -/
theorem CreatesAtomically.undone (free : ∀ name ∈ names, tables.byname.search name = none) :
    ∃ after deleted,
      Entered tables after img (createdImage (id.getD random) searchableDigest names) ∧
      after.doDeleteImageInfo (ImageCallAnswers.obliging random false).toImageAnswers
        (id.getD random) =
        some deleted ∧ tables.Same deleted.2 := by
  obtain ⟨done, result, called, same⟩ := atomically (.obliging random false) img fresh
  obtain ⟨after, entered, appended⟩ := @appendImageCall_free _ img _ _ searchableDigest unknown free
  rw [imageStoreCreateCall_obliging new unknown, enterImage, appended] at called
  obtain ⟨deleted, undone, outcome⟩ := map_eq_some_iff.mp called
  cases outcome
  exact ⟨after, deleted, entered, undone, same rfl⟩

/-- A name in use is enough to change the tables. -/
theorem CreatesAtomically.free : ∀ name ∈ names, tables.byname.search name = none := by
  by_contra claimed
  obtain ⟨done, result, called, same⟩ := atomically (.obliging random true) img fresh
  obtain ⟨after, refused, counted⟩ :=
    @appendImageCall_claimed _ img (id.getD random) _ searchableDigest claimed
  rw [imageStoreCreateCall_obliging new unknown, enterImage, refused] at called
  cases called
  have length := (same rfl).length
  omega

end

end Obliging

/-- For all tables and arguments, a failing `image_store_create` leaves the list, its length and
the three maps as they were exactly when the id is known, or the names are not in use, the digest
leads to listed images and no image is listed that is not known by that id. -/
theorem imageStoreCreateCall_atomic_iff (tables : ImageTables) (id : Option Text)
    (names : List Text) (searchableDigest : Option Text) :
    tables.CreatesAtomically id names searchableDigest ↔
      tables.Unclaimed id names searchableDigest := by
  constructor
  · intro atomically
    refine or_iff_not_imp_left.mpr fun tried => ?_
    have unknown : ∀ {random}, tables.byid.search random = none →
        tables.byid.search (id.getD random) = none := by
      intro random new
      cases id with
      | none => exact new
      | some id => exact by_contra fun known => tried ⟨id, rfl, known⟩
    obtain ⟨random, new⟩ := tables.byid.exists_absent
    obtain ⟨img, unused⟩ := Infinite.exists_notMem_finset
      (tables.imagesList ++ tables.filed searchableDigest).toFinset
    rw [List.mem_toFinset, mem_append, not_or] at unused
    obtain ⟨fresh, unfiled⟩ := unused
    have free := atomically.free fresh new (unknown new)
    obtain ⟨after, deleted, entered, undone, same⟩ :=
      atomically.undone fresh new (unknown new) free
    refine ⟨free, entered.usable_of_same unfiled undone same, fun other listed chosen unseen => ?_⟩
    obtain ⟨after, deleted, entered, undone, same⟩ :=
      atomically.undone fresh unseen (unknown unseen) free
    exact entered.unlisted_of_same fresh undone same other listed chosen.symm
  · intro unclaimed answers img fresh
    rw [imageStoreCreateCall]
    have unchanged : tables.Same tables := ⟨rfl, rfl, rfl, rfl, rfl⟩
    split
    · split
      · exact ⟨_, _, rfl, fun _ => unchanged⟩
      next dstId chosen =>
        split
        · exact ⟨_, _, rfl, fun _ => unchanged⟩
        rename_i unknown
        rw [not_not] at unknown
        split
        · obtain ⟨free, usable, seen⟩ := unclaimed.resolve_left <| by
            rintro ⟨known, rfl, present⟩
            cases chosen
            exact present unknown
          have unlisted : ∀ other ∈ tables.imagesList, (tables.object other).id ≠ dstId := by
            rintro other listed rfl
            refine seen other listed ?_ unknown
            cases id with
            | none => rfl
            | some id =>
              cases chosen
              rfl
          obtain ⟨after, entered, appended⟩ :=
            @appendImageCall_free _ img _ _ searchableDigest unknown free
          obtain ⟨deleted, undone, same⟩ := @Entered.same_of_usable _ _ _ _ _ _ entered
            answers.toImageAnswers fresh usable unlisted
          rw [enterImage, appended]
          dsimp only
          split
          · exact ⟨_, _, rfl, by simp⟩
          rw [undone]
          exact ⟨_, _, rfl, fun _ => same⟩
        · exact ⟨_, _, rfl, fun _ => unchanged⟩
    · exact ⟨_, _, rfl, fun _ => unchanged⟩

end ImageTables

/-! A store with one image `a` of the name `n`, and the creation of an image `b` of that name. -/

def firstImage : ImageAnswers × ImageCall := (.willing, .create 0 (some ['a']) [['n']] none)

def storeOfFirst : ImageTables where
  object := update ImageTables.empty.object 0 (createdImage ['a'] none [['n']])
  imagesList := [0]
  imagesListLen := 1
  byid := Index.empty.replace ['a'] 0
  byname := Index.empty.replace ['n'] 0
  bydigest := .empty

def refusedImage : Option (Bool × ImageTables) :=
  storeOfFirst.imageStoreCreateCall (.obliging ['r'] true) 1 (some ['b']) [['n']] (some ['d'])

/-- `b` is refused and freed, yet it stays in `byid` and in `bydigest`, and the list of one is
counted as two. -/
theorem imageStoreCreateCall_nameInUse :
    imageCalls.Trace [firstImage] storeOfFirst ∧
      refusedImage.map (fun result => (result.1, result.2.imagesList, result.2.imagesListLen)) =
        some (false, [0], 2) ∧
      refusedImage.map (fun result => (result.2.byid.search ['b'],
        (result.2.bydigest.search ['d']).map DigestImages.imagesList)) = some (some 1, some [1]) ∧
      ¬ storeOfFirst.CreatesAtomically (some ['b']) [['n']] (some ['d']) := by
  have outcome : refusedImage.map (fun result => (result.1, result.2.imagesList,
      result.2.imagesListLen)) = some (false, [0], 2) := by decide +kernel
  refine ⟨Machine.Trace.step .start rfl, outcome, by decide +kernel, fun atomically => ?_⟩
  obtain ⟨done, after, called, unchanged⟩ := atomically (.obliging ['r'] true) 1 (by decide)
  have refused : refusedImage = some (done, after) := called
  rw [refused, map_some, some.injEq, Prod.mk.injEq, Prod.mk.injEq] at outcome
  obtain ⟨failed, -, counted⟩ := outcome
  exact absurd (counted.symm.trans (unchanged failed).length) (by decide)

/-! ## Stores that have been reached

In a store reached by successful calls no digest has an empty entry, so only the names matter. -/

/-- No entry is empty, and each is as long as it says. -/
def Filled (bydigest : Index Text DigestImages) : Prop :=
  ∀ digest images, bydigest.search digest = some images →
    images.imagesListLen = images.imagesList.length ∧ images.imagesListLen ≠ 0

section Filled

variable {object : Address → ImageRecord} {img : Address} {digest fullDigest : Text}
  {anyDigest : Option Text} {images : DigestImages} {bydigest after : Index Text DigestImages}

theorem DigestImages.length_sliceWithoutValue
    (counted : images.imagesListLen = images.imagesList.length) :
    (images.sliceWithoutValue object img).imagesListLen =
      (images.sliceWithoutValue object img).imagesList.length := by
  have parts := @List.length_eq_countP_add_countP _
    (fun other => (object other).id == (object img).id) images.imagesList
  rw [sliceWithoutValue, ← List.countP_eq_length_filter, counted]
  simp only [bne, decide_not, Bool.decide_eq_true] at parts ⊢
  omega

theorem DigestImages.length_appendImage
    (counted : images.imagesListLen = images.imagesList.length) :
    (images.appendImage img).imagesListLen = (images.appendImage img).imagesList.length ∧
      (images.appendImage img).imagesListLen ≠ 0 := by
  refine ⟨?_, Nat.succ_ne_zero _⟩
  rw [appendImage, List.length_append, counted]
  rfl

section

variable (filled : Filled bydigest)
include filled

theorem Filled.replace
    (value : images.imagesListLen = images.imagesList.length ∧ images.imagesListLen ≠ 0) :
    Filled (bydigest.replace digest images) := by
  intro key found here
  rw [Index.search_replace] at here
  split at here
  · exact Option.some.inj here ▸ value
  · exact filled key found here

theorem Filled.removeImageFromDigestIndex
    (removed : removeImageFromDigestIndex object img digest bydigest = some after) :
    Filled after := by
  unfold Storage.removeImageFromDigestIndex at removed
  split at removed
  · cases removed
    exact filled
  · next images present =>
      dsimp only at removed
      split at removed
      · intro key found here
        rw [Index.search_remove removed] at here
        split at here
        · cases here
        · exact filled key found here
      · next some =>
          cases removed
          exact filled.replace
            ⟨DigestImages.length_sliceWithoutValue (filled digest images present).1, some⟩

theorem Filled.removeImageFromAnyDigest
    (removed : removeImageFromAnyDigest object img anyDigest bydigest = some after) :
    Filled after := by
  cases anyDigest with
  | none =>
    cases removed
    exact filled
  | some digest => exact filled.removeImageFromDigestIndex removed

theorem Filled.append (appended : appendImageAccordingToDigest bydigest anyDigest img =
  some after) :
    Filled after := by
  unfold appendImageAccordingToDigest at appended
  split at appended
  · cases appended
    exact filled
  · next digest =>
      split at appended
      · next images present =>
          cases appended
          exact filled.replace (DigestImages.length_appendImage (filled digest images present).1)
      · intro key found here
        rw [Index.search_insert appended] at here
        split at here
        · cases here
          exact DigestImages.length_appendImage rfl
        · exact filled key found here

theorem Filled.dropOldDigest
    (dropped : ImageTables.dropOldDigest object img anyDigest fullDigest bydigest = some after) :
    Filled after := by
  unfold ImageTables.dropOldDigest at dropped
  split at dropped
  · cases dropped
    exact filled
  · split at dropped
    · cases dropped
      exact filled
    · split at dropped
      · cases dropped
      · split at dropped
        · cases dropped
          exact filled
        · exact filled.removeImageFromDigestIndex dropped

theorem Filled.enterNewDigest :
    Filled (ImageTables.enterNewDigest object img fullDigest bydigest) := by
  unfold ImageTables.enterNewDigest
  split
  · exact filled
  · next images present =>
      exact filled.replace (DigestImages.length_appendImage
        (DigestImages.length_sliceWithoutValue (filled fullDigest images present).1))

end

end Filled

namespace ImageTables

variable {tables after : ImageTables} {answers : ImageAnswers}

theorem filled_of_unlist {id : Text} (filled : Filled tables.bydigest) :
    Filled (tables.unlist id).bydigest := by
  rw [unlist]
  split <;> exact filled

theorem bydigest_rename {saves : Bool} {img : Address} {names : List Text}
    (renamed : tables.rename saves img names = some after) : after.bydigest = tables.bydigest := by
  simp only [rename, Option.bind_eq_bind, Option.bind_eq_some_iff] at renamed
  obtain ⟨_, _, _, _, built⟩ := renamed
  cases built
  rfl

theorem filled_call {call : ImageCall} (filled : Filled tables.bydigest)
    (called : tables.call answers call = some after) : Filled after.bydigest := by
  cases call with
  | create img id names searchableDigest =>
    simp only [ImageTables.call, imageStoreCreate, imageStoreAppendImage, Option.bind_eq_bind,
      Option.bind_eq_some_iff, Option.ite_none_left_eq_some, Option.ite_none_right_eq_some]
      at called
    obtain ⟨dstId, -, -, -, byid, -, bydigest, digests, byname, -, built⟩ := called
    cases built
    exact filled.append digests
  | delete id =>
    rw [ImageTables.call, imageStoreDelete] at called
    split at called
    · cases called
      exact filled
    · simp only [removeImageFromMemory, Option.bind_eq_bind, Option.bind_eq_some_iff,
        Option.ite_none_right_eq_some] at called
      obtain ⟨-, img, -, byid, -, byname, -, manifest, first, bydigest, second, built⟩ := called
      cases built
      exact filled_of_unlist
        ((filled.removeImageFromAnyDigest first).removeImageFromAnyDigest second)
  | addName id name =>
    obtain ⟨img, -, renamed⟩ := addName_spec called
    rwa [bydigest_rename renamed]
  | setNames id names =>
    obtain ⟨img, -, renamed⟩ := setNames_spec called
    rwa [bydigest_rename renamed]
  | setBigData id key data =>
    simp only [ImageTables.call, imageStoreSetBigData, updateImageWithBigData, Option.bind_eq_bind,
      Option.bind_eq_some_iff, Option.ite_none_right_eq_some,
      Option.ite_none_left_eq_some] at called
    obtain ⟨-, img, -, -, updated, big, -, saved⟩ := called
    cases saved
    split at big
    · obtain ⟨bydigest, dropped, built⟩ := Option.bind_eq_some_iff.mp big
      cases built
      exact (filled.dropOldDigest dropped).enterNewDigest
    · cases big
      exact filled

theorem filled_of_imageCalls {calls : List (ImageAnswers × ImageCall)}
    (trace : imageCalls.Trace calls tables) : Filled tables.bydigest := by
  induction trace with
  | start => exact fun _ _ => nofun
  | step _ called ih => exact filled_call ih called

/-- After every sequence of successful calls, names that are not in use are enough. -/
theorem unclaimed_of_imageCalls {calls : List (ImageAnswers × ImageCall)}
    (trace : imageCalls.Trace calls tables) {names : List Text}
    (free : ∀ name ∈ names, tables.byname.search name = none) (id searchableDigest : Option Text) :
    tables.Unclaimed id names searchableDigest := by
  have filled := filled_of_imageCalls trace
  have coherent := coherent_of_imageCalls trace
  refine .inr ⟨free, fun images found => ?_, fun img listed _ => ?_⟩
  · obtain ⟨digest, -, here⟩ := Option.bind_eq_some_iff.mp found
    exact ⟨(filled digest images here).2, coherent.digests digest images here⟩
  · rw [(coherent.ids _ img).mpr ⟨listed, rfl⟩]
    exact Option.some_ne_none _

end ImageTables

end Isulad.Storage
