import Mathlib.Data.Char
import Mathlib.Data.List.Lex
import Mathlib.Data.List.Dedup
import Mathlib.Data.List.Induction
import Mathlib.Data.List.Sort
import Mathlib.Data.List.TakeDrop
import Isulad.Storage.LayerStore

/-!
# The image store

`storage/image_store/image_store.c` in memory, as far as deletion reads it: the list of
images with its indexes by id and by name, and the summaries that
`image_store_get_all_images` hands out. An image is listed only when its summary can be
made, and the summary parses the user of the image's config.
-/

namespace Isulad.Storage

open Option List Isulad.Std

/-- `image_t`: the `storage_image` and the user of its `oci_image_spec`. -/
structure Image where
  id : Text
  names : List Text
  /-- `simage->layer`. -/
  topLayer : Text
  /-- `spec->config->user`, absent when the spec or its config is. -/
  user : Option Text
  deriving DecidableEq, Repr

/-- `imagetool_image_summary`, without what deletion does not read. -/
structure ImageSummary where
  id : Text
  topLayer : Text
  /-- The user part of the config's user, stored as `uid` or `username`. -/
  user : Option Text
  deriving DecidableEq, Repr

/-- `g_image_store`: `byid` admits one image of an id. -/
abbrev ImageStore := Keyed Image.id

/-- `util_string_array_unique`: the keys of a map, in their order. -/
def utilStringArrayUnique (elements : List Text) : List Text :=
  elements.dedup.insertionSort (· ≤ ·)

theorem nodup_utilStringArrayUnique (elements : List Text) :
    (utilStringArrayUnique elements).Nodup :=
  (perm_insertionSort _ _).nodup_iff.mpr elements.nodup_dedup

theorem mem_utilStringArrayUnique {elements : List Text} {element : Text} :
    element ∈ utilStringArrayUnique elements ↔ element ∈ elements := by
  rw [utilStringArrayUnique, mem_insertionSort, mem_dedup]

/-- A string, unless it is empty. -/
def unlessEmpty (text : Text) : Option Text := if text.isEmpty then none else some text

/-- `util_parse_user_group`: the user before the first colon and the group after it. -/
def utilParseUserGroup (username : Text) : Option Text × Option Text :=
  match username.span (· != ':') with
  | (user, []) => (unlessEmpty user, none)
  | (user, _ :: group) => (unlessEmpty user, unlessEmpty group)

/-- `pack_user_info_for_image_summary`; `none` is the return value -1. -/
def packUserInfoForImageSummary (user : Option Text) : Option (Option Text) :=
  match user.bind unlessEmpty with
  | none => some none
  | some username =>
    match (utilParseUserGroup username).1 with
    | none => none
    | some parsed => some (some parsed)

/-- `get_image_summary`. -/
def getImageSummary (image : Image) : Option ImageSummary :=
  (packUserInfoForImageSummary image.user).map fun user =>
    { id := image.id, topLayer := image.topLayer, user := user }

theorem utilParseUserGroup_user_eq_none_iff (first : Char) (rest : Text) :
    (utilParseUserGroup (first :: rest)).1 = none ↔ first = ':' := by
  have parsed : (utilParseUserGroup (first :: rest)).1 =
      unlessEmpty ((first :: rest).takeWhile (· != ':')) := by
    rw [utilParseUserGroup, span_eq_takeWhile_dropWhile]
    split <;> next shape => rw [(Prod.mk.inj shape).1]
  rw [parsed, takeWhile_cons]
  by_cases colon : first = ':' <;> simp [unlessEmpty, colon]

variable {image : Image}

theorem getImageSummary_eq_none_iff :
    getImageSummary image = none ↔ ∃ group, image.user = some (':' :: group) := by
  rw [getImageSummary, map_eq_none_iff, packUserInfoForImageSummary]
  rcases image.user with _ | _ | ⟨first, rest⟩
  · simp
  · simp [unlessEmpty]
  have user := utilParseUserGroup_user_eq_none_iff first rest
  have named : (some (first :: rest)).bind unlessEmpty = some (first :: rest) := rfl
  rw [named]
  cases parsed : (utilParseUserGroup (first :: rest)).1 with
  | none => simpa [parsed] using user
  | some name => simpa [parsed] using user

theorem getImageSummary_eq_some {summary : ImageSummary}
    (made : getImageSummary image = some summary) :
    summary.id = image.id ∧ summary.topLayer = image.topLayer := by
  obtain ⟨user, _, rfl⟩ := map_eq_some_iff.mp made
  exact ⟨rfl, rfl⟩

namespace ImageStore

variable {store : ImageStore} {image : Image}

/-- `get_image_for_store_by_prefix`: the one image whose id starts with `id`. -/
def getImageForStoreByPrefix (store : ImageStore) (id : Text) : Option Image :=
  match store.entries.filter fun image => id.isPrefixOf image.id with
  | [image] => some image
  | _ => none

/-- `lookup`: by id, by name, by the start of the id. -/
def lookup (store : ImageStore) (id : Text) : Option Image :=
  ((store.find id).or (store.entries.find? fun image => image.names.contains id)).or
    (getImageForStoreByPrefix store id)

theorem mem_of_lookup {id : Text} (found : lookup store id = some image) :
    image ∈ store.entries := by
  rw [lookup, or_eq_some_iff, or_eq_some_iff] at found
  rcases found with (byId | ⟨-, byName⟩) | ⟨-, byPrefix⟩
  · exact (Keyed.find_eq_some_iff.mp byId).1
  · exact mem_of_find?_eq_some byName
  unfold getImageForStoreByPrefix at byPrefix
  split at byPrefix
  next only =>
    cases byPrefix
    exact (mem_filter.mp (only ▸ mem_singleton_self image)).1
  · cases byPrefix

theorem lookup_of_mem (member : image ∈ store.entries) : lookup store image.id = some image := by
  rw [lookup, Keyed.find_of_mem member, some_or, some_or]

section

variable (store : ImageStore)

/-- `image_store_exists`. -/
def imageStoreExists (id : Text) : Bool := (lookup store id).isSome

/-- `image_store_lookup`: the full id. -/
def imageStoreLookup (id : Text) : Option Text := (lookup store id).map Image.id

/-- `image_store_get_image_summary`. -/
def imageStoreGetImageSummary (id : Text) : Option ImageSummary :=
  (lookup store id).bind getImageSummary

/-- `image_store_get_all_images`: images without a summary are passed over. -/
def imageStoreGetAllImages : List ImageSummary :=
  store.entries.filterMap getImageSummary

/-- `remove_image_from_memory`. -/
def removeImageFromMemory (id : Text) : ImageStore := store.remove id

end

/-- `image_store_delete` with `do_delete_image_info`. -/
def imageStoreDelete (removal : Removal) (store : ImageStore) (id : Text) : Bool × ImageStore :=
  match lookup store id with
  | none => (true, store)
  | some image => (removal.removeImageDir image.id, removeImageFromMemory store image.id)

/-- `image_store_create` of an image without names; `none` is a failure, after which the
store is as before. -/
def imageStoreCreate (saves : Bool) (staleUser : Option Text) (store : ImageStore)
    (id layer : Text) :
    Option ImageStore :=
  match absent : store.find id with
  | some _ => none
  | none =>
    if saves then
      some (store.insert { id := id, names := [], topLayer := layer, user := staleUser } absent)
    else none

section

variable (store : ImageStore)

/-- `image_store_top_layer`. -/
def imageStoreTopLayer (id : Text) : Option Text :=
  (lookup store id).map Image.topLayer

/-- `try_fill_image_spec`, where there is no spec yet. -/
def tryFillImageSpec (id : Text) (user : Option Text) : ImageStore :=
  match lookup store id with
  | none => store
  | some image =>
    store.modify image.id (fun image => { image with user := image.user.or user }) fun _ => rfl

/-- `remove_name`. -/
def removeName (id name : Text) : ImageStore :=
  store.modify id (fun image => { image with names := image.names.filter (· ≠ name) }) fun _ => rfl

/-- The new names of the image in `image_store_add_name`. -/
def appendName (id name : Text) : ImageStore :=
  store.modify id (fun image => { image with names := (image.names ++ [name]).eraseDups })
    fun _ => rfl

/-- The image that `byname` holds for a name, when the names of image `id` are taken off it. -/
def otherImage (id name : Text) : Option Image :=
  store.entries.find? fun image => image.id != id && image.names.contains name

end

/-- `image_store_add_name`: the name is taken from the image that has it. The names in memory
are changed before the image is saved. -/
def imageStoreAddName (savesOther saves : Bool) (store : ImageStore) (id name : Text) :
    Bool × ImageStore :=
  match lookup store id with
  | none => (false, store)
  | some image =>
    match otherImage store image.id name with
    | none => (saves, appendName store image.id name)
    | some other =>
      if savesOther then (saves, appendName (removeName store other.id name) image.id name)
      else (false, removeName store other.id name)

end ImageStore

/-- `MAX_IMAGE_NAME_LENGTH`. -/
def maxImageNameLength : Nat := 72

/-- `MAX_IMAGE_DIGEST_LENGTH`. -/
def maxImageDigestLength : Nat := 64

/-- `DIGEST_PREFIX`. -/
def digestPrefix : Text := "@sha256:".toList

/-- `prefix` in the turn of a name. It keeps its value for a name of `MAX_IMAGE_NAME_LENGTH`
characters or less. -/
def nextLead (lead : Option Text) (name : Text) : Option Text :=
  if maxImageNameLength < name.length then
    some ((name.drop (name.length - maxImageNameLength)).take
      (maxImageNameLength - maxImageDigestLength))
  else lead

/-- One turn of the loop of `resort_image_names`, with `prefix`, the tags and the digests. -/
def sortName (sorted : Option Text × List Text × List Text) (name : Text) :
    Option Text × List Text × List Text :=
  (nextLead sorted.1 name,
    if nextLead sorted.1 name = some digestPrefix then (sorted.2.1, sorted.2.2 ++ [name])
    else (sorted.2.1 ++ [name], sorted.2.2))

/-- `resort_image_names`: the first name, the tags and the digests. -/
def resortImageNames (names : List Text) : Option Text × List Text × List Text :=
  let (_, tags, digests) := names.foldl sortName (none, [], [])
  (tags.head?.or digests.head?, tags, digests)

/-- A name that ends in a digest. -/
def IsDigestReference (name : Text) : Prop :=
  ∃ repository digest, name = repository ++ digestPrefix ++ digest ∧
    digest.length = maxImageDigestLength

theorem isDigestReference_iff {name : Text} : IsDigestReference name ↔
    maxImageNameLength ≤ name.length ∧ (name.drop (name.length - maxImageNameLength)).take
      (maxImageNameLength - maxImageDigestLength) = digestPrefix := by
  have size : digestPrefix.length = maxImageNameLength - maxImageDigestLength := rfl
  constructor
  · rintro ⟨repository, digest, rfl, length⟩
    simp [length, size, maxImageNameLength, maxImageDigestLength]
  · rintro ⟨long, lead⟩
    refine ⟨name.take (name.length - maxImageNameLength),
      (name.drop (name.length - maxImageNameLength)).drop
        (maxImageNameLength - maxImageDigestLength), ?_, ?_⟩
    · rw [← lead, append_assoc, take_append_drop, take_append_drop]
    · simp [maxImageNameLength, maxImageDigestLength] at long ⊢
      omega

instance : DecidablePred IsDigestReference := fun _ => decidable_of_iff' _ isDigestReference_iff

/-- The last name that is longer than `MAX_IMAGE_NAME_LENGTH`. -/
def lastLong (names : List Text) : Option Text :=
  (names.filter (maxImageNameLength < ·.length)).getLast?

theorem snoc_eq_filter_iff {α : Type} {p : α → Prop} [DecidablePred p] {front yes no : List α}
    {last : α} {chosen : Prop} [Decidable chosen] :
    (if chosen then (no, yes ++ [last]) else (no ++ [last], yes)) =
        ((front ++ [last]).filter (¬ p ·), (front ++ [last]).filter (p ·)) ↔
      (p last ↔ chosen) ∧ (no, yes) = (front.filter (¬ p ·), front.filter (p ·)) := by
  by_cases holds : p last <;> by_cases chosen : chosen
  · simp [holds, chosen]
  · refine iff_of_false (fun same => ?_) (by simp [holds, chosen])
    rw [if_neg chosen] at same
    have member : last ∈ (front ++ [last]).filter (¬ p ·) := (Prod.mk.inj same).1 ▸ by simp
    exact of_decide_eq_true (mem_filter.mp member).2 holds
  · refine iff_of_false (fun same => ?_) (by simp [holds, chosen])
    rw [if_pos chosen] at same
    have member : last ∈ (front ++ [last]).filter (p ·) := (Prod.mk.inj same).2 ▸ by simp
    exact holds (of_decide_eq_true (mem_filter.mp member).2)
  · simp [holds, chosen]

/-- How far the loop is right, and what `prefix` is then. -/
theorem foldl_sortName (names : List Text) :
    let sorted := names.foldl sortName (none, [], [])
    (sorted.1 = some digestPrefix ↔ ∃ long ∈ lastLong names, IsDigestReference long) ∧
    (sorted.2 = (names.filter (¬ IsDigestReference ·), names.filter (IsDigestReference ·)) ↔
      ∀ front name, front ++ [name] <+: names → name.length ≤ maxImageNameLength →
        (IsDigestReference name ↔ ∃ long ∈ lastLong front, IsDigestReference long)) := by
  induction names using List.reverseRecOn with
  | nil => simp [lastLong]
  | append_singleton names name ih =>
    obtain ⟨leads, sorts⟩ := ih
    have last : lastLong (names ++ [name]) =
        if maxImageNameLength < name.length then some name else lastLong names := by
      by_cases long : maxImageNameLength < name.length <;> simp [lastLong, long]
    rw [foldl_append, foldl_cons, foldl_nil]
    generalize names.foldl sortName (none, [], []) = sorted at *
    have next : nextLead sorted.1 name = some digestPrefix ↔
        ∃ long ∈ lastLong (names ++ [name]), IsDigestReference long := by
      rw [nextLead, last]
      by_cases long : maxImageNameLength < name.length
      · simp [long, long.le, isDigestReference_iff]
      · simpa [long] using leads
    refine ⟨next, ?_⟩
    rw [sortName, snoc_eq_filter_iff, next, sorts]
    constructor
    · rintro ⟨here, sorts⟩ front other within short
      rcases prefix_concat_iff.mp within with whole | before
      · obtain ⟨rfl, same⟩ := append_inj' whole rfl
        cases same
        rwa [last, if_neg short.not_gt] at here
      · exact sorts front other before short
    · intro all
      refine ⟨?_, fun front other within => all front other (within.trans (prefix_append _ _))⟩
      rw [last]
      split
      · simp
      next short => exact all names name prefix_rfl (not_lt.mp short)

theorem resortImageNames_iff (names : List Text) :
    (resortImageNames names).2 = (names.filter (¬ IsDigestReference ·),
        names.filter (IsDigestReference ·)) ↔
      ∀ front name, front ++ [name] <+: names → name.length ≤ maxImageNameLength →
        (IsDigestReference name ↔ ∃ long ∈ lastLong front, IsDigestReference long) :=
  (foldl_sortName names).2

/-- A digest reference and a tag behind it. -/
theorem resortImageNames_fails_tag :
    let names := ["r@sha256:".toList ++ replicate 64 'a', "r:1".toList]
    (resortImageNames names).2 = ([], names) ∧
      (resortImageNames names).2 ≠ (names.filter (¬ IsDigestReference ·),
        names.filter (IsDigestReference ·)) := by
  decide +kernel

end Isulad.Storage
