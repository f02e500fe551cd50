import Isulad.Storage.ImageAtomic

/-!
# Loading the names of the images

`image_store_load` reads the record in every image directory, in the order in which the directories
are listed, strips the default host from its names and enters it. A name that an image loaded before
has is taken from that image. A directory with an unusual id or manifest is skipped, and an image
without a config is deleted again. The conversion of an image with a manifest of the first schema is
a parameter, and the digests, which are entered after the names, are left out.
-/

namespace Isulad.Storage

open List Function Isulad.Std

/-- The records on disk, each in the directory of its id. -/
abbrev SavedImages := Keyed ImageRecord.id

/-- `save_image`. -/
def saveImage (disk : SavedImages) (record : ImageRecord) : SavedImages :=
  (disk.remove record.id).insert record (Keyed.find_remove.trans (if_pos rfl))

variable {disk : SavedImages} (saves : Text → Bool)

theorem find_saveImage {record : ImageRecord} {id : Text} :
    (saveImage disk record).find id = if id = record.id then some record else disk.find id := by
  rw [saveImage, Keyed.find_insert, Keyed.find_remove]
  split <;> rfl

/-- `HOSTNAME_TO_STRIP`. -/
def hostnameToStrip : Text := "docker.io/".toList

/-- `REPO_PREFIX_TO_STRIP`. -/
def repoPrefixToStrip : Text := "library/".toList

/-- The text without a lead. -/
def dropLead (lead name : Text) : Text :=
  if lead.isPrefixOf name then name.drop lead.length else name

/-- `oci_strip_dockerio_prefix`. -/
def ociStripDockerioPrefix (name : Text) : Text :=
  dropLead repoPrefixToStrip (dropLead hostnameToStrip name)

/-- The names that `strip_default_hostname` changes. -/
def hasDefaultHost (name : Text) : Bool :=
  hostnameToStrip.isPrefixOf name || repoPrefixToStrip.isPrefixOf name

/-- What `strip_default_hostname` makes of a name. -/
def stripName (name : Text) : Text :=
  if hasDefaultHost name then ociStripDockerioPrefix name else name

/-- `strip_default_hostname` before it saves. -/
def stripDefaultHostname (im : ImageRecord) : ImageRecord :=
  { im with names := im.names.map stripName }

/-- The loop of `load_image_to_store_field` over the names. It goes by the index into the image's
own names, which shrink when the name is its own; the name is read once more after that, and there
is none any more when it was the last. -/
def loadNames (img : Address) : Nat → Nat → (Address → ImageRecord) → Index Text Address → Bool →
    Option ((Address → ImageRecord) × Index Text Address × Bool)
  | 0, _, object, byname, shouldSave => some (object, byname, shouldSave)
  | left + 1, i, object, byname, shouldSave =>
    match (object img).names[i]? with
    | none => some (object, byname, shouldSave)
    | some name =>
      match byname.search name with
      | none => loadNames img left (i + 1) object (byname.replace name img) shouldSave
      | some conflict =>
        let object := update object conflict ((object conflict).removeName name)
        (object img).names[i]?.bind fun name =>
          loadNames img left (i + 1) object (byname.replace name img) true

/-- `do_append_image` with `load_image_to_store_field`; `saves` is what `save_image` answers. -/
def doAppendImage (tables : ImageTables) (disk : SavedImages) (im : ImageRecord) :
    Option (ImageTables × SavedImages) :=
  let img := tables.imagesList.length
  (loadNames img im.names.length 0 (update tables.object img im) tables.byname false).map
    fun (object, byname, shouldSave) =>
      ({ tables with
          object, byname
          imagesList := tables.imagesList ++ [img]
          imagesListLen := tables.imagesListLen + 1
          byid := tables.byid.replace im.id img },
        if shouldSave && saves im.id then saveImage disk (object img) else disk)

/-- `append_image_by_directory`. -/
def appendImageByDirectory (store : ImageTables × SavedImages) (im : ImageRecord) :
    Option (ImageTables × SavedImages) :=
  if im.names.any hasDefaultHost then
    if saves im.id then
      doAppendImage saves store.1 (saveImage store.2 (stripDefaultHostname im))
        (stripDefaultHostname im)
    else some store
  else doAppendImage saves store.1 store.2 im

/-- What the parsers make of the file `manifest`, asked in this order. -/
inductive ManifestFile where
  | schema2
  | oci
  | schema1 (schemaVersion : Int)
  | invalid

/-- What `docker_image_config_v2_parse_file` makes of the config. -/
inductive ConfigFile where
  | missing
  | valid
  | invalid

/-- What a load finds in the directory of an image beside its record. -/
structure ImageDirectory where
  manifest : ManifestFile
  config : ConfigFile
  /-- `try_fill_image_spec`. -/
  fillsSpec : Bool

/-- How everything outside answers a load. -/
structure LoadAnswers where
  saves : Text → Bool
  /-- The deletion of an image. -/
  deletion : Text → ImageAnswers
  directory : Text → ImageDirectory
  /-- `convert_to_v2_image_and_load`. -/
  convert : ImageTables × SavedImages → ImageRecord → Option (ImageTables × SavedImages)

/-- The pattern `^[a-f0-9]{64}$` of `get_images_from_json`. -/
def isImageId (name : Text) : Bool :=
  name.length == 64 && name.all fun char => char.isDigit || ('a' ≤ char && char ≤ 'f')

/-- `validate_manifest_schema_version_1`: whether the image has to be converted, if its files can be
read. -/
def validateManifestSchemaVersion1 (directory : ImageDirectory) : Option Bool :=
  match directory.manifest with
  | .schema2 => some false
  | .oci => some false
  | .schema1 schemaVersion =>
    match directory.config with
    | .missing => some (schemaVersion == 1)
    | .valid => some false
    | .invalid => none
  | .invalid => none

section Load

variable (answers : LoadAnswers)

/-- The body of the loop in `get_images_from_json`. -/
def loadDirectory (store : ImageTables × SavedImages) (im : ImageRecord) :
    Option (ImageTables × SavedImages) :=
  if isImageId im.id then
    match validateManifestSchemaVersion1 (answers.directory im.id) with
    | none => some store
    | some false => appendImageByDirectory answers.saves store im
    | some true => answers.convert store im
  else some store

/-- `get_images_from_json`: the records in the order of their directories. -/
def getImagesFromJson (records : List ImageRecord) (disk : SavedImages) :
    Option (ImageTables × SavedImages) :=
  records.foldlM (loadDirectory answers) (.empty, disk)

/-- `image_store_check_all_images`. -/
def imageStoreCheckAllImages (store : ImageTables × SavedImages) :
    Option (ImageTables × SavedImages) :=
  store.1.imagesList.foldlM
    (fun store img =>
      let id := (store.1.object img).id
      if (answers.directory id).fillsSpec then some store
      else
        (store.1.doDeleteImageInfo (answers.deletion id) id).map fun (deleted, tables) =>
          (tables, if deleted then store.2.remove id else store.2))
    store

/-- `image_store_load`. -/
def imageStoreLoad (records : List ImageRecord) (disk : SavedImages) :
    Option (ImageTables × SavedImages) :=
  (getImagesFromJson answers records disk).bind (imageStoreCheckAllImages answers)

/-- No directory is skipped, converted or deleted. -/
def Loadable (records : List ImageRecord) : Prop :=
  ∀ im ∈ records, isImageId im.id = true ∧
    validateManifestSchemaVersion1 (answers.directory im.id) = some false ∧
    (answers.directory im.id).fillsSpec = true

end Load

/-- Every directory has a manifest of the second schema and a config. -/
def LoadAnswers.current : LoadAnswers where
  saves _ := true
  deletion _ := .willing
  directory _ := ⟨.schema2, .valid, true⟩
  convert store _ := some store

/-- A load without the checks. -/
def appendImages (records : List ImageRecord) (disk : SavedImages) :
    Option (ImageTables × SavedImages) :=
  records.foldlM (appendImageByDirectory saves) (.empty, disk)

theorem appendImages_snoc (records : List ImageRecord) (im : ImageRecord) (disk : SavedImages) :
    appendImages saves (records ++ [im]) disk =
      (appendImages saves records disk).bind fun store =>
        appendImageByDirectory saves store im := by
  simp [appendImages]

/-- The image that a name leads to. -/
def ImageTables.imageOf (tables : ImageTables) (name : Text) : Option Text :=
  (tables.byname.search name).map fun img => (tables.object img).id

variable {name lead : Text}

theorem length_dropLead_le (lead name : Text) : (dropLead lead name).length ≤ name.length := by
  rw [dropLead]
  split
  · rw [length_drop]
    omega
  · exact le_rfl

theorem length_dropLead_lt (leads : lead.isPrefixOf name = true) (some : 0 < lead.length) :
    (dropLead lead name).length < name.length := by
  have longer := (List.isPrefixOf_iff_prefix.mp leads).length_le
  rw [dropLead, if_pos leads, length_drop]
  omega

theorem length_stripName_lt (host : hasDefaultHost name = true) :
    (stripName name).length < name.length := by
  rw [stripName, if_pos host, ociStripDockerioPrefix]
  by_cases leads : hostnameToStrip.isPrefixOf name = true
  · exact Nat.lt_of_le_of_lt (length_dropLead_le _ _) (length_dropLead_lt leads (by decide))
  have same : dropLead hostnameToStrip name = name := if_neg leads
  rw [hasDefaultHost, Bool.or_eq_true] at host
  rw [same]
  exact length_dropLead_lt (host.resolve_left leads) (by decide)

variable {records : List ImageRecord} {saves : Text → Bool}

section Free

variable {img : Address} {object : Address → ImageRecord} {byname : Index Text Address}

/-- New names are entered one after the other. -/
theorem loadNames_free (left i : Nat) (save : Bool) (enough : (object img).names.length ≤ i + left)
    (once : ((object img).names.drop i).Nodup)
    (free : ∀ name ∈ (object img).names.drop i, byname.search name = none) :
    ∃ after, loadNames img left i object byname save = some (object, after, save) ∧
      ∀ name, after.search name =
        if name ∈ (object img).names.drop i then some img else byname.search name := by
  induction left generalizing i byname with
  | zero =>
    refine ⟨byname, rfl, fun name => ?_⟩
    rw [drop_eq_nil_of_le (by omega)]
    rfl
  | succ left ih =>
    rw [loadNames]
    cases here : (object img).names[i]? with
    | none =>
      refine ⟨byname, rfl, fun name => ?_⟩
      rw [drop_eq_nil_of_le (List.getElem?_eq_none_iff.mp here)]
      rfl
    | some first =>
      obtain ⟨inside, isFirst⟩ := List.getElem?_eq_some_iff.mp here
      have rest : (object img).names.drop i = first :: (object img).names.drop (i + 1) := by
        rw [drop_eq_getElem_cons inside, isFirst]
      rw [rest] at once free
      obtain ⟨notLater, once⟩ := nodup_cons.mp once
      have unknown : ∀ name ∈ (object img).names.drop (i + 1),
          (byname.replace first img).search name = none := by
        intro name later
        have different : name ≠ first := fun same => notLater (same ▸ later)
        rw [Index.search_replace, if_neg different]
        exact free name (mem_cons_of_mem _ later)
      obtain ⟨after, loaded, found⟩ := ih (i + 1) (by omega) once unknown
      dsimp only
      rw [free first mem_cons_self]
      refine ⟨after, loaded, fun name => ?_⟩
      rw [rest, found, Index.search_replace]
      by_cases later : name ∈ (object img).names.drop (i + 1) <;>
        by_cases now : name = first <;> simp [later, now]

end Free

/-- The store after records with names of their own have been loaded. -/
structure LoadedFrom (records : List ImageRecord) (tables : ImageTables) : Prop where
  named : ∀ name id, tables.imageOf name = some id ↔
    ∃ record ∈ records, name ∈ record.names ∧ record.id = id
  old : ∀ name img, tables.byname.search name = some img → img < tables.imagesList.length

theorem LoadedFrom.append {tables : ImageTables} (loaded : LoadedFrom records tables)
    {im : ImageRecord} (plain : ∀ name ∈ im.names, hasDefaultHost name = false)
    (once : im.names.Nodup) (free : ∀ record ∈ records, ∀ name ∈ im.names, name ∉ record.names) :
    ∃ after, appendImageByDirectory saves (tables, disk) im = some (after, disk) ∧
      LoadedFrom (records ++ [im]) after := by
  have unstripped : im.names.any hasDefaultHost = false :=
    any_eq_false.mpr fun name member => by simp [plain name member]
  have unknown : ∀ name ∈ im.names, tables.byname.search name = none := by
    intro name member
    cases found : tables.byname.search name with
    | none => rfl
    | some img =>
      obtain ⟨record, listed, named, -⟩ := (loaded.named name (tables.object img).id).mp
        (by rw [ImageTables.imageOf, found]; rfl)
      exact absurd named (free record listed name member)
  obtain ⟨byname, entered, found⟩ := @loadNames_free tables.imagesList.length
    (update tables.object tables.imagesList.length im) tables.byname im.names.length 0 false
    (by rw [update_self, Nat.zero_add]) (by rwa [update_self, drop_zero])
    (by rwa [update_self, drop_zero])
  simp at found
  refine ⟨{ tables with
    object := update tables.object tables.imagesList.length im
    byname
    imagesList := tables.imagesList ++ [tables.imagesList.length]
    imagesListLen := tables.imagesListLen + 1
    byid := tables.byid.replace im.id tables.imagesList.length }, ?_, fun name id => ?_,
    fun name img here => ?_⟩
  · rw [appendImageByDirectory, unstripped, if_neg Bool.false_ne_true, doAppendImage]
    rw [entered]
    rfl
  · simp only [ImageTables.imageOf, found, mem_append, mem_singleton, or_and_right, exists_or,
      exists_eq_left]
    by_cases own : name ∈ im.names
    · rw [if_pos own, Option.map_some, update_self, Option.some.injEq, or_iff_right]
      · exact (and_iff_right own).symm
      · rintro ⟨record, old, named, -⟩
        exact free record old name own named
    · have others : (tables.byname.search name).map (fun img =>
          (update tables.object tables.imagesList.length im img).id) =
            tables.imageOf name := by
        refine Option.map_congr fun img here => ?_
        rw [update_of_ne (Nat.ne_of_lt (loaded.old name img here))]
      rw [if_neg own, others, loaded.named, or_iff_left fun mine => own mine.1]
  · rw [found] at here
    rw [length_append, length_singleton]
    split at here
    · cases here
      exact Nat.lt_succ_self _
    · exact Nat.lt_succ_of_lt (loaded.old name img here)

/-- Records whose names are plain and belong to one of them each are loaded as they are. -/
theorem appendImages_apart
    (plain : ∀ record ∈ records, ∀ name ∈ record.names, hasDefaultHost name = false)
    (once : ∀ record ∈ records, record.names.Nodup)
    (apart : records.Pairwise fun one other => ∀ name ∈ one.names, name ∉ other.names) :
    ∃ tables, appendImages saves records disk = some (tables, disk) ∧
      LoadedFrom records tables := by
  induction records using List.reverseRecOn with
  | nil =>
    refine ⟨.empty, rfl, fun name id => ⟨nofun, ?_⟩, fun name img => nofun⟩
    rintro ⟨record, listed, -⟩
    cases listed
  | append_singleton records im ih =>
    obtain ⟨apart, -, across⟩ := pairwise_append.mp apart
    obtain ⟨tables, before, loaded⟩ := ih
      (fun record listed => plain record (mem_append_left _ listed))
      (fun record listed => once record (mem_append_left _ listed)) apart
    have last : im ∈ records ++ [im] := by simp
    obtain ⟨after, appended, loaded⟩ := @LoadedFrom.append disk _ saves _ loaded im
      (plain im last) (once im last) fun record listed name mine theirs =>
        across record listed im (mem_singleton_self _) name theirs mine
    refine ⟨after, ?_, loaded⟩
    rw [appendImages_snoc, before]
    exact appended

section Origin

variable {img : Address} {object : Address → ImageRecord} {byname : Index Text Address}

theorem loadNames_origin {left i : Nat} {save : Bool}
    {result : (Address → ImageRecord) × Index Text Address × Bool}
    (loaded : loadNames img left i object byname save = some result)
    (found : result.2.1.search name ≠ none) :
    byname.search name ≠ none ∨ name ∈ (object img).names := by
  induction left generalizing i object byname save with
  | zero =>
    cases loaded
    exact .inl found
  | succ left ih =>
    rw [loadNames] at loaded
    split at loaded
    · cases loaded
      exact .inl found
    rename_i first here
    have entered : ∀ {known : Text}, (byname.replace known img).search name ≠ none →
        byname.search name ≠ none ∨ name = known := by
      intro known present
      rw [Index.search_replace] at present
      split at present
      next same => exact .inr same
      · exact .inl present
    split at loaded
    · rcases ih loaded with before | own
      · refine (entered before).imp_right ?_
        rintro rfl
        exact mem_of_getElem? here
      · exact .inr own
    next conflict taken =>
      obtain ⟨again, read, rest⟩ := Option.bind_eq_some_iff.mp loaded
      have fewer : ∀ {own : Text}, own ∈ (update object conflict
          ((object conflict).removeName first) img).names → own ∈ (object img).names := by
        intro own member
        rw [update_apply] at member
        split at member
        next isOwn => exact isOwn ▸ (mem_filter.mp member).1
        · exact member
      rcases ih rest with before | own
      · refine (entered before).imp_right ?_
        rintro rfl
        exact fewer (mem_of_getElem? read)
      · exact .inr (fewer own)

end Origin

theorem appendImages_origin {result : ImageTables × SavedImages}
    (loaded : appendImages saves records disk = some result)
    (found : result.1.byname.search name ≠ none) :
    ∃ record ∈ records, ∃ given ∈ record.names, name = stripName given := by
  induction records using List.reverseRecOn generalizing result with
  | nil =>
    cases loaded
    exact absurd rfl found
  | append_singleton records im ih =>
    rw [appendImages_snoc, Option.bind_eq_some_iff] at loaded
    obtain ⟨before, prior, appended⟩ := loaded
    simp [or_and_right, exists_or]
    have newer : ∀ {disk : SavedImages} {record : ImageRecord},
        doAppendImage saves before.1 disk record = some result →
        before.1.byname.search name ≠ none ∨ name ∈ record.names := by
      intro disk record appended
      obtain ⟨⟨object, byname, save⟩, names, built⟩ := Option.map_eq_some_iff.mp appended
      cases built
      have origin := loadNames_origin names found
      rwa [update_self] at origin
    rw [appendImageByDirectory] at appended
    split at appended
    · split at appended
      · refine (newer appended).imp (ih prior) fun new => ?_
        obtain ⟨given, member, same⟩ := mem_map.mp new
        exact ⟨given, member, same.symm⟩
      · cases appended
        exact .inl (ih prior found)
    next plain =>
      refine (newer appended).imp (ih prior) fun new => ⟨name, new, ?_⟩
      have none : hasDefaultHost name = false := by
        rw [Bool.not_eq_true, any_eq_false] at plain
        simpa using plain name new
      rw [stripName, none]
      rfl

section Checked

variable {answers : LoadAnswers}

/-- Taking names from images changes no id. -/
theorem loadNames_id {img : Address} {left i : Nat} {object : Address → ImageRecord}
    {byname : Index Text Address} {save : Bool}
    {result : (Address → ImageRecord) × Index Text Address × Bool}
    (loaded : loadNames img left i object byname save = some result) (other : Address) :
    (result.1 other).id = (object other).id := by
  induction left generalizing i object byname save with
  | zero =>
    cases loaded
    rfl
  | succ left ih =>
    rw [loadNames] at loaded
    split at loaded
    · cases loaded
      rfl
    split at loaded
    · exact ih loaded
    next conflict taken =>
      obtain ⟨again, -, rest⟩ := Option.bind_eq_some_iff.mp loaded
      rw [ih rest, update_apply]
      split
      next same => rw [same]; rfl
      · rfl

/-- Every image that is loaded has the id of a record. -/
theorem id_of_appendImages {result : ImageTables × SavedImages}
    (loaded : appendImages saves records disk = some result) :
    ∀ img ∈ result.1.imagesList, ∃ record ∈ records, (result.1.object img).id = record.id := by
  induction records using List.reverseRecOn generalizing result with
  | nil =>
    cases loaded
    exact fun img listed => absurd listed not_mem_nil
  | append_singleton records im ih =>
    rw [appendImages_snoc, Option.bind_eq_some_iff] at loaded
    obtain ⟨before, prior, appended⟩ := loaded
    have old (img : Address) (listed : img ∈ before.1.imagesList) :
        ∃ record ∈ records ++ [im], (before.1.object img).id = record.id := by
      obtain ⟨record, member, same⟩ := ih prior img listed
      exact ⟨record, mem_append_left _ member, same⟩
    have entered {disk : SavedImages} {record : ImageRecord} (same : record.id = im.id)
        (appended : doAppendImage saves before.1 disk record = some result) :
        ∀ img ∈ result.1.imagesList,
          ∃ record ∈ records ++ [im], (result.1.object img).id = record.id := by
      obtain ⟨⟨object, byname, save⟩, names, built⟩ := Option.map_eq_some_iff.mp appended
      cases built
      intro img listed
      rw [loadNames_id names, update_apply]
      split
      · exact ⟨im, by simp, same⟩
      next other =>
        rcases mem_append.mp listed with older | new
        · exact old img older
        · exact absurd (mem_singleton.mp new) other
    rw [appendImageByDirectory] at appended
    split at appended
    · split at appended
      · exact entered (show (stripDefaultHostname im).id = im.id from rfl) appended
      · cases appended
        exact old
    · exact entered rfl appended

theorem imageStoreCheckAllImages_eq {store : ImageTables × SavedImages}
    (filled : ∀ img ∈ store.1.imagesList,
      (answers.directory (store.1.object img).id).fillsSpec = true) :
    imageStoreCheckAllImages answers store = some store := by
  unfold imageStoreCheckAllImages
  generalize store.1.imagesList = images at filled
  induction images with
  | nil => rfl
  | cons img images ih =>
    rw [foldlM_cons, if_pos (filled img mem_cons_self), Option.bind_eq_bind, Option.bind_some]
    exact ih fun other listed => filled other (mem_cons_of_mem _ listed)

theorem foldlM_loadDirectory (loadable : Loadable answers records)
    (store : ImageTables × SavedImages) :
    records.foldlM (loadDirectory answers) store =
      records.foldlM (appendImageByDirectory answers.saves) store := by
  induction records generalizing store with
  | nil => rfl
  | cons im records ih =>
    obtain ⟨valid, current, -⟩ := loadable im mem_cons_self
    rw [foldlM_cons, foldlM_cons, loadDirectory, if_pos valid, current]
    exact bind_congr (ih fun other listed => loadable other (mem_cons_of_mem _ listed))

/-- Where every directory passes the checks they change nothing. -/
theorem imageStoreLoad_of_loadable (loadable : Loadable answers records) :
    imageStoreLoad answers records disk = appendImages answers.saves records disk := by
  rw [imageStoreLoad, getImagesFromJson, foldlM_loadDirectory loadable]
  change (appendImages answers.saves records disk).bind _ = _
  cases loaded : appendImages answers.saves records disk with
  | none => rfl
  | some store =>
    refine imageStoreCheckAllImages_eq fun img listed => ?_
    obtain ⟨record, member, same⟩ := id_of_appendImages loaded img listed
    rw [same]
    exact (loadable record member).2.2

end Checked

end Isulad.Storage
