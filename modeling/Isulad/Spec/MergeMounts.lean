import Isulad.Spec.VolumesFrom
import Isulad.Std.Precedence

/-!
# All mounts of a container

`merge_all_fs_mounts` of `spec/specs_mount.c` puts the mounts of six sources into one array,
whose size `calc_mounts_len` computes beforehand. Two kinds of sources differ only in what
they do about a destination that is taken: `addOrFail` and `addOrDrop`. A write behind the
end of the array is an outcome of its own.
-/

namespace Isulad.Spec

open List Isulad.Std Isulad.Path

/-- How merging ends without a result. -/
inductive MergeFault where
  /-- An error is returned. -/
  | refused
  /-- The array is too small. -/
  | overrun
  deriving DecidableEq

/-- The arrays read of a `host_config`; of `tmpfs`, the keys. -/
structure HostMounts where
  mounts : List MountSpec := []
  binds : List Text := []
  tmpfs : List Text := []
  volumesFrom : List Text := []

/-- The arrays read of a `container_config`; of `volumes`, the keys. -/
structure ContainerMounts where
  mounts : List Text := []
  volumes : List Text := []

/-- What the parsers ask: the current directory, the containers there are, and what
`util_parse_mount_spec` makes of a text. -/
structure MountEnvironment where
  getcwd : Option WorkingDir
  containersStoreGet : Containers
  utilParseMountSpec : Text → Option MountSpec

/-- `get_conflict_mount_point`. -/
def getConflictMountPoint (mounts : List Mount) (mnt : Mount) : Option Mount :=
  mounts.find? fun other => other.destination = mnt.destination

/-- `calc_volumes_from_len`. -/
def calcVolumesFromLen (containersStoreGet : Containers) : List Text → Option Nat
  | [] => some 0
  | volumeFrom :: volumesFrom => do
      let (id, _) ← splitVolumeFrom volumeFrom
      let container ← containersStoreGet id
      let len ← calcVolumesFromLen containersStoreGet volumesFrom
      some ((container.getD []).length + len)

variable (env : MountEnvironment) (host : HostMounts) (container : ContainerMounts)

/-- `calc_mounts_len`. -/
def calcMountsLen : Option Nat :=
  (calcVolumesFromLen env.containersStoreGet host.volumesFrom).map fun volumesFromLen =>
    host.mounts.length + host.binds.length + volumesFromLen + host.tmpfs.length +
      container.volumes.length + container.mounts.length

section

variable (capacity : Nat)

/-- `add_mount`, into an array of a capacity. -/
def addMount (merged : List Mount) (mnt : Mount) : Except MergeFault (List Mount) :=
  if merged.length < capacity then .ok (merged ++ [mnt]) else .error .overrun

/-- Add a mount whose destination must be free. -/
def addOrFail (merged : List Mount) (mnt : Mount) : Except MergeFault (List Mount) :=
  if (getConflictMountPoint merged mnt).isSome then .error .refused
  else addMount capacity merged mnt

/-- Add a mount unless its destination is taken. -/
def addOrDrop (merged : List Mount) (mnt : Mount) : Except MergeFault (List Mount) :=
  if (getConflictMountPoint merged mnt).isSome then .ok merged
  else addMount capacity merged mnt

/-- The loop of every `add_` function: parse an item, then add what it is. -/
def addEach {Item : Type} (parse : Item → Option Mount)
    (add : List Mount → Mount → Except MergeFault (List Mount)) (items : List Item)
    (merged : List Mount) : Except MergeFault (List Mount) :=
  items.foldlM (fun merged item =>
    match parse item with
    | none => .error .refused
    | some mnt => add merged mnt) merged

/-- The two parsers of `add_embedded_layers`, one after the other. -/
def parseEmbeddedLayer (text : Text) : Option Mount :=
  (env.utilParseMountSpec text).map parseMount

/-- `add_embedded_layers`. -/
def addEmbeddedLayers : List Mount → Except MergeFault (List Mount) :=
  addEach (parseEmbeddedLayer env) (addOrFail capacity) container.mounts

/-- `add_mounts`. -/
def addMounts : List Mount → Except MergeFault (List Mount) :=
  addEach (fun spec => some (parseMount spec)) (addOrFail capacity) host.mounts

/-- `add_volumes`. -/
def addVolumes : List Mount → Except MergeFault (List Mount) :=
  addEach (parseVolume env.getcwd) (addOrFail capacity) host.binds

/-- `add_tmpfs`. -/
def addTmpfs : List Mount → Except MergeFault (List Mount) :=
  addEach (parseTmpfs env.getcwd) (addOrFail capacity) host.tmpfs

/-- The outer loop of `add_volumes_from`: each specification gives many mounts. -/
def addVolumeFrom (merged : List Mount) (volumeFrom : Text) : Except MergeFault (List Mount) :=
  match parseVolumesFrom env.containersStoreGet volumeFrom with
  | none => .error .refused
  | some mnts => addEach some (addOrDrop capacity) mnts merged

/-- `add_volumes_from`. -/
def addVolumesFrom (merged : List Mount) : Except MergeFault (List Mount) :=
  host.volumesFrom.foldlM (addVolumeFrom env capacity) merged

/-- `add_image_config_volumes`. -/
def addImageConfigVolumes : List Mount → Except MergeFault (List Mount) :=
  addEach (parseAnonymousVolume env.getcwd) (addOrDrop capacity) container.volumes

/-- The passes of `merge_all_fs_mounts`, into an array of a capacity. -/
def addAll : Except MergeFault (List Mount) := do
  let merged ← addEmbeddedLayers env container capacity []
  let merged ← addMounts host capacity merged
  let merged ← addVolumes env host capacity merged
  let merged ← addTmpfs env host capacity merged
  let merged ← addVolumesFrom env host capacity merged
  addImageConfigVolumes env container capacity merged

end

/-- `merge_all_fs_mounts`. -/
def mergeAllFsMounts : Except MergeFault (List Mount) :=
  match calcMountsLen env host container with
  | none => .error .refused
  | some 0 => .ok []
  | some capacity => addAll env host container capacity

/-- The mounts of one `--volumes-from` specification. -/
def mountsOf (containers : Containers) (volumeFrom : Text) : List Mount :=
  (parseVolumesFrom containers volumeFrom).getD []

/-- The mounts of each source. -/
structure Entries where
  embedded : List Mount
  mounts : List Mount
  binds : List Mount
  tmpfs : List Mount
  volumesFrom : List Mount
  images : List Mount

/-- The mounts there are, if the texts can be parsed. -/
def entriesOf :
    Option Entries := do
  let embedded ← container.mounts.mapM (parseEmbeddedLayer env)
  let binds ← host.binds.mapM (parseVolume env.getcwd)
  let tmpfs ← host.tmpfs.mapM (parseTmpfs env.getcwd)
  let images ← container.volumes.mapM (parseAnonymousVolume env.getcwd)
  some
    { embedded := embedded
      mounts := host.mounts.map parseMount
      binds := binds
      tmpfs := tmpfs
      volumesFrom := host.volumesFrom.flatMap (mountsOf env.containersStoreGet)
      images := images }

/-- The mounts that must be in the result, in order. -/
def Entries.required (entries : Entries) : List Mount :=
  entries.embedded ++ entries.mounts ++ entries.binds ++ entries.tmpfs

/-- The mounts that give way, in order. -/
def Entries.optional (entries : Entries) : List Mount := entries.volumesFrom ++ entries.images

/-- A result with one mount for a destination: everything required, and of the others those
whose destination is not taken by a mount merged before. -/
structure Merged (env : MountEnvironment) (host : HostMounts) (container : ContainerMounts)
    (result : List Mount) : Prop where
  distinct : (result.map (·.destination)).Nodup
  fits : ∃ capacity, calcMountsLen env host container = some capacity ∧ result.length ≤ capacity
  complete : ∃ entries, entriesOf env host container = some entries ∧
    ∃ kept, Kept (·.destination) entries.required entries.optional kept ∧
      result = entries.required ++ kept

variable {merged : List Mount} {capacity : Nat} {outcome : Except MergeFault (List Mount)}

/-- The array is large enough, and a result is as it should be. -/
def Ensures (outcome : Except MergeFault (List Mount)) (post : List Mount → Prop) : Prop :=
  match outcome with
  | .ok result => post result
  | .error .refused => True
  | .error .overrun => False

theorem Ensures.bind {next : List Mount → Except MergeFault (List Mount)}
    {middle post : List Mount → Prop} (first : Ensures outcome middle)
    (then_ : ∀ merged, middle merged → Ensures (next merged) post) :
    Ensures (outcome >>= next) post := by
  cases outcome with
  | ok merged => exact then_ merged first
  | error fault => cases fault with
    | refused => trivial
    | overrun => exact first

theorem Ensures.mono {pre post : List Mount → Prop} (ensures : Ensures outcome pre)
    (implies : ∀ result, pre result → post result) : Ensures outcome post := by
  cases outcome with
  | ok merged => exact implies merged ensures
  | error fault => cases fault with
    | refused => trivial
    | overrun => exact ensures

theorem isSome_getConflictMountPoint {mnt : Mount} :
    (getConflictMountPoint merged mnt).isSome = true ↔
      mnt.destination ∈ merged.map (·.destination) := by
  simp [getConflictMountPoint]

section

variable (mnt : Mount) (room : merged.length < capacity)
include mnt room

theorem ensures_addMount :
    Ensures (addMount capacity merged mnt) fun result => result = merged ++ [mnt] := by
  rw [addMount, if_pos room]
  rfl

theorem ensures_addOrFail :
    Ensures (addOrFail capacity merged mnt) fun result =>
      mnt.destination ∉ merged.map (·.destination) ∧ result = merged ++ [mnt] := by
  rw [addOrFail]
  split
  next => trivial
  rename_i free
  rw [isSome_getConflictMountPoint] at free
  exact (ensures_addMount mnt room).mono fun result added => ⟨free, added⟩

theorem ensures_addOrDrop :
    Ensures (addOrDrop capacity merged mnt) fun result =>
      ∃ kept, Kept (·.destination) merged [mnt] kept ∧ result = merged ++ kept := by
  rw [addOrDrop]
  split
  next taken =>
    rw [isSome_getConflictMountPoint] at taken
    exact ⟨[], .leftOut taken (.nil merged), (append_nil merged).symm⟩
  next free =>
    rw [isSome_getConflictMountPoint] at free
    exact (ensures_addMount mnt room).mono fun result added => ⟨[mnt], .merge free (.nil _), added⟩

end

variable {env : MountEnvironment} {containers : Containers} {volumeFrom : Text}
  {volumesFrom : List Text} {len : Nat} {container : ContainerMounts} {host : HostMounts}

section Sources

variable {Item : Type} {parse : Item → Option Mount} {capacity : Nat} {items : List Item}
  {merged : List Mount} {add : List Mount → Mount → Except MergeFault (List Mount)} {item : Item}

theorem addEach_cons {mnt : Mount} (parsed : parse item = some mnt) :
    addEach parse add (item :: items) merged = add merged mnt >>= addEach parse add items := by
  rw [addEach, foldlM_cons, parsed]
  rfl

theorem addEach_cons_none (failed : parse item = none) :
    addEach parse add (item :: items) merged = .error .refused := by
  rw [addEach, foldlM_cons, failed]
  rfl

variable (room : merged.length + items.length ≤ capacity)
include room

/-- A source whose mounts must all find a free destination. -/
theorem ensures_addEach_addOrFail (distinct : (merged.map (·.destination)).Nodup) :
    Ensures (addEach parse (addOrFail capacity) items merged) fun result =>
      (result.map (·.destination)).Nodup ∧
        ∃ mnts, items.mapM parse = some mnts ∧ result = merged ++ mnts := by
  induction items generalizing merged with
  | nil => exact ⟨distinct, [], rfl, (append_nil merged).symm⟩
  | cons item items ih =>
    cases parsed : parse item with
    | none =>
      rw [addEach_cons_none parsed]
      trivial
    | some mnt =>
      rw [length_cons] at room
      rw [addEach_cons parsed]
      refine (ensures_addOrFail mnt (by omega)).bind ?_
      rintro _ ⟨free, rfl⟩
      have extended : ((merged ++ [mnt]).map (·.destination)).Nodup :=
        (Kept.merge free (.nil _)).nodup distinct
      refine (ih (by simp; omega) extended).mono ?_
      rintro _ ⟨nodup, mnts, rest, rfl⟩
      exact ⟨nodup, mnt :: mnts, by simp [parsed, rest], by simp⟩

/-- A source whose mounts give way. -/
theorem ensures_addEach_addOrDrop :
    Ensures (addEach parse (addOrDrop capacity) items merged) fun result =>
      ∃ mnts kept, items.mapM parse = some mnts ∧ Kept (·.destination) merged mnts kept ∧
        result = merged ++ kept := by
  induction items generalizing merged with
  | nil => exact ⟨[], [], rfl, .nil merged, (append_nil merged).symm⟩
  | cons item items ih =>
    cases parsed : parse item with
    | none =>
      rw [addEach_cons_none parsed]
      trivial
    | some mnt =>
      rw [length_cons] at room
      rw [addEach_cons parsed]
      refine (ensures_addOrDrop mnt (by omega)).bind ?_
      rintro _ ⟨first, keptFirst, rfl⟩
      have short := keptFirst.length_le
      rw [length_singleton] at short
      refine (ih (by simp; omega)).mono ?_
      rintro _ ⟨mnts, kept, rest, keptRest, rfl⟩
      exact ⟨mnt :: mnts, first ++ kept, by simp [parsed, rest],
        keptFirst.append keptRest, by simp⟩

end Sources

theorem calcVolumesFromLen_cons
    (counted : calcVolumesFromLen containers (volumeFrom :: volumesFrom) = some len) :
    ∃ rest, calcVolumesFromLen containers volumesFrom = some rest ∧
      (mountsOf containers volumeFrom).length + rest ≤ len := by
  simp only [calcVolumesFromLen, Option.bind_eq_bind, Option.bind_eq_some_iff,
    Option.some.injEq] at counted
  obtain ⟨⟨id, mode⟩, parts, container, found, rest, countedRest, rfl⟩ := counted
  refine ⟨rest, countedRest, Nat.add_le_add_right ?_ rest⟩
  rw [mountsOf]
  cases parsed : parseVolumesFrom containers volumeFrom with
  | none => exact Nat.zero_le _
  | some mnts =>
    rw [Option.getD_some, parseVolumesFrom_eq parts found parsed, length_map]
    exact length_filter_le _ _

theorem ensures_addVolumeFrom
    (room : merged.length + (mountsOf env.containersStoreGet volumeFrom).length ≤ capacity) :
    Ensures (addVolumeFrom env capacity merged volumeFrom) fun result =>
      ∃ kept, Kept (·.destination) merged (mountsOf env.containersStoreGet volumeFrom) kept ∧
        result = merged ++ kept := by
  rw [addVolumeFrom]
  rw [mountsOf] at room ⊢
  cases parsed : parseVolumesFrom env.containersStoreGet volumeFrom with
  | none => trivial
  | some mnts =>
    rw [parsed, Option.getD_some] at room
    refine (ensures_addEach_addOrDrop room).mono ?_
    rintro _ ⟨same, kept, all, survive, rfl⟩
    have identity : mnts.mapM some = some (mnts.map id) := mapM_pure
    rw [identity, map_id] at all
    cases all
    exact ⟨kept, survive, rfl⟩

theorem length_flatMap_mountsOf_le
    (counted : calcVolumesFromLen containers volumesFrom = some len) :
    (volumesFrom.flatMap (mountsOf containers)).length ≤ len := by
  induction volumesFrom generalizing len with
  | nil => exact Nat.zero_le _
  | cons volumeFrom volumesFrom ih =>
    obtain ⟨rest, countedRest, split⟩ := calcVolumesFromLen_cons counted
    have := ih countedRest
    rw [flatMap_cons, length_append]
    omega

theorem ensures_addVolumesFrom
    (counted : calcVolumesFromLen env.containersStoreGet volumesFrom = some len)
    (room : merged.length + len ≤ capacity) :
    Ensures (volumesFrom.foldlM (addVolumeFrom env capacity) merged) fun result =>
      ∃ kept, Kept (·.destination) merged
          (volumesFrom.flatMap (mountsOf env.containersStoreGet)) kept ∧
        result = merged ++ kept := by
  induction volumesFrom generalizing merged len with
  | nil => exact ⟨[], .nil merged, (append_nil merged).symm⟩
  | cons volumeFrom volumesFrom ih =>
    obtain ⟨rest, countedRest, split⟩ := calcVolumesFromLen_cons counted
    refine (ensures_addVolumeFrom (by omega)).bind ?_
    rintro _ ⟨first, keptFirst, rfl⟩
    have short := keptFirst.length_le
    refine (ih countedRest (by rw [length_append]; omega)).mono ?_
    rintro _ ⟨kept, keptRest, rfl⟩
    exact ⟨first ++ kept, keptFirst.append keptRest, by simp⟩

theorem length_of_mapM {Item : Type} {parse : Item → Option Mount} {items : List Item}
    {mnts : List Mount} (parsed : items.mapM parse = some mnts) : mnts.length = items.length := by
  induction items generalizing mnts with
  | nil => cases parsed; rfl
  | cons item items ih =>
    simp [Option.bind_eq_some_iff] at parsed
    obtain ⟨mnt, -, rest, parsedRest, rfl⟩ := parsed
    rw [length_cons, length_cons, ih parsedRest]

/-- The passes keep within an array of the computed size. -/
theorem ensures_addAll (computed : calcMountsLen env host container = some capacity) :
    Ensures (addAll env host container capacity) (Merged env host container) := by
  obtain ⟨len, counted, total⟩ := Option.map_eq_some_iff.mp computed
  have nothing : (([] : List Mount).map (·.destination)).Nodup := nodup_nil
  -- each pass starts with what the passes before it have merged
  refine (ensures_addEach_addOrFail (by rw [length_nil]; omega) nothing).bind ?_
  rintro embedded ⟨distinct, _, parsedEmbedded, rfl⟩
  have embeddedLength := length_of_mapM parsedEmbedded
  refine (ensures_addEach_addOrFail (by omega) distinct).bind ?_
  rintro _ ⟨distinct, mounts, parsedMounts, rfl⟩
  have mountsLength := length_of_mapM parsedMounts
  refine (ensures_addEach_addOrFail (by simp; omega) distinct).bind ?_
  rintro _ ⟨distinct, binds, parsedBinds, rfl⟩
  have bindsLength := length_of_mapM parsedBinds
  refine (ensures_addEach_addOrFail (by simp; omega) distinct).bind ?_
  rintro _ ⟨distinct, tmpfs, parsedTmpfs, rfl⟩
  have tmpfsLength := length_of_mapM parsedTmpfs
  refine (ensures_addVolumesFrom counted (by simp; omega)).bind ?_
  rintro _ ⟨first, keptFirst, rfl⟩
  have short := keptFirst.length_le.trans (length_flatMap_mountsOf_le counted)
  refine (ensures_addEach_addOrDrop (by simp; omega)).mono ?_
  rintro _ ⟨images, second, parsedImages, keptSecond, rfl⟩
  have imagesLength := length_of_mapM parsedImages
  have secondLength := keptSecond.length_le
  have kept := keptFirst.append keptSecond
  have plain : host.mounts.mapM (fun spec => some (parseMount spec)) =
      some (host.mounts.map parseMount) := mapM_pure
  rw [plain] at parsedMounts
  cases parsedMounts
  refine ⟨?_, ⟨capacity, computed, by simp; omega⟩, ?_⟩
  · rw [append_assoc]
    exact kept.nodup distinct
  · refine ⟨⟨embedded, host.mounts.map parseMount, binds, tmpfs,
      host.volumesFrom.flatMap (mountsOf env.containersStoreGet), images⟩, ?_, first ++ second,
      by simpa [Entries.required, Entries.optional] using kept, by simp [Entries.required]⟩
    simp [entriesOf, parsedEmbedded, parsedBinds, parsedTmpfs, parsedImages]

/-- Without anything to merge, there is nothing. -/
theorem merged_nil (computed : calcMountsLen env host container = some 0) :
    Merged env host container [] := by
  obtain ⟨len, counted, total⟩ := Option.map_eq_some_iff.mp computed
  have none : host.volumesFrom.flatMap (mountsOf env.containersStoreGet) = [] := by
    rw [← length_eq_zero_iff]
    have := length_flatMap_mountsOf_le counted
    omega
  have mounts : host.mounts = [] := length_eq_zero_iff.mp (by omega)
  have binds : host.binds = [] := length_eq_zero_iff.mp (by omega)
  have tmpfs : host.tmpfs = [] := length_eq_zero_iff.mp (by omega)
  have images : container.volumes = [] := length_eq_zero_iff.mp (by omega)
  have embedded : container.mounts = [] := length_eq_zero_iff.mp (by omega)
  refine ⟨nodup_nil, ⟨0, computed, Nat.le_refl 0⟩, ⟨[], [], [], [], [], []⟩, ?_, [],
    .nil _, rfl⟩
  simp [entriesOf, none, mounts, binds, tmpfs, images, embedded]

/-- Merging never writes behind the array, and what it returns has one mount for a
destination: all that is required, and the others unless they come too late. Two required
mounts with one destination are refused. -/
theorem mergeAllFsMounts_merges (env : MountEnvironment) (host : HostMounts)
    (container : ContainerMounts) :
    mergeAllFsMounts env host container ≠ .error .overrun ∧
      (∀ result, mergeAllFsMounts env host container = .ok result →
        Merged env host container result) ∧
      (∀ entries, entriesOf env host container = some entries →
        ¬ (entries.required.map (·.destination)).Nodup →
        mergeAllFsMounts env host container = .error .refused) := by
  have ensures : Ensures (mergeAllFsMounts env host container) (Merged env host container) := by
    rw [mergeAllFsMounts]
    split
    next => trivial
    next computed => exact merged_nil computed
    next computed => exact ensures_addAll computed
  cases outcome : mergeAllFsMounts env host container with
  | ok result =>
    rw [outcome] at ensures
    refine ⟨nofun, ?_, ?_⟩
    · rintro _ ⟨⟩
      exact ensures
    · intro entries parsed conflict
      obtain ⟨same, parsedSame, kept, -, whole⟩ := ensures.complete
      cases parsed.symm.trans parsedSame
      have distinct := ensures.distinct
      rw [whole, map_append] at distinct
      exact absurd distinct.of_append_left conflict
  | error fault =>
    cases fault with
    | refused => exact ⟨nofun, nofun, fun _ _ _ => rfl⟩
    | overrun =>
      rw [outcome] at ensures
      exact ensures.elim

/-- A volume on `/data`. -/
def dataSpec : MountSpec :=
  { type := .volume, source := some "vol".toList, target := "/data".toList }

/-- Only the containers of `dbContainers`. -/
def dbEnvironment : MountEnvironment := ⟨none, dbContainers, fun _ => none⟩

/-- A volume on `/data`, which `db` and the image have a mount for as well. -/
def dataHost : HostMounts := { mounts := [dataSpec], volumesFrom := ["db".toList] }

/-- The image has volumes on `/data` and `/log`. -/
def dataContainer : ContainerMounts := { volumes := ["/data/".toList, "/log".toList] }

theorem mergeAllFsMounts_merges_data :
    Merged dbEnvironment dataHost dataContainer
      [parseMount dataSpec,
        { type := .volume, source := none, destination := "/log".toList,
          options := ["z".toList, "rbind".toList] }] ∧
      mergeAllFsMounts dbEnvironment { mounts := [dataSpec, dataSpec] } {} = .error .refused := by
  refine ⟨(mergeAllFsMounts_merges dbEnvironment dataHost dataContainer).2.1 _ (by rfl), ?_⟩
  refine (mergeAllFsMounts_merges dbEnvironment { mounts := [dataSpec, dataSpec] } {}).2.2 _ rfl ?_
  decide

end Isulad.Spec
