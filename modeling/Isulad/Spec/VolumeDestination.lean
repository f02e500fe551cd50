import Isulad.Path.Normal
import Isulad.Spec.Mount

/-!
# The destination of a `-v` volume

`-v` and `--mount` name a destination in the container. `parse_mount_item_dst` of
`cutils/utils_mount_spec.c` cleans an absolute path and then refuses `/`. `parse_volume` refuses
the text `/` before it cleans, and refuses nothing when the volume text has one field only.
-/

namespace Isulad.Spec

open List Option Isulad.Std Isulad.Path

/-- `CACHE_ERRMSG_LEN`. -/
def cacheErrmsgLen : Nat := 512

/-- What `CACHE_ERRMSG` leaves for a mount text. -/
def cacheErrmsg (mountStr reason : Text) : Text :=
  ("Invalid mount specification '".toList ++ mountStr ++ "'.".toList ++ reason).take
    (cacheErrmsgLen - 1)

/-- Why `parse_mount_item_dst` refuses a destination. -/
inductive DstRefusal where
  | again | relative | unclean | root
  deriving DecidableEq

/-- The reason as the message gives it. -/
def DstRefusal.reason : DstRefusal → Text
  | .again => "More than one destination found".toList
  | .relative => "Destination must be absolute path".toList
  | .unclean => "Can't translate destination path to clean path".toList
  | .root => "Destination can't be '/'".toList

variable (getcwd : Option WorkingDir) (volume : Text)

/-- `parse_mount_item_dst`: the target of the mount afterwards, or the error message. -/
def parseMountItemDst (value : Option Text) (mountStr : Text) (target : Option Text) :
    Except Text (Option Text) :=
  match value with
  | none => .ok target
  | some value =>
    if target.isSome then .error (cacheErrmsg mountStr DstRefusal.again.reason)
    else if value.head? ≠ some '/' then .error (cacheErrmsg mountStr DstRefusal.relative.reason)
    else
      match utilCleanPath getcwd value with
      | none => .error (cacheErrmsg mountStr DstRefusal.unclean.reason)
      | some path =>
        if path = ['/'] then .error (cacheErrmsg mountStr DstRefusal.root.reason)
        else .ok (some path)

/-- The first destination of a mount text is taken if it is absolute and does not clean to `/`. -/
theorem parseMountItemDst_eq_ok_iff {getcwd : Option WorkingDir} {value path mountStr : Text} :
    parseMountItemDst getcwd (some value) mountStr none = .ok (some path) ↔
      value.head? = some '/' ∧ utilCleanPath getcwd value = some path ∧ path ≠ ['/'] := by
  by_cases absolute : value.head? = some '/'
  · cases cleaned : utilCleanPath getcwd value with
    | none => simp [parseMountItemDst, absolute, cleaned]
    | some clean =>
      by_cases root : clean = ['/']
      · simp [parseMountItemDst, absolute, cleaned, root]
        exact .symm
      · simp only [parseMountItemDst, absolute, cleaned, root, isSome_none,
          Bool.false_eq_true, if_false, ne_eq, not_true_eq_false, Except.ok.injEq,
          some.injEq, true_and]
        exact ⟨fun same => ⟨same, same ▸ root⟩, And.left⟩
  · simp [parseMountItemDst, absolute]

/-- The field of a volume text that names the destination. -/
def writtenDestination : Option Text :=
  match utilStringSplit volume ':' with
  | [destination] => some destination
  | [_, destination] => some destination
  | [_, destination, _] => some destination
  | _ => none

/-- What is written as a destination is absolute, the mount goes to that path cleaned and not to
`/`, and `--mount` takes it as well. -/
structure Settled (getcwd : Option WorkingDir) (written destination : Text) : Prop where
  absolute : written.head? = some '/'
  cleaned : utilCleanPath getcwd written = some destination
  notRoot : destination ≠ ['/']
  mountable : ∀ mountStr,
    parseMountItemDst getcwd (some written) mountStr none = .ok (some destination)

/-- Every mount that `parse_volume` makes of the text goes to the destination written in it. -/
def SoundDestination (volume : CStr) : Prop :=
  ∀ getcwd mount, parseVolume getcwd volume.1 = some mount →
    ∃ written, writtenDestination volume.1 = some written ∧
      Settled getcwd written mount.destination

/-- A source that the parser takes: a name, or an absolute path that can be cleaned. -/
def SourceAccepted (source : Text) : Prop :=
  (source.head? = some '/' ∧ Cleanable source) ∨ utilValidVolumeName source = true

/-- Modes that fit the type of the mount: `nocopy` is for volumes, propagation for binds. -/
def ModesAccepted (source : Option Text) (modes : List Text) : Prop :=
  if source.any fun source => source.head? = some '/' then
    ∀ mode ∈ modes, modeKind mode ≠ some .copy
  else ∀ mode ∈ modes, modeKind mode ≠ some .propagation

/-- Some component of the path is kept when it is cleaned. -/
def KeepsName (destination : Text) : Prop := Cleanable destination → normalNames destination ≠ []

/-- Volume texts whose destination is either fine or caught. -/
def DestinationCaught : Prop :=
  checkVolumeElement volume = true →
  match utilStringSplit volume ':' with
  | [destination] =>
    if destination.head? = some '/' then KeepsName destination
    else pathMax ≤ destination.length + 2
  | [source, destination] =>
    utilValidMountMode destination = false → SourceAccepted source →
      destination.head? = some '/' → destination ≠ ['/'] → KeepsName destination
  | [source, destination, mode] =>
    utilValidMountMode mode = true → ModesAccepted (some source) (utilStringSplit mode ',') →
      SourceAccepted source → destination.head? = some '/' → destination ≠ ['/'] →
      KeepsName destination
  | _ => True

/-- The mount that `parse_volume` checks, its paths cleaned. -/
def partsMount (parts : VolumeParts) (source : Option Text) (destination : Text) : Mount :=
  let fromHost := parts.source.any fun source => source.head? = some '/'
  { type := if fromHost then .bind else .volume
    source := source
    destination := destination
    options :=
      (lastOfKind .rw parts.modes).toList ++ (lastOfKind .propagation parts.modes).toList ++
      (lastOfKind .label parts.modes).toList ++ (lastOfKind .copy parts.modes).toList
    named := !fromHost && source.isSome }

/-- The source of the mount. -/
def cleanSource (source : Option Text) : Option (Option Text) :=
  if source.any fun source => source.head? = some '/' then
    (source.bind (utilCleanPath getcwd)).map some
  else some source

/-- The part of `parse_volume` behind `get_src_dst_mode_by_volume`. -/
def mountOfParts (parts : VolumeParts) : Option Mount := do
  let destination ← utilCleanPath getcwd parts.destination
  let source ← cleanSource getcwd parts.source
  if checkMountElement (partsMount parts source destination) then
    some (appendDefaultMountOptions (partsMount parts source destination)
      (lastOfKind .rw parts.modes).isSome (lastOfKind .propagation parts.modes).isSome
      (lastOfKind .label parts.modes).isSome)
  else none

theorem parseVolume_eq :
    parseVolume getcwd volume =
      if checkVolumeElement volume then (getSrcDstModeByVolume volume).bind (mountOfParts getcwd)
      else none := by
  cases checked : checkVolumeElement volume with
  | false => simp [parseVolume, checked]
  | true =>
    cases fields : getSrcDstModeByVolume volume with
    | none => simp [parseVolume, checked, fields]
    | some parts =>
      by_cases fromHost : (parts.source.any fun source => source.head? = some '/') = true
      · simp [parseVolume, checked, fields, fromHost, mountOfParts, cleanSource, partsMount]
      · simp [parseVolume, checked, fields, fromHost, mountOfParts, cleanSource, partsMount]

section Modes

variable {kind barred : ModeKind} {mode : Text} {modes : List Text}

theorem lastOfKind_eq_none_iff :
    lastOfKind kind modes = none ↔ ∀ mode ∈ modes, modeKind mode ≠ some kind := by
  simp [lastOfKind]

theorem modeKind_of_lastOfKind (last : lastOfKind kind modes = some mode) :
    modeKind mode = some kind := by
  simpa using (mem_filter.mp (mem_of_getLast? last)).2

/-- Which modes a bind mount and a volume take. -/
theorem modeKind_allowed (known : modeKind mode = some kind) :
    ((mode ∈ ["ro".toList, "rw".toList, "z".toList, "Z".toList] ∨
      utilValidPropagationMode mode = true) ↔ kind ≠ .copy) ∧
    ((mode ∈ ["ro".toList, "rw".toList, "z".toList, "Z".toList] ∨
      utilValidCopyMode mode = true) ↔ kind ≠ .propagation) := by
  -- every mode that is known is one of eleven
  have listed : mode ∈ ["rw", "ro", "private", "rprivate", "slave", "rslave", "shared", "rshared",
      "z", "Z", "nocopy"].map String.toList := by
    by_contra missing
    simp at missing
    simp [modeKind, utilValidRwMode, utilValidPropagationMode, utilValidLabelMode,
      utilValidCopyMode, missing] at known
  revert known
  cases kind <;> revert listed mode <;> decide

/-- One mode of each kind is checked; those of one kind are refused. -/
theorem all_lastOfKind_iff {allowed : Text → Bool}
    (rule : ∀ mode kind, modeKind mode = some kind → (allowed mode = true ↔ kind ≠ barred)) :
    ((lastOfKind .rw modes).toList ++ (lastOfKind .propagation modes).toList ++
      (lastOfKind .label modes).toList ++ (lastOfKind .copy modes).toList).all allowed = true ↔
      ∀ mode ∈ modes, modeKind mode ≠ some barred := by
  have each : ∀ kind, (lastOfKind kind modes).toList.all allowed = true ↔
      (kind = barred → lastOfKind kind modes = none) := by
    intro kind
    cases last : lastOfKind kind modes with
    | none => simp
    | some mode => simpa using rule mode kind (modeKind_of_lastOfKind last)
  rw [← lastOfKind_eq_none_iff, all_append, all_append, all_append,
    Bool.and_eq_true, Bool.and_eq_true, Bool.and_eq_true, each, each, each, each]
  cases barred <;> simp

theorem checkVolumeOpts_partsMount (parts : VolumeParts) (source : Option Text)
    (destination : Text) :
    checkVolumeOpts (partsMount parts source destination) = true ↔
      ModesAccepted parts.source parts.modes := by
  unfold ModesAccepted
  by_cases fromHost : (parts.source.any fun source => source.head? = some '/') = true
  · simp only [checkVolumeOpts, partsMount, fromHost, if_true]
    refine all_lastOfKind_iff fun mode kind known => ?_
    rw [Bool.or_eq_true, decide_eq_true_eq]
    exact (modeKind_allowed known).1
  · simp only [checkVolumeOpts, partsMount, fromHost]
    refine all_lastOfKind_iff fun mode kind known => ?_
    rw [Bool.or_eq_true, decide_eq_true_eq]
    exact (modeKind_allowed known).2

end Modes

section Parts

variable {getcwd : Option WorkingDir} {parts : VolumeParts}

theorem head?_ne_slash_of_volumeName {source : Text} (named : utilValidVolumeName source = true) :
    source.head? ≠ some '/' := by
  cases source with
  | nil => simp
  | cons first rest =>
    rintro slash
    cases some.inj slash
    simp [utilValidVolumeName] at named

theorem mountOfParts_destination {mount : Mount} (made : mountOfParts getcwd parts = some mount) :
    utilCleanPath getcwd parts.destination = some mount.destination := by
  obtain ⟨destination, cleaned, made⟩ := bind_eq_some_iff.mp made
  obtain ⟨source, -, made⟩ := bind_eq_some_iff.mp made
  split at made
  · cases made
    exact cleaned
  · cases made

section

variable (free : ∀ source ∈ parts.source, '\x00' ∉ source)
include free

/-- `check_mount_source` asks no more of a cleaned source than `SourceAccepted`. -/
theorem cleanSource_accepted_iff (destination : Text) :
    (∃ source, cleanSource getcwd parts.source = some source ∧
      checkMountSource (partsMount parts source destination) = true) ↔
      ∀ source ∈ parts.source, SourceAccepted source := by
  cases given : parts.source with
  | none => simp [cleanSource, checkMountSource, partsMount, given]
  | some source =>
    have plain : '\x00' ∉ source := free source (by rw [given]; rfl)
    by_cases absolute : source.head? = some '/'
    · have named : utilValidVolumeName source = false :=
        Bool.eq_false_iff.mpr fun named => head?_ne_slash_of_volumeName named absolute
      have cleaned := utilCleanPath_eq_some_iff getcwd ⟨source, plain, absolute⟩
      simp only [cleanSource, checkMountSource, partsMount, given, absolute, SourceAccepted, named,
        any_some, decide_true, if_true, bind_some, map_eq_some_iff,
        mem_some_iff, forall_eq', true_and, Bool.false_eq_true, or_false]
      constructor
      · rintro ⟨_, ⟨clean, found, rfl⟩, -⟩
        exact ((cleaned clean).mp found).1
      · intro fits
        have found := (cleaned _).mpr ⟨fits, rfl⟩
        have slash := (normalPath_of_isClean
          (@utilCleanPath_isClean _ _ ⟨source, plain⟩ found)).absolute
        exact ⟨_, ⟨_, found, rfl⟩, by simp [slash]⟩
    · simp [cleanSource, checkMountSource, partsMount, given, absolute, SourceAccepted]

/-- Behind the fields a volume is refused for an unclean path, its source or its modes, and never
for its destination. -/
theorem mountOfParts_isSome_iff (destinationFree : '\x00' ∉ parts.destination) :
    (mountOfParts getcwd parts).isSome ↔
      (utilCleanPath getcwd parts.destination).isSome ∧
        (∀ source ∈ parts.source, SourceAccepted source) ∧
        ModesAccepted parts.source parts.modes := by
  cases cleaned : utilCleanPath getcwd parts.destination with
  | none => simp [mountOfParts, cleaned]
  | some destination =>
    have slash := (normalPath_of_isClean
      (@utilCleanPath_isClean _ _ ⟨parts.destination, destinationFree⟩ cleaned)).absolute
    rw [← cleanSource_accepted_iff free destination]
    cases sourced : cleanSource getcwd parts.source with
    | none => simp [mountOfParts, cleaned, sourced]
    | some source =>
      have modes := checkVolumeOpts_partsMount parts source destination
      have typed : (partsMount parts source destination).type = .bind ∨
          (partsMount parts source destination).type = .volume := by
        unfold partsMount
        dsimp only
        split
        · exact .inl rfl
        · exact .inr rfl
      have checked : checkMountElement (partsMount parts source destination) = true ↔
          checkMountSource (partsMount parts source destination) = true ∧
            ModesAccepted parts.source parts.modes := by
        have goes : (partsMount parts source destination).destination = destination := rfl
        simp [checkMountElement, typed, goes, slash, modes]
      rw [mountOfParts, cleaned, sourced, bind_eq_bind, bind_some,
        bind_eq_bind, bind_some]
      simp only [isSome_some, true_and, some.injEq, exists_eq_left', ← checked]
      split
      next passed => exact iff_of_true rfl passed
      next refused => exact iff_of_false Bool.false_ne_true refused

/-- What is left to ask of a destination that nothing in front of it has refused. -/
theorem settled_iff
    (destinationFree : '\x00' ∉ parts.destination) (named : parts.destination ≠ []) :
    (∀ getcwd mount, mountOfParts getcwd parts = some mount →
      Settled getcwd parts.destination mount.destination) ↔
      ((∀ source ∈ parts.source, SourceAccepted source) →
        ModesAccepted parts.source parts.modes →
        if parts.destination.head? = some '/' then KeepsName parts.destination
        else pathMax ≤ parts.destination.length + 2) := by
  constructor
  · intro settled source modes
    have accepted : ∀ getcwd destination, utilCleanPath getcwd parts.destination =
        some destination →
        Settled getcwd parts.destination destination := by
      intro getcwd destination cleaned
      have made : (mountOfParts getcwd parts).isSome :=
        (mountOfParts_isSome_iff free destinationFree).mpr ⟨by rw [cleaned]; rfl, source, modes⟩
      obtain ⟨mount, made⟩ := isSome_iff_exists.mp made
      have goes := mountOfParts_destination made
      rw [cleaned] at goes
      rw [some.inj goes]
      exact settled getcwd mount made
    split
    next absolute =>
      intro fits unnamed
      have cleaned := (utilCleanPath_eq_root_iff none ⟨_, destinationFree, absolute⟩).mpr
        ⟨fits, unnamed⟩
      exact (accepted _ _ cleaned).notRoot rfl
    next relative =>
      by_contra short
      obtain ⟨getcwd, cleaned⟩ :=
        (utilCleanPath_relative_iff named relative).mpr (by omega)
      obtain ⟨destination, cleaned⟩ := isSome_iff_exists.mp cleaned
      exact relative (accepted _ _ cleaned).absolute
  · intro caught getcwd mount made
    have goes := mountOfParts_destination made
    obtain ⟨-, source, modes⟩ := (mountOfParts_isSome_iff free destinationFree).mp
      (isSome_iff_exists.mpr ⟨mount, made⟩)
    have caught := caught source modes
    split at caught
    next absolute =>
      have notRoot : mount.destination ≠ ['/'] := by
        intro root
        rw [root] at goes
        obtain ⟨fits, none⟩ :=
          (utilCleanPath_eq_root_iff getcwd ⟨_, destinationFree, absolute⟩).mp goes
        exact caught fits none
      exact ⟨absolute, goes, notRoot, fun mountStr =>
        parseMountItemDst_eq_ok_iff.mpr ⟨absolute, goes, notRoot⟩⟩
    next relative =>
      have short := (utilCleanPath_relative_iff named relative).mp
        ⟨getcwd, isSome_iff_exists.mpr ⟨_, goes⟩⟩
      omega

end

end Parts

/-- `parse_volume` on a text whose fields are taken apart. -/
theorem soundDestination_of_parts {volume : CStr} {parts : VolumeParts}
    (checked : checkVolumeElement volume.1 = true)
    (fields : getSrcDstModeByVolume volume.1 = some parts)
    (written : writtenDestination volume.1 = some parts.destination) :
    SoundDestination volume ↔
      ∀ getcwd mount, mountOfParts getcwd parts = some mount →
        Settled getcwd parts.destination mount.destination := by
  unfold SoundDestination
  simp [parseVolume_eq, checked, fields, written]

theorem soundDestination_of_refused {volume : CStr}
    (refused : checkVolumeElement volume.1 = true → getSrcDstModeByVolume volume.1 = none) :
    SoundDestination volume := by
  intro getcwd mount parsed
  rw [parseVolume_eq] at parsed
  split at parsed
  next checked =>
    rw [refused checked] at parsed
    cases parsed
  · cases parsed

section Fields

variable {source destination : Text}

theorem of_checkSourceDestination (accepted : checkSourceDestination source destination = true) :
    destination.head? = some '/' ∧ destination ≠ ['/'] := by
  simp [checkSourceDestination] at accepted
  exact ⟨accepted.1.2, accepted.2⟩

theorem SourceAccepted.checkSourceDestination (accepted : SourceAccepted source)
    (absolute : destination.head? = some '/') (notRoot : destination ≠ ['/']) :
    checkSourceDestination source destination = true := by
  rcases accepted with ⟨slash, -⟩ | named
  · simp [Spec.checkSourceDestination, slash, absolute, notRoot]
  · simp [Spec.checkSourceDestination, named, absolute, notRoot]

end Fields

/-- For every volume text, what `parse_volume` makes of it goes to a destination that is written
as an absolute path, is that path cleaned and is not `/`, exactly when the text has a destination
that is fine or that the parser catches: one field that is absolute and keeps a name, or two or
three fields of which the destination keeps a name or the others are refused. -/
theorem soundDestination_iff (volume : CStr) :
    SoundDestination volume ↔ DestinationCaught volume.1 := by
  by_cases checked : checkVolumeElement volume.1 = true
  · unfold DestinationCaught
    have split : utilStringSplit volume.1 ':' = tokens ':' volume.1 := by
      have element := checked
      simp [checkVolumeElement] at element
      exact utilStringSplit_of_tokens (tokens_ne_nil element.1.1 element.1.2)
    have token : ∀ field ∈ tokens ':' volume.1, field ≠ [] ∧ '\x00' ∉ field := fun field member =>
      ⟨(of_mem_tokens member).1,
        fun nul => volume.2 ((infix_of_mem_splitOn (mem_filter.mp member).1).subset nul)⟩
    simp only [checked, true_imp_iff, split]
    match fields : tokens ':' volume.1 with
    | [] =>
      refine iff_of_true (soundDestination_of_refused fun _ => ?_) trivial
      rw [getSrcDstModeByVolume, split, fields]
    | [destination] =>
      obtain ⟨named, free⟩ := token destination (by simp [fields])
      rw [@soundDestination_of_parts volume ⟨none, destination, []⟩ checked
        (by rw [getSrcDstModeByVolume, split, fields]) (by rw [writtenDestination, split, fields]),
        settled_iff (by simp) free named]
      simp [ModesAccepted]
    | [source, destination] =>
      obtain ⟨-, sourceFree⟩ := token source (by simp [fields])
      obtain ⟨named, free⟩ := token destination (by simp [fields])
      by_cases asMode : utilValidMountMode destination = true
      · refine iff_of_true (soundDestination_of_refused fun _ => ?_) fun plain => ?_
        · simp [getSrcDstModeByVolume, split, fields, asMode]
        · rw [asMode] at plain
          cases plain
      by_cases accepted : checkSourceDestination source destination = true
      · obtain ⟨absolute, notRoot⟩ := of_checkSourceDestination accepted
        rw [@soundDestination_of_parts volume ⟨some source, destination, []⟩ checked
          (by simp [getSrcDstModeByVolume, split, fields, asMode, accepted])
          (by rw [writtenDestination, split, fields]),
          settled_iff (by simpa using sourceFree) free named]
        simp [ModesAccepted, asMode, absolute, notRoot]
      · refine iff_of_true (soundDestination_of_refused fun _ => ?_) ?_
        · simp [getSrcDstModeByVolume, split, fields, asMode, accepted]
        · intro _ source absolute notRoot
          exact absurd (source.checkSourceDestination absolute notRoot) accepted
    | [source, destination, mode] =>
      obtain ⟨-, sourceFree⟩ := token source (by simp [fields])
      obtain ⟨named, free⟩ := token destination (by simp [fields])
      by_cases accepted : utilValidMountMode mode = true ∧
          checkSourceDestination source destination = true
      · obtain ⟨absolute, notRoot⟩ := of_checkSourceDestination accepted.2
        rw [@soundDestination_of_parts volume ⟨some source, destination, utilStringSplit mode ','⟩
          checked
          (by simp [getSrcDstModeByVolume, split, fields, accepted])
          (by rw [writtenDestination, split, fields]),
          settled_iff (by simpa using sourceFree) free named]
        simp [accepted.1, absolute, notRoot]
        exact ⟨fun settled modes source => settled source modes,
          fun settled source modes => settled modes source⟩
      · refine iff_of_true (soundDestination_of_refused fun _ => ?_) ?_
        · simpa [getSrcDstModeByVolume, split, fields] using accepted
        · intro valid _ source absolute notRoot
          exact absurd ⟨valid, source.checkSourceDestination absolute notRoot⟩ accepted
    | _ :: _ :: _ :: _ :: _ =>
      refine iff_of_true (soundDestination_of_refused fun _ => ?_) trivial
      rw [getSrcDstModeByVolume, split, fields]
  · refine iff_of_true (soundDestination_of_refused fun passed => absurd passed checked) ?_
    exact fun passed => absurd passed checked

/-- A volume over the whole root file system of the container, and a relative destination. -/
theorem parseVolume_unsettled :
    (parseVolume none "vol:/.".toList).map Mount.destination = some ['/'] ∧
      (parseVolume (some rootDir) "data".toList).map Mount.destination = some "/data".toList ∧
      ¬ SoundDestination ⟨"vol:/.".toList, by decide⟩ ∧
      ¬ SoundDestination ⟨"data".toList, by decide⟩ := by
  have root : (parseVolume none "vol:/.".toList).map Mount.destination = some ['/'] := by
    decide +kernel
  have relative : (parseVolume (some rootDir) "data".toList).map Mount.destination =
      some "/data".toList := by decide +kernel
  refine ⟨root, relative, fun sound => ?_, fun sound => ?_⟩
  · obtain ⟨mount, parsed, goes⟩ := map_eq_some_iff.mp root
    obtain ⟨_, _, settled⟩ := sound none mount parsed
    exact settled.notRoot goes
  · obtain ⟨mount, parsed, _⟩ := map_eq_some_iff.mp relative
    obtain ⟨written, field, settled⟩ := sound (some rootDir) mount parsed
    have named : writtenDestination "data".toList = some "data".toList := by decide +kernel
    cases field.symm.trans named
    exact absurd settled.absolute (by decide)

end Isulad.Spec
