import Mathlib.Algebra.Group.Int.Defs
import Isulad.Path.Clean
import Isulad.Path.Fields
import Isulad.Spec.Capabilities

/-!
# Mounts and the texts they are given as

The parsers of `spec/specs_mount.c` and `spec/parse_volume.c` for one mount: `--mount`,
`-v`, `--tmpfs` and the volumes of an image. Memory is never short, so `parse_mount` always
succeeds; the others return `none` where the source returns `NULL`.
-/

namespace Isulad.Spec

open Isulad.Std Isulad.Path

variable (mode : Text)

/-- `util_valid_rw_mode`. -/
def utilValidRwMode : Bool := mode ∈ ["rw".toList, "ro".toList]

/-- `util_valid_label_mode`. -/
def utilValidLabelMode : Bool := mode ∈ ["z".toList, "Z".toList]

/-- `util_valid_copy_mode`. -/
def utilValidCopyMode : Bool := mode = "nocopy".toList

/-- `util_valid_propagation_mode`. -/
def utilValidPropagationMode : Bool :=
  mode ∈ ["private".toList, "rprivate".toList, "slave".toList, "rslave".toList,
    "shared".toList, "rshared".toList]

/-- What a mode is about. -/
inductive ModeKind where
  | rw | propagation | label | copy
  deriving DecidableEq

/-- The chain of tests in `util_valid_mount_mode`. -/
def modeKind : Option ModeKind :=
  if utilValidRwMode mode then some .rw
  else if utilValidPropagationMode mode then some .propagation
  else if utilValidLabelMode mode then some .label
  else if utilValidCopyMode mode then some .copy
  else none

/-- `util_valid_mount_mode`: known modes, at most one of a kind. -/
def utilValidMountMode : Bool :=
  match (utilStringSplit mode ',').mapM modeKind with
  | none => false
  | some kinds => [.rw, .propagation, .label, .copy].all fun kind => kinds.count kind ≤ 1

/-- `util_valid_volume_name`. -/
def utilValidVolumeName : Text → Bool
  | [] => false
  | first :: rest =>
    first.isAlphanum && 1 ≤ rest.length && rest.length ≤ 63 &&
      rest.all fun char => char.isAlphanum || char ∈ ['_', '.', '-']

/-- The type of a mount, a text of which four values have a meaning. -/
inductive MountType where
  | bind | volume | squashfs | tmpfs
  | other (name : Text)
  deriving DecidableEq

/-- `defs_mount`. -/
structure Mount where
  type : MountType
  source : Option Text
  destination : Text
  options : List Text := []
  named : Bool := false
  deriving DecidableEq

variable (mount : Mount) (getcwd : Option WorkingDir) (volume : Text)

/-- `util_array_append(&m->options, option)`. -/
def Mount.append (option : Text) : Mount :=
  { mount with options := mount.options ++ [option] }

/-- `append_default_tmpfs_options`. -/
def appendDefaultTmpfsOptions : Mount :=
  (((mount.append "noexec".toList).append "nosuid".toList).append "nodev".toList).append
    "rprivate".toList

/-- The options `append_default_mount_options` adds to a mount of a type. -/
def defaultMountOptions (type : MountType) (hasRo hasPro hasSel : Bool) : List Text :=
  match type with
  | .bind =>
    (if hasRo then [] else ["rw".toList]) ++ (if hasPro then [] else ["rprivate".toList]) ++
      ["rbind".toList]
  | .volume => (if hasSel then [] else ["z".toList]) ++ ["rbind".toList]
  | .tmpfs => ["noexec".toList, "nosuid".toList, "nodev".toList, "rprivate".toList]
  | .squashfs => []
  | .other _ => []

/-- `append_default_mount_options`. -/
def appendDefaultMountOptions (hasRo hasPro hasSel : Bool) : Mount :=
  { mount with options := mount.options ++ defaultMountOptions mount.type hasRo hasPro hasSel }

/-- `bind_options`. -/
structure BindOptions where
  propagation : Option Text := none
  selinuxOpts : Option Text := none

/-- `tmpfs_options`. -/
structure TmpfsOptions where
  sizeBytes : Int := 0
  mode : Nat := 0

/-- `mount_spec`. -/
structure MountSpec where
  type : MountType
  source : Option Text := none
  target : Text
  readonly : Bool := false
  bindOptions : Option BindOptions := none
  /-- `volume_options`, of which only `no_copy` is used. -/
  noCopy : Option Bool := none
  tmpfsOptions : Option TmpfsOptions := none

/-- `append_tmpfs_option_size`, the size as a `size_t`. -/
def tmpfsOptionSize (sizeBytes : Int) : List Text :=
  let size := (sizeBytes % 2 ^ 64).toNat
  if size = 0 then [] else ["size=".toList ++ Nat.toDigits 10 size]

/-- `append_tmpfs_option_mode`. -/
def tmpfsOptionMode (mode : Nat) : List Text :=
  if mode = 0 then [] else ["mode=".toList ++ Nat.toDigits 8 mode]

/-- `parse_mount`. -/
def parseMount (spec : MountSpec) : Mount :=
  let source := if spec.type = .tmpfs then some "tmpfs".toList else spec.source
  let propagation := spec.bindOptions.bind (·.propagation)
  let selinuxOpts := spec.bindOptions.bind (·.selinuxOpts)
  let tmpfs := if spec.type = .tmpfs then
      spec.tmpfsOptions.elim [] fun options =>
        tmpfsOptionSize options.sizeBytes ++ tmpfsOptionMode options.mode
    else []
  appendDefaultMountOptions
    { type := spec.type
      source := source
      destination := spec.target
      named := spec.type = .volume && source.isSome
      options := (if spec.readonly then ["ro".toList] else []) ++ propagation.toList ++
        selinuxOpts.toList ++ (if spec.noCopy = some true then ["nocopy".toList] else []) ++ tmpfs }
    true propagation.isSome selinuxOpts.isSome

/-- `check_volume_element`. -/
def checkVolumeElement : Bool :=
  volume ≠ [] && volume.head? ≠ some ':' && volume.getLast? ≠ some ':'

/-- Source, destination and modes of a volume text. -/
structure VolumeParts where
  source : Option Text
  destination : Text
  modes : List Text

/-- The checks at the end of `get_src_dst_mode_by_volume`. -/
def checkSourceDestination (source destination : Text) : Bool :=
  (source.head? = some '/' || utilValidVolumeName source) &&
    destination.head? = some '/' && destination ≠ ['/']

/-- `get_src_dst_mode_by_volume`. -/
def getSrcDstModeByVolume : Option VolumeParts :=
  match utilStringSplit volume ':' with
  -- an anonymous volume, which skips the checks
  | [destination] => some ⟨none, destination, []⟩
  | [source, destination] =>
    if utilValidMountMode destination then none
    else if checkSourceDestination source destination then some ⟨some source, destination, []⟩
    else none
  | [source, destination, mode] =>
    if utilValidMountMode mode && checkSourceDestination source destination then
      some ⟨some source, destination, utilStringSplit mode ','⟩
    else none
  | _ => none

/-- `check_mount_source`. -/
def checkMountSource : Bool :=
  (mount.type = .volume || mount.source.any fun source => source.head? = some '/') &&
    mount.source.all fun source => source.head? = some '/' || utilValidVolumeName source

/-- `check_volume_opts`. -/
def checkVolumeOpts : Bool :=
  let common := ["ro".toList, "rw".toList, "z".toList, "Z".toList]
  match mount.type with
  | .bind => mount.options.all fun option => option ∈ common || utilValidPropagationMode option
  | .volume => mount.options.all fun option => option ∈ common || utilValidCopyMode option
  | _ => true

/-- `check_mount_element`. -/
def checkMountElement : Bool :=
  (mount.type = .bind || mount.type = .volume) && checkMountSource mount &&
    mount.destination.head? = some '/' && checkVolumeOpts mount

/-- The last mode of a kind, as the loop of `parse_volume` keeps it. -/
def lastOfKind (kind : ModeKind) (modes : List Text) : Option Text :=
  (modes.filter fun mode => modeKind mode = some kind).getLast?

/-- `parse_volume`. -/
def parseVolume : Option Mount := do
  if !checkVolumeElement volume then none
  let parts ← getSrcDstModeByVolume volume
  let rw := lastOfKind .rw parts.modes
  let pro := lastOfKind .propagation parts.modes
  let label := lastOfKind .label parts.modes
  let nocopy := lastOfKind .copy parts.modes
  let destination ← utilCleanPath getcwd parts.destination
  let fromHost := parts.source.any fun source => source.head? = some '/'
  let source ← if fromHost then (parts.source.bind (utilCleanPath getcwd)).map some
    else some parts.source
  let mount : Mount :=
    { type := if fromHost then .bind else .volume
      source := source
      destination := destination
      options := rw.toList ++ pro.toList ++ label.toList ++ nocopy.toList
      named := !fromHost && source.isSome }
  if checkMountElement mount then
    some (appendDefaultMountOptions mount rw.isSome pro.isSome label.isSome)
  else none

/-- `get_valid_tmpfs_dst_path`. -/
def getValidTmpfsDstPath (tmpfs : Text) : Option Text :=
  if tmpfs.head? ≠ some '/' then none
  else (utilCleanPath getcwd tmpfs).filter fun path => path ≠ ['/']

/-- `parse_tmpfs`. -/
def parseTmpfs (tmpfs : Text) : Option Mount :=
  (getValidTmpfsDstPath getcwd tmpfs).map fun path =>
    appendDefaultTmpfsOptions { type := .tmpfs, source := some "tmpfs".toList, destination := path }

/-- `parse_anonymous_volume`. -/
def parseAnonymousVolume : Option Mount := do
  let path ← utilCleanPath getcwd volume
  if path.head? ≠ some '/' || path = ['/'] then none
  else some (appendDefaultMountOptions { type := .volume, source := none, destination := path }
    false false false)

end Isulad.Spec
