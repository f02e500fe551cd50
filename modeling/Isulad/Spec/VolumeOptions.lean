import Isulad.Spec.VolumeDestination

/-!
# The options of a `-v` volume

`parse_volume` writes the modes into four zeroed slots. `append_default_mount_options` then appends
to them with `util_array_append`, which finds the end of the array by its first `NULL`.
-/

namespace Isulad.Spec

open List Option Isulad.Std Isulad.Path

/-- `options` and `options_len` of a `defs_mount`. -/
structure OptionArray where
  slots : List (Option Text)
  len : Nat

variable {options : List Text} {array : OptionArray}

/-- `util_array_len`, unless it reads past the array. -/
def utilArrayLen (slots : List (Option Text)) : Option Nat := slots.findIdx? isNone

/-- `util_array_append`, and the length counted up. -/
def OptionArray.append (array : OptionArray) (option : Text) : Option OptionArray :=
  (utilArrayLen array.slots).map fun len =>
    ⟨array.slots.take len ++ [some option, none], array.len + 1⟩

/-- A mode written at the length of the array. -/
def OptionArray.put (array : OptionArray) (option : Text) : OptionArray :=
  ⟨array.slots.set array.len (some option), array.len + 1⟩

/-- The array that `parse_volume` leaves: up to four modes are put into the slots, and the defaults
of the type are appended. -/
def volumeArray (parts : VolumeParts) : Option OptionArray :=
  let rw := lastOfKind .rw parts.modes
  let pro := lastOfKind .propagation parts.modes
  let label := lastOfKind .label parts.modes
  let nocopy := lastOfKind .copy parts.modes
  let fromHost := parts.source.any fun source => source.head? = some '/'
  let filled := (rw.toList ++ pro.toList ++ label.toList ++ nocopy.toList).foldl .put
    ⟨replicate 4 none, 0⟩
  (defaultMountOptions (if fromHost then .bind else .volume) rw.isSome pro.isSome
    label.isSome).foldlM OptionArray.append filled

/-- The array has the options and its length counts them; a `NULL` follows. -/
def OptionArray.Holds (array : OptionArray) (options : List Text) : Prop :=
  array.len = options.length ∧ ∃ rest, array.slots = options.map some ++ none :: rest

/-- How many of the options are of a kind. -/
def ofKind (kind : ModeKind) (options : List Text) : Nat :=
  options.countP fun option => modeKind option = some kind

theorem OptionArray.Holds.append (held : array.Holds options) (option : Text) :
    ∃ next, array.append option = some next ∧ next.Holds (options ++ [option]) := by
  obtain ⟨counted, rest, slots⟩ := held
  have len : utilArrayLen array.slots = some options.length := by
    have full : (options.map some).findIdx? isNone = none := by simp [findIdx?_eq_none_iff]
    simp [utilArrayLen, slots, findIdx?_append, findIdx?_cons, full]
  refine ⟨_, by rw [OptionArray.append, len]; rfl, by simp [counted], [], ?_⟩
  simp [slots]

theorem OptionArray.Holds.appended (held : array.Holds options) (added : List Text) :
    ∃ last, added.foldlM OptionArray.append array = some last ∧ last.Holds (options ++ added) := by
  induction added generalizing array options with
  | nil => exact ⟨array, rfl, by simpa using held⟩
  | cons option more run =>
    obtain ⟨next, appended, held⟩ := held.append option
    obtain ⟨last, ran, held⟩ := run held
    exact ⟨last, by rw [foldlM_cons, appended]; exact ran, by simpa using held⟩

theorem ofKind_append (kind : ModeKind) (options more : List Text) :
    ofKind kind (options ++ more) = ofKind kind options + ofKind kind more := countP_append

theorem ofKind_lastOfKind (kind other : ModeKind) (modes : List Text) :
    ofKind kind (lastOfKind other modes).toList =
      if kind = other then (lastOfKind other modes).isSome.toNat else 0 := by
  cases last : lastOfKind other modes with
  | none => simp [ofKind]
  | some mode => simp [ofKind, modeKind_of_lastOfKind last, eq_comm]

theorem ofKind_defaultMountOptions (kind : ModeKind) (hasRo hasPro hasSel : Bool) :
    ofKind kind (defaultMountOptions .bind hasRo hasPro hasSel) =
      (kind = .rw && !hasRo || kind = .propagation && !hasPro).toNat ∧
    ofKind kind (defaultMountOptions .volume hasRo hasPro hasSel) =
      (kind = .label && !hasSel).toNat := by
  cases kind <;> revert hasRo hasPro hasSel <;> decide

variable {parts : VolumeParts} {source : Option Text} {destination : Text}

theorem partsMount_missing (taken : ModesAccepted parts.source parts.modes) :
    (partsMount parts source destination).type = .bind ∧ lastOfKind .copy parts.modes = none ∨
      (partsMount parts source destination).type = .volume ∧
        lastOfKind .propagation parts.modes = none := by
  unfold ModesAccepted at taken
  rw [← lastOfKind_eq_none_iff, ← lastOfKind_eq_none_iff] at taken
  split at taken
  next fromHost => exact .inl ⟨if_pos fromHost, taken⟩
  next volume => exact .inr ⟨if_neg volume, taken⟩

/-- A kind is missing, so a slot stays empty. -/
theorem holds_partsMount (taken : ModesAccepted parts.source parts.modes) :
    ((partsMount parts source destination).options.foldl OptionArray.put
      ⟨replicate 4 none, 0⟩).Holds (partsMount parts source destination).options := by
  have missing := @partsMount_missing parts source destination taken
  unfold partsMount
  obtain ⟨-, missing⟩ | ⟨-, missing⟩ := missing
  all_goals
    rw [missing]
    cases lastOfKind .rw parts.modes <;> cases lastOfKind .label parts.modes
  all_goals first
    | cases lastOfKind .copy parts.modes <;> exact ⟨rfl, _, rfl⟩
    | cases lastOfKind .propagation parts.modes <;> exact ⟨rfl, _, rfl⟩

theorem ofKind_partsMount (kind : ModeKind) :
    ofKind kind (partsMount parts source destination).options =
      (lastOfKind kind parts.modes).isSome.toNat := by
  simp only [partsMount, ofKind_append, ofKind_lastOfKind]
  cases kind <;> simp

/-- An accepted volume has an array of at most one option of a kind. A bind mount has one mode for
writing and one for propagation, a volume none for propagation. -/
theorem parseVolume_options {getcwd : Option WorkingDir} {volume : Text} {mount : Mount}
    (accepted : parseVolume getcwd volume = some mount) :
    (∃ parts array, getSrcDstModeByVolume volume = some parts ∧
      volumeArray parts = some array ∧ array.Holds mount.options) ∧
    (∀ kind, ofKind kind mount.options ≤ 1) ∧
    (mount.type = .bind ∧ ofKind .rw mount.options = 1 ∧ ofKind .propagation mount.options = 1 ∨
      mount.type = .volume ∧ ofKind .propagation mount.options = 0) := by
  rw [parseVolume_eq] at accepted
  obtain ⟨parts, fields, made⟩ := bind_eq_some_iff.mp (ite_none_right_eq_some.mp accepted).2
  obtain ⟨destination, -, made⟩ := bind_eq_some_iff.mp made
  obtain ⟨source, -, made⟩ := bind_eq_some_iff.mp made
  obtain ⟨passed, made⟩ := ite_none_right_eq_some.mp made
  cases made
  have taken := (checkVolumeOpts_partsMount parts source destination).mp
    (by simp_all [checkMountElement])
  constructor
  · obtain ⟨array, ran, held⟩ := (@holds_partsMount parts source destination taken).appended
      (defaultMountOptions _ _ _ _)
    exact ⟨parts, array, fields, ran, held⟩
  · simp only [appendDefaultMountOptions, ofKind_append, ofKind_partsMount]
    have default : ∀ mode : Option Text, mode.isSome.toNat + mode.isNone.toNat = 1 := by
      rintro (_ | _) <;> rfl
    obtain ⟨type, missing⟩ | ⟨type, missing⟩ := @partsMount_missing parts source destination taken
    · simp only [type, (ofKind_defaultMountOptions _ _ _ _).1]
      refine ⟨fun kind => ?_, .inl ⟨trivial, ?_, ?_⟩⟩
      · cases kind <;> simp [default, Bool.toNat_le]
      · simp [default]
      · simp [default]
    · simp only [type, (ofKind_defaultMountOptions _ _ _ _).2]
      refine ⟨fun kind => ?_, .inr ⟨trivial, ?_⟩⟩
      · cases kind <;> simp [default, Bool.toNat_le]
      · simp [missing]

theorem parseVolume_options_bind :
    ∃ mount, parseVolume none "/a:/b:ro".toList = some mount ∧ mount.type = .bind ∧
      ofKind .rw mount.options = 1 ∧ ofKind .propagation mount.options = 1 := by
  have accepted : parseVolume none "/a:/b:ro".toList = some
      { type := .bind, source := some "/a".toList, destination := "/b".toList
        options := ["ro".toList, "rprivate".toList, "rbind".toList] } := by decide +kernel
  obtain ⟨-, -, bind | volume⟩ := parseVolume_options accepted
  · exact ⟨_, accepted, bind⟩
  · cases volume.1

end Isulad.Spec
