import Isulad.Path.Clean
import Isulad.Std.Base64
import Isulad.Storage.LayerStore

/-!
# The files of big data

`make_big_data_base_name` of `utils_images.c` keeps a key of digits, lower-case letters and dots as
the name of its file and encodes any other in base64, behind a `=`. The file lies in the directory
of the image, next to the record `images.json`.
-/

namespace Isulad.Storage

open Isulad.Std Isulad.Path

/-- `should_use_origin_name`. -/
def shouldUseOriginName (name : Text) : Bool :=
  name.all fun ch => decide (ch = '.' ∨ ('0' ≤ ch ∧ ch ≤ '9') ∨ ('a' ≤ ch ∧ ch ≤ 'z'))

/-- `make_big_data_base_name`. `encodes`: nothing fails in the encoder. -/
def makeBigDataBaseName (encodes : Bool) (key : Text) : Option Text :=
  if shouldUseOriginName key then some key
  else if encodes then some ('=' :: Base64.encode (key.map Char.toNat))
  else none

/-- `IMAGE_JSON`. -/
def imageJson : Text := "images.json".toList

/-- `snprintf` into a buffer of `PATH_MAX` bytes, checked for truncation. -/
def printPath (text : Text) : Option Text := if pathMax ≤ text.length then none else some text

/-- `get_image_path`. -/
def getImagePath (dir id : Text) : Option Text := printPath (spell dir [id, imageJson])

/-- `get_data_dir`. -/
def getDataDir (dir id : Text) : Option Text := printPath (spell dir [id])

/-- `get_data_path`. -/
def getDataPath (encodes : Bool) (dir id key : Text) : Option Text :=
  (makeBigDataBaseName encodes key).bind fun name =>
    (getDataDir dir id).bind fun dataDir => printPath (spell dataDir [name])

/-- A key that is not empty, as the bytes of a C string. -/
structure BigDataKey where
  text : Text
  named : text ≠ []
  free : '\x00' ∉ text
  bytes : ∀ ch ∈ text, ch.toNat < 256

namespace BigDataKey

/-- A key that is kept is none of three names, and no group of six bits of one that is encoded
consists of ones: base64 writes these as a slash. -/
def Plain (key : BigDataKey) : Prop :=
  if shouldUseOriginName key.text then
    key.text ≠ ['.'] ∧ key.text ≠ ['.', '.'] ∧ key.text ≠ imageJson
  else ¬ Base64.SixOnes (key.text.map Char.toNat)

variable {key other : BigDataKey} {encodes : Bool} {name : Text}

theorem byte_lt (key : BigDataKey) : ∀ byte ∈ key.text.map Char.toNat, byte < 256 :=
  List.forall_mem_map.mpr key.bytes

section

variable (made : makeBigDataBaseName encodes key.text = some name)
include made

theorem makeBigDataBaseName_eq_some :
    (shouldUseOriginName key.text = true ∧ name = key.text) ∨
      (shouldUseOriginName key.text = false ∧
        name = '=' :: Base64.encode (key.text.map Char.toNat)) := by
  unfold makeBigDataBaseName at made
  split at made
  next kept => exact .inl ⟨kept, (Option.some.inj made).symm⟩
  rename_i encoded
  refine .inr ⟨by simpa using encoded, ?_⟩
  split at made
  · exact (Option.some.inj made).symm
  · cases made

/-- Keys with the same file are the same: a kept key has no `=`. -/
theorem eq_of_makeBigDataBaseName
    (again : makeBigDataBaseName encodes other.text = some name) : other = key := by
  have text : other.text = key.text := by
    rcases makeBigDataBaseName_eq_some made with ⟨kept, rfl⟩ | ⟨encoded, rfl⟩
    · rcases makeBigDataBaseName_eq_some again with ⟨-, same⟩ | ⟨-, same⟩
      · exact same.symm
      · rw [same] at kept
        simp [shouldUseOriginName] at kept
    · rcases makeBigDataBaseName_eq_some again with ⟨kept, same⟩ | ⟨-, same⟩
      · rw [← same] at kept
        simp [shouldUseOriginName] at kept
      · have bytes := Base64.encode_injective other.byte_lt key.byte_lt (List.cons.inj same).2.symm
        exact List.map_injective_iff.mpr (fun _ _ => Char.toNat_inj.mp) bytes
  obtain ⟨_, _, _, _⟩ := key
  cases text
  rfl

/-- The name is a component of its own and not that of the record exactly if the key is plain. -/
theorem component_iff : IsName name ∧ name ≠ imageJson ↔ key.Plain := by
  unfold Plain
  rcases makeBigDataBaseName_eq_some made with ⟨kept, rfl⟩ | ⟨encoded, rfl⟩
  · rw [if_pos kept]
    have noSlash : '/' ∉ key.text := fun slash => by
      have allowed := List.all_eq_true.mp kept '/' slash
      revert allowed
      decide
    exact ⟨fun safe => ⟨safe.1.notDot, safe.1.notDotDot, safe.2⟩,
      fun plain => ⟨⟨key.named, noSlash, key.free, plain.1, plain.2.1⟩, plain.2.2⟩⟩
  · have slash := Base64.slash_mem_encode_iff key.byte_lt
    have nul := Base64.nul_notMem_encode key.byte_lt
    rw [if_neg (by simp [encoded]), ← slash]
    constructor
    · exact fun safe member => safe.1.noSlash (List.mem_cons_of_mem _ member)
    · intro plain
      refine ⟨⟨nofun, by simpa using plain, by simpa using nul, by simp, by simp⟩, fun record => ?_⟩
      have first : imageJson.head? = some 'i' := by decide +kernel
      rw [← record] at first
      exact absurd first (by simp)

end

end BigDataKey

/-- A path that has been printed behind a directory. -/
theorem printPath_eq_some {text path : Text} (printed : printPath text = some path) :
    path = text := by
  unfold printPath at printed
  split at printed
  · cases printed
  · exact (Option.some.inj printed).symm

theorem getDataPath_eq_some {encodes : Bool} {dir id key path : Text}
    (found : getDataPath encodes dir id key = some path) :
    ∃ name, makeBigDataBaseName encodes key = some name ∧ path = spell dir [id, name] := by
  obtain ⟨name, made, found⟩ := Option.bind_eq_some_iff.mp found
  obtain ⟨dataDir, inDir, printed⟩ := Option.bind_eq_some_iff.mp found
  refine ⟨name, made, ?_⟩
  rw [printPath_eq_some printed, printPath_eq_some inDir, ← spell_append]
  rfl

/-- No two keys have the same file, and a key is written to a file of its own in the directory of
the image exactly if it is plain. -/
theorem makeBigDataBaseName_iff (key : BigDataKey) :
    (∀ encodes name other, makeBigDataBaseName encodes key.text = some name →
      makeBigDataBaseName encodes other.text = some name → other = key) ∧
    ((∀ encodes name, makeBigDataBaseName encodes key.text = some name →
      IsName name ∧ name ≠ imageJson) ↔ key.Plain) ∧
    (key.Plain → ∀ encodes dir id path, getDataPath encodes dir id key.text = some path →
      (∃ name, IsName name ∧ path = spell dir [id, name]) ∧ getImagePath dir id ≠ some path ∧
        ∀ other : BigDataKey, getDataPath encodes dir id other.text = some path → other = key) := by
  refine ⟨fun _ _ _ made again => BigDataKey.eq_of_makeBigDataBaseName made again, ?_, ?_⟩
  · constructor
    · intro safe
      have made : ∃ name, makeBigDataBaseName true key.text = some name := by
        unfold makeBigDataBaseName
        split <;> exact ⟨_, rfl⟩
      obtain ⟨name, made⟩ := made
      exact (BigDataKey.component_iff made).mp (safe true name made)
    · exact fun plain _ _ made => (BigDataKey.component_iff made).mpr plain
  · intro plain encodes dir id path found
    obtain ⟨name, made, rfl⟩ := getDataPath_eq_some found
    obtain ⟨isName, notRecord⟩ := (BigDataKey.component_iff made).mpr plain
    refine ⟨⟨name, isName, rfl⟩, fun record => ?_, fun other same => ?_⟩
    · have printed := printPath_eq_some record
      simp [spell] at printed
      exact notRecord printed
    · obtain ⟨otherName, otherMade, printed⟩ := getDataPath_eq_some same
      simp [spell] at printed
      exact BigDataKey.eq_of_makeBigDataBaseName made (printed ▸ otherMade)

/-- Keys that are written to the image's directory itself, to its parent, over the record of the
image and into a subdirectory. -/
theorem makeBigDataBaseName_slip :
    makeBigDataBaseName true ['.'] = some ['.'] ∧
    makeBigDataBaseName true ['.', '.'] = some ['.', '.'] ∧
    makeBigDataBaseName true imageJson = some imageJson ∧
    makeBigDataBaseName true "aa?".toList = some "=YWE/".toList := by
  decide +kernel

end Isulad.Storage
