import Mathlib.Data.List.DropRight
import Isulad.Spec.MountSpec

/-!
# Names of images

`oci_normalize_image_name` of `image/oci/utils_images.c` adds the default tag to a name and strips
the host and the repository that are meant when none is given, each of them once.
-/

namespace Isulad.Registry

open List Isulad.Std Isulad.Path Isulad.Spec

/-- `MAX_IMAGE_NAME_LEN`. -/
def maxImageNameLen : Nat := 255

/-- `util_tag_pos`: what stands before the last colon, and the tag from there on. -/
def utilTagPos (ref : Text) : Option (Text × Text) :=
  let tag := ref.rtakeWhile (· ≠ ':')
  if ':' ∈ ref ∧ '/' ∉ tag then some (ref.take (ref.length - tag.length - 1), ':' :: tag) else none

/-- `^:([A-Za-z_0-9][A-Za-z_0-9.-]{0,127})$`, the `__TagPattern`. -/
def matchesTagPattern : Text → Bool
  | ':' :: first :: rest =>
    (first.isAlphanum || first == '_') && decide (rest.length ≤ 127) &&
      rest.all fun char => char.isAlphanum || ['_', '.', '-'].contains char
  | _ => false

/-- `[a-zA-Z0-9]|[a-zA-Z0-9][a-zA-Z0-9-]*[a-zA-Z0-9]`, a part of a host. -/
def isLabel (label : Text) : Bool :=
  label.head?.any Char.isAlphanum && label.getLast?.any Char.isAlphanum &&
    label.all fun char => char.isAlphanum || char == '-'

/-- Such parts with dots between them, and `(:[0-9]+)?`. -/
def isHost (host : Text) : Bool :=
  let port := host.dropWhile (· ≠ ':')
  ((host.takeWhile (· ≠ ':')).splitOn '.').all isLabel &&
    (port.isEmpty || !port.tail.isEmpty && port.tail.all Char.isDigit)

/-- `[a-z0-9]+((([._]|__|[-]*)[a-z0-9]+)+)?`: runs of `[a-z0-9]` with separators between them. -/
def isComponent (part : Text) : Bool :=
  let plain : Char → Bool := fun char => char.isLower || char.isDigit
  part.head?.any plain && part.getLast?.any plain &&
    (part.splitBy fun char next => plain char == plain next).all fun run =>
      run.all plain || [['.'], ['_'], ['_', '_']].contains run || run.all (· == '-')

/-- The `__NamePattern`: components with slashes between them, behind a host or not. -/
def matchesNamePattern (name : Text) : Bool :=
  match name.splitOn '/' with
  | [] => false
  | first :: rest => rest.all isComponent && (isComponent first || !rest.isEmpty && isHost first)

/-- `util_valid_image_name`. -/
def utilValidImageName (name : Text) : Bool :=
  decide (name.length ≤ maxImageNameLen) &&
    match utilTagPos name with
    | some (copy, tag) => matchesTagPattern tag && matchesNamePattern copy
    | none => matchesNamePattern name

/-- A name that `util_valid_image_name` accepts. -/
abbrev ImageName := {name : Text // utilValidImageName name = true}

/-- `DEFAULT_TAG`. -/
def defaultTag : Text := ":latest".toList

/-- `HOSTNAME_TO_STRIP`. -/
def hostnameToStrip : Text := "docker.io/".toList

/-- `REPO_PREFIX_TO_STRIP`. -/
def repoPrefixToStrip : Text := "library/".toList

variable {start name text : Text}

/-- `get_last_part` of the parts of a name. -/
def getLastPart (name : Text) : Text := (utilStringSplit name '/').getLastD []

/-- `oci_default_tag`. -/
def ociDefaultTag (name : Text) : Option Text :=
  let temp := if ':' ∈ getLastPart name then name else name ++ defaultTag
  if temp.length < Path.pathMax then some temp else none

/-- One of the steps of `oci_strip_dockerio_prefix`. -/
def strip (start name : Text) : Text := if start <+: name then name.drop start.length else name

/-- `oci_strip_dockerio_prefix`. -/
def ociStripDockerioPrefix (name : Text) : Text :=
  strip repoPrefixToStrip (strip hostnameToStrip name)

/-- `oci_normalize_image_name`. -/
def ociNormalizeImageName (name : Text) : Option Text :=
  (ociDefaultTag name).map ociStripDockerioPrefix

/-- What a name starts with if a second round strips more of it. -/
def strippedTwice : List Text :=
  let host := hostnameToStrip
  let repo := repoPrefixToStrip
  [host ++ host, host ++ (repo ++ host), host ++ (repo ++ repo), repo ++ host, repo ++ repo]

theorem ImageName.length_le (name : ImageName) : name.1.length ≤ maxImageNameLen := by
  have valid := name.2
  rw [utilValidImageName, Bool.and_eq_true, decide_eq_true_eq] at valid
  exact valid.1

theorem strip_append : strip start (start ++ text) = text := by
  simp [strip]

theorem getLastPart_eq (name : Text) : getLastPart name = (tokens '/' name).getLastD [] := by
  unfold getLastPart utilStringSplit
  split <;> simp_all

theorem getLastPart_append {word : Text} (free : '/' ∉ word) (rest : Text) :
    getLastPart (word ++ '/' :: rest) = if tokens '/' rest = [] then word
      else getLastPart rest := by
  rw [getLastPart_eq, getLastPart_eq, tokens_append_cons free]
  cases tokens '/' rest with
  | nil => by_cases empty : word = [] <;> simp [empty]
  | cons part parts => simp [getLast?_cons]

/-- A name that has got the default tag has it in its last part. -/
theorem colon_mem_getLastPart (name : Text) : ':' ∈ getLastPart (name ++ defaultTag) := by
  induction length : name.length using Nat.strongRecOn generalizing name with
  | ind count ih =>
  by_cases slash : '/' ∈ name
  · obtain ⟨word, rest, rfl, free⟩ := eq_append_cons_of_mem slash
    have later := ih rest.length (by simp at length; omega) rest rfl
    rw [append_assoc, cons_append, getLastPart_append free, if_neg]
    · exact later
    · intro none
      simp [getLastPart_eq, none] at later
  · have nonempty : defaultTag ≠ [] := by decide
    have free : '/' ∉ defaultTag := by decide
    have colon : ':' ∈ defaultTag := by decide
    have single : tokens '/' (name ++ defaultTag) = [name ++ defaultTag] :=
      tokens_eq_singleton_iff.mpr ⟨by simp [nonempty], by simp [free, slash]⟩
    rw [getLastPart_eq, single]
    simp [colon]

theorem colon_mem_strip {word : Text} (free : '/' ∉ word) (plain : ':' ∉ word)
    (tagged : ':' ∈ getLastPart name) : ':' ∈ getLastPart (strip (word ++ ['/']) name) := by
  unfold strip
  split
  next begins =>
    obtain ⟨rest, rfl⟩ := begins
    rw [append_assoc, singleton_append, getLastPart_append free] at tagged
    rw [drop_left]
    split at tagged
    · exact absurd tagged plain
    · exact tagged
  · exact tagged

theorem strip_suffix : strip start name <:+ name := by
  unfold strip
  split
  · exact drop_suffix _ name
  · exact suffix_rfl

theorem strip_eq_iff (named : start ≠ []) : strip start name = name ↔ ¬ start <+: name := by
  unfold strip
  split
  next begins =>
    have shorter := begins.length_le
    have nonempty := length_pos_iff.mpr named
    refine iff_of_false (fun same => ?_) (not_not_intro begins)
    have length := congrArg length same
    rw [length_drop] at length
    omega
  next other => simp [other]

/-- A round strips nothing exactly if there is neither of the prefixes. -/
theorem ociStripDockerioPrefix_eq_iff : ociStripDockerioPrefix name = name ↔
    ¬ hostnameToStrip <+: name ∧ ¬ repoPrefixToStrip <+: name := by
  rw [← strip_eq_iff (by decide), ← strip_eq_iff (by decide), ociStripDockerioPrefix]
  constructor
  · intro same
    have whole : strip hostnameToStrip name = name := by
      refine strip_suffix.eq_of_length_le ?_
      rw [← congrArg length same]
      exact strip_suffix.length_le
    rw [whole] at same
    exact ⟨whole, same⟩
  · rintro ⟨host, repo⟩
    rw [host, repo]

theorem ociStripDockerioPrefix_twice_iff :
    ociStripDockerioPrefix (ociStripDockerioPrefix name) = ociStripDockerioPrefix name ↔
      ∀ start ∈ strippedTwice, ¬ start <+: name := by
  have apart : ∀ {text}, repoPrefixToStrip <+: text → ¬ hostnameToStrip <+: text := fun repo host =>
    absurd ( prefix_or_prefix_of_prefix host repo) (by decide)
  have longer : ∀ {start text : Text} more, ¬ start <+: text → ¬ start ++ more <+: text :=
    fun more other begins => other ((prefix_append _ more).trans begins)
  rw [ociStripDockerioPrefix_eq_iff, ociStripDockerioPrefix]
  simp only [strippedTwice, forall_mem_cons, not_mem_nil, false_imp_iff, implies_true, and_true]
  by_cases host : hostnameToStrip <+: name
  · have other : ¬ repoPrefixToStrip <+: name := fun repo => apart repo host
    obtain ⟨rest, rfl⟩ := host
    rw [@strip_append hostnameToStrip]
    by_cases repo : repoPrefixToStrip <+: rest
    · have second := apart repo
      obtain ⟨rest, rfl⟩ := repo
      rw [@strip_append repoPrefixToStrip]
      simp [longer _ other, prefix_append_right_inj, second]
    · rw [strip, if_neg repo]
      simp [longer _ other, prefix_append_right_inj, repo, longer _ repo]
  · rw [show strip hostnameToStrip name = name from if_neg host]
    by_cases repo : repoPrefixToStrip <+: name
    · obtain ⟨rest, rfl⟩ := repo
      rw [@strip_append repoPrefixToStrip]
      simp [longer _ host, prefix_append_right_inj]
    · rw [strip, if_neg repo]
      simp [longer _ host, host, repo, longer _ repo]

/-- The default tag takes no part in the prefixes of a name. -/
theorem prefix_tagged_iff {tag : Text} (last : start.getLast? = some '/') (free : '/' ∉ tag) :
    start <+: name ++ tag ↔ start <+: name := by
  refine ⟨fun begins => ?_, fun begins => begins.trans (prefix_append name tag)⟩
  obtain within | ⟨rest, rfl⟩ := prefix_or_prefix_of_prefix begins (prefix_append name tag)
  · exact within
  · rw [prefix_append_right_inj] at begins
    cases rest with
    | nil => simp
    | cons char rest =>
      rw [getLast?_append_of_ne_nil _ (cons_ne_nil char rest)] at last
      exact absurd (begins.subset (mem_of_getLast? last)) free

theorem ociDefaultTag_of_tagged (tagged : ':' ∈ getLastPart name)
    (fits : name.length < Path.pathMax) :
    ociDefaultTag name = some name := by
  unfold ociDefaultTag
  dsimp only
  rw [if_pos tagged, if_pos fits]

theorem ociDefaultTag_of_untagged (untagged : ':' ∉ getLastPart name)
    (fits : (name ++ defaultTag).length < Path.pathMax) :
    ociDefaultTag name = some (name ++ defaultTag) := by
  unfold ociDefaultTag
  dsimp only
  rw [if_neg untagged, if_pos fits]

/-- Normalising again changes nothing exactly if the name has not the prefixes of two rounds. -/
theorem ociNormalizeImageName_idempotent_iff (name : ImageName) :
    (ociNormalizeImageName name.1).bind ociNormalizeImageName = ociNormalizeImageName name.1 ↔
      ∀ start ∈ strippedTwice, ¬ start <+: name.1 := by
  have short := name.length_le
  obtain ⟨name, valid⟩ := name
  dsimp only at short ⊢
  rw [maxImageNameLen] at short
  obtain ⟨tag, free, tagged, fits, given⟩ : ∃ tag, '/' ∉ tag ∧ ':' ∈ getLastPart (name ++ tag) ∧
      (name ++ tag).length < Path.pathMax ∧ ociDefaultTag name = some (name ++ tag) := by
    by_cases tagged : ':' ∈ getLastPart name
    · have fits : name.length < Path.pathMax := short.trans_lt (by decide)
      exact ⟨[], by simp, by simpa using tagged, by simpa using fits,
        by simpa using ociDefaultTag_of_tagged tagged fits⟩
    · have tag : defaultTag.length = 7 := by decide
      have fits : (name ++ defaultTag).length < Path.pathMax := by
        rw [length_append, tag, Path.pathMax]
        omega
      exact ⟨defaultTag, by decide, colon_mem_getLastPart name, fits,
        ociDefaultTag_of_untagged tagged fits⟩
  have again : ociDefaultTag (ociStripDockerioPrefix (name ++ tag)) =
      some (ociStripDockerioPrefix (name ++ tag)) :=
    ociDefaultTag_of_tagged
      (@colon_mem_strip _ "library".toList (by decide) (by decide)
        (@colon_mem_strip _ "docker.io".toList (by decide) (by decide) tagged))
      ((strip_suffix.trans strip_suffix).length_le.trans_lt fits)
  simp only [ociNormalizeImageName, given, Option.map_some, Option.bind_some, again,
    Option.some.injEq, ociStripDockerioPrefix_twice_iff]
  refine forall₂_congr fun start listed => not_congr (prefix_tagged_iff ?_ free)
  revert start
  decide

/-- Of a host that is named twice each round strips one. -/
theorem ociNormalizeImageName_changes_again :
    utilValidImageName "docker.io/docker.io/app".toList = true ∧
      ociNormalizeImageName "docker.io/docker.io/app".toList = some "docker.io/app:latest".toList ∧
      ociNormalizeImageName "docker.io/app:latest".toList = some "app:latest".toList := by
  decide +kernel

end Isulad.Registry
