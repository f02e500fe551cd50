import Isulad.Spec.VolumeDestination

/-!
# The text of `--mount`

`util_parse_mount_spec` of `utils_mount_spec.c`, built with OCI images, and the parsers of its
items. `util_string_split` cuts an item at every `=` and skips empty pieces; the first piece is
the key and the second the value. The messages of the errors are left out.
-/

namespace Isulad.Spec

open List Isulad.Std Isulad.Path

/-- `key_val[0]`. -/
def itemKey (item : Text) : Text := (utilStringSplit item '=').headD []

/-- `key_val[1]`, which is `NULL` behind the last piece. -/
def itemValue (item : Text) : Option Text := (utilStringSplit item '=')[1]?

/-- What the parser finds outside. -/
structure MountOutside where
  getcwd : Option WorkingDir
  utilParseByteSizeString : Text → Option Int
  utilParseOctalUint32 : Text → Option Nat
  /-- Behind the digits of a size there is a unit or nothing. -/
  sizes_plain : ∀ {text size}, utilParseByteSizeString text = some size → '=' ∉ text
  /-- Behind the digits of a mode there is nothing. -/
  modes_plain : ∀ {text mode}, utilParseOctalUint32 text = some mode → '=' ∉ text
  /-- `realpath` of the path is a regular file. -/
  regularFile : Text → Bool

/-- A `mount_spec` that is being filled. -/
structure MountDraft where
  type : Option MountType := none
  source : Option Text := none
  target : Option Text := none
  readonly : Bool := false
  bindOptions : Option BindOptions := none
  noCopy : Option Bool := none
  tmpfsOptions : Option TmpfsOptions := none

/-- What an item is about. -/
inductive MountKey where
  | type | src | dst | ro | propagation | selinux | tmpfsSize | tmpfsMode | nocopy
  deriving DecidableEq

/-- The tests `util_valid_key_type`, `util_valid_key_src` and so on of a key. -/
def mountKey (mntkey : Text) : Option MountKey :=
  [("type".toList, .type), ("src".toList, .src), ("source".toList, .src), ("dst".toList, .dst),
    ("destination".toList, .dst), ("target".toList, .dst), ("ro".toList, .ro),
    ("readonly".toList, .ro), ("bind-propagation".toList, .propagation),
    ("bind-selinux-opts".toList, .selinux), ("selinux-opts".toList, .selinux),
    ("tmpfs-size".toList, .tmpfsSize), ("tmpfs-mode".toList, .tmpfsMode),
    ("volume-nocopy".toList, .nocopy)].lookup mntkey

/-- The types that `parse_mount_item_type` accepts. -/
def mountType (value : Text) : Option MountType :=
  [("squashfs".toList, .squashfs), ("bind".toList, .bind), ("volume".toList, .volume),
    ("tmpfs".toList, .tmpfs)].lookup value

/-- `util_valid_value_true`. -/
def utilValidValueTrue (value : Text) : Bool := value ∈ ["1".toList, "true".toList]

/-- `util_valid_value_false`. -/
def utilValidValueFalse (value : Text) : Bool := value ∈ ["0".toList, "false".toList]

section Items

variable (outside : MountOutside) (mountStr : Text) (m : MountDraft) (value : Text)

/-- `parse_mount_item_type`. -/
def parseMountItemType (value : Option Text) : Option MountDraft :=
  if m.type.isSome then none
  else (value.bind mountType).map fun type => { m with type := some type }

/-- `parse_mount_item_src`. -/
def parseMountItemSrc : Option MountDraft :=
  if m.source.isSome then none
  else if value.head? = some '/' then
    (utilCleanPath outside.getcwd value).map fun srcpath => { m with source := some srcpath }
  else some { m with source := some value }

/-- `parse_mount_item_ro`. -/
def parseMountItemRo (value : Option Text) : Option MountDraft :=
  if value.all utilValidValueTrue then some { m with readonly := true }
  else if value.any utilValidValueFalse then some { m with readonly := false }
  else none

/-- `parse_mount_item_propagation`. -/
def parseMountItemPropagation : Option MountDraft :=
  let options := m.bindOptions.getD {}
  if options.propagation.isSome || !utilValidPropagationMode value then none
  else some { m with bindOptions := some { options with propagation := some value } }

/-- `parse_mount_item_selinux`. -/
def parseMountItemSelinux : Option MountDraft :=
  let options := m.bindOptions.getD {}
  if options.selinuxOpts.isSome || !utilValidLabelMode value then none
  else some { m with bindOptions := some { options with selinuxOpts := some value } }

/-- `parse_mount_item_tmpfs_size`: a size of zero counts as none. -/
def parseMountItemTmpfsSize : Option MountDraft :=
  let options := m.tmpfsOptions.getD {}
  if options.sizeBytes ≠ 0 then none
  else ((outside.utilParseByteSizeString value).filter (0 ≤ ·)).map fun size =>
    { m with tmpfsOptions := some { options with sizeBytes := size } }

/-- `parse_mount_item_tmpfs_mode`: a mode of zero counts as none. -/
def parseMountItemTmpfsMode : Option MountDraft :=
  let options := m.tmpfsOptions.getD {}
  if options.mode ≠ 0 then none
  else (outside.utilParseOctalUint32 value).map fun mode =>
    { m with tmpfsOptions := some { options with mode := mode } }

/-- `parse_mount_item_nocopy`. -/
def parseMountItemNocopy : Option MountDraft :=
  if m.noCopy.isSome || !(utilValidValueTrue value || utilValidValueFalse value) then none
  else some { m with noCopy := some (utilValidValueTrue value) }

/-- `parse_mounts_item`. Except for the type and `ro`, an item without a value is ignored. -/
def parseMountsItem (mntkey : Text) (value : Option Text) : Option MountDraft :=
  match mountKey mntkey with
  | some .type => parseMountItemType m value
  | some .src => value.elim (some m) (parseMountItemSrc outside m)
  | some .dst =>
    (parseMountItemDst outside.getcwd value mountStr m.target).toOption.map fun target =>
      { m with target := target }
  | some .ro => parseMountItemRo m value
  | some .propagation => value.elim (some m) (parseMountItemPropagation m)
  | some .selinux => value.elim (some m) (parseMountItemSelinux m)
  | some .tmpfsSize => value.elim (some m) (parseMountItemTmpfsSize outside m)
  | some .tmpfsMode => value.elim (some m) (parseMountItemTmpfsMode outside m)
  | some .nocopy => value.elim (some m) (parseMountItemNocopy m)
  | none => none

end Items

/-- `exist_readonly_mode`, in a buffer of `PATH_MAX`. -/
def existReadonlyMode (mountStr : Text) : Bool :=
  mountStr.length + 2 < pathMax &&
    [",ro,", ",readonly,", ",ro=", ",readonly="].any fun mark =>
      decide (mark.toList <:+: ',' :: mountStr ++ [','])

/-- `valid_mount_spec_mode`. -/
def validMountSpecMode (mountStr : Text) (spec : MountSpec) : Bool :=
  match spec.type with
  | .volume => (spec.bindOptions.bind (·.propagation)).isNone &&
      !(existReadonlyMode mountStr && spec.source.isNone)
  | .bind => spec.noCopy.isNone
  | .tmpfs => spec.noCopy.isNone && spec.bindOptions.isNone
  | _ => true

variable (outside : MountOutside)

/-- What `check_mount_spec` asks of the source. -/
def checkMountSpecSource (spec : MountSpec) : Bool :=
  match spec.type with
  | .squashfs => spec.source.any fun source => source.head? = some '/' &&
      source.length ≤ pathMax && outside.regularFile source
  | .bind => spec.source.any fun source => source.head? = some '/'
  | .tmpfs => spec.source.isNone
  | .volume => spec.source.all utilValidVolumeName
  | .other _ => true

/-- `check_mount_spec`, for a specification with a destination. -/
def checkMountSpec (mountStr : Text) (spec : MountSpec) : Bool :=
  checkMountSpecSource outside spec && spec.target.head? = some '/' &&
    validMountSpecMode mountStr spec

/-- The loop of `util_parse_mount_spec` over the items. -/
def parseMountItems (mountStr : Text) (items : List Text) (m : MountDraft) : Option MountDraft :=
  items.foldlM (fun m item => parseMountsItem outside mountStr m (itemKey item) (itemValue item)) m

/-- `util_parse_mount_spec`. -/
def utilParseMountSpec (mountStr : Text) : Option MountSpec := do
  if mountStr = [] then none
  let m ← parseMountItems outside mountStr (utilStringSplit mountStr ',') {}
  let target ← m.target
  let spec : MountSpec :=
    { m with type := m.type.getD .volume, target := target }
  if checkMountSpec outside mountStr spec then some spec else none

/-- The text in front of the first `=` of an item. -/
def textBeforeEquals (item : Text) : Text := item.takeWhile (· ≠ '=')

/-- The text behind the first `=` of an item, empty if there is none. -/
def textAfterEquals (item : Text) : Text := (item.dropWhile (· ≠ '=')).drop 1

/-- What a specification has under a key. -/
inductive MountValue where
  | type (type : MountType)
  | text (text : Text)
  | flag (flag : Bool)
  | size (sizeBytes : Int)
  | mode (mode : Nat)
  deriving DecidableEq

/-- What has been put under a key. -/
def MountDraft.get (m : MountDraft) : MountKey → Option MountValue
  | .type => m.type.map .type
  | .src => m.source.map .text
  | .dst => m.target.map .text
  | .ro => some (.flag m.readonly)
  | .propagation => (m.bindOptions.bind (·.propagation)).map .text
  | .selinux => (m.bindOptions.bind (·.selinuxOpts)).map .text
  | .tmpfsSize => some (.size (m.tmpfsOptions.getD {}).sizeBytes)
  | .tmpfsMode => some (.mode (m.tmpfsOptions.getD {}).mode)
  | .nocopy => m.noCopy.map .flag

/-- What a specification has under a key. -/
def MountSpec.get (spec : MountSpec) : MountKey → Option MountValue :=
  { spec with type := some spec.type, target := some spec.target : MountDraft }.get

/-- A switch, as it is written. -/
def readFlag (value : Text) : Option Bool :=
  if utilValidValueTrue value then some true
  else if utilValidValueFalse value then some false
  else none

/-- How a value is read: a destination is cleaned, and so is a source that is absolute. -/
def readValue : MountKey → Text → Option MountValue
  | .type, value => (mountType value).map .type
  | .src, value =>
    if value.head? = some '/' then (utilCleanPath outside.getcwd value).map .text
    else some (.text value)
  | .dst, value => (utilCleanPath outside.getcwd value).map .text
  | .ro, value => if value = [] then some (.flag true) else (readFlag value).map .flag
  | .propagation, value => if utilValidPropagationMode value then some (.text value) else none
  | .selinux, value => if utilValidLabelMode value then some (.text value) else none
  | .tmpfsSize, value => (outside.utilParseByteSizeString value).map .size
  | .tmpfsMode, value => (outside.utilParseOctalUint32 value).map .mode
  | .nocopy, value => (readFlag value).map .flag

/-- What a text is to be read as: only a destination is cleaned. -/
def wantedValue (key : MountKey) (text : Text) : Option MountValue :=
  if key = .src then some (.text text) else readValue outside key text

/-- No text is no value, except for `ro`. -/
def HasValue (key : MountKey) (text : Text) : Prop := text ≠ [] ∨ key = .ro

/-- Every item is a key, and the specification has under this key what the text behind the first
`=` of the item says. -/
def WholeValues (mountStr : Text) (spec : MountSpec) : Prop :=
  ∀ item ∈ utilStringSplit mountStr ',', ∃ key, mountKey (textBeforeEquals item) = some key ∧
    (HasValue key (textAfterEquals item) → ∃ value,
      wantedValue outside key (textAfterEquals item) = some value ∧ spec.get key = some value)

/-- The keys that may be given again, or whose text may be cut without a change. -/
def MountKey.lenient (key : MountKey) : Prop :=
  key ∈ [MountKey.dst, .ro, .tmpfsSize, .tmpfsMode]

/-- An item that is read as it is written: it does not start with `=` and has no second one, unless
it is a destination; a source is given in its clean spelling; and a destination, a switch, a size
or a mode is read like every value that is given for the same key. -/
structure PlainItem (mountStr item : Text) (key : MountKey) : Prop where
  single : key ≠ .dst → item.count '=' ≤ 1
  clean : key = .src → (textAfterEquals item).head? = some '/' →
    utilCleanPath outside.getcwd (textAfterEquals item) = some (textAfterEquals item)
  agrees : key.lenient → HasValue key (textAfterEquals item) →
    ∀ other ∈ utilStringSplit mountStr ',', mountKey (itemKey other) = some key →
      HasValue key ((itemValue other).getD []) →
      readValue outside key (textAfterEquals item) =
        readValue outside key ((itemValue other).getD [])

/-- All items are read as they are written. -/
def PlainItems (mountStr : Text) : Prop :=
  ∀ item ∈ utilStringSplit mountStr ',', item.head? ≠ some '=' ∧
    ∀ key, mountKey (textBeforeEquals item) = some key → PlainItem outside mountStr item key

theorem textAfterEquals_append {key : Text} (free : '=' ∉ key) (text : Text) :
    textAfterEquals (key ++ '=' :: text) = text := by
  rw [textAfterEquals, dropWhile_append_of_pos]
  · rfl
  · intro char member
    simpa using ne_of_mem_of_not_mem member free

theorem head?_tokens_eq_iff {text : Text} :
    ((tokens '=' text)[0]?).getD [] = text ↔ '=' ∉ text := by
  constructor
  · intro whole
    cases found : tokens '=' text with
    | nil =>
      rw [found] at whole
      rw [← show [] = text from whole]
      exact not_mem_nil
    | cons first rest =>
      rw [found] at whole
      rw [← show first = text from whole]
      exact (of_mem_tokens (found ▸ mem_cons_self)).2
  · intro free
    by_cases empty : text = []
    · rw [empty]
      rfl
    · rw [tokens_eq_singleton_iff.mpr ⟨empty, free⟩]
      rfl

/-- A value is whole exactly if its item has one `=`, not at its start, or none. -/
theorem itemValue_eq_iff {item : Text} (keyed : itemKey item ≠ []) :
    (itemValue item).getD [] = textAfterEquals item ↔
      item.head? ≠ some '=' ∧ item.count '=' ≤ 1 := by
  by_cases equals : '=' ∈ item
  · obtain ⟨key, text, rfl, free⟩ := eq_append_cons_of_mem equals
    have pieces := tokens_append_cons free text
    rw [textAfterEquals_append free, count_append, count_cons_self,
      count_eq_zero_of_not_mem free, Nat.zero_add, Nat.succ_le_succ_iff, Nat.le_zero,
      count_eq_zero]
    by_cases empty : key = []
    · -- the pieces are those behind the first `=`, and the key is one of them
      subst empty
      rw [if_pos rfl, nil_append, nil_append] at pieces
      refine iff_of_false (fun whole => ?_) (fun both => both.1 rfl)
      rw [itemKey, utilStringSplit, nil_append, pieces] at keyed
      rw [itemValue, utilStringSplit, nil_append, pieces] at whole
      cases found : tokens '=' text with
      | nil => simp [found] at keyed
      | cons first rest =>
        rw [found] at whole
        cases rest with
        | nil =>
          rw [← show [] = text from whole] at found
          cases found
        | cons second rest =>
          rw [← show second = text from whole] at found
          have single := tokens_eq_singleton_iff.mpr
            (of_mem_tokens (found ▸ mem_cons_of_mem _ mem_cons_self))
          rw [found] at single
          cases single
    · rw [itemValue, utilStringSplit, pieces]
      obtain ⟨char, rest, rfl⟩ := exists_cons_of_ne_nil empty
      have start : (char :: rest ++ '=' :: text).head? ≠ some '=' := fun same =>
        free (Option.some.inj same ▸ mem_cons_self)
      rw [and_iff_right start]
      exact head?_tokens_eq_iff
  · refine iff_of_true ?_ ⟨fun start => ?_, by simp [count_eq_zero_of_not_mem equals]⟩
    · have whole : item.dropWhile (· ≠ '=') = [] := by
        rw [dropWhile_eq_nil_iff]
        intro char member
        simpa using ne_of_mem_of_not_mem member equals
      rw [textAfterEquals, whole, itemValue, utilStringSplit]
      by_cases empty : item = []
      · rw [empty]
        rfl
      · rw [tokens_eq_singleton_iff.mpr ⟨empty, equals⟩]
        rfl
    · exact equals (mem_of_mem_head? start)

section Run

variable {outside : MountOutside} {mountStr mntkey : Text} {value : Option Text}
  {m next after : MountDraft} {key : MountKey} {items : List Text}

/-- The keys that are refused when they are given again. -/
def MountKey.once (key : MountKey) : Prop := key ∉ [MountKey.ro, .tmpfsSize, .tmpfsMode]

instance : Decidable key.once := inferInstanceAs (Decidable (_ ∉ _))

instance : Decidable key.lenient := inferInstanceAs (Decidable (_ ∈ _))

/-- What an item does to the specification: its value is read and put under its key, or there is no
value and nothing is done. -/
structure Puts (outside : MountOutside) (m : MountDraft) (key : MountKey) (value : Option Text)
    (next : MountDraft) : Prop where
  other : ∀ other ≠ key, next.get other = m.get other
  read : HasValue key (value.getD []) → (∃ read, readValue outside key (value.getD []) = some read ∧
    next.get key = some read) ∧ (key.once → m.get key = none)
  ignored : ¬ HasValue key (value.getD []) → next = m

theorem puts_of_value {text : Text} {read : MountValue} (nonempty : text ≠ [])
    (other : ∀ other ≠ key, next.get other = m.get other)
    (reads : readValue outside key text = some read) (got : next.get key = some read)
    (new : key.once → m.get key = none) : Puts outside m key (some text) next :=
  ⟨other, fun _ => ⟨⟨read, reads, got⟩, new⟩, fun absent => absurd (.inl nonempty) absent⟩

theorem puts_of_none (notRo : key ≠ .ro) : Puts outside m key none m :=
  ⟨fun _ _ => rfl, fun has => absurd has (by simp [HasValue, notRo]), fun _ => rfl⟩

/-- One item of a known key. -/
theorem puts_of_parseMountsItem (filled : value ≠ some []) (known : mountKey mntkey = some key)
    (parsed : parseMountsItem outside mountStr m mntkey value = some next) :
    Puts outside m key value next := by
  rw [parseMountsItem, known] at parsed
  cases value with
  | none =>
    cases key with
    | type => simp [parseMountItemType] at parsed
    | ro =>
      cases parsed
      exact ⟨fun other different => by cases other <;> first | rfl | exact absurd rfl different,
        fun _ => ⟨⟨_, rfl, rfl⟩, fun once => absurd once (by decide)⟩,
        fun absent => absurd (.inr rfl) absent⟩
    | _ =>
      cases parsed
      exact puts_of_none (by decide)
  | some text =>
    have nonempty : text ≠ [] := fun empty => filled (congrArg some empty)
    cases key with
    | type =>
      simp only [parseMountItemType] at parsed
      split at parsed
      · cases parsed
      next new =>
        obtain ⟨type, reads, rfl⟩ := Option.map_eq_some_iff.mp parsed
        refine puts_of_value nonempty (fun other different => ?_)
          (congrArg (Option.map MountValue.type) reads) rfl
          fun _ => by simpa [MountDraft.get] using new
        cases other <;> first | rfl | exact absurd rfl different
    | src =>
      simp only [Option.elim, parseMountItemSrc] at parsed
      split at parsed
      · cases parsed
      next new =>
        have unset : m.get .src = none := by simpa [MountDraft.get] using new
        split at parsed
        next absolute =>
          obtain ⟨path, cleaned, rfl⟩ := Option.map_eq_some_iff.mp parsed
          refine puts_of_value nonempty (fun other different => ?_) ((if_pos absolute).trans
            (congrArg (Option.map MountValue.text) cleaned)) rfl fun _ => unset
          cases other <;> first | rfl | exact absurd rfl different
        next relative =>
          cases parsed
          refine puts_of_value nonempty (fun other different => ?_) (if_neg relative) rfl
            fun _ => unset
          cases other <;> first | rfl | exact absurd rfl different
    | dst =>
      obtain ⟨target, taken, rfl⟩ := Option.map_eq_some_iff.mp parsed
      cases set : m.target with
      | some path => simp [parseMountItemDst, set, Except.toOption] at taken
      | none =>
        cases made : parseMountItemDst outside.getcwd (some text) mountStr none with
        | error _ => simp [set, made, Except.toOption] at taken
        | ok result =>
          simp only [set, made, Except.toOption, Option.some.injEq] at taken
          subst taken
          cases result with
          | none =>
            simp only [parseMountItemDst] at made
            split at made
            · cases made
            split at made
            · cases made
            split at made
            · cases made
            split at made <;> cases made
          | some path =>
            obtain ⟨-, cleaned, -⟩ := parseMountItemDst_eq_ok_iff.mp made
            refine puts_of_value nonempty (fun other different => ?_)
              (congrArg (Option.map MountValue.text) cleaned) rfl
              fun _ => by simp [MountDraft.get, set]
            cases other <;> first | rfl | exact absurd rfl different
    | ro =>
      have flagged : ∃ flag, readFlag text = some flag ∧ next = { m with readonly := flag } := by
        simp only [parseMountItemRo, Option.all_some, Option.any_some] at parsed
        unfold readFlag
        split at parsed
        · exact ⟨true, by simp [*], (Option.some.inj parsed).symm⟩
        split at parsed
        · exact ⟨false, by simp [*], (Option.some.inj parsed).symm⟩
        · cases parsed
      obtain ⟨flag, reads, rfl⟩ := flagged
      refine puts_of_value nonempty (fun other different => ?_) ((if_neg nonempty).trans
        (congrArg (Option.map MountValue.flag) reads)) rfl fun once => absurd once (by decide)
      cases other <;> first | rfl | exact absurd rfl different
    | propagation =>
      simp only [Option.elim, parseMountItemPropagation] at parsed
      split at parsed
      · cases parsed
      next allowed =>
        cases parsed
        obtain ⟨type, source, target, readonly, bindOptions, noCopy, tmpfsOptions⟩ := m
        cases bindOptions with
        | none =>
          refine puts_of_value nonempty (fun other different => ?_)
            (if_pos (by simpa using allowed)) rfl fun _ => rfl
          cases other <;> first | rfl | exact absurd rfl different
        | some options =>
          simp at allowed
          refine puts_of_value nonempty (fun other different => ?_) (if_pos allowed.2)
            rfl fun _ => by
            simp [MountDraft.get, allowed.1]
          cases other <;> first | rfl | exact absurd rfl different
    | selinux =>
      simp only [Option.elim, parseMountItemSelinux] at parsed
      split at parsed
      · cases parsed
      next allowed =>
        cases parsed
        obtain ⟨type, source, target, readonly, bindOptions, noCopy, tmpfsOptions⟩ := m
        cases bindOptions with
        | none =>
          refine puts_of_value nonempty (fun other different => ?_)
            (if_pos (by simpa using allowed)) rfl fun _ => rfl
          cases other <;> first | rfl | exact absurd rfl different
        | some options =>
          simp at allowed
          refine puts_of_value nonempty (fun other different => ?_) (if_pos allowed.2)
            rfl fun _ => by
            simp [MountDraft.get, allowed.1]
          cases other <;> first | rfl | exact absurd rfl different
    | tmpfsSize =>
      simp only [Option.elim, parseMountItemTmpfsSize] at parsed
      split at parsed
      · cases parsed
      obtain ⟨size, reads, rfl⟩ := Option.map_eq_some_iff.mp parsed
      refine puts_of_value nonempty (fun other different => ?_)
        (congrArg (Option.map MountValue.size)
        (Option.filter_eq_some_iff.mp reads).1) rfl fun once => absurd once (by decide)
      cases other <;> first | rfl | exact absurd rfl different
    | tmpfsMode =>
      simp only [Option.elim, parseMountItemTmpfsMode] at parsed
      split at parsed
      · cases parsed
      obtain ⟨mode, reads, rfl⟩ := Option.map_eq_some_iff.mp parsed
      refine puts_of_value nonempty (fun other different => ?_)
        (congrArg (Option.map MountValue.mode) reads) rfl
        fun once => absurd once (by decide)
      cases other <;> first | rfl | exact absurd rfl different
    | nocopy =>
      simp only [Option.elim, parseMountItemNocopy] at parsed
      split at parsed
      · cases parsed
      next allowed =>
        simp at allowed
        cases parsed
        refine puts_of_value nonempty (fun other different => ?_) ?_ rfl fun _ => by
          simp [MountDraft.get, allowed.1]
        · cases other <;> first | rfl | exact absurd rfl different
        · cases wanted : utilValidValueTrue text with
          | true => simp [readValue, readFlag, wanted]
          | false => simp [readValue, readFlag, wanted, allowed.2 wanted]

theorem itemValue_ne_nil (item : Text) : itemValue item ≠ some [] := by
  intro empty
  rw [itemValue, utilStringSplit] at empty
  split at empty
  · cases empty
  · exact (of_mem_tokens (mem_of_getElem? empty)).1 rfl

theorem parseMountItems_cons {item : Text}
    (parsed : parseMountItems outside mountStr (item :: items) m = some after) :
    ∃ key next, mountKey (itemKey item) = some key ∧ Puts outside m key (itemValue item) next ∧
      parseMountItems outside mountStr items next = some after := by
  obtain ⟨next, first, rest⟩ := Option.bind_eq_some_iff.mp parsed
  cases known : mountKey (itemKey item) with
  | none => simp [parseMountsItem, known] at first
  | some key =>
    exact ⟨key, next, rfl, puts_of_parseMountsItem (itemValue_ne_nil item) known first, rest⟩

theorem keyed_of_parseMountItems
    (parsed : parseMountItems outside mountStr items m = some after) :
    ∀ item ∈ items, ∃ key, mountKey (itemKey item) = some key := by
  induction items generalizing m with
  | nil => nofun
  | cons item items ih =>
    obtain ⟨key, next, known, -, rest⟩ := parseMountItems_cons parsed
    exact forall_mem_cons.mpr ⟨⟨key, known⟩, ih rest⟩

/-- An item of a key that has a value. -/
structure Gives (key : MountKey) (item : Text) : Prop where
  known : mountKey (itemKey item) = some key
  value : HasValue key ((itemValue item).getD [])

/-- What is under a key is what was there before, or what the value of an item is read as. -/
theorem get_of_parseMountItems (parsed : parseMountItems outside mountStr items m = some after)
    (key : MountKey) :
    (∀ item ∈ items, ¬ Gives key item) ∧ after.get key = m.get key ∨
      ∃ item ∈ items, Gives key item ∧ ∃ read,
        readValue outside key ((itemValue item).getD []) = some read ∧
          after.get key = some read := by
  induction items generalizing m with
  | nil =>
    cases parsed
    exact .inl ⟨nofun, rfl⟩
  | cons item items ih =>
    obtain ⟨itsKey, next, known, puts, rest⟩ := parseMountItems_cons parsed
    rcases ih rest with ⟨none, same⟩ | ⟨other, member, later⟩
    · by_cases gives : Gives key item
      · cases known.symm.trans gives.known
        obtain ⟨⟨read, reads, got⟩, -⟩ := puts.read gives.value
        exact .inr ⟨item, mem_cons_self, gives, read, reads, same.trans got⟩
      · refine .inl ⟨forall_mem_cons.mpr ⟨gives, none⟩, same.trans ?_⟩
        by_cases its : key = itsKey
        · subst its
          rw [puts.ignored fun has => gives ⟨known, has⟩]
        · exact puts.other key its
    · exact .inr ⟨other, mem_cons_of_mem item member, later⟩

/-- What is there under a key that may be given once stays. -/
theorem get_stays (parsed : parseMountItems outside mountStr items m = some after)
    (once : key.once) {read : MountValue} (got : m.get key = some read) :
    after.get key = some read := by
  induction items generalizing m with
  | nil =>
    cases parsed
    exact got
  | cons item items ih =>
    obtain ⟨itsKey, next, -, puts, rest⟩ := parseMountItems_cons parsed
    refine ih rest ?_
    by_cases its : key = itsKey
    · subst its
      rw [puts.ignored fun has => by simp [(puts.read has).2 once] at got]
      exact got
    · rw [puts.other key its, got]

/-- The value of a key that may be given once is the one that is given. -/
theorem get_of_gives_once (parsed : parseMountItems outside mountStr items m = some after)
    (once : key.once) {item : Text} (member : item ∈ items) (gives : Gives key item) :
    ∃ read, readValue outside key ((itemValue item).getD []) = some read ∧
      after.get key = some read := by
  induction items generalizing m with
  | nil => cases member
  | cons first items ih =>
    obtain ⟨itsKey, next, known, puts, rest⟩ := parseMountItems_cons parsed
    rcases mem_cons.mp member with rfl | later
    · cases known.symm.trans gives.known
      obtain ⟨⟨read, reads, got⟩, -⟩ := puts.read gives.value
      exact ⟨read, reads, get_stays rest once got⟩
    · exact ih rest later

end Run

section Texts

variable {outside : MountOutside} {item text : Text} {key : MountKey} {read : MountValue}

/-- The key that is read is the text in front of the first `=`, if there is one. -/
theorem itemKey_eq (start : item.head? ≠ some '=') : itemKey item = textBeforeEquals item := by
  by_cases equals : '=' ∈ item
  · obtain ⟨key, text, rfl, free⟩ := eq_append_cons_of_mem equals
    have nonempty : key ≠ [] := by
      rintro rfl
      exact start rfl
    have pieces := tokens_append_cons free text
    rw [if_neg nonempty, singleton_append] at pieces
    rw [itemKey, utilStringSplit_of_tokens (by simp [pieces]), pieces, textBeforeEquals,
      takeWhile_append_of_pos]
    · simp
    · intro char member
      simpa using ne_of_mem_of_not_mem member free
  · have before : textBeforeEquals item = item := by
      rw [textBeforeEquals, takeWhile_eq_self_iff]
      intro char member
      simpa using ne_of_mem_of_not_mem member equals
    rw [before, itemKey]
    by_cases empty : item = []
    · rw [empty]
      rfl
    · have single := tokens_eq_singleton_iff.mpr ⟨empty, equals⟩
      rw [utilStringSplit_of_tokens (by simp [single]), single]
      rfl

theorem count_le_of_textAfterEquals (free : '=' ∉ textAfterEquals item) : item.count '=' ≤ 1 := by
  by_cases equals : '=' ∈ item
  · obtain ⟨key, text, rfl, plain⟩ := eq_append_cons_of_mem equals
    rw [textAfterEquals_append plain] at free
    simp [count_append, count_eq_zero_of_not_mem plain, count_eq_zero_of_not_mem free]
  · simp [count_eq_zero_of_not_mem equals]

theorem equals_not_mem_itemValue (item : Text) : '=' ∉ (itemValue item).getD [] := by
  cases given : itemValue item with
  | none => exact not_mem_nil
  | some value =>
    have member := mem_of_getElem? given
    exact (of_mem_tokens ((mem_utilStringSplit fun empty =>
      itemValue_ne_nil item (empty ▸ given)).mp member)).2

theorem equals_not_mem_of_readFlag {flag : Bool} (known : readFlag text = some flag) :
    '=' ∉ text := by
  have plain : ∀ word ∈ ["1".toList, "true".toList, "0".toList, "false".toList], '=' ∉ word := by
    decide
  unfold readFlag at known
  split at known
  next on => exact plain text (mem_append_left _ (of_decide_eq_true on))
  split at known
  next off =>
    exact plain text (mem_append_right ["1".toList, "true".toList] (of_decide_eq_true off))
  · cases known

theorem equals_not_mem_of_mountType {type : MountType} (known : mountType text = some type) :
    '=' ∉ text := by
  obtain ⟨front, back, shape, -⟩ := lookup_eq_some_iff.mp known
  have plain : ∀ pair ∈ [("squashfs".toList, MountType.squashfs), ("bind".toList, .bind),
      ("volume".toList, .volume), ("tmpfs".toList, .tmpfs)], '=' ∉ pair.1 := by decide
  exact plain (text, type) (shape ▸ mem_append_right front mem_cons_self)

/-- What is read as a type, a switch, a mode of mounting, a size or a mode has no `=`. -/
theorem equals_not_mem_of_readValue (notSrc : key ≠ .src) (notDst : key ≠ .dst)
    (reads : readValue outside key text = some read) : '=' ∉ text := by
  cases key with
  | type =>
    obtain ⟨type, known, -⟩ := Option.map_eq_some_iff.mp reads
    exact equals_not_mem_of_mountType known
  | src => exact absurd rfl notSrc
  | dst => exact absurd rfl notDst
  | ro =>
    rw [readValue] at reads
    split at reads
    next empty => simp [empty]
    obtain ⟨flag, known, -⟩ := Option.map_eq_some_iff.mp reads
    exact equals_not_mem_of_readFlag known
  | propagation =>
    rw [readValue] at reads
    split at reads
    next valid =>
      have plain : ∀ word ∈ ["private".toList, "rprivate".toList, "slave".toList, "rslave".toList,
        "shared".toList, "rshared".toList], '=' ∉ word := by decide
      exact plain text (of_decide_eq_true valid)
    · cases reads
  | selinux =>
    rw [readValue] at reads
    split at reads
    next valid =>
      have plain : ∀ word ∈ ["z".toList, "Z".toList], '=' ∉ word := by decide
      exact plain text (of_decide_eq_true valid)
    · cases reads
  | tmpfsSize =>
    obtain ⟨size, known, -⟩ := Option.map_eq_some_iff.mp reads
    exact outside.sizes_plain known
  | tmpfsMode =>
    obtain ⟨mode, known, -⟩ := Option.map_eq_some_iff.mp reads
    exact outside.modes_plain known
  | nocopy =>
    obtain ⟨flag, known, -⟩ := Option.map_eq_some_iff.mp reads
    exact equals_not_mem_of_readFlag known

/-- A source has no `=`: it is a piece between two of them, cleaned if it is absolute. -/
theorem equals_not_mem_of_source {piece : Text} (free : '\x00' ∉ piece) (plain : '=' ∉ piece)
    (reads : readValue outside .src piece = some (.text text)) : '=' ∉ text := by
  rw [readValue] at reads
  split at reads
  next absolute =>
    obtain ⟨path, cleaned, same⟩ := Option.map_eq_some_iff.mp reads
    cases same
    exact fun equals =>
      plain (@mem_of_mem_utilCleanPath _ ⟨piece, free, absolute⟩ _ _ cleaned equals)
  · cases reads
    exact plain

end Texts

section Whole

variable {outside : MountOutside} {mountStr : CStr} {spec : MountSpec} {item : Text}
  {key : MountKey}

theorem nul_not_mem_item (member : item ∈ utilStringSplit mountStr.1 ',') : '\x00' ∉ item := by
  by_cases empty : item = []
  · simp [empty]
  have token := (mem_utilStringSplit empty).mp member
  exact fun nul => mountStr.2 ((infix_of_mem_splitOn (mem_filter.mp token).1).subset nul)

theorem nul_not_mem_itemValue (member : item ∈ utilStringSplit mountStr.1 ',') :
    '\x00' ∉ (itemValue item).getD [] := by
  cases given : itemValue item with
  | none => exact not_mem_nil
  | some value =>
    have token := (mem_utilStringSplit fun empty =>
      itemValue_ne_nil item (empty ▸ given)).mp (mem_of_getElem? given)
    exact fun nul => nul_not_mem_item member
      ((infix_of_mem_splitOn (mem_filter.mp token).1).subset nul)

/-- What a specification has is what the values of its items are read as. -/
structure Filled (outside : MountOutside) (mountStr : Text) (spec : MountSpec) : Prop where
  keyed : ∀ item ∈ utilStringSplit mountStr ',', ∃ key, mountKey (itemKey item) = some key
  once : ∀ {key item}, key.once → item ∈ utilStringSplit mountStr ',' → Gives key item →
    ∃ read, readValue outside key ((itemValue item).getD []) = some read ∧ spec.get key = some read
  given : ∀ key, (∃ item ∈ utilStringSplit mountStr ',', Gives key item) ∨
      (key = .src ∨ key = .dst) ∧ (spec.get key).isSome →
    ∃ item ∈ utilStringSplit mountStr ',', Gives key item ∧ ∃ read,
      readValue outside key ((itemValue item).getD []) = some read ∧ spec.get key = some read

theorem filled_of_accepted (accepted : utilParseMountSpec outside mountStr.1 = some spec) :
    Filled outside mountStr.1 spec := by
  rw [utilParseMountSpec] at accepted
  split at accepted
  · cases accepted
  obtain ⟨m, parsed, rest⟩ := Option.bind_eq_some_iff.mp accepted
  obtain ⟨target, there, checked⟩ := Option.bind_eq_some_iff.mp rest
  dsimp only at checked
  split at checked
  · cases checked
    have same : ∀ {key read}, m.get key = some read → MountSpec.get
        { m with type := m.type.getD .volume, target := target } key = some read := by
      intro key read got
      rw [← got]
      cases key with
      | type =>
        obtain ⟨type, set, -⟩ := Option.map_eq_some_iff.mp got
        simp [MountSpec.get, MountDraft.get, set]
      | dst => simp [MountSpec.get, MountDraft.get, there]
      | _ => rfl
    refine ⟨keyed_of_parseMountItems parsed, fun once member gives => ?_, fun key some => ?_⟩
    · obtain ⟨read, reads, got⟩ := get_of_gives_once parsed once member gives
      exact ⟨read, reads, same got⟩
    · rcases get_of_parseMountItems parsed key with ⟨none, start⟩
        | ⟨item, member, gives, read, reads, got⟩
      · rcases some with ⟨item, member, gives⟩ | ⟨rfl | rfl, isSome⟩
        · exact absurd gives (none item member)
        · rw [show MountSpec.get _ MountKey.src = m.get .src from rfl, start] at isSome
          cases isSome
        · rw [MountDraft.get, there] at start
          cases start
      · exact ⟨item, member, gives, read, reads, same got⟩
  · cases checked

theorem itemValue_of_single (filled : Filled outside mountStr.1 spec)
    (member : item ∈ utilStringSplit mountStr.1 ',') (start : item.head? ≠ some '=')
    (single : item.count '=' ≤ 1) : (itemValue item).getD [] = textAfterEquals item := by
  obtain ⟨key, known⟩ := filled.keyed item member
  refine (itemValue_eq_iff fun empty => ?_).mpr ⟨start, single⟩
  rw [empty] at known
  cases known

theorem head?_ne_of_known (known : mountKey (textBeforeEquals item) = some key) :
    item.head? ≠ some '=' := by
  cases item with
  | nil => simp
  | cons char item =>
    intro starts
    cases starts
    cases known

theorem wantedValue_of_ne {text : Text} (notSrc : key ≠ .src) :
    wantedValue outside key text = readValue outside key text := if_neg notSrc

section

variable (filled : Filled outside mountStr.1 spec) (whole : WholeValues outside mountStr.1 spec)
  (member : item ∈ utilStringSplit mountStr.1 ',')
  (known : mountKey (textBeforeEquals item) = some key)

include whole member known in
theorem carried_of_whole (has : HasValue key (textAfterEquals item)) : ∃ value,
    wantedValue outside key (textAfterEquals item) = some value ∧ spec.get key = some value := by
  obtain ⟨itsKey, itsKnown, carried⟩ := whole item member
  cases known.symm.trans itsKnown
  exact carried has

include filled whole member known

theorem single_of_whole (notDst : key ≠ .dst) : item.count '=' ≤ 1 := by
  refine count_le_of_textAfterEquals ?_
  by_cases empty : textAfterEquals item = []
  · simp [empty]
  obtain ⟨value, wanted, got⟩ := carried_of_whole whole member known (.inl empty)
  by_cases isSrc : key = .src
  · subst isSrc
    cases wanted
    obtain ⟨other, memberOther, -, read, reads, gotOther⟩ :=
      filled.given .src (.inr ⟨.inl rfl, by simp [got]⟩)
    cases gotOther.symm.trans got
    exact equals_not_mem_of_source (nul_not_mem_itemValue memberOther)
      (equals_not_mem_itemValue other) reads
  · rw [wantedValue_of_ne isSrc] at wanted
    exact equals_not_mem_of_readValue isSrc notDst wanted

/-- An item of a specification that has what its items say. -/
theorem plainItem_of_whole : PlainItem outside mountStr.1 item key where
  single := single_of_whole filled whole member known
  clean isSrc absolute := by
    subst isSrc
    have nonempty : textAfterEquals item ≠ [] := by
      intro empty
      rw [empty] at absolute
      cases absolute
    have start := head?_ne_of_known known
    have piece := itemValue_of_single filled member start
      (single_of_whole filled whole member known (by decide))
    obtain ⟨value, wanted, got⟩ := carried_of_whole whole member known (.inl nonempty)
    obtain ⟨read, reads, gotPiece⟩ := filled.once (by decide) member
      ⟨itemKey_eq start ▸ known, .inl (piece ▸ nonempty)⟩
    cases wanted
    cases gotPiece.symm.trans got
    rw [piece, readValue, if_pos absolute] at reads
    obtain ⟨path, cleaned, same⟩ := Option.map_eq_some_iff.mp reads
    cases same
    exact cleaned
  agrees lenient has other memberOther knownOther hasOther := by
    have notSrc : key ≠ .src := by
      rintro rfl
      exact absurd lenient (by decide)
    obtain ⟨value, wanted, got⟩ := carried_of_whole whole member known has
    rw [wantedValue_of_ne notSrc] at wanted
    by_cases isDst : key = .dst
    · subst isDst
      obtain ⟨read, reads, gotOther⟩ := filled.once (by decide) memberOther ⟨knownOther, hasOther⟩
      rw [wanted, reads, ← got, gotOther]
    · obtain ⟨itsKey, itsKnown, -⟩ := whole other memberOther
      have start := head?_ne_of_known itsKnown
      cases (itemKey_eq start ▸ knownOther).symm.trans itsKnown
      have piece := itemValue_of_single filled memberOther start
        (single_of_whole filled whole memberOther itsKnown isDst)
      obtain ⟨otherValue, otherWanted, gotOther⟩ :=
        carried_of_whole whole memberOther itsKnown (piece ▸ hasOther)
      rw [wantedValue_of_ne notSrc] at otherWanted
      rw [piece, wanted, otherWanted, ← got, gotOther]

end

theorem carried_of_plain (filled : Filled outside mountStr.1 spec)
    (member : item ∈ utilStringSplit mountStr.1 ',')
    (known : mountKey (textBeforeEquals item) = some key)
    (plain : PlainItem outside mountStr.1 item key) (has : HasValue key (textAfterEquals item)) :
    ∃ value, wantedValue outside key (textAfterEquals item) = some value ∧
      spec.get key = some value := by
  have start := head?_ne_of_known known
  have gives : key ≠ .dst → Gives key item ∧ (itemValue item).getD [] = textAfterEquals item := by
    intro notDst
    have piece := itemValue_of_single filled member start (plain.single notDst)
    exact ⟨⟨itemKey_eq start ▸ known, piece ▸ has⟩, piece⟩
  by_cases lenient : key.lenient
  · have notSrc : key ≠ .src := by
      rintro rfl
      exact absurd lenient (by decide)
    have given : ∃ other ∈ utilStringSplit mountStr.1 ',', Gives key other ∧ ∃ read,
        readValue outside key ((itemValue other).getD []) = some read ∧
          spec.get key = some read := by
      by_cases isDst : key = .dst
      · exact filled.given key (.inr ⟨.inr isDst, by rw [isDst]; rfl⟩)
      · exact filled.given key (.inl ⟨item, member, (gives isDst).1⟩)
    obtain ⟨other, memberOther, givesOther, read, reads, got⟩ := given
    refine ⟨read, ?_, got⟩
    rw [wantedValue_of_ne notSrc, ← reads]
    exact plain.agrees lenient has other memberOther givesOther.known givesOther.value
  · have notDst : key ≠ .dst := by
      rintro rfl
      exact lenient (by decide)
    have once : key.once := fun repeated => lenient (mem_cons_of_mem _ repeated)
    obtain ⟨gives, piece⟩ := gives notDst
    obtain ⟨read, reads, got⟩ := filled.once once member gives
    rw [piece] at reads
    refine ⟨read, ?_, got⟩
    by_cases isSrc : key = .src
    · subst isSrc
      rw [← reads, wantedValue, if_pos rfl, readValue]
      split
      next absolute => rw [plain.clean rfl absolute, Option.map_some]
      · rfl
    · rw [wantedValue_of_ne isSrc, reads]

/-- The specification has what the items of an accepted text say exactly if every item is read as
it is written. -/
theorem wholeValues_iff (mountStr : CStr)
    (accepted : utilParseMountSpec outside mountStr.1 = some spec) :
    WholeValues outside mountStr.1 spec ↔ PlainItems outside mountStr.1 := by
  have filled := filled_of_accepted accepted
  constructor
  · intro whole item member
    obtain ⟨key, known, -⟩ := whole item member
    exact ⟨head?_ne_of_known known, fun _ => plainItem_of_whole filled whole member⟩
  · intro plain item member
    obtain ⟨start, plainItem⟩ := plain item member
    obtain ⟨key, known⟩ := filled.keyed item member
    rw [itemKey_eq start] at known
    exact ⟨key, known, carried_of_plain filled member known (plainItem key known)⟩

/-- Nothing outside is asked about a bind mount of absolute paths. -/
def MountOutside.unasked : MountOutside :=
  ⟨none, fun _ => none, fun _ => none, nofun, nofun, fun _ => false⟩

/-- A volume of a name. -/
def namedVolume : CStr := ⟨"src=vol,dst=/d".toList, by decide⟩

theorem wholeValues_iff_namedVolume :
    ∃ spec, utilParseMountSpec .unasked namedVolume.1 = some spec ∧
      WholeValues .unasked namedVolume.1 spec := by
  obtain ⟨spec, accepted⟩ := Option.isSome_iff_exists.mp
    (show (utilParseMountSpec .unasked namedVolume.1).isSome by decide +kernel)
  refine ⟨spec, accepted, (wholeValues_iff namedVolume accepted).mpr ?_⟩
  have items : utilStringSplit namedVolume.1 ',' = ["src=vol".toList, "dst=/d".toList] := by
    decide +kernel
  have source : mountKey (itemKey "src=vol".toList) = some .src := by decide +kernel
  unfold PlainItems
  rw [items]
  refine forall_mem_cons.mpr ⟨⟨by decide, fun key known => ?_⟩,
    forall_mem_singleton.mpr ⟨by decide, fun key known => ?_⟩⟩
  · cases known.symm.trans source
    exact ⟨fun _ => by decide, fun _ absolute => absurd absolute (by decide),
      fun lenient => absurd lenient (by decide)⟩
  · cases known.symm.trans (show mountKey (itemKey "dst=/d".toList) = some .dst by decide +kernel)
    refine ⟨fun other => absurd rfl other, nofun, fun _ _ => ?_⟩
    rw [items]
    refine forall_mem_cons.mpr ⟨fun isDst => ?_, forall_mem_singleton.mpr fun _ _ => rfl⟩
    cases source.symm.trans isDst

/-- A source with a `=` in it: the directory `/a` is mounted instead of `/a=b`. -/
theorem wholeValues_fails_source :
    ∃ spec, utilParseMountSpec .unasked "type=bind,src=/a=b,dst=/d".toList = some spec ∧
      spec.source = some "/a".toList ∧
      ¬ WholeValues .unasked "type=bind,src=/a=b,dst=/d".toList spec := by
  obtain ⟨spec, accepted, source⟩ := Option.map_eq_some_iff.mp
    (show (utilParseMountSpec .unasked "type=bind,src=/a=b,dst=/d".toList).map (·.source) =
      some (some "/a".toList) by decide +kernel)
  refine ⟨spec, accepted, source, fun whole => ?_⟩
  obtain ⟨key, known, carried⟩ := whole "src=/a=b".toList (by decide +kernel)
  cases known.symm.trans (show mountKey "src".toList = some .src by decide +kernel)
  obtain ⟨value, wanted, got⟩ := carried (.inl (by decide))
  have same : some (MountValue.text "/a".toList) = some (.text "/a=b".toList) := by
    rw [← show spec.get .src = some (.text "/a".toList) from congrArg (Option.map _) source,
      got, ← wanted]
    decide
  exact absurd same (by decide)

end Whole

end Isulad.Spec
