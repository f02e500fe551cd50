import Isulad.Path.Fields
import Isulad.Storage.LayerStore

/-!
# Creating an overlay2 layer

`do_create` of `driver_overlay2.c` makes the directory of a layer and a link to it in the directory
`l` of the driver. When a step fails, the directory of the layer is removed.
-/

namespace Isulad.Storage

open Function Isulad.Std
open Isulad.Path (utilStringSplit)

/-- The files of a layer's directory that are read again: `link` and `lower`. -/
structure OverlayLayer where
  link : Option Text
  lower : Option Text

/-- The home of the driver: the directories of the layers by their ids, and the layers that the
entries of `l` link to. -/
structure OverlayHome where
  layers : Text → Option OverlayLayer
  links : Text → Option Text

namespace OverlayHome

variable (home : OverlayHome) (id : Text)

/-- The directory of a layer is made, written to, or removed. -/
def make : OverlayHome :=
  { home with layers := update home.layers id (some ((home.layers id).getD ⟨none, none⟩)) }

def write (f : OverlayLayer → OverlayLayer) : OverlayHome :=
  { home with layers := update home.layers id ((home.layers id).map f) }

def remove : OverlayHome :=
  { home with layers := update home.layers id none }

/-- The same layers and the same links. -/
def Same (before after : OverlayHome) : Prop :=
  (∀ id, (after.layers id).isSome = (before.layers id).isSome) ∧ after.links = before.links

end OverlayHome

/-- How everything outside answers `do_create`. -/
structure OverlayAnswers where
  /-- `util_mkdir_p`, of the layer's directory and of those in it. -/
  mkdirLayer : Bool
  mkdirDiff : Bool
  mkdirWork : Bool
  mkdirMerged : Bool
  mkdirEmpty : Bool
  /-- `util_parse_byte_size_string`, the default quota, and `set_quota`. -/
  parseByteSize : Text → Option Nat
  defaultQuota : Nat
  setsQuota : Nat → Bool
  /-- `util_generate_random_str`. -/
  randomStr : Option Text
  /-- The path of the link fits and can be cleaned, and `symlink` makes a new one. -/
  fitsLink : Bool
  symlinks : Bool
  writesLink : Bool
  /-- Memory and room for the text of `lower`. -/
  fitsLower : Bool
  writesLower : Bool

section Create

variable (answers : OverlayAnswers) (home : OverlayHome) (id : Text) (parent : Option Text)
  (opts : List (Text × Text))

/-- `set_layer_quota`: whatever the first option is, the loop goes no further. -/
def setLayerQuota : Bool :=
  let quota := match opts with
    | [] => some 0
    | (key, value) :: _ =>
      if key.map .toLower = "size".toList then answers.parseByteSize value else none
  match quota with
  | none => false
  | some quota =>
    if quota > 0 ∧ quota < 4096 then false
    else
      let quota := if quota = 0 then answers.defaultQuota else quota
      quota = 0 || answers.setsQuota quota

/-- `mk_diff_symlink`. The result of `symlink` is not looked at. -/
def mkDiffSymlink : Bool × OverlayHome :=
  match answers.randomStr with
  | none => (false, home)
  | some layerId =>
    if answers.fitsLink = false then (false, home)
    else
      let home := if answers.symlinks ∧ home.links layerId = none then
        { home with links := update home.links layerId (some id) } else home
      if answers.writesLink = false then (false, home)
      else (true, home.write id fun layer => { layer with link := some layerId })

/-- `get_lower` with `check_lower_depth`. -/
def getLower (parent : Text) : Option Text :=
  (home.layers parent).bind fun layer => layer.link.bind fun link =>
    let lower := "l/".toList ++ link ++ layer.lower.elim [] fun lowers => ':' :: lowers
    if answers.fitsLower ∧ (utilStringSplit lower ':').length ≤ 128 then some lower else none

/-- `mk_sub_directories`. -/
def mkSubDirectories : Bool × OverlayHome :=
  if answers.mkdirDiff = false then (false, home)
  else
    match mkDiffSymlink answers home id with
    | (false, home) => (false, home)
    | (true, home) =>
      if answers.mkdirWork = false ∨ answers.mkdirMerged = false then (false, home)
      else
        match parent with
        | none => (answers.mkdirEmpty, home)
        | some parent =>
          match getLower answers home parent with
          | none => (false, home)
          | some lower =>
            if answers.writesLower = false then (false, home)
            else (true, home.write id fun layer => { layer with lower := some lower })

/-- `do_create`. -/
def doCreate : Bool × OverlayHome :=
  if (∃ missing ∈ parent, home.layers missing = none) ∨ answers.mkdirLayer = false then
    (false, home)
  else if opts ≠ [] ∧ setLayerQuota answers opts = false then (false, (home.make id).remove id)
  else
    match mkSubDirectories answers (home.make id) id parent with
    | (true, home) => (true, home)
    | (false, home) => (false, home.remove id)

/-- The name of the link that is made, if one is. -/
def newLink : Option Text :=
  answers.randomStr.filter fun layerId => answers.mkdirDiff ∧ answers.fitsLink ∧
    answers.symlinks ∧ home.links layerId = none

/-- The other layers are as they were, and the link has been made. -/
def Linked (made : OverlayHome) : Prop :=
  (∀ other ≠ id, made.layers other = home.layers other) ∧
    made.links = (newLink answers home).elim home.links fun layerId =>
      update home.links layerId (some id)

variable {answers home id parent opts} {made : OverlayHome}

theorem mkDiffSymlink_linked (diff : answers.mkdirDiff = true) :
    Linked answers home id (mkDiffSymlink answers home id).2 := by
  unfold Linked mkDiffSymlink newLink
  cases answers.randomStr with
  | none => exact ⟨fun _ _ => rfl, rfl⟩
  | some layerId =>
    cases fits : answers.fitsLink with
    | false => simp
    | true =>
      by_cases new : answers.symlinks = true ∧ home.links layerId = none
      · cases answers.writesLink <;> simp [diff, new, OverlayHome.write] <;> grind
      · cases answers.writesLink <;> simp [diff, new, OverlayHome.write] <;> grind

theorem mkSubDirectories_linked :
    Linked answers home id (mkSubDirectories answers home id parent).2 := by
  unfold mkSubDirectories
  by_cases diff : answers.mkdirDiff = false
  · simp [diff, Linked, newLink]
  have linked := @mkDiffSymlink_linked answers home id (by simpa using diff)
  rw [if_neg diff]
  generalize mkDiffSymlink answers home id = made at *
  iterate 5 (split; · exact linked)
  exact ⟨fun other differs => (update_of_ne differs ..).trans (linked.1 other differs), linked.2⟩

theorem Linked.links_eq_iff (linked : Linked answers home id made) :
    made.links = home.links ↔ newLink answers home = none := by
  rw [linked.2]
  cases link : newLink answers home with
  | none => simp
  | some layerId =>
    simp [newLink] at link
    refine iff_of_false (fun same => ?_) nofun
    have here := congrFun same layerId
    rw [Option.elim_some, update_self, link.2.2.2.2] at here
    cases here

/-- What is left when the directory of the layer is removed. -/
theorem same_remove_iff (others : ∀ other ≠ id, made.layers other = home.layers other) :
    home.Same (made.remove id) ↔ home.layers id = none ∧ made.links = home.links := by
  refine and_congr_left fun _ => ⟨fun same => ?_, fun absent other => ?_⟩
  · have here := same id
    dsimp only [OverlayHome.remove] at here
    rw [update_self] at here
    simpa using here.symm
  · dsimp only [OverlayHome.remove]
    by_cases differs : other = id
    · rw [differs, update_self, absent]
    · rw [update_of_ne differs, others other differs]

/-- A creation that fails leaves the layers and the links as they were exactly if it fails before it
makes anything, or makes a new directory and no link. -/
theorem same_doCreate_iff (failed : (doCreate answers home id parent opts).1 = false) :
    home.Same (doCreate answers home id parent opts).2 ↔
      (∃ missing ∈ parent, home.layers missing = none) ∨ answers.mkdirLayer = false ∨
        home.layers id = none ∧ (opts ≠ [] ∧ setLayerQuota answers opts = false ∨
          newLink answers home = none) := by
  unfold doCreate at failed ⊢
  rw [← or_assoc]
  by_cases early : (∃ missing ∈ parent, home.layers missing = none) ∨ answers.mkdirLayer = false
  · rw [if_pos early]
    exact iff_of_true ⟨fun _ => rfl, rfl⟩ (.inl early)
  rw [if_neg early] at failed ⊢
  rw [or_iff_right early]
  have others : ∀ other ≠ id, (home.make id).layers other = home.layers other :=
    fun other differs => update_of_ne differs ..
  split
  next refused =>
    rw [same_remove_iff others]
    simp [refused, OverlayHome.make]
  next accepted =>
    rw [if_neg accepted] at failed
    have linked := @mkSubDirectories_linked answers (home.make id) id parent
    split
    next made => simp [made] at failed
    next made unmade =>
      rw [unmade] at linked
      rw [or_iff_right accepted,
        same_remove_iff fun other differs => (linked.1 other differs).trans (others other differs)]
      exact and_congr_right fun _ => linked.links_eq_iff

/-- Everything is granted but the directory `work`. -/
def workRefused : OverlayAnswers :=
  ⟨true, true, false, true, true, fun _ => none, 0, fun _ => true, some ['x'], true, true, true,
    true, true⟩

/-- The option is not known, and the new directory goes again. -/
theorem same_doCreate_option :
    let home : OverlayHome := ⟨fun _ => none, fun _ => none⟩
    home.Same (doCreate workRefused home ['a'] none [(['b'], [])]).2 :=
  (same_doCreate_iff (by decide)).mpr (.inr (.inr ⟨rfl, .inl ⟨nofun, by decide⟩⟩))

/-- The link stays behind when the directory `work` cannot be made. -/
theorem same_doCreate_fails_work :
    let home : OverlayHome := ⟨fun _ => none, fun _ => none⟩
    (doCreate workRefused home ['a'] none []).1 = false ∧
      ¬ home.Same (doCreate workRefused home ['a'] none []).2 :=
  ⟨by decide, fun same => nomatch congrFun same.2 ['x']⟩

end Create

section Options

open List

variable (parse : Text → Option Nat) {opt : Text × Text} {opts : List (Text × Text)} {size : Nat}

/-- `parse_storage_opt` of the devicemapper, whose loop is that of `set_layer_quota`: the size is 0
without an option. -/
def parseStorageOpt : List (Text × Text) → Option Nat
  | [] => some 0
  | (key, value) :: _ => if key.map .toLower = "size".toList then parse value else none

/-- Both drivers take the same from the options in any order, and refuse them with another key than
the size. -/
def OrderFree (opts : List (Text × Text)) : Prop :=
  (∀ other, opts.Perm other → parseStorageOpt parse other = parseStorageOpt parse opts ∧
    ∀ answers : OverlayAnswers, answers.parseByteSize = parse →
      setLayerQuota answers other = setLayerQuota answers opts) ∧
  ((∃ opt ∈ opts, opt.1.map .toLower ≠ "size".toList) → parseStorageOpt parse opts = none ∧
    ∀ answers : OverlayAnswers, answers.parseByteSize = parse → setLayerQuota answers opts = false)

/-- The quota is settled by the size. -/
theorem exists_setLayerQuota (answers : OverlayAnswers) : ∃ settled : Option Nat → Bool,
    settled none = false ∧ ∀ opts,
      setLayerQuota answers opts = settled (parseStorageOpt answers.parseByteSize opts) := by
  refine ⟨fun size => setLayerQuota { answers with parseByteSize := fun _ => size }
    [("size".toList, [])], rfl, fun opts => ?_⟩
  cases opts <;> rfl

/-- The key is the size. -/
abbrev IsSize (opt : Text × Text) : Prop := opt.1.map .toLower = "size".toList

/-- No option is a size that can be read, or all are, and the same one. -/
def Alike (opts : List (Text × Text)) : Prop :=
  (∀ opt ∈ opts, IsSize opt → parse opt.2 = none) ∨
    ∃ size, ∀ opt ∈ opts, IsSize opt ∧ parse opt.2 = some size

theorem parseStorageOpt_eq_none_iff : parseStorageOpt parse (opt :: opts) = none ↔
    IsSize opt → parse opt.2 = none := by
  simp only [parseStorageOpt, ite_eq_right_iff]

theorem parseStorageOpt_eq_some_iff : parseStorageOpt parse (opt :: opts) = some size ↔
    IsSize opt ∧ parse opt.2 = some size := by
  simp only [parseStorageOpt, Option.ite_none_right_eq_some]

theorem alike_iff (opts : List (Text × Text)) : Alike parse opts ↔
    ∀ one ∈ opts, ∀ other ∈ opts, parseStorageOpt parse [one] = parseStorageOpt parse [other] := by
  constructor
  · rintro (none | ⟨size, all⟩) one member other memberOther
    · rw [(parseStorageOpt_eq_none_iff parse).mpr (none one member),
        (parseStorageOpt_eq_none_iff parse).mpr (none other memberOther)]
    · rw [(parseStorageOpt_eq_some_iff parse).mpr (all one member),
        (parseStorageOpt_eq_some_iff parse).mpr (all other memberOther)]
  · intro same
    cases opts with
    | nil => exact .inl nofun
    | cons first rest =>
      have asFirst := fun opt member => same opt member first mem_cons_self
      cases read : parseStorageOpt parse [first] with
      | none =>
        exact .inl fun opt member =>
          (parseStorageOpt_eq_none_iff parse).mp ((asFirst opt member).trans read)
      | some size =>
        exact .inr ⟨size, fun opt member =>
          (parseStorageOpt_eq_some_iff parse).mp ((asFirst opt member).trans read)⟩

/-- The order does not count exactly if the options are alike. -/
theorem orderFree_iff (opts : List (Text × Text)) :
    OrderFree parse opts ↔ Alike parse opts := by
  rw [alike_iff]
  constructor
  · intro free one member other memberOther
    have first := fun opt (member : opt ∈ opts) => (free.1 _ (perm_cons_erase member)).1
    exact (first one member).trans (first other memberOther).symm
  · intro alike
    have first : ∀ other, opts.Perm other →
        parseStorageOpt parse other = parseStorageOpt parse opts := by
      intro other perm
      cases opts with
      | nil => rw [perm.nil_eq]
      | cons opt opts =>
        cases other with
        | nil => cases perm.eq_nil
        | cons one rest => exact alike one (perm.mem_iff.mpr mem_cons_self) opt mem_cons_self
    constructor
    · refine fun other perm => ⟨first other perm, ?_⟩
      rintro answers rfl
      obtain ⟨settled, -, same⟩ := exists_setLayerQuota answers
      rw [same, same, first other perm]
    · rintro ⟨opt, member, key⟩
      have refused := (first _ (perm_cons_erase member)).symm.trans (if_neg key)
      refine ⟨refused, ?_⟩
      rintro answers rfl
      obtain ⟨settled, none, same⟩ := exists_setLayerQuota answers
      rw [same, refused, none]

/-- Behind the size, another key is not seen. -/
theorem orderFree_fails_second :
    ¬ OrderFree (fun _ => some 8192) [("size".toList, ['8', 'k']), (['b'], [])] := by
  intro free
  exact absurd (free.2 ⟨(['b'], []), by simp, by decide⟩).1 (by decide)

end Options

end Isulad.Storage
