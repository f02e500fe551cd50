import Mathlib.Tactic.Common

/-!
# The capabilities of a container

`mergeAllSpecs` computes the bounding capability set as `merge_all_specs` of
`spec/specs.c` does. The generic merge of the user's lists comes first, then the
list a system container adds on its own, then the refill of a privileged
container. Names are compared without regard to letter case throughout.
-/

namespace Isulad.Spec

open List

/-- The characters of a C string. -/
abbrev Text := List Char

/-- `strcasecmp(a, b) == 0`. -/
def strcaseEq (a b : Text) : Bool := a.map Char.toLower == b.map Char.toLower

/-- `util_strings_in_slice`. -/
def utilStringsInSlice (strarray : List Text) (str : Text) : Bool :=
  strarray.any fun entry => strcaseEq entry str

/-- `MAX_CAP_LEN`. -/
def maxCapLen : Nat := 32

/-- `LIST_SIZE_MAX`. -/
def listSizeMax : Nat := 1000

/-- The name that stands for every capability. -/
def allName : Text := "all".toList

/-- `g_all_caps` of `utils_verify.c`. -/
def gAllCaps : List Text :=
  ["CAP_CHOWN", "CAP_DAC_OVERRIDE", "CAP_DAC_READ_SEARCH", "CAP_FOWNER", "CAP_FSETID",
    "CAP_KILL", "CAP_SETGID", "CAP_SETUID", "CAP_SETPCAP", "CAP_LINUX_IMMUTABLE",
    "CAP_NET_BIND_SERVICE", "CAP_NET_BROADCAST", "CAP_NET_ADMIN", "CAP_NET_RAW",
    "CAP_IPC_LOCK", "CAP_IPC_OWNER", "CAP_SYS_MODULE", "CAP_SYS_RAWIO", "CAP_SYS_CHROOT",
    "CAP_SYS_PTRACE", "CAP_SYS_PACCT", "CAP_SYS_ADMIN", "CAP_SYS_BOOT", "CAP_SYS_NICE",
    "CAP_SYS_RESOURCE", "CAP_SYS_TIME", "CAP_SYS_TTY_CONFIG", "CAP_MKNOD", "CAP_LEASE",
    "CAP_AUDIT_WRITE", "CAP_AUDIT_CONTROL", "CAP_SETFCAP", "CAP_MAC_OVERRIDE",
    "CAP_MAC_ADMIN", "CAP_SYSLOG", "CAP_WAKE_ALARM", "CAP_BLOCK_SUSPEND",
    "CAP_AUDIT_READ"].map String.toList

/-- `g_system_caps` of `specs_security.c`, the names a system container adds. -/
def gSystemCaps : List Text :=
  ["SYS_BOOT", "SETPCAP", "NET_RAW", "NET_BIND_SERVICE", "AUDIT_WRITE", "DAC_OVERRIDE",
    "SETFCAP", "SETGID", "SETUID", "MKNOD", "CHOWN", "FOWNER", "FSETID", "KILL",
    "SYS_CHROOT"].map String.toList

/-- The capability a user's name stands for. -/
def capOf (name : Text) : Text := "CAP_".toList ++ name

/-- `snprintf(tmpcap, MAX_CAP_LEN, "CAP_%s", name)`, checked for truncation. -/
def printCap (name : Text) : Except Text Text :=
  if (capOf name).length < maxCapLen then .ok (capOf name)
  else .error "Failed to print string".toList

/-- `tweak_drops_capabilities`. A base name is read behind its `CAP_`, which every
name of the base configuration has. -/
def tweakDropsCapabilities (basicCaps drops : List Text) : List Text :=
  if utilStringsInSlice drops allName then []
  else basicCaps.filter fun cap =>
    !strcaseEq cap allName && !utilStringsInSlice drops (cap.drop 4)

/-- `tweak_adds_capabilities`. -/
def tweakAddsCapabilities (newCaps : List Text) : List Text → Except Text (List Text)
  | [] => .ok newCaps
  | name :: adds =>
    if strcaseEq name allName then tweakAddsCapabilities newCaps adds
    else
      match printCap name with
      | .error error => .error error
      | .ok tmpcap =>
        if !utilStringsInSlice gAllCaps tmpcap then
          .error ("Unknown capability to add: '".toList ++ tmpcap ++ "'".toList)
        else if utilStringsInSlice newCaps tmpcap then tweakAddsCapabilities newCaps adds
        else tweakAddsCapabilities (newCaps ++ [tmpcap]) adds

/-- `valid_drops_cap`. -/
def validDropsCap : List Text → Except Text Unit
  | [] => .ok ()
  | name :: drops =>
    if strcaseEq name allName then validDropsCap drops
    else
      match printCap name with
      | .error error => .error error
      | .ok tmpcap =>
        if utilStringsInSlice gAllCaps tmpcap then validDropsCap drops
        else .error ("Unknown capability to drop: '".toList ++ name ++ "'".toList)

/-- `tweak_capabilities`. -/
def tweakCapabilities (caps adds drops : List Text) : Except Text (List Text) :=
  match validDropsCap drops with
  | .error error => .error error
  | .ok () =>
    let basicCaps := if utilStringsInSlice adds allName then gAllCaps else caps
    tweakAddsCapabilities (tweakDropsCapabilities basicCaps drops) adds

/-- `merge_caps`. A missing list is a `NULL` pointer with length zero. -/
def mergeCaps (caps : List Text) (adds drops : Option (List Text)) :
    Except Text (List Text) :=
  if adds = none ∧ drops = none then .ok caps
  else if listSizeMax < (adds.getD []).length ∨ listSizeMax < (drops.getD []).length then
    .error "Too many capabilities to add or drop, the limit is 1000".toList
  else tweakCapabilities caps (adds.getD []) (drops.getD [])

/-- The fields of `host_config` that decide the capabilities. -/
structure HostConfig where
  capAdd : Option (List Text) := none
  capDrop : Option (List Text) := none
  systemContainer : Bool := false
  privileged : Bool := false

variable (host : HostConfig)

/-- The names the user adds. -/
def HostConfig.adds : List Text := host.capAdd.getD []

/-- The names the user drops. -/
def HostConfig.drops : List Text := host.capDrop.getD []

/-- `get_adds_cap_for_system_container`. Nothing appended leaves the array `NULL`. -/
def getAddsCapForSystemContainer : Option (List Text) :=
  match gSystemCaps.filter fun name => !utilStringsInSlice host.drops name with
  | [] => none
  | adds => some adds

/-- The capability part of `merge_security_conf`. -/
def mergeSecurityConf (caps : List Text) : Except Text (List Text) :=
  mergeCaps caps host.capAdd host.capDrop

/-- The capability part of `merge_settings_for_system_container`, that is of
`adapt_settings_for_system_container`. -/
def mergeSettingsForSystemContainer (caps : List Text) : Except Text (List Text) :=
  if host.systemContainer then mergeCaps caps (getAddsCapForSystemContainer host) none
  else .ok caps

/-- The capability part of `adapt_settings_for_privileged`. -/
def adaptSettingsForPrivileged (caps : List Text) : List Text :=
  if host.privileged then gAllCaps else caps

/-- The bounding capabilities after `merge_all_specs`, from those of the base
configuration. -/
def mergeAllSpecs (base : List Text) : Except Text (List Text) :=
  match mergeSecurityConf host base with
  | .error error => .error error
  | .ok caps =>
    match mergeSettingsForSystemContainer host caps with
    | .error error => .error error
    | .ok caps => .ok (adaptSettingsForPrivileged host caps)

variable {cap name a b str : Text} {names strarray : List Text}

/-- Some name of the list stands for the capability, in any letter case. -/
def Names (names : List Text) (cap : Text) : Prop :=
  ∃ name ∈ names, strcaseEq (capOf name) cap = true

instance (names : List Text) (cap : Text) : Decidable (Names names cap) :=
  inferInstanceAs (Decidable (∃ name ∈ names, _))

/-- The user drops the capability by its name or through `all`. -/
def HostConfig.Drops (cap : Text) : Prop :=
  utilStringsInSlice host.drops allName = true ∨ Names host.drops cap

instance (host : HostConfig) (cap : Text) : Decidable (host.Drops cap) :=
  inferInstanceAs (Decidable (_ ∨ _))

theorem strcaseEq_iff :
    strcaseEq a b = true ↔ a.map Char.toLower = b.map Char.toLower := by
  simp [strcaseEq]

theorem strcaseEq_symm (same : strcaseEq a b = true) : strcaseEq b a = true :=
  strcaseEq_iff.mpr (strcaseEq_iff.mp same).symm

theorem strcaseEq_capOf :
    strcaseEq (capOf a) (capOf b) = true ↔ strcaseEq a b = true := by
  simp [strcaseEq_iff, capOf]

theorem utilStringsInSlice_iff :
    utilStringsInSlice strarray str = true ↔
      ∃ entry ∈ strarray, strcaseEq entry str = true := by
  simp [utilStringsInSlice]

/-- The slice test behind `CAP_` finds every name of the capability. -/
theorem Names.inSlice (named : Names names cap) :
    utilStringsInSlice names (cap.drop 4) = true := by
  obtain ⟨name, member, same⟩ := named
  have behind := congrArg (List.drop 4) (strcaseEq_iff.mp same)
  refine utilStringsInSlice_iff.mpr ⟨name, member, strcaseEq_iff.mpr ?_⟩
  simpa [capOf, ← map_drop] using behind

variable {newCaps adds drops basicCaps caps base result : List Text}

/-- The capabilities that survive the drops are neither dropped by name nor
through `all`. -/
theorem mem_tweakDropsCapabilities (kept : cap ∈ tweakDropsCapabilities basicCaps drops) :
    cap ∈ basicCaps ∧ ¬ utilStringsInSlice drops allName = true ∧ ¬ Names drops cap := by
  unfold tweakDropsCapabilities at kept
  split at kept
  · cases kept
  rename_i keepsSome
  rw [mem_filter] at kept
  obtain ⟨member, passes⟩ := kept
  refine ⟨member, keepsSome, fun named => ?_⟩
  simp [named.inSlice] at passes

theorem printCap_ok {tmpcap : Text} (printed : printCap name = .ok tmpcap) :
    tmpcap = capOf name := by
  unfold printCap at printed
  split at printed
  · exact (Except.ok.inj printed).symm
  · cases printed

/-- The name is that of a capability, in any letter case. -/
def Known (name : Text) : Prop := utilStringsInSlice gAllCaps (capOf name) = true

instance (name : Text) : Decidable (Known name) := inferInstanceAs (Decidable (_ = true))

/-- The names of a list other than `all`. -/
def byName (names : List Text) : List Text := names.filter fun name => !strcaseEq name allName

/-- The names of the table start with `CAP_`, fit into the buffer and are not as long as `all`. -/
theorem name_of_mem_gAllCaps (member : cap ∈ gAllCaps) :
    (cap.take 4).map .toLower = "cap_".toList ∧ cap.length < maxCapLen ∧
      cap.length ≠ allName.length := by
  have names : ∀ cap ∈ gAllCaps, (cap.take 4).map Char.toLower = "cap_".toList ∧
      cap.length < maxCapLen ∧ cap.length ≠ allName.length := by
    decide +kernel
  exact names cap member

theorem Known.fits (known : Known name) : (capOf name).length < maxCapLen := by
  obtain ⟨cap, member, same⟩ := utilStringsInSlice_iff.mp known
  have lengths := congrArg List.length (strcaseEq_iff.mp same)
  rw [length_map, length_map] at lengths
  exact lengths ▸ (name_of_mem_gAllCaps member).2.1

theorem Known.printCap (known : Known name) : printCap name = .ok (capOf name) :=
  if_pos known.fits

/-- The list with the capability of a name, once. -/
def withCap (newCaps : List Text) (name : Text) : List Text :=
  if utilStringsInSlice newCaps (capOf name) then newCaps else newCaps ++ [capOf name]

/-- The adds succeed on known names, and append their capabilities one by one. -/
theorem tweakAddsCapabilities_ok_iff :
    tweakAddsCapabilities newCaps adds = .ok result ↔
      (∀ name ∈ adds, strcaseEq name allName = true ∨ Known name) ∧
        result = (byName adds).foldl withCap newCaps := by
  induction adds generalizing newCaps with
  | nil => simpa [tweakAddsCapabilities, byName] using eq_comm
  | cons name adds ih =>
    rw [tweakAddsCapabilities, forall_mem_cons]
    by_cases all : strcaseEq name allName = true
    · simp [all, ih, byName]
    by_cases known : Known name
    · have found : utilStringsInSlice gAllCaps (capOf name) = true := known
      have kept : byName (name :: adds) = name :: byName adds := by simp [byName, all]
      rw [if_neg all, known.printCap, kept, foldl_cons, withCap]
      simp [found, known]
      split <;> exact ih
    · have missing : utilStringsInSlice gAllCaps (capOf name) = false := by
        simpa [Known] using known
      rw [if_neg all]
      refine iff_of_false ?_ (by simp [all, known])
      split
      · exact nofun
      rename_i tmpcap printed
      rw [printCap_ok printed, missing]
      exact nofun

/-- Adding names brings in capabilities of these names only. -/
theorem mem_foldl_withCap (member : cap ∈ names.foldl withCap newCaps) :
    cap ∈ newCaps ∨ Names names cap := by
  induction names generalizing newCaps with
  | nil => exact .inl member
  | cons name names ih =>
    rcases ih member with old | ⟨other, inNames, same⟩
    · unfold withCap at old
      split at old
      · exact .inl old
      rcases mem_append.mp old with old | new
      · exact .inl old
      · rw [mem_singleton.mp new]
        exact .inr ⟨name, mem_cons_self, strcaseEq_iff.mpr rfl⟩
    · exact .inr ⟨other, mem_cons_of_mem _ inNames, same⟩

/-- A merged capability is added by name, or it is a base capability that the
drops spare. -/
theorem mem_mergeCaps {adds drops : Option (List Text)}
    (merged : mergeCaps base adds drops = .ok caps) (member : cap ∈ caps) :
    Names (adds.getD []) cap ∨
      (¬ utilStringsInSlice (drops.getD []) allName = true ∧ ¬ Names (drops.getD []) cap ∧
        (utilStringsInSlice (adds.getD []) allName = true ∨ cap ∈ base)) := by
  unfold mergeCaps at merged
  split at merged
  next missing =>
    cases merged
    simp [missing, member, Names, utilStringsInSlice]
  · split at merged
    · cases merged
    · unfold tweakCapabilities at merged
      split at merged
      · cases merged
      obtain ⟨-, rfl⟩ := tweakAddsCapabilities_ok_iff.mp merged
      rcases mem_foldl_withCap member with kept | ⟨name, kept, same⟩
      · obtain ⟨basic, sparesAll, sparesName⟩ := mem_tweakDropsCapabilities kept
        refine .inr ⟨sparesAll, sparesName, ?_⟩
        split at basic
        next addsAll => exact .inl addsAll
        · exact .inr basic
      · exact .inl ⟨name, (mem_filter.mp kept).1, same⟩

/-- The names a system container adds are its own ones that the user does not drop
by name. -/
theorem names_getAddsCapForSystemContainer {host : HostConfig}
    (named : Names ((getAddsCapForSystemContainer host).getD []) cap) :
    Names gSystemCaps cap ∧ ¬ Names host.drops cap := by
  have unfolded : (getAddsCapForSystemContainer host).getD [] =
      gSystemCaps.filter fun name => !utilStringsInSlice host.drops name := by
    unfold getAddsCapForSystemContainer
    split
    next nothing => simp [nothing]
    · rfl
  rw [unfolded] at named
  obtain ⟨name, kept, same⟩ := named
  obtain ⟨system, spared⟩ := mem_filter.mp kept
  refine ⟨⟨name, system, same⟩, ?_⟩
  rintro ⟨drop, dropped, sameDrop⟩
  have sameName : strcaseEq drop name = true :=
    strcaseEq_capOf.mp (strcaseEq_iff.mpr
      ((strcaseEq_iff.mp sameDrop).trans (strcaseEq_iff.mp same).symm))
  simp [utilStringsInSlice_iff.mpr ⟨drop, dropped, sameName⟩] at spared

/-- The list of a system container never contains `all`. -/
theorem getAddsCapForSystemContainer_sparesAll :
    ¬ utilStringsInSlice ((getAddsCapForSystemContainer host).getD []) allName = true := by
  have noneSame : ∀ name ∈ gSystemCaps, ¬ strcaseEq name allName = true := by decide +kernel
  rw [utilStringsInSlice_iff]
  rintro ⟨name, member, same⟩
  unfold getAddsCapForSystemContainer at member
  split at member
  · cases member
  · exact noneSame name (mem_filter.mp member).1 same

/-- In a system container that is not privileged, nothing the user drops by name and
does not add by name remains, and through `all` nothing outside the container's own
list. A privileged one has every capability. -/
theorem mergeAllSpecs_respectsDrops {host : HostConfig} {base caps : List Text}
    (system : host.systemContainer = true) (merged : mergeAllSpecs host base = .ok caps) :
    (host.privileged = true → caps = gAllCaps) ∧
      (host.privileged = false → ∀ cap ∈ caps, ¬ Names host.adds cap →
        ¬ Names host.drops cap ∧ (host.Drops cap → Names gSystemCaps cap)) := by
  unfold mergeAllSpecs at merged
  split at merged
  · cases merged
  rename_i userCaps userMerged
  split at merged
  · cases merged
  rename_i systemCaps systemMerged
  cases merged
  refine ⟨fun privileged => by simp [adaptSettingsForPrivileged, privileged], ?_⟩
  intro plain cap member notAdded
  rw [adaptSettingsForPrivileged, if_neg (by simp [plain])] at member
  rw [mergeSettingsForSystemContainer, if_pos system] at systemMerged
  rcases mem_mergeCaps systemMerged member with own | ⟨-, -, kept⟩
  · -- the second merge brings the capability in
    obtain ⟨ownName, spared⟩ := names_getAddsCapForSystemContainer own
    exact ⟨spared, fun _ => ownName⟩
  · -- the capability is there after the first merge already
    have first : cap ∈ userCaps :=
      kept.resolve_left (getAddsCapForSystemContainer_sparesAll host)
    rcases mem_mergeCaps userMerged first with named | ⟨sparesAll, sparesName, -⟩
    · exact absurd named notAdded
    exact ⟨sparesName, fun drops => absurd drops (by
      rintro (all | named)
      · exact sparesAll all
      · exact sparesName named)⟩

/-- A system container that drops `CHOWN`, in whatever letter case, has the rest of
its list. -/
theorem mergeAllSpecs_respectsDrops_chown :
    let host : HostConfig := { systemContainer := true, capDrop := some ["chown".toList] }
    ∃ caps, mergeAllSpecs host ["CAP_CHOWN".toList, "CAP_KILL".toList] = .ok caps ∧
      "CAP_KILL".toList ∈ caps ∧ "CAP_CHOWN".toList ∉ caps := by
  intro host
  have merged : mergeAllSpecs host ["CAP_CHOWN".toList, "CAP_KILL".toList] =
      .ok (["CAP_KILL", "CAP_SYS_BOOT", "CAP_SETPCAP", "CAP_NET_RAW", "CAP_NET_BIND_SERVICE",
        "CAP_AUDIT_WRITE", "CAP_DAC_OVERRIDE", "CAP_SETFCAP", "CAP_SETGID", "CAP_SETUID",
        "CAP_MKNOD", "CAP_FOWNER", "CAP_FSETID", "CAP_SYS_CHROOT"].map String.toList) := by
    decide +kernel
  refine ⟨_, merged, by decide +kernel, fun member => ?_⟩
  exact ((mergeAllSpecs_respectsDrops rfl merged).2 rfl _ member (by decide +kernel)).1
    (by decide +kernel)

/-- A privileged system container keeps a capability that the user drops. -/
theorem mergeAllSpecs_privileged_keepsDropped :
    let host : HostConfig :=
      { systemContainer := true, privileged := true, capDrop := some ["CHOWN".toList] }
    ∃ caps, mergeAllSpecs host ["CAP_CHOWN".toList] = .ok caps ∧ "CAP_CHOWN".toList ∈ caps ∧
      host.Drops "CAP_CHOWN".toList ∧ ¬ Names host.adds "CAP_CHOWN".toList := by
  intro host
  exact ⟨gAllCaps, by decide +kernel, by decide +kernel, by decide +kernel, by decide +kernel⟩

/-- No two names of the list are one, in any letter case. -/
def Apart (caps : List Text) : Prop := caps.Pairwise fun cap other => ¬ strcaseEq cap other = true

instance (caps : List Text) : Decidable (Apart caps) :=
  inferInstanceAs (Decidable (caps.Pairwise _))

theorem strcaseEq_trans {c : Text} (first : strcaseEq a b = true) (second : strcaseEq b c = true) :
    strcaseEq a c = true :=
  strcaseEq_iff.mpr ((strcaseEq_iff.mp first).trans (strcaseEq_iff.mp second))

theorem utilStringsInSlice_congr (same : strcaseEq a b = true) :
    utilStringsInSlice strarray a = true ↔ utilStringsInSlice strarray b = true := by
  rw [utilStringsInSlice_iff, utilStringsInSlice_iff]
  constructor
  · rintro ⟨entry, member, isA⟩
    exact ⟨entry, member, strcaseEq_trans isA same⟩
  · rintro ⟨entry, member, isB⟩
    exact ⟨entry, member, strcaseEq_trans isB (strcaseEq_symm same)⟩

section

variable (known : utilStringsInSlice gAllCaps cap = true)
include known

/-- A capability, in any letter case, is `CAP_` and a name. -/
theorem exists_capOf_of_known :
    strcaseEq (capOf (cap.drop 4)) cap = true := by
  obtain ⟨entry, member, same⟩ := utilStringsInSlice_iff.mp known
  have front : (cap.take 4).map Char.toLower = "cap_".toList := by
    rw [map_take, ← strcaseEq_iff.mp same, ← map_take]
    exact (name_of_mem_gAllCaps member).1
  rw [strcaseEq_iff]
  calc (capOf (cap.drop 4)).map Char.toLower
      = (cap.take 4).map .toLower ++ (cap.drop 4).map .toLower := by
        rw [front, capOf, map_append]
        rfl
    _ = cap.map Char.toLower := by rw [← map_append, take_append_drop]

theorem not_all_of_known :
    ¬ strcaseEq cap allName = true := by
  obtain ⟨entry, member, same⟩ := utilStringsInSlice_iff.mp known
  intro all
  have lengths := congrArg List.length (strcaseEq_iff.mp (strcaseEq_trans same all))
  rw [length_map, length_map] at lengths
  exact (name_of_mem_gAllCaps member).2.2 lengths

theorem inSlice_drop_iff_names :
    utilStringsInSlice names (cap.drop 4) = true ↔ Names names cap := by
  refine ⟨fun found => ?_, Names.inSlice⟩
  obtain ⟨name, member, same⟩ := utilStringsInSlice_iff.mp found
  exact ⟨name, member, strcaseEq_trans (strcaseEq_capOf.mpr same) (exists_capOf_of_known known)⟩

end

theorem validDropsCap_ok_iff :
    validDropsCap drops = .ok () ↔
      ∀ name ∈ drops, strcaseEq name allName = true ∨ Known name := by
  induction drops with
  | nil => simp [validDropsCap]
  | cons name drops ih =>
    rw [forall_mem_cons, ← ih, validDropsCap]
    by_cases all : strcaseEq name allName = true
    · simp [all]
    by_cases known : Known name
    · have found : utilStringsInSlice gAllCaps (capOf name) = true := known
      simp [all, known.printCap, known, found]
    · have missing : ¬ utilStringsInSlice gAllCaps (capOf name) = true := known
      simp only [all, known, if_false, Bool.false_eq_true, false_or, false_and, iff_false]
      split
      · exact nofun
      rename_i tmpcap printed
      rw [printCap_ok printed, if_neg missing]
      exact nofun

theorem utilStringsInSlice_withCap :
    utilStringsInSlice (withCap newCaps name) cap = true ↔
      utilStringsInSlice newCaps cap = true ∨ strcaseEq (capOf name) cap = true := by
  unfold withCap
  split
  next already =>
    refine ⟨.inl, ?_⟩
    rintro (old | same)
    · exact old
    · exact (utilStringsInSlice_congr same).mp already
  · simp [utilStringsInSlice]

theorem Apart.withCap (apart : Apart newCaps) (name : Text) :
    Apart (withCap newCaps name) := by
  unfold Spec.withCap
  split
  · exact apart
  rename_i fresh
  refine pairwise_append.mpr ⟨apart, pairwise_singleton _ _, ?_⟩
  intro cap member other single same
  rw [mem_singleton.mp single] at same
  exact fresh (utilStringsInSlice_iff.mpr ⟨cap, member, same⟩)

/-- The adds leave the list without duplicates and bring in exactly what they name. -/
theorem foldl_withCap_spec (apart : Apart newCaps) (names : List Text) :
    Apart (names.foldl withCap newCaps) ∧
      ∀ cap, utilStringsInSlice (names.foldl withCap newCaps) cap = true ↔
        utilStringsInSlice newCaps cap = true ∨ Names names cap := by
  induction names generalizing newCaps with
  | nil => exact ⟨apart, fun cap => by simp [Names]⟩
  | cons name names ih =>
    obtain ⟨apartResult, contents⟩ := ih (apart.withCap name)
    refine ⟨apartResult, fun cap => ?_⟩
    rw [foldl_cons, contents, utilStringsInSlice_withCap, or_assoc]
    simp [Names]

/-- The drops leave exactly the known capabilities that they do not name. -/
theorem tweakDropsCapabilities_spec
    (known : ∀ cap ∈ basicCaps, utilStringsInSlice gAllCaps cap = true) (apart : Apart basicCaps) :
    Apart (tweakDropsCapabilities basicCaps drops) ∧
      ∀ cap, utilStringsInSlice (tweakDropsCapabilities basicCaps drops) cap = true ↔
        utilStringsInSlice basicCaps cap = true ∧ ¬ utilStringsInSlice drops allName = true ∧
          ¬ Names drops cap := by
  have names : ∀ {base cap : Text}, strcaseEq base cap = true →
      (Names drops base ↔ Names drops cap) := by
    intro base cap same
    refine exists_congr fun name => and_congr_right fun _ => ?_
    exact ⟨fun first => strcaseEq_trans first same,
      fun first => strcaseEq_trans first (strcaseEq_symm same)⟩
  unfold tweakDropsCapabilities
  split
  next dropsAll =>
    refine ⟨.nil, fun cap => ?_⟩
    simp [utilStringsInSlice_iff, utilStringsInSlice_iff.mp dropsAll]
  next keepsSome =>
    refine ⟨apart.filter _, fun cap => ?_⟩
    rw [utilStringsInSlice_iff, utilStringsInSlice_iff]
    constructor
    · rintro ⟨base, member, same⟩
      obtain ⟨isBase, passes⟩ := mem_filter.mp member
      refine ⟨⟨base, isBase, same⟩, keepsSome, fun dropped => ?_⟩
      have found := (inSlice_drop_iff_names (known base isBase)).mpr ((names same).mpr dropped)
      simp [found] at passes
    · rintro ⟨⟨base, isBase, same⟩, -, spared⟩
      refine ⟨base, mem_filter.mpr ⟨isBase, ?_⟩, same⟩
      have notDropped : ¬ utilStringsInSlice drops (base.drop 4) = true := fun found =>
        spared ((names same).mp ((inSlice_drop_iff_names (known base isBase)).mp found))
      simp [notDropped, not_all_of_known (known base isBase)]

/-- The tweak succeeds exactly on known names, and its result is, without duplicates, the
base or all capabilities, minus the dropped ones, plus those added by name. -/
theorem tweakCapabilities_eq_set {caps adds drops : List Text}
    (known : ∀ cap ∈ caps, utilStringsInSlice gAllCaps cap = true) (apart : Apart caps) :
    ((∃ result, tweakCapabilities caps adds drops = .ok result) ↔
      ∀ name ∈ adds ++ drops, strcaseEq name allName = true ∨ Known name) ∧
    ∀ result, tweakCapabilities caps adds drops = .ok result →
      Apart result ∧ ∀ cap, utilStringsInSlice result cap = true ↔
        (utilStringsInSlice (if utilStringsInSlice adds allName then gAllCaps else caps) cap =
          true ∧
          ¬ utilStringsInSlice drops allName = true ∧ ¬ Names drops cap) ∨
        Names (byName adds) cap := by
  have allKnown : ∀ cap ∈ gAllCaps, utilStringsInSlice gAllCaps cap = true := fun cap member =>
    utilStringsInSlice_iff.mpr ⟨cap, member, strcaseEq_iff.mpr rfl⟩
  have allApart : Apart gAllCaps := by decide +kernel
  constructor
  · rw [forall_mem_append, ← @validDropsCap_ok_iff drops, tweakCapabilities]
    split
    next invalid => simp [invalid]
    next valid => simp [valid, tweakAddsCapabilities_ok_iff]
  · intro result tweaked
    unfold tweakCapabilities at tweaked
    split at tweaked
    · cases tweaked
    obtain ⟨-, rfl⟩ := tweakAddsCapabilities_ok_iff.mp tweaked
    have basic : (∀ cap ∈ if utilStringsInSlice adds allName then gAllCaps else caps,
        utilStringsInSlice gAllCaps cap = true) ∧
          Apart (if utilStringsInSlice adds allName then gAllCaps else caps) := by
      split
      · exact ⟨allKnown, allApart⟩
      · exact ⟨known, apart⟩
    obtain ⟨apartKept, kept⟩ := tweakDropsCapabilities_spec basic.1 basic.2
    obtain ⟨apartResult, contents⟩ := foldl_withCap_spec apartKept (byName adds)
    exact ⟨apartResult, fun cap => by rw [contents, kept]⟩

/-- `chown` is dropped from the base, `Kill` is dropped and added again. -/
theorem tweakCapabilities_eq_set_kill :
    ∃ result, tweakCapabilities ["CAP_CHOWN".toList, "CAP_FOWNER".toList] ["Kill".toList]
        ["chown".toList, "KILL".toList] = .ok result ∧
      utilStringsInSlice result "CAP_KILL".toList = true ∧
      utilStringsInSlice result "CAP_FOWNER".toList = true ∧
      ¬ utilStringsInSlice result "CAP_CHOWN".toList = true := by
  obtain ⟨succeeds, contents⟩ := @tweakCapabilities_eq_set
    ["CAP_CHOWN".toList, "CAP_FOWNER".toList] ["Kill".toList] ["chown".toList, "KILL".toList]
    (by decide +kernel) (by decide +kernel)
  obtain ⟨result, tweaked⟩ := succeeds.mpr (by decide +kernel)
  refine ⟨result, tweaked, ?_⟩
  rw [(contents result tweaked).2, (contents result tweaked).2, (contents result tweaked).2]
  decide +kernel

end Isulad.Spec
