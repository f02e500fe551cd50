import Isulad.Spec.Capabilities

/-!
# The seccomp profile of a container

`transDockerSeccompToOciFormat` translates a docker profile as `specs_security.c`
does. A rule of the profile is kept under conditions on the architectures the
profile maps and on the container's capabilities. An empty array of the profile is
a `NULL` pointer in the source, as its JSON reader leaves it.
-/

namespace Isulad.Spec

/-- An element of the profile's architecture map. -/
structure ArchMapElement where
  architecture : Text
  subArchitectures : List Text := []

/-- The `includes` or `excludes` of a rule. -/
structure RuleFilter where
  arches : List Text := []
  caps : List Text := []

/-- `defs_syscall_arg`, the same in both formats. -/
structure SyscallArg where
  index : UInt32
  value : UInt64
  valueTwo : UInt64
  op : Text
  deriving DecidableEq

/-- `docker_seccomp_syscalls_element`. -/
structure DockerSyscall where
  names : List Text
  action : Text
  args : List SyscallArg := []
  includes : Option RuleFilter := none
  excludes : Option RuleFilter := none

/-- `docker_seccomp`. -/
structure DockerSeccomp where
  defaultAction : Text
  archMap : List ArchMapElement := []
  syscalls : List DockerSyscall := []

/-- `defs_syscall`. -/
structure DefsSyscall where
  names : List Text
  action : Text
  args : List SyscallArg := []
  deriving DecidableEq

/-- `oci_runtime_config_linux_seccomp`. -/
structure OciSeccomp where
  defaultAction : Text
  architectures : List Text
  syscalls : List DefsSyscall
  deriving DecidableEq

/-- The table of `seccomp_trans_arch_for_docker`. -/
def archTable : List (Text × Text) :=
  [("SCMP_ARCH_X86", "x86"), ("SCMP_ARCH_X86_64", "amd64"), ("SCMP_ARCH_X32", "x32"),
    ("SCMP_ARCH_ARM", "arm"), ("SCMP_ARCH_AARCH64", "arm64"), ("SCMP_ARCH_MIPS", "mips"),
    ("SCMP_ARCH_MIPS64", "mips64"), ("SCMP_ARCH_MIPS64N32", "mips64n32"),
    ("SCMP_ARCH_MIPSEL", "mipsel"), ("SCMP_ARCH_MIPSEL64", "mipsel64"),
    ("SCMP_ARCH_MIPSEL64N32", "mipsel64n32"), ("SCMP_ARCH_PPC", "ppc"),
    ("SCMP_ARCH_PPC64", "ppc64"), ("SCMP_ARCH_PPC64LE", "ppc64le"), ("SCMP_ARCH_S390", "s390"),
    ("SCMP_ARCH_S390X", "s390x"), ("SCMP_ARCH_PARISC", "parisc"),
    ("SCMP_ARCH_PARISC64", "parisc64"), ("SCMP_ARCH_ALL", "all")].map
      fun entry => (entry.1.toList, entry.2.toList)

/-- `seccomp_trans_arch_for_docker`. -/
def seccompTransArchForDocker (arch : Text) : Option Text := archTable.lookup arch

/-- One comparison of `is_arch_in_seccomp`: its return value, or nothing when the
loop goes on. -/
def compareArch (name arch : Text) : Option Bool :=
  match seccompTransArchForDocker name with
  | none => some false
  | some archForDocker => if archForDocker = arch then some true else none

/-- The loop over names of architectures, the inner one of `is_arch_in_seccomp`. -/
def compareArches : List Text → Text → Option Bool
  | [], _ => none
  | name :: names, arch =>
    match compareArch name arch with
    | some answer => some answer
    | none => compareArches names arch

/-- `is_arch_in_seccomp`. -/
def isArchInSeccomp : List ArchMapElement → Text → Bool
  | [], _ => false
  | element :: archMap, arch =>
    match compareArch element.architecture arch with
    | some answer => answer
    | none =>
      match compareArches element.subArchitectures arch with
      | some answer => answer
      | none => isArchInSeccomp archMap arch

/-- `is_cap_in_seccomp`. -/
def isCapInSeccomp (capabilities : Option (List Text)) (cap : Text) : Bool :=
  match capabilities with
  | none => false
  | some bounding => utilStringsInSlice bounding cap

variable (seccomp : DockerSeccomp) (syscall : DockerSyscall) (archMap : List ArchMapElement)

section

variable (capabilities : Option (List Text))

/-- `meet_include`, the pair of its two flags. -/
def meetInclude : Bool × Bool :=
  match syscall.includes with
  | none => (true, true)
  | some includes =>
    (includes.arches.isEmpty || includes.arches.any (isArchInSeccomp seccomp.archMap),
      includes.caps.isEmpty || includes.caps.any (isCapInSeccomp capabilities))

/-- `meet_exclude`, the pair of its two flags. -/
def meetExclude : Bool × Bool :=
  match syscall.excludes with
  | none => (true, true)
  | some excludes =>
    (!excludes.arches.any (isArchInSeccomp seccomp.archMap),
      !excludes.caps.any (isCapInSeccomp capabilities))

/-- `meet_filtering_rules`. -/
def meetFilteringRules : Bool :=
  let (includeArch, includeCap) := meetInclude seccomp syscall capabilities
  let (excludeArch, excludeCap) := meetExclude seccomp syscall capabilities
  includeArch && includeCap && excludeArch && excludeCap

end

/-- The copy of a rule with its names, action and arguments. -/
def dupSyscall : DefsSyscall :=
  { names := syscall.names, action := syscall.action, args := syscall.args }

/-- The loop of `dup_syscall_to_oci_spec`. The allocation of the names fails for a
rule without names. -/
def dupSyscalls (seccomp : DockerSeccomp) (capabilities : Option (List Text)) :
    List DockerSyscall → Option (List DefsSyscall)
  | [] => some []
  | syscall :: syscalls =>
    if !meetFilteringRules seccomp syscall capabilities then
      dupSyscalls seccomp capabilities syscalls
    else if syscall.names.isEmpty then none
    else (dupSyscalls seccomp capabilities syscalls).map (dupSyscall syscall :: ·)

/-- `dup_syscall_to_oci_spec`. The final `util_mem_realloc` refuses the size zero. -/
def dupSyscallToOciSpec (capabilities : Option (List Text)) : Option (List DefsSyscall) :=
  if seccomp.syscalls.isEmpty then some []
  else
    match dupSyscalls seccomp capabilities seccomp.syscalls with
    | none => none
    | some [] => none
    | some (syscall :: syscalls) => some (syscall :: syscalls)

/-- The names `dup_architectures_to_oci_spec` copies, in its order. -/
def architecturesOf : List Text :=
  archMap.flatMap fun element => element.architecture :: element.subArchitectures

/-- `trans_docker_seccomp_to_oci_format`. -/
def transDockerSeccompToOciFormat (capabilities : Option (List Text)) : Option OciSeccomp :=
  (dupSyscallToOciSpec seccomp capabilities).map fun syscalls =>
    { defaultAction := seccomp.defaultAction
      architectures := architecturesOf seccomp.archMap
      syscalls := syscalls }

/-- Docker's names of architectures, those without one left out. -/
def dockerArches (names : List Text) : List Text := names.filterMap seccompTransArchForDocker

/-- The architectures of the map in front of the first one without a docker name. -/
def knownFront : List Text :=
  (architecturesOf archMap).takeWhile fun name => (seccompTransArchForDocker name).isSome

/-- The rule's conditions hold for these docker architectures and capabilities. -/
def Admitted (arches caps : List Text) (syscall : DockerSyscall) : Prop :=
  (∀ includes ∈ syscall.includes,
    (includes.arches = [] ∨ ∃ arch ∈ includes.arches, arch ∈ arches) ∧
    (includes.caps = [] ∨ ∃ cap ∈ includes.caps, utilStringsInSlice caps cap = true)) ∧
  ∀ excludes ∈ syscall.excludes,
    (∀ arch ∈ excludes.arches, arch ∉ arches) ∧
    ∀ cap ∈ excludes.caps, ¬ utilStringsInSlice caps cap = true

instance (arches caps : List Text) (syscall : DockerSyscall) :
    Decidable (Admitted arches caps syscall) :=
  inferInstanceAs (Decidable (_ ∧ _))

/-- The profile's rules whose conditions hold when it maps these architectures. -/
def admittedRules (arches : List Text) (capabilities : Option (List Text)) : List DockerSyscall :=
  seccomp.syscalls.filter fun syscall => Admitted arches (capabilities.getD []) syscall

/-- The rules that apply to the architectures the profile maps. -/
def dueRules (capabilities : Option (List Text)) : List DockerSyscall :=
  admittedRules seccomp (dockerArches (architecturesOf seccomp.archMap)) capabilities

/-- The rules that apply to the known front of the profile's map. -/
def frontRules (capabilities : Option (List Text)) : List DockerSyscall :=
  admittedRules seccomp (dockerArches (knownFront seccomp.archMap)) capabilities

variable {seccomp : DockerSeccomp} {capabilities : Option (List Text)} {arch : Text}
  {archMap : List ArchMapElement}

theorem compareArches_append {front back : List Text} :
    compareArches (front ++ back) arch =
      (compareArches front arch).or (compareArches back arch) := by
  induction front with
  | nil => rfl
  | cons name front ih =>
    rw [List.cons_append, compareArches, compareArches]
    split
    · rfl
    · exact ih

/-- The nested loops read the architectures in the order in which they are copied. -/
theorem isArchInSeccomp_eq :
    isArchInSeccomp archMap arch = (compareArches (architecturesOf archMap) arch).getD false := by
  induction archMap with
  | nil => rfl
  | cons element archMap ih =>
    have flat : architecturesOf (element :: archMap) =
        element.architecture :: (element.subArchitectures ++ architecturesOf archMap) := by
      simp [architecturesOf]
    rw [isArchInSeccomp, flat, compareArches, compareArches_append, ih]
    cases compareArch element.architecture arch with
    | some answer => rfl
    | none => cases compareArches element.subArchitectures arch <;> rfl

/-- A search along names finds what stands in front of the first unknown one. -/
theorem compareArches_iff {names : List Text} :
    (compareArches names arch).getD false = true ↔
      arch ∈ dockerArches
        (names.takeWhile fun name => (seccompTransArchForDocker name).isSome) := by
  induction names with
  | nil => simp [compareArches, dockerArches]
  | cons name names ih =>
    rw [compareArches, compareArch, List.takeWhile_cons]
    cases translated : seccompTransArchForDocker name with
    | none => simp [dockerArches]
    | some archForDocker =>
      by_cases same : archForDocker = arch
      · simp [same, dockerArches, translated]
      have other : arch ≠ archForDocker := fun equal => same equal.symm
      simp [same, other, dockerArches, translated, ih]

theorem isArchInSeccomp_iff :
    isArchInSeccomp archMap arch = true ↔ arch ∈ dockerArches (knownFront archMap) := by
  rw [isArchInSeccomp_eq, compareArches_iff, knownFront]

theorem isCapInSeccomp_eq (capabilities : Option (List Text)) (cap : Text) :
    isCapInSeccomp capabilities cap = utilStringsInSlice (capabilities.getD []) cap := by
  cases capabilities <;> rfl

/-- The filter decides the rule's conditions over the known front of the map. -/
theorem meetFilteringRules_iff {syscall : DockerSyscall} :
    meetFilteringRules seccomp syscall capabilities = true ↔
      Admitted (dockerArches (knownFront seccomp.archMap)) (capabilities.getD []) syscall := by
  have includesIff : ((meetInclude seccomp syscall capabilities).1 = true ∧
      (meetInclude seccomp syscall capabilities).2 = true) ↔
      ∀ includes ∈ syscall.includes,
        (includes.arches = [] ∨
          ∃ arch ∈ includes.arches, arch ∈ dockerArches (knownFront seccomp.archMap)) ∧
        (includes.caps = [] ∨
          ∃ cap ∈ includes.caps, utilStringsInSlice (capabilities.getD []) cap = true) := by
    unfold meetInclude
    split
    next missing => simp [missing]
    next includes given => simp [given, isArchInSeccomp_iff, isCapInSeccomp_eq]
  have excludesIff : ((meetExclude seccomp syscall capabilities).1 = true ∧
      (meetExclude seccomp syscall capabilities).2 = true) ↔
      ∀ excludes ∈ syscall.excludes,
        (∀ arch ∈ excludes.arches, arch ∉ dockerArches (knownFront seccomp.archMap)) ∧
        ∀ cap ∈ excludes.caps, ¬ utilStringsInSlice (capabilities.getD []) cap = true := by
    unfold meetExclude
    split
    next missing => simp [missing]
    next excludes given => simp [given, ← isArchInSeccomp_iff, isCapInSeccomp_eq]
  rw [Admitted, ← includesIff, ← excludesIff, meetFilteringRules]
  simp [and_assoc]

/-- The copy of the kept rules, which fails at one without names. -/
theorem dupSyscalls_eq {syscalls : List DockerSyscall} :
    dupSyscalls seccomp capabilities syscalls =
      let kept := syscalls.filter fun syscall => meetFilteringRules seccomp syscall capabilities
      if ∀ syscall ∈ kept, syscall.names ≠ [] then some (kept.map dupSyscall) else none := by
  induction syscalls with
  | nil => simp [dupSyscalls]
  | cons syscall syscalls ih =>
    rw [dupSyscalls, ih]
    by_cases meets : meetFilteringRules seccomp syscall capabilities = true
    · by_cases unnamed : syscall.names = []
      · simp [meets, unnamed]
      · simp only [meets, unnamed, List.filter_cons, List.forall_mem_cons, List.isEmpty_iff,
          Bool.not_true, Bool.false_eq_true, if_false, if_true, ne_eq, not_false_eq_true,
          true_and, List.map_cons]
        split <;> rfl
    · simp [meets]

/-- The rules that the translation keeps, and when it fails. -/
theorem dupSyscallToOciSpec_eq :
    dupSyscallToOciSpec seccomp capabilities =
      if (∀ syscall ∈ frontRules seccomp capabilities, syscall.names ≠ []) ∧
          (frontRules seccomp capabilities = [] → seccomp.syscalls = []) then
        some ((frontRules seccomp capabilities).map dupSyscall)
      else none := by
  have kept : (seccomp.syscalls.filter fun syscall =>
      meetFilteringRules seccomp syscall capabilities) = frontRules seccomp capabilities := by
    refine List.filter_congr fun syscall _ => ?_
    rw [Bool.eq_iff_iff, meetFilteringRules_iff, decide_eq_true_iff]
  rw [dupSyscallToOciSpec, dupSyscalls_eq]
  simp only [kept]
  by_cases none : seccomp.syscalls = []
  · simp [none, frontRules, admittedRules]
  cases rules : frontRules seccomp capabilities with
  | nil => simp [none]
  | cons first rest => split <;> split <;> simp_all

/-- The translation succeeds, and the result has the rules that apply to the
architectures of the profile. -/
def TranslatesRules (seccomp : DockerSeccomp) (capabilities : Option (List Text)) : Prop :=
  ∃ result, transDockerSeccompToOciFormat seccomp capabilities = some result ∧
    result.syscalls = (dueRules seccomp capabilities).map dupSyscall

theorem translatesRules_iff_dup :
    TranslatesRules seccomp capabilities ↔
      dupSyscallToOciSpec seccomp capabilities =
        some ((dueRules seccomp capabilities).map dupSyscall) := by
  unfold TranslatesRules transDockerSeccompToOciFormat
  cases dupSyscallToOciSpec seccomp capabilities <;> simp

/-- The result of the copy, with its conditions read off the copied rules. -/
theorem dupSyscallToOciSpec_eq_some_iff {copies : List DefsSyscall} :
    dupSyscallToOciSpec seccomp capabilities = some copies ↔
      (frontRules seccomp capabilities).map dupSyscall = copies ∧
        (∀ copy ∈ copies, copy.names ≠ []) ∧ (copies = [] → seccomp.syscalls = []) := by
  rw [dupSyscallToOciSpec_eq]
  split
  next conditions =>
    rw [Option.some.injEq]
    refine ⟨fun same => ⟨same, ?_⟩, And.left⟩
    rw [← same]
    simpa [dupSyscall] using conditions
  next fails =>
    refine ⟨nofun, fun ⟨same, conditions⟩ => absurd ?_ fails⟩
    rw [← same] at conditions
    simpa [dupSyscall] using conditions

/-- The rules are translated as they should be exactly when the architectures behind
the first one without a docker name make no difference, every rule that applies has a
name, and some rule applies unless the profile has none. -/
theorem translatesRules_iff {seccomp : DockerSeccomp} {capabilities : Option (List Text)} :
    TranslatesRules seccomp capabilities ↔
      (frontRules seccomp capabilities).map dupSyscall =
          (dueRules seccomp capabilities).map dupSyscall ∧
        (∀ syscall ∈ dueRules seccomp capabilities, syscall.names ≠ []) ∧
        (dueRules seccomp capabilities = [] → seccomp.syscalls = []) := by
  rw [translatesRules_iff_dup, dupSyscallToOciSpec_eq_some_iff]
  simp [dupSyscall]

/-- A profile with one rule for system calls that its own architecture excludes. -/
def excludingProfile (archMap : List ArchMapElement) : DockerSeccomp :=
  { defaultAction := "SCMP_ACT_ERRNO".toList
    archMap := archMap
    syscalls :=
      [{ names := ["modify_ldt".toList], action := "SCMP_ACT_ALLOW".toList
         excludes := some { arches := ["amd64".toList] } },
       { names := ["read".toList], action := "SCMP_ACT_ALLOW".toList }] }

/-- Behind an architecture without a docker name, `amd64` no longer excludes a rule. -/
theorem translatesRules_fails_behindUnknown :
    ¬ TranslatesRules (excludingProfile
      [{ architecture := "SCMP_ARCH_RISCV64".toList },
       { architecture := "SCMP_ARCH_X86_64".toList }]) none := by
  rw [translatesRules_iff_dup]
  decide +kernel

/-- Without such an architecture the rule is left out and the other one kept. -/
example : TranslatesRules (excludingProfile
    [{ architecture := "SCMP_ARCH_X86_64".toList }]) none := by
  rw [translatesRules_iff_dup]
  decide +kernel

end Isulad.Spec
