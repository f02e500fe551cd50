import Isulad.Path.Fields
import Isulad.Spec.Capabilities
import Mathlib.Data.List.Nodup

/-!
# The environment of an exec'd process

`make_exec_process_spec` of `service_container.c`: the entries of the container, those of the
request, and the defaults that are not set yet. Memory is taken to suffice.
-/

namespace Isulad.Exec

open Option List Isulad.Std
open Isulad.Path (utilStringSplit utilStringSplit_of_tokens)
open Isulad.Spec (Text strcaseEq)

/-- `LIST_ENV_SIZE_MAX`. -/
def listEnvSizeMax : Nat := 200000

/-- `MAX_HOST_NAME_LEN`. -/
def maxHostNameLen : Nat := 64

/-- The fields of `container_config` that are read. -/
structure ContainerConfig where
  env : List Text
  hostname : Option Text
  workingDir : Option Text

/-- `defs_process_user`. -/
structure DefsProcessUser where
  username : Option Text
  uid : Nat
  gid : Nat
  additionalGids : List Nat

/-- The fields of `container_exec_request` that are read. -/
structure ContainerExecRequest where
  env : List Text
  tty : Bool
  argv : List Text

/-- `defs_process`. -/
structure DefsProcess where
  env : List Text
  args : List Text
  user : Option DefsProcessUser
  terminal : Bool
  cwd : Text

/-- `merge_exec_from_container_env` and `merge_envs_from_request_env`. The limit has not been
passed before, so that the difference does not wrap around. -/
def mergeEnvs (envs env : List Text) : Option (List Text) :=
  if listEnvSizeMax - env.length < envs.length then none else some (env ++ envs)

/-- `kv[0]` of an entry. -/
def firstPiece (entry : Text) : Text := (utilStringSplit entry '=').headD []

/-- The loop of `do_append_process_exec_env` over the entries, which reads `slot` every time. -/
def findsKey (defaultKey : Text) (slot : Option Text) : (left : Nat) → Bool
  | 0 => false
  | left + 1 =>
    match slot with
    | none => findsKey defaultKey slot left
    | some entry => if defaultKey = firstPiece entry then true else findsKey defaultKey slot left

/-- The loop of `do_append_process_exec_env` over the defaults. The array has been extended by
null pointers, and the entry that is read has the index of the default. -/
def appendDefaults : Nat → List Text → List Text → List Text
  | _, [], env => env
  | i, entry :: defaults, env =>
    if findsKey (firstPiece entry) env[i]? env.length then appendDefaults (i + 1) defaults env
    else appendDefaults (i + 1) defaults (env ++ [entry])

/-- `do_append_process_exec_env`. -/
def doAppendProcessExecEnv (defaultEnv env : List Text) : Option (List Text) :=
  if defaultEnv.isEmpty then some env
  else if listEnvSizeMax - env.length < defaultEnv.length then none
  else some (appendDefaults 0 defaultEnv env)

def pathDefault : Text := "PATH=/usr/local/sbin:/usr/local/bin:/usr/sbin:/usr/bin:/sbin:/bin".toList

def hostnameDefault (hostname : Text) : Text := "HOSTNAME=".toList ++ hostname

def termDefault : Text := "TERM=xterm".toList

variable (containerSpec : Option ContainerConfig) (request : ContainerExecRequest)
  (base : List Text)

/-- The host name of a container that has one. -/
def hostnameOf : Option Text :=
  containerSpec.bind ContainerConfig.hostname

/-- The array `default_env`. -/
def defaultEnv (tty : Bool) (containerSpec : Option ContainerConfig) : List Text :=
  pathDefault :: ((hostnameOf containerSpec).map hostnameDefault).toList ++
    if tty then [termDefault] else []

/-- The entry does not fit into `host_name_str`. -/
def hostnameTooLong : Bool :=
  (hostnameOf containerSpec).any fun hostname =>
    maxHostNameLen + 10 ≤ (hostnameDefault hostname).length

/-- `append_necessary_process_env`. -/
def appendNecessaryProcessEnv (tty : Bool) (containerSpec : Option ContainerConfig)
    (env : List Text) : Option (List Text) :=
  if hostnameTooLong containerSpec then none
  else doAppendProcessExecEnv (defaultEnv tty containerSpec) env

def containerEnv : List Text :=
  containerSpec.elim [] ContainerConfig.env

/-- The environment that `make_exec_process_spec` puts together. -/
def execEnv (runtime : Text) (request : ContainerExecRequest) : Option (List Text) :=
  if strcaseEq runtime "lcr".toList then mergeEnvs request.env []
  else
    (mergeEnvs (containerEnv containerSpec) []).bind fun env =>
    (mergeEnvs request.env env).bind fun env =>
    appendNecessaryProcessEnv request.tty containerSpec env

/-- `make_exec_process_spec`. -/
def makeExecProcessSpec (puser : Option DefsProcessUser) (runtime : Text)
    (request : ContainerExecRequest) : Option DefsProcess :=
  (execEnv containerSpec runtime request).map fun env =>
    { env := env
      args := request.argv
      user := puser
      terminal := request.tty
      cwd := match containerSpec.bind ContainerConfig.workingDir with
        | some (char :: dir) => char :: dir
        | _ => ['/'] }

/-- The key of an entry. -/
def envKey (entry : Text) : Text := entry.takeWhile (· != '=')

/-- Some entry sets the key of the default. -/
def setIn (entry : Text) : Bool := base.any fun other => envKey other = envKey entry

/-- The entries of the container and of the request. -/
def givenEnv : List Text :=
  containerEnv containerSpec ++ request.env

/-- The entries that are given, and the defaults that none of them sets. -/
def wantedEnv : List Text :=
  givenEnv containerSpec request ++
    (defaultEnv request.tty containerSpec).filter fun entry =>
      !setIn (givenEnv containerSpec request) entry

/-- A process that is started has the environment that is wanted. -/
def HasWantedEnv (result : Option DefsProcess) : Prop :=
  ∀ spec ∈ result, spec.env = wantedEnv containerSpec request

/-- The request is within the limits. -/
def Fits : Prop :=
  (givenEnv containerSpec request).length + (defaultEnv request.tty containerSpec).length ≤
    listEnvSizeMax ∧ hostnameTooLong containerSpec = false

/-- What one slot of the array says about a key: it is set there, or not. -/
def slotSets (key : Text) (slot : Option Text) : Bool :=
  slot.any fun entry => key = firstPiece entry

/-- The slot with the index of a default says about it what all entries say. -/
def Tells (i : Nat) (entry : Text) : Prop :=
  slotSets (envKey entry) base[i]? = setIn base entry

theorem findsKey_eq (defaultKey : Text) (slot : Option Text) {left : Nat}
    (reads : slot ≠ none → left ≠ 0) :
    findsKey defaultKey slot left = slotSets defaultKey slot := by
  induction left with
  | zero =>
    cases slot with
    | none => rfl
    | some entry => exact absurd rfl (reads (some_ne_none entry))
  | succ left ih =>
    cases slot with
    | none => exact ih fun absent => absurd rfl absent
    | some entry =>
      by_cases same : defaultKey = firstPiece entry
      · simp [findsKey, slotSets, same]
      have again : findsKey defaultKey (some entry) left = false := by
        cases left with
        | zero => rfl
        | succ left => simp [ih fun _ => Nat.succ_ne_zero left, slotSets, same]
      simp [findsKey, slotSets, same, again]

/-- The defaults that the loop appends, when each is judged by one of the entries before. -/
def appended (base : List Text) : Nat → List Text → List Text
  | _, [] => []
  | i, entry :: defaults =>
    if slotSets (envKey entry) base[i]? then appended base (i + 1) defaults
    else entry :: appended base (i + 1) defaults

/-- An entry whose first piece is its key. -/
def KeyFirst (entry : Text) : Prop := firstPiece entry = envKey entry

/-- Behind the given entries there are defaults and null pointers, with other keys. -/
theorem slotSets_behind {base more : List Text} {entry : Text} (i : Nat)
    (others : ∀ other ∈ more, KeyFirst other ∧ envKey other ≠ envKey entry) :
    slotSets (envKey entry) (base ++ more)[i]? = slotSets (envKey entry) base[i]? := by
  by_cases inside : i < base.length
  · rw [List.getElem?_append_left inside]
  have outside : base.length ≤ i := by omega
  rw [List.getElem?_append_right outside, List.getElem?_eq_none outside]
  cases found : more[i - base.length]? with
  | none => rfl
  | some other =>
    obtain ⟨key, different⟩ := others other (mem_of_getElem? found)
    rw [KeyFirst] at key
    simp [slotSets, key, Ne.symm different]

theorem appendDefaults_eq {base more defaults : List Text} (i : Nat)
    (keyed : ∀ entry ∈ defaults, KeyFirst entry) (apart : (defaults.map envKey).Nodup)
    (others : ∀ other ∈ more, KeyFirst other ∧ envKey other ∉ defaults.map envKey) :
    appendDefaults i defaults (base ++ more) = base ++ more ++ appended base i defaults := by
  induction defaults generalizing i more with
  | nil => simp [appendDefaults, appended]
  | cons entry defaults ih =>
    have key : firstPiece entry = envKey entry := keyed entry mem_cons_self
    obtain ⟨new, apartRest⟩ := nodup_cons.mp apart
    have keyedRest := fun other member => keyed other (mem_cons_of_mem entry member)
    have othersRest : ∀ other ∈ more, KeyFirst other ∧ envKey other ∉ defaults.map envKey := by
      intro other member
      obtain ⟨known, absent⟩ := others other member
      exact ⟨known, fun later => absent (mem_cons_of_mem _ later)⟩
    have slot := @slotSets_behind base more entry i fun other member => by
      obtain ⟨known, absent⟩ := others other member
      exact ⟨known, fun same => absent (by simp [same])⟩
    have reads : (base ++ more)[i]? ≠ none → (base ++ more).length ≠ 0 := by
      intro present empty
      rw [length_eq_zero_iff.mp empty] at present
      exact present rfl
    rw [appendDefaults, key, findsKey_eq _ _ reads, slot, appended]
    cases slotSets (envKey entry) base[i]? with
    | true => exact ih (i + 1) keyedRest apartRest othersRest
    | false =>
      have extended := @ih (more ++ [entry]) (i + 1) keyedRest apartRest
        (forall_mem_append.mpr ⟨othersRest, forall_mem_singleton.mpr ⟨key, new⟩⟩)
      rw [← append_assoc] at extended
      simpa using extended

/-- What is appended are some of the defaults. -/
theorem appended_subset {base defaults : List Text} {i : Nat} :
    ∀ entry ∈ appended base i defaults, entry ∈ defaults := by
  induction defaults generalizing i with
  | nil => exact fun _ => id
  | cons entry defaults ih =>
    have later : ∀ other ∈ appended base (i + 1) defaults, other ∈ entry :: defaults :=
      fun other member => mem_cons_of_mem entry (ih other member)
    rw [appended]
    split
    · exact later
    · exact forall_mem_cons.mpr ⟨mem_cons_self, later⟩

/-- The right defaults are appended exactly if each is judged rightly. -/
theorem appended_eq_filter_iff {base defaults : List Text} {i : Nat} (apart : defaults.Nodup) :
    appended base i defaults = defaults.filter (fun entry => !setIn base entry) ↔
      ∀ j entry, defaults[j]? = some entry → Tells base (i + j) entry := by
  induction defaults generalizing i with
  | nil => simp [appended]
  | cons entry defaults ih =>
    obtain ⟨new, apartRest⟩ := nodup_cons.mp apart
    have rest : (∀ j other, (entry :: defaults)[j]? = some other → Tells base (i + j) other) ↔
        Tells base i entry ∧
          ∀ j other, defaults[j]? = some other → Tells base (i + 1 + j) other := by
      constructor
      · intro all
        refine ⟨all 0 entry rfl, fun j other found => ?_⟩
        have shifted : i + 1 + j = i + (j + 1) := by omega
        rw [shifted]
        exact all (j + 1) other found
      · rintro ⟨first, later⟩ (_ | j) other found
        · cases found
          exact first
        · have shifted : i + (j + 1) = i + 1 + j := by omega
          rw [shifted]
          exact later j other found
    rw [rest, ← ih apartRest, appended, Tells]
    have absent : entry ∉ defaults.filter fun entry => !setIn base entry := fun member =>
      new (mem_filter.mp member).1
    have unheard : entry ∉ appended base (i + 1) defaults := fun member =>
      new (appended_subset entry member)
    cases slotSets (envKey entry) base[i]? with
    | true =>
      cases known : setIn base entry with
      | true => simp [known]
      | false =>
        refine iff_of_false (fun same => unheard ?_) (by simp)
        rw [if_pos rfl] at same
        rw [same, filter_cons_of_pos (by simp [known])]
        exact mem_cons_self
    | false =>
      cases known : setIn base entry with
      | true =>
        refine iff_of_false (fun same => absent ?_) (by simp)
        rw [if_neg Bool.false_ne_true, filter_cons_of_neg (by simp [known])] at same
        exact same ▸ mem_cons_self
      | false => simp [known]

theorem keyFirst_of {key value entry : Text} (spelt : entry = key ++ '=' :: value)
    (nonempty : key ≠ [])
    (free : '=' ∉ key) : KeyFirst entry ∧ envKey entry = key := by
  have key_eq : envKey entry = key := by
    have passed : ∀ char ∈ key, (char != '=') = true := by
      intro char member
      rw [bne_iff_ne]
      rintro rfl
      exact free member
    rw [envKey, spelt, takeWhile_append_of_pos passed, takeWhile_cons]
    simp
  refine ⟨?_, key_eq⟩
  have pieces : tokens '=' entry = key :: tokens '=' value := by
    rw [spelt, tokens_append_cons free, if_neg nonempty]
    rfl
  rw [KeyFirst, key_eq, firstPiece, utilStringSplit_of_tokens (by simp [pieces]), pieces]
  rfl

theorem pathDefault_key : KeyFirst pathDefault ∧ envKey pathDefault = "PATH".toList :=
  @keyFirst_of "PATH".toList "/usr/local/sbin:/usr/local/bin:/usr/sbin:/usr/bin:/sbin:/bin".toList
    pathDefault (by decide +kernel) (by decide) (by decide)

theorem hostnameDefault_key (hostname : Text) : KeyFirst (hostnameDefault hostname) ∧
    envKey (hostnameDefault hostname) = "HOSTNAME".toList :=
  keyFirst_of rfl (by decide) (by decide)

theorem termDefault_key : KeyFirst termDefault ∧ envKey termDefault = "TERM".toList :=
  @keyFirst_of "TERM".toList "xterm".toList termDefault (by decide) (by decide) (by decide)

theorem defaultEnv_keyFirst (tty : Bool) (containerSpec : Option ContainerConfig) :
    ∀ entry ∈ defaultEnv tty containerSpec, KeyFirst entry := by
  refine forall_mem_cons.mpr ⟨pathDefault_key.1, forall_mem_append.mpr ⟨fun entry host => ?_, ?_⟩⟩
  · obtain ⟨hostname, _, rfl⟩ := map_eq_some_iff.mp (mem_toList.mp host)
    exact (hostnameDefault_key hostname).1
  · cases tty with
    | false => nofun
    | true => exact forall_mem_singleton.mpr termDefault_key.1

theorem defaultEnv_apart (tty : Bool) (containerSpec : Option ContainerConfig) :
    ((defaultEnv tty containerSpec).map envKey).Nodup := by
  unfold defaultEnv
  cases hostnameOf containerSpec with
  | none => cases tty <;> simp [pathDefault_key.2, termDefault_key.2]
  | some hostname =>
    cases tty <;> simp [pathDefault_key.2, (hostnameDefault_key hostname).2, termDefault_key.2]

variable {containerSpec : Option ContainerConfig} {request : ContainerExecRequest}

/-- A request is refused exactly if it is not within the limits. -/
theorem execEnv_eq {runtime : Text} (other : strcaseEq runtime "lcr".toList = false) :
    (¬ Fits containerSpec request ∧ execEnv containerSpec runtime request = none) ∨
    Fits containerSpec request ∧ execEnv containerSpec runtime request =
      some (givenEnv containerSpec request ++
        appended (givenEnv containerSpec request) 0 (defaultEnv request.tty containerSpec)) := by
  have total : (givenEnv containerSpec request).length =
      (containerEnv containerSpec).length + request.env.length := length_append
  rw [execEnv, other, if_neg Bool.false_ne_true, mergeEnvs, Fits]
  split
  next long =>
    refine .inl ⟨fun fits => ?_, rfl⟩
    simp at long
    omega
  next short =>
    rw [bind_some, nil_append, mergeEnvs]
    split
    next long =>
      refine .inl ⟨fun fits => ?_, rfl⟩
      omega
    next shortRequest =>
      rw [bind_some, appendNecessaryProcessEnv, ← givenEnv]
      cases host : hostnameTooLong containerSpec with
      | true => exact .inl ⟨fun fits => absurd fits.2 Bool.noConfusion, rfl⟩
      | false =>
        have loop := @appendDefaults_eq (givenEnv containerSpec request) []
          (defaultEnv request.tty containerSpec) 0 (defaultEnv_keyFirst _ _) (defaultEnv_apart _ _)
          fun _ => nofun
        rw [append_nil] at loop
        rw [if_neg Bool.false_ne_true, doAppendProcessExecEnv, if_neg (by simp [defaultEnv]), loop]
        split
        next long =>
          refine .inl ⟨fun fits => ?_, rfl⟩
          omega
        next shortDefaults =>
          refine .inr ⟨⟨?_, rfl⟩, rfl⟩
          omega

/-- The process has the wanted environment exactly if the slots that are read tell the truth about
the defaults, or the request is refused. -/
theorem hasWantedEnv_iff (containerSpec : Option ContainerConfig) (puser : Option DefsProcessUser)
    (runtime : Text) (request : ContainerExecRequest)
    (other : strcaseEq runtime "lcr".toList = false) :
    HasWantedEnv containerSpec request
      (makeExecProcessSpec containerSpec puser runtime request) ↔
    (Fits containerSpec request → ∀ i entry,
      (defaultEnv request.tty containerSpec)[i]? = some entry →
        Tells (givenEnv containerSpec request) i entry) := by
  rw [makeExecProcessSpec]
  rcases @execEnv_eq containerSpec request runtime other with ⟨unfit, refused⟩ | ⟨fits, added⟩
  · rw [refused]
    exact iff_of_true nofun fun fits => absurd fits unfit
  · have judged := @appended_eq_filter_iff (givenEnv containerSpec request)
      (defaultEnv request.tty containerSpec) 0 (.of_map envKey (defaultEnv_apart _ _))
    simp at judged
    rw [added, forall_prop_of_true fits, ← judged]
    simp [HasWantedEnv, wantedEnv]

/-- A container that sets `PATH` behind another variable. -/
def pathSecond : ContainerConfig where
  env := ["LANG=C".toList, "PATH=/bin".toList]
  hostname := none
  workingDir := none

def plainRequest : ContainerExecRequest where
  env := []
  tty := false
  argv := ["ls".toList]

theorem hasWantedEnv_fails_pathSecond : strcaseEq "runc".toList "lcr".toList = false ∧
    ¬ HasWantedEnv (some pathSecond) plainRequest
      (makeExecProcessSpec (some pathSecond) none "runc".toList plainRequest) := by
  refine ⟨by decide, fun wanted => ?_⟩
  have same : ["LANG=C".toList, "PATH=/bin".toList, pathDefault] =
      ["LANG=C".toList, "PATH=/bin".toList] := wanted _ rfl
  exact absurd (congrArg List.length same) (by decide)

theorem hasWantedEnv_iff_withoutContainer : strcaseEq "runc".toList "lcr".toList = false ∧
    HasWantedEnv none plainRequest
      (makeExecProcessSpec none none "runc".toList plainRequest) := by
  refine ⟨by decide, ?_⟩
  rw [hasWantedEnv_iff none none "runc".toList plainRequest (by decide)]
  rintro _ (_ | i) entry found
  · cases found
    rfl
  · cases found

end Isulad.Exec
