import Isulad.Std.Tokens
import Isulad.Std.Trace

/-!
# SELinux labels of containers

`init_label` of `selinux_label.c` as a machine whose events are the critical
sections of the table of reserved ranges, taken by any number of callers in any
order. A caller stands for one call and for the container it labels. What
`uniq_mcs` does between the lookup and the reservation of a range is not one
critical section, and `release_label` replaces an entry instead of removing it.
-/

namespace Isulad.Selinux

open List Function Isulad.Std

/-- The characters of a C string. -/
abbrev Text := List Char

/-- A security context as libselinux splits it. -/
structure Context where
  user : Text
  role : Text
  type : Text
  range : Option Text
  deriving DecidableEq

/-- The part of a context an option sets. -/
inductive Field where
  | user
  | role
  | type
  | level
  deriving DecidableEq

/-- `context_user_set` and its siblings on an acceptable value. -/
def Context.set (context : Context) (value : Text) : Field → Context
  | .user => { context with user := value }
  | .role => { context with role := value }
  | .type => { context with type := value }
  | .level => { context with range := some value }

/-- The two labels of the `lxc_contexts` file, and what the setters of libselinux accept. -/
structure Policy where
  process : Context
  file : Context
  accepts : Field → Text → Bool

/-- `items[0]` of a label option, the text in front of its first colon. -/
def optionName (labelOpt : Text) : Text := labelOpt.takeWhile (· != ':')

/-- `items[1]` of a label option. -/
def optionValue (labelOpt : Text) : Text := (labelOpt.dropWhile (· != ':')).drop 1

/-- `valid_options`. -/
def validOptions (opt : Text) : Bool :=
  (["disable", "type", "user", "role", "level"].map String.toList).contains opt

/-- The field of an option, none for the rest. -/
def optionField (name : Text) : Option Field :=
  if name = "type".toList then some .type
  else if name = "user".toList then some .user
  else if name = "role".toList then some .role
  else if name = "level".toList then some .level
  else none

variable (policy : Policy)

/-- `parse_label_security_opt` on an option with a colon. The user and the level are
set for files also. -/
def parseLabelSecurityOpt (labelOpt : Text) (pcon mcon : Context) :
    Except Text (Context × Context) :=
  let value := optionValue labelOpt
  if value.isEmpty then .error ("Bad security label option \"".toList ++ labelOpt ++ "\"".toList)
  else if !validOptions (optionName labelOpt) then
    .error ("Bad label option \"".toList ++ optionName labelOpt ++
      "\", valid options 'disable, user, role, level, type'".toList)
  else
    match optionField (optionName labelOpt) with
    | none => .error ("Failed to set selinux context: ".toList ++ labelOpt)
    | some field =>
      if policy.accepts field value then
        .ok (pcon.set value field,
          if field = .user ∨ field = .level then mcon.set value field else mcon)
      else .error ("Failed to set selinux context: ".toList ++ labelOpt)

/-- What the loop over the options in `init_label` comes to. -/
inductive Labels where
  | disabled
  | bad (message : Text)
  | set (pcon mcon : Context)

/-- The loop over the options in `init_label`. -/
def applyOptions (policy : Policy) (pcon mcon : Context) : List Text → Labels
  | [] => .set pcon mcon
  | labelOpt :: labelOpts =>
    if labelOpt = "disable".toList then .disabled
    else if !labelOpt.contains ':' then
      .bad ("Bad label option ".toList ++ labelOpt ++ (", valid options 'disable" ++
        " or user, role, level, type' followed by ':' and a value").toList)
    else
      match parseLabelSecurityOpt policy labelOpt pcon mcon with
      | .error message => .bad message
      | .ok (pcon, mcon) => applyOptions policy pcon mcon labelOpts

/-- The text `uniq_mcs` composes from two random values, none for the same value twice. -/
def composeMcs (first second : Nat) : Option Text :=
  let c1 := first % 1024
  let c2 := second % 1024
  if c1 = c2 then none
  else some ("s0:c".toList ++ Nat.toDigits 10 (min c1 c2) ++ ",c".toList ++
    Nat.toDigits 10 (max c1 c2))

/-- Where a call of `init_label` stands, and the container it was for. -/
inductive Phase where
  /-- The call has not begun. -/
  | idle
  /-- Inside the loop of `uniq_mcs`, with what its buffer holds. -/
  | picking (labelOpts : List Text) (mcs : Text)
  /-- `is_mcs_already_exists` has just answered no. -/
  | checked (labelOpts : List Text) (mcs : Text)
  /-- `container_label` has returned. -/
  | labelled (labelOpts : List Text) (process mount : Context)
  /-- `release_label` has returned. -/
  | released (pcon mcon : Context)
  /-- `init_label` has returned labels, and the container has them. -/
  | alive (process mount : Context)
  /-- The call failed or gave no label, or the container was removed. -/
  | gone
  deriving DecidableEq

/-- The table of reserved ranges, `mcs_list`, and the callers. -/
structure LabelState where
  mcsList : List Text
  callers : Nat → Phase

/-- The critical sections, with what precedes each one in its caller. -/
inductive Event where
  /-- A call begins on a host with SELinux. -/
  | start (caller : Nat) (labelOpts : List Text)
  /-- Two random values and `is_mcs_already_exists` of their range. -/
  | check (caller : Nat) (first second : Nat)
  /-- No random value can be read. -/
  | noRandom (caller : Nat)
  /-- `mcs_add` of the range that was checked. -/
  | add (caller : Nat) (mcs : Text)
  /-- The options, then `mcs_delete` in `release_label`. -/
  | release (caller : Nat)
  /-- `mcs_add` in `reserve_label`. -/
  | reserve (caller : Nat)
  /-- The container is removed. -/
  | remove (caller : Nat)
  /-- Any other call of `release_label`. -/
  | releaseLabel (label : Context)

/-- `map_replace` of a key. -/
def mapReplace (mcsList : List Text) (mcs : Text) : List Text :=
  if mcs ∈ mcsList then mcsList else mcs :: mcsList

variable (state : LabelState) (mcs : Text)

/-- `mcs_add`. -/
def LabelState.mcsAdd : LabelState :=
  { state with mcsList := mapReplace state.mcsList mcs }

/-- `mcs_delete`, which replaces the key as `mcs_add` does. -/
def LabelState.mcsDelete : LabelState :=
  { state with mcsList := mapReplace state.mcsList mcs }

/-- `is_mcs_already_exists`. -/
def LabelState.isMcsAlreadyExists : Bool :=
  state.mcsList.contains mcs

/-- `release_label`. -/
def LabelState.releaseLabel (label : Context) : LabelState :=
  match label.range with
  | none => state
  | some range => state.mcsDelete range

/-- `reserve_label`. -/
def LabelState.reserveLabel (label : Context) : LabelState :=
  match label.range with
  | none => state
  | some range => state.mcsAdd range

/-- A caller goes to another phase. -/
def LabelState.goto (caller : Nat) (phase : Phase) : LabelState :=
  { state with callers := update state.callers caller phase }

/-- The range that the buffer of `uniq_mcs` sets: an empty one reads back as none. -/
def bufferRange (mcs : Text) : Option Text := if mcs = [] then none else some mcs

/-- `update_process_and_mount_label_range` with a range, and what is left of the
labels without one. -/
def ranged (range : Option Text) : Context × Context :=
  ({ policy.process with range := range }, { policy.file with range := range })

/-- One critical section of a caller. -/
def initLabelStep (state : LabelState) : Event → Option LabelState
  | .start caller labelOpts =>
    match state.callers caller with
    | .idle => some (state.goto caller
        (if policy.process.range.isSome then .picking labelOpts []
          else .labelled labelOpts policy.process policy.file))
    | _ => none
  | .check caller first second =>
    match state.callers caller with
    | .picking labelOpts _ =>
      match composeMcs first second with
      | none => some state
      | some mcs =>
        if state.isMcsAlreadyExists mcs then some (state.goto caller (.picking labelOpts mcs))
        else some (state.goto caller (.checked labelOpts mcs))
    | _ => none
  | .noRandom caller =>
    match state.callers caller with
    | .picking labelOpts mcs =>
      -- The result of `uniq_mcs` is ignored, and the buffer is taken as it was left.
      let range := bufferRange mcs
      some (state.goto caller
        (.labelled labelOpts (ranged policy range).1 (ranged policy range).2))
    | _ => none
  | .add caller mcs =>
    match state.callers caller with
    | .checked labelOpts picked =>
      if picked = mcs then
        some ((state.mcsAdd mcs).goto caller
          (.labelled labelOpts (ranged policy (some mcs)).1 (ranged policy (some mcs)).2))
      else none
    | _ => none
  | .release caller =>
    match state.callers caller with
    | .labelled labelOpts process mount =>
      match applyOptions policy process mount labelOpts with
      | .disabled => some (state.goto caller .gone)
      | .bad _ => some (state.goto caller .gone)
      | .set pcon mcon => some ((state.releaseLabel process).goto caller (.released pcon mcon))
    | _ => none
  | .reserve caller =>
    match state.callers caller with
    | .released pcon mcon => some ((state.reserveLabel pcon).goto caller (.alive pcon mcon))
    | _ => none
  | .remove caller =>
    match state.callers caller with
    | .alive _ _ => some (state.goto caller .gone)
    | _ => none
  | .releaseLabel label => some (state.releaseLabel label)

/-- Any number of calls of `init_label` on an empty table. -/
def initLabel : Machine LabelState Event where
  initial := { mcsList := [], callers := fun _ => .idle }
  step := initLabelStep policy

variable {state : LabelState} {mcs other : Text} {label : Context}

/-- The range of a caller's process label, once it has one. -/
def Phase.range : Phase → Option Text
  | .labelled _ process _ => process.range
  | .released pcon _ => pcon.range
  | .alive process _ => process.range
  | _ => none

/-- The options that a call still has to read. -/
def Phase.labelOpts : Phase → List Text
  | .picking labelOpts _ => labelOpts
  | .checked labelOpts _ => labelOpts
  | .labelled labelOpts _ _ => labelOpts
  | _ => []

/-- The range is the caller's or was until the call failed or the container was removed. -/
def Phase.Took (phase : Phase) (mcs : Text) : Prop := phase = .gone ∨ phase.range = some mcs

/-- The container is alive, with its labels. -/
def Phase.IsAlive (phase : Phase) : Prop := ∃ process mount, phase = .alive process mount

/-- No option of the list sets a level. -/
def NoLevel (labelOpts : List Text) : Prop :=
  ∀ labelOpt ∈ labelOpts, optionName labelOpt ≠ "level".toList

/-- Containers that are alive have different ranges. -/
def LabelState.DistinctRanges (state : LabelState) : Prop :=
  ∀ first second, first ≠ second → (state.callers first).IsAlive → (state.callers second).IsAlive →
    ∀ mcs, (state.callers first).range = some mcs → (state.callers second).range ≠ some mcs

/-- The event at a position is a lookup of the range by the caller. -/
def ChecksAt (events : List Event) (i : Nat) (caller : Nat) (mcs : Text) : Prop :=
  ∃ first second, events[i]? = some (.check caller first second) ∧
    composeMcs first second = some mcs

/-- One caller reserves a range between another's lookup and reservation of it. -/
def TakenWithin (events : List Event) (taker checker : Nat) : Prop :=
  ∃ i j k mcs, i < j ∧ j < k ∧ ChecksAt events i checker mcs ∧
    events[j]? = some (.add taker mcs) ∧ events[k]? = some (.add checker mcs)

/-- The text that an event composes in the buffer of the caller. -/
def Event.composes (caller : Nat) : Event → Option Text
  | .check checker first second => if checker = caller then composeMcs first second else none
  | _ => none

/-- What the buffer of the caller holds after the events. -/
def lastComposed (caller : Nat) (events : List Event) : Text :=
  (events.filterMap (Event.composes caller)).getLast?.getD []

/-- The caller gets no random value any more, and keeps the range that it has composed last. -/
def Keeps (events : List Event) (caller : Nat) (mcs : Text) : Prop :=
  mcs ≠ [] ∧ ∃ k, events[k]? = some (.noRandom caller) ∧ lastComposed caller (events.take k) = mcs

/-- One caller keeps a range that another reserves or keeps. -/
def KeptBeside (events : List Event) (keeper other : Nat) : Prop :=
  ∃ mcs, Keeps events keeper mcs ∧
    ((∃ j : Nat, events[j]? = some (.add other mcs)) ∨ Keeps events other mcs)

theorem mem_mapReplace {mcsList : List Text} :
    other ∈ mapReplace mcsList mcs ↔ other = mcs ∨ other ∈ mcsList := by
  unfold mapReplace
  split
  next present =>
    refine ⟨.inr, ?_⟩
    rintro (rfl | old)
    · exact present
    · exact old
  · exact mem_cons

theorem bufferRange_eq_some_iff : bufferRange mcs = some other ↔ mcs ≠ [] ∧ mcs = other := by
  unfold bufferRange
  split <;> simp [*]

theorem mem_releaseLabel (member : mcs ∈ state.mcsList) :
    mcs ∈ (state.releaseLabel label).mcsList := by
  unfold LabelState.releaseLabel
  split
  · exact member
  · exact mem_mapReplace.mpr (.inr member)

@[simp] theorem callers_releaseLabel (state : LabelState) (label : Context) :
    (state.releaseLabel label).callers = state.callers := by
  unfold LabelState.releaseLabel
  split <;> rfl

@[simp] theorem callers_reserveLabel (state : LabelState) (label : Context) :
    (state.reserveLabel label).callers = state.callers :=
  callers_releaseLabel state label

variable {policy : Policy}

section Options

variable {policy : Policy} {labelOpt mcs : Text} {labelOpts : List Text} {field : Field}
  {pcon mcon pcon' mcon' : Context}

/-- The field that an option sets, if it can be read and its value is accepted. -/
def Policy.sets (policy : Policy) (labelOpt : Text) : Option Field :=
  if ':' ∈ labelOpt ∧ optionValue labelOpt ≠ [] then
    (optionField (optionName labelOpt)).filter (policy.accepts · (optionValue labelOpt))
  else none

/-- Every option sets a field, and the last of the level sets it to the range. -/
def LeavesRange (policy : Policy) (labelOpts : List Text) (range : Text) : Prop :=
  (∀ labelOpt ∈ labelOpts, policy.sets labelOpt ≠ none) ∧ ∀ labelOpt ∈
    (labelOpts.filter (policy.sets · = some .level)).getLast?, optionValue labelOpt = range

theorem validOptions_of_optionField {name : Text} (named : optionField name = some field) :
    validOptions name = true := by
  unfold optionField at named
  repeat' split at named
  all_goals first | cases named; done | subst name; decide

theorem applyOptions_cons_iff :
    applyOptions policy pcon mcon (labelOpt :: labelOpts) = .set pcon' mcon' ↔
      ∃ field, policy.sets labelOpt = some field ∧
        applyOptions policy (pcon.set (optionValue labelOpt) field)
          (if field = .user ∨ field = .level then mcon.set (optionValue labelOpt) field else mcon)
          labelOpts = .set pcon' mcon' := by
  rw [applyOptions, Policy.sets]
  by_cases colon : ':' ∈ labelOpt
  · have other : labelOpt ≠ "disable".toList := by
      rintro rfl
      exact absurd colon (by decide)
    rw [if_neg other, if_neg (by simpa using colon), parseLabelSecurityOpt]
    by_cases filled : optionValue labelOpt = []
    · simp [filled]
    cases named : optionField (optionName labelOpt) with
    | none => cases validOptions (optionName labelOpt) <;> simp [filled]
    | some field =>
      have valid := validOptions_of_optionField named
      cases accepted : policy.accepts field (optionValue labelOpt) <;>
        simp [colon, filled, valid, accepted]
  · split <;> simp [colon]

theorem applyOptions_range (plain : NoLevel labelOpts)
    (applied : applyOptions policy pcon mcon labelOpts = .set pcon' mcon') :
    pcon'.range = pcon.range := by
  induction labelOpts generalizing pcon mcon with
  | nil =>
    cases applied
    rfl
  | cons labelOpt labelOpts ih =>
    obtain ⟨field, sets, rest⟩ := applyOptions_cons_iff.mp applied
    rw [ih (fun other member => plain other (mem_cons_of_mem _ member)) rest]
    cases field with
    | level =>
      refine absurd ?_ (plain _ mem_cons_self)
      unfold Policy.sets optionField at sets
      grind
    | _ => rfl

/-- The options hand out a label with the range exactly if they leave it. -/
theorem applyOptions_range_iff (labelOpts : List Text) (pcon mcon : Context) :
    (∃ pcon' mcon', applyOptions policy pcon mcon labelOpts = .set pcon' mcon' ∧
        pcon'.range = some mcs) ↔
      (∀ labelOpt ∈ labelOpts, policy.sets labelOpt ≠ none) ∧
        ((labelOpts.filter (policy.sets · = some .level)).getLast?.map optionValue).or pcon.range =
          some mcs := by
  induction labelOpts generalizing pcon mcon with
  | nil => simp [applyOptions]
  | cons labelOpt labelOpts ih =>
    simp only [applyOptions_cons_iff, forall_mem_cons]
    cases sets : policy.sets labelOpt with
    | none => simp
    | some field =>
      simp only [Option.some.injEq, exists_eq_left']
      rw [ih]
      cases field <;> simp [sets, Context.set, getLast?_cons]

theorem leavesRange_iff (own : pcon.range = some mcs) (mcon : Context) :
    LeavesRange policy labelOpts mcs ↔ ∃ pcon' mcon',
      applyOptions policy pcon mcon labelOpts = .set pcon' mcon' ∧ pcon'.range = some mcs := by
  rw [applyOptions_range_iff, LeavesRange, own]
  cases (labelOpts.filter (policy.sets · = some .level)).getLast? <;> simp

end Options

variable {caller : Nat} {event : Event}

/-- What an event makes of the phase of one caller. -/
inductive Moves (state : LabelState) (caller : Nat) : Event → Phase → Prop where
  /-- A lookup that finds nothing. -/
  | check {labelOpts buffer first second mcs}
      (picking : state.callers caller = .picking labelOpts buffer)
      (composed : composeMcs first second = some mcs) (fresh : mcs ∉ state.mcsList) :
      Moves state caller (.check caller first second) (.checked labelOpts mcs)
  /-- A lookup that finds the range, which stays in the buffer. -/
  | collide {labelOpts buffer first second mcs}
      (picking : state.callers caller = .picking labelOpts buffer)
      (composed : composeMcs first second = some mcs) :
      Moves state caller (.check caller first second) (.picking labelOpts mcs)
  /-- The reservation of the range that was looked up. -/
  | add {labelOpts mcs process mount} (checked : state.callers caller = .checked labelOpts mcs)
      (given : process.range = some mcs) :
      Moves state caller (.add caller mcs) (.labelled labelOpts process mount)
  /-- The end of the loop without a reservation. -/
  | keep {labelOpts mcs process mount} (picking : state.callers caller = .picking labelOpts mcs)
      (given : process.range = bufferRange mcs) :
      Moves state caller (.noRandom caller) (.labelled labelOpts process mount)
  /-- Any other event, which brings no new range. -/
  | other {event phase} (notAdd : ∀ taker mcs, event ≠ .add taker mcs)
      (notKeep : ∀ keeper, event ≠ .noRandom keeper)
      (silent : ∀ checker, event.composes checker = none)
      (buffer : ∀ labelOpts mcs, phase = .picking labelOpts mcs →
        state.callers caller = .picking labelOpts mcs ∨
          state.callers caller = .idle ∧ mcs = [])
      (idle : phase = .idle → state.callers caller = .idle)
      (checked : ∀ labelOpts mcs, phase = .checked labelOpts mcs →
        state.callers caller = .checked labelOpts mcs)
      (range : ∀ mcs, phase.range = some mcs → (state.callers caller).range = some mcs)
      (took : ∀ mcs, (state.callers caller).Took mcs → phase.Took mcs)
      (opts : phase.labelOpts = (state.callers caller).labelOpts ∨ phase.labelOpts = [] ∨
        event = .start caller phase.labelOpts) :
      Moves state caller event phase

/-- An event that reserves, keeps and composes nothing. -/
structure Event.Plain (event : Event) : Prop where
  notAdd : ∀ taker mcs, event ≠ .add taker mcs
  notKeep : ∀ keeper, event ≠ .noRandom keeper
  silent : ∀ checker, event.composes checker = none

theorem Moves.refl (isPlain : event.Plain) : Moves state caller event (state.callers caller) :=
  .other isPlain.notAdd isPlain.notKeep isPlain.silent (fun _ _ same => .inl same)
    (fun same => same) (fun _ _ same => same) (fun _ same => same) (fun _ same => same) (.inl rfl)

theorem Moves.gone (isPlain : event.Plain) : Moves state caller event .gone :=
  .other isPlain.notAdd isPlain.notKeep isPlain.silent nofun nofun nofun nofun
    (fun _ _ => .inl rfl) (.inr (.inl rfl))

/-- A caller that is not gone goes on with the range that it has. -/
theorem Moves.sameRange {phase : Phase} (isPlain : event.Plain)
    (buffer : ∀ labelOpts mcs, phase = .picking labelOpts mcs →
      state.callers caller = .idle ∧ mcs = [])
    (notIdle : phase ≠ .idle) (notChecked : ∀ labelOpts mcs, phase ≠ .checked labelOpts mcs)
    (present : state.callers caller ≠ .gone) (same : phase.range = (state.callers caller).range)
    (opts : phase.labelOpts = (state.callers caller).labelOpts ∨ phase.labelOpts = [] ∨ event =
      .start caller phase.labelOpts) :
    Moves state caller event phase := by
  refine .other isPlain.notAdd isPlain.notKeep isPlain.silent
    (fun labelOpts mcs is => .inr (buffer labelOpts mcs is)) (fun is => absurd is notIdle)
    (fun labelOpts mcs is => absurd is (notChecked labelOpts mcs)) ?_ ?_ opts
  · intro mcs has
    rw [← same, has]
  · rintro mcs (gone | has)
    · exact absurd gone present
    · exact .inr (same.trans has)

/-- An event moves one caller and takes no range out of the table. -/
structure MovesOne (state : LabelState) (event : Event) (next : LabelState) : Prop where
  grows : ∀ mcs ∈ state.mcsList, mcs ∈ next.mcsList
  reserves : ∀ caller mcs, event = .add caller mcs → mcs ∈ next.mcsList
  moved : ∃ caller phase, next.callers = update state.callers caller phase ∧
    Moves state caller event phase

section MovesOne

variable {policy : Policy} {state next : LabelState} {event : Event} {caller : Nat}

theorem MovesOne.refl (isPlain : event.Plain) : MovesOne state event state where
  grows _ member := member
  reserves caller mcs is := absurd is (isPlain.notAdd caller mcs)
  moved := ⟨0, _, (update_eq_self _ _).symm, .refl isPlain⟩

theorem MovesOne.goto {phase : Phase} (notAdd : ∀ taker mcs, event ≠ .add taker mcs)
    (moves : Moves state caller event phase) : MovesOne state event (state.goto caller phase) where
  grows _ member := member
  reserves caller mcs is := absurd is (notAdd caller mcs)
  moved := ⟨caller, phase, rfl, moves⟩

theorem movesOne_start {labelOpts : List Text}
    (taken : initLabelStep policy state (.start caller labelOpts) = some next) :
    MovesOne state (.start caller labelOpts) next := by
  have isPlain : (Event.start caller labelOpts).Plain := ⟨nofun, nofun, fun _ => rfl⟩
  simp only [initLabelStep] at taken
  split at taken
  next idle =>
    cases taken
    have present : state.callers caller ≠ .gone := by rw [idle]; nofun
    split
    · refine .goto nofun (.sameRange isPlain ?_ nofun nofun present (by rw [idle]; rfl)
        (.inr (.inr rfl)))
      intro labelOpts mcs is
      cases is
      exact ⟨idle, rfl⟩
    rename_i bare
    have noRange : policy.process.range = none := by simpa using bare
    exact .goto nofun (.sameRange isPlain nofun nofun nofun present (by rw [idle]; exact noRange)
      (.inr (.inr rfl)))
  · cases taken

theorem movesOne_check {first second : Nat}
    (taken : initLabelStep policy state (.check caller first second) = some next) :
    MovesOne state (.check caller first second) next := by
  simp only [initLabelStep] at taken
  split at taken
  next labelOpts buffer picking =>
    split at taken
    next same =>
      cases taken
      exact .refl ⟨nofun, nofun, fun checker => by simp [Event.composes, same]⟩
    next mcs composed =>
      split at taken
      · cases taken
        exact .goto nofun (.collide picking composed)
      next fresh =>
        cases taken
        have unused : mcs ∉ state.mcsList := by simpa [LabelState.isMcsAlreadyExists] using fresh
        exact .goto nofun (.check picking composed unused)
  · cases taken

theorem movesOne_add (taken : initLabelStep policy state (.add caller mcs) = some next) :
    MovesOne state (.add caller mcs) next := by
  simp only [initLabelStep] at taken
  split at taken
  next labelOpts picked checked =>
    split at taken
    next same =>
      cases taken
      cases same
      refine ⟨fun other member => mem_mapReplace.mpr (.inr member), ?_, caller, _, rfl,
        .add checked rfl⟩
      intro taker range same
      cases same
      exact mem_mapReplace.mpr (.inl rfl)
    · cases taken
  · cases taken

theorem movesOne_release (plain : NoLevel (state.callers caller).labelOpts)
    (taken : initLabelStep policy state (.release caller) = some next) :
    MovesOne state (.release caller) next := by
  have isPlain : (Event.release caller).Plain := ⟨nofun, nofun, fun _ => rfl⟩
  simp only [initLabelStep] at taken
  split at taken
  next labelOpts process mount labelled =>
    split at taken
    · cases taken
      exact .goto nofun (.gone isPlain)
    · cases taken
      exact .goto nofun (.gone isPlain)
    rename_i pcon mcon applied
    cases taken
    rw [labelled] at plain
    refine ⟨fun mcs member => mem_releaseLabel member, nofun, caller, .released pcon mcon,
      by rw [LabelState.goto, callers_releaseLabel],
      .sameRange isPlain nofun nofun nofun (by rw [labelled]; nofun) ?_ (.inr (.inl rfl))⟩
    rw [labelled]
    exact applyOptions_range plain applied
  · cases taken

theorem movesOne_reserve (taken : initLabelStep policy state (.reserve caller) = some next) :
    MovesOne state (.reserve caller) next := by
  have isPlain : (Event.reserve caller).Plain := ⟨nofun, nofun, fun _ => rfl⟩
  simp only [initLabelStep] at taken
  split at taken
  next pcon mcon released =>
    cases taken
    exact ⟨fun mcs member => mem_releaseLabel member, nofun, caller, .alive pcon mcon,
      by rw [LabelState.goto, callers_reserveLabel],
      .sameRange isPlain nofun nofun nofun (by rw [released]; nofun) (by rw [released]; rfl)
        (.inr (.inl rfl))⟩
  · cases taken

/-- Every event moves at most one caller. -/
theorem initLabelStep_moves (plain : ∀ caller, NoLevel (state.callers caller).labelOpts)
    (taken : initLabelStep policy state event = some next) : MovesOne state event next := by
  cases event with
  | start caller labelOpts => exact movesOne_start taken
  | check caller first second => exact movesOne_check taken
  | noRandom caller =>
    simp only [initLabelStep] at taken
    split at taken
    next labelOpts mcs picking =>
      cases taken
      exact .goto nofun (.keep picking rfl)
    · cases taken
  | add caller mcs => exact movesOne_add taken
  | release caller => exact movesOne_release (plain caller) taken
  | reserve caller => exact movesOne_reserve taken
  | remove caller =>
    simp only [initLabelStep] at taken
    split at taken
    · cases taken
      exact .goto nofun (.gone ⟨nofun, nofun, fun _ => rfl⟩)
    · cases taken
  | releaseLabel label =>
    cases taken
    refine ⟨fun mcs member => mem_releaseLabel member, nofun, 0, _, ?_,
      .refl ⟨nofun, nofun, fun _ => rfl⟩⟩
    rw [callers_releaseLabel, update_eq_self]

end MovesOne

/-- Only a start brings options. -/
theorem Moves.labelOpts {phase : Phase} (moves : Moves state caller event phase) :
    phase.labelOpts = (state.callers caller).labelOpts ∨ phase.labelOpts = [] ∨
      event = .start caller phase.labelOpts := by
  cases moves with
  | check picking | collide picking | keep picking => exact .inl (by rw [picking]; rfl)
  | add checked => exact .inl (by rw [checked]; rfl)
  | other _ _ _ _ _ _ _ _ opts => exact opts

/-- An event composes nothing for a caller that it does not move. -/
theorem Moves.composes_of_ne {phase : Phase} {other : Nat}
    (moves : Moves state caller event phase) (different : other ≠ caller) :
    event.composes other = none := by
  cases moves with
  | check | collide => exact if_neg (Ne.symm different)
  | add | keep => rfl
  | other _ _ silent => exact silent other

variable {events : List Event} {i : Nat}

/-- No caller has reserved the range before a position. -/
def UnusedBefore (events : List Event) (i : Nat) (mcs : Text) : Prop :=
  ∀ k < i, ∀ caller, events[k]? ≠ some (.add caller mcs)

/-- A range that passed its lookup by the caller was not reserved by then. -/
def FoundFree (events : List Event) (i caller : Nat) (mcs : Text) : Prop :=
  ChecksAt events i caller mcs ∧ UnusedBefore events i mcs

/-- The caller looked the range up and then reserved it. -/
def Reserves (events : List Event) (caller : Nat) (mcs : Text) : Prop :=
  ∃ i j, i < j ∧ FoundFree events i caller mcs ∧ events[j]? = some (.add caller mcs)

/-- What the events say about the phase of a caller. -/
structure Accounts (events : List Event) (caller : Nat) (phase : Phase) : Prop where
  buffer : ∀ labelOpts mcs, phase = .picking labelOpts mcs → lastComposed caller events = mcs
  idle : phase = .idle → lastComposed caller events = []
  checked : ∀ labelOpts mcs, phase = .checked labelOpts mcs → ∃ i, FoundFree events i caller mcs
  ranged : ∀ mcs, phase.range = some mcs → Reserves events caller mcs ∨ Keeps events caller mcs
  added : ∀ (j : Nat) (mcs : Text), events[j]? = some (.add caller mcs) → phase.Took mcs
  kept : ∀ mcs, Keeps events caller mcs → phase.Took mcs

/-- What the events say about the callers and the table. -/
structure History (events : List Event) (state : LabelState) : Prop where
  accounts : ∀ caller, Accounts events caller (state.callers caller)
  reserved : ∀ (j caller : Nat) (mcs : Text), events[j]? = some (.add caller mcs) →
    mcs ∈ state.mcsList

theorem lastComposed_snoc (caller : Nat) (events : List Event) (event : Event) :
    lastComposed caller (events ++ [event]) =
      (event.composes caller).getD (lastComposed caller events) := by
  cases composed : event.composes caller <;>
    simp [lastComposed, filterMap_append, composed]

theorem keeps_snoc_iff :
    Keeps (events ++ [event]) caller mcs ↔ Keeps events caller mcs ∨
      mcs ≠ [] ∧ event = .noRandom caller ∧ lastComposed caller events = mcs := by
  unfold Keeps
  rw [← and_or_left]
  refine and_congr_right fun _ => ?_
  constructor
  · rintro ⟨k, happened, composed⟩
    rcases getElem?_snoc_iff.mp happened with old | ⟨rfl, rfl⟩
    · have within := (List.getElem?_eq_some_iff.mp old).1
      rw [take_append_of_le_length (Nat.le_of_lt within)] at composed
      exact .inl ⟨k, old, composed⟩
    · rw [take_left] at composed
      exact .inr ⟨rfl, composed⟩
  · rintro (⟨k, old, composed⟩ | ⟨rfl, composed⟩)
    · have within := (List.getElem?_eq_some_iff.mp old).1
      refine ⟨k, getElem?_snoc_iff.mpr (.inl old), ?_⟩
      rwa [take_append_of_le_length (Nat.le_of_lt within)]
    · exact ⟨events.length, getElem?_snoc_iff.mpr (.inr ⟨rfl, rfl⟩), by rwa [take_left]⟩

theorem ChecksAt.snoc (checks : ChecksAt events i caller mcs) (last : Event) :
    ChecksAt (events ++ [last]) i caller mcs := by
  obtain ⟨first, second, happened, composed⟩ := checks
  exact ⟨first, second, getElem?_snoc_iff.mpr (.inl happened), composed⟩

theorem ChecksAt.lt_length (checks : ChecksAt events i caller mcs) : i < events.length := by
  obtain ⟨first, second, happened, -⟩ := checks
  exact (List.getElem?_eq_some_iff.mp happened).1

theorem UnusedBefore.snoc (unused : UnusedBefore events i mcs) (within : i ≤ events.length)
    (last : Event) :
    UnusedBefore (events ++ [last]) i mcs := by
  intro k before caller happened
  rcases getElem?_snoc_iff.mp happened with old | ⟨rfl, -⟩
  · exact unused k before caller old
  · omega

theorem FoundFree.snoc (free : FoundFree events i caller mcs) (last : Event) :
    FoundFree (events ++ [last]) i caller mcs :=
  ⟨free.1.snoc last, free.2.snoc (Nat.le_of_lt free.1.lt_length) last⟩

theorem Reserves.snoc (reserves : Reserves events caller mcs) (last : Event) :
    Reserves (events ++ [last]) caller mcs := by
  obtain ⟨i, j, order, free, added⟩ := reserves
  exact ⟨i, j, order, free.snoc last, getElem?_snoc_iff.mpr (.inl added)⟩

section

variable {phase : Phase}

/-- A caller that picks or has looked a range up took none. -/
theorem Phase.not_took_of_labelOpts
    (early : (∃ labelOpts buffer, phase = .picking labelOpts buffer) ∨
      ∃ labelOpts checked, phase = .checked labelOpts checked) : ¬ phase.Took mcs := by
  rcases early with ⟨_, _, rfl⟩ | ⟨_, _, rfl⟩ <;> rintro (⟨⟨⟩⟩ | ⟨⟨⟩⟩)

/-- A further event that is another caller's. -/
theorem Accounts.snoc (accounts : Accounts events caller phase)
    (silent : event.composes caller = none) (notAdd : ∀ mcs, event ≠ .add caller mcs)
    (notKeep : event ≠ .noRandom caller) : Accounts (events ++ [event]) caller phase where
  buffer labelOpts mcs is := by
    rw [lastComposed_snoc, silent]
    exact accounts.buffer labelOpts mcs is
  idle is := by
    rw [lastComposed_snoc, silent]
    exact accounts.idle is
  checked labelOpts mcs is := by
    obtain ⟨i, free⟩ := accounts.checked labelOpts mcs is
    exact ⟨i, free.snoc event⟩
  ranged mcs has := (accounts.ranged mcs has).imp (·.snoc event) (keeps_snoc_iff.mpr ∘ .inl)
  added j mcs happened := by
    rcases getElem?_snoc_iff.mp happened with old | ⟨-, rfl⟩
    · exact accounts.added j mcs old
    · exact absurd rfl (notAdd mcs)
  kept mcs keeps := by
    rcases keeps_snoc_iff.mp keeps with old | ⟨-, rfl, -⟩
    · exact accounts.kept mcs old
    · exact absurd rfl notKeep

end

section

variable (history : History events state)
include history

/-- The accounts of the caller that an event moves. -/
theorem History.moved {phase : Phase} (moves : Moves state caller event phase) :
    Accounts (events ++ [event]) caller phase := by
  have before := history.accounts caller
  -- What was reserved or kept before is nothing for a caller that is still at work.
  have early (mcs : Text) (none : ¬ (state.callers caller).Took mcs)
      (taken : (∃ j : Nat, events[j]? = some (.add caller mcs)) ∨ Keeps events caller mcs) :
      phase.Took mcs := by
    rcases taken with ⟨j, old⟩ | old
    · exact absurd (before.added j mcs old) none
    · exact absurd (before.kept mcs old) none
  cases moves with
  | @check labelOpts buffer first second mcs picking composed fresh =>
    have none (mcs : Text) := @Phase.not_took_of_labelOpts mcs _ (.inl ⟨_, _, picking⟩)
    refine ⟨nofun, nofun, ?_, nofun, fun j mcs happened => ?_, fun mcs keeps => ?_⟩
    · rintro _ _ ⟨⟩
      -- the table holds every range reserved so far, and not this one
      refine ⟨events.length, ⟨_, _, getElem?_snoc_iff.mpr (.inr ⟨rfl, rfl⟩), composed⟩, ?_⟩
      intro k within taker happened
      rcases getElem?_snoc_iff.mp happened with old | ⟨rfl, -⟩
      · exact fresh (history.reserved k taker mcs old)
      · omega
    · rcases getElem?_snoc_iff.mp happened with old | ⟨-, ⟨⟩⟩
      exact early mcs (none mcs) (.inl ⟨j, old⟩)
    · rcases keeps_snoc_iff.mp keeps with old | ⟨-, ⟨⟩, -⟩
      exact early mcs (none mcs) (.inr old)
  | @collide labelOpts buffer first second mcs picking composed =>
    have none (mcs : Text) := @Phase.not_took_of_labelOpts mcs _ (.inl ⟨_, _, picking⟩)
    refine ⟨?_, nofun, nofun, nofun, fun j mcs happened => ?_, fun mcs keeps => ?_⟩
    · rintro _ _ ⟨⟩
      rw [lastComposed_snoc, Event.composes, if_pos rfl, composed, Option.getD_some]
    · rcases getElem?_snoc_iff.mp happened with old | ⟨-, ⟨⟩⟩
      exact early mcs (none mcs) (.inl ⟨j, old⟩)
    · rcases keeps_snoc_iff.mp keeps with old | ⟨-, ⟨⟩, -⟩
      exact early mcs (none mcs) (.inr old)
  | @add labelOpts mcs process mount checked given =>
    have none (mcs : Text) := @Phase.not_took_of_labelOpts mcs _ (.inr ⟨_, _, checked⟩)
    refine ⟨nofun, nofun, nofun, fun mcs has => ?_, fun j mcs happened => ?_, fun mcs keeps => ?_⟩
    · cases given.symm.trans has
      obtain ⟨i, free⟩ := before.checked _ _ checked
      exact .inl ⟨i, events.length, free.1.lt_length, free.snoc _,
        getElem?_snoc_iff.mpr (.inr ⟨rfl, rfl⟩)⟩
    · rcases getElem?_snoc_iff.mp happened with old | ⟨-, same⟩
      · exact early mcs (none mcs) (.inl ⟨j, old⟩)
      · cases same
        exact .inr given
    · rcases keeps_snoc_iff.mp keeps with old | ⟨-, ⟨⟩, -⟩
      exact early mcs (none mcs) (.inr old)
  | @keep labelOpts mcs process mount picking given =>
    have none (mcs : Text) := @Phase.not_took_of_labelOpts mcs _ (.inl ⟨_, _, picking⟩)
    have composed := before.buffer _ _ picking
    refine ⟨nofun, nofun, nofun, fun range has => ?_, fun j mcs happened => ?_, ?_⟩
    · obtain ⟨filled, rfl⟩ := bufferRange_eq_some_iff.mp (given.symm.trans has)
      exact .inr (keeps_snoc_iff.mpr (.inr ⟨filled, rfl, composed⟩))
    · rcases getElem?_snoc_iff.mp happened with old | ⟨-, ⟨⟩⟩
      exact early mcs (none mcs) (.inl ⟨j, old⟩)
    · intro range keeps
      rcases keeps_snoc_iff.mp keeps with old | ⟨filled, -, same⟩
      · exact early range (none range) (.inr old)
      · cases composed.symm.trans same
        exact .inr (given.trans (bufferRange_eq_some_iff.mpr ⟨filled, rfl⟩))
  | other notAdd notKeep silent buffer idle checked range took =>
    refine Accounts.snoc ?_ (silent caller) (notAdd caller) (notKeep caller)
    refine ⟨fun labelOpts mcs is => ?_, fun is => before.idle (idle is),
      fun labelOpts mcs is => before.checked labelOpts mcs (checked labelOpts mcs is),
      fun mcs has => before.ranged mcs (range mcs has),
      fun j mcs happened => took mcs (before.added j mcs happened),
      fun mcs keeps => took mcs (before.kept mcs keeps)⟩
    rcases buffer labelOpts mcs is with picking | ⟨isIdle, rfl⟩
    · exact before.buffer labelOpts mcs picking
    · exact before.idle isIdle

/-- One event keeps the history. -/
theorem History.snoc {next : LabelState}
    (plain : ∀ caller, NoLevel (state.callers caller).labelOpts)
    (taken : initLabelStep policy state event = some next) :
    History (events ++ [event]) next := by
  obtain ⟨grows, reserves, mover, phase, callers, moves⟩ := initLabelStep_moves plain taken
  refine ⟨fun caller => ?_, fun j caller mcs happened => ?_⟩
  · by_cases other : caller = mover
    · subst other
      rw [callers, update_self]
      exact history.moved moves
    · rw [callers, update_of_ne other]
      refine (history.accounts caller).snoc (moves.composes_of_ne other) ?_ ?_
      · rintro mcs rfl
        cases moves with
        | add => exact other rfl
        | other notAdd => exact notAdd _ _ rfl
      · rintro rfl
        cases moves with
        | keep => exact other rfl
        | other _ notKeep => exact notKeep _ rfl
  · rcases getElem?_snoc_iff.mp happened with old | ⟨-, rfl⟩
    · exact grows mcs (history.reserved j caller mcs old)
    · exact reserves caller mcs rfl

end

/-- The calls are made without an explicit level. -/
def WithoutLevel (events : List Event) : Prop :=
  ∀ caller labelOpts, .start caller labelOpts ∈ events → NoLevel labelOpts

/-- The history of a run, and that no call still has an option for the level. -/
theorem history_of_trace (trace : (initLabel policy).Trace events state)
    (plain : WithoutLevel events) :
    History events state ∧ ∀ caller, NoLevel (state.callers caller).labelOpts := by
  refine @Machine.Trace.invariant _ _ (initLabel policy) events state
    (fun events state => WithoutLevel events →
      History events state ∧ ∀ caller, NoLevel (state.callers caller).labelOpts)
    ?_ ?_ trace plain
  · intro _
    have start (caller : Nat) : Accounts [] caller .idle :=
      ⟨nofun, fun _ => rfl, nofun, nofun, nofun, fun _ ⟨_, _, happened, _⟩ => absurd happened nofun⟩
    exact ⟨⟨start, nofun⟩, nofun⟩
  · intro events state event next holds taken withoutLevel
    obtain ⟨history, optsPlain⟩ := holds fun caller labelOpts member =>
      withoutLevel caller labelOpts (mem_append_left _ member)
    refine ⟨history.snoc optsPlain taken, fun caller => ?_⟩
    obtain ⟨-, -, mover, phase, callers, moves⟩ := initLabelStep_moves optsPlain taken
    by_cases other : caller = mover
    · subst other
      rw [callers, update_self]
      rcases moves.labelOpts with same | none | started
      · rw [same]
        exact optsPlain caller
      · rw [none]
        exact nofun
      · exact withoutLevel caller _ (mem_append_right _ (mem_singleton.mpr started.symm))
    · rw [callers, update_of_ne other]
      exact optsPlain caller

/-- A container that is alive has the range that its call reserved or kept. -/
theorem History.range_of_alive (history : History events state)
    (alive : (state.callers caller).IsAlive)
    (obtained : (∃ j : Nat, events[j]? = some (.add caller mcs)) ∨ Keeps events caller mcs) :
    (state.callers caller).range = some mcs := by
  have took : (state.callers caller).Took mcs := by
    rcases obtained with ⟨j, happened⟩ | keeps
    · exact (history.accounts caller).added j mcs happened
    · exact (history.accounts caller).kept mcs keeps
  obtain ⟨process, mount, isAlive⟩ := alive
  rcases took with gone | has
  · cases isAlive.symm.trans gone
  · exact has

/-- A reservation before the lookup would have been seen by it. -/
theorem FoundFree.lt_of_add {j taker : Nat} (free : FoundFree events i caller mcs)
    (adds : events[j]? = some (.add taker mcs)) : i < j := by
  obtain ⟨⟨_, _, happened, -⟩, unused⟩ := free
  by_contra late
  rcases Nat.eq_or_lt_of_le (Nat.le_of_not_lt late) with rfl | before
  · cases adds.symm.trans happened
  · exact unused j before taker adds

/-- Of two callers that reserve one range, one does so between the other's lookup and
reservation. -/
theorem takenWithin_of_reserves {first second : Nat} (different : first ≠ second)
    (one : Reserves events first mcs) (two : Reserves events second mcs) :
    TakenWithin events first second ∨ TakenWithin events second first := by
  obtain ⟨i, j, -, free, adds⟩ := one
  obtain ⟨i', j', -, free', adds'⟩ := two
  rcases Nat.lt_trichotomy j j' with earlier | same | later
  · exact .inl ⟨i', j, j', mcs, free'.lt_of_add adds, earlier, free'.1, adds, adds'⟩
  · subst same
    cases adds.symm.trans adds'
    exact absurd rfl different
  · exact .inr ⟨i, j', j, mcs, free.lt_of_add adds', later, free.1, adds', adds⟩

/-- In every run, containers that are alive have different ranges exactly when no one
of them reserved its range between another's lookup and reservation of the same, and none
kept for want of random values a range that another has. -/
theorem distinctRanges_iff {policy : Policy} {events : List Event} {state : LabelState}
    (trace : (initLabel policy).Trace events state) (plain : WithoutLevel events) :
    state.DistinctRanges ↔
      ∀ first second, first ≠ second → (state.callers first).IsAlive →
        (state.callers second).IsAlive →
        ¬ TakenWithin events first second ∧ ¬ KeptBeside events first second := by
  obtain ⟨history, -⟩ := history_of_trace trace plain
  constructor
  · intro distinct first second other firstAlive secondAlive
    have apart (mcs : Text) := distinct first second other firstAlive secondAlive mcs
    constructor
    · rintro ⟨i, j, k, mcs, -, -, -, takes, adds⟩
      exact apart mcs (history.range_of_alive firstAlive (.inl ⟨j, takes⟩))
        (history.range_of_alive secondAlive (.inl ⟨k, adds⟩))
    · rintro ⟨mcs, keeps, obtained⟩
      exact apart mcs (history.range_of_alive firstAlive (.inr keeps))
        (history.range_of_alive secondAlive obtained)
  · intro apart first second other firstAlive secondAlive mcs hasFirst hasSecond
    have forth := apart first second other firstAlive secondAlive
    have back := apart second first other.symm secondAlive firstAlive
    have obtained {caller : Nat} (obtains : Reserves events caller mcs ∨ Keeps events caller mcs) :
        (∃ j : Nat, events[j]? = some (.add caller mcs)) ∨ Keeps events caller mcs :=
      obtains.imp_left fun ⟨_, j, _, _, adds⟩ => ⟨j, adds⟩
    have ofFirst := (history.accounts first).ranged mcs hasFirst
    have ofSecond := (history.accounts second).ranged mcs hasSecond
    rcases ofFirst with one | keeps
    · rcases ofSecond with two | keeps
      · exact (takenWithin_of_reserves other one two).elim forth.1 back.1
      · exact back.2 ⟨mcs, keeps, obtained (.inl one)⟩
    · exact forth.2 ⟨mcs, keeps, obtained ofSecond⟩

/-- Labels of an `lxc_contexts` file, with setters that accept every value. -/
def samplePolicy : Policy where
  process :=
    { user := "system_u".toList, role := "system_r".toList, type := "svirt_lxc_net_t".toList
      range := some "s0".toList }
  file :=
    { user := "system_u".toList, role := "object_r".toList, type := "svirt_sandbox_file_t".toList
      range := some "s0".toList }
  accepts _ _ := true

/-- Two calls draw the same values, and the second looks the range up before the first
has reserved it. -/
def racingEvents : List Event :=
  [.start 0 [], .start 1 [], .check 0 5 7, .check 1 7 5, .add 0 "s0:c5,c7".toList,
    .add 1 "s0:c5,c7".toList, .release 0, .reserve 0, .release 1, .reserve 1]

theorem racingEvents_withoutLevel : WithoutLevel racingEvents := by
  intro caller labelOpts started
  have none : labelOpts = [] := by
    simp [racingEvents] at started
    rcases started with ⟨-, none⟩ | ⟨-, none⟩ <;> exact none
  rw [none]
  exact nofun

/-- Two containers that are alive have the range `s0:c5,c7`. -/
theorem distinctRanges_fails_racing :
    ∃ state, (initLabel samplePolicy).Trace racingEvents state ∧ WithoutLevel racingEvents ∧
      ¬ state.DistinctRanges := by
  refine ⟨_, Machine.trace_of_replay rfl, racingEvents_withoutLevel, fun distinct => ?_⟩
  exact distinct 0 1 (by decide) ⟨_, _, rfl⟩ ⟨_, _, rfl⟩ _ rfl rfl

/-- In that run the first reservation lies between the second caller's lookup and its own. -/
theorem distinctRanges_iff_racing :
    ∃ state, (initLabel samplePolicy).Trace racingEvents state ∧
      TakenWithin racingEvents 0 1 ∧ ¬ state.DistinctRanges := by
  have trace := @Machine.trace_of_replay _ _ (initLabel samplePolicy) racingEvents _ rfl
  have within : TakenWithin racingEvents 0 1 :=
    ⟨3, 4, 5, "s0:c5,c7".toList, by decide, by decide, ⟨7, 5, rfl, rfl⟩, rfl, rfl⟩
  refine ⟨_, trace, within, fun distinct => ?_⟩
  exact ((distinctRanges_iff trace racingEvents_withoutLevel).mp distinct 0 1 (by decide)
    ⟨_, _, rfl⟩ ⟨_, _, rfl⟩).1 within

/-- Without any interleaving, a call that finds its range taken and then gets no more random
values hands the range out a second time. -/
example : KeptBeside [.start 0 [], .check 0 5 7, .add 0 "s0:c5,c7".toList, .start 1 [],
    .check 1 5 7, .noRandom 1] 1 0 :=
  ⟨"s0:c5,c7".toList, ⟨by decide, 5, rfl, rfl⟩, .inl ⟨2, rfl⟩⟩

end Isulad.Selinux
