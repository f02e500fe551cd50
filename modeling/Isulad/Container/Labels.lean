import Isulad.Container.ContainersStore
import Isulad.Selinux.Label

/-!
# The ranges of labels

`init_label`, `reserve_label` and `release_label` of `selinux_label.c`, one call after the other,
as the creation of containers makes them. A range is reserved while it is in the table of
categories, which no call makes smaller.
-/

namespace Isulad.Container

open Option List Isulad.Std Selinux

/-- How everything outside answers `pack_security_config_to_v2_spec`. -/
structure LabelAnswers where
  /-- `parse_security_opt`. -/
  parsesSecurityOpt : Bool
  /-- The file `lxc_contexts` can be read. -/
  readsContexts : Bool
  /-- `context_new`. -/
  makesContexts : Bool
  /-- The random values that can be read. -/
  draws : List (Nat × Nat)

/-- `uniq_mcs`: the text in its buffer, and the reserved ranges. -/
def uniqMcs (mcsList : List Text) : Text → List (Nat × Nat) → Text × List Text
  | mcs, [] => (mcs, mcsList)
  | mcs, (first, second) :: draws =>
    match composeMcs first second with
    | none => uniqMcs mcsList mcs draws
    | some composed =>
      if composed ∈ mcsList then uniqMcs mcsList composed draws
      else (composed, mapReplace mcsList composed)

/-- `container_label`: the two labels, and the reserved ranges. -/
def containerLabel (policy : Policy) (draws : List (Nat × Nat)) (mcsList : List Text) :
    (Context × Context) × List Text :=
  if policy.process.range.isSome then
    let picked := uniqMcs mcsList [] draws
    (ranged policy (bufferRange picked.1), picked.2)
  else ((policy.process, policy.file), mcsList)

/-- `reserve_label`, and `release_label`, which does the same. -/
def reserveLabel (label : Context) (mcsList : List Text) : List Text :=
  match label.range with
  | none => mcsList
  | some range => mapReplace mcsList range

/-- `init_label`: whether it succeeds, whether there are labels, and the reserved ranges. SELinux
may be disabled or have no labels for containers. -/
def initLabel (selinux : Option Policy) (answers : LabelAnswers) (labelOpts : List Text)
    (mcsList : List Text) : Bool × Bool × List Text :=
  match selinux with
  | none => (true, false, mcsList)
  | some policy =>
    if answers.readsContexts = false then (false, false, mcsList)
    else
      let labels := containerLabel policy answers.draws mcsList
      if answers.makesContexts = false then (false, false, labels.2)
      else
        match applyOptions policy labels.1.1 labels.1.2 labelOpts with
        | .disabled => (true, false, labels.2)
        | .bad _ => (false, false, labels.2)
        | .set pcon _ => (true, true, reserveLabel pcon (reserveLabel labels.1.1 labels.2))

/-- The first range that is drawn and not reserved. -/
def firstFree (mcsList : List Text) (draws : List (Nat × Nat)) : Option Text :=
  draws.findSome? fun draw => (composeMcs draw.1 draw.2).filter (· ∉ mcsList)

/-- The range that `container_label` reserves. -/
def drawn (policy : Policy) (answers : LabelAnswers) (mcsList : List Text) : Option Text :=
  if answers.readsContexts ∧ policy.process.range.isSome then firstFree mcsList answers.draws
  else none

/-- The process label that `init_label` hands out. -/
def handedOut (policy : Policy) (answers : LabelAnswers) (labelOpts mcsList : List Text) :
    Option Context :=
  if answers.readsContexts ∧ answers.makesContexts then
    let labels := (containerLabel policy answers.draws mcsList).1
    match applyOptions policy labels.1 labels.2 labelOpts with
    | .set pcon _ => some pcon
    | _ => none
  else none

variable {policy : Policy} {answers : LabelAnswers} {mcsList labelOpts : List Text}
  {draws : List (Nat × Nat)} {range : Text} {label : Context}

theorem composeMcs_ne_nil {first second : Nat} {mcs : Text}
    (composed : composeMcs first second = some mcs) : mcs ≠ [] := by
  rintro rfl
  simp [composeMcs] at composed

theorem firstFree_eq_some (free : firstFree mcsList draws = some range) :
    range ≠ [] ∧ range ∉ mcsList := by
  obtain ⟨draw, -, found⟩ := exists_of_findSome?_eq_some free
  obtain ⟨composed, fresh⟩ := filter_eq_some_iff.mp found
  exact ⟨composeMcs_ne_nil composed, by simpa using fresh⟩

/-- Without a free range the buffer keeps what was composed last, which is reserved. -/
theorem uniqMcs_eq (mcsList : List Text) (mcs : Text) (draws : List (Nat × Nat)) :
    ∃ last, (last = mcs ∨ last ∈ mcsList) ∧ uniqMcs mcsList mcs draws =
      (firstFree mcsList draws).elim (last, mcsList)
        fun range => (range, mapReplace mcsList range) := by
  induction draws generalizing mcs with
  | nil => exact ⟨mcs, .inl rfl, rfl⟩
  | cons draw draws ih =>
    rw [uniqMcs, firstFree, findSome?_cons]
    split
    next composed =>
      rw [composed]
      exact ih mcs
    next range composed =>
      rw [composed, filter_some]
      split
      next taken =>
        obtain ⟨last, known, same⟩ := ih range
        refine ⟨last, .inr (known.elim (· ▸ taken) id), ?_⟩
        simpa [taken, firstFree] using same
      next free => exact ⟨mcs, .inl rfl, by simp [free]⟩

theorem mem_reserveLabel_iff :
    range ∈ reserveLabel label mcsList ↔ range ∈ label.range ∨ range ∈ mcsList := by
  unfold reserveLabel
  split <;> simp [*, mem_mapReplace, eq_comm]

/-- A label that is made has the range that is drawn for it, if any, or a reserved one. -/
theorem containerLabel_spec (read : answers.readsContexts = true) :
    (∀ range, range ∈ (containerLabel policy answers.draws mcsList).2 ↔
      range ∈ drawn policy answers mcsList ∨ range ∈ mcsList) ∧
    (∀ range ∈ (containerLabel policy answers.draws mcsList).1.1.range,
      range ∈ (containerLabel policy answers.draws mcsList).2) ∧
    ∀ range ∈ drawn policy answers mcsList,
      (containerLabel policy answers.draws mcsList).1.1.range = some range := by
  rw [drawn, containerLabel]
  by_cases ranges : policy.process.range.isSome
  · obtain ⟨last, known, picked⟩ := uniqMcs_eq mcsList [] answers.draws
    rw [if_pos ranges, if_pos ⟨read, ranges⟩, picked]
    cases free : firstFree mcsList answers.draws with
    | none =>
      rcases known with rfl | known
      · simp [ranged, bufferRange]
      · by_cases bare : last = [] <;> simp [ranged, bufferRange, bare, known]
    | some range =>
      simp [ranged, bufferRange, mem_mapReplace, (firstFree_eq_some free).1, eq_comm]
  · simp_all

theorem mem_initLabel_iff (policy : Policy) (answers : LabelAnswers)
    (labelOpts mcsList : List Text) :
    range ∈ (initLabel (some policy) answers labelOpts mcsList).2.2 ↔
      range ∈ drawn policy answers mcsList ∨
        range ∈ (handedOut policy answers labelOpts mcsList).bind (·.range) ∨ range ∈ mcsList := by
  rw [initLabel, handedOut]
  cases read : answers.readsContexts with
  | false => simp [drawn, read]
  | true =>
    obtain ⟨reserved, own, -⟩ := @containerLabel_spec policy answers mcsList read
    generalize containerLabel policy answers.draws mcsList = labels at *
    cases answers.makesContexts with
    | false => simp [reserved]
    | true =>
      simp
      cases applyOptions policy labels.1.1 labels.1.2 labelOpts with
      | set pcon mcon =>
        rw [mem_reserveLabel_iff, mem_reserveLabel_iff, or_iff_right_of_imp (own range), reserved]
        exact or_left_comm
      | _ => simp [reserved]

section Alone

open Function

variable {state : LabelState} {caller : Nat}

/-- The critical sections of `uniq_mcs` where no other call comes between. -/
def pickEvents (caller : Nat) (mcsList : List Text) : List (Nat × Nat) → List Event
  | [] => [.noRandom caller]
  | (first, second) :: draws => .check caller first second ::
    match composeMcs first second with
    | none => pickEvents caller mcsList draws
    | some composed =>
      if composed ∈ mcsList then pickEvents caller mcsList draws else [.add caller composed]

/-- The critical sections of `init_label` where no other call comes between. -/
def callEvents (policy : Policy) (caller : Nat) (labelOpts : List Text) (draws : List (Nat × Nat))
    (mcsList : List Text) : List Event :=
  let labels := (containerLabel policy draws mcsList).1
  .start caller labelOpts ::
    ((if policy.process.range.isSome then pickEvents caller mcsList draws else []) ++
      .release caller ::
        match applyOptions policy labels.1 labels.2 labelOpts with
        | .set _ _ => [.reserve caller]
        | _ => [])

/-- The table and the phase of a caller that `uniq_mcs` has left. -/
theorem foldlM_pickEvents {mcs : Text} (draws : List (Nat × Nat))
    (picking : state.callers caller = .picking labelOpts mcs) :
    let picked := uniqMcs state.mcsList mcs draws
    let labels := ranged policy (bufferRange picked.1)
    (pickEvents caller state.mcsList draws).foldlM (initLabelStep policy) state =
      some { mcsList := picked.2
             callers := update state.callers caller (.labelled labelOpts labels.1 labels.2) } := by
  induction draws generalizing state mcs with
  | nil => simp [pickEvents, uniqMcs, initLabelStep, picking, LabelState.goto]
  | cons draw draws ih =>
    obtain ⟨first, second⟩ := draw
    rw [pickEvents, uniqMcs, foldlM_cons]
    cases composed : composeMcs first second with
    | none =>
      simp only [initLabelStep, picking, composed, Option.bind_eq_bind, bind_some]
      exact ih picking
    | some range =>
      simp only [initLabelStep, picking, composed, LabelState.isMcsAlreadyExists]
      by_cases taken : range ∈ state.mcsList
      · have again := @ih (state.goto caller (.picking labelOpts range)) range (update_self ..)
        simpa [taken, LabelState.goto] using again
      · have own : bufferRange range = some range :=
          bufferRange_eq_some_iff.mpr ⟨composeMcs_ne_nil composed, rfl⟩
        simp [taken, own, initLabelStep, LabelState.goto, LabelState.mcsAdd]

theorem mcsList_releaseLabel (state : LabelState) (label : Context) :
    (state.releaseLabel label).mcsList = reserveLabel label state.mcsList := by
  unfold LabelState.releaseLabel reserveLabel
  cases label.range <;> rfl

theorem mcsList_reserveLabel (state : LabelState) (label : Context) :
    (state.reserveLabel label).mcsList = reserveLabel label state.mcsList :=
  mcsList_releaseLabel state label

/-- `container_label` where no other call comes between. -/
theorem foldlM_containerLabel (idle : state.callers caller = .idle) (draws : List (Nat × Nat)) :
    let labels := containerLabel policy draws state.mcsList
    (.start caller labelOpts :: if policy.process.range.isSome then
        pickEvents caller state.mcsList draws else []).foldlM (initLabelStep policy) state =
      some { mcsList := labels.2
             callers := update state.callers caller
               (.labelled labelOpts labels.1.1 labels.1.2) } := by
  dsimp only
  rw [foldlM_cons, initLabelStep, idle, containerLabel]
  cases ranges : policy.process.range.isSome with
  | false => simp [LabelState.goto]
  | true =>
    have picks := @foldlM_pickEvents policy labelOpts (state.goto caller (.picking labelOpts []))
      caller [] draws (update_self ..)
    simp only [LabelState.goto, update_idem] at picks
    simpa [LabelState.goto] using picks

/-- A call of this module is a run of the machine in which one caller acts alone. -/
theorem foldlM_callEvents (read : answers.readsContexts = true)
    (made : answers.makesContexts = true) (idle : state.callers caller = .idle) :
    ∃ next, (callEvents policy caller labelOpts answers.draws state.mcsList).foldlM
        (initLabelStep policy) state = some next ∧
      next.mcsList = (initLabel (some policy) answers labelOpts state.mcsList).2.2 ∧
      (next.callers caller).range =
        (handedOut policy answers labelOpts state.mcsList).bind (·.range) := by
  have labelled := @foldlM_containerLabel policy labelOpts state caller idle answers.draws
  rw [callEvents, ← cons_append, foldlM_append, labelled, initLabel, handedOut]
  simp only [read, made]
  generalize containerLabel policy answers.draws state.mcsList = labels
  cases applied : applyOptions policy labels.1.1 labels.1.2 labelOpts with
  | set pcon mcon =>
    simp [initLabelStep, applied, LabelState.goto, Phase.range, mcsList_releaseLabel,
      mcsList_reserveLabel]
  | _ => simp [initLabelStep, applied, update_self, LabelState.goto, Phase.range]

end Alone
/-- A call, with the answers that it gets. -/
inductive LabelCall where
  | init (answers : LabelAnswers) (labelOpts : List Text)
  | reserve (label : Context)
  | release (label : Context)

/-- The table, and the ranges of the labels handed out or reserved and not released since. The
table has a range once, whichever labels have it, so the release of one of them is to end it. -/
structure Reserved where
  mcsList : List Text
  held : List Text

/-- One call. -/
def Reserved.call (selinux : Option Policy) (state : Reserved) : LabelCall → Reserved
  | .init answers labelOpts =>
    ⟨(initLabel selinux answers labelOpts state.mcsList).2.2,
      ((selinux.bind (handedOut · answers labelOpts state.mcsList)).bind (·.range)).toList ++
        state.held⟩
  | .reserve label => ⟨reserveLabel label state.mcsList, label.range.toList ++ state.held⟩
  | .release label =>
    ⟨reserveLabel label state.mcsList, state.held.filter (some · ≠ label.range)⟩

/-- Calls on an empty table. -/
def labelCalls (selinux : Option Policy) : Machine Reserved LabelCall where
  initial := ⟨[], []⟩
  step state call := some (state.call selinux call)

/-- Exactly the ranges that are held are reserved. -/
def Reserved.Exact (state : Reserved) : Prop := ∀ range, range ∈ state.mcsList ↔ range ∈ state.held

/-- No label with a range is released, and a range that is drawn is left to its label. -/
def Reserved.Fits (selinux : Option Policy) (state : Reserved) : LabelCall → Prop
  | .init answers labelOpts => ∀ policy ∈ selinux, ∀ range ∈ drawn policy answers state.mcsList,
    answers.makesContexts = true ∧ LeavesRange policy labelOpts range
  | .reserve _ => True
  | .release label => label.range = none

theorem drawn_eq_some (drew : drawn policy answers mcsList = some range) :
    answers.readsContexts = true ∧ range ∉ mcsList := by
  unfold drawn at drew
  split at drew
  next ranges => exact ⟨ranges.1, (firstFree_eq_some drew).2⟩
  · cases drew

theorem range_handedOut_iff (drew : drawn policy answers mcsList = some range) :
    (handedOut policy answers labelOpts mcsList).bind (·.range) = some range ↔
      answers.makesContexts = true ∧ LeavesRange policy labelOpts range := by
  have read := (drawn_eq_some drew).1
  have own := (@containerLabel_spec policy answers mcsList read).2.2 range drew
  rw [leavesRange_iff own (containerLabel policy answers.draws mcsList).1.2, handedOut, read]
  cases answers.makesContexts <;> simp
  cases applyOptions policy _ _ labelOpts <;> simp

theorem Reserved.Exact.call_iff {selinux : Option Policy} {state : Reserved}
    (exact : state.Exact) (call : LabelCall) :
    (state.call selinux call).Exact ↔ state.Fits selinux call := by
  cases call with
  | reserve label =>
    refine iff_of_true (fun range => ?_) trivial
    rw [Reserved.call, mem_reserveLabel_iff, mem_append, exact, mem_toList]
    rfl
  | release label =>
    constructor
    · intro stays
      by_contra ranged
      obtain ⟨range, own⟩ := ne_none_iff_exists'.mp ranged
      have there := (stays range).mp (mem_reserveLabel_iff.mpr (.inl own))
      simp [Reserved.call, own] at there
    · intro bare range
      rw [Reserved.call, mem_reserveLabel_iff, exact, mem_filter, bare]
      simp
  | init answers labelOpts =>
    cases selinux with
    | none => exact iff_of_true exact nofun
    | some policy =>
      rw [Reserved.Fits, Reserved.Exact, Reserved.call]
      simp only [mem_initLabel_iff, mem_append, exact _, bind_some, mem_toList]
      constructor
      · rintro stays _ ⟨⟩ range drew
        have fresh := mt (exact range).mpr (drawn_eq_some drew).2
        exact (range_handedOut_iff drew).mp (((stays range).mp (.inl drew)).resolve_right fresh)
      · intro fits range
        refine or_iff_right_of_imp fun drew => ?_
        exact .inl ((range_handedOut_iff drew).mpr (fits policy rfl range drew))

/-- The reserved ranges are those held, all along, exactly if every call fits. -/
theorem exact_throughout_iff {selinux : Option Policy} {calls : List LabelCall}
    {state : Reserved} (trace : (labelCalls selinux).Trace calls state) :
    (labelCalls selinux).Throughout Reserved.Exact calls ↔
      (labelCalls selinux).Always (Reserved.Fits selinux) calls := by
  induction trace with
  | start =>
    rw [Machine.throughout_nil_iff]
    exact iff_of_true (fun _ => .rfl) (by simp [Machine.Always])
  | @step calls state call next prior taken ih =>
    rw [Machine.throughout_snoc_iff (prior.step taken), Machine.always_snoc_iff prior, ih]
    refine and_congr_right fun all => ?_
    have exact := ih.mpr all calls.length state (by rwa [List.take_length])
    cases taken
    exact exact.call_iff call

theorem exact_throughout_iff_draw :
    (labelCalls (some samplePolicy)).Throughout Reserved.Exact
        [.init ⟨true, true, true, [(5, 7)]⟩ []] ↔
      (labelCalls (some samplePolicy)).Always (Reserved.Fits (some samplePolicy))
        [.init ⟨true, true, true, [(5, 7)]⟩ []] :=
  exact_throughout_iff (Machine.trace_of_replay rfl)

/-- The range of a released label stays reserved. -/
theorem exact_throughout_fails_release :
    ∃ state, (labelCalls (some samplePolicy)).Trace
      [.init ⟨true, true, true, [(5, 7)]⟩ [],
        .release (ranged samplePolicy (some "s0:c5,c7".toList)).1] state ∧
      ¬ state.Exact := by
  refine ⟨_, Machine.trace_of_replay rfl, fun exact => ?_⟩
  exact absurd ((exact "s0:c5,c7".toList).mp (by decide)) (by decide)

end Isulad.Container
