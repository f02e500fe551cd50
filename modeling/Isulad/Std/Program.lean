import Mathlib.Data.List.Infix

/-!
# Programs that can be cut off

A `Program` runs over a world that outlives it. Every call it makes is answered
from a list of answers, and a run whose answers are used up is cut off in the
world it has reached, as by a crash. The shorter lists of answers are the prefixes
of a run, so a statement about every list of answers is about every point of it.

`Ensures` is the logic for such programs: what holds wherever the run is cut off,
and what holds when it returns.
-/

namespace Isulad.Std

open List

/-- A program over a world. It returns what its last call left of the answers. -/
structure Program (World Answer α : Type) where
  run : List Answer → World → Option (α × List Answer) × World
  uses : ∀ {answers world result rest world'},
    run answers world = (some (result, rest), world') → rest <:+ answers

namespace Program

variable {World Answer α β σ : Type}

/-- Return without a call. -/
protected def pure (result : α) : Program World Answer α where
  run answers world := (some (result, answers), world)
  uses ran := by
    cases ran
    exact suffix_rfl

/-- Run one program and then the next on the remaining answers. -/
protected def bind (first : Program World Answer α) (next : α → Program World Answer β) :
    Program World Answer β where
  run answers world :=
    match first.run answers world with
    | (none, world') => (none, world')
    | (some (result, rest), world') => (next result).run rest world'
  uses := by
    intro answers world result rest world' ran
    split at ran
    · cases ran
    next ranFirst => exact ((next _).uses ran).trans (first.uses ranFirst)

instance : Monad (Program World Answer) where
  pure := .pure
  bind := .bind

/-- A call: one answer decides what it returns and what it changes. -/
def call (effect : Answer → World → α × World) : Program World Answer α where
  run
    | [], world => (none, world)
    | answer :: rest, world => (some ((effect answer world).1, rest), (effect answer world).2)
  uses := by
    intro answers world result rest world' ran
    cases answers with
    | nil => cases ran
    | cons answer others =>
      cases ran
      exact suffix_cons _ _

/-- Look at the world. -/
def read : Program World Answer World where
  run answers world := (some (world, answers), world)
  uses ran := by
    cases ran
    exact suffix_rfl

/-- Change the world by a step that cannot fail. -/
def change (update : World → World) : Program World Answer Unit :=
  call fun _ world => ((), update world)

/-- The iterations of a loop within a budget. -/
def iterate (body : σ → Program World Answer (σ ⊕ α)) :
    Nat → σ → List Answer → World → Option (α × List Answer) × World
  | 0, _, _, world => (none, world)
  | budget + 1, state, answers, world =>
    match (body state).run answers world with
    | (none, world') => (none, world')
    | (some (.inl state', rest), world') => iterate body budget state' rest world'
    | (some (.inr result, rest), world') => (some (result, rest), world')

variable {answers rest : List Answer} {result : α} {world' world : World}

theorem iterate_uses (body : σ → Program World Answer (σ ⊕ α)) {budget : Nat} {state : σ}
    (ran : iterate body budget state answers world = (some (result, rest), world')) :
    rest <:+ answers := by
  induction budget generalizing state answers world with
  | zero => cases ran
  | succ budget ih =>
    unfold iterate at ran
    split at ran
    · cases ran
    next ranBody => exact (ih ran).trans ((body state).uses ranBody)
    rename_i ranBody
    cases ran
    exact (body state).uses ranBody

/-- A loop whose body makes at least one call in each iteration, so that the answers
bound the iterations. -/
def loop (body : σ → Program World Answer (σ ⊕ α)) (start : σ) : Program World Answer α where
  run answers world := iterate body (answers.length + 1) start answers world
  uses ran := iterate_uses body ran

/-- Run a program for every entry of a list. -/
def forEach (entries : List β) (body : β → Program World Answer Unit) :
    Program World Answer Unit :=
  match entries with
  | [] => pure ()
  | entry :: rest => body entry >>= fun _ => forEach rest body

variable {post : α → World → Prop} {program : Program World Answer α}

/-- Under admitted answers, the run is cut off only in worlds of `cut` and returns only
with `post`. -/
def Ensures (admits : Answer → Prop) (program : Program World Answer α) (cut : World → Prop)
    (post : α → World → Prop) (world : World) : Prop :=
  ∀ answers : List Answer, (∀ answer ∈ answers, admits answer) →
    match program.run answers world with
    | (none, world') => cut world'
    | (some (result, _), world') => post result world'

variable {admits : Answer → Prop} {cut cut' holds : World → Prop} {world : World}
  {next : α → Program World Answer β} {first : Program World Answer α} {post' : α → World → Prop}

theorem ensures_pure (holds : post result world) :
    Ensures admits (pure result : Program World Answer α) cut post world :=
  fun _ _ => holds

theorem ensures_bind {post : β → World → Prop} (holds : Ensures admits first cut
      (fun result => Ensures admits (next result) cut post) world) :
    Ensures admits (first >>= next) cut post world := by
  intro answers admitted
  have stage := holds answers admitted
  change match (match first.run answers world with
    | (none, world') => (none, world')
    | (some (result, rest), world') => (next result).run rest world') with
    | (none, world') => cut world'
    | (some (result, _), world') => post result world'
  generalize ran : first.run answers world = outcome at stage
  rcases outcome with ⟨_ | ⟨result, rest⟩, world'⟩
  · exact stage
  · exact stage rest fun answer member => admitted answer ((first.uses ran).subset member)

theorem ensures_call {effect : Answer → World → α × World} (here : cut world)
    (holds : ∀ answer, admits answer → post (effect answer world).1 (effect answer world).2) :
    Ensures admits (call effect) cut post world := by
  intro answers admitted
  cases answers with
  | nil => exact here
  | cons answer rest => exact holds answer (admitted answer mem_cons_self)

theorem ensures_read {post : World → World → Prop} (holds : post world world) :
    Ensures admits (read : Program World Answer World) cut post world :=
  fun _ _ => holds

theorem ensures_change {post : Unit → World → Prop} {update : World → World}
    (here : cut world) (holds : post () (update world)) :
    Ensures admits (change update : Program World Answer Unit) cut post world :=
  ensures_call here fun _ _ => holds

theorem Ensures.mono (ensured : Ensures admits program cut post world)
    (weaker : ∀ result world', post result world' → post' result world') :
    Ensures admits program cut post' world := by
  intro answers admitted
  have stage := ensured answers admitted
  revert stage
  split
  · exact id
  · exact weaker _ _

theorem Ensures.and (first : Ensures admits program cut post world)
    (second : Ensures admits program cut' post' world) :
    Ensures admits program (fun world' => cut world' ∧ cut' world')
      (fun result world' => post result world' ∧ post' result world') world := by
  intro answers admitted
  have stage := first answers admitted
  have stage' := second answers admitted
  generalize program.run answers world = outcome at stage stage'
  rcases outcome with ⟨_ | ⟨result, rest⟩, world'⟩
  · exact ⟨stage, stage'⟩
  · exact ⟨stage, stage'⟩

theorem Ensures.mono_cut (ensured : Ensures admits program cut post world)
    (weaker : ∀ world', cut world' → cut' world') : Ensures admits program cut' post world := by
  intro answers admitted
  have stage := ensured answers admitted
  generalize program.run answers world = outcome at stage
  rcases outcome with ⟨_ | ⟨result, rest⟩, world'⟩
  · exact weaker world' stage
  · exact stage

/-- The rule for loops: an invariant of the loop's state and the world, which the body
keeps while it goes on. -/
theorem ensures_loop {body : σ → Program World Answer (σ ⊕ α)} (invariant : σ → World → Prop)
    {start : σ} (begins : invariant start world)
    (here : ∀ state world', invariant state world' → cut world')
    (kept : ∀ state world', invariant state world' → Ensures admits (body state) cut (fun result =>
      Sum.elim invariant post result) world') :
    Ensures admits (loop body start) cut post world := by
  intro answers admitted
  change match iterate body (answers.length + 1) start answers world with
    | (none, world') => cut world'
    | (some (result, _), world') => post result world'
  generalize answers.length + 1 = budget
  induction budget generalizing start answers world with
  | zero => exact here start world begins
  | succ budget ih =>
    have stage := kept start world begins answers admitted
    unfold iterate
    generalize ran : (body start).run answers world = outcome at stage
    rcases outcome with ⟨_ | ⟨state' | result, rest⟩, world'⟩
    · exact stage
    · exact ih stage rest fun answer member =>
        admitted answer (((body start).uses ran).subset member)
    · exact stage

/-- The rule for a pass over a list: an assertion about the entries still to come, which
each entry carries over to the rest. -/
theorem ensures_forEach {holds : List β → World → Prop} {body : β → Program World Answer Unit}
    {entries : List β} (begins : holds entries world)
    (kept : ∀ entry rest world', holds (entry :: rest) world' →
      Ensures admits (body entry) cut (fun _ => holds rest) world') :
    Ensures admits (forEach entries body) cut (fun _ => holds []) world := by
  induction entries generalizing world with
  | nil => exact ensures_pure begins
  | cons entry rest ih =>
    refine ensures_bind ((kept entry rest world begins).mono ?_)
    intro _ world' holds'
    exact ih holds'

/-- What is ensured about the world a run has reached, however it ended. -/
theorem Ensures.reached (ensured : Ensures admits program holds (fun _ => holds) world)
    (admitted : ∀ answer ∈ answers, admits answer) : holds (program.run answers world).2 := by
  have stage := ensured answers admitted
  generalize program.run answers world = outcome at stage
  rcases outcome with ⟨_ | ⟨result, rest⟩, world'⟩
  · exact stage
  · exact stage

theorem Ensures.returned (ensured : Ensures admits program cut post world)
    (admitted : ∀ answer ∈ answers, admits answer)
    (ran : program.run answers world = (some (result, rest), world')) :
    post result world' := by
  have stage := ensured answers admitted
  simpa [ran] using stage

/-- Given enough answers of one kind, the program returns. -/
def Returns (answer : Answer) (program : Program World Answer α) : Prop :=
  ∀ world, ∃ count result world', ∀ rest,
    program.run (.replicate count answer ++ rest) world = (some (result, rest), world')

variable {answer : Answer}

theorem returns_pure (result : α) : Returns answer (pure result : Program World Answer α) :=
  fun world => ⟨0, result, world, fun _ => rfl⟩

theorem returns_read : Returns answer (read : Program World Answer World) :=
  fun world => ⟨0, world, world, fun _ => rfl⟩

theorem returns_call (effect : Answer → World → α × World) : Returns answer (call effect) :=
  fun world => ⟨1, (effect answer world).1, (effect answer world).2, fun _ => rfl⟩

theorem returns_bind (returns : Returns answer first)
    (continues : ∀ result, Returns answer (next result)) : Returns answer (first >>= next) := by
  intro world
  obtain ⟨count, result, world', ran⟩ := returns world
  obtain ⟨count', result', world'', ran'⟩ := continues result world'
  refine ⟨count + count', result', world'', fun rest => ?_⟩
  change (match first.run _ world with
    | (none, world') => (none, world')
    | (some (result, rest), world') => (next result).run rest world') = _
  rw [← replicate_append_replicate, append_assoc, ran]
  exact ran' rest

theorem returns_forEach {body : β → Program World Answer Unit} (entries : List β)
    (returns : ∀ entry, Returns answer (body entry)) : Returns answer (forEach entries body) := by
  induction entries with
  | nil => exact returns_pure ()
  | cons entry rest ih => exact returns_bind (returns entry) fun _ => ih

/-- A program that returns has a run that ends as ensured. -/
theorem Ensures.run (ensured : Ensures admits program cut post world) (admitted : admits answer)
    (returns : Returns answer program) :
    ∃ count result world',
      program.run (.replicate count answer) world = (some (result, []), world') ∧
        post result world' := by
  obtain ⟨count, result, world', ran⟩ := returns world
  have ranAll := ran []
  rw [append_nil] at ranAll
  refine ⟨count, result, world', ranAll, ensured.returned ?_ ranAll⟩
  intro other member
  rw [eq_of_mem_replicate member]
  exact admitted

end Program

end Isulad.Std
