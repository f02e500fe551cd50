import Mathlib.Data.List.ReduceOption
import Isulad.Std.Trace

/-!
# The event queue of a container

`container_events_handler.c`: posting an event, with every path to its common exit, and the threads
that take the posted events one by one.
-/

namespace Isulad.Container

open List Isulad.Std

variable {ε : Type}

/-- `container_events_handler_t`, with the number of times its lock was taken and given back. -/
structure EventsHandler (ε : Type) where
  eventsList : List ε
  hasHandler : Bool
  locked : Nat
  unlocked : Nat
  deriving DecidableEq

/-- `container_events_handler_new`. -/
def EventsHandler.new : EventsHandler ε :=
  ⟨[], false, 0, 0⟩

@[simp]
def EventsHandler.lock (handler : EventsHandler ε) : EventsHandler ε :=
  { handler with locked := handler.locked + 1 }

@[simp]
def EventsHandler.unlock (handler : EventsHandler ε) : EventsHandler ε :=
  { handler with unlocked := handler.unlocked + 1 }

/-- How everything outside answers while an event is posted. -/
structure PostAnswers where
  /-- The node of the list is allocated. -/
  allocates : Bool
  /-- `dup_event`. -/
  dupEvent : Bool
  pthreadCreate : Int

/-- What posting an event returns, the handler it leaves, and whether it started a thread. -/
structure Posted (ε : Type) where
  ret : Int
  handler : Option (EventsHandler ε)
  started : Bool

/-- The end of a post, with the event queued: a thread is started unless there is one. -/
def EventsHandler.provide (handler : EventsHandler ε) (pthreadCreate : Int) : Posted ε :=
  if handler.hasHandler = true then ⟨0, handler.unlock, false⟩
  else if pthreadCreate ≠ 0 then ⟨pthreadCreate, handler.unlock, false⟩
  else ⟨0, { handler with hasHandler := true }.unlock, true⟩

/-- `container_events_handler_post_events`, where the store finds the container of the event or does
not. At `out` the handler of a container is unlocked whatever was done before: `none` is the
dereference of a container that was not found. -/
def containerEventsHandlerPostEvents (answers : PostAnswers) (event : Option ε)
    (cont : Option (EventsHandler ε)) : Option (Posted ε) :=
  match event with
  | none => some ⟨-1, cont, false⟩
  | some event =>
    match cont with
    | none => none
    | some handler =>
      if answers.allocates = false ∨ answers.dupEvent = false then
        some ⟨-1, handler.unlock, false⟩
      else
        some <| EventsHandler.provide
          { handler.lock with eventsList := handler.eventsList ++ [event] } answers.pthreadCreate

/-- The call returns, gives back the lock as often as it took it, and leaves the queue as it was
if it reports an error. -/
def PostsCleanly (answers : PostAnswers) (event : Option ε) (cont : Option (EventsHandler ε)) :
    Prop :=
  ∃ posted, containerEventsHandlerPostEvents answers event cont = some posted ∧
    ∀ before ∈ cont, ∀ after ∈ posted.handler,
      after.locked - before.locked = after.unlocked - before.unlocked ∧
      (posted.ret ≠ 0 → after.eventsList = before.eventsList)

/-- The common exit suits only the paths that took the lock and then succeed. -/
theorem postsCleanly_iff (answers : PostAnswers) (event : Option ε)
    (cont : Option (EventsHandler ε)) :
    PostsCleanly answers event cont ↔
      event = none ∨ ∃ handler ∈ cont, answers.allocates = true ∧ answers.dupEvent = true ∧
        (handler.hasHandler = true ∨ answers.pthreadCreate = 0) := by
  unfold PostsCleanly containerEventsHandlerPostEvents EventsHandler.provide
  match event, cont with
  | none, none => simp
  | none, some handler => simp
  | some event, none => simp
  | some event, some handler =>
    rcases answers with ⟨_ | _, _ | _, created⟩ <;>
      try simp
    -- both allocations succeed: what is left depends on the thread
    by_cases has : handler.hasHandler = true
    · simp [has]
    · by_cases fine : created = 0 <;> simp [has, fine]

/-- No container has the id of the event. -/
theorem postsCleanly_fails_missing : ¬ PostsCleanly ⟨true, true, 0⟩ (some ()) none := by
  rintro ⟨posted, returned, -⟩
  cases returned

/-- The turns: a post, and those of the thread at an index, which takes the lock in `handle_one` or
is done with the event that it took. -/
inductive HandlerTurn (ε : Type) where
  | post (event : ε)
  | take (thread : Nat)
  | handle (thread : Nat)

/-- The handler, the threads that were started and have not ended, each with the event in its
hands, and the events for which `container_state_changed` was called. -/
structure Handling (ε : Type) where
  handler : EventsHandler ε
  threads : List (Option ε)
  handled : List ε

/-- The critical section of `handle_one`: the event it takes and the handler it leaves. -/
def handleOne (handler : EventsHandler ε) : Option ε × EventsHandler ε :=
  match handler.eventsList with
  | [] => (none, { handler.lock with hasHandler := false }.unlock)
  | event :: events => (some event, { handler.lock with eventsList := events }.unlock)

/-- One turn. A post finds the container, memory and a thread; `events_handler_thread` ends when
`handle_one` finds nothing. -/
def Handling.step (state : Handling ε) : HandlerTurn ε → Option (Handling ε)
  | .post event => do
    let posted ← containerEventsHandlerPostEvents ⟨true, true, 0⟩ (some event) (some state.handler)
    let handler ← posted.handler
    pure { state with
      handler := handler
      threads := if posted.started then state.threads ++ [none] else state.threads }
  | .take thread =>
    match state.threads[thread]?, handleOne state.handler with
    | some none, (none, handler) =>
      some { state with handler := handler, threads := state.threads.eraseIdx thread }
    | some none, (some event, handler) =>
      some { state with handler := handler, threads := state.threads.set thread (some event) }
    | _, _ => none
  | .handle thread =>
    match state.threads[thread]? with
    | some (some event) =>
      some { state with
        threads := state.threads.set thread none, handled := state.handled ++ [event] }
    | _ => none

def eventsMachine (ε : Type) : Machine (Handling ε) (HandlerTurn ε) :=
  ⟨⟨.new, [], []⟩, Handling.step⟩

/-- The events posted along a run. -/
def postedEvents (turns : List (HandlerTurn ε)) : List ε :=
  turns.filterMap fun
    | .post event => some event
    | _ => none

/-- There is a thread exactly if the flag says so, and then only one; without it the queue is
empty. What was posted is handled, in a thread's hands or queued, in this order. -/
structure Handling.Orderly (turns : List (HandlerTurn ε)) (state : Handling ε) : Prop where
  threads : state.threads.length = state.handler.hasHandler.toNat
  waiting : state.handler.hasHandler = false → state.handler.eventsList = []
  posted : state.handled ++ state.threads.reduceOption ++ state.handler.eventsList =
    postedEvents turns

theorem postedEvents_append (turns more : List (HandlerTurn ε)) :
    postedEvents (turns ++ more) = postedEvents turns ++ postedEvents more :=
  filterMap_append

namespace Handling.Orderly

variable {turns : List (HandlerTurn ε)} {state next : Handling ε}

/-- A thread that takes its turn is the only one. -/
theorem alone (orderly : state.Orderly turns) {thread : Nat} {held : Option ε}
    (here : state.threads[thread]? = some held) :
    thread = 0 ∧ state.threads = [held] ∧ state.handler.hasHandler = true := by
  have count := orderly.threads
  obtain ⟨inside, -⟩ := List.getElem?_eq_some_iff.mp here
  cases has : state.handler.hasHandler with
  | false =>
    rw [has, Bool.toNat_false] at count
    omega
  | true =>
    rw [has, Bool.toNat_true] at count
    obtain ⟨only, alone⟩ := length_eq_one_iff.mp count
    have first : thread = 0 := by omega
    subst first
    rw [alone] at here
    cases here
    exact ⟨rfl, alone, rfl⟩

/-- A post queues its event, and starts a thread if there is none. -/
theorem post_eq (handler : EventsHandler ε) (event : ε) :
    containerEventsHandlerPostEvents ⟨true, true, 0⟩ (some event) (some handler) =
      some ⟨0, some ⟨handler.eventsList ++ [event], true, handler.locked + 1,
        handler.unlocked + 1⟩, !handler.hasHandler⟩ := by
  obtain ⟨events, _ | _, locked, unlocked⟩ := handler <;> rfl

theorem step (orderly : state.Orderly turns) (turn : HandlerTurn ε)
    (taken : state.step turn = some next) : next.Orderly (turns ++ [turn]) := by
  obtain ⟨⟨queue, has, locked, unlocked⟩, threads, handled⟩ := state
  have count := orderly.threads
  have order := orderly.posted
  cases turn with
  | post event =>
    rw [Handling.step, post_eq] at taken
    cases taken
    refine ⟨?_, by simp, ?_⟩
    · cases has <;> simpa using count
    · rw [postedEvents_append, ← order]
      cases has <;> simp [postedEvents, reduceOption]
  | take thread =>
    rw [Handling.step] at taken
    split at taken
    next here found =>
      obtain ⟨rfl, rfl, rfl⟩ := orderly.alone here
      cases queue with
      | nil =>
        cases found
        cases taken
        exact ⟨rfl, fun _ => rfl, by simpa [postedEvents, reduceOption] using order⟩
      | cons event queue => cases found
    next here found =>
      obtain ⟨rfl, rfl, rfl⟩ := orderly.alone here
      cases queue with
      | nil => cases found
      | cons event queue =>
        cases found
        cases taken
        exact ⟨rfl, by simp, by simpa [postedEvents, reduceOption] using order⟩
    · cases taken
  | handle thread =>
    rw [Handling.step] at taken
    split at taken
    next event here =>
      obtain ⟨rfl, rfl, rfl⟩ := orderly.alone here
      cases taken
      exact ⟨rfl, by simp, by simpa [postedEvents, reduceOption] using order⟩
    · cases taken

end Handling.Orderly

variable {turns : List (HandlerTurn ε)} {state : Handling ε}

theorem orderly_of_trace (trace : (eventsMachine ε).Trace turns state) : state.Orderly turns :=
  trace.invariant ⟨rfl, fun _ => rfl, rfl⟩ fun _ _ turn _ orderly taken => orderly.step turn taken

/-- The thread goes through the queue and ends. -/
theorem drains_of_trace (trace : (eventsMachine ε).Trace turns state)
    (idle : state.threads = [none]) :
    ∃ rest final, postedEvents rest = [] ∧ (eventsMachine ε).Trace (turns ++ rest) final ∧
      final.threads = [] := by
  obtain ⟨⟨queue, has, locked, unlocked⟩, threads, handled⟩ := state
  cases idle
  induction queue generalizing turns has locked unlocked handled with
  | nil => exact ⟨[.take 0], _, rfl, trace.step rfl, rfl⟩
  | cons event queue ih =>
    have handled : (eventsMachine ε).Trace (turns ++ [.take 0] ++ [.handle 0]) _ :=
      (trace.step rfl).step rfl
    obtain ⟨rest, final, silent, later, ended⟩ := ih _ _ _ _ handled
    refine ⟨.take 0 :: .handle 0 :: rest, final, silent, ?_, ended⟩
    rwa [append_assoc, append_assoc] at later

/-- Without a thread nothing is in hands or queued. -/
theorem handled_of_ended (trace : (eventsMachine ε).Trace turns state)
    (ended : state.threads = []) : state.handled = postedEvents turns := by
  have orderly := orderly_of_trace trace
  have count := orderly.threads
  rw [ended, length_nil, eq_comm, Bool.toNat_eq_zero] at count
  have all := orderly.posted
  rw [ended, orderly.waiting count] at all
  simpa [reduceOption] using all

/-- Whatever the order of the turns: the events are handled in the order of the posts and none of
them twice, by one thread at a time; a queued event has a thread; when no thread is left, every
event that was posted is handled, and it comes to that once the thread has gone on. -/
theorem events_handled_once (trace : (eventsMachine ε).Trace turns state) :
    state.handled <+: postedEvents turns ∧ state.threads.length ≤ 1 ∧
      (state.handler.eventsList ≠ [] → state.threads ≠ []) ∧
      (state.threads = [] → state.handled = postedEvents turns) ∧
      ∃ rest final, postedEvents rest = [] ∧ (eventsMachine ε).Trace (turns ++ rest) final ∧
        final.threads = [] ∧ final.handled = postedEvents turns := by
  have orderly := orderly_of_trace trace
  have count := orderly.threads
  have few := Bool.toNat_le state.handler.hasHandler
  refine ⟨⟨_, (append_assoc _ _ _).symm.trans orderly.posted⟩, count ▸ few, fun queued none => ?_,
    handled_of_ended trace, ?_⟩
  · rw [none, length_nil, eq_comm, Bool.toNat_eq_zero] at count
    exact queued (orderly.waiting count)
  obtain ⟨rest, final, silent, later, ended⟩ : ∃ rest final, postedEvents rest = [] ∧
      (eventsMachine ε).Trace (turns ++ rest) final ∧ final.threads = [] := by
    obtain ⟨handler, threads, handled⟩ := state
    match threads with
    | [] => exact ⟨[], _, rfl, by rwa [append_nil], rfl⟩
    | [none] => exact drains_of_trace trace rfl
    | [some event] =>
      have handled : (eventsMachine ε).Trace (turns ++ [.handle 0]) _ := trace.step rfl
      obtain ⟨rest, final, silent, later, ended⟩ := drains_of_trace handled rfl
      exact ⟨.handle 0 :: rest, final, silent, by rwa [append_assoc] at later, ended⟩
    | _ :: _ :: _ => exact absurd (count ▸ few) (by simp)
  have all := handled_of_ended later ended
  rw [postedEvents_append, silent, append_nil] at all
  exact ⟨rest, final, silent, later, ended, all⟩

/-- The second event is posted while the thread has the first in its hands. -/
theorem events_handled_once_two :
    ∃ state, (eventsMachine Nat).Trace [.post 1, .take 0, .post 2, .handle 0] state ∧
      state.threads.length ≤ 1 := by
  have trace : (eventsMachine Nat).Trace [.post 1, .take 0, .post 2, .handle 0] _ :=
    Machine.trace_of_replay rfl
  exact ⟨_, trace, (events_handled_once trace).2.1⟩

end Isulad.Container
