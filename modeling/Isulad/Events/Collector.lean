import Isulad.Std.Trace
import Mathlib.Data.List.TakeWhile

/-!
# Events and their subscribers

The collector of `events/collector.c` as a machine. A subscriber first gets stored
events (`do_subscribe`), then events as they arrive (`events_forward`), until a checker
thread takes it off the list (`event_should_exit`). Each of these holds one lock, so each
is one step. What `regcomp` makes of a pattern is a parameter.
-/

namespace Isulad.Events

open List Function Isulad.Std

/-- The characters of a C string. -/
abbrev Text := List Char

/-- `types_timestamp_t`. -/
structure Timestamp where
  hasSeconds : Bool := false
  seconds : Int := 0
  hasNanos : Bool := false
  nanos : Int := 0
  deriving DecidableEq

/-- A timestamp with both parts. -/
def Timestamp.ofParts (seconds nanos : Int) : Timestamp :=
  { hasSeconds := true, seconds := seconds, hasNanos := true, nanos := nanos }

/-- The timestamp says something. -/
def Timestamp.isSet (timestamp : Timestamp) : Bool := timestamp.hasSeconds || timestamp.hasNanos

/-- `types_timestamp_cmp_nanos`. -/
def typesTimestampCmpNanos (t1 t2 : Timestamp) : Int :=
  if t1.hasNanos && t2.hasNanos then
    if t2.nanos < t1.nanos then 1 else if t1.nanos < t2.nanos then -1 else 0
  else if t1.hasNanos then 1
  else if t2.hasNanos then -1
  else 0

/-- `util_types_timestamp_cmp`. -/
def utilTypesTimestampCmp (t1 t2 : Timestamp) : Int :=
  if t1.hasSeconds && t2.hasSeconds then
    if t2.seconds < t1.seconds then 1
    else if t1.seconds < t2.seconds then -1
    else typesTimestampCmpNanos t1 t2
  else if t1.hasSeconds then 1
  else if t2.hasSeconds then -1
  else 0

/-- What the collector reads of an `isulad_events_format`. -/
structure Event where
  id : Text
  timestamp : Timestamp
  deriving DecidableEq

/-- What a subscriber asks for. -/
structure Request where
  name : Option Text
  since : Option Timestamp
  till : Option Timestamp

/-- `regcomp` with `regexec`: a pattern that compiles decides texts. -/
abbrev Regcomp := Text → Option (Text → Bool)

/-- `EVENTSLIMIT`. -/
def eventsLimit : Nat := 64

variable (regcomp : Regcomp) (request : Request) (state : Collector)

/-- `get_idreg`. -/
def getIdreg (id : Text) : Option (Text → Bool) :=
  regcomp ('^' :: (id ++ ['$']))

/-- The id test: a subscriber with a name is passed over by a pattern that rejects it. -/
def selects (event : Event) : Bool :=
  match request.name, getIdreg regcomp event.id with
  | some name, some accepts => accepts name
  | _, _ => true

/-- `check_since_time`. -/
def checkSinceTime (since : Option Timestamp) (event : Event) : Bool :=
  since.all fun since => !since.isSet || 0 ≤ utilTypesTimestampCmp event.timestamp since

/-- `check_util_time`. -/
def checkUtilTime (till : Option Timestamp) (event : Event) : Bool :=
  till.all fun till => !till.isSet || utilTypesTimestampCmp event.timestamp till ≤ 0

/-- The loop of `do_subscribe`: the events written, on a stream that takes so many. -/
def doSubscribe (regcomp : Regcomp) (request : Request) : (takes : Nat) → List Event →
    List Event × Bool
  | _, [] => ([], true)
  | takes, event :: events =>
    if !checkSinceTime request.since event then doSubscribe regcomp request takes events
    else if !checkUtilTime request.till event then ([], true)
    else if !selects regcomp request event then doSubscribe regcomp request takes events
    else
      match takes with
      | 0 => ([], false)
      | takes + 1 =>
        let (written, ok) := doSubscribe regcomp request takes events
        (event :: written, ok)

/-- `events_subscribe`. -/
def eventsSubscribe (takes : Nat) (buffer : List Event) : List Event × Bool :=
  match request.since, request.till with
  | none, none => ([], true)
  | some since, some till =>
    if since.isSet && till.isSet && 0 < utilTypesTimestampCmp since till then ([], false)
    else doSubscribe regcomp request takes buffer
  | _, _ => doSubscribe regcomp request takes buffer

/-- `events_append`. -/
def eventsAppend (buffer : List Event) (event : Event) : List Event :=
  if buffer.length < eventsLimit then buffer ++ [event] else buffer.drop 1 ++ [event]

/-- The tests of `events_forward`. -/
def forwards (event : Event) : Bool :=
  request.since.all (fun since => 0 ≤ utilTypesTimestampCmp event.timestamp since) &&
    selects regcomp request event

/-- The loop of `events_forward`: the clients that stay and what every one has been sent.
A client is dropped when the write to it fails. -/
def forwardLoop (regcomp : Regcomp) (event : Event) (fails : Nat → Bool) :
    List (Nat × Request) → (Nat → List Event) → List (Nat × Request) × (Nat → List Event)
  | [], sent => ([], sent)
  | (client, request) :: clients, sent =>
    if !forwards regcomp request event then
      let (stay, sent) := forwardLoop regcomp event fails clients sent
      ((client, request) :: stay, sent)
    else if fails client then forwardLoop regcomp event fails clients sent
    else
      let (stay, sent) := forwardLoop regcomp event fails clients
        (update sent client (sent client ++ [event]))
      ((client, request) :: stay, sent)

/-- One client in `event_should_exit`. -/
def shouldExit (now : Timestamp) (cancelled : Nat → Bool) (client : Nat × Request) : Bool :=
  cancelled client.1 ||
    client.2.till.any fun till => till.isSet && 0 < utilTypesTimestampCmp now till

/-- The buffer of events, the subscribers on their way to the client list and those on
it, and what every subscriber asked for and was sent. -/
structure Collector where
  buffer : List Event
  pending : List (Nat × Request)
  clients : List (Nat × Request)
  requests : Nat → Option Request
  sent : Nat → List Event

/-- The steps of the collector. -/
inductive Step where
  /-- `events_subscribe` for a new subscriber, whose stream takes so many events. -/
  | subscribe (client : Nat) (request : Request) (takes : Nat)
  /-- `add_monitor_client`. -/
  | register (client : Nat)
  /-- `events_forward`, with the clients that cannot be written to. -/
  | forward (event : Event) (fails : Nat → Bool)
  /-- A round of `event_should_exit`. -/
  | sweep (now : Timestamp) (cancelled : Nat → Bool)

/-- A subscriber has been sent these events, and goes on unless the subscription failed. -/
def Collector.subscribed (client : Nat) (request : Request) (written : List Event) (ok : Bool) :
    Collector :=
  { state with
    pending := if ok then (client, request) :: state.pending else state.pending
    requests := update state.requests client (some request)
    sent := update state.sent client written }

/-- What a step does. -/
def collectorStep : Step → Option Collector
  | .subscribe client request takes =>
    if (state.requests client).isSome then none
    else
      let (written, ok) := eventsSubscribe regcomp request takes state.buffer
      some (state.subscribed client request written ok)
  | .register client =>
    match state.pending.find? fun entry => entry.1 == client with
    | none => none
    | some entry =>
      some { state with
        pending := state.pending.filter fun other => other.1 != client
        clients := state.clients ++ [entry] }
  | .forward event fails =>
    let (stay, sent) := forwardLoop regcomp event fails state.clients state.sent
    some { state with
      buffer := eventsAppend state.buffer event
      clients := stay
      sent := sent }
  | .sweep now cancelled =>
    some { state with
      clients := state.clients.filter fun client => !shouldExit now cancelled client }

/-- The collector, started without events and subscribers. -/
def collector : Machine Collector Step where
  initial :=
    { buffer := [], pending := [], clients := [], requests := fun _ => none, sent := fun _ => [] }
  step := collectorStep regcomp

variable {request : Request} {regcomp : Regcomp} {event : Event} {takes : Nat} {buffer : List Event}

section

variable (request : Request)

/-- The event lies before the time the request begins with. -/
def Request.Before (event : Event) : Prop :=
  ∃ since ∈ request.since, since.isSet = true ∧ utilTypesTimestampCmp event.timestamp since < 0

/-- The event lies after the time the request ends with. -/
def Request.After (event : Event) : Prop :=
  ∃ till ∈ request.till, till.isSet = true ∧ 0 < utilTypesTimestampCmp event.timestamp till

/-- The event is of another container than the request names. -/
def Request.Foreign (event : Event) : Prop :=
  ∃ name ∈ request.name, event.id ≠ name

/-- The event is one that the subscriber asked for. -/
def Request.Wants (event : Event) : Prop :=
  ¬ request.Before event ∧ ¬ request.After event ∧ ¬ request.Foreign event

end

/-- No subscriber has been sent an event it did not ask for. -/
def Collector.AllWanted : Prop :=
  ∀ client request, state.requests client = some request →
    ∀ event ∈ state.sent client, request.Wants event

theorem checkSinceTime_iff :
    checkSinceTime request.since event = true ↔ ¬ request.Before event := by
  unfold checkSinceTime Request.Before
  cases request.since with
  | none => simp
  | some since => cases set : since.isSet <;> simp [set]

theorem checkUtilTime_iff :
    checkUtilTime request.till event = true ↔ ¬ request.After event := by
  unfold checkUtilTime Request.After
  cases request.till with
  | none => simp
  | some till => cases set : till.isSet <;> simp [set]

theorem utilTypesTimestampCmp_unset {t1 t2 : Timestamp} (unset : t2.isSet = false) :
    0 ≤ utilTypesTimestampCmp t1 t2 := by
  have noSeconds : t2.hasSeconds = false := by
    simp [Timestamp.isSet] at unset
    exact unset.1
  unfold utilTypesTimestampCmp
  simp [noSeconds]
  split <;> decide

/-- The live test for the beginning is that of the replay. -/
theorem forwards_iff :
    forwards regcomp request event = true ↔
      ¬ request.Before event ∧ selects regcomp request event = true := by
  rw [forwards, Bool.and_eq_true, ← checkSinceTime_iff]
  refine and_congr_left fun _ => ?_
  unfold checkSinceTime
  cases request.since with
  | none => simp
  | some since =>
    cases set : since.isSet with
    | false => simp [set, utilTypesTimestampCmp_unset set]
    | true => simp [set]

/-- The stored events that a subscription replays. -/
def replayed (regcomp : Regcomp) (request : Request) (takes : Nat) (buffer : List Event) :
    List Event :=
  (((buffer.filter (checkSinceTime request.since)).takeWhile (checkUtilTime request.till)).filter
    (selects regcomp request)).take takes

theorem doSubscribe_eq :
    (doSubscribe regcomp request takes buffer).1 = replayed regcomp request takes buffer := by
  induction buffer generalizing takes with
  | nil => simp [doSubscribe, replayed]
  | cons event buffer ih =>
    unfold replayed at ih ⊢
    unfold doSubscribe
    cases since : checkSinceTime request.since event with
    | false => simp [since, ih]
    | true =>
      cases till : checkUtilTime request.till event with
      | false => simp [since, till]
      | true =>
        cases chosen : selects regcomp request event with
        | false => simp [since, till, chosen, ih]
        | true => cases takes <;> simp [since, till, chosen, ih]

/-- The subscription replays events at all: it has a time, and its times are in order. -/
def Request.isReplayed (request : Request) : Bool :=
  match request.since, request.till with
  | none, none => false
  | some since, some till => !(since.isSet && till.isSet && 0 < utilTypesTimestampCmp since till)
  | _, _ => true

theorem eventsSubscribe_eq :
    (eventsSubscribe regcomp request takes buffer).1 =
      if request.isReplayed then replayed regcomp request takes buffer else [] := by
  unfold eventsSubscribe Request.isReplayed
  cases request.since with
  | none => cases request.till <;> simp [doSubscribe_eq]
  | some since =>
    cases request.till with
    | none => simp [doSubscribe_eq]
    | some till =>
      dsimp only
      split
      next disordered => simp [disordered]
      next ordered => simp [ordered, doSubscribe_eq]

/-- What an event sends, and which clients stay. -/
theorem mem_forwardLoop {fails : Nat → Bool} {clients : List (Nat × Request)}
    {sent : Nat → List Event} :
    (∀ client other, other ∈ (forwardLoop regcomp event fails clients sent).2 client ↔
      other ∈ sent client ∨ (other = event ∧ ∃ request, (client, request) ∈ clients ∧
        forwards regcomp request event = true ∧ fails client = false)) ∧
      ∀ entry ∈ (forwardLoop regcomp event fails clients sent).1, entry ∈ clients := by
  induction clients generalizing sent with
  | nil => simp [forwardLoop]
  | cons entry clients ih =>
    obtain ⟨client, request⟩ := entry
    unfold forwardLoop
    cases passes : forwards regcomp request event with
    | false =>
      obtain ⟨deliveries, stays⟩ := @ih sent
      simp
      refine ⟨fun other delivered => ?_, ?_⟩
      · grind
      · grind
    | true =>
      cases broken : fails client with
      | true =>
        obtain ⟨deliveries, stays⟩ := @ih sent
        simp
        refine ⟨fun other delivered => ?_, ?_⟩
        · grind
        · grind
      | false =>
        obtain ⟨deliveries, stays⟩ :=
          @ih (update sent client (sent client ++ [event]))
        simp
        refine ⟨fun other delivered => ?_, ?_⟩
        · rw [deliveries]
          by_cases same : other = client
          · subst same
            grind
          · grind
        · grind

/-- The pattern of an id compiles and matches that id only. -/
def ExactId (regcomp : Regcomp) (id : Text) : Prop :=
  ∃ accepts, getIdreg regcomp id = some accepts ∧ ∀ text, accepts text = true ↔ text = id

theorem selects_iff (exact : ExactId regcomp event.id) :
    selects regcomp request event = true ↔ ¬ request.Foreign event := by
  obtain ⟨accepts, compiled, matching⟩ := exact
  unfold selects Request.Foreign
  cases request.name with
  | none => simp
  | some name => simp [compiled, matching, eq_comm]

/-- An arriving event is in time: it is not after the end that a client gave who is still
on the list, can be written to, and gets events of this container from this time on. -/
def InTime (state : Collector) : Step → Prop
  | .forward event fails =>
    ∀ client request, (client, request) ∈ state.clients → fails client = false →
      ¬ request.Before event → ¬ request.Foreign event → ¬ request.After event
  | _ => True

/-- The id that a step brings has an exact pattern. -/
def Step.ExactId (regcomp : Regcomp) : Step → Prop
  | .forward event _ => Events.ExactId regcomp event.id
  | _ => True

/-- The lists of subscribers agree with the record of requests, and what is stored has
ids with exact patterns. -/
structure Consistent (regcomp : Regcomp) (state : Collector) : Prop where
  listed : ∀ entry ∈ state.pending ++ state.clients, state.requests entry.1 = some entry.2
  fresh : ∀ client, state.requests client = none → state.sent client = []
  stored : ∀ event ∈ state.buffer, ExactId regcomp event.id

theorem mem_of_mem_eventsAppend {other : Event} (member : other ∈ eventsAppend buffer event) :
    other ∈ buffer ∨ other = event := by
  unfold eventsAppend at member
  split at member
  · simpa using member
  · rcases mem_append.mp member with old | new
    · exact .inl (mem_of_mem_drop old)
    · exact .inr (mem_singleton.mp new)

/-- What a subscription replays keeps to both times, and with exact patterns to the
container. -/
theorem wants_of_mem_replayed (stored : ∀ event ∈ buffer, ExactId regcomp event.id)
    (member : event ∈ replayed regcomp request takes buffer) : request.Wants event := by
  obtain ⟨inTime, chosen⟩ := mem_filter.mp (mem_of_mem_take member)
  obtain ⟨old, begun⟩ := mem_filter.mp ((takeWhile_sublist _).mem inTime)
  exact ⟨checkSinceTime_iff.mp begun, checkUtilTime_iff.mp (mem_takeWhile_imp inTime),
    (selects_iff (stored event old)).mp chosen⟩

section Subscribed

variable {state : Collector} {client other : Nat} {request : Request} {written : List Event}
  {ok : Bool} {regcomp : Regcomp}

theorem subscribed_self :
    (state.subscribed client request written ok).requests client = some request ∧
      (state.subscribed client request written ok).sent client = written :=
  ⟨update_self .., update_self ..⟩

theorem subscribed_of_ne (different : other ≠ client) :
    (state.subscribed client request written ok).requests other = state.requests other ∧
      (state.subscribed client request written ok).sent other = state.sent other :=
  ⟨update_of_ne different .., update_of_ne different ..⟩

theorem Consistent.subscribed (consistent : Consistent regcomp state)
    (isNew : state.requests client = none) :
    Consistent regcomp (state.subscribed client request written ok) := by
  refine ⟨fun entry member => ?_, fun other unknown => ?_, consistent.stored⟩
  · have listed : entry = (client, request) ∨ entry ∈ state.pending ++ state.clients := by
      unfold Collector.subscribed at member
      split at member
      · exact mem_cons.mp member
      · exact .inr member
    rcases listed with rfl | old
    · exact subscribed_self.1
    have known := consistent.listed entry old
    have different : entry.1 ≠ client := by
      intro same
      rw [same, isNew] at known
      cases known
    exact (subscribed_of_ne different).1.trans known
  · by_cases same : other = client
    · subst same
      cases subscribed_self.1.symm.trans unknown
    · rw [(subscribed_of_ne same).1] at unknown
      rw [(subscribed_of_ne same).2]
      exact consistent.fresh other unknown

theorem allWanted_subscribed_iff (isNew : state.requests client = none) :
    (state.subscribed client request written ok).AllWanted ↔
      state.AllWanted ∧ ∀ event ∈ written, request.Wants event := by
  constructor
  · intro wanted
    refine ⟨fun other asked known event member => ?_, fun event member => ?_⟩
    · have different : other ≠ client := by
        rintro rfl
        rw [isNew] at known
        cases known
      refine wanted other asked ((subscribed_of_ne different).1.trans known) event ?_
      rwa [(subscribed_of_ne different).2]
    · exact wanted client request subscribed_self.1 event (subscribed_self.2 ▸ member)
  · rintro ⟨wanted, new⟩ other asked known event member
    by_cases same : other = client
    · subst same
      rw [subscribed_self.1] at known
      rw [subscribed_self.2] at member
      cases known
      exact new event member
    · rw [(subscribed_of_ne same).1] at known
      rw [(subscribed_of_ne same).2] at member
      exact wanted other asked known event member

end Subscribed

section Forwarded

variable {regcomp : Regcomp} {state next : Collector} {event : Event} {fails : Nat → Bool}

theorem Consistent.known (consistent : Consistent regcomp state) {client : Nat}
    (listed : (client, request) ∈ state.clients) : state.requests client = some request :=
  consistent.listed _ (mem_append_right _ listed)

/-- With fewer clients, those listed are still listed with what they asked for. -/
theorem Consistent.dropped {clients : List (Nat × Request)} (consistent : Consistent regcomp state)
    (stays : ∀ entry ∈ clients, entry ∈ state.clients) :
    ∀ entry ∈ state.pending ++ clients, state.requests entry.1 = some entry.2 := by
  intro entry member
  refine consistent.listed entry ?_
  rcases mem_append.mp member with pending | listed
  · exact mem_append_left _ pending
  · exact mem_append_right _ (stays entry listed)

variable (consistent : Consistent regcomp state) (exact : ExactId regcomp event.id)
  (taken : collectorStep regcomp state (.forward event fails) = some next)
include consistent exact taken

theorem Consistent.forwarded :
    Consistent regcomp next := by
  cases taken
  obtain ⟨deliveries, stays⟩ := @mem_forwardLoop regcomp event fails state.clients state.sent
  refine ⟨consistent.dropped stays, fun client none => ?_, fun other member => ?_⟩
  · refine eq_nil_iff_forall_not_mem.mpr fun other member => ?_
    rcases (deliveries client other).mp member with old | ⟨-, request, listed, -⟩
    · rw [consistent.fresh client none] at old
      cases old
    · rw [consistent.known listed] at none
      cases none
  · rcases mem_of_mem_eventsAppend member with old | rfl
    · exact consistent.stored other old
    · exact exact

theorem allWanted_forwarded_iff :
    next.AllWanted ↔ state.AllWanted ∧ InTime state (.forward event fails) := by
  cases taken
  obtain ⟨deliveries, -⟩ := @mem_forwardLoop regcomp event fails state.clients state.sent
  constructor
  · intro wanted
    refine ⟨fun client request asked other member =>
      wanted client request asked other ((deliveries client other).mpr (.inl member)), ?_⟩
    intro client request listed works notBefore own
    have delivered := (deliveries client event).mpr (.inr
      ⟨rfl, request, listed, forwards_iff.mpr ⟨notBefore, (selects_iff exact).mpr own⟩, works⟩)
    exact (wanted client request (consistent.known listed) event delivered).2.1
  · rintro ⟨wanted, inTime⟩ client request asked other member
    rcases (deliveries client other).mp member with old | ⟨rfl, request', listed, passes, works⟩
    · exact wanted client request asked other old
    cases (consistent.known listed).symm.trans asked
    obtain ⟨notBefore, chosen⟩ := forwards_iff.mp passes
    have own := (selects_iff exact).mp chosen
    exact ⟨notBefore, inTime client request listed works notBefore own, own⟩

end Forwarded

/-- A step with an exact pattern keeps the lists consistent, and all is wanted after it
exactly if all was before and the step is in time. -/
theorem collectorStep_allWanted {state next : Collector} {step : Step}
    (consistent : Consistent regcomp state) (exact : step.ExactId regcomp)
    (taken : collectorStep regcomp state step = some next) :
    Consistent regcomp next ∧ (next.AllWanted ↔ state.AllWanted ∧ InTime state step) := by
  cases step with
  | subscribe client request takes =>
    simp only [collectorStep] at taken
    split at taken
    · cases taken
    rename_i unknown
    have isNew : state.requests client = none := by simpa using unknown
    cases taken
    refine ⟨consistent.subscribed isNew, ?_⟩
    have written : ∀ event ∈ (eventsSubscribe regcomp request takes state.buffer).1,
        request.Wants event := by
      intro event member
      rw [eventsSubscribe_eq] at member
      split at member
      · exact wants_of_mem_replayed consistent.stored member
      · cases member
    rw [allWanted_subscribed_iff isNew]
    exact and_congr_right fun _ => iff_of_true written trivial
  | register client =>
    simp only [collectorStep] at taken
    split at taken
    · cases taken
    rename_i entry found
    cases taken
    refine ⟨⟨?_, consistent.fresh, consistent.stored⟩, by simp [InTime, Collector.AllWanted]⟩
    intro other member
    refine consistent.listed other ?_
    have pending := mem_of_find?_eq_some found
    simp at member ⊢
    rcases member with ⟨old, -⟩ | old | rfl
    · exact .inl old
    · exact .inr old
    · exact .inl pending
  | forward event fails =>
    exact ⟨consistent.forwarded exact taken, allWanted_forwarded_iff consistent exact taken⟩
  | sweep now cancelled =>
    cases taken
    exact ⟨⟨consistent.dropped fun entry kept => (mem_filter.mp kept).1, consistent.fresh,
      consistent.stored⟩, by simp [InTime, Collector.AllWanted]⟩

/-- Every step of the run is in time for the clients listed before it. -/
def AllInTime (regcomp : Regcomp) (steps : List Step) : Prop :=
  ∀ i step before, steps[i]? = some step → (collector regcomp).Trace (steps.take i) before →
    InTime before step

/-- Along every run whose events have ids with exact patterns, no subscriber has been sent
an event it did not ask for exactly when no event came late: the replay keeps to both
times, but an arriving event is not compared with the end. -/
theorem allWanted_iff {regcomp : Regcomp} {steps : List Step} {state : Collector}
    (exact : ∀ step ∈ steps, step.ExactId regcomp)
    (trace : (collector regcomp).Trace steps state) :
    state.AllWanted ↔ AllInTime regcomp steps := by
  suffices Consistent regcomp state ∧ (state.AllWanted ↔ AllInTime regcomp steps) from this.2
  induction trace with
  | start =>
    have consistent : Consistent regcomp (collector regcomp).initial :=
      ⟨fun entry listed => absurd listed not_mem_nil, fun _ _ => rfl,
        fun event stored => absurd stored not_mem_nil⟩
    have wanted : (collector regcomp).initial.AllWanted :=
      fun client request asked => absurd asked (Option.some_ne_none request).symm
    refine ⟨consistent, iff_of_true wanted ?_⟩
    intro i step before happened
    simp at happened
  | step prior taken ih =>
    obtain ⟨consistent, wanted⟩ := ih fun step earlier => exact step (mem_append_left _ earlier)
    obtain ⟨next, same⟩ := collectorStep_allWanted consistent
      (exact _ (mem_append_right _ (mem_singleton_self _))) taken
    exact ⟨next, by rw [same, wanted]; exact (Machine.always_snoc_iff prior).symm⟩

/-- Patterns of plain ids, which match their id only. -/
def plainRegcomp : Regcomp := fun pattern =>
  some fun text => pattern == '^' :: (text ++ ['$'])

theorem exactId_plainRegcomp (id : Text) : ExactId plainRegcomp id :=
  ⟨_, rfl, fun text => by simpa using eq_comm⟩

/-- A subscription to the events of a container up to the second 10, and an event of that
container in the second 11. -/
def lateSteps : List Step :=
  [.subscribe 0
      { name := some "c1".toList, since := some { }, till := some (.ofParts 10 0) } 100,
    .register 0, .forward { id := "c1".toList, timestamp := .ofParts 11 0 } fun _ => false]

theorem lateSteps_replay :
    ∃ state, (collector plainRegcomp).replay lateSteps = some state ∧ ¬ state.AllWanted := by
  refine ⟨_, rfl, fun wanted => ?_⟩
  have wants := wanted 0 _ rfl { id := "c1".toList, timestamp := .ofParts 11 0 } (.head _)
  exact wants.2.1 ⟨.ofParts 10 0, rfl, rfl, by decide⟩

/-- The client is sent an event from after the end it gave. -/
theorem allWanted_fails_late :
    ∃ state, (collector plainRegcomp).Trace lateSteps state ∧ ¬ state.AllWanted := by
  obtain ⟨state, replayed, unwanted⟩ := lateSteps_replay
  exact ⟨state, Machine.trace_of_replay replayed, unwanted⟩

/-- In that run an event is late. -/
theorem allWanted_iff_late : ¬ AllInTime plainRegcomp lateSteps := by
  obtain ⟨state, replayed, unwanted⟩ := lateSteps_replay
  refine mt (allWanted_iff (fun step member => ?_) (Machine.trace_of_replay replayed)).mpr unwanted
  cases step with
  | forward event fails => exact exactId_plainRegcomp event.id
  | _ => trivial

end Isulad.Events
