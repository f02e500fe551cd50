import Isulad.Events.Collector

/-!
# The buffer of events

`events_append` of `collector.c` with `event_copy` of `events_format.c`. Once the buffer is full, a
new event is copied over the oldest one, which keeps what the new event does not have.
-/

namespace Isulad.Events

open List

/-- `struct isulad_events_format`. -/
structure EventsFormat where
  timestamp : Timestamp := {}
  hasType : Nat := 0
  type : Nat := 0
  opt : Option Text := none
  id : Option Text := none
  annotations : List Text := []
  hasPid : Nat := 0
  pid : Nat := 0
  hasExitStatus : Nat := 0
  exitStatus : Nat := 0

/-- `event_copy`. -/
def eventCopy (src dest : EventsFormat) : EventsFormat :=
  { src with
    id := src.id.or dest.id
    opt := src.opt.or dest.opt
    annotations := if src.annotations = [] then dest.annotations else src.annotations }

/-- `g_events_buffer`. -/
structure EventsBuffer where
  eventList : List EventsFormat := []
  size : Nat := 0

/-- `events_append`. -/
def EventsBuffer.append (buffer : EventsBuffer) (event : EventsFormat) : EventsBuffer :=
  if buffer.size < eventsLimit then
    ⟨buffer.eventList ++ [eventCopy event {}], buffer.size + 1⟩
  else
    match buffer.eventList with
    | [] => buffer
    | first :: rest => { buffer with eventList := rest ++ [eventCopy event first] }

/-- The buffer after a number of events. -/
def bufferOf (events : List EventsFormat) : EventsBuffer := events.foldl .append {}

/-- The buffer holds the last events as they were appended. -/
structure Buffers (events : List EventsFormat) : Prop where
  last : (bufferOf events).eventList = events.drop (events.length - eventsLimit)
  size : (bufferOf events).size = (bufferOf events).eventList.length

/-- An event has everything that an older one has. -/
def EventsFormat.Covers (event old : EventsFormat) : Prop :=
  (event.opt = none → old.opt = none) ∧ (event.id = none → old.id = none) ∧
    (event.annotations = [] → old.annotations = [])

variable {events : List EventsFormat} {event old : EventsFormat}

theorem eventCopy_eq_iff : eventCopy event old = event ↔ event.Covers old := by
  obtain ⟨_, _, _, opt, id, annotations, _⟩ := event
  cases opt <;> cases id <;> cases annotations <;> simp [eventCopy, EventsFormat.Covers]

/-- An event enters a buffer that is not full as it is, and then covers the oldest one or not. -/
theorem buffers_snoc_iff (buffers : Buffers events) :
    Buffers (events ++ [event]) ↔
      ∀ i old, i + eventsLimit = events.length → events[i]? = some old → event.Covers old := by
  obtain ⟨last, size⟩ := buffers
  have appended : bufferOf (events ++ [event]) = (bufferOf events).append event := by
    rw [bufferOf, foldl_append]
    rfl
  have positive : 0 < eventsLimit := by decide
  rw [last, length_drop] at size
  by_cases room : events.length < eventsLimit
  · have none : events.length + 1 - eventsLimit = 0 ∧ events.length - eventsLimit = 0 := by omega
    refine iff_of_true ?_ fun i old full => by omega
    rw [EventsBuffer.append, if_pos (by omega), last,
      eventCopy_eq_iff.mpr ⟨fun _ => rfl, fun _ => rfl, fun _ => rfl⟩] at appended
    constructor <;> simp [appended, size, none]
  · have within : events.length - eventsLimit < events.length := by omega
    have split := drop_eq_getElem_cons within
    have behind : events.length - eventsLimit + 1 = events.length + 1 - eventsLimit := by omega
    rw [behind] at split
    rw [EventsBuffer.append, if_neg (by omega), last, split] at appended
    have copied : Buffers (events ++ [event]) ↔
        event.Covers events[events.length - eventsLimit] := by
      rw [← eventCopy_eq_iff]
      refine ⟨fun ⟨last, _⟩ => ?_, fun same => ⟨?_, ?_⟩⟩
      · rw [appended, length_append, length_singleton, drop_append_of_le_length (by omega)] at last
        simpa using last
      · rw [appended, length_append, length_singleton, drop_append_of_le_length (by omega)]
        simpa using same
      · rw [appended]
        simp [size]
        omega
    rw [copied]
    constructor
    · intro covers i old full found
      obtain rfl : i = events.length - eventsLimit := by omega
      rw [getElem?_eq_getElem within] at found
      cases found
      exact covers
    · intro covers
      exact covers _ _ (by omega) (getElem?_eq_getElem within)

/-- In every sequence of events, the buffer always holds the last ones exactly if each event has
whatever the one `eventsLimit` before it has. -/
theorem buffers_iff (events : List EventsFormat) :
    (∀ n, Buffers (events.take n)) ↔
      ∀ i old event, events[i]? = some old → events[i + eventsLimit]? = some event →
        event.Covers old := by
  constructor
  · intro buffers i old event found happened
    have within := (List.getElem?_eq_some_iff.mp happened).1
    have next := buffers (i + eventsLimit + 1)
    rw [take_add_one, happened] at next
    refine (buffers_snoc_iff (buffers _)).mp next i old (by simp; omega) ?_
    rwa [getElem?_take_of_lt (Nat.lt_add_of_pos_right (by decide))]
  · intro covers n
    induction n with
    | zero => exact ⟨rfl, rfl⟩
    | succ n ih =>
      rw [take_add_one]
      cases happened : events[n]? with
      | none => simpa using ih
      | some event =>
        have within := (List.getElem?_eq_some_iff.mp happened).1
        refine (buffers_snoc_iff ih).mpr fun i old full found => ?_
        rw [length_take, Nat.min_eq_left (Nat.le_of_lt within)] at full
        have early := (List.getElem?_eq_some_iff.mp found).1
        rw [length_take] at early
        rw [getElem?_take_of_lt (by omega)] at found
        exact covers i old event found (full ▸ happened)

/-- An event without annotations is given those of the event that it replaces. -/
theorem buffers_fails_annotations :
    ¬ Buffers (replicate 64 { annotations := [[]] } ++ [({} : EventsFormat)]) := by
  rintro ⟨last, -⟩
  have annotations := congrArg (List.map (·.annotations)) last
  revert annotations
  decide +kernel

end Isulad.Events
