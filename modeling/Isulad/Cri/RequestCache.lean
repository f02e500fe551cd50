import Isulad.Std.Keyed
import Isulad.Std.Trace
import Mathlib.Data.List.Induction

/-!
# The cache of streaming requests

`request_cache.cc`: a request to exec or attach is kept under a random token until a client
redeems the token for it. The cache holds a list, ordered by age, and a map. Requests are
arbitrary, the clock does not run backwards, and every attempt to generate a token may fail or
give any text.
-/

namespace Isulad.Cri

open List Function Isulad.Std

abbrev Text := List Char

variable {ε α ρ : Type} (token : Text)

/-- `MaxInFlight`. -/
def maxInFlight : Nat := 1000

/-- `TokenLen`. -/
def tokenLen : Nat := 64

/-- `maxTries`. -/
def maxTries : Nat := 50

/-- A minute in nanoseconds. -/
def minute : Nat := 60000000000

/-- `CacheEntry`. The vectors of requests have at most one element. -/
structure CacheEntry (ε α : Type) where
  token : Text
  execRequest : Option ε
  attachRequest : Option α
  expireTime : Nat

/-- `RequestCache`. -/
structure RequestCache (ε α : Type) where
  /-- `m_tokens`. -/
  tokens : Text → Option (CacheEntry ε α)
  /-- `m_ll`, the newest entry first. -/
  ll : List (CacheEntry ε α)

/-- The loop of `GarbageCollection`, over the list from its back. -/
def collect (now : Nat) : List (CacheEntry ε α) → (Text → Option (CacheEntry ε α)) →
    List (CacheEntry ε α) × (Text → Option (CacheEntry ε α))
  | [], tokens => ([], tokens)
  | oldest :: rest, tokens =>
    if now < oldest.expireTime then (oldest :: rest, tokens)
    else collect now rest (update tokens oldest.token none)

section

variable (cache : RequestCache ε α)

/-- `GarbageCollection`. -/
def RequestCache.garbageCollection (now : Nat) : RequestCache ε α :=
  let collected := collect now cache.ll.reverse cache.tokens
  { tokens := collected.2, ll := collected.1.reverse }

/-- The loop of `UniqueToken`; `tries` is what the generator gives, if it does not fail. -/
def tryTokens (tries : Nat → Option Text) (tokens : Text → Option (CacheEntry ε α)) :
    (i left : Nat) → Text
  | _, 0 => []
  | i, left + 1 =>
    match tries i with
    | none => tryTokens tries tokens (i + 1) left
    | some token =>
      if token.length = tokenLen ∧ tokens token = none then token
      else tryTokens tries tokens (i + 1) left

/-- `UniqueToken`. -/
def RequestCache.uniqueToken (tries : Nat → Option Text) : Text :=
  tryTokens tries cache.tokens 0 maxTries

/-- `m_ll.push_front` and `m_tokens.insert`, which keeps an entry that is there. -/
def RequestCache.push (entry : CacheEntry ε α) : RequestCache ε α where
  tokens := if (cache.tokens entry.token).isSome then cache.tokens
    else update cache.tokens entry.token (some entry)
  ll := entry :: cache.ll

/-- The common body of the insertions. The clock is read twice. -/
def RequestCache.insertRequest (execRequest : Option ε)
    (attachRequest : Option α) (tries : Nat → Option Text) (now later : Nat) :
    Text × RequestCache ε α :=
  let cache := cache.garbageCollection now
  if cache.ll.length = maxInFlight then ([], cache)
  else
    let token := cache.uniqueToken tries
    (token, cache.push ⟨token, execRequest, attachRequest, later + minute⟩)

/-- `InsertExecRequest`. -/
def RequestCache.insertExecRequest (req : ε)
    (tries : Nat → Option Text) (now later : Nat) : Text × RequestCache ε α :=
  cache.insertRequest (some req) none tries now later

/-- `InsertAttachRequest`. -/
def RequestCache.insertAttachRequest (req : α)
    (tries : Nat → Option Text) (now later : Nat) : Text × RequestCache ε α :=
  cache.insertRequest none (some req) tries now later

/-- The common body of the consumptions. Without a request the empty message is returned. -/
def RequestCache.consumeRequest (select : CacheEntry ε α → Option ρ) (token : Text) (now : Nat) :
    Option ρ × RequestCache ε α :=
  match cache.tokens token with
  | none => (none, cache)
  | some ele =>
    match select ele with
    | none => (none, cache)
    | some request =>
      (if ele.expireTime < now then none else some request,
        { tokens := update cache.tokens token none
          ll := cache.ll.eraseP fun entry => entry.token == token })

/-- `ConsumeExecRequest`. -/
def RequestCache.consumeExecRequest (token : Text) (now : Nat) : Option ε × RequestCache ε α :=
  cache.consumeRequest CacheEntry.execRequest token now

/-- `ConsumeAttachRequest`. -/
def RequestCache.consumeAttachRequest (token : Text) (now : Nat) : Option α × RequestCache ε α :=
  cache.consumeRequest CacheEntry.attachRequest token now

end

/-- What a client sees. -/
inductive Record (ε α : Type) where
  | inserted (request : ε ⊕ α) (token : Text) (time expireTime : Nat)
  | consumedExec (token : Text) (time : Nat) (result : Option ε)
  | consumedAttach (token : Text) (time : Nat) (result : Option α)

/-- The cache, the clock, and the records, the newest first. -/
structure Service (ε α : Type) where
  cache : RequestCache ε α
  now : Nat
  log : List (Record ε α)

inductive CacheEvent (ε α : Type) where
  | insertExec (request : ε) (tries : Nat → Option Text) (delay : Nat)
  | insertAttach (request : α) (tries : Nat → Option Text) (delay : Nat)
  | consumeExec (token : Text)
  | consumeAttach (token : Text)
  | advance (ticks : Nat)

/-- An insertion has returned. -/
def Service.inserted (state : Service ε α) (request : ε ⊕ α) (delay : Nat)
    (result : Text × RequestCache ε α) : Service ε α where
  cache := result.2
  now := state.now + delay
  log := .inserted request result.1 state.now (state.now + delay + minute) :: state.log

/-- One call, or time passes. -/
def Service.step (state : Service ε α) : CacheEvent ε α → Option (Service ε α)
  | .insertExec request tries delay =>
    some (state.inserted (.inl request) delay
      (state.cache.insertExecRequest request tries state.now (state.now + delay)))
  | .insertAttach request tries delay =>
    some (state.inserted (.inr request) delay
      (state.cache.insertAttachRequest request tries state.now (state.now + delay)))
  | .consumeExec token =>
    let result := state.cache.consumeExecRequest token state.now
    some { state with
      cache := result.2, log := .consumedExec token state.now result.1 :: state.log }
  | .consumeAttach token =>
    let result := state.cache.consumeAttachRequest token state.now
    some { state with
      cache := result.2, log := .consumedAttach token state.now result.1 :: state.log }
  | .advance ticks => some { state with now := state.now + ticks }

/-- The service from its start on. -/
def requestService (ε α : Type) (now : Nat) : Machine (Service ε α) (CacheEvent ε α) where
  initial := ⟨⟨fun _ => none, []⟩, now, []⟩
  step := Service.step

/-- The request that a token stands for, and until when, from what has been seen: the token has been
given out for it and has not been redeemed since. The empty token stands for nothing. -/
def worth (token : Text) : List (Record ε α) → Option ((ε ⊕ α) × Nat)
  | [] => none
  | .inserted request given _ expireTime :: log =>
    if given = token ∧ token ≠ [] then some (request, expireTime) else worth token log
  | .consumedExec used _ result :: log =>
    if used = token ∧ result.isSome then none else worth token log
  | .consumedAttach used _ result :: log =>
    if used = token ∧ result.isSome then none else worth token log

/-- A token gives the request of its kind that it stands for, until it expires. -/
def Redeems (time : Nat) (log : List (Record ε α)) (kind : ρ → ε ⊕ α) (result : Option ρ) : Prop :=
  (∀ request, result = some request →
    ∃ expireTime, worth token log = some (kind request, expireTime) ∧ time ≤ expireTime) ∧
  ∀ request expireTime, worth token log = some (kind request, expireTime) → time < expireTime →
    result = some request

/-- Every token in the log is redeemed for what it stands for, and none is given out while it
stands for a request that has not expired. -/
def Lawful : List (Record ε α) → Prop
  | [] => True
  | .inserted _ token time _ :: log =>
    Lawful log ∧ ∀ request expireTime, token ≠ [] → worth token log = some (request, expireTime) →
      expireTime ≤ time
  | .consumedExec token time result :: log => Lawful log ∧ Redeems token time log .inl result
  | .consumedAttach token time result :: log => Lawful log ∧ Redeems token time log .inr result

/-- The list and the map hold the same tokens, at most `MaxInFlight` of them. -/
structure RequestCache.Coherent (cache : RequestCache ε α) : Prop where
  apart : (cache.ll.map CacheEntry.token).Nodup
  same : ∀ token, (cache.tokens token).isSome = true ↔ token ∈ cache.ll.map CacheEntry.token
  bounded : cache.ll.length ≤ maxInFlight

/-- In every state of a run the log is lawful and the cache coherent, and an insertion that returns
the empty token leaves the cache as it was. -/
def Secure (start : Nat) (events : List (CacheEvent ε α)) : Prop :=
  ∀ i state, (requestService ε α start).Trace (events.take i) state →
    Lawful state.log ∧ state.cache.Coherent ∧
    ∀ event next request time expireTime, events[i]? = some event → state.step event = some next →
      next.log = .inserted request [] time expireTime :: state.log → next.cache = state.cache

/-- One of the attempts gives a token that can be used. -/
def RequestCache.Generates (cache : RequestCache ε α) (tries : Nat → Option Text) : Prop :=
  ∃ i < maxTries, ∃ token, tries i = some token ∧ token.length = tokenLen ∧
    cache.tokens token = none

/-- The event is no insertion into a cache with room for which no token can be generated. -/
def Service.Supplied (state : Service ε α) : CacheEvent ε α → Prop
  | .insertExec _ tries _ | .insertAttach _ tries _ =>
    (state.cache.garbageCollection state.now).ll.length ≠ maxInFlight →
      (state.cache.garbageCollection state.now).Generates tries
  | _ => True

/-- No insertion of the run fails to generate a token. -/
def AllSupplied (start : Nat) (events : List (CacheEvent ε α)) : Prop :=
  (requestService ε α start).Always Service.Supplied events

section Collect

variable {now : Nat} {entries : List (CacheEntry ε α)} {tokens : Text → Option (CacheEntry ε α)}

/-- In a list ordered by age the entries that have expired are those at the back. -/
theorem collect_spec
    (ordered : entries.Pairwise fun older newer => older.expireTime ≤ newer.expireTime) :
    (collect now entries tokens).1 = entries.filter (fun entry => now < entry.expireTime) ∧
      ∀ token entry, (collect now entries tokens).2 token = some entry ↔
        tokens token = some entry ∧
          ∀ other ∈ entries, other.token = token → now < other.expireTime := by
  induction entries generalizing tokens with
  | nil => simp [collect]
  | cons oldest rest ih =>
    obtain ⟨first, orderedRest⟩ := pairwise_cons.mp ordered
    rw [collect]
    split
    next alive =>
      have all : ∀ entry ∈ oldest :: rest, now < entry.expireTime :=
        forall_mem_cons.mpr ⟨alive, fun entry later => Nat.lt_of_lt_of_le alive (first entry later)⟩
      refine ⟨(filter_eq_self.mpr fun entry member => ?_).symm, fun token entry => ?_⟩
      · simpa using all entry member
      · exact ⟨fun found => ⟨found, fun other member _ => all other member⟩, And.left⟩
    next expired =>
      obtain ⟨kept, found⟩ := @ih (update tokens oldest.token none) orderedRest
      refine ⟨by rw [kept, filter_cons_of_neg (by simpa using expired)], fun token entry => ?_⟩
      rw [found]
      by_cases same : token = oldest.token
      · subst same
        rw [update_self]
        refine ⟨fun found => absurd found.1 nofun, fun found => ?_⟩
        exact absurd (found.2 oldest mem_cons_self rfl) expired
      · rw [update_of_ne same, forall_mem_cons]
        exact and_congr_right fun _ =>
          ⟨fun all => ⟨fun here => absurd here.symm same, all⟩, And.right⟩

end Collect

/-- The attempts give a token that can be used, or none of them does. -/
theorem tryTokens_cases (tries : Nat → Option Text) (tokens : Text → Option (CacheEntry ε α))
    (i left : Nat) :
    (∃ j < i + left, ∃ token, tries j = some token ∧ token.length = tokenLen ∧ tokens token = none ∧
      tryTokens tries tokens i left = token) ∨
    tryTokens tries tokens i left = [] ∧ ∀ j, i ≤ j → j < i + left → ∀ token, tries j = some token →
      ¬ (token.length = tokenLen ∧ tokens token = none) := by
  induction left generalizing i with
  | zero =>
    refine .inr ⟨rfl, fun j _ _ => ?_⟩
    omega
  | succ left ih =>
    by_cases useful : ∃ token, tries i = some token ∧ token.length = tokenLen ∧ tokens token = none
    · obtain ⟨token, given, usable⟩ := useful
      refine .inl ⟨i, by omega, token, given, usable.1, usable.2, ?_⟩
      rw [tryTokens, given]
      exact if_pos usable
    · have useless : ∀ token, tries i = some token →
          ¬ (token.length = tokenLen ∧ tokens token = none) := fun token given usable =>
        useful ⟨token, given, usable⟩
      have skipped : tryTokens tries tokens i (left + 1) = tryTokens tries tokens (i + 1) left := by
        rw [tryTokens]
        split
        · rfl
        next token given => rw [if_neg (useless token given)]
      rw [skipped]
      rcases ih (i + 1) with ⟨j, below, found⟩ | ⟨empty, none⟩
      · exact .inl ⟨j, by omega, found⟩
      refine .inr ⟨empty, fun j above below => ?_⟩
      rcases Nat.eq_or_lt_of_le above with rfl | later
      · exact useless
      · exact none j later (by omega)

/-- A token is generated exactly if an attempt gives one that can be used. -/
theorem RequestCache.uniqueToken_cases (cache : RequestCache ε α) (tries : Nat → Option Text) :
    cache.Generates tries ∧ (cache.uniqueToken tries).length = tokenLen ∧
      cache.tokens (cache.uniqueToken tries) = none ∨
    ¬ cache.Generates tries ∧ cache.uniqueToken tries = [] := by
  rcases tryTokens_cases tries cache.tokens 0 maxTries with
    ⟨j, below, token, given, long, unused, found⟩ | ⟨empty, none⟩
  · rw [RequestCache.uniqueToken, found]
    exact .inl ⟨⟨j, by omega, token, given, long, unused⟩, long, unused⟩
  · refine .inr ⟨?_, empty⟩
    rintro ⟨i, below, token, given, usable⟩
    exact none i (Nat.zero_le i) (by omega) token given usable

/-- The entry that an insertion makes. -/
def entryFor (token : Text) : ε ⊕ α → Nat → CacheEntry ε α
  | .inl request, expireTime => ⟨token, some request, none, expireTime⟩
  | .inr request, expireTime => ⟨token, none, some request, expireTime⟩

@[simp] theorem entryFor_token (request : ε ⊕ α) (expireTime : Nat) :
    (entryFor token request expireTime).token = token := by
  cases request <;> rfl

@[simp] theorem entryFor_expireTime (request : ε ⊕ α) (expireTime : Nat) :
    (entryFor token request expireTime).expireTime = expireTime := by
  cases request <;> rfl

/-- The map is an index of the list, the list is ordered by age, and its entries are those that
tokens stand for. -/
structure Sound (cache : RequestCache ε α) (now : Nat) (log : List (Record ε α)) : Prop where
  apart : (cache.ll.map CacheEntry.token).Nodup
  index : ∀ token entry, cache.tokens token = some entry ↔ entry ∈ cache.ll ∧ entry.token = token
  ordered : cache.ll.Pairwise fun newer older => older.expireTime ≤ newer.expireTime
  recent : ∀ entry ∈ cache.ll, entry.expireTime ≤ now + minute
  named : ∀ entry ∈ cache.ll, entry.token.length = tokenLen
  bounded : cache.ll.length ≤ maxInFlight
  known : ∀ entry ∈ cache.ll, ∃ request, entry = entryFor entry.token request entry.expireTime ∧
    worth entry.token log = some (request, entry.expireTime)
  live : ∀ token request expireTime, worth token log = some (request, expireTime) →
    now < expireTime → ∃ entry ∈ cache.ll, entry.token = token
  lawful : Lawful log

section Invariant

variable {cache : RequestCache ε α} {now : Nat} {log : List (Record ε α)} {token : Text}
  {entry : CacheEntry ε α}

theorem sound_empty (now : Nat) : Sound (⟨fun _ => none, []⟩ : RequestCache ε α) now [] where
  apart := nodup_nil
  index _ _ := ⟨nofun, nofun⟩
  ordered := .nil
  recent _ := nofun
  named _ := nofun
  bounded := Nat.zero_le _
  known _ := nofun
  live _ _ _ := nofun
  lawful := trivial

section

variable (sound : Sound cache now log)
include sound

theorem Sound.coherent : cache.Coherent where
  apart := sound.apart
  same token := by
    rw [Option.isSome_iff_exists, mem_map]
    exact exists_congr fun entry => sound.index token entry
  bounded := sound.bounded

theorem Sound.absent_iff :
    cache.tokens token = none ↔ ∀ entry ∈ cache.ll, entry.token ≠ token := by
  rw [Option.eq_none_iff_forall_ne_some]
  constructor
  · exact fun absent entry member same =>
      absent entry ((sound.index token entry).mpr ⟨member, same⟩)
  · intro absent entry found
    obtain ⟨member, same⟩ := (sound.index token entry).mp found
    exact absent entry member same

theorem Sound.advance (ticks : Nat) : Sound cache (now + ticks) log :=
  { sound with
    recent := fun entry member => by
      have recent := sound.recent entry member
      omega
    live := fun token request expireTime stands alive =>
      sound.live token request expireTime stands (by omega) }

theorem Sound.collected_ll :
    (cache.garbageCollection now).ll = cache.ll.filter fun entry => now < entry.expireTime := by
  rw [RequestCache.garbageCollection]
  rw [(collect_spec (pairwise_reverse.mpr sound.ordered)).1, filter_reverse, reverse_reverse]

theorem Sound.collected_sublist :
    (cache.garbageCollection now).ll.Sublist cache.ll := by
  rw [sound.collected_ll]
  exact filter_sublist

theorem Sound.collected_index :
    (cache.garbageCollection now).tokens token = some entry ↔
      entry ∈ (cache.garbageCollection now).ll ∧ entry.token = token := by
  rw [sound.collected_ll, RequestCache.garbageCollection]
  rw [(collect_spec (pairwise_reverse.mpr sound.ordered)).2, sound.index, mem_filter,
    decide_eq_true_eq]
  constructor
  · rintro ⟨⟨member, same⟩, alive⟩
    exact ⟨⟨member, alive entry (mem_reverse.mpr member) same⟩, same⟩
  · rintro ⟨⟨member, alive⟩, same⟩
    refine ⟨⟨member, same⟩, fun other memberOther sameOther => ?_⟩
    rw [inj_on_of_nodup_map sound.apart (mem_reverse.mp memberOther) member
      (sameOther.trans same.symm)]
    exact alive

theorem Sound.collected :
    Sound (cache.garbageCollection now) now log := by
  have part := sound.collected_sublist
  exact
    { apart := sound.apart.sublist (part.map _)
      index := fun _ _ => sound.collected_index
      ordered := sound.ordered.sublist part
      recent := fun entry member => sound.recent entry (part.subset member)
      named := fun entry member => sound.named entry (part.subset member)
      bounded := Nat.le_trans part.length_le sound.bounded
      known := fun entry member => sound.known entry (part.subset member)
      live := fun token request expireTime stands alive => by
        obtain ⟨entry, member, same⟩ := sound.live token request expireTime stands alive
        obtain ⟨_, _, known⟩ := sound.known entry member
        rw [same, stands] at known
        refine ⟨entry, ?_, same⟩
        rw [sound.collected_ll, mem_filter, decide_eq_true_eq]
        cases known
        exact ⟨member, alive⟩
      lawful := sound.lawful }

theorem Sound.collected_of_full (full : (cache.garbageCollection now).ll.length = maxInFlight) :
    cache.garbageCollection now = cache := by
  have same : (cache.garbageCollection now).ll = cache.ll :=
    sound.collected_sublist.eq_of_length_le (by have bound := sound.bounded; omega)
  have tokens : (cache.garbageCollection now).tokens = cache.tokens := by
    funext token
    apply Option.ext
    intro entry
    rw [sound.collected_index, sound.index, same]
  calc cache.garbageCollection now
      = ⟨(cache.garbageCollection now).tokens, (cache.garbageCollection now).ll⟩ := rfl
    _ = cache := by rw [tokens, same]

/-- A record after which the tokens stand for what they did. -/
theorem Sound.note {record : Record ε α}
    (same : ∀ token, worth token (record :: log) = worth token log)
    (lawful : Lawful (record :: log)) : Sound cache now (record :: log) :=
  { sound with
    known := fun entry member => by
      rw [same]
      exact sound.known entry member
    live := fun token request expireTime => by
      rw [same]
      exact sound.live token request expireTime
    lawful }

theorem Sound.refused (request : ε ⊕ α) (time expireTime : Nat) :
    Sound cache now (.inserted request [] time expireTime :: log) :=
  sound.note (fun _ => if_neg fun both => both.2 both.1.symm)
    ⟨sound.lawful, fun _ _ nonempty => absurd rfl nonempty⟩

/-- A token that is new to the cache is given out. -/
theorem Sound.push (long : token.length = tokenLen)
    (unused : cache.tokens token = none) (room : cache.ll.length ≠ maxInFlight)
    (request : ε ⊕ α) (delay : Nat) :
    Sound (cache.push (entryFor token request (now + delay + minute))) (now + delay)
      (.inserted request token now (now + delay + minute) :: log) := by
  have absent := sound.absent_iff.mp unused
  have nonempty : token ≠ [] := by
    rintro rfl
    exact absurd long (by decide)
  have older : ∀ entry ∈ cache.ll, entry.expireTime ≤ now + delay + minute := by
    intro entry member
    have recent := sound.recent entry member
    omega
  have elsewhere : ∀ other, other ≠ token →
      worth other (.inserted request token now (now + delay + minute) :: log) =
        worth other log := by
    intro other different
    rw [worth, if_neg fun same => different same.1.symm]
  have here : worth token (.inserted request token now (now + delay + minute) :: log) =
      some (request, now + delay + minute) := by
    rw [worth, if_pos ⟨rfl, nonempty⟩]
  have tokens : (cache.push (entryFor token request (now + delay + minute))).tokens =
      update cache.tokens token (some (entryFor token request (now + delay + minute))) := by
    simp [RequestCache.push, unused]
  refine ⟨?_, fun other entry => ?_, ?_, forall_mem_cons.mpr ⟨?_, older⟩,
    forall_mem_cons.mpr ⟨?_, sound.named⟩, ?_, forall_mem_cons.mpr ⟨?_, fun entry inside => ?_⟩,
    fun other requestOther expireTime stands alive => ?_, sound.lawful, ?_⟩
  · rw [RequestCache.push, map_cons, nodup_cons, entryFor_token]
    refine ⟨fun member => ?_, sound.apart⟩
    obtain ⟨entry, inside, same⟩ := mem_map.mp member
    exact absent entry inside same
  · rw [tokens, RequestCache.push, mem_cons]
    by_cases same : other = token
    · subst same
      rw [update_self]
      constructor
      · intro found
        cases found
        exact ⟨.inl rfl, entryFor_token ..⟩
      · rintro ⟨rfl | member, named⟩
        · rfl
        · exact absurd named (absent entry member)
    · rw [update_of_ne same, sound.index]
      refine ⟨fun found => ⟨.inr found.1, found.2⟩, ?_⟩
      rintro ⟨rfl | member, named⟩
      · exact absurd (named.symm.trans (entryFor_token ..)) same
      · exact ⟨member, named⟩
  · refine pairwise_cons.mpr ⟨fun entry member => ?_, sound.ordered⟩
    rw [entryFor_expireTime]
    exact older entry member
  · exact Nat.le_of_eq (entryFor_expireTime ..)
  · rw [entryFor_token]
    exact long
  · have bounded := sound.bounded
    rw [RequestCache.push, length_cons]
    omega
  · rw [entryFor_token, entryFor_expireTime, here]
    exact ⟨request, rfl, rfl⟩
  · rw [elsewhere entry.token (absent entry inside)]
    exact sound.known entry inside
  · by_cases same : other = token
    · exact ⟨_, mem_cons_self, (entryFor_token ..).trans same.symm⟩
    · rw [elsewhere other same] at stands
      obtain ⟨entry, member, named⟩ := sound.live other requestOther expireTime stands (by omega)
      exact ⟨entry, mem_cons_of_mem _ member, named⟩
  · -- what the token stood for before has expired, or it would still be in the cache
    intro requestOld expireTime _ stands
    by_contra alive
    obtain ⟨entry, member, named⟩ := sound.live token requestOld expireTime stands (by omega)
    exact absent entry member named

/-- An insertion into a cache that is full, or for which a token is generated. -/
theorem Sound.insertRequest {execRequest : Option ε}
    {attachRequest : Option α} {request : ε ⊕ α} {tries : Nat → Option Text} {delay : Nat}
    (made : ∀ token expireTime,
      (⟨token, execRequest, attachRequest, expireTime⟩ : CacheEntry ε α) =
        entryFor token request expireTime)
    (supplied : (cache.garbageCollection now).ll.length ≠ maxInFlight →
      (cache.garbageCollection now).Generates tries) :
    let result := cache.insertRequest execRequest attachRequest tries now (now + delay)
    Sound result.2 (now + delay) (.inserted request result.1 now (now + delay + minute) :: log) ∧
      (result.1 = [] → result.2 = cache) := by
  rw [RequestCache.insertRequest]
  dsimp only
  split
  next full =>
    refine ⟨?_, fun _ => sound.collected_of_full full⟩
    exact (sound.collected.advance delay).refused request _ _
  next room =>
    rcases (cache.garbageCollection now).uniqueToken_cases tries with
      ⟨_, long, unused⟩ | ⟨fails, _⟩
    · rw [made]
      refine ⟨sound.collected.push long unused room request delay, fun empty => ?_⟩
      dsimp only at empty
      rw [empty] at long
      exact absurd long (by decide)
    · exact absurd (supplied room) fails

end

theorem mem_eraseP_token {entries : List (CacheEntry ε α)}
    (apart : (entries.map CacheEntry.token).Nodup) :
    entry ∈ entries.eraseP (fun entry => entry.token == token) ↔
      entry ∈ entries ∧ entry.token ≠ token := by
  rw [eraseP_eq_filter ((pairwise_map.mp apart).imp fun different first second =>
    different ((eq_of_beq first).trans (eq_of_beq second).symm)), mem_filter]
  simp

/-- What a consumption of one kind records. -/
structure Consumption (record : Text → Nat → Option ρ → Record ε α) (kind : ρ → ε ⊕ α)
    (select : CacheEntry ε α → Option ρ) : Prop where
  injective : Injective kind
  selects : ∀ token request expireTime chosen,
    select (entryFor token request expireTime) = some chosen ↔ request = kind chosen
  worth : ∀ token used time result (log : List (Record ε α)),
    worth token (record used time result :: log) =
      if used = token ∧ result.isSome then none else Cri.worth token log
  lawful : ∀ used time result (log : List (Record ε α)),
    Lawful (record used time result :: log) ↔ Lawful log ∧ Redeems used time log kind result

theorem consumption_exec : Consumption (ε := ε) (α := α) .consumedExec .inl
    CacheEntry.execRequest where
  injective _ _ same := Sum.inl.inj same
  selects _ request _ _ := by cases request <;> simp [entryFor]
  worth _ _ _ _ _ := rfl
  lawful _ _ _ _ := .rfl

theorem consumption_attach : Consumption (ε := ε) (α := α) .consumedAttach .inr
    CacheEntry.attachRequest where
  injective _ _ same := Sum.inr.inj same
  selects _ request _ _ := by cases request <;> simp [entryFor]
  worth _ _ _ _ _ := rfl
  lawful _ _ _ _ := Iff.rfl

variable {record : Text → Nat → Option ρ → Record ε α} {kind : ρ → ε ⊕ α}
  {select : CacheEntry ε α → Option ρ}

section

variable (sound : Sound cache now log) (consumption : Consumption record kind select)
include sound consumption

/-- A token that gives nothing although it stands for something of the kind has expired. -/
theorem Sound.invalid
    (nothing : ∀ request expireTime, worth token log = some (kind request, expireTime) →
      expireTime ≤ now) :
    Sound cache now (record token now none :: log) := by
  refine sound.note (fun other => ?_) ?_
  · rw [consumption.worth]
    exact if_neg fun both => Bool.false_ne_true both.2
  · rw [consumption.lawful]
    refine ⟨sound.lawful, nofun, fun request expireTime stands alive => ?_⟩
    have expired := nothing request expireTime stands
    omega

/-- A token is taken out of the cache. It gives its request, unless it has expired. -/
theorem Sound.redeemed (found : cache.tokens token = some entry) {chosen : ρ}
    (stands : worth token log = some (kind chosen, entry.expireTime)) :
    Sound
      { tokens := update cache.tokens token none
        ll := cache.ll.eraseP fun entry => entry.token == token }
      now (record token now (if entry.expireTime < now then none else some chosen) :: log) := by
  have part : (cache.ll.eraseP fun entry => entry.token == token).Sublist cache.ll :=
    eraseP_sublist
  have elsewhere : ∀ other result, other ≠ token →
      worth other (record token now result :: log) = worth other log := by
    intro other result different
    rw [consumption.worth, if_neg fun same => different same.1.symm]
  refine ⟨sound.apart.sublist (part.map _), fun other old => ?_, sound.ordered.sublist part,
    fun old member => sound.recent old (part.subset member),
    fun old member => sound.named old (part.subset member),
    Nat.le_trans part.length_le sound.bounded, fun old member => ?_,
    fun other request expireTime stillStands alive => ?_, (consumption.lawful ..).mpr
      ⟨sound.lawful, fun request given => ?_, fun request expireTime standsFor alive => ?_⟩⟩
  · dsimp only
    rw [mem_eraseP_token sound.apart]
    by_cases same : other = token
    · subst same
      rw [update_self]
      exact ⟨nofun, fun both => absurd both.2 both.1.2⟩
    · rw [update_of_ne same, sound.index]
      constructor
      · rintro ⟨member, named⟩
        exact ⟨⟨member, fun again => same (named.symm.trans again)⟩, named⟩
      · rintro ⟨⟨member, _⟩, named⟩
        exact ⟨member, named⟩
  · have different := ((mem_eraseP_token sound.apart).mp member).2
    rw [elsewhere old.token _ different]
    exact sound.known old (part.subset member)
  · by_cases same : other = token
    · subst same
      rw [consumption.worth] at stillStands
      by_cases expired : entry.expireTime < now
      · rw [if_pos expired, if_neg fun both => Bool.false_ne_true both.2, stands] at stillStands
        cases stillStands
        omega
      · rw [if_neg expired, if_pos ⟨rfl, rfl⟩] at stillStands
        cases stillStands
    · rw [elsewhere other _ same] at stillStands
      obtain ⟨old, member, named⟩ := sound.live other request expireTime stillStands alive
      refine ⟨old, (mem_eraseP_token sound.apart).mpr ⟨member, ?_⟩, named⟩
      rw [named]
      exact same
  · split at given
    · cases given
    · cases given
      exact ⟨entry.expireTime, stands, by omega⟩
  · obtain ⟨sameRequest, rfl⟩ := Prod.mk.inj (Option.some.inj (stands.symm.trans standsFor))
    rw [consumption.injective sameRequest, if_neg (by omega)]

theorem Sound.consumeRequest (token : Text) :
    Sound (cache.consumeRequest select token now).2 now
      (record token now (cache.consumeRequest select token now).1 :: log) := by
  rw [RequestCache.consumeRequest]
  split
  next absent =>
    refine sound.invalid consumption fun request expireTime stands => ?_
    by_contra alive
    obtain ⟨entry, member, named⟩ := sound.live token _ expireTime stands (by omega)
    exact sound.absent_iff.mp absent entry member named
  next entry found =>
    obtain ⟨member, named⟩ := (sound.index token entry).mp found
    obtain ⟨request, made, stands⟩ := sound.known entry member
    rw [named] at made stands
    split
    next other =>
      refine sound.invalid consumption fun wanted expireTime standsOther => ?_
      rw [stands] at standsOther
      cases standsOther
      rw [made, (consumption.selects ..).mpr rfl] at other
      cases other
    next chosen selected =>
      rw [made, consumption.selects] at selected
      subst selected
      exact sound.redeemed consumption found stands

end

end Invariant

section Runs

variable {state next : Service ε α} {start : Nat} {events : List (CacheEvent ε α)}
  {event : CacheEvent ε α}

/-- An event for which a token is generated, if it needs one. -/
theorem Sound.step (sound : Sound state.cache state.now state.log) (supplied : state.Supplied event)
    (taken : state.step event = some next) :
    Sound next.cache next.now next.log ∧ ∀ request time expireTime,
      next.log = .inserted request [] time expireTime :: state.log → next.cache = state.cache := by
  cases event with
  | insertExec request tries delay =>
    cases taken
    obtain ⟨kept, unchanged⟩ := @Sound.insertRequest _ _ _ _ _ sound (some request) none
      (.inl request) tries delay (fun _ _ => rfl) supplied
    refine ⟨kept, fun _ _ _ recorded => unchanged ?_⟩
    injection recorded with first
    injection first
  | insertAttach request tries delay =>
    cases taken
    obtain ⟨kept, unchanged⟩ := @Sound.insertRequest _ _ _ _ _ sound none (some request)
      (.inr request) tries delay (fun _ _ => rfl) supplied
    refine ⟨kept, fun _ _ _ recorded => unchanged ?_⟩
    injection recorded with first
    injection first
  | consumeExec token =>
    cases taken
    refine ⟨sound.consumeRequest consumption_exec token, fun _ _ _ recorded => ?_⟩
    injection recorded with first
    cases first
  | consumeAttach token =>
    cases taken
    refine ⟨sound.consumeRequest consumption_attach token, fun _ _ _ recorded => ?_⟩
    injection recorded with first
    cases first
  | advance ticks =>
    cases taken
    refine ⟨sound.advance ticks, fun _ _ _ recorded => ?_⟩
    exact absurd recorded.symm (cons_ne_self _ _)

theorem sound_of_trace (trace : (requestService ε α start).Trace events state)
    (supplied : AllSupplied start events) : Sound state.cache state.now state.log := by
  induction trace with
  | start => exact sound_empty start
  | step prior taken ih =>
    obtain ⟨before, last⟩ := (Machine.always_snoc_iff prior).mp supplied
    exact ((ih before).step last taken).1

/-- An insertion without a token is recorded with the empty one, and it is in the cache. -/
theorem unsupplied (missing : ¬ state.Supplied event) :
    ∃ next request time expireTime, state.step event = some next ∧
      next.log = .inserted request [] time expireTime :: state.log ∧
      ∃ entry ∈ next.cache.ll, entry.token = [] := by
  have inserted : ∀ (execRequest : Option ε) (attachRequest : Option α) (tries : Nat → Option Text)
      (later : Nat), ¬ ((state.cache.garbageCollection state.now).ll.length ≠ maxInFlight →
        (state.cache.garbageCollection state.now).Generates tries) →
      (state.cache.insertRequest execRequest attachRequest tries state.now later).1 = [] ∧
      ∃ entry ∈ (state.cache.insertRequest execRequest attachRequest tries state.now later).2.ll,
        entry.token = [] := by
    intro execRequest attachRequest tries later fails
    obtain ⟨room, useless⟩ := Classical.not_imp.mp fails
    rcases (state.cache.garbageCollection state.now).uniqueToken_cases tries with
      ⟨generates, _⟩ | ⟨_, empty⟩
    · exact absurd generates useless
    · rw [RequestCache.insertRequest]
      rw [if_neg room, empty]
      exact ⟨rfl, _, mem_cons_self, rfl⟩
  cases event with
  | insertExec request tries delay =>
    obtain ⟨empty, listed⟩ := inserted (some request) none tries (state.now + delay) missing
    exact ⟨_, .inl request, state.now, _, rfl,
      congrArg (fun token => Record.inserted _ token _ _ :: _) empty, listed⟩
  | insertAttach request tries delay =>
    obtain ⟨empty, listed⟩ := inserted none (some request) tries (state.now + delay) missing
    exact ⟨_, .inr request, state.now, _, rfl,
      congrArg (fun token => Record.inserted _ token _ _ :: _) empty, listed⟩
  | consumeExec token => exact absurd trivial missing
  | consumeAttach token => exact absurd trivial missing
  | advance ticks => exact absurd trivial missing

/-- The service refuses no call. -/
theorem exists_trace (start : Nat) (events : List (CacheEvent ε α)) :
    ∃ state, (requestService ε α start).Trace events state := by
  induction events using List.reverseRecOn with
  | nil => exact ⟨_, .start⟩
  | append_singleton events event ih =>
    obtain ⟨state, trace⟩ := ih
    cases event <;> exact ⟨_, trace.step rfl⟩

/-- In a secure run the first insertion without a token does not come. -/
theorem Secure.supplied_take (secure : Secure start events) (n : Nat) :
    AllSupplied start (events.take n) := by
  induction n with
  | zero => exact fun i event before happened => absurd happened (by simp)
  | succ n ih =>
    rcases happened : events[n]? with _ | event
    · rw [take_of_length_le (List.getElem?_eq_none_iff.mp happened)] at ih
      exact ih.take (n + 1)
    · obtain ⟨state, trace⟩ := exists_trace start (events.take n)
      rw [take_add_one, happened, Option.toList_some]
      refine (Machine.always_snoc_iff trace).mpr ⟨ih, ?_⟩
      by_contra missing
      obtain ⟨next, request, time, expireTime, taken, recorded, entry, listed, empty⟩ :=
        unsupplied missing
      -- The new entry is the first with a token that is not `TokenLen` long.
      rw [(secure n state trace).2.2 event next request time expireTime happened taken recorded]
        at listed
      have named := (sound_of_trace trace ih).named entry listed
      rw [empty] at named
      exact absurd named nofun

/-- A run is secure exactly if no insertion fails to generate a token. -/
theorem secure_iff (start : Nat) (events : List (CacheEvent ε α)) :
    Secure start events ↔ AllSupplied start events := by
  constructor
  · intro secure
    have supplied := secure.supplied_take events.length
    rw [take_length] at supplied
    exact supplied
  · intro supplied i state trace
    have sound := sound_of_trace trace (supplied.take i)
    refine ⟨sound.lawful, sound.coherent,
      fun event next request time expireTime happened taken => ?_⟩
    exact (sound.step (supplied i event state happened trace) taken).2 request time expireTime

/-- The generator fails for the only request: the request is in the cache under the empty token. -/
theorem secure_fails_generator :
    ¬ Secure 0 [(.insertExec () (fun _ => none) 0 : CacheEvent Unit Unit)] := by
  intro secure
  have unchanged := (secure 0 _ .start).2.2 _ _ (.inl ()) 0 minute rfl rfl rfl
  exact absurd (congrArg (fun cache => cache.ll.length) unchanged) (by decide +kernel)

end Runs

end Isulad.Cri
