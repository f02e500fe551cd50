import Isulad.Registry.Manifest
import Isulad.Std.Trace

/-!
# The requests of `fetch_data`

The loop of `fetch_data`, one request after the other. After a request that fails, the next one
resumes the file, unless a range was refused before; after a file with a wrong digest, the next
one is to write it anew.
-/

namespace Isulad.Registry

open Isulad.Std
open Isulad.Std.Machine
open Isulad.Spec (Text)

/-- One request of `fetch_data`. -/
structure Fetch extends Attempt where
  /-- A request that fails has opened the file, which comes after the ping and the token. -/
  opens : Bool
  /-- A request that fails does so with `CURLE_RANGE_ERROR`. -/
  rangeError : Bool

/-- The variables of the loop. -/
structure Fetching where
  retryTimes : Nat
  /-- The type is `RESUME_BODY`, not `BODY_ONLY`. -/
  resumes : Bool
  forbidResume : Bool
  /-- The digest of the file was wrong, and the file has not been opened anew since. -/
  wrong : Bool
  /-- Whether the loop has ended, and the file if it has succeeded. -/
  result : Option (Option Text)

variable (env : Environment) (contentType : Text) (digest : Option Text)

/-- What follows a request that does not succeed. -/
def Fetching.retry (loop : Fetching) (fetch : Fetch) : Fetching :=
  let retryTimes := loop.retryTimes - 1
  let result := if 0 < retryTimes && !fetch.cancelled then none else some none
  if fetch.ok then { loop with retryTimes, result, resumes := false, wrong := true }
  else
    let forbidResume := loop.forbidResume || fetch.rangeError
    { retryTimes, result, forbidResume
      resumes := if forbidResume then loop.resumes && !fetch.rangeError else true
      wrong := loop.wrong && (loop.resumes || !fetch.opens) }

/-- The loop of `fetch_data`. A type that is too long for the header ends it before a request. -/
def fetchRequests : Machine Fetching Fetch where
  initial :=
    { retryTimes := retryTimes, resumes := false, forbidResume := false, wrong := false
      result :=
        if maxAcceptLen ≤ ("Accept: ".toList ++ contentType).length then some none else none }
  step loop fetch :=
    if loop.result ≠ none ∨ loop.retryTimes = 0 then none
    else if fetch.ok && env.accepts contentType digest fetch.file then
      some { loop with retryTimes := loop.retryTimes - 1, result := some (some fetch.file) }
    else some (loop.retry fetch)

/-- The next request, if there is one, does not resume a wrong file, nor one after a range error. -/
def Fetching.Anew (loop : Fetching) : Prop :=
  loop.result = none → loop.resumes = true → loop.wrong = false ∧ loop.forbidResume = false

/-- A request that finds a wrong file opens it, unless it is the last one or nothing may be
resumed after it. -/
def Fetching.Opens (loop : Fetching) (fetch : Fetch) : Prop :=
  loop.wrong = true → loop.forbidResume = false → fetch.ok = false → fetch.rangeError = false →
    fetch.opens = false → loop.retryTimes ≤ 1 ∨ fetch.cancelled = true

/-- The number of requests is limited, a file that is fetched is that of the last request and has
the digest, and files are written anew where they must be. -/
structure Fetched (fetches : List Fetch) (loop : Fetching) : Prop where
  limited : fetches.length ≤ retryTimes
  checked : ∀ file, loop.result = some (some file) → ∃ last, fetches.getLast? = some last ∧
    last.ok = true ∧ last.file = file ∧
      (contentType ≠ dockerManifestSchema1Prettyjws → ∀ known ∈ digest, env.fullDigest file = known)
  anew : (fetchRequests env contentType digest).Throughout Fetching.Anew fetches

variable {env contentType digest} {fetches : List Fetch} {loop next : Fetching} {fetch : Fetch}

theorem step_fetchRequests
    (taken : (fetchRequests env contentType digest).step loop fetch = some next) :
    (loop.result = none ∧ loop.retryTimes ≠ 0) ∧
      (((fetch.ok && env.accepts contentType digest fetch.file) = true ∧ next = { loop with
        retryTimes := loop.retryTimes - 1, result := some (some fetch.file) }) ∨
      (fetch.ok && env.accepts contentType digest fetch.file) = false ∧
        next = loop.retry fetch) := by
  dsimp only [fetchRequests] at taken
  grind

theorem anew_iff (anew : loop.Anew)
    (taken : (fetchRequests env contentType digest).step loop fetch = some next) :
    next.Anew ↔ loop.Opens fetch := by
  obtain ⟨⟨goes, -⟩, ⟨served, rfl⟩ | ⟨-, rfl⟩⟩ := step_fetchRequests taken
  · exact iff_of_true nofun fun _ _ fails => absurd served (by simp [fails])
  · have fresh := anew goes
    unfold Fetching.Anew Fetching.Opens Fetching.retry
    grind

section

variable (trace : (fetchRequests env contentType digest).Trace fetches loop)
include trace

/-- The requests are those of the loop that `fetchData` runs. -/
theorem retry_of_trace
    {attempts : Nat → Attempt} (fits : ("Accept: ".toList ++ contentType).length < maxAcceptLen)
    (made : ∀ i, ∀ fetch ∈ fetches[i]?, fetch.toAttempt = attempts i) :
    retry (env.accepts contentType digest) attempts 0 retryTimes = match loop.result with
      | none => retry (env.accepts contentType digest) attempts fetches.length loop.retryTimes
      | some ended => ended.elim (.error (attempts (fetches.length - 1))) .ok := by
  induction trace with
  | start =>
    dsimp only [fetchRequests]
    rw [if_neg (Nat.not_le.mpr fits)]
    rfl
  | @step fetches loop fetch next prior taken ih =>
    have same : fetch.toAttempt = attempts fetches.length := made _ _ (by simp)
    have earlier := ih fun i other here => made i other (by grind)
    obtain ⟨⟨goes, left⟩, moved⟩ := step_fetchRequests taken
    obtain ⟨left, count⟩ := Nat.exists_eq_succ_of_ne_zero left
    rw [earlier, goes, count]
    rw [retry, ← same]
    obtain ⟨served, rfl⟩ | ⟨refused, rfl⟩ := moved
    · rw [if_pos served]
      rfl
    · rw [if_neg (by simp [refused])]
      simp only [Fetching.retry, count]
      grind

/-- Every request takes one of the retries, and only an accepted file ends the loop with it. -/
theorem requests_of_trace :
    fetches.length + loop.retryTimes = retryTimes ∧ ∀ file, loop.result = some (some file) →
      ∃ last, fetches.getLast? = some last ∧ last.ok = true ∧ last.file = file ∧
        env.accepts contentType digest file = true := by
  induction trace with
  | start =>
    refine ⟨Nat.zero_add _, fun file ended => ?_⟩
    dsimp only [fetchRequests] at ended
    split at ended <;> cases ended
  | step prior taken ih =>
    obtain ⟨⟨-, left⟩, ⟨served, rfl⟩ | ⟨-, rfl⟩⟩ := step_fetchRequests taken
    · obtain ⟨ok, accepted⟩ := Bool.and_eq_true_iff.mp served
      refine ⟨by grind, ?_⟩
      rintro file ⟨⟩
      exact ⟨_, List.getLast?_concat, ok, rfl, accepted⟩
    · unfold Fetching.retry
      grind

end

/-- The loop does what it is for exactly if requests open the wrong files. -/
theorem fetched_iff (trace : (fetchRequests env contentType digest).Trace fetches loop) :
    Fetched env contentType digest fetches loop ↔
      (fetchRequests env contentType digest).Always Fetching.Opens fetches := by
  obtain ⟨count, ended⟩ := requests_of_trace trace
  have anew : (fetchRequests env contentType digest).Throughout Fetching.Anew fetches ↔
      (fetchRequests env contentType digest).Always Fetching.Opens fetches := by
    clear count ended
    induction trace with
    | start =>
      rw [throughout_nil_iff]
      exact iff_of_true nofun (by simp [Always])
    | @step fetches loop fetch next prior taken ih =>
      rw [throughout_snoc_iff (prior.step taken), always_snoc_iff prior, ih]
      refine and_congr_right fun all => ?_
      exact anew_iff (ih.mpr all fetches.length loop (by rwa [List.take_length])) taken
  refine ⟨fun fetched => anew.mp fetched.anew, fun all => ⟨by omega, ?_, anew.mpr all⟩⟩
  intro file succeeded
  obtain ⟨last, isLast, ok, same, accepted⟩ := ended file succeeded
  refine ⟨last, isLast, ok, same, fun unsigned known given => ?_⟩
  rw [Environment.accepts, Option.mem_def.mp given] at accepted
  simpa [unsigned] using accepted

/-- A registry that is not asked for anything else. -/
def plainEnvironment : Environment :=
  ⟨fun _ => ⟨false, [], false⟩, fun _ => ⟨false, [], false⟩, fun _ => none, fun _ => none,
    fun _ => none, none, id⟩

/-- A file with a wrong digest, and a token that is not granted. -/
def wrongThenToken : List Fetch :=
  [⟨⟨true, ['x'], false⟩, true, false⟩, ⟨⟨false, ['x'], false⟩, false, false⟩]

theorem fetched_iff_token : ∃ loop,
    (fetchRequests plainEnvironment [] (some [])).Trace wrongThenToken loop ∧
      (Fetched plainEnvironment [] (some []) wrongThenToken loop ↔
        (fetchRequests plainEnvironment [] (some [])).Always Fetching.Opens wrongThenToken) :=
  ⟨_, trace_of_replay rfl, fetched_iff (trace_of_replay rfl)⟩

/-- The wrong file is resumed once the token is granted. -/
theorem fetched_fails_token : ∃ loop,
    (fetchRequests plainEnvironment [] (some [])).Trace wrongThenToken loop ∧
      ¬ Fetched plainEnvironment [] (some []) wrongThenToken loop := by
  have trace :=
    @trace_of_replay _ _ (fetchRequests plainEnvironment [] (some [])) wrongThenToken _ rfl
  exact ⟨_, trace, fun fetched => absurd (fetched.anew 2 _ trace rfl rfl).1 (by decide)⟩

end Isulad.Registry
