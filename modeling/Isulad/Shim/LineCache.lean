import Isulad.Shim.Terminal

/-!
# The line cache of the shim

`shim_write_container_log_file` of `isulad-shim/terminal.c` collects the output of a stream in a
cache and hands it to the logger by lines. Copying within the cache behaves as `memmove`.
-/

namespace Isulad.Shim

open List

/-- `BUF_CACHE_SIZE`. -/
def bufCacheSize : Nat := 32 * 1024

/-- `DEFAULT_IO_COPY_BUF`. -/
def defaultIoCopyBuf : Nat := 16 * 1024

/-- The buffer of a call, which is `NULL` for a flush. -/
abbrev Buf := Option { bytes : List UInt8 // bytes.length ≤ defaultIoCopyBuf }

/-- The bytes that a call is given. -/
def Buf.bytes (buf : Buf) : List UInt8 := buf.elim [] (·.1)

/-- The loop over the cache, where `line` is what stands from `begin` on: the lines that are
written, and what is behind the last. -/
def writeLines : List UInt8 → List UInt8 → List Record × List UInt8
  | line, [] => ([], line)
  | line, byte :: bytes =>
    if byte = 10 then
      let (lines, rest) := writeLines [] bytes
      ((line ++ [byte]) :: lines, rest)
    else writeLines (line ++ [byte]) bytes

/-- `shim_write_container_log_file`: the records it writes, and the cache it leaves. -/
def shimWriteContainerLogFile (cache : List UInt8) (buf : Buf) : List Record × List UInt8 :=
  let upto := if bufCacheSize - cache.length < buf.bytes.length then bufCacheSize
    else cache.length + buf.bytes.length
  let bufReaded := upto - cache.length
  let bufLeft := if cache.length < upto then buf.bytes.drop bufReaded else []
  let cache := cache ++ buf.bytes.take bufReaded
  if cache = [] then ([], [])
  else
    let (lines, rest) := writeLines [] cache
    match buf with
    -- a flush sets the size only if it writes what is behind the last line
    | none => if rest = [] then (lines, cache) else (lines ++ [rest], [])
    | some _ =>
      if lines = [] ∧ cache.length = bufCacheSize then ([rest], bufLeft)
      else (lines, rest ++ bufLeft)

/-- The records and the cache after some calls. -/
def logged (calls : List Buf) : List Record × List UInt8 :=
  calls.foldl (fun state buf =>
    let (records, cache) := shimWriteContainerLogFile state.2 buf
    (state.1 ++ records, cache)) ([], [])

/-- What a call after others is expected to do. -/
structure Kept (calls : List Buf) (buf : Buf) : Prop where
  whole : (logged (calls ++ [buf])).1.flatten ++ (logged (calls ++ [buf])).2 =
    (calls ++ [buf]).flatMap Buf.bytes
  fits : (logged (calls ++ [buf])).2.length ≤ bufCacheSize
  cut : ∀ record ∈ (shimWriteContainerLogFile (logged calls).2 buf).1,
    record.getLast? = some 10 ∨ record.length = bufCacheSize ∨ buf = none
  flushed : buf = none → (logged (calls ++ [buf])).2 = []

/-- No byte is lost or doubled, whatever the calls are. -/
def KeepsBytes (calls : List Buf) : Prop :=
  ∀ front buf, front ++ [buf] <+: calls → Kept front buf

variable {line text bytes cache : List UInt8} {calls : List Buf} {buf : Buf}

theorem writeLines_spec (line bytes : List UInt8) :
    (writeLines line bytes).1.flatten ++ (writeLines line bytes).2 = line ++ bytes ∧
      (∀ record ∈ (writeLines line bytes).1, record.getLast? = some 10) ∧
      (10 ∉ line → 10 ∉ (writeLines line bytes).2) ∧
      ((writeLines line bytes).1 ≠ [] → (writeLines line bytes).2.length < bytes.length) := by
  fun_induction writeLines line bytes with
  | case1 line => simp
  | case2 line bytes lines rest same ih =>
    rw [same] at ih
    obtain ⟨whole, ended, free, shorter⟩ := ih
    refine ⟨by simp [whole], by simpa using ended, fun _ => free not_mem_nil, fun _ => ?_⟩
    have length := congrArg List.length whole
    simp only [length_append, nil_append] at length
    show rest.length < bytes.length + 1
    omega
  | case3 line byte bytes other ih =>
    obtain ⟨whole, ended, free, shorter⟩ := ih
    refine ⟨by simp [whole], ended, fun before => free ?_, fun some => ?_⟩
    · simpa [Ne.symm other] using before
    · exact (shorter some).trans (Nat.lt_succ_self _)

theorem writeLines_append (free : 10 ∉ text) :
    writeLines line (text ++ bytes) = writeLines (line ++ text) bytes := by
  induction text generalizing line with
  | nil => rw [append_nil, nil_append]
  | cons byte text ih =>
    obtain ⟨other, free⟩ := not_or.mp (mt mem_cons.mpr free)
    rw [cons_append, writeLines, if_neg (Ne.symm other), ih free, append_assoc, singleton_append]

/-- Nothing is behind the last line exactly if the bytes end there. -/
theorem writeLines_rest_eq_nil_iff (nonEmpty : bytes ≠ []) :
    (writeLines [] bytes).2 = [] ↔ bytes.getLast? = some 10 := by
  obtain ⟨whole, ended, free, -⟩ := writeLines_spec [] bytes
  rw [nil_append] at whole
  constructor
  · intro nothing
    rw [nothing, append_nil] at whole
    rcases eq_nil_or_concat' (writeLines [] bytes).1 with none | ⟨front, last, split⟩
    · rw [none] at whole
      exact absurd whole.symm nonEmpty
    · rw [← whole, split, flatten_append, flatten_singleton, getLast?_append,
        ended last (by simp [split])]
      rfl
  · intro ends
    by_contra something
    rw [← whole, getLast?_append_of_ne_nil _ something] at ends
    exact free not_mem_nil (mem_of_getLast? ends)

/-- The cache has room, and only what a call has left over can hold lines. -/
structure Cached (cache : List UInt8) : Prop where
  room : cache.length < bufCacheSize
  parts : ∃ text left, cache = text ++ left ∧ 10 ∉ text ∧ left.length < defaultIoCopyBuf

theorem cached_nil : Cached [] := ⟨by decide, [], [], rfl, not_mem_nil, by decide⟩

/-- How much of a chunk goes into the cache, and what the call does then. -/
theorem shimWriteContainerLogFile_some (room : cache.length < bufCacheSize)
    (chunk : { bytes : List UInt8 // bytes.length ≤ defaultIoCopyBuf }) :
    ∃ n, n ≤ chunk.1.length ∧ cache.length + n ≤ bufCacheSize ∧
      (n < chunk.1.length → 0 < n ∧ cache.length + n = bufCacheSize) ∧
      shimWriteContainerLogFile cache (some chunk) =
        let (lines, rest) := writeLines [] (cache ++ chunk.1.take n)
        if lines = [] ∧ (cache ++ chunk.1.take n).length = bufCacheSize then
          ([rest], chunk.1.drop n)
        else (lines, rest ++ chunk.1.drop n) := by
  have given : Buf.bytes (some chunk) = chunk.1 := rfl
  unfold shimWriteContainerLogFile
  rw [given]
  dsimp only
  by_cases beyond : bufCacheSize - cache.length < chunk.1.length
  · refine ⟨bufCacheSize - cache.length, beyond.le, by omega, by omega, ?_⟩
    rw [if_pos beyond, if_pos room, if_neg]
    refine mt (congrArg List.length) ?_
    simp only [length_append, length_take, length_nil]
    omega
  · refine ⟨chunk.1.length, le_rfl, by omega, by omega, ?_⟩
    rw [if_neg beyond, Nat.add_sub_cancel_left, take_length, drop_length, ite_self]
    split
    next empty =>
      rw [empty]
      rfl
    · rfl

/-- A chunk keeps the cache in shape, and no byte is lost or doubled. -/
theorem Cached.write (cached : Cached cache)
    (chunk : { bytes : List UInt8 // bytes.length ≤ defaultIoCopyBuf }) :
    let after := shimWriteContainerLogFile cache (some chunk)
    Cached after.2 ∧ after.1.flatten ++ after.2 = cache ++ chunk.1 ∧
      ∀ record ∈ after.1, record.getLast? = some 10 ∨ record.length = bufCacheSize := by
  obtain ⟨room, text, left, rfl, free, short⟩ := cached
  obtain ⟨n, within, fits, beyond, written⟩ := shimWriteContainerLogFile_some room chunk
  obtain ⟨whole, ended, pure, -⟩ := writeLines_spec [] (text ++ left ++ chunk.1.take n)
  have shorter := (writeLines_spec ([] ++ text) (left ++ chunk.1.take n)).2.2.2
  have small := chunk.2
  have double : bufCacheSize = 2 * defaultIoCopyBuf := rfl
  have behind : (chunk.1.drop n).length < defaultIoCopyBuf := by
    have positive : 0 < defaultIoCopyBuf := by decide
    rw [length_drop]
    omega
  rw [← writeLines_append free, ← append_assoc] at shorter
  rw [written]
  generalize writeLines [] (text ++ left ++ chunk.1.take n) = result at *
  obtain ⟨lines, rest⟩ := result
  have length := congrArg List.length whole
  simp only [length_append, length_take_of_le within, nil_append] at length shorter fits beyond ⊢
  split
  next full =>
    obtain ⟨rfl, full⟩ := full
    refine ⟨⟨behind.trans (by decide), [], _, rfl, not_mem_nil, behind⟩, ?_, ?_⟩
    · rw [show rest = _ from whole]
      simp
    · rw [forall_mem_singleton, ← full]
      exact .inr ((Nat.zero_add _).symm.trans length)
  next other =>
    refine ⟨⟨?_, _, _, rfl, pure not_mem_nil, behind⟩, ?_, fun _ member => .inl (ended _ member)⟩
    · rw [length_append, length_drop]
      by_cases line : lines = []
      · have notFull : text.length + left.length + n ≠ bufCacheSize :=
          fun full => other ⟨line, full⟩
        rw [line, flatten_nil, length_nil] at length
        omega
      · have shorter := shorter line
        omega
    · rw [← append_assoc, whole]
      simp

/-- A flush empties the cache exactly if it does not end with a line. -/
theorem shimWriteContainerLogFile_none (cache : List UInt8) :
    (shimWriteContainerLogFile cache none).1.flatten = cache ∧
      ((shimWriteContainerLogFile cache none).2 = [] ↔ cache.getLast? ≠ some 10) := by
  obtain ⟨whole, -⟩ := writeLines_spec [] cache
  simp only [shimWriteContainerLogFile, Buf.bytes, Option.elim_none, take_nil, append_nil]
  split
  next empty => simp [empty]
  next nonEmpty =>
    rw [ne_eq, ← writeLines_rest_eq_nil_iff nonEmpty]
    split
    next nothing =>
      rw [nothing, append_nil] at whole
      simpa [nothing, nonEmpty] using whole
    next something => simpa [something] using whole

theorem logged_snoc (calls : List Buf) (buf : Buf) :
    logged (calls ++ [buf]) =
      ((logged calls).1 ++ (shimWriteContainerLogFile (logged calls).2 buf).1,
        (shimWriteContainerLogFile (logged calls).2 buf).2) := by
  rw [logged, foldl_append, ← logged]
  rfl

/-- As long as every flush empties the cache, the cache is in shape and holds what is not
written. -/
theorem cached_logged
    (calm : ∀ front, front ++ [none] <+: calls → (logged front).2.getLast? ≠ some 10) :
    Cached (logged calls).2 ∧
      (logged calls).1.flatten ++ (logged calls).2 = calls.flatMap Buf.bytes := by
  induction calls using List.reverseRecOn with
  | nil => exact ⟨cached_nil, rfl⟩
  | append_singleton calls buf ih =>
    obtain ⟨cached, whole⟩ := ih fun front reached => calm front (reached.trans (prefix_append _ _))
    rw [logged_snoc, flatMap_append, flatMap_singleton, ← whole, flatten_append]
    cases buf with
    | none =>
      obtain ⟨written, empties⟩ := shimWriteContainerLogFile_none (logged calls).2
      rw [empties.mpr (calm calls prefix_rfl), written]
      exact ⟨cached_nil, by simp [Buf.bytes]⟩
    | some chunk =>
      obtain ⟨kept, same, -⟩ := cached.write chunk
      exact ⟨kept, by simpa [Buf.bytes] using same⟩

/-- No byte is lost or doubled exactly if no flush finds a cache that ends with a line. -/
theorem keepsBytes_iff (calls : List Buf) :
    KeepsBytes calls ↔
      ∀ front, front ++ [none] <+: calls → (logged front).2.getLast? ≠ some 10 := by
  constructor
  · intro keeps front reached
    have emptied := (keeps front none reached).flushed rfl
    rw [logged_snoc] at emptied
    exact (shimWriteContainerLogFile_none _).2.mp emptied
  · intro calm front buf reached
    have before := cached_logged fun other below =>
      calm other (below.trans ((prefix_append front [buf]).trans reached))
    have after := cached_logged fun other below => calm other (below.trans reached)
    refine ⟨after.2, after.1.room.le, fun record member => ?_, ?_⟩
    · cases buf with
      | none => exact .inr (.inr rfl)
      | some chunk => exact ((before.1.write chunk).2.2 record member).imp_right .inl
    · rintro rfl
      rw [logged_snoc]
      exact (shimWriteContainerLogFile_none _).2.mpr (calm front reached)

theorem writeLines_replicate (count : Nat) :
    writeLines [] (replicate count 97) = ([], replicate count 97) := by
  have free : (10 : UInt8) ∉ replicate count 97 := by simp [mem_replicate]
  have whole := @writeLines_append [] _ [] free
  rwa [append_nil, nil_append] at whole

section Overflow

variable {cached count : Nat} {chunk : { bytes : List UInt8 // bytes.length ≤ defaultIoCopyBuf }}

/-- Characters without a line break stay in the cache until it is full. -/
theorem shimWriteContainerLogFile_plain (plain : chunk.1 = replicate count 97)
    (room : cached + count < bufCacheSize) :
    shimWriteContainerLogFile (replicate cached 97) (some chunk) =
      ([], replicate (cached + count) 97) := by
  have before : (replicate cached (97 : UInt8)).length < bufCacheSize := by
    rw [length_replicate]
    omega
  obtain ⟨n, within, -, beyond, written⟩ := shimWriteContainerLogFile_some before chunk
  rw [plain, length_replicate] at within beyond
  rw [length_replicate] at beyond
  have all : n = count := by
    by_contra differs
    have full := (beyond (by omega)).2
    omega
  rw [written, plain]
  simp [all, writeLines_replicate, Nat.ne_of_lt room]

/-- A character that fills the cache ends a record, and a line break behind it stays. -/
theorem shimWriteContainerLogFile_filling (ending : chunk.1 = [97, 10])
    (room : cached + 1 = bufCacheSize) :
    shimWriteContainerLogFile (replicate cached 97) (some chunk) =
      ([replicate bufCacheSize 97], [10]) := by
  have before : (replicate cached (97 : UInt8)).length < bufCacheSize := by
    rw [length_replicate]
    omega
  obtain ⟨n, within, fits, beyond, written⟩ := shimWriteContainerLogFile_some before chunk
  simp only [ending, length_cons, length_nil, length_replicate] at within fits beyond
  have one : n = 1 := by omega
  have filled : replicate cached (97 : UInt8) ++ chunk.1.take 1 = replicate bufCacheSize 97 := by
    rw [ending, ← room, replicate_succ']
    rfl
  rw [written, one, filled, writeLines_replicate, length_replicate, ending]
  exact if_pos ⟨rfl, rfl⟩

/-- So many characters without a line break. -/
def plainChunk (count : Nat) (short : count ≤ defaultIoCopyBuf) :
    { bytes : List UInt8 // bytes.length ≤ defaultIoCopyBuf } :=
  ⟨replicate count 97, by rwa [length_replicate]⟩

/-- The last of three chunks fills the cache and leaves a line break behind. -/
def overflowing (first second : Nat)
    (short : first ≤ defaultIoCopyBuf ∧ second ≤ defaultIoCopyBuf) :
    List Buf :=
  [some (plainChunk first short.1), some (plainChunk second short.2), some ⟨[97, 10], by decide⟩]

theorem logged_overflowing {first second : Nat}
    (short : first ≤ defaultIoCopyBuf ∧ second ≤ defaultIoCopyBuf)
    (full : first + second + 1 = bufCacheSize) :
    (logged (overflowing first second short)).2 = [10] := by
  have start := @shimWriteContainerLogFile_plain 0 first (plainChunk first short.1) rfl (by omega)
  have next := @shimWriteContainerLogFile_plain first second (plainChunk second short.2) rfl
    (by omega)
  rw [replicate_zero, Nat.zero_add] at start
  simp only [logged, overflowing, foldl_cons, foldl_nil]
  rw [start, next, shimWriteContainerLogFile_filling rfl full]

/-- The flush writes the line break and leaves it in the cache. -/
theorem keepsBytes_fails_overflowing :
    ¬ KeepsBytes (overflowing 16384 16383 (by decide) ++ [none]) := by
  intro keeps
  have emptied := (keeps _ none prefix_rfl).flushed rfl
  rw [logged_snoc, logged_overflowing _ (by decide)] at emptied
  exact (shimWriteContainerLogFile_none [10]).2.mp emptied rfl

end Overflow

end Isulad.Shim
