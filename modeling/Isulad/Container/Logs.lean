import Isulad.Shim.LineCache
import Isulad.Std.Lines

/-!
# The logs of a container

`container_logs_cb` of `execution_stream.c` without following the log. The shim writes one
JSON object a line into the files of `Isulad.Shim.Log`; `do_tail_container_logs` looks for
the place where the last lines begin and sends what it can decode from there on. The files
do not change meanwhile and can be opened, and everything that is sent is taken. The
generated JSON code is a parameter, with what the log depends on as its laws.
-/

namespace Isulad.Container

open Option List Isulad.Std Isulad.Shim

/-- `'\n'`. -/
def newline : UInt8 := 10

/-- `MAXLINE`. -/
def maxLine : Nat := 4096

/-- `logger_json_file`. A field that the text does not have is missing. -/
structure LogEntry where
  log : Option (List UInt8)
  stream : Option (List UInt8)
  time : Option (List UInt8)
  deriving DecidableEq

/-- `STDOUT_STR`. -/
def stdoutStr : List UInt8 := [115, 116, 100, 111, 117, 116]

/-- `STDERR_STR`. -/
def stderrStr : List UInt8 := [115, 116, 100, 101, 114, 114]

/-- What `shim_logger_write` encodes: a piece of a cache, and where and when it was read. -/
def LogEntry.fromShim (entry : LogEntry) : Bool :=
  match entry.log, entry.stream, entry.time with
  | some log, some stream, some _ =>
    decide (0 < log.length ∧ log.length ≤ bufCacheSize) &&
      (stream == stdoutStr || stream == stderrStr)
  | _, _, _ => false

/-- An entry that the shim can write. -/
abbrev ShimRecord := { entry : LogEntry // entry.fromShim = true }

/-- `logger_json_file_generate_json` and `logger_json_file_parse_data`. What is less than the
text of a record may be some other JSON value, but no record. -/
structure LogCodec where
  generate : LogEntry → List UInt8
  parse : List UInt8 → Option LogEntry
  oneLine : ∀ record : ShimRecord, newline ∉ generate record.1
  parse_text : ∀ record : ShimRecord, parse (generate record.1) = some record.1
  parse_line : ∀ record : ShimRecord, parse (generate record.1 ++ [newline]) = some record.1
  parse_blank : parse [newline] = none
  parse_piece : ∀ (record : ShimRecord) (piece : List UInt8) (entry : LogEntry),
    piece <:+: generate record.1 ++ [newline] → piece ≠ generate record.1 →
    piece ≠ generate record.1 ++ [newline] → parse piece = some entry → entry.fromShim = false

namespace LogCodec

variable (codec : LogCodec)

/-- What `shim_logger_write` hands to `shim_json_data_write`. -/
def line (record : ShimRecord) : List UInt8 := codec.generate record.1 ++ [newline]

/-- A file of whole records. -/
def bytes (records : List ShimRecord) : List UInt8 := (records.map codec.line).flatten

/-- The log files, the newest first. -/
def log (files : List (List ShimRecord)) : Log := fun i => files[i]?.map codec.bytes

end LogCodec

open LogCodec

/-- `SECTION_SIZE`. -/
def sectionSize : Nat := 4096

/-- The loop of `do_tail_find` over a section, from its end. -/
def tailFindSection (buffer : List UInt8) (pos requireLine : Nat) : Nat → Nat → Nat × Option Nat
  | 0, getLine => (getLine, none)
  | i + 1, getLine =>
    if buffer[i]? ≠ some newline then tailFindSection buffer pos requireLine i getLine
    else if requireLine < getLine + 1 then (requireLine, some (pos + (i + 1)))
    else tailFindSection buffer pos requireLine i (getLine + 1)

/-- The loop of `do_tail_find` over the sections of a file, from its end. -/
def tailFindSections (bytes : List UInt8) (requireLine pos stepSize getLine : Nat) :
    Nat × Option Nat :=
  let buffer := (bytes.drop pos).take stepSize
  match tailFindSection buffer pos requireLine buffer.length getLine with
  | (getLine, some getPos) => (getLine, some getPos)
  | (getLine, none) =>
    -- a step of no bytes is made at the start of the file only
    if pos = 0 ∨ stepSize = 0 then (getLine, none)
    else if pos < stepSize then tailFindSections bytes requireLine 0 pos getLine
    else tailFindSections bytes requireLine (pos - stepSize) stepSize getLine
termination_by pos

variable (bytes : List UInt8) (codec : LogCodec)

/-- `do_tail_find`: how many lines are counted, and the place where the last of them begin if
there are others before them. -/
def doTailFind (requireLine : Nat) : Nat × Option Nat :=
  if bytes.length < sectionSize then
    tailFindSections bytes requireLine bytes.length bytes.length 0
  else tailFindSections bytes requireLine (bytes.length - sectionSize) sectionSize 0

/-- `util_find_tail_position`; `none` is `ENOENT`. -/
def utilFindTailPosition (file : Option (List UInt8)) (requireLine : Nat) :
    Option (Nat × Option Nat) :=
  file.map fun bytes => doTailFind bytes requireLine

/-- The loop of `do_tail_container_logs` over the rotated files, `rotate` of which are left from
file `i` on: the file and the place in it where to begin. -/
def tailPosition (log : Log) : Nat → Nat → Nat → Nat → Nat × Nat
  | 0, i, _, _ => (i - 1, 0)
  | rotate + 1, i, left, getLine =>
    if left ≤ getLine then (i - 1, 0)
    else
      match utilFindTailPosition (log i) (left - getLine) with
      | none => (i - 1, 0)
      | some (_, some pos) => (i, pos)
      | some (found, none) => tailPosition log rotate (i + 1) (left - getLine) found

/-- `MAX_JSON_DECODE_RETRY`. -/
def maxJsonDecodeRetry : Nat := 20

/-- The loop of `do_read_log_file` over what `fgets` gives: the entries that are sent, and how
many; `none` is the return value -1. -/
def decodeWriteLogEntries (codec : LogCodec) (requireLine : Int) :
    List (List UInt8) → Nat → Nat → List LogEntry × Option Nat
  | [], readLines, _ => ([], some readLines)
  | buffer :: buffers, readLines, decodeRetries =>
    match codec.parse buffer with
    | none =>
      if decodeRetries + 1 < maxJsonDecodeRetry then
        decodeWriteLogEntries codec requireLine buffers readLines (decodeRetries + 1)
      else ([], none)
    | some entry =>
      if (readLines + 1 : Int) = requireLine then ([entry], some (readLines + 1))
      else
        let rest := decodeWriteLogEntries codec requireLine buffers (readLines + 1) 0
        (entry :: rest.1, rest.2)

/-- `do_read_log_file`. -/
def doReadLogFile (file : Option (List UInt8)) (requireLine : Int) (pos : Nat) :
    List LogEntry × Option Nat :=
  match file with
  | none => ([], none)
  | some bytes =>
    decodeWriteLogEntries codec requireLine (readLines newline (maxLine - 1) (bytes.drop pos)) 0 0

/-- `do_read_all_container_logs` from file `i` down to the log itself. When a file could not be
read to its end, `enoent` says whether `errno` is `ENOENT`, which a failure to decode leaves as
it was; the next file is then read from the same place. -/
def doReadAllContainerLogs (codec : LogCodec) (enoent : Nat → Bool) (log : Log)
    (requireLine : Int) :
    Nat → Int → Nat → List LogEntry × Bool
  | 0, left, pos =>
    let read := doReadLogFile codec (log 0) left pos
    (read.1, read.2.isSome)
  | i + 1, left, pos =>
    match doReadLogFile codec (log (i + 1)) left pos with
    | (sent, none) =>
      if (log (i + 1)).isNone || enoent (i + 1) then
        let rest := doReadAllContainerLogs codec enoent log requireLine i left pos
        (sent ++ rest.1, rest.2)
      else (sent, false)
    | (sent, some readLines) =>
      let left := if requireLine < 0 then left else left - readLines
      if 0 ≤ requireLine ∧ left ≤ 0 then (sent, true)
      else
        let rest := doReadAllContainerLogs codec enoent log requireLine i left 0
        (sent ++ rest.1, rest.2)

/-- The loop of `do_show_all_logs`: the oldest file there is. -/
def oldestFile (log : Log) : Nat → Nat
  | 0 => 0
  | i + 1 => if (log (i + 1)).isSome then i + 1 else oldestFile log i

/-- `do_show_all_logs`. -/
def doShowAllLogs (enoent : Nat → Bool) (config : LogConfig) (log : Log) : List LogEntry × Bool :=
  doReadAllContainerLogs codec enoent log (-1) (oldestFile log (config.maxfile - 1)) (-1) 0

/-- `do_tail_container_logs`: the entries that are sent, and whether it succeeds. -/
def doTailContainerLogs (enoent : Nat → Bool) (config : LogConfig) (log : Log) (requireLine : Int) :
    List LogEntry × Bool :=
  if requireLine < 0 then doShowAllLogs codec enoent config log
  else if requireLine = 0 then ([], true)
  else
    match utilFindTailPosition (log 0) requireLine.toNat with
    | none => ([], false)
    | some (_, some pos) =>
      let read := doReadLogFile codec (log 0) requireLine pos
      (read.1, read.2.isSome)
    | some (getLine, none) =>
      let start := tailPosition log (config.maxfile - 1) 1 requireLine.toNat getLine
      doReadAllContainerLogs codec enoent log requireLine start.1 requireLine start.2

section Finding

variable {codec : LogCodec} {bytes : List UInt8} {requireLine i : Nat}

/-- Looking through a section is part of looking through the file. -/
theorem scanBack_section (pos stepSize : Nat) (within : i ≤ ((bytes.drop pos).take stepSize).length)
    (getLine : Nat) :
    scanBack newline bytes requireLine (pos + i) getLine =
      match tailFindSection ((bytes.drop pos).take stepSize) pos requireLine i getLine with
      | (getLine, some getPos) => (getLine, some getPos)
      | (getLine, none) => scanBack newline bytes requireLine pos getLine := by
  induction i generalizing getLine with
  | zero => rfl
  | succ i ih =>
    have here : ((bytes.drop pos).take stepSize)[i]? = bytes[pos + i]? := by
      rw [getElem?_take_of_lt (by simp at within; omega), getElem?_drop]
    rw [← add_assoc, scanBack, tailFindSection, here]
    split
    · exact ih (by omega) getLine
    split
    · rfl
    · exact ih (by omega) (getLine + 1)

/-- The sections of a file are looked through from its end to its start. -/
theorem tailFindSections_eq {pos stepSize : Nat} (within : pos ≤ bytes.length)
    (moves : pos = 0 ∨ 0 < stepSize) (getLine : Nat) :
    tailFindSections bytes requireLine pos stepSize getLine =
      scanBack newline bytes requireLine (pos + ((bytes.drop pos).take stepSize).length)
        getLine := by
  induction pos using Nat.strong_induction_on generalizing stepSize getLine with
  | h pos ih =>
    rw [scanBack_section pos stepSize le_rfl, tailFindSections]
    generalize tailFindSection ((bytes.drop pos).take stepSize) pos requireLine
      ((bytes.drop pos).take stepSize).length getLine = found
    obtain ⟨count, _ | getPos⟩ := found
    · dsimp only
      by_cases start : pos = 0
      · rw [if_pos (.inl start), start]
        rfl
      · have positive : 0 < stepSize := moves.resolve_left start
        rw [if_neg (by omega)]
        split
        · have length : ((bytes.drop 0).take pos).length = pos := by
            simp
            omega
          rw [ih 0 (by omega) (by omega) (.inl rfl), length, zero_add]
        · have length : ((bytes.drop (pos - stepSize)).take stepSize).length = stepSize := by
            simp
            omega
          rw [ih (pos - stepSize) (by omega) (by omega) (.inr positive), length,
            Nat.sub_add_cancel (by omega)]
    · rfl

theorem doTailFind_eq (bytes : List UInt8) (requireLine : Nat) :
    doTailFind bytes requireLine = scanBack newline bytes requireLine bytes.length 0 := by
  unfold doTailFind
  split
  · rw [tailFindSections_eq le_rfl (by omega)]
    simp
  have length : ((bytes.drop (bytes.length - sectionSize)).take sectionSize).length =
      sectionSize := by
    simp
    omega
  rw [tailFindSections_eq (by omega) (.inr (by decide)), length, Nat.sub_add_cancel (by omega)]

end Finding

section Decoding

variable (codec : LogCodec) (record : ShimRecord)

/-- The text of the record fits into the buffer of `do_read_log_file`. -/
def LogCodec.fits : Bool :=
  decide ((codec.generate record.1).length < maxLine)

/-- How many records are decoded from what `fgets` gives for a stream. -/
def LogCodec.decoded (stream : List UInt8) : Nat :=
  ((readLines newline (maxLine - 1) stream).filterMap codec.parse).countP LogEntry.fromShim

theorem LogCodec.bytes_cons (records : List ShimRecord) :
    codec.bytes (record :: records) =
      codec.generate record.1 ++ newline :: codec.bytes records := by
  simp [bytes, line]

theorem LogCodec.bytes_drop (records : List ShimRecord) (k : Nat) :
    (codec.bytes records).drop (codec.bytes (records.take k)).length =
      codec.bytes (records.drop k) := by
  have split : codec.bytes records = codec.bytes (records.take k) ++
      codec.bytes (records.drop k) := by
    rw [bytes, bytes, bytes, ← flatten_append, ← map_append,
      take_append_drop]
  rw [split, drop_left]

variable {codec}

/-- No entry is sent that has not been decoded. -/
theorem countP_decodeWriteLogEntries (requireLine : Int) (buffers : List (List UInt8))
    (readLines decodeRetries : Nat) :
    (decodeWriteLogEntries codec requireLine buffers readLines decodeRetries).1.countP
        LogEntry.fromShim ≤ (buffers.filterMap codec.parse).countP LogEntry.fromShim := by
  induction buffers generalizing readLines decodeRetries with
  | nil => simp [decodeWriteLogEntries]
  | cons buffer buffers ih =>
    rw [decodeWriteLogEntries]
    cases parsed : codec.parse buffer with
    | none =>
      rw [filterMap_cons_none parsed]
      dsimp only
      split
      · exact ih readLines (decodeRetries + 1)
      · simp
    | some entry =>
      rw [filterMap_cons_some parsed]
      dsimp only
      split
      · rw [countP_cons, countP_cons]
        simp
      rw [countP_cons, countP_cons]
      exact Nat.add_le_add_right (ih (readLines + 1) 0) _

/-- A record that fits is given with its newline, or without it and the newline after it. -/
theorem readLines_of_fits {record : ShimRecord} (fits : codec.fits record = true) :
    readLines newline (maxLine - 1) (codec.generate record.1 ++ [newline]) =
        [codec.generate record.1 ++ [newline]] ∨
      readLines newline (maxLine - 1) (codec.generate record.1 ++ [newline]) =
        [codec.generate record.1, [newline]] := by
  have short : (codec.generate record.1).length < maxLine := by simpa [LogCodec.fits] using fits
  by_cases whole : (codec.generate record.1).length < maxLine - 1
  · exact .inl (readLines_line (codec.oneLine record) whole)
  · exact .inr (readLines_line_of_eq (by decide) (codec.oneLine record) (by omega))

/-- From a piece of a line a record is decoded only if it is the whole line and fits. -/
theorem decoded_line {pos : Nat} (within : pos ≤ (codec.generate record.1).length) :
    codec.decoded ((codec.generate record.1).drop pos ++ [newline]) ≤
      if codec.fits record then 1 else 0 := by
  unfold decoded
  by_cases whole : pos = 0 ∧ codec.fits record = true
  · obtain ⟨rfl, fits⟩ := whole
    rw [drop_zero, if_pos fits]
    rcases readLines_of_fits fits with given | given <;>
    · rw [given]
      simp [codec.parse_line, codec.parse_text, codec.parse_blank, record.2]
  · have none : ((readLines newline (maxLine - 1) ((codec.generate record.1).drop pos ++
        [newline])).filterMap codec.parse).countP LogEntry.fromShim = 0 := by
      rw [countP_eq_zero]
      intro entry member
      obtain ⟨buffer, given, parsed⟩ := mem_filterMap.mp member
      have room := length_of_mem_readLines _ given
      have inside : buffer <:+: (codec.generate record.1).drop pos ++ [newline] := by
        have part := infix_of_mem_flatten given
        rwa [flatten_readLines (by decide)] at part
      have line : buffer <:+: codec.generate record.1 ++ [newline] := by
        refine inside.trans (List.IsSuffix.isInfix ⟨(codec.generate record.1).take pos, ?_⟩)
        rw [← append_assoc, take_append_drop]
      have size : buffer.length + pos ≤ (codec.generate record.1).length + 1 := by
        have length := inside.length_le
        simp at length
        omega
      have long : pos = 0 → maxLine ≤ (codec.generate record.1).length := by
        intro start
        simpa [fits, start] using whole
      have notLine : buffer ≠ codec.generate record.1 ++ [newline] := by
        rintro rfl
        rw [length_append, length_singleton] at size room
        omega
      have notText : buffer ≠ codec.generate record.1 := by
        rintro rfl
        have start : pos ≠ 0 := fun start => by
          have := long start
          simp [maxLine] at this room
          omega
        -- only the rest of the line behind its first byte is as long, and it has the newline
        have same := inside.eq_of_length (by simp; omega)
        exact codec.oneLine record (same ▸ by simp)
      simpa using codec.parse_piece record buffer entry line notText notLine parsed
    rw [none]
    exact Nat.zero_le _

/-- Wherever reading begins in a file, at most the records that fit are decoded. -/
theorem decoded_bytes_drop (records : List ShimRecord) (pos : Nat) :
    codec.decoded ((codec.bytes records).drop pos) ≤ records.countP codec.fits := by
  induction records generalizing pos with
  | nil => simp [decoded, bytes]
  | cons record records ih =>
    rw [bytes_cons, countP_cons]
    by_cases within : pos ≤ (codec.generate record.1).length
    · have inner : newline ∉ (codec.generate record.1).drop pos := fun member =>
        codec.oneLine record (mem_of_mem_drop member)
      have here := decoded_line record within
      have behind := ih 0
      rw [drop_append_of_le_length within]
      unfold decoded at *
      rw [readLines_line_append (by decide) inner, filterMap_append, countP_append]
      rw [drop_zero] at behind
      omega
    · have beyond : (codec.generate record.1 ++ newline :: codec.bytes records).drop pos =
          (codec.bytes records).drop (pos - (codec.generate record.1).length - 1) := by
        rw [drop_append, drop_of_length_le (by omega), nil_append]
        obtain ⟨more, amount⟩ : ∃ more, pos - (codec.generate record.1).length = more + 1 :=
          ⟨pos - (codec.generate record.1).length - 1, by omega⟩
        rw [amount, drop_succ_cons, Nat.add_sub_cancel]
      rw [beyond]
      exact (ih _).trans (Nat.le_add_right _ _)

/-- Records that fit are all sent, if that many are wanted. -/
theorem decodeWriteLogEntries_bytes {requireLine : Int} {records : List ShimRecord}
    (fits : ∀ record ∈ records, codec.fits record = true) {count decodeRetries : Nat}
    (retries : decodeRetries ≤ 1)
    (wanted : requireLine < 0 ∨ ((count + records.length : Nat) : Int) ≤ requireLine) :
    decodeWriteLogEntries codec requireLine (readLines newline (maxLine - 1) (codec.bytes records))
        count decodeRetries = (records.map Subtype.val, some (count + records.length)) := by
  induction records generalizing count decodeRetries with
  | nil => simp [bytes, decodeWriteLogEntries]
  | cons record records ih =>
    obtain ⟨here, tail⟩ := forall_mem_cons.mp fits
    -- the record is sent, and the newline alone is passed over
    have onward (buffers : List (List UInt8)) (decodeRetries : Nat)
        (passed : decodeWriteLogEntries codec requireLine buffers (count + 1) 0 =
          (records.map Subtype.val, some (count + 1 + records.length)))
        {buffer : List UInt8} (parsed : codec.parse buffer = some record.1) :
        decodeWriteLogEntries codec requireLine (buffer :: buffers) count decodeRetries =
          ((record :: records).map Subtype.val, some (count + (record :: records).length)) := by
      rw [decodeWriteLogEntries, parsed]
      dsimp only
      split
      next last =>
        have : records = [] := by
          rw [← length_eq_zero_iff]
          simp at wanted
          omega
        subst this
        rfl
      · rw [passed]
        simp [add_assoc, add_comm 1]
    have wantedTail : requireLine < 0 ∨
        ((count + 1 + records.length : Nat) : Int) ≤ requireLine := by
      simp at wanted
      omega
    rw [bytes_cons, readLines_line_append (by decide) (codec.oneLine record)]
    rcases readLines_of_fits here with line | text
    · rw [line]
      exact onward _ _ (ih tail (Nat.zero_le 1) wantedTail) (codec.parse_line record)
    · rw [text]
      refine onward ([newline] :: readLines newline (maxLine - 1) (codec.bytes records)) _ ?_
        (codec.parse_text record)
      rw [decodeWriteLogEntries, codec.parse_blank]
      exact ih tail le_rfl wantedTail

end Decoding

section Files

variable {codec : LogCodec} {enoent : Nat → Bool} {files : List (List ShimRecord)}
  {file : List ShimRecord} {i k : Nat} {requireLine left : Int}

/-- The records of the files below `i`, the oldest first. -/
def recordsBelow (files : List (List ShimRecord)) (i : Nat) : List ShimRecord :=
  (files.take i).reverse.flatten

theorem recordsBelow_succ (there : files[i]? = some file) :
    recordsBelow files (i + 1) = file ++ recordsBelow files i := by
  rw [recordsBelow, take_add_one, there]
  simp [recordsBelow]

theorem LogCodec.log_eq (there : files[i]? = some file) :
    codec.log files i = some (codec.bytes file) := by
  rw [log, there, map_some]

theorem exists_newer (there : files[i + 1]? = some file) :
    ∃ newer, files[i]? = some newer := by
  have inside : i < files.length := Nat.lt_of_succ_lt (List.getElem?_eq_some_iff.mp there).1
  exact ⟨files[i], getElem?_eq_getElem inside⟩

theorem doReadLogFile_bytes (fits : ∀ record ∈ file.drop k, codec.fits record = true)
    (wanted : requireLine < 0 ∨ ((file.drop k).length : Int) ≤ requireLine) :
    doReadLogFile codec (some (codec.bytes file)) requireLine (codec.bytes (file.take k)).length =
      ((file.drop k).map Subtype.val, some (file.drop k).length) := by
  rw [doReadLogFile, codec.bytes_drop, decodeWriteLogEntries_bytes fits (Nat.zero_le 1)
    (by simpa using wanted), Nat.zero_add]

/-- From file `i` on, no more records are sent than fit. -/
theorem countP_doReadAllContainerLogs (enoent : Nat → Bool) (requireLine : Int)
    (there : files[i]? = some file) (left : Int) (pos : Nat) :
    (doReadAllContainerLogs codec enoent (codec.log files) requireLine i left pos).1.countP
        LogEntry.fromShim ≤
      codec.decoded ((codec.bytes file).drop pos) + (recordsBelow files i).countP codec.fits := by
  induction i generalizing file left pos with
  | zero =>
    rw [doReadAllContainerLogs, log_eq there]
    exact (countP_decodeWriteLogEntries ..).trans (Nat.le_add_right _ _)
  | succ i ih =>
    obtain ⟨next, nextThere⟩ := exists_newer there
    -- the next file is read from some place, and has no more records than it has
    have rest :
        ∀ left pos, (doReadAllContainerLogs codec enoent (codec.log files) requireLine i left
        pos).1.countP LogEntry.fromShim ≤ (recordsBelow files (i + 1)).countP codec.fits := by
      intro left pos
      rw [recordsBelow_succ nextThere, countP_append]
      exact (ih nextThere left pos).trans
        (Nat.add_le_add_right (decoded_bytes_drop next pos) _)
    have here : (doReadLogFile codec (some (codec.bytes file)) left pos).1.countP
        LogEntry.fromShim ≤ codec.decoded ((codec.bytes file).drop pos) :=
      countP_decodeWriteLogEntries ..
    rw [doReadAllContainerLogs, log_eq there]
    generalize doReadLogFile codec (some (codec.bytes file)) left pos = read at *
    obtain ⟨sent, _ | count⟩ := read
    · dsimp only at here ⊢
      split
      · rw [countP_append]
        exact Nat.add_le_add here (rest left pos)
      · exact here.trans (Nat.le_add_right _ _)
    · dsimp only at here ⊢
      generalize (if requireLine < 0 then left else left - count) = leftNow
      split
      · exact here.trans (Nat.le_add_right _ _)
      rw [countP_append]
      exact Nat.add_le_add here (rest leftNow 0)

/-- From a record of file `i` on, records that fit are all sent, if that many are wanted. -/
theorem doReadAllContainerLogs_bytes (there : files[i]? = some file)
    (fits : ∀ record ∈ file.drop k ++ recordsBelow files i, codec.fits record = true)
    (wanted : requireLine < 0 ∧ left < 0 ∨ 0 ≤ requireLine ∧ ((file.drop k ++ recordsBelow files
      i).length : Int) ≤ left) :
    (doReadAllContainerLogs codec enoent (codec.log files) requireLine i left
      (codec.bytes (file.take k)).length).1 =
        (file.drop k ++ recordsBelow files i).map Subtype.val := by
  rw [length_append] at wanted
  have read :
      doReadLogFile codec (some (codec.bytes file)) left (codec.bytes (file.take k)).length =
      ((file.drop k).map Subtype.val, some (file.drop k).length) :=
    doReadLogFile_bytes (fun record member => fits record (mem_append_left _ member)) (by omega)
  induction i generalizing file k left with
  | zero =>
    rw [doReadAllContainerLogs, log_eq there, read]
    simp [recordsBelow]
  | succ i ih =>
    obtain ⟨next, nextThere⟩ := exists_newer there
    have below := recordsBelow_succ nextThere
    have fitsBelow : ∀ record ∈ next.drop 0 ++ recordsBelow files i, codec.fits record = true := by
      intro record member
      exact fits record (mem_append_right _ (below ▸ member))
    rw [doReadAllContainerLogs, log_eq there, read]
    dsimp only
    generalize leftIs : (if requireLine < 0 then left else left - (file.drop k).length) = leftNow
    have wantedBelow : requireLine < 0 ∧ leftNow < 0 ∨ 0 ≤ requireLine ∧
        ((next.drop 0).length + (recordsBelow files i).length : Nat) ≤ leftNow := by
      rw [below, length_append] at wanted
      rw [drop_zero, ← leftIs]
      split <;> omega
    split
    next enough =>
      have none : recordsBelow files (i + 1) = [] := by
        rw [← length_eq_zero_iff, below, length_append]
        rw [drop_zero] at wantedBelow
        omega
      rw [none, append_nil]
    · have rest := ih nextThere fitsBelow wantedBelow (doReadLogFile_bytes
        (fun record member => fitsBelow record (mem_append_left _ member)) (by omega))
      simp only [take_zero, bytes, map_nil, flatten_nil, length_nil,
        drop_zero] at rest
      rw [rest, ← below, ← map_append]

variable {n : Nat} {α : Type}

theorem recordsBelow_add (files : List (List ShimRecord)) (i more : Nat) :
    ∃ older, recordsBelow files (i + more) = older ++ recordsBelow files i := by
  refine ⟨((files.drop i).take more).reverse.flatten, ?_⟩
  rw [recordsBelow, take_add, reverse_append, flatten_append, recordsBelow]

theorem rtake_append (first : List α) {second : List α} (length : second.length = n) :
    (first ++ second).rtake n = second := by
  rw [rtake, length_append, length, Nat.add_sub_cancel, drop_left]

theorem rtake_of_length_le {list : List α} (short : list.length ≤ n) : list.rtake n = list := by
  rw [rtake, Nat.sub_eq_zero_of_le short, drop_zero]

/-- The place to begin is that of a record, and from there on there are these records. -/
def BeginsAt (codec : LogCodec) (files : List (List ShimRecord)) (wanted : List ShimRecord)
    (start : Nat × Nat) : Prop :=
  ∃ file k, files[start.1]? = some file ∧ start.2 = (codec.bytes (file.take k)).length ∧
    file.drop k ++ recordsBelow files start.1 = wanted

theorem beginsAt_file (there : files[i]? = some file) :
    BeginsAt codec files (recordsBelow files (i + 1)) (i, 0) :=
  ⟨file, 0, there, by simp [bytes], by rw [recordsBelow_succ there, drop_zero]⟩

section

variable (codec : LogCodec)

theorem utilFindTailPosition_eq (files : List (List ShimRecord)) (i requireLine : Nat) :
    utilFindTailPosition (codec.log files i) requireLine =
      files[i]?.map fun file =>
        if file.length ≤ requireLine then (file.length, none)
        else (requireLine, some (codec.bytes (file.take (file.length - requireLine))).length) := by
  rw [utilFindTailPosition, log, Option.map_map]
  congr 1
  funext records
  have shape : ∀ line ∈ records.map codec.line, ∃ text, newline ∉ text ∧ line = text ++
      [newline] := by
    intro line member
    obtain ⟨record, -, rfl⟩ := mem_map.mp member
    exact ⟨_, codec.oneLine record, rfl⟩
  have found := scanBack_lines shape (Nat.zero_le requireLine)
  rw [Function.comp_apply, doTailFind_eq, bytes, found, bytes, map_take]
  simp

/-- The last `n` records begin in a file when it has more than those in front of it leave. -/
theorem beginsAt_within (more : Nat) {left : Nat} (there : files[i]? = some file)
    (counted : (recordsBelow files i).length + left = n) (within : left ≤ file.length) :
    BeginsAt codec files ((recordsBelow files (i + 1 + more)).rtake n)
      (i, (codec.bytes (file.take (file.length - left))).length) := by
  obtain ⟨older, whole⟩ := recordsBelow_add files (i + 1) more
  refine ⟨file, file.length - left, there, rfl, ?_⟩
  rw [whole, recordsBelow_succ there]
  conv_rhs => rw [← take_append_drop (file.length - left) file]
  rw [append_assoc, ← append_assoc older, rtake_append]
  rw [length_append, length_drop]
  omega

theorem recordsBelow_of_none (next : files[i]? = none) (more : Nat) :
    recordsBelow files (i + more) = recordsBelow files i := by
  have short := getElem?_eq_none_iff.mp next
  rw [recordsBelow, recordsBelow, take_of_length_le short, take_of_length_le (by omega)]

/-- The loop over the rotated files begins at the last `n` records of those that it may open. -/
theorem beginsAt_tailPosition (rotate i : Nat) {newest : List ShimRecord}
    {left : Nat} (there : files[i]? = some newest)
    (counted : (recordsBelow files i).length + left = n) (more : newest.length ≤ left) :
    BeginsAt codec files ((recordsBelow files (i + 1 + rotate)).rtake n)
      (tailPosition (codec.log files) rotate (i + 1) left newest.length) := by
  have below := recordsBelow_succ there
  have length :
      (recordsBelow files (i + 1)).length = newest.length + (recordsBelow files i).length := by
    rw [below, length_append]
  induction rotate generalizing i newest left with
  | zero =>
    rw [tailPosition, add_zero, rtake_of_length_le (by omega)]
    exact beginsAt_file there
  | succ rotate ih =>
    obtain ⟨older, all⟩ := recordsBelow_add files (i + 1) (rotate + 1)
    rw [tailPosition]
    split
    · rw [all, rtake_append older (by omega)]
      exact beginsAt_file there
    rw [utilFindTailPosition_eq]
    cases next : files[i + 1]? with
    | none =>
      rw [recordsBelow_of_none next, rtake_of_length_le (by omega)]
      exact beginsAt_file there
    | some file =>
      have nextBelow := recordsBelow_succ next
      rw [map_some]
      rw [← Nat.add_assoc, Nat.add_right_comm]
      have rest : (recordsBelow files (i + 1)).length + (left - newest.length) = n := by omega
      by_cases small : file.length ≤ left - newest.length
      · rw [if_pos small]
        exact ih (i + 1) next rest small nextBelow (by rw [nextBelow, length_append])
      · rw [if_neg small]
        exact beginsAt_within codec rotate next rest (by omega)

/-- `do_show_all_logs` begins at the oldest file that it may open. -/
theorem beginsAt_oldestFile (filesThere : files ≠ []) (i : Nat) :
    BeginsAt codec files (recordsBelow files (i + 1)) (oldestFile (codec.log files) i, 0) := by
  induction i with
  | zero =>
    obtain ⟨newest, older, rfl⟩ := exists_cons_of_ne_nil filesThere
    exact beginsAt_file rfl
  | succ i ih =>
    rw [oldestFile]
    cases next : files[i + 1]? with
    | none =>
      rw [if_neg (by simp [log, next]), recordsBelow_of_none next]
      exact ih
    | some file =>
      rw [if_pos (by simp [log, next])]
      exact beginsAt_file next

end

end Files

section Requests

variable {codec : LogCodec} {config : LogConfig} {files : List (List ShimRecord)} {n : Int}

/-- The records that a request is about: the last `n`, or all. -/
def requested (records : List ShimRecord) (n : Int) : List ShimRecord :=
  if n < 0 then records else records.rtake n.toNat

/-- A request for the last `n` records is answered with them, in their order. -/
def SendsTail (codec : LogCodec) (config : LogConfig) (files : List (List ShimRecord)) (n : Int) :
    Prop :=
  ∀ enoent, (doTailContainerLogs codec enoent config (codec.log files) n).1 =
    (requested files.reverse.flatten n).map Subtype.val

theorem requested_append (first second : List ShimRecord) (n : Int) :
    ∃ front, requested (first ++ second) n = front ++ requested second n := by
  unfold requested
  split
  · exact ⟨first, rfl⟩
  refine ⟨first.drop ((first ++ second).length - n.toNat), ?_⟩
  rw [rtake, rtake, drop_append]
  congr 2
  rw [length_append]
  omega

theorem length_requested_le (records : List ShimRecord) (n : Int) :
    (requested records n).length ≤ records.length := by
  unfold requested
  split
  · exact le_rfl
  rw [rtake, length_drop]
  exact Nat.sub_le _ _

/-- Records that are enough for a request are enough for it among others. -/
theorem length_requested_append_le {first second : List ShimRecord}
    (enough : (requested (first ++ second) n).length ≤ second.length) :
    (requested (first ++ second) n).length ≤ (requested second n).length := by
  unfold requested at *
  split
  next all => simpa [all] using enough
  rename_i last
  rw [if_neg last] at enough
  rw [rtake, length_drop, length_append] at enough ⊢
  rw [rtake, length_drop]
  omega

/-- Every request is answered by reading on from the first record of those that are asked for
among the files that may be opened. -/
theorem doTailContainerLogs_eq (codec : LogCodec) (config : LogConfig) (filesThere : files ≠ [])
    (someLines : n ≠ 0) :
    ∃ start requireLine left,
      BeginsAt codec files (requested (recordsBelow files config.maxfile) n) start ∧
      (∀ enoent, doTailContainerLogs codec enoent config (codec.log files) n =
        doReadAllContainerLogs codec enoent (codec.log files) requireLine start.1 left start.2) ∧
      (requireLine < 0 ∧ left < 0 ∨ 0 ≤ requireLine ∧
        ((requested (recordsBelow files config.maxfile) n).length : Int) ≤ left) := by
  have positive := config.maxfile_pos
  have bound : config.maxfile - 1 + 1 = config.maxfile := Nat.sub_add_cancel positive
  by_cases all : n < 0
  · have start := beginsAt_oldestFile codec filesThere (config.maxfile - 1)
    rw [bound] at start
    rw [requested, if_pos all]
    refine ⟨_, -1, -1, start, fun enoent => ?_, .inl (by decide)⟩
    rw [doTailContainerLogs, if_pos all, doShowAllLogs]
  · obtain ⟨newest, older, rfl⟩ := exists_cons_of_ne_nil filesThere
    have region : requested (recordsBelow (newest :: older) config.maxfile) n =
        (recordsBelow (newest :: older) config.maxfile).rtake n.toNat := if_neg all
    have length :
        (((recordsBelow (newest :: older) config.maxfile).rtake n.toNat).length : Int) ≤ n := by
      rw [rtake, length_drop]
      omega
    have found := utilFindTailPosition_eq codec (newest :: older) 0 n.toNat
    rw [getElem?_cons_zero, map_some] at found
    have noneBelow : (recordsBelow (newest :: older) 0).length + n.toNat = n.toNat := by
      simp [recordsBelow]
    rw [region]
    by_cases small : newest.length ≤ n.toNat
    · have start := beginsAt_tailPosition codec (config.maxfile - 1) 0 rfl noneBelow small
      rw [zero_add, add_comm 1, bound] at start
      refine ⟨_, n, n, start, fun enoent => ?_, .inr ⟨by omega, length⟩⟩
      rw [doTailContainerLogs, if_neg all, if_neg someLines, found, if_pos small]
    · have start := beginsAt_within codec (config.maxfile - 1) rfl noneBelow (by omega)
      rw [zero_add, add_comm 1, bound] at start
      refine ⟨_, n, n, start, fun enoent => ?_, .inr ⟨by omega, length⟩⟩
      rw [doTailContainerLogs, if_neg all, if_neg someLines, found, if_neg small]
      rfl

/-- The files that may be opened have the newest records. -/
theorem flatten_eq_append (files : List (List ShimRecord)) (maxfile : Nat) :
    ∃ older, files.reverse.flatten = older ++ recordsBelow files maxfile := by
  refine ⟨(files.drop maxfile).reverse.flatten, ?_⟩
  rw [recordsBelow, ← flatten_append, ← reverse_append, take_append_drop]

/-- A request is answered when its records fit and are in the files that may be opened. -/
theorem sendsTail_of_fits (filesThere : files ≠ [])
    (fits : ∀ record ∈ requested files.reverse.flatten n, codec.fits record = true)
    (within : (requested files.reverse.flatten n).length ≤
      (recordsBelow files config.maxfile).length) :
    SendsTail codec config files n := by
  intro enoent
  by_cases none : n = 0
  · simp [none, doTailContainerLogs, requested]
  obtain ⟨older, all⟩ := flatten_eq_append files config.maxfile
  rw [all] at fits within ⊢
  obtain ⟨front, parts⟩ := requested_append older (recordsBelow files config.maxfile) n
  have enough := length_requested_append_le within
  rw [parts, length_append] at enough
  have empty : front = [] := length_eq_zero_iff.mp (by omega)
  rw [empty, nil_append] at parts
  rw [parts] at fits ⊢
  obtain ⟨start, requireLine, left, ⟨file, k, there, place, region⟩, same, wanted⟩ :=
    doTailContainerLogs_eq codec config filesThere none
  rw [same, place, ← region]
  rw [← region] at fits wanted
  exact doReadAllContainerLogs_bytes there fits wanted

/-- A request is answered only then. -/
theorem fits_of_sendsTail (filesThere : files ≠ []) (sends : SendsTail codec config files n) :
    (∀ record ∈ requested files.reverse.flatten n, codec.fits record = true) ∧
      (requested files.reverse.flatten n).length ≤ (recordsBelow files config.maxfile).length := by
  by_cases none : n = 0
  · simp [none, requested]
  obtain ⟨older, all⟩ := flatten_eq_append files config.maxfile
  obtain ⟨front, parts⟩ := requested_append older (recordsBelow files config.maxfile) n
  obtain ⟨start, requireLine, left, ⟨file, k, there, place, region⟩, same, -⟩ :=
    doTailContainerLogs_eq codec config filesThere none
  have sent := sends fun _ => false
  have bound : (doReadAllContainerLogs codec (fun _ => false) (codec.log files) requireLine start.1
      left start.2).1.countP LogEntry.fromShim ≤ codec.decoded ((codec.bytes file).drop start.2) +
        (recordsBelow files start.1).countP codec.fits :=
    countP_doReadAllContainerLogs _ requireLine there left start.2
  rw [← same, sent, place, codec.bytes_drop] at bound
  have shim : ((requested files.reverse.flatten n).map Subtype.val).countP LogEntry.fromShim =
      (requested files.reverse.flatten n).length := by
    rw [countP_map, countP_eq_length]
    exact fun record _ => record.2
  have decoded : codec.decoded (codec.bytes (file.drop k)) ≤ (file.drop k).countP codec.fits :=
    decoded_bytes_drop (file.drop k) 0
  rw [shim, all, parts, length_append] at bound
  have fitting : (requested (recordsBelow files config.maxfile) n).countP codec.fits =
      (file.drop k).countP codec.fits + (recordsBelow files start.1).countP codec.fits := by
    rw [← region, countP_append]
  have most := countP_le_length (p := codec.fits)
    (l := requested (recordsBelow files config.maxfile) n)
  have empty : front = [] := length_eq_zero_iff.mp (by omega)
  rw [all, parts, empty, nil_append]
  exact ⟨countP_eq_length.mp (by omega), length_requested_le _ n⟩

/-- A request for the last `n` records, or for all, is answered with exactly them if and only if
the text of each of them fits into the line buffer, and they are all in the files that the log
configuration allows for. -/
theorem sendsTail_iff (codec : LogCodec) (config : LogConfig) (newest : List ShimRecord)
    (older : List (List ShimRecord)) (n : Int) :
    SendsTail codec config (newest :: older) n ↔
      (∀ record ∈ requested (newest :: older).reverse.flatten n,
        (codec.generate record.1).length < maxLine) ∧
      (requested (newest :: older).reverse.flatten n).length ≤
        ((newest :: older).take config.maxfile).flatten.length := by
  have size : ((newest :: older).take config.maxfile).flatten.length =
      (recordsBelow (newest :: older) config.maxfile).length := by
    simp [recordsBelow]
  rw [size]
  constructor
  · intro sends
    obtain ⟨fits, within⟩ := fits_of_sendsTail (by simp) sends
    exact ⟨fun record member => by simpa [LogCodec.fits] using fits record member, within⟩
  · rintro ⟨fits, within⟩
    exact sendsTail_of_fits (by simp)
      (fun record member => by simpa [LogCodec.fits] using fits record member) within

end Requests

variable {char : UInt8} (record : ShimRecord)

/-- A byte that the text of a string has as it is: printable, and neither a quote, a backslash
nor an opening brace. -/
def isPlain (byte : UInt8) : Bool :=
  decide (32 ≤ byte ∧ byte < 127 ∧ byte ≠ 34 ∧ byte ≠ 92 ∧ byte ≠ 123)

/-- A digit of `0123456789ABCDEF`. -/
def hexDigit (digit : Nat) : UInt8 := .ofNat (if digit < 10 then 48 + digit else 55 + digit)

def hexValue (char : UInt8) : Nat := if char < 58 then char.toNat - 48 else char.toNat - 55

/-- `\u00`. -/
def unicodeEscape : List UInt8 := [92, 117, 48, 48]

def escapeByte (byte : UInt8) : List UInt8 :=
  if isPlain byte then [byte]
  else unicodeEscape ++ [hexDigit (byte.toNat / 16), hexDigit (byte.toNat % 16)]

def escape (bytes : List UInt8) : List UInt8 := bytes.flatMap escapeByte

/-- The bytes at the start of a text, and the text behind them. -/
def unescape : List UInt8 → List UInt8 × List UInt8
  | [] => ([], [])
  | char :: text =>
    if isPlain char then (char :: (unescape text).1, (unescape text).2)
    else match text with
      | u :: first :: second :: high :: low :: rest =>
        if [char, u, first, second] = unicodeEscape then
          (.ofNat (16 * hexValue high + hexValue low) :: (unescape rest).1, (unescape rest).2)
        else ([], char :: text)
      | _ => ([], char :: text)

/-- `{"log":"`. -/
def logKey : List UInt8 := [123, 34, 108, 111, 103, 34, 58, 34]

/-- `","stream":"`. -/
def streamKey : List UInt8 := [34, 44, 34, 115, 116, 114, 101, 97, 109, 34, 58, 34]

/-- `","time":"`. -/
def timeKey : List UInt8 := [34, 44, 34, 116, 105, 109, 101, 34, 58, 34]

/-- `"}`. -/
def closing : List UInt8 := [34, 125]

/-- `{"log":"..","stream":"..","time":".."}`. -/
def jsonGenerate (entry : LogEntry) : List UInt8 :=
  match entry.log, entry.stream, entry.time with
  | some log, some stream, some time =>
    logKey ++ escape log ++ (streamKey ++ escape stream) ++ (timeKey ++ escape time) ++ closing
  | _, _, _ => []

/-- A key and the bytes of its string, and the text from the closing quote on. -/
def readField (key text : List UInt8) : Option (List UInt8 × List UInt8) :=
  (text.dropPrefix? key).map unescape

def readEntry (text : List UInt8) : Option (LogEntry × List UInt8) := do
  let (log, text) ← readField logKey text
  let (stream, text) ← readField streamKey text
  let (time, text) ← readField timeKey text
  return (⟨some log, some stream, some time⟩, text)

def jsonParse (text : List UInt8) : Option LogEntry := do
  let (entry, text) ← readEntry text
  if text = closing ∨ text = closing ++ [newline] then some entry else none

theorem hexDigit_ne : ∀ digit ∈ range 16, hexDigit digit ≠ 123 ∧ hexDigit digit ≠ newline := by
  decide

theorem hexValue_hexDigit : ∀ digit < 16, hexValue (hexDigit digit) = digit := by decide

theorem unescape_plain {text : List UInt8} (plain : isPlain char) :
    unescape (char :: text) = (char :: (unescape text).1, (unescape text).2) := by
  rw [unescape.eq_def]
  exact if_pos plain

theorem unescape_quote (text : List UInt8) : unescape (34 :: text) = ([], 34 :: text) := by
  rw [unescape.eq_def]
  dsimp only
  rw [if_neg (by decide)]
  split
  · exact if_neg (by simp [unicodeEscape])
  · rfl

theorem unescape_escapeByte (byte : UInt8) (text : List UInt8) :
    unescape (escapeByte byte ++ text) = (byte :: (unescape text).1, (unescape text).2) := by
  rw [escapeByte]
  split
  next plain => exact unescape_plain plain
  next special =>
    have bound := byte.toNat_lt
    have number : 16 * (byte.toNat / 16) + byte.toNat % 16 = byte.toNat := Nat.div_add_mod _ _
    have first : ¬ isPlain 92 := by decide
    simp only [unicodeEscape, cons_append, nil_append, unescape, if_neg first, ↓reduceIte]
    rw [hexValue_hexDigit _ (by omega), hexValue_hexDigit _ (by omega), number, UInt8.ofNat_toNat]

theorem unescape_escape (bytes text : List UInt8) :
    unescape (escape bytes ++ 34 :: text) = (bytes, 34 :: text) := by
  induction bytes with
  | nil => exact unescape_quote text
  | cons byte bytes ih =>
    rw [escape] at ih
    rw [escape, flatMap_cons, append_assoc, unescape_escapeByte, ih]

/-- What stands behind the closing quote does not matter for the string. -/
theorem unescape_append {text rest bytes : List UInt8} (more : List UInt8)
    (read : unescape text = (bytes, 34 :: rest)) :
    unescape (text ++ more) = (bytes, 34 :: (rest ++ more)) := by
  fun_induction unescape text generalizing bytes with
  | case1 => cases read
  | case2 char text plain ih =>
    obtain ⟨rfl, behind⟩ := Prod.mk.inj read
    rw [cons_append, unescape_plain plain, ih (Prod.ext rfl behind)]
  | case3 char special u first second high low text escaped ih =>
    obtain ⟨rfl, behind⟩ := Prod.mk.inj read
    simp only [cons_append, unescape, if_neg special, if_pos escaped]
    rw [ih (Prod.ext rfl behind)]
  | case4 char special u first second high low text other =>
    obtain ⟨rfl, behind⟩ := Prod.mk.inj read
    obtain ⟨rfl, rfl⟩ := List.cons.inj behind
    exact unescape_quote _
  | case5 char text special short =>
    obtain ⟨rfl, behind⟩ := Prod.mk.inj read
    obtain ⟨rfl, rfl⟩ := List.cons.inj behind
    exact unescape_quote _

theorem readField_escape (key bytes text : List UInt8) :
    readField key (key ++ (escape bytes ++ 34 :: text)) = some (bytes, 34 :: text) := by
  rw [readField, dropPrefix?_append_of_beq _ BEq.rfl, map_some, unescape_escape]

theorem readField_append {key text rest bytes : List UInt8} (more : List UInt8)
    (read : readField key text = some (bytes, 34 :: rest)) :
    readField key (text ++ more) = some (bytes, 34 :: (rest ++ more)) := by
  obtain ⟨string, found, here⟩ := map_eq_some_iff.mp read
  obtain ⟨start, rfl, same⟩ := dropPrefix?_eq_some_iff.mp found
  rw [readField, append_assoc, dropPrefix?_append_of_beq _ same, map_some,
    unescape_append more here]

theorem eq_of_readField {key text : List UInt8} (read : readField key text = some result) :
    ∃ rest, text = key ++ rest := by
  obtain ⟨string, found, -⟩ := map_eq_some_iff.mp read
  obtain ⟨start, rfl, same⟩ := dropPrefix?_eq_some_iff.mp found
  exact ⟨string, by rw [eq_of_beq same]⟩

theorem readEntry_eq_some_iff {text rest : List UInt8} {entry : LogEntry} :
    readEntry text = some (entry, rest) ↔ ∃ log afterLog stream afterStream time,
      readField logKey text = some (log, afterLog) ∧
      readField streamKey afterLog = some (stream, afterStream) ∧
      readField timeKey afterStream = some (time, rest) ∧
      entry = ⟨some log, some stream, some time⟩ := by
  simp only [readEntry, bind_eq_bind, bind_eq_some_iff, Prod.exists, Option.pure_def,
    some.injEq, Prod.mk.injEq]
  constructor
  · rintro ⟨log, afterLog, readLog, stream, afterStream, readStream, time, _, readTime, rfl, rfl⟩
    exact ⟨log, afterLog, stream, afterStream, time, readLog, readStream, readTime, rfl⟩
  · rintro ⟨log, afterLog, stream, afterStream, time, readLog, readStream, readTime, rfl⟩
    exact ⟨log, afterLog, readLog, stream, afterStream, readStream, time, rest, readTime, rfl, rfl⟩

theorem readEntry_append {text rest : List UInt8} {entry : LogEntry} (more : List UInt8)
    (read : readEntry text = some (entry, 34 :: rest)) :
    readEntry (text ++ more) = some (entry, 34 :: (rest ++ more)) := by
  obtain ⟨log, _, stream, _, time, readLog, readStream, readTime, same⟩ :=
    readEntry_eq_some_iff.mp read
  -- The key that follows a string begins with its closing quote.
  obtain ⟨behindLog, rfl⟩ := eq_of_readField readStream
  obtain ⟨behindStream, rfl⟩ := eq_of_readField readTime
  exact readEntry_eq_some_iff.mpr ⟨log, _, stream, _, time, readField_append more readLog,
    readField_append more readStream, readField_append more readTime, same⟩

theorem ShimRecord.fields : ∃ log stream time, record.1 = ⟨some log, some stream, some time⟩ := by
  obtain ⟨⟨log, stream, time⟩, shim⟩ := record
  cases log <;> cases stream <;> cases time <;> first | cases shim | exact ⟨_, _, _, rfl⟩

theorem readEntry_generate (more : List UInt8) :
    readEntry (jsonGenerate record.1 ++ more) = some (record.1, closing ++ more) := by
  obtain ⟨log, stream, time, fields⟩ := record.fields
  have parts : jsonGenerate record.1 ++ more = logKey ++ (escape log ++ (streamKey ++
      (escape stream ++ (timeKey ++ (escape time ++ (closing ++ more)))))) := by
    simp [jsonGenerate, fields]
  rw [parts]
  exact readEntry_eq_some_iff.mpr ⟨log, _, stream, _, time, readField_escape logKey log _,
    readField_escape streamKey stream _, readField_escape timeKey time _, fields⟩

theorem jsonParse_eq_some_iff {text : List UInt8} {entry : LogEntry} :
    jsonParse text = some entry ↔
      readEntry text = some (entry, closing) ∨
      readEntry text = some (entry, closing ++ [newline]) := by
  simp only [jsonParse, bind_eq_bind, bind_eq_some_iff, Prod.exists, ite_none_right_eq_some,
    some.injEq]
  constructor
  · rintro ⟨_, rest, read, rfl | rfl, rfl⟩
    · exact .inl read
    · exact .inr read
  · rintro (read | read)
    · exact ⟨entry, closing, read, .inl rfl, rfl⟩
    · exact ⟨entry, _, read, .inr rfl, rfl⟩

theorem special_of_mem_escape {bytes : List UInt8} (member : char ∈ escape bytes) :
    char ≠ 123 ∧ char ≠ newline := by
  obtain ⟨byte, -, here⟩ := mem_flatMap.mp member
  rw [escapeByte] at here
  split at here
  next plain =>
    obtain rfl := mem_singleton.mp here
    refine ⟨?_, ?_⟩ <;> rintro rfl <;> revert plain <;> decide
  next =>
    have bound := byte.toNat_lt
    rcases mem_append.mp here with here | here
    · simp only [unicodeEscape, mem_cons, not_mem_nil, or_false] at here
      rcases here with rfl | rfl | rfl | rfl <;> decide
    · rcases mem_pair.mp here with rfl | rfl
      · exact hexDigit_ne _ (mem_range.mpr (by omega))
      · exact hexDigit_ne _ (mem_range.mpr (by omega))

/-- The text begins with a brace that occurs nowhere else, and has no line break. -/
theorem jsonGenerate_eq : ∃ body, jsonGenerate record.1 = 123 :: body ∧ 123 ∉ body ∧
    newline ∉ body := by
  obtain ⟨log, stream, time, fields⟩ := record.fields
  refine ⟨logKey.tail ++ escape log ++ (streamKey ++ escape stream) ++
    (timeKey ++ escape time) ++ closing, by simp [jsonGenerate, fields, logKey], ?_, ?_⟩
  · intro member
    simp only [mem_append] at member
    rcases member with (((member | member) | (member | member)) | (member | member)) | member <;>
      first | exact (special_of_mem_escape member).1 rfl | exact absurd member (by decide)
  · intro member
    simp only [mem_append] at member
    rcases member with (((member | member) | (member | member)) | (member | member)) | member <;>
      first | exact (special_of_mem_escape member).2 rfl | exact absurd member (by decide)

/-- What parses inside a line begins where the line begins. -/
theorem append_of_parsed {piece : List UInt8} {entry : LogEntry}
    (read : readEntry piece = some (entry, text))
    (inside : piece <:+: jsonGenerate record.1 ++ [newline]) :
    ∃ after, piece ++ after = jsonGenerate record.1 ++ [newline] := by
  obtain ⟨before, after, whole⟩ := inside
  obtain ⟨log, _, _, _, _, readLog, -⟩ := readEntry_eq_some_iff.mp read
  obtain ⟨rest, rfl⟩ := eq_of_readField readLog
  obtain ⟨body, start, noBrace, -⟩ := jsonGenerate_eq record
  rw [start] at whole ⊢
  cases before with
  | nil => exact ⟨after, whole⟩
  | cons first before =>
    have rest : before ++ (logKey ++ rest) ++ after = body ++ [newline] := (List.cons.inj whole).2
    have brace : 123 ∈ body ++ [newline] := by
      rw [← rest]
      simp [logKey]
    simp [noBrace, newline] at brace

/-- Only a whole line parses. -/
theorem eq_of_jsonParse {piece : List UInt8} {entry : LogEntry}
    (parsed : jsonParse piece = some entry)
    (inside : piece <:+: jsonGenerate record.1 ++ [newline]) :
    piece = jsonGenerate record.1 ∨ piece = jsonGenerate record.1 ++ [newline] := by
  rcases jsonParse_eq_some_iff.mp parsed with read | read
  · obtain ⟨after, whole⟩ := append_of_parsed record read inside
    have same := readEntry_append after read
    rw [whole, readEntry_generate] at same
    obtain ⟨-, ending⟩ := Prod.mk.inj (some.inj same)
    have last : after = [newline] := by simpa [closing, eq_comm] using ending
    rw [last] at whole
    exact .inl (append_cancel_right whole)
  · obtain ⟨after, whole⟩ := append_of_parsed record read inside
    have same := readEntry_append after read
    rw [whole, readEntry_generate] at same
    obtain ⟨-, ending⟩ := Prod.mk.inj (some.inj same)
    have last : after = [] := by simpa [closing, eq_comm] using ending
    rw [last, append_nil] at whole
    exact .inr whole

/-- An object with the three fields in this order. -/
def jsonCodec : LogCodec where
  generate := jsonGenerate
  parse := jsonParse
  oneLine record := by
    obtain ⟨body, text, -, inner⟩ := jsonGenerate_eq record
    rw [text]
    simpa [newline] using inner
  parse_text record := by
    have read := readEntry_generate record []
    rw [append_nil, append_nil] at read
    exact jsonParse_eq_some_iff.mpr (.inl read)
  parse_line record := jsonParse_eq_some_iff.mpr (.inr (readEntry_generate record [newline]))
  parse_blank := rfl
  parse_piece record piece entry inside notText notLine parsed := by
    rcases eq_of_jsonParse record parsed inside with text | line
    · exact absurd text notText
    · exact absurd line notLine

theorem length_le_escape (bytes : List UInt8) : bytes.length ≤ (escape bytes).length := by
  have each : ∀ byte, 1 ≤ (escapeByte byte).length := by
    intro byte
    rw [escapeByte]
    split <;> simp
  induction bytes with
  | nil => exact Nat.le_refl _
  | cons byte bytes ih =>
    have first := each byte
    rw [escape] at ih
    rw [escape, flatMap_cons, length_append, length_cons]
    omega

/-- A line of 5000 characters on the standard output. -/
def longRecord : ShimRecord :=
  ⟨⟨some (.replicate 5000 97), some stdoutStr, some []⟩,
    by simp only [LogEntry.fromShim, length_replicate]; decide⟩

/-- Two log files of 64 KiB. -/
def twoFiles : LogConfig := ⟨2, 65536, by decide, by decide, by decide⟩

/-- The last record is not sent when it is too long for the line buffer. -/
theorem sendsTail_fails_longRecord : ¬ SendsTail jsonCodec twoFiles [[longRecord]] 1 := by
  intro sends
  have fits := (fits_of_sendsTail (by simp) sends).1 longRecord (by simp [requested, rtake])
  have tooLong : jsonCodec.fits longRecord = false := by
    refine decide_eq_false (Nat.not_lt.mpr ?_)
    calc maxLine ≤ (List.replicate 5000 (97 : UInt8)).length := by
          rw [length_replicate]
          decide
      _ ≤ (escape (.replicate 5000 97)).length := length_le_escape _
      _ ≤ (jsonGenerate longRecord.1).length := by
          simp only [longRecord, jsonGenerate, length_append]
          omega
  rw [tooLong] at fits
  cases fits

end Isulad.Container
