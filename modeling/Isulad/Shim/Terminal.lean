import Mathlib.Algebra.Group.Nat.Defs
import Mathlib.Data.Finset.Card

/-!
# The container log of the shim

`shim_json_data_write` of `isulad-shim/terminal.c` appends a record to the newest log file,
and first rotates the files when the record does not fit. The files are the slots of a
shelf: slot `0` is the log itself, slot `i` is the file with suffix `.i`. File operations
succeed, and `rename` of a missing file does nothing; a `write` is one moment, every
`rename` and `open` is another.
-/

namespace Isulad.Shim

open List Function

/-- The bytes of one line of the log. -/
abbrev Record := List UInt8

/-- The log files there are, by suffix. -/
abbrev Log := Nat → Option (List UInt8)

/-- `log_maxfile` and `log_maxsize` of a `log_terminal`, as `terminal_init` of `process.c`
leaves them. -/
structure LogConfig where
  maxfile : Nat
  maxsize : Nat
  maxfile_pos : 1 ≤ maxfile
  maxsize_ge : 4096 ≤ maxsize
  maxsize_lt : maxsize < 2 ^ 63

/-- `rename`, where a missing source is no failure. -/
def rename (log : Log) (source target : Nat) : Log :=
  match log source with
  | none => log
  | some bytes => update (update log target (some bytes)) source none

/-- `shim_rename_old_log_file`: the moments of its loop, counting down from `i`. -/
def shimRenameOldLogFile : Nat → Log → List Log
  | i + 2, log =>
    let renamed := rename log (i + 1) (i + 2)
    renamed :: shimRenameOldLogFile (i + 1) renamed
  | _, _ => []

/-- `shim_create_container_log_file`: opened for appending, and created if need be. -/
def shimCreateContainerLogFile (log : Log) : Log :=
  update log 0 (some ((log 0).getD []))

variable (config : LogConfig)

/-- `shim_dump_log_file`, as its moments. -/
def shimDumpLogFile (log : Log) : List Log :=
  let old := shimRenameOldLogFile (config.maxfile - 1) log
  let renamed := rename (old.getLastD log) 0 1
  old ++ [renamed, shimCreateContainerLogFile renamed]

/-- `get_log_file_size`. -/
def getLogFileSize (log : Log) : Nat := ((log 0).getD []).length

/-- `write_nointr_in_total` to the descriptor, which is always that of slot `0`. -/
def writeInTotal (log : Log) (bytes : List UInt8) : Log :=
  update log 0 (some ((log 0).getD [] ++ bytes))

/-- `read_count <= available_space`, in `int64_t`. -/
def Fits (config : LogConfig) (log : Log) (record : Record) : Prop :=
  (record.length : Int) ≤ (config.maxsize : Int) - getLogFileSize log

instance (config : LogConfig) (log : Log) (record : Record) : Decidable (Fits config log record) :=
  inferInstanceAs (Decidable (_ ≤ _))

/-- `shim_json_data_write`: the moments before the record is written, and the log after. -/
def shimJsonDataWrite (log : Log) (record : Record) : List Log × Log :=
  if Fits config log record then ([], writeInTotal log record)
  else
    let dumped := shimDumpLogFile config log
    -- what does not fit even into an empty file is cut off
    (dumped, writeInTotal (dumped.getLastD log)
      (record.take (if config.maxsize < record.length then config.maxsize else record.length)))

/-- Every moment while records are written, with the records written until then. -/
def moments (config : LogConfig) : Log → List Record → List Record → List (List Record × Log)
  | log, written, [] => [(written, log)]
  | log, written, record :: records =>
    let (dumped, next) := shimJsonDataWrite config log record
    (written, log) :: dumped.map (written, ·) ++ moments config next (written ++ [record]) records

/-- The log of a container before its first record. -/
def emptyLog : Log := shimCreateContainerLogFile fun _ => none

/-- The records of the slots below `n`, from the oldest slot to the newest. -/
def reading (parts : Nat → List Record) : Nat → List Record
  | 0 => []
  | n + 1 => parts n ++ reading parts n

/-- The slots hold these records, each of them whole. -/
structure Contains (log : Log) (parts : Nat → List Record) : Prop where
  missing : ∀ i, log i = none → parts i = []
  whole : ∀ i bytes, log i = some bytes → bytes = (parts i).flatten

/-- At most `maxfile` files of at most `maxsize` bytes, that hold the last records. -/
structure KeepsLast (config : LogConfig) (written : List Record) (log : Log) : Prop where
  few : ∀ files : Finset Nat, (∀ i ∈ files, (log i).isSome) → files.card ≤ config.maxfile
  small : ∀ i bytes, log i = some bytes → bytes.length ≤ config.maxsize
  last : ∃ parts, Contains log parts ∧ ∀ n, reading parts n <:+ written

/-- The log keeps the last records at every moment. -/
def AlwaysKeepsLast (records : List Record) : Prop :=
  ∀ moment ∈ moments config emptyLog [] records, KeepsLast config moment.1 moment.2

variable {log : Log} {bound i n source j m : Nat} {parts other : Nat → List Record}
  {bytes : List UInt8}

theorem rename_missing (missing : log source = none) (target : Nat) :
    rename log source target = log := by
  rw [rename, missing]

theorem rename_present (present : log source = some bytes) (target : Nat) :
    rename log source target =
      update (update log target (some bytes)) source none := by
  rw [rename, present]

@[simp] theorem rename_source (log : Log) (source target : Nat) :
    rename log source target source = none := by
  cases present : log source with
  | none => rw [rename_missing present, present]
  | some bytes => rw [rename_present present, update_self]

/-- The parts after the file in slot `i` has become that of slot `i + 1`. -/
def shift (parts : Nat → List Record) (i : Nat) : Nat → List Record :=
  update (update parts (i + 1) (parts i)) i []

theorem shift_of_ne (notSource : j ≠ i) (notTarget : j ≠ i + 1) :
    shift parts i j = parts j := by
  rw [shift, update_of_ne notSource, update_of_ne notTarget]

@[simp] theorem shift_source (parts : Nat → List Record) (i : Nat) : shift parts i i = [] :=
  update_self _ _ _

@[simp] theorem shift_target (parts : Nat → List Record) (i : Nat) :
    shift parts i (i + 1) = parts i := by
  rw [shift, update_of_ne (Nat.succ_ne_self i), update_self]

theorem reading_congr (agree : ∀ i < n, parts i = other i) : reading parts n = reading other n := by
  induction n with
  | zero => rfl
  | succ n ih =>
    rw [reading, reading, agree n (Nat.lt_succ_self n),
      ih fun i below => agree i (Nat.lt_succ_of_lt below)]

theorem reading_suffix (parts : Nat → List Record) (le : n ≤ m) :
    reading parts n <:+ reading parts m := by
  induction le with
  | refl => exact suffix_rfl
  | step _ ih => exact ih.trans (suffix_append _ _)

/-- Slots that are empty from `bound` on add nothing to the reading. -/
theorem reading_above (empty : ∀ i, bound ≤ i → parts i = []) (le : bound ≤ n) :
    reading parts n = reading parts bound := by
  induction le with
  | refl => rfl
  | step le ih => rw [reading, empty _ le, nil_append, ih]

/-- After the shift, the slots up to `i + 1` read as those up to `i` did. -/
theorem reading_shift (parts : Nat → List Record) (i : Nat) :
    reading (shift parts i) (i + 2) = reading parts (i + 1) := by
  have below : reading (shift parts i) i = reading parts i :=
    reading_congr fun j less => shift_of_ne (by omega) (by omega)
  simp [reading, below]

theorem reading_shift_free (free : parts (i + 1) = []) (above : i + 2 ≤ n) :
    reading (shift parts i) n = reading parts n := by
  induction n, above using Nat.le_induction with
  | base =>
    have reads : reading parts (i + 2) = parts (i + 1) ++ reading parts (i + 1) := rfl
    rw [reading_shift, reads, free, nil_append]
  | succ n above ih =>
    have same : shift parts i n = parts n := shift_of_ne (by omega) (by omega)
    rw [reading, reading, same, ih]

theorem reading_shift_suffix (free : parts (i + 1) = [] ∨ i + 2 = bound) (inside : i + 2 ≤ bound) :
    reading (shift parts i) bound <:+ reading parts bound := by
  rcases free with free | top
  · rw [reading_shift_free free inside]
  rw [← top, reading_shift]
  exact reading_suffix parts (Nat.le_succ _)

theorem reading_update_zero (parts : Nat → List Record) (added : List Record) (positive : 1 ≤ n) :
    reading (update parts 0 (parts 0 ++ added)) n = reading parts n ++ added := by
  induction n, positive using Nat.le_induction with
  | base => simp [reading]
  | succ n positive ih =>
    rw [reading, ih, update_of_ne (by omega), ← append_assoc]
    rfl

variable {config : LogConfig} {written : List Record}

/-- The slots below `bound` hold the last records, and there are no others. -/
structure Holds (config : LogConfig) (bound : Nat) (written : List Record) (log : Log) : Prop where
  inside : ∀ i, bound ≤ i → log i = none
  small : ∀ i bytes, log i = some bytes → bytes.length ≤ config.maxsize
  last : ∃ parts, Contains log parts ∧ reading parts bound <:+ written

/-- Slot `i` is empty, or the oldest: a file may be renamed to it. -/
def Vacant (bound : Nat) (log : Log) (i : Nat) : Prop := log i = none ∨ i + 1 = bound

theorem Contains.set {slot : Option (List UInt8)} {records : List Record}
    (contains : Contains log parts) (missing : slot = none → records = [])
    (whole : ∀ bytes, slot = some bytes → bytes = records.flatten) :
    Contains (update log i slot) (update parts i records) := by
  constructor <;> intro j <;> simp only [update_apply] <;> split
  · exact missing
  · exact contains.missing j
  · exact whole
  · exact contains.whole j

theorem Contains.shift (contains : Contains log parts) (present : log i = some bytes) :
    Contains (rename log i (i + 1)) (shift parts i) := by
  rw [rename_present present]
  refine .set (contains.set nofun ?_) (fun _ => rfl) nofun
  rintro _ ⟨⟩
  exact contains.whole i bytes present

theorem of_rename_eq_some {target : Nat} (slot : rename log source target j = some bytes) :
    ∃ i, log i = some bytes ∧ (j = i ∨ j = target) := by
  cases present : log source with
  | none =>
    rw [rename_missing present] at slot
    exact ⟨j, slot, .inl rfl⟩
  | some moved =>
    rw [rename_present present, update_apply, update_apply] at slot
    split at slot
    · cases slot
    split at slot
    next isTarget => exact ⟨source, present.trans slot, .inr isTarget⟩
    · exact ⟨j, slot, .inl rfl⟩

theorem Holds.rename (holds : Holds config bound written log) (vacant : Vacant bound log (i + 1))
    (inside : i + 2 ≤ bound) : Holds config bound written (rename log i (i + 1)) := by
  cases present : log i with
  | none =>
    rw [rename_missing present]
    exact holds
  | some moved =>
    obtain ⟨parts, contains, suffix⟩ := holds.last
    refine ⟨?_, ?_, Shim.shift parts i, contains.shift present, ?_⟩
    · intro j outside
      cases slot : Shim.rename log i (i + 1) j with
      | none => rfl
      | some bytes =>
        obtain ⟨k, found, rfl | rfl⟩ := of_rename_eq_some slot
        · rw [holds.inside j outside] at found
          cases found
        · omega
    · intro j bytes slot
      obtain ⟨k, found, -⟩ := of_rename_eq_some slot
      exact holds.small k bytes found
    · refine (reading_shift_suffix ?_ inside).trans suffix
      exact vacant.imp (contains.missing (i + 1)) id

/-- The loop keeps the invariant at every moment and leaves slot `1` vacant. -/
theorem Holds.shimRenameOldLogFile (i : Nat) (holds : Holds config bound written log)
    (vacant : Vacant bound log (i + 1)) (inside : i + 2 ≤ bound) :
    (∀ moment ∈ shimRenameOldLogFile (i + 1) log, Holds config bound written moment) ∧
      Holds config bound written ((shimRenameOldLogFile (i + 1) log).getLastD log) ∧
      Vacant bound ((shimRenameOldLogFile (i + 1) log).getLastD log) 1 := by
  induction i generalizing log with
  | zero => exact ⟨nofun, holds, vacant⟩
  | succ i ih =>
    have renamed := holds.rename vacant inside
    have free : Vacant bound (Shim.rename log (i + 1) (i + 2)) (i + 1) :=
      .inl (rename_source _ _ _)
    obtain ⟨moments, final, vacated⟩ := ih renamed free (by omega)
    rw [Shim.shimRenameOldLogFile, getLastD_cons]
    exact ⟨forall_mem_cons.mpr ⟨renamed, moments⟩, final, vacated⟩

theorem getLastD_shimDumpLogFile (config : LogConfig) (log : Log) :
    (shimDumpLogFile config log).getLastD log =
      shimCreateContainerLogFile (rename
        ((shimRenameOldLogFile (config.maxfile - 1) log).getLastD log) 0 1) := by
  rw [shimDumpLogFile, getLastD_eq_getLast?, List.getLast?_append]
  rfl

theorem getLastD_shimDumpLogFile_zero (config : LogConfig) (log : Log) :
    (shimDumpLogFile config log).getLastD log 0 = some [] := by
  rw [getLastD_shimDumpLogFile, shimCreateContainerLogFile, update_self, rename_source]
  rfl

theorem Holds.append (holds : Holds config bound written log) (added : List Record)
    (positive : 1 ≤ bound) (fits : ((log 0).getD [] ++ added.flatten).length ≤ config.maxsize) :
    Holds config bound (written ++ added) (writeInTotal log added.flatten) := by
  obtain ⟨parts, contains, suffix⟩ := holds.last
  have newest : (log 0).getD [] = (parts 0).flatten := by
    cases slot : log 0 with
    | none => rw [contains.missing 0 slot]; rfl
    | some bytes => exact contains.whole 0 bytes slot
  refine ⟨?_, ?_, update parts 0 (parts 0 ++ added), contains.set nofun ?_, ?_⟩
  · intro i outside
    rw [writeInTotal, update_of_ne (by omega)]
    exact holds.inside i outside
  · intro i bytes slot
    rw [writeInTotal, update_apply] at slot
    split at slot
    · cases slot
      exact fits
    · exact holds.small i bytes slot
  · rintro _ ⟨⟩
    rw [flatten_append, newest]
  · rw [reading_update_zero parts added positive]
    obtain ⟨front, rfl⟩ := suffix
    exact ⟨front, (append_assoc _ _ _).symm⟩

theorem Holds.shimCreateContainerLogFile (holds : Holds config bound written log)
    (positive : 1 ≤ bound) (fits : ((log 0).getD []).length ≤ config.maxsize) :
    Holds config bound written (shimCreateContainerLogFile log) := by
  have added := holds.append [] positive (by simpa using fits)
  simpa [writeInTotal, Shim.shimCreateContainerLogFile] using added

theorem holds_emptyLog (config : LogConfig) (positive : 1 ≤ bound) :
    Holds config bound [] emptyLog := by
  have nothing : Holds config bound [] fun _ => none := by
    refine ⟨fun _ _ => rfl, nofun, fun _ => [], ⟨fun _ _ => rfl, nofun⟩, ?_⟩
    rw [reading_above (fun _ _ => rfl) (Nat.zero_le bound)]
    exact suffix_rfl
  exact nothing.shimCreateContainerLogFile positive (Nat.zero_le _)

variable {record : Record} {records : List Record}

theorem moments_cons {moment : List Record × Log} :
    moment ∈ moments config log written (record :: records) ↔
      moment = (written, log) ∨
      (∃ dumped ∈ (shimJsonDataWrite config log record).1, moment = (written, dumped)) ∨
      moment ∈ moments config (shimJsonDataWrite config log record).2 (written ++ [record])
        records := by
  rw [moments]
  simp [eq_comm]

theorem self_mem_moments (config : LogConfig) (log : Log) (written records : List Record) :
    (written, log) ∈ moments config log written records := by
  cases records with
  | nil => exact mem_singleton.mpr rfl
  | cons record records => exact moments_cons.mpr (.inl rfl)

theorem fits_iff :
    Fits config log record ↔ ((log 0).getD [] ++ record).length ≤ config.maxsize := by
  rw [Fits, getLogFileSize, length_append]
  omega

theorem shimJsonDataWrite_of_fits (fits : Fits config log record) :
    shimJsonDataWrite config log record = ([], writeInTotal log record) :=
  if_pos fits

theorem shimJsonDataWrite_of_not_fits (fits : ¬ Fits config log record) :
    shimJsonDataWrite config log record =
      (shimDumpLogFile config log,
        writeInTotal ((shimDumpLogFile config log).getLastD log) (record.take config.maxsize)) := by
  rw [shimJsonDataWrite, if_neg fits]
  split
  next => rfl
  next short => rw [take_length, take_of_length_le (by omega)]

section

variable (holds : Holds config config.maxfile written log)
include holds

/-- Slots below `maxfile` are few enough. -/
theorem Holds.keepsLast :
    KeepsLast config written log := by
  obtain ⟨parts, contains, suffix⟩ := holds.last
  refine ⟨?_, holds.small, parts, contains, ?_⟩
  · intro files present
    have below : files ⊆ .range config.maxfile := by
      intro i member
      by_contra outside
      have missing := holds.inside i (by simpa using outside)
      simpa [missing] using present i member
    simpa using Finset.card_le_card below
  · intro n
    rcases le_total n config.maxfile with inside | outside
    · exact (reading_suffix parts inside).trans suffix
    rw [reading_above (fun i above => contains.missing i (holds.inside i above)) outside]
    exact suffix

section

variable (several : 2 ≤ config.maxfile)
include several

/-- A rotation with two files or more keeps the invariant at every moment. -/
theorem Holds.shimDumpLogFile :
    ∀ moment ∈ shimDumpLogFile config log, Holds config config.maxfile written moment := by
  obtain ⟨i, more⟩ : ∃ i, config.maxfile = i + 2 := ⟨config.maxfile - 2, by omega⟩
  have counter : config.maxfile - 1 = i + 1 := by omega
  obtain ⟨old, final, vacant⟩ := holds.shimRenameOldLogFile i (.inr (by omega)) (by omega)
  have renamed := final.rename vacant (by omega)
  have created := renamed.shimCreateContainerLogFile config.maxfile_pos
    (by rw [rename_source]; exact Nat.zero_le _)
  rw [Shim.shimDumpLogFile, counter]
  exact forall_mem_append.mpr
    ⟨old, forall_mem_cons.mpr ⟨renamed, forall_mem_singleton.mpr created⟩⟩

/-- A whole record of at most `maxsize` bytes keeps the invariant. -/
theorem Holds.shimJsonDataWrite (short : record.length ≤ config.maxsize) :
    (∀ dumped ∈ (shimJsonDataWrite config log record).1,
        Holds config config.maxfile written dumped) ∧
      Holds config config.maxfile (written ++ [record])
        (shimJsonDataWrite config log record).2 := by
  by_cases fits : Fits config log record
  · rw [shimJsonDataWrite_of_fits fits]
    refine ⟨nofun, ?_⟩
    have added := holds.append [record]
      config.maxfile_pos (by simpa using fits_iff.mp fits)
    simpa using added
  · rw [shimJsonDataWrite_of_not_fits fits, take_of_length_le short]
    have moments := holds.shimDumpLogFile several
    refine ⟨moments, ?_⟩
    have rotated : Holds config config.maxfile written
        ((Shim.shimDumpLogFile config log).getLastD log) := by
      rw [getLastD_shimDumpLogFile]
      exact moments _ (mem_append_right _ (mem_cons_of_mem _ mem_cons_self))
    have added := rotated.append [record]
      config.maxfile_pos (by rw [getLastD_shimDumpLogFile_zero]; simpa using short)
    simpa using added

/-- With two files or more, records that fit into a file are kept as they should. -/
theorem Holds.moments (short : ∀ record ∈ records, record.length ≤ config.maxsize) :
    ∀ moment ∈ moments config log written records, KeepsLast config moment.1 moment.2 := by
  induction records generalizing log written with
  | nil => exact forall_mem_singleton.mpr holds.keepsLast
  | cons record records ih =>
    obtain ⟨head, tail⟩ := forall_mem_cons.mp short
    obtain ⟨dumping, next⟩ := holds.shimJsonDataWrite several head
    intro moment member
    rcases moments_cons.mp member with rfl | ⟨dumped, during, rfl⟩ | later
    · exact holds.keepsLast
    · exact (dumping dumped during).keepsLast
    · exact ih next tail moment later

end

/-- As long as everything written fits into the newest file, there is no rotation. -/
theorem Holds.moments_of_total (all : log 0 = some written.flatten)
    (total : (written ++ records).flatten.length ≤ config.maxsize) :
    ∀ moment ∈ Shim.moments config log written records, KeepsLast config moment.1 moment.2 := by
  induction records generalizing log written with
  | nil => exact forall_mem_singleton.mpr holds.keepsLast
  | cons record records ih =>
    have fits : Fits config log record := by
      rw [fits_iff, all]
      simp at total ⊢
      omega
    have added := holds.append [record]
      config.maxfile_pos (by simpa using fits_iff.mp fits)
    intro moment member
    rcases moments_cons.mp member with rfl | ⟨dumped, during, rfl⟩ | later
    · exact holds.keepsLast
    · rw [shimJsonDataWrite_of_fits fits] at during
      cases during
    · rw [shimJsonDataWrite_of_fits fits] at later
      refine ih (by simpa using added) ?_ (by simpa using total) moment later
      simp [writeInTotal, all]

end

/-- The rotation leaves two files, whatever `maxfile` is. -/
theorem not_keepsLast_of_rotation (single : config.maxfile = 1) (present : log 0 = some bytes) :
    ¬ KeepsLast config written ((shimDumpLogFile config log).getLastD log) := by
  intro keeps
  have rotated : (shimDumpLogFile config log).getLastD log 1 = some bytes := by
    have unrenamed : (shimRenameOldLogFile (config.maxfile - 1) log).getLastD log = log := by
      rw [single]
      rfl
    rw [getLastD_shimDumpLogFile, unrenamed, shimCreateContainerLogFile,
      update_of_ne one_ne_zero]
    rw [rename_present present, update_of_ne one_ne_zero, update_self]
  have two := keeps.few {0, 1} (by
    intro i member
    rcases Finset.mem_insert.mp member with rfl | member
    · rw [getLastD_shimDumpLogFile_zero]; rfl
    · rw [Finset.mem_singleton.mp member, rotated]; rfl)
  rw [single] at two
  simp at two

/-- With one file, the first record that does not fit makes a second. -/
theorem exists_not_keepsLast_of_total (single : config.maxfile = 1) (log : Log)
    (written records : List Record) (all : log 0 = some written.flatten)
    (before : written.flatten.length ≤ config.maxsize)
    (total : config.maxsize < (written ++ records).flatten.length) :
    ∃ moment ∈ moments config log written records, ¬ KeepsLast config moment.1 moment.2 := by
  induction records generalizing log written with
  | nil =>
    simp at total before
    omega
  | cons record records ih =>
    by_cases fits : Fits config log record
    · have after := fits_iff.mp fits
      obtain ⟨moment, member, failing⟩ := ih
        (writeInTotal log record) (written ++ [record]) (by simp [writeInTotal, all])
        (by simpa [all] using after) (by simpa using total)
      refine ⟨moment, moments_cons.mpr (.inr (.inr ?_)), failing⟩
      rwa [shimJsonDataWrite_of_fits fits]
    · refine ⟨(written, (shimDumpLogFile config log).getLastD log), ?_,
        not_keepsLast_of_rotation single all⟩
      refine moments_cons.mpr (.inr (.inl ⟨_, ?_, rfl⟩))
      rw [shimJsonDataWrite_of_not_fits fits, getLastD_shimDumpLogFile]
      exact mem_append_right _ (mem_cons_of_mem _ mem_cons_self)

/-- A file cannot end with a record longer than itself. -/
theorem not_keepsLast_of_cut (long : config.maxsize < record.length) (newest : log 0 = some bytes)
    (nonempty : bytes ≠ []) :
    ¬ KeepsLast config (written ++ [record]) log := by
  intro keeps
  obtain ⟨parts, contains, suffix⟩ := keeps.last
  have whole := contains.whole 0 bytes newest
  have ends : parts 0 <:+ written ++ [record] := by simpa [reading] using suffix 1
  rcases eq_nil_or_concat (parts 0) with none | ⟨front, last, some⟩
  · rw [none] at whole
    exact nonempty whole
  · rw [some, concat_eq_append] at ends whole
    have same : last = record := by
      obtain ⟨rest, eq⟩ := ends
      rw [← append_assoc] at eq
      exact singleton_inj.mp (append_inj_right' eq rfl)
    have small := keeps.small 0 bytes newest
    rw [whole, same] at small
    simp at small
    omega

/-- A record longer than a file is cut off. -/
theorem exists_not_keepsLast_of_long (config : LogConfig) (log : Log) (written : List Record)
    (member : record ∈ records) (long : config.maxsize < record.length) :
    ∃ moment ∈ moments config log written records, ¬ KeepsLast config moment.1 moment.2 := by
  induction records generalizing log written with
  | nil => cases member
  | cons head records ih =>
    rcases mem_cons.mp member with rfl | later
    · refine ⟨_, moments_cons.mpr (.inr (.inr (self_mem_moments _ _ _ _))), ?_⟩
      have unfit : ¬ Fits config log record := by
        rw [fits_iff, length_append]
        omega
      rw [shimJsonDataWrite_of_not_fits unfit]
      have newest : writeInTotal ((shimDumpLogFile config log).getLastD log)
          (record.take config.maxsize) 0 = some (record.take config.maxsize) := by
        rw [writeInTotal, update_self, getLastD_shimDumpLogFile_zero]
        rfl
      refine not_keepsLast_of_cut long newest (ne_nil_of_length_pos ?_)
      have := config.maxsize_ge
      rw [length_take]
      omega
    · obtain ⟨moment, found, failing⟩ := ih _ _ later
      exact ⟨moment, moments_cons.mpr (.inr (.inr found)), failing⟩

/-- The log keeps what it should exactly when every record fits into a file and, with a
single file, they all fit into it together. -/
theorem alwaysKeepsLast_iff (config : LogConfig) (records : List Record) :
    AlwaysKeepsLast config records ↔
      (∀ record ∈ records, record.length ≤ config.maxsize) ∧
        (2 ≤ config.maxfile ∨ records.flatten.length ≤ config.maxsize) := by
  have initially := holds_emptyLog config config.maxfile_pos
  constructor
  · intro always
    refine ⟨fun record member => ?_, ?_⟩
    · by_contra long
      obtain ⟨moment, found, failing⟩ := exists_not_keepsLast_of_long config emptyLog []
        member (Nat.lt_of_not_le long)
      exact failing (always moment found)
    · by_contra neither
      obtain ⟨few, total⟩ := not_or.mp neither
      have single : config.maxfile = 1 := by
        have := config.maxfile_pos
        omega
      obtain ⟨moment, found, failing⟩ := exists_not_keepsLast_of_total single
        emptyLog [] records rfl (Nat.zero_le _) (by simpa using total)
      exact failing (always moment found)
  · rintro ⟨short, several | total⟩
    · exact initially.moments several short
    · exact initially.moments_of_total rfl (by simpa using total)

/-- One file of 4096 bytes. -/
def oneFile : LogConfig := ⟨1, 4096, by decide, by decide, by decide⟩

/-- Two lines of 4000 bytes leave two files in a log of one. -/
def twoLines : List Record := [List.replicate 4000 65, List.replicate 4000 66]

theorem alwaysKeepsLast_fails_oneFile : ¬ AlwaysKeepsLast oneFile twoLines := by
  intro always
  have length : (([] : List Record) ++ twoLines).flatten.length = 8000 := by
    simp only [twoLines, nil_append, flatten_cons, flatten_nil, append_nil,
      length_append, length_replicate]
  obtain ⟨moment, found, failing⟩ := @exists_not_keepsLast_of_total oneFile rfl
    emptyLog [] twoLines rfl (Nat.zero_le _) (by rw [length]; decide)
  exact failing (always moment found)

end Isulad.Shim
