import Mathlib.Data.List.Induction
import Mathlib.Tactic.Common

/-!
# Times as texts

`util_get_time_buffer` of `cutils/utils_timestamp.c` writes a timestamp as a local time and its
offset from UTC. The text is compared with what RFC 3339 reads in it. The buffer has room for the
text.
-/

namespace Isulad.Utils

open List

/-- `types_timestamp_t`, with its seconds. -/
structure Timestamp where
  seconds : Int
  nanos : Option Int
  /-- `nanos` is an `int32_t`. -/
  int32 : ∀ value ∈ nanos, -2147483648 ≤ value ∧ value ≤ 2147483647

/-- A day of the calendar. -/
structure Date where
  year : Int
  month : Int
  day : Int

/-- The days from the first of March of the year 0 to that of a year. -/
def marchDays (year : Int) : Int := year * 365 + year / 4 - year / 100 + year / 400

/-- The year of a day behind the first of March of the year 0, every year counted from March. -/
def marchYear (days : Int) : Int :=
  let century := min 3 (days % 146097 / 36524)
  let dayOfCentury := days % 146097 - century * 36524
  days / 146097 * 400 + century * 100 + dayOfCentury / 1461 * 4 +
    min 3 (dayOfCentury % 1461 / 365)

/-- The date of a day since 1970. From March on, five months have 153 days. -/
def dateOf (days : Int) : Date :=
  let year := marchYear (days + 719468)
  let dayOfYear := days + 719468 - marchDays year
  let month := (5 * dayOfYear + 2) / 153
  { year := if month < 10 then year else year + 1
    month := if month < 10 then month + 3 else month - 9
    day := dayOfYear - (153 * month + 2) / 5 + 1 }

/-- The days from 1970 to a date. -/
def Date.days (date : Date) : Int :=
  let month := if 2 < date.month then date.month - 3 else date.month + 9
  let year := if 2 < date.month then date.year else date.year - 1
  marchDays year + (153 * month + 2) / 5 + date.day - 1 - 719468

/-- The part of a `struct tm` that is written. -/
structure Tm extends Date where
  hour : Int
  min : Int
  sec : Int

/-- `gmtime_r`. -/
def gmtime (seconds : Int) : Tm where
  toDate := dateOf (seconds / 86400)
  hour := seconds % 86400 / 3600
  min := seconds % 3600 / 60
  sec := seconds % 60

/-- `localtime_r`, the clocks being `offset` seconds ahead of UTC then. -/
def localtime (offset seconds : Int) : Tm := gmtime (seconds + offset)

/-- `%0*d` of `printf`. -/
def printInt (width : Nat) (value : Int) : List Char :=
  if value < 0 then '-' :: (Nat.toDigits 10 value.natAbs).leftpad (width - 1) '0'
  else (Nat.toDigits 10 value.natAbs).leftpad width '0'

/-- `strftime` with `%Y-%m-%dT%H:%M:%S`, which writes a year as it is. -/
def strftime (tm : Tm) (rest : List Char) : List Char :=
  printInt 1 tm.year ++ '-' :: (printInt 2 tm.month ++ '-' :: (printInt 2 tm.day ++
    'T' ::
      (printInt 2 tm.hour ++ ':' :: (printInt 2 tm.min ++ ':' :: (printInt 2 tm.sec ++ rest)))))

/-- The hours that are written as the zone. -/
def tmZone (offset seconds : Int) : Int :=
  let zone := (localtime offset seconds).hour - (gmtime seconds).hour
  if zone < -12 then zone + 24 else if 12 < zone then zone - 24 else zone

/-- `util_get_time_buffer`: the text in the buffer. -/
def utilGetTimeBuffer (offset : Int) (timestamp : Timestamp) : List Char :=
  let zone := tmZone offset timestamp.seconds
  strftime (localtime offset timestamp.seconds) ('.' :: (printInt 9 (timestamp.nanos.getD 0) ++
    (if 0 ≤ zone then '+' :: printInt 2 zone else '-' :: printInt 2 (-zone)) ++ ":00".toList))

/-- The instant in nanoseconds. -/
def Timestamp.instant (timestamp : Timestamp) : Int :=
  timestamp.seconds * 1000000000 + timestamp.nanos.getD 0

/-- A number of so many digits at the front of a text, and the text behind it. -/
def readNumber (width : Nat) (text : List Char) : Option (Nat × List Char) :=
  if (text.take width).length = width ∧ (text.take width).all Char.isDigit then
    some (Nat.ofDigitChars 10 (text.take width) 0, text.drop width)
  else none

/-- The text behind a character. -/
def readChar (char : Char) : List Char → Option (List Char)
  | [] => none
  | first :: rest => if first = char then some rest else none

/-- `time-secfrac` of RFC 3339, which may be left out: its digits. -/
def readFraction : List Char → Option (List Char × List Char)
  | '.' :: text =>
    if text.takeWhile Char.isDigit = [] then none
    else some (text.takeWhile Char.isDigit, text.dropWhile Char.isDigit)
  | text => some ([], text)

/-- `time-offset` of RFC 3339 at the end of a text, in seconds. -/
def readOffset : List Char → Option Int
  | ['Z'] => some 0
  | sign :: text => do
    let (hours, text) ← readNumber 2 text
    let text ← readChar ':' text
    let (minutes, text) ← readNumber 2 text
    if text = [] ∧ hours ≤ 23 ∧ minutes ≤ 59 then
      if sign = '+' then some (hours * 3600 + minutes * 60)
      else if sign = '-' then some (-(hours * 3600 + minutes * 60))
      else none
    else none
  | [] => none

/-- `date-time` of RFC 3339: the seconds since 1970, and the digits of the fraction. -/
def readTime (text : List Char) : Option (Int × List Char) := do
  let (year, text) ← readNumber 4 text
  let text ← readChar '-' text
  let (month, text) ← readNumber 2 text
  let text ← readChar '-' text
  let (day, text) ← readNumber 2 text
  let text ← readChar 'T' text
  let (hour, text) ← readNumber 2 text
  let text ← readChar ':' text
  let (min, text) ← readNumber 2 text
  let text ← readChar ':' text
  let (sec, text) ← readNumber 2 text
  let (fraction, text) ← readFraction text
  let offset ← readOffset text
  if 1 ≤ month ∧ month ≤ 12 ∧ 1 ≤ day ∧ day ≤ 31 ∧ hour ≤ 23 ∧ min ≤ 59 ∧ sec ≤ 60 then
    some (Date.days ⟨year, month, day⟩ * 86400 + hour * 3600 + min * 60 + sec - offset, fraction)
  else none

/-- RFC 3339 reads the instant, in nanoseconds, in the text. -/
def Denotes (text : List Char) (instant : Int) : Prop :=
  ∃ seconds fraction, readTime text = some (seconds, fraction) ∧
    (instant - seconds * 1000000000) * (Nat.pow 10 fraction.length : Nat) =
      Nat.ofDigitChars 10 fraction 0 * 1000000000

/-- A day is one of the 365 or 366 days of its year. -/
theorem marchYear_spec (days : Int) :
    marchDays (marchYear days) ≤ days ∧ days ≤ marchDays (marchYear days) + 365 := by
  simp only [marchYear]
  generalize centuryOf : min 3 (days % 146097 / 36524) = century
  generalize dayOf : days % 146097 - century * 36524 = dayOfCentury
  generalize restOf : min 3 (dayOfCentury % 1461 / 365) = rest
  have centuries : 0 ≤ century ∧ century ≤ 3 ∧ 0 ≤ dayOfCentury ∧ dayOfCentury ≤ 36524 := by omega
  have years : 0 ≤ rest ∧ rest ≤ 3 ∧ rest * 365 ≤ dayOfCentury % 1461 ∧
      dayOfCentury % 1461 ≤ rest * 365 + 365 := by omega
  generalize yearOf : days / 146097 * 400 + century * 100 + dayOfCentury / 1461 * 4 + rest = year
  have four : year / 4 = days / 146097 * 100 + century * 25 + dayOfCentury / 1461 := by omega
  have hundred : year / 100 = days / 146097 * 4 + century := by omega
  have all : year / 400 = days / 146097 := by omega
  rw [marchDays, four, hundred, all]
  omega

theorem dateOf_valid (days : Int) : 1 ≤ (dateOf days).month ∧ (dateOf days).month ≤ 12 ∧
    1 ≤ (dateOf days).day ∧ (dateOf days).day ≤ 31 := by
  have spec := marchYear_spec (days + 719468)
  simp only [dateOf]
  omega

theorem days_dateOf (days : Int) : (dateOf days).days = days := by
  have spec := marchYear_spec (days + 719468)
  simp only [dateOf, Date.days]
  split
  next early =>
    rw [if_pos (by omega), if_pos (by omega)]
    omega
  next late =>
    rw [if_neg (by omega), if_neg (by omega), Int.add_sub_cancel]
    omega

/-- The years of four digits. -/
theorem year_iff (days : Int) : 1000 ≤ (dateOf days).year ∧ (dateOf days).year ≤ 9999 ↔
    -354285 ≤ days ∧ days < 2932897 := by
  have spec := marchYear_spec (days + 719468)
  simp only [dateOf]
  generalize marchYear (days + 719468) = year at *
  simp only [marchDays] at *
  by_cases first : year = 999
  · subst first
    omega
  by_cases last : year = 9999
  · subst last
    omega
  omega
section Texts

variable {width : Nat} {value : Int} {digits rest text : List Char}

theorem isDigit_printInt (positive : 0 ≤ value) : ∀ char ∈ printInt width value, char.isDigit := by
  rw [printInt, if_neg (by omega), leftpad]
  refine forall_mem_append.mpr ⟨fun char padding => ?_, fun char digit => ?_⟩
  · rw [eq_of_mem_replicate padding]
    rfl
  · exact Nat.isDigit_of_mem_toDigits (by decide) (by decide) digit

theorem ofDigitChars_printInt (positive : 0 ≤ value) :
    Nat.ofDigitChars 10 (printInt width value) 0 = value.natAbs := by
  rw [printInt, if_neg (by omega), leftpad, Nat.ofDigitChars_append,
    Nat.ofDigitChars_replicate_zero, Nat.mul_zero, Nat.ofDigitChars_ten_toDigits]

theorem length_printInt (positive : 0 ≤ value) :
    (printInt width value).length = max width (Nat.toDigits 10 value.natAbs).length := by
  rw [printInt, if_neg (by omega), length_leftpad]

theorem length_toDigits_le_iff {number count : Nat} (positive : 0 < count) :
    (Nat.toDigits 10 number).length ≤ count ↔ number < Nat.pow 10 count :=
  Nat.length_toDigits_le_iff (by decide) positive

theorem readNumber_append (length : digits.length = width)
    (all : ∀ char ∈ digits, char.isDigit) :
    readNumber width (digits ++ rest) = some (Nat.ofDigitChars 10 digits 0, rest) := by
  rw [readNumber, take_left' length, drop_left' length, if_pos ⟨length, all_eq_true.mpr all⟩]

/-- A number is read as it is written. -/
theorem readNumber_printInt (some : 0 < width) (positive : 0 ≤ value)
    (less : value.natAbs < Nat.pow 10 width) (rest : List Char) :
    readNumber width (printInt width value ++ rest) = Option.some (value.natAbs, rest) := by
  have short := (length_toDigits_le_iff some).mpr less
  rw [readNumber_append (by rw [length_printInt positive]; omega) (isDigit_printInt positive),
    ofDigitChars_printInt positive]

@[simp] theorem readChar_cons (char : Char) (rest : List Char) :
    readChar char (char :: rest) = some rest := if_pos rfl

theorem length_year_iff (positive : 0 ≤ value) :
    (printInt 1 value).length = 4 ↔ 1000 ≤ value ∧ value ≤ 9999 := by
  have four := @length_toDigits_le_iff value.natAbs 4 (by decide)
  have three := @length_toDigits_le_iff value.natAbs 3 (by decide)
  simp only [show Nat.pow 10 4 = 10000 from rfl, show Nat.pow 10 3 = 1000 from rfl] at four three
  rw [length_printInt positive]
  omega

/-- A year that is read has four digits. -/
theorem year_of_read {read : Nat × List Char}
    (year : readNumber 4 (printInt 1 value ++ '-' :: rest) = some read)
    (dash : readChar '-' read.2 = some text) : 1000 ≤ value ∧ value ≤ 9999 := by
  rw [readNumber] at year
  split at year
  next taken =>
    cases year
    have all := all_eq_true.mp taken.2
    have positive : 0 ≤ value := by
      by_contra negative
      have sign : printInt 1 value = '-' :: Nat.toDigits 10 value.natAbs := by
        simp [printInt, Int.not_le.mp negative, leftpad]
      exact absurd (all '-' (by simp [sign])) (by decide)
    have digits := @isDigit_printInt 1 value positive
    rw [← length_year_iff positive]
    rcases Nat.lt_trichotomy (printInt 1 value).length 4 with short | four | long
    · have inside : '-' ∈ (printInt 1 value ++ '-' :: rest).take 4 := by
        obtain ⟨count, counted⟩ := Nat.exists_eq_add_of_lt short
        rw [take_append, show 4 - (printInt 1 value).length = count + 1 by omega]
        exact mem_append_right _ mem_cons_self
      exact absurd (all '-' inside) (by decide)
    · exact four
    · rw [drop_append_of_le_length (Nat.le_of_lt long)] at dash
      cases digit : (printInt 1 value).drop 4 with
      | nil => exact absurd (drop_eq_nil_iff.mp digit) (by omega)
      | cons first more =>
        have isDigit := digits first (mem_of_mem_drop (by rw [digit]; exact mem_cons_self))
        rw [digit, cons_append, readChar] at dash
        split at dash
        next same => exact absurd (same ▸ isDigit) (by decide)
        · cases dash
  · cases year

end Texts

theorem readOffset_zone {value : Int} {sign : Char} (small : 0 ≤ value ∧ value ≤ 23)
    (isSign : sign = '+' ∨ sign = '-') :
    readOffset (sign :: (printInt 2 value ++ ":00".toList)) =
      some (if sign = '+' then value * 3600 else -(value * 3600)) := by
  have hours := readNumber_printInt (by decide) small.1
    (show value.natAbs < Nat.pow 10 2 by have := show Nat.pow 10 2 = 100 from rfl; omega)
    [':', '0', '0']
  have minutes : readNumber 2 ['0', '0'] = some (0, []) := by decide
  have few : value.natAbs ≤ 23 := by omega
  have same : (value.natAbs : Int) = value := Int.natAbs_of_nonneg small.1
  rcases isSign with rfl | rfl
  · simp [readOffset, hours, minutes, few, same]
  · simp [readOffset, hours, minutes, few, same]

/-- The fields of a time give it back. -/
theorem gmtime_seconds (seconds : Int) :
    (gmtime seconds).days * 86400 + (gmtime seconds).hour * 3600 + (gmtime seconds).min * 60 +
      (gmtime seconds).sec = seconds := by
  simp only [gmtime, days_dateOf]
  omega

/-- The date and the time of day are read as they are written. -/
theorem readTime_strftime {seconds : Int} (early : 1000 ≤ (gmtime seconds).year)
    (late : (gmtime seconds).year ≤ 9999) (rest : List Char) :
    readTime (strftime (gmtime seconds) rest) =
      (readFraction rest).bind fun read =>
        (readOffset read.2).map fun offset => (seconds - offset, read.1) := by
  obtain ⟨month, december, day, last⟩ := dateOf_valid (seconds / 86400)
  have hour : 0 ≤ (gmtime seconds).hour ∧ (gmtime seconds).hour ≤ 23 := by
    simp only [gmtime]
    omega
  have min : 0 ≤ (gmtime seconds).min ∧ (gmtime seconds).min ≤ 59 := by
    simp only [gmtime]
    omega
  have sec : 0 ≤ (gmtime seconds).sec ∧ (gmtime seconds).sec ≤ 59 := by
    simp only [gmtime]
    omega
  have back := gmtime_seconds seconds
  have year := fun rest => @readNumber_append 4 _ rest
    ((length_year_iff (by omega)).mpr ⟨early, late⟩) (isDigit_printInt (by omega))
  have two : ∀ value : Int, 0 ≤ value ∧ value ≤ 99 → ∀ rest,
      readNumber 2 (printInt 2 value ++ rest) = some (value.natAbs, rest) := by
    intro value small
    have hundred : Nat.pow 10 2 = 100 := rfl
    exact readNumber_printInt (by decide) small.1 (by omega)
  change 1 ≤ (gmtime seconds).month at month
  change (gmtime seconds).month ≤ 12 at december
  change 1 ≤ (gmtime seconds).day at day
  change (gmtime seconds).day ≤ 31 at last
  generalize gmtime seconds = tm at *
  unfold readTime strftime
  simp only [year, two tm.month ⟨by omega, by omega⟩, two tm.day ⟨by omega, by omega⟩,
    two tm.hour ⟨by omega, by omega⟩, two tm.min ⟨by omega, by omega⟩,
    two tm.sec ⟨by omega, by omega⟩, readChar_cons, Option.bind_eq_bind, Option.bind_some,
    ofDigitChars_printInt (show 0 ≤ tm.year by omega)]
  have date : Date.days ⟨tm.year.natAbs, tm.month.natAbs, tm.day.natAbs⟩ = tm.days := by
    congr 1
    rw [Int.natAbs_of_nonneg (by omega), Int.natAbs_of_nonneg (by omega),
      Int.natAbs_of_nonneg (by omega)]
  cases readFraction rest with
  | none => rfl
  | some read =>
    rw [Option.bind_some, Option.bind_some]
    cases readOffset read.2 with
    | none => rfl
    | some offset =>
      rw [Option.bind_some, Option.map_some, if_pos (by omega), date]
      congr 2
      omega

theorem length_nanos {nanos : Int} (positive : 0 ≤ nanos) :
    (nanos < 1000000000 → (printInt 9 nanos).length = 9) ∧
      (1000000000 ≤ nanos → nanos < 10000000000 → (printInt 9 nanos).length = 10) := by
  have nine := @length_toDigits_le_iff nanos.natAbs 9 (by decide)
  have ten := @length_toDigits_le_iff nanos.natAbs 10 (by decide)
  simp only [show Nat.pow 10 9 = 1000000000 from rfl,
    show Nat.pow 10 10 = 10000000000 from rfl] at nine ten
  rw [length_printInt positive]
  omega

section Buffer

variable (offset : Int) (timestamp : Timestamp)

theorem tmZone_small (seconds : Int) : -12 ≤ tmZone offset seconds ∧
    tmZone offset seconds ≤ 12 := by
  simp only [tmZone, localtime, gmtime]
  omega

/-- Behind the seconds there are the nanoseconds, unless they are negative, and the zone. -/
theorem readFraction_buffer {nanos zone : Int} (total : Int) (small : -12 ≤ zone ∧ zone ≤ 12) :
    ((readFraction ('.' :: (printInt 9 nanos ++
        (if 0 ≤ zone then '+' :: printInt 2 zone else '-' :: printInt 2 (-zone)) ++
          ":00".toList))).bind
      fun read => (readOffset read.2).map fun offset => (total - offset, read.1)) =
    if nanos < 0 then none else some (total - zone * 3600, printInt 9 nanos) := by
  by_cases negative : nanos < 0
  · simp [readFraction, printInt, negative, show ¬ '-'.isDigit by decide]
  have digits := @isDigit_printInt 9 nanos (by omega)
  have filled : printInt 9 nanos ≠ [] := by
    intro empty
    have length := @length_printInt 9 nanos (by omega)
    rw [empty, length_nil] at length
    omega
  have cut : ∀ sign rest, Char.isDigit sign = false →
      readFraction ('.' :: (printInt 9 nanos ++ sign :: rest)) =
        some (printInt 9 nanos, sign :: rest) := by
    intro sign rest notDigit
    have taken : (printInt 9 nanos ++ sign :: rest).takeWhile Char.isDigit = printInt 9 nanos := by
      rw [takeWhile_append_of_pos digits, takeWhile_cons_of_neg (by simp [notDigit]), append_nil]
    rw [readFraction, taken, if_neg filled, dropWhile_append_of_pos digits,
      dropWhile_cons_of_neg (by simp [notDigit])]
  rw [if_neg negative]
  split
  next east =>
    rw [append_assoc, cons_append, cut '+' _ (by decide), Option.bind_some,
      readOffset_zone (by omega) (.inl rfl), if_pos rfl, Option.map_some]
  next west =>
    rw [append_assoc, cons_append, cut '-' _ (by decide), Option.bind_some,
      readOffset_zone (by omega) (.inr rfl), if_neg (by decide), Option.map_some, Int.neg_mul,
      Int.neg_neg]

/-- What RFC 3339 reads in the text: the local time less the zone that is written. -/
theorem readTime_buffer_iff {seconds : Int} {fraction : List Char} :
    readTime (utilGetTimeBuffer offset timestamp) = some (seconds, fraction) ↔
      (1000 ≤ (localtime offset timestamp.seconds).year ∧
        (localtime offset timestamp.seconds).year ≤ 9999) ∧
      0 ≤ timestamp.nanos.getD 0 ∧
      seconds = timestamp.seconds + offset - tmZone offset timestamp.seconds * 3600 ∧
      fraction = printInt 9 (timestamp.nanos.getD 0) := by
  by_cases fourDigits : 1000 ≤ (localtime offset timestamp.seconds).year ∧
      (localtime offset timestamp.seconds).year ≤ 9999
  · rw [utilGetTimeBuffer, localtime, readTime_strftime fourDigits.1 fourDigits.2,
      readFraction_buffer _ (tmZone_small offset timestamp.seconds), ← localtime,
      and_iff_right fourDigits]
    split
    next negative => exact iff_of_false nofun (by omega)
    next positive =>
      rw [and_iff_right (by omega)]
      simp [eq_comm]
  · refine iff_of_false (fun read => fourDigits ?_) (fun read => fourDigits read.1)
    obtain ⟨⟨year, behind⟩, first, rest⟩ := Option.bind_eq_some_iff.mp read
    obtain ⟨text, dash, -⟩ := Option.bind_eq_some_iff.mp rest
    exact year_of_read first dash

/-- The text denotes the instant exactly for offsets of whole hours below 12, and for one of 12
hours in half of the day, when the nanoseconds are less than a second and the local year has
four digits. -/
theorem utilGetTimeBuffer_instant_iff :
    Denotes (utilGetTimeBuffer offset timestamp) timestamp.instant ↔
      offset % 3600 = 0 ∧
        (-43200 < offset ∧ offset < 43200 ∨
          offset = 43200 ∧ timestamp.seconds % 86400 < 43200 ∨
          offset = -43200 ∧ 43200 ≤ timestamp.seconds % 86400) ∧
        (∀ nanos ∈ timestamp.nanos, 0 ≤ nanos ∧ nanos < 1000000000) ∧
        -30610224000 ≤ timestamp.seconds + offset ∧
        timestamp.seconds + offset < 253402300800 := by
  have years : 1000 ≤ (localtime offset timestamp.seconds).year ∧
      (localtime offset timestamp.seconds).year ≤ 9999 ↔
      -30610224000 ≤ timestamp.seconds + offset ∧ timestamp.seconds + offset < 253402300800 := by
    refine (year_iff _).trans ?_
    omega
  have zones : offset = tmZone offset timestamp.seconds * 3600 ↔ offset % 3600 = 0 ∧
      (-43200 < offset ∧ offset < 43200 ∨
        offset = 43200 ∧ timestamp.seconds % 86400 < 43200 ∨
        offset = -43200 ∧ 43200 ≤ timestamp.seconds % 86400) := by
    simp only [tmZone, localtime, gmtime]
    omega
  have all : (∀ nanos ∈ timestamp.nanos, 0 ≤ nanos ∧ nanos < 1000000000) ↔
      0 ≤ timestamp.nanos.getD 0 ∧ timestamp.nanos.getD 0 < 1000000000 := by
    cases timestamp.nanos <;> simp
  have most : timestamp.nanos.getD 0 ≤ 2147483647 := by
    cases given : timestamp.nanos with
    | none => decide
    | some value => exact (timestamp.int32 value given).2
  rw [← and_assoc, ← zones, ← years, all]
  unfold Denotes Timestamp.instant
  simp only [readTime_buffer_iff]
  generalize timestamp.nanos.getD 0 = nanos at most
  constructor
  · rintro ⟨_, _, ⟨year, positive, rfl, rfl⟩, same⟩
    rw [ofDigitChars_printInt positive, Int.natAbs_of_nonneg positive] at same
    by_cases less : nanos < 1000000000
    · rw [(length_nanos positive).1 less] at same
      refine ⟨?_, ⟨positive, less⟩, year⟩
      simp only [show Nat.pow 10 9 = 1000000000 from rfl] at same
      omega
    · rw [(length_nanos positive).2 (by omega) (by omega)] at same
      simp only [show Nat.pow 10 10 = 10000000000 from rfl] at same
      omega
  · rintro ⟨zone, ⟨positive, less⟩, year⟩
    refine ⟨_, _, ⟨year, positive, rfl, rfl⟩, ?_⟩
    rw [ofDigitChars_printInt positive, Int.natAbs_of_nonneg positive,
      (length_nanos positive).1 less]
    simp only [show Nat.pow 10 9 = 1000000000 from rfl]
    omega

end Buffer

/-- The time 0 where the clocks are five hours and a half ahead is written as half past twelve. -/
theorem utilGetTimeBuffer_half_hour :
    utilGetTimeBuffer 19800 ⟨0, none, nofun⟩ = "1970-01-01T05:30:00.000000000+05:00".toList ∧
      ¬ Denotes (utilGetTimeBuffer 19800 ⟨0, none, nofun⟩)
        (Timestamp.instant ⟨0, none, nofun⟩) := by
  refine ⟨by decide +kernel, ?_⟩
  rintro ⟨seconds, fraction, read, same⟩
  cases read.symm.trans (show readTime (utilGetTimeBuffer 19800 ⟨0, none, nofun⟩) =
    some (1800, "000000000".toList) by decide +kernel)
  exact absurd same (by decide)

/-- `INT64_MAX`. -/
def int64Max : Nat := 9223372036854775807

/-- The number that digits denote in a base. -/
def numeral (base : Nat) (digits : List Char) : Nat :=
  digits.foldl (fun number digit => number * base + (digit.toNat - '0'.toNat)) 0

/-- The base in which `strtoll`, called with base 0, reads digits. -/
def strtollBase (digits : List Char) : Nat := if digits.head? = some '0' then 8 else 10

/-- `strtoll` stops before the end of the digits, or their number is out of range. -/
def unreadable (digits : List Char) : Bool :=
  digits.any (fun digit => strtollBase digits ≤ digit.toNat - '0'.toNat) ||
    int64Max < numeral (strtollBase digits) digits

/-- `util_safe_llong` of digits. -/
def utilSafeLlong (digits : List Char) : Option Nat :=
  if unreadable digits then none else some (numeral (strtollBase digits) digits)

/-- `get_time_unit`, of the text that the pattern allows behind the digits. -/
def getTimeUnit : List Char → Option Nat
  | ['m', 's'] => some 1000000
  | ['s'] => some 1000000000
  | ['m'] => some 60000000000
  | ['h'] => some 3600000000000
  | _ => none

/-- `util_time_str_to_nanoseconds`: whether it returns 0, and what `*nanoseconds` is then. -/
def utilTimeStrToNanoseconds (value : List Char) (nanoseconds : Int) : Bool × Int :=
  let numStr := value.takeWhile Char.isDigit
  match getTimeUnit (value.dropWhile Char.isDigit) with
  | none => (false, nanoseconds)
  | some unit =>
    if numStr = [] then (false, nanoseconds)
    else
      match utilSafeLlong numStr with
      | none => (false, nanoseconds)
      | some tmp =>
        if tmp = 0 then (true, nanoseconds)
        else if unit ≤ int64Max / tmp then (true, tmp * unit)
        else (false, tmp)

/-- A string that is accepted has its value written, and one whose value is too large is refused
and leaves the output. -/
def ExactTime (value : List Char) : Prop :=
  ∀ unit, getTimeUnit (value.dropWhile Char.isDigit) = some unit → ∀ nanoseconds,
    let exact := numeral 10 (value.takeWhile Char.isDigit) * unit
    let result := utilTimeStrToNanoseconds value nanoseconds
    (result.1 = true → result.2 = exact) ∧
      (int64Max < exact → result = (false, nanoseconds))

theorem numeral_eight {digits : List Char} (octal : ∀ digit ∈ digits, digit.toNat - '0'.toNat < 8) :
    numeral 8 digits ≤ numeral 10 digits ∧
      (numeral 8 digits = numeral 10 digits ↔ numeral 10 digits < 8) := by
  induction digits using List.reverseRecOn with
  | nil => simp [numeral]
  | append_singleton digits digit ih =>
    have small := octal digit (by simp)
    obtain ⟨le, same⟩ := ih fun other member => octal other (by simp [member])
    simp only [numeral, List.foldl_append, List.foldl_cons, List.foldl_nil] at le same ⊢
    omega

theorem numeral_strtollBase {digits : List Char} (readable : ¬ unreadable digits) :
    numeral (strtollBase digits) digits ≤ numeral 10 digits ∧
      (numeral (strtollBase digits) digits = numeral 10 digits ↔
        strtollBase digits = 10 ∨ numeral 10 digits < 8) := by
  by_cases zero : digits.head? = some '0'
  · have eight : strtollBase digits = 8 := if_pos zero
    simp [unreadable, eight] at readable
    simpa [eight] using numeral_eight readable.1
  · have ten : strtollBase digits = 10 := if_neg zero
    simp [ten]

/-- What is read is written exactly if it is the decimal number, which is not 0 and fits with its
unit. -/
theorem exactTime_iff (value : List Char) :
    ExactTime value ↔ ∀ unit, getTimeUnit (value.dropWhile Char.isDigit) = some unit →
      let digits := value.takeWhile Char.isDigit
      digits = [] ∨ unreadable digits ∨
        (strtollBase digits = 10 ∨ numeral 10 digits < 8) ∧ numeral 10 digits ≠ 0 ∧
          numeral 10 digits * unit ≤ int64Max := by
  refine forall₂_congr fun unit known => ?_
  simp only [utilTimeStrToNanoseconds, known, utilSafeLlong]
  generalize value.takeWhile Char.isDigit = digits
  by_cases empty : digits = []
  · simp [empty, numeral]
  by_cases unread : unreadable digits
  · simp [empty, unread]
  obtain ⟨le, same⟩ := numeral_strtollBase unread
  simp only [empty, unread, Bool.false_eq_true, if_false, false_or, ← same]
  generalize numeral 10 digits = number at le
  generalize numeral (strtollBase digits) digits = read at le
  have scaled := Nat.mul_le_mul_right unit le
  by_cases zero : read = 0
  · refine iff_of_false (fun exact => ?_) (by omega)
    subst zero
    have written : (number * unit + 1 : Int) = (number * unit : Nat) := (exact _).1 rfl
    omega
  simp only [zero, if_false, Nat.le_div_iff_mul_le (Nat.pos_of_ne_zero zero), Nat.mul_comm unit]
  split
  next fits =>
    have positive : 0 < unit := by
      unfold getTimeUnit at known
      split at known <;> cases known <;> decide
    constructor
    · intro exact
      have written := (Int.natCast_mul read unit).trans ((exact 0).1 rfl)
      cases Nat.eq_of_mul_eq_mul_right positive (Int.ofNat.inj written)
      exact ⟨rfl, zero, fits⟩
    · rintro ⟨rfl, -, -⟩ nanoseconds
      exact ⟨fun _ => (Int.natCast_mul read unit).symm, fun large => absurd fits (by omega)⟩
  next large =>
    refine iff_of_false (fun exact => ?_) ?_
    · have kept : (read : Int) = read + 1 := congrArg Prod.snd ((exact _).2 (by omega))
      omega
    · rintro ⟨rfl, -, fits⟩
      exact large fits

theorem exactTime_fails_octal :
    utilTimeStrToNanoseconds "010s".toList 0 = (true, 8000000000) ∧ ¬ ExactTime "010s".toList := by
  have read : utilTimeStrToNanoseconds "010s".toList 0 = (true, 8000000000) := by decide +kernel
  refine ⟨read, fun exact => ?_⟩
  have written := (exact 1000000000 (by decide +kernel) 0).1 (by rw [read])
  rw [read] at written
  exact absurd written (by decide +kernel)

end Isulad.Utils
