import Isulad.Utils.Timestamp

/-!
# Sizes with a unit

`util_parse_byte_size_string` of `utils_string.c` cuts a text behind its digits and dots, looks up
the unit that follows and multiplies. What a fraction comes to is worked out with doubles and is a
parameter here.
-/

namespace Isulad.Utils

open List

/-- `g_unit_map`. -/
def unitMap : List (List Char × Nat) :=
  [("I".toList, 1), ("B".toList, 1), ("IB".toList, 1)] ++
    [('K', 1024), ('M', 1048576), ('G', 1073741824), ('T', 1099511627776),
      ('P', 1125899906842624)].flatMap fun (letter, mltpl) =>
        [([letter], mltpl), ([letter, 'I'], mltpl), ([letter, 'B'], mltpl),
          ([letter, 'I', 'B'], mltpl)]

/-- `parse_unit_multiple`. -/
def parseUnitMultiple (unit : List Char) : Option Nat :=
  if unit = [] then some 1
  else (unitMap.find? fun entry => unit.map Char.toLower = entry.1.map Char.toLower).map Prod.snd

/-- The bytes of the text behind a dot and a multiple: `(int64_t)(float_size * mlt)`, if
`util_safe_strtod` reads the text and the size is in range. -/
abbrev Fraction := List Char → Nat → Option Nat

variable (fraction : Fraction)

/-- `util_parse_size_int_and_float`. -/
def utilParseSizeIntAndFloat (numstr : List Char) (mlt : Nat) : Option Nat := do
  let int := numstr.takeWhile (· ≠ '.')
  let dot := numstr.dropWhile (· ≠ '.')
  let floatReal ←
    if dot = [] then some 0
    else if int = [] ∨ dot.tail = [] then none
    else fraction dot.tail mlt
  let intSize ← utilSafeLlong int
  if int64Max / mlt < intSize then none
  else if int64Max - intSize * mlt < floatReal then none
  else some (intSize * mlt + floatReal)

/-- `util_parse_byte_size_string`. -/
def utilParseByteSizeString (s : List Char) : Option Nat :=
  let inNumber : Char → Bool := fun char => char.isDigit || char == '.'
  if s.head?.any Char.isDigit then
    (parseUnitMultiple (s.dropWhile inNumber)).bind
      (utilParseSizeIntAndFloat fraction (s.takeWhile inNumber))
  else none

/-- Digits with a unit behind them. -/
structure ByteSize where
  digits : List Char
  unit : List Char
  mltpl : Nat
  nonempty : digits ≠ []
  decimal : digits.all Char.isDigit = true
  known : parseUnitMultiple unit = some mltpl

/-- The size is the decimal number of units, unless it is too large. -/
def ByteSize.Exact (size : ByteSize) : Prop :=
  utilParseByteSizeString fraction (size.digits ++ size.unit) =
    if numeral 10 size.digits * size.mltpl ≤ int64Max then
      some (numeral 10 size.digits * size.mltpl) else none

/-- Every unit has a multiple and begins with a letter. -/
theorem unitMap_spec : ∀ entry ∈ unitMap, 0 < entry.2 ∧
    (entry.1.map Char.toLower).head?.any ['i', 'b', 'k', 'm', 'g', 't', 'p'].contains := by
  decide

theorem toLower_of_inNumber {char : Char} (inNumber : (char.isDigit || char == '.') = true) :
    char.toLower = char := by
  have small : char.val.toNat < 65 := by
    simp only [Bool.or_eq_true, Char.isDigit, Bool.and_eq_true, decide_eq_true_eq, beq_iff_eq,
      UInt32.le_iff_toNat_le] at inNumber
    rcases inNumber with ⟨-, most⟩ | rfl
    · exact Nat.lt_of_le_of_lt most (by decide)
    · decide
  refine dif_neg ?_
  rintro ⟨least, -⟩
  exact absurd (UInt32.le_iff_toNat_le.mp least) (Nat.not_le.mpr small)

theorem parseUnitMultiple_cons {char : Char} {rest : List Char} {mltpl : Nat}
    (known : parseUnitMultiple (char :: rest) = some mltpl) :
    0 < mltpl ∧ (char.isDigit || char == '.') = false := by
  rw [parseUnitMultiple, if_neg (cons_ne_nil char rest)] at known
  obtain ⟨entry, found, rfl⟩ := Option.map_eq_some_iff.mp known
  have same : (char :: rest).map Char.toLower = entry.1.map Char.toLower := by
    simpa using find?_some found
  obtain ⟨positive, letter⟩ := unitMap_spec entry (mem_of_find?_eq_some found)
  refine ⟨positive, ?_⟩
  rw [← same] at letter
  by_contra inNumber
  rw [Bool.not_eq_false] at inNumber
  have lower : ['i', 'b', 'k', 'm', 'g', 't', 'p'].contains char = true := by
    simpa [toLower_of_inNumber inNumber] using letter
  simp only [contains_eq_mem, mem_cons, not_mem_nil, or_false, decide_eq_true_eq] at lower
  rcases lower with rfl | rfl | rfl | rfl | rfl | rfl | rfl <;> revert inNumber <;> decide

theorem ByteSize.isDigit (size : ByteSize) : ∀ digit ∈ size.digits, digit.isDigit = true :=
  all_eq_true.mp size.decimal

theorem ByteSize.mltpl_pos (size : ByteSize) : 0 < size.mltpl := by
  have known := size.known
  cases unit : size.unit with
  | nil =>
    rw [unit] at known
    rw [← Option.some.inj known]
    exact Nat.one_pos
  | cons char rest =>
    rw [unit] at known
    exact (parseUnitMultiple_cons known).1

/-- The text is cut between the digits and the unit. -/
theorem ByteSize.cut (size : ByteSize) :
    (size.digits ++ size.unit).takeWhile (fun char => char.isDigit || char == '.') = size.digits ∧
      (size.digits ++ size.unit).dropWhile (fun char => char.isDigit || char == '.') =
        size.unit := by
  have number : ∀ char ∈ size.digits, (char.isDigit || char == '.') = true := fun char member => by
    rw [size.isDigit char member, Bool.true_or]
  rw [takeWhile_append_of_pos number, dropWhile_append_of_pos number]
  have known := size.known
  cases unit : size.unit with
  | nil => simp
  | cons char rest =>
    rw [unit] at known
    have other := (parseUnitMultiple_cons known).2
    simp [other]

theorem ByteSize.parse_eq (size : ByteSize) :
    utilParseByteSizeString fraction (size.digits ++ size.unit) =
      (utilSafeLlong size.digits).bind fun number =>
        if number * size.mltpl ≤ int64Max then some (number * size.mltpl) else none := by
  have noDot : ∀ digit ∈ size.digits, decide (digit ≠ '.') = true := by
    intro digit member
    refine decide_eq_true ?_
    rintro rfl
    exact absurd (size.isDigit _ member) (by decide)
  have int : size.digits.takeWhile (· ≠ '.') = size.digits := by
    have whole := @takeWhile_append_of_pos _ _ _ [] noDot
    rwa [append_nil, takeWhile_nil, append_nil] at whole
  have dot : size.digits.dropWhile (· ≠ '.') = [] := by
    have whole := @dropWhile_append_of_pos _ _ _ [] noDot
    rwa [append_nil, dropWhile_nil] at whole
  have begins : (size.digits ++ size.unit).head?.any Char.isDigit = true := by
    obtain ⟨first, rest, digits⟩ := exists_cons_of_ne_nil size.nonempty
    simp [digits, size.isDigit first (by simp [digits])]
  unfold utilParseByteSizeString utilParseSizeIntAndFloat
  simp only [begins, if_true, size.cut.1, size.cut.2, size.known, Option.bind_some, int, dot,
    Option.bind_eq_bind]
  refine congrArg (Option.bind (utilSafeLlong size.digits)) (funext fun number => ?_)
  have product := Nat.le_div_iff_mul_le size.mltpl_pos (x := number) (y := int64Max)
  by_cases fits : number * size.mltpl ≤ int64Max
  · rw [if_pos fits, if_neg (Nat.not_lt.mpr (product.mpr fits)), if_neg (Nat.not_lt_zero _),
      Nat.add_zero]
  · rw [if_neg fits, if_pos (Nat.not_le.mp (mt product.mp fits))]

/-- A digit is at most the number that it stands in. -/
theorem digit_le_numeral {digits : List Char} {digit : Char} (member : digit ∈ digits) :
    digit.toNat - '0'.toNat ≤ numeral 10 digits := by
  induction digits using List.reverseRecOn with
  | nil => cases member
  | append_singleton digits last ih =>
    simp only [numeral, foldl_append, foldl_cons, foldl_nil] at ih ⊢
    rcases mem_append.mp member with before | here
    · have le := ih before
      omega
    · rw [mem_singleton.mp here]
      omega

/-- Two numbers of units give one size exactly if they are the same or both too large. -/
theorem sizes_eq_iff {a b k : Nat} (positive : 0 < k) (le : a ≤ b) :
    (if a * k ≤ int64Max then some (a * k) else none) =
      (if b * k ≤ int64Max then some (b * k) else none) ↔ a = b ∨ int64Max < a * k := by
  have scaled := Nat.mul_le_mul_right k le
  constructor
  · intro same
    by_cases fits : a * k ≤ int64Max
    · rw [if_pos fits] at same
      obtain ⟨-, product⟩ := Option.ite_none_right_eq_some.mp same.symm
      exact .inl (Nat.eq_of_mul_eq_mul_right positive (Option.some.inj product).symm)
    · exact .inr (Nat.not_le.mp fits)
  · rintro (rfl | large)
    · rfl
    · rw [if_neg (by omega), if_neg (by omega)]

/-- Digits of the base are read as their number, as far as the size goes. -/
theorem size_of_digits {digits : List Char} {k : Nat} (positive : 0 < k)
    (small : ∀ digit ∈ digits, digit.toNat - '0'.toNat < strtollBase digits) :
    ((utilSafeLlong digits).bind fun number =>
        if number * k ≤ int64Max then some (number * k) else none) =
      if numeral (strtollBase digits) digits * k ≤ int64Max then
        some (numeral (strtollBase digits) digits * k) else none := by
  have readable : unreadable digits = decide (int64Max < numeral (strtollBase digits) digits) := by
    rw [unreadable, Bool.or_eq_right_iff_imp]
    intro outside
    obtain ⟨digit, member, large⟩ := any_eq_true.mp outside
    exact absurd (small digit member) (Nat.not_lt.mpr (of_decide_eq_true large))
  rw [utilSafeLlong, readable]
  by_cases beyond : int64Max < numeral (strtollBase digits) digits
  · have larger := Nat.lt_of_lt_of_le beyond (Nat.le_mul_of_pos_right _ positive)
    rw [if_pos (decide_eq_true beyond), if_neg (Nat.not_le.mpr larger)]
    rfl
  · rw [if_neg (by simpa using beyond)]
    rfl

/-- A size is exact exactly if its digits are read in base 10, or denote a number below 8, or one
that is too large in the base of the digits. -/
theorem ByteSize.exact_iff (size : ByteSize) :
    size.Exact fraction ↔ strtollBase size.digits = 10 ∨ numeral 10 size.digits < 8 ∨
      int64Max < (if size.digits.all fun digit => digit.toNat - '0'.toNat < 8 then
        numeral 8 size.digits else numeral 10 size.digits) * size.mltpl := by
  have positive := size.mltpl_pos
  have decimal : ∀ digit ∈ size.digits, digit.toNat - '0'.toNat < 10 := by
    intro digit member
    have most := size.isDigit digit member
    simp only [Char.isDigit, Bool.and_eq_true, decide_eq_true_eq, UInt32.le_iff_toNat_le] at most
    have value : digit.val.toNat ≤ 57 := most.2
    exact Nat.lt_of_le_of_lt (Nat.sub_le_sub_right value _) (by decide)
  rw [Exact, size.parse_eq]
  by_cases zero : size.digits.head? = some '0'
  · have eight : strtollBase size.digits = 8 := if_pos zero
    rw [or_iff_right (by rw [eight]; decide)]
    by_cases octal : ∀ digit ∈ size.digits, digit.toNat - '0'.toNat < 8
    · obtain ⟨le, same⟩ := numeral_eight octal
      rw [size_of_digits positive (eight ▸ octal), eight, sizes_eq_iff positive le, same,
        if_pos (by simpa using octal)]
    · -- a digit above 7 ends the number, and the text is refused
      obtain ⟨digit, member, nine⟩ : ∃ digit ∈ size.digits, ¬ digit.toNat - '0'.toNat < 8 := by
        simpa using octal
      have stops : unreadable size.digits = true := by
        rw [unreadable, eight, Bool.or_eq_true]
        exact .inl (any_eq_true.mpr ⟨digit, member, decide_eq_true (Nat.not_lt.mp nine)⟩)
      have large := digit_le_numeral member
      have notAll : ¬ (size.digits.all fun digit => digit.toNat - '0'.toNat < 8) = true := by
        simpa using octal
      rw [utilSafeLlong, if_pos stops, if_neg notAll, or_iff_right (by omega)]
      simp
  · have ten : strtollBase size.digits = 10 := if_neg zero
    rw [size_of_digits positive (ten ▸ decimal), ten]
    simp

/-- Ten kibibytes, written with a zero in front. -/
def tenKibibytes : ByteSize where
  digits := "010".toList
  unit := "k".toList
  mltpl := 1024
  nonempty := by decide
  decimal := by decide
  known := by decide

/-- They are read as eight. -/
theorem ByteSize.exact_fails_octal :
    utilParseByteSizeString (fun _ _ => none) "010k".toList = some 8192 ∧
      ¬ tenKibibytes.Exact fun _ _ => none := by
  have read : utilParseByteSizeString (fun _ _ => none) "010k".toList = some 8192 := by decide
  refine ⟨read, fun exact => ?_⟩
  exact absurd (read.symm.trans exact) (by decide)

end Isulad.Utils
