import Isulad.Std.Loop
import Mathlib.Logic.Function.Basic

/-!
# The query of a URL

`ParseQuery` looks for a separator and cuts the query at none: each round takes the whole of it for
one pair, and only a query without a separator is emptied. `Values::Encode` writes one pair for
each value of a key, with the bytes of both escaped.
-/

namespace Isulad.Utils

open Isulad.Std

/-- The values of each key, none for one that is not in the map. -/
abbrev Values := List Char → List (List Char)

/-- The variables of the loop. -/
structure Parsing where
  query : List Char
  m : Values

variable (queryUnescape : List Char → List Char)

/-- The map after `m[key].push_back(value)`, unless the key is empty. -/
def pushBack (m : Values) (text : List Char) : Values :=
  let key := queryUnescape (text.takeWhile (· ≠ '='))
  -- without a `=`, `substr` begins at `npos + 1`, which is 0
  let value := if '=' ∈ text then (text.dropWhile (· ≠ '=')).tail else text
  if key = [] then m else Function.update m key (m key ++ [value])

/-- One round of `ParseQuery`. -/
def parseQuery (state : Parsing) : LoopStep Parsing Values :=
  if state.query = [] then .done state.m
  else .next
    { query := if '&' ∈ state.query ∨ ';' ∈ state.query then state.query else []
      m := pushBack queryUnescape state.m state.query }

variable {queryUnescape} {state : Parsing} {result : Values}

theorem parseQuery_separated (separated : '&' ∈ state.query ∨ ';' ∈ state.query) :
    parseQuery queryUnescape state =
      .next ⟨state.query, pushBack queryUnescape state.m state.query⟩ := by
  rw [parseQuery, if_neg (by rintro empty; simp [empty] at separated), if_pos separated]

theorem plain_of_ends (ends : LoopEnds (parseQuery queryUnescape) state result) :
    ¬ ('&' ∈ state.query ∨ ';' ∈ state.query) := by
  induction ends with
  | done leaves =>
    exact fun separated => by cases (parseQuery_separated separated).symm.trans leaves
  | next taken _ ih =>
    intro separated
    cases (parseQuery_separated separated).symm.trans taken
    exact ih separated

theorem parseQuery_ends {query : List Char} :
    LoopEnds (parseQuery queryUnescape) ⟨query, fun _ => []⟩ result ↔ ('&' ∉ query ∧ ';' ∉ query) ∧
      result = if query = [] then fun _ => [] else pushBack queryUnescape (fun _ => []) query := by
  rw [← not_or]
  constructor
  · intro ends
    have plain := plain_of_ends ends
    refine ⟨plain, ?_⟩
    cases ends with
    | done leaves => grind [parseQuery]
    | next taken rest => cases rest <;> grind [parseQuery]
  · rintro ⟨plain, rfl⟩
    by_cases empty : query = []
    · exact .done (by rw [parseQuery, if_pos empty, if_pos empty])
    · exact .next (if_neg empty) (.done (by simp [parseQuery, plain, empty]))

/-- A query is parsed, as one pair, exactly if it has no separator. -/
theorem parseQuery_ends_iff (query : List Char) (result : Values) :
    LoopEnds (parseQuery queryUnescape) ⟨query, fun _ => []⟩ result ↔ ('&' ∉ query ∧ ';' ∉ query) ∧
      result = if query = [] then fun _ => [] else pushBack queryUnescape (fun _ => []) query :=
  parseQuery_ends

section Encode

open List

/-- `ShouldEscape` in the mode of a query. -/
def shouldEscape (c : Char) : Bool := !(c.isAlphanum || ['-', '.', '_', '~'].contains c)

/-- A digit of `0123456789ABCDEF`. -/
def hexDigit (digit : Nat) : Char := .ofNat (if digit < 10 then 48 + digit else 55 + digit)

/-- `GetHexDigit`. -/
def getHexDigit (c : Char) : Option Nat :=
  if c.isDigit then some (c.toNat - 48)
  else if 'a' ≤ c ∧ c ≤ 'f' then some (c.toNat - 97 + 10)
  else if 'A' ≤ c ∧ c ≤ 'F' then some (c.toNat - 65 + 10)
  else none

/-- What `Escape` writes for a byte of a query. -/
def escapeByte (c : Char) : List Char :=
  if c = ' ' then ['+']
  else if shouldEscape c then ['%', hexDigit (c.toNat / 16), hexDigit (c.toNat % 16)]
  else [c]

/-- `QueryEscape`. -/
def queryEscape (s : List Char) : List Char := s.flatMap escapeByte

/-- `Unescape` in the mode of a query, without an invalid escape. -/
def unescape : List Char → Option (List Char)
  | [] => some []
  | c :: s =>
    if c = '%' then
      match s with
      | high :: low :: s => do
        let high ← getHexDigit high
        let low ← getHexDigit low
        (unescape s).map (.ofNat (16 * high + low) :: ·)
      | _ => none
    else (unescape s).map ((if c = '+' then ' ' else c) :: ·)

/-- `QueryUnescape`. -/
def unescaped (s : List Char) : List Char := (unescape s).getD []

/-- The characters are bytes. -/
def IsBytes (s : List Char) : Prop := ∀ c ∈ s, c.toNat < 256

/-- A map of `Values`: its keys, which are not empty, with one value or more. -/
structure QueryMap where
  entries : List (List Char × List (List Char))
  apart : (entries.map Prod.fst).Nodup
  filled : ∀ entry ∈ entries, entry.1 ≠ [] ∧ entry.2 ≠ []
  bytes : ∀ entry ∈ entries, IsBytes entry.1 ∧ ∀ value ∈ entry.2, IsBytes value

/-- The values of a key. -/
def QueryMap.values (map : QueryMap) : Values := fun key => (map.entries.lookup key).getD []

/-- A pair is written behind the others. -/
def appendPair (buf : List Char) (pair : List Char × List Char) : List Char :=
  (if buf = [] then [] else buf ++ ['&']) ++ queryEscape pair.1 ++ '=' :: queryEscape pair.2

/-- `Values::Encode`. -/
def QueryMap.encode (map : QueryMap) : List Char :=
  (map.entries.flatMap fun entry => entry.2.map (entry.1, ·)).foldl appendPair []

/-- The encoded map is parsed to the same map. -/
def QueryMap.ComesBack (map : QueryMap) : Prop :=
  LoopEnds (parseQuery unescaped) ⟨map.encode, fun _ => []⟩ map.values

theorem hexDigit_spec : ∀ digit ∈ range 16, getHexDigit (hexDigit digit) = some digit ∧
    hexDigit digit ∉ ['&', ';', '='] := by decide

theorem unescape_other {c : Char} (other : c ≠ '%') (s : List Char) :
    unescape (c :: s) = (unescape s).map ((if c = '+' then ' ' else c) :: ·) := by
  rw [unescape.eq_def]
  exact if_neg other

theorem unescape_escapeByte {c : Char} (byte : c.toNat < 256) (s : List Char) :
    unescape (escapeByte c ++ s) = (unescape s).map (c :: ·) := by
  unfold escapeByte
  split
  next space =>
    rw [singleton_append, unescape_other (by decide), if_pos rfl, space]
  split
  next special =>
    have high := (hexDigit_spec (c.toNat / 16) (mem_range.mpr (by omega))).1
    have low := (hexDigit_spec (c.toNat % 16) (mem_range.mpr (by omega))).1
    have same : Char.ofNat (16 * (c.toNat / 16) + c.toNat % 16) = c := by
      rw [Nat.div_add_mod, Char.ofNat_toNat]
    simp [unescape, high, low, same]
  next space plain =>
    have percent : c ≠ '%' := by
      rintro rfl
      exact plain (by decide)
    have plus : c ≠ '+' := by
      rintro rfl
      exact plain (by decide)
    rw [singleton_append, unescape_other percent, if_neg plus]

theorem unescape_queryEscape {s : List Char} (bytes : IsBytes s) :
    unescaped (queryEscape s) = s := by
  suffices unescape (queryEscape s) = some s by rw [unescaped, this]; rfl
  induction s with
  | nil => rfl
  | cons c s ih =>
    obtain ⟨byte, bytes⟩ := forall_mem_cons.mp bytes
    rw [queryEscape] at ih
    rw [queryEscape, flatMap_cons, unescape_escapeByte byte, ih bytes]
    rfl

/-- No separator is left in an escaped text. -/
theorem not_mem_queryEscape {c : Char} {s : List Char} (bytes : IsBytes s)
    (separator : c ∈ ['&', ';', '=']) : c ∉ queryEscape s := by
  intro member
  obtain ⟨d, among, here⟩ := mem_flatMap.mp member
  have byte := bytes d among
  unfold escapeByte at here
  split at here
  · rw [mem_singleton.mp here] at separator
    exact absurd separator (by decide)
  split at here
  · simp only [mem_cons, not_mem_nil, or_false] at here
    rcases here with rfl | rfl | rfl
    · exact absurd separator (by decide)
    · exact (hexDigit_spec _ (mem_range.mpr (by omega))).2 separator
    · exact (hexDigit_spec _ (mem_range.mpr (by omega))).2 separator
  next plain =>
    obtain rfl := mem_singleton.mp here
    simp only [mem_cons, not_mem_nil, or_false] at separator
    rcases separator with rfl | rfl | rfl <;> exact plain (by decide)

theorem length_le_queryEscape (s : List Char) : s.length ≤ (queryEscape s).length := by
  induction s with
  | nil => exact Nat.le_refl 0
  | cons c s ih =>
    have first : 1 ≤ (escapeByte c).length := by
      unfold escapeByte
      split
      · exact Nat.le_refl 1
      · split <;> simp
    rw [queryEscape] at ih
    rw [queryEscape, flatMap_cons, length_append, length_cons]
    omega

/-- Only a text of plain bytes is escaped as it is. -/
theorem queryEscape_eq_self_iff (s : List Char) :
    queryEscape s = s ↔ ∀ c ∈ s, shouldEscape c = false := by
  induction s with
  | nil => simp [queryEscape]
  | cons c s ih =>
    have longer := length_le_queryEscape s
    rw [forall_mem_cons, ← ih]
    rw [queryEscape] at longer ⊢
    rw [flatMap_cons, escapeByte, ← queryEscape]
    split
    next space =>
      rw [space]
      exact iff_of_false (fun same => absurd (List.cons.inj same).1 (by decide))
        (fun plain => absurd plain.1 (by decide))
    split
    next special =>
      refine iff_of_false (fun same => ?_) fun plain => absurd (special.symm.trans plain.1) nofun
      have length := congrArg List.length same
      simp only [length_append, length_cons, length_nil, queryEscape] at length
      omega
    next plain =>
      rw [singleton_append, List.cons_inj_right]
      simp only [plain, true_and]

variable {buf : List Char} {pair : List Char × List Char} {pairs : List (List Char × List Char)}

theorem mem_foldl_appendPair {c : Char} (member : c ∈ buf) : c ∈ pairs.foldl appendPair buf := by
  induction pairs generalizing buf with
  | nil => exact member
  | cons pair pairs ih =>
    refine ih ?_
    have nonempty : buf ≠ [] := ne_nil_of_mem member
    simp [appendPair, nonempty, member]

/-- Two pairs have a separator between them. -/
theorem separator_mem {first second : List Char × List Char} :
    '&' ∈ (first :: second :: pairs).foldl appendPair [] := by
  rw [foldl_cons, foldl_cons]
  refine mem_foldl_appendPair ?_
  have nonempty : appendPair [] first ≠ [] := by simp [appendPair]
  rw [appendPair, if_neg nonempty]
  simp

/-- A single pair is parsed to the key and the escaped value. -/
theorem pushBack_appendPair {key value : List Char} (nonempty : key ≠ []) (bytes : IsBytes key) :
    pushBack unescaped (fun _ => []) (appendPair [] (key, value)) =
      Function.update (fun _ => []) key [queryEscape value] := by
  have free : ∀ c ∈ queryEscape key, decide (c ≠ '=') = true := by
    intro c member
    refine decide_eq_true ?_
    rintro rfl
    exact not_mem_queryEscape bytes (by decide) member
  have text : appendPair [] (key, value) = queryEscape key ++ '=' :: queryEscape value := rfl
  have front : (appendPair [] (key, value)).takeWhile (· ≠ '=') = queryEscape key := by
    rw [text, takeWhile_append_of_pos free]
    simp
  have back : (appendPair [] (key, value)).dropWhile (· ≠ '=') = '=' :: queryEscape value := by
    rw [text, dropWhile_append_of_pos free]
    simp
  have sign : '=' ∈ appendPair [] (key, value) := by simp [text]
  rw [pushBack, front, back, unescape_queryEscape bytes]
  simp [nonempty, sign]

theorem QueryMap.comesBack_single {map : QueryMap} {key value : List Char}
    (single : map.entries = [(key, [value])]) :
    map.ComesBack ↔ ∀ c ∈ value, shouldEscape c = false := by
  have named := (map.filled (key, [value]) (by simp [single])).1
  obtain ⟨keyBytes, valueBytes⟩ := map.bytes (key, [value]) (by simp [single])
  have text : map.encode = appendPair [] (key, value) := by simp [encode, single]
  have plain : ∀ c ∈ ['&', ';'], c ∉ map.encode := by
    intro c separator member
    have among : c ∈ ['&', ';', '='] := by simp at separator ⊢; tauto
    rw [text] at member
    simp only [appendPair, ↓reduceIte, nil_append, mem_append, mem_cons] at member
    rcases member with member | rfl | member
    · exact not_mem_queryEscape keyBytes among member
    · exact absurd separator (by decide)
    · exact not_mem_queryEscape (valueBytes value mem_cons_self) among member
  have nonempty : map.encode ≠ [] := by simp [text, appendPair]
  rw [ComesBack, parseQuery_ends, if_neg nonempty, text, pushBack_appendPair named keyBytes,
    ← queryEscape_eq_self_iff, and_iff_right]
  · have values : map.values = Function.update (fun _ => []) key [value] := by
      funext other
      by_cases same : other = key
      · simp [QueryMap.values, single, same]
      · simp [QueryMap.values, single, same, lookup_cons, beq_eq_false_iff_ne.mpr same]
    rw [values]
    constructor
    · intro same
      have here := congrFun same key
      rw [Function.update_self, Function.update_self] at here
      exact (List.cons.inj here).1.symm
    · intro same
      rw [same]
  · rw [← text]
    exact ⟨plain _ (by decide), plain _ (by decide)⟩

/-- A map comes back exactly if it has one value at most, with no byte that is escaped. -/
theorem QueryMap.comesBack_iff (map : QueryMap) :
    map.ComesBack ↔ map.entries = [] ∨ ∃ key value, map.entries = [(key, [value])] ∧
      ∀ c ∈ value, shouldEscape c = false := by
  constructor
  · intro back
    match entries : map.entries with
    | [] => exact .inl rfl
    | [(key, [value])] => exact .inr ⟨key, value, rfl, (comesBack_single entries).mp back⟩
    | (key, []) :: _ => exact absurd rfl (map.filled (key, []) (by simp [entries])).2
    | (key, first :: second :: values) :: rest =>
      refine absurd ?_ (parseQuery_ends.mp back).1.1
      rw [encode, entries]
      exact separator_mem
    | (key, [value]) :: (other, []) :: _ =>
      exact absurd rfl (map.filled (other, []) (by simp [entries])).2
    | (key, [value]) :: (other, first :: values) :: rest =>
      refine absurd ?_ (parseQuery_ends.mp back).1.1
      rw [encode, entries]
      exact separator_mem
  · rintro (empty | ⟨key, value, single, plain⟩)
    · refine parseQuery_ends.mpr ?_
      have nothing : map.encode = [] := by simp [encode, empty]
      rw [nothing, if_pos rfl]
      refine ⟨⟨not_mem_nil, not_mem_nil⟩, ?_⟩
      funext key
      simp [QueryMap.values, empty]
    · exact (comesBack_single single).mpr plain

/-- One key with two values. -/
def twoValues : QueryMap where
  entries := [(['k'], [['a'], ['b']])]
  apart := by decide
  filled := by decide
  bytes := by simp [IsBytes]

/-- The loop does not end. -/
theorem QueryMap.comesBack_fails_twoValues :
    twoValues.encode = "k=a&k=b".toList ∧
      ∀ result, ¬ LoopEnds (parseQuery unescaped) ⟨twoValues.encode, fun _ => []⟩ result := by
  refine ⟨by decide, fun result ends => plain_of_ends ends (.inl ?_)⟩
  decide

end Encode

end Isulad.Utils
