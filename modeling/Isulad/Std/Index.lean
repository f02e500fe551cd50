import Mathlib.Data.Finset.Order
import Mathlib.Data.Fintype.EquivFin
import Isulad.Std.Keyed

/-!
# Indexes

An `Index` is a map with finitely many keys. An insertion is refused when the key is
there and a removal when it is not; `search_insert`, `search_remove` and
`search_replace` say what a search finds afterwards.
-/

namespace Isulad.Std

open List

/-- One entry of a list passes a test. -/
theorem filter_eq_singleton_iff {α : Type} {list : List α} {test : α → Bool} {entry : α}
    (apart : list.Nodup) :
    list.filter test = [entry] ↔ entry ∈ list ∧ test entry = true ∧
      ∀ other ∈ list, test other = true → other = entry := by
  constructor
  · intro single
    have passes : ∀ other, other ∈ list ∧ test other = true ↔ other = entry := fun other => by
      rw [← mem_filter, single, mem_singleton]
    obtain ⟨member, passed⟩ := (passes entry).mpr rfl
    exact ⟨member, passed, fun other here also => (passes other).mp ⟨here, also⟩⟩
  · rintro ⟨member, passes, others⟩
    rw [← perm_singleton]
    refine (perm_ext_iff_of_nodup (apart.filter test) (nodup_singleton entry)).mpr ?_
    intro other
    rw [mem_filter, mem_singleton]
    refine ⟨fun both => others other both.1 both.2, ?_⟩
    rintro rfl
    exact ⟨member, passes⟩

/-- A table of pairs with distinct first components. -/
abbrev Index (κ ν : Type) := Keyed (Prod.fst : κ × ν → κ)

namespace Index

variable {κ ν : Type}

def empty : Index κ ν := ⟨[], nodup_nil⟩

variable [DecidableEq κ] {index after : Index κ ν} {key other : κ} {value found : ν}

/-- The value of a key. -/
def search (index : Index κ ν) (key : κ) : Option ν := (index.find key).map Prod.snd

theorem search_eq_none_iff : index.search key = none ↔ index.find key = none :=
  Option.map_eq_none_iff

theorem mem_entries_iff {pair : κ × ν} :
    pair ∈ index.entries ↔ index.search pair.1 = some pair.2 := by
  rw [search, Option.map_eq_some_iff]
  constructor
  · exact fun member => ⟨pair, Keyed.find_of_mem member, rfl⟩
  · rintro ⟨other, found, same⟩
    obtain ⟨member, sameKey⟩ := Keyed.find_eq_some_iff.mp found
    rwa [← Prod.ext sameKey same]

@[simp] theorem search_empty : (empty : Index κ ν).search key = none := rfl

/-- Add a pair, unless the key has a value. -/
def insert (index : Index κ ν) (key : κ) (value : ν) : Option (Index κ ν) :=
  if absent : index.find key = none then some (Keyed.insert index (key, value) absent) else none

theorem insert_of_absent (absent : index.search key = none) :
    index.insert key value =
      some (Keyed.insert index (key, value) (search_eq_none_iff.mp absent)) :=
  dif_pos _

theorem insert_of_present (present : index.search key ≠ none) : index.insert key value = none :=
  dif_neg fun absent => present (search_eq_none_iff.mpr absent)

/-- Take a key out, if it has a value. -/
def remove (index : Index κ ν) (key : κ) : Option (Index κ ν) :=
  if index.search key = none then none else some (Keyed.remove index key)

theorem present_of_remove (removed : index.remove key = some after) : index.search key ≠ none := by
  intro absent
  rw [remove, if_pos absent] at removed
  cases removed

theorem search_remove (removed : index.remove key = some after) :
    after.search other = if other = key then none else index.search other := by
  rw [remove, if_neg (present_of_remove removed)] at removed
  cases removed
  rw [search, Keyed.find_remove]
  split <;> rfl

section

variable (inserted : index.insert key value = some after)
include inserted

theorem absent_of_insert : index.search key = none := by
  by_contra present
  rw [insert_of_present present] at inserted
  cases inserted

theorem search_insert :
    after.search other = if other = key then some value else index.search other := by
  have absent := absent_of_insert inserted
  rw [insert_of_absent absent] at inserted
  cases inserted
  rw [search, Keyed.find_insert]
  split <;> rfl

theorem remove_of_insert : after.remove key = some index := by
  have present : after.search key ≠ none := by
    rw [search_insert inserted, if_pos rfl]
    exact Option.some_ne_none _
  rw [remove, if_neg present]
  have absent := absent_of_insert inserted
  rw [insert_of_absent absent] at inserted
  cases inserted
  exact congrArg some (Keyed.remove_insert _)

end

/-- Set the value of a key. -/
def replace (index : Index κ ν) (key : κ) (value : ν) : Index κ ν :=
  if absent : index.find key = none then Keyed.insert index (key, value) absent
  else index.modify key (fun pair => (pair.1, value)) fun _ => rfl

theorem search_replace :
    (index.replace key value).search other = if other = key then some value
      else index.search other := by
  rw [replace]
  split
  · rw [search, Keyed.find_insert]
    split <;> rfl
  rename_i present
  rw [search, Keyed.find_modify]
  split
  next same =>
    subst same
    obtain ⟨pair, here⟩ := Option.ne_none_iff_exists'.mp present
    rw [here]
    rfl
  · rfl

theorem insert_eq_replace (absent : index.search key = none) :
    index.insert key value = some (index.replace key value) := by
  have unknown := search_eq_none_iff.mp absent
  rw [insert, dif_pos unknown, replace, dif_pos unknown]

theorem replace_of_present (present : index.search key = some found) :
    (index.replace key value).entries =
      index.entries.map fun pair => if pair.1 = key then (pair.1, value) else pair := by
  have absent : index.find key ≠ none := fun absent => by
    rw [search_eq_none_iff.mpr absent] at present
    cases present
  rw [replace, dif_neg absent]
  rfl

theorem replace_replace (present : index.search key = some found) :
    (index.replace key value).replace key found = index := by
  have again : (index.replace key value).search key = some value :=
    search_replace.trans (if_pos rfl)
  apply Keyed.eq_of_entries
  rw [replace_of_present again, replace_of_present present, map_map]
  refine (map_congr_left fun pair member => ?_).trans (map_id _)
  by_cases here : pair.1 = key
  · have own := mem_entries_iff.mp member
    rw [here, present] at own
    simp [here, Prod.ext_iff, Option.some.inj own]
  · simp [here]

theorem exists_absent [Infinite κ] (index : Index κ ν) : ∃ key, index.search key = none := by
  obtain ⟨key, absent⟩ := Infinite.exists_notMem_finset (index.entries.map Prod.fst).toFinset
  refine ⟨key, search_eq_none_iff.mpr (Keyed.find_eq_none_iff.mpr ?_)⟩
  rintro ⟨pair, member, rfl⟩
  exact absent (mem_toFinset.mpr (mem_map_of_mem member))

/-- The keys that are there have a bounded size. -/
theorem exists_bound (index : Index κ ν) (size : κ → Nat) :
    ∃ bound, ∀ key, index.search key ≠ none → size key ≤ bound := by
  obtain ⟨bound, largest⟩ := (index.entries.map fun pair => size pair.1).toFinset.exists_le
  refine ⟨bound, fun key present => largest _ (mem_toFinset.mpr ?_)⟩
  obtain ⟨pair, here⟩ := Option.ne_none_iff_exists'.mp fun absent =>
    present (search_eq_none_iff.mpr absent)
  obtain ⟨member, rfl⟩ := Keyed.find_eq_some_iff.mp here
  exact mem_map_of_mem member

/-- Add one value under several keys, each of them new. -/
def insertAll (index : Index κ ν) (keys : List κ) (value : ν) : Option (Index κ ν) :=
  keys.foldlM (fun index key => index.insert key value) index

variable {keys : List κ}

/-- Take several keys out, each of them present. -/
def removeAll (index : Index κ ν) (keys : List κ) : Option (Index κ ν) :=
  keys.foldlM remove index

theorem search_removeAll (removed : index.removeAll keys = some after) :
    after.search other = if other ∈ keys then none else index.search other := by
  induction keys generalizing index with
  | nil =>
    cases removed
    rfl
  | cons key keys ih =>
    obtain ⟨next, first, rest⟩ := Option.bind_eq_some_iff.mp removed
    rw [ih rest, search_remove first]
    by_cases here : other = key <;> by_cases later : other ∈ keys <;> simp [here, later]

section

variable (inserted : index.insertAll keys value = some after)
include inserted

theorem search_insertAll :
    after.search other = if other ∈ keys then some value else index.search other := by
  induction keys generalizing index with
  | nil =>
    cases inserted
    rfl
  | cons key keys ih =>
    obtain ⟨next, first, rest⟩ := Option.bind_eq_some_iff.mp inserted
    rw [ih rest, search_insert first]
    by_cases here : other = key <;> by_cases later : other ∈ keys <;> simp [here, later]

theorem absent_of_insertAll (member : other ∈ keys) : index.search other = none := by
  induction keys generalizing index with
  | nil => cases member
  | cons key keys ih =>
    obtain ⟨next, first, rest⟩ := Option.bind_eq_some_iff.mp inserted
    by_cases here : other = key
    · rw [here]
      exact absent_of_insert first
    · have absent := ih rest ((mem_cons.mp member).resolve_left here)
      rwa [search_insert first, if_neg here] at absent

theorem entries_insertAll : after.entries = index.entries ++ keys.map fun key => (key, value) := by
  induction keys generalizing index with
  | nil =>
    cases inserted
    exact (append_nil _).symm
  | cons key keys ih =>
    obtain ⟨next, first, rest⟩ := Option.bind_eq_some_iff.mp inserted
    have one : next.entries = index.entries ++ [(key, value)] := by
      have added := (insert_of_absent (absent_of_insert first)).symm.trans first
      rw [← Option.some.inj added]
      rfl
    rw [ih rest, one, append_assoc, map_cons, singleton_append]

/-- Keys that have been added are taken out again without a trace. -/
theorem removeAll_of_insertAll : after.removeAll keys = some index := by
  have absent : ∀ key ∈ keys, index.search key = none := fun key member =>
    absent_of_insertAll inserted member
  have entries := entries_insertAll inserted
  clear inserted
  induction keys generalizing after with
  | nil =>
    rw [map_nil, append_nil] at entries
    exact congrArg some (Keyed.eq_of_entries entries)
  | cons key keys ih =>
    have present : after.search key ≠ none := by
      have found := mem_entries_iff.mp (show (key, value) ∈ after.entries by simp [entries])
      exact found ▸ Option.some_ne_none _
    have others : ∀ pair ∈ index.entries, ¬ (pair.1 == key) = true := by
      intro pair member same
      have found := mem_entries_iff.mp member
      rw [show pair.1 = key by simpa using same, absent key mem_cons_self] at found
      cases found
    rw [removeAll, foldlM_cons, remove, if_neg present, Option.bind_eq_bind,
      Option.bind_some]
    refine ih (fun other member => absent other (mem_cons_of_mem _ member)) ?_
    change after.entries.eraseP (fun pair => pair.1 == key) = _
    rw [entries, eraseP_append_right _ others, map_cons,
      eraseP_cons_of_pos (by simp)]

end

/-- New keys, each named once, can all be added. -/
theorem insertAll_isSome_iff (once : keys.Nodup) :
    (index.insertAll keys value).isSome ↔ ∀ key ∈ keys, index.search key = none := by
  constructor
  · intro inserted key member
    obtain ⟨after, inserted⟩ := Option.isSome_iff_exists.mp inserted
    exact absent_of_insertAll inserted member
  · intro absent
    induction keys generalizing index with
    | nil => rfl
    | cons key keys ih =>
      obtain ⟨later, once⟩ := nodup_cons.mp once
      have first := @insert_of_absent _ _ _ _ _ value (absent key mem_cons_self)
      rw [insertAll, foldlM_cons, first, Option.bind_eq_bind, Option.bind_some]
      refine ih once fun other member => ?_
      have different : other ≠ key := fun same => later (same ▸ member)
      rw [search_insert first, if_neg different]
      exact absent other (mem_cons_of_mem _ member)

/-- Add one value under one key after the other and stop at the first that is there: whether all
were new, and what the index holds by then. -/
def insertEach (index : Index κ ν) : List κ → ν → Bool × Index κ ν
  | [], _ => (true, index)
  | key :: keys, value =>
    match index.insert key value with
    | none => (false, index)
    | some index => index.insertEach keys value

theorem insertEach_eq_true_iff :
    index.insertEach keys value = (true, after) ↔ index.insertAll keys value = some after := by
  induction keys generalizing index with
  | nil => simp [insertEach, insertAll]
  | cons key keys ih =>
    rw [insertEach, insertAll, foldlM_cons]
    cases first : index.insert key value with
    | none => simp
    | some next => exact ih

theorem insertEach_of_present (present : ¬ ∀ key ∈ keys, index.search key = none) :
    (index.insertEach keys value).1 = false := by
  cases entered : index.insertEach keys value with
  | mk all after =>
    cases all with
    | false => rfl
    | true =>
      have inserted := insertEach_eq_true_iff.mp entered
      exact absurd (fun key member => absent_of_insertAll inserted member) present

theorem insertEach_keeps (present : index.search other = some found) :
    (index.insertEach keys value).2.search other = some found := by
  induction keys generalizing index with
  | nil => exact present
  | cons key keys ih =>
    rw [insertEach]
    cases first : index.insert key value with
    | none => exact present
    | some next =>
      refine ih ?_
      rw [search_insert first, if_neg, present]
      rintro rfl
      rw [absent_of_insert first] at present
      cases present

/-- Take one key after the other out and stop at the first that is not there. -/
def removeEach (index : Index κ ν) : List κ → Bool × Index κ ν
  | [] => (true, index)
  | key :: keys =>
    match index.remove key with
    | none => (false, index)
    | some index => index.removeEach keys

theorem removeEach_of_removeAll (removed : index.removeAll keys = some after) :
    index.removeEach keys = (true, after) := by
  induction keys generalizing index with
  | nil =>
    cases removed
    rfl
  | cons key keys ih =>
    obtain ⟨next, first, rest⟩ := Option.bind_eq_some_iff.mp removed
    rw [removeEach, first]
    exact ih rest

/-- Keys that are there, each named once, can all be taken out. -/
theorem removeAll_isSome (once : keys.Nodup) (present : ∀ key ∈ keys, index.search key ≠ none) :
    (index.removeAll keys).isSome := by
  induction keys generalizing index with
  | nil => rfl
  | cons key keys ih =>
    obtain ⟨later, once⟩ := nodup_cons.mp once
    have first : index.remove key = some (Keyed.remove index key) :=
      if_neg (present key mem_cons_self)
    rw [removeAll, foldlM_cons, first, Option.bind_eq_bind, Option.bind_some]
    refine ih once fun other member => ?_
    have different : other ≠ key := fun same => later (same ▸ member)
    rw [search_remove first, if_neg different]
    exact present other (mem_cons_of_mem _ member)

/-- Take several keys out, whether or not they are there. -/
def clear (index : Index κ ν) (keys : List κ) : Index κ ν :=
  keys.foldl (fun index key => (index.remove key).getD index) index

theorem search_clear :
    (index.clear keys).search other = if other ∈ keys then none else index.search other := by
  induction keys generalizing index with
  | nil => rfl
  | cons key keys ih =>
    have first : ((index.remove key).getD index).search other =
        if other = key then none else index.search other := by
      cases removed : index.remove key with
      | some next => exact search_remove removed
      | none =>
        have absent : index.search key = none := by
          by_contra present
          rw [remove, if_neg present] at removed
          cases removed
        rw [Option.getD_none]
        split
        next here => rw [here, absent]
        · rfl
    refine ih.trans ?_
    rw [first]
    by_cases here : other = key <;> by_cases later : other ∈ keys <;> simp [here, later]

theorem clear_of_removeAll (removed : index.removeAll keys = some after) :
    index.clear keys = after := by
  induction keys generalizing index with
  | nil => exact Option.some.inj removed
  | cons key keys ih =>
    obtain ⟨next, first, rest⟩ := Option.bind_eq_some_iff.mp removed
    rw [clear, foldl_cons, first]
    exact ih rest

/-- The index leads from a key of a member to the member, and from no other key. -/
def Leads (index : Index κ ν) (Member : ν → Prop) (HasKey : ν → κ → Prop) : Prop :=
  ∀ key value, index.search key = some value ↔ Member value ∧ HasKey value key

section Leads

variable {Member Member' : ν → Prop} {HasKey HasKey' : ν → κ → Prop} {keys : List κ} {new gone : ν}
  {key : κ}

section

variable (leads : index.Leads Member HasKey)
include leads

theorem Leads.congr (members : ∀ value, Member' value ↔ Member value)
    (same : ∀ value key, Member value → (HasKey' value key ↔ HasKey value key)) :
    index.Leads Member' HasKey' := by
  intro key value
  rw [leads, members]
  exact and_congr_right fun member => (same value key member).symm

/-- A member with new keys is added. -/
theorem Leads.insertAll (inserted : index.insertAll keys new = some after) (fresh : ¬ Member new)
    (own : ∀ key, HasKey' new key ↔ key ∈ keys)
    (same : ∀ value key, Member value → (HasKey' value key ↔ HasKey value key)) :
    after.Leads (fun value => Member value ∨ value = new) HasKey' := by
  intro key value
  rw [search_insertAll inserted]
  dsimp only
  by_cases isNew : value = new
  · subst isNew
    rw [or_iff_right fresh, and_iff_right rfl, own]
    split
    next here => exact iff_of_true rfl here
    next elsewhere => exact iff_of_false (fun found => fresh ((leads _ _).mp found).1) elsewhere
  · rw [or_iff_left isNew, and_congr_right (fun member => same value key member), ← leads]
    split
    next here =>
      rw [absent_of_insertAll inserted here]
      exact iff_of_false (fun found => isNew (Option.some.inj found).symm) nofun
    · rfl

theorem Leads.insert (inserted : index.insert key new = some after) (fresh : ¬ Member new)
    (own : ∀ other, HasKey' new other ↔ other = key)
    (same : ∀ value key, Member value → (HasKey' value key ↔ HasKey value key)) :
    after.Leads (fun value => Member value ∨ value = new) HasKey' := by
  have one : index.insertAll [key] new = some after := by
    rw [Index.insertAll, foldlM_cons, inserted]
    rfl
  exact leads.insertAll one fresh (fun other => (own other).trans mem_singleton.symm) same

/-- The keys of a member are taken out with it. -/
theorem Leads.drop (member : Member gone) (own : ∀ key, HasKey gone key ↔ key ∈ keys)
    (dropped : ∀ key, after.search key = if key ∈ keys then none else index.search key) :
    after.Leads (fun value => Member value ∧ value ≠ gone) HasKey := by
  intro key value
  rw [dropped]
  split
  next here =>
    refine iff_of_false nofun ?_
    rintro ⟨⟨memberValue, differs⟩, hasKey⟩
    have found := (leads key gone).mpr ⟨member, (own key).mpr here⟩
    rw [(leads key value).mpr ⟨memberValue, hasKey⟩] at found
    exact differs (Option.some.inj found)
  next elsewhere =>
    rw [leads, and_assoc, and_congr_right_iff]
    refine fun _ => ⟨fun hasKey => ⟨?_, hasKey⟩, And.right⟩
    rintro rfl
    exact elsewhere ((own key).mp hasKey)

theorem Leads.remove (member : Member gone) (own : ∀ other, HasKey gone other ↔ other = key)
    (removed : index.remove key = some after) :
    after.Leads (fun value => Member value ∧ value ≠ gone) HasKey := by
  refine leads.drop member (fun other => (own other).trans mem_singleton.symm) fun other => ?_
  rw [search_remove removed]
  simp

theorem Leads.clear (member : Member gone) (own : ∀ key, HasKey gone key ↔ key ∈ keys) :
    (index.clear keys).Leads (fun value => Member value ∧ value ≠ gone) HasKey :=
  leads.drop member own fun _ => search_clear

end

/-- A search of the list of members finds what the index leads to. -/
theorem Leads.find?_map {α : Type} {list : List ν} (leads : index.Leads (· ∈ list) HasKey)
    (f : ν → α) {test : α → Bool} (tests : ∀ value, test (f value) = true ↔ HasKey value key) :
    (list.map f).find? test = (index.search key).map f := by
  cases found : (list.map f).find? test with
  | none =>
    cases search : index.search key with
    | none => rfl
    | some value =>
      obtain ⟨member, hasKey⟩ := (leads key value).mp search
      have absent := List.find?_eq_none.mp found _ (mem_map_of_mem member)
      exact absurd ((tests value).mpr hasKey) absent
  | some image =>
    obtain ⟨value, member, rfl⟩ := mem_map.mp (mem_of_find?_eq_some found)
    rw [(leads key value).mpr ⟨member, (tests value).mp (List.find?_some found)⟩, Option.map_some]

end Leads

/-- A loop over entries that keeps the value of the first key that passes a test, and gives up at
the second. -/
def scan (test : κ → Bool) : Option ν → List (κ × ν) → Option ν
  | value, [] => value
  | value, pair :: rest =>
    if test pair.1 then
      match value with
      | some _ => none
      | none => scan test (some pair.2) rest
    else scan test value rest

/-- The value of the only key that passes a test. -/
def only (index : Index κ ν) (test : κ → Bool) : Option ν := scan test none index.entries

section Scan

variable {test : κ → Bool} {entries : List (κ × ν)} {value : ν}

omit [DecidableEq κ] in
/-- With a value in hand no other key may pass. -/
theorem scan_some_iff {kept : ν} :
    scan test (some kept) entries = some value ↔
      kept = value ∧ entries.filter (fun pair => test pair.1) = [] := by
  induction entries with
  | nil => simp [scan]
  | cons pair rest ih =>
    rw [scan, filter_cons]
    by_cases passes : test pair.1 = true
    · simp [passes]
    · rw [if_neg passes, if_neg passes, ih]

omit [DecidableEq κ] in
theorem scan_none_iff :
    scan test none entries = some value ↔
      ∃ key, entries.filter (fun pair => test pair.1) = [(key, value)] := by
  induction entries with
  | nil => simp [scan]
  | cons pair rest ih =>
    rw [scan, filter_cons]
    by_cases passes : test pair.1 = true
    · rw [if_pos passes, if_pos passes, scan_some_iff]
      simp [Prod.ext_iff]
    · rw [if_neg passes, if_neg passes, ih]

end Scan

/-- The only key that passes is the only one of all. -/
theorem only_eq_some_iff {test : κ → Bool} :
    index.only test = some value ↔ ∃ key, index.search key = some value ∧ test key = true ∧
      ∀ other found, index.search other = some found → test other = true → other = key := by
  have apart : index.entries.Nodup := .of_map _ index.apart
  rw [only, scan_none_iff]
  refine exists_congr fun key => ?_
  rw [filter_eq_singleton_iff apart, mem_entries_iff]
  refine and_congr_right fun here => and_congr_right fun _ => ?_
  constructor
  · intro others other found there passes
    exact congrArg Prod.fst (others (other, found) (mem_entries_iff.mpr there) passes)
  · intro others pair member passes
    have found := mem_entries_iff.mp member
    have same := others pair.1 pair.2 found passes
    rw [same, here] at found
    exact Prod.ext same (Option.some.inj found).symm

end Index

end Isulad.Std
