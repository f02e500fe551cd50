import Mathlib.Data.List.Nodup

/-!
# Lists of records with distinct keys

A `Keyed` list is a table in insertion order in which no two entries have one key.
An index over such a table is a search of it, so a store that keeps a list and a map
from key to item is one `Keyed` list.
-/

namespace Isulad.Std

open List

theorem eraseP_eq_filter {α : Type} {list : List α} {test : α → Bool}
    (once : list.Pairwise fun one other => test one = true → ¬ test other = true) :
    list.eraseP test = list.filter fun entry => !test entry := by
  induction list with
  | nil => rfl
  | cons first rest ih =>
    obtain ⟨others, once⟩ := pairwise_cons.mp once
    by_cases here : test first = true
    · rw [eraseP_cons_of_pos here, filter_cons_of_neg (by simpa using here)]
      exact (filter_eq_self.mpr fun other member => by simpa using others other member here).symm
    · rw [eraseP_cons_of_neg here, filter_cons_of_pos (by simpa using here),
        ih once]

/-- A list whose entries have distinct keys. -/
structure Keyed {α κ : Type} (key : α → κ) where
  entries : List α
  apart : (entries.map key).Nodup

namespace Keyed

variable {α κ : Type} {key : α → κ} {table : Keyed key} {entry other : α} {k : κ}

theorem eq_of_key (member : entry ∈ table.entries) (memberOther : other ∈ table.entries)
    (same : key entry = key other) : entry = other :=
  inj_on_of_nodup_map table.apart member memberOther same

theorem eq_of_entries {other : Keyed key} (same : table.entries = other.entries) :
    table = other := by
  cases table
  cases other
  cases same
  rfl

/-- Some entry has this key. -/
def Has (table : Keyed key) (k : κ) : Prop := ∃ entry ∈ table.entries, key entry = k

theorem has_key (member : entry ∈ table.entries) : table.Has (key entry) := ⟨entry, member, rfl⟩

variable [DecidableEq κ]

/-- The entry of a key. -/
def find (table : Keyed key) (k : κ) : Option α := table.entries.find? fun entry => key entry == k

theorem find_eq_some_iff : table.find k = some entry ↔ entry ∈ table.entries ∧ key entry = k := by
  constructor
  · intro found
    exact ⟨mem_of_find?_eq_some found, by simpa using find?_some found⟩
  · rintro ⟨member, rfl⟩
    cases found : table.find (key entry) with
    | none => simpa using find?_eq_none.mp found entry member
    | some other =>
      have same : key other = key entry := by simpa using find?_some found
      rw [eq_of_key (mem_of_find?_eq_some found) member same]

theorem find_of_mem (member : entry ∈ table.entries) : table.find (key entry) = some entry :=
  find_eq_some_iff.mpr ⟨member, rfl⟩

theorem find_eq_none_iff : table.find k = none ↔ ¬ table.Has k := by
  rw [Option.eq_none_iff_forall_ne_some]
  constructor
  · rintro absent ⟨entry, member, same⟩
    exact absent entry (find_eq_some_iff.mpr ⟨member, same⟩)
  · rintro absent entry found
    exact absent ⟨entry, find_eq_some_iff.mp found⟩

/-- Remove the entry of a key. -/
def remove (table : Keyed key) (k : κ) : Keyed key where
  entries := table.entries.eraseP fun entry => key entry == k
  apart := table.apart.sublist (eraseP_sublist.map _)

@[simp] theorem mem_remove :
    entry ∈ (table.remove k).entries ↔ entry ∈ table.entries ∧ key entry ≠ k := by
  change entry ∈ table.entries.eraseP (fun entry => key entry == k) ↔ _
  by_cases same : key entry = k
  · refine ⟨fun member => ?_, fun both => absurd same both.2⟩
    -- The erased entry was the only one of its key.
    obtain ⟨found, before, after, _, matched, split, erased⟩ :=
      @exists_of_eraseP _ (fun entry => key entry == k) _ _ (mem_of_mem_eraseP member)
        (by simpa using same)
    have apart := table.apart
    rw [split, map_append, map_cons, nodup_middle] at apart
    refine absurd ?_ (nodup_cons.mp apart).1
    rw [← map_append, show key found = key entry by simpa [same] using matched, ← erased]
    exact mem_map_of_mem member
  · rw [mem_eraseP_of_neg (by simpa using same)]
    exact ⟨fun member => ⟨member, same⟩, And.left⟩

theorem entries_remove :
    (table.remove k).entries = table.entries.filter fun entry => key entry ≠ k := by
  have once : table.entries.Pairwise fun one other =>
      (key one == k) = true → ¬ (key other == k) = true := by
    refine (pairwise_map.mp table.apart).imp fun {one other} apart first second => apart ?_
    rw [beq_iff_eq] at first second
    rw [first, second]
  refine (eraseP_eq_filter once).trans (filter_congr fun entry _ => ?_)
  rw [decide_not]
  rfl

@[simp] theorem has_remove {l : κ} : (table.remove k).Has l ↔ table.Has l ∧ l ≠ k := by
  constructor
  · rintro ⟨entry, member, rfl⟩
    exact ⟨has_key (mem_remove.mp member).1, (mem_remove.mp member).2⟩
  · rintro ⟨⟨entry, member, rfl⟩, other⟩
    exact has_key (mem_remove.mpr ⟨member, other⟩)

variable {l : κ}

theorem find_remove : (table.remove k).find l = if l = k then none else table.find l := by
  ext entry
  rw [find_eq_some_iff, mem_remove]
  split
  next same =>
    subst same
    simp
  next other =>
    rw [find_eq_some_iff]
    constructor
    · exact fun found => ⟨found.1.1, found.2⟩
    · exact fun found => ⟨⟨found.1, fun same => other (found.2.symm.trans same)⟩, found.2⟩

theorem length_remove (member : entry ∈ table.entries) :
    (table.remove (key entry)).entries.length < table.entries.length := by
  have erased : (table.remove (key entry)).entries.length = table.entries.length - 1 :=
    length_eraseP_of_mem member (by simp)
  have positive := length_pos_of_mem member
  omega

theorem find_isSome_iff : (table.find k).isSome ↔ table.Has k := by
  rw [Option.isSome_iff_ne_none, ne_eq, find_eq_none_iff, not_not]

/-- Keep the entries whose keys pass a test. -/
def filter (table : Keyed key) (keep : κ → Bool) : Keyed key where
  entries := table.entries.filter fun entry => keep (key entry)
  apart := table.apart.sublist (filter_sublist.map _)

omit [DecidableEq κ] in
@[simp] theorem mem_filter {keep : κ → Bool} :
    entry ∈ (table.filter keep).entries ↔ entry ∈ table.entries ∧ keep (key entry) = true :=
  List.mem_filter

theorem find_filter (keep : κ → Bool) :
    (table.filter keep).find k = if keep k then table.find k else none := by
  ext entry
  rw [find_eq_some_iff, mem_filter]
  split
  next kept =>
    rw [find_eq_some_iff]
    exact ⟨fun both => ⟨both.1.1, both.2⟩, fun both => ⟨⟨both.1, both.2 ▸ kept⟩, both.2⟩⟩
  next dropped =>
    refine ⟨fun both => absurd (both.2 ▸ both.1.2) dropped, fun found => ?_⟩
    cases found

/-- Append an entry of a new key. -/
def insert (table : Keyed key) (entry : α) (absent : table.find (key entry) = none) :
    Keyed key where
  entries := table.entries ++ [entry]
  apart := by
    rw [map_append, map_singleton, nodup_append]
    refine ⟨table.apart, nodup_singleton _, ?_⟩
    rintro _ member _ new rfl
    obtain ⟨other, memberOther, same⟩ := mem_map.mp member
    exact find_eq_none_iff.mp absent ⟨other, memberOther, same.trans (mem_singleton.mp new)⟩

theorem find_insert (absent : table.find (key entry) = none) :
    (table.insert entry absent).find k = if k = key entry then some entry else table.find k := by
  ext found
  rw [find_eq_some_iff, insert, mem_append, mem_singleton]
  split
  next same =>
    subst same
    constructor
    · rintro ⟨old | rfl, same⟩
      · exact absurd ⟨found, old, same⟩ (find_eq_none_iff.mp absent)
      · rfl
    · rintro ⟨⟩
      exact ⟨.inr rfl, rfl⟩
  next other =>
    rw [find_eq_some_iff]
    constructor
    · rintro ⟨old | rfl, rfl⟩
      · exact ⟨old, rfl⟩
      · exact absurd rfl other
    · exact fun both => ⟨.inl both.1, both.2⟩

theorem remove_insert (absent : table.find (key entry) = none) :
    (table.insert entry absent).remove (key entry) = table := by
  have others : ∀ other ∈ table.entries, ¬ (key other == key entry) = true :=
    fun other member same =>
    find_eq_none_iff.mp absent ⟨other, member, by simpa using same⟩
  have erased : (table.entries ++ [entry]).eraseP (fun other => key other == key entry) =
      table.entries := by
    rw [eraseP_append_right _ others, eraseP_cons_of_pos (by simp), append_nil]
  exact eq_of_entries erased

theorem has_insert {absent : table.find (key entry) = none} :
    (table.insert entry absent).Has l ↔ l = key entry ∨ table.Has l := by
  rw [← find_isSome_iff, ← find_isSome_iff, find_insert]
  split
  next same => simp [same]
  next other => simp [other]

/-- Change the entry of a key and keep the key. -/
def modify (table : Keyed key) (k : κ) (change : α → α)
    (keeps : ∀ entry, key (change entry) = key entry) : Keyed key where
  entries := table.entries.map fun entry => if key entry = k then change entry else entry
  apart := by
    have same : (table.entries.map fun entry => if key entry = k then change entry else entry).map
        key = table.entries.map key := by
      rw [map_map]
      refine map_congr_left fun entry _ => ?_
      simp
      split
      · exact keeps entry
      · rfl
    rw [same]
    exact table.apart

variable {change : α → α} {keeps : ∀ entry, key (change entry) = key entry}

theorem find_modify :
    (table.modify k change keeps).find l =
      if l = k then (table.find l).map change else table.find l := by
  have same : ∀ entry, key (if key entry = k then change entry else entry) = key entry := by
    intro entry
    split
    · exact keeps entry
    · rfl
  have mapped : (table.modify k change keeps).find l =
      (table.find l).map fun entry => if key entry = k then change entry else entry := by
    rw [find, find, modify, find?_map]
    congr 2
    funext entry
    simp [same]
  rw [mapped]
  cases found : table.find l with
  | none => simp
  | some entry =>
    obtain ⟨_, rfl⟩ := find_eq_some_iff.mp found
    simp
    split <;> rfl

theorem has_modify :
    (table.modify k change keeps).Has l ↔ table.Has l := by
  rw [← find_isSome_iff, ← find_isSome_iff, find_modify]
  split
  · rw [Option.isSome_map]
  · rfl

theorem find_of_find_modify (found : (table.modify k change keeps).find l = some entry) :
    ∃ before, table.find l = some before := by
  rw [find_modify] at found
  split at found
  · obtain ⟨before, foundBefore, -⟩ := Option.map_eq_some_iff.mp found
    exact ⟨before, foundBefore⟩
  · exact ⟨entry, found⟩

end Keyed

end Isulad.Std
