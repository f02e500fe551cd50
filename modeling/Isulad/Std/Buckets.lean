import Isulad.Std.Index

/-!
# Indexes with several values per key

The entry of a key is a list of values with its length. `Index.addTo` puts a value at the end of the
list of a key, `Index.takeFrom` takes it out again and drops the key with its last value. `Grouped`
says that the index is that of given lists, with no entry for an empty one.
-/

namespace Isulad.Std

open Index List

/-- A list with its length. -/
structure Bucket (ν : Type) where
  values : List ν
  length : Nat

/-- The entry of a list of values. -/
def bucketOf {ν : Type} : List ν → Option (Bucket ν)
  | [] => none
  | values => some ⟨values, values.length⟩

variable {κ ν : Type}

theorem bucketOf_of_ne_nil {values : List ν} (some_ : values ≠ []) :
    bucketOf values = some ⟨values, values.length⟩ := by
  cases values with
  | nil => exact absurd rfl some_
  | cons => rfl

variable [DecidableEq κ]

/-- The index has the values of every key. -/
def Grouped (index : Index κ (Bucket ν)) (values : κ → List ν) : Prop :=
  ∀ key, index.search key = bucketOf (values key)

namespace Index

variable {index : Index κ (Bucket ν)} {values : κ → List ν} {key : κ} {value : ν}

/-- Add a value at the end of the list of a key. -/
def addTo (index : Index κ (Bucket ν)) (key : κ) (value : ν) : Index κ (Bucket ν) :=
  match index.search key with
  | none => index.replace key ⟨[value], 1⟩
  | some bucket => index.replace key ⟨bucket.values ++ [value], bucket.length + 1⟩

theorem search_addTo (grouped : Grouped index values) {other : κ} :
    (index.addTo key value).search other =
      if other = key then bucketOf (values key ++ [value]) else index.search other := by
  have entry : bucketOf (values key ++ [value]) =
      some ⟨values key ++ [value], (values key).length + 1⟩ := by
    rw [bucketOf_of_ne_nil (by simp), length_append, length_singleton]
  rw [addTo, grouped key, entry]
  cases listed : values key with
  | nil => exact search_replace
  | cons => exact search_replace

variable [DecidableEq ν]

/-- Take a value out of the list of a key, and the key with the last value. -/
def takeFrom (index : Index κ (Bucket ν)) (key : κ) (value : ν) : Index κ (Bucket ν) :=
  match index.search key with
  | none => index
  | some bucket =>
    let left : Bucket ν :=
      if value ∈ bucket.values then ⟨bucket.values.eraseP (· = value), bucket.length - 1⟩
      else bucket
    if left.length = 0 then (index.remove key).getD index else index.replace key left

end Index

namespace Grouped

variable {index : Index κ (Bucket ν)} {values others : κ → List ν} {key : κ} {value : ν}

theorem addTo (grouped : Grouped index values) :
    Grouped (index.addTo key value)
      fun other => if other = key then values key ++ [value] else values other := by
  intro other
  rw [search_addTo grouped]
  dsimp only
  split
  · rfl
  · exact grouped other

theorem congr (grouped : Grouped index values) (same : ∀ key, others key = values key) :
    Grouped index others := fun key => by
  rw [same]
  exact grouped key

variable [DecidableEq ν]

/-- What is left of an entry. -/
theorem erased {values : List ν} :
    (if value ∈ values then (⟨values.eraseP (· = value), values.length - 1⟩ : Bucket ν)
      else ⟨values, values.length⟩) =
        ⟨values.eraseP (· = value), (values.eraseP (· = value)).length⟩ := by
  split
  next member => rw [length_eraseP_of_mem member (by simp)]
  rename_i absent
  rw [eraseP_of_forall_not fun other member => by
    simpa using fun same : other = value => absent (same ▸ member)]

theorem takeFrom (grouped : Grouped index values) :
    Grouped (index.takeFrom key value)
      fun other => if other = key then (values key).eraseP (· = value) else values other := by
  intro other
  rw [Index.takeFrom, grouped key]
  cases listed : values key with
  | nil =>
    rw [bucketOf]
    dsimp only
    split
    next here =>
      subst here
      rw [grouped, listed]
      rfl
    · exact grouped other
  | cons first rest =>
    rw [bucketOf_of_ne_nil (cons_ne_nil _ _)]
    dsimp only
    rw [erased]
    have present : index.search key ≠ none := by
      rw [grouped, listed]
      exact Option.some_ne_none _
    split
    next empty =>
      have nothing := eq_nil_of_length_eq_zero empty
      have removed : index.remove key = some (Keyed.remove index key) := if_neg present
      rw [removed, Option.getD_some, search_remove removed, nothing]
      split
      · rfl
      · exact grouped other
    next some_ =>
      rw [search_replace]
      split
      · rw [bucketOf_of_ne_nil fun nothing => some_ (by rw [nothing]; rfl)]
      · exact grouped other

/-- A value that is new to its key leaves no trace when it is taken out again. -/
theorem takeFrom_addTo (grouped : Grouped index values) (new : value ∉ values key) :
    (index.addTo key value).takeFrom key value = index := by
  have others : ∀ other ∈ values key, ¬ decide (other = value) = true := fun other member same =>
    new (of_decide_eq_true same ▸ member)
  have filed := @search_addTo _ _ _ _ _ key value grouped key
  rw [if_pos rfl, bucketOf_of_ne_nil (by simp)] at filed
  rw [Index.takeFrom, filed]
  dsimp only
  rw [erased, eraseP_append_right _ others, eraseP_cons_of_pos (by simp), append_nil]
  have entry := grouped key
  cases listed : values key with
  | nil =>
    rw [listed] at entry
    have absent : index.search key = none := entry
    have added : index.addTo key value = index.replace key ⟨[value], 1⟩ := by
      rw [Index.addTo, absent]
    rw [added, if_pos length_nil, remove_of_insert (insert_eq_replace absent)]
    rfl
  | cons first rest =>
    rw [listed, bucketOf_of_ne_nil (cons_ne_nil _ _)] at entry
    rw [if_neg (by simp), Index.addTo, entry]
    exact replace_replace entry

end Grouped

end Isulad.Std
