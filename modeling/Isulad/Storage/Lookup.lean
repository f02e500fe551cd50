import Isulad.Container.ContainersStore
import Isulad.Storage.ImageIndex
import Isulad.Storage.RootfsStore

/-!
# What a query finds

The image store, the containers store and the rootfs store each look a query up by id, then in a
second index, then by the start of the ids.
-/

namespace Isulad.Storage

open Isulad.Std Isulad.Container Index

/-- A query finds the entry of its id, or else the owner of the name, or else the entry of the
only id that it starts. -/
def Resolves {ν : Type} (ids : Index Text ν) (owner : Text → Option ν) (query : Text)
    (found : Option ν) : Prop :=
  match ids.search query, owner query with
  | some entry, _ => found = some entry
  | none, some entry => found = some entry
  | none, none => ∀ entry, found = some entry ↔ ∃ id, ids.search id = some entry ∧ query <+: id ∧
      ∀ other here, ids.search other = some here → query <+: other → other = id

theorem resolves_iff {ν : Type} {ids : Index Text ν} {owner : Text → Option ν} {query : Text}
    {found : Option ν} : Resolves ids owner query found ↔
      found = (ids.search query).or ((owner query).or (ids.only query.isPrefixOf)) := by
  unfold Resolves
  split
  next byId => rw [byId, Option.some_or]
  next byId byName => rw [byId, byName, Option.none_or, Option.some_or]
  next byId byName =>
    rw [byId, byName, Option.none_or, Option.none_or, Option.ext_iff]
    simp [only_eq_some_iff]

/-- The first two stores resolve every query. The rootfs store, which searches its layers in place
of its names, resolves a query that is an id, or that leads to the same rootfs as either. -/
theorem lookup_resolves_iff (images : ImageTables) (store : ContainersStore)
    (tables : RootfsTables) (query : Text) :
    Resolves images.byid images.byname.search query (images.lookup query) ∧
      Resolves store.containers store.getByName query (store.get query) ∧
      (Resolves tables.byid tables.byname.search query (tables.lookup query) ↔
        tables.byid.search query ≠ none ∨
        tables.bylayer.search query = tables.byname.search query ∨
        ∃ rootfs, tables.byid.only query.isPrefixOf = some rootfs ∧
          (tables.bylayer.search query = some rootfs ∧ tables.byname.search query = none ∨
            tables.bylayer.search query = none ∧ tables.byname.search query = some rootfs)) := by
  refine ⟨resolves_iff.mpr Option.or_assoc, resolves_iff.mpr rfl, ?_⟩
  rw [resolves_iff, RootfsTables.lookup, Option.or_assoc]
  cases tables.byid.search query with
  | some rootfs => simp
  | none =>
    cases tables.bylayer.search query <;> cases tables.byname.search query <;> simp [eq_comm]

/-- A rootfs with a name. -/
def namedTables : RootfsTables :=
  let rootfs : RootfsRecord := ⟨"1f2e".toList, ["web".toList], "base".toList, "1f2e".toList⟩
  (RootfsTables.appendContainerRootfs ⟨[], 0, .empty, .empty, .empty⟩ rootfs).2

theorem resolves_fails_name :
    ¬ Resolves namedTables.byid namedTables.byname.search "web".toList
      (namedTables.lookup "web".toList) := by
  rw [resolves_iff]
  decide

end Isulad.Storage
