import Isulad.Container.State
import Isulad.Std.Index

/-!
# The containers store and the name index

`containers_store.c`: the containers by id, and the ids by name.
-/

namespace Isulad.Container

open Isulad.Std

/-- `g_containers_store`, with the containers by their addresses, and `g_indexs`. -/
structure ContainersStore where
  containers : Index Text Nat
  names : Index Text Text

namespace ContainersStore

variable {store : ContainersStore} {id name : Text}

section

variable (store : ContainersStore)

/-- `containers_store_get_by_id`. -/
def getById (id : Text) : Option Nat := store.containers.search id

/-- `containers_store_get_by_name`. -/
def getByName (name : Text) : Option Nat :=
  (store.names.search name).bind store.getById

/-- `containers_store_get_by_prefix`. -/
def getByPrefix (start : Text) : Option Nat :=
  store.containers.only start.isPrefixOf

/-- `containers_store_get`. -/
def get (idOrName : Text) : Option Nat :=
  (store.getById idOrName).or ((store.getByName idOrName).or (store.getByPrefix idOrName))

/-- A container has its id in the store and its name in the index. -/
def Registered (id name : Text) : Prop :=
  (∃ cont, store.containers.search id = some cont) ∧ store.names.search name = some id

/-- Neither the id nor the name of a container is known. -/
def Unknown (id name : Text) : Prop :=
  store.containers.search id = none ∧ store.names.search name = none

end

theorem Registered.get_ne_none (registered : store.Registered id name) : store.get id ≠ none := by
  obtain ⟨⟨cont, here⟩, -⟩ := registered
  rw [get, getById, here]
  exact Option.some_ne_none cont

/-- Taking the id out of the store and the name out of the index makes a container unknown. -/
theorem Registered.removed (registered : store.Registered id name) :
    ∃ containers names, store.containers.remove id = some containers ∧
      store.names.remove name = some names ∧ Unknown ⟨containers, names⟩ id name := by
  obtain ⟨⟨cont, here⟩, named⟩ := registered
  have stored : store.containers.search id ≠ none := here ▸ Option.some_ne_none cont
  have indexed : store.names.search name ≠ none := named ▸ Option.some_ne_none id
  have left : store.containers.remove id = some (Keyed.remove store.containers id) :=
    if_neg stored
  have right : store.names.remove name = some (Keyed.remove store.names name) := if_neg indexed
  refine ⟨_, _, left, right, ?_, ?_⟩
  · rw [Index.search_remove left, if_pos rfl]
  · rw [Index.search_remove right, if_pos rfl]

end ContainersStore

end Isulad.Container
