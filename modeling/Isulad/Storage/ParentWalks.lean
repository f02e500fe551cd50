import Mathlib.Order.WellFoundedSet
import Isulad.Storage.Deletion

/-!
# Walks along the parents of a layer

`storage/storage.c` goes from the top layer of an image along the parents to collect its layers, to
add up its size, to check that its layers exist, and to delete them. Only the deletion changes the
store on its way; nothing else keeps a walk from coming back to a layer, and `load_layer_json_cb`
takes a layer with any parent. `walksEnd_iff` says from which layers all of them take finitely many
steps.
-/

namespace Isulad.Storage

open Option Isulad.Std Relation

variable {σ ρ : Type}

/-- What a walk does on its way. -/
structure ParentWalk (σ ρ : Type) where
  /-- The result at a layer that is not in the store. -/
  missing : Text → σ → ρ
  /-- A layer ends the walk, or it goes on with the parent. -/
  visit : Text → Layer → σ → Except ρ σ
  /-- The result behind the last layer. -/
  finish : σ → ρ

/-- One turn of the loop. -/
def ParentWalk.step (walk : ParentWalk σ ρ) (layers : LayerStore) :
    Option Text × σ → LoopStep (Option Text × σ) ρ
  | (none, found) => .done (walk.finish found)
  | (some id, found) =>
    match LayerStore.layerStoreLookup layers id with
    | none => .done (walk.missing id found)
    | some layer =>
      match walk.visit id layer found with
      | .error result => .done result
      | .ok found => .next (layer.parent, found)

/-- `get_image_layers`. -/
def getImageLayers : ParentWalk (List Text) (List Text) where
  missing id found := found ++ [id]
  visit id _ found := .ok (found ++ [id])
  finish found := found

/-- The second loop of `storage_img_cal_image_size`. -/
def calImageSize (uncompressSize : Layer → Int) : ParentWalk Int Int where
  missing _ _ := -1
  visit _ layer total :=
    if uncompressSize layer < 0 ∨ layer.diffDigest = none then .error (-1)
    else .ok (total + uncompressSize layer)
  finish total := total

/-- `do_check_img_layers_exist`. -/
def doCheckImgLayersExist : ParentWalk Unit Bool where
  missing _ _ := false
  visit _ _ _ := .ok ()
  finish _ := true

/-- Each of the four walks from a layer takes finitely many steps. -/
def WalksEnd (layers : LayerStore) (top : Text) : Prop :=
  (∃ ids, LoopEnds (getImageLayers.step layers) (some top, []) ids) ∧
  (∀ uncompressSize total, ∃ size,
    LoopEnds ((calImageSize uncompressSize).step layers) (some top, total) size) ∧
  (∃ exist, LoopEnds (doCheckImgLayersExist.step layers) (some top, ()) exist) ∧
  ∀ removal imgId allImages, ∃ count last result,
    (relatedLayersLoop removal imgId allImages layers.entries).Reaches count ⟨layers, top, none⟩
      last ∧ deleteRelatedLayer removal imgId allImages layers.entries last = .done result

/-- `parent` is the parent of the layer that is found for `id`. -/
def Above (layers : LayerStore) (id parent : Text) : Prop :=
  ∃ layer, LayerStore.layerStoreLookup layers id = some layer ∧ layer.parent = some parent

variable {layers : LayerStore} {top id : Text}

theorem ParentWalk.ends_of_above (walk : ParentWalk σ ρ)
    (onward : ∀ parent, Above layers id parent → ∀ found, ∃ result,
      LoopEnds (walk.step layers) (some parent, found) result) (found : σ) :
    ∃ result, LoopEnds (walk.step layers) (some id, found) result := by
  cases known : LayerStore.layerStoreLookup layers id with
  | none => exact ⟨_, .done (by rw [step, known])⟩
  | some layer =>
    cases visited : walk.visit id layer found with
    | error result => exact ⟨result, .done (by simp [step, known, visited])⟩
    | ok next =>
      have taken : walk.step layers (some id, found) = .next (layer.parent, next) := by
        simp [step, known, visited]
      cases above : layer.parent with
      | none => exact ⟨walk.finish next, .next taken (.done (by rw [above, step]))⟩
      | some parent =>
        obtain ⟨result, rest⟩ := onward parent ⟨layer, known, above⟩ next
        exact ⟨result, .next (above ▸ taken) rest⟩

/-- A walk that meets no cycle ends: the ids it can come to are finitely many. -/
theorem ParentWalk.ends_of_acyclic (walk : ParentWalk σ ρ)
    (acyclic : ∀ id, ReflTransGen (Above layers) top id → ¬ TransGen (Above layers) id id)
    (found : σ) : ∃ result, LoopEnds (walk.step layers) (some top, found) result := by
  let below (id other : Text) : Prop :=
    TransGen (Above layers) other id ∧ ReflTransGen (Above layers) top other
  have : IsStrictOrder Text below :=
    { irrefl := fun id same => acyclic id same.2 same.1
      trans := fun _ _ _ one other => ⟨other.1.trans one.1, other.2⟩ }
  have finite : {id | id ∈ top :: layers.entries.filterMap Layer.parent}.Finite :=
    List.finite_toSet _
  refine finite.wellFoundedOn.induction (r := below) List.mem_cons_self
    (P := fun id => ReflTransGen (Above layers) top id → ∀ found, ∃ result,
      LoopEnds (walk.step layers) (some id, found) result) (fun id _ ih reached => ?_) .refl found
  refine walk.ends_of_above fun parent above => ih parent ?_ ⟨.single above, reached⟩
    (reached.tail above)
  obtain ⟨layer, known, named⟩ := above
  exact List.mem_cons_of_mem _
    (List.mem_filterMap.mpr ⟨layer, LayerStore.mem_of_lookup known, named⟩)

/-- From a layer that leads to a cycle the collection of the layers goes on forever. -/
theorem acyclic_of_ends {state : Option Text × List Text} {ids : List Text}
    (ends : LoopEnds (getImageLayers.step layers) state ids) (starts : state.1 = some top)
    (reaches : ReflTransGen (Above layers) top id) : ¬ TransGen (Above layers) id id := by
  intro cycle
  have onward : ∀ {top}, ReflTransGen (Above layers) top id →
      ∃ parent, Above layers top parent ∧ ReflTransGen (Above layers) parent id := by
    intro top reaches
    rcases reaches.cases_head with rfl | onward
    · exact TransGen.head'_iff.mp cycle
    · exact onward
  induction ends generalizing top with
  | @done state ids leaves =>
    obtain ⟨_, found⟩ := state
    cases starts
    obtain ⟨parent, ⟨layer, known, above⟩, -⟩ := onward reaches
    rw [ParentWalk.step, known] at leaves
    cases leaves
  | @next state next ids taken rest ih =>
    obtain ⟨_, found⟩ := state
    cases starts
    obtain ⟨parent, ⟨layer, known, above⟩, reaches⟩ := onward reaches
    rw [ParentWalk.step, known] at taken
    cases taken
    exact ih above reaches

/-- For every store and layer, all four walks take finitely many steps exactly when no layer that
they can come to is above itself. -/
theorem walksEnd_iff (layers : LayerStore) (top : Text) :
    WalksEnd layers top ↔
      ∀ id, ReflTransGen (Above layers) top id → ¬ TransGen (Above layers) id id := by
  constructor
  · rintro ⟨⟨ids, ends⟩, -⟩ id reaches
    exact acyclic_of_ends ends rfl reaches
  · intro acyclic
    refine ⟨getImageLayers.ends_of_acyclic acyclic _,
      fun uncompressSize total => (calImageSize uncompressSize).ends_of_acyclic acyclic total,
      doCheckImgLayersExist.ends_of_acyclic acyclic _, fun removal imgId allImages => ?_⟩
    obtain ⟨count, last, reached, -, leaves⟩ :=
      (relatedLayersLoop removal imgId allImages layers.entries).exists_final ⟨layers, top, none⟩
    exact ⟨count, last, _, reached, leaves⟩

/-- Two layers with ids of `LAYER_NAME_LEN`, each the parent of the other. -/
def parentCycle : LayerStore where
  entries :=
    [⟨.replicate 64 'a', some (.replicate 64 'b'), [], none, none, none, 0⟩,
     ⟨.replicate 64 'b', some (.replicate 64 'a'), [], none, none, none, 0⟩]
  apart := by decide

theorem walksEnd_fails_parentCycle : ¬ WalksEnd parentCycle (.replicate 64 'a') := by
  rintro ⟨⟨ids, ends⟩, -⟩
  have cycle : TransGen (Above parentCycle) (.replicate 64 'a') (.replicate 64 'a') :=
    .tail (.single ⟨_, rfl, rfl⟩) ⟨_, rfl, rfl⟩
  exact acyclic_of_ends ends rfl .refl cycle

end Isulad.Storage
