import Isulad.Map.RbTree
import Mathlib.Algebra.Order.Group.Multiset
import Mathlib.Data.Multiset.Range

/-!
# How a tree lies in memory

`cells` are the nodes of a tree with all their links, the link to the parent included, and
`frameCells` those of a context. `Holds` says that the memory consists of the `nil` node,
the nodes of one tree and some spare ones. Each operation on links is described by the tree
it leaves; rotation is the main one.
-/

namespace Isulad.Map

open Multiset Isulad.Std Isulad.Std.RedBlack

variable {K V : Type}

/-- A tree whose places are addresses. -/
abbrev Shape (K V : Type) : Type := RedBlack.Tree Address (K × V)

/-- A path in such a tree. -/
abbrev Path (K V : Type) : Type := Context Address (K × V)

abbrev Cells (K V : Type) : Type := Multiset (Address × RbNode K V)

/-- The pointer to a tree. -/
def ref : Shape K V → Address
  | .leaf => nil
  | .node place _ _ _ _ => place

/-- The node with its near child on this side. -/
def cellOf (side : Side) (entry : K × V) (colour : Colour) (near far parent : Address) :
    RbNode K V :=
  match side with
  | .left => ⟨some entry.1, some entry.2, colour, near, far, parent⟩
  | .right => ⟨some entry.1, some entry.2, colour, far, near, parent⟩

/-- The cells of a tree below this parent. -/
def cells (parent : Address) : Shape K V → Cells K V
  | .leaf => 0
  | .node place colour left entry right =>
    {(place, cellOf .left entry colour (ref left) (ref right) parent)} + cells place left +
      cells place right

/-- The parent of a hole. -/
def above : Path K V → Address
  | [] => nil
  | frame :: _ => frame.place

@[simp] theorem above_cons (frame : Frame Address (K × V)) (path : Path K V) :
    above (frame :: path) = frame.place := rfl

/-- The root of a tree whose hole is filled by this pointer. -/
def top (hole : Address) : Path K V → Address
  | [] => hole
  | frame :: path => top frame.place path

/-- The cells of a path whose hole is filled by this pointer. -/
def frameCells (hole : Address) : Path K V → Cells K V
  | [] => 0
  | frame :: path =>
    {(frame.place, cellOf frame.side frame.entry frame.colour hole (ref frame.sibling)
      (above path))} + cells frame.place frame.sibling + frameCells frame.place path

/-- The cell of the `nil` node. Its parent is whatever was written there last. -/
def nilCell (parent : Address) : Address × RbNode K V :=
  (nil, ⟨none, none, .black, 0, 0, parent⟩)

section Layout

variable {side : Side} {place parent near far hole : Address} {colour : Colour} {entry : K × V}

@[simp] theorem cellOf_colour : (cellOf side entry colour near far parent).colour = colour := by
  cases side <;> rfl

@[simp] theorem cellOf_parent : (cellOf side entry colour near far parent).parent = parent := by
  cases side <;> rfl

@[simp] theorem cellOf_key : (cellOf side entry colour near far parent).key = some entry.1 := by
  cases side <;> rfl

@[simp] theorem cellOf_child : (cellOf side entry colour near far parent).child side = near := by
  cases side <;> rfl

@[simp] theorem cellOf_child_other :
    (cellOf side entry colour near far parent).child side.other = far := by
  cases side <;> rfl

theorem cellOf_other :
    cellOf side.other entry colour near far parent = cellOf side entry colour far near parent := by
  cases side <;> rfl

@[simp] theorem cellOf_withChild (child : Address) :
    (cellOf side entry colour near far parent).withChild side child =
      cellOf side entry colour child far parent := by
  cases side <;> rfl

@[simp] theorem cellOf_withChild_other (child : Address) :
    (cellOf side entry colour near far parent).withChild side.other child =
      cellOf side entry colour near child parent := by
  cases side <;> rfl

@[simp] theorem cellOf_withParent (parent' : Address) :
    { cellOf side entry colour near far parent with parent := parent' } =
      cellOf side entry colour near far parent' := by
  cases side <;> rfl

@[simp] theorem cellOf_withColour (colour' : Colour) :
    { cellOf side entry colour near far parent with colour := colour' } =
      cellOf side entry colour' near far parent := by
  cases side <;> rfl

@[simp] theorem ref_node (near far : Shape K V) :
    ref (side.node place colour near entry far) = place := by
  cases side <;> rfl

theorem cells_node (near far : Shape K V) :
    cells parent (side.node place colour near entry far) =
      {(place, cellOf side entry colour (ref near) (ref far) parent)} + cells place near +
        cells place far := by
  cases side with
  | left => rfl
  | right =>
    rw [add_right_comm]
    rfl

theorem ref_plug (path : Path K V) (tree : Shape K V) :
    ref (plug path tree) = top (ref tree) path := by
  induction path generalizing tree with
  | nil => rfl
  | cons frame path ih =>
    rw [plug, ih, Frame.fill, ref_node]
    rfl

theorem cells_plug (path : Path K V) (tree : Shape K V) :
    cells nil (plug path tree) = cells (above path) tree + frameCells (ref tree) path := by
  induction path generalizing tree with
  | nil => simp [plug, above, frameCells]
  | cons frame path ih =>
    rw [plug, ih, Frame.fill, cells_node, ref_node]
    simp [frameCells]
    ac_rfl

theorem mem_frameCells {frame : Frame Address (K × V)} {path : Path K V} (member : frame ∈ path) :
    ∃ cell, (frame.place, cell) ∈ frameCells hole path := by
  induction path generalizing hole with
  | nil => cases member
  | cons next path ih =>
    rcases List.mem_cons.mp member with rfl | later
    · exact ⟨_, mem_add.mpr (.inl (mem_add.mpr (.inl
        (mem_singleton_self _))))⟩
    · obtain ⟨cell, found⟩ := @ih next.place later
      exact ⟨cell, mem_add.mpr (.inr found)⟩

theorem top_mem_frameCells (frame : Frame Address (K × V)) (path : Path K V) :
    ∃ cell, (top frame.place path, cell) ∈ frameCells hole (frame :: path) := by
  obtain ⟨last, member, same⟩ : ∃ last ∈ frame :: path, top frame.place path = last.place := by
    induction path generalizing frame with
    | nil => exact ⟨frame, List.mem_cons_self, rfl⟩
    | cons next path ih =>
      obtain ⟨last, member, same⟩ := ih next
      exact ⟨last, List.mem_cons_of_mem _ member, same⟩
  rw [same]
  exact mem_frameCells member

end Layout

/-- The tree has this root, and its memory consists of these cells. -/
structure Has (tree : RbTree K V) (root : Address) (cells : Cells K V) : Prop where
  root : tree.root = root
  owns : Owns tree.memory cells
  bound : ∀ place ∈ cells.map Prod.fst, 0 < place ∧ place < tree.next

section Has

variable {state : RbTree K V}
  {root place near far parent child hole nilParent root' replacement : Address} {node : RbNode K V}
  {all rest grouped front : Cells K V} {post : Unit → RbTree K V → Prop} {side : Side}
  {entry : K × V} {colour : Colour} {path : Path K V} {tree sibling : Shape K V}

/-- The cells, grouped for the next step. -/
theorem Has.regroup (has : Has state root all) (same : all = grouped) :
    Has state root grouped := same ▸ has

theorem Has.read (has : Has state root ({(place, node)} + rest)) :
    state.memory place = some node :=
  has.owns.read (mem_add.mpr (.inl (mem_singleton_self _)))

/-- There are no more cells than addresses handed out. -/
theorem Has.card_le (has : Has state root all) : all.card ≤ state.next := by
  rw [← card_map Prod.fst all, ← card_range state.next]
  refine card_le_card ((le_iff_subset has.owns.apart).mpr ?_)
  intro place member
  exact mem_range.mpr (has.bound place member).2

section

variable (found : state.memory place = some node)
include found

theorem runs_load {post : RbNode K V → RbTree K V → Prop} (holds : post node state) :
    Runs (load place) state post := by
  refine ⟨node, state, ?_, holds⟩
  unfold load
  rw [found]
  rfl

theorem runs_colourOf {post : Colour → RbTree K V → Prop} (holds : post node.colour state) :
    Runs (colourOf place) state post := runs_bind (runs_load found (runs_pure holds))

theorem runs_parentOf {post : Address → RbTree K V → Prop} (holds : post node.parent state) :
    Runs (parentOf place) state post := runs_bind (runs_load found (runs_pure holds))

theorem runs_childOf {post : Address → RbTree K V → Prop} (holds : post (node.child side) state) :
    Runs (childOf side place) state post := runs_bind (runs_load found (runs_pure holds))

end

theorem runs_getRoot {post : Address → RbTree K V → Prop} (holds : post state.root state) :
    Runs getRoot state post := ⟨_, _, rfl, holds⟩

theorem runs_budget {post : Nat → RbTree K V → Prop} (holds : post state.next state) :
    Runs budget state post := ⟨_, _, rfl, holds⟩

theorem Has.runs_update {change : RbNode K V → RbNode K V}
    (has : Has state root ({(place, node)} + rest))
    (holds : ∀ state', Has state' root ({(place, change node)} + rest) → post () state') :
    Runs (update place change) state post := by
  refine ⟨(), { state with memory := state.memory.set place (some (change node)) }, ?_, ?_⟩
  · unfold update
    rw [has.read]
    rfl
  · exact holds _ ⟨has.root, has.owns.write, fun other member => has.bound other (by
      simpa using member)⟩

theorem Has.runs_setRoot (has : Has state root all)
    (holds : ∀ state', Has state' root' all → post () state') :
    Runs (setRoot root') state post :=
  ⟨(), { state with root := root' }, rfl, holds _ ⟨rfl, has.owns, has.bound⟩⟩

theorem Has.runs_kvfreer {key : Option K} {value : Option V} (has : Has state root all)
    (holds : ∀ state', Has state' root all → post () state') :
    Runs (kvfreer key value) state post :=
  ⟨(), { state with released := (key, value) :: state.released }, rfl,
    holds _ ⟨has.root, has.owns, has.bound⟩⟩

section

variable (has : Has state root ({(place, cellOf side entry colour near far parent)} + rest))
include has

theorem Has.runs_setParent (holds : ∀ state', Has state' root
      ({(place, cellOf side entry colour near far child)} + rest) → post () state') :
    Runs (setParent place child) state post := by
  refine has.runs_update fun state' has' => holds state' ?_
  rwa [cellOf_withParent] at has'

theorem Has.runs_setNear (holds : ∀ state', Has state' root
      ({(place, cellOf side entry colour child far parent)} + rest) → post () state') :
    Runs (setChild side place child) state post := by
  refine has.runs_update fun state' has' => holds state' ?_
  rwa [cellOf_withChild] at has'

theorem Has.runs_setFar (holds : ∀ state', Has state' root
      ({(place, cellOf side entry colour near child parent)} + rest) → post () state') :
    Runs (setChild side.other place child) state post := by
  refine has.runs_update fun state' has' => holds state' ?_
  rwa [cellOf_withChild_other] at has'

end

/-- A subtree gets another parent; there is nothing to do for a leaf. -/
theorem Has.runs_setParentUnlessNil (has : Has state root (cells parent tree + rest))
    (nilRest : nilCell nilParent ∈ rest)
    (holds : ∀ state', Has state' root (cells child tree + rest) → post () state') :
    Runs (setParentUnlessNil (ref tree) child) state post := by
  cases tree with
  | leaf => exact runs_pure (holds state has)
  | node place colour left entry right =>
    rw [cells, add_assoc, add_assoc] at has
    have nonNil : place ≠ nil :=
      has.owns.ne (mem_add.mpr (.inr (mem_add.mpr (.inr nilRest))))
    unfold setParentUnlessNil
    rw [ref, if_pos nonNil]
    refine has.runs_setParent fun state' has' => holds state' ?_
    rw [cells, add_assoc, add_assoc]
    exact has'

theorem Has.ne_ref (has : Has state root ({(place, node)} + (cells parent tree + rest)))
    (nilRest : nilCell nilParent ∈ rest) : place ≠ ref tree := by
  cases tree with
  | leaf => exact has.owns.ne (mem_add.mpr (.inr nilRest))
  | node other colour left entry right =>
    rw [cells, add_assoc, add_assoc] at has
    exact has.owns.ne (mem_add.mpr (.inl (mem_singleton_self _)))

/-- The first node of a path, with everything else. -/
theorem has_frame :
    Has state root
      (front + frameCells hole (⟨side, place, colour, entry, sibling⟩ :: path) + rest) ↔
      Has state root ({(place, cellOf side entry colour hole (ref sibling) (above path))} +
        (front + cells place sibling + frameCells place path + rest)) := by
  rw [frameCells, iff_iff_eq]
  congr 1
  ac_rfl

/-- The parent of a node points to its replacement afterwards. -/
theorem Has.runs_relink
    (has : Has state (top place path) ({(place, node)} + frameCells place path + rest))
    (above : node.parent = above path) (nilRest : nilCell nilParent ∈ rest)
    (holds : ∀ state', Has state' (top replacement path)
      ({(place, node)} + frameCells replacement path + rest) → post () state') :
    Runs (relink side place replacement) state post := by
  have found : state.memory place = some node := has.owns.read (by simp)
  refine runs_bind (runs_parentOf found ?_)
  rw [above]
  cases path with
  | nil => exact runs_if_pos rfl (has.runs_setRoot holds)
  | cons frame path =>
    obtain ⟨frameSide, parent, colour, entry, sibling⟩ := frame
    have apart : place ≠ ref sibling := by
      have has : Has state _ ({(place, node)} + (cells parent sibling + ({(parent, cellOf frameSide
        entry colour place (ref sibling) (Map.above path))} + frameCells parent path + rest))) :=
        has.regroup (by rw [frameCells]; ac_rfl)
      exact has.ne_ref (mem_add.mpr (.inr nilRest))
    rw [has_frame] at has
    simp only [has_frame] at holds
    have nonNil : parent ≠ nil := has.owns.ne (mem_add.mpr (.inr nilRest))
    refine runs_if_neg nonNil (runs_bind (runs_childOf has.read ?_))
    rcases side.eq_or_other frameSide with rfl | rfl
    · rw [cellOf_child]
      exact runs_if_pos rfl (has.runs_setNear holds)
    · simp only [cellOf_other] at has holds ⊢
      rw [cellOf_child]
      exact runs_if_neg apart (has.runs_setFar holds)

end Has

/-- The `nil` node and the nodes outside the tree. -/
def others (nilParent : Address) (spare : Cells K V) : Cells K V := spare + {nilCell nilParent}

theorem nilCell_mem_others {nilParent : Address} {spare : Cells K V} :
    nilCell nilParent ∈ others nilParent spare :=
  mem_add.mpr (.inr (mem_singleton_self _))

/-- The memory consists of the nodes of the tree, the `nil` node and the spare nodes. -/
def Holds (state : RbTree K V) (tree : Shape K V) (nilParent : Address) (spare : Cells K V) :
    Prop :=
  Has state (ref tree) (cells nil tree + others nilParent spare)

section Holds

variable {state : RbTree K V} {path : Path K V} {side side' : Side} {place place' y : Address}
  {colour colour' : Colour} {tree near far right left inner outer : Shape K V}
  {entry entry' : K × V} {nilParent : Address} {spare : Cells K V} {post : Unit → RbTree K V → Prop}

theorem holds_plug : Holds state (plug path tree) nilParent spare ↔
    Has state (top (ref tree) path)
      (cells (above path) tree + frameCells (ref tree) path + others nilParent spare) := by
  rw [Holds, ref_plug, cells_plug]

/-- One node of the tree, with everything else. -/
theorem holds_node : Holds state (plug path (side.node place colour near entry far)) nilParent
      spare ↔
    Has state (top place path)
      ({(place, cellOf side entry colour (ref near) (ref far) (above path))} +
        (cells place near + cells place far + frameCells place path +
          others nilParent spare)) := by
  rw [holds_plug, ref_node, cells_node]
  simp [add_assoc]

/-- The same for a node that is given by its left and its right subtree. -/
theorem holds_plain :
    Holds state (plug path (.node place colour left entry right)) nilParent spare ↔
      Has state (top place path)
        ({(place, cellOf .left entry colour (ref left) (ref right) (above path))} +
          (cells place left + cells place right + frameCells place path +
            others nilParent spare)) :=
  @holds_node _ _ state path .left place colour left right entry nilParent spare

theorem Holds.found_plain
    (holds : Holds state (plug path (.node place colour left entry right)) nilParent spare) :
    state.memory place = some (cellOf .left entry colour (ref left) (ref right) (above path)) :=
  (holds_plain.mp holds).read

theorem Holds.ref_pos (holds : Holds state (plug path tree) nilParent spare) : ref tree ≠ 0 := by
  cases tree with
  | leaf => exact Nat.one_ne_zero
  | node place colour left entry right => exact ((holds_plain.mp holds).bound place (by simp)).1.ne'

/-- The `nil` node is black. -/
theorem Holds.nil_found (holds : Holds state tree nilParent spare) :
    state.memory nil = some ⟨none, none, .black, 0, 0, nilParent⟩ :=
  Has.owns holds |>.read (mem_add.mpr (.inr nilCell_mem_others))

theorem Holds.near_ne_far (holds : Holds state (plug path (side.node place colour
      (side'.node place' colour' inner entry' outer) entry far)) nilParent spare) :
    place' ≠ ref far := by
  have has := holds_node.mp holds
  rw [ref_node, cells_node] at has
  have has : Has state _ ({(place', cellOf side' entry' colour' (ref inner) (ref outer) place)} +
    (cells place far + ({(place, cellOf side entry colour place' (ref far) (above path))} + cells
    place' inner + cells place' outer + frameCells place path + others nilParent spare))) :=
    has.regroup (by ac_rfl)
  exact has.ne_ref (mem_add.mpr (.inr nilCell_mem_others))

theorem Holds.runs_colourOf_ref {post : Colour → RbTree K V → Prop}
    (holds : Holds state (plug path tree) nilParent spare) (after : post tree.colour state) :
    Runs (colourOf (ref tree)) state post := by
  cases tree with
  | leaf => exact runs_colourOf holds.nil_found after
  | node place colour left entry right => exact runs_colourOf holds.found_plain after

theorem Holds.runs_setColour {colour' : Colour}
    (holds : Holds state (plug path (side.node place colour near entry far)) nilParent spare)
    (after : ∀ state', Holds state' (plug path (side.node place colour' near entry far))
      nilParent spare → post () state') :
    Runs (setColour place colour') state post := by
  refine (holds_node.mp holds).runs_update fun state' has => after state' ?_
  rw [cellOf_withColour] at has
  exact holds_node.mpr has

/-- Painting a subtree black, which changes nothing in a leaf. -/
theorem Holds.runs_setBlack (holds : Holds state (plug path tree) nilParent spare)
    (after : ∀ state', Holds state' (plug path (tree.paint .black)) nilParent spare →
      post () state') :
    Runs (setColour (ref tree) .black) state post := by
  cases tree with
  | leaf =>
    have split : (cells nil (plug path (.leaf : Shape K V)) + others nilParent spare) =
        {nilCell nilParent} + (cells nil (plug path .leaf) + spare) := by
      rw [others]
      ac_rfl
    refine (Has.regroup holds split).runs_update fun state' has => after state' ?_
    rw [Holds, Tree.paint, others]
    convert has using 1
    ac_rfl
  | node place colour left entry right =>
    exact @Holds.runs_setColour _ _ state path .left place colour left right entry nilParent
      spare post .black holds after

section

variable (holds : Holds state (plug path (side.node place colour near entry far)) nilParent spare)
include holds

theorem Holds.found :
    state.memory place = some (cellOf side entry colour (ref near) (ref far) (above path)) :=
  (holds_node.mp holds).read

theorem Holds.ne_nil : place ≠ nil :=
  (holds_node.mp holds).owns.ne (mem_add.mpr (.inr nilCell_mem_others))

theorem Holds.down_far :
    Holds state (plug (⟨side.other, place, colour, entry, near⟩ :: path) far) nilParent spare := by
  rw [plug, Frame.fill, Side.node_other]
  exact holds

theorem Holds.down :
    Holds state (plug (⟨side, place, colour, entry, far⟩ :: path) near) nilParent spare := holds

end

theorem Holds.up (holds : Holds state (plug (⟨side, place, colour, entry, far⟩ :: path) near)
    nilParent spare) :
    Holds state (plug path (side.node place colour near entry far)) nilParent spare := holds

theorem Holds.up_far
    (holds : Holds state (plug (⟨side.other, place, colour, entry, near⟩ :: path) far)
      nilParent spare) :
    Holds state (plug path (side.node place colour near entry far)) nilParent spare := by
  rwa [plug, Frame.fill, Side.node_other] at holds

/-- Rotating a node towards a side. -/
theorem Holds.runs_rot (holds : Holds state (plug path (side.node place colour near entry
      (side.node y colour' inner entry' outer))) nilParent spare)
    (after : ∀ state', Holds state' (plug path (side.node y colour'
      (side.node place colour near entry inner) entry' outer)) nilParent spare → post () state') :
    Runs (rot side place) state post := by
  have yFound := holds.down_far.found
  refine runs_bind (runs_childOf holds.found ?_)
  rw [cellOf_child_other, ref_node]
  refine runs_bind (runs_childOf yFound ?_)
  rw [cellOf_child]
  have has := holds_node.mp holds
  rw [ref_node, cells_node] at has
  -- node->right = y->left
  refine runs_bind (has.runs_setFar fun state has => ?_)
  obtain ⟨node, isNode⟩ : ∃ node, node = cellOf side entry colour (ref near) (ref inner)
    (above path) := ⟨_, rfl⟩
  obtain ⟨rest, isRest⟩ : ∃ rest, rest = cells place near + cells y outer +
    others nilParent spare := ⟨_, rfl⟩
  have nilRest : nilCell nilParent ∈ rest :=
    isRest ▸ mem_add.mpr (.inr nilCell_mem_others)
  -- y->left->parent = node
  have has : Has state _ (cells y inner + ({(place, node)} + {(y, cellOf side entry' colour'
    (ref inner) (ref outer) place)} + frameCells place path + rest)) := has.regroup (by
      rw [isNode, isRest]
      ac_rfl)
  refine runs_bind (has.runs_setParentUnlessNil (mem_add.mpr (.inr nilRest))
    fun state has => ?_)
  -- y->parent = node->parent
  have found : state.memory place = some node := has.owns.read (by simp)
  have nodeParent : node.parent = above path := by rw [isNode, cellOf_parent]
  refine runs_bind (runs_parentOf found ?_)
  rw [nodeParent]
  have has : Has state _ ({(y, cellOf side entry' colour' (ref inner) (ref outer) place)} +
    ({(place, node)} + frameCells place path + (cells place inner + rest))) :=
      has.regroup (by ac_rfl)
  refine runs_bind (has.runs_setParent fun state has => ?_)
  -- link node's parent to y
  have has : Has state _ ({(place, node)} + frameCells place path + ({(y, cellOf side entry' colour'
    (ref inner) (ref outer) (above path))} + (cells place inner + rest))) := has.regroup (by ac_rfl)
  refine runs_bind (has.runs_relink nodeParent (mem_add.mpr (.inr
    (mem_add.mpr (.inr nilRest)))) fun state has => ?_)
  -- put node on y's left
  have has : Has state _ ({(y, cellOf side entry' colour' (ref inner) (ref outer) (above path))} +
    ({(place, node)} + frameCells y path + (cells place inner + rest))) := has.regroup (by ac_rfl)
  refine runs_bind (has.runs_setNear fun state has => ?_)
  rw [isNode] at has
  have has : Has state _ ({(place, cellOf side entry colour (ref near) (ref inner) (above path))} +
    ({(y, cellOf side entry' colour' place (ref outer) (above path))} + frameCells y path +
    (cells place inner + rest))) := has.regroup (by ac_rfl)
  refine has.runs_setParent fun state has => after state ?_
  rw [holds_node, ref_node, cells_node]
  convert has using 1
  rw [isRest]
  ac_rfl

end Holds

end Isulad.Map
