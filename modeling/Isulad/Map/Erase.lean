import Isulad.Map.Insert

/-!
# Removal

Taking a black node out leaves a subtree one black node short of its place.
`rbtree_erase_fixup` looks at its sibling: a red one is rotated away first; with black
nephews the sibling turns red and the parent is short instead; otherwise one or two
rotations end the repair. The short subtree may be empty, and then the loop finds its way
up by the parent that was left in the `nil` node.
-/

namespace Isulad.Map

open Multiset Isulad.Std Isulad.Std.RedBlack

variable {K V : Type}

section Fixup

variable {state : RbTree K V} {path : Path K V} {tree : Shape K V} {nilParent : Address}
  {spare : Cells K V} {allows : Bool} {height total fuel : Nat} {post : Unit → RbTree K V → Prop}

/-- The parent of a subtree, also of an empty one whose parent was left in `nil`. -/
theorem Holds.runs_parentOf_ref {post : Address → RbTree K V → Prop}
    (holds : Holds state (plug path tree) nilParent spare)
    (aware : tree = .leaf → nilParent = above path) (after : post (above path) state) :
    Runs (parentOf (ref tree)) state post := by
  cases tree with
  | leaf => exact runs_parentOf holds.nil_found (by rwa [aware rfl])
  | node place colour left entry right =>
    exact runs_parentOf holds.found_plain (by rwa [cellOf_parent])

theorem Holds.runs_isBlack {post : Bool → RbTree K V → Prop}
    (holds : Holds state (plug path tree) nilParent spare)
    (after : post (decide (tree.colour = .black)) state) :
    Runs (isBlack (ref tree)) state post := by
  cases tree with
  | leaf => exact runs_if_pos rfl (runs_pure after)
  | node place colour left entry right =>
    exact runs_if_neg holds.ref_ne_nil (runs_bind (holds.runs_colourOf_ref (runs_pure after)))

section Turn

variable {side : Side} {parent place : Address} {colour : Colour} {entry siblingEntry : K × V}
  {sibling inner outer : Shape K V}

/-- When a nephew is red, it is brought to the outer side of the sibling. -/
theorem Holds.runs_eraseFixupInner {post : Address → RbTree K V → Prop}
    (holds : Holds state (plug (⟨side, parent, colour, entry,
      side.node place .black inner siblingEntry outer⟩ :: path) tree) nilParent spare)
    (aware : tree = .leaf → nilParent = parent)
    (fits : Fits (⟨side, parent, colour, entry, side.node place .black inner siblingEntry outer⟩ ::
      path) allows (height + 1))
    (redNephew : ¬ (inner.colour = .black ∧ outer.colour = .black))
    (after : ∀ state' place' inner' siblingEntry' outer',
      Holds state' (plug (⟨side, parent, colour, entry,
        side.node place' .black inner' siblingEntry' outer'⟩ :: path) tree) nilParent spare →
      Fits (⟨side, parent, colour, entry, side.node place' .black inner' siblingEntry' outer'⟩ ::
        path) allows (height + 1) → outer'.colour = .red →
      (side.node place' .black inner' siblingEntry' outer').entries =
        (side.node place .black inner siblingEntry outer).entries → post place' state') :
    Runs (eraseFixupInner side (ref tree) place) state post := by
  have parentHolds := holds.up
  have siblingHolds := parentHolds.down_far
  refine runs_bind (runs_childOf siblingHolds.found ?_)
  rw [cellOf_child_other]
  refine runs_bind (siblingHolds.down_far.runs_isBlack ?_)
  cases outerColour : outer.colour with
  | red =>
    refine runs_if_neg (by decide) (runs_pure ?_)
    exact after state _ _ _ _ holds fits outerColour rfl
  | black =>
    have innerRed : inner.colour = .red := by
      cases innerColour : inner.colour with
      | red => rfl
      | black => exact absurd ⟨innerColour, outerColour⟩ redNephew
    obtain ⟨nephew, near, nephewEntry, far, rfl⟩ := Tree.exists_node side innerRed
    refine runs_if_pos rfl (runs_bind (siblingHolds.runs_setColour fun state siblingHolds => ?_))
    refine runs_bind (runs_childOf siblingHolds.found ?_)
    rw [cellOf_child, ref_node]
    refine runs_bind (siblingHolds.down.runs_setColour fun state nephewHolds => ?_)
    have siblingHolds := nephewHolds.up
    rw [← Side.node_other, ← Side.node_other side nephew] at siblingHolds
    refine runs_bind (siblingHolds.runs_rot fun state rotated => ?_)
    rw [Side.node_other, Side.node_other] at rotated
    have parentHolds := rotated.up_far
    have holds := parentHolds.down
    refine runs_bind (holds.runs_parentOf_ref aware (runs_childOf parentHolds.found ?_))
    rw [cellOf_child_other, ref_node]
    exact after state _ _ _ _ holds (fits.rotate_inner outerColour) (Tree.colour_node)
      (Tree.entries_rotate _ _).symm

section

variable {post : Address → RbTree K V → Prop}
  (holds : Holds state (plug (⟨side, parent, colour, entry, sibling⟩ :: path) tree) nilParent spare)
  (aware : tree = .leaf → nilParent = parent)
  (fits : Fits (⟨side, parent, colour, entry, sibling⟩ :: path) allows (height + 1))
include holds aware fits

/-- After a red sibling is rotated away the sibling is black. -/
theorem Holds.runs_eraseFixupRedSibling
    (after : ∀ state' colour' path' allows' place' inner' siblingEntry' outer',
      Holds state' (plug (⟨side, parent, colour', entry,
        side.node place' .black inner' siblingEntry' outer'⟩ :: path') tree) nilParent spare →
      Fits (⟨side, parent, colour', entry, side.node place' .black inner' siblingEntry' outer'⟩ ::
        path') allows' (height + 1) →
      path'.length ≤ path.length ∨ colour' = .red ∧ path'.length ≤ path.length + 1 →
      (plug (⟨side, parent, colour', entry, side.node place' .black inner' siblingEntry' outer'⟩ ::
        path') tree).entries =
          (plug (⟨side, parent, colour, entry, sibling⟩ :: path) tree).entries →
      post place' state') :
    Runs (eraseFixupRedSibling side (ref tree) (ref sibling)) state post := by
  obtain ⟨place, shade, inner, siblingEntry, outer, rfl⟩ := fits.exists_sibling
  have parentHolds := holds.up
  refine runs_bind (parentHolds.down_far.runs_colourOf_ref ?_)
  rw [Tree.colour_node, ref_node]
  cases shade with
  | black =>
    refine runs_if_neg (by decide) (runs_pure ?_)
    exact after state _ path _ _ _ _ _ holds fits (.inl le_rfl) rfl
  | red =>
    refine runs_if_pos rfl (runs_bind (holds.runs_parentOf_ref aware ?_))
    refine runs_bind (parentHolds.runs_setColour fun state parentHolds => ?_)
    refine runs_bind (parentHolds.down_far.runs_setColour fun state siblingHolds => ?_)
    refine runs_bind (siblingHolds.up_far.runs_rot fun state rotated => ?_)
    have fits := fits.rotate_redSibling
    obtain ⟨place', shade', inner', siblingEntry', outer', rfl⟩ := fits.exists_sibling
    have holds := rotated.down.down
    refine runs_bind (holds.runs_parentOf_ref aware ?_)
    refine runs_childOf holds.up.found ?_
    rw [cellOf_child_other, ref_node]
    obtain rfl : shade' = .black := by
      cases fits with
      | red _ beside => rw [← beside.colour_eq, Tree.colour_node]
    refine after state _ _ _ _ _ _ _ holds fits (.inr ⟨rfl, le_rfl⟩) ?_
    exact entries_plug_congr path (Tree.entries_rotate _ _)

/-- One turn of the repair: either a subtree further up is short, or the tree is balanced. -/
theorem Holds.runs_eraseFixupTurn (balanced : Balanced tree .black height)
    (short : ∀ state' path' tree' allows' height', Holds state' (plug path' tree') nilParent spare →
      tree' ≠ .leaf → Fits path' allows' (height' + 1) → Short tree' height' →
      path'.length ≤ path.length ∨ tree'.colour = .red ∧ path'.length ≤ path.length + 1 →
      (plug path' tree').entries =
        (plug (⟨side, parent, colour, entry, sibling⟩ :: path) tree).entries →
      post (ref tree') state')
    (fixed : ∀ state' whole total, Holds state' whole nilParent spare →
      Balanced whole .black total →
      whole.entries = (plug (⟨side, parent, colour, entry, sibling⟩ :: path) tree).entries →
      post (ref whole) state') :
    Runs (eraseFixupTurn side (ref tree)) state post := by
  have parentHolds := holds.up
  refine runs_bind (holds.runs_parentOf_ref aware (runs_bind (runs_childOf parentHolds.found ?_)))
  rw [cellOf_child_other]
  refine runs_bind (holds.runs_eraseFixupRedSibling aware fits fun state colour path allows place
    inner siblingEntry outer holds fits lower entries => ?_)
  have parentHolds := holds.up
  have siblingHolds := parentHolds.down_far
  refine runs_bind (runs_childOf siblingHolds.found ?_)
  rw [cellOf_child]
  refine runs_bind (siblingHolds.down.runs_isBlack (runs_bind (runs_childOf siblingHolds.found ?_)))
  rw [cellOf_child_other]
  refine runs_bind (siblingHolds.down_far.runs_isBlack ?_)
  by_cases nephews : inner.colour = .black ∧ outer.colour = .black
  · refine runs_if_pos (by simp [nephews]) (runs_bind ?_)
    refine siblingHolds.runs_setColour fun state siblingHolds => ?_
    have parentHolds := siblingHolds.up_far
    refine parentHolds.down.runs_parentOf_ref aware ?_
    obtain ⟨height', allows', above, parentShort⟩ :=
      fits.paint_sibling balanced nephews.1 nephews.2
    have result :=
      short state path _ allows' height' parentHolds Side.node_ne_leaf above parentShort
      (lower.imp_right fun red => ⟨by rw [Tree.colour_node]; exact red.1, red.2⟩) ?_
    · rwa [ref_node] at result
    · rw [← entries]
      exact entries_plug_congr path
        (Tree.entries_node_congr rfl (Tree.entries_node_congr rfl rfl))
  · refine runs_if_neg (by simpa using nephews) (runs_bind ?_)
    refine holds.runs_eraseFixupInner aware fits nephews fun state place inner' siblingEntry' outer'
      holds fits outerRed siblingEntries => ?_
    have parentHolds := holds.up
    refine runs_bind
      (holds.runs_parentOf_ref aware (runs_bind (runs_colourOf parentHolds.found ?_)))
    rw [cellOf_colour]
    refine runs_bind (parentHolds.down_far.runs_setColour fun state siblingHolds => ?_)
    refine runs_bind (siblingHolds.up_far.runs_setColour fun state parentHolds => ?_)
    refine runs_bind (runs_childOf parentHolds.down_far.found ?_)
    rw [cellOf_child_other]
    refine runs_bind (parentHolds.down_far.down_far.runs_setBlack fun state outerHolds => ?_)
    refine runs_bind (outerHolds.up_far.up_far.runs_rot fun state rotated => runs_getRoot ?_)
    obtain ⟨total, whole⟩ := fits.rotate_outer balanced outerRed
    rw [Has.root rotated]
    refine fixed state _ total rotated whole ?_
    rw [← entries]
    refine entries_plug_congr path ((Tree.entries_rotate colour .black).trans ?_)
    refine Tree.entries_node_congr rfl (Eq.trans ?_ siblingEntries)
    exact Tree.entries_node_congr rfl (Tree.entries_paint)

end

end Turn

theorem Holds.ref_ne_root {frame : Frame Address (K × V)}
    (holds : Holds state (plug (frame :: path) tree) nilParent spare) : ref tree ≠ state.root := by
  obtain ⟨cell, member⟩ := @top_mem_frameCells _ _ (ref tree) frame path
  have root : state.root = top frame.place path := (holds_plug.mp holds).root
  rw [root]
  cases tree with
  | leaf =>
    have has := holds_plug.mp holds
    have split : (cells (above (frame :: path)) (.leaf : Shape K V) +
        frameCells nil (frame :: path) + others nilParent spare : Cells K V) =
        {nilCell nilParent} + (frameCells nil (frame :: path) + spare) := by
      rw [cells, others, zero_add]
      ac_rfl
    rw [ref, split] at has
    exact has.owns.ne (mem_add.mpr (.inl member))
  | node place colour left entry right =>
    exact (holds_plain.mp holds).owns.ne
      (mem_add.mpr (.inl (mem_add.mpr (.inr member))))

variable (holds : Holds state (plug path tree) nilParent spare)
include holds

theorem Holds.runs_eraseFixup_done
    (balanced : Balanced (plug path (tree.paint .black)) .black total)
    (after : ∀ state', Repaired (plug path tree).entries spare state' → post () state') :
    Runs (if ref tree ≠ 0 then setColour (ref tree) .black else pure ()) state post := by
  refine runs_if_pos holds.ref_pos (holds.runs_setBlack fun state' painted => after state' ?_)
  exact ⟨_, _, painted, entries_plug_congr path (Tree.entries_paint), _, balanced⟩

/-- The repair of a subtree that is one black node short of its place. -/
theorem Holds.runs_eraseFixup
    (aware : tree = .leaf → nilParent = above path) (fits : Fits path allows (height + 1))
    (short : Short tree height)
    (enough : path.length + 1 < fuel ∨ tree.colour = .red ∧ path.length < fuel)
    (after : ∀ state', Repaired (plug path tree).entries spare state' → post () state') :
    Runs (rbtreeEraseFixup fuel (ref tree)) state post := by
  induction fuel generalizing state path tree allows height with
  | zero => exact absurd enough (by omega)
  | succ fuel ih =>
    refine runs_bind (holds.runs_isBlack (runs_bind (runs_getRoot ?_)))
    cases path with
    | nil =>
      refine runs_if_neg (fun goesOn => goesOn.2 (Has.root holds).symm) ?_
      obtain ⟨total, painted⟩ := short.paint
      exact holds.runs_eraseFixup_done painted after
    | cons frame path =>
      cases colour : tree.colour with
      | red =>
        obtain ⟨total, whole⟩ := fits.plug (short.paint_red colour) nofun
        exact runs_if_neg (fun goesOn => absurd goesOn.1 (by decide))
          (holds.runs_eraseFixup_done whole after)
      | black =>
        obtain ⟨side, parent, shade, entry, sibling⟩ := frame
        refine runs_if_pos ⟨rfl, holds.ref_ne_root⟩ ?_
        refine runs_bind (holds.runs_parentOf_ref aware ?_)
        have parentHolds := holds.up
        have turn : Runs (eraseFixupTurn side (ref tree)) state fun next state' =>
            Runs (rbtreeEraseFixup fuel next) state' post := by
          have enough : path.length + 1 < fuel := by
            rcases enough with enough | ⟨red, -⟩
            · exact Nat.lt_of_succ_lt_succ enough
            rw [colour] at red
            cases red
          refine holds.runs_eraseFixupTurn aware fits (short.balanced colour) ?_ ?_
          · intro state' path' tree' allows' height' holds' root fits' short' lower entries
            refine ih holds' (fun leaf => absurd leaf root) fits' short' ?_
              fun state'' repaired => after state'' (entries ▸ repaired)
            rcases lower with shorter | ⟨red, shorter⟩
            · exact .inl (by omega)
            · exact .inr ⟨red, by omega⟩
          · intro state' whole total holds' balanced entries
            refine @ih state' [] whole false total holds' ?_ .top
              (.black balanced) (.inl (by rw [List.length_nil]; omega))
              fun state'' repaired => after state'' (entries ▸ repaired)
            rintro rfl
            have room := length_le_entries (⟨side, parent, shade, entry, sibling⟩ :: path) tree
            rw [← entries, List.length_cons] at room
            exact absurd room (by simp [Tree.entries])
        refine runs_bind (runs_childOf parentHolds.found ?_)
        cases side with
        | left => exact runs_if_pos rfl (runs_bind turn)
        | right =>
          obtain ⟨place, siblingColour, near, siblingEntry, far, rfl⟩ := fits.exists_sibling
          have siblingHolds : Holds state (plug path (Side.left.node parent shade
            (Side.right.node place siblingColour near siblingEntry far) entry tree))
              nilParent spare := holds
          exact runs_if_neg siblingHolds.near_ne_far.symm (runs_bind turn)

end Fixup

section Splice

variable {state : RbTree K V} {root place z parent parent' moved : Address} {rest : Cells K V}
  {path : Path K V} {tree right left : Shape K V} {nilParent : Address} {spare : Cells K V}
  {post : Unit → RbTree K V → Prop} {zColour missing yColour : Colour} {zEntry yEntry : K × V}
  {total fuel : Nat} {entries : List (K × V)} {cell : RbNode K V}

/-- What the `nil` node says about its parent once it was written for this subtree. -/
def nilParentAfter (tree : Shape K V) (parent nilParent : Address) : Address :=
  match tree with
  | .leaf => parent
  | .node _ _ _ _ _ => nilParent

theorem nilParentAfter_eq (root : tree ≠ .leaf) :
    nilParentAfter tree parent nilParent = nilParent := by
  cases tree with
  | leaf => exact absurd rfl root
  | node _ _ _ _ _ => rfl

/-- The parent of a subtree is written, or that of `nil` for an empty one. -/
theorem Has.runs_setParentRef
    (has : Has state root (cells parent tree + (rest + {nilCell nilParent})))
    (after : ∀ state', Has state' root (cells parent' tree +
      (rest + {nilCell (nilParentAfter tree parent' nilParent)})) → post () state') :
    Runs (setParent (ref tree) parent') state post := by
  cases tree with
  | leaf =>
    have has : Has state _ ({nilCell nilParent} + rest) := has.regroup (by
        rw [cells, zero_add, add_comm])
    refine has.runs_update fun state' written => after state' ?_
    rw [cells, zero_add, add_comm]
    exact written
  | node place colour left entry right =>
    rw [cells, add_assoc, add_assoc] at has
    refine has.runs_setParent fun state' written => after state' ?_
    rw [cells, add_assoc, add_assoc]
    exact written

/-- A node with one subtree is replaced by it, and stays behind as a spare cell. -/
theorem Holds.runs_transplant {side : Side} {colour : Colour} {entry : K × V}
    (holds : Holds state (plug path (side.node place colour tree entry .leaf)) nilParent spare)
    (after : ∀ state', Holds state' (plug path tree) (nilParentAfter tree (above path) nilParent)
      ({(place, cellOf side entry colour (ref tree) nil (above path))} + spare) → post () state') :
    Runs (rbtreeTransplant place (ref tree)) state post := by
  have has := holds_node.mp holds
  have has : Has state _ ({(place, cellOf side entry colour (ref tree) nil (above path))} +
    frameCells place path + (cells place tree + others nilParent spare)) := has.regroup (by ac_rfl)
  refine runs_bind (has.runs_relink cellOf_parent
    (mem_add.mpr (.inr nilCell_mem_others)) fun state has => ?_)
  have found : state.memory place =
      some (cellOf side entry colour (ref tree) nil (above path)) := has.owns.read (by simp)
  refine runs_bind (runs_parentOf found ?_)
  rw [cellOf_parent]
  have has : Has state _ (cells place tree + ({(place, cellOf side entry colour (ref tree) nil
    (above path))} + frameCells (ref tree) path + spare + {nilCell nilParent})) := has.regroup (by
      rw [others]
      ac_rfl)
  refine has.runs_setParentRef fun state has => after state (holds_plug.mpr ?_)
  convert has using 1
  rw [others]
  ac_rfl

/-- The leftmost node of a subtree comes first in it and has no left child. -/
theorem Holds.runs_minimumLoop {post : Address → RbTree K V → Prop}
    (holds : Holds state (plug path tree) nilParent spare) (root : tree ≠ .leaf)
    (enough : tree.entries.length < fuel) (after : ∀ inside y colour entry right,
      tree = plug inside (.node y colour .leaf entry right) →
        tree.entries = entry :: (plug inside right).entries → post y state) :
    Runs (minimumLoop fuel (ref tree)) state post := by
  induction fuel generalizing path tree with
  | zero => exact absurd enough (Nat.not_lt_zero _)
  | succ fuel ih =>
    cases tree with
    | leaf => exact absurd rfl root
    | node place colour left entry right =>
      refine runs_bind (runs_childOf holds.found_plain ?_)
      cases left with
      | leaf => exact runs_if_pos rfl (runs_pure (after [] place colour entry right rfl rfl))
      | node next shade inner nextEntry outer =>
        have leftHolds : Holds state (plug (⟨.left, place, colour, entry, right⟩ :: path)
          (.node next shade inner nextEntry outer)) nilParent spare := holds
        refine runs_if_neg leftHolds.ref_ne_nil (ih leftHolds
          nofun (shorter_node enough).1 ?_)
        intro inside y yColour yEntry yRight found entries
        refine after (inside ++ [⟨.left, place, colour, entry, right⟩]) y yColour yEntry yRight
          ?_ ?_
        · rw [plug_append, ← found]
          rfl
        · rw [plug_append, Tree.entries, entries]
          rfl

/-- The successor `y` of a node, already taken out of its place, takes the node's place. -/
theorem Has.runs_takePlace {y hole : Address}
    (has : Has state (top z path) ({(z, cell)} + frameCells z path +
      ({(y, cellOf .left yEntry yColour hole (ref right) parent)} + cells z left + cells y right +
        {nilCell nilParent}))) (leftRoot : left ≠ .leaf) (cellParent : cell.parent = above path)
    (cellLeft : cell.child .left = ref left)
    (after : ∀ state', Holds state' (plug path (.node y cell.colour left yEntry right)) nilParent
      {(z, cell)} → post () state') :
    Runs (takePlace z y) state post := by
  have nilRest : ∀ cells : Cells K V, nilCell nilParent ∈ cells + {nilCell nilParent} :=
    fun _ => mem_add.mpr (.inr (mem_singleton_self _))
  -- the node's parent points to y, and y to it
  refine runs_bind (runs_bind (has.runs_relink cellParent (nilRest _) fun state has => ?_))
  have found : state.memory z = some cell := has.owns.read (by simp)
  refine runs_bind (runs_parentOf found ?_)
  rw [cellParent]
  have has :
      Has state _ ({(y, cellOf .left yEntry yColour hole (ref right) parent)} + ({(z, cell)} +
    frameCells y path + cells z left + cells y right + {nilCell nilParent})) :=
    has.regroup (by ac_rfl)
  refine has.runs_setParent fun state has => ?_
  -- y->left = node->left
  have found : state.memory z = some cell := has.owns.read (by simp)
  refine runs_bind (runs_childOf found ?_)
  rw [cellLeft]
  refine runs_bind (has.runs_setNear fun state has => ?_)
  refine runs_bind (runs_childOf has.read ?_)
  -- y->left->parent = y
  have has : Has state _ (cells z left + ({(y, cellOf .left yEntry yColour (ref left) (ref right)
    (above path))} + {(z, cell)} + frameCells y path + cells y right + {nilCell nilParent})) :=
    has.regroup (by ac_rfl)
  refine runs_bind (has.runs_setParentRef fun state has => ?_)
  rw [nilParentAfter_eq leftRoot] at has
  -- y->colour = node->colour
  have found : state.memory z = some cell := has.owns.read (by simp)
  refine runs_bind (runs_colourOf found ?_)
  have has : Has state _ ({(y, cellOf .left yEntry yColour (ref left) (ref right) (above path))} +
    (cells y left + cells y right + frameCells y path + others nilParent {(z, cell)})) :=
    has.regroup (by
      rw [others]
      ac_rfl)
  refine has.runs_update fun state has => after state (holds_plain.mpr ?_)
  rwa [cellOf_withColour] at has

section Successor

variable {z y : Address} {zColour yColour : Colour} {zEntry yEntry : K × V} {left right : Shape K V}
  {inside further : Path K V} {frame : Frame Address (K × V)}
  (holds : Holds state (plug (inside ++ ⟨.right, z, zColour, zEntry, left⟩ :: path)
    (.node y yColour .leaf yEntry right)) nilParent 0) (leftRoot : left ≠ .leaf)
  (after : ∀ state' nilParent' cell,
    Holds state' (plug (inside ++ ⟨.right, y, zColour, yEntry, left⟩ :: path) right) nilParent'
      {(z, cell)} →
    (right = .leaf → nilParent' = above (inside ++ ⟨.right, y, zColour, yEntry, left⟩ :: path)) →
      post () state')
include holds leftRoot after

/-- The successor that is the node's own child takes its place. -/
theorem Holds.runs_succeed_child (own : inside = []) :
    Runs (detachSuccessor z y (ref right)) state fun _ middle => Runs (takePlace z y)
      middle post := by
  subst own
  refine runs_bind (runs_parentOf holds.found_plain (runs_if_pos rfl ?_))
  have zHolds : Holds state (plug path (.node z zColour left zEntry
    (.node y yColour .leaf yEntry right))) nilParent 0 := holds
  have has : Has state _ (cells y right + ({(y, cellOf .left yEntry yColour nil (ref right) z)} +
    ({(z, cellOf .left zEntry zColour (ref left) y (above path))} + cells z left + frameCells z
    path) + {nilCell nilParent})) := (holds_plain.mp zHolds).regroup (by
      simp only [cells, others, add_zero, zero_add, ref]
      ac_rfl)
  refine has.runs_setParentRef fun state has => ?_
  have has : Has state _ ({(z, cellOf .left zEntry zColour (ref left) y (above path))} + frameCells
    z path + ({(y, cellOf .left yEntry yColour nil (ref right) z)} + cells z left + cells y right +
    {nilCell (nilParentAfter right y nilParent)})) := has.regroup (by ac_rfl)
  refine has.runs_takePlace leftRoot rfl rfl fun state' holds' => after state' _ _ holds' ?_
  rintro rfl
  rfl

/-- A successor further down leaves its place to its right subtree before it takes the
node's. -/
theorem Holds.runs_succeed_below (deeper : inside = frame :: further) :
    Runs (detachSuccessor z y (ref right)) state fun _ middle => Runs (takePlace z y)
      middle post := by
  subst deeper
  have apart : frame.place ≠ z := by
    have has := holds_node.mp (show Holds state (plug (further ++
      ⟨.right, z, zColour, zEntry, left⟩ :: path) (frame.side.node frame.place frame.colour
        (.node y yColour .leaf yEntry right) frame.entry frame.sibling)) nilParent 0 from holds)
    obtain ⟨cell, member⟩ := @mem_frameCells _ _ frame.place ⟨.right, z, zColour, zEntry, left⟩
      (further ++ ⟨.right, z, zColour, zEntry, left⟩ :: path) (by simp)
    exact has.owns.ne (mem_add.mpr (.inl (mem_add.mpr (.inr member))))
  refine runs_bind (runs_parentOf holds.found_plain (runs_if_neg apart ?_))
  refine runs_bind (runs_childOf holds.found_plain ?_)
  refine runs_bind (@Holds.runs_transplant _ _ state y (frame :: further ++
    ⟨.right, z, zColour, zEntry, left⟩ :: path) right nilParent 0 _ .right yColour yEntry holds
      fun state holds => ?_)
  rw [plug_append, add_zero] at holds
  have zHolds :
      Holds state (plug path (.node z zColour left zEntry (plug (frame :: further) right)))
    (nilParentAfter right frame.place nilParent)
      {(y, cellOf .left yEntry yColour nil (ref right) frame.place)} := holds
  have belowRoot := plug_cons_ne_leaf frame further right
  have aware : right = .leaf → nilParentAfter right frame.place nilParent = frame.place := by
    rintro rfl
    rfl
  simp only [plug_append] at after
  generalize plug (frame :: further) right = below at zHolds belowRoot after
  generalize nilParentAfter right frame.place nilParent = nilParent at zHolds aware
  refine runs_bind (runs_childOf zHolds.found_plain ?_)
  obtain ⟨cell, isCell⟩ : ∃ cell, cell = cellOf .left zEntry zColour (ref left) (ref below)
    (above path) := ⟨_, rfl⟩
  -- y->right = node->right
  have has : Has state _ ({(y, cellOf .left yEntry yColour nil (ref right) frame.place)} + ({(z,
    cell)} + cells z left + cells z below + frameCells z path + {nilCell nilParent})) :=
    (holds_plain.mp zHolds).regroup (by
      rw [others, isCell]
      ac_rfl)
  refine runs_bind (has.runs_setFar fun state has => ?_)
  refine runs_bind (runs_childOf has.read ?_)
  -- y->right->parent = y
  have has : Has state _ (cells z below + ({(y, cellOf .left yEntry yColour nil (ref below)
    frame.place)} + {(z, cell)} + cells z left + frameCells z path + {nilCell nilParent})) :=
    has.regroup (by ac_rfl)
  refine has.runs_setParentRef fun state has => ?_
  rw [nilParentAfter_eq belowRoot] at has
  have has : Has state _ ({(z, cell)} + frameCells z path + ({(y, cellOf .left yEntry yColour nil
    (ref below) frame.place)} + cells z left + cells y below + {nilCell nilParent})) :=
    has.regroup (by ac_rfl)
  subst isCell
  exact has.runs_takePlace leftRoot rfl rfl fun state' holds' => after state' _ _ holds' aware

/-- The successor takes the place of the node, wherever it was. -/
theorem Holds.runs_succeed :
    Runs (detachSuccessor z y (ref right)) state fun _ middle =>
      Runs (takePlace z y) middle post := by
  cases inside with
  | nil => exact holds.runs_succeed_child leftRoot after rfl
  | cons frame further => exact holds.runs_succeed_below leftRoot after rfl

end Successor

/-- What is left when a node has been taken out: the tree without it, in which the subtree that
moved up may be one black node short, and the node itself as a spare cell. -/
structure Spliced (node : Address) (entries : List (K × V)) (moved : Address) (missing : Colour)
    (state : RbTree K V) : Prop where
  holds : ∃ path tree nilParent cell, moved = ref tree ∧
    Holds state (plug path tree) nilParent {(node, cell)} ∧
    (tree = .leaf → nilParent = above path) ∧ (plug path tree).entries = entries ∧
    (missing = .red → ∃ total, Balanced (plug path tree) .black total) ∧
    (missing = .black → ∃ allows height, Fits path allows (height + 1) ∧ Short tree height)

theorem Holds.runs_spliceOne {post : Address × Colour → RbTree K V → Prop} {total : Nat}
    {side : Side} {z : Address} {zColour : Colour} {zEntry : K × V} {near : Shape K V}
    (holds : Holds state (plug path (side.node z zColour near zEntry .leaf)) nilParent 0)
    (balanced : Balanced (plug path (side.node z zColour near zEntry .leaf)) .black total)
    (after : ∀ state', Spliced z (plug path near).entries (ref near) zColour state' →
      post (ref near, zColour) state') :
    Runs (do rbtreeTransplant z (ref near); pure (ref near, zColour)) state post := by
  refine runs_bind (holds.runs_transplant fun state' holds' => runs_pure (after state' ?_))
  obtain ⟨shade, allows, height, fits, node, -⟩ := balanced.unplug
  have splice := fits.splice node
  refine ⟨path, near, _, _, rfl, holds', ?_, rfl, splice.1, fun black => ⟨allows, splice.2 black⟩⟩
  rintro rfl
  rfl

section

variable {post : Address × Colour → RbTree K V → Prop}
  (holds : Holds state (plug path (.node z zColour left zEntry right)) nilParent 0)
  (balanced : Balanced (plug path (.node z zColour left zEntry right)) .black total)
  (after : ∀ state' moved missing, Spliced z ((before path ++ left.entries) ++
    (right.entries ++ after path)) moved missing state' → post (moved, missing) state')
include holds balanced after

theorem Holds.runs_spliceTwo (leftRoot : left ≠ .leaf) (rightRoot : ref right ≠ nil) :
    Runs (do
      let y ← rbtreeMinimum (ref right)
      let colour ← colourOf y
      let x ← childOf .right y
      detachSuccessor z y x
      takePlace z y
      pure (x, colour)) state post := by
  have rightHolds : Holds state (plug (⟨.right, z, zColour, zEntry, left⟩ :: path) right) nilParent
    0 := holds
  have room : right.entries.length < state.next := by
    have inTree := length_le_entries (⟨.right, z, zColour, zEntry, left⟩ :: path) right
    have inMemory := rightHolds.length_lt
    omega
  refine runs_bind (runs_if_neg rightRoot (runs_bind (runs_budget
    (rightHolds.runs_minimumLoop (fun leaf => rightRoot (by rw [leaf]; rfl)) room
      fun inside y colour entry yRight found entries => ?_))))
  subst found
  rw [← plug_append] at rightHolds
  refine runs_bind (runs_colourOf rightHolds.found_plain
    (runs_bind (runs_childOf rightHolds.found_plain ?_)))
  refine runs_bind ((rightHolds.runs_succeed leftRoot fun state' nilParent' cell holds' aware =>
    ?_).mono fun _ middle taken => runs_bind taken)
  refine runs_pure (after state' _ _ ?_)
  have unspliced : Balanced (plug (inside ++ ⟨.right, z, zColour, zEntry, left⟩ :: path)
      (Side.right.node y colour yRight entry .leaf)) .black total := by
    rw [plug_append]
    exact balanced
  obtain ⟨shade, allows, height, fits, node, -⟩ := unspliced.unplug
  have relabelled : Fits (inside ++ ⟨.right, y, zColour, entry, left⟩ :: path) allows height :=
    fits.relabel
  have splice := relabelled.splice node
  refine ⟨_, yRight, nilParent', cell, rfl, holds', aware, ?_, splice.1,
    fun black => ⟨allows, splice.2 black⟩⟩
  rw [plug_append, plug, entries_plug, entries]
  simp [Frame.fill, Side.node, Tree.entries]

theorem Holds.runs_eraseSplice : Runs (eraseSplice z) state post := by
  have cell := holds.found_plain
  refine runs_bind (runs_childOf cell ?_)
  cases left with
  | leaf =>
    refine runs_if_pos rfl (runs_bind (runs_colourOf cell (runs_bind (runs_childOf cell ?_))))
    refine @Holds.runs_spliceOne _ _ state path nilParent post total .right z zColour zEntry right
      holds balanced fun state' spliced => after state' _ _ ?_
    rw [entries_plug] at spliced
    simpa [Tree.entries] using spliced
  | node leftPlace leftColour leftLeft leftEntry leftRight =>
    have leftHolds : Holds state (plug (⟨.left, z, zColour, zEntry, right⟩ :: path)
      (.node leftPlace leftColour leftLeft leftEntry leftRight)) nilParent 0 := holds
    refine runs_if_neg leftHolds.ref_ne_nil (runs_bind (runs_childOf cell ?_))
    cases right with
    | leaf =>
      refine runs_if_pos rfl (runs_bind (runs_colourOf cell (runs_bind (runs_childOf cell ?_))))
      rw [cellOf_colour, cellOf_child]
      refine @Holds.runs_spliceOne _ _ state path nilParent post total .left z zColour zEntry _
        holds balanced fun state' spliced => after state' _ _ ?_
      rw [entries_plug] at spliced
      simpa [Tree.entries] using spliced
    | node rightPlace rightColour rightLeft rightEntry rightRight =>
      have rightHolds : Holds state (plug (⟨.right, z, zColour, zEntry, _⟩ :: path)
        (.node rightPlace rightColour rightLeft rightEntry rightRight)) nilParent 0 := holds
      refine runs_if_neg rightHolds.ref_ne_nil (runs_bind (runs_childOf cell ?_))
      exact holds.runs_spliceTwo balanced after (by simp) rightHolds.ref_ne_nil

end

/-- After the repair the tree is balanced, whatever was missing. -/
theorem Spliced.runs_eraseRepair (spliced : Spliced z entries moved missing state)
    (after : ∀ state' cell, Repaired entries {(z, cell)} state' → post () state') :
    Runs (eraseRepair moved missing) state post := by
  obtain ⟨path, tree, nilParent, cell, rfl, holds, aware, rfl, red, black⟩ := spliced
  cases missing with
  | red =>
    refine runs_if_neg (by decide) (runs_pure (after state cell ?_))
    exact ⟨_, _, holds, rfl, red rfl⟩
  | black =>
    obtain ⟨allows, height, fits, short⟩ := black rfl
    have pathRoom := length_le_entries path tree
    have room := holds.length_lt
    rw [card_singleton] at room
    refine runs_if_pos rfl (runs_bind (runs_budget ?_))
    exact holds.runs_eraseFixup aware fits short (.inl (by omega)) fun state' => after state' cell

/-- A cell outside the tree can be freed. -/
theorem Repaired.runs_freeNode (repaired : Repaired entries {(place, cell)} state)
    (after : ∀ state', Repaired entries 0 state' → post () state') :
    Runs (freeNode place) state post := by
  obtain ⟨tree, nilParent, holds, rfl, balanced⟩ := repaired
  have split : (cells nil tree + others nilParent {(place, cell)} : Cells K V) =
      {(place, cell)} + (cells nil tree + others nilParent 0) := by
    rw [others, others, zero_add]
    ac_rfl
  rw [Holds, split] at holds
  refine ⟨(), { state with memory := state.memory.set place none }, ?_, after _ ?_⟩
  · unfold freeNode
    rw [Has.read holds]
    rfl
  · refine ⟨tree, nilParent, ⟨holds.root, holds.owns.free, fun other member => ?_⟩, rfl, balanced⟩
    refine holds.bound other ?_
    rw [map_add]
    exact mem_add.mpr (.inr member)

theorem Holds.runs_erase
    (holds : Holds state (plug path (.node z zColour left zEntry right)) nilParent 0)
    (balanced : Balanced (plug path (.node z zColour left zEntry right)) .black total)
    (after : ∀ state', Repaired ((before path ++ left.entries) ++ (right.entries ++ after path)) 0
      state' → post () state') :
    Runs (rbtreeErase z) state post := by
  refine runs_bind (holds.runs_eraseSplice balanced fun state moved missing spliced => ?_)
  refine runs_bind (spliced.runs_eraseRepair fun state cell repaired => ?_)
  obtain ⟨tree, nilParent, holds, entries, whole⟩ := repaired
  have found : state.memory z = some cell := Has.owns holds |>.read (by simp [others])
  refine runs_bind (runs_load found (runs_bind (Has.runs_kvfreer holds fun state holds => ?_)))
  exact Repaired.runs_freeNode ⟨tree, nilParent, holds, entries, whole⟩ after

end Splice

section Entries

variable {cmp : K → K → Int} {key : K} {state : RbTree K V} {entries : List (K × V)}

variable (order : TotalOrder cmp) (represents : Represents cmp entries state)
include order represents

/-- A key that is there is removed with its value; an absent one is not found. -/
theorem Represents.runs_remove {post : Bool → RbTree K V → Prop}
    (missed : (∀ entry ∈ entries, cmp key entry.1 ≠ 0) → post false state)
    (removed : ∀ state' earlier entry later, entries = earlier ++ entry :: later →
      cmp key entry.1 = 0 → Represents cmp (earlier ++ later) state' → post true state') :
    Runs (rbtreeRemove cmp (some key)) state post := by
  obtain ⟨⟨tree, nilParent, holds, rfl, total, balanced⟩, sorted⟩ := represents
  refine runs_bind (holds.runs_find order sorted fun address finding => ?_)
  cases finding with
  | absent absent => exact runs_if_pos rfl (runs_pure (missed absent))
  | @present path _ colour left entry right whole same =>
    subst whole
    refine runs_if_neg holds.ref_ne_nil (runs_bind (holds.runs_erase balanced
      fun state' repaired => runs_pure ?_))
    refine removed state' _ entry _ (entries_plug_node _) same ⟨repaired, ?_⟩
    rw [entries_plug_node] at sorted
    exact sorted.sublist (List.Sublist.append_left (List.sublist_cons_self _ _) _)

theorem Represents.runs_search {post : Option V → RbTree K V → Prop}
    (missed : (∀ entry ∈ entries, cmp key entry.1 ≠ 0) → post none state)
    (found : ∀ entry ∈ entries, cmp key entry.1 = 0 → post (some entry.2) state) :
    Runs (rbtreeSearch cmp key) state post := by
  obtain ⟨⟨tree, nilParent, holds, rfl, total, balanced⟩, sorted⟩ := represents
  refine runs_bind (holds.runs_find order sorted fun address finding => ?_)
  cases finding with
  | absent absent => exact runs_if_pos rfl (runs_pure (missed absent))
  | @present path _ colour left entry right whole same =>
    subst whole
    refine runs_if_neg holds.ref_ne_nil (runs_bind (runs_load holds.found_plain (runs_pure ?_)))
    exact found entry (by simp [entries_plug_node]) same

end Entries

end Isulad.Map
