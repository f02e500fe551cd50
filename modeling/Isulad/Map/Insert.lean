import Isulad.Map.Search

/-!
# Insertion

A new node is hung red into the hole its key belongs into. `rbtree_insert_fixup` then
moves a red node under a red parent upwards: under a red uncle by recolouring, under a
black one by at most two rotations, after which the tree is balanced again.
-/

namespace Isulad.Map

open List Isulad.Std Isulad.Std.RedBlack

variable {K V : Type}

/-- The memory holds a red-black tree with these entries. -/
structure Repaired (entries : List (K × V)) (spare : Cells K V) (state : RbTree K V) : Prop where
  holds : ∃ tree nilParent, Holds state tree nilParent spare ∧ tree.entries = entries ∧
    ∃ total, Balanced tree .black total

section Fixup

variable {state : RbTree K V} {path : Path K V} {tree : Shape K V} {nilParent : Address}
  {spare : Cells K V} {allows : Bool} {height total : Nat} {post : Unit → RbTree K V → Prop}

/-- The last step of both repairs: the root is painted black. -/
theorem Holds.runs_paintRoot (holds : Holds state tree nilParent spare)
    (balanced : Balanced (tree.paint .black) .black total)
    (after : ∀ state', Repaired tree.entries spare state' → post () state') :
    Runs (do setColour (← getRoot) .black) state post := by
  refine runs_bind (runs_getRoot ?_)
  rw [Has.root holds]
  refine @Holds.runs_setBlack _ _ _ [] _ _ _ _ holds fun state' painted => after state' ?_
  exact ⟨_, _, painted, Tree.entries_paint, _, balanced⟩

/-- The repair ends below a black parent. -/
theorem Holds.runs_insertFixup_done {fuel total : Nat}
    (holds : Holds state (plug path tree) nilParent spare) (root : tree ≠ .leaf)
    (parent : ∀ frame ∈ path.head?, frame.colour = .black)
    (balanced : Balanced ((plug path tree).paint .black) .black total)
    (after : ∀ state', Repaired (plug path tree).entries spare state' → post () state') :
    Runs (rbtreeInsertFixup (fuel + 1) (ref tree)) state post := by
  cases tree with
  | leaf => exact absurd rfl root
  | node place colour left entry right =>
    refine runs_bind (runs_parentOf holds.found_plain ?_)
    cases path with
    | nil =>
      refine runs_bind (runs_colourOf holds.nil_found ?_)
      exact runs_if_neg Colour.noConfusion (holds.runs_paintRoot balanced after)
    | cons frame path =>
      refine runs_bind (runs_colourOf (@Holds.found _ _ _ path _ _ _ _ _ _ _ _ holds) ?_)
      rw [cellOf_colour, parent frame rfl]
      exact runs_if_neg (by decide) (holds.runs_paintRoot balanced after)

section Turn

variable {side parentSide : Side} {place parent grandparent : Address}
  {entry parentEntry grandEntry : K × V} {near far sibling uncle : Shape K V}

/-- What the step under a black uncle leaves: a red node on the outer side of its red parent. -/
theorem Holds.runs_insertFixupInner {post : Address → RbTree K V → Prop}
    (holds : Holds state (plug (⟨parentSide, parent, .red, parentEntry, sibling⟩ :: path)
      (side.node place .red near entry far)) nilParent spare)
    (balanced : Balanced (side.node place .red near entry far) .red height)
    (siblingBalanced : Balanced sibling .black height)
    (after : ∀ state' place' near' entry' far' parent' parentEntry' sibling',
      Holds state' (plug (⟨side, parent', .red, parentEntry', sibling'⟩ :: path)
        (side.node place' .red near' entry' far')) nilParent spare →
      Balanced (side.node place' .red near' entry' far') .red height →
      Balanced sibling' .black height →
      (side.node parent' .red (side.node place' .red near' entry' far') parentEntry'
        sibling').entries =
          (parentSide.node parent .red (side.node place .red near entry far) parentEntry
            sibling).entries → post place' state') :
    Runs (insertFixupInner side place) state post := by
  have parentHolds := holds.up
  refine runs_bind (runs_parentOf holds.found ?_)
  rw [cellOf_parent]
  refine runs_bind (runs_childOf parentHolds.found ?_)
  rcases side.eq_or_other parentSide with rfl | rfl
  · -- the node is on the outer side already
    rw [cellOf_child_other]
    refine runs_if_neg parentHolds.near_ne_far (runs_pure ?_)
    exact after state _ _ _ _ _ _ _ holds balanced siblingBalanced rfl
  · rw [cellOf_child, ref_node]
    rw [Side.node_other] at parentHolds
    refine runs_if_pos rfl (runs_bind (parentHolds.runs_rot fun state' rotated => runs_pure ?_))
    obtain ⟨-, nearBalanced, farBalanced⟩ := balanced_red.mp balanced
    refine after state' _ _ _ _ _ _ _ rotated
      (balanced_red.mpr ⟨rfl, siblingBalanced, nearBalanced⟩) farBalanced ?_
    rw [Side.node_other]
    exact Tree.entries_rotate _ _

/-- One turn of the repair. Under a red uncle the grandparent turns red and is looked at next;
under a black one the parent comes up black over the grandparent. -/
theorem Holds.runs_insertFixupTurn {post : Option Address → RbTree K V → Prop}
    (holds : Holds state (plug (⟨parentSide, parent, .red, parentEntry, sibling⟩ ::
      ⟨side, grandparent, .black, grandEntry, uncle⟩ :: path)
        (side.node place .red near entry far)) nilParent spare)
    (balanced : Balanced (side.node place .red near entry far) .red height)
    (siblingBalanced : Balanced sibling .black height)
    (recoloured : ∀ state', uncle.colour = .red → Holds state' (plug path
      (side.node grandparent .red
        (parentSide.node parent .black (side.node place .red near entry far)
        parentEntry sibling) grandEntry (uncle.paint .black))) nilParent spare →
      post (some grandparent) state')
    (rotated : ∀ state' place' near' entry' far' parent' parentEntry' sibling',
      uncle.colour = .black →
      Holds state' (plug (⟨side, parent', .black, parentEntry',
        side.node grandparent .red sibling' grandEntry uncle⟩ :: path)
          (side.node place' .red near' entry' far')) nilParent spare →
      Balanced (side.node place' .red near' entry' far') .red height →
      Balanced sibling' .black height →
      (side.node parent' .red (side.node place' .red near' entry' far') parentEntry'
        sibling').entries =
          (parentSide.node parent .red (side.node place .red near entry far) parentEntry
            sibling).entries → post (some place') state') :
    Runs (insertFixupTurn side place) state post := by
  have parentHolds := holds.up
  have grandHolds := parentHolds.up
  refine runs_bind (runs_parentOf holds.found ?_)
  rw [cellOf_parent]
  refine runs_bind (runs_parentOf parentHolds.found ?_)
  rw [cellOf_parent]
  refine runs_bind (runs_childOf grandHolds.found ?_)
  rw [cellOf_child_other]
  refine runs_if_neg grandHolds.down_far.ref_pos
    (runs_bind (grandHolds.down_far.runs_colourOf_ref ?_))
  cases uncleColour : uncle.colour with
  | red =>
    refine runs_if_pos rfl (runs_bind (parentHolds.runs_setColour fun state parentHolds => ?_))
    have grandHolds := parentHolds.up
    refine runs_bind (grandHolds.down_far.runs_setBlack fun state uncleHolds => ?_)
    refine runs_bind (uncleHolds.up_far.runs_setColour fun state grandHolds => runs_pure ?_)
    exact recoloured state uncleColour grandHolds
  | black =>
    refine runs_if_neg (by decide) (runs_bind (holds.runs_insertFixupInner balanced
      siblingBalanced fun state place' near' entry' far' parent' parentEntry' sibling' holds
        balanced siblingBalanced entries => ?_))
    have parentHolds := holds.up
    refine runs_bind (runs_parentOf holds.found ?_)
    rw [cellOf_parent]
    refine runs_bind (parentHolds.runs_setColour fun state parentHolds => ?_)
    refine runs_bind (runs_parentOf parentHolds.found ?_)
    rw [cellOf_parent]
    have grandHolds := parentHolds.up
    refine runs_bind (grandHolds.runs_setColour fun state grandHolds => ?_)
    -- seen from the other side, the grandparent is rotated away from the uncle
    rw [← Side.node_other, ← Side.node_other side parent'] at grandHolds
    refine runs_bind (grandHolds.runs_rot fun state turned => runs_pure ?_)
    rw [Side.node_other, Side.node_other] at turned
    exact rotated state _ _ _ _ _ _ _ uncleColour turned balanced siblingBalanced entries

end Turn

/-- The repair of a red node that may stand under a red parent. -/
theorem Holds.runs_insertFixup {fuel : Nat}
    (holds : Holds state (plug path tree) nilParent spare) (fits : Fits path allows height)
    (balanced : Balanced tree .red height) (enough : path.length < fuel)
    (after : ∀ state', Repaired (plug path tree).entries spare state' → post () state') :
    Runs (rbtreeInsertFixup fuel (ref tree)) state post := by
  induction fuel generalizing state path tree allows height with
  | zero => exact absurd enough (Nat.not_lt_zero _)
  | succ fuel ih =>
    have root : tree ≠ .leaf := by
      rintro rfl
      cases balanced
    cases fits with
    | top =>
      exact holds.runs_insertFixup_done root (fun frame member => by cases member)
        balanced.paint_red after
    | black above beside =>
      obtain ⟨total, whole⟩ := (Fits.black above beside).plug balanced fun _ => rfl
      exact holds.runs_insertFixup_done root (fun frame member => by cases member; rfl)
        whole.paint after
    | @red parentSide parent parentEntry sibling _ _ above beside =>
      cases above with
      | @black side grandparent grandEntry uncle shade rest _ _ grandFits uncleBalanced =>
        obtain ⟨place, near, entry, far, rfl⟩ := Tree.exists_node side balanced.colour_eq
        have parentHolds := holds.up
        have grandHolds := parentHolds.up
        rw [ref_node]
        refine runs_bind (runs_parentOf holds.found ?_)
        rw [cellOf_parent]
        refine runs_bind (runs_colourOf parentHolds.found ?_)
        rw [cellOf_colour]
        refine runs_if_pos rfl (runs_bind (runs_parentOf parentHolds.found ?_))
        rw [cellOf_parent, above_cons, above_cons]
        refine runs_bind (runs_childOf grandHolds.found ?_)
        have aside : sideOf parent ((cellOf side grandEntry .black parent (ref uncle)
            (above rest)).child .left) = side := by
          cases side with
          | left => exact if_pos rfl
          | right => exact if_neg grandHolds.near_ne_far
        rw [ref_node, aside]
        refine runs_bind (holds.runs_insertFixupTurn balanced beside ?_ ?_)
        · intro state' uncleRed recoloured
          obtain rfl := uncleBalanced.colour_eq.symm.trans uncleRed
          have next := @ih state' rest _ _ _ recoloured grandFits
            (balanced_red.mpr ⟨rfl, balanced_black.mpr ⟨rfl, ⟨_, balanced⟩, ⟨_, beside⟩⟩,
              uncleBalanced.paint_red⟩)
            (by simp at enough; omega)
            (fun state' repaired => after state' ?_)
          · rwa [ref_node] at next
          · convert repaired using 1
            exact entries_plug_congr rest (Tree.entries_node_congr
              (Tree.entries_node_congr rfl rfl) (Tree.entries_paint).symm)
        · intro state' place' near' entry' far' parent' parentEntry' sibling' uncleBlack
            rotated balanced' beside' entries
          obtain rfl := uncleBalanced.colour_eq.symm.trans uncleBlack
          obtain ⟨fuel, rfl⟩ : ∃ less, fuel = less + 1 :=
            ⟨fuel - 1, by simp at enough; omega⟩
          obtain ⟨total, whole⟩ := (Fits.black grandFits
            (balanced_red.mpr ⟨rfl, beside', uncleBalanced⟩)).plug balanced' fun _ => rfl
          have done := @Holds.runs_insertFixup_done _ _ state' _ _ _ _ post fuel total rotated
            Side.node_ne_leaf (fun frame member => by cases member; rfl)
            whole.paint (fun state' repaired => after state' ?_)
          · rwa [ref_node] at done
          · convert repaired using 1
            refine entries_plug_congr rest ?_
            calc (side.node grandparent .black (parentSide.node parent .red
                  (side.node place .red near entry far) parentEntry sibling) grandEntry
                    uncle).entries
                = (side.node grandparent .black (side.node parent' .red
                  (side.node place' .red near' entry' far') parentEntry' sibling') grandEntry
                    uncle).entries := Tree.entries_node_congr entries.symm rfl
              _ = _ := Tree.entries_rotate _ _

end Fixup

section NewNode

variable {cmp : K → K → Int} {key : K} {value : V} {state : RbTree K V} {path : Path K V}
  {tree : Shape K V} {nilParent new : Address} {spare rest : Cells K V}
  {post : Unit → RbTree K V → Prop}

/-- A new node is spare at first. -/
theorem Holds.runs_createNode {post : Address → RbTree K V → Prop}
    (holds : Holds state tree nilParent spare)
    (after : ∀ new state', Holds state' tree nilParent
      ({(new, cellOf .left (key, value) .black nil nil nil)} + spare) → post new state') :
    Runs (rbtreeCreateNode key value nil nil nil) state post := by
  have has : Has state _ _ := holds
  have unused : state.memory state.next = none := by
    cases found : state.memory state.next with
    | none => rfl
    | some cell =>
      have member := (has.owns.holds _ _).mp found
      exact absurd (has.bound _ (Multiset.mem_map_of_mem Prod.fst member)).2 (Nat.lt_irrefl _)
  refine ⟨_, _, rfl, after _ _ ?_⟩
  have grown : Owns (state.memory.set state.next
      (some (cellOf .left (key, value) .black nil nil nil))) _ := has.owns.alloc unused
  have regroup : ({(state.next, cellOf .left (key, value) .black nil nil nil)} +
      (cells nil tree + others nilParent spare) : Cells K V) = cells nil tree + others nilParent
        ({(state.next, cellOf .left (key, value) .black nil nil nil)} + spare) := by
    simp only [others]
    ac_rfl
  refine ⟨has.root, regroup ▸ grown, ?_⟩
  rw [← regroup]
  intro place member
  rw [Multiset.map_add, Multiset.map_singleton, Multiset.mem_add, Multiset.mem_singleton] at member
  rcases member with rfl | member
  · have room := holds.length_lt
    exact ⟨Nat.lt_of_le_of_lt (Nat.zero_le _) room, Nat.lt_succ_self _⟩
  · have bound := has.bound place member
    exact ⟨bound.1, Nat.lt_succ_of_lt bound.2⟩

/-- The new node, once it knows its parent, is linked into the hole its key belongs into. -/
theorem Has.runs_linkNode {cell : RbNode K V} (order : TotalOrder cmp)
    (between : Between cmp key path) (cellKey : cell.key = some key)
    (has : Has state (top nil path) ({(new, cell)} + frameCells nil path + rest))
    (nilRest : nilCell nilParent ∈ rest) (after : ∀ state', Has state' (top new path)
      ({(new, cell)} + frameCells new path + rest) → post () state') :
    Runs (linkNode cmp new (above path)) state post := by
  cases path with
  | nil => exact runs_if_pos rfl (has.runs_setRoot after)
  | cons frame path =>
    obtain ⟨side, parent, colour, entry, sibling⟩ := frame
    have newFound : state.memory new = some cell := has.owns.read (by simp)
    rw [has_frame] at has
    simp only [has_frame] at after
    have nonNil : parent ≠ nil := has.owns.ne (Multiset.mem_add.mpr (.inr nilRest))
    have parentFound := has.read
    refine runs_if_neg nonNil
      (runs_bind (runs_load newFound (runs_bind (runs_load parentFound ?_))))
    rw [cellKey, cellOf_key]
    refine runs_bind (runs_comparator ?_)
    cases side with
    | left =>
      have less : cmp key entry.1 < 0 := between.after entry mem_cons_self
      exact runs_if_pos less (has.runs_setNear after)
    | right =>
      have more : cmp entry.1 key < 0 := between.before entry (by
        simp [RedBlack.before, Frame.before])
      have notLess : ¬ cmp key entry.1 < 0 := by
        have := (order.swap _ _).mp more
        omega
      exact runs_if_neg notLess (has.runs_setNear after)

/-- A new node with an absent key is inserted where it belongs. -/
theorem Holds.runs_insertNode {total : Nat} (order : TotalOrder cmp)
    (holds : Holds state tree nilParent {(new, cellOf .left (key, value) .black nil nil nil)})
    (sorted : Sorted cmp tree.entries) (balanced : Balanced tree .black total)
    (absent : ∀ entry ∈ tree.entries, cmp key entry.1 ≠ 0)
    (after : ∀ state' path, tree.entries = before path ++ after path → Between cmp key path →
      Repaired (before path ++ (key, value) :: RedBlack.after path) 0 state' → post () state') :
    Runs (insertNode cmp new) state post := by
  have room := holds.length_lt
  have newFound : state.memory new = some (cellOf .left (key, value) .black nil nil nil) :=
    Has.owns holds |>.read (by simp [others])
  refine runs_bind (runs_budget (runs_bind (runs_getRoot ?_)))
  rw [Has.root holds]
  refine runs_bind (@Holds.runs_insertDescent _ _ _ _ _ [] _ _ _ holds _ _ order sorted
    (by omega) .top _ _ newFound rfl absent fun path whole between => ?_)
  subst whole
  have has := holds_plug.mp holds
  have has : Has state _ ({(new, cellOf .left (key, value) .black nil nil nil)} + (frameCells nil
    path + {nilCell nilParent})) := has.regroup (by
      rw [cells, others, zero_add]
      ac_rfl)
  refine runs_bind (has.runs_setParent fun state has => ?_)
  rw [← add_assoc] at has
  refine runs_bind (has.runs_linkNode order between cellOf_key (Multiset.mem_singleton_self _)
    fun state has => ?_)
  rw [add_assoc] at has
  refine runs_bind (has.runs_setNear fun state has => ?_)
  refine runs_bind (has.runs_setFar fun state has => ?_)
  refine runs_bind (has.runs_update fun state has => ?_)
  rw [cellOf_withColour] at has
  have linked : Holds state (plug path (.node new .red .leaf (key, value) .leaf)) nilParent 0 := by
    refine holds_plain.mpr ?_
    simpa [cells, others, zero_add, ref] using has
  obtain ⟨colour, allows, height, fits, hole, -⟩ := balanced.unplug
  cases hole
  have pathRoom := length_le_entries path (.node new .red .leaf (key, value) .leaf)
  have nextRoom := linked.length_lt
  refine runs_bind (runs_budget (@Holds.runs_insertFixup _ _ _ path _ _ _ _ _ _ _ linked fits
    (.red .leaf .leaf) (by omega) fun state repaired => after state path ?_ between ?_))
  · rw [entries_plug, Tree.entries, append_nil]
  · rw [entries_plug] at repaired
    simpa [Tree.entries] using repaired

end NewNode

/-- The memory holds a red-black search tree with these entries and nothing else. -/
structure Represents (cmp : K → K → Int) (entries : List (K × V)) (state : RbTree K V) :
    Prop where
  repaired : Repaired entries 0 state
  sorted : Sorted cmp entries

section Entries

variable {cmp : K → K → Int} {key : K} {value : V} {state : RbTree K V} {entries : List (K × V)}
  {post : Bool → RbTree K V → Prop}

theorem Sorted.replace {earlier later : List (K × V)} {entry : K × V}
    (sorted : Sorted cmp (earlier ++ entry :: later)) :
    Sorted cmp (earlier ++ (entry.1, value) :: later) := by
  obtain ⟨early, late, across⟩ := pairwise_append.mp sorted
  refine pairwise_append.mpr ⟨early, pairwise_cons.mpr (pairwise_cons.mp late), ?_⟩
  exact fun other member => forall_mem_cons.mpr (forall_mem_cons.mp (across other member))

section

variable (order : TotalOrder cmp) (represents : Represents cmp entries state)
  (inserted : ∀ state' earlier later, entries = earlier ++ later →
    (∀ entry ∈ entries, cmp key entry.1 ≠ 0) →
      Represents cmp (earlier ++ (key, value) :: later) state' → post true state')
include order represents inserted

/-- A key that is there already is not inserted; an absent one is, in its place. -/
theorem Represents.runs_insert
    (refused : (∃ entry ∈ entries, cmp key entry.1 = 0) → post false state) :
    Runs (rbtreeInsert cmp (some key) (some value)) state post := by
  obtain ⟨⟨tree, nilParent, holds, rfl, total, balanced⟩, sorted⟩ := represents
  refine runs_bind (holds.runs_find order sorted fun address finding => ?_)
  cases finding with
  | present whole same =>
    subst whole
    exact runs_if_pos holds.ref_ne_nil (runs_pure (refused ⟨_, by simp [entries_plug_node], same⟩))
  | absent absent =>
    refine runs_if_neg (not_not.mpr rfl) ?_
    refine runs_bind (holds.runs_createNode fun new state created => ?_)
    refine runs_bind (created.runs_insertNode order sorted balanced absent
      fun state path whole between repaired => runs_pure (inserted state _ _ whole absent ?_))
    refine ⟨repaired, ?_⟩
    rw [whole] at sorted
    obtain ⟨early, late, across⟩ := pairwise_append.mp sorted
    refine pairwise_append.mpr ⟨early, pairwise_cons.mpr ⟨between.after, late⟩, ?_⟩
    exact fun entry member =>
      forall_mem_cons.mpr ⟨between.before entry member, across entry member⟩

/-- Replacing gives a key that is there another value and inserts an absent one. -/
theorem Represents.runs_replace
    (replaced : ∀ state' earlier entry later, entries = earlier ++ entry :: later →
      cmp key entry.1 = 0 → Represents cmp (earlier ++ (entry.1, value) :: later) state' →
        post true state') :
    Runs (rbtreeReplace cmp (some key) (some value)) state post := by
  have represented := represents
  obtain ⟨⟨tree, nilParent, holds, rfl, total, balanced⟩, sorted⟩ := represents
  refine runs_bind (holds.runs_find order sorted fun address finding => ?_)
  cases finding with
  | absent absent =>
    refine runs_if_pos rfl (represented.runs_insert order inserted ?_)
    rintro ⟨entry, member, same⟩
    exact absurd same (absent entry member)
  | @present path _ colour left entry right whole same =>
    subst whole
    refine runs_if_neg holds.ref_ne_nil (runs_bind (runs_load holds.found_plain ?_))
    refine runs_bind (Has.runs_kvfreer (holds_plain.mp holds) fun state has => ?_)
    refine runs_bind (has.runs_update fun state has => runs_pure ?_)
    have changed : Holds state (plug path (.node address colour left (entry.1, value) right))
      nilParent 0 := holds_plain.mpr has
    obtain ⟨shade, allows, height, fits, node, allowed⟩ := balanced.unplug
    refine replaced state _ entry _ (entries_plug_node _) same
      ⟨⟨_, _, changed, entries_plug_node _, fits.plug node.withEntry allowed⟩, ?_⟩
    rw [entries_plug_node] at sorted
    exact sorted.replace

end

end Entries

end Isulad.Map
