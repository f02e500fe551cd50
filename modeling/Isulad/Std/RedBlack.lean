import Mathlib.Tactic.Common

/-!
# Red-black trees with a path to a node

The nodes of a `Tree` carry the place they are stored at, so that a program on linked
nodes can be described by the trees it leaves. A `Context` is the path from a node up
to the root, innermost frame first. Everything that has a mirror image is stated once
for a `Side`: the near subtree lies on that side, the far one opposite.

`Balanced` and `Fits` are the red-black conditions of a tree and of a context. The
lemmas on insertion and on deletion give the tree and the context after each of the
rotations and recolourings that restore them.
-/

namespace Isulad.Std.RedBlack

open List

inductive Colour where
  | red
  | black
  deriving DecidableEq, Repr

inductive Side where
  | left
  | right
  deriving DecidableEq, Repr

/-- The opposite side. -/
def Side.other : Side → Side
  | .left => .right
  | .right => .left

theorem Side.eq_or_other (side frameSide : Side) : frameSide = side ∨ frameSide = side.other := by
  cases side <;> cases frameSide <;> simp [other]

/-- A tree whose nodes have a place, a colour and an entry. -/
inductive Tree (Place Entry : Type) where
  | leaf
  | node (place : Place) (colour : Colour) (left : Tree Place Entry) (entry : Entry)
      (right : Tree Place Entry)

variable {Place Entry : Type}

/-- The node whose near subtree lies on this side. -/
def Side.node (side : Side) (place : Place) (colour : Colour) (near : Tree Place Entry)
    (entry : Entry) (far : Tree Place Entry) : Tree Place Entry :=
  match side with
  | .left => .node place colour near entry far
  | .right => .node place colour far entry near

/-- Seen from the other side, near and far are exchanged. -/
theorem Side.node_other (side : Side) (place : Place) (colour : Colour)
    (near : Tree Place Entry) (entry : Entry) (far : Tree Place Entry) :
    side.other.node place colour far entry near = side.node place colour near entry far := by
  cases side <;> rfl

theorem Side.node_ne_leaf {side : Side} {place : Place} {colour : Colour}
    {near far : Tree Place Entry} {entry : Entry} :
    side.node place colour near entry far ≠ .leaf := by
  cases side <;> exact nofun

theorem Side.exists_node (side : Side) (place : Place) (colour : Colour)
    (left : Tree Place Entry) (entry : Entry) (right : Tree Place Entry) :
    ∃ near far, Tree.node place colour left entry right =
      side.node place colour near entry far := by
  cases side with
  | left => exact ⟨left, right, rfl⟩
  | right => exact ⟨right, left, rfl⟩

namespace Tree

/-- The entries in order. -/
def entries : Tree Place Entry → List Entry
  | .leaf => []
  | .node _ _ left entry right => left.entries ++ entry :: right.entries

/-- The colour of the root; a leaf is black. -/
def colour : Tree Place Entry → Colour
  | .leaf => .black
  | .node _ colour _ _ _ => colour

/-- The tree with another colour at its root. -/
def paint (colour : Colour) : Tree Place Entry → Tree Place Entry
  | .leaf => .leaf
  | .node place _ left entry right => .node place colour left entry right

variable {tree near near' far far' inner outer : Tree Place Entry} {side : Side} {x y : Place}
  {colour colour' shade shade' : Colour} {entry entry' : Entry}

@[simp] theorem entries_paint : (tree.paint colour).entries = tree.entries := by
  cases tree <;> rfl

@[simp] theorem paint_node :
    (side.node x colour near entry far).paint colour' = side.node x colour' near entry far := by
  cases side <;> rfl

@[simp] theorem colour_node : (side.node x colour near entry far).colour = colour := by
  cases side <;> rfl

theorem entries_rotate (colour colour' : Colour) :
    (side.node y shade' (side.node x shade near entry inner) entry' outer).entries =
      (side.node x colour near entry (side.node y colour' inner entry' outer)).entries := by
  cases side <;> simp [Side.node, entries]

theorem entries_node_congr (sameNear : near.entries = near'.entries)
    (sameFar : far.entries = far'.entries) :
    (side.node x colour near entry far).entries =
      (side.node y colour' near' entry far').entries := by
  cases side <;> simp [Side.node, entries, sameNear, sameFar]

/-- A red tree has a root, whose subtrees are near and far from each side. -/
theorem exists_node (side : Side) (red : tree.colour = .red) :
    ∃ place near entry far, tree = side.node place .red near entry far := by
  cases tree with
  | leaf => cases red
  | node place shade left entry right =>
    obtain ⟨near, far, same⟩ := side.exists_node place shade left entry right
    cases red
    exact ⟨_, _, _, _, same⟩

end Tree

/-- A node on the path: the hole is its subtree on this side. -/
structure Frame (Place Entry : Type) where
  side : Side
  place : Place
  colour : Colour
  entry : Entry
  sibling : Tree Place Entry

/-- The node with its hole filled. -/
def Frame.fill (frame : Frame Place Entry) (tree : Tree Place Entry) : Tree Place Entry :=
  frame.side.node frame.place frame.colour tree frame.entry frame.sibling

/-- The path from a hole up to the root. -/
abbrev Context (Place Entry : Type) : Type := List (Frame Place Entry)

/-- The whole tree with the hole filled. -/
def plug : Context Place Entry → Tree Place Entry → Tree Place Entry
  | [], tree => tree
  | frame :: context, tree => plug context (frame.fill tree)

theorem plug_append (inside context : Context Place Entry) (tree : Tree Place Entry) :
    plug (inside ++ context) tree = plug context (plug inside tree) := by
  induction inside generalizing tree with
  | nil => rfl
  | cons frame inside ih => exact ih (frame.fill tree)

theorem plug_cons_ne_leaf (frame : Frame Place Entry) (context : Context Place Entry)
    (tree : Tree Place Entry) : plug (frame :: context) tree ≠ .leaf := by
  induction context generalizing frame tree with
  | nil => exact Side.node_ne_leaf
  | cons next context ih => exact ih next (frame.fill tree)

/-- The entries on the path that come before the hole. -/
def Frame.before (frame : Frame Place Entry) : List Entry :=
  match frame.side with
  | .left => []
  | .right => frame.sibling.entries ++ [frame.entry]

/-- The entries on the path that come after the hole. -/
def Frame.after (frame : Frame Place Entry) : List Entry :=
  match frame.side with
  | .left => frame.entry :: frame.sibling.entries
  | .right => []

/-- The entries of the context before its hole. -/
def before : Context Place Entry → List Entry
  | [] => []
  | frame :: context => before context ++ frame.before

/-- The entries of the context after its hole. -/
def after : Context Place Entry → List Entry
  | [] => []
  | frame :: context => frame.after ++ after context

theorem Frame.entries_fill (frame : Frame Place Entry) (tree : Tree Place Entry) :
    (frame.fill tree).entries = frame.before ++ tree.entries ++ frame.after := by
  obtain ⟨side, place, colour, entry, sibling⟩ := frame
  cases side <;> simp [fill, Side.node, Tree.entries, before, after]

section

variable (context : Context Place Entry)

theorem entries_plug (tree : Tree Place Entry) :
    (plug context tree).entries = before context ++ tree.entries ++ after context := by
  induction context generalizing tree with
  | nil => simp [plug, before, after]
  | cons frame context ih =>
    rw [plug, ih, Frame.entries_fill]
    simp [before, after]

theorem entries_plug_node {place : Place} {colour : Colour} {left right : Tree Place Entry}
    {entry : Entry} :
    (plug context (.node place colour left entry right)).entries =
      (before context ++ left.entries) ++ entry :: (right.entries ++ after context) := by
  rw [entries_plug]
  simp [Tree.entries]

theorem entries_plug_congr {tree tree' : Tree Place Entry} (same : tree.entries = tree'.entries) :
    (plug context tree).entries = (plug context tree').entries := by
  rw [entries_plug, entries_plug, same]

theorem length_le_entries (tree : Tree Place Entry) :
    context.length + tree.entries.length ≤ (plug context tree).entries.length := by
  induction context generalizing tree with
  | nil => exact Nat.le_of_eq (Nat.zero_add _)
  | cons frame context ih =>
    have filled := congrArg List.length (frame.entries_fill tree)
    have within : 1 ≤ frame.before.length + frame.after.length := by
      unfold Frame.before Frame.after
      split <;> simp
    have below := ih (frame.fill tree)
    simp at filled
    rw [plug, length_cons]
    omega

end

/-- A red-black tree with its colour and its number of black nodes on every path. -/
inductive Balanced : Tree Place Entry → Colour → Nat → Prop where
  | leaf : Balanced .leaf .black 0
  | red {place left entry right height} : Balanced left .black height →
      Balanced right .black height → Balanced (.node place .red left entry right) .red height
  | black {place left entry right leftColour rightColour height} :
      Balanced left leftColour height → Balanced right rightColour height →
        Balanced (.node place .black left entry right) .black (height + 1)

/-- No red node has a red child. -/
def Tree.NoRedRed : Tree Place Entry → Prop
  | .leaf => True
  | .node _ colour left _ right =>
    (colour = .red → left.colour = .black ∧ right.colour = .black) ∧ left.NoRedRed ∧
      right.NoRedRed

/-- The numbers of black nodes on the paths to the leaves. -/
def Tree.blackCounts : Tree Place Entry → List Nat
  | .leaf => [0]
  | .node _ colour left _ right =>
    (left.blackCounts ++ right.blackCounts).map (· + if colour = .black then 1 else 0)

/-- The number of nodes on the longest path to a leaf. -/
def Tree.depth : Tree Place Entry → Nat
  | .leaf => 0
  | .node _ _ left _ right => max left.depth right.depth + 1

theorem Tree.depth_le_length (tree : Tree Place Entry) : tree.depth ≤ tree.entries.length := by
  induction tree with
  | leaf => exact Nat.le_refl _
  | node _ _ _ _ _ leftHypothesis rightHypothesis =>
    rw [depth, entries, length_append, length_cons]
    omega

/-- Balanced with some colour. -/
def Even (tree : Tree Place Entry) (height : Nat) : Prop :=
  ∃ colour, Balanced tree colour height

section Balance

variable {tree near far : Tree Place Entry} {place : Place} {entry entry' : Entry} {side : Side}
  {colour shade : Colour} {height : Nat}

section

variable (balanced : Balanced tree colour height)
include balanced

theorem Balanced.colour_eq : tree.colour = colour := by
  cases balanced <;> rfl

theorem Balanced.noRedRed : tree.NoRedRed := by
  induction balanced with
  | leaf => trivial
  | red left right leftHypothesis rightHypothesis =>
    exact ⟨fun _ => ⟨left.colour_eq, right.colour_eq⟩, leftHypothesis, rightHypothesis⟩
  | black _ _ leftHypothesis rightHypothesis =>
    exact ⟨nofun, leftHypothesis, rightHypothesis⟩

theorem Balanced.blackCounts : ∀ count ∈ tree.blackCounts, count = height := by
  induction balanced with
  | leaf => exact fun count member => mem_singleton.mp member
  | red _ _ leftHypothesis rightHypothesis =>
    exact forall_mem_map.mpr (forall_mem_append.mpr ⟨leftHypothesis, rightHypothesis⟩)
  | black _ _ leftHypothesis rightHypothesis =>
    refine forall_mem_map.mpr fun below inside => congrArg (· + 1) ?_
    exact forall_mem_append.mpr ⟨leftHypothesis, rightHypothesis⟩ below inside

/-- On every path there is at most one red node above each black one, and one at the end. -/
theorem Balanced.depth_le : tree.depth ≤ 2 * height + if colour = .red then 1 else 0 := by
  induction balanced with
  | leaf => exact Nat.zero_le _
  | red _ _ leftHypothesis rightHypothesis =>
    simp only [Tree.depth, reduceCtorEq, if_false, if_true] at leftHypothesis rightHypothesis ⊢
    omega
  | black _ _ leftHypothesis rightHypothesis =>
    rw [Tree.depth]
    split at leftHypothesis <;> split at rightHypothesis <;> omega

/-- The tree is full down to its black height. -/
theorem Balanced.shiftLeft_le : 1 <<< height ≤ tree.entries.length + 1 := by
  induction balanced with
  | leaf => exact Nat.le_refl _
  | red _ _ leftHypothesis rightHypothesis =>
    rw [Tree.entries, length_append, length_cons]
    omega
  | black _ _ leftHypothesis rightHypothesis =>
    rw [Nat.shiftLeft_succ, Tree.entries, length_append, length_cons]
    omega

end

theorem Balanced.depth_le_log2 (balanced : Balanced tree .black height) :
    tree.depth ≤ 2 * (tree.entries.length + 1).log2 := by
  have full : height ≤ (tree.entries.length + 1).log2 :=
    (Nat.le_log2 (Nat.succ_ne_zero _)).mpr (Nat.one_shiftLeft height ▸ balanced.shiftLeft_le)
  exact Nat.le_trans balanced.depth_le (Nat.mul_le_mul_left 2 full)

theorem balanced_red : Balanced (side.node place .red near entry far) colour height ↔
    colour = .red ∧ Balanced near .black height ∧ Balanced far .black height := by
  constructor
  · intro balanced
    cases side <;> cases balanced <;> exact ⟨rfl, ‹_›, ‹_›⟩
  · rintro ⟨rfl, nearBalanced, farBalanced⟩
    cases side with
    | left => exact .red nearBalanced farBalanced
    | right => exact .red farBalanced nearBalanced

theorem balanced_black : Balanced (side.node place .black near entry far) colour (height + 1) ↔
    colour = .black ∧ Even near height ∧ Even far height := by
  constructor
  · intro balanced
    cases side <;> cases balanced <;> exact ⟨rfl, ⟨_, ‹_›⟩, ⟨_, ‹_›⟩⟩
  · rintro ⟨rfl, ⟨_, nearBalanced⟩, ⟨_, farBalanced⟩⟩
    cases side with
    | left => exact .black nearBalanced farBalanced
    | right => exact .black farBalanced nearBalanced

theorem Balanced.withEntry {left right : Tree Place Entry}
    (balanced : Balanced (.node place shade left entry right) colour height) :
    Balanced (.node place shade left entry' right) colour height := by
  cases balanced with
  | red left right => exact .red left right
  | black left right => exact .black left right

theorem Balanced.paint (balanced : Balanced tree .black height) :
    Balanced (tree.paint .black) .black height := by
  cases balanced with
  | leaf => exact .leaf
  | black left right => exact .black left right

theorem Balanced.paint_red (balanced : Balanced tree .red height) :
    Balanced (tree.paint .black) .black (height + 1) := by
  cases balanced with
  | red left right => exact .black left right

theorem Balanced.height_pos (balanced : Balanced (side.node place .black near entry far) colour
    height) : ∃ below, height = below + 1 := by
  cases side <;> cases balanced <;> exact ⟨_, rfl⟩

end Balance

/-- The red-black conditions of a context for a hole of this height. A red tree may fill
the hole only where `allows` says so; the root has to be black. -/
inductive Fits : Context Place Entry → (allows : Bool) → (height : Nat) → Prop where
  | top {height} : Fits [] false height
  | black {side place entry sibling colour context allows height} :
      Fits context allows (height + 1) → Balanced sibling colour height →
        Fits (⟨side, place, .black, entry, sibling⟩ :: context) true height
  | red {side place entry sibling context height} :
      Fits context true height → Balanced sibling .black height →
        Fits (⟨side, place, .red, entry, sibling⟩ :: context) false height

section Contexts

variable {context : Context Place Entry} {tree : Tree Place Entry} {colour : Colour} {allows : Bool}
  {height total : Nat}

/-- A tree that fits a context makes a red-black tree with a black root. -/
theorem Fits.plug (fits : Fits context allows height) (balanced : Balanced tree colour height)
    (allowed : colour = .red → allows = true) :
    ∃ total, Balanced (plug context tree) .black total := by
  induction fits generalizing tree colour with
  | top =>
    cases colour with
    | red => cases allowed rfl
    | black => exact ⟨_, balanced⟩
  | black _ sibling ih =>
    exact ih (balanced_black.mpr ⟨rfl, ⟨_, balanced⟩, ⟨_, sibling⟩⟩)
      nofun
  | red _ sibling ih =>
    cases colour with
    | red => cases allowed rfl
    | black => exact ih (balanced_red.mpr ⟨rfl, balanced, sibling⟩) fun _ => rfl

/-- Every hole in a red-black tree splits it into a context and a tree that fits. -/
theorem Balanced.unplug (balanced : Balanced (RedBlack.plug context tree) .black total) :
    ∃ colour allows height, Fits context allows height ∧ Balanced tree colour height ∧
      (colour = .red → allows = true) := by
  induction context generalizing tree with
  | nil => exact ⟨.black, false, total, .top, balanced, nofun⟩
  | cons frame context ih =>
    obtain ⟨side, place, shade, entry, sibling⟩ := frame
    obtain ⟨colour, allows, height, fits, filled, allowed⟩ := ih balanced
    cases shade with
    | red =>
      obtain ⟨rfl, inHole, beside⟩ := balanced_red.mp filled
      rw [allowed rfl] at fits
      exact ⟨.black, false, height, .red fits beside, inHole,
        nofun⟩
    | black =>
      obtain ⟨below, rfl⟩ := filled.height_pos
      obtain ⟨rfl, ⟨inner, inHole⟩, ⟨_, beside⟩⟩ := balanced_black.mp filled
      exact ⟨inner, true, below, .black fits beside, inHole, fun _ => rfl⟩

end Contexts

/-- A tree that is one black node short of its context, with a root that is black or can
be painted black. -/
inductive Short : Tree Place Entry → Nat → Prop where
  | black {tree height} : Balanced tree .black height → Short tree height
  | red {side place near entry far height} : Even near height → Even far height →
      Short (Side.node side place .red near entry far) height

section Deletion

variable {context inside : Context Place Entry}
  {tree sibling inner outer near sibling' far : Tree Place Entry} {side : Side}
  {place place' nephew : Place} {entry entry' nephewEntry : Entry} {colour shade : Colour}
  {allows : Bool} {height : Nat}

theorem Balanced.short (balanced : Balanced tree colour height) : Short tree height := by
  cases balanced with
  | leaf => exact .black .leaf
  | red left right => exact @Short.red _ _ .left _ _ _ _ _ ⟨_, left⟩ ⟨_, right⟩
  | black left right => exact .black (.black left right)

theorem Short.balanced (short : Short tree height) (black : tree.colour = .black) :
    Balanced tree .black height := by
  cases short with
  | black balanced => exact balanced
  | red _ _ =>
    rw [Tree.colour_node] at black
    cases black

theorem Short.paint_red (short : Short tree height) (red : tree.colour = .red) :
    Balanced (tree.paint .black) .black (height + 1) := by
  cases short with
  | black balanced =>
    rw [balanced.colour_eq] at red
    cases red
  | red near far =>
    rw [Tree.paint_node]
    exact balanced_black.mpr ⟨rfl, near, far⟩

/-- Painted black, a short tree is balanced; a red one gains what it was short of. -/
theorem Short.paint (short : Short tree height) :
    ∃ total, Balanced (tree.paint .black) .black total := by
  cases colour : tree.colour with
  | red => exact ⟨_, short.paint_red colour⟩
  | black => exact ⟨_, (short.balanced colour).paint⟩

theorem Fits.exists_sibling (fits : Fits (⟨side, place, colour, entry, sibling⟩ :: context) allows
    (height + 1)) : ∃ place colour near entry far,
    sibling = side.node place colour near entry far := by
  obtain ⟨shade, beside⟩ : Even sibling (height + 1) := by cases fits <;> exact ⟨_, ‹_›⟩
  cases sibling with
  | leaf => cases beside
  | node place shade left entry right =>
    obtain ⟨near, far, same⟩ := side.exists_node place shade left entry right
    exact ⟨_, _, _, _, _, same⟩

/-- Another sibling with the same colour and height fits as well. -/
theorem Fits.replace (fits : Fits (⟨side, place, colour, entry, sibling⟩ :: context) allows height)
    (balanced : ∀ {shade}, Balanced sibling shade height → Balanced sibling' shade height) :
    Fits (⟨side, place, colour, entry, sibling'⟩ :: context) allows height := by
  cases fits with
  | black above beside => exact .black above (balanced beside)
  | red above beside => exact .red above (balanced beside)

/-- Places and entries do not matter to the balance. -/
theorem Fits.relabel
    (fits : Fits (inside ++ ⟨side, place, colour, entry, sibling⟩ :: context) allows height) :
    Fits (inside ++ ⟨side, place', colour, entry', sibling⟩ :: context) allows height := by
  induction inside generalizing allows height with
  | nil =>
    cases fits with
    | black above beside => exact .black above beside
    | red above beside => exact .red above beside
  | cons frame inside ih =>
    cases fits with
    | black above beside => exact .black (ih above) beside
    | red above beside => exact .red (ih above) beside

/-- A node with one subtree is replaced by it. Nothing is short when the node was red. -/
theorem Fits.splice (fits : Fits context allows height)
    (balanced : Balanced (side.node place colour near entry .leaf) shade height) :
    (colour = .red → ∃ total, Balanced (RedBlack.plug context near) .black total) ∧
      (colour = .black → ∃ below, Fits context allows (below + 1) ∧ Short near below) := by
  constructor
  · rintro rfl
    exact fits.plug (balanced_red.mp balanced).2.1 nofun
  · rintro rfl
    obtain ⟨below, rfl⟩ := balanced.height_pos
    obtain ⟨-, ⟨_, nearBalanced⟩, -⟩ := balanced_black.mp balanced
    exact ⟨below, fits, nearBalanced.short⟩

/-- A red sibling is rotated up over its parent, which is black. -/
theorem Fits.rotate_redSibling
    (fits : Fits (⟨side, place, colour, entry, side.node place' .red inner entry' outer⟩ ::
      context) allows (height + 1)) :
    Fits (⟨side, place, .red, entry, inner⟩ :: ⟨side, place', .black, entry', outer⟩ :: context)
      false (height + 1) := by
  cases fits with
  | black above beside =>
    obtain ⟨-, innerBalanced, outerBalanced⟩ := balanced_red.mp beside
    exact .red (.black above outerBalanced) innerBalanced
  | red _ beside =>
    obtain ⟨impossible, -⟩ := balanced_red.mp beside
    cases impossible

/-- A red nephew near the short tree is rotated up over the sibling. -/
theorem Fits.rotate_inner (fits : Fits (⟨side, place, colour, entry,
      side.node place' .black (side.node nephew .red near nephewEntry far) entry' outer⟩ ::
        context) allows (height + 1)) (outerBlack : outer.colour = .black) :
    Fits (⟨side, place, colour, entry,
      side.node nephew .black near nephewEntry (side.node place' .red far entry' outer)⟩ ::
        context) allows (height + 1) := by
  refine fits.replace fun beside => ?_
  obtain ⟨rfl, ⟨_, innerBalanced⟩, ⟨_, outerBalanced⟩⟩ := balanced_black.mp beside
  obtain ⟨-, nearBalanced, farBalanced⟩ := balanced_red.mp innerBalanced
  obtain rfl := outerBalanced.colour_eq.symm.trans outerBlack
  exact balanced_black.mpr ⟨rfl, ⟨_, nearBalanced⟩,
    ⟨_, balanced_red.mpr ⟨rfl, farBalanced, outerBalanced⟩⟩⟩

section

variable
  (fits : Fits (⟨side, place, colour, entry, side.node place' .black inner entry' outer⟩ ::
    context) allows (height + 1))
  (balanced : Balanced tree .black height)
include fits balanced

/-- With black nephews the sibling is painted red, and the parent is short. -/
theorem Fits.paint_sibling (innerBlack : inner.colour = .black)
    (outerBlack : outer.colour = .black) :
    ∃ height' allows', Fits context allows' (height' + 1) ∧
      Short (side.node place colour tree entry (side.node place' .red inner entry' outer))
        height' := by
  have painted : Even (side.node place' .black inner entry' outer) (height + 1) →
      Balanced (side.node place' .red inner entry' outer) .red height := by
    rintro ⟨shade, beside⟩
    obtain ⟨-, ⟨_, innerBalanced⟩, ⟨_, outerBalanced⟩⟩ := balanced_black.mp beside
    obtain rfl := innerBalanced.colour_eq.symm.trans innerBlack
    obtain rfl := outerBalanced.colour_eq.symm.trans outerBlack
    exact balanced_red.mpr ⟨rfl, innerBalanced, outerBalanced⟩
  cases fits with
  | black above beside =>
    refine ⟨height + 1, _, above, .black ?_⟩
    exact balanced_black.mpr ⟨rfl, ⟨_, balanced⟩, ⟨_, painted ⟨_, beside⟩⟩⟩
  | red above beside => exact ⟨height, _, above, .red ⟨_, balanced⟩ ⟨_, painted ⟨_, beside⟩⟩⟩

/-- With a red nephew away from the short tree the sibling is rotated up over the parent and
takes its colour; the tree is balanced again. -/
theorem Fits.rotate_outer (outerRed : outer.colour = .red) :
    ∃ total, Balanced (RedBlack.plug context (side.node place' colour
      (side.node place .black tree entry inner) entry' (outer.paint .black))) .black total := by
  have raised : Even (side.node place' .black inner entry' outer) (height + 1) →
      Balanced (side.node place .black tree entry inner) .black (height + 1) ∧
        Balanced (outer.paint .black) .black (height + 1) := by
    rintro ⟨shade, beside⟩
    obtain ⟨-, innerEven, ⟨_, outerBalanced⟩⟩ := balanced_black.mp beside
    obtain rfl := outerBalanced.colour_eq.symm.trans outerRed
    exact ⟨balanced_black.mpr ⟨rfl, ⟨_, balanced⟩, innerEven⟩, outerBalanced.paint_red⟩
  cases fits with
  | black above beside =>
    obtain ⟨parent, painted⟩ := raised ⟨_, beside⟩
    exact above.plug (balanced_black.mpr ⟨rfl, ⟨_, parent⟩, ⟨_, painted⟩⟩)
      nofun
  | red above beside =>
    obtain ⟨parent, painted⟩ := raised ⟨_, beside⟩
    exact above.plug (balanced_red.mpr ⟨rfl, parent, painted⟩) fun _ => rfl

end

end Deletion

end Isulad.Std.RedBlack
