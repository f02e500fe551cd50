import Isulad.Std.Memory
import Isulad.Std.RedBlack

/-!
# The red-black tree of the map

The tree of `rb_tree.c` as its nodes lie in memory: every node is a cell with links to
its children and its parent, and one black `nil` node stands for every missing child and
for the parent of the root. A read or a write through a pointer that points nowhere is an
error, and so is comparing with the key of `nil`; `Op` is the type of operations that may
end so. The mirrored halves of the source are one definition with the side as a parameter.

The loops carry a budget, the number of addresses handed out so far, and running out of it
is an error as well. None of these errors ever happens: every result of the map is stated
for runs that return.
-/

namespace Isulad.Map

open Std.RedBlack (Colour Side)

/-- Pointers are addresses; `0` is `NULL`. -/
abbrev Address : Type := Nat

/-- The address of the `nil` node. -/
def nil : Address := 1

/-- `struct rb_node`. The key and the value of `nil` are `NULL`. -/
structure RbNode (K V : Type) where
  key : Option K
  value : Option V
  colour : Colour
  left : Address
  right : Address
  parent : Address

/-- The child on a side. -/
def RbNode.child {K V : Type} (node : RbNode K V) : Side → Address
  | .left => node.left
  | .right => node.right

/-- The node with another child on a side. -/
def RbNode.withChild {K V : Type} (node : RbNode K V) (side : Side)
    (child : Address) : RbNode K V :=
  match side with
  | .left => { node with left := child }
  | .right => { node with right := child }

/-- The sign that the comparators of the source compute from two comparisons. -/
def compareSign {α : Type} [LinearOrder α] (first last : α) : Int :=
  (if first > last then 1 else 0) - (if first < last then 1 else 0)

/-- `rbtree_ptr_cmp`. -/
def rbtreePtrCmp (first last : Address) : Int := compareSign first last

/-- `rbtree_int_cmp`. -/
def rbtreeIntCmp (first last : Int) : Int := compareSign first last

/-- `struct rb_tree` and its memory: `next` is the address the next node gets, and
`released` the keys and values that were given to the `kvfreer`, the last one first. -/
structure RbTree (K V : Type) where
  memory : Std.Memory Address (RbNode K V)
  next : Address
  root : Address
  released : List (Option K × Option V)

/-- An operation on the tree, which may go wrong. -/
abbrev Op (K V α : Type) : Type := StateT (RbTree K V) Option α

section Operations

variable {K V : Type} (cmp : K → K → Int) (address node : Address) (side : Side)

/-- Read the node at an address. -/
def load : Op K V (RbNode K V) :=
  fun tree => (tree.memory address).map fun node => (node, tree)

/-- Change the node at an address. -/
def update (change : RbNode K V → RbNode K V) : Op K V Unit :=
  fun tree => (tree.memory address).map fun node =>
    ((), { tree with memory := tree.memory.set address (some (change node)) })

def getRoot : Op K V Address := fun tree => some (tree.root, tree)

def setRoot (root : Address) : Op K V Unit := fun tree => some ((), { tree with root := root })

def colourOf : Op K V Colour := do return (← load address).colour

def parentOf : Op K V Address := do return (← load address).parent

def childOf (address : Address) : Op K V Address := do
  return (← load address).child side

def setColour (colour : Colour) : Op K V Unit :=
  update address fun node => { node with colour := colour }

def setParent (parent : Address) : Op K V Unit :=
  update address fun node => { node with parent := parent }

def setChild (address child : Address) : Op K V Unit :=
  update address fun node => node.withChild side child

/-- Call the comparator of the tree on two keys, neither of which may be `NULL`. -/
def comparator : Option K → Option K → Op K V Int
  | some first, some last => pure (cmp first last)
  | _, _ => failure

/-- Give a key and a value to the `kvfreer`. A map always has one. -/
def kvfreer (key : Option K) (value : Option V) : Op K V Unit :=
  fun tree => some ((), { tree with released := (key, value) :: tree.released })

/-- `free` a node. -/
def freeNode : Op K V Unit :=
  fun tree => (tree.memory address).map fun _ =>
    ((), { tree with memory := tree.memory.set address none })

/-- The budget of a loop: it visits no more nodes than were ever made. -/
def budget : Op K V Nat := fun tree => some (tree.next, tree)

/-- `rbtree_create_node`: the new node is black. -/
def rbtreeCreateNode (key : K) (value : V) (left right parent : Address) : Op K V Address :=
  fun tree => some (tree.next,
    { tree with
      memory := tree.memory.set tree.next (some ⟨some key, some value, .black, left, right, parent⟩)
      next := tree.next + 1 })

/-- `rbtree_new`: the tree has its `nil` node only. -/
def rbtreeNew : RbTree K V where
  memory := fun address =>
    if address = nil then some ⟨none, none, .black, 0, 0, 0⟩ else none
  next := nil + 1
  root := nil
  released := []

/-- `rbtree_recursive_search`. -/
def rbtreeRecursiveSearch (cmp : K → K → Int) (key : K) : Nat → Address → Op K V Address
  | 0, _ => failure
  | fuel + 1, node =>
    if node = nil then pure node
    else do
      let found ← load node
      let order ← comparator cmp (some key) found.key
      if order = 0 then pure node
      else if order < 0 then rbtreeRecursiveSearch cmp key fuel found.left
      else rbtreeRecursiveSearch cmp key fuel found.right

/-- `rbtree_find`. -/
def rbtreeFind (cmp : K → K → Int) (key : K) : Op K V Address := do
  rbtreeRecursiveSearch cmp key (← budget) (← getRoot)

/-- `rbtree_search`. -/
def rbtreeSearch (key : K) : Op K V (Option V) := do
  let found ← rbtreeFind cmp key
  if found = nil then pure none
  else return (← load found).value

/-- `number_of_nodes`. -/
def numberOfNodes : Nat → Address → Op K V Nat
  | 0, _ => failure
  | fuel + 1, node =>
    if node = nil then pure 0
    else do
      let found ← load node
      let left ← numberOfNodes fuel found.left
      let right ← numberOfNodes fuel found.right
      return 1 + left + right

/-- `rbtree_size`. -/
def rbtreeSize : Op K V Nat := do
  numberOfNodes (← budget) (← getRoot)

/-- Put `replacement` below the parent of `node`, where `node` is. -/
def relink (node replacement : Address) : Op K V Unit := do
  let parent ← parentOf node
  if parent = nil then setRoot replacement
  else if node = (← childOf side parent) then setChild side parent replacement
  else setChild side.other parent replacement

/-- Set the parent of a node that is not `nil`. -/
def setParentUnlessNil (parent : Address) : Op K V Unit := do
  if address ≠ nil then setParent address parent else pure ()

/-- Rotate a node towards a side. -/
def rot (node : Address) : Op K V Unit := do
  let y ← childOf side.other node
  let inner ← childOf side y
  setChild side.other node inner
  setParentUnlessNil inner node
  setParent y (← parentOf node)
  relink side node y
  setChild side y node
  setParent node y

/-- `left_rot`. -/
def leftRot : Op K V Unit := rot .left node

/-- `right_rot`. -/
def rightRot : Op K V Unit := rot .right node

/-- Under a black uncle, a node on the inner side of its parent is exchanged with it. -/
def insertFixupInner (node : Address) : Op K V Address := do
  let parent ← parentOf node
  if node = (← childOf side.other parent) then do
    rot side parent
    pure parent
  else pure node

/-- One turn of `rbtree_insert_fixup` with the parent on this side of the grandparent. The
function returns at once when the uncle is `NULL`. -/
def insertFixupTurn (node : Address) : Op K V (Option Address) := do
  let parent ← parentOf node
  let grandparent ← parentOf parent
  let y ← childOf side.other grandparent
  if y = 0 then pure none
  else if (← colourOf y) = .red then do
    setColour parent .black
    setColour y .black
    setColour grandparent .red
    pure (some grandparent)
  else do
    let node ← insertFixupInner side node
    let parent ← parentOf node
    setColour parent .black
    let grandparent ← parentOf parent
    setColour grandparent .red
    rot side.other grandparent
    pure (some node)

/-- The side of a child, which the source finds by comparing it with the left one. -/
def sideOf (child left : Address) : Side := if child = left then .left else .right

/-- `rbtree_insert_fixup`. -/
def rbtreeInsertFixup : Nat → Address → Op K V Unit
  | 0, _ => failure
  | fuel + 1, node => do
      let parent ← parentOf node
      if (← colourOf parent) = .red then do
        let grandparent ← parentOf parent
        let left ← childOf .left grandparent
        match ← insertFixupTurn (sideOf parent left) node with
        | none => pure ()
        | some next => rbtreeInsertFixup fuel next
      else setColour (← getRoot) .black

/-- The descent of `insert_node`: the node below which the new one goes. -/
def insertDescent (cmp : K → K → Int) (node : Address) : Nat → Address → Address → Op K V Address
  | 0, _, _ => failure
  | fuel + 1, previous, index =>
    if index = nil then pure previous
    else do
      let found ← load index
      let order ← comparator cmp (← load node).key found.key
      if order < 0 then insertDescent cmp node fuel index found.left
      else insertDescent cmp node fuel index found.right

/-- Link the new node below its parent. -/
def linkNode (previous : Address) : Op K V Unit := do
  if previous = nil then setRoot node
  else do
    let order ← comparator cmp (← load node).key (← load previous).key
    if order < 0 then setChild .left previous node
    else setChild .right previous node

/-- `insert_node`. -/
def insertNode : Op K V Unit := do
  let previous ← insertDescent cmp node (← budget) nil (← getRoot)
  setParent node previous
  linkNode cmp node previous
  setChild .left node nil
  setChild .right node nil
  setColour node .red
  rbtreeInsertFixup (← budget) node

/-- `rbtree_insert`. -/
def rbtreeInsert (key : Option K) (value : Option V) : Op K V Bool :=
  match key, value with
  | some key, some value => do
      if (← rbtreeFind cmp key) ≠ nil then pure false
      else do
        let node ← rbtreeCreateNode key value nil nil nil
        insertNode cmp node
        pure true
  | _, _ => pure false

/-- `rbtree_replace`: a key that is there keeps its node, and the freer gets the new key
with the old value. -/
def rbtreeReplace (key : Option K) (value : Option V) : Op K V Bool :=
  match key, value with
  | some key, some value => do
      let node ← rbtreeFind cmp key
      if node = nil then rbtreeInsert cmp (some key) (some value)
      else do
        kvfreer (some key) (← load node).value
        update node fun found => { found with value := some value }
        pure true
  | _, _ => pure false

/-- The loop of `rbtree_minimum`. -/
def minimumLoop : Nat → Address → Op K V Address
  | 0, _ => failure
  | fuel + 1, node => do
      let left ← childOf .left node
      if left = nil then pure node else minimumLoop fuel left

/-- `rbtree_minimum`. -/
def rbtreeMinimum : Op K V Address := do
  if node = nil then pure nil else minimumLoop (← budget) node

/-- A missing child counts as black. -/
def isBlack : Op K V Bool := do
  if address = nil then pure true else return (← colourOf address) = .black

/-- A red sibling is rotated away, so that the new sibling is black. -/
def eraseFixupRedSibling (node sibling : Address) : Op K V Address := do
  if (← colourOf sibling) = .red then do
    let parent ← parentOf node
    setColour parent .red
    setColour sibling .black
    rot side parent
    childOf side.other (← parentOf node)
  else pure sibling

/-- A black outer nephew is exchanged with the red inner one. -/
def eraseFixupInner (node sibling : Address) : Op K V Address := do
  if (← isBlack (← childOf side.other sibling)) then do
    setColour sibling .red
    setColour (← childOf side sibling) .black
    rot side.other sibling
    childOf side.other (← parentOf node)
  else pure sibling

/-- One turn of `rbtree_erase_fixup` for a node on this side of its parent, with the node
that is looked at next. -/
def eraseFixupTurn (node : Address) : Op K V Address := do
  let sibling ← childOf side.other (← parentOf node)
  let sibling ← eraseFixupRedSibling side node sibling
  let inner ← isBlack (← childOf side sibling)
  let outer ← isBlack (← childOf side.other sibling)
  if inner && outer then do
    setColour sibling .red
    parentOf node
  else do
    let sibling ← eraseFixupInner side node sibling
    let parent ← parentOf node
    setColour sibling (← colourOf parent)
    setColour parent .black
    setColour (← childOf side.other sibling) .black
    rot side parent
    getRoot

/-- `do_with_left_node_not_null`. -/
def doWithLeftNodeNotNull : Op K V Address := eraseFixupTurn .left node

/-- `do_with_left_node_null`. -/
def doWithLeftNodeNull : Op K V Address := eraseFixupTurn .right node

/-- `rbtree_erase_fixup`. -/
def rbtreeEraseFixup : Nat → Address → Op K V Unit
  | 0, _ => failure
  | fuel + 1, node => do
      let black ← isBlack node
      let root ← getRoot
      if black ∧ node ≠ root then do
        let parent ← parentOf node
        if node = (← childOf .left parent) then
          rbtreeEraseFixup fuel (← doWithLeftNodeNotNull node)
        else
          rbtreeEraseFixup fuel (← doWithLeftNodeNull node)
      else if node ≠ 0 then setColour node .black
      else pure ()

/-- `rbtree_transplant`. -/
def rbtreeTransplant (u v : Address) : Op K V Unit := do
  relink .left u v
  setParent v (← parentOf u)

/-- Take the successor `y` of a node out of its place, unless it is the node's own child. -/
def detachSuccessor (y x : Address) : Op K V Unit := do
  if (← parentOf y) = node then setParent x y
  else do
    rbtreeTransplant y (← childOf .right y)
    setChild .right y (← childOf .right node)
    setParent (← childOf .right y) y

/-- Put the successor into the place of the node. -/
def takePlace (y : Address) : Op K V Unit := do
  rbtreeTransplant node y
  setChild .left y (← childOf .left node)
  setParent (← childOf .left y) y
  setColour y (← colourOf node)

/-- The part of `rbtree_erase` that takes the node out of the tree. It returns the node `x`
that has moved up and the colour that is missing above it. -/
def eraseSplice : Op K V (Address × Colour) := do
  if (← childOf .left node) = nil then do
    let colour ← colourOf node
    let x ← childOf .right node
    rbtreeTransplant node x
    pure (x, colour)
  else if (← childOf .right node) = nil then do
    let colour ← colourOf node
    let x ← childOf .left node
    rbtreeTransplant node x
    pure (x, colour)
  else do
    let y ← rbtreeMinimum (← childOf .right node)
    let colour ← colourOf y
    let x ← childOf .right y
    detachSuccessor node y x
    takePlace node y
    pure (x, colour)

/-- Repair the tree when the missing colour is black. -/
def eraseRepair (x : Address) (colour : Colour) : Op K V Unit := do
  if colour = .black then rbtreeEraseFixup (← budget) x else pure ()

/-- `rbtree_erase`. -/
def rbtreeErase : Op K V Unit := do
  let (x, colour) ← eraseSplice node
  eraseRepair x colour
  let erased ← load node
  kvfreer erased.key erased.value
  freeNode node

/-- `rbtree_remove`. -/
def rbtreeRemove (key : Option K) : Op K V Bool :=
  match key with
  | none => pure false
  | some key => do
      let node ← rbtreeFind cmp key
      if node = nil then pure false
      else do
        rbtreeErase node
        pure true

end Operations

end Isulad.Map
