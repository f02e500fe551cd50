import Isulad.Map.Layout

/-!
# Searching the tree

A comparator orders the keys when it is the sign of a total preorder; keys that compare
equal are the same key to the map. The entries of a search tree are sorted, so that
descending by the comparator finds the node of a key or the hole where it belongs.
-/

namespace Isulad.Map

open List Isulad.Std Isulad.Std.RedBlack
open Multiset (card_add card_singleton)

variable {K V α : Type}

/-- The comparator orders the keys totally. -/
structure TotalOrder (cmp : K → K → Int) : Prop where
  swap : ∀ first last, cmp first last < 0 ↔ 0 < cmp last first
  trans : ∀ {first middle last}, cmp first middle ≤ 0 → cmp middle last ≤ 0 → cmp first last ≤ 0

namespace TotalOrder

variable {cmp : K → K → Int} {first middle last : K}

variable (order : TotalOrder cmp)
include order

theorem not_lt : ¬ cmp first last < 0 ↔ cmp last first ≤ 0 := by
  rw [order.swap, Int.not_lt]

theorem lt_of_lt_of_le (less : cmp first middle < 0)
    (atMost : cmp middle last ≤ 0) : cmp first last < 0 := by
  by_contra notLess
  exact order.not_lt.mpr (order.trans atMost (order.not_lt.mp notLess)) less

theorem lt_of_le_of_lt (atMost : cmp first middle ≤ 0)
    (less : cmp middle last < 0) : cmp first last < 0 := by
  by_contra notLess
  exact order.not_lt.mpr (order.trans (order.not_lt.mp notLess) atMost) less

theorem eq_symm (same : cmp first last = 0) : cmp last first = 0 := by
  have := order.swap first last
  have := order.swap last first
  omega

end TotalOrder

/-- The comparators of the source order their keys. -/
theorem compareSign_totalOrder [LinearOrder α] :
    TotalOrder (compareSign : α → α → Int) := by
  have sign : ∀ first last : α, (compareSign first last < 0 ↔ first < last) ∧
      (0 < compareSign first last ↔ last < first) := by
    intro first last
    unfold compareSign
    rcases lt_trichotomy first last with less | rfl | greater
    · simp [less, less.not_gt]
    · simp
    · simp [greater, greater.not_gt]
  refine ⟨fun first last => (sign first last).1.trans (sign last first).2.symm, ?_⟩
  intro first middle last
  simp only [← not_lt, (sign _ _).2]
  exact fun atMost atMost' less => absurd (lt_of_le_of_lt (not_lt.mp atMost) (lt_of_le_of_lt
    (not_lt.mp atMost') less)) (lt_irrefl _)

/-- The entries are in ascending order of their keys. -/
def Sorted (cmp : K → K → Int) (entries : List (K × V)) : Prop :=
  entries.Pairwise fun entry later => cmp entry.1 later.1 < 0

section Search

variable {cmp : K → K → Int} {key other : K} {state : RbTree K V} {path : Path K V}
  {tree : Shape K V} {nilParent place : Address} {spare : Cells K V}

theorem runs_comparator {post : Int → RbTree K V → Prop} (holds : post (cmp key other) state) :
    Runs (comparator cmp (some key) (some other)) state post := runs_pure holds

theorem Holds.ref_ne_nil {colour : Colour} {left right : Shape K V} {entry : K × V}
    (holds : Holds state (plug path (.node place colour left entry right)) nilParent spare) :
    ref (.node place colour left entry right) ≠ nil :=
  @Holds.ne_nil _ _ state path .left place colour left right entry nilParent spare holds

/-- What a search for a key may return. -/
inductive Finding (cmp : K → K → Int) (key : K) (tree : Shape K V) : Address → Prop where
  | absent : (∀ entry ∈ tree.entries, cmp key entry.1 ≠ 0) → Finding cmp key tree nil
  | present {path place colour left entry right} :
      tree = plug path (.node place colour left entry right) → cmp key entry.1 = 0 →
        Finding cmp key tree place

/-- The key belongs into the hole of the path. -/
structure Between (cmp : K → K → Int) (key : K) (path : Path K V) : Prop where
  before : ∀ entry ∈ RedBlack.before path, cmp entry.1 key < 0
  after : ∀ entry ∈ RedBlack.after path, cmp key entry.1 < 0

theorem Between.top : Between cmp key ([] : Path K V) := ⟨nofun, nofun⟩

section Descent

variable {place : Address} {colour : Colour} {left right : Shape K V} {entry : K × V}

section

variable (sorted : Sorted cmp (RedBlack.Tree.node place colour left entry right).entries)
include sorted

theorem Sorted.node :
    Sorted cmp left.entries ∧ Sorted cmp right.entries ∧
      (∀ other ∈ left.entries, cmp other.1 entry.1 < 0) ∧
        ∀ other ∈ right.entries, cmp entry.1 other.1 < 0 := by
  obtain ⟨sortedLeft, sortedRest, across⟩ := pairwise_append.mp sorted
  obtain ⟨aboveEntry, sortedRight⟩ := pairwise_cons.mp sortedRest
  exact ⟨sortedLeft, sortedRight, fun other member => across other member entry mem_cons_self,
    aboveEntry⟩

variable (between : Between cmp key path) (order : TotalOrder cmp)
include between order

theorem Between.descend_left (less : cmp key entry.1 < 0) :
    Between cmp key (⟨.left, place, colour, entry, right⟩ :: path) where
  before other member := between.before other (by
    simpa [RedBlack.before, Frame.before] using member)
  after other member := by
    simp [RedBlack.after, Frame.after]
      at member
    rcases member with rfl | member | member
    · exact less
    · exact order.lt_of_lt_of_le less (sorted.node.2.2.2 other member).le
    · exact between.after other member

theorem Between.descend_right (more : cmp entry.1 key < 0) :
    Between cmp key (⟨.right, place, colour, entry, left⟩ :: path) where
  before other member := by
    simp [RedBlack.before, Frame.before] at member
    rcases member with member | member | rfl
    · exact between.before other member
    · exact order.lt_of_lt_of_le (sorted.node.2.2.1 other member) more.le
    · exact more
  after other member := between.after other (by simpa [RedBlack.after, Frame.after] using member)

end

theorem shorter_node {fuel : Nat}
    (enough : (RedBlack.Tree.node place colour left entry right).entries.length < fuel + 1) :
    left.entries.length < fuel ∧ right.entries.length < fuel := by
  rw [Tree.entries, length_append, length_cons] at enough
  omega

end Descent

theorem Between.absent (between : Between cmp key path) (order : TotalOrder cmp) :
    ∀ entry ∈ (plug path (.leaf : Shape K V)).entries, cmp key entry.1 ≠ 0 := by
  rw [entries_plug, Tree.entries, append_nil, forall_mem_append]
  exact ⟨fun entry early => ((order.swap _ _).mp (between.before entry early)).ne',
    fun entry late => (between.after entry late).ne⟩

section

variable (holds : Holds state (plug path tree) nilParent spare)
include holds

section

variable {post : Address → RbTree K V → Prop} {fuel : Nat} (order : TotalOrder cmp)
  (sorted : Sorted cmp tree.entries) (enough : tree.entries.length < fuel)
  (between : Between cmp key path)
include order sorted enough between

theorem Holds.runs_recursiveSearch
    (found : ∀ address, Finding cmp key (plug path tree) address → post address state) :
    Runs (rbtreeRecursiveSearch cmp key fuel (ref tree)) state post := by
  induction fuel generalizing path tree with
  | zero => exact absurd enough (Nat.not_lt_zero _)
  | succ fuel ih =>
    cases tree with
    | leaf => exact runs_if_pos rfl (runs_pure (found nil (.absent (between.absent order))))
    | node place colour left entry right =>
      refine runs_if_neg holds.ref_ne_nil (runs_bind (runs_load holds.found_plain ?_))
      refine runs_bind (runs_comparator ?_)
      by_cases equal : cmp key entry.1 = 0
      · exact runs_if_pos equal (runs_pure (found place (.present rfl equal)))
      refine runs_if_neg equal ?_
      by_cases less : cmp key entry.1 < 0
      · exact runs_if_pos less (@ih
          (⟨.left, place, colour, entry, right⟩ :: path) left holds sorted.node.1
            (shorter_node enough).1 (between.descend_left sorted order less) found)
      · have more : cmp entry.1 key < 0 := (order.swap _ _).mpr (by omega)
        exact runs_if_neg less (@ih
          (⟨.right, place, colour, entry, left⟩ :: path) right holds sorted.node.2.1
            (shorter_node enough).2 (between.descend_right sorted order more) found)

/-- The descent of an absent key ends at the hole it belongs into. -/
theorem Holds.runs_insertDescent {node : Address}
    {new : RbNode K V} (newFound : state.memory node = some new)
    (newKey : new.key = some key) (absent : ∀ entry ∈ tree.entries, cmp key entry.1 ≠ 0)
    (found : ∀ path', plug path' .leaf = plug path tree → Between cmp key path' →
      post (above path') state) :
    Runs (insertDescent cmp node fuel (above path) (ref tree)) state post := by
  induction fuel generalizing path tree with
  | zero => exact absurd enough (Nat.not_lt_zero _)
  | succ fuel ih =>
    cases tree with
    | leaf => exact runs_if_pos rfl (runs_pure (found path rfl between))
    | node place colour left entry right =>
      refine runs_if_neg holds.ref_ne_nil (runs_bind (runs_load holds.found_plain ?_))
      refine runs_bind (runs_load newFound ?_)
      rw [cellOf_key, newKey]
      refine runs_bind (runs_comparator ?_)
      by_cases less : cmp key entry.1 < 0
      · exact runs_if_pos less (@ih
          (⟨.left, place, colour, entry, right⟩ :: path) left holds sorted.node.1
            (shorter_node enough).1
            (between.descend_left sorted order less)
            (fun other member => absent other (mem_append_left _ member)) found)
      · have unequal := absent entry (mem_append_right _ mem_cons_self)
        have more : cmp entry.1 key < 0 := (order.swap _ _).mpr (by omega)
        exact runs_if_neg less (@ih
          (⟨.right, place, colour, entry, left⟩ :: path) right holds sorted.node.2.1
            (shorter_node enough).2
            (between.descend_right sorted order more)
            (fun other member => absent other (mem_append_right _
              (mem_cons_of_mem _ member))) found)

end

theorem Holds.runs_numberOfNodes {post : Nat → RbTree K V → Prop} {fuel : Nat}
    (enough : tree.entries.length < fuel) (counted : post tree.entries.length state) :
    Runs (numberOfNodes fuel (ref tree)) state post := by
  induction fuel generalizing path tree post with
  | zero => exact absurd enough (Nat.not_lt_zero _)
  | succ fuel ih =>
    cases tree with
    | leaf => exact runs_if_pos rfl (runs_pure counted)
    | node place colour left entry right =>
      refine runs_if_neg holds.ref_ne_nil (runs_bind (runs_load holds.found_plain ?_))
      refine runs_bind (@ih (⟨.left, place, colour, entry, right⟩ :: path)
        left holds _ (shorter_node enough).1 ?_)
      refine runs_bind (@ih (⟨.right, place, colour, entry, left⟩ :: path)
        right holds _ (shorter_node enough).2 (runs_pure ?_))
      rw [Tree.entries, length_append, length_cons] at counted
      convert counted using 1
      omega

end

theorem card_cells (parent : Address) (tree : Shape K V) :
    (cells parent tree).card = tree.entries.length := by
  induction tree generalizing parent with
  | leaf => rfl
  | node place colour left entry right leftHypothesis rightHypothesis =>
    rw [cells, card_add, card_add, leftHypothesis, rightHypothesis,
      card_singleton, Tree.entries, length_append, length_cons]
    omega

theorem Holds.length_lt (holds : Holds state tree nilParent spare) :
    tree.entries.length + spare.card < state.next := by
  have atMost := Has.card_le holds
  rw [card_add, card_cells, others, card_add, card_singleton] at atMost
  omega

theorem Holds.runs_find {post : Address → RbTree K V → Prop} (order : TotalOrder cmp)
    (holds : Holds state tree nilParent spare) (sorted : Sorted cmp tree.entries)
    (found : ∀ address, Finding cmp key tree address → post address state) :
    Runs (rbtreeFind cmp key) state post := by
  refine runs_bind (runs_budget (runs_bind (runs_getRoot ?_)))
  rw [Has.root holds]
  have enough := holds.length_lt
  exact @Holds.runs_recursiveSearch _ _ _ _ _ [] _ _ _ holds _ _ order sorted (by omega) .top found

/-- A search goes no further down than the tree, however far it may go. -/
theorem Holds.recursiveSearch_eq (holds : Holds state (plug path tree) nilParent spare)
    {fuel more : Nat} (enough : tree.depth < fuel) (enoughMore : tree.depth < more) :
    rbtreeRecursiveSearch cmp key fuel (ref tree) state =
      rbtreeRecursiveSearch cmp key more (ref tree) state := by
  induction tree generalizing path fuel more with
  | leaf => cases fuel <;> cases more <;> trivial
  | node place colour left entry right leftHypothesis rightHypothesis =>
    obtain ⟨fuel, rfl⟩ := Nat.exists_eq_add_one_of_ne_zero (Nat.ne_zero_of_lt enough)
    obtain ⟨more, rfl⟩ := Nat.exists_eq_add_one_of_ne_zero (Nat.ne_zero_of_lt enoughMore)
    rw [Tree.depth, Nat.add_lt_add_iff_right, Nat.max_lt] at enough enoughMore
    have onLeft := @leftHypothesis (⟨.left, place, colour, entry, right⟩ :: path) holds fuel more
      enough.1 enoughMore.1
    have onRight := @rightHypothesis (⟨.right, place, colour, entry, left⟩ :: path) holds fuel more
      enough.2 enoughMore.2
    have reads (next : RbNode K V → Op K V Address) : (load place >>= next) state =
        next (cellOf .left entry colour (ref left) (ref right) (above path)) state := by
      change (load place state).bind _ = _
      rw [load, holds.found_plain]
      rfl
    unfold rbtreeRecursiveSearch
    rw [if_neg holds.ref_ne_nil, if_neg holds.ref_ne_nil, ref, reads, reads]
    change (if cmp key entry.1 = 0 then _ else _ : Op K V Address) state =
      (if cmp key entry.1 = 0 then _ else _ : Op K V Address) state
    split
    · rfl
    split
    · exact onLeft
    · exact onRight

theorem Holds.runs_size {post : Nat → RbTree K V → Prop}
    (holds : Holds state tree nilParent spare) (counted : post tree.entries.length state) :
    Runs rbtreeSize state post := by
  refine runs_bind (runs_budget (runs_bind (runs_getRoot ?_)))
  rw [Has.root holds]
  have enough := holds.length_lt
  exact @Holds.runs_numberOfNodes _ _ _ [] _ _ _ holds _ _ (by omega) counted

end Search

end Isulad.Map
