import Isulad.Map.Erase

/-!
# The map as a finite map

The operations of `map.c` over the red-black tree, the finite map they stand for, and the
refinement between the two over every sequence of operations. A finite map is the list of
its entries in any order; keys that compare equal are one key.
-/

namespace Isulad.Map

open List Isulad.Std Isulad.Std.RedBlack

variable {K V : Type}

/-- `map_type_t`. -/
inductive MapType where
  | intInt
  | intBool
  | intStr
  | intPtr
  | strBool
  | strInt
  | strPtr
  | strStr
  | ptrInt
  | ptrStr
  | ptrPtr
  deriving DecidableEq, Repr

namespace MapType

variable (type : MapType)

def isKeyInt : Bool := type ∈ [intInt, intStr, intPtr, intBool]

def isKeyStr : Bool := type ∈ [strInt, strStr, strPtr, strBool]

def isKeyPtr : Bool := type ∈ [ptrInt, ptrStr, ptrPtr]

def isValBool : Bool := type ∈ [strBool, intBool]

def isValInt : Bool := type ∈ [intInt, strInt, ptrInt]

def isValStr : Bool := type ∈ [intStr, strStr, ptrStr]

def isValPtr : Bool := type ∈ [intPtr, strPtr, ptrPtr]

end MapType

/-- `map_convert_key`: pointers are kept, integers and strings are copied. -/
def mapConvertKey (type : MapType) (key : K) : Option K :=
  if type.isKeyPtr then some key
  else if type.isKeyInt then some key
  else if type.isKeyStr then some key
  else none

/-- `map_convert_value`. -/
def mapConvertValue (type : MapType) (value : V) : Option V :=
  if type.isValPtr then some value
  else if type.isValBool then some value
  else if type.isValInt then some value
  else if type.isValStr then some value
  else none

section Operations

variable (cmp : K → K → Int) (type : MapType)

/-- The common part of `map_insert` and `map_replace`: refuse `NULL`, convert, and store. -/
def storeWith (store : Option K → Option V → Op K V Bool) (key : Option K) (value : Option V) :
    Op K V Bool :=
  match key, value with
  | some key, some value =>
    match mapConvertKey type key, mapConvertValue type value with
    | some key, some value => store (some key) (some value)
    | _, _ => pure false
  | _, _ => pure false

/-- `map_insert`. -/
def mapInsert : Option K → Option V → Op K V Bool := storeWith type (rbtreeInsert cmp)

/-- `map_replace`. -/
def mapReplace : Option K → Option V → Op K V Bool := storeWith type (rbtreeReplace cmp)

/-- `map_remove`. -/
def mapRemove : Option K → Op K V Bool
  | none => pure false
  | some key => rbtreeRemove cmp (some key)

/-- `map_search`. -/
def mapSearch : Option K → Op K V (Option V)
  | none => pure none
  | some key => rbtreeSearch cmp key

/-- `map_size`. -/
def mapSize : Op K V Nat := rbtreeSize

/-- An operation that changes a map; `none` is a `NULL` argument. -/
inductive Operation (K V : Type) where
  | insert (key : Option K) (value : Option V)
  | replace (key : Option K) (value : Option V)
  | remove (key : Option K)

/-- The operation on the tree. -/
def Operation.perform : Operation K V → Op K V Bool
  | .insert key value => mapInsert cmp type key value
  | .replace key value => mapReplace cmp type key value
  | .remove key => mapRemove cmp key

/-- A sequence of operations with their results. -/
def performAll : List (Operation K V) → Op K V (List Bool)
  | [] => pure []
  | operation :: later => do
      let result ← operation.perform cmp type
      return result :: (← performAll later)

end Operations

/-- The entries of a finite map. -/
abbrev Dictionary (K V : Type) : Type := List (K × V)

namespace Dictionary

variable (cmp : K → K → Int) (key : K) (dictionary : Dictionary K V)

def lookup : Option V :=
  (dictionary.find? fun entry => cmp key entry.1 = 0).map Prod.snd

def contains : Bool :=
  dictionary.any fun entry => cmp key entry.1 = 0

def withValue (value : V) (dictionary : Dictionary K V) : Dictionary K V :=
  dictionary.map fun entry => if cmp key entry.1 = 0 then (entry.1, value) else entry

def without : Dictionary K V :=
  dictionary.filter fun entry => cmp key entry.1 ≠ 0

/-- What an operation does to a finite map: insertion succeeds if the key was absent,
replacement always, removal if the key was present. -/
def apply : Operation K V → Bool × Dictionary K V
  | .insert (some key) (some value) =>
    if dictionary.contains cmp key then (false, dictionary)
    else (true, (key, value) :: dictionary)
  | .replace (some key) (some value) =>
    if dictionary.contains cmp key then (true, dictionary.withValue cmp key value)
    else (true, (key, value) :: dictionary)
  | .remove (some key) =>
    if dictionary.contains cmp key then (true, dictionary.without cmp key)
    else (false, dictionary)
  | _ => (false, dictionary)

/-- The results of a sequence of operations and the finite map they leave. -/
def applyAll (dictionary : Dictionary K V) : List (Operation K V) → List Bool × Dictionary K V
  | [] => ([], dictionary)
  | operation :: later =>
    let next := dictionary.apply cmp operation
    let rest := applyAll next.2 later
    (next.1 :: rest.1, rest.2)

variable {cmp} {key : K} {value : V} {dictionary dictionary' : Dictionary K V}

theorem contains_iff : dictionary.contains cmp key = true ↔
    ∃ entry ∈ dictionary, cmp key entry.1 = 0 := by
  simp [contains]

theorem not_contains_iff : ¬ dictionary.contains cmp key = true ↔
    ∀ entry ∈ dictionary, cmp key entry.1 ≠ 0 := by
  rw [contains_iff]
  simp

theorem contains_perm (same : dictionary.Perm dictionary') :
    dictionary.contains cmp key = dictionary'.contains cmp key := by
  rw [Bool.eq_iff_iff, contains_iff, contains_iff]
  exact exists_congr fun entry => and_congr_left fun _ => same.mem_iff

section

variable (absent : ∀ entry ∈ dictionary, cmp key entry.1 ≠ 0)
include absent

theorem withValue_of_absent :
    dictionary.withValue cmp key value = dictionary := by
  refine (map_congr_left fun entry member => ?_).trans (map_id _)
  rw [if_neg (absent entry member)]
  rfl

theorem without_of_absent :
    dictionary.without cmp key = dictionary :=
  filter_eq_self.mpr fun entry member => decide_eq_true (absent entry member)

theorem lookup_of_absent :
    dictionary.lookup cmp key = none := by
  unfold lookup
  rw [List.find?_eq_none.mpr fun entry member => by simpa using absent entry member]
  rfl

end

theorem lookup_of_unique {entry : K × V} (member : entry ∈ dictionary)
    (equal : cmp key entry.1 = 0)
    (unique : ∀ other ∈ dictionary, cmp key other.1 = 0 → other = entry) :
    dictionary.lookup cmp key = some entry.2 := by
  unfold lookup
  cases found : dictionary.find? fun entry => cmp key entry.1 = 0 with
  | none =>
    have absent := List.find?_eq_none.mp found entry member
    exact absurd (decide_eq_true equal) absent
  | some other =>
    have matching : cmp key other.1 = 0 := by simpa using List.find?_some found
    rw [unique other (mem_of_find?_eq_some found) matching]
    rfl

end Dictionary

open Dictionary

section Unique

variable {cmp : K → K → Int} {key : K} {value : V} {entry : K × V}
  {earlier later entries : List (K × V)}

section

variable (order : TotalOrder cmp) (sorted : Sorted cmp (earlier ++ entry :: later))
  (equal : cmp key entry.1 = 0)
include order sorted equal

theorem Sorted.unique :
    (∀ other ∈ earlier, cmp key other.1 ≠ 0) ∧ ∀ other ∈ later, cmp key other.1 ≠ 0 := by
  obtain ⟨-, late, across⟩ := pairwise_append.mp sorted
  constructor
  · intro other member
    have less := order.lt_of_lt_of_le (across other member entry mem_cons_self)
      (order.eq_symm equal).le
    exact ((order.swap _ _).mp less).ne'
  · intro other member
    exact (order.lt_of_le_of_lt equal.le ((pairwise_cons.mp late).1 other member)).ne

theorem Sorted.withValue_eq :
    withValue cmp key value (earlier ++ entry :: later) =
      earlier ++ (entry.1, value) :: later := by
  obtain ⟨early, late⟩ := sorted.unique order equal
  calc withValue cmp key value (earlier ++ entry :: later)
      = withValue cmp key value earlier ++
          (entry.1, value) :: withValue cmp key value later := by
        simp [withValue, equal]
    _ = earlier ++ (entry.1, value) :: later := by
        rw [withValue_of_absent early, withValue_of_absent late]

theorem Sorted.without_eq :
    without cmp key (earlier ++ entry :: later) = earlier ++ later := by
  obtain ⟨early, late⟩ := sorted.unique order equal
  calc without cmp key (earlier ++ entry :: later)
      = without cmp key earlier ++ without cmp key later := by
        simp [without, equal]
    _ = earlier ++ later := by
        rw [without_of_absent early, without_of_absent late]

end

end Unique

section Refinement

variable {cmp : K → K → Int} {type : MapType} {state : RbTree K V} {dictionary : Dictionary K V}
  {tree : Shape K V} {cell : RbNode K V}

/-- The tree stands for the finite map. -/
def StandsFor (cmp : K → K → Int) (dictionary : Dictionary K V) (state : RbTree K V) : Prop :=
  ∃ entries, Represents cmp entries state ∧ entries.Perm dictionary

theorem storeWith_some (store : Option K → Option V → Op K V Bool) (key : K) (value : V) :
    storeWith type store (some key) (some value) = store (some key) (some value) := by
  cases type <;> rfl

/-- A new entry is added wherever its key belongs. -/
theorem StandsFor.of_inserted {entries earlier later : List (K × V)} {key : K} {value : V}
    (same : entries.Perm dictionary) (split : entries = earlier ++ later)
    (represents : Represents cmp (earlier ++ (key, value) :: later) state) :
    StandsFor cmp ((key, value) :: dictionary) state := by
  subst split
  exact ⟨_, represents, perm_middle.trans (same.cons _)⟩

/-- What comes back is the result of the finite map, and the tree stands for what it became. -/
def Follows {A : Type*} (cmp : K → K → Int) (next : A × Dictionary K V) (result : A)
    (state : RbTree K V) : Prop :=
  result = next.1 ∧ StandsFor cmp next.2 state

section Step

variable {key : K} {value : V} (order : TotalOrder cmp) (stands : StandsFor cmp dictionary state)
include order stands

theorem StandsFor.runs_insert : Runs (mapInsert cmp type (some key) (some value)) state
    (Follows cmp (dictionary.apply cmp (.insert (some key) (some value)))) := by
  obtain ⟨entries, represents, same⟩ := stands
  rw [mapInsert, storeWith_some, apply, ← contains_perm same]
  refine represents.runs_insert order ?_ ?_
  · intro state' earlier later split absent represents'
    rw [if_neg (not_contains_iff.mpr absent)]
    exact ⟨rfl, .of_inserted same split represents'⟩
  · intro present
    rw [if_pos (contains_iff.mpr present)]
    exact ⟨rfl, entries, represents, same⟩

theorem StandsFor.runs_replace : Runs (mapReplace cmp type (some key) (some value)) state
    (Follows cmp (dictionary.apply cmp (.replace (some key) (some value)))) := by
  obtain ⟨entries, represents, same⟩ := stands
  rw [mapReplace, storeWith_some, apply, ← contains_perm same]
  refine represents.runs_replace order ?_ ?_
  · intro state' earlier later split absent represents'
    rw [if_neg (not_contains_iff.mpr absent)]
    exact ⟨rfl, .of_inserted same split represents'⟩
  · intro state' earlier entry later split equal represents'
    subst split
    rw [if_pos (contains_iff.mpr ⟨entry, by simp, equal⟩)]
    refine ⟨rfl, _, represents', ?_⟩
    rw [← represents.sorted.withValue_eq order equal]
    exact same.map _

theorem StandsFor.runs_remove : Runs (mapRemove cmp (some key)) state
    (Follows cmp (dictionary.apply cmp (.remove (some key)))) := by
  obtain ⟨entries, represents, same⟩ := stands
  rw [mapRemove, apply, ← contains_perm same]
  refine represents.runs_remove order ?_ ?_
  · intro absent
    rw [if_neg (not_contains_iff.mpr absent)]
    exact ⟨rfl, entries, represents, same⟩
  · intro state' earlier entry later split equal represents'
    subst split
    rw [if_pos (contains_iff.mpr ⟨entry, by simp, equal⟩)]
    refine ⟨rfl, _, represents', ?_⟩
    rw [← represents.sorted.without_eq order equal]
    exact same.filter _

/-- One operation on the tree does what it does to the finite map. -/
theorem StandsFor.runs_perform (operation : Operation K V) :
    Runs (operation.perform cmp type) state (Follows cmp (dictionary.apply cmp operation)) := by
  match operation with
  | .insert (some _) (some _) => exact stands.runs_insert order
  | .replace (some _) (some _) => exact stands.runs_replace order
  | .remove (some _) => exact stands.runs_remove order
  -- an absent key or value changes nothing
  | .insert none _ | .insert (some _) none | .replace none _ | .replace (some _) none
  | .remove none => exact runs_pure ⟨rfl, stands⟩

/-- A sequence of operations does what it does to the finite map. -/
theorem StandsFor.runs_performAll (operations : List (Operation K V)) :
    Runs (performAll cmp type operations) state
      (Follows cmp (dictionary.applyAll cmp operations)) := by
  induction operations generalizing state dictionary with
  | nil => exact runs_pure ⟨rfl, stands⟩
  | cons operation later ih =>
    refine runs_bind ((stands.runs_perform order operation).mono ?_)
    rintro result state' ⟨rfl, stands'⟩
    refine runs_bind ((ih stands').mono ?_)
    rintro results state'' ⟨rfl, stands''⟩
    exact runs_pure ⟨rfl, stands''⟩

end Step

theorem standsFor_new (cmp : K → K → Int) : StandsFor cmp ([] : Dictionary K V) rbtreeNew := by
  refine ⟨[], ⟨⟨.leaf, 0, ⟨rfl, ⟨?_, ?_⟩, ?_⟩, rfl, 0, .leaf⟩, List.Pairwise.nil⟩, List.Perm.nil⟩
  · simp [cells, others]
  · intro address cell
    simp [cells, others, nilCell]
    by_cases same : address = nil
    · simp [rbtreeNew, same, eq_comm]
    · simp [rbtreeNew, same]
  · intro place member
    simp [cells, others] at member
    subst member
    exact ⟨Nat.one_pos, Nat.lt_succ_self _⟩

/-- The keys of the left subtree of every node are less, those of the right one greater. -/
def SearchTree (cmp : K → K → Int) : Shape K V → Prop
  | .leaf => True
  | .node _ _ left entry right =>
    (∀ other ∈ left.entries, cmp other.1 entry.1 < 0) ∧
      (∀ other ∈ right.entries, cmp entry.1 other.1 < 0) ∧ SearchTree cmp left ∧
        SearchTree cmp right

theorem Sorted.searchTree (sorted : Sorted cmp tree.entries) : SearchTree cmp tree := by
  induction tree with
  | leaf => trivial
  | node place colour left entry right leftHypothesis rightHypothesis =>
    obtain ⟨sortedLeft, sortedRight, less, greater⟩ := sorted.node
    exact ⟨less, greater, leftHypothesis sortedLeft, rightHypothesis sortedRight⟩

theorem exists_node_of_mem_cells {parent place : Address}
    (member : (place, cell) ∈ cells parent tree) :
    ∃ path colour left entry right, tree = plug path (.node place colour left entry right) := by
  induction tree generalizing parent with
  | leaf => cases member
  | node root colour left entry right leftHypothesis rightHypothesis =>
    rcases Multiset.mem_add.mp member with inLeft | inRight
    · rcases Multiset.mem_add.mp inLeft with here | inLeft
      · cases Multiset.mem_singleton.mp here
        exact ⟨[], colour, left, entry, right, rfl⟩
      · obtain ⟨path, colour', left', entry', right', rfl⟩ := leftHypothesis inLeft
        refine ⟨path ++ [⟨.left, root, colour, entry, right⟩], colour', left', entry', right', ?_⟩
        rw [plug_append]
        rfl
    · obtain ⟨path, colour', left', entry', right', rfl⟩ := rightHypothesis inRight
      refine ⟨path ++ [⟨.right, root, colour, entry, left⟩], colour', left', entry', right', ?_⟩
      rw [plug_append]
      rfl

/-- The child of every node points back to it. -/
theorem Holds.parentLink {nilParent place : Address} (holds : Holds state tree nilParent 0)
    (found : state.memory place = some cell) (inTree : place ≠ nil) (side : Side)
    (hasChild : cell.child side ≠ nil) :
    ∃ child, state.memory (cell.child side) = some child ∧ child.parent = place := by
  have member := (Has.owns holds).holds place cell |>.mp found
  rcases Multiset.mem_add.mp member with inCells | inOthers
  · obtain ⟨path, colour, left, entry, right, rfl⟩ := exists_node_of_mem_cells inCells
    obtain ⟨near, far, same⟩ := side.exists_node place colour left entry right
    rw [same] at holds
    rw [holds.found] at found
    cases found
    rw [cellOf_child] at hasChild ⊢
    cases near with
    | leaf => exact absurd rfl hasChild
    | node child childColour childLeft childEntry childRight =>
      have childHolds : Holds state (plug (⟨side, place, colour, entry, far⟩ :: path)
        (.node child childColour childLeft childEntry childRight)) nilParent 0 := holds
      exact ⟨_, childHolds.found_plain, cellOf_parent⟩
  · rw [others, zero_add, Multiset.mem_singleton] at inOthers
    cases inOthers
    exact absurd rfl inTree

/-- A red-black search tree in memory, and the finite map it stands for. -/
structure Implements (cmp : K → K → Int) (dictionary : Dictionary K V) (tree : Shape K V)
    (state : RbTree K V) : Prop where
  laidOut : ∃ nilParent, Holds state tree nilParent 0
  parentLinks : ∀ place cell side, state.memory place = some cell → place ≠ nil →
    cell.child side ≠ nil →
      ∃ child, state.memory (cell.child side) = some child ∧ child.parent = place
  searchTree : SearchTree cmp tree
  rootBlack : tree.colour = .black
  noRedRed : tree.NoRedRed
  evenPaths : ∃ height, ∀ count ∈ tree.blackCounts, count = height
  content : tree.entries.Perm dictionary
  search : ∀ key, Runs (mapSearch cmp (some key)) state fun value final =>
    value = dictionary.lookup cmp key ∧ final = state
  size : Runs mapSize state fun size final => size = dictionary.length ∧ final = state

theorem StandsFor.implements (order : TotalOrder cmp) (stands : StandsFor cmp dictionary state) :
    ∃ tree, Implements cmp dictionary tree state := by
  obtain ⟨entries, represents, same⟩ := stands
  have represented := represents
  obtain ⟨⟨tree, nilParent, holds, rfl, total, balanced⟩, sorted⟩ := represents
  refine ⟨tree, ⟨nilParent, holds⟩, fun place cell side found inTree hasChild =>
    holds.parentLink found inTree side hasChild, sorted.searchTree, balanced.colour_eq,
    balanced.noRedRed, ⟨total, balanced.blackCounts⟩, same, fun key => ?_, ?_⟩
  · refine represented.runs_search order ?_ ?_
    · intro absent
      refine ⟨(lookup_of_absent fun entry member => ?_).symm, rfl⟩
      exact absent entry (same.mem_iff.mpr member)
    · intro entry member equal
      refine ⟨(lookup_of_unique (same.mem_iff.mp member) equal ?_).symm, rfl⟩
      intro other otherMember otherEqual
      obtain ⟨earlier, later, parts⟩ := append_of_mem member
      rw [parts] at sorted same
      obtain ⟨early, late⟩ := sorted.unique order equal
      rcases mem_append.mp (same.mem_iff.mpr otherMember) with inEarlier | inRest
      · exact absurd otherEqual (early other inEarlier)
      rcases mem_cons.mp inRest with alike | inLater
      · exact alike
      · exact absurd otherEqual (late other inLater)
  · exact holds.runs_size ⟨same.length_eq, rfl⟩

/-- Every sequence of operations on a new map returns the results of the same operations on the
empty finite map, and leaves a red-black search tree that stands for what they leave of it. -/
theorem performAll_implements (order : TotalOrder cmp) (type : MapType)
    (operations : List (Operation K V)) :
    Runs (performAll cmp type operations) rbtreeNew fun results state =>
      results = (applyAll cmp [] operations).1 ∧
        ∃ tree, Implements cmp (applyAll cmp [] operations).2 tree state := by
  refine ((standsFor_new cmp).runs_performAll order operations).mono ?_
  rintro results state ⟨same, stands⟩
  exact ⟨same, stands.implements order⟩

/-- A map from integers to numbers. -/
theorem performAll_implements_int :
    Runs (performAll rbtreeIntCmp .intInt
      [.insert (some 1) (some 10), .insert (some 2) (some 20), .insert (some 1) (some 30),
        .replace (some 2) (some 40), .remove (some 1), .remove (some 1)]) rbtreeNew
      fun results state => results = [true, true, false, true, true, false] ∧
        ∃ tree, Implements rbtreeIntCmp [(2, 40)] tree state :=
  performAll_implements compareSign_totalOrder .intInt _

/-- After every sequence of operations a search goes no deeper than twice the logarithm of the
number of entries. -/
theorem performAll_find_log2 (order : TotalOrder cmp) (type : MapType)
    (operations : List (Operation K V)) :
    Runs (performAll cmp type operations) rbtreeNew fun _ state => ∀ key, ∃ found,
      rbtreeFind cmp key state = some (found, state) ∧
        rbtreeRecursiveSearch cmp key (2 * ((applyAll cmp [] operations).2.length + 1).log2 + 1)
          state.root state = some (found, state) := by
  refine ((standsFor_new cmp).runs_performAll order operations).mono ?_
  rintro results state
    ⟨-, entries, ⟨⟨tree, nilParent, holds, rfl, total, balanced⟩, sorted⟩, same⟩ key
  obtain ⟨found, _, ran, rfl⟩ :=
    @Holds.runs_find _ _ _ key _ _ _ _ (fun _ final => state = final) order holds sorted
      fun _ _ => rfl
  have within : tree.depth < state.next := by
    have deep := tree.depth_le_length
    have room := holds.length_lt
    omega
  have shallow := balanced.depth_le_log2
  rw [same.length_eq] at shallow
  have root : state.root = ref tree := Has.root holds
  refine ⟨found, ran, Eq.trans ?_ ran⟩
  change _ = rbtreeRecursiveSearch cmp key state.next state.root state
  rw [root]
  exact @Holds.recursiveSearch_eq _ _ _ _ _ [] _ _ _ holds _ _ (Nat.lt_succ_of_le shallow) within

theorem performAll_find_log2_int :
    Runs (performAll rbtreeIntCmp .intInt [.insert (some 1) (some 10), .insert (some 2) (some 20)])
      rbtreeNew fun _ state => ∀ key, ∃ found,
        rbtreeFind rbtreeIntCmp key state = some (found, state) ∧
        rbtreeRecursiveSearch rbtreeIntCmp key 3 state.root state = some (found, state) :=
  performAll_find_log2 compareSign_totalOrder .intInt _

end Refinement

end Isulad.Map
