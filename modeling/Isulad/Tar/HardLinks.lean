import Mathlib.Data.List.Basic
import Mathlib.Logic.Function.Basic
import Isulad.Tar.Unpack

/-!
# Hard links in an archive

`tar_handler` of `util_archive.c` writes the files of a tree in the order in which they are read
from the disk. `update_entry_for_hardlink` remembers the path of each file with several links by
its inode number, as an `int`, and writes a later file with this number as a link to that path.
-/

namespace Isulad.Tar

open List Function

/-- A file of the tree as `archive_read_next_header` gives it, with the path that it has in the
archive. -/
structure DiskEntry where
  path : Text
  dev : Nat
  ino : Nat
  nlink : Nat
  isDir : Bool
  deriving DecidableEq

/-- `int ino`. -/
def DiskEntry.key (entry : DiskEntry) : BitVec 32 := .ofNat 32 entry.ino

/-- The map `map_link`. -/
abbrev LinkMap := BitVec 32 → Option Text

/-- `update_entry_for_hardlink`: what the entry is linked to, and the map. -/
def updateEntryForHardlink (mapLink : LinkMap) (entry : DiskEntry) : Option Text × LinkMap :=
  if entry.nlink ≤ 1 then (none, mapLink)
  else
    match mapLink entry.key with
    | none => (none, update mapLink entry.key (some entry.path))
    | some linkname => (some linkname, mapLink)

/-- The loop of `tar_handler`: what each entry is linked to. -/
def tarHandler : LinkMap → List DiskEntry → List (Option Text)
  | _, [] => []
  | mapLink, entry :: entries =>
    (updateEntryForHardlink mapLink entry).1 ::
      tarHandler (updateEntryForHardlink mapLink entry).2 entries

/-- Both are the same file, which is no directory. -/
def DiskEntry.SameFile (one other : DiskEntry) : Prop :=
  one.dev = other.dev ∧ one.ino = other.ino ∧ one.isDir = false

/-- The files of a tree in the order of the archive. Each has a path of its own; a file with two
paths counts two links at least and is no directory. -/
structure DiskTree where
  entries : List DiskEntry
  apart : (entries.map DiskEntry.path).Nodup
  counted : ∀ one ∈ entries, ∀ other ∈ entries, one ≠ other → one.dev = other.dev →
    one.ino = other.ino → one.isDir = false ∧ 1 < one.nlink

/-- An entry is a link to a file before it that is the same, or there is none. -/
def Linked (front : List DiskEntry) (entry : DiskEntry) : Option Text → Prop
  | none => ∀ other ∈ front, ¬ other.SameFile entry
  | some path => ∃ other ∈ front, other.path = path ∧ other.SameFile entry

/-- The archive has the links of the tree. -/
def DiskTree.LinksExactly (tree : DiskTree) : Prop :=
  ∀ i entry link, tree.entries[i]? = some entry →
    (tarHandler (fun _ => none) tree.entries)[i]? = some link →
    Linked (tree.entries.take i) entry link

/-- The first of the files with several links that have a key. -/
def firstOf (front : List DiskEntry) (key : BitVec 32) : Option DiskEntry :=
  front.find? fun other => decide (1 < other.nlink) && other.key == key

variable {mapLink : LinkMap} {front : List DiskEntry} {entry : DiskEntry}

/-- The map leads to the first file of each key. -/
def Leads (mapLink : LinkMap) (front : List DiskEntry) : Prop :=
  ∀ key, mapLink key = (firstOf front key).map DiskEntry.path

theorem firstOf_snoc (key : BitVec 32) : firstOf (front ++ [entry]) key = (firstOf front key).or
    (if 1 < entry.nlink ∧ entry.key = key then some entry else none) := by
  rw [firstOf, find?_append, find?_singleton, ← firstOf]
  simp

theorem Leads.step (leads : Leads mapLink front) (entry : DiskEntry) :
    (updateEntryForHardlink mapLink entry).1 =
        (if 1 < entry.nlink then (firstOf front entry.key).map DiskEntry.path else none) ∧
      Leads (updateEntryForHardlink mapLink entry).2 (front ++ [entry]) := by
  unfold updateEntryForHardlink Leads
  simp only [firstOf_snoc]
  by_cases several : 1 < entry.nlink
  · rw [if_neg (Nat.not_le.mpr several), if_pos several, leads entry.key]
    cases known : firstOf front entry.key with
    | none =>
      refine ⟨rfl, fun key => ?_⟩
      dsimp only [Option.map_none]
      by_cases same : entry.key = key
      · rw [← same, update_self, known, if_pos ⟨several, rfl⟩]
        rfl
      · rw [update_of_ne (Ne.symm same), leads, if_neg fun both => same both.2, Option.or_none]
    | some first =>
      refine ⟨rfl, fun key => ?_⟩
      dsimp only [Option.map_some]
      by_cases same : entry.key = key
      · rw [leads, ← same, known, Option.some_or]
      · rw [leads, if_neg fun both => same both.2, Option.or_none]
  · rw [if_pos (Nat.not_lt.mp several), if_neg several]
    refine ⟨rfl, fun key => ?_⟩
    rw [if_neg fun both => several both.1, Option.or_none]
    exact leads key

/-- Every entry is linked to the first file before it with its key. -/
theorem getElem?_tarHandler (leads : Leads mapLink front) (entries : List DiskEntry) (i : Nat) :
    (tarHandler mapLink entries)[i]? = entries[i]?.map fun entry =>
      if 1 < entry.nlink then (firstOf (front ++ entries.take i) entry.key).map DiskEntry.path
      else none := by
  induction entries generalizing mapLink front i with
  | nil => rfl
  | cons entry entries ih =>
    obtain ⟨link, leads⟩ := leads.step entry
    cases i with
    | zero => simp [tarHandler, link]
    | succ i =>
      rw [tarHandler, getElem?_cons_succ, getElem?_cons_succ, ih leads]
      simp

theorem leads_nil : Leads (fun _ => none) [] := fun _ => rfl

theorem firstOf_eq_some {key : BitVec 32} {first : DiskEntry}
    (found : firstOf front key = some first) :
    first ∈ front ∧ 1 < first.nlink ∧ first.key = key := by
  have condition := find?_some found
  simp only [Bool.and_eq_true, decide_eq_true_eq, beq_iff_eq] at condition
  exact ⟨mem_of_find?_eq_some found, condition⟩

theorem exists_firstOf {other : DiskEntry} (member : other ∈ front) (several : 1 < other.nlink) :
    ∃ first, firstOf front other.key = some first := by
  refine Option.isSome_iff_exists.mp (find?_isSome.mpr ⟨other, member, ?_⟩)
  simp [several]

/-- The first file of a key is before all others. -/
theorem firstOf_take {entries : List DiskEntry} {i j : Nat} {first other : DiskEntry}
    (below : j < i) (there : entries[j]? = some other) (several : 1 < other.nlink)
    (differs : other ≠ first) (found : firstOf (entries.take i) other.key = some first) :
    firstOf (entries.take j) other.key = some first := by
  have upTo : (entries.take i).take (j + 1) = entries.take j ++ [other] := by
    rw [take_take, Nat.min_eq_left below, take_add_one, there]
    rfl
  rw [← take_append_drop (j + 1) (entries.take i), upTo, firstOf, find?_append, ← firstOf,
    firstOf_snoc, if_pos ⟨several, rfl⟩] at found
  cases before : firstOf (entries.take j) other.key with
  | none =>
    rw [before] at found
    exact absurd (Option.some.inj found) differs
  | some known =>
    rw [before] at found
    exact found

theorem pairwise_iff_take {R : DiskEntry → DiskEntry → Prop} {entries : List DiskEntry} :
    entries.Pairwise R ↔
      ∀ i entry, entries[i]? = some entry → ∀ other ∈ entries.take i, R other entry := by
  rw [pairwise_iff_getElem]
  constructor
  · intro all i entry here other member
    obtain ⟨j, below, rfl⟩ := mem_take_iff_getElem.mp member
    obtain ⟨inside, rfl⟩ := List.getElem?_eq_some_iff.mp here
    exact all j i (by omega) inside (by omega)
  · intro all j i _ inside less
    exact all i _ (getElem?_eq_getElem inside) _ (mem_take_iff_getElem.mpr ⟨j, by omega, rfl⟩)

namespace DiskTree

variable {tree : DiskTree} {i : Nat}

theorem linksExactly_iff_firstOf : tree.LinksExactly ↔
    ∀ i entry, tree.entries[i]? = some entry → Linked (tree.entries.take i) entry
      (if 1 < entry.nlink then (firstOf (tree.entries.take i) entry.key).map DiskEntry.path
        else none) := by
  refine forall₂_congr fun i entry => ?_
  rw [getElem?_tarHandler leads_nil, nil_append]
  constructor
  · intro linked here
    exact linked _ here (by rw [here]; rfl)
  · intro linked link here same
    rw [here] at same
    cases same
    exact linked here

/-- Where the link is right, the first file of the key is the same file. -/
theorem sameFile_firstOf {first : DiskEntry} (several : 1 < entry.nlink)
    (linked : Linked (tree.entries.take i) entry
      (if 1 < entry.nlink then (firstOf (tree.entries.take i) entry.key).map DiskEntry.path
        else none))
    (found : firstOf (tree.entries.take i) entry.key = some first) : first.SameFile entry := by
  rw [if_pos several, found] at linked
  obtain ⟨file, among, path, same⟩ := linked
  have inside := mem_of_mem_take (firstOf_eq_some found).1
  rwa [inj_on_of_nodup_map tree.apart (mem_of_mem_take among) inside path] at same

/-- A file that was there before counts several links, so there is a first one. -/
theorem not_sameFile_of_firstOf (here : tree.entries[i]? = some entry)
    (none : 1 < entry.nlink → firstOf (tree.entries.take i) entry.key = none) :
    ∀ other ∈ tree.entries.take i, ¬ other.SameFile entry := by
  intro other member same
  have apart := pairwise_iff_take.mp (Nodup.of_map _ tree.apart) i entry here other member
  have inside := mem_of_getElem? here
  have several := (tree.counted entry inside other (mem_of_mem_take member) apart.symm
    same.1.symm same.2.1.symm).2
  obtain ⟨first, known⟩ := exists_firstOf member
    (tree.counted other (mem_of_mem_take member) entry inside apart same.1 same.2.1).2
  rw [DiskEntry.key, same.2.1, ← DiskEntry.key, none several] at known
  cases known

/-- Two files on two devices, with one inode number, and each with a link outside the tree. -/
def twoDevices : DiskTree where
  entries := [⟨['a'], 1, 7, 2, false⟩, ⟨['b'], 2, 7, 2, false⟩]
  apart := by decide
  counted := by decide

end DiskTree

end Isulad.Tar
