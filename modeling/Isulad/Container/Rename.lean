import Isulad.Container.ContainersStore
import Isulad.Std.Trace

/-!
# Renaming a container

`container_rename` of `execution_information.c` enters the new name in the index and takes the old
one out. When the container cannot be saved, the names are exchanged again; the index is not
locked in between.
-/

namespace Isulad.Container

open Option Function Isulad.Std Index Machine

/-- The name index, and the name that each container has in its config. -/
structure Naming where
  names : Index Text Text
  recorded : Text → Option Text

/-- `container_name_index_rename`. -/
def nameIndexRename (names : Index Text Text) (newName oldName id : Text) :
    Bool × Index Text Text :=
  match names.insert newName id with
  | none => (false, names)
  | some entered =>
    match entered.remove oldName with
    | none => (false, entered)
    | some renamed => (true, renamed)

namespace Naming

variable (naming : Naming)

/-- `container_rename` until the container is saved. `removing`: the container is dead or being
removed. -/
def beginRename (removing : Bool) (id oldName newName : Text) : Bool × Naming :=
  if oldName = newName then (false, naming)
  else if removing then (false, naming)
  else
    match nameIndexRename naming.names newName oldName id with
    | (false, names) => (false, { naming with names })
    | (true, names) => (true, ⟨names, update naming.recorded id (some newName)⟩)

/-- `restore_names_at_fail`. -/
def restoreNamesAtFail (id oriName newName : Text) : Naming :=
  ⟨(nameIndexRename naming.names oriName newName id).2,
    update naming.recorded id (some oriName)⟩

/-- `container_rename` of a container with this name. `saves`: `container_to_disk` succeeds. -/
def containerRename (removing saves : Bool) (id oldName newName : Text) : Bool × Naming :=
  match naming.beginRename removing id oldName newName with
  | (false, next) => (false, next)
  | (true, next) =>
    if saves then (true, next) else (false, next.restoreNamesAtFail id oldName newName)

/-- A name given to a container that gives back its old one. -/
def Exchanged (names after : Index Text Text) (newName oldName id : Text) : Prop :=
  ∀ name, after.search name =
    if name = newName then some id else if name = oldName then none else names.search name

/-- A rename that fails changes nothing; one that succeeds exchanges the names. -/
def Atomic (removing saves : Bool) (id oldName newName : Text) : Prop :=
  let result := naming.containerRename removing saves id oldName newName
  (result.1 = false → (∀ name, result.2.names.search name = naming.names.search name) ∧
    result.2.recorded = naming.recorded) ∧
  (result.1 = true → result.2.recorded = update naming.recorded id (some newName) ∧
    Exchanged naming.names result.2.names newName oldName id)

/-- Every name leads to the container that has it, and every container is found by its name. -/
def Paired : Prop :=
  ∀ name id, naming.names.search name = some id ↔ naming.recorded id = some name

variable {names : Index Text Text} {naming after : Naming} {id oldName newName : Text}

theorem nameIndexRename_of_taken (taken : names.search newName ≠ none) :
    nameIndexRename names newName oldName id = (false, names) := by
  rw [nameIndexRename, insert_of_present taken]

/-- The new name is entered even if the old one is not there. -/
theorem nameIndexRename_of_free (id : Text) (free : names.search newName = none)
    (differ : oldName ≠ newName) :
    ∃ after, nameIndexRename names newName oldName id = ((names.search oldName).isSome, after) ∧
      Exchanged names after newName oldName id := by
  obtain ⟨entered, inserted⟩ : ∃ entered, names.insert newName id = some entered :=
    ⟨_, insert_of_absent free⟩
  have found : ∀ name, entered.search name = if name = newName then some id
      else names.search name := fun name => search_insert inserted
  unfold nameIndexRename Exchanged
  rw [inserted]
  dsimp only
  cases removed : entered.remove oldName with
  | none =>
    have missing : names.search oldName = none := by
      by_contra present
      rw [Index.remove, found, if_neg differ, if_neg present] at removed
      cases removed
    refine ⟨entered, by rw [missing]; rfl, fun name => ?_⟩
    rw [found]
    by_cases same : name = oldName <;> simp [same, differ, missing]
  | some renamed =>
    have present := present_of_remove removed
    rw [found, if_neg differ] at present
    refine ⟨renamed, by rw [isSome_iff_ne_none.mpr present], fun name => ?_⟩
    rw [search_remove removed, found]
    by_cases same : name = oldName <;> simp [same, differ]

/-- Nothing happens unless the names differ, the container stays and the new name is free. -/
theorem beginRename_of_refused {removing : Bool}
    (refused : oldName = newName ∨ removing = true ∨ naming.names.search newName ≠ none) :
    naming.beginRename removing id oldName newName = (false, naming) := by
  unfold beginRename
  split
  · rfl
  split
  · rfl
  · rw [nameIndexRename_of_taken (by simp_all)]

theorem beginRename_of_free (id : Text) (differ : oldName ≠ newName)
    (free : naming.names.search newName = none) :
    ∃ after, Exchanged naming.names after newName oldName id ∧
      naming.beginRename false id oldName newName =
        if (naming.names.search oldName).isSome then
          (true, ⟨after, update naming.recorded id (some newName)⟩)
        else (false, { naming with names := after }) := by
  obtain ⟨after, renamed, found⟩ := nameIndexRename_of_free id free differ
  refine ⟨after, found, ?_⟩
  rw [beginRename, if_neg differ, if_neg Bool.false_ne_true, renamed]
  cases (naming.names.search oldName).isSome <;> rfl

theorem restoreNamesAtFail_of_free (id : Text) (free : naming.names.search oldName = none)
    (differ : oldName ≠ newName) :
    Exchanged naming.names (naming.restoreNamesAtFail id oldName newName).names oldName newName
      id := by
  obtain ⟨after, renamed, found⟩ := nameIndexRename_of_free id free differ.symm
  rw [restoreNamesAtFail, renamed]
  exact found

/-- A request is atomic if it is refused at once, or if the old name is in the index, for this
container if it may have to be put back. -/
theorem atomic_iff (newName : Text) (removing saves : Bool)
    (has : naming.recorded id = some oldName) :
    naming.Atomic removing saves id oldName newName ↔
      (oldName ≠ newName → removing = false → naming.names.search newName = none →
        naming.names.search oldName = some id ∨
          saves = true ∧ naming.names.search oldName ≠ none) := by
  by_cases refused : oldName = newName ∨ removing = true ∨ naming.names.search newName ≠ none
  · rw [Atomic, containerRename, beginRename_of_refused refused]
    refine iff_of_true ⟨fun _ => ⟨fun _ => rfl, rfl⟩, by simp⟩ fun differ stays free => ?_
    rcases refused with same | removes | taken
    · exact absurd same differ
    · cases stays.symm.trans removes
    · exact absurd free taken
  simp at refused
  obtain ⟨differ, rfl, free⟩ := refused
  obtain ⟨after, found, begun⟩ := beginRename_of_free id differ free
  rw [Atomic, containerRename, begun]
  cases old : naming.names.search oldName with
  | none =>
    -- the new name stays in the index
    refine iff_of_false (fun atomic => ?_) (by simp [free, differ])
    have entered := (atomic.1 rfl).1 newName
    dsimp only [isSome_none] at entered
    rw [if_neg Bool.false_ne_true, found, if_pos rfl, free] at entered
    cases entered
  | some owner =>
    rw [isSome_some, if_pos rfl]
    cases saves with
    | true => exact iff_of_true ⟨by simp, fun _ => ⟨rfl, found⟩⟩ (by simp)
    | false =>
      have gone : after.search oldName = none := by rw [found, if_neg differ, if_pos rfl]
      have restored := @restoreNamesAtFail_of_free
        ⟨after, update naming.recorded id (some newName)⟩ _ _ id gone differ
      dsimp only
      rw [if_neg Bool.false_ne_true]
      constructor
      · intro atomic _ _ _
        have same := (atomic.1 rfl).1 oldName
        rw [restored, if_pos rfl] at same
        exact .inl (old ▸ same.symm)
      · intro fair
        have mine : some owner = some id := by simpa using fair differ rfl free
        refine ⟨fun _ => ⟨fun name => ?_, by simp [restoreNamesAtFail, ← has]⟩, by simp⟩
        rw [restored]
        by_cases isOld : name = oldName
        · rw [if_pos isOld, isOld, old, mine]
        by_cases isNew : name = newName
        · rw [if_neg isOld, if_pos isNew, isNew, free]
        · rw [if_neg isOld, if_neg isNew, found, if_neg isNew, if_neg isOld]

/-- A container changes its name, or gets or loses it. -/
theorem Paired.update (paired : naming.Paired) {name : Option Text}
    (free : ∀ new, name = some new → naming.names.search new = none)
    (found : ∀ other, after.names.search other = if name = some other then some id
      else if naming.recorded id = some other then none else naming.names.search other)
    (recorded : after.recorded = update naming.recorded id name) : after.Paired := by
  intro other owner
  rw [found, recorded]
  by_cases same : owner = id
  · subst same
    by_cases isName : name = some other
    · simp [isName]
    · by_cases had : naming.recorded owner = some other <;> simp [isName, had, paired other owner]
  · have notId : id ≠ owner := fun equal => same equal.symm
    rw [update_of_ne same, ← paired other owner]
    by_cases isName : name = some other
    · simp [isName, free other isName, notId]
    by_cases had : naming.recorded id = some other
    · simp [isName, had, (paired other id).mpr had, notId]
    · rw [if_neg isName, if_neg had]

theorem Paired.exchange (paired : naming.Paired) (had : naming.recorded id = some oldName)
    (free : naming.names.search newName = none)
    (found : Exchanged naming.names after.names newName oldName id)
    (recorded : after.recorded = Function.update naming.recorded id (some newName)) :
    after.Paired :=
  paired.update (by rintro _ ⟨⟩; exact free) (fun other => by simp [found other, had, eq_comm])
    recorded

end Naming

/-- The names, and the renames that are about to save their container: its old name and its
new one. -/
structure Renaming where
  naming : Naming
  saving : Text → Option (Text × Text)

/-- What the daemon does. A rename ends with the save, and its container is locked until then. -/
inductive NameEvent where
  | create (id name : Text)
  | rename (id newName : Text) (removing : Bool)
  | save (id : Text) (saves : Bool)
  | remove (id : Text)

namespace Renaming

/-- The names after an event, if it is possible. -/
def step (state : Renaming) : NameEvent → Option Renaming
  | .create id name =>
    match state.naming.recorded id, state.naming.names.insert name id with
    | none, some names =>
      some { state with naming := ⟨names, update state.naming.recorded id (some name)⟩ }
    | _, _ => none
  | .rename id newName removing =>
    match state.saving id, state.naming.recorded id with
    | none, some oldName =>
      match state.naming.beginRename removing id oldName newName with
      | (false, naming) => some { state with naming }
      | (true, naming) => some ⟨naming, update state.saving id (some (oldName, newName))⟩
    | _, _ => none
  | .save id saves =>
    (state.saving id).map fun (oldName, newName) =>
      ⟨if saves then state.naming else state.naming.restoreNamesAtFail id oldName newName,
        update state.saving id none⟩
  | .remove id =>
    match state.saving id, state.naming.recorded id with
    | none, some name =>
      (state.naming.names.remove name).map fun names =>
        { state with naming := ⟨names, update state.naming.recorded id none⟩ }
    | _, _ => none

/-- Runs of a daemon that begins without containers. -/
def machine : Machine Renaming NameEvent := ⟨⟨⟨.empty, fun _ => none⟩, fun _ => none⟩, step⟩

/-- A save that fails finds the old name free: no other container has taken it meanwhile. -/
def Untaken (state : Renaming) : NameEvent → Prop
  | .save id false => ∀ pair ∈ state.saving id, state.naming.names.search pair.1 = none
  | _ => True

/-- A container that is being renamed has its new name. -/
structure Steady (state : Renaming) : Prop where
  paired : state.naming.Paired
  renamed : ∀ id, ∀ pair ∈ state.saving id,
    pair.1 ≠ pair.2 ∧ state.naming.recorded id = some pair.2

variable {state next : Renaming} {id : Text}

/-- The containers that are being renamed keep their names while another one gets a new name. -/
theorem Steady.others (steady : state.Steady) (idle : state.saving id = none)
    (name : Option Text) (other : Text) (pair : Text × Text) (here : pair ∈ state.saving other) :
    pair.1 ≠ pair.2 ∧
      update state.naming.recorded id name other = some pair.2 := by
  have apart : other ≠ id := by
    rintro rfl
    cases idle.symm.trans here
  rw [update_of_ne apart]
  exact steady.renamed other pair here

/-- One event keeps the names paired, unless a failed save finds its old name taken. -/
theorem Steady.step (steady : state.Steady) {event : NameEvent}
    (taken : state.step event = some next) :
    (state.Untaken event → next.Steady) ∧ (¬ state.Untaken event → ¬ next.naming.Paired) := by
  have paired := steady.paired
  cases event with
  | create id name =>
    refine ⟨fun _ => ?_, fun slip => absurd trivial slip⟩
    rw [Renaming.step] at taken
    split at taken
    next fresh inserted =>
      cases taken
      have idle : state.saving id = none := by
        by_contra busy
        obtain ⟨pair, here⟩ := ne_none_iff_exists'.mp busy
        cases fresh.symm.trans (steady.renamed id pair here).2
      refine ⟨paired.update ?_ (fun other => ?_) rfl, steady.others idle _⟩
      · rintro _ ⟨⟩
        exact absent_of_insert inserted
      · simp [search_insert inserted, fresh, eq_comm]
    · cases taken
  | rename id newName removing =>
    refine ⟨fun _ => ?_, fun slip => absurd trivial slip⟩
    rw [Renaming.step] at taken
    split at taken
    next oldName idle had =>
      by_cases refused : oldName = newName ∨ removing = true ∨
          state.naming.names.search newName ≠ none
      · rw [Naming.beginRename_of_refused refused] at taken
        cases taken
        exact steady
      · simp at refused
        obtain ⟨differ, rfl, free⟩ := refused
        obtain ⟨after, found, begun⟩ := Naming.beginRename_of_free id differ free
        rw [begun, (paired oldName id).mpr had, isSome_some, if_pos rfl] at taken
        cases taken
        refine ⟨paired.exchange had free found rfl, fun other pair here => ?_⟩
        dsimp only at here ⊢
        by_cases same : other = id
        · subst same
          rw [update_self] at here ⊢
          cases here
          exact ⟨differ, rfl⟩
        · rw [update_of_ne same] at here
          exact steady.others idle _ other pair here
    · cases taken
  | save id saves =>
    obtain ⟨⟨oldName, newName⟩, saving, rfl⟩ := map_eq_some_iff.mp taken
    obtain ⟨differ, has⟩ : oldName ≠ newName ∧ _ = some newName := steady.renamed id _ saving
    have rest : ∀ other, ∀ pair ∈ update state.saving id none other,
        other ≠ id ∧ pair ∈ state.saving other := by
      intro other pair here
      rw [update_apply] at here
      split at here
      · cases here
      next differs => exact ⟨differs, here⟩
    cases saves with
    | true =>
      refine ⟨fun _ => ⟨paired, fun other pair here => ?_⟩, fun slip => absurd trivial slip⟩
      exact steady.renamed other pair (rest other pair here).2
    | false =>
      refine ⟨fun untaken => ?_, fun slip after => slip fun pair here => ?_⟩
      · have free := untaken _ saving
        have found := Naming.restoreNamesAtFail_of_free id free differ
        refine ⟨paired.exchange has free found rfl, fun other pair here => ?_⟩
        obtain ⟨apart, here⟩ := rest other pair here
        have other := steady.renamed other pair here
        exact ⟨other.1, (update_of_ne apart _ _).trans other.2⟩
      · cases saving.symm.trans here
        by_contra taken
        -- the old name is another container's, and this one has it in its config
        have owner := (after oldName id).mpr (update_self _ _ _)
        simp only [Naming.restoreNamesAtFail, Naming.nameIndexRename_of_taken taken,
          if_neg Bool.false_ne_true] at owner
        cases has.symm.trans ((paired oldName id).mp owner)
        exact differ rfl
  | remove id =>
    refine ⟨fun _ => ?_, fun slip => absurd trivial slip⟩
    rw [Renaming.step] at taken
    split at taken
    next name idle had =>
      obtain ⟨names, removed, rfl⟩ := map_eq_some_iff.mp taken
      refine ⟨paired.update (by rintro _ ⟨⟩) (fun other => ?_) rfl, steady.others idle _⟩
      simp [search_remove removed, had, eq_comm]
    · cases taken

theorem throughout_paired_iff {events : List NameEvent} (trace : machine.Trace events state) :
    (machine.Throughout (·.naming.Paired) events ↔ machine.Always Untaken events) ∧
      (machine.Throughout (·.naming.Paired) events → state.Steady) := by
  induction trace with
  | start =>
    have initially : machine.initial.Steady := ⟨fun name id => by simp [machine], by simp [machine]⟩
    refine ⟨iff_of_true (throughout_nil_iff.mpr initially.paired) ?_, fun _ => initially⟩
    simp [Machine.Always]
  | step prior taken ih =>
    obtain ⟨equivalent, steady⟩ := ih
    rw [throughout_snoc_iff (prior.step taken), always_snoc_iff prior]
    have onward := fun all => (steady all).step taken
    -- While the names are paired, a name that is taken away unpairs them.
    have kept := fun all after => not_not.mp fun slip => (onward all).2 slip after
    refine ⟨⟨?_, ?_⟩, ?_⟩
    · rintro ⟨all, after⟩
      exact ⟨equivalent.mp all, kept all after⟩
    · rintro ⟨always, untaken⟩
      exact ⟨equivalent.mpr always, ((onward (equivalent.mpr always)).1 untaken).paired⟩
    · rintro ⟨all, after⟩
      exact (onward all).1 (kept all after)

/-- When a rename is atomic, and in which runs every name leads to one container and every
container has one name. -/
theorem renames_iff {events : List NameEvent} (trace : machine.Trace events state) :
    (∀ (naming : Naming) (removing saves : Bool) (id oldName newName : Text),
      naming.recorded id = some oldName →
      (naming.Atomic removing saves id oldName newName ↔
        (oldName ≠ newName → removing = false → naming.names.search newName = none →
          naming.names.search oldName = some id ∨
            saves = true ∧ naming.names.search oldName ≠ none))) ∧
    (machine.Throughout (·.naming.Paired) events ↔ machine.Always Untaken events) :=
  ⟨fun _ removing saves _ _ newName has => Naming.atomic_iff newName removing saves has,
    (throughout_paired_iff trace).1⟩

/-- While a container is renamed from `a` to `b`, another one is given the name `a`; then the save
fails. -/
def takenMeanwhile : List NameEvent :=
  [.create ['1'] ['a'], .rename ['1'] ['b'] false, .create ['2'] ['a'], .save ['1'] false]

theorem renames_iff_takenMeanwhile :
    ∃ state, machine.Trace takenMeanwhile state ∧
      (machine.Throughout (·.naming.Paired) takenMeanwhile ↔
        machine.Always Untaken takenMeanwhile) :=
  ⟨_, trace_of_replay rfl, (renames_iff (trace_of_replay rfl)).2⟩

/-- A rename fails and leaves the new name in an index without the old one, and two containers
have the name `a` after a run. -/
theorem renames_slip :
    (Naming.containerRename ⟨Index.empty, fun _ => some ['a']⟩ false true ['1'] ['a'] ['b']).1 =
      false ∧
    (Naming.containerRename ⟨Index.empty, fun _ => some ['a']⟩ false true ['1'] ['a']
      ['b']).2.names.search ['b'] = some ['1'] ∧
    ∃ state, machine.Trace takenMeanwhile state ∧ ¬ state.naming.Paired := by
  refine ⟨by decide, by decide, _, trace_of_replay rfl, fun paired => ?_⟩
  exact absurd ((paired ['a'] ['1']).mpr (by decide)) (by decide)

end Renaming

end Isulad.Container
