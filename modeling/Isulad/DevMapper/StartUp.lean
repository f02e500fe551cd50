import Isulad.DevMapper.Allocation

/-!
# Start-up of the device set

What `init_metadata` makes of a disk. It registers the devices of the metadata files,
and when the transaction file is ahead of the pool it takes that transaction's device
away again, which is what `Disk.rolledBack` says about the disk alone.
-/

namespace Isulad.DevMapper

open DeviceTable List Isulad.Std Isulad.Std.Program

/-- The transaction that start-up rolls back: one that is ahead of the pool. -/
def Disk.pending (disk : Disk) : Option Transaction :=
  disk.transaction.filter fun transaction =>
    decide (disk.poolTransactionId < transaction.openTransactionId)

/-- The disk without the device of a pending transaction. -/
def Disk.rolledBack (disk : Disk) : Disk :=
  match disk.pending with
  | none => disk
  | some transaction =>
    { disk with
      files := disk.files.erase transaction.owner
      pool := disk.pool.filter (· ≠ transaction.deviceId) }

/-- A disk as the driver leaves it: each file records its own name and an id within the
limit, ids are not shared, and the transaction file names no other device's id. -/
structure GoodDisk (disk : Disk) : Prop where
  filed : ∀ {name info}, utilValidDeviceHash name = true → disk.files.find name = some info →
    info.hash = name ∧ info.deviceId ≤ maxDeviceId
  distinct : ∀ {name other info otherInfo}, utilValidDeviceHash name = true →
    utilValidDeviceHash other = true → disk.files.find name = some info →
    disk.files.find other = some otherInfo → info.deviceId = otherInfo.deviceId → name = other
  owned : ∀ {transaction name info}, disk.transaction = some transaction →
    utilValidDeviceHash name = true → disk.files.find name = some info →
    info.deviceId = transaction.deviceId → name = transaction.owner

theorem GoodDisk.empty {pool : List Nat} {poolTransactionId : Nat}
    {transaction : Option Transaction} :
    GoodDisk ⟨∅, transaction, pool, poolTransactionId⟩ where
  filed := by simp
  distinct := by simp
  owned := by simp

variable {world : World}

theorem Sound.goodDisk (sound : Sound world) : GoodDisk world.disk where
  filed := sound.filed
  distinct := fun valid otherValid present otherPresent same =>
    sound.distinct ⟨valid, .inr ⟨_, present, same⟩⟩ ⟨otherValid, .inr ⟨_, otherPresent, rfl⟩⟩
  owned := fun written valid present same =>
    sound.owned written ⟨valid, .inr ⟨_, present, same⟩⟩

/-- The store holds devices of the files, and the disk is as it was found. -/
structure Loaded (start : Disk) (world : World) : Prop where
  files : ∀ name, utilValidDeviceHash name = true →
    world.disk.files.find name = start.files.find name
  store : ∀ {name info}, world.devset.metaStore.find name = some info →
    utilValidDeviceHash name = true ∧ start.files.find name = some info ∧
      info.deviceId ≤ maxDeviceId
  transaction : world.disk.transaction = start.transaction
  pool : world.disk.pool = start.pool
  poolTransactionId : world.disk.poolTransactionId = start.poolTransactionId
  synced : world.devset.transactionId = start.poolTransactionId

section

variable {admits : Answer → Prop} {start : Disk} {world world' world'' : World} {name : Name}
  {readable : Prop} {names : List Name}

/-- One file is registered under its name. -/
theorem Loaded.stored {info : DeviceInfo} (loaded : Loaded start world)
    (valid : utilValidDeviceHash name = true) (present : start.files.find name = some info)
    (bound : info.deviceId ≤ maxDeviceId) : Loaded start (stored name info world) :=
  { loaded with
    store := by
      intro other known found
      rcases find_insert_eq_some.mp found with ⟨rfl, rfl⟩ | ⟨-, found⟩
      · exact ⟨valid, present, bound⟩
      · exact loaded.store found }

theorem Loaded.unfiled (loaded : Loaded start world) (invalid : utilValidDeviceHash name = false) :
    Loaded start (unfiled name world) := by
  refine { loaded with files := fun other valid => ?_ }
  change DeviceTable.find (world.disk.files.erase name) other = start.files.find other
  have different : other ≠ name := by
    rintro rfl
    rw [invalid] at valid
    cases valid
  rw [find_erase, if_neg different]
  exact loaded.files other valid

/-- What a walk over some names has done: it keeps what is loaded, it succeeds if the files
can be read, and then it has loaded every valid name. -/
structure Walked (readable : Prop) (start : Disk) (world : World) (names : List Name)
    (result : Bool) (world' : World) : Prop where
  loaded : Loaded start world'
  grows : ∀ {name info}, world.devset.metaStore.find name = some info →
    world'.devset.metaStore.find name = some info
  complete : result = true → ∀ name ∈ names, utilValidDeviceHash name = true →
    ∃ info, world'.devset.metaStore.find name = some info
  succeeds : readable → result = true

theorem Walked.failed (loaded : Loaded start world) (unreadable : ¬ readable) :
    Walked readable start world names false world :=
  ⟨loaded, id, nofun, fun read => absurd read unreadable⟩

/-- A walk over the rest, after one name has been dealt with. -/
theorem Walked.cons {result : Bool} (rest : Walked readable start world' names result world'')
    (grows : ∀ {other info}, world.devset.metaStore.find other = some info →
      world'.devset.metaStore.find other = some info)
    (first : utilValidDeviceHash name = true → ∃ info, world'.devset.metaStore.find name = some
      info) :
    Walked readable start world (name :: names) result world'' where
  loaded := rest.loaded
  grows := fun held => rest.grows (grows held)
  complete := by
    intro succeeded
    refine forall_mem_cons.mpr ⟨fun valid => ?_, rest.complete succeeded⟩
    obtain ⟨info, found⟩ := first valid
    exact ⟨info, rest.grows found⟩
  succeeds := rest.succeeds

theorem walked_deviceFileWalk (good : GoodDisk start) (names : List Name)
    (present : ∀ name ∈ names, ∃ info, start.files.find name = some info)
    (loaded : Loaded start world) :
    Ensures admits (deviceFileWalk names) (fun _ => True)
      (Walked (∀ answer, admits answer → answer.query = true) start world names) world := by
  induction names generalizing world with
  | nil =>
    refine ensures_pure ⟨loaded, id, fun _ other member => ?_, fun _ => rfl⟩
    cases member
  | cons name names ih =>
    have later : ∀ other ∈ names, ∃ info, start.files.find other = some info :=
      fun other member => present other (mem_cons_of_mem _ member)
    refine ensures_bind (ensures_call trivial fun answer admitted => ?_)
    refine ensures_ite (fun _ => ?_) (fun fails => ?_)
    · refine ensures_ite (fun valid => ?_) (fun invalid => ?_)
      · obtain ⟨known, filed⟩ := present name mem_cons_self
        refine ensures_bind (ensures_lookupDevice (utilValidDeviceHash_ne_nil valid) trivial
          ?_ ?_ ?_)
        · intro info found
          exact (ih later loaded).mono
            fun _ _ rest => rest.cons id fun _ => ⟨info, found⟩
        · intro _ unreadable
          obtain ⟨other, admitted', fails⟩ := unreadable known
            ((loaded.files name valid).trans filed) (good.filed valid filed).2
          refine ensures_pure (.failed loaded fun readable => ?_)
          rw [readable other admitted'] at fails
          cases fails
        · intro info absent found bound
          rw [loaded.files name valid] at found
          have named : info.hash = name := (good.filed valid found).1
          have sameInfo : DevMapper.loaded name info = info :=
            if_neg (named ▸ utilValidDeviceHash_ne_nil valid)
          rw [sameInfo]
          refine (ih later (loaded.stored valid found bound)).mono
            fun _ _ rest => rest.cons ?_ fun _ => ⟨info, find_stored⟩
          intro other held holds
          change DeviceTable.find (world.devset.metaStore.insert name info) other = some held
          have different : other ≠ name := by
            rintro rfl
            rw [absent] at holds
            cases holds
          rw [find_insert, if_neg different]
          exact holds
      · have skipped : utilValidDeviceHash name = true →
            ∃ info, world.devset.metaStore.find name = some info := by
          intro valid
          rw [invalid] at valid
          cases valid
        refine ensures_bind (ensures_removeMetadata trivial (fun _ _ _ => ?_) ?_)
        · exact (ih later loaded).mono fun _ _ rest => rest.cons id skipped
        · exact (ih later (loaded.unfiled invalid)).mono
            fun _ _ rest => rest.cons id skipped
    · refine ensures_pure (.failed loaded fun readable => ?_)
      rw [readable answer admitted] at fails
      cases fails

/-- Every device of the files is in the store. -/
def Complete (start : Disk) (world : World) : Prop :=
  ∀ {name info}, utilValidDeviceHash name = true → start.files.find name = some info →
    world.devset.metaStore.find name = some info

theorem Walked.total (walked : Walked readable start world start.files.keys true world') :
    Complete start world' := by
  intro name info valid present
  have member : name ∈ start.files.keys :=
    AList.mem_keys.mp (mem_iff.mpr ⟨info, present⟩)
  obtain ⟨known, found⟩ := walked.complete rfl name member valid
  obtain ⟨-, same, -⟩ := walked.loaded.store found
  rw [present] at same
  cases same
  exact found

/-- The devices are loaded and their ids are marked. -/
structure Indexed (start : Disk) (world : World) : Prop where
  loaded : Loaded start world
  complete : Complete start world
  marked : ∀ {name info}, world.devset.metaStore.find name = some info →
    Marked world.devset.deviceIdMap info.deviceId

theorem indexed_constructDeviceIdMap (loaded : Loaded start world)
    (complete : Complete start world) :
    Ensures admits constructDeviceIdMap (fun _ => True) (fun _ => Indexed start) world := by
  refine ensures_bind (ensures_read ?_)
  -- the ids of the entries that are no longer ahead are marked
  have pass := @ensures_forEach _ _ _ admits (fun _ => True) world
    (fun rest world' => Loaded start world' ∧ Complete start world' ∧
      (∀ hash ∈ rest, ∃ info, world'.devset.metaStore.find hash = some info) ∧
      ∀ {name info}, world'.devset.metaStore.find name = some info →
        name ∈ rest ∨ Marked world'.devset.deviceIdMap info.deviceId)
  refine .mono (pass ⟨loaded, complete, ?_, ?_⟩ ?_) ?_
  · exact fun hash member => mem_iff.mp (AList.mem_keys.mpr member)
  · exact fun found => .inl (AList.mem_keys.mp (mem_iff.mpr ⟨_, found⟩))
  · rintro hash rest world' ⟨loaded', complete', known, marked⟩
    obtain ⟨info, found⟩ := known hash mem_cons_self
    refine ensures_bind (ensures_lookupDevice_known found ?_)
    refine ensures_change trivial ⟨?_, complete', ?_, ?_⟩
    · exact { loaded' with }
    · exact fun other member => known other (mem_cons_of_mem _ member)
    · intro name other held
      rcases marked held with member | already
      · rcases mem_cons.mp member with rfl | later
        · change world'.devset.metaStore.find name = some other at held
          rw [found] at held
          cases held
          exact .inr (marked_markDeviceIdUsed.mpr (.inl rfl))
        · exact .inl later
      · exact .inr (marked_markDeviceIdUsed.mpr (.inr already))
  · rintro _ world' ⟨loaded', complete', -, marked⟩
    refine ⟨loaded', complete', fun found => (marked found).resolve_left ?_⟩
    intro member
    cases member

theorem indexed_countDeletedDevices (indexed : Indexed start world) :
    Ensures admits countDeletedDevices (fun _ => True) (fun _ => Indexed start) world := by
  refine ensures_bind (ensures_read ?_)
  have pass := @ensures_forEach _ _ _ admits (fun _ => True) world
    (fun rest world' => Indexed start world' ∧
      ∀ hash ∈ rest, ∃ info, world'.devset.metaStore.find hash = some info)
  refine .mono (pass ⟨indexed, ?_⟩ ?_) fun _ _ holds => holds.1
  · exact fun hash member => mem_iff.mp (AList.mem_keys.mpr member)
  · rintro hash rest world' ⟨indexed', known⟩
    obtain ⟨info, found⟩ := known hash mem_cons_self
    have later : ∀ other ∈ rest, ∃ info, world'.devset.metaStore.find other = some info :=
      fun other member => known other (mem_cons_of_mem _ member)
    refine ensures_bind (ensures_lookupDevice_known found ?_)
    refine ensures_ite (fun _ => ensures_change trivial ⟨?_, later⟩)
      (fun _ => ensures_pure ⟨indexed', later⟩)
    exact { indexed' with loaded := { indexed'.loaded with } }

/-- The devices found on a good disk satisfy the invariant. -/
theorem Indexed.sound (good : GoodDisk start) (indexed : Indexed start world) : Sound world := by
  have onFile : ∀ {name deviceId}, Knows world name deviceId →
      ∃ info, utilValidDeviceHash name = true ∧ start.files.find name = some info ∧
        info.deviceId = deviceId := by
    rintro name deviceId ⟨valid, ⟨info, found, same⟩ | ⟨info, found, same⟩⟩
    · exact ⟨info, valid, (indexed.loaded.store found).2.1, same⟩
    · rw [indexed.loaded.files name valid] at found
      exact ⟨info, valid, found, same⟩
  exact
    { stored := by
        intro name info found
        obtain ⟨valid, present, bound⟩ := indexed.loaded.store found
        exact ⟨valid, (good.filed valid present).1, bound⟩
      filed := by
        intro name info valid found
        rw [indexed.loaded.files name valid] at found
        exact good.filed valid found
      marked := by
        intro name deviceId knows
        obtain ⟨info, valid, present, rfl⟩ := onFile knows
        exact indexed.marked (indexed.complete valid present)
      distinct := by
        intro name other deviceId knows knowsOther
        obtain ⟨info, valid, present, same⟩ := onFile knows
        obtain ⟨otherInfo, otherValid, otherPresent, otherSame⟩ := onFile knowsOther
        exact good.distinct valid otherValid present otherPresent (same.trans otherSame.symm)
      owned := by
        intro transaction written name knows
        rw [indexed.loaded.transaction] at written
        obtain ⟨info, valid, present, same⟩ := onFile knows
        exact good.owned written valid present same
      synced := by rw [indexed.loaded.synced, indexed.loaded.poolTransactionId] }

variable {transaction : Transaction} {accepts : Prop} {opens : Nat}

/-- What start-up leaves: the invariant, the devices of the rolled back disk in the store,
and its devices in the pool if the pool accepts the messages. -/
structure Booted (accepts : Prop) (start : Disk) (world : World) : Prop where
  sound : Sound world
  store : ∀ name, world.devset.metaStore.find name =
    if utilValidDeviceHash name then start.rolledBack.files.find name else none
  pool : accepts → world.disk.pool = start.rolledBack.pool

/-- Before the transaction is looked at, the store holds the files with valid names. -/
theorem Indexed.find_store (indexed : Indexed start world) (name : Name) :
    world.devset.metaStore.find name =
      if utilValidDeviceHash name then start.files.find name else none := by
  cases found : world.devset.metaStore.find name with
  | some info =>
    obtain ⟨valid, present, -⟩ := indexed.loaded.store found
    rw [if_pos valid, present]
  | none =>
    split
    next valid =>
      cases present : start.files.find name with
      | none => rfl
      | some info =>
        have stored := indexed.complete valid present
        rw [found] at stored
        cases stored
    · rfl

/-- Taking the device of a transaction out of the store, after its file has gone and its id
has been marked free. -/
theorem Sound.rolledBack (sound : Sound world)
    (owned : ∀ {name}, Knows world name transaction.deviceId → name = transaction.owner) :
    Sound (DevMapper.unstored transaction.owner (DevMapper.freed transaction.deviceId
      (DevMapper.unfiled transaction.owner world))) := by
  refine sound.forget (fun _ _ present => (find_erase_eq_some.mp present).2)
    (fun _ _ present => (find_erase_eq_some.mp present).2) ?_ rfl sound.synced
  intro name deviceId knows marks
  obtain ⟨different, known⟩ := @Knows.of_unregistered world _ _ _ knows
  refine marked_markDeviceIdFree.mpr ⟨?_, marks⟩
  rintro rfl
  exact different (owned known)

/-- What the rollback of a transaction has done to the store and to the pool. -/
structure RolledBack (accepts : Prop) (transaction : Transaction) (world world' : World) :
    Prop where
  sound : Sound world'
  store : ∀ name, world'.devset.metaStore.find name =
    if name = transaction.owner then none else world.devset.metaStore.find name
  pool : accepts → world'.disk.pool = world.disk.pool.filter (· ≠ transaction.deviceId)

section

variable (store : world'.devset.metaStore = world.devset.metaStore)
  (pool : accepts → world'.disk.pool = world.disk.pool.filter (· ≠ transaction.deviceId))
include store pool

/-- The end of the rollback: the store entry and the transaction file. -/
theorem rolledBack_finish (sound : Sound (unstored transaction.owner world')) :
    Ensures admits (metadataStoreRemove transaction.owner >>= fun _ =>
      removeTransactionMetadata >>= fun _ => pure ()) (fun _ => True)
      (fun _ => RolledBack accepts transaction world) world' := by
  have found : ∀ name, DeviceTable.find (world'.devset.metaStore.erase transaction.owner) name =
      if name = transaction.owner then none else world.devset.metaStore.find name := by
    intro name
    rw [find_erase, store]
  refine ensures_bind (ensures_metadataStoreRemove trivial (ensures_bind
    (ensures_call trivial fun answer _ => ?_)))
  cases answer.remove with
  | true => exact ensures_pure ⟨{ sound with owned := nofun }, found, pool⟩
  | false => exact ensures_pure ⟨sound, found, pool⟩

/-- The rollback behind the pool's message. -/
theorem rolledBack_metadata (sound : Sound world')
    (owned : ∀ {name}, Knows world' name transaction.deviceId → name = transaction.owner) :
    Ensures admits (rollbackMetadata ⟨opens, transaction.owner, transaction.deviceId⟩ >>= fun _ =>
      metadataStoreRemove transaction.owner >>= fun _ =>
      removeTransactionMetadata >>= fun _ => pure ()) (fun _ => True)
      (fun _ => RolledBack accepts transaction world) world' := by
  refine ensures_bind (ensures_bind (ensures_removeMetadata trivial (fun _ _ _ => ?_) ?_))
  · -- the file could not be removed, so the id stays marked
    exact ensures_pure (rolledBack_finish store pool sound.unstored)
  · exact ensures_markFree trivial (rolledBack_finish store pool (sound.rolledBack owned))

end

/-- The rollback takes the transaction's device out of the store and out of the pool. -/
theorem rolledBack_rollbackTransaction (sound : Sound world)
    (owned : ∀ {name}, Knows world name transaction.deviceId → name = transaction.owner) :
    Ensures admits (rollbackTransaction ⟨opens, transaction.owner, transaction.deviceId⟩)
      (fun _ => True)
      (fun _ => RolledBack (∀ answer, admits answer → answer.pool = .accept) transaction world)
      world := by
  refine ensures_bind (ensures_devDeleteDevice trivial ?_ ?_ ?_)
  · exact rolledBack_metadata rfl (fun _ => rfl) sound.destroyed owned
  all_goals
    intro answer admitted verdict
    refine rolledBack_metadata rfl (fun accepts => ?_) sound owned
    rw [accepts answer admitted] at verdict
    cases verdict

theorem Indexed.announced (indexed : Indexed start world) (transaction : Transaction) :
    Indexed start (DevMapper.announced transaction world) :=
  { indexed with loaded := { indexed.loaded with } }

/-- With no transaction pending, the files are the devices. -/
theorem Indexed.booted (good : GoodDisk start) (indexed : Indexed start world)
    (settled : start.pending = none) :
    Booted accepts start (DevMapper.announced transaction world) := by
  have same : start.rolledBack = start := by simp [Disk.rolledBack, settled]
  refine ⟨(indexed.sound good).announced, ?_, ?_⟩
  · rw [same]
    exact indexed.find_store
  · rw [same]
    exact fun _ => indexed.loaded.pool

/-- With a transaction pending, the rollback leaves the devices of the rolled back disk. -/
theorem RolledBack.booted (rolled : RolledBack accepts transaction world world')
    (indexed : Indexed start world) (ahead : start.pending = some transaction) :
    Booted accepts start world' := by
  have disk : start.rolledBack = { start with
      files := start.files.erase transaction.owner
      pool := start.pool.filter (· ≠ transaction.deviceId) } := by
    simp [Disk.rolledBack, ahead]
  refine ⟨rolled.sound, fun name => ?_, fun accepted => ?_⟩
  · rw [rolled.store, indexed.find_store, disk]
    rw [find_erase]
    split <;> simp
  · rw [rolled.pool accepted, indexed.loaded.pool, disk]

theorem booted_processPendingTransaction (good : GoodDisk start) (indexed : Indexed start world) :
    Ensures admits processPendingTransaction (fun _ => True)
      (fun result world' => ((∀ answer, admits answer → answer.query = true) → result = true) ∧
        (result = true →
          Booted (∀ answer, admits answer → answer.pool = .accept) start world')) world := by
  have sound := indexed.sound good
  have file := indexed.loaded.transaction
  refine ensures_bind (ensures_call trivial fun answer admitted => ?_)
  cases written : start.transaction with
  | none =>
    have settled : start.pending = none := by simp [Disk.pending, written]
    rw [written] at file
    simp [file]
    refine ensures_bind (ensures_read ?_)
    change Ensures admits (if world.devset.transactionId < world.devset.transactionId
      then _ else _) _ _ (announced _ world)
    rw [if_neg (Nat.lt_irrefl _)]
    exact ensures_pure ⟨fun _ => rfl, fun _ => indexed.booted good settled⟩
  | some transaction =>
    rw [written] at file
    simp only [file]
    cases readable : answer.query with
    | false =>
      refine ensures_pure ⟨fun reads => ?_, nofun⟩
      rw [reads answer admitted] at readable
      cases readable
    | true =>
      have named : (if transaction.deviceHash = [] then
          { transaction with deviceHash := baseName } else transaction) =
          ⟨transaction.openTransactionId, transaction.owner, transaction.deviceId⟩ := by
        unfold Transaction.owner
        split <;> rfl
      rw [named]
      refine ensures_bind (ensures_read ?_)
      change Ensures admits (if world.devset.transactionId < transaction.openTransactionId
        then _ else _) _ _ (announced _ world)
      rw [indexed.loaded.synced]
      by_cases ahead : start.poolTransactionId < transaction.openTransactionId
      · have pending : start.pending = some transaction := by simp [Disk.pending, written, ahead]
        rw [if_pos ahead]
        refine ensures_bind ((rolledBack_rollbackTransaction sound.announced ?_).mono ?_)
        · exact fun knows => sound.owned file knows
        · intro _ world' rolled
          have booted := rolled.booted (indexed.announced _) pending
          exact ensures_bind (ensures_change trivial (ensures_pure ⟨fun _ => rfl, fun _ =>
            { booted with sound := booted.sound.announced }⟩))
      · have settled : start.pending = none := by
          simp [Disk.pending, written, Nat.le_of_not_lt ahead]
        rw [if_neg ahead]
        exact ensures_pure ⟨fun _ => rfl, fun _ => indexed.booted good settled⟩

/-- Start-up registers the devices of the rolled back disk and establishes the invariant, and
it succeeds if the files can be read. -/
theorem booted_initMetadata {nextDeviceId baseFsSize : Nat} {userBaseSize : Bool}
    (good : GoodDisk start) :
    Ensures admits initMetadata (fun _ => True)
      (fun result world' => ((∀ answer, admits answer → answer.query = true) → result = true) ∧
        (result = true →
          Booted (∀ answer, admits answer → answer.pool = .accept) start world'))
      ⟨start, DeviceSet.fresh nextDeviceId baseFsSize userBaseSize⟩ := by
  refine ensures_bind (ensures_read (ensures_bind (ensures_call trivial fun answer admitted => ?_)))
  refine ensures_ite (fun _ => ?_) (fun fails => ?_)
  · refine ensures_bind (ensures_change trivial (ensures_bind ?_))
    refine (walked_deviceFileWalk good start.files.keys ?_ ?_).mono ?_
    · exact fun name member => mem_iff.mp (AList.mem_keys.mpr member)
    · refine ⟨fun _ _ => rfl, ?_, rfl, rfl, rfl, rfl⟩
      intro name info found
      cases found
    · intro result world' walked
      refine ensures_ite (fun succeeded => ?_) (fun failed => ?_)
      · rw [succeeded] at walked
        refine ensures_bind ((indexed_constructDeviceIdMap walked.loaded walked.total).mono ?_)
        intro _ world'' indexed
        refine ensures_bind ((indexed_countDeletedDevices indexed).mono ?_)
        intro _ world''' counted
        exact booted_processPendingTransaction good counted
      · refine ensures_pure ⟨fun readable => ?_, nofun⟩
        rw [walked.succeeds readable] at failed
        cases failed
  · refine ensures_pure ⟨fun readable => ?_, nofun⟩
    rw [readable answer admitted] at fails
    cases fails

variable {answer : Answer}

theorem returns_lookupDevice (hash : Name) :
    Returns answer (lookupDevice hash) := by
  refine returns_bind returns_read fun world => ?_
  cases world.devset.metaStore.find hash with
  | some info => exact returns_pure _
  | none =>
    refine returns_bind (returns_call _) fun found => ?_
    cases found with
    | none => exact returns_pure _
    | some info => exact returns_bind (returns_call _) fun _ => returns_pure _

theorem returns_deviceFileWalk (names : List Name) :
    Returns answer (deviceFileWalk names) := by
  induction names with
  | nil => exact returns_pure _
  | cons name names ih =>
    refine returns_bind (returns_call _) fun stat => ?_
    cases stat with
    | false => exact returns_pure _
    | true =>
      simp
      split
      · refine returns_bind (returns_lookupDevice name) fun found => ?_
        cases found with
        | none => exact returns_pure _
        | some info => exact ih
      · exact returns_bind (returns_call _) fun _ => ih

theorem returns_constructDeviceIdMap : Returns answer constructDeviceIdMap := by
  refine returns_bind returns_read fun world => returns_forEach _ fun hash => ?_
  refine returns_bind (returns_lookupDevice hash) fun found => ?_
  cases found with
  | none => exact returns_pure _
  | some info => exact returns_call _

theorem returns_countDeletedDevices : Returns answer countDeletedDevices := by
  refine returns_bind returns_read fun world => returns_forEach _ fun hash => ?_
  refine returns_bind (returns_lookupDevice hash) fun found => ?_
  cases found with
  | none => exact returns_pure _
  | some info =>
    simp only
    split
    · exact returns_call _
    · exact returns_pure _

theorem returns_rollbackTransaction (transaction : Transaction) :
    Returns answer (rollbackTransaction transaction) := by
  refine returns_bind (returns_call _) fun _ => returns_bind ?_ fun _ =>
    returns_bind (returns_call _) fun _ => returns_bind (returns_call _) fun _ => returns_pure _
  refine returns_bind (returns_call _) fun removed => ?_
  cases removed with
  | true => exact returns_call _
  | false => exact returns_pure _

theorem returns_processPendingTransaction :
    Returns answer processPendingTransaction := by
  refine returns_bind (returns_call _) fun read => ?_
  cases read with
  | false => exact returns_pure _
  | true =>
    refine returns_bind returns_read fun world => ?_
    split
    · exact returns_bind (returns_rollbackTransaction _) fun _ =>
        returns_bind (returns_call _) fun _ => returns_pure _
    · exact returns_pure _

theorem returns_initMetadata : Returns answer initMetadata := by
  refine returns_bind returns_read fun world => returns_bind (returns_call _) fun status => ?_
  cases status with
  | false => exact returns_pure _
  | true =>
    refine returns_bind (returns_call _) fun _ =>
      returns_bind (returns_deviceFileWalk _) fun walked => ?_
    cases walked with
    | false => exact returns_pure _
    | true =>
      exact returns_bind returns_constructDeviceIdMap fun _ =>
        returns_bind returns_countDeletedDevices fun _ => returns_processPendingTransaction

end

/-- The operations of the driver on its device set. -/
inductive Operation where
  | setupBase
  | add (hash : DeviceHash) (base : Option DeviceHash) (storageSize : Option Nat)
  | delete (hash : DeviceHash) (syncDelete : Bool)
  | cleanup

/-- The routine of an operation. -/
def Operation.routine : Operation → Routine Bool
  | .setupBase => setupBaseImage
  | .add hash base storageSize => addDevice hash base storageSize
  | .delete hash syncDelete => deleteDevice hash syncDelete
  | .cleanup => do
      cleanupDeletedDevices
      pure true

/-- The worlds between the operations, from any start-up that succeeds on a good disk. A
crash leaves a good disk (`Operation.goodDisk`), so restarts are among the start-ups. -/
inductive Reachable : World → Prop
  | boot {start : Disk} {nextDeviceId baseFsSize : Nat} {userBaseSize : Bool}
      {answers rest : List Answer} {world : World} (good : GoodDisk start)
      (ran : initMetadata.run answers
        ⟨start, DeviceSet.fresh nextDeviceId baseFsSize userBaseSize⟩ =
          (some (true, rest), world)) : Reachable world
  | operate {world world' : World} {answers rest : List Answer} {result : Bool}
      (operation : Operation) (reachable : Reachable world)
      (removes : ∀ answer ∈ answers, Removes answer)
      (ran : operation.routine.run answers world = (some (result, rest), world')) :
      Reachable world'

theorem Operation.sound (operation : Operation) (sound : Sound world) :
    Ensures Removes operation.routine Sound (fun _ => Sound) world := by
  cases operation with
  | setupBase => exact sound_setupBaseImage sound
  | add => exact sound_addDevice sound
  | delete hash => exact sound_doDeleteDevice sound hash.2
  | cleanup =>
    exact ensures_bind ((sound_cleanupDeletedDevices sound).mono
      fun _ _ holds => ensures_pure holds)

theorem Reachable.sound (reachable : Reachable world) : Sound world := by
  induction reachable with
  | @boot start nextDeviceId baseFsSize userBaseSize answers rest world good ran =>
    have booted := Ensures.returned (@booted_initMetadata (fun _ => True) start nextDeviceId
      baseFsSize userBaseSize good) (fun _ _ => trivial) ran
    exact (booted.2 rfl).sound
  | operate operation _ removes ran ih => exact (operation.sound ih).returned removes ran

/-- Wherever an operation is cut off, the disk it leaves is good. -/
theorem Operation.goodDisk (operation : Operation) {answers : List Answer}
    (reachable : Reachable world) (removes : ∀ answer ∈ answers, Removes answer) :
    GoodDisk (operation.routine.run answers world).2.disk :=
  ((operation.sound reachable.sound).reached removes).goodDisk

/-- Wherever an operation is cut off, the driver starts up again, and each start-up that succeeds
registers the files of the disk without the device of a pending transaction. The world it ends in is
one that operations go on from. -/
theorem restart_reachable {world : World} (reachable : Reachable world) (operation : Operation)
    {answers : List Answer} (removes : ∀ answer ∈ answers, Removes answer)
    (nextDeviceId baseFsSize : Nat) (userBaseSize : Bool) :
    let disk := (operation.routine.run answers world).2.disk
    let start : World := ⟨disk, DeviceSet.fresh nextDeviceId baseFsSize userBaseSize⟩
    (∃ count after, initMetadata.run (.replicate count {}) start = (some (true, []), after)) ∧
      ∀ replies rest after, initMetadata.run replies start = (some (true, rest), after) →
        Reachable after ∧ ∀ name, after.devset.metaStore.find name =
          if utilValidDeviceHash name then disk.rolledBack.files.find name else none := by
  intro disk start
  have good : GoodDisk disk := operation.goodDisk reachable removes
  constructor
  · obtain ⟨count, result, after, ran, succeeds, -⟩ := Ensures.run
      (@booted_initMetadata (· = {}) disk nextDeviceId baseFsSize userBaseSize good) rfl
      returns_initMetadata
    have succeeded : result = true := succeeds fun answer plain => by rw [plain]
    exact ⟨count, after, succeeded ▸ ran⟩
  · intro replies rest after ran
    have booted := Ensures.returned (@booted_initMetadata (fun _ => True) disk nextDeviceId
      baseFsSize userBaseSize good) (fun _ _ => trivial) ran
    exact ⟨.boot good ran, (booted.2 rfl).store⟩

/-- The set-up of an empty pool, cut off inside the registration of the base device. -/
theorem restart_reachable_setupBase : ∃ world after, Reachable world ∧ Reachable after ∧
    (Operation.setupBase.routine.run (.replicate 5 {}) world).2.disk.pending.isSome = true := by
  have reachable := @Reachable.boot ⟨∅, none, [], 0⟩ 0 10 false (.replicate 5 {}) _ _ .empty rfl
  obtain ⟨⟨_, after, restarted⟩, restarts⟩ := @restart_reachable _ reachable .setupBase
    (.replicate 5 {}) (fun answer member => by rw [eq_of_mem_replicate member]; rfl) 0 10 false
  exact ⟨_, after, reachable, (restarts _ _ _ restarted).1, by decide +kernel⟩

/-- The registered devices have ids of their own, all marked used, and the allocator hands
out none of them. -/
structure IdsApart (world : World) : Prop where
  distinct : ∀ {name other info otherInfo}, world.devset.metaStore.find name = some info →
    world.devset.metaStore.find other = some otherInfo → info.deviceId = otherInfo.deviceId →
    name = other
  marked : ∀ {name info}, world.devset.metaStore.find name = some info →
    Marked world.devset.deviceIdMap info.deviceId
  allocator : ∀ {deviceId devset'}, nextFreeDeviceId world.devset = (some deviceId, devset') →
    ∀ {name info}, world.devset.metaStore.find name = some info → info.deviceId ≠ deviceId

theorem Sound.idsApart (sound : Sound world) : IdsApart world where
  distinct := fun found otherFound same =>
    sound.distinct (same ▸ sound.knows_stored found) (sound.knows_stored otherFound)
  marked := fun found => sound.marked (sound.knows_stored found)
  allocator := by
    intro deviceId devset' handed name info found same
    rcases nextFreeDeviceId_cases world.devset with ⟨k, free, -, taken⟩ | ⟨-, next, taken⟩
    · cases taken.symm.trans handed
      exact sound.not_knows_free free name (same ▸ sound.knows_stored found)
    · cases taken.symm.trans handed

/-- In every world that a run of the driver passes through, inside an operation or between
two of them, registered devices do not share ids and their ids are marked used. -/
theorem reachable_idsApart {world : World} (reachable : Reachable world) (operation : Operation)
    {answers : List Answer} (removes : ∀ answer ∈ answers, Removes answer) :
    IdsApart (operation.routine.run answers world).2 :=
  ((operation.sound reachable.sound).reached removes).idsApart

/-- The set-up of an empty pool, up to the registration of the base device. -/
theorem reachable_idsApart_setupBase :
    ∃ world, Reachable world ∧
      ((Operation.setupBase.routine.run (.replicate 20 {}) world).2.devset.metaStore.find
        baseName).isSome = true ∧
      IdsApart (Operation.setupBase.routine.run (List.replicate 20 {}) world).2 := by
  have ran : ∃ rest world, initMetadata.run (.replicate 5 {})
      ⟨⟨∅, none, [], 0⟩, DeviceSet.fresh 0 10 false⟩ = (some (true, rest), world) ∧
      ((Operation.setupBase.routine.run (.replicate 20 {}) world).2.devset.metaStore.find
        baseName).isSome = true := ⟨_, _, rfl, by decide +kernel⟩
  obtain ⟨rest, world, booted, registered⟩ := ran
  have reachable := Reachable.boot GoodDisk.empty booted
  refine ⟨world, reachable, registered, reachable_idsApart reachable .setupBase ?_⟩
  intro answer member
  rw [eq_of_mem_replicate member]
  rfl

end Isulad.DevMapper
