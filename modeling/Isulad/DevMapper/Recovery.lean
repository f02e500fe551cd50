import Isulad.DevMapper.StartUp

/-!
# Recovery from a crash

An operation that adds or deletes a device keeps its device in the transaction file
while it works. Wherever it is cut off, either the disk is settled or the transaction
is pending for that one device, and then start-up takes exactly that device away.
-/

namespace Isulad.DevMapper

open DeviceTable List Isulad.Std Isulad.Std.Program

/-- The device of this name is registered. -/
def Registered (world : World) (name : Name) : Prop :=
  ∃ info, world.devset.metaStore.find name = some info

/-- The files, the registered devices and the pool's devices agree. -/
structure Agrees (world : World) : Prop where
  sound : Sound world
  files : ∀ name, world.disk.files.find name = world.devset.metaStore.find name
  pool : ∀ deviceId, deviceId ∈ world.disk.pool ↔
    ∃ name info, world.devset.metaStore.find name = some info ∧ info.deviceId = deviceId

/-- The files and the pool of a disk agree on a set of devices. -/
structure Consistent (disk : Disk) (devices : Name → Prop) : Prop where
  names : ∀ name, (∃ info, disk.files.find name = some info) ↔ devices name
  loadable : ∀ {name info}, disk.files.find name = some info →
    utilValidDeviceHash name = true ∧ info.deviceId ≤ maxDeviceId
  pool : ∀ deviceId, deviceId ∈ disk.pool ↔
    ∃ name info, disk.files.find name = some info ∧ info.deviceId = deviceId

/-- Start-up would find the devices of one set or those of the other. -/
def Recoverable (before after : Name → Prop) (disk : Disk) : Prop :=
  Consistent disk.rolledBack before ∨ Consistent disk.rolledBack after

/-- Adding or deleting one device. -/
inductive Change where
  | add (hash : DeviceHash) (base : Option DeviceHash) (storageSize : Option Nat)
  | delete (hash : DeviceHash) (syncDelete : Bool)

/-- The operation of a change. -/
def Change.operation : Change → Operation
  | .add hash base storageSize => .add hash base storageSize
  | .delete hash syncDelete => .delete hash syncDelete

/-- The registered devices once the change has been carried out. -/
def Change.carriedOut (devices : Name → Prop) : Change → Name → Prop
  | .add hash _ _ => fun name => name = hash.1 ∨ devices name
  | .delete hash _ => fun name => name ≠ hash.1 ∧ devices name

/-- No earlier transaction is pending for a registered device, unless the change deletes
that very device. -/
def Undisturbed (world : World) (change : Change) : Prop :=
  ∀ transaction, world.disk.pending = some transaction →
    (¬ Registered world transaction.owner ∧ transaction.deviceId ∉ world.disk.pool) ∨
      ∃ hash syncDelete info, change = .delete hash syncDelete ∧ hash.1 = transaction.owner ∧
        world.devset.metaStore.find hash.1 = some info ∧ info.deviceId = transaction.deviceId

section Disks

variable {disk start : Disk} {hash : Name} {deviceId : Nat} {devices others : Name → Prop}

/-- The disk of a transaction in progress: it differs from the one it started from in this
device only, and the transaction file says so. -/
structure Pending (start : Disk) (hash : Name) (deviceId : Nat) (disk : Disk) : Prop where
  transaction : disk.transaction = some ⟨start.poolTransactionId + 1, hash, deviceId⟩
  poolTransactionId : disk.poolTransactionId = start.poolTransactionId
  files : ∀ name, name ≠ hash → disk.files.find name = start.files.find name
  pool : ∀ other, other ≠ deviceId → (other ∈ disk.pool ↔ other ∈ start.pool)

/-- On the disk a transaction starts from, its name and its id go together. -/
def Matched (start : Disk) (hash : Name) (deviceId : Nat) : Prop :=
  ∀ {name info}, start.files.find name = some info → (name = hash ↔ info.deviceId = deviceId)

theorem Consistent.congr (consistent : Consistent disk devices)
    (same : ∀ name, devices name ↔ others name) : Consistent disk others :=
  { consistent with names := fun name => (consistent.names name).trans (same name) }

section

variable (consistent : Consistent start devices) (alone : Matched start hash deviceId)
  (files : ∀ name, name ≠ hash → disk.files.find name = start.files.find name)
  (pool : ∀ other, other ≠ deviceId → (other ∈ disk.pool ↔ other ∈ start.pool))
include consistent alone files pool

/-- A disk that differs from a consistent one in one device is consistent if that device has a
file exactly when it is in the pool. -/
theorem Consistent.differing (loads : ∀ info, disk.files.find hash = some info →
      (utilValidDeviceHash hash = true ∧ info.deviceId ≤ maxDeviceId) ∧ info.deviceId = deviceId)
    (paired : deviceId ∈ disk.pool ↔ ∃ info, disk.files.find hash = some info) :
    Consistent disk fun name =>
      if name = hash then ∃ info, disk.files.find hash = some info else devices name where
  names name := by
    split
    next same => rw [same]
    next different => rw [files name different, consistent.names]
  loadable {name info} found := by
    by_cases same : name = hash
    · subst same
      exact (loads info found).1
    · rw [files name same] at found
      exact consistent.loadable found
  pool other := by
    by_cases same : other = deviceId
    · subst same
      rw [paired]
      constructor
      · rintro ⟨info, found⟩
        exact ⟨hash, info, found, (loads info found).2⟩
      · rintro ⟨name, info, found, ids⟩
        by_cases sameName : name = hash
        · exact ⟨info, sameName ▸ found⟩
        · rw [files name sameName] at found
          exact absurd ((alone found).mpr ids) sameName
    · rw [pool other same, consistent.pool other]
      constructor
      · rintro ⟨name, info, found, ids⟩
        have otherName : name ≠ hash := fun sameName =>
          same (ids.symm.trans ((alone found).mp sameName))
        exact ⟨name, info, (files name otherName).trans found, ids⟩
      · rintro ⟨name, info, found, ids⟩
        by_cases sameName : name = hash
        · subst sameName
          exact absurd (ids.symm.trans (loads info found).2) same
        · rw [files name sameName] at found
          exact ⟨name, info, found, ids⟩

/-- The device has neither a file nor a place in the pool. -/
theorem consistent_without (absent : disk.files.find hash = none) (gone : deviceId ∉ disk.pool) :
    Consistent disk (fun name => name ≠ hash ∧ devices name) :=
  (consistent.differing alone files pool (by simp [absent]) (by simp [absent, gone])).congr
    fun name => by simp [absent]

/-- The device has both. -/
theorem consistent_with {info : DeviceInfo} (valid : utilValidDeviceHash hash = true)
    (bound : deviceId ≤ maxDeviceId) (present : disk.files.find hash = some info)
    (same : info.deviceId = deviceId) (member : deviceId ∈ disk.pool) :
    Consistent disk (fun name => name = hash ∨ devices name) :=
  (consistent.differing alone files pool (by simp [present, valid, same, bound])
    (by simp [present, member])).congr fun name => by
      by_cases here : name = hash <;> simp [here, present]

end

/-- Rolling back a transaction takes its device away. -/
theorem consistent_rolledBack {transaction : Transaction} (ahead : disk.pending = some transaction)
    (consistent : Consistent start devices)
    (alone : Matched start transaction.owner transaction.deviceId)
    (files : ∀ name, name ≠ transaction.owner → disk.files.find name = start.files.find name)
    (pool : ∀ other, other ≠ transaction.deviceId → (other ∈ disk.pool ↔ other ∈ start.pool)) :
    Consistent disk.rolledBack (fun name => name ≠ transaction.owner ∧ devices name) := by
  rw [Disk.rolledBack, ahead]
  refine consistent_without consistent alone ?_ ?_ ?_ ?_
  · intro name different
    rw [find_erase, if_neg different, files name different]
  · intro other different
    simp [different, pool other different]
  · rw [find_erase, if_pos rfl]
  · simp

/-- Rolling back a transaction in progress leaves the other devices. -/
theorem Pending.consistent (pending : Pending start hash deviceId disk)
    (valid : utilValidDeviceHash hash = true) (consistent : Consistent start devices)
    (alone : Matched start hash deviceId) :
    Consistent disk.rolledBack (fun name => name ≠ hash ∧ devices name) := by
  have ahead : disk.pending = some ⟨start.poolTransactionId + 1, hash, deviceId⟩ := by
    simp [Disk.pending, pending.transaction, pending.poolTransactionId]
  have removed := @consistent_rolledBack _ _ devices _ ahead consistent
  rw [Transaction.owner_eq valid] at removed
  exact removed alone pending.files pending.pool

/-- A disk with nothing pending is its own roll back. -/
theorem rolledBack_eq (settled : disk.pending = none) : disk.rolledBack = disk := by
  simp [Disk.rolledBack, settled]

end Disks

/-- A device that a transaction can be about: a valid name and an id, which go together on
the disk it starts from. -/
structure Subject (origin : World) (hash : Name) (deviceId : Nat) : Prop where
  valid : utilValidDeviceHash hash = true
  bound : deviceId ≤ maxDeviceId
  matched : Matched origin.disk hash deviceId

/-- The world of a transaction in progress. -/
structure During (origin : World) (hash : Name) (deviceId : Nat) (world : World) : Prop where
  disk : Pending origin.disk hash deviceId world.disk
  store : ∀ name, name ≠ hash →
    world.devset.metaStore.find name = origin.devset.metaStore.find name
  noted : world.devset.metadataTrans.openTransactionId = origin.disk.poolTransactionId + 1
  synced : world.devset.transactionId = origin.disk.poolTransactionId

section Transactions

variable {origin world : World} {hash : Name} {deviceId size : Nat} {info : DeviceInfo}
  {message : Nat → Routine PoolResult} {mustRefresh syncDelete : Bool}

theorem Agrees.consistent (agrees : Agrees world) : Consistent world.disk (Registered world) where
  names := by
    intro name
    rw [agrees.files]
    rfl
  loadable := by
    intro name info present
    rw [agrees.files] at present
    obtain ⟨valid, -, bound⟩ := agrees.sound.stored present
    exact ⟨valid, bound⟩
  pool := by
    intro deviceId
    rw [agrees.pool]
    simp [agrees.files]

/-- A registered device is the only one with its id. -/
theorem Agrees.matched (agrees : Agrees world)
    (present : world.devset.metaStore.find hash = some info) :
    Matched world.disk hash info.deviceId := by
  intro name other found
  rw [agrees.files] at found
  constructor
  · rintro rfl
    rw [present] at found
    cases found
    rfl
  · intro same
    exact agrees.sound.distinct (same ▸ agrees.sound.knows_stored found)
      (agrees.sound.knows_stored present)

/-- A device that is neither registered nor in the pool has nothing of another one. -/
theorem Agrees.matched_fresh (agrees : Agrees world) (fresh : ¬ Registered world hash)
    (absent : deviceId ∉ world.disk.pool) : Matched world.disk hash deviceId := by
  intro name info found
  rw [agrees.files] at found
  constructor
  · rintro rfl
    exact absurd ⟨info, found⟩ fresh
  · intro same
    exact absurd ((agrees.pool _).mpr ⟨name, info, found, same⟩) absent

/-- The transaction that `open_transaction` writes is in progress. -/
theorem Agrees.opened (agrees : Agrees origin) (disk : world.disk = origin.disk)
    (store : world.devset.metaStore = origin.devset.metaStore)
    (synced : world.devset.transactionId = origin.devset.transactionId) :
    During origin hash deviceId
      (opened ⟨world.devset.transactionId + 1, hash, deviceId⟩ world) := by
  obtain ⟨⟩ := world
  cases disk
  rw [agrees.sound.synced] at synced
  rw [synced]
  exact
    { disk := ⟨rfl, rfl, fun _ _ => rfl, fun _ _ => .rfl⟩
      store := fun name _ => congrArg (DeviceTable.find · name) store
      noted := rfl
      synced := synced }

section

variable (during : During origin hash deviceId world)
include during

/-- A step in memory that leaves the other devices and the transaction alone. -/
theorem During.onDevset {update : DeviceSet → DeviceSet}
    (store : ∀ name, name ≠ hash → (update world.devset).metaStore.find name =
      world.devset.metaStore.find name)
    (noted : (update world.devset).metadataTrans = world.devset.metadataTrans)
    (synced : (update world.devset).transactionId = world.devset.transactionId) :
    During origin hash deviceId (onDevset update world) where
  disk := during.disk
  store := fun name different => (store name different).trans (during.store name different)
  noted := by
    change (update world.devset).metadataTrans.openTransactionId = _
    rw [noted, during.noted]
  synced := by
    change (update world.devset).transactionId = _
    rw [synced, during.synced]

/-- A step on the disk that leaves the other devices and the transaction alone. -/
theorem During.onDisk {update : Disk → Disk}
    (transaction : (update world.disk).transaction = world.disk.transaction)
    (poolTransactionId : (update world.disk).poolTransactionId = world.disk.poolTransactionId)
    (files : ∀ name, name ≠ hash → (update world.disk).files.find name = world.disk.files.find name)
    (pool : ∀ other, other ≠ deviceId →
      (other ∈ (update world.disk).pool ↔ other ∈ world.disk.pool)) :
    During origin hash deviceId (onDisk update world) where
  disk :=
    { transaction := transaction.trans during.disk.transaction
      poolTransactionId := poolTransactionId.trans during.disk.poolTransactionId
      files := fun name different =>
        (files name different).trans (during.disk.files name different)
      pool :=
        fun other different => (pool other different).trans (during.disk.pool other different) }
  store := during.store
  noted := during.noted
  synced := during.synced

theorem During.created :
    During origin hash deviceId (created deviceId world) :=
  during.onDisk rfl rfl (fun _ _ => rfl) fun other different => by simp [different]

theorem During.destroyed :
    During origin hash deviceId (destroyed deviceId world) :=
  during.onDisk rfl rfl (fun _ _ => rfl) fun other different => by simp [different]

theorem During.filed (named : info.hash = hash) :
    During origin hash deviceId (filed info world) :=
  during.onDisk rfl rfl (fun name different => by
    rw [find_insert, if_neg (named ▸ different)]) fun _ _ => .rfl

theorem During.unfiled :
    During origin hash deviceId (unfiled hash world) :=
  during.onDisk rfl rfl (fun name different => by
    rw [find_erase, if_neg different]) fun _ _ => .rfl

theorem During.stored :
    During origin hash deviceId (stored hash info world) :=
  during.onDevset (fun name different => by rw [find_insert, if_neg different]) rfl rfl

theorem During.unstored :
    During origin hash deviceId (unstored hash world) :=
  during.onDevset (fun name different => by rw [find_erase, if_neg different]) rfl rfl

theorem During.freed :
    During origin hash deviceId (freed deviceId world) :=
  during.onDevset (fun _ _ => rfl) rfl rfl

theorem During.settled :
    (closed world).disk.pending = none := by
  have written : (closed world).disk.transaction =
      some ⟨origin.disk.poolTransactionId + 1, hash, deviceId⟩ := during.disk.transaction
  have pool : (closed world).disk.poolTransactionId = origin.disk.poolTransactionId + 1 :=
    during.noted
  simp [Disk.pending, written, pool]

end

/-- The world once a device has been added to an agreeing one. -/
structure Added (origin : World) (hash : Name) (deviceId : Nat) (info : DeviceInfo)
    (world : World) : Prop where
  settled : world.disk.pending = none
  files : ∀ name, name ≠ hash → world.disk.files.find name = origin.disk.files.find name
  store : ∀ name, name ≠ hash →
    world.devset.metaStore.find name = origin.devset.metaStore.find name
  pool : ∀ other, other ≠ deviceId → (other ∈ world.disk.pool ↔ other ∈ origin.disk.pool)
  filed : world.disk.files.find hash = some info
  stored : world.devset.metaStore.find hash = some info
  identified : info.deviceId = deviceId
  member : deviceId ∈ world.disk.pool

/-- The device has been added, or its transaction is pending. -/
def AddedOr (origin : World) (hash : Name) (deviceId : Nat) : Option DeviceInfo → World → Prop
  | none => During origin hash deviceId
  | some info => Added origin hash deviceId info

/-- The part of creation behind the loop adds the device or leaves its transaction pending. -/
theorem added_registerCreated (during : During origin hash deviceId world)
    (member : deviceId ∈ world.disk.pool) :
    Ensures Removes (registerCreated hash size deviceId) (During origin hash deviceId)
      (AddedOr origin hash deviceId) world := by
  have release : ∀ world', During origin hash deviceId world' →
      Ensures Removes (devDeleteDevice deviceId >>= fun _ => markFree deviceId >>= fun _ =>
        pure none) (During origin hash deviceId) (AddedOr origin hash deviceId) world' := by
    intro world' during'
    have free : ∀ world'', During origin hash deviceId world'' →
        Ensures Removes (markFree deviceId >>= fun _ => pure none) (During origin hash deviceId)
          (AddedOr origin hash deviceId) world'' :=
      fun world'' during'' => ensures_bind (ensures_markFree during''
        (ensures_pure during''.freed))
    exact ensures_bind (ensures_devDeleteDevice during' (free _ during'.destroyed)
      (fun _ _ _ => free _ during') (fun _ _ _ => free _ during'))
  refine ensures_bind (ensures_read (ensures_bind ?_))
  generalize world.devset.metadataTrans.openTransactionId = transactionId
  refine ensures_bind (ensures_metadataStoreAdd during
    (ensures_bind (ensures_saveMetadata during.stored ?_ ?_)))
  · exact ensures_bind (ensures_metadataStoreRemove during.stored
      (ensures_pure (release _ during.stored.unstored)))
  · have onFile : During origin hash deviceId (DevMapper.filed
        ⟨hash, deviceId, size, transactionId, false, false⟩ (DevMapper.stored hash
        ⟨hash, deviceId, size, transactionId, false, false⟩ world)) := during.stored.filed rfl
    refine ensures_pure (ensures_bind (ensures_closeTransaction onFile ?_ (fun _ => ?_)))
    · refine ensures_bind (ensures_bind (ensures_metadataStoreRemove onFile ?_))
      refine ensures_ite (fun _ => ?_) (fun _ => ensures_pure (release _ onFile.unstored))
      exact ensures_removeMetadata onFile.unstored (fun _ _ _ => release _ onFile.unstored)
        (release _ onFile.unstored.unfiled)
    · refine ensures_pure ?_
      exact
        { settled := onFile.settled
          files := onFile.disk.files
          store := onFile.store
          pool := onFile.disk.pool
          filed := by
            change DeviceTable.find (world.disk.files.insert hash _) hash = some _
            rw [find_insert, if_pos rfl]
          stored := find_stored
          identified := rfl
          member := member }

/-- The creation loop puts the id into the pool or leaves the transaction pending. The pool
cannot have the id already. -/
theorem during_createLoop (creates : CreatesDevice message)
    (during : During origin hash deviceId world) (absent : deviceId ∉ world.disk.pool) :
    Ensures Removes (loop (createTurn message mustRefresh) deviceId)
      (During origin hash deviceId)
      (fun result world' => During origin hash deviceId world' ∧
        ∀ made, result = some made → made = deviceId ∧ deviceId ∈ world'.disk.pool) world := by
  refine ensures_loop (fun made world' => made = deviceId ∧
    During origin hash deviceId world' ∧ deviceId ∉ world'.disk.pool) ⟨rfl, during, absent⟩
    (fun _ _ holds => holds.2.1) ?_
  rintro made world' ⟨rfl, during', absent'⟩
  refine ensures_bind (creates during' ?_ (fun taken => absurd taken absent') (fun _ => ?_))
  · exact ensures_bind (ensures_markFree during'
      (ensures_pure ⟨during'.freed, nofun⟩))
  · refine ensures_pure ⟨during'.created, ?_⟩
    rintro other ⟨⟩
    exact ⟨rfl, mem_cons_self⟩

/-- An operation on a device is not yet on the disk, or its transaction is in progress. -/
def Underway (origin : World) (hash : Name) (world : World) : Prop :=
  world.disk = origin.disk ∨
    ∃ deviceId, Subject origin hash deviceId ∧ During origin hash deviceId world

/-- Creation adds the device or leaves it underway. -/
theorem added_createRegister (creates : CreatesDevice message) (agrees : Agrees origin)
    (valid : utilValidDeviceHash hash = true) (fresh : ¬ Registered origin hash) :
    Ensures Removes (createRegister message mustRefresh hash size) (Underway origin hash)
      (fun result world' => match result with
        | none => Underway origin hash world'
        | some info => ∃ deviceId, Subject origin hash deviceId ∧
            Added origin hash deviceId info world') origin := by
  refine ensures_bind (ensures_getNextFreeDeviceId (.inl rfl)
    (fun next => ensures_pure (.inl rfl)) ?_)
  intro deviceId free bound
  have unused := agrees.sound.not_knows_free free
  have absent : deviceId ∉ origin.disk.pool := by
    intro member
    obtain ⟨name, info, present, same⟩ := (agrees.pool deviceId).mp member
    exact unused name (same ▸ agrees.sound.knows_stored present)
  have subject : Subject origin hash deviceId := ⟨valid, bound, agrees.matched_fresh fresh absent⟩
  have during : During origin hash deviceId (opened
      ⟨(allotted deviceId origin).devset.transactionId + 1, hash, deviceId⟩
      (allotted deviceId origin)) := agrees.opened rfl rfl rfl
  refine ensures_bind (ensures_openTransaction (.inl rfl) (.inl rfl) ?_ ?_)
  · exact ensures_bind (ensures_markFree (.inl rfl) (ensures_pure (.inl rfl)))
  · have underway : ∀ world', During origin hash deviceId world' → Underway origin hash world' :=
      fun world' during' => .inr ⟨deviceId, subject, during'⟩
    refine ensures_bind (ensures_query (underway _ during) fun named => ?_)
    refine ensures_ite (fun _ => ?_) (fun _ => ensures_pure (underway _ during))
    refine ensures_bind (.mono_cut ?_ underway)
    refine (during_createLoop creates during absent).mono ?_
    rintro (_ | made) world' ⟨during', found⟩
    · exact ensures_pure (underway _ during')
    · obtain ⟨rfl, member⟩ := found made rfl
      refine .mono_cut ((added_registerCreated during' member).mono ?_) underway
      rintro (_ | info) world'' outcome
      · exact underway _ outcome
      · exact ⟨made, subject, outcome⟩

/-- A lookup in an agreeing world finds the store's entry and changes nothing. -/
theorem agrees_lookupDevice {cut : World → Prop} {post : Option DeviceInfo → World → Prop}
    (agrees : Agrees world) (valid : utilValidDeviceHash hash = true) (here : cut world)
    (holds : post (world.devset.metaStore.find hash) world) :
    Ensures Removes (lookupDevice hash) cut post world := by
  refine ensures_lookupDevice (utilValidDeviceHash_ne_nil valid) here ?_ ?_ ?_
  · intro info present
    exact present ▸ holds
  · intro absent _
    exact absent ▸ holds
  · intro info absent present
    rw [agrees.files, absent] at present
    cases present

/-- What deleting a device leaves: it is underway, or the disk is settled with the device or
without it. -/
def Deleting (origin : World) (hash : Name) (world : World) : Prop :=
  Underway origin hash world ∨
    (world.disk.pending = none ∧
      (Consistent world.disk (Registered origin) ∨
        Consistent world.disk fun name => name ≠ hash ∧ Registered origin name))

/-- The device is still there as a file and in the pool, or it is in neither. -/
def Whole (hash : Name) (deviceId : Nat) (disk : Disk) : Prop :=
  (∃ info, disk.files.find hash = some info ∧ info.deviceId = deviceId ∧ deviceId ∈ disk.pool) ∨
    (disk.files.find hash = none ∧ deviceId ∉ disk.pool)

/-- Closing the transaction of a whole device settles the deletion. -/
theorem During.deleting (during : During origin hash deviceId world) (agrees : Agrees origin)
    (subject : Subject origin hash deviceId) (registered : Registered origin hash)
    (whole : Whole hash deviceId world.disk) : Deleting origin hash (closed world) := by
  refine .inr ⟨during.settled, ?_⟩
  have files : ∀ name, name ≠ hash →
      (closed world).disk.files.find name = origin.disk.files.find name := during.disk.files
  rcases whole with ⟨info, present, same, member⟩ | ⟨absent, gone⟩
  · refine .inl ((consistent_with agrees.consistent subject.matched files during.disk.pool
      subject.valid subject.bound present same member).congr fun name => ?_)
    constructor
    · rintro (rfl | other)
      · exact registered
      · exact other
    · exact .inr
  · exact .inr (consistent_without agrees.consistent subject.matched files during.disk.pool
      absent gone)

/-- Between opening and closing the transaction, a deletion leaves the device whole. -/
theorem whole_deleteOpened (during : During origin info.hash info.deviceId world)
    (present : world.disk.files.find info.hash = some info)
    (member : info.deviceId ∈ world.disk.pool)
    (stored : world.devset.metaStore.find info.hash = some info) :
    Ensures Removes (deleteOpened info syncDelete) (During origin info.hash info.deviceId)
      (fun _ world' => During origin info.hash info.deviceId world' ∧
        Whole info.hash info.deviceId world'.disk) world := by
  have kept : Whole info.hash info.deviceId world.disk := .inl ⟨info, present, rfl, member⟩
  refine ensures_bind (ensures_devDeleteDevice during ?_ (fun _ _ _ => ?_)
    (fun _ _ _ => ensures_pure ⟨during, kept⟩))
  · have inStore : info.hash ∈ (destroyed info.deviceId world).devset.metaStore :=
      mem_iff.mpr ⟨info, stored⟩
    refine ensures_bind (ensures_bind (ensures_metadataStoreRemove during.destroyed ?_))
    rw [decide_eq_true inStore]
    refine ensures_removeMetadata during.destroyed.unstored ?_ ?_
    · intro answer removes fails
      rw [removes] at fails
      cases fails
    · have gone : Whole info.hash info.deviceId (DevMapper.unfiled info.hash (DevMapper.unstored
          info.hash (DevMapper.destroyed info.deviceId world))).disk := by
        refine .inr ⟨?_, ?_⟩
        · change DeviceTable.find (world.disk.files.erase info.hash) info.hash = none
          rw [find_erase, if_pos rfl]
        · change info.deviceId ∉ world.disk.pool.filter (· ≠ info.deviceId)
          simp
      have during' := during.destroyed.unstored.unfiled
      exact ensures_bind (ensures_change during' (ensures_bind (ensures_markFree
        (during'.onDevset (fun _ _ => rfl) rfl rfl) (ensures_pure
        ⟨(during'.onDevset (fun _ _ => rfl) rfl rfl).freed, gone⟩))))
  · refine ensures_ite (fun _ => ensures_pure ⟨during, kept⟩) (fun _ => ?_)
    refine ensures_ite (fun _ => ensures_pure ⟨during, kept⟩) (fun _ => ?_)
    refine ensures_bind (ensures_metadataStoreAdd during
      (ensures_bind (ensures_saveMetadata during.stored ?_ ?_)))
    · exact ensures_bind (ensures_metadataStoreAdd during.stored
        (ensures_pure ⟨during.stored.stored, kept⟩))
    · have flagged : Whole info.hash info.deviceId (DevMapper.filed { info with deleted := true }
          (DevMapper.stored info.hash { info with deleted := true } world)).disk := by
        refine .inl ⟨{ info with deleted := true }, ?_, rfl, member⟩
        change DeviceTable.find (world.disk.files.insert info.hash _) info.hash = some _
        rw [find_insert, if_pos rfl]
      have during' : During origin info.hash info.deviceId (DevMapper.filed
          { info with deleted := true } (DevMapper.stored info.hash
          { info with deleted := true } world)) := during.stored.filed rfl
      exact ensures_bind (ensures_change during' (ensures_pure
        ⟨during'.onDevset (fun _ _ => rfl) rfl rfl, flagged⟩))

theorem deleting_doDeleteDevice (agrees : Agrees origin) (valid : utilValidDeviceHash hash = true) :
    Ensures Removes (doDeleteDevice hash syncDelete) (Deleting origin hash)
      (fun _ => Deleting origin hash) origin := by
  refine ensures_bind (agrees_lookupDevice agrees valid (.inl (.inl rfl)) ?_)
  cases present : origin.devset.metaStore.find hash with
  | none => exact ensures_pure (.inl (.inl rfl))
  | some info =>
    obtain ⟨-, named, bound⟩ := agrees.sound.stored present
    subst named
    have subject : Subject origin info.hash info.deviceId := ⟨valid, bound, agrees.matched present⟩
    have during : During origin info.hash info.deviceId (opened
        ⟨origin.devset.transactionId + 1, info.hash, info.deviceId⟩ origin) :=
      agrees.opened rfl rfl rfl
    have underway : ∀ world', During origin info.hash info.deviceId world' →
        Deleting origin info.hash world' :=
      fun world' during' => .inl (.inr ⟨info.deviceId, subject, during'⟩)
    have filed : origin.disk.files.find info.hash = some info := by rw [agrees.files, present]
    have member : info.deviceId ∈ origin.disk.pool :=
      (agrees.pool info.deviceId).mpr ⟨info.hash, info, present, rfl⟩
    refine ensures_bind (ensures_query (.inl (.inl rfl)) fun deactivated => ?_)
    refine ensures_ite (fun _ => ?_) (fun _ => ensures_pure (.inl (.inl rfl)))
    refine ensures_bind (ensures_openTransaction (.inl (.inl rfl)) (.inl (.inl rfl))
      (ensures_pure (.inl (.inl rfl))) ?_)
    refine ensures_bind (.mono_cut ?_ underway)
    refine (whole_deleteOpened during filed member present).mono ?_
    rintro deleted world' ⟨during', whole⟩
    refine ensures_bind (ensures_closeTransaction (underway _ during') ?_ (fun _ => ?_))
    · exact ensures_pure (underway _ during')
    · exact ensures_pure (during'.deleting agrees subject ⟨info, present⟩ whole)

/-- An operation underway has left the disk alone, or recovers to the other devices. -/
theorem Underway.consistent (underway : Underway origin hash world) (agrees : Agrees origin) :
    world.disk = origin.disk ∨
      Consistent world.disk.rolledBack fun name => name ≠ hash ∧ Registered origin name := by
  rcases underway with same | ⟨deviceId, subject, during⟩
  · exact .inl same
  · exact .inr (during.disk.consistent subject.valid agrees.consistent subject.matched)

theorem Deleting.recoverable (deleting : Deleting origin hash world) (agrees : Agrees origin)
    (calm : Recoverable (Registered origin)
      (fun name => name ≠ hash ∧ Registered origin name) origin.disk) :
    Recoverable (Registered origin) (fun name => name ≠ hash ∧ Registered origin name)
      world.disk := by
  rcases deleting with underway | ⟨settled, consistent⟩
  · rcases underway.consistent agrees with same | consistent
    · rw [same]
      exact calm
    · exact .inr consistent
  · unfold Recoverable
    rw [rolledBack_eq settled]
    exact consistent

/-- A device that has been added agrees with the rest. -/
theorem Added.agrees (added : Added origin hash deviceId info world) (sound : Sound world)
    (agrees : Agrees origin) (matched : Matched origin.disk hash deviceId) : Agrees world := by
  have files : ∀ name, world.disk.files.find name = world.devset.metaStore.find name := by
    intro name
    by_cases same : name = hash
    · rw [same, added.filed, added.stored]
    · rw [added.files name same, added.store name same, agrees.files]
  have bound := sound.stored added.stored
  have consistent := consistent_with agrees.consistent matched added.files added.pool bound.1
    (added.identified ▸ bound.2.2) added.filed added.identified added.member
  refine ⟨sound, files, fun other => ?_⟩
  simp [consistent.pool other, files]

theorem Added.registered (added : Added origin hash deviceId info world) (name : Name) :
    Registered world name ↔ name = hash ∨ Registered origin name := by
  unfold Registered
  by_cases same : name = hash
  · simp [same, added.stored]
  rw [added.store name same]
  simp [same]

/-- An agreeing world recovers by itself when no earlier transaction disturbs it. -/
theorem Agrees.recoverable {change : Change} (agrees : Agrees origin)
    (undisturbed : Undisturbed origin change) :
    Recoverable (Registered origin) (change.carriedOut (Registered origin)) origin.disk := by
  cases ahead : origin.disk.pending with
  | none =>
    refine .inl ?_
    rw [rolledBack_eq ahead]
    exact agrees.consistent
  | some transaction =>
    have removed := fun matched => consistent_rolledBack ahead agrees.consistent matched
      (fun _ _ => rfl) fun _ _ => .rfl
    rcases undisturbed transaction ahead with
      ⟨unregistered, absent⟩ | ⟨hash, syncDelete, info, deletes, owner, present, same⟩
    · refine .inl ((removed (agrees.matched_fresh unregistered absent)).congr fun name => ?_)
      constructor
      · exact And.right
      · intro registered
        refine ⟨?_, registered⟩
        rintro rfl
        exact unregistered registered
    · subst deletes
      refine .inr ?_
      change Consistent origin.disk.rolledBack fun name => name ≠ hash.1 ∧ Registered origin name
      rw [owner] at present ⊢
      exact removed (same ▸ agrees.matched present)

end Transactions

section Changes

variable {origin world : World} {hash : DeviceHash} {baseInfo info : DeviceInfo}
  {size deviceId baseSize : Nat}

/-- The world recovers to its devices, with or without the one to be added. -/
def Adding (origin : World) (hash : DeviceHash) (world : World) : Prop :=
  Recoverable (Registered origin) (fun name => name = hash.1 ∨ Registered origin name) world.disk

/-- Growing the file system of a device in an agreeing world changes nothing here. -/
theorem agrees_growDeviceFs {hash : Name} {cut : World → Prop} (agrees : Agrees world)
    (valid : utilValidDeviceHash hash = true) (here : cut world) :
    Ensures Removes (growDeviceFs hash size baseSize) cut (fun _ world' => world' = world)
      world := by
  unfold growDeviceFs
  split
  · exact ensures_pure rfl
  · refine ensures_bind (agrees_lookupDevice agrees valid here ?_)
    cases world.devset.metaStore.find hash with
    | none => exact ensures_pure rfl
    | some info => exact ensures_query here fun _ => rfl

variable (agrees : Agrees origin)
include agrees

theorem recoverable_delete {syncDelete : Bool}
    (undisturbed : Undisturbed origin (.delete hash syncDelete)) :
    Ensures Removes (deleteDevice hash syncDelete)
      (fun world => Recoverable (Registered origin)
        (fun name => name ≠ hash.1 ∧ Registered origin name) world.disk)
      (fun _ world => Recoverable (Registered origin)
        (fun name => name ≠ hash.1 ∧ Registered origin name) world.disk) origin := by
  have recovers := fun world (deleting : Deleting origin hash.1 world) =>
    deleting.recoverable agrees (agrees.recoverable undisturbed)
  exact ((deleting_doDeleteDevice agrees hash.2).mono fun _ => recovers).mono_cut recovers

/-- A device that has just been added is deleted again when its file system cannot grow. -/
theorem recoverable_deleteAdded (fresh : ¬ Registered origin hash.1)
    (subject : Subject origin hash.1 deviceId) (added : Added origin hash.1 deviceId info world)
    (sound : Sound world) :
    Ensures Removes (doDeleteDevice hash.1 true) (Adding origin hash) (fun _ => Adding origin hash)
      world := by
  have agreesAdded := added.agrees sound agrees subject.matched
  have undisturbed : Undisturbed world (.delete hash true) := by
    intro transaction ahead
    rw [added.settled] at ahead
    cases ahead
  have swap : ∀ world', Recoverable (Registered world)
      (fun name => name ≠ hash.1 ∧ Registered world name) world'.disk →
        Adding origin hash world' := by
    rintro world' (consistent | consistent)
    · exact .inr (consistent.congr added.registered)
    · refine .inl (consistent.congr fun name => ?_)
      rw [added.registered]
      constructor
      · rintro ⟨different, same | registered⟩
        · exact absurd same different
        · exact registered
      · intro registered
        refine ⟨?_, .inr registered⟩
        rintro rfl
        exact fresh registered
  exact ((recoverable_delete agreesAdded undisturbed).mono fun _ => swap).mono_cut swap

/-- A snapshot adds the device or leaves it underway. -/
theorem added_takeSnapshot {hash : Name} (valid : utilValidDeviceHash hash = true)
    (fresh : ¬ Registered origin hash) :
    Ensures Removes (takeSnapshot hash baseInfo size) (Underway origin hash)
      (fun result world => match result with
        | false => Underway origin hash world
        | true => ∃ deviceId info, Subject origin hash deviceId ∧
            Added origin hash deviceId info world) origin := by
  refine ensures_bind (ensures_query (.inl rfl) fun prepared => ?_)
  refine ensures_ite (fun _ => ?_) (fun _ => ensures_pure (.inl rfl))
  have creates : CreatesDevice (devCreateSnapDeviceRaw baseInfo.deviceId) :=
    createsDevice_devCreateSnapDeviceRaw baseInfo.deviceId
  refine ensures_bind ((added_createRegister creates agrees valid fresh).mono ?_)
  rintro (_ | info) world outcome
  · exact ensures_pure outcome
  · obtain ⟨deviceId, subject, added⟩ := outcome
    exact ensures_pure ⟨deviceId, info, subject, added⟩

/-- The part of `add_device` behind its checks. -/
theorem recoverable_snapshot (calm : Adding origin hash origin)
    (fresh : ¬ Registered origin hash.1) :
    Ensures Removes (takeSnapshot hash.1 baseInfo size >>= fun taken =>
      if taken = true then growDeviceFs hash.1 size baseInfo.size >>= fun grown =>
        if grown = true then pure true
        else doDeleteDevice hash.1 true >>= fun _ => pure false
      else pure false)
      (Adding origin hash) (fun _ => Adding origin hash) origin := by
  have rest : ∀ world, Underway origin hash.1 world → Adding origin hash world := by
    intro world underway
    rcases underway.consistent agrees with same | consistent
    · rw [Adding, same]
      exact calm
    · refine .inl (consistent.congr fun name => ⟨And.right, fun registered => ?_⟩)
      exact ⟨fun same => fresh (same ▸ registered), registered⟩
  refine ensures_bind (.mono_cut (.mono ((added_takeSnapshot agrees hash.2 fresh).and
    (sound_takeSnapshot agrees.sound hash.2)) ?_) fun world holds => rest world holds.1)
  rintro (_ | _) world ⟨outcome, sound⟩
  · exact ensures_pure (rest _ outcome)
  obtain ⟨deviceId, info, subject, added⟩ := outcome
  have agreesAdded := added.agrees sound agrees subject.matched
  have done : Adding origin hash world := by
    refine .inr ?_
    rw [rolledBack_eq added.settled]
    exact agreesAdded.consistent.congr added.registered
  refine ensures_bind ((agrees_growDeviceFs agreesAdded hash.2 done).mono ?_)
  rintro grown _ rfl
  refine ensures_ite (fun _ => ensures_pure done) (fun _ => ?_)
  exact ensures_bind ((recoverable_deleteAdded agrees fresh subject added sound).mono
    fun _ _ recoverable => ensures_pure recoverable)

theorem recoverable_add {base : Option DeviceHash} {storageSize : Option Nat}
    (undisturbed : Undisturbed origin (.add hash base storageSize)) :
    Ensures Removes (addDevice hash base storageSize) (Adding origin hash)
      (fun _ => Adding origin hash) origin := by
  have calm : Adding origin hash origin := agrees.recoverable undisturbed
  refine ensures_bind (agrees_lookupDevice agrees (base.getD baseHash).2 calm ?_)
  cases origin.devset.metaStore.find (base.getD baseHash).1 with
  | none => exact ensures_pure calm
  | some baseInfo =>
    refine ensures_ite (fun _ => ensures_pure calm) (fun _ => ?_)
    refine ensures_bind (agrees_lookupDevice agrees hash.2 calm ?_)
    cases absent : origin.devset.metaStore.find hash.1 with
    | some info => exact ensures_pure calm
    | none =>
      cases storageSize with
      | none => exact ensures_pure calm
      | some requested =>
        simp only
        generalize (if requested = 0 then baseInfo.size else requested) = size
        split
        · exact ensures_pure calm
        · refine recoverable_snapshot agrees calm ?_
          rintro ⟨info, present⟩
          rw [absent] at present
          cases present

end Changes

/-- What a recovered world must be: one of two sets of devices is registered, and the pool
has exactly the devices of it. -/
structure Recovered (before after : Name → Prop) (world : World) : Prop where
  registered : (∀ name, Registered world name ↔ before name) ∨
    ∀ name, Registered world name ↔ after name
  inPool : ∀ {name info}, world.devset.metaStore.find name = some info →
    info.deviceId ∈ world.disk.pool
  noOrphan : ∀ deviceId ∈ world.disk.pool,
    ∃ name info, world.devset.metaStore.find name = some info ∧ info.deviceId = deviceId

/-- Start-up turns a recoverable disk into a recovered world. -/
theorem Booted.recovered {start : Disk} {world : World} {accepts : Prop}
    {before after : Name → Prop} (booted : Booted accepts start world) (accepted : accepts)
    (recoverable : Recoverable before after start) : Recovered before after world := by
  obtain ⟨devices, consistent, which⟩ : ∃ devices, Consistent start.rolledBack devices ∧
      (devices = before ∨ devices = after) :=
    recoverable.elim (⟨_, ·, .inl rfl⟩) (⟨_, ·, .inr rfl⟩)
  have same : ∀ name, world.devset.metaStore.find name = start.rolledBack.files.find name := by
    intro name
    rw [booted.store]
    cases found : start.rolledBack.files.find name with
    | none => simp
    | some info => rw [if_pos (consistent.loadable found).1]
  have registered : ∀ name, Registered world name ↔ devices name := by
    intro name
    unfold Registered
    rw [same]
    exact consistent.names name
  have pool : ∀ deviceId, deviceId ∈ world.disk.pool ↔
      ∃ name info, world.devset.metaStore.find name = some info ∧ info.deviceId = deviceId := by
    intro deviceId
    rw [booted.pool accepted, consistent.pool]
    simp [same]
  refine ⟨?_, fun found => (pool _).mpr ⟨_, _, found, rfl⟩, fun deviceId => (pool deviceId).mp⟩
  rcases which with rfl | rfl
  · exact .inl registered
  · exact .inr registered

/-- The daemon starts again on what a change has left of the disk. The pool accepts the
messages of start-up; everything else may fail. -/
def RestartsTo (disk : Disk) (world : World) : Prop :=
  ∃ nextDeviceId baseFsSize userBaseSize answers rest,
    (∀ answer ∈ answers, answer.pool = .accept) ∧
      initMetadata.run answers ⟨disk, DeviceSet.fresh nextDeviceId baseFsSize userBaseSize⟩ =
        (some (true, rest), world)

/-- A device is added to or deleted from an agreeing world, and the operation is cut off at
any point. Then start-up succeeds, and whenever it does it registers the devices before the
operation or those after it has been carried out, and the pool has exactly these. -/
theorem change_recovers {origin : World} {change : Change} {answers : List Answer}
    (agrees : Agrees origin) (undisturbed : Undisturbed origin change)
    (removes : ∀ answer ∈ answers, Removes answer) :
    (∃ world, RestartsTo (change.operation.routine.run answers origin).2.disk world) ∧
      ∀ world, RestartsTo (change.operation.routine.run answers origin).2.disk world →
        Recovered (Registered origin) (change.carriedOut (Registered origin)) world := by
  have good : GoodDisk (change.operation.routine.run answers origin).2.disk :=
    ((change.operation.sound agrees.sound).reached removes).goodDisk
  have recoverable : Recoverable (Registered origin) (change.carriedOut (Registered origin))
      (change.operation.routine.run answers origin).2.disk := by
    cases change with
    | add hash base storageSize => exact (recoverable_add agrees undisturbed).reached removes
    | delete hash syncDelete => exact (recoverable_delete agrees undisturbed).reached removes
  generalize (change.operation.routine.run answers origin).2.disk = disk at good recoverable ⊢
  constructor
  · have booted := @booted_initMetadata (fun answer => answer = {}) disk 0 0 false good
    obtain ⟨count, result, world, ran, succeeds, -⟩ := booted.run rfl returns_initMetadata
    have succeeded : result = true := succeeds fun answer plain => by rw [plain]
    subst succeeded
    refine ⟨world, 0, 0, false, _, _, fun answer member => ?_, ran⟩
    rw [eq_of_mem_replicate member]
  · rintro world ⟨nextDeviceId, baseFsSize, userBaseSize, answers', rest, accepts, ran⟩
    have booted := Ensures.returned (@booted_initMetadata (fun answer => answer.pool = .accept)
      disk nextDeviceId baseFsSize userBaseSize good) accepts ran
    exact (booted.2 rfl).recovered (fun _ accepted => accepted) recoverable

/-- The hash of a layer. -/
def layerHash : DeviceHash := ⟨.replicate 64 'a', by decide⟩

/-- The infos of the base device and of a layer on it. -/
def twoDevices : DeviceTable :=
  (AList.insert baseName ⟨baseName, 1, 10, 1, true, false⟩ ∅).insert layerHash.1
    ⟨layerHash.1, 2, 10, 2, false, false⟩

/-- The world of the two devices after their two transactions, with what the transaction
file holds. -/
def twoDeviceWorld (transaction : Transaction) : World where
  disk := ⟨twoDevices, some transaction, [2, 1], 2⟩
  devset := ⟨2, 2, markDeviceIdUsed (markDeviceIdUsed ∅ 1) 2, twoDevices, transaction, 0, 10, false⟩

variable {name : Name}

theorem twoDevices_find {info : DeviceInfo} (present : twoDevices.find name = some info) :
    (name = layerHash.1 ∧ info = ⟨layerHash.1, 2, 10, 2, false, false⟩) ∨
      (name = baseName ∧ info = ⟨baseName, 1, 10, 1, true, false⟩) := by
  rcases find_insert_eq_some.mp present with ⟨same, rfl⟩ | ⟨-, present⟩
  · exact .inl ⟨same, rfl⟩
  rcases find_insert_eq_some.mp present with ⟨same, rfl⟩ | ⟨-, present⟩
  · exact .inr ⟨same, rfl⟩
  · cases present

theorem twoDeviceWorld_knows {transaction : Transaction} {deviceId : Nat}
    (knows : Knows (twoDeviceWorld transaction) name deviceId) :
    (name = layerHash.1 ∧ deviceId = 2) ∨ (name = baseName ∧ deviceId = 1) := by
  obtain ⟨-, ⟨info, present, same⟩ | ⟨info, present, same⟩⟩ := knows <;>
  · rcases twoDevices_find present with ⟨named, rfl⟩ | ⟨named, rfl⟩
    · exact .inl ⟨named, same.symm⟩
    · exact .inr ⟨named, same.symm⟩

/-- The two devices agree when the transaction file names the layer and its id. -/
theorem twoDeviceWorld_agrees (opens : Nat) :
    Agrees (twoDeviceWorld ⟨opens, layerHash.1, 2⟩) where
  sound :=
    { stored := by
        intro name info present
        rcases twoDevices_find present with ⟨rfl, rfl⟩ | ⟨rfl, rfl⟩
        · exact ⟨layerHash.2, rfl, by decide⟩
        · exact ⟨baseHash.2, rfl, by decide⟩
      filed := by
        intro name info _ present
        rcases twoDevices_find present with ⟨rfl, rfl⟩ | ⟨rfl, rfl⟩
        · exact ⟨rfl, by decide⟩
        · exact ⟨rfl, by decide⟩
      marked := by
        intro name deviceId knows
        rcases twoDeviceWorld_knows knows with ⟨-, rfl⟩ | ⟨-, rfl⟩
        · exact (@marked_markDeviceIdUsed (markDeviceIdUsed ∅ 1) 2 2).mpr (.inl rfl)
        exact (@marked_markDeviceIdUsed (markDeviceIdUsed ∅ 1) 2 1).mpr
          (.inr ((@marked_markDeviceIdUsed ∅ 1 1).mpr (.inl rfl)))
      distinct := by
        intro name other deviceId knows knowsOther
        rcases twoDeviceWorld_knows knows with ⟨rfl, rfl⟩ | ⟨rfl, rfl⟩ <;>
        rcases twoDeviceWorld_knows knowsOther with ⟨rfl, ⟨⟩⟩ | ⟨rfl, ⟨⟩⟩ <;> rfl
      owned := by
        intro transaction written name knows
        cases written
        rcases twoDeviceWorld_knows knows with ⟨rfl, -⟩ | ⟨-, impossible⟩
        · exact (Transaction.owner_eq layerHash.2).symm
        · cases impossible
      synced := rfl }
  files := fun _ => rfl
  pool := by
    intro deviceId
    constructor
    · intro member
      rcases mem_cons.mp member with rfl | rest
      · exact ⟨layerHash.1, ⟨layerHash.1, 2, 10, 2, false, false⟩, rfl, rfl⟩
      rw [mem_singleton.mp rest]
      exact ⟨baseName, ⟨baseName, 1, 10, 1, true, false⟩, rfl, rfl⟩
    · rintro ⟨name, info, present, rfl⟩
      rcases twoDevices_find present with ⟨-, rfl⟩ | ⟨-, rfl⟩
      · exact mem_cons_self
      · exact mem_cons_of_mem _ mem_cons_self

/-- The answers of that many effects that all succeed. -/
def granted (count : Nat) : List Answer := List.replicate count {}

/-- Deleting the layer, cut off after the pool has deleted it, is completed by start-up. -/
theorem change_recovers_delete :
    ∃ world, RestartsTo ((Change.delete layerHash false).operation.routine.run
      (granted 5) (twoDeviceWorld ⟨2, layerHash.1, 2⟩)).2.disk world ∧
      Recovered (Registered (twoDeviceWorld ⟨2, layerHash.1, 2⟩))
        ((Change.delete layerHash false).carriedOut
          (Registered (twoDeviceWorld ⟨2, layerHash.1, 2⟩))) world := by
  have recovers := @change_recovers (twoDeviceWorld ⟨2, layerHash.1, 2⟩)
    (.delete layerHash false) (granted 5) (twoDeviceWorld_agrees 2)
    (fun transaction ahead => by cases ahead)
    (fun answer member => by rw [eq_of_mem_replicate member]; rfl)
  obtain ⟨world, restarts⟩ := recovers.1
  exact ⟨world, restarts, recovers.2 world restarts⟩

/-- What start-up does not undo. A layer that the pool refuses to delete stays registered, but
is deleted by start-up when the deletion was cut off before it closed its transaction. So is a
layer whose deletion failed without closing its transaction, whatever is cut off next. And a
layer whose file was not removed stays registered without its pool device. -/
theorem change_recovers_limits :
    (∀ opens, Agrees (twoDeviceWorld ⟨opens, layerHash.1, 2⟩)) ∧
    (∃ rest, ((deleteDevice layerHash false).run
        (granted 3 ++ [{ pool := .busy }] ++ granted 4)
        (twoDeviceWorld ⟨2, layerHash.1, 2⟩)).1 = some (true, rest) ∧
      ((deleteDevice layerHash false).run
        (granted 3 ++ [{ pool := .busy }] ++ granted 4)
        (twoDeviceWorld ⟨2, layerHash.1, 2⟩)).2.devset.metaStore.find layerHash.1 ≠ none) ∧
    (∃ world, RestartsTo ((deleteDevice layerHash false).run
        (granted 3 ++ [{ pool := .busy }] ++ granted 2)
        (twoDeviceWorld ⟨2, layerHash.1, 2⟩)).2.disk world ∧
      world.devset.metaStore.find layerHash.1 = none) ∧
    (∃ rest, (deleteDevice layerHash true).run
        (granted 3 ++ [{ pool := .reject }, { pool := .reject }])
        (twoDeviceWorld ⟨2, layerHash.1, 2⟩) =
          (some (false, rest), twoDeviceWorld ⟨3, layerHash.1, 2⟩)) ∧
    (∃ world, RestartsTo (twoDeviceWorld ⟨3, layerHash.1, 2⟩).disk world ∧
      world.devset.metaStore.find layerHash.1 = none) ∧
    (∃ world, RestartsTo ((deleteDevice layerHash false).run
        (granted 5 ++ [{ remove := false }] ++ granted 4)
        (twoDeviceWorld ⟨2, layerHash.1, 2⟩)).2.disk world ∧
      world.devset.metaStore.find layerHash.1 ≠ none ∧ 2 ∉ world.disk.pool) := by
  refine ⟨twoDeviceWorld_agrees, ⟨_, rfl, by decide +kernel⟩,
    ⟨_, ⟨0, 0, false, granted 30, _, by decide, rfl⟩, by decide +kernel⟩, ⟨_, rfl⟩,
    ⟨_, ⟨0, 0, false, granted 30, _, by decide, rfl⟩, by decide +kernel⟩,
    ⟨_, ⟨0, 0, false, granted 30, _, by decide, rfl⟩, by decide +kernel⟩⟩

end Isulad.DevMapper
