import Isulad.DevMapper.Rules

/-!
# Device ids are never shared

`Sound` is the invariant of the device set between and inside its operations. It
speaks of every device that is in the store or could be loaded into it, because
`lookup_device` registers a device it finds in a file without touching the bitmap.
-/

namespace Isulad.DevMapper

open DeviceTable Isulad.Std Isulad.Std.Program

/-- The store or a metadata file gives the device of this name this id. -/
def Knows (world : World) (name : Name) (deviceId : Nat) : Prop :=
  utilValidDeviceHash name = true ∧
    ((∃ info, world.devset.metaStore.find name = some info ∧ info.deviceId = deviceId) ∨
      ∃ info, world.disk.files.find name = some info ∧ info.deviceId = deviceId)

/-- The hash of a transaction as `load_transaction_metadata` reads it. -/
def Transaction.owner (transaction : Transaction) : Name :=
  if transaction.deviceHash = [] then baseName else transaction.deviceHash

theorem utilValidDeviceHash_ne_nil {hash : Name} (valid : utilValidDeviceHash hash = true) :
    hash ≠ [] := by
  rintro rfl
  exact absurd valid (by decide)

theorem Transaction.owner_eq {opens deviceId : Nat} {hash : Name}
    (valid : utilValidDeviceHash hash = true) : Transaction.owner ⟨opens, hash, deviceId⟩ = hash :=
  if_neg (utilValidDeviceHash_ne_nil valid)

/-- The invariant: known devices have ids of their own, which are marked used, and the
id in the transaction file is no other device's than the one it names. -/
structure Sound (world : World) : Prop where
  stored : ∀ {name info}, world.devset.metaStore.find name = some info →
    utilValidDeviceHash name = true ∧ info.hash = name ∧ info.deviceId ≤ maxDeviceId
  filed : ∀ {name info}, utilValidDeviceHash name = true →
    world.disk.files.find name = some info → info.hash = name ∧ info.deviceId ≤ maxDeviceId
  marked : ∀ {name deviceId}, Knows world name deviceId →
    Marked world.devset.deviceIdMap deviceId
  distinct : ∀ {name other deviceId}, Knows world name deviceId → Knows world other deviceId →
    name = other
  owned : ∀ {transaction}, world.disk.transaction = some transaction → ∀ {name},
    Knows world name transaction.deviceId → name = transaction.owner
  synced : world.devset.transactionId = world.disk.poolTransactionId

section Steps

variable {world world' : World} {name hash : Name} {deviceId : Nat} {info : DeviceInfo}

section

variable (sound : Sound world) {transaction : Transaction}
include sound

theorem Sound.knows_stored (present : world.devset.metaStore.find name = some info) :
    Knows world name info.deviceId :=
  ⟨(sound.stored present).1, .inl ⟨info, present, rfl⟩⟩

/-- A step that only forgets devices and marks ids keeps the invariant. -/
theorem Sound.forget (store : ∀ name info, world'.devset.metaStore.find name = some info →
      world.devset.metaStore.find name = some info)
    (files : ∀ name info, world'.disk.files.find name = some info → world.disk.files.find name =
      some info)
    (marks : ∀ name deviceId, Knows world' name deviceId →
      Marked world.devset.deviceIdMap deviceId → Marked world'.devset.deviceIdMap deviceId)
    (transaction : world'.disk.transaction = world.disk.transaction)
    (synced : world'.devset.transactionId = world'.disk.poolTransactionId) : Sound world' := by
  have known : ∀ {name deviceId}, Knows world' name deviceId → Knows world name deviceId := by
    rintro name deviceId ⟨valid, ⟨info, present, same⟩ | ⟨info, present, same⟩⟩
    · exact ⟨valid, .inl ⟨info, store name info present, same⟩⟩
    · exact ⟨valid, .inr ⟨info, files name info present, same⟩⟩
  exact
    { stored := fun present => sound.stored (store _ _ present)
      filed := fun valid present => sound.filed valid (files _ _ present)
      marked := fun knows => marks _ _ knows (sound.marked (known knows))
      distinct := fun knows others => sound.distinct (known knows) (known others)
      owned := fun {_} written {_} knows =>
        sound.owned (transaction ▸ written) (known knows)
      synced := synced }

/-- A step that changes neither devices nor marks nor the transactions keeps it. -/
theorem Sound.frame (store : world'.devset.metaStore = world.devset.metaStore)
    (map : world'.devset.deviceIdMap = world.devset.deviceIdMap)
    (files : world'.disk.files = world.disk.files)
    (transaction : world'.disk.transaction = world.disk.transaction)
    (synced : world'.devset.transactionId = world'.disk.poolTransactionId) : Sound world' :=
  sound.forget (fun _ _ present => store ▸ present) (fun _ _ present => files ▸ present)
    (fun _ _ _ marks => map ▸ marks) transaction synced

theorem Sound.unstored : Sound (unstored hash world) :=
  sound.forget (fun _ _ present => (find_erase_eq_some.mp present).2) (fun _ _ present => present)
    (fun _ _ _ marks => marks) rfl sound.synced

theorem Sound.unfiled : Sound (unfiled hash world) :=
  sound.forget (fun _ _ present => present) (fun _ _ present => (find_erase_eq_some.mp present).2)
    (fun _ _ _ marks => marks) rfl sound.synced

theorem Sound.freed (unused : ∀ name, ¬ Knows world name deviceId) :
    Sound (freed deviceId world) := by
  refine sound.forget (fun _ _ present => present) (fun _ _ present => present) ?_ rfl
    sound.synced
  intro name other knows marks
  refine marked_markDeviceIdFree.mpr ⟨?_, marks⟩
  rintro rfl
  exact unused name knows

theorem Sound.allotted : Sound (allotted deviceId world) :=
  sound.forget (fun _ _ present => present) (fun _ _ present => present)
    (fun _ _ _ marks => marked_markDeviceIdUsed.mpr (.inr marks)) rfl sound.synced

theorem Sound.announced : Sound (announced transaction world) :=
  sound.frame rfl rfl rfl rfl sound.synced

theorem Sound.opened
    (own : ∀ name, Knows world name transaction.deviceId → name = transaction.owner) :
    Sound (opened transaction world) :=
  { sound with
    owned := by
      intro written same name knows
      cases same
      exact own name knows }

end

/-- What it takes to give a device an id: the id is marked, no other device has it, and
the transaction file does not name it for another device. -/
structure Grantable (world : World) (name : Name) (deviceId : Nat) : Prop where
  valid : utilValidDeviceHash name = true
  marked : Marked world.devset.deviceIdMap deviceId
  alone : ∀ other, Knows world other deviceId → other = name
  owned : ∀ transaction, world.disk.transaction = some transaction →
    transaction.deviceId = deviceId → name = transaction.owner

section

variable (sound : Sound world)
include sound

theorem Sound.grantable (knows : Knows world name deviceId) :
    Grantable world name deviceId where
  valid := knows.1
  marked := sound.marked knows
  alone := fun _ other => sound.distinct other knows
  owned := by
    intro transaction written same
    exact sound.owned written (same ▸ knows)

/-- Learning a device keeps the invariant when its id is granted to it. -/
theorem Sound.learn (granted : Grantable world name deviceId)
    (learned : ∀ {other otherId}, Knows world' other otherId → Knows world other otherId ∨
      (other = name ∧ otherId = deviceId))
    (stored : ∀ {other info}, world'.devset.metaStore.find other = some info →
      utilValidDeviceHash other = true ∧ info.hash = other ∧ info.deviceId ≤ maxDeviceId)
    (filed : ∀ {other info}, utilValidDeviceHash other = true → world'.disk.files.find other =
      some info → info.hash = other ∧ info.deviceId ≤ maxDeviceId)
    (map : world'.devset.deviceIdMap = world.devset.deviceIdMap)
    (transaction : world'.disk.transaction = world.disk.transaction)
    (synced : world'.devset.transactionId = world'.disk.poolTransactionId) : Sound world' where
  stored := stored
  filed := filed
  marked := by
    intro other otherId knows
    rw [map]
    rcases learned knows with old | ⟨rfl, rfl⟩
    · exact sound.marked old
    · exact granted.marked
  distinct := by
    intro first second otherId knowsFirst knowsSecond
    rcases learned knowsFirst with oldFirst | ⟨rfl, rfl⟩
    · rcases learned knowsSecond with oldSecond | ⟨rfl, rfl⟩
      · exact sound.distinct oldFirst oldSecond
      · exact granted.alone _ oldFirst
    · rcases learned knowsSecond with oldSecond | ⟨rfl, -⟩
      · exact (granted.alone _ oldSecond).symm
      · rfl
  owned := by
    intro written same other knows
    rw [transaction] at same
    rcases learned knows with old | ⟨rfl, sameId⟩
    · exact sound.owned same old
    · exact granted.owned written same sameId
  synced := synced

section

variable (granted : Grantable world info.hash info.deviceId) (bound : info.deviceId ≤ maxDeviceId)
include granted bound

theorem Sound.stored_granted :
    Sound (DevMapper.stored info.hash info world) := by
  refine sound.learn granted ?_ ?_ sound.filed rfl rfl sound.synced
  · rintro other otherId ⟨valid, ⟨known, present, same⟩ | file⟩
    · rcases find_insert_eq_some.mp present with ⟨sameName, rfl⟩ | ⟨-, present⟩
      · exact .inr ⟨sameName, same.symm⟩
      · exact .inl ⟨valid, .inl ⟨known, present, same⟩⟩
    · exact .inl ⟨valid, .inr file⟩
  · intro other known present
    rcases find_insert_eq_some.mp present with ⟨rfl, rfl⟩ | ⟨-, present⟩
    · exact ⟨granted.valid, rfl, bound⟩
    · exact sound.stored present

theorem Sound.filed_granted :
    Sound (DevMapper.filed info world) := by
  refine sound.learn granted ?_ sound.stored ?_ rfl rfl sound.synced
  · rintro other otherId ⟨valid, store | ⟨known, present, same⟩⟩
    · exact .inl ⟨valid, .inl store⟩
    · rcases find_insert_eq_some.mp present with ⟨sameName, rfl⟩ | ⟨-, present⟩
      · exact .inr ⟨sameName, same.symm⟩
      · exact .inl ⟨valid, .inr ⟨known, present, same⟩⟩
  · intro other known valid present
    rcases find_insert_eq_some.mp present with ⟨sameName, rfl⟩ | ⟨-, present⟩
    · exact ⟨sameName.symm, bound⟩
    · exact sound.filed valid present

end

theorem Sound.created : Sound (created deviceId world) :=
  sound.frame rfl rfl rfl rfl sound.synced

theorem Sound.destroyed : Sound (destroyed deviceId world) :=
  sound.frame rfl rfl rfl rfl sound.synced

theorem Sound.closed : Sound (closed world) :=
  sound.frame rfl rfl rfl rfl rfl

end

/-- A device that is out of the store and has no file any more is not known. -/
theorem Knows.of_unregistered
    (knows : Knows (DevMapper.unfiled hash (DevMapper.unstored hash world)) name deviceId) :
    name ≠ hash ∧ Knows world name deviceId := by
  obtain ⟨valid, ⟨info, present, same⟩ | ⟨info, present, same⟩⟩ := knows
  · obtain ⟨different, present⟩ := find_erase_eq_some.mp present
    exact ⟨different, valid, .inl ⟨info, present, same⟩⟩
  · obtain ⟨different, present⟩ := find_erase_eq_some.mp present
    exact ⟨different, valid, .inr ⟨info, present, same⟩⟩

/-- Taking a device out of the store again leaves nothing new known. -/
theorem knows_of_unstored_stored
    (knows : Knows (DevMapper.unstored hash (DevMapper.stored hash info world)) name deviceId) :
    Knows world name deviceId := by
  obtain ⟨valid, ⟨known, present, same⟩ | file⟩ := knows
  · obtain ⟨different, present⟩ := find_erase_eq_some.mp present
    rcases find_insert_eq_some.mp present with ⟨sameName, -⟩ | ⟨-, present⟩
    · exact absurd sameName different
    · exact ⟨valid, .inl ⟨known, present, same⟩⟩
  · exact ⟨valid, .inr file⟩

theorem find_stored :
    (DevMapper.stored hash info world).devset.metaStore.find hash = some info := by
  change DeviceTable.find (world.devset.metaStore.insert hash info) hash = some info
  rw [find_insert, if_pos rfl]

end Steps

/-- The answers admitted here: the removal of a metadata file succeeds. -/
def Removes (answer : Answer) : Prop := answer.remove = true

section Routines

variable {world : World} {hash : Name} {deviceId size : Nat} {info : DeviceInfo}
  {post : Option DeviceInfo → World → Prop}

theorem sound_lookupDevice (sound : Sound world) (valid : utilValidDeviceHash hash = true)
    (missing : post none world)
    (found : ∀ info world', Sound world' → world'.devset.metaStore.find hash = some info →
      post (some info) world') :
    Ensures Removes (lookupDevice hash) Sound post world := by
  refine ensures_lookupDevice (utilValidDeviceHash_ne_nil valid) sound ?_ (fun _ _ => missing) ?_
  · intro info present
    exact found info world sound present
  · intro info _ present bound
    have named : info.hash = hash := (sound.filed valid present).1
    have knows : Knows world info.hash info.deviceId :=
      named ▸ ⟨valid, .inr ⟨info, present, rfl⟩⟩
    rw [show loaded hash info = info from if_neg (named ▸ utilValidDeviceHash_ne_nil valid)]
    have kept := sound.stored_granted (sound.grantable knows) bound
    rw [named] at kept
    exact found info _ kept find_stored

/-- An id has just been handed out, and the transaction file names the hash it is for. -/
structure Creating (hash : Name) (deviceId : Nat) (world : World) : Prop where
  sound : Sound world
  valid : utilValidDeviceHash hash = true
  marked : Marked world.devset.deviceIdMap deviceId
  unused : ∀ name, ¬ Knows world name deviceId
  bound : deviceId ≤ maxDeviceId
  written : ∀ transaction, world.disk.transaction = some transaction → transaction.owner = hash
  noted : world.devset.metadataTrans.deviceHash = hash

theorem Sound.not_knows_free (sound : Sound world)
    (free : isDeviceIdFree world.devset.deviceIdMap deviceId = true) (name : Name) :
    ¬ Knows world name deviceId := by
  intro knows
  have marked : isDeviceIdFree world.devset.deviceIdMap deviceId = false := sound.marked knows
  rw [free] at marked
  cases marked

/-- The creation loop ends without the id, or with a device of the id in the pool. -/
theorem creating_loop {message : Nat → Routine PoolResult} {mustRefresh : Bool}
    (creates : CreatesDevice message) (creating : Creating hash deviceId world) :
    Ensures Removes (loop (createTurn message mustRefresh) deviceId) Sound
      (fun result world' => match result with
        | none => Sound world'
        | some made => Creating hash made world') world := by
  refine ensures_loop (fun made world' => Creating hash made world') creating
    (fun _ _ holds => holds.sound) ?_
  intro made world' holds
  refine ensures_bind (creates holds.sound ?_ (fun _ => ?_) (fun _ => ?_))
  · -- the message failed: the id is given back
    exact ensures_bind (ensures_markFree holds.sound
      (ensures_pure (holds.sound.freed holds.unused)))
  · -- the pool has the id already: it stays marked and another one is tried
    refine ensures_bind (ensures_getNextFreeDeviceId holds.sound (fun next => ?_) ?_)
    · exact ensures_pure (holds.sound.frame rfl rfl rfl rfl holds.sound.synced)
    · intro other free bound
      have allotted : Sound (allotted other world') := holds.sound.allotted
      have unused := holds.sound.not_knows_free free
      have marked : Marked (DevMapper.allotted other world').devset.deviceIdMap other :=
        marked_markDeviceIdUsed.mpr (.inl rfl)
      let renewed : Transaction :=
        ⟨world'.devset.metadataTrans.openTransactionId, world'.devset.metadataTrans.deviceHash,
          other⟩
      have owner : renewed.owner = hash := by
        change Transaction.owner ⟨_, world'.devset.metadataTrans.deviceHash, other⟩ = hash
        rw [holds.noted]
        exact Transaction.owner_eq holds.valid
      refine ensures_bind (ensures_refreshTransaction allotted allotted.announced ?_ ?_)
      · refine ensures_ite (fun _ => ensures_pure allotted.announced) (fun _ => ensures_pure ?_)
        exact ⟨allotted.announced, holds.valid, marked, unused, bound, holds.written, holds.noted⟩
      · have reopened : Sound (opened renewed (DevMapper.allotted other world')) :=
          allotted.opened fun name knows => absurd knows (unused name)
        refine ensures_ite (fun _ => ensures_pure reopened) (fun _ => ensures_pure ?_)
        refine ⟨reopened, holds.valid, marked, unused, bound, ?_, holds.noted⟩
        rintro transaction ⟨⟩
        exact owner
  · exact ensures_pure { holds with sound := holds.sound.created }

/-- Giving an id back after the pool was asked to delete its device. -/
theorem sound_release (sound : Sound world) (unused : ∀ name, ¬ Knows world name deviceId)
    (holds : ∀ world', Sound world' → post none world') :
    Ensures Removes (devDeleteDevice deviceId >>= fun _ => markFree deviceId >>= fun _ =>
      pure none) Sound post world := by
  have release : ∀ world', Sound world' → (∀ name, ¬ Knows world' name deviceId) →
      Ensures Removes (markFree deviceId >>= fun _ => pure none) Sound post world' :=
    fun world' sound' unused' => ensures_bind (ensures_markFree sound'
      (ensures_pure (holds _ (sound'.freed unused'))))
  exact ensures_bind (ensures_devDeleteDevice sound (release _ sound.destroyed unused)
    (fun _ _ _ => release _ sound unused) (fun _ _ _ => release _ sound unused))

/-- A device that is in the store is unregistered, and then nothing has its id. -/
theorem sound_unregisterDevice {post : Bool → World → Prop} (sound : Sound world)
    (present : world.devset.metaStore.find hash = some info)
    (holds : ∀ world', Sound world' → (∀ name, ¬ Knows world' name info.deviceId) →
      post true world') :
    Ensures Removes (unregisterDevice hash) Sound post world := by
  have member : hash ∈ world.devset.metaStore := mem_iff.mpr ⟨info, present⟩
  refine ensures_bind (ensures_metadataStoreRemove sound ?_)
  rw [decide_eq_true member]
  refine ensures_removeMetadata sound.unstored ?_ ?_
  · intro answer removes kept
    rw [removes] at kept
    cases kept
  · refine holds _ sound.unstored.unfiled fun name knows => ?_
    obtain ⟨different, known⟩ := knows.of_unregistered
    exact different (sound.distinct known (sound.knows_stored present))

/-- The part behind the loop registers the device under its hash or gives the id back. -/
theorem sound_registerCreated (creating : Creating hash deviceId world) :
    Ensures Removes (registerCreated hash size deviceId) Sound
      (fun result world' => Sound world' ∧ ∀ info, result = some info →
        world'.devset.metaStore.find hash = some info) world := by
  refine ensures_bind (ensures_read (ensures_bind ?_))
  generalize world.devset.metadataTrans.openTransactionId = transactionId
  have granted : Grantable world hash deviceId :=
    { valid := creating.valid
      marked := creating.marked
      alone := fun other knows => absurd knows (creating.unused other)
      owned := fun transaction written _ => (creating.written transaction written).symm }
  let info : DeviceInfo := ⟨hash, deviceId, size, transactionId, false, false⟩
  have inStore : Sound (stored info.hash info world) :=
    creating.sound.stored_granted granted creating.bound
  have present : (stored hash info world).devset.metaStore.find hash = some info := find_stored
  refine ensures_bind (ensures_metadataStoreAdd creating.sound
    (ensures_bind (ensures_saveMetadata inStore ?_ ?_)))
  · -- the metadata file could not be written
    refine ensures_bind (ensures_metadataStoreRemove inStore (ensures_pure ?_))
    refine sound_release inStore.unstored ?_ (fun _ sound => ⟨sound, nofun⟩)
    exact fun name knows => creating.unused name (knows_of_unstored_stored knows)
  · have onFile : Sound (filed info (stored hash info world)) :=
      inStore.filed_granted (inStore.grantable (inStore.knows_stored present)) creating.bound
    refine ensures_pure (ensures_bind (ensures_closeTransaction onFile ?_ (fun _ => ?_)))
    · -- the transaction could not be closed: everything is undone
      refine ensures_bind (sound_unregisterDevice onFile present ?_)
      exact fun world' sound unused =>
        sound_release sound unused (fun _ sound' => ⟨sound', nofun⟩)
    · refine ensures_pure ⟨onFile.closed, ?_⟩
      rintro _ ⟨⟩
      exact present

section

variable (sound : Sound world) {update baseInfo : DeviceInfo} {syncDelete mustRefresh : Bool}
  {size baseSize : Nat}
include sound

/-- Both creation routines end with the device registered, or with nothing registered. -/
theorem sound_createRegister {message : Nat → Routine PoolResult} (creates : CreatesDevice message)
    (valid : utilValidDeviceHash hash = true) :
    Ensures Removes (createRegister message mustRefresh hash size) Sound
      (fun result world' => Sound world' ∧ ∀ info, result = some info →
        world'.devset.metaStore.find hash = some info) world := by
  have nothing : ∀ world', Sound world' → Sound world' ∧ ∀ info : DeviceInfo,
      none = some info → world'.devset.metaStore.find hash = some info :=
    fun world' sound' => ⟨sound', nofun⟩
  refine ensures_bind (ensures_getNextFreeDeviceId sound (fun next => ?_) ?_)
  · exact ensures_pure (nothing _ (sound.frame rfl rfl rfl rfl sound.synced))
  · intro deviceId free bound
    have allotted : Sound (allotted deviceId world) := sound.allotted
    have unused := sound.not_knows_free free
    let transaction : Transaction := ⟨world.devset.transactionId + 1, hash, deviceId⟩
    have begun : Sound (opened transaction (DevMapper.allotted deviceId world)) :=
      allotted.opened fun name knows => absurd knows (unused name)
    refine ensures_bind (ensures_openTransaction allotted allotted.announced ?_ ?_)
    · exact ensures_bind (ensures_markFree allotted.announced
        (ensures_pure (nothing _ (allotted.announced.freed unused))))
    · refine ensures_bind (ensures_query begun fun named => ?_)
      refine ensures_ite (fun _ => ?_) (fun _ => ensures_pure (nothing _ begun))
      have creating : Creating hash deviceId
          (opened transaction (DevMapper.allotted deviceId world)) :=
        { sound := begun
          valid := valid
          marked := marked_markDeviceIdUsed.mpr (.inl rfl)
          unused := unused
          bound := bound
          written := by
            rintro _ ⟨⟩
            exact Transaction.owner_eq valid
          noted := rfl }
      refine ensures_bind ((creating_loop creates creating).mono ?_)
      intro made world' holds
      cases made with
      | none => exact ensures_pure (nothing _ holds)
      | some made => exact sound_registerCreated holds

theorem sound_takeSnapshot (valid : utilValidDeviceHash hash = true) :
    Ensures Removes (takeSnapshot hash baseInfo size) Sound (fun _ => Sound) world := by
  refine ensures_bind (ensures_query sound fun prepared => ?_)
  refine ensures_ite (fun _ => ?_) (fun _ => ensures_pure sound)
  have creates : CreatesDevice (devCreateSnapDeviceRaw baseInfo.deviceId) :=
    createsDevice_devCreateSnapDeviceRaw baseInfo.deviceId
  exact ensures_bind ((sound_createRegister sound creates valid).mono
    fun _ _ holds => ensures_pure holds.1)

theorem Sound.restored (knows : Knows world info.hash info.deviceId)
    (bound : info.deviceId ≤ maxDeviceId) (sameHash : update.hash = info.hash)
    (sameId : update.deviceId = info.deviceId) :
    Sound (DevMapper.stored info.hash update world) := by
  have granted : Grantable world update.hash update.deviceId := by
    rw [sameHash, sameId]
    exact sound.grantable knows
  have kept := sound.stored_granted granted (sameId.symm ▸ bound)
  rwa [sameHash] at kept

/-- Rewriting a registered device's info, in the store and then in its file. -/
theorem sound_rewrite {saved undo : Routine Bool}
    (present : world.devset.metaStore.find info.hash = some info)
    (sameHash : update.hash = info.hash) (sameId : update.deviceId = info.deviceId)
    (saves : ∀ world', Sound world' → Ensures Removes saved Sound (fun _ => Sound) world')
    (undoes : ∀ world', Sound world' → Knows world' info.hash info.deviceId →
      Ensures Removes undo Sound (fun _ => Sound) world') :
    Ensures Removes (metadataStoreAdd info.hash update >>= fun _ => saveMetadata update >>=
      fun done => if done = true then saved else undo) Sound (fun _ => Sound) world := by
  have knows := sound.knows_stored present
  have inStore := sound.restored knows (sound.stored present).2.2 sameHash sameId
  have knowsStored : Knows (stored info.hash update world) info.hash info.deviceId :=
    ⟨knows.1, .inl ⟨update, find_stored, sameId⟩⟩
  refine ensures_bind (ensures_metadataStoreAdd sound
    (ensures_bind (ensures_saveMetadata inStore (undoes _ inStore knowsStored) (saves _ ?_))))
  refine inStore.filed_granted ?_ (sameId.symm ▸ (sound.stored present).2.2)
  rw [sameHash, sameId]
  exact inStore.grantable knowsStored

/-- Putting the old info back after its new version could not be written. -/
theorem sound_putBack (knows : Knows world info.hash info.deviceId)
    (bound : info.deviceId ≤ maxDeviceId) :
    Ensures Removes (metadataStoreAdd info.hash info >>= fun _ => pure false) Sound
      (fun _ => Sound) world :=
  ensures_bind (ensures_metadataStoreAdd sound
    (ensures_pure (sound.restored knows bound rfl rfl)))

section

variable (present : world.devset.metaStore.find info.hash = some info)
include present

theorem sound_markForDeferredDeletion :
    Ensures Removes (markForDeferredDeletion info) Sound (fun _ => Sound) world := by
  refine ensures_ite (fun _ => ensures_pure sound) (fun _ => ?_)
  refine sound_rewrite sound present rfl rfl ?_ ?_
  · intro world' sound'
    exact ensures_bind (ensures_change sound'
      (ensures_pure (sound'.frame rfl rfl rfl rfl sound'.synced)))
  · intro world' sound' knows
    exact sound_putBack sound' knows (sound.stored present).2.2

theorem sound_deleteTransaction :
    Ensures Removes (deleteTransaction info syncDelete) Sound (fun _ => Sound) world := by
  let transaction : Transaction := ⟨world.devset.transactionId + 1, info.hash, info.deviceId⟩
  have knows := sound.knows_stored present
  have begun : Sound (opened transaction world) := sound.opened fun name other => by
    rw [Transaction.owner_eq knows.1]
    exact sound.distinct other knows
  refine ensures_bind (ensures_openTransaction sound sound.announced ?_ ?_)
  · exact ensures_pure sound.announced
  · have closing : ∀ (result : Bool) (world' : World), Sound world' →
        Ensures Removes (closeTransaction >>= fun _ => pure result) Sound
          (fun _ => Sound) world' :=
      fun result world' sound' => ensures_bind (ensures_closeTransaction sound'
        (ensures_pure sound') (fun _ => ensures_pure sound'.closed))
    refine ensures_bind (.mono ?_ closing)
    refine ensures_bind (ensures_devDeleteDevice begun ?_ (fun _ _ _ => ?_) (fun _ _ _ => ?_))
    · refine ensures_bind (sound_unregisterDevice begun.destroyed present ?_)
      intro world' sound' unused
      have counted : ∀ count, Sound (onDevset (fun devset =>
          { devset with nrDeletedDevices := count }) world') :=
        fun _ => sound'.frame rfl rfl rfl rfl sound'.synced
      exact ensures_bind (ensures_change sound' (ensures_bind (ensures_markFree (counted _)
        (ensures_pure ((counted _).freed unused)))))
    · exact ensures_ite (fun _ => ensures_pure begun)
        (fun _ => sound_markForDeferredDeletion begun present)
    · exact ensures_pure begun

end

theorem sound_doDeleteDevice (valid : utilValidDeviceHash hash = true) :
    Ensures Removes (doDeleteDevice hash syncDelete) Sound (fun _ => Sound) world := by
  refine ensures_bind (sound_lookupDevice sound valid (ensures_pure sound) ?_)
  intro info world' sound' present
  refine ensures_bind (ensures_query sound' fun deactivated => ?_)
  refine ensures_ite (fun _ => ?_) (fun _ => ensures_pure sound')
  exact sound_deleteTransaction sound' ((sound'.stored present).2.1.symm ▸ present)

theorem sound_cleanupDeletedDevices :
    Ensures Removes cleanupDeletedDevices Sound (fun _ => Sound) world := by
  refine ensures_bind (ensures_read ?_)
  by_cases none : world.devset.nrDeletedDevices = 0
  · simp only [if_pos none]
    exact ensures_pure sound
  · simp only [if_neg none]
    have pass := @ensures_forEach _ _ _ Removes Sound world
      (fun rest world' => Sound world' ∧ ∀ hash ∈ rest, utilValidDeviceHash hash = true)
    refine .mono (pass ⟨sound, ?_⟩ ?_) fun _ _ holds => holds.1
    · intro hash member
      obtain ⟨info, present⟩ := mem_iff.mp (AList.mem_keys.mpr member)
      exact (sound.stored present).1
    · rintro hash rest world' ⟨sound', valid⟩
      have remaining : ∀ other ∈ rest, utilValidDeviceHash other = true :=
        fun other member => valid other (List.mem_cons_of_mem _ member)
      have here : utilValidDeviceHash hash = true := valid hash List.mem_cons_self
      refine ensures_bind (sound_lookupDevice sound' here (ensures_pure ⟨sound', remaining⟩) ?_)
      intro found world'' sound'' _
      refine ensures_ite (fun _ => ?_) (fun _ => ensures_pure ⟨sound'', remaining⟩)
      exact ensures_bind ((sound_doDeleteDevice sound'' here).mono
        fun _ _ holds => ensures_pure ⟨holds, remaining⟩)

theorem sound_growDeviceFs (valid : utilValidDeviceHash hash = true) :
    Ensures Removes (growDeviceFs hash size baseSize) Sound (fun _ => Sound) world := by
  unfold growDeviceFs
  by_cases small : size ≤ baseSize
  · simp only [if_pos small]
    exact ensures_pure sound
  · simp only [if_neg small]
    exact ensures_bind (sound_lookupDevice sound valid (ensures_pure sound)
      fun _ _ sound' _ => ensures_query sound' fun _ => sound')

theorem sound_addDevice {hash : DeviceHash} {base : Option DeviceHash} {storageSize : Option Nat} :
    Ensures Removes (addDevice hash base storageSize) Sound (fun _ => Sound) world := by
  refine ensures_bind (sound_lookupDevice sound (base.getD baseHash).2 (ensures_pure sound) ?_)
  intro baseInfo world₁ sound₁ _
  refine ensures_ite (fun _ => ensures_pure sound₁) (fun _ => ?_)
  refine ensures_bind (sound_lookupDevice sound₁ hash.2 ?_ fun _ _ sound₂ _ => ensures_pure sound₂)
  cases storageSize with
  | none => exact ensures_pure sound₁
  | some requested =>
    simp only
    generalize (if requested = 0 then baseInfo.size else requested) = size
    by_cases small : size < baseInfo.size
    · simp only [if_pos small]
      exact ensures_pure sound₁
    · simp only [if_neg small]
      refine ensures_bind ((sound_takeSnapshot sound₁ hash.2).mono fun taken world₂ sound₂ => ?_)
      refine ensures_ite (fun _ => ?_) (fun _ => ensures_pure sound₂)
      refine ensures_bind ((sound_growDeviceFs sound₂ hash.2).mono fun grown world₃ sound₃ => ?_)
      refine ensures_ite (fun _ => ensures_pure sound₃) (fun _ => ?_)
      exact ensures_bind ((sound_doDeleteDevice sound₃ hash.2).mono
        fun _ _ sound₄ => ensures_pure sound₄)

theorem sound_createBaseImage :
    Ensures Removes createBaseImage Sound (fun _ => Sound) world := by
  refine ensures_bind (.mono (ensures_bind (ensures_read
    (sound_createRegister sound (createsDevice_call _ fun _ => rfl) baseHash.2))) ?_)
  rintro (_ | info) world' ⟨sound', present⟩
  · exact ensures_pure sound'
  · have registered := present info rfl
    refine ensures_bind (ensures_query sound' fun formatted => ?_)
    refine ensures_ite (fun _ => ?_) (fun _ => ensures_pure sound')
    refine sound_rewrite sound' ((sound'.stored registered).2.1.symm ▸ registered) rfl rfl
      (fun world'' sound'' => ensures_query sound'' fun _ => sound'') ?_
    intro world'' sound'' knows
    exact sound_putBack sound'' knows (sound'.stored registered).2.2

theorem sound_checkGrowBaseDeviceFs (present : world.devset.metaStore.find info.hash = some info) :
    Ensures Removes (checkGrowBaseDeviceFs info) Sound (fun _ => Sound) world := by
  refine ensures_bind (ensures_read ?_)
  refine ensures_ite (fun _ => ensures_pure sound) (fun _ => ?_)
  by_cases smaller : world.devset.baseFsSize < info.size
  · rw [if_pos smaller]
    exact ensures_pure sound
  · rw [if_neg smaller]
    by_cases same : world.devset.baseFsSize = info.size
    · rw [if_pos same]
      exact ensures_pure sound
    · rw [if_neg same]
      refine sound_rewrite sound present rfl rfl
        (fun world' sound' => ensures_query sound' fun _ => sound') ?_
      intro world' sound' _
      exact ensures_bind (ensures_metadataStoreRemove sound' (ensures_pure sound'.unstored))

theorem sound_setupBaseImage :
    Ensures Removes setupBaseImage Sound (fun _ => Sound) world := by
  refine ensures_bind (sound_lookupDevice sound baseHash.2 ?_ ?_)
  · refine ensures_bind (ensures_query sound fun empty => ?_)
    exact ensures_ite (fun _ => sound_createBaseImage sound) (fun _ => ensures_pure sound)
  · intro info world' sound' present
    refine ensures_ite (fun _ => ?_) (fun _ => ?_)
    · refine ensures_bind (ensures_query sound' fun verified => ?_)
      refine ensures_ite (fun _ => ?_) (fun _ => ensures_pure sound')
      exact sound_checkGrowBaseDeviceFs sound' ((sound'.stored present).2.1.symm ▸ present)
    · refine ensures_bind
        ((sound_doDeleteDevice sound' baseHash.2).mono fun deleted _ sound'' => ?_)
      exact ensures_ite (fun _ => sound_createBaseImage sound'') (fun _ => ensures_pure sound'')

end

end Routines

end Isulad.DevMapper
