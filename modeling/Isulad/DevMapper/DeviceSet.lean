import Isulad.DevMapper.DeviceId
import Isulad.Std.Program

/-!
# The device set of the devicemapper driver

The operations of `devmapper/deviceset.c` as programs over a world of two parts.
The disk is what survives a crash: the metadata files, the transaction file and the
thin pool. The device set is the daemon's memory. Each call of the kernel or of the
file system, and each change of memory, is one step of a program, so a program can be
cut off between any two of them.
-/

namespace Isulad.DevMapper

open Isulad.Std

/-- The characters of a device hash or a file name. -/
abbrev Name := List Char

/-- The name of the base device. -/
def baseName : Name := "base".toList

variable (hash : Name) (deviceId : Nat) (info baseInfo : DeviceInfo)

/-- `util_valid_device_hash`: `base`, or 64 lower case hexadecimal digits. -/
def utilValidDeviceHash : Bool :=
  hash == baseName ||
    (hash.length == 64 && hash.all fun c => c.isDigit || ('a' ≤ c && c ≤ 'f'))

/-- A hash that the driver's callers pass: layers are named by 64 hexadecimal digits. -/
abbrev DeviceHash := { hash : Name // utilValidDeviceHash hash = true }

/-- The base device's hash. -/
def baseHash : DeviceHash := ⟨baseName, by decide⟩

/-- `image_devmapper_device_info`. -/
structure DeviceInfo where
  hash : Name
  deviceId : Nat
  size : Nat
  transactionId : Nat
  initialized : Bool
  deleted : Bool
  deriving DecidableEq, Repr

/-- `image_devmapper_transaction`. -/
structure Transaction where
  openTransactionId : Nat
  deviceHash : Name
  deviceId : Nat
  deriving DecidableEq, Repr

/-- Device infos by hash. -/
abbrev DeviceTable := AList fun _ : Name => DeviceInfo

/-- The info of a hash. -/
def DeviceTable.find (table : DeviceTable) (hash : Name) : Option DeviceInfo :=
  AList.lookup hash table

@[simp] theorem DeviceTable.find_insert (table : DeviceTable) (hash other : Name)
    (info : DeviceInfo) :
    DeviceTable.find (table.insert hash info) other =
      if other = hash then some info else table.find other := by
  by_cases same : other = hash
  · subst same
    simp [DeviceTable.find]
  · simp [DeviceTable.find, same, AList.lookup_insert_ne same]

@[simp] theorem DeviceTable.find_erase (table : DeviceTable) (hash other : Name) :
    DeviceTable.find (table.erase hash) other =
      if other = hash then none else table.find other := by
  by_cases same : other = hash
  · subst same
    simp [DeviceTable.find]
  · simp [DeviceTable.find, same, AList.lookup_erase_ne same]

theorem DeviceTable.find_erase_eq_some {table : DeviceTable} {hash other : Name}
    {info : DeviceInfo} :
    DeviceTable.find (table.erase hash) other = some info ↔
      other ≠ hash ∧ table.find other = some info := by
  rw [find_erase]
  split <;> simp [*]

theorem DeviceTable.find_insert_eq_some {table : DeviceTable} {hash other : Name}
    {info found : DeviceInfo} : DeviceTable.find (table.insert hash info) other = some found ↔
      (other = hash ∧ info = found) ∨ other ≠ hash ∧ table.find other = some found := by
  rw [find_insert]
  split <;> simp [*]

@[simp] theorem DeviceTable.find_empty : DeviceTable.find ∅ hash = none := by
  simp [DeviceTable.find]

theorem DeviceTable.mem_iff {table : DeviceTable} {hash : Name} :
    hash ∈ table ↔ ∃ info, table.find hash = some info := by
  rw [← AList.lookup_isSome, Option.isSome_iff_exists]
  rfl

/-- What survives a crash. -/
structure Disk where
  files : DeviceTable
  transaction : Option Transaction
  pool : List Nat
  poolTransactionId : Nat

/-- The fields of `struct device_set` that the operations read and write. -/
structure DeviceSet where
  transactionId : Nat
  nextDeviceId : Nat
  deviceIdMap : IdMap
  metaStore : DeviceTable
  metadataTrans : Transaction
  nrDeletedDevices : UInt32
  baseFsSize : Nat
  userBaseSize : Bool

/-- The disk and the daemon's memory. -/
structure World where
  disk : Disk
  devset : DeviceSet

/-- How the thin pool answers a message. -/
inductive PoolAnswer where
  | accept
  | busy
  | reject
  deriving DecidableEq, Repr

/-- The answers a step can get; each step looks at the one that concerns it. -/
structure Answer where
  pool : PoolAnswer := .accept
  write : Bool := true
  remove : Bool := true
  query : Bool := true

/-- The outcome of a pool message. -/
inductive PoolResult where
  | done
  | idExists
  | busy
  | failed
  deriving DecidableEq, Repr

/-- A routine of the driver. -/
abbrev Routine := Program World Answer

/-- A question to the kernel or the file system that changes nothing here. -/
def query : Routine Bool := .call fun answer world => (answer.query, world)

/-- A step on the disk. -/
def onDisk (update : Disk → Disk) (world : World) : World :=
  { world with disk := update world.disk }

/-- A step in memory. -/
def onDevset (update : DeviceSet → DeviceSet) (world : World) : World :=
  { world with devset := update world.devset }

/-- `dev_create_device`. -/
def devCreateDevice : Routine PoolResult :=
  .call fun answer world =>
    if answer.pool ≠ .accept then (.failed, world)
    else if deviceId ∈ world.disk.pool then (.idExists, world)
    else (.done, onDisk (fun disk => { disk with pool := deviceId :: disk.pool }) world)

/-- `dev_create_snap_device_raw`. -/
def devCreateSnapDeviceRaw (baseDeviceId deviceId : Nat) : Routine PoolResult :=
  .call fun answer world =>
    if answer.pool ≠ .accept ∨ baseDeviceId ∉ world.disk.pool then (.failed, world)
    else if deviceId ∈ world.disk.pool then (.idExists, world)
    else (.done, onDisk (fun disk => { disk with pool := deviceId :: disk.pool }) world)

/-- `dev_delete_device`. A device that the pool does not have counts as deleted. -/
def devDeleteDevice : Routine PoolResult :=
  .call fun answer world =>
    match answer.pool with
    | .accept =>
      (.done, onDisk (fun disk => { disk with pool := disk.pool.filter (· ≠ deviceId) }) world)
    | .busy => (.busy, world)
    | .reject => (.failed, world)

/-- `save_metadata`. -/
def saveMetadata : Routine Bool :=
  .call fun answer world =>
    if answer.write then
      (true, onDisk (fun disk => { disk with files := disk.files.insert info.hash info }) world)
    else (false, world)

/-- `remove_metadata`. -/
def removeMetadata : Routine Bool :=
  .call fun answer world =>
    if answer.remove then
      (true, onDisk (fun disk => { disk with files := disk.files.erase hash }) world)
    else (false, world)

/-- `save_transaction_metadata`. -/
def saveTransactionMetadata : Routine Bool :=
  .call fun answer world =>
    if answer.write then
      (true, onDisk (fun disk =>
        { disk with transaction := some world.devset.metadataTrans }) world)
    else (false, world)

/-- `remove_transaction_metadata`. -/
def removeTransactionMetadata : Routine Bool :=
  .call fun answer world =>
    if answer.remove then (true, onDisk (fun disk => { disk with transaction := none }) world)
    else (false, world)

/-- `update_pool_transaction_id`. The pool refuses an old id that is not its own. -/
def updatePoolTransactionId : Routine Bool :=
  .call fun answer world =>
    if answer.pool = .accept ∧ world.disk.poolTransactionId = world.devset.transactionId then
      let opened := world.devset.metadataTrans.openTransactionId
      (true, onDevset (fun devset => { devset with transactionId := opened })
        (onDisk (fun disk => { disk with poolTransactionId := opened }) world))
    else (false, world)

/-- `metadata_store_add`. -/
def metadataStoreAdd : Routine Unit :=
  .change (onDevset fun devset => { devset with metaStore := devset.metaStore.insert hash info })

/-- `metadata_store_remove`, which tells whether the hash was there. -/
def metadataStoreRemove : Routine Bool :=
  .call fun _ world =>
    (decide (hash ∈ world.devset.metaStore),
      onDevset (fun devset => { devset with metaStore := devset.metaStore.erase hash }) world)

/-- Mark a device id used. -/
def markUsed : Routine Unit :=
  .change (onDevset fun devset =>
    { devset with deviceIdMap := markDeviceIdUsed devset.deviceIdMap deviceId })

/-- Mark a device id free. -/
def markFree : Routine Unit :=
  .change (onDevset fun devset =>
    { devset with deviceIdMap := markDeviceIdFree devset.deviceIdMap deviceId })

/-- The device set after `get_next_free_device_id`, and the id. -/
def nextFreeDeviceId (devset : DeviceSet) : Option Nat × DeviceSet :=
  match scanDeviceIds devset.deviceIdMap (maxDeviceId + 1)
      (incNextDeviceId devset.nextDeviceId) with
  | (none, next) => (none, { devset with nextDeviceId := next })
  | (some deviceId, next) =>
    (some deviceId, { devset with
      nextDeviceId := next
      deviceIdMap := markDeviceIdUsed devset.deviceIdMap deviceId })

/-- `get_next_free_device_id`. -/
def getNextFreeDeviceId : Routine (Option Nat) :=
  .call fun _ world =>
    ((nextFreeDeviceId world.devset).1, { world with devset := (nextFreeDeviceId world.devset).2 })

/-- `open_transaction`. -/
def openTransaction : Routine Bool := do
  .change (onDevset fun devset =>
    { devset with metadataTrans := ⟨devset.transactionId + 1, hash, deviceId⟩ })
  saveTransactionMetadata

/-- `refresh_transaction`. -/
def refreshTransaction : Routine Bool := do
  .change (onDevset fun devset =>
    { devset with metadataTrans := { devset.metadataTrans with deviceId := deviceId } })
  saveTransactionMetadata

/-- `close_transaction`. -/
def closeTransaction : Routine Bool := updatePoolTransactionId

/-- `load_metadata`. An unreadable file or an id beyond the limit loads nothing. -/
def loadMetadata : Routine (Option DeviceInfo) :=
  .call fun answer world =>
    match world.disk.files.find (if hash = [] then baseName else hash) with
    | none => (none, world)
    | some info =>
      let named := if info.hash = [] then { info with hash := hash } else info
      if !answer.query ∨ maxDeviceId < info.deviceId then (none, world) else (some named, world)

/-- `lookup_device`. A device that is not in the store is loaded from its file. -/
def lookupDevice : Routine (Option DeviceInfo) := do
  let world ← Program.read
  match world.devset.metaStore.find hash with
  | some info => pure (some info)
  | none =>
    match ← loadMetadata hash with
    | none => pure none
    | some info => do
        metadataStoreAdd hash info
        pure (some info)

/-- `unregister_device`. -/
def unregisterDevice : Routine Bool := do
  if ← metadataStoreRemove hash then removeMetadata hash else pure false

/-- `register_device`. -/
def registerDevice (hash : Name) (size transactionId : Nat) :
    Routine (Option DeviceInfo) := do
  let info : DeviceInfo := ⟨hash, deviceId, size, transactionId, false, false⟩
  metadataStoreAdd hash info
  if ← saveMetadata info then pure (some info)
  else do
    let _ ← metadataStoreRemove hash
    pure none

/-- One turn of the creation loop. The device is there, or another id is tried when
the pool has this one already, or the creation fails. -/
def createTurn (message : Nat → Routine PoolResult) (mustRefresh : Bool) (deviceId : Nat) :
    Routine (Nat ⊕ Option Nat) := do
  match ← message deviceId with
  | .done => pure (.inr (some deviceId))
  | .idExists =>
    match ← getNextFreeDeviceId with
    | none => pure (.inr none)
    | some deviceId' => do
        let refreshed ← refreshTransaction deviceId'
        if !refreshed && mustRefresh then pure (.inr none) else pure (.inl deviceId')
  | _ => do
      markFree deviceId
      pure (.inr none)

/-- The part of creation behind the loop: register the device and close the
transaction, or undo both. -/
def registerCreated (size deviceId : Nat) : Routine (Option DeviceInfo) := do
  let world ← Program.read
  match ← registerDevice deviceId hash size world.devset.metadataTrans.openTransactionId with
  | none => do
      let _ ← devDeleteDevice deviceId
      markFree deviceId
      pure none
  | some info =>
    if ← closeTransaction then pure (some info)
    else do
      let _ ← unregisterDevice hash
      let _ ← devDeleteDevice deviceId
      markFree deviceId
      pure none

/-- The common body of `create_register_device` and `create_register_snap_device`. -/
def createRegister (message : Nat → Routine PoolResult) (mustRefresh : Bool) (hash : Name)
    (size : Nat) : Routine (Option DeviceInfo) := do
  match ← getNextFreeDeviceId with
  | none => pure none
  | some deviceId =>
    if ← openTransaction hash deviceId then
      -- `get_pool_dev_name`
      if ← query then
        match ← Program.loop (createTurn message mustRefresh) deviceId with
        | none => pure none
        | some created => registerCreated hash size created
      else pure none
    else do
      markFree deviceId
      pure none

/-- `create_register_device`, which goes on when the transaction cannot be refreshed. -/
def createRegisterDevice : Routine (Option DeviceInfo) := do
  let world ← Program.read
  createRegister devCreateDevice false hash world.devset.baseFsSize

/-- `create_register_snap_device`. -/
def createRegisterSnapDevice (hash : Name) (size : Nat) :
    Routine Bool := do
  let info ← createRegister (devCreateSnapDeviceRaw baseInfo.deviceId) true hash size
  pure info.isSome

/-- `take_snapshot`. Only whether the preparations succeed matters here: the free space,
the base device's state, a deferred removal to cancel and the suspension. -/
def takeSnapshot (size : Nat) : Routine Bool := do
  if ← query then createRegisterSnapDevice baseInfo hash size else pure false

/-- `mark_for_deferred_deletion`. -/
def markForDeferredDeletion : Routine Bool := do
  if info.deleted then pure true
  else do
    metadataStoreAdd info.hash { info with deleted := true }
    if ← saveMetadata { info with deleted := true } then do
      .change (onDevset fun devset =>
        { devset with nrDeletedDevices := devset.nrDeletedDevices + 1 })
      pure true
    else do
      metadataStoreAdd info.hash info
      pure false

/-- The branches of `delete_transaction` between opening and closing it. -/
def deleteOpened (syncDelete : Bool) : Routine Bool := do
  match ← devDeleteDevice info.deviceId with
  | .done =>
    if ← unregisterDevice info.hash then do
      .change (onDevset fun devset =>
        { devset with
          nrDeletedDevices := devset.nrDeletedDevices - if info.deleted then 1 else 0 })
      markFree info.deviceId
      pure true
    else pure false
  | .busy => if syncDelete then pure false else markForDeferredDeletion info
  | _ => pure false

/-- `delete_transaction`. What closing the transaction returns is ignored. -/
def deleteTransaction (syncDelete : Bool) : Routine Bool := do
  if ← openTransaction info.hash info.deviceId then do
    let deleted ← deleteOpened info syncDelete
    let _ ← closeTransaction
    pure deleted
  else pure false

/-- `do_delete_device`. -/
def doDeleteDevice (syncDelete : Bool) : Routine Bool := do
  match ← lookupDevice hash with
  | none => pure false
  | some info =>
    -- `deactivate_device_mode`
    if ← query then deleteTransaction info syncDelete else pure false

/-- `cleanup_deleted_devices`. -/
def cleanupDeletedDevices : Routine Unit := do
  let world ← Program.read
  if world.devset.nrDeletedDevices = 0 then pure ()
  else
    .forEach world.devset.metaStore.keys fun hash => do
      match ← lookupDevice hash with
      | none => pure ()
      | some info =>
        if info.deleted then do
          let _ ← doDeleteDevice hash false
          pure ()
        else pure ()

/-- `grow_device_fs`. -/
def growDeviceFs (size baseSize : Nat) : Routine Bool := do
  if size ≤ baseSize then pure true
  else
    match ← lookupDevice hash with
    | none => pure false
    | some _ => query

/-- `add_device`. The size is what `parse_storage_opt` read, nothing when it failed. -/
def addDevice (hash : DeviceHash) (base : Option DeviceHash) (storageSize : Option Nat) :
    Routine Bool := do
  match ← lookupDevice (base.getD baseHash).1 with
  | none => pure false
  | some baseInfo =>
    if baseInfo.deleted then pure false
    else
      match ← lookupDevice hash.1 with
      | some _ => pure false
      | none =>
        match storageSize with
        | none => pure false
        | some requested =>
          let size := if requested = 0 then baseInfo.size else requested
          if size < baseInfo.size then pure false
          else if ← takeSnapshot hash.1 baseInfo size then
            if ← growDeviceFs hash.1 size baseInfo.size then pure true
            else do
              let _ ← doDeleteDevice hash.1 true
              pure false
          else pure false

/-- `delete_device`. -/
def deleteDevice (hash : DeviceHash) (syncDelete : Bool) : Routine Bool :=
  doDeleteDevice hash.1 syncDelete

/-- `create_base_image`, with the file system's creation as a question. -/
def createBaseImage : Routine Bool := do
  match ← createRegisterDevice baseName with
  | none => pure false
  | some info =>
    if ← query then do
      metadataStoreAdd info.hash { info with initialized := true }
      if ← saveMetadata { info with initialized := true } then query
      else do
        metadataStoreAdd info.hash info
        pure false
    else pure false

/-- `check_grow_base_device_fs`. -/
def checkGrowBaseDeviceFs : Routine Bool := do
  let world ← Program.read
  if !world.devset.userBaseSize then pure true
  else if world.devset.baseFsSize < baseInfo.size then pure false
  else if world.devset.baseFsSize = baseInfo.size then pure true
  else do
    let grown := { baseInfo with size := world.devset.baseFsSize }
    metadataStoreAdd baseInfo.hash grown
    if ← saveMetadata grown then query
    else do
      let _ ← metadataStoreRemove baseInfo.hash
      pure false

/-- `setup_base_image`. -/
def setupBaseImage : Routine Bool := do
  match ← lookupDevice baseName with
  | some info =>
    if info.initialized && !info.deleted then
      -- `setup_verify_baseimages_uuidfs`
      if ← query then checkGrowBaseDeviceFs info else pure false
    else if ← doDeleteDevice baseName true then createBaseImage
    else pure false
  | none =>
    -- `check_thin_pool`
    if ← query then createBaseImage else pure false

/-- `device_file_walk` over the entries of the metadata directory. -/
def deviceFileWalk : List Name → Routine Bool
  | [] => pure true
  | name :: names => do
      if ← query then
        if utilValidDeviceHash name then
          match ← lookupDevice name with
          | none => pure false
          | some _ => deviceFileWalk names
        else do
          let _ ← removeMetadata name
          deviceFileWalk names
      else pure false

/-- `construct_device_id_map`. -/
def constructDeviceIdMap : Routine Unit := do
  let world ← Program.read
  .forEach world.devset.metaStore.keys fun hash => do
    match ← lookupDevice hash with
    | none => pure ()
    | some info => markUsed info.deviceId

/-- `count_deleted_devices`. -/
def countDeletedDevices : Routine Unit := do
  let world ← Program.read
  .forEach world.devset.metaStore.keys fun hash => do
    match ← lookupDevice hash with
    | none => pure ()
    | some info =>
      if info.deleted then
        .change (onDevset fun devset =>
          { devset with nrDeletedDevices := devset.nrDeletedDevices + 1 })
      else pure ()

/-- `load_transaction_metadata`. Without a file no transaction is open. -/
def loadTransactionMetadata : Routine Bool :=
  .call fun answer world =>
    match world.disk.transaction with
    | none =>
      (true, onDevset (fun devset => { devset with
        metadataTrans :=
          { devset.metadataTrans with openTransactionId := devset.transactionId } }) world)
    | some transaction =>
      if answer.query then
        let named := if transaction.deviceHash = [] then
          { transaction with deviceHash := baseName } else transaction
        (true, onDevset (fun devset => { devset with metadataTrans := named }) world)
      else (false, world)

/-- The metadata part of `rollback_transaction`: the id is free once the file is gone. -/
def rollbackMetadata (transaction : Transaction) : Routine Unit := do
  if ← removeMetadata transaction.deviceHash then markFree transaction.deviceId else pure ()

/-- `rollback_transaction`. -/
def rollbackTransaction (transaction : Transaction) : Routine Unit := do
  let _ ← devDeleteDevice transaction.deviceId
  rollbackMetadata transaction
  let _ ← metadataStoreRemove transaction.deviceHash
  let _ ← removeTransactionMetadata
  pure ()

/-- `process_pending_transaction`. -/
def processPendingTransaction : Routine Bool := do
  if ← loadTransactionMetadata then do
    let world ← Program.read
    if world.devset.transactionId < world.devset.metadataTrans.openTransactionId then do
      rollbackTransaction world.devset.metadataTrans
      .change (onDevset fun devset => { devset with
        metadataTrans := { devset.metadataTrans with openTransactionId := devset.transactionId } })
      pure true
    else pure true
  else pure false

/-- `init_metadata`. -/
def initMetadata : Routine Bool := do
  let world ← Program.read
  -- `pool_status`
  if ← query then do
    .change (onDevset fun devset => { devset with transactionId := world.disk.poolTransactionId })
    if ← deviceFileWalk world.disk.files.keys then do
      constructDeviceIdMap
      countDeletedDevices
      processPendingTransaction
    else pure false
  else pure false

/-- The device set of a daemon that has just started. -/
def DeviceSet.fresh (nextDeviceId baseFsSize : Nat) (userBaseSize : Bool) : DeviceSet where
  transactionId := 0
  nextDeviceId := nextDeviceId
  deviceIdMap := ∅
  metaStore := ∅
  metadataTrans := ⟨0, [], 0⟩
  nrDeletedDevices := 0
  baseFsSize := baseFsSize
  userBaseSize := userBaseSize

end Isulad.DevMapper
