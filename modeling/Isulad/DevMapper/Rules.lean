import Isulad.DevMapper.DeviceSet

/-!
# Rules for the steps of the device set

One rule for each step and for the small routines that every operation uses: what
has to hold before it for a postcondition to hold after it. The rules leave the
condition on cut-off runs and the admitted answers open, so both the invariants of
the memory and the recovery of the disk are proved with them.
-/

namespace Isulad.DevMapper

open Isulad.Std Isulad.Std.Program

variable (deviceId : Nat) (world : World)

/-- The world after the pool has created a device. -/
def created : World :=
  onDisk (fun disk => { disk with pool := deviceId :: disk.pool }) world

/-- The world after the pool has deleted a device. -/
def destroyed : World :=
  onDisk (fun disk => { disk with pool := disk.pool.filter (· ≠ deviceId) }) world

/-- The world after `save_metadata`. -/
def filed (info : DeviceInfo) (world : World) : World :=
  onDisk (fun disk => { disk with files := disk.files.insert info.hash info }) world

/-- The world after `remove_metadata`. -/
def unfiled (hash : Name) (world : World) : World :=
  onDisk (fun disk => { disk with files := disk.files.erase hash }) world

/-- The world after `metadata_store_add`. -/
def stored (hash : Name) (info : DeviceInfo) (world : World) : World :=
  onDevset (fun devset => { devset with metaStore := devset.metaStore.insert hash info }) world

/-- The world after `metadata_store_remove`. -/
def unstored (hash : Name) (world : World) : World :=
  onDevset (fun devset => { devset with metaStore := devset.metaStore.erase hash }) world

/-- The world after an id has been handed out. -/
def allotted : World :=
  onDevset (fun devset => { devset with
    nextDeviceId := deviceId
    deviceIdMap := markDeviceIdUsed devset.deviceIdMap deviceId }) world

/-- The world after an id has been marked free. -/
def freed : World :=
  onDevset (fun devset =>
    { devset with deviceIdMap := markDeviceIdFree devset.deviceIdMap deviceId }) world

/-- The world after a transaction has been noted in memory. -/
def announced (transaction : Transaction) (world : World) : World :=
  onDevset (fun devset => { devset with metadataTrans := transaction }) world

/-- The world after a transaction has been written to its file. -/
def opened (transaction : Transaction) (world : World) : World :=
  onDisk (fun disk => { disk with transaction := some transaction })
    (announced transaction world)

/-- The world after the transaction has been closed. -/
def closed : World :=
  onDevset (fun devset =>
    { devset with transactionId := world.devset.metadataTrans.openTransactionId })
    (onDisk (fun disk =>
      { disk with poolTransactionId := world.devset.metadataTrans.openTransactionId }) world)

variable {admits : Answer → Prop} {cut : World → Prop} {world : World} {post : Bool → World → Prop}
  {deviceId : Nat} {hash : Name}

/-- Case distinction on the result of a test. -/
theorem ensures_ite {α : Type} {test : Bool} {yes no : Routine α} {post : α → World → Prop}
    (whenTrue : test = true → Ensures admits yes cut post world)
    (whenFalse : test = false → Ensures admits no cut post world) :
    Ensures admits (if test = true then yes else no) cut post world := by
  cases test with
  | true => exact whenTrue rfl
  | false => exact whenFalse rfl

/-- A question followed by one of two continuations. -/
theorem ensures_query (here : cut world) (holds : ∀ result, post result world) :
    Ensures admits query cut post world :=
  ensures_call here fun _ _ => holds _

theorem ensures_devDeleteDevice {post : PoolResult → World → Prop} (here : cut world)
    (done : post .done (destroyed deviceId world))
    (busy : ∀ answer, admits answer → answer.pool = .busy → post .busy world)
    (failed : ∀ answer, admits answer → answer.pool = .reject → post .failed world) :
    Ensures admits (devDeleteDevice deviceId) cut post world := by
  refine ensures_call here fun answer admitted => ?_
  cases verdict : answer.pool with
  | accept => exact done
  | busy => exact busy answer admitted verdict
  | reject => exact failed answer admitted verdict

/-- The message that creates a device: it fails, or finds the id taken, or takes it. -/
def CreatesDevice (message : Nat → Routine PoolResult) : Prop :=
  ∀ {admits : Answer → Prop} {cut : World → Prop} {world : World}
    {post : PoolResult → World → Prop} {deviceId : Nat}, cut world →
    post .failed world → (deviceId ∈ world.disk.pool → post .idExists world) →
    (deviceId ∉ world.disk.pool → post .done (created deviceId world)) →
    Ensures admits (message deviceId) cut post world

theorem createsDevice_call {message : Nat → Routine PoolResult} (refuses : Answer → World → Prop)
    [∀ answer world, Decidable (refuses answer world)]
    (calls : ∀ deviceId, message deviceId = .call fun answer world =>
      if refuses answer world then (.failed, world)
      else if deviceId ∈ world.disk.pool then (.idExists, world)
      else (.done, created deviceId world)) : CreatesDevice message := by
  intro admits cut world post deviceId here failed idExists done
  rw [calls]
  refine ensures_call here fun answer _ => ?_
  split
  · exact failed
  split
  next taken => exact idExists taken
  next new => exact done new

theorem createsDevice_devCreateSnapDeviceRaw (baseDeviceId : Nat) :
    CreatesDevice (devCreateSnapDeviceRaw baseDeviceId) :=
  createsDevice_call _ fun _ => rfl

section

variable (here : cut world) {info : DeviceInfo}
include here

theorem ensures_saveMetadata (failed : post false world) (saved : post true (filed info world)) :
    Ensures admits (saveMetadata info) cut post world := by
  refine ensures_call here fun answer _ => ?_
  cases verdict : answer.write with
  | true => exact saved
  | false => exact failed

theorem ensures_removeMetadata
    (failed : ∀ answer, admits answer → answer.remove = false → post false world)
    (removed : post true (unfiled hash world)) :
    Ensures admits (removeMetadata hash) cut post world := by
  refine ensures_call here fun answer admitted => ?_
  cases verdict : answer.remove with
  | true => exact removed
  | false => exact failed answer admitted verdict

theorem ensures_markFree {post : Unit → World → Prop} (holds : post () (freed deviceId world)) :
    Ensures admits (markFree deviceId) cut post world :=
  ensures_change here holds

theorem ensures_saveTransactionMetadata (failed : post false world)
    (saved : post true (onDisk
      (fun disk => { disk with transaction := some world.devset.metadataTrans }) world)) :
    Ensures admits saveTransactionMetadata cut post world := by
  refine ensures_call here fun answer _ => ?_
  cases verdict : answer.write with
  | true => exact saved
  | false => exact failed

theorem ensures_closeTransaction (failed : post false world)
    (accepts : world.disk.poolTransactionId = world.devset.transactionId →
      post true (closed world)) :
    Ensures admits closeTransaction cut post world := by
  refine ensures_call here fun answer _ => ?_
  by_cases accepted : answer.pool = .accept ∧
      world.disk.poolTransactionId = world.devset.transactionId
  · simp only [if_pos accepted]
    exact accepts accepted.2
  · simp only [if_neg accepted]
    exact failed

theorem ensures_metadataStoreAdd {post : Unit → World → Prop}
    (holds : post () (stored hash info world)) :
    Ensures admits (metadataStoreAdd hash info) cut post world :=
  ensures_change here holds

theorem ensures_metadataStoreRemove
    (holds : post (decide (hash ∈ world.devset.metaStore)) (unstored hash world)) :
    Ensures admits (metadataStoreRemove hash) cut post world :=
  ensures_call here fun _ _ => holds

theorem ensures_openTransaction
    (announcedHere : cut (announced ⟨world.devset.transactionId + 1, hash, deviceId⟩ world))
    (failed : post false (announced ⟨world.devset.transactionId + 1, hash, deviceId⟩ world))
    (saved : post true (opened ⟨world.devset.transactionId + 1, hash, deviceId⟩ world)) :
    Ensures admits (openTransaction hash deviceId) cut post world :=
  ensures_bind (ensures_change here (ensures_saveTransactionMetadata announcedHere failed saved))

theorem ensures_refreshTransaction
    (announcedHere : cut (announced { world.devset.metadataTrans with deviceId := deviceId } world))
    (failed : post false (announced { world.devset.metadataTrans with deviceId := deviceId } world))
    (saved : post true (opened { world.devset.metadataTrans with deviceId := deviceId } world)) :
    Ensures admits (refreshTransaction deviceId) cut post world :=
  ensures_bind (ensures_change here (ensures_saveTransactionMetadata announcedHere failed saved))

end

/-- `get_next_free_device_id` hands out the first free id and marks it. -/
theorem nextFreeDeviceId_cases (devset : DeviceSet) :
    (∃ k, isDeviceIdFree devset.deviceIdMap (idAfter devset.nextDeviceId k) = true ∧
      (∀ j < k, Marked devset.deviceIdMap (idAfter devset.nextDeviceId j)) ∧
      nextFreeDeviceId devset = (some (idAfter devset.nextDeviceId k), { devset with
        nextDeviceId := idAfter devset.nextDeviceId k
        deviceIdMap := markDeviceIdUsed devset.deviceIdMap (idAfter devset.nextDeviceId k) })) ∨
    (∀ deviceId ≤ maxDeviceId, Marked devset.deviceIdMap deviceId) ∧
      ∃ next, nextFreeDeviceId devset = (none, { devset with nextDeviceId := next }) := by
  unfold nextFreeDeviceId
  rw [incNextDeviceId_eq]
  rcases scanDeviceIds_cases devset.deviceIdMap devset.nextDeviceId (maxDeviceId + 1) 0 with
    ⟨k, -, free, earlier, scanned⟩ | ⟨all, scanned⟩
  · rw [scanned]
    simp only [Nat.zero_add] at *
    exact .inl ⟨k, free, earlier, rfl⟩
  · rw [scanned]
    refine .inr ⟨fun deviceId within => ?_, _, rfl⟩
    obtain ⟨k, turn, rfl⟩ := exists_idAfter devset.nextDeviceId within
    simpa using all k (Nat.lt_succ_of_le turn)

/-- The bitmap is a set of ids, and `get_next_free_device_id` returns the first id outside it that
it meets behind the counter. -/
theorem nextFreeDeviceId_first (devset : DeviceSet) :
    (∀ deviceId other,
      (Marked (markDeviceIdUsed devset.deviceIdMap deviceId) other ↔
        other = deviceId ∨ Marked devset.deviceIdMap other) ∧
      (Marked (markDeviceIdFree devset.deviceIdMap deviceId) other ↔
        other ≠ deviceId ∧ Marked devset.deviceIdMap other)) ∧
    ((nextFreeDeviceId devset).1 = none ↔
      ∀ deviceId ≤ maxDeviceId, Marked devset.deviceIdMap deviceId) ∧
    ((nextFreeDeviceId devset).1 = none →
      (nextFreeDeviceId devset).2.deviceIdMap = devset.deviceIdMap) ∧
    ∀ deviceId, (nextFreeDeviceId devset).1 = some deviceId →
      deviceId ≤ maxDeviceId ∧ ¬ Marked devset.deviceIdMap deviceId ∧
      (∃ k, deviceId = idAfter devset.nextDeviceId k ∧
        ∀ j < k, Marked devset.deviceIdMap (idAfter devset.nextDeviceId j)) ∧
      (nextFreeDeviceId devset).2 = { devset with
        nextDeviceId := deviceId
        deviceIdMap := markDeviceIdUsed devset.deviceIdMap deviceId } := by
  refine ⟨fun _ _ => ⟨marked_markDeviceIdUsed, marked_markDeviceIdFree⟩, ?_⟩
  rcases nextFreeDeviceId_cases devset with ⟨k, free, earlier, found⟩ | ⟨all, next, found⟩
  · have unmarked : ¬ Marked devset.deviceIdMap (idAfter devset.nextDeviceId k) := by
      rw [Marked, free]
      exact Bool.noConfusion
    rw [found]
    refine ⟨⟨by simp, fun all => absurd (all _ (idAfter_le _ _)) unmarked⟩, by simp, ?_⟩
    rintro _ ⟨⟩
    exact ⟨idAfter_le _ _, unmarked, ⟨k, rfl, earlier⟩, rfl⟩
  · rw [found]
    exact ⟨⟨fun _ => all, fun _ => rfl⟩, fun _ => rfl, by simp⟩

theorem ensures_getNextFreeDeviceId {post : Option Nat → World → Prop} (here : cut world)
    (exhausted : ∀ next, post none (onDevset (fun devset =>
      { devset with nextDeviceId := next }) world))
    (found : ∀ deviceId, isDeviceIdFree world.devset.deviceIdMap deviceId = true →
      deviceId ≤ maxDeviceId → post (some deviceId) (allotted deviceId world)) :
    Ensures admits getNextFreeDeviceId cut post world := by
  refine ensures_call here fun _ _ => ?_
  rcases nextFreeDeviceId_cases world.devset with ⟨k, free, -, taken⟩ | ⟨-, next, taken⟩
  · rw [taken]
    exact found _ free (idAfter_le _ _)
  · rw [taken]
    exact exhausted next

/-- The info that `load_metadata` returns for a file's content. -/
def loaded (hash : Name) (info : DeviceInfo) : DeviceInfo :=
  if info.hash = [] then { info with hash := hash } else info

theorem ensures_lookupDevice_known {post : Option DeviceInfo → World → Prop} {info : DeviceInfo}
    (present : world.devset.metaStore.find hash = some info) (known : post (some info) world) :
    Ensures admits (lookupDevice hash) cut post world := by
  refine ensures_bind (ensures_read ?_)
  rw [present]
  exact ensures_pure known

theorem ensures_lookupDevice {post : Option DeviceInfo → World → Prop} (named : hash ≠ [])
    (here : cut world)
    (known : ∀ info, world.devset.metaStore.find hash = some info → post (some info) world)
    (missing : world.devset.metaStore.find hash = none → (∀ info, world.disk.files.find hash = some
      info → info.deviceId ≤ maxDeviceId → ∃ answer, admits answer ∧ answer.query = false) → post
      none world)
    (found : ∀ info, world.devset.metaStore.find hash = none → world.disk.files.find hash = some
      info → info.deviceId ≤ maxDeviceId → post (some (loaded hash info)) (stored hash (loaded hash
      info) world)) :
    Ensures admits (lookupDevice hash) cut post world := by
  refine ensures_bind (ensures_read ?_)
  cases present : world.devset.metaStore.find hash with
  | some info => exact ensures_pure (known info present)
  | none =>
    refine ensures_bind (ensures_call here fun answer admitted => ?_)
    simp only [if_neg named]
    cases filed : world.disk.files.find hash with
    | none =>
      refine ensures_pure (missing present fun info found => ?_)
      rw [filed] at found
      cases found
    | some info =>
      by_cases unreadable : !answer.query ∨ maxDeviceId < info.deviceId
      · simp only [if_pos unreadable]
        refine ensures_pure (missing present fun other found within => ?_)
        rw [filed] at found
        cases found
        exact ⟨answer, admitted, by simpa using unreadable.resolve_right (by omega)⟩
      · simp only [if_neg unreadable]
        have within : info.deviceId ≤ maxDeviceId := by
          by_contra beyond
          exact unreadable (.inr (by omega))
        exact ensures_bind (ensures_metadataStoreAdd here
          (ensures_pure (found info present filed within)))

end Isulad.DevMapper
