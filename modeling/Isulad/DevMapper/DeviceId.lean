import Mathlib.Data.List.AList

/-!
# Device ids of the thin pool

The bitmap of used device ids and the search for a free one, after
`devmapper/deviceset.c`. The map goes from the byte of an id to the bits of that
byte, as `device_id_map` does.
-/

namespace Isulad.DevMapper

/-- `MAX_DEVICE_ID`, the 24 bit limit of the pool. -/
def maxDeviceId : Nat := 0xffffff

/-- `device_id_map`. -/
abbrev IdMap := AList fun _ : Nat => BitVec 32

/-- `1 << (device_id % 8)`. -/
def idMask (deviceId : Nat) : BitVec 32 := 1#32 <<< (deviceId % 8)

variable (map : IdMap) (counter : Nat)

section

variable (deviceId : Nat)

/-- `mark_device_id_used`. -/
def markDeviceIdUsed : IdMap :=
  match map.lookup (deviceId / 8) with
  | none => map.insert (deviceId / 8) (0#32 ||| idMask deviceId)
  | some value => map.insert (deviceId / 8) (value ||| idMask deviceId)

/-- `mark_device_id_free`. -/
def markDeviceIdFree : IdMap :=
  match map.lookup (deviceId / 8) with
  | none => map.insert (deviceId / 8) (0#32 &&& ~~~idMask deviceId)
  | some value => map.insert (deviceId / 8) (value &&& ~~~idMask deviceId)

/-- `is_device_id_free`. -/
def isDeviceIdFree : Bool :=
  match map.lookup (deviceId / 8) with
  | some value => value &&& idMask deviceId == 0#32
  | none => 0#32 &&& idMask deviceId == 0#32

/-- `inc_next_device_id`. -/
def incNextDeviceId (nextDeviceId : Nat) : Nat := (nextDeviceId + 1) &&& maxDeviceId

/-- The loop of `get_next_free_device_id`: the id found, and `next_device_id`. -/
def scanDeviceIds (map : IdMap) : Nat → Nat → Option Nat × Nat
  | 0, nextDeviceId => (none, nextDeviceId)
  | turns + 1, nextDeviceId =>
    if isDeviceIdFree map nextDeviceId then (some nextDeviceId, nextDeviceId)
    else scanDeviceIds map turns (incNextDeviceId nextDeviceId)

/-- The id is marked used. -/
def Marked : Prop := isDeviceIdFree map deviceId = false

end

/-- The bits of a byte of the bitmap; a byte that is not there has none. -/
def byteBits (key : Nat) : BitVec 32 := (map.lookup key).getD 0#32

theorem idMask_getLsbD (deviceId bit : Nat) :
    (idMask deviceId).getLsbD bit = decide (bit = deviceId % 8) := by
  have small : deviceId % 8 < 32 := by omega
  unfold idMask
  rw [← BitVec.twoPow_eq, BitVec.getLsbD_twoPow]
  by_cases same : bit = deviceId % 8
  · simp [same, small]
  have different : ¬ deviceId % 8 = bit := fun equal => same equal.symm
  simp [same, different]

section

variable (deviceId : Nat)

theorem idMask_ne_zero : idMask deviceId ≠ 0#32 := by
  intro zero
  have selected := congrArg (fun bits => bits.getLsbD (deviceId % 8)) zero
  simp [idMask_getLsbD] at selected

theorem isDeviceIdFree_eq :
    isDeviceIdFree map deviceId = !(byteBits map (deviceId / 8)).getLsbD (deviceId % 8) := by
  have masked : ∀ value : BitVec 32,
      (value &&& idMask deviceId == 0#32) = !value.getLsbD (deviceId % 8) := by
    intro value
    have nonzero := idMask_ne_zero deviceId
    unfold idMask at nonzero ⊢
    rw [← BitVec.twoPow_eq] at nonzero ⊢
    rw [BitVec.and_twoPow]
    cases value.getLsbD (deviceId % 8) with
    | false => simp
    | true => simpa using nonzero
  unfold isDeviceIdFree byteBits
  cases map.lookup (deviceId / 8) with
  | none => exact masked 0#32
  | some value => exact masked value

theorem byteBits_insert (key other : Nat) (value : BitVec 32) :
    byteBits (map.insert key value) other = if other = key then value else byteBits map other := by
  unfold byteBits
  by_cases same : other = key
  · subst same
    simp
  · simp [same, AList.lookup_insert_ne same]

theorem markDeviceIdUsed_eq : markDeviceIdUsed map deviceId =
      map.insert (deviceId / 8) (byteBits map (deviceId / 8) ||| idMask deviceId) := by
  unfold markDeviceIdUsed byteBits
  cases map.lookup (deviceId / 8) <;> rfl

theorem markDeviceIdFree_eq : markDeviceIdFree map deviceId =
      map.insert (deviceId / 8) (byteBits map (deviceId / 8) &&& ~~~idMask deviceId) := by
  unfold markDeviceIdFree byteBits
  cases map.lookup (deviceId / 8) <;> rfl

end

theorem eq_iff_byte_and_bit (left right : Nat) :
    left = right ↔ left / 8 = right / 8 ∧ left % 8 = right % 8 := by
  omega

@[simp] theorem isDeviceIdFree_markDeviceIdUsed (deviceId other : Nat) :
    isDeviceIdFree (markDeviceIdUsed map deviceId) other =
      (isDeviceIdFree map other && decide (other ≠ deviceId)) := by
  rw [markDeviceIdUsed_eq, isDeviceIdFree_eq, isDeviceIdFree_eq, byteBits_insert]
  have same := eq_iff_byte_and_bit other deviceId
  by_cases byte : other / 8 = deviceId / 8
  · simp [idMask_getLsbD, same, byte]
  · simp [same, byte]

@[simp] theorem isDeviceIdFree_markDeviceIdFree (deviceId other : Nat) :
    isDeviceIdFree (markDeviceIdFree map deviceId) other =
      (isDeviceIdFree map other || decide (other = deviceId)) := by
  have small : other % 8 < 32 := by omega
  have same := eq_iff_byte_and_bit other deviceId
  rw [markDeviceIdFree_eq, isDeviceIdFree_eq, isDeviceIdFree_eq, byteBits_insert]
  by_cases byte : other / 8 = deviceId / 8
  · rw [if_pos byte, BitVec.getLsbD_and, BitVec.getLsbD_not, idMask_getLsbD]
    simp [small, same, byte]
  · simp [same, byte]

theorem marked_markDeviceIdUsed {map : IdMap} {deviceId other : Nat} :
    Marked (markDeviceIdUsed map deviceId) other ↔ other = deviceId ∨ Marked map other := by
  by_cases same : other = deviceId <;> simp [Marked, same]

theorem marked_markDeviceIdFree {map : IdMap} {deviceId other : Nat} :
    Marked (markDeviceIdFree map deviceId) other ↔ other ≠ deviceId ∧ Marked map other := by
  by_cases same : other = deviceId <;> simp [Marked, same]

/-- The id that the search meets in turn `k` when the counter stands at `counter`. A counter below
zero is its two's complement. -/
def idAfter (counter k : Nat) : Nat := (counter + 1 + k) % (maxDeviceId + 1)

theorem idAfter_le (k : Nat) : idAfter counter k ≤ maxDeviceId :=
  Nat.lt_succ_iff.mp (Nat.mod_lt _ (Nat.succ_pos _))

theorem incNextDeviceId_eq : incNextDeviceId counter = idAfter counter 0 :=
  Nat.and_two_pow_sub_one_eq_mod (counter + 1) 24

theorem incNextDeviceId_idAfter (k : Nat) :
    incNextDeviceId (idAfter counter k) = idAfter counter (k + 1) := by
  rw [incNextDeviceId_eq]
  unfold idAfter maxDeviceId
  omega

theorem exists_idAfter {deviceId : Nat} (within : deviceId ≤ maxDeviceId) :
    ∃ k ≤ maxDeviceId, idAfter counter k = deviceId := by
  unfold idAfter maxDeviceId at *
  exact ⟨(deviceId + 16777216 - (counter + 1) % 16777216) % 16777216, by omega, by omega⟩

theorem scanDeviceIds_cases (turns k : Nat) :
    (∃ n < turns, isDeviceIdFree map (idAfter counter (k + n)) = true ∧
      (∀ j < n, Marked map (idAfter counter (k + j))) ∧
      scanDeviceIds map turns (idAfter counter k) =
        (some (idAfter counter (k + n)), idAfter counter (k + n))) ∨
    (∀ j < turns, Marked map (idAfter counter (k + j))) ∧
      scanDeviceIds map turns (idAfter counter k) = (none, idAfter counter (k + turns)) := by
  induction turns generalizing k with
  | zero => exact .inr ⟨nofun, rfl⟩
  | succ turns ih =>
    rw [scanDeviceIds]
    cases free : isDeviceIdFree map (idAfter counter k) with
    | true => exact .inl ⟨0, Nat.succ_pos _, free, nofun, rfl⟩
    | false =>
      have shift : ∀ n, k + 1 + n = k + (n + 1) := fun n => by omega
      -- the id of this turn comes before those of the turns behind it
      have first : ∀ {n}, (∀ j < n, Marked map (idAfter counter (k + 1 + j))) →
          ∀ j < n + 1, Marked map (idAfter counter (k + j)) := by
        intro n rest j below
        cases j with
        | zero => exact free
        | succ j =>
          rw [← shift]
          exact rest j (by omega)
      rw [if_neg Bool.false_ne_true, incNextDeviceId_idAfter]
      rcases ih (k + 1) with ⟨n, inside, found, rest, scanned⟩ | ⟨rest, scanned⟩
      · rw [shift] at found scanned
        exact .inl ⟨n + 1, by omega, found, first rest, scanned⟩
      · rw [shift] at scanned
        exact .inr ⟨first rest, scanned⟩

end Isulad.DevMapper
