import Isulad.Storage.ImageIndex

/-!
# The digests of an image

`image_store_set_big_data` changes the digest of an image when the manifest is set, and the digest
index with it. Here the index is compared with the digests that the image has then, for every
store.
-/

namespace Isulad.Storage

open Option Isulad.Std

/-- The digests of an image: its own and that of its manifest. -/
def ImageRecord.HasDigest (record : ImageRecord) (digest : Text) : Prop :=
  record.digest = some digest ∨ record.manifestDigest = some digest

section SetBigData

variable {object : Address → ImageRecord} {img : Address} {fullDigest digest : Text}
  {bydigest after : Index Text DigestImages} {oldDigest : Option Text}

theorem search_removeImageFromDigestIndex {old : Text}
    (removed : removeImageFromDigestIndex object img old bydigest = some after)
    (differs : digest ≠ old) : after.search digest = bydigest.search digest := by
  unfold removeImageFromDigestIndex at removed
  split at removed
  · cases removed
    rfl
  dsimp only at removed
  split at removed
  · rw [Index.search_remove removed, if_neg differs]
  · cases removed
    rw [Index.search_replace, if_neg differs]

theorem search_dropOldDigest
    (dropped : ImageTables.dropOldDigest object img oldDigest fullDigest bydigest = some after) :
    after.search fullDigest = bydigest.search fullDigest := by
  rcases dropOldDigest_cases dropped with ⟨rfl, -⟩ | ⟨old, -, notNew, -, removed⟩
  · rfl
  · exact search_removeImageFromDigestIndex removed (Ne.symm notNew)

/-- The image is dropped under the digest of its old manifest, unless that is its own. -/
theorem filedAt_dropOldDigest
    (dropped : ImageTables.dropOldDigest object img oldDigest fullDigest bydigest = some after)
    (other : digest ≠ fullDigest) : FiledAt after digest img ↔
      FiledAt bydigest digest img ∧
        (oldDigest = some digest → (object img).digest = some digest) := by
  rcases dropOldDigest_cases dropped with ⟨rfl, kept⟩ | ⟨old, rfl, -, notOwn, removed⟩
  · refine (and_iff_left fun isOld => ?_).symm
    exact (kept digest isOld).resolve_left other
  by_cases isOld : digest = old
  · subst isOld
    refine iff_of_false (fun filed => ?_) fun both => notOwn (both.2 rfl)
    exact (removeImageFromDigestIndex_spec removed filed).2 rfl rfl
  · unfold FiledAt
    rw [search_removeImageFromDigestIndex removed isOld]
    exact (and_iff_left fun same => absurd (Option.some.inj same).symm isOld).symm

/-- The image is entered only beside images that have the digest already. -/
theorem filedAt_enterNewDigest :
    FiledAt (ImageTables.enterNewDigest object img fullDigest bydigest) digest img ↔
      if digest = fullDigest then bydigest.search digest ≠ none
      else FiledAt bydigest digest img := by
  unfold ImageTables.enterNewDigest
  split
  next missing =>
    split
    next here => simp [FiledAt, here, missing]
    · rfl
  next images present =>
    rw [filedAt_set fun _ => Index.search_replace]
    split
    next here => simp [here, present, DigestImages.appendImage]
    · rfl

variable {tables after : ImageTables} {answers : ImageAnswers} {id key data : Text}

/-- The digests that the image has when the data are set. -/
def ImageTables.WillHave (tables : ImageTables) (answers : ImageAnswers) (img : Address)
    (key data digest : Text) : Prop :=
  (tables.object img).digest = some digest ∨
    (if key = imageDigestBigDataKey then some (answers.fullDigest data)
      else (tables.object img).manifestDigest) = some digest

/-- The digest of a manifest that is being replaced. -/
def ImageTables.Replaces (tables : ImageTables) (img : Address) (key digest : Text) : Prop :=
  key = imageDigestBigDataKey ∧ (tables.object img).manifestDigest = some digest

/-- What is in the index after the call. -/
theorem digests_imageStoreSetBigData (digest : Text) (found : tables.lookup id = some img)
    (set : tables.imageStoreSetBigData answers id key data = some after) :
    ((after.object img).HasDigest digest ↔ tables.WillHave answers img key data digest) ∧
      (FiledAt after.bydigest digest img ↔
        if key = imageDigestBigDataKey ∧ digest = answers.fullDigest data then
          tables.bydigest.search digest ≠ none
        else FiledAt tables.bydigest digest img ∧
          (tables.Replaces img key digest → (tables.object img).digest = some digest)) := by
  simp only [ImageTables.imageStoreSetBigData, found, bind_eq_bind, bind_some,
    bind_eq_some_iff, ite_none_right_eq_some, ite_none_left_eq_some] at set
  obtain ⟨-, -, _, updated, -, saved⟩ := set
  cases saved
  unfold ImageTables.WillHave ImageTables.Replaces ImageRecord.HasDigest
  rw [ImageTables.updateImageWithBigData] at updated
  by_cases isManifest : key = imageDigestBigDataKey
  · rw [if_pos isManifest] at updated
    obtain ⟨bydigest, dropped, built⟩ := bind_eq_some_iff.mp updated
    cases built
    simp only [isManifest, Function.update_self, ImageRecord.manifestDigest, getValue_withBigData,
      if_true, true_and, filedAt_enterNewDigest]
    refine ⟨.rfl, ?_⟩
    split
    next here => rw [here, search_dropOldDigest dropped]
    next differs =>
      rw [filedAt_dropOldDigest dropped differs, Function.update_self, isManifest]
      rfl
  · rw [if_neg isManifest] at updated
    cases updated
    simp [isManifest, Ne.symm isManifest, ImageRecord.manifestDigest, getValue_withBigData]
    rfl

/-- The index has the image under its digests and under no others. -/
def KeepsDigests (after : ImageTables) (img : Address) : Prop :=
  ∀ digest, FiledAt after.bydigest digest img ↔ (after.object img).HasDigest digest

/-- Every digest that the image is going to have is indexed, and the image is listed under no other
but that of a manifest that is being replaced. -/
structure ImageTables.Ready (tables : ImageTables) (answers : ImageAnswers) (img : Address)
    (key data : Text) : Prop where
  entered : ∀ digest, tables.WillHave answers img key data digest →
    if key = imageDigestBigDataKey ∧ digest = answers.fullDigest data then
      tables.bydigest.search digest ≠ none else FiledAt tables.bydigest digest img
  noOther : ∀ digest, FiledAt tables.bydigest digest img →
    tables.WillHave answers img key data digest ∨ tables.Replaces img key digest

/-- Setting big data leaves the index right exactly if the tables are ready for it. -/
theorem keepsDigests_iff (found : tables.lookup id = some img)
    (set : tables.imageStoreSetBigData answers id key data = some after) :
    KeepsDigests after img ↔ tables.Ready answers img key data := by
  have spec := fun digest => digests_imageStoreSetBigData digest found set
  constructor
  · intro keeps
    refine ⟨fun digest will => ?_, fun digest filed => ?_⟩
    · have filed := (keeps digest).mpr ((spec digest).1.mpr will)
      rw [(spec digest).2] at filed
      split
      next new => rwa [if_pos new] at filed
      next old =>
        rw [if_neg old] at filed
        exact filed.1
    · by_contra neither
      obtain ⟨notHad, notReplaced⟩ := not_or.mp neither
      refine notHad ((spec digest).1.mp ((keeps digest).mp ((spec digest).2.mpr ?_)))
      split
      next new => exact absurd (.inr (by simp [new])) notHad
      · exact ⟨filed, fun replaced => absurd replaced notReplaced⟩
  · intro ready digest
    rw [(spec digest).1, (spec digest).2]
    constructor
    · split
      next new => exact fun _ => .inr (by simp [new])
      · rintro ⟨filed, own⟩
        exact (ready.noOther digest filed).elim (fun will => will) fun replaced =>
          .inl (own replaced)
    · intro will
      have entered := ready.entered digest will
      split
      next new => rwa [if_pos new] at entered
      next old =>
        rw [if_neg old] at entered
        refine ⟨entered, fun replaced => ?_⟩
        refine will.elim (fun own => own) fun isNew => absurd ⟨replaced.1, ?_⟩ old
        rw [if_pos replaced.1] at isNew
        exact (Option.some.inj isNew).symm

/-- An image without digests, of which other data are set. -/
theorem keepsDigests_iff_other : ∃ tables after,
    imageCalls.Trace [(.willing, .create 0 (some ['i']) [] none)] tables ∧
      tables.lookup ['i'] = some 0 ∧
      tables.imageStoreSetBigData .willing ['i'] ['k'] ['d'] = some after ∧
        KeepsDigests after 0 := by
  have ready :
      ∃ tables after, imageCalls.Trace [(.willing, .create 0 (some ['i']) [] none)] tables ∧
      tables.lookup ['i'] = some 0 ∧
      tables.imageStoreSetBigData .willing ['i'] ['k'] ['d'] = some after ∧
      tables.Ready .willing 0 ['k'] ['d'] := by
    refine ⟨_, _, Machine.trace_of_replay rfl, rfl, rfl, ?_, ?_⟩
    · rintro digest (own | manifest)
      · cases own
      · cases manifest
    · rintro digest ⟨images, filed, -⟩
      cases filed
  obtain ⟨tables, after, trace, found, set, ready⟩ := ready
  exact ⟨tables, after, trace, found, set, (keepsDigests_iff found set).mpr ready⟩

/-- The first manifest of an image is not indexed. -/
theorem keepsDigests_fails_new : ∃ tables after,
    imageCalls.Trace [(.willing, .create 0 (some ['i']) [] none)] tables ∧
      tables.imageStoreSetBigData .willing ['i'] imageDigestBigDataKey ['m'] = some after ∧
      ¬ KeepsDigests after 0 := by
  refine ⟨_, _, Machine.trace_of_replay rfl, rfl, fun keeps => ?_⟩
  obtain ⟨_, present, -⟩ := (keeps ['m']).mpr (.inr rfl)
  cases present

end SetBigData

end Isulad.Storage
