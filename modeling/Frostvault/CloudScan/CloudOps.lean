import Frostvault.CloudScan.Deletions
import Frostvault.CloudScan.VersionNumbers

/-!
The operations on Archive Versions with the dirty marks they leave (`app/catalog.py`,
`mark_items_deleted` and `finalize_purge_job` of `app/services/cloud_deletion.py`).

Most of them look the file of a row up and mark the directories above its current path.
`record_archive_version` marks the directories above the path its caller decoded from the object
key, and `mark_unseen_archive_versions_missing` asks for a full rebuild.

* `markVersionVerified`, `markVersionMismatch`, `updateRestoreState`: one row is rewritten;
* `updateVersionStoragePlacement`: one row gets another object version;
* `markVersionOwners`: the marks of the files of some rows;
* `CloudOp.run`: an operation with its marks.
-/

namespace Frostvault

/-! ### One row -/

/-- Rewrite the row with an id, its keys kept. -/
def Catalog.reviseVersion (cat : Catalog) (row : RowId) (g : ArchiveVersion → ArchiveVersion)
    (hg : ∀ w, (g w).id = w.id ∧ (g w).objectKey = w.objectKey ∧
      (g w).providerVersionId = w.providerVersionId) : Catalog :=
  cat.mapVersions (fun _ w => if w.id = row then g w else w)
    ⟨fun _ w => by split <;> simp [hg w], fun _ w => by split <;> simp [hg w],
      fun _ w => by split <;> simp [hg w]⟩

/-- `mark_version_verified`. -/
def markVersionVerified (cat : Catalog) (row : RowId) (digest : Digest) : Catalog :=
  cat.reviseVersion row
    (fun w => { w with plaintextSha256 := some digest, integrity := .verified })
    fun _ => ⟨rfl, rfl, rfl⟩

/-- `mark_version_mismatch`. -/
def markVersionMismatch (cat : Catalog) (row : RowId) (digest : Digest) : Catalog :=
  cat.reviseVersion row
    (fun w => { w with plaintextSha256 := some digest, integrity := .mismatch })
    fun _ => ⟨rfl, rfl, rfl⟩

/-- `update_restore_state`. -/
def updateRestoreState (cat : Catalog) (row : RowId) (state : Option RestoreState)
    (storageClass : Option StorageClass) : Catalog :=
  cat.reviseVersion row
    (fun w => { w with
      restoreState := state
      storageClass := storageClass.orElse fun _ => w.storageClass })
    fun _ => ⟨rfl, rfl, rfl⟩

/-- What `update_version_storage_placement` is called with. -/
structure Placement where
  providerVersionId : ProviderVersionId
  storageClass : StorageClass
  etag : Option String
  observedAt : Stamp
  storageClassSource : ClassSource

/-- The columns `update_version_storage_placement` writes. -/
def ArchiveVersion.placedAt (w : ArchiveVersion) (p : Placement) : ArchiveVersion :=
  { w with
    providerVersionId := some p.providerVersionId
    storageClass := some p.storageClass
    etag := p.etag.orElse fun _ => w.etag
    storageClassSource := p.storageClassSource
    availability := .available
    availabilityCheckedAt := some p.observedAt
    restoreState := none }

instance (a b : VersionKey) : Decidable (KeysDistinct a b) :=
  decidable_of_iff (a.id ≠ b.id ∧ (a.vaultId = b.vaultId → a.objectKey = b.objectKey →
      (a.providerVersionId.all fun n => b.providerVersionId ≠ some n) = true)) <| by
    rw [KeysDistinct]
    refine and_congr_right fun _ => imp_congr_right fun _ => imp_congr_right fun _ => ?_
    cases a.providerVersionId <;> simp

/-- The files with one row placed elsewhere. -/
def VaultFile.placeVersion (row : RowId) (p : Placement) (f : VaultFile) : VaultFile :=
  f.withVersions (f.versions.map fun w => if w.id = row then w.placedAt p else w)

/-- `update_version_storage_placement`.  The unique index of object versions raises when another
row is that object version. -/
def updateVersionStoragePlacement (cat : Catalog) (row : RowId) (p : Placement) :
    Option Catalog :=
  if h : ((cat.files.map (VaultFile.placeVersion row p)).flatMap VaultFile.versionKeys).Pairwise
      KeysDistinct then
    some { cat with
      files := cat.files.map (VaultFile.placeVersion row p)
      ids_nodup := by
        rw [List.map_map]
        exact cat.ids_nodup
      paths_unique := by
        rw [List.pairwise_map]
        exact cat.paths_unique
      versions_unique := h }
  else none

/-! ### Marks -/

/-- `mark_file_id_dirty` for the file of each given row, as the `SELECT DISTINCT vault_id,
vault_file_id` finds them. -/
def markVersionOwners (ses : Session) (rows : List RowId) (db : Db) : Db :=
  (db.catalog.files.filter fun f => f.versions.any fun w => w.id ∈ rows).foldl
    (fun db f => markFileIdDirty ses f.vaultId db f.id) db

/-- The marks of `mark_items_deleted`: through the version of an item, or through its file when it
is a delete marker. -/
def markItemOwners (ses : Session) (ids : List ℕ) (db : Db) : Db :=
  let items := db.catalog.items.filter fun i => i.id ∈ ids
  ((items.filter fun i => i.archiveVersionId.isNone).map DeletionItem.vaultFileId).foldl
    (markOwned ses) (markVersionOwners ses (items.filterMap DeletionItem.archiveVersionId) db)

/-! ### Operations with their marks -/

/-- The operations on Archive Versions. -/
inductive CloudOp
  | record (v : VaultId) (o : VersionObservation)
  | verified (row : RowId) (digest : Digest)
  | mismatch (row : RowId) (digest : Digest)
  | superseded (kept : RowId) (scanId startedAt : Stamp)
  | purged (rows : List RowId) (checkedAt : Stamp)
  | restoreState (row : RowId) (state : Option RestoreState) (storageClass : Option StorageClass)
  | placement (row : RowId) (p : Placement)
  | unseenMissing (v : VaultId) (scanId startedAt : Stamp)
  | itemsDeleted (ids : List ℕ) (at_ : Stamp)
  | finalize (job : JobId)

/-- The last open version of the file of a Job is gone: `completed and not _versions(..)`. -/
def purgesFile (cat : Catalog) (job : JobId) (file : FileId) : Bool :=
  purgeCompleted cat job && decide (((cat.file? file).map versionTargets).getD [] = [])

/-- `finalize_purge_job` for a Job of a purge group, with the Job's own file. -/
def finalizeWithMarks (ses : Session) (db : Db) (j : Job) : Option Db :=
  (finalizePurgeJob db.catalog j.id j.vaultFileId).map fun cat =>
    if purgesFile db.catalog j.id j.vaultFileId then
      markFileIdDirty ses j.vaultId { db with catalog := cat } j.vaultFileId
    else { db with catalog := cat }

/-- An operation in its transaction; `none` when it raises. -/
def CloudOp.run (ses : Session) (db : Db) : CloudOp → Option Db
  | .record v o =>
      (recordVersion db.catalog v o).map fun r =>
        markPathDirty ses v { db with catalog := r.1 } o.path
  | .verified row digest =>
      some (markVersionOwners ses [row]
        { db with catalog := markVersionVerified db.catalog row digest })
  | .mismatch row digest =>
      some (markVersionOwners ses [row]
        { db with catalog := markVersionMismatch db.catalog row digest })
  | .superseded kept scanId startedAt =>
      some (markVersionOwners ses [kept]
        { db with
          catalog := markUnlistedSnapshotVersionsSuperseded db.catalog kept scanId startedAt })
  | .purged rows checkedAt =>
      some (markVersionOwners ses rows
        { db with catalog := markVersionsPurged db.catalog rows checkedAt })
  | .restoreState row state storageClass =>
      some (markVersionOwners ses [row]
        { db with catalog := updateRestoreState db.catalog row state storageClass })
  | .placement row p =>
      (updateVersionStoragePlacement db.catalog row p).map fun cat =>
        markVersionOwners ses [row] { db with catalog := cat }
  | .unseenMissing v scanId startedAt =>
      some (requestVaultRebuild v
        { db with catalog := (markUnseenArchiveVersionsMissing db.catalog v scanId startedAt).1 })
  | .itemsDeleted ids at_ =>
      some (markItemOwners ses ids { db with catalog := markItemsDeleted db.catalog ids at_ })
  | .finalize job =>
      (db.catalog.jobs.find? fun j => j.id = job && j.action = .cloudPurge).bind
        (finalizeWithMarks ses db)

end Frostvault
