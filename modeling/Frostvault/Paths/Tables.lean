import Frostvault.Lib.Tables
import Frostvault.Observation.ScanJournal
import Frostvault.Observation.Statements

/-!
Vault Files and their paths, row by row (`vault_files`, `file_paths` and `local_copies` of
`migrations/versions/0002_versioned_archive.py`), and the functions of `app/catalog.py` that
mint identities and move them.

A row of `file_paths` is current while `valid_to` is `NULL`.  Two partial unique indexes look at
the current rows: `file_paths_one_current_path_uq` and `file_paths_one_current_file_uq`.  The
first one is what the functions count on.  Whether the second one is there as well is a
parameter: no result depends on it.

A function that raises is `none`; its transaction leaves no trace.

* `Tables`: the rows, with those columns of other tables the functions read;
* `Tables.insertFile`, `Tables.insertPath`: inserts under keys and indexes;
* `Tables.getOrCreateFile`, `Tables.resolveOrCreateFiles`, `Tables.resolveCloudPathFile`:
  identities;
* `Tables.renameFile`: a move;
* `Tables.rollbackLocalScanJournal`: the compensation of a scan.
-/

namespace Frostvault

open Table

/-! ### Rows -/

/-- A row of `vault_files`. -/
structure FileRow where
  id : FileId
  vaultId : VaultId
  status : FileStatus
  createdAt : Stamp
  retiredAt : Option Stamp
deriving DecidableEq, Repr

/-- A row of `file_paths`, current or closed. -/
structure FilePathRow where
  vaultFileId : FileId
  vaultId : VaultId
  path : Path
  validFrom : Stamp
  validTo : Option Stamp
deriving DecidableEq, Repr

/-- A row of `local_copies`. -/
structure CopyRow where
  vaultFileId : FileId
  copy : LocalCopy
deriving DecidableEq, Repr

/-- `file_paths_one_current_path_uq`. -/
def FilePathRow.pathKey (r : FilePathRow) : Option (VaultId × Path) :=
  if r.validTo.isNone then some (r.vaultId, r.path) else none

/-- `file_paths_one_current_file_uq`. -/
def FilePathRow.fileKey (r : FilePathRow) : Option FileId :=
  if r.validTo.isNone then some r.vaultFileId else none

/-- The tables.  Of `archive_versions` and `delete_markers` only the files they belong to are
read. -/
structure Tables where
  vaults : VaultTable
  files : List FileRow
  paths : List FilePathRow
  copies : List CopyRow
  versions : List FileId
  deleteMarkers : List FileId
  jobs : List Job
  dirty : List DirtyMark

/-- An installation without files. -/
def Tables.empty (vaults : VaultTable) : Tables := ⟨vaults, [], [], [], [], [], [], []⟩

namespace Tables

/-! ### Marks -/

/-- `_persist_dirty_directory`: `ON CONFLICT DO NOTHING`. -/
def persistDirtyDirectory (ses : Session) (v : VaultId) (t : Tables) (d : Path) : Tables :=
  let m : DirtyMark := ⟨v, d, ses.tx, ses.markedAt d⟩
  { t with dirty := if m.key ∈ t.dirty.map DirtyMark.key then t.dirty else t.dirty ++ [m] }

/-- `mark_path_dirty`. -/
def markPathDirty (ses : Session) (v : VaultId) (t : Tables) (p : Path) : Tables :=
  (ancestorDirectories p).foldl (persistDirtyDirectory ses v) t

/-- `mark_paths_dirty`. -/
def markPathsDirty (ses : Session) (v : VaultId) (t : Tables) (paths : List Path) : Tables :=
  ((paths.flatMap ancestorDirectories).dedup.insertionSort (· ≤ ·)).foldl
    (persistDirtyDirectory ses v) t

/-- The rows of a file, joined with those of its paths that meet a condition. -/
def joinPaths (t : Tables) (cond : FileRow → FilePathRow → Bool) : List (FileRow × FilePathRow) :=
  t.files.flatMap fun f =>
    (t.paths.filter fun r => r.vaultFileId = f.id && cond f r).map fun r => (f, r)

/-- `mark_file_id_dirty`. -/
def markFileIdDirty (ses : Session) (v : VaultId) (t : Tables) (id : FileId) : Tables :=
  match (t.joinPaths fun f r => r.validTo.isNone && f.id = id && f.vaultId = v).head? with
  | some row => t.markPathDirty ses v row.2.path
  | none => t

/-! ### Inserts -/

/-- `INSERT INTO vault_files`; a second row with its id is refused. -/
def insertFile (t : Tables) (r : FileRow) : Option Tables :=
  if t.files.any (fun f => f.id = r.id) then none
  else some { t with files := t.files ++ [r] }

/-- An index turns the row away. -/
def pathConflicts (fileIndex : Bool) (t : Tables) (r : FilePathRow) : Bool :=
  conflicts FilePathRow.pathKey r t.paths ||
    (fileIndex && conflicts FilePathRow.fileKey r t.paths)

/-- `INSERT INTO file_paths`: the indexes, and the foreign key of the file. -/
def insertPath (fileIndex : Bool) (t : Tables) (r : FilePathRow) : Option Tables :=
  if pathConflicts fileIndex t r || !(t.files.any fun f => f.id = r.vaultFileId) then none
  else some { t with paths := t.paths ++ [r] }

/-! ### Identities -/

/-- The file whose current path this is. -/
def currentFileAt (t : Tables) (v : VaultId) (p : Path) : Option FileId :=
  ((t.joinPaths fun f r =>
    r.validTo.isNone && f.vaultId = v && r.vaultId = f.vaultId && r.path = p).head?).map
      fun row => row.1.id

/-- `_get_or_create_file`; `uuid` is the identity it draws. -/
def getOrCreateFile (fileIndex : Bool) (t : Tables) (v : VaultId) (p : Path) (createdAt : Stamp)
    (uuid : FileId) : Option (Tables × FileId) :=
  match t.currentFileAt v p with
  | some id => some (t, id)
  | none => do
      let t' ← t.insertFile ⟨uuid, v, .active, createdAt, none⟩
      let t'' ← t'.insertPath fileIndex ⟨uuid, v, p, createdAt, none⟩
      some (t'', uuid)

/-- `_resolve_cloud_path_file`: the current path, else the latest active file that had it, else
a new identity. -/
def resolveCloudPathFile (fileIndex : Bool) (t : Tables) (v : VaultId) (p : Path)
    (createdAt : Stamp) (uuid : FileId) : Option (Tables × FileId) :=
  match t.currentFileAt v p with
  | some id => some (t, id)
  | none =>
      let rows := t.joinPaths fun f r =>
        f.vaultId = v && r.vaultId = f.vaultId && r.path = p && f.status = .active
      match (rows.insertionSort fun a b => b.2.validFrom ≤ a.2.validFrom).head? with
      | some row => some (t, row.1.id)
      | none => t.getOrCreateFile fileIndex v p createdAt uuid

/-- `NOT EXISTS (SELECT 1 FROM file_paths fp WHERE .. fp.valid_to IS NULL)`. -/
def pathFree (t : Tables) (v : VaultId) (p : Path) : Bool :=
  !t.paths.any fun r => r.vaultId = v && r.path = p && r.validTo.isNone

/-- `SELECT fp.path, vf.id .. WHERE vf.vault_id=%s AND fp.path IN (..)`. -/
def currentFilesAt (t : Tables) (v : VaultId) (paths : List Path) : List (Path × FileId) :=
  (t.joinPaths fun f r => r.validTo.isNone && f.vaultId = v && r.path ∈ paths).map
    fun row => (row.2.path, row.1.id)

/-- The two guarded inserts of a chunk. -/
def mintFiles (fileIndex : Bool) (t : Tables) (v : VaultId) (createdAt : Stamp)
    (uuid : Path → FileId) (newPaths : List Path) : Option Tables := do
  let t' ← (newPaths.filter (t.pathFree v)).foldlM
    (fun t p => t.insertFile ⟨uuid p, v, .active, createdAt, none⟩) t
  (newPaths.filter (t'.pathFree v)).foldlM
    (fun t p => t.insertPath fileIndex ⟨uuid p, v, p, createdAt, none⟩) t'

/-- One chunk of `_resolve_or_create_files`. -/
def resolveChunk (fileIndex : Bool) (v : VaultId) (createdAt : Stamp) (uuid : Path → FileId)
    (acc : Tables × List (Path × FileId)) (chunk : List Path) :
    Option (Tables × List (Path × FileId)) := do
  let resolved := acc.2 ++ acc.1.currentFilesAt v chunk
  let newPaths := chunk.filter fun p => p ∉ resolved.map Prod.fst
  if newPaths = [] then some (acc.1, resolved)
  else
    let t ← acc.1.mintFiles fileIndex v createdAt uuid newPaths
    some (t, resolved ++ t.currentFilesAt v newPaths)

/-- `_resolve_or_create_files`; a path without identity is a `KeyError`. -/
def resolveOrCreateFiles (fileIndex : Bool) (t : Tables) (v : VaultId) (paths : List Path)
    (createdAt : Stamp) (uuid : Path → FileId) : Option (Tables × List (Path × FileId)) := do
  let r ← (chunked paths.eraseDups 200).foldlM (resolveChunk fileIndex v createdAt uuid) (t, [])
  let ids ← paths.mapM fun p => (r.2.lookup p).map fun id => (p, id)
  some (r.1, ids)

/-! ### Moves -/

/-- `UPDATE file_paths SET valid_to=%s`. -/
def closeRow (changedAt : Stamp) (r : FilePathRow) : FilePathRow :=
  { r with validTo := some changedAt }

/-- `rename_file`. -/
def renameFile (fileIndex : Bool) (ses : Session) (t : Tables) (id : FileId) (newPath : Path)
    (changedAt : Stamp) (v : VaultId) : Option Tables :=
  match (t.joinPaths fun f r => r.vaultId = f.vaultId && r.validTo.isNone && f.id = id &&
      f.vaultId = v && f.status = .active).head? with
  | none => none
  | some row =>
      if row.2.path = newPath then some t
      else
        let marked := (t.markPathDirty ses v row.2.path).markPathDirty ses v newPath
        let closed := update
          (fun r : FilePathRow => r.vaultFileId = id && r.vaultId = v && r.validTo.isNone)
          (closeRow changedAt) marked.paths
        { marked with paths := closed.1 }.insertPath fileIndex ⟨id, v, newPath, changedAt, none⟩

/-! ### The compensation of a scan -/

/-- `DELETE FROM vault_files`: paths and Local Copies go with the file; versions, delete markers
and Jobs do not let it go. -/
def deleteFile (t : Tables) (id : FileId) (v : VaultId) : Option Tables :=
  if t.files.any (fun f => f.id = id && f.vaultId = v) then
    if id ∈ t.versions ∨ id ∈ t.deleteMarkers ∨ (t.jobs.any fun j => j.vaultFileId = id) = true then
      none
    else some
      { t with
        files := (delete (fun f : FileRow => f.id = id && f.vaultId = v) t.files).1
        paths := (delete (fun r : FilePathRow => r.vaultFileId = id) t.paths).1
        copies := (delete (fun c : CopyRow => c.vaultFileId = id) t.copies).1 }
  else some t

/-- `DELETE FROM local_copies WHERE vault_file_id=%s AND last_seen_at=%s`. -/
def deleteScannedCopy (t : Tables) (id : FileId) (scanId : Stamp) : Tables :=
  { t with
    copies := (delete
      (fun c : CopyRow => c.vaultFileId = id && c.copy.lastSeenAt = some scanId) t.copies).1 }

/-- The file a scan created at a path: observed by it, and without version or Job. -/
def scannedFileAt (t : Tables) (v : VaultId) (scanId : Stamp) (p : Path) : Option FileId :=
  ((t.joinPaths fun f r => r.vaultId = f.vaultId && r.path = p && r.validTo.isNone &&
    f.vaultId = v && (t.copies.any fun c => c.vaultFileId = f.id &&
      c.copy.lastSeenAt = some scanId) &&
    f.id ∉ t.versions && !t.jobs.any fun j => j.vaultFileId = f.id).head?).map fun row => row.1.id

/-- One entry of the journal, played back. -/
def undoEntry (ses : Session) (v : VaultId) (scanId : Stamp) (t : Tables)
    (e : Path × Option JournalRow) : Option Tables :=
  match e.2 with
  | none =>
      match t.scannedFileAt v scanId e.1 with
      | none => some t
      | some id =>
          let t' := t.deleteScannedCopy id scanId
          let unheld := delete (fun r : FilePathRow =>
            r.vaultFileId = id && r.vaultId = v && r.path = e.1 && r.validTo.isNone) t'.paths
          ({ t' with paths := unheld.1 }.deleteFile id v).map fun t : Tables =>
            t.markPathDirty ses v e.1
  | some ⟨id, none⟩ => some ((t.deleteScannedCopy id scanId).markFileIdDirty ses v id)
  | some ⟨id, some snapshot⟩ =>
      let copies := update
        (fun c : CopyRow => c.vaultFileId = id && c.copy.lastSeenAt = some scanId)
        (fun c => { c with copy := c.copy.restore snapshot }) t.copies
      some (markFileIdDirty ses v { t with copies := copies.1 } id)

/-- `_rollback_local_scan_journal`: best effort, an exception leaves the tables as they are. -/
def rollbackLocalScanJournal (ses : Session) (v : VaultId) (scanId : Stamp) (t : Tables)
    (journal : Journal) : Tables :=
  (journal.foldlM (undoEntry ses v scanId) t).getD t

end Tables

end Frostvault
