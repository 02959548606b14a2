import Frostvault.LocalFiles.Temporaries
import Frostvault.Observation.LocalCopies

/-!
Residues of managed downloads (`app/services/restore_ghosts.py`).

Older scans recorded the temporary files of downloads as Vault Files of the owner.  Before a scan
such a file is retired with its path, when it has nothing but the path: no version, no Job and no
other path, and when nothing is on disk under its name.

* `ghostCandidate`, `isManagedTemporary`, `legacyStem`: the names that are considered;
* `isRestoreGhost`: the rows that are retired;
* `retireAbsentRestoreGhosts`: the repair, with its marks;
* `retireFiles_currentPath`: a retired file holds no path.
-/

namespace Frostvault

open Patterns

/-! ### Names -/

/-- `.verify-`. -/
def verifyMark : Directory.FileName := ['.', 'v', 'e', 'r', 'i', 'f', 'y', '-']

/-- `VERIFY_TEMPORARY_RE.fullmatch(name)`. -/
def isVerifyTemporary (name : Directory.FileName) : Bool :=
  fullmatch (temporaryPattern verifyMark) name ||
  fullmatch (temporaryPattern verifyMark ++ clientSuffix) name

/-- `Path(path).name`. -/
def lastName (p : Path) : Directory.FileName :=
  (((p.splitOn '/').filter fun w => w ≠ [] && w ≠ ['.']).getLast?).getD []

/-- `RESTORE_TEMPORARY_RE.fullmatch(name) or VERIFY_TEMPORARY_RE.fullmatch(name)`. -/
def isManagedTemporary (p : Path) : Bool :=
  isRestoreTemporary (lastName p) || isVerifyTemporary (lastName p)

/-- `_CANDIDATE`; the database's `.` matches every character. -/
def ghostCandidate (p : Path) : Bool :=
  let stem : List (Piece Char) := [.one fun _ => true, .many fun _ => true]
  fullmatch (stem ++ lit tmpMark) p || fullmatch (stem ++ lit tmpMark ++ clientSuffix) p ||
    fullmatch (stem ++ lit tmpMark ++ lit ['.'] ++ stem ++ lit partialMark) p

/-- `_LEGACY.fullmatch(path)`, and its group: the path without `.tmp.` and eight characters. -/
def legacyStem (p : Path) : Option Path :=
  if fullmatch ([.one dot, .many dot] ++ lit tmpMark ++ clientSuffix) p then
    some (p.take (p.length - 13))
  else none

/-! ### Rows -/

/-- A completed recovery of the path wrote a file of this size at about this time.  `updatedAt`
is the column `jobs.updated_at`. -/
def correlatedRecovery (cat : Catalog) (updatedAt : JobId → Stamp) (v : VaultId) (p : Path)
    (createdAt : Stamp) (size : Option ℕ) : Bool :=
  cat.jobs.any fun j =>
    j.vaultId = v && j.path = p && j.action = .recover && j.status = .completed &&
    j.requestedAt ≤ createdAt && createdAt ≤ updatedAt j.id &&
    cat.files.any fun g => g.id = j.vaultFileId && g.versions.any fun w =>
      some w.id = j.archiveVersionId && w.size.isSome && w.size = size

/-- The row is a residue.  A file with one path was created when the path began; `absent` tells
whether `lstat` finds nothing. -/
def isRestoreGhost (cat : Catalog) (updatedAt : JobId → Stamp) (absent : Path → Bool)
    (v : VaultId) (f : VaultFile) : Bool :=
  f.vaultId = v && f.status = .active && f.versions = [] &&
  (cat.jobs.all fun j => j.vaultFileId ≠ f.id) && f.pathHistory = [] &&
  f.currentPath.any fun p => ghostCandidate p && f.localCopy.any fun lc =>
    (isManagedTemporary p || (legacyStem p).any fun q =>
      correlatedRecovery cat updatedAt v q f.pathSince lc.size) && absent p

/-- A retired residue keeps its Local Copy. -/
def VaultFile.retireGhost (f : VaultFile) (at_ : Stamp) : VaultFile :=
  { f.closePath at_ with status := .retired }

/-- Retire some files, with their paths. -/
def Catalog.retireFiles (cat : Catalog) (ghost : VaultFile → Bool) (at_ : Stamp) : Catalog where
  files := cat.files.map fun f => if ghost f then f.retireGhost at_ else f
  jobs := cat.jobs
  items := cat.items
  ids_nodup := by
    rw [List.map_map]
    have hid : VaultFile.id ∘ (fun f => if ghost f then f.retireGhost at_ else f) =
        VaultFile.id := by
      funext f
      rw [Function.comp_apply]
      split <;> rfl
    rw [hid]
    exact cat.ids_nodup
  paths_unique := by
    rw [List.pairwise_map]
    refine cat.paths_unique.imp fun {a b} hab hv p ha hb => ?_
    -- a file that still has a path was left alone
    have hkept : ∀ f : VaultFile, (if ghost f then f.retireGhost at_ else f).currentPath = some p →
        f.currentPath = some p := by
      intro f hf
      split at hf
      · simp [VaultFile.retireGhost, VaultFile.closePath] at hf
      · exact hf
    have hvault : ∀ f : VaultFile, (if ghost f then f.retireGhost at_ else f).vaultId =
        f.vaultId := fun f => by split <;> rfl
    rw [hvault, hvault] at hv
    exact hab hv p (hkept a ha) (hkept b hb)
  versions_unique := by
    refine cat.versions_unique.sublist (Catalog.versionKeys_sublist (fun f => ?_) cat.files)
    split <;> exact List.Sublist.refl _
  jobIds_nodup := cat.jobIds_nodup

/-- `retire_absent_restore_ghosts`.  The loop reads the rows in batches of 100, in the order of
their paths; no row's answer depends on another's. -/
def retireAbsentRestoreGhosts (ses : Session) (db : Db) (v : VaultId)
    (updatedAt : JobId → Stamp) (absent : Path → Bool) (at_ : Stamp) : Db :=
  let ghosts := db.catalog.files.filter (isRestoreGhost db.catalog updatedAt absent v)
  (ghosts.filterMap VaultFile.currentPath).foldl (markPathDirty ses v)
    { db with catalog :=
        db.catalog.retireFiles (isRestoreGhost db.catalog updatedAt absent v) at_ }

/-- **A retired file holds no path**: what holds a path afterwards was left alone. -/
lemma retireFiles_currentPath {cat : Catalog} {ghost : VaultFile → Bool} {at_ : Stamp}
    {f : VaultFile} (hf : f ∈ (cat.retireFiles ghost at_).files) {p : Path}
    (hp : f.currentPath = some p) : f ∈ cat.files := by
  obtain ⟨g, hg, rfl⟩ := List.mem_map.mp hf
  split at hp
  · simp [VaultFile.retireGhost, VaultFile.closePath] at hp
  · rename_i hno
    rw [if_neg hno]
    exact hg

/-- The owner's `a.tmp` is a candidate of the query, and no managed name. -/
example : ghostCandidate ['a', '.', 't', 'm', 'p'] = true ∧
    isManagedTemporary ['a', '.', 't', 'm', 'p'] = false := by decide

end Frostvault
