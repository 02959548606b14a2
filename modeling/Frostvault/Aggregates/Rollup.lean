import Frostvault.ProtectionStates
import Frostvault.Lib.Keyset
import Mathlib.Data.List.Sort
import Mathlib.Data.String.Basic
import Mathlib.Algebra.GroupWithZero.Nat

/-!
Directory rollups (`app/services/directory_aggregates.py`).

The aggregate row of a directory is computed in two ways: a dirty directory is refreshed
by one SQL rollup over the files below it (`_rebuild_directory`), and a full rebuild folds
the contributions of all visible files, read in keyset batches, into one rollup per
ancestor directory (`rebuild_vault_directory_aggregates`).

* `ancestorDirectories`, `mem_ancestorDirectories`: the directories a file counts for;
* `visibleFileSelect`: the shared `SELECT`, with its path filter, keyset and limit;
* `contributionFromRow`, `DirectoryRollup.add`: the Python classifier and fold;
* `rollupSql`: the SQL classifier, grouped by state;
* `rebuildDirectory`, `rebuildVaultDirectoryAggregates`: the two writers.
-/

namespace Frostvault

/-! ### Directory names -/

/-- `str.isspace` of one character, the set `str.strip` removes. -/
def isSpace (c : Char) : Bool :=
  let n := c.toNat
  n ∈ [9, 10, 11, 12, 13, 28, 29, 30, 31, 32, 133, 160, 5760, 8232, 8233, 8239, 8287, 12288] ||
    (8192 ≤ n && n ≤ 8202)

/-- `(path or "").strip().strip("/")`. -/
def normalize (p : Path) : Path := Text.strip (· == '/') (Text.strip isSpace p)

/-- `ancestor_directories`. -/
def ancestorDirectories (p : Path) : List Path :=
  let normalized := normalize p
  if normalized = [] ∨ '/' ∉ normalized then []
  else Text.joinedPrefixes '/' (normalized.splitOn '/')

/-- The ancestors are the proper initial segments of the normalised path. -/
lemma ancestorDirectories_eq (p : Path) :
    ancestorDirectories p = Text.properPrefixes '/' (normalize p) := by
  rw [ancestorDirectories, Text.joinedPrefixes_splitOn]
  split
  · rename_i h
    rw [eq_comm, List.eq_nil_iff_forall_not_mem]
    intro d hd
    have hpre := (Text.mem_properPrefixes '/' _ d).mp hd
    have hmem : '/' ∈ normalize p := hpre.subset (by simp)
    rcases h with h | h
    · rw [h] at hmem
      cases hmem
    · exact h hmem
  · rfl

/-- **Ancestors.**  A directory is an ancestor of a path exactly when the normalised path
starts with its name and a slash. -/
lemma mem_ancestorDirectories (p d : Path) :
    d ∈ ancestorDirectories p ↔ d ++ ['/'] <+: normalize p := by
  rw [ancestorDirectories_eq, Text.mem_properPrefixes]

lemma ancestorDirectories_nodup (p : Path) : (ancestorDirectories p).Nodup := by
  rw [ancestorDirectories_eq]
  exact Text.properPrefixes_nodup _ _

/-! ### Ordering by path -/

/-- The database's order on paths: a strict total order in which the empty text comes
first. -/
structure Collation where
  lt : Path → Path → Bool
  irrefl : ∀ p, lt p p = false
  trans : ∀ p q r, lt p q = true → lt q r = true → lt p r = true
  total : ∀ p q, p ≠ q → lt p q = true ∨ lt q p = true
  nil_lt : ∀ p, p ≠ [] → lt [] p = true

/-- The `C` collation: code point by code point. -/
def Collation.codePoint : Collation where
  lt p q := decide (p < q)
  irrefl p := by simp
  trans p q r hpq hqr := by
    simp only [decide_eq_true_eq] at *
    exact lt_trans hpq hqr
  total p q h := by
    simp only [decide_eq_true_eq]
    exact lt_or_gt_of_ne h
  nil_lt p h := by
    obtain ⟨c, cs, rfl⟩ := List.exists_cons_of_ne_nil h
    simp

/-! ### The shared `SELECT` -/

/-- A row of `_visible_file_select_sql`. -/
structure VisibleRow where
  protectionState : ProtectionState
  vaultFileId : FileId
  path : Path
  localPresence : Option Presence
  localFileType : Option FileType
  localSize : Option ℕ
  localSha256 : Option Digest
  matchedArchiveVersionId : Option RowId
  cloudOnlyVersionId : Option RowId
  archiveVersionId : Option RowId
  cloudSize : Option ℕ
  storageClass : Option StorageClass
  versionSha256 : Option Digest
  integrity : Option Integrity
  availability : Option Availability
  restoreState : Option RestoreState
  recoverableVersionCount : ℕ
deriving DecidableEq, Repr

/-- The row of a file at its current path. -/
def rowAt (jobs : List Job) (f : VaultFile) (p : Path) : VisibleRow :=
  let lc := f.localCopy
  let av := f.latestVersion
  { protectionState := stateSql lc av (failedUploadSql jobs f.id)
    vaultFileId := f.id
    path := p
    localPresence := lc.map LocalCopy.presence
    localFileType := lc.map LocalCopy.fileType
    localSize := lc.bind LocalCopy.size
    localSha256 := lc.bind LocalCopy.plaintextSha256
    matchedArchiveVersionId := lc.bind LocalCopy.matchedArchiveVersionId
    cloudOnlyVersionId := lc.bind LocalCopy.cloudOnlyVersionId
    archiveVersionId := av.map ArchiveVersion.id
    cloudSize := av.bind ArchiveVersion.size
    storageClass := av.bind ArchiveVersion.storageClass
    versionSha256 := av.bind ArchiveVersion.plaintextSha256
    integrity := av.map ArchiveVersion.integrity
    availability := av.map ArchiveVersion.availability
    restoreState := av.bind ArchiveVersion.restoreState
    recoverableVersionCount := f.versions.countP fun w =>
      w.integrity = .verified && w.availability = .available }

/-- The row of a file, when it is active in the Vault and has a current path. -/
def fileRow (jobs : List Job) (v : VaultId) (f : VaultFile) : Option VisibleRow :=
  if f.vaultId = v ∧ f.status = .active then f.currentPath.map (rowAt jobs f) else none

/-- The joined rows of a Vault, in no particular order. -/
def Catalog.rows (cat : Catalog) (v : VaultId) : List VisibleRow :=
  cat.files.filterMap (fileRow cat.jobs v)

/-- `ORDER BY fp.path ASC`. -/
def orderByPath (coll : Collation) (rows : List VisibleRow) : List VisibleRow :=
  rows.insertionSort fun a b => coll.lt b.path a.path = false

/-- `_visible_file_select_sql`: the rows of a Vault below a directory and above a keyset
path, in path order, at most `limit` of them. -/
def visibleFileSelect (coll : Collation) (cat : Catalog) (v : VaultId)
    (pathPrefix keysetPath : Option Path) (limit : Option ℕ) : List VisibleRow :=
  let rows := (cat.rows v).filter fun r =>
    (pathPrefix.all fun d => Text.like r.path (Text.escapeLike d ++ ['/', '%'])) &&
    (keysetPath.all fun k => coll.lt k r.path)
  let ordered := orderByPath coll rows
  match limit with
  | some n => ordered.take n
  | none => ordered

/-! ### The Python classifier -/

/-- `local_copy_is_protected`. -/
def localCopyIsProtected (r : VisibleRow) : Bool :=
  match r.archiveVersionId with
  | none => false
  | some id =>
      r.integrity = some .verified && r.availability = some .available &&
      r.matchedArchiveVersionId = some id && r.localSha256.isSome &&
      r.localSha256 = r.versionSha256

/-- `local_copy_is_upload_eligible`. -/
def localCopyIsUploadEligible (r : VisibleRow) : Bool :=
  r.localPresence = some .present && r.localFileType = some .regular &&
  r.restoreState ≠ some .restoring && r.cloudOnlyVersionId.isNone && !localCopyIsProtected r

/-- `_FileContribution`. -/
structure FileContribution where
  path : Path
  state : ProtectionState
  totalSize : ℕ
  localSize : ℕ
  cloudSize : ℕ
  uploadEligible : Bool
  recoverEligible : Bool
  cleanupEligible : Bool
  hasCloud : Bool
  storageClass : Option StorageClass
deriving DecidableEq, Repr

/-- `row["local_presence"] in {"present", "unsupported"}`. -/
def VisibleRow.localExists (r : VisibleRow) : Bool :=
  r.localPresence = some .present || r.localPresence = some .unsupported

/-- The row is shown: there is a Local Copy or a version. -/
def VisibleRow.visible (r : VisibleRow) : Bool :=
  r.localExists || r.archiveVersionId.isSome

/-- `cloud_exists and row["availability"] not in {"missing", "purged"}`. -/
def VisibleRow.hasCloud (r : VisibleRow) : Bool :=
  r.archiveVersionId.isSome && r.availability ≠ some .missing && r.availability ≠ some .purged

/-- The contribution of a visible row. -/
def contributionOf (r : VisibleRow) : FileContribution where
  path := r.path
  state := r.protectionState
  totalSize := match r.localSize with
    | some n => n
    | none => r.cloudSize.getD 0
  localSize := if r.localExists then r.localSize.getD 0 else 0
  cloudSize := if r.hasCloud then r.cloudSize.getD 0 else 0
  uploadEligible := localCopyIsUploadEligible r
  recoverEligible := !r.localExists && 0 < r.recoverableVersionCount
  cleanupEligible :=
    (r.localPresence = some .present && r.localFileType = some .regular &&
      r.archiveVersionId.isSome && r.integrity = some .verified &&
      r.availability = some .available && r.matchedArchiveVersionId = r.archiveVersionId &&
      r.localSha256.isSome && r.localSha256 = r.versionSha256) &&
    r.protectionState = .protected_
  hasCloud := r.hasCloud
  storageClass := if r.hasCloud then r.storageClass else none

/-- `_contribution_from_row`. -/
def contributionFromRow (r : VisibleRow) : Option FileContribution :=
  if r.visible then some (contributionOf r) else none

/-! ### Rollups -/

/-- `_ACTION_COLUMNS`. -/
inductive RollupAction
  | upload | recover | freeSpace | cloudPurge
deriving DecidableEq, Repr

/-- The counted columns of a rollup. -/
@[ext]
structure RollupColumns where
  itemCount : ℕ
  totalSize : ℕ
  localSize : ℕ
  cloudSize : ℕ
  stateCounts : ProtectionState → ℕ
  actionCounts : RollupAction → ℕ

/-- `_DirectoryRollup`: the counted columns and the storage classes. -/
@[ext]
structure DirectoryRollup extends RollupColumns where
  storageClasses : StorageClass → ℕ

/-- A fresh `_DirectoryRollup()`. -/
def DirectoryRollup.zero : DirectoryRollup :=
  ⟨⟨0, 0, 0, 0, fun _ => 0, fun _ => 0⟩, fun _ => 0⟩

/-- Whether a contribution counts for an action. -/
def FileContribution.counts (c : FileContribution) : RollupAction → Bool
  | .upload => c.uploadEligible
  | .recover => c.recoverEligible
  | .freeSpace => c.cleanupEligible
  | .cloudPurge => c.state = .cloudOnly

/-- `_DirectoryRollup.add`.  An empty storage class is not counted. -/
def DirectoryRollup.add (r : DirectoryRollup) (c : FileContribution) : DirectoryRollup where
  itemCount := r.itemCount + 1
  totalSize := r.totalSize + c.totalSize
  localSize := r.localSize + c.localSize
  cloudSize := r.cloudSize + c.cloudSize
  stateCounts s := r.stateCounts s + if c.state = s then 1 else 0
  actionCounts a := r.actionCounts a + if c.counts a then 1 else 0
  storageClasses k := r.storageClasses k + if c.storageClass = some k ∧ k ≠ "" then 1 else 0

/-- The rollups of a full rebuild, keyed by directory. -/
abbrev Rolled := Path → Option DirectoryRollup

/-- Fold one contribution into every ancestor directory:
`rolled.setdefault(directory, _DirectoryRollup()).add(contribution)`. -/
def rolledAdd (rolled : Rolled) (c : FileContribution) : Rolled :=
  (ancestorDirectories c.path).foldl
    (fun m d => Function.update m d (some (((m d).getD .zero).add c))) rolled

/-! ### Full rebuild -/

/-- `REBUILD_CONTRIBUTION_BATCH_SIZE`. -/
def rebuildContributionBatchSize : ℕ := 2000

/-- `int(batch_size or REBUILD_CONTRIBUTION_BATCH_SIZE)`, reset when it is not positive. -/
def effectiveBatchSize (batchSize : Option ℤ) : ℕ :=
  match batchSize with
  | none => rebuildContributionBatchSize
  | some n => if n ≤ 0 then rebuildContributionBatchSize else n.toNat

/-- The loop of `_iter_visible_file_contribution_batches` from a keyset path on.  `fuel`
bounds the number of pages; one more than the number of rows is always enough. -/
def contributionBatches (coll : Collation) (cat : Catalog) (v : VaultId) (size : ℕ) :
    ℕ → Path → List (List FileContribution)
  | 0, _ => []
  | fuel + 1, keysetPath =>
      let rows := visibleFileSelect coll cat v none (some keysetPath) (some size)
      if rows = [] then []
      else
        let batch := rows.filterMap contributionFromRow
        -- the keyset moves on even when the page had only invisible rows
        let rest := if rows.length < size then []
          else contributionBatches coll cat v size fuel
            (Keyset.nextKey VisibleRow.path keysetPath rows)
        if batch = [] then rest else batch :: rest

/-- `_iter_visible_file_contribution_batches`. -/
def iterVisibleFileContributionBatches (coll : Collation) (cat : Catalog) (v : VaultId)
    (batchSize : Option ℤ) : List (List FileContribution) :=
  contributionBatches coll cat v (effectiveBatchSize batchSize) ((cat.rows v).length + 1) []

/-- The rows `rebuild_vault_directory_aggregates` leaves in `directory_aggregates` for the
Vault. -/
def rebuildVaultDirectoryAggregates (coll : Collation) (cat : Catalog) (v : VaultId)
    (batchSize : Option ℤ) : Rolled :=
  (iterVisibleFileContributionBatches coll cat v batchSize).foldl
    (fun rolled batch => batch.foldl rolledAdd rolled) fun _ => none

/-! ### SQL refresh -/

open Sql in
/-- The `action_upload` condition of the SQL rollup. -/
def uploadSql (r : VisibleRow) : Cond :=
  ((((eqLit r.localPresence .present).and (eqLit r.localFileType .regular)).and
    (some (r.restoreState ≠ some .restoring))).and (some r.cloudOnlyVersionId.isNone)).and
    (Cond.not (some ((((((eqLit r.integrity .verified).and
      (eqLit r.availability .available)).and
      (eq r.matchedArchiveVersionId r.archiveVersionId)).and
      (isNotNull r.localSha256)).and (eq r.localSha256 r.versionSha256)).getD false)))

/-- The `action_recover` condition: `coalesce(local_presence, 'missing') NOT IN (..)`. -/
def recoverSql (r : VisibleRow) : Bool :=
  r.localPresence.getD .missing ∉ [Presence.present, Presence.unsupported] &&
    0 < r.recoverableVersionCount

/-- One `GROUP BY protection_state` row of the SQL rollup. -/
structure Summary where
  protectionState : ProtectionState
  itemCount : ℕ
  totalSize : ℕ
  localSize : ℕ
  cloudSize : ℕ
  actionUpload : ℕ
  actionRecover : ℕ
  actionFreeSpace : ℕ
  actionCloudPurge : ℕ
deriving DecidableEq, Repr

/-- `coalesce(local_size, cloud_size, 0)`. -/
def VisibleRow.totalSizeSql (r : VisibleRow) : ℕ := (r.localSize.orElse fun _ => r.cloudSize).getD 0

/-- `CASE WHEN local_presence IN ('present', 'unsupported') THEN coalesce(local_size, 0) ..`. -/
def VisibleRow.localSizeSql (r : VisibleRow) : ℕ :=
  if (Sql.inList r.localPresence [.present, .unsupported]).holds then r.localSize.getD 0 else 0

/-- `CASE WHEN availability NOT IN ('missing', 'purged') THEN coalesce(cloud_size, 0) ..`. -/
def VisibleRow.cloudSizeSql (r : VisibleRow) : ℕ :=
  if (Sql.Cond.not (Sql.inList r.availability [.missing, .purged])).holds then
    r.cloudSize.getD 0 else 0

/-- The aggregated columns of one group. -/
def summarize (s : ProtectionState) (rows : List VisibleRow) : Summary where
  protectionState := s
  itemCount := rows.length
  totalSize := (rows.map VisibleRow.totalSizeSql).sum
  localSize := (rows.map VisibleRow.localSizeSql).sum
  cloudSize := (rows.map VisibleRow.cloudSizeSql).sum
  actionUpload := (rows.map fun r => if (uploadSql r).holds then 1 else 0).sum
  actionRecover := (rows.map fun r => if recoverSql r then 1 else 0).sum
  actionFreeSpace := (rows.map fun r => if r.protectionState = .protected_ then 1 else 0).sum
  actionCloudPurge := (rows.map fun r => if r.protectionState = .cloudOnly then 1 else 0).sum

/-- The groups of the SQL rollup; a state without rows has no group. -/
def summaries (rows : List VisibleRow) : List Summary :=
  (ProtectionState.all.filter fun s => rows.any fun r => r.protectionState = s).map fun s =>
    summarize s (rows.filter fun r => r.protectionState = s)

/-- The visible rows below a directory: the outer `WHERE` of the SQL rollup. -/
def rowsBelow (coll : Collation) (cat : Catalog) (v : VaultId) (d : Path) : List VisibleRow :=
  (visibleFileSelect coll cat v (some d) none none).filter fun r =>
    ((Sql.inList r.localPresence [.present, .unsupported]).or
      (Sql.isNotNull r.archiveVersionId)).holds

/-- The counted columns of the SQL rollup, or nothing when no visible file is below. -/
def columnsSql (rows : List VisibleRow) : Option RollupColumns :=
  let sums := summaries rows
  let total := fun key : Summary → ℕ => (sums.map key).sum
  if total Summary.itemCount ≤ 0 then none
  else some
    { itemCount := total Summary.itemCount
      totalSize := total Summary.totalSize
      localSize := total Summary.localSize
      cloudSize := total Summary.cloudSize
      stateCounts := fun s =>
        ((sums.find? fun g => g.protectionState = s).map Summary.itemCount).getD 0
      actionCounts := fun
        | .upload => total Summary.actionUpload
        | .recover => total Summary.actionRecover
        | .freeSpace => total Summary.actionFreeSpace
        | .cloudPurge => total Summary.actionCloudPurge }

/-- The storage classes `_rebuild_directory` counts: of the newest version that is neither
missing nor purged, for every active file below the directory. -/
def storageRows (cat : Catalog) (v : VaultId) (d : Path) : List StorageClass :=
  cat.files.filterMap fun f =>
    if f.vaultId = v ∧ f.status = .active ∧
        (f.currentPath.any fun p => Text.like p (Text.escapeLike d ++ ['/', '%'])) then
      (newest (f.versions.filter fun w =>
        w.availability ≠ .missing && w.availability ≠ .purged)).bind ArchiveVersion.storageClass
    else none

/-- The rollup `_rebuild_directory` writes for a directory, if any. -/
def rollupSql (coll : Collation) (cat : Catalog) (v : VaultId) (d : Path) :
    Option DirectoryRollup :=
  (columnsSql (rowsBelow coll cat v d)).map fun cols =>
    { cols with storageClasses := fun k => (storageRows cat v d).count k }

/-- `_rebuild_directory`: refresh one row of `directory_aggregates`. -/
def rebuildDirectory (coll : Collation) (cat : Catalog) (v : VaultId) (stored : Rolled)
    (d : Path) : Rolled :=
  let directory := normalize d
  if directory = [] then stored
  else Function.update stored directory (rollupSql coll cat v directory)

end Frostvault
