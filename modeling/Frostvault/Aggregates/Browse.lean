import Frostvault.Observation.DirectoryNames
import Frostvault.Lib.Paging
import Mathlib.Algebra.Order.BigOperators.Group.List

/-!
Browsing a Vault (`ArchiveCatalog._browse_directory_page`, `_direct_child_file_clauses` and
`_materialize_file_items` of `app/catalog.py`; `list_child_directory_rows`,
`count_child_directories` and `directory_row_to_item` of `app/services/directory_aggregates.py`).

The page of a directory is read from two sources: its child directories from the projection, by
the stored parent path, and behind them its direct files from the catalog, by `LIKE` patterns.

* `DirectoryRow`, `rebuiltRows`: the rows of the projection and what a full rebuild stores;
* `BrowseContext.browseDirectoryPage`: one page and the total;
* `browse_pages`: the pages put together, for every filter;
* `directChildFileClauses_iff`: the patterns select the files right below the directory;
* `count_below`: what lies below a directory lies in it or below one of its children;
* `browse_exact_iff`: **the catalogs whose tree is browsed exactly**.
-/

namespace Frostvault

open List

/-! ### The projection -/

/-- A row of `directory_aggregates` of the Vault. -/
structure DirectoryRow where
  path : Path
  parentPath : Path
  name : List Char
  rollup : DirectoryRollup

/-- The row `_upsert_rollup` stores. -/
def upsertRollup (directory : Path) (rollup : DirectoryRollup) : DirectoryRow where
  path := directory
  parentPath := (parentAndName directory).1
  name := (parentAndName directory).2
  rollup := rollup

/-- The rows `rebuild_vault_directory_aggregates` stores: one for each directory of `rolled`. -/
def rebuiltRows (coll : Collation) (cat : Catalog) (v : VaultId) (batchSize : Option ℤ) :
    List DirectoryRow :=
  let contributions := (iterVisibleFileContributionBatches coll cat v batchSize).flatten
  let directories := (contributions.flatMap fun c => ancestorDirectories c.path).dedup
  directories.filterMap fun d =>
    (rebuildVaultDirectoryAggregates coll cat v batchSize d).map (upsertRollup d)

/-! ### Items -/

/-- The text of a state in a filter. -/
def ProtectionState.text : ProtectionState → String
  | .pending => "pending"
  | .protected_ => "protected"
  | .problem => "problem"
  | .unconfirmed => "unconfirmed"
  | .cloudOnly => "cloud_only"

/-- `_STATE_COLUMNS.get`. -/
def stateColumn (state : String) : Option ProtectionState :=
  ProtectionState.all.find? fun s => s.text = state

/-- `aggregate_state`: the worst state that is counted. -/
def aggregateState (counts : ProtectionState → ℕ) : Option ProtectionState :=
  [.problem, .unconfirmed, .pending, .protected_, .cloudOnly].find? fun s => 0 < counts s

/-- The item of a directory. -/
structure DirectoryItem where
  name : List Char
  path : Path
  itemCount : ℕ
  totalSize : ℕ
  localSize : ℕ
  cloudSize : ℕ
  state : Option ProtectionState
  stateCounts : ProtectionState → ℕ
  lastKnownStates : ProtectionState → ℕ
  storageClasses : StorageClass → ℕ
  availableActions : RollupAction → ℕ

/-- `directory_row_to_item`.  While the source is unobserved every file counts as unconfirmed. -/
def directoryRowToItem (row : DirectoryRow) (unconfirmed : Bool) : DirectoryItem :=
  let counts : ProtectionState → ℕ :=
    if unconfirmed then fun s => if s = .unconfirmed then row.rollup.itemCount else 0
    else row.rollup.stateCounts
  { name := row.name
    path := row.path
    itemCount := row.rollup.itemCount
    totalSize := row.rollup.totalSize
    localSize := row.rollup.localSize
    cloudSize := row.rollup.cloudSize
    state := aggregateState counts
    stateCounts := counts
    lastKnownStates := row.rollup.stateCounts
    storageClasses := row.rollup.storageClasses
    availableActions := fun
      | .upload => if unconfirmed then 0 else row.rollup.actionCounts .upload
      | .recover => row.rollup.actionCounts .recover
      | .freeSpace => if unconfirmed then 0 else row.rollup.actionCounts .freeSpace
      | .cloudPurge => row.rollup.actionCounts .cloudPurge }

/-- The item of a file. -/
structure FileItem where
  name : List Char
  path : Path
  localExists : Bool
  localSize : Option ℕ
  localFileType : Option FileType
  cloudExists : Bool
  cloudSize : Option ℕ
  storageClass : Option StorageClass
  integrity : Option Integrity
  availability : Option Availability
  restoreState : Option RestoreState
  state : ProtectionState
  lastKnownState : ProtectionState
  previousSnapshotProtected : Bool
  cloudOnlyConflict : Bool
  uploadEligible : Bool
  recoverEligible : Bool
  recoverableVersionCount : ℕ
  cleanupEligible : Bool
deriving DecidableEq, Repr

/-- The last known state of `project_file`: an unknown availability does not erase the last full
verification of the content. -/
def lastKnownState (r : VisibleRow) : ProtectionState :=
  if r.protectionState = .unconfirmed ∧ r.integrity = some .verified then
    if r.localPresence = some .present ∧ r.matchedArchiveVersionId = r.archiveVersionId ∧
        r.localSha256.isSome ∧ r.localSha256 = r.versionSha256 then .protected_
    else if r.localExists then .pending
    else .cloudOnly
  else r.protectionState

/-- The item of a row below a directory. -/
def fileItem (unconfirmed : Bool) (directory : Path) (r : VisibleRow) : FileItem :=
  let state := if unconfirmed then .unconfirmed else r.protectionState
  { name := if directory = [] then r.path else r.path.drop (directory.length + 1)
    path := r.path
    localExists := r.localExists
    localSize := r.localSize
    localFileType := r.localFileType
    cloudExists := r.hasCloud
    cloudSize := r.cloudSize
    storageClass := r.storageClass
    integrity := r.integrity
    availability := r.availability
    restoreState := r.restoreState
    state := state
    lastKnownState := lastKnownState r
    previousSnapshotProtected := r.protectionState = .pending &&
      (0 < r.recoverableVersionCount ||
        (r.integrity = some .verified && r.availability = some .available))
    cloudOnlyConflict := r.cloudOnlyVersionId.any (· ≠ 0)
    uploadEligible := localCopyIsUploadEligible r && !unconfirmed
    recoverEligible := !r.localExists && 0 < r.recoverableVersionCount
    recoverableVersionCount := r.recoverableVersionCount
    cleanupEligible :=
      (r.localPresence = some .present && r.localFileType = some .regular && r.hasCloud &&
        r.integrity = some .verified && r.availability = some .available &&
        r.matchedArchiveVersionId = r.archiveVersionId && r.localSha256.isSome &&
        r.localSha256 = r.versionSha256) &&
      state = .protected_ }

/-- `_materialize_file_items`. -/
def materializeFileItems (unconfirmed : Bool) (directory : Path) (rows : List VisibleRow) :
    List FileItem :=
  rows.filterMap fun r => if r.visible then some (fileItem unconfirmed directory r) else none

/-- An item of a page. -/
inductive BrowseItem
  | directory (item : DirectoryItem)
  | file (item : FileItem)

/-! ### Reading a page -/

/-- What a page is read from: the database's order and `lower`, the catalog, the rows of the
Vault in the projection, and whether the Vault's protection is unconfirmed. -/
structure BrowseContext where
  coll : Collation
  lower : List Char → List Char
  cat : Catalog
  vaultId : VaultId
  projection : List DirectoryRow
  protectionUnconfirmed : Bool

namespace BrowseContext

variable (b : BrowseContext)

/-- `ORDER BY lower(name), name`. -/
def nameLe (x y : List Char) : Prop :=
  b.coll.lt (b.lower x) (b.lower y) = true ∨ b.lower x = b.lower y ∧ b.coll.lt y x = false

instance : DecidableRel b.nameLe := fun _ _ => inferInstanceAs (Decidable (_ ∨ _))

/-- The `WHERE` of `list_child_directory_rows` and `count_child_directories`. -/
def childDirectoryRows (parentPath : Path) (stateFilter : String) : List DirectoryRow :=
  if stateFilter = "" then b.projection.filter fun row => row.parentPath = parentPath
  else match stateColumn stateFilter with
    | none => []
    | some s => b.projection.filter fun row =>
        row.parentPath = parentPath && 0 < row.rollup.stateCounts s

/-- `count_child_directories`. -/
def countChildDirectories (parentPath : Path) (stateFilter : String) : ℕ :=
  (b.childDirectoryRows parentPath stateFilter).length

/-- `list_child_directory_rows`. -/
def listChildDirectoryRows (parentPath : Path) (stateFilter : String) (limit offset : ℕ) :
    List DirectoryItem :=
  let ordered := (b.childDirectoryRows parentPath stateFilter).insertionSort fun x y =>
    b.nameLe x.name y.name
  ((ordered.drop offset).take limit).map fun row =>
    directoryRowToItem row b.protectionUnconfirmed

/-- The clauses of `_direct_child_file_clauses` on a row, without a search text. -/
def directChildFileClauses (directory : Path) (state : String) (r : VisibleRow) : Bool :=
  (if directory = [] then !Text.like r.path ['%', '/', '%']
    else Text.like r.path (Text.escapeLike directory ++ ['/', '%']) &&
      !Text.like r.path (Text.escapeLike directory ++ ['/', '%', '/', '%'])) &&
  ((Sql.inList r.localPresence [.present, .unsupported]).or
    (Sql.isNotNull r.archiveVersionId)).holds &&
  (state = "" ||
    if b.protectionUnconfirmed then state = "unconfirmed" else r.protectionState.text = state)

/-- `_count_direct_child_files`. -/
def countDirectChildFiles (directory : Path) (state : String) : ℕ :=
  (b.cat.rows b.vaultId).countP (b.directChildFileClauses directory state)

/-- `_list_direct_child_files`. -/
def listDirectChildFiles (directory : Path) (state : String) (limit offset : ℕ) :
    List FileItem :=
  if limit = 0 then []
  else
    let rows := (b.cat.rows b.vaultId).filter (b.directChildFileClauses directory state)
    let ordered := rows.insertionSort fun x y => b.nameLe x.path y.path
    materializeFileItems b.protectionUnconfirmed directory ((ordered.drop offset).take limit)

/-- `folder_state` of `_browse_directory_page`: without observation every directory is
unconfirmed. -/
def folderState (state : String) : String :=
  if b.protectionUnconfirmed then
    if state = "" ∨ state = "unconfirmed" then "" else "__none__"
  else state

/-- `_browse_directory_page`: the items of a page and the total; pages are counted from `1`. -/
def browseDirectoryPage (directory : Path) (state : String) (page pageSize : ℕ) :
    List BrowseItem × ℕ :=
  let folderTotal := b.countChildDirectories directory (b.folderState state)
  let fileTotal := b.countDirectChildFiles directory state
  let offset := (page - 1) * pageSize
  let items :=
    if offset < folderTotal then
      let folders := b.listChildDirectoryRows directory (b.folderState state) pageSize offset
      let remaining := pageSize - folders.length
      folders.map .directory ++
        if 0 < remaining then (b.listDirectChildFiles directory state remaining 0).map .file
        else []
    else (b.listDirectChildFiles directory state pageSize (offset - folderTotal)).map .file
  (items, folderTotal + fileTotal)

/-- The pages `1` to `k`, put together. -/
def browsed (directory : Path) (state : String) (pageSize k : ℕ) : List BrowseItem :=
  ((List.range k).map fun i => (b.browseDirectoryPage directory state (i + 1) pageSize).1).flatten

end BrowseContext

/-! ### The tree -/

/-- The path is one name below the directory. -/
def ChildPath (d p : Path) : Prop := ∃ w, '/' ∉ w ∧ p = joinName d w

lemma drop_below (d w : List Char) : (d ++ '/' :: w).drop (d.length + 1) = w := by
  rw [drop_append, drop_eq_nil_of_le (Nat.le_succ _)]
  simp

lemma childPath_iff (d p : Path) : ChildPath d p ↔
    if d = [] then '/' ∉ p else d ++ ['/'] <+: p ∧ '/' ∉ p.drop (d.length + 1) := by
  simp only [ChildPath, joinName]
  split
  · simp
  · constructor
    · rintro ⟨w, hw, rfl⟩
      exact ⟨⟨w, by simp⟩, by rwa [drop_below]⟩
    · rintro ⟨⟨w, rfl⟩, hw⟩
      rw [append_assoc, singleton_append] at hw ⊢
      exact ⟨w, by rwa [drop_below] at hw, rfl⟩

instance (d p : Path) : Decidable (ChildPath d p) := decidable_of_iff' _ (childPath_iff d p)

/-- The paths of the visible files right below a directory. -/
def childFiles (cat : Catalog) (v : VaultId) (d : Path) : List Path :=
  ((cat.rows v).filter fun r => r.visible && decide (ChildPath d r.path)).map VisibleRow.path

/-- The directory has a child directory of this name: a visible file lies below it. -/
def ChildDirectory (cat : Catalog) (v : VaultId) (d : Path) (w : List Char) : Prop :=
  '/' ∉ w ∧ ∃ r ∈ cat.rows v, r.visible = true ∧ joinName d w ++ ['/'] <+: r.path

/-- A directory is listed as it should be: its child directories under their paths and names, each
once and in the order of their names, and its direct files, each once. -/
structure ListsChildren (b : BrowseContext) (d : Path) (folders : List DirectoryItem)
    (files : List FileItem) : Prop where
  ordered : folders.Pairwise fun x y => b.nameLe x.name y.name ∧ x.name ≠ y.name
  directories : ∀ (q : Path) (w : List Char), (∃ x ∈ folders, x.path = q ∧ x.name = w) ↔
    ChildDirectory b.cat b.vaultId d w ∧ q = joinName d w
  files : (files.map FileItem.path).Perm (childFiles b.cat b.vaultId d)

/-- The tree is browsed exactly.  The pages of a directory, put together, list its child
directories and behind them its direct files, with the total on every page; a directory counts
its direct files and what its child directories count. -/
structure BrowsedExactly (b : BrowseContext) : Prop where
  pages : ∀ d pageSize, 0 < pageSize → ∃ folders files, ListsChildren b d folders files ∧
    (∀ k, folders.length + files.length ≤ k * pageSize → b.browsed d "" pageSize k =
      folders.map .directory ++ files.map .file) ∧
    ∀ page, (b.browseDirectoryPage d "" page pageSize).2 = folders.length + files.length
  counted : ∀ row ∈ b.projection, row.rollup.itemCount =
    (childFiles b.cat b.vaultId row.path).length +
      ((b.projection.filter fun c => ChildPath row.path c.path).map
        fun c => c.rollup.itemCount).sum

/-! ### Pages -/

/-- **The patterns** select the visible files right below the directory, in the wanted state. -/
lemma directChildFileClauses_iff (b : BrowseContext) (d : Path) (state : String)
    (r : VisibleRow) : b.directChildFileClauses d state r ↔
      (r.visible ∧ ChildPath d r.path) ∧ (state = "" ∨
        if b.protectionUnconfirmed then state = "unconfirmed"
        else r.protectionState.text = state) := by
  have hplace : (if d = [] then !Text.like r.path ['%', '/', '%']
      else Text.like r.path (Text.escapeLike d ++ ['/', '%']) &&
        !Text.like r.path (Text.escapeLike d ++ ['/', '%', '/', '%'])) ↔
      ChildPath d r.path := by
    rw [childPath_iff]
    split
    · rw [Bool.not_eq_true', ← Bool.not_eq_true, Text.like_contains]
    · rw [Bool.and_eq_true, Text.like_escapeLike_descendants, Bool.not_eq_true',
        ← Bool.not_eq_true, Text.like_escapeLike_nested]
      refine and_congr_right fun ⟨w, hw⟩ => not_congr ?_
      rw [← hw, append_assoc, singleton_append, drop_below]
      simp
  rw [BrowseContext.directChildFileClauses, Bool.and_eq_true, Bool.and_eq_true, hplace,
    holds_visibleSql]
  refine and_congr and_comm ?_
  rw [Bool.or_eq_true, decide_eq_true_eq]
  split <;> rw [decide_eq_true_eq]

variable {batchSize : Option ℤ} {cat : Catalog} {coll : Collation} {d : Path} {r : VisibleRow}
  {v : VaultId}

lemma materializeFileItems_eq {unconfirmed : Bool} {rows : List VisibleRow}
    (h : ∀ r ∈ rows, r.visible) :
    materializeFileItems unconfirmed d rows = rows.map (fileItem unconfirmed d) := by
  rw [materializeFileItems, ← filterMap_eq_map]
  exact filterMap_congr fun r hr => by rw [if_pos (h r hr), Function.comp_apply]

namespace BrowseContext

variable (b : BrowseContext)

/-- All child directories, in order. -/
def folders (d : Path) (state : String) : List DirectoryItem :=
  ((b.childDirectoryRows d (b.folderState state)).insertionSort fun x y =>
    b.nameLe x.name y.name).map fun row => directoryRowToItem row b.protectionUnconfirmed

/-- All direct files, in order. -/
def files (d : Path) (state : String) : List FileItem :=
  (((b.cat.rows b.vaultId).filter (b.directChildFileClauses d state)).insertionSort
    fun x y => b.nameLe x.path y.path).map (fileItem b.protectionUnconfirmed d)

lemma listDirectChildFiles_eq (d : Path) (state : String) (limit offset : ℕ) :
    b.listDirectChildFiles d state limit offset =
      ((b.files d state).drop offset).take limit := by
  rw [listDirectChildFiles, files]
  split
  · rename_i hzero
    rw [hzero, take_zero]
  · rw [materializeFileItems_eq, map_take, map_drop]
    intro r hr
    have hmem := (mem_insertionSort _).mp (mem_of_mem_drop (mem_of_mem_take hr))
    exact ((directChildFileClauses_iff b d state r).mp (mem_filter.mp hmem).2).1.1

/-- **One page** is the page of the child directories followed by the direct files. -/
lemma browseDirectoryPage_eq (d : Path) (state : String) (page pageSize : ℕ) :
    b.browseDirectoryPage d state page pageSize =
      (Paging.page pageSize
          ((b.folders d state).map .directory ++ (b.files d state).map .file) (page - 1),
        (b.folders d state).length + (b.files d state).length) := by
  have hfolders : b.countChildDirectories d (b.folderState state) =
      ((b.folders d state).map BrowseItem.directory).length := by
    simp [countChildDirectories, folders]
  have hfiles : b.countDirectChildFiles d state = (b.files d state).length := by
    simp [countDirectChildFiles, files, countP_eq_length_filter]
  have hlist : ∀ limit offset, b.listChildDirectoryRows d (b.folderState state) limit offset =
      ((b.folders d state).drop offset).take limit := by
    intro limit offset
    rw [listChildDirectoryRows, folders, map_take, map_drop]
  rw [← Paging.behind_eq_page]
  simp only [browseDirectoryPage, hlist, listDirectChildFiles_eq, hfolders,
    hfiles, Paging.behind]
  refine Prod.ext_iff.mpr ⟨?_, by simp⟩
  simp only [map_take, map_drop]
  split
  · simp
  · rfl

/-- **The pages put together** list the child directories and then the direct files, for every
filter; the total is on every page. -/
lemma browse_pages (d : Path) (state : String) (pageSize k : ℕ)
    (hk : (b.folders d state).length + (b.files d state).length ≤ k * pageSize) :
    b.browsed d state pageSize k =
      (b.folders d state).map .directory ++ (b.files d state).map .file := by
  have hpages : (fun i => (b.browseDirectoryPage d state (i + 1) pageSize).1) =
      Paging.page pageSize
        ((b.folders d state).map .directory ++ (b.files d state).map .file) := by
    funext i
    rw [browseDirectoryPage_eq, Nat.add_sub_cancel]
  rw [browsed, hpages]
  exact Paging.flatten_pages_of_le (by simpa using hk)

end BrowseContext

/-! ### The rows of a rebuild -/

/-- The visible rows a directory is an ancestor of. -/
def naming (d : Path) (r : VisibleRow) : Bool :=
  r.visible && decide (d ∈ ancestorDirectories r.path)

/-- What a full rebuild leaves in the projection: a row for each ancestor of a visible file, with
the number of these files. -/
structure Rebuilt (b : BrowseContext) : Prop where
  paths : (b.projection.map DirectoryRow.path).Nodup
  split : ∀ row ∈ b.projection, (row.parentPath, row.name) = parentAndName row.path
  stored : ∀ d, (∃ row ∈ b.projection, row.path = d) ↔
    ∃ r ∈ b.cat.rows b.vaultId, naming d r = true
  counts : ∀ row ∈ b.projection,
    row.rollup.itemCount = (b.cat.rows b.vaultId).countP (naming row.path)

lemma mem_rowsNaming : r ∈ rowsNaming coll cat v d ↔ r ∈ cat.rows v ∧ naming d r := by
  rw [rowsNaming, mem_filter, orderedRows, orderByPath, mem_insertionSort]
  rfl

/-- The directories the rebuild stores a row for. -/
lemma rebuild_isSome_iff :
    (rebuildVaultDirectoryAggregates coll cat v batchSize d).isSome ↔
      ∃ r ∈ cat.rows v, naming d r := by
  rw [rebuildVaultDirectoryAggregates_apply]
  split
  · rename_i hnil
    simp only [Option.isSome_none, Bool.false_eq_true, false_iff, not_exists, not_and]
    intro r hr hnaming
    exact not_mem_nil (hnil ▸ mem_rowsNaming.mpr ⟨hr, hnaming⟩)
  · rename_i hne
    obtain ⟨r, rest, hrows⟩ := exists_cons_of_ne_nil hne
    have hr : r ∈ rowsNaming coll cat v d := hrows ▸ mem_cons_self
    exact iff_of_true rfl ⟨r, mem_rowsNaming.mp hr⟩

/-- The rebuild counts the files it adds. -/
lemma itemCount_of_rebuild {rollup : DirectoryRollup}
    (h : rebuildVaultDirectoryAggregates coll cat v batchSize d = some rollup) :
    rollup.itemCount = (cat.rows v).countP (naming d) := by
  have hcolumns := rolled_columns coll cat v batchSize d
  rw [h, Option.map_some] at hcolumns
  split at hcolumns
  · cases hcolumns
  · have hcount : rollup.itemCount = (rowsNaming coll cat v d).length :=
      congrArg RollupColumns.itemCount (Option.some.inj hcolumns)
    have hperm : (orderedRows coll cat v).Perm (cat.rows v) := perm_insertionSort _ _
    rw [hcount, rowsNaming, ← countP_eq_length_filter]
    exact hperm.countP_eq _

/-- Every directory the rebuild stores is among those of the contributions. -/
lemma mem_directories (hr : r ∈ cat.rows v) (hnaming : naming d r) :
    d ∈ (iterVisibleFileContributionBatches coll cat v batchSize).flatten.flatMap
      fun c => ancestorDirectories c.path := by
  obtain ⟨hvisible, hanc⟩ := Bool.and_eq_true_iff.mp hnaming
  have hd := of_decide_eq_true hanc
  rw [mem_flatMap, flatten_iterVisibleFileContributionBatches]
  refine ⟨contributionOf r, mem_filterMap.mpr ⟨r, ?_, ?_⟩, hd⟩
  · refine mem_filter.mpr ⟨(mem_insertionSort _).mpr hr, ?_⟩
    exact coll.nil_lt _ (ne_nil_of_mem_ancestorDirectories hd)
  · rw [contributionFromRow, if_pos hvisible]

/-- **The rows of a full rebuild**, in any order. -/
lemma rebuilt_of_perm {b : BrowseContext}
    (h : b.projection.Perm (rebuiltRows b.coll b.cat b.vaultId batchSize)) : Rebuilt b := by
  set rolled := rebuildVaultDirectoryAggregates b.coll b.cat b.vaultId batchSize with hrolled
  have hmem : ∀ row, row ∈ b.projection → ∃ rollup, rolled row.path = some rollup ∧
      row = upsertRollup row.path rollup := by
    intro row hrow
    obtain ⟨d, -, hd⟩ := mem_filterMap.mp (h.subset hrow)
    obtain ⟨rollup, hrollup, rfl⟩ := Option.map_eq_some_iff.mp hd
    exact ⟨rollup, hrollup, rfl⟩
  refine ⟨?_, fun row hrow => ?_, fun d => ⟨?_, ?_⟩, fun row hrow => ?_⟩
  · -- the paths of the rows are among the directories, which are listed once
    rw [(h.map _).nodup_iff, rebuiltRows, map_filterMap]
    refine List.Nodup.filterMap (fun d d' q hd hd' => ?_) (nodup_dedup _)
    have hpath : ∀ e, q ∈ ((rebuildVaultDirectoryAggregates b.coll b.cat b.vaultId batchSize
        e).map (upsertRollup e)).map DirectoryRow.path → q = e := by
      intro e he
      rw [Option.map_map] at he
      obtain ⟨rollup, -, rfl⟩ := Option.map_eq_some_iff.mp he
      rfl
    exact (hpath d hd).symm.trans (hpath d' hd')
  · obtain ⟨rollup, -, hrow⟩ := hmem row hrow
    rw [hrow]
    rfl
  · rintro ⟨row, hrow, rfl⟩
    obtain ⟨rollup, hrollup, -⟩ := hmem row hrow
    exact rebuild_isSome_iff.mp (Option.isSome_of_eq_some hrollup)
  · rintro ⟨r, hr, hnaming⟩
    obtain ⟨rollup, hrollup⟩ := Option.isSome_iff_exists.mp
      (rebuild_isSome_iff.mpr ⟨r, hr, hnaming⟩ :
        (rebuildVaultDirectoryAggregates b.coll b.cat b.vaultId batchSize d).isSome)
    refine ⟨upsertRollup d rollup, h.symm.subset (mem_filterMap.mpr ⟨d, ?_, ?_⟩), rfl⟩
    · exact mem_dedup.mpr (mem_directories hr hnaming)
    · rw [hrollup, Option.map_some]
  · obtain ⟨rollup, hrollup, hrow⟩ := hmem row hrow
    rw [hrow]
    exact itemCount_of_rebuild hrollup

/-! ### Counting below a directory -/

/-- The visible rows whose path starts with the directory and a slash. -/
def lyingBelow (d : Path) (r : VisibleRow) : Bool :=
  r.visible && decide (d ++ ['/'] <+: r.path)

lemma sum_countP_comm {α β : Type*} (xs : List α) (ys : List β) (related : α → β → Bool) :
    (xs.map fun x => ys.countP (related x)).sum =
      (ys.map fun y => xs.countP fun x => related x y).sum := by
  induction xs with
  | nil => simp
  | cons x xs ih =>
      have hstep : (fun y => (x :: xs).countP fun x => related x y) =
          fun y => (if related x y = true then 1 else 0) + xs.countP fun x => related x y := by
        funext y
        rw [countP_cons, Nat.add_comm]
      rw [map_cons, sum_cons, ih, hstep, sum_map_add, sum_ite_eq_countP]

lemma takeWhile_of_name {w l : List Char} (hw : '/' ∉ w) (h : w ++ ['/'] <+: l) :
    l.takeWhile (· ≠ '/') = w := by
  obtain ⟨t, rfl⟩ := h
  rw [append_assoc, takeWhile_append_of_pos]
  · simp
  · intro c hc
    exact decide_eq_true fun heq => hw (heq ▸ hc)

/-- **A path below a directory** is the path of a direct file, or lies below exactly one of the
child directories. -/
lemma below_cases {p : Path} {children : List Path} (hd : d ≠ []) (hnodup : children.Nodup)
    (hchild : ∀ c ∈ children, ChildPath d c)
    (hall : ∀ w, '/' ∉ w → joinName d w ++ ['/'] <+: p → joinName d w ∈ children) :
    (if d ++ ['/'] <+: p then 1 else 0) =
      (if ChildPath d p then 1 else 0) + children.countP fun c => decide (c ++ ['/'] <+: p) := by
  have hjoin : ∀ w, joinName d w = d ++ '/' :: w := fun w => by rw [joinName, if_neg hd]
  have hbelow : ∀ w x, joinName d w ++ ['/'] <+: d ++ '/' :: x ↔ w ++ ['/'] <+: x := by
    intro w x
    rw [hjoin, append_assoc, prefix_append_right_inj, cons_append,
      cons_prefix_cons]
    exact and_iff_right rfl
  by_cases hp : d ++ ['/'] <+: p
  · rw [if_pos hp]
    obtain ⟨x, rfl⟩ := hp
    rw [append_assoc, singleton_append] at hall ⊢
    have hdirect : ChildPath d (d ++ '/' :: x) ↔ '/' ∉ x := by
      rw [childPath_iff, if_neg hd, drop_below]
      exact and_iff_right ⟨x, by simp⟩
    by_cases hx : '/' ∈ x
    · -- the child directory is named by the text before the first slash
      obtain ⟨w, y, rfl, hw⟩ := eq_append_cons_of_mem hx
      have hwy : w ++ ['/'] <+: w ++ '/' :: y := ⟨y, by simp⟩
      have hmem := hall w hw ((hbelow w _).mpr hwy)
      have hone : children.countP (fun c => decide (c ++ ['/'] <+: d ++ '/' :: (w ++ '/' :: y))) =
          children.count (joinName d w) := by
        rw [List.count]
        refine countP_congr fun c hc => ?_
        obtain ⟨w', hw', rfl⟩ := hchild c hc
        rw [decide_eq_true_iff, hbelow, beq_iff_eq]
        constructor
        · intro h
          rw [← takeWhile_of_name hw' h, takeWhile_of_name hw hwy]
        · intro h
          rw [hjoin, hjoin] at h
          rw [List.cons.inj (append_cancel_left h) |>.2]
          exact hwy
      rw [if_neg (fun h => hdirect.mp h hx), hone, count_eq_one_of_mem hnodup hmem]
    · have hnone : children.countP (fun c => decide (c ++ ['/'] <+: d ++ '/' :: x)) = 0 := by
        rw [countP_eq_zero]
        intro c hc hcx
        obtain ⟨w, -, rfl⟩ := hchild c hc
        exact hx (((hbelow w x).mp (of_decide_eq_true hcx)).subset (by simp))
      rw [if_pos (hdirect.mpr hx), hnone]
  · have hnone : children.countP (fun c => decide (c ++ ['/'] <+: p)) = 0 := by
      rw [countP_eq_zero]
      intro c hc hcp
      obtain ⟨w, -, rfl⟩ := hchild c hc
      refine hp (List.IsPrefix.trans ⟨w ++ ['/'], ?_⟩ (of_decide_eq_true hcp))
      rw [hjoin]
      simp
    have hdirect : ¬ChildPath d p := by
      rw [childPath_iff, if_neg hd]
      exact fun h => hp h.1
    rw [if_neg hp, if_neg hdirect, hnone]

/-- **What lies below a directory** lies in it or below one of its children. -/
lemma count_below {children : List Path} (hd : d ≠ [])
    (hnodup : children.Nodup) (hchild : ∀ c ∈ children, ChildPath d c)
    (hall : ∀ w, ChildDirectory cat v d w → joinName d w ∈ children) :
    (cat.rows v).countP (lyingBelow d) = (childFiles cat v d).length +
      (children.map fun c => (cat.rows v).countP (lyingBelow c)).sum := by
  rw [sum_countP_comm, childFiles, length_map, ← countP_eq_length_filter,
    ← sum_ite_eq_countP, ← sum_ite_eq_countP, ← sum_map_add]
  refine congrArg List.sum (map_congr_left fun r hr => ?_)
  cases hvisible : r.visible with
  | false => simp [lyingBelow, hvisible]
  | true =>
      have hcases := below_cases (p := r.path) hd hnodup hchild fun w hw hbelow =>
        hall w ⟨hw, r, hr, hvisible, hbelow⟩
      simpa [lyingBelow, hvisible] using hcases

/-! ### Listing under plain names -/

/-- Parent and name are read off what they join to. -/
lemma joinName_injective {d' : Path} {w w' : List Char} (hw : '/' ∉ w) (hw' : '/' ∉ w')
    (h : joinName d w = joinName d' w') : d = d' ∧ w = w' := by
  have hlast : ∀ {q : Path} {u : List Char}, '/' ∉ u →
      (q ++ '/' :: u).reverse.takeWhile (· ≠ '/') = u.reverse := by
    intro q u hu
    refine takeWhile_of_name (fun hmem => hu (mem_reverse.mp hmem)) ⟨q.reverse, ?_⟩
    simp
  by_cases hd : d = [] <;> by_cases hd' : d' = []
  · rw [joinName, joinName, if_pos hd, if_pos hd'] at h
    exact ⟨hd.trans hd'.symm, h⟩
  · rw [joinName, joinName, if_pos hd, if_neg hd'] at h
    exact absurd (h ▸ hw) (by simp)
  · rw [joinName, joinName, if_neg hd, if_pos hd'] at h
    exact absurd (h ▸ hw') (by simp)
  · rw [joinName, joinName, if_neg hd, if_neg hd'] at h
    have hname : w = w' := by
      rw [← reverse_inj, ← hlast (q := d) hw, h, hlast hw']
    exact ⟨append_cancel_right (hname ▸ h), hname⟩

namespace BrowseContext

variable {b : BrowseContext}

lemma nameLe_total (x y : List Char) : b.nameLe x y ∨ b.nameLe y x := by
  have hasymm : ∀ p q, b.coll.lt p q → b.coll.lt q p = false := by
    intro p q h
    by_contra hqp
    have := b.coll.trans _ _ _ h (Bool.eq_true_of_not_eq_false hqp)
    rw [b.coll.irrefl] at this
    exact Bool.false_ne_true this
  by_cases hlower : b.lower x = b.lower y
  · cases hyx : b.coll.lt y x with
    | false => exact .inl (.inr ⟨hlower, hyx⟩)
    | true => exact .inr (.inr ⟨hlower.symm, hasymm _ _ hyx⟩)
  · exact (b.coll.total _ _ hlower).imp .inl .inl

lemma nameLe_trans {x y z : List Char} (hxy : b.nameLe x y) (hyz : b.nameLe y z) :
    b.nameLe x z := by
  rcases hxy with hxy | ⟨hxy, hxy'⟩ <;> rcases hyz with hyz | ⟨hyz, hyz'⟩
  · exact .inl (b.coll.trans _ _ _ hxy hyz)
  · exact .inl (hyz ▸ hxy)
  · exact .inl (hxy ▸ hyz)
  · exact .inr ⟨hxy.trans hyz, Collation.le_trans hxy' hyz'⟩

@[simp] lemma folderState_empty : b.folderState "" = "" := by simp [folderState]

lemma mem_folders {x : DirectoryItem} : x ∈ b.folders d "" ↔
    ∃ row ∈ b.projection, row.parentPath = d ∧
      directoryRowToItem row b.protectionUnconfirmed = x := by
  simp [folders, childDirectoryRows, mem_insertionSort, and_assoc]

lemma files_perm (d : Path) :
    ((b.files d "").map FileItem.path).Perm (childFiles b.cat b.vaultId d) := by
  have hclauses : (b.cat.rows b.vaultId).filter (b.directChildFileClauses d "") =
      (b.cat.rows b.vaultId).filter fun r => r.visible && decide (ChildPath d r.path) := by
    refine filter_congr fun r _ => Bool.eq_iff_iff.mpr ?_
    simp [directChildFileClauses_iff]
  rw [files, map_map, hclauses, childFiles]
  exact (perm_insertionSort _ _).map VisibleRow.path

/-- The names of the rows of a projection join to their paths. -/
def JoinedNames (b : BrowseContext) : Prop :=
  ∀ row ∈ b.projection, '/' ∉ row.name ∧ joinName row.parentPath row.name = row.path

/-- **The folders of a directory** are sorted by their names, each name once. -/
lemma folders_ordered (hrows : Rebuilt b) (hnames : JoinedNames b) (d : Path) :
    (b.folders d "").Pairwise fun x y => b.nameLe x.name y.name ∧ x.name ≠ y.name := by
  have htotal : Std.Total fun x y : DirectoryRow => b.nameLe x.name y.name :=
    ⟨fun x y => nameLe_total x.name y.name⟩
  have htrans : IsTrans DirectoryRow fun x y => b.nameLe x.name y.name :=
    ⟨fun _ _ _ => nameLe_trans⟩
  set rows := b.projection.filter fun row => row.parentPath = d with hrowsd
  have hfolders : b.folders d "" = (rows.insertionSort fun x y => b.nameLe x.name y.name).map
      fun row => directoryRowToItem row b.protectionUnconfirmed := by
    simp [folders, childDirectoryRows, hrowsd]
  have hsorted := pairwise_insertionSort
    (fun x y : DirectoryRow => b.nameLe x.name y.name) rows
  have hpaths : rows.Pairwise fun x y => x.path ≠ y.path :=
    (pairwise_map.mp hrows.paths).filter _
  have hnamesne : rows.Pairwise fun x y => x.name ≠ y.name := by
    refine hpaths.imp_of_mem fun {x y} hx hy hxy heq => hxy ?_
    -- rows of one parent with one name have one path
    obtain ⟨hx, hxd⟩ := mem_filter.mp hx
    obtain ⟨hy, hyd⟩ := mem_filter.mp hy
    rw [← (hnames x hx).2, ← (hnames y hy).2, heq, of_decide_eq_true hxd, of_decide_eq_true hyd]
  have hne : (rows.insertionSort fun x y => b.nameLe x.name y.name).Pairwise
      fun x y => x.name ≠ y.name :=
    (perm_insertionSort _ rows).symm.pairwise hnamesne fun hxy => hxy.symm
  rw [hfolders, pairwise_map]
  exact hsorted.imp₂ (fun _ _ hle hxy => ⟨hle, hxy⟩) hne

/-- A visible file is counted for the directories it lies below, and for no others. -/
def FiledBelow (b : BrowseContext) : Prop :=
  ∀ r ∈ b.cat.rows b.vaultId, ∀ d, naming d r = lyingBelow d r

/-- The rows of a projection are its child directories, under their parents and names. -/
lemma row_iff_childDirectory (hrows : Rebuilt b) (hnames : JoinedNames b) (hfiled : FiledBelow b)
    (d : Path) (w : List Char) :
    (∃ row ∈ b.projection, row.parentPath = d ∧ row.name = w) ↔
      ChildDirectory b.cat b.vaultId d w := by
  constructor
  · rintro ⟨row, hrow, rfl, rfl⟩
    obtain ⟨r, hr, hnaming⟩ := (hrows.stored row.path).mp ⟨row, hrow, rfl⟩
    rw [hfiled r hr, lyingBelow, Bool.and_eq_true, decide_eq_true_iff] at hnaming
    obtain ⟨hslash, hjoin⟩ := hnames row hrow
    exact ⟨hslash, r, hr, hnaming.1, hjoin.symm ▸ hnaming.2⟩
  · rintro ⟨hslash, r, hr, hvisible, hbelow⟩
    have hnaming : naming (joinName d w) r := by
      rw [hfiled r hr, lyingBelow, hvisible, decide_eq_true hbelow]
      rfl
    obtain ⟨row, hrow, hpath⟩ := (hrows.stored _).mpr ⟨r, hr, hnaming⟩
    obtain ⟨hname, hjoin⟩ := hnames row hrow
    exact ⟨row, hrow, joinName_injective hname hslash (hjoin.trans hpath)⟩

/-- **Listing**: the folders are the child directories, the files the direct files. -/
lemma listsChildren (hrows : Rebuilt b) (hnames : JoinedNames b) (hfiled : FiledBelow b)
    (d : Path) : ListsChildren b d (b.folders d "") (b.files d "") where
  ordered := folders_ordered hrows hnames d
  directories q w := by
    rw [← row_iff_childDirectory hrows hnames hfiled]
    constructor
    · rintro ⟨x, hx, rfl, rfl⟩
      obtain ⟨row, hrow, rfl, rfl⟩ := mem_folders.mp hx
      exact ⟨⟨row, hrow, rfl, rfl⟩, (hnames row hrow).2.symm⟩
    · rintro ⟨⟨row, hrow, rfl, rfl⟩, rfl⟩
      exact ⟨_, mem_folders.mpr ⟨row, hrow, rfl, rfl⟩, (hnames row hrow).2.symm, rfl⟩
  files := files_perm d

lemma row_path_ne_nil (hrows : Rebuilt b) {row : DirectoryRow} (hrow : row ∈ b.projection) :
    row.path ≠ [] := by
  obtain ⟨r, -, hnaming⟩ := (hrows.stored row.path).mp ⟨row, hrow, rfl⟩
  have hanc := of_decide_eq_true (Bool.and_eq_true_iff.mp hnaming).2
  rw [mem_ancestorDirectories] at hanc
  rintro hnil
  obtain ⟨t, ht⟩ := hnil ▸ hanc
  cases Text.strip_head_not (· == '/') _ '/' t ht.symm

/-- The paths of the child directories in the projection. -/
def childPaths (b : BrowseContext) (d : Path) : List Path :=
  (b.projection.filter fun c => ChildPath d c.path).map DirectoryRow.path

/-- What lies below the directory of a row, split over its children in the projection. -/
lemma count_below_row (hrows : Rebuilt b) (hd : d ≠ [])
    (hall : ∀ w, ChildDirectory b.cat b.vaultId d w →
      ∃ row ∈ b.projection, row.path = joinName d w) :
    (b.cat.rows b.vaultId).countP (lyingBelow d) =
      (childFiles b.cat b.vaultId d).length +
        ((b.childPaths d).map fun c => (b.cat.rows b.vaultId).countP (lyingBelow c)).sum := by
  refine count_below hd ?_ (fun c hc => ?_) fun w hw => ?_
  · exact List.Nodup.sublist (filter_sublist.map _) hrows.paths
  · obtain ⟨row, hrow, rfl⟩ := mem_map.mp hc
    exact of_decide_eq_true (mem_filter.mp hrow).2
  · obtain ⟨row, hrow, hpath⟩ := hall w hw
    refine mem_map.mpr ⟨row, mem_filter.mpr ⟨hrow, decide_eq_true ?_⟩, hpath⟩
    exact ⟨w, hw.1, hpath⟩

/-- **Counting**: a directory counts its direct files and what its children count. -/
lemma counted_of_filed (hrows : Rebuilt b) (hnames : JoinedNames b) (hfiled : FiledBelow b)
    {row : DirectoryRow} (hrow : row ∈ b.projection) :
    row.rollup.itemCount = (childFiles b.cat b.vaultId row.path).length +
      ((b.projection.filter fun c => ChildPath row.path c.path).map
        fun c => c.rollup.itemCount).sum := by
  have hcount : ∀ c ∈ b.projection,
      c.rollup.itemCount = (b.cat.rows b.vaultId).countP (lyingBelow c.path) := by
    intro c hc
    rw [hrows.counts c hc]
    exact countP_congr fun r hr => by rw [hfiled r hr]
  have hsum : (b.projection.filter fun c => ChildPath row.path c.path).map
      (fun c => c.rollup.itemCount) = (b.childPaths row.path).map
        fun c => (b.cat.rows b.vaultId).countP (lyingBelow c) := by
    rw [childPaths, map_map]
    exact map_congr_left fun c hc => hcount c (mem_filter.mp hc).1
  rw [hcount row hrow, hsum]
  refine count_below_row hrows (row_path_ne_nil hrows hrow) fun w hw => ?_
  obtain ⟨c, hc, hparent, rfl⟩ := (row_iff_childDirectory hrows hnames hfiled _ w).mpr hw
  exact ⟨c, hc, hparent ▸ (hnames c hc).2.symm⟩

lemma browsedExactly (hrows : Rebuilt b) (hnames : JoinedNames b) (hfiled : FiledBelow b) :
    BrowsedExactly b where
  pages d pageSize _ := by
    refine ⟨_, _, listsChildren hrows hnames hfiled d, fun k hk => ?_, fun page => ?_⟩
    · exact b.browse_pages d "" pageSize k hk
    · rw [b.browseDirectoryPage_eq]
  counted _ hrow := counted_of_filed hrows hnames hfiled hrow

/-! ### What exact browsing says about the names -/

lemma folders_eq_of_items {xs xs' : List DirectoryItem} {ys ys' : List FileItem}
    (h : xs.map BrowseItem.directory ++ ys.map BrowseItem.file =
      xs'.map BrowseItem.directory ++ ys'.map BrowseItem.file) : xs = xs' := by
  have hleft : ∀ (zs : List DirectoryItem) (us : List FileItem),
      (zs.map BrowseItem.directory ++ us.map BrowseItem.file).filterMap (fun
        | .directory x => some x
        | .file _ => none) = zs := by
    intro zs us
    simp [filterMap_map]
  rw [← hleft xs ys, h, hleft]

lemma folders_of_browsed (h : BrowsedExactly b) (d : Path) (q : Path) (w : List Char) :
    (∃ x ∈ b.folders d "", x.path = q ∧ x.name = w) ↔
      ChildDirectory b.cat b.vaultId d w ∧ q = joinName d w := by
  obtain ⟨folders, files, hlists, hpages, htotal⟩ := h.pages d 1 Nat.one_pos
  have hlen := htotal 1
  rw [b.browseDirectoryPage_eq] at hlen
  have hsame := hpages ((b.folders d "").length + (b.files d "").length) (by omega)
  rw [b.browse_pages d "" 1 _ (by omega)] at hsame
  rw [folders_eq_of_items hsame]
  exact hlists.directories q w

/-- **The directories of a visible path keep their names.** -/
lemma normal_of_browsed (hrows : Rebuilt b) (h : BrowsedExactly b)
    (hr : r ∈ b.cat.rows b.vaultId) (hvisible : r.visible)
    (hd : d ++ ['/'] <+: r.path) : (normalize d = d ∧ d ≠ []) ∧
      ∃ row ∈ b.projection, row.path = d := by
  have hrow : ∀ q w, '/' ∉ w → joinName q w ++ ['/'] <+: r.path →
      ∃ row ∈ b.projection, row.path = joinName q w ∧ row.parentPath = q ∧ row.name = w := by
    intro q w hw hbelow
    obtain ⟨x, hx, hpath, hname⟩ :=
      (folders_of_browsed h q (joinName q w) w).mpr ⟨⟨hw, r, hr, hvisible, hbelow⟩, rfl⟩
    obtain ⟨row, hrow, hparent, rfl⟩ := mem_folders.mp hx
    exact ⟨row, hrow, hpath, hparent, hname⟩
  have hstart : ¬[] ++ ['/'] <+: r.path := by
    intro hslash
    obtain ⟨row, hrow, hpath, -⟩ := hrow [] [] (by simp) hslash
    exact row_path_ne_nil hrows hrow hpath
  have hne : d ≠ [] := by
    rintro rfl
    exact hstart hd
  obtain ⟨q, w, hw, hjoin⟩ : ∃ q w, '/' ∉ w ∧ d = joinName q w := by
    by_cases hmem : '/' ∈ d
    · obtain ⟨q, w, hqw, hw⟩ := Text.exists_last_sep '/' hmem
      refine ⟨q, w, hw, ?_⟩
      rw [joinName, if_neg, hqw]
      rintro rfl
      exact hstart (List.IsPrefix.trans ⟨w ++ ['/'], by simp [hqw]⟩ hd)
    · exact ⟨[], d, hmem, rfl⟩
  obtain ⟨row, hmem, hpath, hparent, hname⟩ := hrow q w hw (hjoin ▸ hd)
  have hsplit : (q, w) = parentAndName d := by
    rw [← hparent, ← hname, hrows.split row hmem, hpath, hjoin]
  refine ⟨⟨?_, hne⟩, row, hmem, hpath.trans hjoin.symm⟩
  by_cases hnil : normalize d = []
  · rw [parentAndName, if_pos hnil, Prod.mk.injEq] at hsplit
    rw [hsplit.1, hsplit.2] at hjoin
    exact absurd hjoin hne
  · rw [← (joinName_parentAndName hnil).2, ← hsplit]
    exact hjoin.symm

/-- The normalisation of a path that begins with a kept character drops characters at its end
only. -/
lemma normalize_starts {p : Path} (h : ∀ c cs, p = c :: cs → Kept c) : normalize p <+: p := by
  cases p with
  | nil => exact nil_prefix
  | cons c cs =>
      obtain ⟨hspace, hslash⟩ := h c cs rfl
      have hfirst : Text.strip isSpace (c :: cs) <+: c :: cs := by
        rw [Text.strip, dropWhile_cons_of_neg (by simp [hspace])]
        exact rdropWhile_prefix _ _
      refine List.IsPrefix.trans ?_ hfirst
      rw [normalize]
      cases hstripped : Text.strip isSpace (c :: cs) with
      | nil => exact nil_prefix
      | cons x xs =>
          rw [hstripped, cons_prefix_cons] at hfirst
          rw [Text.strip, dropWhile_cons_of_neg (by simpa [hfirst.1] using hslash)]
          exact rdropWhile_prefix _ _

/-- A file is counted only for directories it lies below. -/
lemma below_of_naming (hrows : Rebuilt b) (h : BrowsedExactly b)
    (hr : r ∈ b.cat.rows b.vaultId) (hnaming : naming d r) :
    lyingBelow d r := by
  obtain ⟨hvisible, hanc⟩ := Bool.and_eq_true_iff.mp hnaming
  have hpre := (mem_ancestorDirectories r.path d).mp (of_decide_eq_true hanc)
  have hmem : '/' ∈ r.path :=
    ((Text.strip_infix _ _).trans (Text.strip_infix _ _)).subset (hpre.subset (by simp))
  obtain ⟨q, u, hq, -⟩ := Text.exists_last_sep '/' hmem
  have hqpre : q ++ ['/'] <+: r.path := ⟨u, by simp [hq]⟩
  obtain ⟨⟨hnormal, hne⟩, -⟩ := normal_of_browsed hrows h hr hvisible hqpre
  have hstart : ∀ c cs, r.path = c :: cs → Kept c := by
    intro c cs hc
    obtain ⟨x, xs, ys, hx, hpx⟩ := head_of_prefix hqpre hne
    obtain rfl : c = x := (cons_eq_cons.mp (hc.symm.trans hpx)).1
    exact ((normalize_eq_self_iff q).mp hnormal).1 c xs hx
  rw [lyingBelow, hvisible, decide_eq_true (hpre.trans (normalize_starts hstart))]
  rfl

/-- **A directory counts what lies below it.**  By induction from the deepest directories up. -/
lemma itemCount_of_browsed (hrows : Rebuilt b) (h : BrowsedExactly b) (n : ℕ)
    {row : DirectoryRow} (hrow : row ∈ b.projection)
    (hdeep : ∀ r ∈ b.cat.rows b.vaultId, r.path.length < row.path.length + n) :
    row.rollup.itemCount = (b.cat.rows b.vaultId).countP (lyingBelow row.path) := by
  induction n generalizing row with
  | zero =>
      -- no path is long enough to name this directory
      obtain ⟨r, hr, hnaming⟩ := (hrows.stored row.path).mp ⟨row, hrow, rfl⟩
      have hbelow := below_of_naming hrows h hr hnaming
      have hlen := (of_decide_eq_true (Bool.and_eq_true_iff.mp hbelow).2).length_le
      have := hdeep r hr
      simp only [length_append, length_singleton] at hlen
      omega
  | succ n ih =>
      have hchild : (b.projection.filter fun c => ChildPath row.path c.path).map
          (fun c => c.rollup.itemCount) = (b.childPaths row.path).map
            fun c => (b.cat.rows b.vaultId).countP (lyingBelow c) := by
        rw [childPaths, map_map]
        refine map_congr_left fun c hc => ?_
        obtain ⟨hc, hcp⟩ := mem_filter.mp hc
        refine ih hc fun r hr => ?_
        obtain ⟨w, -, hw⟩ := of_decide_eq_true hcp
        have := hdeep r hr
        rw [hw, joinName, if_neg (row_path_ne_nil hrows hrow), length_append,
          length_cons]
        omega
      rw [h.counted row hrow, hchild]
      refine (count_below_row hrows (row_path_ne_nil hrows hrow) fun w hw => ?_).symm
      obtain ⟨x, hx, hpath, -⟩ :=
        (folders_of_browsed h row.path (joinName row.path w) w).mpr ⟨hw, rfl⟩
      obtain ⟨c, hc, -, rfl⟩ := mem_folders.mp hx
      exact ⟨c, hc, hpath⟩

/-- **A file is counted for every directory it lies below.** -/
lemma naming_of_below (hrows : Rebuilt b) (h : BrowsedExactly b)
    (hr : r ∈ b.cat.rows b.vaultId) (hbelow : lyingBelow d r) :
    naming d r := by
  obtain ⟨hvisible, hpre⟩ := Bool.and_eq_true_iff.mp hbelow
  obtain ⟨-, row, hrow, rfl⟩ := normal_of_browsed hrows h hr hvisible (of_decide_eq_true hpre)
  set rows := b.cat.rows b.vaultId
  have hcount : rows.countP (naming row.path) = rows.countP (lyingBelow row.path) := by
    rw [← hrows.counts row hrow]
    refine itemCount_of_browsed hrows h ((rows.map fun r => r.path.length).sum + 1) hrow ?_
    intro r' hr'
    have hlen : r'.path.length ∈ rows.map fun r => r.path.length :=
      mem_map.mpr ⟨r', hr', rfl⟩
    have := single_le_sum (by simp) _ hlen
    omega
  -- the rows that are counted are among those that lie below, and as many
  have hfilter : (rows.filter (lyingBelow row.path)).filter (naming row.path) =
      rows.filter (naming row.path) := by
    rw [filter_filter]
    refine filter_congr fun r' hr' => ?_
    cases hnaming : naming row.path r' with
    | false => rfl
    | true => rw [below_of_naming hrows h hr' hnaming, Bool.true_and]
  have hlength : ((rows.filter (lyingBelow row.path)).filter (naming row.path)).length =
      (rows.filter (lyingBelow row.path)).length := by
    rw [hfilter, ← countP_eq_length_filter, ← countP_eq_length_filter, hcount]
  exact length_filter_eq_length_iff.mp hlength r (mem_filter.mpr ⟨hr, hbelow⟩)

end BrowseContext

/-! ### Exact browsing -/

/-- The plainly named paths of a Vault are filed below their directories, under their names. -/
lemma filed_of_plain {b : BrowseContext} (hrows : Rebuilt b)
    (h : ∀ r ∈ b.cat.rows b.vaultId, r.visible → '/' ∉ r.path ∨ PlainlyNamed r.path) :
    b.FiledBelow ∧ b.JoinedNames := by
  have hfiled : b.FiledBelow := by
    intro r hr d
    rw [naming, lyingBelow]
    cases hvisible : r.visible with
    | false => rfl
    | true =>
        rw [ancestors_of_plain (h r hr hvisible)]
        simp only [Text.mem_properPrefixes]
  refine ⟨hfiled, fun row hrow => ?_⟩
  obtain ⟨r, hr, hnaming⟩ := (hrows.stored row.path).mp ⟨row, hrow, rfl⟩
  rw [hfiled r hr, lyingBelow, Bool.and_eq_true, decide_eq_true_iff] at hnaming
  obtain ⟨hvisible, hbelow⟩ := hnaming
  have hplain := (h r hr hvisible).resolve_left (not_not.mpr (hbelow.subset (by simp)))
  obtain ⟨hnormal, hne⟩ := hplain.normalize_eq hbelow
  have hsplit := parentAndName_spec hnormal hne
  rwa [← hrows.split row hrow] at hsplit

/-- **Exact browsing.**  Over a projection that equals a full rebuild, the pages of every
directory, of every size, list its child directories in the order of their names and then its
direct files, each once and with the right total, and every directory counts its direct files and
what its child directories count, if and only if every visible path of the Vault has no directory
or plain names. -/
theorem browse_exact_iff (b : BrowseContext) (batchSize : Option ℤ)
    (hrebuilt : b.projection.Perm (rebuiltRows b.coll b.cat b.vaultId batchSize)) :
    BrowsedExactly b ↔
      ∀ r ∈ b.cat.rows b.vaultId, r.visible = true → '/' ∉ r.path ∨ PlainlyNamed r.path := by
  have hrows := rebuilt_of_perm hrebuilt
  constructor
  · intro h r hr hvisible
    by_cases hmem : '/' ∈ r.path
    · right
      refine plainlyNamed_of_normal hmem (fun d hd => ?_) fun d hd => ?_
      · exact (BrowseContext.normal_of_browsed hrows h hr hvisible hd).1
      · have hbelow : lyingBelow d r = true := by
          rw [lyingBelow, hvisible, decide_eq_true hd]
          rfl
        have hnaming := BrowseContext.naming_of_below hrows h hr hbelow
        exact of_decide_eq_true (Bool.and_eq_true_iff.mp hnaming).2
    · exact .inl hmem
  · intro h
    obtain ⟨hfiled, hnames⟩ := filed_of_plain hrows h
    exact BrowseContext.browsedExactly hrows hnames hfiled

/-- A Vault, browsed after a full rebuild. -/
def browseRebuilt (cat : Catalog) : BrowseContext where
  coll := .codePoint
  lower := id
  cat := cat
  vaultId := 0
  projection := rebuiltRows .codePoint cat 0 none
  protectionUnconfirmed := false

/-- A Vault with the files `a/b`, `c/d`, `e/f` and `g` on disk. -/
def fourFilesCatalog : Catalog where
  files := [⟨1, 0, .active, some ['a', '/', 'b'], 0, [], some freshCopy, [], []⟩,
    ⟨2, 0, .active, some ['c', '/', 'd'], 0, [], some freshCopy, [], []⟩,
    ⟨3, 0, .active, some ['e', '/', 'f'], 0, [], some freshCopy, [], []⟩,
    ⟨4, 0, .active, some ['g'], 0, [], some freshCopy, [], []⟩]
  jobs := []
  items := []
  ids_nodup := by decide
  paths_unique := by simp [PathsDistinct]
  versions_unique := by simp [VaultFile.versionKeys]
  jobIds_nodup := nodup_nil

/-- The path of an item. -/
def BrowseItem.path : BrowseItem → Path
  | .directory item => item.path
  | .file item => item.path

/-- The four files are browsed exactly: the second page of two takes the last directory and the
file of the root. -/
theorem browse_exact_two_pages : BrowsedExactly (browseRebuilt fourFilesCatalog) ∧
    ((browseRebuilt fourFilesCatalog).browseDirectoryPage [] "" 1 2).1.map BrowseItem.path =
      [['a'], ['c']] ∧
    ((browseRebuilt fourFilesCatalog).browseDirectoryPage [] "" 2 2).1.map BrowseItem.path =
      [['e'], ['g']] := by
  refine ⟨(browse_exact_iff _ none (List.Perm.refl _)).mpr fun r hr _ => ?_, by decide, by decide⟩
  have hpath : r.path = ['g'] ∨ r.path ∈ [['a', '/', 'b'], ['c', '/', 'd'], ['e', '/', 'f']] := by
    revert r
    decide
  have hdirectories : ∀ p ∈ [['a', '/', 'b'], ['c', '/', 'd'], ['e', '/', 'f']], '/' ∈ p ∧
      ∀ d ∈ Text.properPrefixes '/' p,
        (normalize d = d ∧ d ≠ []) ∧ d ∈ ancestorDirectories p := by decide
  rcases hpath with hpath | hpath
  · exact .inl (by rw [hpath]; decide)
  · obtain ⟨hmem, hprefixes⟩ := hdirectories _ hpath
    refine .inr (plainlyNamed_of_normal hmem (fun d hd => ?_) fun d hd => ?_)
    · exact (hprefixes d ((Text.mem_properPrefixes _ _ _).mpr hd)).1
    · exact (hprefixes d ((Text.mem_properPrefixes _ _ _).mpr hd)).2

/-- The file ` a/b` is counted for the directory `a`, below which it does not lie. -/
theorem browse_of_leading_space : ¬∀ (b : BrowseContext) (batchSize : Option ℤ),
    b.projection.Perm (rebuiltRows b.coll b.cat b.vaultId batchSize) → BrowsedExactly b := by
  intro h
  have hexact := h (browseRebuilt (oneFileCatalog [' ', 'a', '/', 'b'])) none (List.Perm.refl _)
  obtain ⟨r, hr, hnaming, hbelow⟩ : ∃ r ∈ (oneFileCatalog [' ', 'a', '/', 'b']).rows 0,
      naming ['a'] r = true ∧ lyingBelow ['a'] r = false := by decide
  have hrows := rebuilt_of_perm (b := browseRebuilt (oneFileCatalog [' ', 'a', '/', 'b']))
    (List.Perm.refl _)
  rw [BrowseContext.below_of_naming hrows hexact hr hnaming] at hbelow
  exact Bool.false_ne_true hbelow.symm

end Frostvault
